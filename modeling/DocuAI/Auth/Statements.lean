import DocuAI.Auth.Rotation

/-!
# The statements of a call

Everything a step of a call can be, with what it has looked up and what it records: one case for
each branch of the four operations.
-/

namespace DocuAI

namespace AuthService

/-- The steps of a call. -/
inductive Call.Takes (config : AuthConfig) (crypto : Crypto) (unicode : Unicode) (s : State)
    (c : Call) : State → Phase → Prop where
  /-- `register`: the email is taken, at the look-up or at the insertion. -/
  | duplicate {dto : RegisterDto} {user : User}
      (hphase : c.phase = .registering dto ∨ c.phase = .creatingUser dto)
      (hfind : s.findByEmail unicode dto.email = some user) :
      Takes config crypto unicode s c
        (s.record (.REGISTER_FAILED (js "email_already_exists")))
        (.returned (.error emailAlreadyExists))
  | unregistered {dto : RegisterDto} (hphase : c.phase = .registering dto)
      (hfind : s.findByEmail unicode dto.email = none) :
      Takes config crypto unicode s c s (.creatingUser dto)
  | createsUser {dto : RegisterDto} {id : ℕ} {passwordHash : JsString}
      (hphase : c.phase = .creatingUser dto)
      (hfree : s.registersEmail (normalizeEmail unicode dto.email) = false)
      (hfind : s.findByEmail unicode dto.email = none) :
      Takes config crypto unicode s c s
        (.creatingSession (createdUser unicode dto id passwordHash s.now))
  | createsSession {user : User} {id : ℕ} {token : JsString} {issued : State × RefreshToken}
      (hphase : c.phase = .creatingSession user)
      (hissued : s.issueRefreshToken config crypto c.ctx id user.id token = some issued) :
      Takes config crypto unicode s c issued.1 (.committingUser user issued.2 token)
  | commitsUser {user : User} {row : RefreshToken} {token : JsString} {users : Table User.id}
      {tokens : Table RefreshToken.id} (hphase : c.phase = .committingUser user row token)
      (husers : s.users.create user = some users) (htokens : s.tokens.create row = some tokens) :
      Takes config crypto unicode s c
        (State.record { s with users, tokens } (.REGISTER_SUCCESS user.id row.id))
        (.returned (.ok (.session (buildTokenPair config user.id token) (toPublicUser user))))
  /-- `login`: no user has the email, the password is wrong, or the account is not ACTIVE. -/
  | refuses {dto : LoginDto} {userId : Option ℕ} {reason : JsString} {error : AppException}
      (hphase : c.phase = .loggingIn dto) :
      Takes config crypto unicode s c (s.record (.LOGIN_FAILED userId reason))
        (.returned (.error error))
  | authenticates {dto : LoginDto} {user : User} (hphase : c.phase = .loggingIn dto)
      (hfind : s.findByEmail unicode dto.email = some user)
      (hverify : crypto.verify user.passwordHash dto.password = true)
      (hactive : user.status = .ACTIVE) :
      Takes config crypto unicode s c s (.startingSession user)
  | startsSession {user : User} {id : ℕ} {token : JsString} {issued : State × RefreshToken}
      {tokens : Table RefreshToken.id} (hphase : c.phase = .startingSession user)
      (hissued : s.issueRefreshToken config crypto c.ctx id user.id token = some issued)
      (htokens : s.tokens.create issued.2 = some tokens) :
      Takes config crypto unicode s c
        (State.record { issued.1 with tokens } (.LOGIN_SUCCESS user.id issued.2.id))
        (.returned (.ok (.session (buildTokenPair config user.id token) (toPublicUser user))))
  | unknownToken {rawToken : JsString} (hphase : c.phase = .presenting rawToken)
      (hfind : s.findRefreshToken crypto rawToken = none) :
      Takes config crypto unicode s c
        (s.record (.REFRESH_TOKEN_REJECTED none none (js "unknown_token")))
        (.returned (.error invalidRefreshToken))
  | findsToken {rawToken : JsString} {existing : RefreshToken}
      (hphase : c.phase = .presenting rawToken)
      (hfind : s.findRefreshToken crypto rawToken = some existing) :
      Takes config crypto unicode s c s (.joining existing)
  | orphan {existing : RefreshToken} (hphase : c.phase = .joining existing)
      (hfind : s.users.find existing.userId = none) :
      Takes config crypto unicode s c s .rejected
  | joins {existing : RefreshToken} {user : User} (hphase : c.phase = .joining existing)
      (hfind : s.users.find existing.userId = some user) :
      Takes config crypto unicode s c s (.checking existing user)
  | findsReused {existing : RefreshToken} {user : User} (hphase : c.phase = .checking existing user)
      (hrevoked : existing.revokedAt ≠ none) :
      Takes config crypto unicode s c s (.reusing existing s.now)
  | findsExpired {existing : RefreshToken} {user : User} (hphase : c.phase = .checking existing user)
      (hlive : existing.revokedAt = none) (hexpired : existing.expiresAt ≤ s.now) :
      Takes config crypto unicode s c s (.expiring existing s.now)
  | findsInactive {existing : RefreshToken} {user : User}
      (hphase : c.phase = .checking existing user) (hlive : existing.revokedAt = none)
      (hactive : user.status ≠ .ACTIVE) :
      Takes config crypto unicode s c s (.suspending existing user s.now)
  | accepts {existing : RefreshToken} {user : User} (hphase : c.phase = .checking existing user)
      (hlive : existing.revokedAt = none) (hvalid : s.now < existing.expiresAt)
      (hactive : user.status = .ACTIVE) :
      Takes config crypto unicode s c s (.beginning existing)
  | expires {existing : RefreshToken} {revokedAt : ℕ} {revoked : State × ℕ}
      (hphase : c.phase = .expiring existing revokedAt)
      (hrevoked : s.revokeMany (revokeOne existing.id revokedAt) = some revoked) :
      Takes config crypto unicode s c
        (revoked.1.record
          (.REFRESH_TOKEN_REJECTED (some existing.userId) (some existing.id) (js "expired")))
        (.returned (.error refreshTokenExpired))
  | suspends {existing : RefreshToken} {user : User} {revokedAt : ℕ} {revoked : State × ℕ}
      (hphase : c.phase = .suspending existing user revokedAt)
      (hrevoked : s.revokeMany (revokeOne existing.id revokedAt) = some revoked) :
      Takes config crypto unicode s c
        (revoked.1.record (.REFRESH_TOKEN_REJECTED (some user.id) none (statusReason user.status)))
        (.returned (.error (accountStatusException user.status)))
  | begins {existing : RefreshToken} (hphase : c.phase = .beginning existing) :
      Takes config crypto unicode s c s (.rotating existing s.now)
  | locks {existing : RefreshToken} {revokedAt : ℕ} (hphase : c.phase = .rotating existing revokedAt)
      (hfree : s.locked existing.id = false)
      (hlive : ∃ row, s.tokens.find existing.id = some row ∧ row.revokedAt = none) :
      Takes config crypto unicode s c s (.inserting existing revokedAt)
  | loses {existing : RefreshToken} {revokedAt : ℕ} (hphase : c.phase = .rotating existing revokedAt)
      (hdead : ∀ row, s.tokens.find existing.id = some row → row.revokedAt ≠ none) :
      Takes config crypto unicode s c s (.losing existing)
  | inserts {existing : RefreshToken} {revokedAt id : ℕ} {token : JsString} {ctx : SessionContext}
      {issued : State × RefreshToken} (hphase : c.phase = .inserting existing revokedAt)
      (hissued : s.issueRefreshToken config crypto ctx id existing.userId token = some issued) :
      Takes config crypto unicode s c issued.1 (.committing existing revokedAt issued.2 token)
  | commits {existing row : RefreshToken} {revokedAt : ℕ} {token : JsString}
      {tokens : Table RefreshToken.id} (hphase : c.phase = .committing existing revokedAt row token)
      (htokens : (s.tokens.updateMany (publishRevoked existing.id revokedAt)).1.create row
        = some tokens) :
      Takes config crypto unicode s c
        (State.record
          { s with
            tokens
            rotations := s.rotations
              ++ [{ callId := c.id, token := existing.id, successor := row.id }] }
          (.REFRESH_TOKEN_ROTATED existing.userId row.id existing.id))
        (.returned (.ok (.rotated (buildTokenPair config existing.userId token))))
  | lost {existing : RefreshToken} (hphase : c.phase = .losing existing) :
      Takes config crypto unicode s c s (.reusing existing s.now)
  | startsReuse {token : RefreshToken} {revokedAt : ℕ} (hphase : c.phase = .reusing token revokedAt) :
      Takes config crypto unicode s c s
        (.revoking token revokedAt (s.tokens.rows.map RefreshToken.id))
  | revokesFamily {token : RefreshToken} {revokedAt : ℕ} {visible : List ℕ} {revoked : State × ℕ}
      (hphase : c.phase = .revoking token revokedAt visible)
      (hrevoked : s.revokeMany (revokeAll visible token.userId revokedAt) = some revoked) :
      Takes config crypto unicode s c
        (revoked.1.record (.REFRESH_TOKEN_REUSE_DETECTED token.userId token.id revoked.2))
        (.returned (.error refreshTokenReused))
  /-- `logout`: no token is found, or the token of another user. -/
  | leavesAlone {rawToken : JsString} {userId : ℕ} {reason : JsString}
      (hphase : c.phase = .loggingOut rawToken userId)
      (hfind : ∀ existing, s.findRefreshToken crypto rawToken = some existing →
        existing.userId ≠ userId) :
      Takes config crypto unicode s c (s.record (.LOGOUT userId none reason))
        (.returned (.ok .loggedOut))
  | findsSession {rawToken : JsString} {userId : ℕ} {existing : RefreshToken}
      (hphase : c.phase = .loggingOut rawToken userId)
      (hfind : s.findRefreshToken crypto rawToken = some existing)
      (howner : existing.userId = userId) :
      Takes config crypto unicode s c s (.endingSession existing userId s.now)
  | endsSession {existing : RefreshToken} {userId revokedAt : ℕ} {revoked : State × ℕ}
      {reason : JsString} (hphase : c.phase = .endingSession existing userId revokedAt)
      (hrevoked : s.revokeMany (revokeOne existing.id revokedAt) = some revoked)
      (hreason : reason = if revoked.2 = 1 then js "revoked" else js "already_revoked") :
      Takes config crypto unicode s c
        (revoked.1.record (.LOGOUT userId (some existing.id) reason))
        (.returned (.ok .loggedOut))
  | throws (hphase : ∀ result, c.phase ≠ .returned result) :
      Takes config crypto unicode s c s .rejected

section

variable {config : AuthConfig} {crypto : Crypto} {unicode : Unicode} {s s' : State} {c : Call}
  {phase : Phase}

theorem Call.takes_of_authenticate {dto : LoginDto} (hphase : c.phase = .loggingIn dto)
    (h : authenticate crypto unicode s dto = (s', phase)) :
  c.Takes config crypto unicode s s' phase
  := by
  unfold authenticate at h
  simp only at h
  split at h
  · obtain ⟨rfl, rfl⟩ := Prod.mk.inj h
    exact .refuses hphase
  · rename_i user hfind
    rw [hfind] at h
    split at h
    · obtain ⟨rfl, rfl⟩ := Prod.mk.inj h
      exact .refuses hphase
    · rename_i hverify
      split at h
      · obtain ⟨rfl, rfl⟩ := Prod.mk.inj h
        exact .refuses hphase
      · rename_i hactive
        obtain ⟨rfl, rfl⟩ := Prod.mk.inj h
        exact .authenticates hphase hfind (by simpa using hverify) (not_not.mp hactive)

theorem Call.takes_of_check {existing : RefreshToken} {user : User}
    (hphase : c.phase = .checking existing user) :
  c.Takes config crypto unicode s s (check s existing user)
  := by
  unfold check
  split
  · rename_i hrevoked
    exact .findsReused hphase (Option.isSome_iff_ne_none.mp hrevoked)
  · rename_i hlive
    rw [Option.not_isSome_iff_eq_none] at hlive
    split
    · rename_i hexpired
      exact .findsExpired hphase hlive hexpired
    · rename_i hvalid
      split
      · rename_i hactive
        exact .findsInactive hphase hlive hactive
      · rename_i hactive
        exact .accepts hphase hlive (Nat.lt_of_not_le hvalid) (not_not.mp hactive)

theorem Call.takes_of_rotate {existing : RefreshToken} {revokedAt : ℕ}
    (hphase : c.phase = .rotating existing revokedAt)
    (h : rotate s existing revokedAt = some (s', phase)) :
  c.Takes config crypto unicode s s' phase
  := by
  unfold rotate at h
  split at h
  · cases h
  · rename_i hfree
    split at h
    · rename_i hcount
      obtain ⟨rfl, rfl⟩ := Prod.mk.inj (Option.some.inj h)
      exact .locks hphase (Bool.not_eq_true _ ▸ hfree) (revokeOne_count.mp hcount)
    · rename_i hcount
      obtain ⟨rfl, rfl⟩ := Prod.mk.inj (Option.some.inj h)
      refine .loses hphase fun row hrow hlive => ?_
      apply hcount (revokeOne_count.mpr ⟨row, hrow, hlive⟩)

theorem Call.takes_of_advance (h : c.advance config crypto unicode s = some (s', phase)) :
  c.Takes config crypto unicode s s' phase
  := by
  cases hphase : c.phase with
  | registering dto =>
      simp only [advance, hphase] at h
      split at h
      · rename_i user hfind
        obtain ⟨rfl, rfl⟩ := Prod.mk.inj (Option.some.inj h)
        exact .duplicate (.inl hphase) hfind
      · rename_i hfind
        obtain ⟨rfl, rfl⟩ := Prod.mk.inj (Option.some.inj h)
        exact .unregistered hphase hfind
  | committingUser user row token =>
      simp only [advance, hphase] at h
      obtain ⟨users, husers, h⟩ := Option.bind_eq_some_iff.mp h
      obtain ⟨tokens, htokens, h⟩ := Option.bind_eq_some_iff.mp h
      obtain ⟨rfl, rfl⟩ := Prod.mk.inj (Option.some.inj h)
      exact .commitsUser hphase husers htokens
  | loggingIn dto =>
      simp only [advance, hphase] at h
      apply takes_of_authenticate hphase (Option.some.inj h)
  | presenting rawToken =>
      simp only [advance, hphase] at h
      split at h
      · rename_i hfind
        obtain ⟨rfl, rfl⟩ := Prod.mk.inj (Option.some.inj h)
        exact .unknownToken hphase hfind
      · rename_i existing hfind
        obtain ⟨rfl, rfl⟩ := Prod.mk.inj (Option.some.inj h)
        exact .findsToken hphase hfind
  | joining existing =>
      simp only [advance, hphase] at h
      split at h
      · rename_i hfind
        obtain ⟨rfl, rfl⟩ := Prod.mk.inj (Option.some.inj h)
        exact .orphan hphase hfind
      · rename_i user hfind
        obtain ⟨rfl, rfl⟩ := Prod.mk.inj (Option.some.inj h)
        exact .joins hphase hfind
  | checking existing user =>
      simp only [advance, hphase] at h
      obtain ⟨rfl, rfl⟩ := Prod.mk.inj (Option.some.inj h)
      apply takes_of_check hphase
  | expiring existing revokedAt =>
      simp only [advance, hphase] at h
      obtain ⟨revoked, hrevoked, h⟩ := Option.bind_eq_some_iff.mp h
      obtain ⟨rfl, rfl⟩ := Prod.mk.inj (Option.some.inj h)
      exact .expires hphase hrevoked
  | suspending existing user revokedAt =>
      simp only [advance, hphase] at h
      obtain ⟨revoked, hrevoked, h⟩ := Option.bind_eq_some_iff.mp h
      obtain ⟨rfl, rfl⟩ := Prod.mk.inj (Option.some.inj h)
      exact .suspends hphase hrevoked
  | beginning existing =>
      simp only [advance, hphase] at h
      obtain ⟨rfl, rfl⟩ := Prod.mk.inj (Option.some.inj h)
      exact .begins hphase
  | rotating existing revokedAt =>
      simp only [advance, hphase] at h
      apply takes_of_rotate hphase h
  | committing existing revokedAt row token =>
      simp only [advance, hphase] at h
      obtain ⟨tokens, htokens, h⟩ := Option.bind_eq_some_iff.mp h
      obtain ⟨rfl, rfl⟩ := Prod.mk.inj (Option.some.inj h)
      exact .commits hphase htokens
  | losing existing =>
      simp only [advance, hphase] at h
      obtain ⟨rfl, rfl⟩ := Prod.mk.inj (Option.some.inj h)
      exact .lost hphase
  | reusing token revokedAt =>
      simp only [advance, hphase] at h
      obtain ⟨rfl, rfl⟩ := Prod.mk.inj (Option.some.inj h)
      exact .startsReuse hphase
  | revoking token revokedAt visible =>
      simp only [advance, hphase] at h
      obtain ⟨revoked, hrevoked, h⟩ := Option.bind_eq_some_iff.mp h
      obtain ⟨rfl, rfl⟩ := Prod.mk.inj (Option.some.inj h)
      exact .revokesFamily hphase hrevoked
  | loggingOut rawToken userId =>
      simp only [advance, hphase] at h
      split at h
      · rename_i hfind
        obtain ⟨rfl, rfl⟩ := Prod.mk.inj (Option.some.inj h)
        refine .leavesAlone hphase fun existing hexisting => ?_
        rw [hfind] at hexisting
        cases hexisting
      · rename_i existing hfind
        split at h
        · rename_i howner
          obtain ⟨rfl, rfl⟩ := Prod.mk.inj (Option.some.inj h)
          refine .leavesAlone hphase fun existing' hexisting => ?_
          obtain rfl := Option.some.inj (hfind.symm.trans hexisting)
          exact howner
        · rename_i howner
          obtain ⟨rfl, rfl⟩ := Prod.mk.inj (Option.some.inj h)
          exact .findsSession hphase hfind (not_not.mp howner)
  | endingSession existing userId revokedAt =>
      simp only [advance, hphase] at h
      obtain ⟨revoked, hrevoked, h⟩ := Option.bind_eq_some_iff.mp h
      obtain ⟨rfl, rfl⟩ := Prod.mk.inj (Option.some.inj h)
      exact .endsSession hphase hrevoked rfl
  | creatingUser _ | creatingSession _ | startingSession _ | inserting _ _ | returned _ | rejected =>
      simp only [advance, hphase, reduceCtorEq] at h

/-- Every step of a call is one of these. -/
theorem Call.takes_of_act {action : Action}
    (h : c.act config crypto unicode s action = some (s', phase)) :
  c.Takes config crypto unicode s s' phase
  := by
  cases action with
  | advance => apply takes_of_advance h
  | user id passwordHash =>
      simp only [act] at h
      split at h
      · rename_i dto hphase
        split at h
        · cases h
        · rename_i hfree
          split at h
          · rename_i hfind
            obtain ⟨user, hfind⟩ := Option.isSome_iff_exists.mp hfind
            obtain ⟨rfl, rfl⟩ := Prod.mk.inj (Option.some.inj h)
            exact .duplicate (.inr hphase) hfind
          · rename_i hfind
            obtain ⟨rfl, rfl⟩ := Prod.mk.inj (Option.some.inj h)
            exact .createsUser hphase (Bool.not_eq_true _ ▸ hfree)
              (Option.not_isSome_iff_eq_none.mp hfind)
      · cases h
  | session id token =>
      simp only [act] at h
      split at h
      · rename_i user hphase
        obtain ⟨issued, hissued, h⟩ := Option.bind_eq_some_iff.mp h
        obtain ⟨rfl, rfl⟩ := Prod.mk.inj (Option.some.inj h)
        exact .createsSession hphase hissued
      · rename_i user hphase
        obtain ⟨issued, hissued, h⟩ := Option.bind_eq_some_iff.mp h
        obtain ⟨tokens, htokens, h⟩ := Option.bind_eq_some_iff.mp h
        obtain ⟨rfl, rfl⟩ := Prod.mk.inj (Option.some.inj h)
        exact .startsSession hphase hissued htokens
      · rename_i existing revokedAt hphase
        obtain ⟨issued, hissued, h⟩ := Option.bind_eq_some_iff.mp h
        obtain ⟨rfl, rfl⟩ := Prod.mk.inj (Option.some.inj h)
        exact .inserts hphase hissued
      · cases h
  | throw =>
      simp only [act] at h
      split at h
      · cases h
      · cases h
      · rename_i hreturned hrejected
        obtain ⟨rfl, rfl⟩ := Prod.mk.inj (Option.some.inj h)
        exact .throws hreturned

end

/-- The steps of the system: time passes, a client calls, a call goes on, or the status of an account
is changed. -/
inductive Steps (config : AuthConfig) (crypto : Crypto) (unicode : Unicode) (s : State) :
    Label → State → Prop where
  | tick (ms : ℕ) : Steps config crypto unicode s (.tick ms) { s with now := s.now + ms }
  | calls {id : ℕ} {operation : Operation} {ctx : SessionContext} {calls : Table Call.id}
      (hcreate : s.calls.create { id, operation, ctx, phase := operation.start } = some calls) :
      Steps config crypto unicode s (.call id operation ctx) { s with calls }
  | takes {c : Call} {action : Action} {t : State} {phase : Phase}
      (hfind : s.calls.find c.id = some c) (htakes : c.Takes config crypto unicode s t phase) :
      Steps config crypto unicode s (.step c.id action)
        { t with calls := s.calls.put { c with phase } }
  | setStatus (userId : ℕ) (status : UserStatus) (now : ℕ) :
      Steps config crypto unicode s (.setStatus userId status)
        { s with
          users := (s.users.updateMany
            { guard := fun user => user.id = userId
              data := fun user => { user with status, updatedAt := now } }).1 }

theorem steps_of_step {config : AuthConfig} {crypto : Crypto} {unicode : Unicode} {s s' : State}
    {label : Label} (h : (system config crypto unicode).step s label = some s') :
  Steps config crypto unicode s label s'
  := by
  change step config crypto unicode s label = some s' at h
  cases label with
  | tick ms =>
      obtain rfl := Option.some.inj h
      exact .tick ms
  | call id operation ctx =>
      obtain ⟨calls, hcreate, h⟩ := Option.bind_eq_some_iff.mp h
      obtain rfl := Option.some.inj h
      exact .calls hcreate
  | step callId action =>
      obtain ⟨c, hc, h⟩ := Option.bind_eq_some_iff.mp h
      obtain ⟨next, hact, h⟩ := Option.bind_eq_some_iff.mp h
      obtain rfl := Option.some.inj h
      obtain rfl := Table.key_of_find hc
      exact .takes hc (Call.takes_of_act hact)
  | setStatus userId status =>
      obtain rfl := Option.some.inj h
      exact .setStatus userId status s.now

/-- What holds of the calls of a state holds of them after a step, if it does of those that stay, of
a new call, and of the call that has taken the step. -/
theorem Steps.forall_calls {config : AuthConfig} {crypto : Crypto} {unicode : Unicode} {s s' : State}
    {label : Label} {P : State → Call → Prop} (h : Steps config crypto unicode s label s')
    (hcalls : ∀ c ∈ s.calls.rows, P s c) (hstays : ∀ c ∈ s.calls.rows, P s c → P s' c)
    (hstart : ∀ c, s.calls.find c.id = none → c.phase = c.operation.start → P s' c)
    (htakes : ∀ c ∈ s.calls.rows, ∀ t phase, c.Takes config crypto unicode s t phase →
      s' = { t with calls := s.calls.put { c with phase } } → P s c → P s' { c with phase }) :
  ∀ c ∈ s'.calls.rows, P s' c
  := by
  intro c hc
  cases h with
  | tick | setStatus => exact hstays c hc (hcalls c hc)
  | calls hcreate =>
      change c ∈ Table.rows _ at hc
      rw [Table.rows_of_create hcreate, List.mem_append, List.mem_singleton] at hc
      rcases hc with hc | rfl
      · exact hstays c hc (hcalls c hc)
      · exact hstart _ (Table.find_of_create hcreate) rfl
  | @takes c₀ _ t phase hfind h =>
      have hc₀ := Table.mem_of_find hfind
      rcases mem_calls_put hc with rfl | ⟨hc, -⟩
      · exact htakes c₀ hc₀ t phase h rfl (hcalls c₀ hc₀)
      · exact hstays c hc (hcalls c hc)

end AuthService

end DocuAI
