import DocuAI.Auth.Rotation

/-!
# False alarms

A refresh of a token that is revoked lets `handleReuse` revoke the other tokens of the user.  The
clients here are honest: each presents only tokens it was issued, refreshes one at a time, and does
not go on with a token for which it has got a successor or which it has logged out.

A token is also revoked when a refresh with it is refused, since it is expired or the account is not
ACTIVE, and the row does not say why it was revoked.  An honest client that presents such a token
once more raises a false alarm, and so does one that logs a token out while a refresh with it is
outstanding.  Careful clients do neither, and raise none: whatever token was revoked, a call that
has ended tells its client so (`Explained`), and the tokens of outstanding refreshes are not revoked
(`Peaceful`).
-/

namespace DocuAI

namespace AuthService

variable {config : AuthConfig} {crypto : Crypto} {unicode : Unicode}

/-! ### What clients present and receive -/

/-- The token the client presents. -/
def Operation.presented : Operation → Option JsString
  | .refresh rawToken | .logout rawToken _ => some rawToken
  | .register _ | .login _ => none

def Operation.isRefresh : Operation → Bool
  | .refresh _ => true
  | _ => false

/-- The call is no longer outstanding. -/
def Phase.ended : Phase → Bool
  | .returned _ | .rejected => true
  | _ => false

/-- The token the call has returned. -/
def Phase.issued : Phase → Option JsString
  | .returned (.ok (.session tokens _)) | .returned (.ok (.rotated tokens)) =>
      some tokens.refreshToken
  | _ => none

/-- The token the call has returned, or is about to commit. -/
def Phase.holds : Phase → Option JsString
  | .committingUser _ _ token | .committing _ _ _ token => some token
  | phase => phase.issued

/-- The call has returned a successor, or that the token is logged out. -/
def Phase.usedUp : Phase → Bool
  | .returned (.ok (.rotated _)) | .returned (.ok .loggedOut) => true
  | _ => false

/-- The call has refused the token, since it is expired or the account is not ACTIVE. -/
def Phase.refused : Phase → Bool
  | .returned (.error error) =>
      error = refreshTokenExpired || error = accountStatusException .SUSPENDED
        || error = accountStatusException .DELETED
  | _ => false

section

variable {γ : Type} (crypto : Crypto) (client : ℕ → γ) (rows : List RefreshToken)

/-- The token was issued to the client of the call, or is none of the rows. -/
def Owns (s : State) (callId : ℕ) (rawToken : JsString) : Prop :=
  (∃ c ∈ s.calls.rows, client c.id = client callId ∧ c.phase.issued = some rawToken)
    ∨ ∀ row ∈ rows, row.tokenHash ≠ crypto.hashRefreshToken rawToken

/-- What a client may call.  The rows are those inserted in the whole run. -/
structure Honest (t : Transition State Label) : Prop where
  /-- A client presents a token that was issued to it. -/
  own : ∀ id operation ctx rawToken, t.label = .call id operation ctx →
    operation.presented = some rawToken → Owns crypto client rows t.source id rawToken
  /-- It has at most one refresh outstanding. -/
  single : ∀ id operation ctx, t.label = .call id operation ctx → operation.isRefresh = true →
    ∀ c ∈ t.source.calls.rows, client c.id = client id → c.operation.isRefresh = true →
      c.phase.ended = true
  /-- It presents no token it has got a successor for, or has logged out. -/
  unused : ∀ id rawToken ctx, t.label = .call id (.refresh rawToken) ctx →
    ∀ c ∈ t.source.calls.rows, c.operation.presented = some rawToken → c.phase.usedUp = false

/-- What a client has to mind besides. -/
structure Careful (t : Transition State Label) : Prop where
  /-- It presents no token that was refused. -/
  unrefused : ∀ id rawToken ctx, t.label = .call id (.refresh rawToken) ctx →
    ∀ c ∈ t.source.calls.rows, c.operation.presented = some rawToken → c.phase.refused = false
  /-- A refresh and the logout of a token are not outstanding together. -/
  apart : ∀ id operation ctx rawToken, t.label = .call id operation ctx →
    operation.presented = some rawToken → ∀ c ∈ t.source.calls.rows,
      c.operation.presented = some rawToken → c.operation.isRefresh ≠ operation.isRefresh →
        c.phase.ended = true

/-- A refresh revokes no session but the one presented. -/
def RevokesPresented (t : Transition State Label) : Prop :=
  ∀ callId action, t.label = .step callId action → ∀ c rawToken,
    t.source.calls.find callId = some c → c.operation = .refresh rawToken →
      ∀ id row row', t.source.tokens.find id = some row → row.revokedAt = none →
        t.target.tokens.find id = some row' → row'.revokedAt ≠ none →
          row.tokenHash = crypto.hashRefreshToken rawToken

end

/-! ### What a step of a call issues and revokes -/

/-- The token the next statement of the call revokes. -/
def Phase.spending : Phase → Option RefreshToken
  | .expiring existing _ | .suspending existing _ _ | .committing existing _ _ _
  | .endingSession existing _ _ => some existing
  | _ => none

/-- The call logs a token out. -/
def Phase.leaves : Phase → Bool
  | .loggingOut _ _ | .endingSession _ _ _ => true
  | _ => false

/-- The call neither holds a token nor logs one out. -/
def Phase.idle (phase : Phase) : Bool :=
  phase.holds.isNone && !phase.leaves

/-- The steps of a call, by what they do to tokens that clients hold. -/
inductive Call.Deals (crypto : Crypto) (s : State) (c : Call) : State → Phase → Prop where
  | quiet {t : State} {phase : Phase} (htokens : t.tokens = s.tokens) (hidle : phase.idle = true) :
      Deals crypto s c t phase
  | leaves {rawToken : JsString} {userId : ℕ} {existing : RefreshToken}
      (hphase : c.phase = .loggingOut rawToken userId)
      (hfind : s.findRefreshToken crypto rawToken = some existing) :
      Deals crypto s c s (.endingSession existing userId s.now)
  /-- A token is generated. -/
  | generates {t : State} {row : RefreshToken} {token : JsString} {phase : Phase}
      (hfresh : s.Fresh row) (hhash : row.tokenHash = crypto.hashRefreshToken token)
      (hinserted : row ∈ t.inserted)
      (htokens : t.tokens = s.tokens ∨ s.tokens.create row = some t.tokens)
      (hholds : phase.holds = some token) (hleaves : phase.leaves = false) :
      Deals crypto s c t phase
  /-- The token of a new user is returned. -/
  | returns {t : State} {row : RefreshToken} {phase : Phase}
      (htokens : s.tokens.create row = some t.tokens) (hholds : phase.holds = c.phase.holds)
      (hleaves : phase.leaves = false) :
      Deals crypto s c t phase
  /-- The token the call has found is revoked, and no other one. -/
  | spends {t : State} {existing : RefreshToken} {phase : Phase}
      (hspending : c.phase.spending = some existing)
      (hspent : phase.usedUp = true ∨ phase.refused = true)
      (htokens : ∀ id row row', s.tokens.find id = some row → row.revokedAt = none →
        t.tokens.find id = some row' → row'.revokedAt ≠ none → id = existing.id)
      (hholds : phase.holds = none ∨ phase.holds = c.phase.holds)
      (hleaves : phase.leaves = false) :
      Deals crypto s c t phase
  | revokesFamily {t : State} {phase : Phase} (hreused : c.phase.reused ≠ none)
      (hidle : phase.idle = true) : Deals crypto s c t phase

section

variable {s s' : State} {c : Call} {phase : Phase}

theorem refused_accountStatus (status : UserStatus) :
  (Phase.returned (.error (accountStatusException status))).refused = true
  := by
  cases status <;> decide

/-- `issueRefreshToken` inserts a row with the hash of the token. -/
theorem generated_of_issue {ctx : SessionContext} {id userId : ℕ} {token : JsString}
    {result : State × RefreshToken}
    (h : s.issueRefreshToken config crypto ctx id userId token = some result) :
  s.Fresh result.2 ∧ result.2.tokenHash = crypto.hashRefreshToken token
    ∧ result.2 ∈ result.1.inserted ∧ result.1.tokens = s.tokens
  := by
  obtain ⟨hfresh, -, -, hstate⟩ := issueRefreshToken_eq_some h
  refine ⟨hfresh, ?_, ?_, ?_⟩
  · unfold State.issueRefreshToken at h
    simp only at h
    split at h
    · rw [← Option.some.inj h]
      rfl
    · cases h
  · rw [hstate]
    exact List.mem_append_right _ List.mem_cons_self
  · rw [hstate]

/-- The update of one row revokes no other row. -/
theorem eq_of_revokeMany {result : State × ℕ} {existingId revokedAt : ℕ}
    (h : s.revokeMany (revokeOne existingId revokedAt) = some result) (id : ℕ)
    (row row' : RefreshToken) (hrow : s.tokens.find id = some row) (hlive : row.revokedAt = none)
    (hrow' : result.1.tokens.find id = some row') (hrevoked : row'.revokedAt ≠ none) :
  id = existingId
  := by
  obtain ⟨-, rfl⟩ := revokeMany_eq_some h
  rw [Table.find_updateMany, hrow, Option.map_some] at hrow'
  by_contra hne
  rw [Update.apply_of_not_guard] at hrow'
  · obtain rfl := Option.some.inj hrow'
    exact hrevoked hlive
  · simp [revokeOne, revoke, Table.key_of_find hrow, hne]

/-- The commit of a rotation revokes the token rotated. -/
theorem eq_of_commit {tokens : Table RefreshToken.id} {existing new : RefreshToken} {revokedAt : ℕ}
    (hcreate : (s.tokens.updateMany (publishRevoked existing.id revokedAt)).1.create new
      = some tokens) (id : ℕ) (row row' : RefreshToken) (hrow : s.tokens.find id = some row)
    (hlive : row.revokedAt = none) (hrow' : tokens.find id = some row')
    (hrevoked : row'.revokedAt ≠ none) :
  id = existing.id
  := by
  by_contra hne
  have hsame : (s.tokens.updateMany (publishRevoked existing.id revokedAt)).1.find id
      = some row := by
    rw [Table.find_updateMany, hrow, Option.map_some, Update.apply_of_not_guard]
    simp [publishRevoked, Table.key_of_find hrow, hne]
  obtain rfl := Option.some.inj ((Table.find_create_of_find hcreate hsame).symm.trans hrow')
  exact hrevoked hlive

theorem Call.authenticate_idle {dto : LoginDto}
    (h : authenticate crypto unicode s dto = (s', phase)) :
  s'.tokens = s.tokens ∧ phase.idle = true
  := by
  unfold authenticate at h
  simp only at h
  split at h
  · obtain ⟨rfl, rfl⟩ := Prod.mk.inj h
    exact ⟨rfl, rfl⟩
  · split at h
    · obtain ⟨rfl, rfl⟩ := Prod.mk.inj h
      exact ⟨rfl, rfl⟩
    · split at h
      · obtain ⟨rfl, rfl⟩ := Prod.mk.inj h
        exact ⟨rfl, rfl⟩
      · obtain ⟨rfl, rfl⟩ := Prod.mk.inj h
        exact ⟨rfl, rfl⟩

theorem Call.check_idle (existing : RefreshToken) (user : User) :
  (check s existing user).idle = true
  := by
  unfold check
  split
  · rfl
  · split
    · rfl
    · split <;> rfl

theorem Call.advance_deals (h : c.advance config crypto unicode s = some (s', phase)) :
  c.Deals crypto s s' phase
  := by
  cases hphase : c.phase with
  | registering dto =>
      simp only [advance, hphase] at h
      split at h
      · obtain ⟨rfl, rfl⟩ := Prod.mk.inj (Option.some.inj h)
        exact .quiet rfl rfl
      · obtain ⟨rfl, rfl⟩ := Prod.mk.inj (Option.some.inj h)
        exact .quiet rfl rfl
  | committingUser user row token =>
      simp only [advance, hphase] at h
      obtain ⟨users, -, h⟩ := Option.bind_eq_some_iff.mp h
      obtain ⟨tokens, hcreate, h⟩ := Option.bind_eq_some_iff.mp h
      obtain ⟨rfl, rfl⟩ := Prod.mk.inj (Option.some.inj h)
      exact .returns hcreate (by rw [hphase]; rfl) rfl
  | loggingIn dto =>
      simp only [advance, hphase] at h
      obtain ⟨htokens, hidle⟩ := authenticate_idle (Option.some.inj h)
      exact .quiet htokens hidle
  | presenting rawToken =>
      simp only [advance, hphase] at h
      split at h
      · obtain ⟨rfl, rfl⟩ := Prod.mk.inj (Option.some.inj h)
        exact .quiet rfl rfl
      · obtain ⟨rfl, rfl⟩ := Prod.mk.inj (Option.some.inj h)
        exact .quiet rfl rfl
  | joining existing =>
      simp only [advance, hphase] at h
      split at h
      · obtain ⟨rfl, rfl⟩ := Prod.mk.inj (Option.some.inj h)
        exact .quiet rfl rfl
      · obtain ⟨rfl, rfl⟩ := Prod.mk.inj (Option.some.inj h)
        exact .quiet rfl rfl
  | checking existing user =>
      simp only [advance, hphase] at h
      obtain ⟨rfl, rfl⟩ := Prod.mk.inj (Option.some.inj h)
      exact .quiet rfl (check_idle existing user)
  | expiring existing revokedAt =>
      simp only [advance, hphase] at h
      obtain ⟨revoked, hrevoked, h⟩ := Option.bind_eq_some_iff.mp h
      obtain ⟨rfl, rfl⟩ := Prod.mk.inj (Option.some.inj h)
      exact .spends (by rw [hphase]; rfl) (.inr rfl) (eq_of_revokeMany hrevoked) (.inl rfl) rfl
  | suspending existing user revokedAt =>
      simp only [advance, hphase] at h
      obtain ⟨revoked, hrevoked, h⟩ := Option.bind_eq_some_iff.mp h
      obtain ⟨rfl, rfl⟩ := Prod.mk.inj (Option.some.inj h)
      exact .spends (by rw [hphase]; rfl) (.inr (refused_accountStatus _))
        (eq_of_revokeMany hrevoked) (.inl rfl) rfl
  | beginning | losing | reusing =>
      simp only [advance, hphase] at h
      obtain ⟨rfl, rfl⟩ := Prod.mk.inj (Option.some.inj h)
      exact .quiet rfl rfl
  | rotating existing revokedAt =>
      simp only [advance, hphase, rotate] at h
      split at h
      · cases h
      · split at h
        · obtain ⟨rfl, rfl⟩ := Prod.mk.inj (Option.some.inj h)
          exact .quiet rfl rfl
        · obtain ⟨rfl, rfl⟩ := Prod.mk.inj (Option.some.inj h)
          exact .quiet rfl rfl
  | committing existing revokedAt row token =>
      simp only [advance, hphase] at h
      obtain ⟨tokens, hcreate, h⟩ := Option.bind_eq_some_iff.mp h
      obtain ⟨rfl, rfl⟩ := Prod.mk.inj (Option.some.inj h)
      exact .spends (by rw [hphase]; rfl) (.inl rfl) (eq_of_commit hcreate)
        (.inr (by rw [hphase]; rfl)) rfl
  | revoking token revokedAt visible =>
      simp only [advance, hphase] at h
      obtain ⟨revoked, -, h⟩ := Option.bind_eq_some_iff.mp h
      obtain ⟨rfl, rfl⟩ := Prod.mk.inj (Option.some.inj h)
      exact .revokesFamily (by rw [hphase]; rintro ⟨⟩) rfl
  | loggingOut rawToken userId =>
      simp only [advance, hphase] at h
      split at h
      · obtain ⟨rfl, rfl⟩ := Prod.mk.inj (Option.some.inj h)
        exact .quiet rfl rfl
      · rename_i existing hfind
        split at h
        · obtain ⟨rfl, rfl⟩ := Prod.mk.inj (Option.some.inj h)
          exact .quiet rfl rfl
        · obtain ⟨rfl, rfl⟩ := Prod.mk.inj (Option.some.inj h)
          exact .leaves hphase hfind
  | endingSession existing userId revokedAt =>
      simp only [advance, hphase] at h
      obtain ⟨revoked, hrevoked, h⟩ := Option.bind_eq_some_iff.mp h
      obtain ⟨rfl, rfl⟩ := Prod.mk.inj (Option.some.inj h)
      exact .spends (by rw [hphase]; rfl) (.inl rfl) (eq_of_revokeMany hrevoked) (.inl rfl) rfl
  | creatingUser | creatingSession | startingSession | inserting | returned | rejected =>
      simp only [advance, hphase, reduceCtorEq] at h

/-- Every step of a call is one of the kinds. -/
theorem Call.deals_of_act {action : Action}
    (h : c.act config crypto unicode s action = some (s', phase)) :
  c.Deals crypto s s' phase
  := by
  cases action with
  | advance => apply advance_deals h
  | user id passwordHash =>
      rcases user_cases h with hduplicate | ⟨user, rfl, rfl⟩
      · obtain ⟨rfl, rfl⟩ := Prod.mk.inj hduplicate
        exact .quiet rfl rfl
      · exact .quiet rfl rfl
  | session id token =>
      simp only [act] at h
      split at h
      · obtain ⟨issued, hissued, h⟩ := Option.bind_eq_some_iff.mp h
        obtain ⟨rfl, rfl⟩ := Prod.mk.inj (Option.some.inj h)
        obtain ⟨hfresh, hhash, hinserted, htokens⟩ := generated_of_issue hissued
        exact .generates hfresh hhash hinserted (.inl htokens) rfl rfl
      · obtain ⟨issued, hissued, h⟩ := Option.bind_eq_some_iff.mp h
        obtain ⟨tokens, hcreate, h⟩ := Option.bind_eq_some_iff.mp h
        obtain ⟨rfl, rfl⟩ := Prod.mk.inj (Option.some.inj h)
        obtain ⟨hfresh, hhash, hinserted, -⟩ := generated_of_issue hissued
        exact .generates hfresh hhash hinserted (.inr hcreate) rfl rfl
      · obtain ⟨issued, hissued, h⟩ := Option.bind_eq_some_iff.mp h
        obtain ⟨rfl, rfl⟩ := Prod.mk.inj (Option.some.inj h)
        obtain ⟨hfresh, hhash, hinserted, htokens⟩ := generated_of_issue hissued
        exact .generates hfresh hhash hinserted (.inl htokens) rfl rfl
      · cases h
  | throw =>
      obtain ⟨rfl, rfl⟩ := throw_cases h
      exact .quiet rfl rfl

/-- A token that a call comes to hold is new, and its row is inserted. -/
theorem Call.Deals.holds_cases (h : c.Deals crypto s s' phase) {token : JsString}
    (hholds : phase.holds = some token) :
  c.phase.holds = some token
    ∨ ∃ row ∈ s'.inserted, s.Fresh row ∧ row.tokenHash = crypto.hashRefreshToken token
  := by
  cases h with
  | quiet _ hidle | revokesFamily _ hidle =>
      simp [Phase.idle, hholds] at hidle
  | leaves => cases hholds
  | generates hfresh hhash hinserted _ h =>
      obtain rfl := Option.some.inj (h.symm.trans hholds)
      exact .inr ⟨_, hinserted, hfresh, hhash⟩
  | returns _ h => exact .inl (h.symm.trans hholds)
  | spends _ _ _ h =>
      rcases h with h | h
      · rw [hholds] at h
        cases h
      · exact .inl (h.symm.trans hholds)

/-- A call that logs a token out after a step has found it in the step. -/
theorem Call.Deals.leaves_cases (h : c.Deals crypto s s' phase) (hleaves : phase.leaves = true) :
  ∃ rawToken userId existing, c.phase = .loggingOut rawToken userId
    ∧ s.findRefreshToken crypto rawToken = some existing ∧ s' = s
    ∧ phase = .endingSession existing userId s.now
  := by
  cases h with
  | quiet _ hidle | revokesFamily _ hidle => simp [Phase.idle, hleaves] at hidle
  | leaves hphase hfind => exact ⟨_, _, _, hphase, hfind, rfl, rfl⟩
  | generates _ _ _ _ _ hnot | returns _ _ hnot | spends _ _ _ _ hnot =>
      rw [hnot] at hleaves
      cases hleaves

/-- A token that a step of a call revokes is the one the call has found, or the step is the update
of `handleReuse`. -/
theorem Call.Deals.revokes_cases (h : c.Deals crypto s s' phase) {id : ℕ} {row row' : RefreshToken}
    (hrow : s.tokens.find id = some row) (hlive : row.revokedAt = none)
    (hrow' : s'.tokens.find id = some row') (hrevoked : row'.revokedAt ≠ none) :
  (∃ existing, c.phase.spending = some existing ∧ id = existing.id
    ∧ (phase.usedUp = true ∨ phase.refused = true)) ∨ c.phase.reused ≠ none
  := by
  have hsame (htokens : s'.tokens = s.tokens) : row' = row := by
    rw [htokens, hrow] at hrow'
    exact (Option.some.inj hrow').symm
  have hcreated {new : RefreshToken} (hcreate : s.tokens.create new = some s'.tokens) :
      row' = row :=
    Option.some.inj (hrow'.symm.trans (Table.find_create_of_find hcreate hrow))
  cases h with
  | quiet htokens =>
      rw [hsame htokens] at hrevoked
      exact absurd hlive hrevoked
  | leaves =>
      rw [hsame rfl] at hrevoked
      exact absurd hlive hrevoked
  | generates _ _ _ htokens =>
      rcases htokens with htokens | hcreate
      · rw [hsame htokens] at hrevoked
        exact absurd hlive hrevoked
      · rw [hcreated hcreate] at hrevoked
        exact absurd hlive hrevoked
  | returns hcreate =>
      rw [hcreated hcreate] at hrevoked
      exact absurd hlive hrevoked
  | spends hspending hspent htokens =>
      exact .inl ⟨_, hspending, htokens id row row' hrow hlive hrow' hrevoked, hspent⟩
  | revokesFamily hreused => exact .inr hreused

/-! ### Tokens and calls -/

/-- A call that has ended takes no step. -/
theorem Call.act_of_ended {action : Action} (h : c.phase.ended = true) :
  c.act config crypto unicode s action = none
  := by
  cases hphase : c.phase with
  | returned | rejected => cases action <;> simp only [act, advance, hphase]
  | _ => simp [Phase.ended, hphase] at h

theorem Phase.ended_of_issued {phase : Phase} {token : JsString} (h : phase.issued = some token) :
  phase.ended = true
  := by
  cases phase with
  | returned => rfl
  | _ => cases h

theorem Phase.holds_of_issued {phase : Phase} {token : JsString} (h : phase.issued = some token) :
  phase.holds = some token
  := by
  cases phase with
  | returned => exact h
  | _ => cases h

theorem Phase.ended_of_spent {phase : Phase} (h : phase.usedUp = true ∨ phase.refused = true) :
  phase.ended = true
  := by
  cases phase with
  | returned => rfl
  | _ => rcases h with h | h <;> cases h

theorem Operation.holds_start (operation : Operation) :
  operation.start.holds = none
  := by
  cases operation <;> rfl

theorem Operation.existing_start (operation : Operation) :
  operation.start.existing = none
  := by
  cases operation <;> rfl

theorem Phase.existing_of_reused {phase : Phase} {existing : RefreshToken}
    (h : phase.reused = some existing) :
  phase.existing = some existing
  := by
  cases phase with
  | losing | reusing | revoking => exact h
  | _ => cases h

/-- A call that has ended stays as it is. -/
theorem mem_calls_of_ended {label : Label} (h : CallStep config crypto unicode s label s')
    (hc : c ∈ s.calls.rows) (hended : c.phase.ended = true) :
  c ∈ s'.calls.rows
  := by
  cases h with
  | other => exact hc
  | calls hcreate =>
      rw [Table.rows_of_create hcreate]
      exact List.mem_append_left _ hc
  | @acts c' action t phase hfind hact =>
      refine Table.mem_rows_put_iff.mpr (.inr ⟨hc, ?_⟩)
      intro hid
      change c.id = c'.id at hid
      obtain rfl : c = c' := by
        rw [← hid, Table.mem_rows_iff.mp hc] at hfind
        exact Option.some.inj hfind
      rw [Call.act_of_ended hended] at hact
      cases hact

/-- The tokens held are inserted, and each is held by one call. -/
structure Handed (crypto : Crypto) (s : State) : Prop where
  inserted : ∀ c ∈ s.calls.rows, ∀ token, c.phase.holds = some token →
    ∃ row ∈ s.inserted, row.tokenHash = crypto.hashRefreshToken token
  unique : ∀ c ∈ s.calls.rows, ∀ c' ∈ s.calls.rows, ∀ token token', c.phase.holds = some token →
    c'.phase.holds = some token' →
      crypto.hashRefreshToken token = crypto.hashRefreshToken token' → c.id = c'.id

/-- Every step keeps held tokens distinct. -/
theorem Handed.step {label : Label} (h : Handed crypto s) (hmoves : Moves crypto s s')
    (hstep : CallStep config crypto unicode s label s') :
  Handed crypto s'
  := by
  have hsubset := hmoves.inserted_subset
  cases hstep with
  | other => exact ⟨h.inserted, h.unique⟩
  | @calls id operation ctx calls hcreate =>
      have hold {c : Call} (hc : c ∈ calls.rows) {token : JsString}
          (hholds : c.phase.holds = some token) : c ∈ s.calls.rows := by
        rw [Table.rows_of_create hcreate, List.mem_append, List.mem_singleton] at hc
        rcases hc with hc | rfl
        · exact hc
        · rw [Operation.holds_start] at hholds
          cases hholds
      constructor
      · intro c hc token hholds
        apply h.inserted c (hold hc hholds) token hholds
      · intro c hc c' hc' token token' hholds hholds'
        apply h.unique c (hold hc hholds) c' (hold hc' hholds') token token' hholds hholds'
  | @acts c action t phase hfind hact =>
      have hc := Table.mem_of_find hfind
      have hdeals := Call.deals_of_act hact
      -- A token the call comes to hold is new, so no other call holds it.
      have hother {c' : Call} (hc' : c' ∈ s.calls.rows) (hne : c.id ≠ c'.id)
          {token token' : JsString} (hholds : phase.holds = some token)
          (hholds' : c'.phase.holds = some token')
          (hhash : crypto.hashRefreshToken token = crypto.hashRefreshToken token') : False := by
        rcases hdeals.holds_cases hholds with hbefore | ⟨row, -, hfresh, hrow⟩
        · apply hne (h.unique c hc c' hc' token token' hbefore hholds' hhash)
        · obtain ⟨r, hr, hr_hash⟩ := h.inserted c' hc' token' hholds'
          apply (hfresh r hr).2
          rw [hr_hash, hrow, hhash]
      constructor
      · intro c' hc' token hholds
        rcases mem_calls_put hc' with rfl | ⟨hc', -⟩
        · rcases hdeals.holds_cases hholds with hbefore | ⟨row, hrow, -, hhash⟩
          · obtain ⟨row, hrow, hhash⟩ := h.inserted c hc token hbefore
            exact ⟨row, hsubset hrow, hhash⟩
          · exact ⟨row, hrow, hhash⟩
        · obtain ⟨row, hrow, hhash⟩ := h.inserted c' hc' token hholds
          exact ⟨row, hsubset hrow, hhash⟩
      · intro c₁ hc₁ c₂ hc₂ token₁ token₂ hholds₁ hholds₂ hhash
        rcases mem_calls_put hc₁ with rfl | ⟨hc₁, hne₁⟩
        · rcases mem_calls_put hc₂ with rfl | ⟨hc₂, hne₂⟩
          · rfl
          · exact (hother hc₂ hne₂ hholds₁ hholds₂ hhash).elim
        · rcases mem_calls_put hc₂ with rfl | ⟨hc₂, hne₂⟩
          · exact (hother hc₁ hne₁ hholds₂ hholds₁ hhash.symm).elim
          · apply h.unique c₁ hc₁ c₂ hc₂ token₁ token₂ hholds₁ hholds₂ hhash

/-- What a call of `logout` knows of the token it was presented. -/
structure Leaves (crypto : Crypto) (s : State) (c : Call) : Prop where
  presented : ∀ rawToken userId, c.phase = .loggingOut rawToken userId →
    c.operation = .logout rawToken userId
  found : ∀ existing userId revokedAt, c.phase = .endingSession existing userId revokedAt →
    ∃ rawToken row, c.operation.presented = some rawToken ∧ s.tokens.find existing.id = some row
      ∧ row.tokenHash = crypto.hashRefreshToken rawToken

theorem Leaves.mono (h : Leaves crypto s c)
    (hrows : ∀ id row, s.tokens.find id = some row →
      ∃ row', s'.tokens.find id = some row' ∧ Continues row row') :
  Leaves crypto s' c
  := by
  refine ⟨h.presented, ?_⟩
  intro existing userId revokedAt hphase
  obtain ⟨rawToken, row, hpresented, hrow, hhash⟩ := h.found existing userId revokedAt hphase
  obtain ⟨row', hrow', hcontinues⟩ := hrows _ row hrow
  exact ⟨rawToken, row', hpresented, hrow', hcontinues.tokenHash.trans hhash⟩

/-- What a call knows after its step. -/
theorem Call.Deals.leaves_after (h : c.Deals crypto s s' phase) (hleaves : Leaves crypto s c) :
  Leaves crypto s' { c with phase }
  := by
  constructor
  · rintro rawToken userId hphase
    change phase = _ at hphase
    obtain ⟨_, _, _, -, -, -, hnext⟩ := h.leaves_cases (by rw [hphase]; rfl)
    rw [hphase] at hnext
    cases hnext
  · intro existing userId revokedAt hphase
    change phase = _ at hphase
    obtain ⟨rawToken, userId', found, hbefore, hfound, rfl, hnext⟩ :=
      h.leaves_cases (by rw [hphase]; rfl)
    rw [hphase] at hnext
    cases hnext
    obtain ⟨hrow, hhash⟩ := find_of_findRefreshToken hfound
    refine ⟨rawToken, existing, ?_, hrow, hhash⟩
    change c.operation.presented = some rawToken
    rw [hleaves.presented rawToken userId hbefore]
    rfl

/-- Every step keeps what calls of `logout` know. -/
theorem leaves_step {label : Label} (h : ∀ c ∈ s.calls.rows, Leaves crypto s c)
    (hrows : ∀ id row, s.tokens.find id = some row →
      ∃ row', s'.tokens.find id = some row' ∧ Continues row row')
    (hstep : CallStep config crypto unicode s label s') :
  ∀ c ∈ s'.calls.rows, Leaves crypto s' c
  := by
  cases hstep with
  | other => exact fun c hc => (h c hc).mono hrows
  | @calls id operation ctx calls hcreate =>
      intro c hc
      change c ∈ calls.rows at hc
      rw [Table.rows_of_create hcreate, List.mem_append, List.mem_singleton] at hc
      rcases hc with hc | rfl
      · exact (h c hc).mono hrows
      · constructor
        · intro rawToken userId hphase
          cases operation <;> cases hphase
          rfl
        · intro existing userId revokedAt hphase
          cases operation <;> cases hphase
  | acts hfind hact =>
      intro c' hc'
      rcases mem_calls_put hc' with rfl | ⟨hc', -⟩
      · have hleaves := (Call.deals_of_act hact).leaves_after (h _ (Table.mem_of_find hfind))
        exact ⟨hleaves.presented, hleaves.found⟩
      · exact (h c' hc').mono hrows

/-- The token a call is about to revoke is the one it was presented. -/
theorem presented_of_spending {existing : RefreshToken} (hknows : Knows crypto s c)
    (hleaves : Leaves crypto s c) (h : c.phase.spending = some existing) :
  ∃ rawToken row, c.operation.presented = some rawToken ∧ s.tokens.find existing.id = some row
    ∧ row.tokenHash = crypto.hashRefreshToken rawToken
  := by
  have hexisting (h : c.phase.existing = some existing) : ∃ rawToken row,
      c.operation.presented = some rawToken ∧ s.tokens.find existing.id = some row
        ∧ row.tokenHash = crypto.hashRefreshToken rawToken := by
    obtain ⟨rawToken, row, hoperation, hrow, hhash, -⟩ := hknows.existing existing h
    exact ⟨rawToken, row, by rw [hoperation]; rfl, hrow, hhash⟩
  cases hphase : c.phase with
  | expiring | suspending | committing =>
      rw [hphase] at h
      apply hexisting
      rw [hphase]
      exact h
  | endingSession found userId revokedAt =>
      rw [hphase] at h
      obtain rfl := Option.some.inj h
      apply hleaves.found found userId revokedAt hphase
  | _ =>
      rw [hphase] at h
      cases h

end

/-! ### Honest and careful clients -/

section

variable {γ : Type} {client : ℕ → γ} {rows : List RefreshToken} {s s' : State} {c : Call}
  {phase : Phase}

/-- What honest and careful clients have called. -/
structure Orderly (crypto : Crypto) (client : ℕ → γ) (rows : List RefreshToken) (s : State) :
    Prop where
  own : ∀ c ∈ s.calls.rows, ∀ rawToken, c.operation.presented = some rawToken →
    Owns crypto client rows s c.id rawToken
  single : ∀ c ∈ s.calls.rows, ∀ c' ∈ s.calls.rows, client c.id = client c'.id →
    c.operation.isRefresh = true → c'.operation.isRefresh = true → c.phase.ended = false →
      c'.phase.ended = false → c.id = c'.id
  apart : ∀ c ∈ s.calls.rows, ∀ c' ∈ s.calls.rows, ∀ rawToken,
    c.operation.presented = some rawToken → c'.operation.presented = some rawToken →
      c.phase.ended = false → c'.phase.ended = false →
        c.operation.isRefresh = c'.operation.isRefresh

theorem Owns.step {label : Label} {callId : ℕ} {rawToken : JsString}
    (h : Owns crypto client rows s callId rawToken)
    (hstep : CallStep config crypto unicode s label s') :
  Owns crypto client rows s' callId rawToken
  := by
  rcases h with ⟨c, hc, hclient, hissued⟩ | hnone
  · exact .inl ⟨c, mem_calls_of_ended hstep hc (Phase.ended_of_issued hissued), hclient, hissued⟩
  · exact .inr hnone

/-- A token belongs to one client. -/
theorem Owns.unique {callId callId' : ℕ} {rawToken rawToken' : JsString} {row : RefreshToken}
    (h : Owns crypto client rows s callId rawToken)
    (h' : Owns crypto client rows s callId' rawToken') (hhanded : Handed crypto s)
    (hrow : row ∈ rows)
    (hhash : row.tokenHash = crypto.hashRefreshToken rawToken)
    (hhash' : row.tokenHash = crypto.hashRefreshToken rawToken') :
  client callId = client callId' ∧ rawToken = rawToken'
  := by
  rcases h with ⟨c, hc, hclient, hissued⟩ | hnone
  · rcases h' with ⟨c', hc', hclient', hissued'⟩ | hnone'
    · have hid := hhanded.unique c hc c' hc' rawToken rawToken' (Phase.holds_of_issued hissued)
        (Phase.holds_of_issued hissued') (hhash.symm.trans hhash')
      obtain rfl := List.inj_on_of_nodup_map s.calls.nodup hc hc' hid
      exact ⟨hclient.symm.trans hclient', Option.some.inj (hissued.symm.trans hissued')⟩
    · exact absurd hhash' (hnone' row hrow)
  · exact absurd hhash (hnone row hrow)

/-- Every step of honest and careful clients keeps their calls in order. -/
theorem Orderly.step {label : Label} (h : Orderly crypto client rows s)
    (hhonest : Honest crypto client rows ⟨s, label, s'⟩) (hcareful : Careful ⟨s, label, s'⟩)
    (hstep : CallStep config crypto unicode s label s') :
  Orderly crypto client rows s'
  := by
  have hkeeps {callId : ℕ} {rawToken : JsString} (h : Owns crypto client rows s callId rawToken) :
      Owns crypto client rows s' callId rawToken := h.step hstep
  cases hstep with
  | other => exact ⟨h.own, h.single, h.apart⟩
  | @calls id operation ctx calls hcreate =>
      have hcases {c : Call} (hc : c ∈ calls.rows) : c ∈ s.calls.rows
          ∨ c = { id, operation, ctx, phase := operation.start } := by
        rw [Table.rows_of_create hcreate, List.mem_append, List.mem_singleton] at hc
        exact hc
      refine ⟨?_, ?_, ?_⟩
      · intro c hc rawToken hpresented
        rcases hcases hc with hc | rfl
        · exact hkeeps (h.own c hc rawToken hpresented)
        · exact hkeeps (hhonest.own id operation ctx rawToken rfl hpresented)
      · intro c hc c' hc' hclient hrefresh hrefresh' hopen hopen'
        rcases hcases hc with hc | rfl
        · rcases hcases hc' with hc' | rfl
          · exact h.single c hc c' hc' hclient hrefresh hrefresh' hopen hopen'
          · rw [hhonest.single id operation ctx rfl hrefresh' c hc hclient hrefresh] at hopen
            cases hopen
        · rcases hcases hc' with hc' | rfl
          · rw [hhonest.single id operation ctx rfl hrefresh c' hc' hclient.symm hrefresh']
              at hopen'
            cases hopen'
          · rfl
      · intro c hc c' hc' rawToken hpresented hpresented' hopen hopen'
        by_contra hne
        rcases hcases hc with hc | rfl
        · rcases hcases hc' with hc' | rfl
          · exact hne (h.apart c hc c' hc' rawToken hpresented hpresented' hopen hopen')
          · rw [hcareful.apart id operation ctx rawToken rfl hpresented' c hc hpresented hne]
              at hopen
            cases hopen
        · rcases hcases hc' with hc' | rfl
          · rw [hcareful.apart id operation ctx rawToken rfl hpresented c' hc' hpresented'
              (Ne.symm hne)] at hopen'
            cases hopen'
          · exact hne rfl
  | @acts c action t phase hfind hact =>
      have hc := Table.mem_of_find hfind
      have hopen : c.phase.ended = false := by
        rw [← Bool.not_eq_true]
        intro hended
        rw [Call.act_of_ended hended] at hact
        cases hact
      -- The call that has taken the step was outstanding before it.
      have hbefore {c' : Call} (hc' : c' ∈ (s.calls.put { c with phase }).rows) :
          ∃ c₀ ∈ s.calls.rows, c₀.id = c'.id ∧ c₀.operation = c'.operation
            ∧ (c'.phase.ended = false → c₀.phase.ended = false) := by
        rcases Table.mem_rows_put_iff.mp hc' with rfl | ⟨hc', -⟩
        · exact ⟨c, hc, rfl, rfl, fun _ => hopen⟩
        · exact ⟨c', hc', rfl, rfl, id⟩
      refine ⟨?_, ?_, ?_⟩
      · intro c' hc' rawToken hpresented
        obtain ⟨c₀, hc₀, hid, hoperation, -⟩ := hbefore hc'
        rw [← hoperation] at hpresented
        rw [← hid]
        exact hkeeps (h.own c₀ hc₀ rawToken hpresented)
      · intro c₁ hc₁ c₂ hc₂ hclient hrefresh₁ hrefresh₂ hopen₁ hopen₂
        obtain ⟨d₁, hd₁, hid₁, hoperation₁, hended₁⟩ := hbefore hc₁
        obtain ⟨d₂, hd₂, hid₂, hoperation₂, hended₂⟩ := hbefore hc₂
        rw [← hoperation₁] at hrefresh₁
        rw [← hoperation₂] at hrefresh₂
        rw [← hid₁, ← hid₂] at hclient ⊢
        exact h.single d₁ hd₁ d₂ hd₂ hclient hrefresh₁ hrefresh₂ (hended₁ hopen₁) (hended₂ hopen₂)
      · intro c₁ hc₁ c₂ hc₂ rawToken hpresented₁ hpresented₂ hopen₁ hopen₂
        obtain ⟨d₁, hd₁, -, hoperation₁, hended₁⟩ := hbefore hc₁
        obtain ⟨d₂, hd₂, -, hoperation₂, hended₂⟩ := hbefore hc₂
        rw [← hoperation₁] at hpresented₁ ⊢
        rw [← hoperation₂] at hpresented₂ ⊢
        exact h.apart d₁ hd₁ d₂ hd₂ rawToken hpresented₁ hpresented₂ (hended₁ hopen₁)
          (hended₂ hopen₂)

/-- A call that has ended tells its client that the token is revoked. -/
def Explained (crypto : Crypto) (s : State) (row : RefreshToken) : Prop :=
  ∃ c ∈ s.calls.rows, ∃ rawToken, c.operation.presented = some rawToken
    ∧ row.tokenHash = crypto.hashRefreshToken rawToken
    ∧ (c.phase.usedUp = true ∨ c.phase.refused = true)

/-- The call has found no token to be revoked. -/
def Call.Calm (c : Call) : Prop :=
  c.phase.reused = none ∧ ∀ existing, c.phase.existing = some existing → existing.revokedAt = none

/-- The tokens of outstanding refreshes are not revoked. -/
structure Peaceful (crypto : Crypto) (s : State) : Prop where
  live : ∀ c ∈ s.calls.rows, ∀ rawToken, c.operation = .refresh rawToken → c.phase.ended = false →
    ∀ id row, s.tokens.find id = some row → row.tokenHash = crypto.hashRefreshToken rawToken →
      row.revokedAt = none
  calm : ∀ c ∈ s.calls.rows, c.Calm
  explained : ∀ id row, s.tokens.find id = some row → row.revokedAt ≠ none → Explained crypto s row

theorem Call.calm_of_existing (h : c.phase.existing = none) :
  c.Calm
  := by
  constructor
  · cases hreused : c.phase.reused with
    | none => rfl
    | some existing =>
        rw [Phase.existing_of_reused hreused] at h
        cases h
  · intro existing hexisting
    rw [h] at hexisting
    cases hexisting

theorem Call.calm_of_plain (h : c.phase.plain = true) :
  c.Calm
  := by
  apply Call.calm_of_existing
  revert h
  cases c.phase <;> simp [Phase.plain, Phase.existing]

/-- A call whose token is not revoked finds none to be revoked. -/
theorem Call.Acts.calm (h : c.Acts crypto s s' phase) (hcalm : c.Calm) (hknows : Knows crypto s c)
    (hlive : ∀ rawToken, c.operation = .refresh rawToken → c.phase.ended = false →
      ∀ id row, s.tokens.find id = some row → row.tokenHash = crypto.hashRefreshToken rawToken →
        row.revokedAt = none) :
  ({ c with phase } : Call).Calm
  := by
  cases h with
  | plain hplain | starts _ _ _ hplain | enrolls _ _ hplain | revokes _ hplain =>
      apply Call.calm_of_plain hplain
  | revokesFamily | commits => apply Call.calm_of_existing rfl
  | @finds rawToken existing hphase hfind =>
      obtain ⟨hrow, hhash⟩ := find_of_findRefreshToken hfind
      refine ⟨rfl, ?_⟩
      intro found hfound
      obtain rfl := Option.some.inj hfound
      exact hlive rawToken (hknows.presenting rawToken hphase) (by rw [hphase]; rfl) _ existing hrow
        hhash
  | @follows existing _ hbefore hafter _ hreused =>
      refine ⟨?_, ?_⟩
      · rcases hreused with hnone | hfound | hbefore' | hall
        · exact hnone
        · exact absurd (hcalm.2 existing hbefore) hfound
        · rw [hcalm.1] at hbefore'
          cases hbefore'
        · obtain ⟨rawToken, row, hoperation, hrow, hhash, -⟩ := hknows.existing existing hbefore
          have hopen : c.phase.ended = false := by
            cases hphase : c.phase <;> rw [hphase] at hbefore <;> first | rfl | cases hbefore
          exact absurd (hlive rawToken hoperation hopen _ row hrow hhash) (hall row hrow)
      · intro found hfound
        rw [← Option.some.inj (hafter.symm.trans hfound)]
        exact hcalm.2 existing hbefore
  | locks hphase =>
      refine ⟨rfl, ?_⟩
      intro found hfound
      obtain rfl := Option.some.inj hfound
      exact hcalm.2 _ (by rw [hphase]; rfl)
  | inserts _ _ _ hnext =>
      rcases hnext with ⟨_, _, rfl⟩ | ⟨existing, revokedAt, _, hphase, -, rfl⟩
      · apply Call.calm_of_existing rfl
      · refine ⟨rfl, ?_⟩
        intro found hfound
        obtain rfl := Option.some.inj hfound
        exact hcalm.2 _ (by rw [hphase]; rfl)

/-- What holds of every state that honest and careful clients reach. -/
structure Undisturbed (crypto : Crypto) (client : ℕ → γ) (rows : List RefreshToken) (s : State) :
    Prop where
  invariant : Invariant crypto s
  handed : Handed crypto s
  leaves : ∀ c ∈ s.calls.rows, Leaves crypto s c
  orderly : Orderly crypto client rows s
  peaceful : Peaceful crypto s

/-- A token that a step of a call revokes is the one the call was presented, and the call ends. -/
theorem Undisturbed.revokes (h : Undisturbed crypto client rows s) {action : Action} {id : ℕ}
    {row row' : RefreshToken} (hc : c ∈ s.calls.rows)
    (hact : c.act config crypto unicode s action = some (s', phase))
    (hrow : s.tokens.find id = some row) (hlive : row.revokedAt = none)
    (hrow' : s'.tokens.find id = some row') (hrevoked : row'.revokedAt ≠ none) :
  ∃ rawToken, c.operation.presented = some rawToken
    ∧ row.tokenHash = crypto.hashRefreshToken rawToken
    ∧ (phase.usedUp = true ∨ phase.refused = true)
  := by
  rcases (Call.deals_of_act hact).revokes_cases hrow hlive hrow' hrevoked with
    ⟨existing, hspending, rfl, hspent⟩ | hreused
  · obtain ⟨rawToken, r, hpresented, hr, hhash⟩ :=
      presented_of_spending (h.invariant.knows c hc) (h.leaves c hc) hspending
    obtain rfl := Option.some.inj (hrow.symm.trans hr)
    exact ⟨rawToken, hpresented, hhash, hspent⟩
  · exact absurd (h.peaceful.calm c hc).1 hreused

/-- A stored token is one of the rows inserted. -/
theorem Undisturbed.exists_row (h : Undisturbed crypto client rows s) (hrows : s.inserted ⊆ rows)
    {id : ℕ} {row : RefreshToken} (hrow : s.tokens.find id = some row) :
  ∃ r ∈ rows, r.tokenHash = row.tokenHash
  := by
  obtain ⟨r, hr, -, hhash⟩ := h.invariant.stored.tokens id row hrow
  exact ⟨r, hrows hr, hhash⟩

/-- The token that a client presents for a refresh is not revoked. -/
theorem Undisturbed.live_of_call (h : Undisturbed crypto client rows s) (hrows : s.inserted ⊆ rows)
    {callId : ℕ} {rawToken : JsString} {ctx : SessionContext}
    (hhonest : Honest crypto client rows ⟨s, .call callId (.refresh rawToken) ctx, s'⟩)
    (hcareful : Careful ⟨s, .call callId (.refresh rawToken) ctx, s'⟩) {id : ℕ}
    {row : RefreshToken} (hrow : s.tokens.find id = some row)
    (hhash : row.tokenHash = crypto.hashRefreshToken rawToken) :
  row.revokedAt = none
  := by
  by_contra hrevoked
  obtain ⟨c, hc, rawToken', hpresented, hhash', hspent⟩ := h.peaceful.explained id row hrow hrevoked
  obtain ⟨r, hr, hr_hash⟩ := h.exists_row hrows hrow
  have howns := h.orderly.own c hc rawToken' hpresented
  have howns' := hhonest.own callId (.refresh rawToken) ctx rawToken rfl rfl
  obtain ⟨-, rfl⟩ := howns.unique howns' h.handed hr (hr_hash.trans hhash') (hr_hash.trans hhash)
  rcases hspent with husedUp | hrefused
  · rw [hhonest.unused callId rawToken' ctx rfl c hc hpresented] at husedUp
    cases husedUp
  · rw [hcareful.unrefused callId rawToken' ctx rfl c hc hpresented] at hrefused
    cases hrefused

/-- No step of a call revokes the token of a refresh that is outstanding after it. -/
theorem Undisturbed.live_of_act (h : Undisturbed crypto client rows s) (hrows : s.inserted ⊆ rows)
    {action : Action} {t : State} (hfind : s.calls.find c.id = some c)
    (hact : c.act config crypto unicode s action = some (t, phase)) {c' : Call}
    (hc' : c' ∈ (s.calls.put { c with phase }).rows) {rawToken : JsString}
    (hoperation : c'.operation = .refresh rawToken) (hopen : c'.phase.ended = false) {id : ℕ}
    {row row' : RefreshToken} (hrow : s.tokens.find id = some row) (hlive : row.revokedAt = none)
    (hrow' : t.tokens.find id = some row')
    (hhash : row.tokenHash = crypto.hashRefreshToken rawToken) :
  row'.revokedAt = none
  := by
  by_contra hrevoked
  have hc := Table.mem_of_find hfind
  obtain ⟨rawToken', hpresented, hhash', hspent⟩ := h.revokes hc hact hrow hlive hrow' hrevoked
  rcases Table.mem_rows_put_iff.mp hc' with rfl | ⟨hc', hne⟩
  · rw [Phase.ended_of_spent hspent] at hopen
    cases hopen
  · obtain ⟨r, hr, hr_hash⟩ := h.exists_row hrows hrow
    have hpresented' : c'.operation.presented = some rawToken := by rw [hoperation]; rfl
    have howns := h.orderly.own c hc rawToken' hpresented
    have howns' := h.orderly.own c' hc' rawToken hpresented'
    obtain ⟨hclient, rfl⟩ :=
      howns.unique howns' h.handed hr (hr_hash.trans hhash') (hr_hash.trans hhash)
    have hopen' : c.phase.ended = false := by
      rw [← Bool.not_eq_true]
      intro hended
      rw [Call.act_of_ended hended] at hact
      cases hact
    -- Of one client, a refresh and another call with its token are not outstanding together.
    have hrefresh' : c'.operation.isRefresh = true := by rw [hoperation]; rfl
    have hrefresh : c.operation.isRefresh = true := by
      rw [h.orderly.apart c hc c' hc' rawToken' hpresented hpresented' hopen' hopen, hrefresh']
    apply hne
    exact (h.orderly.single c hc c' hc' hclient hrefresh hrefresh' hopen' hopen).symm

/-- Every step of honest and careful clients leaves the tokens of outstanding refreshes. -/
theorem Peaceful.step {label : Label} (h : Undisturbed crypto client rows s)
    (hrows : s.inserted ⊆ rows) (hhonest : Honest crypto client rows ⟨s, label, s'⟩)
    (hcareful : Careful ⟨s, label, s'⟩) (hmoves : Moves crypto s s')
    (hstep : CallStep config crypto unicode s label s') :
  Peaceful crypto s'
  := by
  have hexplained {row : RefreshToken} (h : Explained crypto s row) : Explained crypto s' row := by
    obtain ⟨c, hc, rawToken, hpresented, hhash, hspent⟩ := h
    exact ⟨c, mem_calls_of_ended hstep hc (Phase.ended_of_spent hspent), rawToken, hpresented,
      hhash, hspent⟩
  have hrowStep := hmoves.rowStep h.invariant.stored h.invariant.locking
  cases hstep with
  | other => exact ⟨h.peaceful.live, h.peaceful.calm, h.peaceful.explained⟩
  | @calls callId operation ctx calls hcreate =>
      have hcases {c : Call} (hc : c ∈ calls.rows) : c ∈ s.calls.rows
          ∨ c = { id := callId, operation, ctx, phase := operation.start } := by
        rw [Table.rows_of_create hcreate, List.mem_append, List.mem_singleton] at hc
        exact hc
      refine ⟨?_, ?_, ?_⟩
      · intro c hc rawToken hoperation hopen id row hrow hhash
        rcases hcases hc with hc | rfl
        · exact h.peaceful.live c hc rawToken hoperation hopen id row hrow hhash
        · change operation = .refresh rawToken at hoperation
          subst hoperation
          exact h.live_of_call hrows hhonest hcareful hrow hhash
      · intro c hc
        rcases hcases hc with hc | rfl
        · exact h.peaceful.calm c hc
        · exact Call.calm_of_existing (Operation.existing_start operation)
      · intro id row hrow hrevoked
        exact hexplained (h.peaceful.explained id row hrow hrevoked)
  | @acts c action t phase hfind hact =>
      have hc := Table.mem_of_find hfind
      refine ⟨?_, ?_, ?_⟩
      · intro c' hc' rawToken hoperation hopen id row' hrow' hhash
        have hstep := hrowStep id
        rw [hrow'] at hstep
        generalize hfound : s.tokens.find id = row at hstep
        have hbefore (row : RefreshToken) (hrow : s.tokens.find id = some row)
            (hhash : row.tokenHash = crypto.hashRefreshToken rawToken) : row.revokedAt = none := by
          rcases Table.mem_rows_put_iff.mp hc' with rfl | ⟨hc', -⟩
          · refine h.peaceful.live c hc rawToken hoperation ?_ id row hrow hhash
            rw [← Bool.not_eq_true]
            intro hended
            rw [Call.act_of_ended hended] at hact
            cases hact
          · exact h.peaceful.live c' hc' rawToken hoperation hopen id row hrow hhash
        cases hstep with
        | kept => exact hbefore row' hfound hhash
        | created hlive => exact hlive
        | revoked hlive =>
            exact h.live_of_act hrows hfind hact hc' hoperation hopen hfound hlive hrow' hhash
      · intro c' hc'
        rcases mem_calls_put hc' with rfl | ⟨hc', -⟩
        · exact (Call.acts_of_act hact).calm (h.peaceful.calm c hc) (h.invariant.knows c hc)
            (h.peaceful.live c hc)
        · exact h.peaceful.calm c' hc'
      · intro id row' hrow' hrevoked
        have hstep := hrowStep id
        rw [hrow'] at hstep
        generalize hfound : s.tokens.find id = row at hstep
        cases hstep with
        | kept => exact hexplained (h.peaceful.explained id row' hfound hrevoked)
        | created hlive => exact absurd hlive hrevoked
        | revoked hlive =>
            obtain ⟨rawToken, hpresented, hhash, hspent⟩ :=
              h.revokes hc hact hfound hlive hrow' hrevoked
            exact ⟨{ c with phase }, Table.mem_rows_put_iff.mpr (.inl rfl), rawToken, hpresented,
              hhash, hspent⟩

/-- Every step of honest and careful clients keeps the invariant. -/
theorem Undisturbed.step {label : Label} (h : Undisturbed crypto client rows s)
    (hrows : s.inserted ⊆ rows) (hhonest : Honest crypto client rows ⟨s, label, s'⟩)
    (hcareful : Careful ⟨s, label, s'⟩)
    (hstep : (system config crypto unicode).step s label = some s') :
  Undisturbed crypto client rows s'
  := by
  have hmoves := moves_of_step hstep
  have hcalls := callStep_of_step hstep
  refine ⟨h.invariant.step hmoves, h.handed.step hmoves hcalls, ?_,
    h.orderly.step hhonest hcareful hcalls, Peaceful.step h hrows hhonest hcareful hmoves hcalls⟩
  refine leaves_step h.leaves ?_ hcalls
  exact fun id row hrow => hmoves.continues h.invariant.stored h.invariant.locking hrow

theorem undisturbed_init (h : (system config crypto unicode).init s) :
  Undisturbed crypto client rows s
  := by
  have hinvariant := invariant_init h
  obtain ⟨htokens, hcalls, -⟩ := h
  refine ⟨hinvariant, ⟨by simp [hcalls], by simp [hcalls]⟩, by simp [hcalls],
    ⟨by simp [hcalls], by simp [hcalls], by simp [hcalls]⟩,
    ⟨by simp [hcalls], by simp [hcalls], ?_⟩⟩
  intro id row hrow
  rw [Table.find_of_rows_eq_nil htokens] at hrow
  cases hrow

end

/-! ### Runs -/

/-- The rows inserted before a transition are among those inserted in the whole run. -/
theorem inserted_subset_of_run {s₀ s : State} {ts : List (Transition State Label)}
    (hrun : (system config crypto unicode).Run s₀ ts s) {t : Transition State Label} (ht : t ∈ ts) :
  t.source.inserted ⊆ s.inserted
  := by
  obtain ⟨-, after, -, -, hafter⟩ := hrun.split_of_mem ht
  have htarget : t.target.inserted ⊆ s.inserted := by
    apply hafter.invariant (I := fun s => t.target.inserted ⊆ s.inserted) (List.Subset.refl _)
    intro t' _ hstep hsubset
    exact List.Subset.trans hsubset (moves_of_step hstep).inserted_subset
  exact List.Subset.trans (moves_of_step (hrun.step_of_mem ht)).inserted_subset htarget

/-- No false alarm: in every run of honest and careful clients a refresh revokes no session but the
one presented. -/
theorem no_false_alarm {γ : Type} (client : ℕ → γ) {s₀ s : State}
    {ts : List (Transition State Label)} (hrun : (system config crypto unicode).Run s₀ ts s)
    (hinit : (system config crypto unicode).init s₀)
    (hhonest : ∀ t ∈ ts, Honest crypto client s.inserted t) (hcareful : ∀ t ∈ ts, Careful t) :
  ∀ t ∈ ts, RevokesPresented crypto t
  := by
  intro t ht callId action hlabel c rawToken hfind hoperation id row row' hrow hlive hrow' hrevoked
  have hundisturbed : Undisturbed crypto client s.inserted t.source := by
    apply hrun.invariant_source (Undisturbed crypto client s.inserted) (undisturbed_init hinit) _ ht
    intro t' ht' hstep hsource
    exact hsource.step (inserted_subset_of_run hrun ht') (hhonest t' ht') (hcareful t' ht') hstep
  have hstep := hrun.step_of_mem ht
  rw [hlabel] at hstep
  obtain ⟨c', hc', hstep⟩ := Option.bind_eq_some_iff.mp hstep
  obtain rfl := Option.some.inj (hfind.symm.trans hc')
  obtain ⟨next, hact, hstep⟩ := Option.bind_eq_some_iff.mp hstep
  rw [← Option.some.inj hstep] at hrow'
  obtain ⟨rawToken', hpresented, hhash, -⟩ :=
    hundisturbed.revokes (Table.mem_of_find hfind) hact hrow hlive hrow' hrevoked
  rw [hoperation] at hpresented
  obtain rfl := Option.some.inj hpresented
  exact hhash

/-! ### Samples -/

section

variable {γ : Type} [DecidableEq γ] (client : ℕ → γ)

/-- Whether a transition is honest, and every token presented was issued to its client. -/
def honestCheck (t : Transition State Label) : Bool :=
  match t.label with
  | .call id operation _ =>
      (operation.presented.all fun rawToken =>
        (t.source.calls.rows.any fun c =>
          client c.id = client id && c.phase.issued = some rawToken)
        && t.source.calls.rows.all fun c =>
          c.operation.presented ≠ some rawToken || !c.phase.usedUp)
      && (!operation.isRefresh || t.source.calls.rows.all fun c =>
        client c.id ≠ client id || !c.operation.isRefresh || c.phase.ended)
  | _ => true

/-- Whether a transition is careful: no token is presented while another call with it is
outstanding. -/
def carefulCheck (t : Transition State Label) : Bool :=
  match t.label with
  | .call _ operation _ =>
      operation.presented.all fun rawToken => t.source.calls.rows.all fun c =>
        c.operation.presented ≠ some rawToken || (!c.phase.refused && c.phase.ended)
  | _ => true

variable {client}

theorem honest_of_check {rows : List RefreshToken} {t : Transition State Label}
    (h : honestCheck client t = true) :
  Honest crypto client rows t
  := by
  unfold honestCheck at h
  refine ⟨?_, ?_, ?_⟩
  · intro id operation ctx rawToken hlabel hpresented
    simp only [hlabel, hpresented, Option.all_some, Bool.and_eq_true, List.any_eq_true,
      decide_eq_true_eq] at h
    obtain ⟨⟨⟨c, hc, hclient, hissued⟩, -⟩, -⟩ := h
    exact .inl ⟨c, hc, hclient, hissued⟩
  · intro id operation ctx hlabel hrefresh c hc hclient hrefresh'
    simp only [hlabel, hrefresh, Bool.and_eq_true, Bool.not_true, Bool.false_or,
      List.all_eq_true] at h
    simpa [hclient, hrefresh'] using h.2 c hc
  · intro id rawToken ctx hlabel c hc hpresented
    have hpresents : (Operation.refresh rawToken).presented = some rawToken := rfl
    simp only [hlabel, hpresents, Option.all_some, Bool.and_eq_true, List.all_eq_true] at h
    simpa [hpresented] using h.1.2 c hc

theorem careful_of_check {t : Transition State Label} (h : carefulCheck t = true) :
  Careful t
  := by
  unfold carefulCheck at h
  constructor
  · intro id rawToken ctx hlabel c hc hpresented
    have hpresents : (Operation.refresh rawToken).presented = some rawToken := rfl
    simp only [hlabel, hpresents, Option.all_some, List.all_eq_true] at h
    have hpair := h c hc
    simp only [hpresented, ne_eq, not_true_eq_false, decide_false, Bool.false_or, Bool.and_eq_true,
      Bool.not_eq_true'] at hpair
    exact hpair.1
  · intro id operation ctx rawToken hlabel hpresented c hc hpresented' _
    simp only [hlabel, hpresented, Option.all_some, List.all_eq_true] at h
    have hpair := h c hc
    simp only [hpresented', ne_eq, not_true_eq_false, decide_false, Bool.false_or,
      Bool.and_eq_true] at hpair
    exact hpair.2

end

/-- The user has two clients: the second one makes the calls with even ids. -/
def sampleClient (callId : ℕ) : Bool :=
  callId % 2 = 0

/-- The user logs in, and gets the token. -/
def entry (callId id : ℕ) (token : JsString) : List Label :=
  [.call callId (.login ⟨js "user@example.com", js "password"⟩) sampleContext,
    .step callId .advance, .step callId (.session id token)]

/-- The first client presents its token after it has expired.  The second client logs in, and is
refused while the account is suspended.  Then the first one logs in again, and rotates its token. -/
def expiryAndSuspension : List Label :=
  registration ++ [.tick 2592000000] ++ entry 2 2 (sampleToken 0x42)
    ++ presentation 3 (sampleToken 0x41) ++ [.setStatus 7 .SUSPENDED]
    ++ presentation 4 (sampleToken 0x42) ++ [.setStatus 7 .ACTIVE]
    ++ entry 5 3 (sampleToken 0x43) ++ presentation 7 (sampleToken 0x43)
    ++ rotation 7 4 (sampleToken 0x44)

/-- Two clients are refused, and no other session is revoked. -/
theorem no_false_alarm_of_expiryAndSuspension :
  ∃ ts s, (system sampleConfig sampleCrypto asciiUnicode).Run sampleState ts s
    ∧ (s.calls.find 3).map Call.phase = some (.returned (.error refreshTokenExpired))
    ∧ (s.calls.find 4).map Call.phase
      = some (.returned (.error (accountStatusException .SUSPENDED)))
    ∧ (s.tokens.find 4).map RefreshToken.revokedAt = some none
    ∧ ∀ t ∈ ts, RevokesPresented sampleCrypto t
  := by
  have hsome : ((system sampleConfig sampleCrypto asciiUnicode).execute
      (fun t => honestCheck sampleClient t && carefulCheck t) sampleState
      expiryAndSuspension).any (fun s =>
        decide ((s.calls.find 3).map Call.phase = some (.returned (.error refreshTokenExpired)))
        && decide ((s.calls.find 4).map Call.phase
          = some (.returned (.error (accountStatusException .SUSPENDED))))
        && decide ((s.tokens.find 4).map RefreshToken.revokedAt = some none)) = true := by
    decide +kernel
  obtain ⟨s, hs, hend⟩ := (Option.any_eq_true _ _).mp hsome
  obtain ⟨ts, hrun, hts⟩ := TransitionSystem.run_of_execute hs
  simp only [Bool.and_eq_true, decide_eq_true_eq] at hend hts
  refine ⟨ts, s, hrun, hend.1.1, hend.1.2, hend.2, ?_⟩
  exact no_false_alarm sampleClient hrun ⟨rfl, rfl, rfl, rfl, rfl⟩
    (fun t ht => honest_of_check (hts t ht).1) (fun t ht => careful_of_check (hts t ht).2)

/-- Whether the call is a refresh that has revoked another token than the one presented. -/
def alarms (callId : ℕ) (s s' : State) : Bool :=
  (s.calls.find callId).any fun c =>
    match c.operation with
    | .refresh rawToken => s.tokens.rows.any fun row =>
        row.revokedAt = none && row.tokenHash ≠ sampleCrypto.hashRefreshToken rawToken
          && (s'.tokens.find row.id).any fun row' => row'.revokedAt.isSome
    | _ => false

/-- The labels are a run of honest clients in which a refresh revokes another session. -/
def RaisesFalseAlarm (labels : List Label) : Prop :=
  ∃ ts s, (system sampleConfig sampleCrypto asciiUnicode).init sampleState
    ∧ (system sampleConfig sampleCrypto asciiUnicode).Run sampleState ts s
    ∧ ts.map Transition.label = labels
    ∧ (∀ t ∈ ts, Honest sampleCrypto sampleClient s.inserted t)
    ∧ ∃ t ∈ ts, ¬RevokesPresented sampleCrypto t

theorem raisesFalseAlarm_of_execute {labels : List Label} {callId : ℕ}
    (h : ((system sampleConfig sampleCrypto asciiUnicode).execute (honestCheck sampleClient)
      sampleState labels).any (fun s =>
        ((system sampleConfig sampleCrypto asciiUnicode).step s (.step callId .advance)).any
          (alarms callId s)) = true) :
  RaisesFalseAlarm (labels ++ [.step callId .advance])
  := by
  obtain ⟨s, hs, hnext⟩ := (Option.any_eq_true _ _).mp h
  obtain ⟨s', hstep, hend⟩ := (Option.any_eq_true _ _).mp hnext
  obtain ⟨ts, hrun, hts, rfl⟩ := TransitionSystem.run_of_execute_labels hs
  refine ⟨ts ++ [⟨s, .step callId .advance, s'⟩], s', ⟨rfl, rfl, rfl, rfl, rfl⟩,
    hrun.append (.cons hstep (.nil s')), by simp, ?_, _,
    List.mem_append_right _ List.mem_cons_self, ?_⟩
  · intro t ht
    rcases List.mem_append.mp ht with ht | ht
    · exact honest_of_check (hts t ht)
    · obtain rfl := List.mem_singleton.mp ht
      exact ⟨nofun, nofun, nofun⟩
  · intro hrevokes
    obtain ⟨c, hc, hend⟩ := (Option.any_eq_true _ _).mp hend
    split at hend
    · rename_i rawToken hoperation
      obtain ⟨row, hrow, hend⟩ := List.any_eq_true.mp hend
      simp only [Bool.and_eq_true, decide_eq_true_eq] at hend
      obtain ⟨⟨hlive, hother⟩, hend⟩ := hend
      obtain ⟨row', hrow', hrevoked⟩ := (Option.any_eq_true _ _).mp hend
      exact hother (hrevokes callId .advance rfl c rawToken hc hoperation row.id row row'
        (Table.mem_rows_iff.mp hrow) hlive hrow' (Option.isSome_iff_ne_none.mp hrevoked))
    · cases hend

/-- The first client presents its token after it has expired, and once more. -/
def expiryTwice : List Label :=
  registration ++ [.tick 2592000000] ++ entry 2 2 (sampleToken 0x42)
    ++ presentation 3 (sampleToken 0x41) ++ presentation 5 (sampleToken 0x41)

/-- The first client logs its token out while a refresh with it is outstanding. -/
def logoutDuringRefresh : List Label :=
  registration ++ entry 2 2 (sampleToken 0x42) ++ presentation 3 (sampleToken 0x41)
    ++ [.call 5 (.logout (sampleToken 0x41) 7) sampleContext, .step 5 .advance, .step 5 .advance,
      .step 3 .advance, .step 3 .advance, .step 3 .advance]

/-- Honest clients raise a false alarm when they present an expired token twice, and when they log a
token out while a refresh with it is outstanding. -/
theorem honest_clients_raise_false_alarms :
  RaisesFalseAlarm (expiryTwice ++ [.step 5 .advance])
    ∧ RaisesFalseAlarm (logoutDuringRefresh ++ [.step 3 .advance])
  := by
  constructor
  · apply raisesFalseAlarm_of_execute
    decide +kernel
  · apply raisesFalseAlarm_of_execute
    decide +kernel

end AuthService

end DocuAI
