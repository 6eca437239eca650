import DocuAI.Auth.Alarm
import DocuAI.Auth.Statements

/-!
# Credentials

Who can open a session and who can end one.  A session is opened for the credentials of its user:
with the account itself, for the password of the account, or in exchange for the last refresh token.
What a call checks is read by an earlier statement than the one that opens the session, so it holds
of a state the call has met (`Met`), and not for sure of the last one.  A session is ended by a call
that presents a refresh token of the same user, and unless it is the session presented, only after
one was presented that had been revoked before.
-/

namespace DocuAI

namespace AuthService

variable {config : AuthConfig} {crypto : Crypto} {unicode : Unicode}

/-! ### What an operation vouches for -/

/-- The account has the email and the password of the request, and is ACTIVE. -/
def Authenticates (crypto : Crypto) (unicode : Unicode) (userId : ℕ) (dto : LoginDto) (s : State) :
    Prop :=
  ∃ user, s.users.find userId = some user ∧ user.email = normalizeEmail unicode dto.email
    ∧ crypto.verify user.passwordHash dto.password = true ∧ user.status = .ACTIVE

/-- The presented token is that of a session of the user. -/
def Presents (crypto : Crypto) (s : State) (rawToken : JsString) (sessionId userId : ℕ) : Prop :=
  ∃ row, s.tokens.find sessionId = some row ∧ row.tokenHash = crypto.hashRefreshToken rawToken
    ∧ row.userId = userId

/-- What the operation of a call vouches for in a phase. -/
def Vouched (crypto : Crypto) (unicode : Unicode) (s : State) (operation : Operation) :
    Phase → Prop
  | .registering dto | .creatingUser dto => operation = .register dto
  | .creatingSession user =>
      ∃ dto, operation = .register dto ∧ user.email = normalizeEmail unicode dto.email
  | .committingUser user row _ =>
      (∃ dto, operation = .register dto ∧ user.email = normalizeEmail unicode dto.email)
        ∧ row.userId = user.id
  | .loggingIn dto => operation = .login dto
  | .startingSession _ => ∃ dto, operation = .login dto
  | .loggingOut rawToken userId => operation = .logout rawToken userId
  | .endingSession existing userId _ =>
      ∃ rawToken, operation = .logout rawToken userId
        ∧ Presents crypto s rawToken existing.id userId
  | _ => True

section

variable {s s' : State} {c : Call} {phase : Phase} {label : Label}

/-- A step of a call leaves the accounts, unless it commits a new one. -/
theorem Call.Takes.users_cases (h : c.Takes config crypto unicode s s' phase) :
  s'.users = s.users
    ∨ ∃ user row token, c.phase = .committingUser user row token
      ∧ s.users.create user = some s'.users
  := by
  cases h with
  | commitsUser hphase husers => exact .inr ⟨_, _, _, hphase, husers⟩
  | createsSession _ hissued | inserts _ hissued =>
      obtain ⟨-, -, -, hstate⟩ := issueRefreshToken_eq_some hissued
      rw [hstate]
      exact .inl rfl
  | startsSession _ hissued =>
      obtain ⟨-, -, -, hstate⟩ := issueRefreshToken_eq_some hissued
      rw [hstate]
      exact .inl rfl
  | expires _ hrevoked | suspends _ hrevoked | revokesFamily _ hrevoked | endsSession _ hrevoked =>
      obtain ⟨-, rfl⟩ := revokeMany_eq_some hrevoked
      exact .inl rfl
  | _ => exact .inl rfl

/-- An account keeps its email. -/
theorem Steps.account_stays (h : Steps config crypto unicode s label s') {id : ℕ} {user : User}
    (hfind : s.users.find id = some user) :
  ∃ user', s'.users.find id = some user' ∧ user'.email = user.email
  := by
  cases h with
  | tick | calls => exact ⟨user, hfind, rfl⟩
  | takes _ htakes =>
      rcases htakes.users_cases with husers | ⟨_, _, _, -, hcreate⟩
      · exact ⟨user, husers ▸ hfind, rfl⟩
      · exact ⟨user, Table.find_create_of_find hcreate hfind, rfl⟩
  | setStatus userId status now =>
      simp only [Table.find_updateMany, hfind, Option.map_some, Option.some.injEq,
        exists_eq_left', Update.apply]
      split <;> rfl

theorem Presents.mono {rawToken : JsString} {sessionId userId : ℕ}
    (h : Presents crypto s rawToken sessionId userId)
    (hrows : ∀ id row, s.tokens.find id = some row →
      ∃ row', s'.tokens.find id = some row' ∧ Continues row row') :
  Presents crypto s' rawToken sessionId userId
  := by
  obtain ⟨row, hrow, hhash, huser⟩ := h
  obtain ⟨row', hrow', hcontinues⟩ := hrows _ row hrow
  exact ⟨row', hrow', hcontinues.tokenHash.trans hhash, hcontinues.userId.trans huser⟩

/-- What is vouched for stays so. -/
theorem Vouched.mono {operation : Operation} (h : Vouched crypto unicode s operation phase)
    (hrows : ∀ id row, s.tokens.find id = some row →
      ∃ row', s'.tokens.find id = some row' ∧ Continues row row') :
  Vouched crypto unicode s' operation phase
  := by
  cases phase with
  | endingSession existing userId revokedAt =>
      obtain ⟨rawToken, hoperation, hpresents⟩ := h
      exact ⟨rawToken, hoperation, hpresents.mono hrows⟩
  | _ => exact h

theorem vouched_start (operation : Operation) :
  Vouched crypto unicode s operation operation.start
  := by
  cases operation with
  | register | login | logout => rfl
  | refresh => trivial

/-- What the operation of a call vouches for after a step of the call. -/
theorem Call.Takes.vouched (h : c.Takes config crypto unicode s s' phase)
    (hvouched : Vouched crypto unicode s c.operation c.phase) :
  Vouched crypto unicode s' c.operation phase
  := by
  cases h with
  | unregistered hphase =>
      rw [hphase] at hvouched
      exact hvouched
  | @createsUser dto _ _ hphase =>
      rw [hphase] at hvouched
      exact ⟨dto, hvouched, rfl⟩
  | createsSession hphase hissued =>
      rw [hphase] at hvouched
      obtain ⟨-, -, huser, -⟩ := issueRefreshToken_eq_some hissued
      exact ⟨hvouched, huser⟩
  | @authenticates dto _ hphase =>
      rw [hphase] at hvouched
      exact ⟨dto, hvouched⟩
  | @findsSession rawToken userId existing hphase hfind howner =>
      rw [hphase] at hvouched
      obtain ⟨hrow, hhash⟩ := find_of_findRefreshToken hfind
      exact ⟨rawToken, hvouched, existing, hrow, hhash, howner⟩
  | _ => trivial

/-- What holds of every state. -/
structure Sound (crypto : Crypto) (unicode : Unicode) (s : State) : Prop where
  invariant : Invariant crypto s
  vouched : ∀ c ∈ s.calls.rows, Vouched crypto unicode s c.operation c.phase

theorem sound_init (h : (system config crypto unicode).init s) :
  Sound crypto unicode s
  := by
  refine ⟨invariant_init h, ?_⟩
  rw [h.2.1]
  exact List.forall_mem_nil _

theorem Sound.step (h : Sound crypto unicode s)
    (hstep : (system config crypto unicode).step s label = some s') :
  Sound crypto unicode s'
  := by
  have hmoves := moves_of_step hstep
  have hsteps := steps_of_step hstep
  have hrows : ∀ id row, s.tokens.find id = some row →
      ∃ row', s'.tokens.find id = some row' ∧ Continues row row' :=
    fun id row hrow => hmoves.continues h.invariant.stored h.invariant.locking hrow
  refine ⟨h.invariant.step hmoves, ?_⟩
  apply hsteps.forall_calls (P := fun s c => Vouched crypto unicode s c.operation c.phase) h.vouched
  · exact fun c _ hvouched => hvouched.mono hrows
  · intro c _ hstart
    rw [hstart]
    apply vouched_start
  · rintro c _ t phase htakes rfl hvouched
    exact htakes.vouched hvouched

theorem sound_of_run {s₀ : State} {ts : List (Transition State Label)}
    (hrun : (system config crypto unicode).Run s₀ ts s)
    (hinit : (system config crypto unicode).init s₀) :
  (∀ t ∈ ts, Sound crypto unicode t.source) ∧ Sound crypto unicode s
  := by
  have hstep : ∀ t ∈ ts, (system config crypto unicode).step t.source t.label = some t.target →
      Sound crypto unicode t.source → Sound crypto unicode t.target :=
    fun t _ hstep h => h.step hstep
  exact ⟨fun t ht => hrun.invariant_source _ (sound_init hinit) hstep ht,
    hrun.invariant (sound_init hinit) hstep⟩

end

/-! ### What a call has met -/

/-- In one of the steps so far the call met a state with the property. -/
def Met (before : List (Transition State Label)) (callId : ℕ) (P : State → Prop) : Prop :=
  ∃ t ∈ before, (∃ action, t.label = .step callId action) ∧ P t.source

/-- The account is ACTIVE. -/
def IsActive (userId : ℕ) (s : State) : Prop :=
  ∃ user, s.users.find userId = some user ∧ user.status = .ACTIVE

/-- What a call has met when it comes to a phase: `login` the account it signs in, and `refresh` the
account of the token, and a time at which the token was valid. -/
def Checked (crypto : Crypto) (unicode : Unicode) (before : List (Transition State Label))
    (callId : ℕ) (operation : Operation) : Phase → Prop
  | .startingSession user =>
      ∃ dto, operation = .login dto ∧ Met before callId (Authenticates crypto unicode user.id dto)
  | .checking existing user =>
      Met before callId fun s => s.users.find existing.userId = some user
  | .beginning existing | .rotating existing _ | .inserting existing _ | .committing existing _ _ _ =>
      (Met before callId fun s => s.now < existing.expiresAt)
        ∧ Met before callId (IsActive existing.userId)
  | _ => True

section

variable {s s' : State} {c : Call} {phase : Phase} {before : List (Transition State Label)}
  {callId : ℕ} {P Q : State → Prop}

theorem Met.concat (h : Met before callId P) (t : Transition State Label) :
  Met (before ++ [t]) callId P
  := by
  obtain ⟨u, hu, hlabel, hP⟩ := h
  exact ⟨u, List.mem_append_left _ hu, hlabel, hP⟩

/-- The call meets the state before its step. -/
theorem met_now {action : Action} (h : P s) :
  Met (before ++ [⟨s, .step callId action, s'⟩]) callId P
  := ⟨_, List.mem_append_right _ List.mem_cons_self, ⟨action, rfl⟩, h⟩

theorem Met.imp (h : Met before callId P) (himp : ∀ s, P s → Q s) :
  Met before callId Q
  := by
  obtain ⟨u, hu, hlabel, hP⟩ := h
  exact ⟨u, hu, hlabel, himp _ hP⟩

theorem Checked.concat {operation : Operation}
    (h : Checked crypto unicode before callId operation phase) (t : Transition State Label) :
  Checked crypto unicode (before ++ [t]) callId operation phase
  := by
  cases phase with
  | startingSession user =>
      obtain ⟨dto, hoperation, hmet⟩ := h
      exact ⟨dto, hoperation, hmet.concat t⟩
  | checking existing user =>
      change Met before callId fun s => s.users.find existing.userId = some user at h
      exact h.concat t
  | beginning | rotating | inserting | committing => exact ⟨h.1.concat t, h.2.concat t⟩
  | _ => trivial

theorem checked_start (operation : Operation) :
  Checked crypto unicode before callId operation operation.start
  := by
  cases operation <;> trivial

/-- What a call has met after a step of the call. -/
theorem Call.Takes.checked {action : Action} (h : c.Takes config crypto unicode s s' phase)
    (hvouched : Vouched crypto unicode s c.operation c.phase)
    (hchecked : Checked crypto unicode before c.id c.operation c.phase) (target : State) :
  Checked crypto unicode (before ++ [⟨s, .step c.id action, target⟩]) c.id c.operation phase
  := by
  cases h with
  | @authenticates dto user hphase hfind hverify hactive =>
      rw [hphase] at hvouched
      have hmem : user ∈ s.users.rows := List.mem_of_find?_eq_some hfind
      have hemail : user.email = normalizeEmail unicode dto.email := by
        simpa using List.find?_some hfind
      exact ⟨dto, hvouched, met_now ⟨user, Table.mem_rows_iff.mp hmem, hemail, hverify, hactive⟩⟩
  | joins _ hfind =>
      change Met _ _ fun s => s.users.find _ = some _
      exact met_now hfind
  | @accepts existing user hphase _ hvalid hactive =>
      rw [hphase] at hchecked
      change Met before c.id fun s => s.users.find existing.userId = some user at hchecked
      exact ⟨met_now hvalid, (hchecked.concat _).imp fun s hfind => ⟨user, hfind, hactive⟩⟩
  | begins hphase | locks hphase | inserts hphase =>
      rw [hphase] at hchecked
      exact ⟨hchecked.1.concat _, hchecked.2.concat _⟩
  | _ => trivial

/-- What the calls have met in a run. -/
theorem checked_of_run {s₀ : State} {ts : List (Transition State Label)}
    (hrun : (system config crypto unicode).Run s₀ ts s)
    (hinit : (system config crypto unicode).init s₀) :
  ∀ c ∈ s.calls.rows, Checked crypto unicode ts c.id c.operation c.phase
  := by
  have hhistory : Sound crypto unicode s
      ∧ ∀ c ∈ s.calls.rows, Checked crypto unicode ts c.id c.operation c.phase := by
    refine hrun.history (I := fun before s => Sound crypto unicode s
      ∧ ∀ c ∈ s.calls.rows, Checked crypto unicode before c.id c.operation c.phase) ?_ ?_
    · refine ⟨sound_init hinit, ?_⟩
      rw [hinit.2.1]
      exact List.forall_mem_nil _
    · rintro before ⟨s, label, s'⟩ hstep ⟨hsound, hchecked⟩
      refine ⟨hsound.step hstep, ?_⟩
      intro c hc
      have hsteps : Steps config crypto unicode s label s' := steps_of_step hstep
      cases hsteps with
      | tick | setStatus => exact (hchecked c hc).concat _
      | calls hcreate =>
          change c ∈ Table.rows _ at hc
          rw [Table.rows_of_create hcreate, List.mem_append, List.mem_singleton] at hc
          rcases hc with hc | rfl
          · exact (hchecked c hc).concat _
          · apply checked_start
      | @takes c₀ action t phase hfind htakes =>
          have hc₀ := Table.mem_of_find hfind
          rcases mem_calls_put hc with rfl | ⟨hc, -⟩
          · exact htakes.checked (hsound.vouched c₀ hc₀) (hchecked c₀ hc₀) _
          · exact (hchecked c hc).concat _
  exact hhistory.2

end

/-! ### Sessions are opened for credentials -/

/-- What the call of a transition opens the session `row` for, after the transitions before. -/
inductive Opens (crypto : Crypto) (unicode : Unicode) (before : List (Transition State Label))
    (t : Transition State Label) (c : Call) (row : RefreshToken) : Prop where
  /-- The account comes with the session. -/
  | account (dto : RegisterDto) (user : User) (hoperation : c.operation = .register dto)
      (hemail : user.email = normalizeEmail unicode dto.email)
      (hnew : t.source.users.find row.userId = none)
      (hcreated : t.target.users.find row.userId = some user)
  /-- The call has read the account, with the password and ACTIVE. -/
  | password (dto : LoginDto) (hoperation : c.operation = .login dto)
      (hmet : Met before c.id (Authenticates crypto unicode row.userId dto))
  /-- An open session of the user is ended for it.  The call has found its token valid, and the
  account ACTIVE. -/
  | exchange (rawToken : JsString) (old : RefreshToken) (hoperation : c.operation = .refresh rawToken)
      (hold : t.source.tokens.find old.id = some old) (hlive : old.revokedAt = none)
      (hhash : old.tokenHash = crypto.hashRefreshToken rawToken) (howner : old.userId = row.userId)
      (hvalid : Met before c.id fun s => s.now < old.expiresAt)
      (hactive : Met before c.id (IsActive row.userId))
      (hended : ∃ old', t.target.tokens.find old.id = some old' ∧ old'.revokedAt ≠ none)

section

variable {s s' : State} {c : Call}

/-- Of a row that was not there before its creation it is the row created. -/
theorem eq_of_create {tokens tokens' : Table RefreshToken.id} {row created : RefreshToken}
    (hcreate : tokens.create created = some tokens') (hbefore : tokens.find row.id = none)
    (hafter : tokens'.find row.id = some row) :
  row = created
  := by
  rw [Table.find_create hcreate] at hafter
  split at hafter
  · exact (Option.some.inj hafter).symm
  · rw [hbefore] at hafter
    cases hafter

/-- A statement that revokes tokens creates none. -/
theorem find_revokeMany_none {u : Update RefreshToken.id} {revoked : State × ℕ} {id : ℕ}
    (hrevoked : s.revokeMany u = some revoked) (h : s.tokens.find id = none) :
  revoked.1.tokens.find id = none
  := by
  obtain ⟨-, rfl⟩ := revokeMany_eq_some hrevoked
  change (s.tokens.updateMany u).1.find id = none
  rw [Table.find_updateMany, h, Option.map_none]

/-- In every run a session is opened by a call that has the credentials of its user. -/
theorem sessions_opened_for_credentials {s₀ s : State} {before after : List (Transition State Label)}
    {t : Transition State Label} (hrun : (system config crypto unicode).Run s₀ (before ++ t :: after) s)
    (hinit : (system config crypto unicode).init s₀) {row : RefreshToken}
    (hbefore : t.source.tokens.find row.id = none) (hafter : t.target.tokens.find row.id = some row) :
  ∃ c ∈ t.source.calls.rows, (∃ action, t.label = .step c.id action)
    ∧ Opens crypto unicode before t c row
  := by
  have hfirst := hrun.of_append_cons.1
  have h := (sound_of_run hfirst hinit).2
  have hmet := checked_of_run hfirst hinit
  have hsteps := steps_of_step (hrun.step_of_mem (List.mem_append_right _ List.mem_cons_self))
  obtain ⟨source, label, target⟩ := t
  simp only at h hmet hsteps hbefore hafter
  have habsurd {P : Prop} (hsame : target.tokens.find row.id = none) : P := by
    rw [hafter] at hsame
    cases hsame
  cases hsteps with
  | tick | calls | setStatus => exact habsurd hbefore
  | @takes c action t phase hfind htakes =>
      have hc := Table.mem_of_find hfind
      have hvouched := h.vouched c hc
      have hchecked := hmet c hc
      refine ⟨c, hc, ⟨action, rfl⟩, ?_⟩
      cases htakes with
      | commitsUser hphase husers htokens =>
          obtain rfl := eq_of_create htokens hbefore hafter
          rw [hphase] at hvouched
          obtain ⟨⟨dto, hoperation, hemail⟩, huser⟩ := hvouched
          refine .account dto _ hoperation hemail ?_ ?_
          · rw [huser]
            exact Table.find_of_create husers
          · rw [huser]
            exact (Table.find_create husers _).trans (if_pos rfl)
      | startsSession hphase hissued htokens =>
          obtain ⟨-, -, huser, hstate⟩ := issueRefreshToken_eq_some hissued
          rw [hstate] at hafter
          obtain rfl := eq_of_create htokens hbefore hafter
          rw [hphase] at hchecked
          obtain ⟨dto, hoperation, hmet⟩ := hchecked
          exact .password dto hoperation (huser ▸ hmet)
      | @commits existing new revokedAt token tokens hphase htokens =>
          have hpublished : (source.tokens.updateMany
              (publishRevoked existing.id revokedAt)).1.find row.id = none := by
            rw [Table.find_updateMany, hbefore, Option.map_none]
          obtain rfl := eq_of_create htokens hpublished hafter
          have hknows := h.invariant.knows c hc
          obtain ⟨rawToken, old, hoperation, hold, hhash, howner, hexpires, -⟩ :=
            hknows.existing existing (by rw [hphase]; rfl)
          have hnew := hknows.committing _ _ _ _ hphase
          rw [hphase] at hchecked
          obtain ⟨hvalid, hactive⟩ := hchecked
          obtain ⟨old', hold', hlive⟩ :=
            h.invariant.locking.live c hc existing.id (by rw [hphase]; rfl)
          obtain rfl := Option.some.inj (hold.symm.trans hold')
          have hid : old.id = existing.id := Table.key_of_find hold
          obtain ⟨-, hended⟩ := find_of_commit htokens hold
          rw [← hid] at hold hended
          exact .exchange rawToken old hoperation hold hlive hhash (howner.trans hnew.symm)
            (hexpires ▸ hvalid) (hnew ▸ hactive) ⟨_, hended, Option.some_ne_none _⟩
      | createsSession _ hissued | inserts _ hissued =>
          obtain ⟨-, -, -, hstate⟩ := issueRefreshToken_eq_some hissued
          rw [hstate] at hafter
          cases hbefore.symm.trans hafter
      | expires _ hrevoked | suspends _ hrevoked | revokesFamily _ hrevoked
      | endsSession _ hrevoked => exact habsurd (find_revokeMany_none hrevoked hbefore)
      | _ => exact habsurd hbefore

/-- The registration of a user opens its first session. -/
theorem sessions_opened_for_credentials_of_registration :
  ∃ ts s s' row, (system sampleConfig sampleCrypto asciiUnicode).Run sampleState
      (ts ++ [⟨s, .step 1 .advance, s'⟩]) s'
    ∧ s.tokens.find row.id = none ∧ s'.tokens.find row.id = some row
    ∧ ∃ c ∈ s.calls.rows, (∃ action, Label.step 1 Action.advance = .step c.id action)
      ∧ Opens sampleCrypto asciiUnicode ts ⟨s, .step 1 .advance, s'⟩ c row
  := by
  have hsample : ((system sampleConfig sampleCrypto asciiUnicode).execute (fun _ => true)
      sampleState registration.dropLast).any (fun s =>
        ((system sampleConfig sampleCrypto asciiUnicode).step s (.step 1 .advance)).any fun s' =>
          (s.tokens.find 1).isNone && (s'.tokens.find 1).isSome) = true := by
    decide +kernel
  obtain ⟨ts, s, s', hrun, hcheck⟩ := TransitionSystem.exists_run_of_execute hsample
  simp only [Bool.and_eq_true, Option.isNone_iff_eq_none, Option.isSome_iff_exists] at hcheck
  obtain ⟨hbefore, row, hafter⟩ := hcheck
  rw [← show row.id = 1 from Table.key_of_find hafter] at hbefore hafter
  refine ⟨ts, s, s', row, hrun, hbefore, hafter, ?_⟩
  apply sessions_opened_for_credentials hrun ⟨rfl, rfl, rfl, rfl, rfl⟩ hbefore hafter

end

/-! ### Sessions are ended by their users -/

/-- What entitles a call to end the session `row`. -/
inductive Ends (crypto : Crypto) (s : State) (c : Call) (row : RefreshToken) : Prop where
  | logout (rawToken : JsString) (hoperation : c.operation = .logout rawToken row.userId)
      (hhash : row.tokenHash = crypto.hashRefreshToken rawToken)
  | refresh (rawToken : JsString) (hoperation : c.operation = .refresh rawToken)
      (hhash : row.tokenHash = crypto.hashRefreshToken rawToken)
  /-- A token of the user was presented that had been revoked before. -/
  | alarm (rawToken : JsString) (reused : RefreshToken) (hoperation : c.operation = .refresh rawToken)
      (hreused : reused ∈ s.tokens.rows) (hhash : reused.tokenHash = crypto.hashRefreshToken rawToken)
      (howner : reused.userId = row.userId) (hrevoked : reused.revokedAt ≠ none)

section

variable {s s' : State} {c : Call} {phase : Phase} {id : ℕ} {row row' : RefreshToken}

/-- The token a `refresh` works on is the one it was presented. -/
theorem ends_of_existing (hknows : Knows crypto s c) (hrow : s.tokens.find id = some row)
    {existing : RefreshToken} (hexisting : c.phase.existing = some existing)
    (hid : id = existing.id) :
  Ends crypto s c row
  := by
  obtain ⟨rawToken, r, hoperation, hr, hhash, -, -⟩ := hknows.existing existing hexisting
  subst hid
  obtain rfl := Option.some.inj (hrow.symm.trans hr)
  exact .refresh rawToken hoperation hhash

/-- A call that ends a session is entitled to. -/
theorem Call.Takes.ends (h : c.Takes config crypto unicode s s' phase) (hknows : Knows crypto s c)
    (hvouched : Vouched crypto unicode s c.operation c.phase)
    (hrow : s.tokens.find id = some row) (hlive : row.revokedAt = none)
    (hrow' : s'.tokens.find id = some row') (hrevoked : row'.revokedAt ≠ none) :
  Ends crypto s c row
  := by
  have hkept {P : Prop} (hsame : s'.tokens.find id = some row) : P := by
    obtain rfl := Option.some.inj (hrow'.symm.trans hsame)
    exact absurd hlive hrevoked
  cases h with
  | expires hphase hrevokes | suspends hphase hrevokes =>
      apply ends_of_existing hknows hrow (by rw [hphase]; rfl)
      apply eq_of_revokeMany hrevokes id row row' hrow hlive hrow' hrevoked
  | commits hphase htokens =>
      apply ends_of_existing hknows hrow (by rw [hphase]; rfl)
      apply eq_of_commit htokens id row row' hrow hlive hrow' hrevoked
  | endsSession hphase hrevokes =>
      have hid := eq_of_revokeMany hrevokes id row row' hrow hlive hrow' hrevoked
      rw [hphase] at hvouched
      obtain ⟨rawToken, hoperation, r, hr, hhash, howner⟩ := hvouched
      subst hid
      obtain rfl := Option.some.inj (hrow.symm.trans hr)
      exact .logout rawToken (howner.symm ▸ hoperation) hhash
  | @revokesFamily token revokedAt visible revoked hphase hrevokes =>
      obtain ⟨rawToken, r, hoperation, hr, hhash, howner, -, hreused⟩ :=
        hknows.existing token (by rw [hphase]; rfl)
      have huser : row.userId = token.userId := by
        obtain ⟨-, rfl⟩ := revokeMany_eq_some hrevokes
        change (s.tokens.updateMany _).1.find id = some row' at hrow'
        rw [Table.find_updateMany, hrow, Option.map_some] at hrow'
        by_contra hne
        rw [Update.apply_of_not_guard _ (by simp [revokeAll, revoke, hne])] at hrow'
        obtain rfl := Option.some.inj hrow'
        exact hrevoked hlive
      refine .alarm rawToken r hoperation (Table.mem_of_find hr) hhash (howner.trans huser.symm) ?_
      exact hreused (.inr (by rw [hphase]; rfl))
  | commitsUser _ _ htokens | startsSession _ _ htokens =>
      exact hkept (Table.find_create_of_find htokens hrow)
  | createsSession _ hissued | inserts _ hissued =>
      obtain ⟨-, -, -, hstate⟩ := issueRefreshToken_eq_some hissued
      rw [hstate] at hrow'
      obtain rfl := Option.some.inj (hrow'.symm.trans hrow)
      exact absurd hlive hrevoked
  | _ => exact hkept hrow

end

/-- In every run a session is ended by a call that presents a token of its user: the token of the
session itself, or one that had been revoked before. -/
theorem sessions_ended_by_users {s₀ s : State} {ts : List (Transition State Label)}
    (hrun : (system config crypto unicode).Run s₀ ts s)
    (hinit : (system config crypto unicode).init s₀) {t : Transition State Label} (ht : t ∈ ts)
    {id : ℕ} {row row' : RefreshToken} (hrow : t.source.tokens.find id = some row)
    (hlive : row.revokedAt = none) (hrow' : t.target.tokens.find id = some row')
    (hrevoked : row'.revokedAt ≠ none) :
  ∃ c ∈ t.source.calls.rows, (∃ action, t.label = .step c.id action) ∧ Ends crypto t.source c row
  := by
  obtain ⟨hsound, -⟩ := sound_of_run hrun hinit
  have h := hsound t ht
  have hsteps := steps_of_step (hrun.step_of_mem ht)
  obtain ⟨source, label, target⟩ := t
  simp only at h hsteps hrow hrow'
  cases hsteps with
  | tick | calls | setStatus =>
      obtain rfl := Option.some.inj (hrow'.symm.trans hrow)
      exact absurd hlive hrevoked
  | @takes c action t phase hfind htakes =>
      have hc := Table.mem_of_find hfind
      refine ⟨c, hc, ⟨action, rfl⟩, ?_⟩
      exact htakes.ends (h.invariant.knows c hc) (h.vouched c hc) hrow hlive hrow' hrevoked

/-- The alarm over the token that was presented twice ends the session of its successor. -/
theorem sessions_ended_by_users_of_twoPresentations :
  ∃ ts s s' row row', (system sampleConfig sampleCrypto asciiUnicode).Run sampleState
      (ts ++ [⟨s, .step 3 .advance, s'⟩]) s'
    ∧ s.tokens.find 2 = some row ∧ row.revokedAt = none
    ∧ s'.tokens.find 2 = some row' ∧ row'.revokedAt ≠ none
    ∧ ∃ c ∈ s.calls.rows, (∃ action, Label.step 3 Action.advance = .step c.id action)
      ∧ Ends sampleCrypto s c row
  := by
  have hsample : ((system sampleConfig sampleCrypto asciiUnicode).execute (fun _ => true)
      sampleState twoPresentations.dropLast).any (fun s =>
        ((system sampleConfig sampleCrypto asciiUnicode).step s (.step 3 .advance)).any fun s' =>
          (s.tokens.find 2).any (fun row => row.revokedAt.isNone)
            && (s'.tokens.find 2).any fun row' => row'.revokedAt.isSome) = true := by
    decide +kernel
  obtain ⟨ts, s, s', hrun, hcheck⟩ := TransitionSystem.exists_run_of_execute hsample
  simp only [Bool.and_eq_true, Option.any_eq_true, Option.isNone_iff_eq_none,
    Option.isSome_iff_ne_none] at hcheck
  obtain ⟨⟨row, hrow, hlive⟩, row', hrow', hrevoked⟩ := hcheck
  refine ⟨ts, s, s', row, row', hrun, hrow, hlive, hrow', hrevoked, ?_⟩
  apply sessions_ended_by_users hrun ⟨rfl, rfl, rfl, rfl, rfl⟩
    (List.mem_append_right ts List.mem_cons_self) hrow hlive hrow' hrevoked

end AuthService

end DocuAI
