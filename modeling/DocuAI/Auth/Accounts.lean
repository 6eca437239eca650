import DocuAI.Auth.Credentials

/-!
# Accounts

No two accounts have the same email, however many registrations overlap: of those for one email one
at most returns a session, and the others are told that it is taken.  An account that is not ACTIVE
is cut off: no call that begins after it was suspended returns tokens for it.
-/

namespace DocuAI

namespace AuthService

variable {config : AuthConfig} {crypto : Crypto} {unicode : Unicode}

/-! ### Emails -/

/-- The account whose tokens the call has returned. -/
def Phase.account : Phase → Option ℕ
  | .returned (.ok (.session tokens _)) | .returned (.ok (.rotated tokens)) => some tokens.sub
  | _ => none

/-- Emails are distinct, those of the users that open transactions have inserted too. -/
structure EmailsDistinct (s : State) : Prop where
  users : (s.users.rows.map User.email).Nodup
  pending : ∀ c ∈ s.calls.rows, ∀ user, c.phase.pendingUser = some user →
    ∀ row ∈ s.users.rows, row.email ≠ user.email
  apart : ∀ c ∈ s.calls.rows, ∀ c' ∈ s.calls.rows, ∀ user user',
    c.phase.pendingUser = some user → c'.phase.pendingUser = some user' →
      user.email = user'.email → c.id = c'.id

section

variable {s s' : State} {c : Call} {phase : Phase} {label : Label}

theorem email_ne_of_findByEmail {email : JsString} (h : s.findByEmail unicode email = none) :
  ∀ row ∈ s.users.rows, row.email ≠ normalizeEmail unicode email
  := by
  intro row hrow
  simpa using List.find?_eq_none.mp h row hrow

theorem not_registersEmail {email : JsString} (h : s.registersEmail email = false) {c : Call}
    (hc : c ∈ s.calls.rows) {user : User} (hpending : c.phase.pendingUser = some user) :
  user.email ≠ email
  := by
  rintro rfl
  have hregisters : s.registersEmail user.email = true := by
    simp only [State.registersEmail, List.any_eq_true]
    exact ⟨c, hc, by simp [hpending]⟩
  rw [h] at hregisters
  cases hregisters

/-- A user that a transaction has inserted has an email that was free then. -/
theorem Call.Takes.pendingUser_cases (h : c.Takes config crypto unicode s s' phase) {user : User}
    (hpending : phase.pendingUser = some user) :
  s'.users = s.users ∧ (c.phase.pendingUser = some user
    ∨ s.registersEmail user.email = false ∧ ∀ row ∈ s.users.rows, row.email ≠ user.email)
  := by
  cases h with
  | createsUser hphase hfree hfind =>
      obtain rfl := Option.some.inj hpending
      exact ⟨rfl, .inr ⟨hfree, email_ne_of_findByEmail hfind⟩⟩
  | createsSession hphase hissued =>
      obtain ⟨-, -, -, hstate⟩ := issueRefreshToken_eq_some hissued
      rw [hstate]
      exact ⟨rfl, .inl (by rw [hphase]; exact hpending)⟩
  | _ => cases hpending

theorem Operation.pendingUser_start (operation : Operation) :
  operation.start.pendingUser = none
  := by
  cases operation <;> rfl

theorem Operation.account_start (operation : Operation) :
  operation.start.account = none
  := by
  cases operation <;> rfl

/-- The emails after the commit of a user. -/
theorem emails_of_create {users users' : Table User.id} {user : User}
    (hcreate : users.create user = some users') (hnodup : (users.rows.map User.email).Nodup)
    (hnew : ∀ row ∈ users.rows, row.email ≠ user.email) :
  (users'.rows.map User.email).Nodup
  := by
  rw [Table.rows_of_create hcreate, List.map_append, List.nodup_append]
  refine ⟨hnodup, by simp, ?_⟩
  rintro _ hrow _ huser rfl
  obtain ⟨row, hrow, heq⟩ := List.mem_map.mp hrow
  rw [List.map_singleton, List.mem_singleton] at huser
  exact hnew row hrow (heq.trans huser)

/-- A change of accounts that leaves their emails leaves them distinct. -/
theorem EmailsDistinct.setUsers {users : Table User.id} (h : EmailsDistinct s)
    (hemails : users.rows.map User.email = s.users.rows.map User.email) :
  EmailsDistinct { s with users }
  := by
  refine ⟨hemails ▸ h.users, ?_, h.apart⟩
  intro c hc user hpending row hrow heq
  have hmem : row.email ∈ s.users.rows.map User.email := hemails ▸ List.mem_map_of_mem hrow
  obtain ⟨row', hrow', heq'⟩ := List.mem_map.mp hmem
  exact h.pending c hc user hpending row' hrow' (heq'.trans heq)

/-- Every step keeps emails distinct. -/
theorem EmailsDistinct.step (h : EmailsDistinct s) (hstep : Steps config crypto unicode s label s') :
  EmailsDistinct s'
  := by
  cases hstep with
  | tick => exact ⟨h.users, h.pending, h.apart⟩
  | setStatus userId status now =>
      apply h.setUsers
      rw [Table.rows_updateMany, List.map_map]
      apply List.map_congr_left
      intro row _
      simp only [Function.comp_apply, Update.apply]
      split <;> rfl
  | @calls _ _ _ calls hcreate =>
      have hold {c : Call} (hc : c ∈ calls.rows) {user : User}
          (hpending : c.phase.pendingUser = some user) : c ∈ s.calls.rows := by
        rw [Table.rows_of_create hcreate, List.mem_append, List.mem_singleton] at hc
        rcases hc with hc | rfl
        · exact hc
        · rw [Operation.pendingUser_start] at hpending
          cases hpending
      refine ⟨h.users, fun c hc user hpending => h.pending c (hold hc hpending) user hpending, ?_⟩
      intro c hc c' hc' user user' hpending hpending'
      exact h.apart c (hold hc hpending) c' (hold hc' hpending') user user' hpending hpending'
  | @takes c _ t phase hfind htakes =>
      have hc := Table.mem_of_find hfind
      refine ⟨?_, ?_, ?_⟩
      · change (t.users.rows.map User.email).Nodup
        rcases htakes.users_cases with husers | ⟨user, _, _, hphase, hcreate⟩
        · rw [husers]
          exact h.users
        · exact emails_of_create hcreate h.users (h.pending c hc user (by rw [hphase]; rfl))
      · intro c' hc' user hpending row hrow
        change row ∈ t.users.rows at hrow
        rcases mem_calls_put hc' with rfl | ⟨hc', hne⟩
        · obtain ⟨husers, hbefore | ⟨-, hnew⟩⟩ := htakes.pendingUser_cases hpending
          · exact h.pending c hc user hbefore row (husers ▸ hrow)
          · exact hnew row (husers ▸ hrow)
        · rcases htakes.users_cases with husers | ⟨user', _, _, hphase, hcreate⟩
          · exact h.pending c' hc' user hpending row (husers ▸ hrow)
          · rw [Table.rows_of_create hcreate, List.mem_append, List.mem_singleton] at hrow
            rcases hrow with hrow | rfl
            · exact h.pending c' hc' user hpending row hrow
            · intro heq
              exact hne (h.apart c hc c' hc' row user (by rw [hphase]; rfl) hpending heq)
      · -- What the call that has taken the step has inserted, it had inserted before, or no other had.
        have hother {c' : Call} (hc' : c' ∈ s.calls.rows) (hne : c.id ≠ c'.id) {user user' : User}
            (hpending : phase.pendingUser = some user) (hpending' : c'.phase.pendingUser = some user')
            (hemail : user.email = user'.email) : False := by
          rcases (htakes.pendingUser_cases hpending).2 with hbefore | ⟨hfree, -⟩
          · exact hne (h.apart c hc c' hc' user user' hbefore hpending' hemail)
          · exact not_registersEmail hfree hc' hpending' hemail.symm
        intro c₁ hc₁ c₂ hc₂ user₁ user₂ hpending₁ hpending₂ hemail
        rcases mem_calls_put hc₁ with rfl | ⟨hc₁, hne₁⟩
        · rcases mem_calls_put hc₂ with rfl | ⟨hc₂, hne₂⟩
          · rfl
          · exact (hother hc₂ hne₂ hpending₁ hpending₂ hemail).elim
        · rcases mem_calls_put hc₂ with rfl | ⟨hc₂, hne₂⟩
          · exact (hother hc₁ hne₁ hpending₂ hpending₁ hemail.symm).elim
          · exact h.apart c₁ hc₁ c₂ hc₂ user₁ user₂ hpending₁ hpending₂ hemail

end

/-! ### Registrations -/

/-- A registration that has returned a session has created an account of its own, and one that was
refused has found its email taken. -/
structure Registration (unicode : Unicode) (s₀ s : State) (c : Call) : Prop where
  account : ∀ dto id, c.operation = .register dto → c.phase.account = some id →
    s₀.users.find id = none
      ∧ ∃ row, s.users.find id = some row ∧ row.email = normalizeEmail unicode dto.email
  taken : ∀ dto, c.operation = .register dto → c.phase = .returned (.error emailAlreadyExists) →
    ∃ id row, s.users.find id = some row ∧ row.email = normalizeEmail unicode dto.email

/-- What holds of every state of a run from `s₀`. -/
structure Registered (unicode : Unicode) (s₀ s : State) : Prop where
  distinct : EmailsDistinct s
  users : ∀ id row, s₀.users.find id = some row →
    ∃ row', s.users.find id = some row' ∧ row'.email = row.email
  calls : ∀ c ∈ s.calls.rows, Registration unicode s₀ s c
  apart : ∀ c ∈ s.calls.rows, ∀ c' ∈ s.calls.rows, ∀ dto dto' id, c.operation = .register dto →
    c'.operation = .register dto' → c.phase.account = some id → c'.phase.account = some id →
      c.id = c'.id

section

variable {s₀ s s' : State} {c : Call} {phase : Phase} {label : Label}

theorem Registration.mono (h : Registration unicode s₀ s c)
    (husers : ∀ id row, s.users.find id = some row →
      ∃ row', s'.users.find id = some row' ∧ row'.email = row.email) :
  Registration unicode s₀ s' c
  := by
  refine ⟨?_, ?_⟩
  · intro dto id hoperation haccount
    obtain ⟨hnew, row, hrow, hemail⟩ := h.account dto id hoperation haccount
    obtain ⟨row', hrow', hemail'⟩ := husers id row hrow
    exact ⟨hnew, row', hrow', hemail'.trans hemail⟩
  · intro dto hoperation hphase
    obtain ⟨id, row, hrow, hemail⟩ := h.taken dto hoperation hphase
    obtain ⟨row', hrow', hemail'⟩ := husers id row hrow
    exact ⟨id, row', hrow', hemail'.trans hemail⟩

theorem Registration.of_start (h : c.phase = c.operation.start) :
  Registration unicode s₀ s c
  := by
  constructor <;> intro dto <;> rw [h] <;> cases c.operation <;> nofun

/-- The account of a registration is committed when its session is returned. -/
theorem Call.Takes.account_cases (h : c.Takes config crypto unicode s s' phase)
    (hvouched : Vouched crypto unicode s c.operation c.phase) (hknows : Knows crypto s c)
    {dto : RegisterDto} (hoperation : c.operation = .register dto) {id : ℕ}
    (haccount : phase.account = some id) :
  s.users.find id = none
    ∧ ∃ row, s'.users.find id = some row ∧ row.email = normalizeEmail unicode dto.email
  := by
  cases h with
  | @commitsUser user row token users tokens hphase husers =>
      obtain rfl := Option.some.inj haccount
      rw [hphase] at hvouched
      obtain ⟨⟨dto', hoperation', hemail⟩, -⟩ := hvouched
      cases hoperation.symm.trans hoperation'
      exact ⟨Table.find_of_create husers, user, (Table.find_create husers _).trans (if_pos rfl),
        hemail⟩
  | startsSession hphase =>
      rw [hphase] at hvouched
      obtain ⟨dto', hoperation'⟩ := hvouched
      cases hoperation.symm.trans hoperation'
  | commits hphase =>
      obtain ⟨rawToken, -, hoperation', -⟩ := hknows.existing _ (by rw [hphase]; rfl)
      cases hoperation.symm.trans hoperation'
  | _ => cases haccount

/-- The account with the email is there when a registration is refused for it. -/
theorem Call.Takes.taken (h : c.Takes config crypto unicode s s' phase)
    (hvouched : Vouched crypto unicode s c.operation c.phase) (hknows : Knows crypto s c)
    {dto : RegisterDto} (hoperation : c.operation = .register dto)
    (hphase' : phase = .returned (.error emailAlreadyExists)) :
  ∃ id row, s'.users.find id = some row ∧ row.email = normalizeEmail unicode dto.email
  := by
  have hrefresh {existing : RefreshToken} {P : Prop} (hexisting : c.phase.existing = some existing) :
      P := by
    obtain ⟨rawToken, -, hoperation', -⟩ := hknows.existing existing hexisting
    cases hoperation.symm.trans hoperation'
  cases h with
  | @duplicate dto' user hphase hfind =>
      have hdto : c.operation = .register dto' := by
        rcases hphase with hphase | hphase <;> rw [hphase] at hvouched <;> exact hvouched
      cases hoperation.symm.trans hdto
      have hmem : user ∈ s.users.rows := List.mem_of_find?_eq_some hfind
      exact ⟨user.id, user, Table.mem_rows_iff.mp hmem, by simpa using List.find?_some hfind⟩
  | refuses hphase =>
      rw [hphase] at hvouched
      cases hoperation.symm.trans hvouched
  | unknownToken hphase => cases hoperation.symm.trans (hknows.presenting _ hphase)
  | expires hphase | suspends hphase | revokesFamily hphase =>
      exact hrefresh (by rw [hphase]; rfl)
  | _ => cases hphase'

/-- Every step keeps registrations apart. -/
theorem Registered.step (h : Registered unicode s₀ s) (hsound : Sound crypto unicode s)
    (hstep : Steps config crypto unicode s label s') :
  Registered unicode s₀ s'
  := by
  have husers : ∀ id row, s.users.find id = some row →
      ∃ row', s'.users.find id = some row' ∧ row'.email = row.email :=
    fun id row hrow => hstep.account_stays hrow
  refine ⟨h.distinct.step hstep, ?_, ?_, ?_⟩
  · intro id row hrow
    obtain ⟨row', hrow', hemail⟩ := h.users id row hrow
    obtain ⟨row'', hrow'', hemail'⟩ := husers id row' hrow'
    exact ⟨row'', hrow'', hemail'.trans hemail⟩
  · apply hstep.forall_calls (P := Registration unicode s₀) h.calls
    · exact fun c _ hc => hc.mono husers
    · exact fun c _ hstart => .of_start hstart
    · rintro c hc t phase htakes rfl hregistration
      have hvouched := hsound.vouched c hc
      have hknows := hsound.invariant.knows c hc
      refine ⟨?_, fun dto hoperation hphase => htakes.taken hvouched hknows hoperation hphase⟩
      intro dto id hoperation haccount
      obtain ⟨hnew, hrow⟩ := htakes.account_cases hvouched hknows hoperation haccount
      refine ⟨?_, hrow⟩
      cases hfind : s₀.users.find id with
      | none => rfl
      | some row =>
          obtain ⟨row', hrow', -⟩ := h.users id row hfind
          cases hnew.symm.trans hrow'
  · cases hstep with
    | tick | setStatus => exact h.apart
    | @calls _ _ _ calls hcreate =>
        have hold {c : Call} (hc : c ∈ calls.rows) {id : ℕ} (haccount : c.phase.account = some id) :
            c ∈ s.calls.rows := by
          rw [Table.rows_of_create hcreate, List.mem_append, List.mem_singleton] at hc
          rcases hc with hc | rfl
          · exact hc
          · rw [Operation.account_start] at haccount
            cases haccount
        intro c hc c' hc' dto dto' id hoperation hoperation' haccount haccount'
        exact h.apart c (hold hc haccount) c' (hold hc' haccount') dto dto' id hoperation hoperation'
          haccount haccount'
    | @takes c₀ _ t phase hfind htakes =>
        have hc₀ := Table.mem_of_find hfind
        -- The account that the step returns was not there before, so no call had returned it.
        have hother {c : Call} (hc : c ∈ s.calls.rows) {dto dto' : RegisterDto} {id : ℕ}
            (hoperation₀ : c₀.operation = .register dto) (hoperation : c.operation = .register dto')
            (haccount₀ : phase.account = some id) (haccount : c.phase.account = some id) : False := by
          obtain ⟨hnew, -⟩ := htakes.account_cases (hsound.vouched c₀ hc₀)
            (hsound.invariant.knows c₀ hc₀) hoperation₀ haccount₀
          obtain ⟨-, row, hrow, -⟩ := (h.calls c hc).account dto' id hoperation haccount
          cases hnew.symm.trans hrow
        intro c hc c' hc' dto dto' id hoperation hoperation' haccount haccount'
        rcases mem_calls_put hc with rfl | ⟨hc, -⟩
        · rcases mem_calls_put hc' with rfl | ⟨hc', -⟩
          · rfl
          · exact (hother hc' hoperation hoperation' haccount haccount').elim
        · rcases mem_calls_put hc' with rfl | ⟨hc', -⟩
          · exact (hother hc hoperation' hoperation haccount' haccount).elim
          · exact h.apart c hc c' hc' dto dto' id hoperation hoperation' haccount haccount'

end

/-- In every run that starts with distinct emails, emails stay distinct; of the registrations for one
email one at most has returned a session, and none for an email that had an account at the start;
and one that was refused has found its email taken. -/
theorem registrations_exclusive {s₀ s : State} {ts : List (Transition State Label)}
    (hrun : (system config crypto unicode).Run s₀ ts s)
    (hinit : (system config crypto unicode).init s₀)
    (hemails : (s₀.users.rows.map User.email).Nodup) :
  (s.users.rows.map User.email).Nodup
  ∧ (∀ c ∈ s.calls.rows, ∀ c' ∈ s.calls.rows, ∀ dto dto' id id', c.operation = .register dto →
    c'.operation = .register dto' →
      normalizeEmail unicode dto.email = normalizeEmail unicode dto'.email →
        c.phase.account = some id → c'.phase.account = some id' → c = c')
  ∧ (∀ c ∈ s.calls.rows, ∀ dto id, c.operation = .register dto → c.phase.account = some id →
    ∀ user ∈ s₀.users.rows, user.email ≠ normalizeEmail unicode dto.email)
  ∧ ∀ c ∈ s.calls.rows, ∀ dto, c.operation = .register dto →
    c.phase = .returned (.error emailAlreadyExists) →
      ∃ user ∈ s.users.rows, user.email = normalizeEmail unicode dto.email
  := by
  obtain ⟨hsound, -⟩ := sound_of_run hrun hinit
  have hcalls : s₀.calls.rows = [] := hinit.2.1
  have hregistered₀ : Registered unicode s₀ s₀ := by
    refine ⟨⟨hemails, ?_, ?_⟩, fun id row hrow => ⟨row, hrow, rfl⟩, ?_, ?_⟩ <;> simp [hcalls]
  have hregistered : Registered unicode s₀ s :=
    hrun.invariant hregistered₀ fun t ht hstep h => h.step (hsound t ht) (steps_of_step hstep)
  -- Accounts with the same email are the same.
  have hsame {id id' : ℕ} {row row' : User} (hrow : s.users.find id = some row)
      (hrow' : s.users.find id' = some row') (hemail : row.email = row'.email) : id = id' := by
    have heq := List.inj_on_of_nodup_map hregistered.distinct.users (Table.mem_of_find hrow)
      (Table.mem_of_find hrow') hemail
    rw [← Table.key_of_find hrow, ← Table.key_of_find hrow', heq]
  refine ⟨hregistered.distinct.users, ?_, ?_, ?_⟩
  · intro c hc c' hc' dto dto' id id' hoperation hoperation' hemail haccount haccount'
    obtain ⟨-, row, hrow, hrow_email⟩ :=
      (hregistered.calls c hc).account dto id hoperation haccount
    obtain ⟨-, row', hrow', hrow'_email⟩ :=
      (hregistered.calls c' hc').account dto' id' hoperation' haccount'
    obtain rfl := hsame hrow hrow' (by rw [hrow_email, hrow'_email, hemail])
    exact List.inj_on_of_nodup_map s.calls.nodup hc hc'
      (hregistered.apart c hc c' hc' dto dto' id hoperation hoperation' haccount haccount')
  · intro c hc dto id hoperation haccount user huser hemail
    obtain ⟨hnew, row, hrow, hrow_email⟩ :=
      (hregistered.calls c hc).account dto id hoperation haccount
    have hfind := Table.mem_rows_iff.mp huser
    obtain ⟨user', huser', hemail'⟩ := hregistered.users user.id user hfind
    obtain rfl := hsame huser' hrow (by rw [hemail', hemail, hrow_email])
    cases hnew.symm.trans hfind
  · intro c hc dto hoperation hphase
    obtain ⟨id, row, hrow, hemail⟩ := (hregistered.calls c hc).taken dto hoperation hphase
    exact ⟨row, Table.mem_of_find hrow, hemail⟩

/-- The email of user 7 is registered a second time, spelled differently. -/
def twoRegistrations : List Label :=
  registration ++ [.call 2 (.register ⟨js " User@example.com", js "other", none⟩) sampleContext,
    .step 2 .advance]

theorem registrations_exclusive_of_twoRegistrations :
  ∃ ts s, (system sampleConfig sampleCrypto asciiUnicode).Run sampleState ts s
    ∧ (s.calls.find 1).map (fun c => c.phase.account) = some (some 7)
    ∧ (s.calls.find 2).map Call.phase = some (.returned (.error emailAlreadyExists))
    ∧ (s.users.rows.map User.email).Nodup
    ∧ (∀ c ∈ s.calls.rows, ∀ c' ∈ s.calls.rows, ∀ dto dto' id id', c.operation = .register dto →
      c'.operation = .register dto' →
        normalizeEmail asciiUnicode dto.email = normalizeEmail asciiUnicode dto'.email →
          c.phase.account = some id → c'.phase.account = some id' → c = c')
    ∧ (∀ c ∈ s.calls.rows, ∀ dto id, c.operation = .register dto → c.phase.account = some id →
      ∀ user ∈ sampleState.users.rows, user.email ≠ normalizeEmail asciiUnicode dto.email)
    ∧ ∀ c ∈ s.calls.rows, ∀ dto, c.operation = .register dto →
      c.phase = .returned (.error emailAlreadyExists) →
        ∃ user ∈ s.users.rows, user.email = normalizeEmail asciiUnicode dto.email
  := by
  have hsome : ((system sampleConfig sampleCrypto asciiUnicode).execute (fun _ => true) sampleState
      twoRegistrations).any (fun s =>
        decide ((s.calls.find 1).map (fun c => c.phase.account) = some (some 7))
        && decide ((s.calls.find 2).map Call.phase
          = some (.returned (.error emailAlreadyExists)))) = true := by
    decide +kernel
  obtain ⟨s, hs, hend⟩ := (Option.any_eq_true _ _).mp hsome
  obtain ⟨ts, hrun, -⟩ := TransitionSystem.run_of_execute hs
  simp only [Bool.and_eq_true, decide_eq_true_eq] at hend
  refine ⟨ts, s, hrun, hend.1, hend.2, ?_⟩
  apply registrations_exclusive hrun ⟨rfl, rfl, rfl, rfl, rfl⟩ List.nodup_nil

/-! ### Accounts that are not ACTIVE -/

/-- The call gets no further with the account, as it is when its status is not ACTIVE. -/
def Phase.Barred (userId : ℕ) : Phase → Prop
  | .startingSession user => user.id ≠ userId
  | .checking existing user => existing.userId = userId → user.status ≠ .ACTIVE
  | .beginning existing | .rotating existing _ | .inserting existing _
  | .committing existing _ _ _ => existing.userId ≠ userId
  | phase => phase.account ≠ some userId

/-- The account is there, and not ACTIVE. -/
def Inactive (s : State) (userId : ℕ) : Prop :=
  ∃ user, s.users.find userId = some user ∧ user.status ≠ .ACTIVE

section

variable {s s' : State} {c : Call} {phase : Phase} {label : Label} {userId : ℕ}

/-- An account stays as it is unless its status is changed. -/
theorem Inactive.step (h : Inactive s userId) (hstep : Steps config crypto unicode s label s')
    (hlabel : label ≠ .setStatus userId .ACTIVE) :
  Inactive s' userId
  := by
  obtain ⟨user, hfind, hstatus⟩ := h
  cases hstep with
  | tick | calls => exact ⟨user, hfind, hstatus⟩
  | takes _ htakes =>
      rcases htakes.users_cases with husers | ⟨_, _, _, -, hcreate⟩
      · exact ⟨user, husers ▸ hfind, hstatus⟩
      · exact ⟨user, Table.find_create_of_find hcreate hfind, hstatus⟩
  | setStatus userId' status now =>
      obtain rfl := Table.key_of_find hfind
      unfold Inactive
      rw [Table.find_updateMany, hfind, Option.map_some]
      refine ⟨_, rfl, ?_⟩
      by_cases hid : user.id = userId'
      · rw [Update.apply_of_guard _ (by simp [hid])]
        rintro rfl
        exact hlabel (hid ▸ rfl)
      · rw [Update.apply_of_not_guard _ (by simp [hid])]
        exact hstatus

theorem Operation.barred_start (operation : Operation) :
  operation.start.Barred userId
  := by
  cases operation <;> nofun

/-- A step of a call that is barred leaves it barred. -/
theorem Call.Takes.barred (h : c.Takes config crypto unicode s s' phase)
    (hinactive : Inactive s userId) (hbarred : c.phase.Barred userId) :
  phase.Barred userId
  := by
  obtain ⟨row, hrow, hstatus⟩ := hinactive
  cases h with
  | commitsUser hphase husers =>
      have hnone := Table.find_of_create husers
      intro haccount
      obtain rfl := Option.some.inj haccount
      cases hrow.symm.trans hnone
  | @authenticates dto user hphase hfind hverify hactive =>
      have hmem : user ∈ s.users.rows := List.mem_of_find?_eq_some hfind
      rintro rfl
      obtain rfl := Option.some.inj (hrow.symm.trans (Table.mem_rows_iff.mp hmem))
      exact hstatus hactive
  | joins hphase hfind =>
      rintro rfl
      obtain rfl := Option.some.inj (hrow.symm.trans hfind)
      exact hstatus
  | startsSession hphase =>
      rw [hphase] at hbarred
      intro haccount
      exact hbarred (Option.some.inj haccount)
  | accepts hphase _ _ hactive =>
      rw [hphase] at hbarred
      intro huser
      exact hbarred huser hactive
  | begins hphase | locks hphase | inserts hphase =>
      rw [hphase] at hbarred
      exact hbarred
  | commits hphase =>
      rw [hphase] at hbarred
      intro haccount
      exact hbarred (Option.some.inj haccount)
  | _ => nofun

end

/-- Once an account is not ACTIVE, and as long as it is not made ACTIVE again, no call that begins
returns tokens for it. -/
theorem inactive_accounts_cut_off {s s' : State} {ts : List (Transition State Label)}
    (hrun : (system config crypto unicode).Run s ts s') {userId : ℕ} (hinactive : Inactive s userId)
    (hlabels : ∀ t ∈ ts, t.label ≠ .setStatus userId .ACTIVE) :
  ∀ c ∈ s'.calls.rows, s.calls.find c.id = none → c.phase.account ≠ some userId
  := by
  have hinvariant : Inactive s' userId
      ∧ ∀ c ∈ s'.calls.rows, s.calls.find c.id = none → c.phase.Barred userId := by
    refine hrun.invariant (I := fun s' => Inactive s' userId
      ∧ ∀ c ∈ s'.calls.rows, s.calls.find c.id = none → c.phase.Barred userId) ?_ ?_
    · refine ⟨hinactive, fun c hc hnew => ?_⟩
      rw [Table.mem_rows_iff.mp hc] at hnew
      cases hnew
    · intro t ht hstep ⟨hinactive, hbarred⟩
      have hsteps := steps_of_step hstep
      refine ⟨hinactive.step hsteps (hlabels t ht), ?_⟩
      apply hsteps.forall_calls (P := fun _ c => s.calls.find c.id = none → c.phase.Barred userId)
        hbarred
      · exact fun c _ hc => hc
      · intro c _ hstart _
        rw [hstart]
        apply Operation.barred_start
      · intro c _ t phase htakes _ hc hnew
        exact htakes.barred hinactive (hc hnew)
  intro c hc hnew haccount
  have hbarred := hinvariant.2 c hc hnew
  unfold Phase.account at haccount
  split at haccount
  · rename_i hphase
    rw [hphase] at hbarred
    exact hbarred haccount
  · rename_i hphase
    rw [hphase] at hbarred
    exact hbarred haccount
  · cases haccount

/-- User 7 is suspended. -/
def suspension : List Label :=
  registration ++ [.setStatus 7 .SUSPENDED]

/-- It logs in and presents its token. -/
def afterSuspension : List Label :=
  [.call 2 (.login ⟨js "user@example.com", js "password"⟩) sampleContext, .step 2 .advance]
    ++ presentation 3 (sampleToken 0x41)

/-- After the suspension the login and the refresh of the user are refused. -/
theorem inactive_accounts_cut_off_of_suspension :
  ∃ s ts s', (system sampleConfig sampleCrypto asciiUnicode).Run s ts s' ∧ Inactive s 7
    ∧ s.calls.find 2 = none ∧ s.calls.find 3 = none
    ∧ (s'.calls.find 2).map Call.phase
      = some (.returned (.error (accountStatusException .SUSPENDED)))
    ∧ (s'.calls.find 3).map Call.phase
      = some (.returned (.error (accountStatusException .SUSPENDED)))
    ∧ ∀ c ∈ s'.calls.rows, s.calls.find c.id = none → c.phase.account ≠ some 7
  := by
  have hsome : ((system sampleConfig sampleCrypto asciiUnicode).execute (fun _ => true) sampleState
      suspension).any (fun s =>
        (s.users.find 7).any (fun user => user.status ≠ .ACTIVE)
        && (s.calls.find 2).isNone && (s.calls.find 3).isNone
        && ((system sampleConfig sampleCrypto asciiUnicode).execute (fun _ => true) s
          afterSuspension).any fun s' =>
            decide ((s'.calls.find 2).map Call.phase
              = some (.returned (.error (accountStatusException .SUSPENDED))))
            && decide ((s'.calls.find 3).map Call.phase
              = some (.returned (.error (accountStatusException .SUSPENDED))))) = true := by
    decide +kernel
  obtain ⟨s, -, hs⟩ := (Option.any_eq_true _ _).mp hsome
  simp only [Bool.and_eq_true, Option.any_eq_true, Option.isNone_iff_eq_none,
    decide_eq_true_eq] at hs
  obtain ⟨⟨⟨hinactive, hlogin⟩, hrefresh⟩, s', hs', hend⟩ := hs
  obtain ⟨ts, hrun, -, hlabels⟩ := TransitionSystem.run_of_execute_labels hs'
  refine ⟨s, ts, s', hrun, hinactive, hlogin, hrefresh, hend.1, hend.2, ?_⟩
  apply inactive_accounts_cut_off hrun hinactive
  intro t ht hlabel
  have hmem : t.label ∈ afterSuspension := hlabels ▸ List.mem_map_of_mem ht
  rw [hlabel] at hmem
  simp [afterSuspension, presentation] at hmem

end AuthService

end DocuAI
