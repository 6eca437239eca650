import DocuAI.Auth.Credentials

/-!
# Logout

A logout is final: once it has returned, the session of the token presented is revoked for good,
whatever calls overlapped with it, and a refresh of the token that begins later is answered as a
reuse.
-/

namespace DocuAI

namespace AuthService

variable {config : AuthConfig} {crypto : Crypto} {unicode : Unicode}

/-- The session is revoked. -/
def Revoked (s : State) (tokenId : ℕ) : Prop :=
  ∃ row, s.tokens.find tokenId = some row ∧ row.revokedAt ≠ none

/-- The logout of a session of its user has the session revoked when it returns. -/
def Phase.LogsOut (s : State) (rawToken : JsString) (userId tokenId : ℕ) : Phase → Prop
  | .loggingOut raw owner => raw = rawToken ∧ owner = userId
  | .endingSession existing _ _ => existing.id = tokenId
  | .returned _ => Revoked s tokenId
  | .rejected => True
  | _ => False

/-- The call has found the token revoked, if it has found it. -/
def Phase.FindsRevoked : Phase → Prop
  | .joining existing | .checking existing _ => existing.revokedAt ≠ none
  | .presenting _ | .reusing _ _ | .revoking _ _ _ | .rejected => True
  | .returned result => result = .error refreshTokenReused
  | _ => False

section

variable {s s' : State} {c : Call} {phase : Phase} {rawToken : JsString} {userId tokenId : ℕ}

theorem Revoked.mono (h : Revoked s tokenId)
    (hrows : ∀ id row, s.tokens.find id = some row →
      ∃ row', s'.tokens.find id = some row' ∧ Continues row row') :
  Revoked s' tokenId
  := by
  obtain ⟨row, hrow, hrevoked⟩ := h
  obtain ⟨row', hrow', hcontinues⟩ := hrows _ row hrow
  exact ⟨row', hrow', by rw [hcontinues.revokedAt hrevoked]; exact hrevoked⟩

/-- The token of a session is found. -/
theorem exists_findRefreshToken (hstored : Stored s)
    (hpresents : Presents crypto s rawToken tokenId userId)
    (hshape : looksLikeRefreshToken rawToken = true) :
  ∃ existing, s.findRefreshToken crypto rawToken = some existing ∧ existing.id = tokenId
    ∧ s.tokens.find tokenId = some existing ∧ existing.userId = userId
  := by
  obtain ⟨row, hrow, hhash, howner⟩ := hpresents
  obtain ⟨existing, hfind⟩ : ∃ existing, s.findRefreshToken crypto rawToken = some existing := by
    rw [State.findRefreshToken, if_pos hshape, ← Option.isSome_iff_exists, List.find?_isSome]
    exact ⟨row, Table.mem_of_find hrow, by simpa using hhash⟩
  obtain ⟨hexisting, hexisting_hash⟩ := find_of_findRefreshToken hfind
  have hid := hstored.id_eq_of_tokenHash hexisting hrow (hexisting_hash.trans hhash.symm)
  rw [hid] at hexisting
  obtain rfl := Option.some.inj (hexisting.symm.trans hrow)
  exact ⟨existing, hfind, hid, hrow, howner⟩

/-- The update of one row leaves it revoked. -/
theorem revoked_of_revokeMany {revoked : State × ℕ} {revokedAt : ℕ} {row : RefreshToken}
    (hrevokes : s.revokeMany (revokeOne tokenId revokedAt) = some revoked)
    (hrow : s.tokens.find tokenId = some row) :
  Revoked revoked.1 tokenId
  := by
  obtain ⟨-, rfl⟩ := revokeMany_eq_some hrevokes
  have hid : row.id = tokenId := Table.key_of_find hrow
  refine ⟨(revokeOne tokenId revokedAt).apply row, ?_, ?_⟩
  · change (s.tokens.updateMany _).1.find tokenId = _
    rw [Table.find_updateMany, hrow, Option.map_some]
  · cases hrevoked : row.revokedAt with
    | none =>
        rw [Update.apply_of_guard _ (by simp [revokeOne, revoke, hid, hrevoked])]
        exact Option.some_ne_none _
    | some at_ =>
        rw [Update.apply_of_not_guard _ (by simp [revokeOne, revoke, hrevoked]), hrevoked]
        exact Option.some_ne_none _

/-- A step of the logout of a session of its user. -/
theorem Call.Takes.logsOut (h : c.Takes config crypto unicode s s' phase) (hstored : Stored s)
    (hpresents : Presents crypto s rawToken tokenId userId)
    (hshape : looksLikeRefreshToken rawToken = true)
    (hlogsOut : c.phase.LogsOut s rawToken userId tokenId) :
  phase.LogsOut s' rawToken userId tokenId
  := by
  cases h with
  | leavesAlone hphase hfind =>
      rw [hphase] at hlogsOut
      obtain ⟨rfl, rfl⟩ := hlogsOut
      obtain ⟨existing, hexisting, -, -, howner⟩ := exists_findRefreshToken hstored hpresents hshape
      exact absurd howner (hfind existing hexisting)
  | findsSession hphase hfind =>
      rw [hphase] at hlogsOut
      obtain ⟨rfl, rfl⟩ := hlogsOut
      obtain ⟨existing, hexisting, hid, -⟩ := exists_findRefreshToken hstored hpresents hshape
      obtain rfl := Option.some.inj (hexisting.symm.trans hfind)
      exact hid
  | endsSession hphase hrevokes =>
      rw [hphase] at hlogsOut
      obtain rfl : _ = tokenId := hlogsOut
      obtain ⟨row, hrow, -⟩ := hpresents
      exact revoked_of_revokeMany hrevokes hrow
  | throws => trivial
  | duplicate hphase =>
      rcases hphase with hphase | hphase <;> rw [hphase] at hlogsOut <;> exact hlogsOut.elim
  | unregistered hphase | createsUser hphase | createsSession hphase | commitsUser hphase
  | refuses hphase | authenticates hphase | startsSession hphase | unknownToken hphase
  | findsToken hphase | orphan hphase | joins hphase | findsReused hphase | findsExpired hphase
  | findsInactive hphase | accepts hphase | expires hphase | suspends hphase | begins hphase
  | locks hphase | loses hphase | inserts hphase | commits hphase | lost hphase
  | startsReuse hphase | revokesFamily hphase =>
      rw [hphase] at hlogsOut
      exact hlogsOut.elim

/-- A step of a refresh that has found its token revoked. -/
theorem Call.Takes.findsRevoked (h : c.Takes config crypto unicode s s' phase) (hstored : Stored s)
    (hknows : Knows crypto s c) (hpresents : Presents crypto s rawToken tokenId userId)
    (hshape : looksLikeRefreshToken rawToken = true) (hrevoked : Revoked s tokenId)
    (hoperation : c.operation = .refresh rawToken) (hfinds : c.phase.FindsRevoked) :
  phase.FindsRevoked
  := by
  have hraw {raw : JsString} (hphase : c.phase = .presenting raw) : raw = rawToken := by
    cases hoperation.symm.trans (hknows.presenting raw hphase)
    rfl
  cases h with
  | unknownToken hphase hfind =>
      obtain rfl := hraw hphase
      obtain ⟨existing, hexisting, -⟩ := exists_findRefreshToken hstored hpresents hshape
      cases hfind.symm.trans hexisting
  | findsToken hphase hfind =>
      obtain rfl := hraw hphase
      obtain ⟨existing, hexisting, -, hrow, -⟩ := exists_findRefreshToken hstored hpresents hshape
      obtain rfl := Option.some.inj (hexisting.symm.trans hfind)
      obtain ⟨row, hrow', hrevoked⟩ := hrevoked
      obtain rfl := Option.some.inj (hrow.symm.trans hrow')
      exact hrevoked
  | joins hphase =>
      rw [hphase] at hfinds
      exact hfinds
  | findsExpired hphase hlive | findsInactive hphase hlive | accepts hphase hlive =>
      rw [hphase] at hfinds
      exact absurd hlive hfinds
  | orphan | findsReused | startsReuse | throws => trivial
  | revokesFamily => rfl
  | duplicate hphase =>
      rcases hphase with hphase | hphase <;> rw [hphase] at hfinds <;> exact hfinds.elim
  | unregistered hphase | createsUser hphase | createsSession hphase | commitsUser hphase
  | refuses hphase | authenticates hphase | startsSession hphase | expires hphase
  | suspends hphase | begins hphase | locks hphase | loses hphase | inserts hphase
  | commits hphase | lost hphase | leavesAlone hphase | findsSession hphase | endsSession hphase =>
      rw [hphase] at hfinds
      exact hfinds.elim

end

/-! ### Runs -/

/-- The token is that of a session of the user, which the call logs out. -/
structure LoggingOut (crypto : Crypto) (unicode : Unicode) (rawToken : JsString)
    (userId tokenId callId : ℕ) (s : State) : Prop where
  sound : Sound crypto unicode s
  presents : Presents crypto s rawToken tokenId userId
  call : ∀ c ∈ s.calls.rows, c.id = callId → c.phase.LogsOut s rawToken userId tokenId

/-- The session of the token is revoked, and the refreshes of the token that began after the state
`s₁` find it so. -/
structure LoggedOut (crypto : Crypto) (unicode : Unicode) (rawToken : JsString)
    (userId tokenId : ℕ) (s₁ s : State) : Prop where
  sound : Sound crypto unicode s
  presents : Presents crypto s rawToken tokenId userId
  revoked : Revoked s tokenId
  calls : ∀ c ∈ s.calls.rows, s₁.calls.find c.id = none → c.operation = .refresh rawToken →
    c.phase.FindsRevoked

section

variable {s₁ s s' : State} {label : Label} {rawToken : JsString} {userId tokenId callId : ℕ}

/-- Rows stay as long as the system runs. -/
theorem Sound.continues (h : Sound crypto unicode s)
    (hstep : (system config crypto unicode).step s label = some s') :
  ∀ id row, s.tokens.find id = some row →
    ∃ row', s'.tokens.find id = some row' ∧ Continues row row'
  := fun _ _ hrow =>
    (moves_of_step hstep).continues h.invariant.stored h.invariant.locking hrow

theorem Phase.LogsOut.mono {phase : Phase} (h : phase.LogsOut s rawToken userId tokenId)
    (hrows : ∀ id row, s.tokens.find id = some row →
      ∃ row', s'.tokens.find id = some row' ∧ Continues row row') :
  phase.LogsOut s' rawToken userId tokenId
  := by
  cases phase with
  | returned result => exact Revoked.mono h hrows
  | _ => exact h

theorem LoggingOut.step (h : LoggingOut crypto unicode rawToken userId tokenId callId s)
    (hshape : looksLikeRefreshToken rawToken = true) (hcall : ∃ c, s.calls.find callId = some c)
    (hstep : (system config crypto unicode).step s label = some s') :
  LoggingOut crypto unicode rawToken userId tokenId callId s'
  := by
  have hrows := h.sound.continues hstep
  refine ⟨h.sound.step hstep, h.presents.mono hrows, ?_⟩
  apply (steps_of_step hstep).forall_calls
    (P := fun s c => c.id = callId → c.phase.LogsOut s rawToken userId tokenId) h.call
  · exact fun c _ hc hid => (hc hid).mono hrows
  · rintro c hnew - rfl
    obtain ⟨c', hc'⟩ := hcall
    cases hnew.symm.trans hc'
  · rintro c _ t phase htakes rfl hc hid
    have hlogsOut := htakes.logsOut h.sound.invariant.stored h.presents hshape (hc hid)
    exact hlogsOut.mono fun id row hrow => ⟨row, hrow, rfl, rfl, rfl, fun _ => rfl⟩

theorem LoggedOut.step (h : LoggedOut crypto unicode rawToken userId tokenId s₁ s)
    (hshape : looksLikeRefreshToken rawToken = true)
    (hstep : (system config crypto unicode).step s label = some s') :
  LoggedOut crypto unicode rawToken userId tokenId s₁ s'
  := by
  have hrows := h.sound.continues hstep
  refine ⟨h.sound.step hstep, h.presents.mono hrows, h.revoked.mono hrows, ?_⟩
  apply (steps_of_step hstep).forall_calls
    (P := fun _ c => s₁.calls.find c.id = none → c.operation = .refresh rawToken →
      c.phase.FindsRevoked) h.calls
  · exact fun c _ hc => hc
  · intro c _ hstart _ hoperation
    rw [hstart, hoperation]
    trivial
  · rintro c hc t phase htakes - hfinds hnew hoperation
    exact htakes.findsRevoked h.sound.invariant.stored (h.sound.invariant.knows c hc) h.presents
      hshape h.revoked hoperation (hfinds hnew hoperation)

/-- A call that a client has made. -/
theorem Steps.call_begins {operation : Operation} {ctx : SessionContext}
    (h : Steps config crypto unicode s (.call callId operation ctx) s') :
  s'.calls.find callId = some { id := callId, operation, ctx, phase := operation.start }
  := by
  cases h with
  | calls hcreate => exact (Table.find_create hcreate _).trans (if_pos rfl)

/-- A call stays. -/
theorem Steps.call_stays (h : Steps config crypto unicode s label s')
    (hcall : ∃ c, s.calls.find callId = some c) :
  ∃ c, s'.calls.find callId = some c
  := by
  obtain ⟨c, hc⟩ := hcall
  cases h with
  | tick | setStatus => exact ⟨c, hc⟩
  | calls hcreate => exact ⟨c, Table.find_create_of_find hcreate hc⟩
  | @takes c₀ =>
      rw [Table.find_put]
      split
      · exact ⟨_, rfl⟩
      · exact ⟨c, hc⟩

end

/-- When the logout of a session has returned, the session is revoked from then on, and a refresh of
its token that begins later is answered as a reuse, if it is answered. -/
theorem logout_final {s₀ s s' : State} {before after later : List (Transition State Label)}
    {t : Transition State Label}
    (hrun : (system config crypto unicode).Run s₀ (before ++ t :: after) s)
    (hinit : (system config crypto unicode).init s₀) {callId userId tokenId : ℕ}
    {rawToken : JsString} {ctx : SessionContext}
    (hlabel : t.label = .call callId (.logout rawToken userId) ctx)
    (hpresents : Presents crypto t.source rawToken tokenId userId)
    (hshape : looksLikeRefreshToken rawToken = true) {result : Except AppException Result}
    (hreturned : (s.calls.find callId).map Call.phase = some (.returned result))
    (hlater : (system config crypto unicode).Run s later s') :
  (∀ t ∈ later, Revoked t.target tokenId)
  ∧ Revoked s' tokenId
  ∧ ∀ c ∈ s'.calls.rows, s.calls.find c.id = none → c.operation = .refresh rawToken →
    ∀ result, c.phase = .returned result → result = .error refreshTokenReused
  := by
  obtain ⟨hsound, -⟩ := sound_of_run hrun hinit
  obtain ⟨hbefore, hafter⟩ := hrun.of_append_cons
  have ht : t ∈ before ++ t :: after := List.mem_append_right before List.mem_cons_self
  have hstep := hrun.step_of_mem ht
  have hsource := hsound t ht
  -- The logout begins with the transition.
  have hbegun : LoggingOut crypto unicode rawToken userId tokenId callId t.target
      ∧ ∃ c, t.target.calls.find callId = some c := by
    have hc := (hlabel ▸ steps_of_step hstep).call_begins
    refine ⟨⟨hsource.step hstep, hpresents.mono (hsource.continues hstep), ?_⟩, _, hc⟩
    intro c hmem hid
    rw [← hid, Table.mem_rows_iff.mp hmem] at hc
    rw [Option.some.inj hc]
    exact ⟨rfl, rfl⟩
  have hended : LoggingOut crypto unicode rawToken userId tokenId callId s
      ∧ ∃ c, s.calls.find callId = some c := by
    refine hafter.invariant (I := fun s => LoggingOut crypto unicode rawToken userId tokenId callId s
      ∧ ∃ c, s.calls.find callId = some c) hbegun ?_
    rintro t' - hstep' ⟨hlogging, hcall⟩
    exact ⟨hlogging.step hshape hcall hstep', (steps_of_step hstep').call_stays hcall⟩
  obtain ⟨c, hc, hphase⟩ := Option.map_eq_some_iff.mp hreturned
  have hrevoked : Revoked s tokenId := by
    have hlogsOut := hended.1.call c (Table.mem_of_find hc) (Table.key_of_find hc)
    rw [hphase] at hlogsOut
    exact hlogsOut
  have hlogged : LoggedOut crypto unicode rawToken userId tokenId s s := by
    refine ⟨hended.1.sound, hended.1.presents, hrevoked, ?_⟩
    intro c hc hnew
    rw [Table.mem_rows_iff.mp hc] at hnew
    cases hnew
  have hkeeps : ∀ t ∈ later, (system config crypto unicode).step t.source t.label = some t.target →
      LoggedOut crypto unicode rawToken userId tokenId s t.source →
        LoggedOut crypto unicode rawToken userId tokenId s t.target :=
    fun t _ hstep h => h.step hshape hstep
  have hend : LoggedOut crypto unicode rawToken userId tokenId s s' := hlater.invariant hlogged hkeeps
  refine ⟨fun t ht => (hlater.invariant_target _ hlogged hkeeps ht).revoked, hend.revoked, ?_⟩
  intro c hc hnew hoperation result hresult
  have hfinds := hend.calls c hc hnew hoperation
  rw [hresult] at hfinds
  exact hfinds

/-- User 7 logs out. -/
def logoutCall : Label :=
  .call 2 (.logout (sampleToken 0x41) 7) sampleContext

/-- After the logout of user 7 its token is answered as reused. -/
theorem logout_final_of_registration :
  ∃ s s' : State, Revoked s' 1
    ∧ (s'.calls.find 3).map Call.phase = some (.returned (.error refreshTokenReused))
    ∧ ∀ c ∈ s'.calls.rows, s.calls.find c.id = none →
      c.operation = .refresh (sampleToken 0x41) →
        ∀ result, c.phase = .returned result → result = .error refreshTokenReused
  := by
  have hsome : ((system sampleConfig sampleCrypto asciiUnicode).execute (fun _ => true) sampleState
      registration).any (fun s₁ =>
        (s₁.tokens.find 1).any (fun row =>
          row.tokenHash = sampleCrypto.hashRefreshToken (sampleToken 0x41) && row.userId = 7)
        && ((system sampleConfig sampleCrypto asciiUnicode).step s₁ logoutCall).any fun s₂ =>
          ((system sampleConfig sampleCrypto asciiUnicode).execute (fun _ => true) s₂
            [.step 2 .advance, .step 2 .advance]).any fun s =>
              decide ((s.calls.find 2).map Call.phase = some (.returned (.ok .loggedOut)))
              && ((system sampleConfig sampleCrypto asciiUnicode).execute (fun _ => true) s
                (presentation 3 (sampleToken 0x41) ++ [.step 3 .advance])).any fun s' =>
                  decide ((s'.calls.find 3).map Call.phase
                    = some (.returned (.error refreshTokenReused)))) = true := by
    decide +kernel
  obtain ⟨s₁, hs₁, h⟩ := (Option.any_eq_true _ _).mp hsome
  simp only [Bool.and_eq_true, Option.any_eq_true, decide_eq_true_eq] at h
  obtain ⟨⟨row, hrow, hhash, howner⟩, s₂, hs₂, s, hs, hreturned, s', hs', hend⟩ := h
  obtain ⟨before, hbefore, -⟩ := TransitionSystem.run_of_execute hs₁
  obtain ⟨after, hafter, -⟩ := TransitionSystem.run_of_execute hs
  obtain ⟨later, hlater, -⟩ := TransitionSystem.run_of_execute hs'
  have hpresents : Presents sampleCrypto s₁ (sampleToken 0x41) 1 7 := ⟨row, hrow, hhash, howner⟩
  have hrun := hbefore.append (.cons hs₂ hafter)
  obtain ⟨-, hrevoked, hanswers⟩ := logout_final hrun ⟨rfl, rfl, rfl, rfl, rfl⟩ rfl hpresents
    (by decide +kernel) hreturned hlater
  exact ⟨s, s', hrevoked, hend, hanswers⟩

end AuthService

end DocuAI
