import DocuAI.Auth.Rotation

/-!
# Reuse detection

A token that is presented again after it was revoked lets `handleReuse` revoke every token of the
user that its update sees.  The tokens obtained from the one presented are then all revoked exactly
when the update sees those of them that are not revoked by the time it ends.  It does not see the
successor that a rotation, half-way when the update starts, has inserted.
-/

namespace DocuAI

namespace AuthService

variable {config : AuthConfig} {crypto : Crypto} {unicode : Unicode}

open Relation

/-- A call of `refresh` has answered that the token is reused. -/
def Answered (crypto : Crypto) (s : State) (tokenId : ℕ) : Prop :=
  ∃ c ∈ s.calls.rows, ∃ rawToken row, c.operation = .refresh rawToken
    ∧ c.phase = .returned (.error refreshTokenReused)
    ∧ s.tokens.find tokenId = some row ∧ row.tokenHash = crypto.hashRefreshToken rawToken

/-- The tokens obtained from the token, by one rotation or more, are revoked. -/
def FamilyRevoked (s : State) (tokenId : ℕ) : Prop :=
  ∀ id row, TransGen s.Rotated tokenId id → s.tokens.find id = some row → row.revokedAt ≠ none

/-- The families of the tokens answered to be reused are revoked. -/
def ReuseRevokesFamilies (crypto : Crypto) (s : State) : Prop :=
  ∀ tokenId, Answered crypto s tokenId → FamilyRevoked s tokenId

/-- The label is the next statement of the call. -/
def Label.advances (callId : ℕ) : Label → Bool
  | .step id .advance => id = callId
  | _ => false

/-- When the transition ends the update of `handleReuse`, the update sees every token obtained from
the reused one that is not revoked: it was committed before the update started. -/
def SeesFamily (t : Transition State Label) : Prop :=
  ∀ c ∈ t.source.calls.rows, t.label.advances c.id = true →
    ∀ token revokedAt visible, c.phase = .revoking token revokedAt visible →
      ∀ id row, TransGen t.source.Rotated token.id id → t.source.tokens.find id = some row →
        row.revokedAt = none → id ∈ visible

/-! ### Families -/

/-- The token of the call is answered to be reused, is revoked, and so is its family. -/
def Killed (crypto : Crypto) (s : State) (c : Call) : Prop :=
  ∃ rawToken id row, c.operation = .refresh rawToken ∧ s.tokens.find id = some row
    ∧ row.tokenHash = crypto.hashRefreshToken rawToken ∧ row.revokedAt ≠ none ∧ FamilyRevoked s id

section

variable {s s' : State} {c : Call} {phase : Phase}

/-- A token obtained from another one is stored, and belongs to the same user. -/
theorem Linear.find_of_transGen (h : Linear crypto s) {a b : ℕ} {row : RefreshToken}
    (hreaches : TransGen s.Rotated a b) (hrow : s.tokens.find a = some row) :
  ∃ row', s.tokens.find b = some row' ∧ row'.userId = row.userId
  := by
  induction hreaches with
  | single hrotated =>
      obtain ⟨rotation, hrotation, rfl, rfl⟩ := hrotated
      obtain ⟨row₁, row₂, hrow₁, hrow₂, -, huser⟩ := h.linked rotation hrotation
      obtain rfl := Option.some.inj (hrow.symm.trans hrow₁)
      exact ⟨row₂, hrow₂, huser⟩
  | tail _ hrotated ih =>
      obtain ⟨row', hrow', huser'⟩ := ih
      obtain ⟨rotation, hrotation, rfl, rfl⟩ := hrotated
      obtain ⟨row₁, row₂, hrow₁, hrow₂, -, huser⟩ := h.linked rotation hrotation
      obtain rfl := Option.some.inj (hrow'.symm.trans hrow₁)
      exact ⟨row₂, hrow₂, huser.trans huser'⟩

/-- A family stays revoked as long as no new successor joins it. -/
theorem FamilyRevoked.of_reaches {a : ℕ} {row : RefreshToken} (h : FamilyRevoked s a)
    (hlinear : Linear crypto s) (hrow : s.tokens.find a = some row)
    (hrows : ∀ id row, s.tokens.find id = some row →
      ∃ row', s'.tokens.find id = some row' ∧ Continues row row')
    (hreaches : ∀ b, TransGen s'.Rotated a b → TransGen s.Rotated a b) :
  FamilyRevoked s' a
  := by
  intro b row' hb hrow'
  obtain ⟨r, hr, -⟩ := hlinear.find_of_transGen (hreaches b hb) hrow
  have hrevoked := h b r (hreaches b hb) hr
  obtain ⟨r', hr', hcontinues⟩ := hrows b r hr
  obtain rfl := Option.some.inj (hrow'.symm.trans hr')
  rw [hcontinues.revokedAt hrevoked]
  exact hrevoked

/-- A commit adds the successor it inserts. -/
theorem extend_of_rotated {t : State} {callId d r : ℕ}
    (hrotations : t.rotations = s.rotations ++ [{ callId, token := d, successor := r }]) {a b : ℕ}
    (h : t.Rotated a b) :
  Chain.extend s.Rotated d r a b
  := by
  obtain ⟨rotation, hrotation, rfl, rfl⟩ := h
  rw [hrotations, List.mem_append, List.mem_singleton] at hrotation
  rcases hrotation with hrotation | rfl
  · exact .inl ⟨rotation, hrotation, rfl, rfl⟩
  · exact .inr ⟨rfl, rfl⟩

/-- No step lets a revoked family grow: only a token that is not revoked gets a successor. -/
theorem Moves.reaches (h : Moves crypto s s') (hinvariant : Invariant crypto s) {a : ℕ}
    {row : RefreshToken} (hrow : s.tokens.find a = some row) (hrevoked : row.revokedAt ≠ none)
    (hfamily : FamilyRevoked s a) {b : ℕ} (hreaches : TransGen s'.Rotated a b) :
  TransGen s.Rotated a b
  := by
  cases h with
  | other => exact hreaches
  | calls => exact hreaches
  | @acts c t phase hfind hacts =>
      change TransGen t.Rotated a b at hreaches
      rcases hacts.rotations_cases with ⟨hrotations, -⟩
        | ⟨existing, revokedAt, successor, token, hphase, hcreate, hrotations⟩
      · have heq : t.Rotated = s.Rotated := by
          ext x y
          simp only [State.Rotated, hrotations]
        rw [heq] at hreaches
        exact hreaches
      · obtain ⟨r, hr, hlive⟩ := hinvariant.locking.live c (Table.mem_of_find hfind) existing.id
          (by rw [hphase]; rfl)
        have hnone := Table.find_of_create hcreate
        rw [Table.find_updateMany, Option.map_eq_none_iff] at hnone
        have hterminal : ∀ x, ¬s.Rotated successor.id x := by
          rintro x ⟨rotation, hrotation, hid, -⟩
          obtain ⟨r', -, hr', -⟩ := hinvariant.linear.linked rotation hrotation
          rw [hid, hnone] at hr'
          cases hr'
        have hne : successor.id ≠ existing.id := by
          intro hid
          rw [hid, hr] at hnone
          cases hnone
        have hextend := TransGen.mono (fun _ _ => extend_of_rotated hrotations) a b hreaches
        rcases Chain.transGen_of_extend hterminal hne hextend with hold | ⟨-, htoken⟩
        · exact hold
        · -- The rotated token is of the family, but not revoked.
          rcases reflTransGen_iff_eq_or_transGen.mp htoken with heq | htrans
          · rw [heq] at hr
            obtain rfl := Option.some.inj (hrow.symm.trans hr)
            exact absurd hlive hrevoked
          · exact absurd hlive (hfamily existing.id r htrans hr)

/-- What is killed stays so. -/
theorem Killed.step (h : Killed crypto s c) (hinvariant : Invariant crypto s)
    (hmoves : Moves crypto s s') :
  Killed crypto s' c
  := by
  obtain ⟨rawToken, id, row, hoperation, hrow, hhash, hrevoked, hfamily⟩ := h
  have hrows : ∀ id row, s.tokens.find id = some row →
      ∃ row', s'.tokens.find id = some row' ∧ Continues row row' :=
    fun id row hrow => hmoves.continues hinvariant.stored hinvariant.locking hrow
  obtain ⟨row', hrow', hcontinues⟩ := hrows id row hrow
  refine ⟨rawToken, id, row', hoperation, hrow', hcontinues.tokenHash.trans hhash, ?_, ?_⟩
  · rw [hcontinues.revokedAt hrevoked]
    exact hrevoked
  · apply hfamily.of_reaches hinvariant.linear hrow hrows
    intro b
    exact hmoves.reaches hinvariant hrow hrevoked hfamily

/-- A call comes to answer that a token is reused only when the update of `handleReuse` ends. -/
theorem Call.Acts.eq_revokesFamily (h : c.Acts crypto s s' phase)
    (hphase : phase = .returned (.error refreshTokenReused)) :
  ∃ token revokedAt visible, c.phase = .revoking token revokedAt visible
    ∧ s'.tokens = (s.tokens.updateMany (revokeAll visible token.userId revokedAt)).1
    ∧ s'.rotations = s.rotations
  := by
  cases h with
  | plain hplain | starts _ _ _ hplain | enrolls _ _ hplain | revokes _ hplain =>
      rw [hphase] at hplain
      simp [Phase.plain] at hplain
  | finds | locks | commits => cases hphase
  | follows _ hafter =>
      rw [hphase] at hafter
      cases hafter
  | inserts _ _ hpending =>
      rw [hphase] at hpending
      cases hpending
  | revokesFamily hrevoking => exact ⟨_, _, _, hrevoking, rfl, rfl⟩

/-- The update of `handleReuse` leaves a row that is not revoked as it was exactly when the row
belongs to another user or is not seen. -/
theorem live_of_revokeAll (visible : List ℕ) (userId revokedAt : ℕ) {id : ℕ} {row : RefreshToken}
    (hrow : s.tokens.find id = some row) :
  (∃ r, (s.tokens.updateMany (revokeAll visible userId revokedAt)).1.find id = some r
    ∧ r.revokedAt = none) ↔ row.revokedAt = none ∧ ¬(row.userId = userId ∧ id ∈ visible)
  := by
  obtain rfl := Table.key_of_find hrow
  rw [Table.find_updateMany, hrow, Option.map_some]
  cases hguard : (revokeAll visible userId revokedAt).guard row with
  | true =>
      rw [Update.apply_of_guard _ hguard]
      simp only [revokeAll, revoke, Bool.and_eq_true, decide_eq_true_eq] at hguard
      simp [revokeAll, revoke, hguard.1]
  | false =>
      rw [Update.apply_of_not_guard _ hguard]
      simp only [Option.some.injEq, exists_eq_left']
      constructor
      · intro hlive
        refine ⟨hlive, fun hseen => ?_⟩
        simp [revokeAll, revoke, hlive, hseen] at hguard
      · exact And.left

theorem Label.eq_of_advances {callId : ℕ} {label : Label} (h : label.advances callId = true) :
  label = .step callId .advance
  := by
  unfold advances at h
  split at h
  · rw [of_decide_eq_true h]
  · cases h

/-- A call that answers after its update has ended the update. -/
theorem advances_of_revoking {label : Label} {c' : Call} {token : RefreshToken} {revokedAt : ℕ}
    {visible : List ℕ} (hstep : (system config crypto unicode).step s label = some s')
    (hfind : s.calls.find c.id = some c) (hphase : c.phase = .revoking token revokedAt visible)
    (hc' : c' ∈ s'.calls.rows) (hid' : c'.id = c.id)
    (hphase' : c'.phase = .returned (.error refreshTokenReused)) :
  label.advances c.id = true
  := by
  have hfind' := Table.mem_rows_iff.mp hc'
  rw [hid'] at hfind'
  have hsame (h : s'.calls.find c.id = some c) : label.advances c.id = true := by
    obtain rfl := Option.some.inj (hfind'.symm.trans h)
    rw [hphase] at hphase'
    cases hphase'
  cases callStep_of_step hstep with
  | other => exact hsame hfind
  | calls hcreate => exact hsame (Table.find_create_of_find hcreate hfind)
  | @acts c₀ action t phase hc₀ hact =>
      by_cases hid : c.id = c₀.id
      · rw [hid, hc₀] at hfind
        obtain rfl := Option.some.inj hfind
        cases action with
        | advance => simp [Label.advances]
        | throw =>
            simp only [Call.act, hphase, Option.some.injEq, Prod.mk.injEq] at hact
            obtain ⟨-, rfl⟩ := hact
            change (s.calls.put _).find c₀.id = _ at hfind'
            rw [Table.find_put, if_pos rfl] at hfind'
            obtain rfl := Option.some.inj hfind'
            cases hphase'
        | user | session => simp [Call.act, hphase] at hact
      · apply hsame
        change (s.calls.put _).find c.id = _
        rw [Table.find_put, if_neg hid, hfind]

/-- The update of `handleReuse` kills the family it sees. -/
theorem killed_of_revoking {token : RefreshToken} {revokedAt : ℕ} {visible : List ℕ}
    (hc : c ∈ s.calls.rows) (hphase : c.phase = .revoking token revokedAt visible)
    (hinvariant : Invariant crypto s)
    (hsees : ∀ id row, TransGen s.Rotated token.id id → s.tokens.find id = some row →
      row.revokedAt = none → id ∈ visible)
    (htokens : s'.tokens = (s.tokens.updateMany (revokeAll visible token.userId revokedAt)).1)
    (hrotations : s'.rotations = s.rotations)
    (hrows : ∀ id row, s.tokens.find id = some row →
      ∃ row', s'.tokens.find id = some row' ∧ Continues row row') :
  Killed crypto s' c
  := by
  obtain ⟨rawToken, row, hoperation, hrow, hhash, huser, -, hrevoked⟩ :=
    (hinvariant.knows c hc).existing token (by rw [hphase]; rfl)
  have hrevoked : row.revokedAt ≠ none := hrevoked (.inr (by rw [hphase]; rfl))
  obtain ⟨row', hrow', hcontinues⟩ := hrows _ row hrow
  refine ⟨rawToken, token.id, row', hoperation, hrow', hcontinues.tokenHash.trans hhash, ?_, ?_⟩
  · rw [hcontinues.revokedAt hrevoked]
    exact hrevoked
  · intro id r' hreaches hr' hlive
    have heq : s'.Rotated = s.Rotated := by
      ext x y
      simp only [State.Rotated, hrotations]
    rw [heq] at hreaches
    obtain ⟨r, hr, hr_user⟩ := hinvariant.linear.find_of_transGen hreaches hrow
    rw [htokens] at hr'
    obtain ⟨hr_live, hunseen⟩ := (live_of_revokeAll visible token.userId revokedAt hr).mp ⟨r', hr', hlive⟩
    apply hunseen
    exact ⟨hr_user.trans huser, hsees id r hreaches hr hr_live⟩

/-- Every step that sees the family of a reused token keeps the answered ones killed. -/
theorem killed_step {label : Label} (hstep : (system config crypto unicode).step s label = some s')
    (hinvariant : Invariant crypto s) (hsees : SeesFamily ⟨s, label, s'⟩)
    (h : ∀ c ∈ s.calls.rows, c.phase = .returned (.error refreshTokenReused) → Killed crypto s c) :
  ∀ c ∈ s'.calls.rows, c.phase = .returned (.error refreshTokenReused) → Killed crypto s' c
  := by
  have hmoves := moves_of_step hstep
  have hold : ∀ c ∈ s.calls.rows, c.phase = .returned (.error refreshTokenReused) →
      Killed crypto s' c :=
    fun c hc hphase => (h c hc hphase).step hinvariant hmoves
  have hrows : ∀ id row, s.tokens.find id = some row →
      ∃ row', s'.tokens.find id = some row' ∧ Continues row row' :=
    fun id row hrow => hmoves.continues hinvariant.stored hinvariant.locking hrow
  cases hmoves with
  | other => exact hold
  | calls hcreate hstart =>
      intro c hc hphase
      change c ∈ Table.rows _ at hc
      rw [Table.rows_of_create hcreate, List.mem_append, List.mem_singleton] at hc
      rcases hc with hc | rfl
      · apply hold c hc hphase
      · rw [hstart] at hphase
        cases hoperation : c.operation <;> rw [hoperation] at hphase <;> cases hphase
  | @acts c t phase hfind hacts =>
      intro c' hc' hphase'
      have hmem := hc'
      rcases mem_calls_put hc' with rfl | ⟨hc', -⟩
      · obtain ⟨token, revokedAt, visible, hphase, htokens, hrotations⟩ :=
          hacts.eq_revokesFamily hphase'
        have hc := Table.mem_of_find hfind
        have hadvances := advances_of_revoking hstep hfind hphase hmem rfl hphase'
        change Killed crypto _ c
        exact killed_of_revoking hc hphase hinvariant
          (hsees c hc hadvances token revokedAt visible hphase) htokens hrotations hrows
      · apply hold c' hc' hphase'

/-- When the families of all answered tokens are revoked after a step, the step sees the family of
the token it answers. -/
theorem seesFamily_of_revoked {label : Label}
    (hstep : (system config crypto unicode).step s label = some s') (hinvariant : Invariant crypto s)
    (h : ReuseRevokesFamilies crypto s') :
  SeesFamily ⟨s, label, s'⟩
  := by
  intro c hc hadvances token revokedAt visible hphase id row hreaches hrow hlive
  obtain rfl := Label.eq_of_advances hadvances
  have hmoves := moves_of_step hstep
  obtain ⟨c₀, hc₀, hstep⟩ := Option.bind_eq_some_iff.mp hstep
  obtain rfl := Option.some.inj ((Table.mem_rows_iff.mp hc).symm.trans hc₀)
  obtain ⟨next, hact, hstep⟩ := Option.bind_eq_some_iff.mp hstep
  simp only [Call.act, Call.advance, hphase] at hact
  obtain ⟨revoked, hrevoked, hact⟩ := Option.bind_eq_some_iff.mp hact
  obtain rfl := Option.some.inj hact
  obtain ⟨-, rfl⟩ := revokeMany_eq_some hrevoked
  obtain rfl := Option.some.inj hstep
  by_contra hunseen
  obtain ⟨r, hr, hr_live⟩ := (live_of_revokeAll visible token.userId revokedAt hrow).mpr
    ⟨hlive, fun hseen => hunseen hseen.2⟩
  refine h token.id ?_ id r hreaches hr hr_live
  obtain ⟨rawToken, row', hoperation, hrow', hhash, -⟩ :=
    (hinvariant.knows c hc).existing token (by rw [hphase]; rfl)
  obtain ⟨row'', hrow'', hcontinues⟩ :=
    hmoves.continues hinvariant.stored hinvariant.locking hrow'
  exact ⟨_, Table.mem_rows_put_iff.mpr (.inl rfl), rawToken, row'', hoperation, rfl, hrow'',
    hcontinues.tokenHash.trans hhash⟩

end

/-- The families of answered tokens are revoked when the answered calls have killed them. -/
theorem reuseRevokesFamilies_of_killed {s : State} (hinvariant : Invariant crypto s)
    (h : ∀ c ∈ s.calls.rows, c.phase = .returned (.error refreshTokenReused) → Killed crypto s c) :
  ReuseRevokesFamilies crypto s
  := by
  rintro tokenId ⟨c, hc, rawToken, row, hoperation, hphase, hrow, hhash⟩
  obtain ⟨rawToken', id, row', hoperation', hrow', hhash', -, hfamily⟩ := h c hc hphase
  obtain rfl : rawToken = rawToken' := by simpa [hoperation] using hoperation'
  have hid := hinvariant.stored.id_eq_of_tokenHash hrow hrow' (hhash.trans hhash'.symm)
  rw [hid]
  exact hfamily

/-- In every run the family of a token is revoked from the answer that it is reused on, exactly when
the update of `handleReuse` sees the tokens of the family that are not revoked when it ends. -/
theorem reuse_revokes_family_iff {s₀ s : State} {ts : List (Transition State Label)}
    (hrun : (system config crypto unicode).Run s₀ ts s)
    (hinit : (system config crypto unicode).init s₀) :
  (∀ t ∈ ts, ReuseRevokesFamilies crypto t.target) ↔ ∀ t ∈ ts, SeesFamily t
  := by
  constructor
  · intro h t ht
    have hinvariant : Invariant crypto t.source :=
      hrun.invariant_source (Invariant crypto) (invariant_init hinit)
        (fun _ _ hstep hinvariant => hinvariant.step (moves_of_step hstep)) ht
    apply seesFamily_of_revoked (hrun.step_of_mem ht) hinvariant (h t ht)
  · intro h t ht
    have hstep : ∀ t ∈ ts, (system config crypto unicode).step t.source t.label = some t.target →
        (Invariant crypto t.source ∧ ∀ c ∈ t.source.calls.rows,
          c.phase = .returned (.error refreshTokenReused) → Killed crypto t.source c) →
        Invariant crypto t.target ∧ ∀ c ∈ t.target.calls.rows,
          c.phase = .returned (.error refreshTokenReused) → Killed crypto t.target c := by
      rintro t ht hstep ⟨hinvariant, hkilled⟩
      exact ⟨hinvariant.step (moves_of_step hstep),
        killed_step hstep hinvariant (h t ht) hkilled⟩
    have hsource := hrun.invariant_source (fun s => Invariant crypto s ∧ ∀ c ∈ s.calls.rows,
      c.phase = .returned (.error refreshTokenReused) → Killed crypto s c)
      ⟨invariant_init hinit, by simp [hinit.2.1]⟩ hstep ht
    obtain ⟨hinvariant, hkilled⟩ := hstep t ht (hrun.step_of_mem ht) hsource
    apply reuseRevokesFamilies_of_killed hinvariant hkilled

/-- Whether the update of a call that ends with the transition sees all tokens that are not
revoked. -/
def seesAllLive (t : Transition State Label) : Bool :=
  t.source.calls.rows.all fun c =>
    match c.phase with
    | .revoking _ _ visible =>
        !t.label.advances c.id
          || t.source.tokens.rows.all fun row => row.revokedAt.isSome || visible.contains row.id
    | _ => true

/-- The first token is rotated, and presented again. -/
def lateReplay : List Label :=
  registration ++ presentation 2 (sampleToken 0x41) ++ rotation 2 2 (sampleToken 0x42)
    ++ [.call 3 (.refresh (sampleToken 0x41)) sampleContext, .step 3 .advance, .step 3 .advance,
      .step 3 .advance, .step 3 .advance, .step 3 .advance]

/-- After a replay of the first token its successor is revoked. -/
theorem reuse_revokes_family_of_lateReplay :
  ∃ ts s, (system sampleConfig sampleCrypto asciiUnicode).Run sampleState ts s
    ∧ (s.calls.find 3).map Call.phase = some (.returned (.error refreshTokenReused))
    ∧ ∀ t ∈ ts, ReuseRevokesFamilies sampleCrypto t.target
  := by
  have hsome : ((system sampleConfig sampleCrypto asciiUnicode).execute seesAllLive sampleState
      lateReplay).any (fun s => decide ((s.calls.find 3).map Call.phase
        = some (.returned (.error refreshTokenReused)))) = true := by
    decide +kernel
  obtain ⟨s, hs, hend⟩ := (Option.any_eq_true _ _).mp hsome
  obtain ⟨ts, hrun, hts⟩ := TransitionSystem.run_of_execute hs
  refine ⟨ts, s, hrun, of_decide_eq_true hend, ?_⟩
  apply (reuse_revokes_family_iff hrun ⟨rfl, rfl, rfl, rfl, rfl⟩).mpr
  intro t ht c hc hadvances token revokedAt visible hphase id row _ hrow hlive
  have hsees := List.all_eq_true.mp (hts t ht) c hc
  simp only [hphase, hadvances, Bool.not_true, Bool.false_or] at hsees
  have hseen := List.all_eq_true.mp hsees row (Table.mem_of_find hrow)
  obtain rfl := Table.key_of_find hrow
  simpa [hlive] using hseen

/-- The second token is rotated while the first one is presented again: the update of `handleReuse`
starts before the commit of the rotation, and ends after it. -/
def replayDuringRotation : List Label :=
  registration ++ presentation 2 (sampleToken 0x41) ++ rotation 2 2 (sampleToken 0x42)
    ++ presentation 3 (sampleToken 0x42) ++ [.step 3 .advance,
      .call 4 (.refresh (sampleToken 0x41)) sampleContext, .step 4 .advance, .step 4 .advance,
      .step 4 .advance, .step 4 .advance, .step 3 (.session 3 (sampleToken 0x43)),
      .step 3 .advance, .step 4 .advance]

/-- The successor a rotation has inserted outlives the answer that the first token of its chain is
reused. -/
theorem rotation_outlives_reuse :
  ∃ ts s, (system sampleConfig sampleCrypto asciiUnicode).init sampleState
    ∧ (system sampleConfig sampleCrypto asciiUnicode).Run sampleState ts s
    ∧ Answered sampleCrypto s 1 ∧ TransGen s.Rotated 1 3
    ∧ (∃ row, s.tokens.find 3 = some row ∧ row.revokedAt = none)
    ∧ ¬ReuseRevokesFamilies sampleCrypto s
  := by
  have hsome : ((system sampleConfig sampleCrypto asciiUnicode).execute (fun _ => true) sampleState
      replayDuringRotation).any (fun s =>
        decide ((s.calls.find 4).map (fun c => (c.operation, c.phase))
          = some (.refresh (sampleToken 0x41), .returned (.error refreshTokenReused)))
        && decide ((s.tokens.find 1).map RefreshToken.tokenHash = some (sampleToken 0x41))
        && decide ((s.tokens.find 3).map RefreshToken.revokedAt = some none)
        && decide (s.rotations = [⟨2, 1, 2⟩, ⟨3, 2, 3⟩])) = true := by
    decide +kernel
  obtain ⟨s, hs, hend⟩ := (Option.any_eq_true _ _).mp hsome
  obtain ⟨ts, hrun, -⟩ := TransitionSystem.run_of_execute hs
  simp only [Bool.and_eq_true, decide_eq_true_eq, Option.map_eq_some_iff, Prod.mk.injEq] at hend
  obtain ⟨⟨⟨⟨c, hc, hoperation, hphase⟩, row, hrow, hhash⟩, successor, hsuccessor, hlive⟩,
    hrotations⟩ := hend
  have hanswered : Answered sampleCrypto s 1 :=
    ⟨c, Table.mem_of_find hc, _, row, hoperation, hphase, hrow, hhash⟩
  have hfirst : s.Rotated 1 2 := ⟨⟨2, 1, 2⟩, by simp [hrotations], rfl, rfl⟩
  have hsecond : s.Rotated 2 3 := ⟨⟨3, 2, 3⟩, by simp [hrotations], rfl, rfl⟩
  have hreaches : TransGen s.Rotated 1 3 := .tail (.single hfirst) hsecond
  refine ⟨ts, s, ⟨rfl, rfl, rfl, rfl, rfl⟩, hrun, hanswered, hreaches,
    ⟨successor, hsuccessor, hlive⟩, ?_⟩
  intro h
  exact h 1 hanswered 3 successor hreaches hsuccessor hlive

end AuthService

end DocuAI
