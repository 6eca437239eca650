import DocuAI.Auth.Sessions
import DocuAI.Library.Chain

/-!
# Rotation of refresh tokens

Whatever calls overlap, a refresh token has one successor at most, and of the tokens of a chain one
at most is not revoked.

The transaction of a rotation holds the lock on the row it revokes until it commits, and no other
statement touches the row before (`Locking`).  So the row is not revoked when the commit publishes
its new version, and has no successor yet.
-/

namespace DocuAI

namespace AuthService

variable {config : AuthConfig} {crypto : Crypto} {unicode : Unicode}

/-! ### What a step makes of a row -/

/-- What a step makes of the row of a token, after which some rows have been inserted. -/
inductive RowStep (inserted : List RefreshToken) : Option RefreshToken → Option RefreshToken → Prop where
  | kept (row : Option RefreshToken) : RowStep inserted row row
  | created {row : RefreshToken} (h : row.revokedAt = none) (hinserted : row ∈ inserted) :
      RowStep inserted none (some row)
  | revoked {row : RefreshToken} (h : row.revokedAt = none) (revokedAt : ℕ) :
      RowStep inserted (some row)
        (some { row with revokedAt := some revokedAt, updatedAt := revokedAt })

/-- The row `row'` is a later version of `row`. -/
structure Continues (row row' : RefreshToken) : Prop where
  userId : row'.userId = row.userId
  tokenHash : row'.tokenHash = row.tokenHash
  expiresAt : row'.expiresAt = row.expiresAt
  revokedAt : row.revokedAt ≠ none → row'.revokedAt = row.revokedAt

/-- A row of a token stays. -/
theorem RowStep.continues {inserted : List RefreshToken} {row : RefreshToken}
    {row' : Option RefreshToken} (h : RowStep inserted (some row) row') :
  ∃ r, row' = some r ∧ Continues row r
  := by
  cases h with
  | kept => exact ⟨row, rfl, rfl, rfl, rfl, fun _ => rfl⟩
  | revoked hlive => exact ⟨_, rfl, rfl, rfl, rfl, fun hrevoked => absurd hlive hrevoked⟩

/-- What is stored of the tokens, and of those that open transactions have inserted. -/
structure Stored (s : State) : Prop where
  ids : (s.inserted.map RefreshToken.id).Nodup
  hashes : (s.inserted.map RefreshToken.tokenHash).Nodup
  tokens : ∀ id row, s.tokens.find id = some row →
    ∃ r ∈ s.inserted, r.id = row.id ∧ r.tokenHash = row.tokenHash
  pending : ∀ c ∈ s.calls.rows, ∀ row, c.phase.pending = some row →
    row ∈ s.inserted ∧ row.revokedAt = none

/-- Locked rows are not revoked, and each is locked by one call. -/
structure Locking (s : State) : Prop where
  live : ∀ c ∈ s.calls.rows, ∀ id, c.phase.locks = some id →
    ∃ row, s.tokens.find id = some row ∧ row.revokedAt = none
  unique : ∀ c ∈ s.calls.rows, ∀ c' ∈ s.calls.rows, ∀ id, c.phase.locks = some id →
    c'.phase.locks = some id → c.id = c'.id

section

variable {s s' : State} {c : Call} {phase : Phase}

/-- An update that revokes tokens revokes rows that are not revoked. -/
theorem rowStep_revoke {inserted : List RefreshToken} (selects : RefreshToken → Bool)
    (revokedAt id : ℕ) :
  RowStep inserted (s.tokens.find id)
    ((s.tokens.updateMany (revoke selects revokedAt)).1.find id)
  := by
  rw [Table.find_updateMany]
  cases s.tokens.find id with
  | none => exact .kept none
  | some row =>
      rw [Option.map_some]
      cases hguard : (revoke selects revokedAt).guard row with
      | false =>
          rw [Update.apply_of_not_guard _ hguard]
          exact .kept _
      | true =>
          rw [Update.apply_of_guard _ hguard]
          simp only [revoke, Bool.and_eq_true, Option.isNone_iff_eq_none] at hguard
          exact .revoked hguard.2 revokedAt

theorem rowStep_create {inserted : List RefreshToken} {tokens tokens' : Table RefreshToken.id}
    {row : RefreshToken}
    (hcreate : tokens.create row = some tokens') (hrow : row.revokedAt = none)
    (hinserted : row ∈ inserted) (id : ℕ) :
  RowStep inserted (tokens.find id) (tokens'.find id)
  := by
  rw [Table.find_create hcreate]
  split
  · rename_i hid
    rw [hid, Table.find_of_create hcreate]
    exact .created hrow hinserted
  · exact .kept _

/-- The commit of a rotation creates the successor and revokes the token. -/
theorem rowStep_commit {inserted : List RefreshToken} {tokens : Table RefreshToken.id} {row existing : RefreshToken}
    {revokedAt : ℕ}
    (hcreate : (s.tokens.updateMany (publishRevoked existing.id revokedAt)).1.create row
      = some tokens)
    (hlive : ∃ r, s.tokens.find existing.id = some r ∧ r.revokedAt = none)
    (hrow : row.revokedAt = none) (hinserted : row ∈ inserted) (id : ℕ) :
  RowStep inserted (s.tokens.find id) (tokens.find id)
  := by
  have hnone := Table.find_of_create hcreate
  rw [Table.find_updateMany, Option.map_eq_none_iff] at hnone
  rw [Table.find_create hcreate, Table.find_updateMany]
  split
  · rename_i hid
    rw [hid, hnone]
    exact .created hrow hinserted
  · cases hfind : s.tokens.find id with
    | none => exact .kept none
    | some r =>
        obtain rfl := Table.key_of_find hfind
        rw [Option.map_some]
        by_cases hid : r.id = existing.id
        · obtain ⟨r', hr', hlive⟩ := hlive
          rw [← hid, hfind] at hr'
          obtain rfl := Option.some.inj hr'
          rw [Update.apply_of_guard _ (by simp [publishRevoked, hid])]
          exact .revoked hlive revokedAt
        · rw [Update.apply_of_not_guard _ (by simp [publishRevoked, hid])]
          exact .kept _

/-- What a step makes of each row. -/
theorem Moves.rowStep (h : Moves crypto s s') (hstored : Stored s) (hlocking : Locking s) (id : ℕ) :
  RowStep s'.inserted (s.tokens.find id) (s'.tokens.find id)
  := by
  cases h with
  | other => exact .kept _
  | calls => exact .kept _
  | @acts c _ _ hfind hacts =>
      have hc := Table.mem_of_find hfind
      cases hacts with
      | plain | finds | follows | locks | inserts => exact .kept _
      | starts _ hrow hcreate =>
          exact rowStep_create hcreate hrow (List.mem_append_right _ List.mem_cons_self) id
      | enrolls hphase hcreate =>
          obtain ⟨hinserted, hrow⟩ := hstored.pending c hc _ (by rw [hphase]; rfl)
          exact rowStep_create hcreate hrow hinserted id
      | revokes => apply rowStep_revoke
      | revokesFamily => apply rowStep_revoke
      | commits hphase hcreate =>
          obtain ⟨hinserted, hrow⟩ := hstored.pending c hc _ (by rw [hphase]; rfl)
          have hlive := hlocking.live c hc _ (by rw [hphase]; rfl)
          exact rowStep_commit hcreate hlive hrow hinserted id

theorem Phase.locks_of_plain {phase : Phase} (h : phase.plain = true) :
  phase.locks = none
  := by
  cases phase with
  | inserting | committing => cases h
  | _ => rfl

theorem Phase.pending_of_plain {phase : Phase} (h : phase.plain = true) :
  phase.pending = none
  := by
  cases phase with
  | committingUser | committing => cases h
  | _ => rfl

/-- A call that works on a token without a lock has inserted none. -/
theorem Phase.pending_of_existing {phase : Phase} {existing : RefreshToken}
    (h : phase.existing = some existing) (hlocks : phase.locks = none) :
  phase.pending = none
  := by
  cases phase with
  | committingUser => cases h
  | committing => cases hlocks
  | _ => rfl

theorem Operation.locks_start (operation : Operation) :
  operation.start.locks = none
  := by
  cases operation <;> rfl

theorem Operation.pending_start (operation : Operation) :
  operation.start.pending = none
  := by
  cases operation <;> rfl

/-! ### Locks -/

theorem locked_iff {id : ℕ} :
  s.locked id = true ↔ ∃ c ∈ s.calls.rows, c.phase.locks = some id
  := by
  simp [State.locked, List.any_eq_true]

/-- A call has a lock after a step if it had it before, or has taken it while it was free. -/
theorem Call.Acts.locks_cases (h : c.Acts crypto s s' phase) {id : ℕ}
    (hlocks : phase.locks = some id) :
  s'.tokens = s.tokens ∧ (c.phase.locks = some id
    ∨ s.locked id = false ∧ ∃ row, s.tokens.find id = some row ∧ row.revokedAt = none)
  := by
  cases h with
  | plain hplain | starts _ _ _ hplain | enrolls _ _ hplain | revokes _ hplain =>
      rw [Phase.locks_of_plain hplain] at hlocks
      cases hlocks
  | finds | revokesFamily | commits => cases hlocks
  | follows _ _ hnone =>
      rw [hnone] at hlocks
      cases hlocks
  | locks hphase hfree hlive =>
      obtain rfl := Option.some.inj hlocks
      exact ⟨rfl, .inr ⟨hfree, hlive⟩⟩
  | inserts _ _ _ hnext =>
      rcases hnext with ⟨_, _, rfl⟩ | ⟨existing, revokedAt, _, hphase, -, rfl⟩
      · cases hlocks
      · exact ⟨rfl, .inl (by rw [hphase]; exact hlocks)⟩

/-- A step of a call leaves the rows that other calls have locked. -/
theorem Call.Acts.find_of_locked (h : c.Acts crypto s s' phase) (hlocking : Locking s)
    (hc : c ∈ s.calls.rows) {c' : Call} (hc' : c' ∈ s.calls.rows) (hne : c.id ≠ c'.id) {id : ℕ}
    (hlocks : c'.phase.locks = some id) :
  s'.tokens.find id = s.tokens.find id
  := by
  obtain ⟨r, hr, -⟩ := hlocking.live c' hc' id hlocks
  have hlocked : s.locked id = true := locked_iff.mpr ⟨c', hc', hlocks⟩
  have hcreate {tokens : Table RefreshToken.id} {row : RefreshToken}
      (h : s.tokens.create row = some tokens) : tokens.find id = s.tokens.find id := by
    rw [hr, Table.find_create_of_find h hr]
  have hrevoke {u : Update RefreshToken.id}
      (hfree : ∀ r ∈ s.tokens.rows, u.guard r = true → s.locked r.id = false) :
      (s.tokens.updateMany u).1.find id = s.tokens.find id := by
    rw [Table.find_updateMany, hr, Option.map_some, Update.apply_of_not_guard]
    by_contra hguard
    rw [Bool.not_eq_false] at hguard
    have hnot := hfree r (Table.mem_of_find hr) hguard
    rw [Table.key_of_find hr, hlocked] at hnot
    cases hnot
  cases h with
  | plain | finds | follows | locks | inserts => rfl
  | starts _ _ h => apply hcreate h
  | enrolls _ h => apply hcreate h
  | revokes hfree => apply hrevoke hfree
  | revokesFamily _ hfree => apply hrevoke hfree
  | @commits existing revokedAt row _ _ _ _ hphase h =>
      have hid : id ≠ existing.id := by
        rintro rfl
        apply hne
        apply hlocking.unique c hc c' hc' existing.id _ hlocks
        rw [hphase]
        rfl
      have hpublished : (s.tokens.updateMany (publishRevoked existing.id revokedAt)).1.find id
          = s.tokens.find id := by
        rw [Table.find_updateMany, hr, Option.map_some, Update.apply_of_not_guard]
        simp [publishRevoked, Table.key_of_find hr, hid]
      rw [hr] at hpublished ⊢
      exact Table.find_create_of_find h hpublished

/-- The calls of a state after a step: the call that has taken it, and the others. -/
theorem mem_calls_put {t : State} {c' : Call}
    (h : c' ∈ ({ t with calls := s.calls.put { c with phase } } : State).calls.rows) :
  c' = { c with phase } ∨ c' ∈ s.calls.rows ∧ c.id ≠ c'.id
  := by
  rcases Table.mem_rows_put_iff.mp h with rfl | ⟨hc', hne⟩
  · exact .inl rfl
  · exact .inr ⟨hc', fun hid => hne hid.symm⟩

/-- Every step keeps locked rows unrevoked and locked once. -/
theorem Locking.step (h : Locking s) (hmoves : Moves crypto s s') :
  Locking s'
  := by
  cases hmoves with
  | other => exact ⟨h.live, h.unique⟩
  | @calls c₀ calls hcreate hstart =>
      have hold {c : Call} (hc : c ∈ calls.rows) {id : ℕ} (hlocks : c.phase.locks = some id) :
          c ∈ s.calls.rows := by
        rw [Table.rows_of_create hcreate, List.mem_append, List.mem_singleton] at hc
        rcases hc with hc | rfl
        · exact hc
        · rw [hstart, Operation.locks_start] at hlocks
          cases hlocks
      constructor
      · intro c hc id hlocks
        apply h.live c (hold hc hlocks) id hlocks
      · intro c hc c' hc' id hlocks hlocks'
        apply h.unique c (hold hc hlocks) c' (hold hc' hlocks') id hlocks hlocks'
  | @acts c t phase hfind hacts =>
      have hc := Table.mem_of_find hfind
      -- The call that has taken the step does not have the lock of another one.
      have hother {c' : Call} (hc' : c' ∈ s.calls.rows) (hne : c.id ≠ c'.id) {id : ℕ}
          (hlocks : phase.locks = some id) (hlocks' : c'.phase.locks = some id) : False := by
        rcases (hacts.locks_cases hlocks).2 with hbefore | ⟨hfree, -⟩
        · apply hne (h.unique c hc c' hc' id hbefore hlocks')
        · rw [locked_iff.mpr ⟨c', hc', hlocks'⟩] at hfree
          cases hfree
      constructor
      · intro c' hc' id hlocks
        change ∃ row, t.tokens.find id = some row ∧ row.revokedAt = none
        rcases mem_calls_put hc' with rfl | ⟨hc', hne⟩
        · obtain ⟨htokens, hbefore | ⟨-, hlive⟩⟩ := hacts.locks_cases hlocks
          · rw [htokens]
            apply h.live c hc id hbefore
          · rw [htokens]
            apply hlive
        · rw [hacts.find_of_locked h hc hc' hne hlocks]
          apply h.live c' hc' id hlocks
      · intro c₁ hc₁ c₂ hc₂ id hlocks₁ hlocks₂
        rcases mem_calls_put hc₁ with rfl | ⟨hc₁, hne₁⟩
        · rcases mem_calls_put hc₂ with rfl | ⟨hc₂, hne₂⟩
          · rfl
          · exact (hother hc₂ hne₂ hlocks₁ hlocks₂).elim
        · rcases mem_calls_put hc₂ with rfl | ⟨hc₂, hne₂⟩
          · exact (hother hc₁ hne₁ hlocks₂ hlocks₁).elim
          · apply h.unique c₁ hc₁ c₂ hc₂ id hlocks₁ hlocks₂

/-! ### Stored tokens -/

/-- Rows are only ever inserted, under new ids and hashes. -/
theorem Call.Acts.inserted_cases (h : c.Acts crypto s s' phase) :
  s'.inserted = s.inserted ∨ ∃ row, s.Fresh row ∧ s'.inserted = s.inserted ++ [row]
  := by
  cases h with
  | inserts hfresh => exact .inr ⟨_, hfresh, rfl⟩
  | starts hfresh => exact .inr ⟨_, hfresh, rfl⟩
  | _ => exact .inl rfl

/-- The token a call has inserted after a step was inserted by it before, or is inserted now. -/
theorem Call.Acts.pending_cases (h : c.Acts crypto s s' phase) {row : RefreshToken}
    (hpending : phase.pending = some row) :
  row ∈ s'.inserted ∧ row.revokedAt = none
  := by
  cases h with
  | plain hplain | starts _ _ _ hplain | enrolls _ _ hplain | revokes _ hplain =>
      rw [Phase.pending_of_plain hplain] at hpending
      cases hpending
  | finds | revokesFamily | commits | locks => cases hpending
  | follows _ hafter hlocks =>
      rw [Phase.pending_of_existing hafter hlocks] at hpending
      cases hpending
  | inserts _ hrow h =>
      obtain rfl := Option.some.inj (h.symm.trans hpending)
      exact ⟨List.mem_append_right _ List.mem_cons_self, hrow⟩

theorem Moves.inserted_cases (h : Moves crypto s s') :
  s'.inserted = s.inserted ∨ ∃ row, s.Fresh row ∧ s'.inserted = s.inserted ++ [row]
  := by
  cases h with
  | other => exact .inl rfl
  | calls => exact .inl rfl
  | acts _ hacts => exact hacts.inserted_cases

theorem Moves.inserted_subset (h : Moves crypto s s') :
  s.inserted ⊆ s'.inserted
  := by
  rcases h.inserted_cases with heq | ⟨row, -, heq⟩
  · rw [heq]
    exact List.Subset.refl _
  · rw [heq]
    apply List.subset_append_left

/-- A new value at the end of a list without duplicates. -/
theorem nodup_map_append {β : Type} {f : RefreshToken → β} {rows : List RefreshToken}
    {row : RefreshToken} (h : (rows.map f).Nodup) (hnew : ∀ r ∈ rows, f r ≠ f row) :
  ((rows ++ [row]).map f).Nodup
  := by
  rw [List.map_append, List.nodup_append]
  refine ⟨h, by simp, ?_⟩
  rintro _ hr _ hrow rfl
  obtain ⟨r, hr, hr_eq⟩ := List.mem_map.mp hr
  rw [List.map_singleton, List.mem_singleton] at hrow
  exact hnew r hr (hr_eq.trans hrow)

/-- Every step keeps ids and hashes distinct. -/
theorem Stored.step (h : Stored s) (hlocking : Locking s) (hmoves : Moves crypto s s') :
  Stored s'
  := by
  have hsubset := hmoves.inserted_subset
  refine ⟨?_, ?_, ?_, ?_⟩
  · rcases hmoves.inserted_cases with heq | ⟨row, hfresh, heq⟩
    · rw [heq]
      exact h.ids
    · rw [heq]
      exact nodup_map_append h.ids fun r hr => (hfresh r hr).1
  · rcases hmoves.inserted_cases with heq | ⟨row, hfresh, heq⟩
    · rw [heq]
      exact h.hashes
    · rw [heq]
      exact nodup_map_append h.hashes fun r hr => (hfresh r hr).2
  · intro id row' hrow'
    have hrow := hmoves.rowStep h hlocking id
    rw [hrow'] at hrow
    generalize hfind : s.tokens.find id = row at hrow
    cases hrow with
    | kept =>
        obtain ⟨r, hr, heq⟩ := h.tokens id row' hfind
        exact ⟨r, hsubset hr, heq⟩
    | created _ hinserted => exact ⟨row', hinserted, rfl, rfl⟩
    | revoked =>
        obtain ⟨r, hr, heq⟩ := h.tokens id _ hfind
        exact ⟨r, hsubset hr, heq⟩
  · intro c hc row hpending
    cases hmoves with
    | other => exact h.pending c hc row hpending
    | calls hcreate hstart =>
        change c ∈ Table.rows _ at hc
        rw [Table.rows_of_create hcreate, List.mem_append, List.mem_singleton] at hc
        rcases hc with hc | rfl
        · exact h.pending c hc row hpending
        · rw [hstart, Operation.pending_start] at hpending
          cases hpending
    | acts _ hacts =>
        rcases mem_calls_put hc with rfl | ⟨hc, -⟩
        · exact hacts.pending_cases hpending
        · obtain ⟨hrow, hlive⟩ := h.pending c hc row hpending
          exact ⟨hsubset hrow, hlive⟩

/-- Two tokens with the same hash are the same. -/
theorem Stored.id_eq_of_tokenHash (h : Stored s) {id id' : ℕ} {row row' : RefreshToken}
    (hrow : s.tokens.find id = some row) (hrow' : s.tokens.find id' = some row')
    (hhash : row.tokenHash = row'.tokenHash) :
  id = id'
  := by
  obtain ⟨r, hr, hid, hr_hash⟩ := h.tokens id row hrow
  obtain ⟨r', hr', hid', hr'_hash⟩ := h.tokens id' row' hrow'
  have heq : r = r' := by
    apply List.inj_on_of_nodup_map h.hashes hr hr'
    rw [hr_hash, hr'_hash, hhash]
  rw [← Table.key_of_find hrow, ← Table.key_of_find hrow', ← hid, ← hid', heq]

/-- Every row stays. -/
theorem Moves.continues (h : Moves crypto s s') (hstored : Stored s) (hlocking : Locking s) {id : ℕ}
    {row : RefreshToken} (hrow : s.tokens.find id = some row) :
  ∃ row', s'.tokens.find id = some row' ∧ Continues row row'
  := by
  have hstep := h.rowStep hstored hlocking id
  rw [hrow] at hstep
  apply hstep.continues

end

/-! ### What a call knows -/

/-- The token a call of `refresh` has found, as it is stored by now. -/
def Refers (crypto : Crypto) (s : State) (c : Call) (existing : RefreshToken) : Prop :=
  ∃ rawToken row, c.operation = .refresh rawToken ∧ s.tokens.find existing.id = some row
    ∧ row.tokenHash = crypto.hashRefreshToken rawToken ∧ row.userId = existing.userId
    ∧ row.expiresAt = existing.expiresAt
    ∧ (existing.revokedAt ≠ none ∨ c.phase.reused = some existing → row.revokedAt ≠ none)

/-- What a call of `refresh` knows of the token it was presented. -/
structure Knows (crypto : Crypto) (s : State) (c : Call) : Prop where
  presenting : ∀ rawToken, c.phase = .presenting rawToken → c.operation = .refresh rawToken
  existing : ∀ existing, c.phase.existing = some existing → Refers crypto s c existing
  committing : ∀ existing revokedAt row token, c.phase = .committing existing revokedAt row token →
    row.userId = existing.userId

section

variable {s s' : State} {c : Call} {phase : Phase}

theorem Refers.mono {existing : RefreshToken} (h : Refers crypto s c existing)
    (hrows : ∀ id row, s.tokens.find id = some row →
      ∃ row', s'.tokens.find id = some row' ∧ Continues row row') :
  Refers crypto s' c existing
  := by
  obtain ⟨rawToken, row, hoperation, hrow, hhash, huser, hexpires, hrevoked⟩ := h
  obtain ⟨row', hrow', hcontinues⟩ := hrows _ row hrow
  refine ⟨rawToken, row', hoperation, hrow', hcontinues.tokenHash.trans hhash,
    hcontinues.userId.trans huser, hcontinues.expiresAt.trans hexpires, fun h => ?_⟩
  rw [hcontinues.revokedAt (hrevoked h)]
  exact hrevoked h

theorem Knows.mono (h : Knows crypto s c)
    (hrows : ∀ id row, s.tokens.find id = some row →
      ∃ row', s'.tokens.find id = some row' ∧ Continues row row') :
  Knows crypto s' c
  := ⟨h.presenting, fun existing hexisting => (h.existing existing hexisting).mono hrows,
    h.committing⟩

/-- A call that works on no token knows nothing. -/
theorem Knows.of_existing_eq_none (h : c.phase.existing = none)
    (hpresenting : ∀ rawToken, c.phase = .presenting rawToken → c.operation = .refresh rawToken) :
  Knows crypto s c
  := by
  refine ⟨hpresenting, ?_, ?_⟩
  · intro existing hexisting
    rw [h] at hexisting
    cases hexisting
  · intro existing revokedAt row token hphase
    rw [hphase] at h
    cases h

theorem Knows.of_plain (h : c.phase.plain = true) :
  Knows crypto s c
  := by
  apply Knows.of_existing_eq_none
  · revert h
    cases c.phase <;> simp [Phase.plain, Phase.existing]
  · intro rawToken hphase
    rw [hphase] at h
    cases h

theorem Knows.of_start (h : c.phase = c.operation.start) :
  Knows crypto s c
  := by
  apply Knows.of_existing_eq_none
  · rw [h]
    cases c.operation <;> rfl
  · intro rawToken hphase
    rw [h] at hphase
    cases hoperation : c.operation with
    | refresh rawToken' =>
        rw [hoperation] at hphase
        cases hphase
        rfl
    | register | login | logout =>
        rw [hoperation] at hphase
        cases hphase

/-- A token that is found has the hash of the token presented. -/
theorem find_of_findRefreshToken {rawToken : JsString} {existing : RefreshToken}
    (h : s.findRefreshToken crypto rawToken = some existing) :
  s.tokens.find existing.id = some existing
    ∧ existing.tokenHash = crypto.hashRefreshToken rawToken
  := by
  unfold State.findRefreshToken at h
  split at h
  · refine ⟨Table.mem_rows_iff.mp (List.mem_of_find?_eq_some h), ?_⟩
    simpa using List.find?_some h
  · cases h

/-- What a call knows after its step. -/
theorem Call.Acts.knows (h : c.Acts crypto s s' phase) (hknows : Knows crypto s c) :
  Knows crypto s' { c with phase }
  := by
  cases h with
  | plain hplain | starts _ _ _ hplain | enrolls _ _ hplain | revokes _ hplain =>
      apply Knows.of_plain hplain
  | revokesFamily | commits => exact .of_existing_eq_none rfl nofun
  | @finds rawToken found hphase hfind =>
      obtain ⟨hrow, hhash⟩ := find_of_findRefreshToken hfind
      refine ⟨nofun, ?_, nofun⟩
      intro existing hexisting
      obtain rfl := Option.some.inj hexisting
      refine ⟨rawToken, found, hknows.presenting rawToken hphase, hrow, hhash, rfl, rfl, ?_⟩
      rintro (hrevoked | hreused)
      · exact hrevoked
      · cases hreused
  | @follows found _ hbefore hafter hlocks hreused =>
      refine ⟨?_, ?_, ?_⟩
      · rintro rawToken rfl
        cases hafter
      · intro existing hexisting
        obtain rfl := Option.some.inj (hafter.symm.trans hexisting)
        obtain ⟨rawToken, row, hoperation, hrow, hhash, huser, hexpires, hrevoked⟩ :=
          hknows.existing found hbefore
        refine ⟨rawToken, row, hoperation, hrow, hhash, huser, hexpires, ?_⟩
        rintro (h | h)
        · exact hrevoked (.inl h)
        · rcases hreused with hnone | hfound | hbefore | hall
          · change phase.reused = some found at h
            rw [hnone] at h
            cases h
          · exact hrevoked (.inl hfound)
          · exact hrevoked (.inr hbefore)
          · exact hall row hrow
      · rintro existing revokedAt row token rfl
        cases hlocks
  | @locks found revokedAt hphase =>
      obtain ⟨rawToken, row, hoperation, hrow, hhash, huser, hexpires, hrevoked⟩ :=
        hknows.existing found (by rw [hphase]; rfl)
      refine ⟨nofun, ?_, nofun⟩
      intro existing hexisting
      obtain rfl := Option.some.inj hexisting
      refine ⟨rawToken, row, hoperation, hrow, hhash, huser, hexpires, ?_⟩
      rintro (h | h)
      · exact hrevoked (.inl h)
      · cases h
  | inserts _ _ _ hnext =>
      rcases hnext with ⟨_, _, rfl⟩ | ⟨found, revokedAt, _, hphase, huserId, rfl⟩
      · exact .of_existing_eq_none rfl nofun
      · obtain ⟨rawToken, row, hoperation, hrow, hhash, huser, hexpires, hrevoked⟩ :=
          hknows.existing found (by rw [hphase]; rfl)
        refine ⟨nofun, ?_, ?_⟩
        · intro existing hexisting
          obtain rfl := Option.some.inj hexisting
          refine ⟨rawToken, row, hoperation, hrow, hhash, huser, hexpires, ?_⟩
          rintro (h | h)
          · exact hrevoked (.inl h)
          · cases h
        · rintro existing _ _ _ hcommitting
          cases hcommitting
          exact huserId

end

/-! ### Chains -/

/-- The token `b` was obtained from the token `a` by a rotation. -/
def State.Rotated (s : State) (a b : ℕ) : Prop :=
  ∃ rotation ∈ s.rotations, rotation.token = a ∧ rotation.successor = b

/-- The token of the rotation is revoked, and its successor belongs to the same user. -/
def Linked (s : State) (rotation : Rotation) : Prop :=
  ∃ row successor, s.tokens.find rotation.token = some row
    ∧ s.tokens.find rotation.successor = some successor ∧ row.revokedAt ≠ none
    ∧ successor.userId = row.userId

/-- The call has committed the rotation of the token it was presented. -/
def HasRotated (crypto : Crypto) (s : State) (c : Call) (rotation : Rotation) : Prop :=
  ∃ rawToken row, rotation.callId = c.id ∧ c.operation = .refresh rawToken
    ∧ s.tokens.find rotation.token = some row ∧ row.tokenHash = crypto.hashRefreshToken rawToken

/-- Each token was rotated once, by the call that returned its successor. -/
structure Linear (crypto : Crypto) (s : State) : Prop where
  linked : ∀ rotation ∈ s.rotations, Linked s rotation
  nodup : (s.rotations.map Rotation.token).Nodup
  calls : ∀ c ∈ s.calls.rows, ∀ tokens, c.phase = .returned (.ok (.rotated tokens)) →
    ∃ rotation ∈ s.rotations, HasRotated crypto s c rotation

/-- What holds of every state. -/
structure Invariant (crypto : Crypto) (s : State) : Prop where
  stored : Stored s
  locking : Locking s
  knows : ∀ c ∈ s.calls.rows, Knows crypto s c
  linear : Linear crypto s

section

variable {s s' : State} {c : Call} {phase : Phase}

theorem Linked.mono {rotation : Rotation} (h : Linked s rotation)
    (hrows : ∀ id row, s.tokens.find id = some row →
      ∃ row', s'.tokens.find id = some row' ∧ Continues row row') :
  Linked s' rotation
  := by
  obtain ⟨row, successor, hrow, hsuccessor, hrevoked, huser⟩ := h
  obtain ⟨row', hrow', hcontinues⟩ := hrows _ row hrow
  obtain ⟨successor', hsuccessor', hcontinues'⟩ := hrows _ successor hsuccessor
  refine ⟨row', successor', hrow', hsuccessor', ?_, ?_⟩
  · rw [hcontinues.revokedAt hrevoked]
    exact hrevoked
  · rw [hcontinues'.userId, hcontinues.userId, huser]

theorem HasRotated.mono {rotation : Rotation} (h : HasRotated crypto s c rotation)
    (hrows : ∀ id row, s.tokens.find id = some row →
      ∃ row', s'.tokens.find id = some row' ∧ Continues row row') :
  HasRotated crypto s' c rotation
  := by
  obtain ⟨rawToken, row, hcall, hoperation, hrow, hhash⟩ := h
  obtain ⟨row', hrow', hcontinues⟩ := hrows _ row hrow
  exact ⟨rawToken, row', hcall, hoperation, hrow', hcontinues.tokenHash.trans hhash⟩

/-- The rows of a rotation after its commit. -/
theorem find_of_commit {existing row r : RefreshToken} {revokedAt : ℕ}
    {tokens : Table RefreshToken.id}
    (hcreate : (s.tokens.updateMany (publishRevoked existing.id revokedAt)).1.create row
      = some tokens)
    (hfind : s.tokens.find existing.id = some r) :
  tokens.find row.id = some row
    ∧ tokens.find existing.id
      = some { r with revokedAt := some revokedAt, updatedAt := revokedAt }
  := by
  have hpublished : (s.tokens.updateMany (publishRevoked existing.id revokedAt)).1.find existing.id
      = some { r with revokedAt := some revokedAt, updatedAt := revokedAt } := by
    rw [Table.find_updateMany, hfind, Option.map_some, Update.apply_of_guard]
    · rfl
    · simp [publishRevoked, Table.key_of_find hfind]
  constructor
  · rw [Table.find_create hcreate, if_pos rfl]
  · exact Table.find_create_of_find hcreate hpublished

/-- A step of a call commits a rotation, or leaves them as they are. -/
theorem Call.Acts.rotations_cases (h : c.Acts crypto s s' phase) :
  (s'.rotations = s.rotations ∧ ∀ tokens, phase ≠ .returned (.ok (.rotated tokens)))
  ∨ ∃ existing revokedAt row token, c.phase = .committing existing revokedAt row token
    ∧ (s.tokens.updateMany (publishRevoked existing.id revokedAt)).1.create row = some s'.tokens
    ∧ s'.rotations
      = s.rotations ++ [{ callId := c.id, token := existing.id, successor := row.id }]
  := by
  cases h with
  | plain hplain | starts _ _ _ hplain | enrolls _ _ hplain | revokes _ hplain =>
      refine .inl ⟨rfl, ?_⟩
      rintro tokens rfl
      cases hplain
  | finds | locks | revokesFamily => exact .inl ⟨rfl, nofun⟩
  | follows _ hafter =>
      refine .inl ⟨rfl, ?_⟩
      rintro tokens rfl
      cases hafter
  | inserts _ _ hpending =>
      refine .inl ⟨rfl, ?_⟩
      rintro tokens rfl
      cases hpending
  | commits hphase hcreate => exact .inr ⟨_, _, _, _, hphase, hcreate, rfl⟩

/-- A token whose rotation is committed has not been rotated before. -/
theorem Linear.not_mem_of_live (h : Linear crypto s) {id : ℕ} {row : RefreshToken}
    (hrow : s.tokens.find id = some row) (hlive : row.revokedAt = none) :
  id ∉ s.rotations.map Rotation.token
  := by
  rintro hmem
  obtain ⟨rotation, hrotation, rfl⟩ := List.mem_map.mp hmem
  obtain ⟨row', -, hrow', -, hrevoked, -⟩ := h.linked rotation hrotation
  obtain rfl := Option.some.inj (hrow.symm.trans hrow')
  exact hrevoked hlive

/-- A step that commits no rotation keeps the chains. -/
theorem Linear.mono (h : Linear crypto s) (hrotations : s'.rotations = s.rotations)
    (hcalls : ∀ c ∈ s'.calls.rows, ∀ tokens, c.phase = .returned (.ok (.rotated tokens)) →
      c ∈ s.calls.rows)
    (hrows : ∀ id row, s.tokens.find id = some row →
      ∃ row', s'.tokens.find id = some row' ∧ Continues row row') :
  Linear crypto s'
  := by
  refine ⟨?_, ?_, ?_⟩
  · rw [hrotations]
    exact fun rotation hrotation => (h.linked rotation hrotation).mono hrows
  · rw [hrotations]
    exact h.nodup
  · rw [hrotations]
    intro c hc tokens hphase
    obtain ⟨rotation, hrotation, hrotated⟩ := h.calls c (hcalls c hc tokens hphase) tokens hphase
    exact ⟨rotation, hrotation, hrotated.mono hrows⟩

/-- The commit of a rotation keeps the chains. -/
theorem Linear.commit {t : State} (h : Linear crypto s) (hlocking : Locking s)
    (hc : c ∈ s.calls.rows) (hknows : Knows crypto s c) {existing row : RefreshToken}
    {revokedAt : ℕ} {token : JsString} (hphase : c.phase = .committing existing revokedAt row token)
    (hcreate : (s.tokens.updateMany (publishRevoked existing.id revokedAt)).1.create row
      = some t.tokens)
    (hrotations : t.rotations
      = s.rotations ++ [{ callId := c.id, token := existing.id, successor := row.id }])
    (hrows : ∀ id row, s.tokens.find id = some row →
      ∃ row', t.tokens.find id = some row' ∧ Continues row row') :
  Linear crypto { t with calls := s.calls.put { c with phase } }
  := by
  obtain ⟨rawToken, r, hoperation, hr, hhash, huser, -⟩ :=
    hknows.existing existing (by rw [hphase]; rfl)
  obtain ⟨r', hr', hlive⟩ := hlocking.live c hc existing.id (by rw [hphase]; rfl)
  obtain rfl := Option.some.inj (hr.symm.trans hr')
  obtain ⟨hsuccessor, hrevoked⟩ := find_of_commit hcreate hr
  refine ⟨?_, ?_, ?_⟩
  · intro rotation hrotation
    change rotation ∈ t.rotations at hrotation
    rw [hrotations, List.mem_append, List.mem_singleton] at hrotation
    rcases hrotation with hrotation | rfl
    · exact (h.linked rotation hrotation).mono hrows
    · refine ⟨_, row, hrevoked, hsuccessor, nofun, ?_⟩
      rw [hknows.committing existing revokedAt row token hphase]
      exact huser.symm
  · change (t.rotations.map Rotation.token).Nodup
    rw [hrotations, List.map_append, List.nodup_append]
    refine ⟨h.nodup, by simp, ?_⟩
    rintro id hid _ hid' rfl
    obtain rfl := List.mem_singleton.mp hid'
    exact h.not_mem_of_live hr hlive hid
  · intro c' hc' tokens hreturned
    change ∃ rotation ∈ t.rotations, _
    rw [hrotations]
    rcases mem_calls_put hc' with rfl | ⟨hc', -⟩
    · exact ⟨_, List.mem_append_right _ List.mem_cons_self, rawToken, _, rfl, hoperation, hrevoked,
        hhash⟩
    · obtain ⟨rotation, hrotation, hrotated⟩ := h.calls c' hc' tokens hreturned
      exact ⟨rotation, List.mem_append_left _ hrotation, hrotated.mono hrows⟩

/-- Every step keeps the invariant. -/
theorem Invariant.step (h : Invariant crypto s) (hmoves : Moves crypto s s') :
  Invariant crypto s'
  := by
  have hrows : ∀ id row, s.tokens.find id = some row →
      ∃ row', s'.tokens.find id = some row' ∧ Continues row row' :=
    fun id row hrow => hmoves.continues h.stored h.locking hrow
  refine ⟨h.stored.step h.locking hmoves, h.locking.step hmoves, ?_, ?_⟩
  · cases hmoves with
    | other => exact fun c hc => (h.knows c hc).mono hrows
    | calls hcreate hstart =>
        intro c hc
        change c ∈ Table.rows _ at hc
        rw [Table.rows_of_create hcreate, List.mem_append, List.mem_singleton] at hc
        rcases hc with hc | rfl
        · exact (h.knows c hc).mono hrows
        · exact Knows.of_start hstart
    | acts hfind hacts =>
        intro c hc
        rcases mem_calls_put hc with rfl | ⟨hc, -⟩
        · have hknows := hacts.knows (h.knows _ (Table.mem_of_find hfind))
          exact ⟨hknows.presenting, hknows.existing, hknows.committing⟩
        · exact (h.knows c hc).mono hrows
  · cases hmoves with
    | other => exact h.linear.mono rfl (fun c hc _ _ => hc) hrows
    | calls hcreate hstart =>
        refine h.linear.mono rfl ?_ hrows
        intro c hc tokens hphase
        change c ∈ Table.rows _ at hc
        rw [Table.rows_of_create hcreate, List.mem_append, List.mem_singleton] at hc
        rcases hc with hc | rfl
        · exact hc
        · rw [hstart] at hphase
          cases hoperation : c.operation <;> rw [hoperation] at hphase <;> cases hphase
    | @acts c t phase hfind hacts =>
        have hc := Table.mem_of_find hfind
        rcases hacts.rotations_cases with ⟨hrotations, hphase⟩
          | ⟨existing, revokedAt, row, token, hphase, hcreate, hrotations⟩
        · refine h.linear.mono hrotations ?_ hrows
          intro c' hc' tokens hreturned
          rcases mem_calls_put hc' with rfl | ⟨hc', -⟩
          · exact absurd hreturned (hphase tokens)
          · exact hc'
        · exact h.linear.commit h.locking hc (h.knows c hc) hphase hcreate hrotations hrows

end

/-! ### Runs -/

theorem invariant_init {s : State} (h : (system config crypto unicode).init s) :
  Invariant crypto s
  := by
  obtain ⟨htokens, hcalls, hinserted, hrotations, -⟩ := h
  refine ⟨⟨by simp [hinserted], by simp [hinserted], ?_, by simp [hcalls]⟩,
    ⟨by simp [hcalls], by simp [hcalls]⟩, by simp [hcalls],
    ⟨by simp [hrotations], by simp [hrotations], by simp [hcalls]⟩⟩
  intro id row hrow
  rw [Table.find_of_rows_eq_nil htokens] at hrow
  cases hrow

/-- A token has at most one successor. -/
theorem Linear.rightUnique {s : State} (h : Linear crypto s) :
  Relator.RightUnique s.Rotated
  := by
  rintro a b c ⟨rotation, hrotation, rfl, rfl⟩ ⟨rotation', hrotation', hid, rfl⟩
  rw [List.inj_on_of_nodup_map h.nodup hrotation hrotation' hid.symm]

/-- A token that is not revoked has no successor. -/
theorem Linear.not_rotated_of_live {s : State} (h : Linear crypto s) {row : RefreshToken}
    (hrow : row ∈ s.tokens.rows) (hlive : row.revokedAt = none) (id : ℕ) :
  ¬s.Rotated row.id id
  := by
  rintro ⟨rotation, hrotation, hid, -⟩
  apply h.not_mem_of_live (Table.mem_rows_iff.mp hrow) hlive
  rw [← hid]
  apply List.mem_map_of_mem hrotation

/-- Rotation is linear: in every run a token stays revoked as it was, has at most one successor,
which one call returns, and of the tokens of a chain at most one is not revoked. -/
theorem rotation_linear {s₀ s : State} {ts : List (Transition State Label)}
    (hrun : (system config crypto unicode).Run s₀ ts s)
    (hinit : (system config crypto unicode).init s₀) :
  (∀ t ∈ ts, ∀ id row revokedAt, t.source.tokens.find id = some row →
    row.revokedAt = some revokedAt →
      ∃ row', t.target.tokens.find id = some row' ∧ row'.revokedAt = some revokedAt)
  ∧ (∀ a b c, s.Rotated a b → s.Rotated a c → b = c)
  ∧ (∀ c ∈ s.calls.rows, ∀ c' ∈ s.calls.rows, ∀ rawToken tokens tokens',
    c.operation = .refresh rawToken → c'.operation = .refresh rawToken →
      c.phase = .returned (.ok (.rotated tokens)) → c'.phase = .returned (.ok (.rotated tokens')) →
        c = c')
  ∧ ∀ row ∈ s.tokens.rows, ∀ row' ∈ s.tokens.rows, Relation.EqvGen s.Rotated row.id row'.id →
    row.revokedAt = none → row'.revokedAt = none → row = row'
  := by
  have hstep : ∀ t ∈ ts, (system config crypto unicode).step t.source t.label = some t.target →
      Invariant crypto t.source → Invariant crypto t.target :=
    fun t _ hstep h => h.step (moves_of_step hstep)
  have hinvariant : Invariant crypto s := hrun.invariant (invariant_init hinit) hstep
  refine ⟨?_, ?_, ?_, ?_⟩
  · intro t ht id row revokedAt hrow hrevoked
    have h := hrun.invariant_source (Invariant crypto) (invariant_init hinit) hstep ht
    obtain ⟨row', hrow', hcontinues⟩ :=
      (moves_of_step (hrun.step_of_mem ht)).continues h.stored h.locking hrow
    refine ⟨row', hrow', ?_⟩
    rw [hcontinues.revokedAt (by simp [hrevoked]), hrevoked]
  · exact hinvariant.linear.rightUnique
  · intro c hc c' hc' rawToken tokens tokens' hoperation hoperation' hphase hphase'
    obtain ⟨rotation, hrotation, raw, row, hcall, hraw, hrow, hhash⟩ :=
      hinvariant.linear.calls c hc tokens hphase
    obtain ⟨rotation', hrotation', raw', row', hcall', hraw', hrow', hhash'⟩ :=
      hinvariant.linear.calls c' hc' tokens' hphase'
    obtain rfl : rawToken = raw := by simpa [hoperation] using hraw
    obtain rfl : rawToken = raw' := by simpa [hoperation'] using hraw'
    have hid := hinvariant.stored.id_eq_of_tokenHash hrow hrow' (hhash.trans hhash'.symm)
    obtain rfl := List.inj_on_of_nodup_map hinvariant.linear.nodup hrotation hrotation' hid
    exact List.inj_on_of_nodup_map s.calls.nodup hc hc' (hcall.symm.trans hcall')
  · intro row hrow row' hrow' hchain hlive hlive'
    have hid := Chain.eq_of_eqvGen hinvariant.linear.rightUnique hchain
      (hinvariant.linear.not_rotated_of_live hrow hlive)
      (hinvariant.linear.not_rotated_of_live hrow' hlive')
    exact List.inj_on_of_nodup_map s.tokens.nodup hrow hrow' hid

/-! ### A sample system -/

/-- A keyed hash and passwords that are their own hashes. -/
def sampleCrypto : Crypto where
  hashRefreshToken token := token
  verify hash password := hash = password
  decoyPasswordHash := js "decoy"

def sampleConfig : AuthConfig where
  accessTtlSeconds := 900
  refreshTtlSeconds := 2592000

/-- No users and no sessions. -/
def sampleState : State where
  now := 0
  users := Table.empty
  tokens := Table.empty
  calls := Table.empty
  inserted := []
  rotations := []
  events := []

/-- The token that repeats a character. -/
def sampleToken (u : UInt16) : JsString :=
  List.replicate 64 u

def sampleContext : SessionContext :=
  ⟨none, none, none⟩

/-- User 7 registers, and gets the first token. -/
def registration : List Label :=
  [.call 1 (.register ⟨js "user@example.com", js "password", none⟩) sampleContext,
    .step 1 .advance, .step 1 (.user 7 (js "password")), .step 1 (.session 1 (sampleToken 0x41)),
    .step 1 .advance]

/-- A call presents a token, and goes on until it sends the update of the rotation. -/
def presentation (callId : ℕ) (token : JsString) : List Label :=
  [.call callId (.refresh token) sampleContext, .step callId .advance, .step callId .advance,
    .step callId .advance, .step callId .advance]

/-- The rotation of a call, up to its commit. -/
def rotation (callId id : ℕ) (successor : JsString) : List Label :=
  [.step callId .advance, .step callId (.session id successor), .step callId .advance]

/-- Two calls present the first token.  The second one finds it rotated, and revokes all tokens. -/
def twoPresentations : List Label :=
  registration ++ presentation 2 (sampleToken 0x41) ++ presentation 3 (sampleToken 0x41)
    ++ rotation 2 2 (sampleToken 0x42)
    ++ [.step 3 .advance, .step 3 .advance, .step 3 .advance, .step 3 .advance]

/-- Of two calls that present the same token one has returned its successor, and the other one has
found it reused. -/
theorem rotation_linear_of_twoPresentations :
  ∃ ts s, (system sampleConfig sampleCrypto asciiUnicode).Run sampleState ts s
    ∧ (s.calls.find 2).map Call.phase
      = some (.returned (.ok (.rotated (buildTokenPair sampleConfig 7 (sampleToken 0x42)))))
    ∧ (s.calls.find 3).map Call.phase = some (.returned (.error refreshTokenReused))
    ∧ (∀ t ∈ ts, ∀ id row revokedAt, t.source.tokens.find id = some row →
      row.revokedAt = some revokedAt →
        ∃ row', t.target.tokens.find id = some row' ∧ row'.revokedAt = some revokedAt)
    ∧ (∀ a b c, s.Rotated a b → s.Rotated a c → b = c)
    ∧ (∀ c ∈ s.calls.rows, ∀ c' ∈ s.calls.rows, ∀ rawToken tokens tokens',
      c.operation = .refresh rawToken → c'.operation = .refresh rawToken →
        c.phase = .returned (.ok (.rotated tokens)) →
          c'.phase = .returned (.ok (.rotated tokens')) → c = c')
    ∧ ∀ row ∈ s.tokens.rows, ∀ row' ∈ s.tokens.rows, Relation.EqvGen s.Rotated row.id row'.id →
      row.revokedAt = none → row'.revokedAt = none → row = row'
  := by
  have hsome : ((system sampleConfig sampleCrypto asciiUnicode).execute (fun _ => true) sampleState
      twoPresentations).any (fun s =>
        decide ((s.calls.find 2).map Call.phase
          = some (.returned (.ok (.rotated (buildTokenPair sampleConfig 7 (sampleToken 0x42))))))
        && decide ((s.calls.find 3).map Call.phase
          = some (.returned (.error refreshTokenReused)))) = true := by
    decide +kernel
  obtain ⟨s, hs, hend⟩ := (Option.any_eq_true _ _).mp hsome
  obtain ⟨ts, hrun, -⟩ := TransitionSystem.run_of_execute hs
  simp only [Bool.and_eq_true, decide_eq_true_eq] at hend
  refine ⟨ts, s, hrun, hend.1, hend.2, ?_⟩
  apply rotation_linear hrun ⟨rfl, rfl, rfl, rfl, rfl⟩

end AuthService

end DocuAI
