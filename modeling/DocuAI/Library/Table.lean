import Mathlib.Data.List.Nodup

/-!
# Keyed tables

`Table key` is a table of rows no two of which have the same key: the rows of a relation with
a unique index, in the order of their creation.  `find` looks a row up by its key, `create`
fails when the key is taken, `put` replaces the row with the key or adds one, and `updateMany`
changes every row a guard admits and reports how many there were.  An `Update` never changes a
key, so that every operation yields a table again.
-/

universe u v

/-- A table of rows with distinct keys. -/
structure Table {α : Type u} {κ : Type v} (key : α → κ) where
  rows : List α
  nodup : (rows.map key).Nodup

/-- A conditional update: the rows it changes, and what it makes of them. -/
structure Update {α : Type u} {κ : Type v} (key : α → κ) where
  guard : α → Bool
  data : α → α
  key_data : ∀ r, key (data r) = key r := by intro _; rfl

namespace Update

variable {α : Type u} {κ : Type v} {key : α → κ}

/-- The row an update makes of `r`. -/
def apply (u : Update key) (r : α) : α :=
  if u.guard r then u.data r else r

/-- An update never changes the key of a row. -/
theorem key_apply (u : Update key) (r : α) :
  key (u.apply r) = key r
  := by
  unfold apply
  split
  · apply u.key_data
  · rfl

theorem apply_of_guard (u : Update key) {r : α} (h : u.guard r = true) :
  u.apply r = u.data r
  := by
  simp [apply, h]

theorem apply_of_not_guard (u : Update key) {r : α} (h : u.guard r = false) :
  u.apply r = r
  := by
  simp [apply, h]

/-- The update `u` of the rows with a property only. -/
def among (u : Update key) (p : α → Bool) : Update key where
  guard r := p r && u.guard r
  data := u.data
  key_data := u.key_data

theorem apply_among (u : Update key) {p : α → Bool} {r : α} (h : u.guard r = true → p r = true) :
  (u.among p).apply r = u.apply r
  := by
  cases hguard : u.guard r with
  | true => simp [apply, among, hguard, h hguard]
  | false => simp [apply, among, hguard]

variable [DecidableEq κ]

/-- The update `u` of the row with the key `k` only. -/
def on (u : Update key) (k : κ) : Update key where
  guard r := decide (key r = k) && u.guard r
  data := u.data
  key_data := u.key_data

theorem on_apply (u : Update key) (k : κ) (r : α) :
  (u.on k).apply r = if key r = k then u.apply r else r
  := by
  by_cases hk : key r = k <;> simp [apply, Update.on, hk]

end Update

namespace Table

variable {α : Type u} {κ : Type v} {key : α → κ}

/-- The table with no rows. -/
def empty : Table key := ⟨[], List.nodup_nil⟩

/-- The table updated by `u`, and the number of rows `u` admits. -/
def updateMany (t : Table key) (u : Update key) : Table key × ℕ :=
  (⟨t.rows.map u.apply, by simpa [Function.comp_def, u.key_apply] using t.nodup⟩, t.rows.countP u.guard)

@[simp]
theorem rows_updateMany (t : Table key) (u : Update key) :
  (t.updateMany u).1.rows = t.rows.map u.apply
  := rfl

variable [DecidableEq κ]

/-- The row with the key `k`. -/
def find (t : Table key) (k : κ) : Option α :=
  t.rows.find? fun r => decide (key r = k)

/-- The table with the row `r` added, `none` when its key is taken. -/
def create (t : Table key) (r : α) : Option (Table key) :=
  if h : key r ∈ t.rows.map key then none
  else some ⟨t.rows ++ [r], by
    rw [List.map_append, List.nodup_append]
    refine ⟨t.nodup, by simp, ?_⟩
    simp only [List.map_cons, List.map_nil, List.mem_singleton]
    rintro a ha _ rfl rfl
    exact h ha⟩

/-- The table in which `r` is the row with its key: it replaces that row, or is added. -/
def put (t : Table key) (r : α) : Table key :=
  if h : key r ∈ t.rows.map key then
    ⟨t.rows.map fun x => if key x = key r then r else x, by
      have hkey : (fun x => key (if key x = key r then r else x)) = key := by
        funext x
        split
        · rename_i hx
          exact hx.symm
        · rfl
      simpa [Function.comp_def, hkey] using t.nodup⟩
  else ⟨t.rows ++ [r], by
    rw [List.map_append, List.nodup_append]
    refine ⟨t.nodup, by simp, ?_⟩
    simp only [List.map_cons, List.map_nil, List.mem_singleton]
    rintro a ha _ rfl rfl
    exact h ha⟩

/-- The table without the row with the key `k`. -/
def erase (t : Table key) (k : κ) : Table key :=
  ⟨t.rows.filter fun r => key r ≠ k, (List.filter_sublist.map key).nodup t.nodup⟩

/-! ### Looking rows up -/

theorem find_of_rows_eq_nil {t : Table key} (h : t.rows = []) (k : κ) :
  t.find k = none
  := by
  simp [find, h]

/-- The row found under `k` has the key `k`. -/
theorem key_of_find {t : Table key} {k : κ} {r : α} (h : t.find k = some r) :
  key r = k
  := by
  simpa using List.find?_some h

theorem mem_of_find {t : Table key} {k : κ} {r : α} (h : t.find k = some r) :
  r ∈ t.rows
  := List.mem_of_find?_eq_some h

/-- The rows of a table are those found under their keys. -/
theorem mem_rows_iff {t : Table key} {r : α} :
  r ∈ t.rows ↔ t.find (key r) = some r
  := by
  constructor
  · intro hr
    have hsome : (t.find (key r)).isSome := by
      simp only [find, List.find?_isSome]
      exact ⟨r, hr, by simp⟩
    obtain ⟨r', hr'⟩ := Option.isSome_iff_exists.mp hsome
    rw [hr', List.inj_on_of_nodup_map t.nodup (mem_of_find hr') hr (key_of_find hr')]
  · apply mem_of_find

/-- No row is found under `k` exactly when no row has the key `k`. -/
theorem find_eq_none_iff {t : Table key} {k : κ} :
  t.find k = none ↔ k ∉ t.rows.map key
  := by
  simp [find]

/-- The rows with a key are the one found under it. -/
theorem filter_key (t : Table key) (k : κ) (q : α → Bool) :
  (t.rows.filter fun r => decide (key r = k) && q r) = ((t.find k).filter q).toList
  := by
  have hnodup := t.nodup
  rw [find]
  generalize t.rows = rows at hnodup
  induction rows with
  | nil => rfl
  | cons x xs ih =>
      simp only [List.map_cons, List.nodup_cons] at hnodup
      by_cases hx : key x = k
      · have hnone : (xs.filter fun r => decide (key r = k) && q r) = [] := by
          apply List.filter_eq_nil_iff.mpr
          intro r hr hk
          simp only [Bool.and_eq_true, decide_eq_true_eq] at hk
          apply hnodup.1
          rw [hx, ← hk.1]
          apply List.mem_map_of_mem hr
        simp only [List.filter_cons, List.find?_cons, hnone, hx, decide_true, Bool.true_and]
        cases hq : q x <;> simp [Option.filter, hq]
      · simp only [List.filter_cons, List.find?_cons, hx, decide_false, Bool.false_and]
        apply ih hnodup.2

/-! ### Updates -/

theorem find_updateMany (t : Table key) (u : Update key) (k : κ) :
  (t.updateMany u).1.find k = (t.find k).map u.apply
  := by
  simp only [find, rows_updateMany, List.find?_map, Function.comp_def, Update.key_apply]

/-- An update at a key changes the row with that key and no other. -/
theorem find_updateMany_on (t : Table key) (u : Update key) (k k' : κ) :
  (t.updateMany (u.on k)).1.find k' = if k' = k then (t.find k).map u.apply else t.find k'
  := by
  rw [find_updateMany]
  split
  · rename_i hk
    subst hk
    cases h : t.find k' with
    | none => rfl
    | some r => simp [Update.on_apply, key_of_find h]
  · rename_i hk
    cases h : t.find k' with
    | none => rfl
    | some r => simp [Update.on_apply, key_of_find h, hk]

/-- An update at a key reports one row exactly when the row with that key exists and is
admitted. -/
theorem count_updateMany_on (t : Table key) (u : Update key) (k : κ) :
  (t.updateMany (u.on k)).2 = 1 ↔ ∃ r, t.find k = some r ∧ u.guard r = true
  := by
  have hle : t.rows.countP (u.on k).guard ≤ 1 := by
    have hcount : t.rows.countP (fun r => decide (key r = k)) ≤ 1 := by
      have h := List.nodup_iff_count_le_one.mp t.nodup k
      rw [List.count, List.countP_map] at h
      apply h
    apply Nat.le_trans _ hcount
    apply List.countP_mono_left
    intro r _ hr
    simp only [Update.on, Bool.and_eq_true] at hr
    exact hr.1
  have hpos : 0 < t.rows.countP (u.on k).guard ↔ ∃ r, t.find k = some r ∧ u.guard r = true := by
    rw [List.countP_pos_iff]
    constructor
    · rintro ⟨r, hr, hguard⟩
      simp only [Update.on, Bool.and_eq_true, decide_eq_true_eq] at hguard
      obtain ⟨rfl, hguard⟩ := hguard
      exact ⟨r, mem_rows_iff.mp hr, hguard⟩
    · rintro ⟨r, hr, hguard⟩
      use r, mem_of_find hr
      simp [Update.on, key_of_find hr, hguard]
  rw [← hpos]
  change t.rows.countP (u.on k).guard = 1 ↔ _
  omega

/-- An update that admits the row with a key only reports one row at most. -/
theorem count_le_one {t : Table key} {u : Update key} {k : κ}
    (hguard : ∀ r, u.guard r = true → key r = k) :
  (t.updateMany u).2 ≤ 1
  := by
  have hcount : t.rows.countP (fun r => decide (key r = k)) ≤ 1 := by
    have h := List.nodup_iff_count_le_one.mp t.nodup k
    rw [List.count, List.countP_map] at h
    apply h
  apply Nat.le_trans _ hcount
  apply List.countP_mono_left
  intro r _ hr
  exact decide_eq_true (hguard r hr)

/-- An update that admits the row with a key only reports one row exactly when that row exists and
is admitted. -/
theorem count_eq_one_iff {t : Table key} {u : Update key} {k : κ}
    (hguard : ∀ r, u.guard r = true → key r = k) :
  (t.updateMany u).2 = 1 ↔ ∃ r, t.find k = some r ∧ u.guard r = true
  := by
  have hcount : (t.updateMany u).2 = (t.updateMany (u.on k)).2 := by
    apply List.countP_congr
    intro r _
    simp only [Update.on, Bool.and_eq_true, decide_eq_true_eq]
    constructor
    · intro h
      exact ⟨hguard r h, h⟩
    · exact And.right
  rw [hcount]
  apply count_updateMany_on

/-- Such an update has then changed that row. -/
theorem find_of_count {t : Table key} {u : Update key} {k : κ}
    (hguard : ∀ r, u.guard r = true → key r = k) (h : (t.updateMany u).2 = 1) :
  ∃ r, t.find k = some r ∧ u.guard r = true ∧ (t.updateMany u).1.find k = some (u.data r)
  := by
  obtain ⟨r, hfind, hr⟩ := (count_eq_one_iff hguard).mp h
  refine ⟨r, hfind, hr, ?_⟩
  rw [find_updateMany, hfind, Option.map_some, u.apply_of_guard hr]

/-! ### New rows -/

/-- A row is created only under a key no row has. -/
theorem find_of_create {t t' : Table key} {r : α} (h : t.create r = some t') :
  t.find (key r) = none
  := by
  unfold create at h
  split at h
  · cases h
  · apply find_eq_none_iff.mpr
    assumption

theorem rows_of_create {t t' : Table key} {r : α} (h : t.create r = some t') :
  t'.rows = t.rows ++ [r]
  := by
  unfold create at h
  split at h
  · cases h
  · obtain rfl := Option.some.inj h
    rfl

theorem find_create {t t' : Table key} {r : α} (h : t.create r = some t') (k : κ) :
  t'.find k = if k = key r then some r else t.find k
  := by
  have hnone := find_of_create h
  rw [find, rows_of_create h, List.find?_append]
  change (t.find k).or _ = _
  by_cases hk : k = key r
  · subst hk
    simp [hnone]
  · simp [hk, Ne.symm hk]

/-- A new row leaves the others. -/
theorem find_create_of_find {t t' : Table key} {r r' : α} {k : κ} (h : t.create r = some t')
    (hfind : t.find k = some r') :
  t'.find k = some r'
  := by
  rw [find_create h, if_neg, hfind]
  rintro rfl
  rw [find_of_create h] at hfind
  cases hfind

theorem rows_put_of_find_none {t : Table key} {r : α} (h : t.find (key r) = none) :
  (t.put r).rows = t.rows ++ [r]
  := by
  rw [put, dif_neg (find_eq_none_iff.mp h)]

theorem rows_put_of_find_some {t : Table key} {r r' : α} (h : t.find (key r) = some r') :
  (t.put r).rows = t.rows.map fun x => if key x = key r then r else x
  := by
  have hmem : key r ∈ t.rows.map key := by
    by_contra hne
    rw [find_eq_none_iff.mpr hne] at h
    cases h
  rw [put, dif_pos hmem]

theorem find_put (t : Table key) (r : α) (k : κ) :
  (t.put r).find k = if k = key r then some r else t.find k
  := by
  cases h : t.find (key r) with
  | none =>
      rw [find, rows_put_of_find_none h, List.find?_append]
      change (t.find k).or _ = _
      by_cases hk : k = key r
      · subst hk
        simp [h]
      · simp [hk, Ne.symm hk]
  | some r' =>
      have hkey : (fun x => decide (key (if key x = key r then r else x) = k))
          = fun x => decide (key x = k) := by
        funext x
        split
        · rename_i hx
          rw [hx]
        · rfl
      rw [find, rows_put_of_find_some h, List.find?_map, Function.comp_def, hkey]
      change (t.find k).map _ = _
      by_cases hk : k = key r
      · subst hk
        simp [h, key_of_find h]
      · cases h' : t.find k with
        | none => simp [hk]
        | some x => simp [key_of_find h', hk]

theorem mem_rows_put_iff {t : Table key} {r x : α} :
  x ∈ (t.put r).rows ↔ x = r ∨ x ∈ t.rows ∧ key x ≠ key r
  := by
  rw [mem_rows_iff, find_put]
  by_cases hk : key x = key r
  · simp only [hk, if_true, Option.some.injEq, ne_eq, not_true_eq_false, and_false, or_false]
    exact eq_comm
  · simp only [hk, if_false, ← mem_rows_iff, ne_eq, not_false_eq_true, and_true]
    constructor
    · apply Or.inr
    · rintro (rfl | hx)
      · exact absurd rfl hk
      · apply hx

/-- What holds of all rows holds after `put` exactly when it holds of the new one. -/
theorem forall_put_iff {t : Table key} {r : α} {p : α → Prop} (h : ∀ x ∈ t.rows, p x) :
  (∀ x ∈ (t.put r).rows, p x) ↔ p r
  := by
  constructor
  · intro hput
    apply hput r
    apply mem_rows_put_iff.mpr (.inl rfl)
  · intro hr x hx
    rcases mem_rows_put_iff.mp hx with rfl | ⟨hx, -⟩
    · exact hr
    · apply h x hx

theorem forall_create {t t' : Table key} {r : α} {p : α → Prop} (h : ∀ x ∈ t.rows, p x)
    (hcreate : t.create r = some t') (hr : p r) :
  ∀ x ∈ t'.rows, p x
  := by
  intro x hx
  rw [rows_of_create hcreate, List.mem_append, List.mem_singleton] at hx
  rcases hx with hx | rfl
  · apply h x hx
  · exact hr

theorem find_erase (t : Table key) (k k' : κ) :
  (t.erase k).find k' = if k' = k then none else t.find k'
  := by
  rw [find, erase, List.find?_filter]
  split
  · rename_i hk
    subst hk
    apply List.find?_eq_none.mpr
    simp
  · rename_i hk
    congr 1
    funext r
    by_cases hr : key r = k'
    · simp [hr, hk]
    · simp [hr]

/-- How putting a row in the place of another changes the number of rows with a property. -/
theorem countP_put {t : Table key} {r : α} (r' : α) (h : t.find (key r') = some r) (q : α → Bool) :
  (t.put r').rows.countP q + (if q r then 1 else 0) = t.rows.countP q + (if q r' then 1 else 0)
  := by
  have hother {xs : List α} (hxs : key r' ∉ xs.map key) :
      (xs.map fun x => if key x = key r' then r' else x) = xs := by
    conv_rhs => rw [← List.map_id xs]
    apply List.map_congr_left
    intro x hx
    rw [if_neg]
    · rfl
    · intro hk
      apply hxs (hk ▸ List.mem_map_of_mem hx)
  have hmem := mem_of_find h
  have hkey := key_of_find h
  have hnodup := t.nodup
  rw [rows_put_of_find_some h]
  generalize t.rows = rows at hmem hnodup
  induction rows with
  | nil => cases hmem
  | cons x xs ih =>
      simp only [List.map_cons, List.nodup_cons] at hnodup
      rcases List.mem_cons.mp hmem with rfl | hmem
      · rw [List.map_cons, if_pos hkey, hother (hkey ▸ hnodup.1), List.countP_cons,
          List.countP_cons]
        omega
      · have hne : key x ≠ key r' := by
          intro hk
          apply hnodup.1
          rw [hk, ← hkey]
          apply List.mem_map_of_mem hmem
        have hrest := ih hmem hnodup.2
        rw [List.map_cons, if_neg hne, List.countP_cons, List.countP_cons]
        omega

/-- The rows after `put` are the new row and the rows with other keys. -/
theorem perm_put (t : Table key) (r : α) :
  List.Perm (t.put r).rows (r :: t.rows.filter fun x => decide (key x ≠ key r))
  := by
  apply (List.perm_ext_iff_of_nodup (t.put r).nodup.of_map _).mpr
  · intro x
    rw [mem_rows_put_iff]
    simp
  · rw [List.nodup_cons]
    constructor
    · simp
    · apply t.nodup.of_map.filter

/-- Putting a row that is there already changes nothing. -/
theorem put_of_find {t : Table key} {r : α} (h : t.find (key r) = some r) :
  (t.put r).rows = t.rows
  := by
  rw [rows_put_of_find_some h]
  conv_rhs => rw [← List.map_id t.rows]
  apply List.map_congr_left
  intro x hx
  split
  · rename_i hk
    exact List.inj_on_of_nodup_map t.nodup (mem_of_find h) hx hk.symm
  · rfl

/-- Putting a row leaves the rows of another kind, a kind being a property of the key, as they
were. -/
theorem filter_put {t : Table key} {r : α} {q : α → Bool}
    (hq : ∀ x, key x = key r → q x = q r) (hr : q r = false) :
  (t.put r).rows.filter q = t.rows.filter q
  := by
  cases h : t.find (key r) with
  | none => rw [rows_put_of_find_none h, List.filter_append]; simp [hr]
  | some r' =>
      rw [rows_put_of_find_some h]
      induction t.rows with
      | nil => rfl
      | cons x xs ih =>
          by_cases hx : key x = key r
          · simp [hx, hr, hq x hx, ih]
          · simp [hx, List.filter_cons, ih]

end Table
