import DocuAI.Library.Table
import Mathlib.Tactic.Tauto

/-!
# The rows with a property

`t.restrict p` is the table of the rows of `t` with the property `p`, all that is there for a reader
who looks at these rows only.  An operation under which rows keep the property commutes with the
restriction, and one that changes only rows without the property leaves the restriction as it is.
-/

universe u v

namespace Table

variable {α : Type u} {κ : Type v} {key : α → κ}

/-- The table of the rows with the property `p`. -/
def restrict (t : Table key) (p : α → Bool) : Table key :=
  ⟨t.rows.filter p, (List.filter_sublist.map key).nodup t.nodup⟩

@[simp]
theorem rows_restrict (t : Table key) (p : α → Bool) :
  (t.restrict p).rows = t.rows.filter p
  := rfl

theorem eq_of_rows {t t' : Table key} (h : t.rows = t'.rows) :
  t = t'
  := by
  cases t
  cases t'
  congr

/-- Properties that agree on the rows of a table restrict it alike. -/
theorem restrict_congr {t : Table key} {p q : α → Bool} (h : ∀ r ∈ t.rows, p r = q r) :
  t.restrict p = t.restrict q
  := eq_of_rows (List.filter_congr h)

@[simp]
theorem restrict_restrict (t : Table key) (p : α → Bool) :
  (t.restrict p).restrict p = t.restrict p
  := by
  apply eq_of_rows
  simp

/-- Rows that have the property anyway are found in the restriction. -/
theorem filter_restrict {t : Table key} {p q : α → Bool} (h : ∀ r ∈ t.rows, q r = true → p r = true) :
  (t.restrict p).rows.filter q = t.rows.filter q
  := by
  rw [rows_restrict, List.filter_filter]
  apply List.filter_congr
  intro r hr
  cases hq : q r with
  | false => rfl
  | true => simp [h r hr hq]

theorem any_restrict {t : Table key} {p q : α → Bool} (h : ∀ r ∈ t.rows, q r = true → p r = true) :
  (t.restrict p).rows.any q = t.rows.any q
  := by
  rw [rows_restrict, List.any_filter]
  apply Bool.eq_iff_iff.mpr
  simp only [List.any_eq_true, Bool.and_eq_true]
  constructor
  · rintro ⟨r, hr, -, hq⟩
    exact ⟨r, hr, hq⟩
  · rintro ⟨r, hr, hq⟩
    exact ⟨r, hr, h r hr hq, hq⟩

/-! ### Updates -/

/-- An update that takes the property from no row, and gives it to none, commutes with the
restriction. -/
theorem restrict_updateMany {t : Table key} {u : Update key} {p : α → Bool}
    (h : ∀ r, p (u.apply r) = p r) :
  (t.updateMany u).1.restrict p = ((t.restrict p).updateMany u).1
  := by
  have hcomp : p ∘ u.apply = p := funext h
  apply eq_of_rows
  rw [rows_restrict, rows_updateMany, rows_updateMany, rows_restrict, List.filter_map, hcomp]

/-- When only rows with the property are admitted, they are counted in the restriction. -/
theorem count_restrict {t : Table key} {u : Update key} {p : α → Bool}
    (h : ∀ r ∈ t.rows, u.guard r = true → p r = true) :
  ((t.restrict p).updateMany u).2 = (t.updateMany u).2
  := by
  change (t.rows.filter p).countP u.guard = t.rows.countP u.guard
  rw [List.countP_filter]
  apply List.countP_congr
  intro r hr
  rw [Bool.and_eq_true]
  exact ⟨And.left, fun hguard => ⟨hguard, h r hr hguard⟩⟩

/-- An update that admits no row with the property leaves the restriction as it is. -/
theorem restrict_updateMany_of_not {t : Table key} {u : Update key} {p : α → Bool}
    (h : ∀ r, p (u.apply r) = p r) (hguard : ∀ r ∈ t.rows, p r = true → u.guard r = false) :
  (t.updateMany u).1.restrict p = t.restrict p
  := by
  rw [restrict_updateMany h]
  apply eq_of_rows
  rw [rows_updateMany, rows_restrict]
  conv_rhs => rw [← List.map_id (t.rows.filter p)]
  apply List.map_congr_left
  intro r hr
  obtain ⟨hr, hp⟩ := List.mem_filter.mp hr
  apply u.apply_of_not_guard (hguard r hr hp)

variable [DecidableEq κ]

theorem find_eq_some_iff {t : Table key} {k : κ} {r : α} :
  t.find k = some r ↔ r ∈ t.rows ∧ key r = k
  := by
  constructor
  · intro h
    exact ⟨mem_of_find h, key_of_find h⟩
  · rintro ⟨hr, rfl⟩
    apply mem_rows_iff.mp hr

/-- A row is found in the restriction exactly when it has the property. -/
theorem find_restrict (t : Table key) (p : α → Bool) (k : κ) :
  (t.restrict p).find k = (t.find k).filter p
  := by
  apply Option.ext
  intro r
  rw [find_eq_some_iff, rows_restrict, List.mem_filter, Option.filter_eq_some_iff, find_eq_some_iff]
  tauto

/-! ### New rows -/

/-- A row is created when no row has its key. -/
theorem exists_create {t : Table key} {r : α} (h : t.find (key r) = none) :
  ∃ t', t.create r = some t'
  := by
  unfold create
  rw [dif_neg (find_eq_none_iff.mp h)]
  exact ⟨_, rfl⟩

/-- A new row with the property is one of the restriction. -/
theorem create_restrict {t t' : Table key} {r : α} {p : α → Bool} (h : t.create r = some t')
    (hp : p r = true) :
  (t.restrict p).create r = some (t'.restrict p)
  := by
  have hnone : (t.restrict p).find (key r) = none := by
    rw [find_restrict, find_of_create h]
    rfl
  obtain ⟨t'', h''⟩ := exists_create hnone
  rw [h'']
  congr 1
  apply eq_of_rows
  rw [rows_of_create h'', rows_restrict, rows_restrict, rows_of_create h, List.filter_append]
  simp [hp]

/-- A new row without the property is none of the restriction. -/
theorem restrict_create_of_not {t t' : Table key} {r : α} {p : α → Bool} (h : t.create r = some t')
    (hp : p r = false) :
  t'.restrict p = t.restrict p
  := by
  apply eq_of_rows
  rw [rows_restrict, rows_restrict, rows_of_create h, List.filter_append]
  simp [hp]

/-! ### Removed rows -/

theorem restrict_erase (t : Table key) (k : κ) (p : α → Bool) :
  (t.erase k).restrict p = (t.restrict p).erase k
  := by
  apply eq_of_rows
  simp only [erase, restrict, List.filter_filter]
  congr 1
  funext r
  apply Bool.and_comm

/-- Removing a row without the property leaves the restriction as it is. -/
theorem restrict_erase_of_not {t : Table key} {k : κ} {p : α → Bool}
    (h : ∀ r ∈ t.rows, key r = k → p r = false) :
  (t.erase k).restrict p = t.restrict p
  := by
  apply eq_of_rows
  simp only [erase, restrict, List.filter_filter]
  apply List.filter_congr
  intro r hr
  by_cases hk : key r = k
  · simp [hk, h r hr hk]
  · simp [hk]

end Table
