import Mathlib.Data.List.Sort

/-!
# Sorted rows

Rows sorted by a comparison, and the pages they are cut into.  A comparison that tells all rows
apart leaves them one order only, so that rows sorted at different times are the same list.
-/

/-! ### Sorting -/

section

variable {α β : Type} {cmp : α → α → Ordering} {rows rows' : List α}

/-- The rows are in an order that the comparison allows. -/
def SortedBy (cmp : α → α → Ordering) (rows : List α) : Prop :=
  rows.Pairwise fun a b => cmp a b ≠ .gt

/-- Comparing by a column keeps the laws of a comparison. -/
theorem transCmp_column {cmp : β → β → Ordering} (h : Std.TransCmp cmp) (column : α → β) :
  Std.TransCmp fun a b => cmp (column a) (column b)
  where
  eq_swap := h.eq_swap
  isLE_trans := h.isLE_trans

theorem isLE_of_ne_gt {o : Ordering} :
  o ≠ .gt ↔ o.isLE = true
  := by
  cases o with
  | lt | eq | gt => decide

/-- Insertion sort by a lawful comparison sorts. -/
theorem sortedBy_insertionSort [Std.TransCmp cmp] (rows : List α) :
  SortedBy cmp (rows.insertionSort fun a b => cmp a b ≠ .gt)
  := by
  have htotal : Std.Total fun a b => cmp a b ≠ .gt := by
    constructor
    intro a b
    by_cases h : cmp a b = .gt
    · right
      rw [Std.OrientedCmp.lt_of_gt h]
      decide
    · exact .inl h
  have htrans : IsTrans α fun a b => cmp a b ≠ .gt := by
    constructor
    intro a b c hab hbc
    rw [isLE_of_ne_gt] at hab hbc ⊢
    exact Std.TransCmp.isLE_trans hab hbc
  exact List.pairwise_insertionSort _ rows

/-- Rows that the comparison tells apart can be sorted in one way only. -/
theorem SortedBy.eq_of_perm [Std.OrientedCmp cmp]
    (hne : ∀ a ∈ rows, ∀ b ∈ rows, cmp a b = .eq → a = b) (h : SortedBy cmp rows)
    (h' : SortedBy cmp rows') (hperm : rows.Perm rows') :
  rows = rows'
  := by
  refine hperm.eq_of_pairwise ?_ h h'
  intro a b ha hb hab hba
  apply hne a ha b (hperm.mem_iff.mpr hb)
  cases hcmp : cmp a b with
  | lt => exact absurd (Std.OrientedCmp.gt_of_lt hcmp) hba
  | eq => rfl
  | gt => exact absurd hcmp hab

/-- Whatever the order of the rows was, sorting those that the comparison tells apart gives one
list. -/
theorem insertionSort_eq_of_perm [Std.TransCmp cmp]
    (hne : ∀ a ∈ rows, ∀ b ∈ rows, cmp a b = .eq → a = b) (hperm : rows.Perm rows') :
  rows.insertionSort (fun a b => cmp a b ≠ .gt) = rows'.insertionSort fun a b => cmp a b ≠ .gt
  := by
  have hsort := List.perm_insertionSort (fun a b => cmp a b ≠ .gt)
  refine SortedBy.eq_of_perm ?_ (sortedBy_insertionSort rows) (sortedBy_insertionSort rows')
    ((hsort rows).trans (hperm.trans (hsort rows').symm))
  intro a ha b hb
  exact hne a ((hsort rows).mem_iff.mp ha) b ((hsort rows).mem_iff.mp hb)

/-- The first of the sorted rows comes before all of them. -/
theorem head_insertionSort_le [Std.TransCmp cmp] {first a : α}
    (hfirst : (rows.insertionSort fun a b => cmp a b ≠ .gt).head? = some first) (ha : a ∈ rows) :
  cmp first a ≠ .gt
  := by
  obtain ⟨rest, hsorted⟩ := List.head?_eq_some_iff.mp hfirst
  have h : SortedBy cmp (rows.insertionSort fun a b => cmp a b ≠ .gt) := sortedBy_insertionSort rows
  rw [hsorted, SortedBy, List.pairwise_cons] at h
  have hmem := (List.mem_insertionSort fun a b => cmp a b ≠ .gt).mpr ha
  rw [hsorted, List.mem_cons] at hmem
  rcases hmem with rfl | hmem
  · have hself : cmp a a = .eq := Std.ReflCmp.compare_self
    rw [hself]
    decide
  · exact h.1 a hmem

end

/-! ### Pages -/

section

variable {α : Type} {limit : ℕ}

/-- The pages of rows that are cut into pages of at most `limit` rows. -/
def pageCount (limit total : ℕ) : ℕ :=
  (total + limit - 1) / limit

/-- The first pages hold the first rows, each once. -/
theorem flatMap_range_pages (limit n : ℕ) (rows : List α) :
  (List.range n).flatMap (fun i => (rows.drop (i * limit)).take limit) = rows.take (n * limit)
  := by
  induction n with
  | zero => simp
  | succ n ih =>
      rw [List.range_succ, List.flatMap_append, ih, List.flatMap_singleton, Nat.succ_mul,
        List.take_add]

theorem le_pageCount_mul (hlimit : 1 ≤ limit) (total : ℕ) :
  total ≤ pageCount limit total * limit
  := by
  have hdiv := Nat.div_add_mod (total + limit - 1) limit
  have hmod := Nat.mod_lt (total + limit - 1) hlimit
  rw [pageCount, Nat.mul_comm]
  omega

/-- All pages together hold all rows, each once and in their order. -/
theorem flatMap_pages (hlimit : 1 ≤ limit) (rows : List α) :
  (List.range (pageCount limit rows.length)).flatMap
    (fun i => (rows.drop (i * limit)).take limit) = rows
  := by
  rw [flatMap_range_pages, List.take_of_length_le (le_pageCount_mul hlimit rows.length)]

/-- There is nothing after the last page. -/
theorem page_eq_nil (hlimit : 1 ≤ limit) {rows : List α} {i : ℕ}
    (h : pageCount limit rows.length ≤ i) :
  (rows.drop (i * limit)).take limit = []
  := by
  have hle := (le_pageCount_mul hlimit rows.length).trans (Nat.mul_le_mul_right limit h)
  rw [List.drop_of_length_le hle, List.take_nil]

end
