import Mathlib.Data.List.Sort
import Mathlib.Logic.Function.Iterate

/-!
# Windows onto a backlog

A sweep that looks at the first `n` items of a backlog at a time, ordered by their rank and items of
one rank as they stand in the list.  What a sweep sees shrinks when the backlog grows
(`mem_window_filter`), and a sweep that brings a measure down ends where nothing is left to do
(`exists_iterate_of_measure`).
-/

universe u v

section Window

variable {α : Type u} {β : Type v} [LinearOrder β] (rank : α → β) (n : Nat)

/-- The first `n` items of a list in the order of their ranks. -/
def window (l : List α) : List α :=
  (l.insertionSort fun a b => rank a ≤ rank b).take n

variable {rank n}

theorem mem_of_mem_window {l : List α} {a : α} (h : a ∈ window rank n l) :
  a ∈ l
  := by
  have hmem := List.mem_of_mem_take h
  rw [List.mem_insertionSort] at hmem
  apply hmem

/-- A window shows no key twice that the list does not. -/
theorem nodup_map_window {γ : Type*} {f : α → γ} {l : List α} (h : (l.map f).Nodup) :
  ((window rank n l).map f).Nodup
  := by
  have hsorted : ((l.insertionSort fun a b => rank a ≤ rank b).map f).Nodup := by
    apply ((List.perm_insertionSort _ l).map f).nodup_iff.mpr h
  apply List.Nodup.sublist _ hsorted
  apply (List.take_sublist n _).map f

/-- A window of some size is empty only onto an empty list. -/
theorem window_eq_nil {l : List α} (h : window rank (n + 1) l = []) :
  l = []
  := by
  apply List.eq_nil_of_length_eq_zero
  rw [← List.length_insertionSort (fun a b => rank a ≤ rank b)]
  unfold window at h
  rw [List.take_eq_nil_iff] at h
  rcases h with hzero | hnil
  · cases hzero
  · rw [hnil]
    rfl

/-- A window onto the images of the items shows the images of the items it shows. -/
theorem window_map {l : List α} (f : α → α) (hf : ∀ a ∈ l, rank (f a) = rank a) :
  window rank n (l.map f) = (window rank n l).map f
  := by
  unfold window
  rw [List.map_take, List.map_insertionSort _ (fun a b => rank a ≤ rank b)]
  intro a ha b hb
  rw [hf a ha, hf b hb]

/-- The window onto a list that stands in order is its beginning. -/
theorem window_of_pairwise {l : List α} (h : l.Pairwise fun a b => rank a ≤ rank b) :
  window rank n l = l.take n
  := by
  rw [window, h.insertionSort_eq]

theorem filter_orderedInsert {l : List α} (p : α → Bool) (a : α)
    (h : l.Pairwise fun a b => rank a ≤ rank b) :
  (l.orderedInsert (fun a b => rank a ≤ rank b) a).filter p
    = if p a then (l.filter p).orderedInsert (fun a b => rank a ≤ rank b) a else l.filter p
  := by
  induction l with
  | nil => simp [List.filter_cons]
  | cons b l ih =>
      rw [List.pairwise_cons] at h
      rw [List.orderedInsert_cons]
      split
      · rename_i hle
        by_cases ha : p a
        · rw [List.filter_cons, if_pos ha, if_pos ha]
          symm
          by_cases hb : p b
          · rw [List.filter_cons, if_pos hb, List.orderedInsert_cons, if_pos hle]
          · rw [List.filter_cons, if_neg hb]
            cases hl : l.filter p with
            | nil => rfl
            | cons c cs =>
                have hc : c ∈ l := List.mem_of_mem_filter (hl ▸ List.mem_cons_self)
                rw [List.orderedInsert_cons, if_pos (le_trans hle (h.1 c hc))]
        · rw [List.filter_cons, if_neg ha, if_neg ha]
      · rename_i hlt
        rw [List.filter_cons, ih h.2]
        by_cases hb : p b
        · rw [if_pos hb]
          by_cases ha : p a
          · rw [if_pos ha, if_pos ha, List.filter_cons, if_pos hb, List.orderedInsert_cons,
              if_neg hlt]
          · rw [if_neg ha, if_neg ha, List.filter_cons, if_pos hb]
        · rw [if_neg hb, List.filter_cons, if_neg hb]

/-- Sorting keeps the order of the items that are kept. -/
theorem filter_insertionSort (l : List α) (p : α → Bool) :
  (l.insertionSort fun a b => rank a ≤ rank b).filter p
    = (l.filter p).insertionSort fun a b => rank a ≤ rank b
  := by
  induction l with
  | nil => rfl
  | cons a l ih =>
      rw [List.insertionSort_cons, filter_orderedInsert p a (List.pairwise_insertionSort _ l), ih]
      by_cases ha : p a
      · rw [if_pos ha, List.filter_cons, if_pos ha, List.insertionSort_cons]
      · rw [if_neg ha, List.filter_cons, if_neg ha]

theorem mem_take_filter {l : List α} {p : α → Bool} {a : α} (h : a ∈ l.take n) (ha : p a = true) :
  a ∈ (l.filter p).take n
  := by
  induction l generalizing n with
  | nil => simp at h
  | cons b l ih =>
      cases n with
      | zero => simp at h
      | succ n =>
          rw [List.take_succ_cons, List.mem_cons] at h
          rcases h with rfl | h
          · rw [List.filter_cons, if_pos ha]
            apply List.mem_cons_self
          · have hmem := ih h
            rw [List.filter_cons]
            split
            · apply List.mem_cons_of_mem _ hmem
            · apply (List.take_sublist_take_left (Nat.le_succ n)).subset hmem

/-- An item that a window shows is shown by the window onto fewer items. -/
theorem mem_window_filter {l : List α} {p : α → Bool} {a : α} (h : a ∈ window rank n l)
    (ha : p a = true) :
  a ∈ window rank n (l.filter p)
  := by
  unfold window
  rw [← filter_insertionSort]
  apply mem_take_filter h ha

end Window

/-! ### Repeated sweeps -/

/-- A function that lowers a measure unless it is done gets done. -/
theorem exists_iterate_of_measure {σ : Type u} {f : σ → σ} {I done : σ → Prop} (μ : σ → Nat)
    (hinvariant : ∀ x, I x → I (f x)) (hmeasure : ∀ x, I x → ¬done x → μ (f x) < μ x) {x : σ}
    (hx : I x) :
  ∃ n, I (f^[n] x) ∧ done (f^[n] x)
  := by
  induction hμ : μ x using Nat.strongRecOn generalizing x with
  | ind m ih =>
      by_cases hdone : done x
      · exact ⟨0, hx, hdone⟩
      · obtain ⟨n, hn⟩ := ih (μ (f x)) (hμ ▸ hmeasure x hx hdone) (hinvariant x hx) rfl
        use n + 1
        rw [Function.iterate_succ_apply]
        apply hn
