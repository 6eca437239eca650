import Mathlib.Computability.Language
import DocuAI.Library.Words

/-!
# Patterns

The languages that patterns of characters denote: characters of a class, items that a character
separates, and items with padding around them.
-/

namespace Pattern

open Computability

section

variable {α : Type} {p : α → Bool} {l item : Language α} {s : List α}

/-! ### Characters -/

/-- One character of a class. -/
def oneOf (p : α → Bool) : Language α :=
  {s | ∃ u, p u = true ∧ s = [u]}

/-- `l+`. -/
def oneOrMore (l : Language α) : Language α :=
  l * l∗

/-- `l?`. -/
def zeroOrOne (l : Language α) : Language α :=
  1 + l

theorem mem_kstar_oneOf :
  s ∈ (oneOf p)∗ ↔ ∀ u ∈ s, p u = true
  := by
  constructor
  · rintro ⟨pieces, rfl, hpieces⟩ u hu
    obtain ⟨piece, hpiece, hu⟩ := List.mem_flatten.mp hu
    obtain ⟨v, hv, rfl⟩ := hpieces piece hpiece
    rwa [List.mem_singleton.mp hu]
  · intro h
    refine ⟨s.map fun u => [u], ?_, ?_⟩
    · rw [← List.flatMap_def, List.flatMap_singleton']
    · rintro piece hpiece
      obtain ⟨u, hu, rfl⟩ := List.mem_map.mp hpiece
      exact ⟨u, h u hu, rfl⟩

theorem mem_oneOf_mul :
  s ∈ oneOf p * l ↔ ∃ u rest, s = u :: rest ∧ p u = true ∧ rest ∈ l
  := by
  constructor
  · rintro ⟨piece, ⟨u, hu, rfl⟩, rest, hrest, rfl⟩
    exact ⟨u, rest, rfl, hu, hrest⟩
  · rintro ⟨u, rest, rfl, hu, hrest⟩
    exact ⟨[u], ⟨u, hu, rfl⟩, rest, hrest, rfl⟩

theorem mem_oneOrMore_oneOf :
  s ∈ oneOrMore (oneOf p) ↔ s ≠ [] ∧ ∀ u ∈ s, p u = true
  := by
  rw [oneOrMore, mem_oneOf_mul]
  constructor
  · rintro ⟨u, rest, rfl, hu, hrest⟩
    exact ⟨List.cons_ne_nil u rest, List.forall_mem_cons.mpr ⟨hu, mem_kstar_oneOf.mp hrest⟩⟩
  · rintro ⟨hne, h⟩
    obtain ⟨u, rest, rfl⟩ := List.exists_cons_of_ne_nil hne
    obtain ⟨hu, hrest⟩ := List.forall_mem_cons.mp h
    exact ⟨u, rest, rfl, hu, mem_kstar_oneOf.mpr hrest⟩

theorem mem_oneOf_pow_mul {n : ℕ} :
  s ∈ oneOf p ^ n * l ↔ (s.take n).length = n ∧ (∀ u ∈ s.take n, p u = true) ∧ s.drop n ∈ l
  := by
  induction n generalizing s with
  | zero => simp
  | succ n ih =>
      rw [pow_succ', mul_assoc, mem_oneOf_mul]
      cases s with
      | nil => simp
      | cons u rest => simp [ih, and_assoc, and_left_comm]

theorem mem_zeroOrOne :
  s ∈ zeroOrOne l ↔ s = [] ∨ s ∈ l
  := by rw [zeroOrOne, Language.mem_add, Language.mem_one]

/-! ### Padding -/

/-- An item without padding characters is found by stripping them. -/
theorem mem_padded (hitem : ∀ s ∈ item, s ≠ [] ∧ ∀ u ∈ s, p u = false) :
  s ∈ (oneOf p)∗ * item * (oneOf p)∗ ↔ (s.dropWhile p).rdropWhile p ∈ item
  := by
  constructor
  · rintro ⟨_, ⟨before, hbefore, body, hbody, rfl⟩, after, hafter, rfl⟩
    obtain ⟨hne, hchars⟩ := hitem body hbody
    obtain ⟨u, rest, rfl⟩ := List.exists_cons_of_ne_nil hne
    have hstart : ((before ++ u :: rest) ++ after).dropWhile p = (u :: rest) ++ after := by
      rw [List.append_assoc, List.dropWhile_append_of_pos (mem_kstar_oneOf.mp hbefore),
        List.cons_append, List.dropWhile_cons_of_neg]
      rw [hchars u List.mem_cons_self]
      exact Bool.false_ne_true
    have hend : ((u :: rest) ++ after).rdropWhile p = u :: rest := by
      rw [List.rdropWhile, List.reverse_append, List.dropWhile_append_of_pos, ← List.rdropWhile,
        rdropWhile_eq_self]
      · exact fun v hv => hchars v (List.mem_of_getLast? hv)
      · exact fun v hv => mem_kstar_oneOf.mp hafter v (List.mem_reverse.mp hv)
    change List.rdropWhile p (List.dropWhile p _) ∈ item
    rwa [hstart, hend]
  · intro h
    refine ⟨s.takeWhile p ++ (s.dropWhile p).rdropWhile p,
      ⟨_, mem_kstar_oneOf.mpr fun u hu => List.mem_takeWhile_imp hu, _, h, rfl⟩,
      (s.dropWhile p).rtakeWhile p,
      mem_kstar_oneOf.mpr fun u hu => List.mem_rtakeWhile_imp hu, ?_⟩
    change s.takeWhile p ++ (s.dropWhile p).rdropWhile p ++ (s.dropWhile p).rtakeWhile p = s
    have hrest : (s.dropWhile p).rdropWhile p ++ (s.dropWhile p).rtakeWhile p = s.dropWhile p := by
      rw [List.rdropWhile, List.rtakeWhile, ← List.reverse_append, List.takeWhile_append_dropWhile,
        List.reverse_reverse]
    rw [List.append_assoc, hrest, List.takeWhile_append_dropWhile]

end

/-! ### Separators -/

section

variable {α : Type} [DecidableEq α] {item : Language α} {s : List α} {u : α}

/-- Items without a separator are the pieces between the separators. -/
theorem mem_separated (hitem : ∀ s ∈ item, u ∉ s) :
  s ∈ item * (oneOf (· == u) * item)∗ ↔ ∀ piece ∈ s.splitOn u, piece ∈ item
  := by
  have hclear {s : List α} (hs : s ∈ item) : ∀ v ∈ s, (v == u) = false := by
    intro v hv
    exact beq_false_of_ne fun heq => hitem s hs (heq ▸ hv)
  constructor
  · rintro ⟨first, hfirst, _, ⟨others, rfl, hothers⟩, rfl⟩
    induction others generalizing first with
    | nil =>
        change ∀ piece ∈ (first ++ []).splitOn u, piece ∈ item
        rw [List.append_nil, List.splitOn_eq_splitOnP, List.splitOnP_eq_singleton (hclear hfirst)]
        exact List.forall_mem_singleton.mpr hfirst
    | cons other others ih =>
        obtain ⟨hother, hrest⟩ := List.forall_mem_cons.mp hothers
        obtain ⟨v, next, rfl, hv, hnext⟩ := mem_oneOf_mul.mp hother
        change ∀ piece ∈ (first ++ v :: (next ++ others.flatten)).splitOn u, piece ∈ item
        rw [List.splitOn_eq_splitOnP, List.splitOnP_append_cons_of_forall_mem (hclear hfirst) v hv,
          ← List.splitOn_eq_splitOnP]
        exact List.forall_mem_cons.mpr ⟨hfirst, ih next hnext hrest⟩
  · induction s using pieces_induction (p := (· == u)) with
    | piece s hs =>
        intro h
        rw [List.splitOn_eq_splitOnP, List.splitOnP_eq_singleton hs] at h
        exact ⟨s, List.forall_mem_singleton.mp h, [], Language.nil_mem_kstar _, List.append_nil s⟩
    | separated s v t hs hv ih =>
        intro h
        rw [List.splitOn_eq_splitOnP, List.splitOnP_append_cons_of_forall_mem hs v hv,
          ← List.splitOn_eq_splitOnP, List.forall_mem_cons] at h
        obtain ⟨first, hfirst, _, ⟨others, rfl, hothers⟩, rfl⟩ := ih h.2
        refine ⟨s, h.1, _, ⟨(v :: first) :: others, rfl, ?_⟩, rfl⟩
        exact List.forall_mem_cons.mpr ⟨mem_oneOf_mul.mpr ⟨v, first, rfl, hv, hfirst⟩, hothers⟩

end

end Pattern
