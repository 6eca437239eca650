import Mathlib.Data.List.DropRight

/-!
# Words of a list

The pieces of a list between its separators, the words among them, that is the pieces that are not
empty, and what becomes of them when separators are stripped, inserted or joined with.
-/

section

variable {α : Type} {p : α → Bool} {s t : List α} {u : α}

/-! ### Pieces -/

/-- Induction along the separators of a list: a piece without one, or a piece, a separator and the
rest. -/
theorem pieces_induction {motive : List α → Prop} (piece : ∀ s, (∀ u ∈ s, p u = false) → motive s)
    (separated : ∀ s u t, (∀ v ∈ s, p v = false) → p u = true → motive t → motive (s ++ u :: t))
    (s : List α) :
  motive s
  := by
  induction hlength : s.length using Nat.strong_induction_on generalizing s with
  | h n ih =>
      cases hrest : s.dropWhile fun u => !p u with
      | nil =>
          apply piece s
          intro u hu
          simpa using List.dropWhile_eq_nil_iff.mp hrest u hu
      | cons u t =>
          have hs : s = s.takeWhile (fun u => !p u) ++ u :: t := by
            rw [← hrest, List.takeWhile_append_dropWhile]
          have hu : p u = true := by
            have hhead := List.head_dropWhile_not (fun u => !p u) (l := s)
              (hrest ▸ List.cons_ne_nil u t)
            simpa [hrest] using hhead
          rw [hs]
          apply separated _ u t _ hu
          · apply ih t.length _ t rfl
            rw [← hlength, hs]
            simp only [List.length_append, List.length_cons]
            omega
          · intro v hv
            simpa using List.mem_takeWhile_imp hv

/-- A pattern without a certain element lies before or after it. -/
theorem isInfix_append_cons {pattern : List α} (hu : u ∉ pattern)
    (h : pattern <:+: s ++ u :: t) :
  pattern <:+: s ∨ pattern <:+: t
  := by
  obtain ⟨before, after, heq⟩ := h
  rw [List.append_assoc] at heq
  rcases List.append_eq_append_iff.mp heq with ⟨rest, hs, hrest⟩ | ⟨rest, hbefore, hrest⟩
  · -- the pattern begins before the element
    rcases List.append_eq_append_iff.mp hrest with ⟨rest', hrest', -⟩ | ⟨rest', hpattern, hcons⟩
    · left
      rw [hs, hrest', ← List.append_assoc]
      exact ⟨before, rest', rfl⟩
    · cases rest' with
      | nil =>
          left
          rw [hs, hpattern, List.append_nil]
          exact ⟨before, [], by simp⟩
      | cons v rest' =>
          have hv : u = v := (List.cons.inj hcons).1
          rw [hpattern, hv] at hu
          simp at hu
  · -- it begins at the element or after it
    cases rest with
    | nil =>
        cases pattern with
        | nil => exact .inr (List.nil_infix)
        | cons v pattern =>
            have hv : u = v := (List.cons.inj hrest).1
            rw [hv] at hu
            simp at hu
    | cons v rest =>
        right
        refine ⟨rest, after, ?_⟩
        rw [(List.cons.inj hrest).2, List.append_assoc]
        rfl

/-- What is left when a list is stripped from the right does not end in what is stripped. -/
theorem getLast?_rdropWhile (h : (s.rdropWhile p).getLast? = some u) :
  p u = false
  := by
  have hne : s.rdropWhile p ≠ [] := by
    intro hnil
    simp [hnil] at h
  have hlast := List.rdropWhile_last_not p s hne
  rw [List.getLast?_eq_some_getLast hne, Option.some.injEq] at h
  rw [← h]
  exact Bool.eq_false_iff.mpr hlast

theorem rdropWhile_eq_self (h : ∀ u ∈ s.getLast?, p u = false) :
  s.rdropWhile p = s
  := by
  rw [List.rdropWhile_eq_self_iff]
  intro hne
  simp [h _ (List.getLast?_eq_some_getLast hne)]

/-! ### Words -/

/-- The maximal stretches without separators. -/
def words (p : α → Bool) (s : List α) : List (List α) :=
  (s.splitOnP p).filter fun word => !word.isEmpty

theorem words_append_cons (hu : p u = true) (s t : List α) :
  words p (s ++ u :: t) = words p s ++ words p t
  := by
  rw [words, List.splitOnP_append_cons s t hu, List.filter_append]
  rfl

theorem words_nil :
  words p [] = []
  := rfl

theorem words_cons (hu : p u = true) (s : List α) :
  words p (u :: s) = words p s
  := words_append_cons hu [] s

theorem words_concat (hu : p u = true) (s : List α) :
  words p (s ++ [u]) = words p s
  := by rw [words_append_cons hu, words_nil, List.append_nil]

theorem words_eq_singleton (hne : s ≠ []) (h : ∀ u ∈ s, p u = false) :
  words p s = [s]
  := by
  rw [words, List.splitOnP_eq_singleton h]
  simp [hne]

/-- Stripping separators from an end changes no word. -/
theorem words_dropWhile {q : α → Bool} (hq : ∀ u ∈ s, q u = true → p u = true) :
  words p (s.dropWhile q) = words p s
  := by
  induction s with
  | nil => rfl
  | cons u s ih =>
      by_cases hu : q u = true
      · rw [List.dropWhile_cons_of_pos hu, words_cons (hq u List.mem_cons_self hu)]
        apply ih
        intro v hv
        exact hq v (List.mem_cons_of_mem u hv)
      · rw [List.dropWhile_cons_of_neg hu]

theorem words_rdropWhile {q : α → Bool} (hq : ∀ u ∈ s, q u = true → p u = true) :
  words p (s.rdropWhile q) = words p s
  := by
  induction s using List.reverseRecOn with
  | nil => rfl
  | append_singleton s u ih =>
      by_cases hu : q u = true
      · rw [List.rdropWhile_concat_pos _ _ _ hu, words_concat (hq u (by simp) hu)]
        apply ih
        intro v hv
        exact hq v (List.mem_append_left [u] hv)
      · rw [List.rdropWhile_concat_neg _ _ _ hu]

theorem isInfix_of_mem_words {word : List α} (h : word ∈ words p s) :
  word <:+: s
  := by
  induction s using pieces_induction (p := p) with
  | piece s hs =>
      rw [words, List.splitOnP_eq_singleton hs] at h
      obtain rfl := List.mem_singleton.mp (List.mem_filter.mp h).1
      exact List.infix_rfl
  | separated s u t hs hu ih =>
      rw [words, List.splitOnP_append_cons s t hu, List.filter_append, List.mem_append] at h
      rcases h with h | h
      · rw [List.splitOnP_eq_singleton hs] at h
        obtain rfl := List.mem_singleton.mp (List.mem_filter.mp h).1
        exact ⟨[], u :: t, rfl⟩
      · exact (ih h).trans ⟨s ++ [u], [], by simp⟩

/-- An element of joined lines is the separator or one of a line. -/
theorem mem_intercalate {lines : List (List α)} {v : α} (h : v ∈ [u].intercalate lines) :
  v = u ∨ ∃ line ∈ lines, v ∈ line
  := by
  induction lines with
  | nil => simp at h
  | cons line lines ih =>
      cases lines with
      | nil => exact .inr ⟨line, by simp, by simpa using h⟩
      | cons next lines =>
          rw [List.intercalate_cons_cons, List.append_assoc, List.mem_append,
            List.mem_append, List.mem_singleton] at h
          rcases h with h | h | h
          · exact .inr ⟨line, by simp, h⟩
          · exact .inl h
          · rcases ih h with h | ⟨line', hline', h⟩
            · exact .inl h
            · exact .inr ⟨line', List.mem_cons_of_mem line hline', h⟩

/-- The words of lines that are joined by a separator. -/
theorem words_intercalate (hu : p u = true) (lines : List (List α)) :
  words p ([u].intercalate lines) = lines.flatMap (words p)
  := by
  induction lines with
  | nil => rfl
  | cons line lines ih =>
      cases lines with
      | nil => simp
      | cons next lines =>
          rw [List.intercalate_cons_cons, List.append_assoc, List.singleton_append,
            words_append_cons hu, ih, ← List.flatMap_cons]

end

/-! ### Lines -/

section

variable {α : Type} [DecidableEq α] {u v : α}

/-- A line is followed by the separator or ends the list. -/
theorem mem_splitOn {s line : List α} (h : line ∈ s.splitOn u) :
  line ++ [u] <:+: s ∨ line <:+ s
  := by
  induction s using pieces_induction (p := (· == u)) with
  | piece s hs =>
      rw [List.splitOn_eq_splitOnP, List.splitOnP_eq_singleton hs, List.mem_singleton] at h
      exact .inr (h ▸ List.suffix_rfl)
  | separated s v t hs hv ih =>
      rw [List.splitOn_eq_splitOnP, List.splitOnP_append_cons_of_forall_mem hs v hv,
        List.mem_cons] at h
      obtain rfl := beq_iff_eq.mp hv
      rcases h with rfl | h
      · exact .inl ⟨[], t, by simp⟩
      · rcases ih h with h | h
        · exact .inl (h.trans ⟨s ++ [v], [], by simp⟩)
        · exact .inr (h.trans ⟨s ++ [v], by simp⟩)

theorem notMem_of_mem_splitOn {s line : List α} (h : line ∈ s.splitOn u) :
  u ∉ line
  := by
  induction s using pieces_induction (p := (· == u)) with
  | piece s hs =>
      rw [List.splitOn_eq_splitOnP, List.splitOnP_eq_singleton hs, List.mem_singleton] at h
      intro hu
      simpa using hs u (h ▸ hu)
  | separated s v t hs hv ih =>
      rw [List.splitOn_eq_splitOnP, List.splitOnP_append_cons_of_forall_mem hs v hv,
        List.mem_cons] at h
      rcases h with rfl | h
      · intro hu
        simpa using hs u hu
      · exact ih h

/-- The last line of a list that ends in another element ends in it. -/
theorem splitOn_concat (hv : v ≠ u) (s : List α) :
  ∃ lines line, (s ++ [v]).splitOn u = lines ++ [line ++ [v]]
  := by
  induction s using pieces_induction (p := (· == u)) with
  | piece s hs =>
      refine ⟨[], s, ?_⟩
      rw [List.splitOn_eq_splitOnP, List.splitOnP_eq_singleton]
      · rfl
      · intro w hw
        rcases List.mem_append.mp hw with hw | hw
        · exact hs w hw
        · rw [List.mem_singleton.mp hw]
          exact beq_false_of_ne hv
  | separated s w t hs hw ih =>
      obtain ⟨lines, line, heq⟩ := ih
      refine ⟨s :: lines, line, ?_⟩
      rw [List.append_assoc, List.cons_append, List.splitOn_eq_splitOnP,
        List.splitOnP_append_cons_of_forall_mem hs w hw, ← List.splitOn_eq_splitOnP, heq]
      rfl

/-- A list whose lines do not end in an element does not have it before a separator or at its
end. -/
theorem not_isInfix_of_lines {s : List α} (hv : v ≠ u)
    (h : ∀ line ∈ s.splitOn u, line.getLast? ≠ some v) :
  ¬ [v, u] <:+: s ∧ s.getLast? ≠ some v
  := by
  constructor
  · rintro ⟨before, after, heq⟩
    have hs : s = before ++ [v] ++ u :: after := by simp [← heq]
    obtain ⟨lines, line, hlines⟩ := splitOn_concat hv before
    apply h (line ++ [v]) _ List.getLast?_concat
    rw [hs, List.splitOn_append_cons_self, hlines]
    simp
  · intro hlast
    obtain ⟨before, rfl⟩ := List.getLast?_eq_some_iff.mp hlast
    obtain ⟨lines, line, hlines⟩ := splitOn_concat hv before
    apply h (line ++ [v]) _ List.getLast?_concat
    rw [hlines]
    simp

/-- Conversely, no line ends in an element that is neither before a separator nor at the end. -/
theorem getLast?_line {s line : List α} (h : ¬ [v, u] <:+: s) (hlast : s.getLast? ≠ some v)
    (hline : line ∈ s.splitOn u) :
  line.getLast? ≠ some v
  := by
  intro hv
  obtain ⟨before, rfl⟩ := List.getLast?_eq_some_iff.mp hv
  rcases mem_splitOn hline with hinside | hsuffix
  · apply h
    exact List.IsInfix.trans ⟨before, [], by simp⟩ hinside
  · obtain ⟨before', rfl⟩ := hsuffix
    apply hlast
    rw [← List.append_assoc, List.getLast?_concat]

end
