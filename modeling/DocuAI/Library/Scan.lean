import Mathlib.Data.List.Basic

/-!
# Scanning lists

Patterns made of literals and of runs of one kind of element, and the places of a list at which a
pattern matches, when it may match at the start of a line only.
-/

namespace Scan

variable {α β : Type*}

/-- What follows a literal the list starts with. -/
def literal [DecidableEq α] : List α → List α → Option (List α)
  | [], s => some s
  | _ :: _, [] => none
  | a :: t, b :: s => if a = b then literal t s else none

@[simp]
theorem literal_append [DecidableEq α] (t s : List α) :
  literal t (t ++ s) = some s
  := by
  induction t with
  | nil => rfl
  | cons a t ih => rw [List.cons_append, literal, if_pos rfl, ih]

/-- The longest run of elements of one kind the list starts with, which is not empty, and what
follows it. -/
def many1 (p : α → Bool) (s : List α) : Option (List α × List α) :=
  if s.takeWhile p = [] then none else some (s.takeWhile p, s.dropWhile p)

theorem takeWhile_append_of_stop {p : α → Bool} {s t : List α} (hs : ∀ a ∈ s, p a = true)
    (ht : ∀ a ∈ t.head?, p a = false) :
  (s ++ t).takeWhile p = s ∧ (s ++ t).dropWhile p = t
  := by
  rw [List.takeWhile_append_of_pos hs, List.dropWhile_append_of_pos hs]
  cases t with
  | nil => simp
  | cons a t =>
      have ha : p a = false := ht a rfl
      simp [ha]

theorem many1_append {p : α → Bool} {s t : List α} (hne : s ≠ []) (hs : ∀ a ∈ s, p a = true)
    (ht : ∀ a ∈ t.head?, p a = false) :
  many1 p (s ++ t) = some (s, t)
  := by
  obtain ⟨htake, hdrop⟩ := takeWhile_append_of_stop hs ht
  rw [many1, htake, hdrop, if_neg hne]

/-- The matches of a pattern at the starts of lines; `start` says that the list begins one. -/
def atLines (isEnd : α → Bool) (pattern : List α → Option β) : Bool → List α → List β
  | _, [] => []
  | start, a :: s =>
      (if start then (pattern (a :: s)).toList else []) ++ atLines isEnd pattern (isEnd a) s

/-- Within a line nothing matches. -/
theorem atLines_append_of_line {isEnd : α → Bool} {pattern : List α → Option β} {line : List α}
    {a : α} (hline : ∀ b ∈ line, isEnd b = false) (ha : isEnd a = true) (s : List α) :
  atLines isEnd pattern false (line ++ a :: s) = atLines isEnd pattern true s
  := by
  induction line with
  | nil => rw [List.nil_append, atLines, ha, if_neg Bool.false_ne_true, List.nil_append]
  | cons b line ih =>
      have hb : isEnd b = false := hline b List.mem_cons_self
      rw [List.cons_append, atLines, hb, if_neg Bool.false_ne_true, List.nil_append]
      exact ih fun c hc => hline c (List.mem_cons_of_mem b hc)

/-- The matches in a text are those of its first line and those of the rest. -/
theorem atLines_line {isEnd : α → Bool} {pattern : List α → Option β} {line : List α} {a : α}
    (hline : ∀ b ∈ line, isEnd b = false) (ha : isEnd a = true) (s : List α) :
  atLines isEnd pattern true (line ++ a :: s)
    = (pattern (line ++ a :: s)).toList ++ atLines isEnd pattern true s
  := by
  cases line with
  | nil => rw [List.nil_append, atLines, ha, if_pos rfl]
  | cons b line =>
      have hb : isEnd b = false := hline b List.mem_cons_self
      rw [List.cons_append, atLines, hb, if_pos rfl,
        atLines_append_of_line (fun c hc => hline c (List.mem_cons_of_mem b hc)) ha]

end Scan
