import DocuAI.Library.Words

/-!
# Strings of ECMAScript

A string is the list of its UTF-16 code units.  The operations are those of the language that the
program uses, under their names there where they have one.
-/

/-- A string of ECMAScript, as its UTF-16 code units. -/
abbrev JsString := List UInt16

/-- Whether a string is in a list of strings. -/
instance JsString.decidableMem (s : JsString) (list : List JsString) : Decidable (s ∈ list) :=
  List.instDecidableMemOfLawfulBEq s list

/-- The string a literal denotes. -/
def js (s : String) : JsString :=
  s.toList.flatMap fun c =>
    if c.toNat < 0x10000 then [UInt16.ofNat c.toNat]
    else
      [UInt16.ofNat (0xD800 + (c.toNat - 0x10000) / 0x400),
        UInt16.ofNat (0xDC00 + (c.toNat - 0x10000) % 0x400)]

/-- A number as the template literals of the program print it. -/
def jsNat (n : ℕ) : JsString :=
  js (toString n)

namespace JsString

/-- The line feed `\n`. -/
def lineFeed : UInt16 := 0x0A

/-- The carriage return `\r`. -/
def carriageReturn : UInt16 := 0x0D

/-- The space character. -/
def space : UInt16 := 0x20

/-- The first of the two code units of a character beyond the basic plane. -/
def isHighSurrogate (u : UInt16) : Bool :=
  0xD800 ≤ u && u ≤ 0xDBFF

/-- The second of the two code units of a character beyond the basic plane. -/
def isLowSurrogate (u : UInt16) : Bool :=
  0xDC00 ≤ u && u ≤ 0xDFFF

/-- `Array.from`: the code points of a string, each as the string of its one or two units.  A
surrogate without its partner is a code point of its own. -/
def codePoints : JsString → List JsString
  | [] => []
  | [u] => [[u]]
  | u :: v :: rest =>
      if isHighSurrogate u && isLowSurrogate v then [u, v] :: codePoints rest
      else [u] :: codePoints (v :: rest)

/-- A string is its code points joined. -/
theorem flatten_codePoints (s : JsString) :
  (codePoints s).flatten = s
  := by
  induction s using codePoints.induct with
  | case1 => rfl
  | case2 u => rfl
  | case3 u v rest hpair ih => simp [codePoints, hpair, ih]
  | case4 u v rest hpair ih => simp [codePoints, hpair, ih]

/-- The first code points of a string, joined, are a string of these code points: no cut brings
two surrogates together that did not belong together. -/
theorem codePoints_flatten_take (s : JsString) (n : ℕ) :
  codePoints ((codePoints s).take n).flatten = (codePoints s).take n
  := by
  induction s using codePoints.induct generalizing n with
  | case1 => simp [codePoints]
  | case2 u =>
      cases n with
      | zero => rfl
      | succ n => simp [codePoints]
  | case3 u v rest hpair ih =>
      cases n with
      | zero => rfl
      | succ n => simp [codePoints, hpair, ih n]
  | case4 u v rest hpair ih =>
      cases n with
      | zero => rfl
      | succ n =>
          rw [codePoints, if_neg hpair, List.take_succ_cons, List.flatten_cons]
          have hrest := ih n
          -- what follows `u` in the cut is empty or begins as what follows it in the string
          cases n with
          | zero => rfl
          | succ n =>
              obtain ⟨c, cs, hc⟩ : ∃ c cs, codePoints (v :: rest) = (v :: c) :: cs := by
                cases rest with
                | nil => exact ⟨[], [], rfl⟩
                | cons w rest =>
                    rw [codePoints]
                    split
                    · exact ⟨[w], _, rfl⟩
                    · exact ⟨[], _, rfl⟩
              rw [hc, List.take_succ_cons, List.flatten_cons] at hrest ⊢
              simp only [List.cons_append, List.nil_append] at hrest ⊢
              rw [codePoints, if_neg hpair, hrest]

/-- Whether every surrogate of a string has its partner, when `high` says that a first one was read
just before. -/
def isWellFormedAfter : Bool → JsString → Bool
  | high, [] => !high
  | true, v :: rest => isLowSurrogate v && isWellFormedAfter false rest
  | false, u :: rest =>
      if isHighSurrogate u then isWellFormedAfter true rest
      else !isLowSurrogate u && isWellFormedAfter false rest

/-- `isWellFormed`: every surrogate has its partner. -/
def isWellFormed (s : JsString) : Bool :=
  isWellFormedAfter false s

/-- A string splits at a character that is no surrogate. -/
theorem isWellFormedAfter_append {u : UInt16} (hhigh : isHighSurrogate u = false)
    (hlow : isLowSurrogate u = false) (high : Bool) (s t : JsString) :
  isWellFormedAfter high (s ++ u :: t) = (isWellFormedAfter high s && isWellFormed t)
  := by
  induction s generalizing high with
  | nil =>
      cases high with
      | false => simp [isWellFormedAfter, isWellFormed, hhigh, hlow]
      | true => simp [isWellFormedAfter, hlow]
  | cons v s ih =>
      cases high with
      | false =>
          simp only [List.cons_append, isWellFormedAfter, ih]
          split
          · rfl
          · rw [Bool.and_assoc]
      | true => simp only [List.cons_append, isWellFormedAfter, ih, Bool.and_assoc]

/-- Removing characters that are no surrogates leaves a string well-formed. -/
theorem isWellFormedAfter_filter {p : UInt16 → Bool}
    (hp : ∀ u, p u = false → isHighSurrogate u = false ∧ isLowSurrogate u = false) (high : Bool)
    (s : JsString) (h : isWellFormedAfter high s = true) :
  isWellFormedAfter high (s.filter p) = true
  := by
  induction s generalizing high with
  | nil => exact h
  | cons u s ih =>
      by_cases hu : p u = true
      · rw [List.filter_cons_of_pos hu]
        cases high with
        | false =>
            simp only [isWellFormedAfter] at h ⊢
            split at h
            · rename_i hhigh
              rw [if_pos hhigh]
              apply ih _ h
            · rename_i hhigh
              rw [if_neg hhigh]
              rw [Bool.and_eq_true] at h ⊢
              exact ⟨h.1, ih _ h.2⟩
        | true =>
            simp only [isWellFormedAfter, Bool.and_eq_true] at h ⊢
            exact ⟨h.1, ih _ h.2⟩
      · obtain ⟨hhigh, hlow⟩ := hp u (Bool.not_eq_true _ ▸ hu)
        rw [List.filter_cons_of_neg hu]
        cases high with
        | false =>
            simp only [isWellFormedAfter, hhigh, hlow] at h
            apply ih _ (by simpa using h)
        | true => simp [isWellFormedAfter, hlow] at h

theorem isWellFormed_append {u : UInt16} (hhigh : isHighSurrogate u = false)
    (hlow : isLowSurrogate u = false) (s t : JsString) :
  isWellFormed (s ++ u :: t) = (isWellFormed s && isWellFormed t)
  := isWellFormedAfter_append hhigh hlow false s t

/-- So does replacing characters that are no surrogates by others that are none. -/
theorem isWellFormedAfter_map {f : UInt16 → UInt16}
    (hf : ∀ u, isHighSurrogate (f u) = isHighSurrogate u ∧ isLowSurrogate (f u) = isLowSurrogate u)
    (high : Bool) (s : JsString) :
  isWellFormedAfter high (s.map f) = isWellFormedAfter high s
  := by
  induction s generalizing high with
  | nil => rfl
  | cons u s ih =>
      cases high with
      | false => simp only [List.map_cons, isWellFormedAfter, (hf u).1, (hf u).2, ih]
      | true => simp only [List.map_cons, isWellFormedAfter, (hf u).2, ih]

/-- Stripping characters that are no surrogates from the start leaves a string well-formed. -/
theorem isWellFormed_dropWhile {p : UInt16 → Bool}
    (hp : ∀ u, p u = true → isHighSurrogate u = false ∧ isLowSurrogate u = false) (s : JsString) :
  isWellFormed (s.dropWhile p) = isWellFormed s
  := by
  induction s with
  | nil => rfl
  | cons u s ih =>
      by_cases hu : p u = true
      · have hcons := isWellFormed_append (hp u hu).1 (hp u hu).2 [] s
        rw [List.dropWhile_cons_of_pos hu, ih]
        simpa [isWellFormed, isWellFormedAfter] using hcons.symm
      · rw [List.dropWhile_cons_of_neg hu]

theorem isWellFormed_rdropWhile {p : UInt16 → Bool}
    (hp : ∀ u, p u = true → isHighSurrogate u = false ∧ isLowSurrogate u = false) (s : JsString) :
  isWellFormed (s.rdropWhile p) = isWellFormed s
  := by
  induction s using List.reverseRecOn with
  | nil => rfl
  | append_singleton s u ih =>
      by_cases hu : p u = true
      · rw [List.rdropWhile_concat_pos _ _ _ hu, ih, isWellFormed_append (hp u hu).1 (hp u hu).2]
        simp [isWellFormed, isWellFormedAfter]
      · rw [List.rdropWhile_concat_neg _ _ _ hu]

/-- The characters `\s` matches and `trim` removes: white space and line terminators. -/
def isWhiteSpace (u : UInt16) : Bool :=
  (0x09 ≤ u && u ≤ 0x0D) || u == 0x20 || u == 0xA0 || u == 0x1680
    || (0x2000 ≤ u && u ≤ 0x200A) || u == 0x2028 || u == 0x2029 || u == 0x202F || u == 0x205F
    || u == 0x3000 || u == 0xFEFF

/-- `trim`: the string without the white space at its ends. -/
def trim (s : JsString) : JsString :=
  (s.dropWhile isWhiteSpace).rdropWhile isWhiteSpace

/-- A string that has no white space at its ends is trimmed. -/
theorem trim_eq_self {s : JsString} (hhead : ∀ u ∈ s.head?, isWhiteSpace u = false)
    (hlast : ∀ u ∈ s.getLast?, isWhiteSpace u = false) :
  trim s = s
  := by
  have hdrop : s.dropWhile isWhiteSpace = s := by
    cases s with
    | nil => rfl
    | cons u rest => simp [hhead u rfl]
  rw [trim, hdrop, rdropWhile_eq_self hlast]

/-- `startsWith`. -/
def startsWith (s t : JsString) : Bool :=
  t.isPrefixOf s

/-- `lastIndexOf` of one character, `none` where the language answers `-1`. -/
def lastIndexOf (s : JsString) (u : UInt16) : Option ℕ :=
  if u ∈ s then some (s.length - 1 - s.reverse.idxOf u) else none

/-- A string up to the last occurrence of a character and after it. -/
theorem exists_last_of_mem {s : JsString} {u : UInt16} (h : u ∈ s) :
  ∃ before after, s = before ++ u :: after ∧ u ∉ after
  := by
  obtain ⟨after, before, hs, hafter⟩ := List.eq_append_cons_of_mem (List.mem_reverse.mpr h)
  refine ⟨before.reverse, after.reverse, ?_, by simpa using hafter⟩
  rw [← List.reverse_reverse s, hs]
  simp

theorem lastIndexOf_append {before after : JsString} {u : UInt16} (h : u ∉ after) :
  lastIndexOf (before ++ u :: after) u = some before.length
  := by
  have hidx : (before ++ u :: after).reverse.idxOf u = after.length := by
    rw [List.reverse_append, List.reverse_cons, List.append_assoc,
      List.idxOf_append_of_notMem (by simpa using h)]
    simp
  rw [lastIndexOf, if_pos (by simp), hidx]
  congr 1
  simp only [List.length_append, List.length_cons]
  omega

theorem lastIndexOf_of_not_mem {s : JsString} {u : UInt16} (h : u ∉ s) :
  lastIndexOf s u = none
  := if_neg h

/-- `slice(0, n)`. -/
def truncate (s : JsString) (n : ℕ) : JsString :=
  s.take n

/-- `split` at every occurrence of one character. -/
def split (s : JsString) (u : UInt16) : List JsString :=
  s.splitOn u

/-- `join` with one character. -/
def join (parts : List JsString) (u : UInt16) : JsString :=
  [u].intercalate parts

/-! ### URI components -/

/-- The bytes of a code point in UTF-8. -/
def utf8 (n : ℕ) : List ℕ :=
  if n < 0x80 then [n]
  else if n < 0x800 then [0xC0 + n / 0x40, 0x80 + n % 0x40]
  else if n < 0x10000 then [0xE0 + n / 0x1000, 0x80 + n / 0x40 % 0x40, 0x80 + n % 0x40]
  else [0xF0 + n / 0x40000, 0x80 + n / 0x1000 % 0x40, 0x80 + n / 0x40 % 0x40, 0x80 + n % 0x40]

/-- A byte as `%` and two hexadecimal digits in upper case. -/
def percentEncode (byte : ℕ) : JsString :=
  let digit (n : ℕ) : UInt16 := UInt16.ofNat (if n < 10 then 0x30 + n else 0x37 + n)
  [0x25, digit (byte / 0x10), digit (byte % 0x10)]

/-- The characters `encodeURIComponent` keeps: letters, digits and ``-_.!~*'()``. -/
def isUnescaped (u : UInt16) : Bool :=
  (0x30 ≤ u && u ≤ 0x39) || (0x41 ≤ u && u ≤ 0x5A) || (0x61 ≤ u && u ≤ 0x7A)
    || (js "-_.!~*'()").contains u

/-- `encodeURIComponent`, which throws on a surrogate without its partner. -/
def encodeURIComponent (s : JsString) : Option JsString := do
  let parts ← (codePoints s).mapM fun
    | [u] =>
        if isHighSurrogate u || isLowSurrogate u then none
        else if isUnescaped u then some [u]
        else some ((utf8 u.toNat).flatMap percentEncode)
    | [u, v] =>
        some ((utf8 (0x10000 + (u.toNat - 0xD800) * 0x400 + (v.toNat - 0xDC00))).flatMap
          percentEncode)
    | _ => none
  some parts.flatten

end JsString
