import DocuAI.Ocr.Text

/-!
# The normal form of extracted text

What the passes of `normalizeExtractedText` establish, each together with what it leaves of the
passes before it, and when the text is still in NFC at the end of them.
-/

namespace DocuAI

open JsString

/-! ### The passes -/

/-- The text when line endings are unified and controls removed. -/
def stripControls (text : JsString) : JsString :=
  (unifyLineEndings text).filter fun u => !isControl u

/-- The text when trailing white space is stripped from its lines. -/
def stripLines (text : JsString) : JsString :=
  join ((split text lineFeed).map fun line => line.rdropWhile isTrailing) lineFeed

theorem normalizeExtractedText_eq (unicode : Unicode) (raw : JsString) :
  normalizeExtractedText unicode raw
    = trim (collapseBlankLines 0 (stripLines (stripControls (unicode.nfc raw))))
  := rfl

section

variable {text : JsString} {u : UInt16}

theorem carriageReturn_notMem_unifyLineEndings (text : JsString) :
  carriageReturn ∉ unifyLineEndings text
  := by
  have hne : carriageReturn ≠ lineFeed := by decide
  induction text using unifyLineEndings.induct with
  | case1 => simp [unifyLineEndings]
  | case2 => simp [unifyLineEndings, hne]
  | case3 u hu => simp [unifyLineEndings, hu, Ne.symm hu]
  | case4 rest ih => simp [unifyLineEndings, hne, ih]
  | case5 v rest hv ih => simp [unifyLineEndings, hv, hne, ih]
  | case6 u v rest hu ih => simp [unifyLineEndings, hu, Ne.symm hu, ih]

theorem mem_unifyLineEndings (h : u ∈ unifyLineEndings text) :
  u ∈ text ∨ u = lineFeed
  := by
  induction text using unifyLineEndings.induct with
  | case1 => simp [unifyLineEndings] at h
  | case2 => exact .inr (by simpa [unifyLineEndings] using h)
  | case3 v hv => exact .inl (by simpa [unifyLineEndings, hv] using h)
  | case4 rest ih =>
      simp only [unifyLineEndings, if_true, List.mem_cons] at h ⊢
      grind
  | case5 v rest hv ih =>
      simp only [unifyLineEndings, if_true, if_neg hv, List.mem_cons] at h ih ⊢
      grind
  | case6 v w rest hv ih =>
      simp only [unifyLineEndings, if_neg hv, List.mem_cons] at h ih ⊢
      grind

theorem mem_stripControls (h : u ∈ stripControls text) :
  (u ∈ text ∨ u = lineFeed) ∧ isControl u = false ∧ u ≠ carriageReturn
  := by
  rw [stripControls, List.mem_filter] at h
  refine ⟨mem_unifyLineEndings h.1, by simpa using h.2, ?_⟩
  rintro rfl
  exact carriageReturn_notMem_unifyLineEndings text h.1

theorem join_split (text : JsString) (sep : UInt16) :
  join (split text sep) sep = text
  := List.intercalate_splitOn sep

theorem mem_of_mem_split {line : JsString} {sep : UInt16} (hline : line ∈ split text sep)
    (h : u ∈ line) :
  u ∈ text
  := by
  rcases mem_splitOn hline with hinside | hsuffix
  · exact hinside.subset (List.mem_append_left [sep] h)
  · exact hsuffix.subset h

theorem mem_stripLines (h : u ∈ stripLines text) :
  u ∈ text ∨ u = lineFeed
  := by
  rcases mem_intercalate h with h | ⟨line, hline, h⟩
  · exact .inr h
  · obtain ⟨line', hline', rfl⟩ := List.mem_map.mp hline
    exact .inl (mem_of_mem_split hline' ((List.rdropWhile_prefix isTrailing _).subset h))

/-- The lines of the stripped text are the stripped lines. -/
theorem split_stripLines (text : JsString) :
  split (stripLines text) lineFeed
    = (split text lineFeed).map fun line => line.rdropWhile isTrailing
  := by
  rw [split, stripLines, join, List.splitOn_intercalate]
  · intro line hline hmem
    obtain ⟨line', hline', rfl⟩ := List.mem_map.mp hline
    exact notMem_of_mem_splitOn hline' ((List.rdropWhile_prefix isTrailing _).subset hmem)
  · simp [split]

theorem mem_collapseBlankLines {newlines : ℕ} (h : u ∈ collapseBlankLines newlines text) :
  u ∈ text
  := by
  induction newlines, text using collapseBlankLines.induct with
  | case1 => simp [collapseBlankLines] at h
  | case2 newlines rest hlt ih =>
      simp only [collapseBlankLines, if_true, if_pos hlt, List.mem_cons] at h ⊢
      exact h.imp_right ih
  | case3 newlines rest hlt ih =>
      simp only [collapseBlankLines, if_true, if_neg hlt] at h
      exact List.mem_cons_of_mem _ (ih h)
  | case4 newlines v rest hv ih =>
      simp only [collapseBlankLines, if_neg hv, List.mem_cons] at h ⊢
      exact h.imp_right ih

/-- Collapsing keeps the first character when no line feed was kept before it. -/
theorem head?_collapseBlankLines (text : JsString) :
  (collapseBlankLines 0 text).head? = text.head?
  := by
  cases text with
  | nil => rfl
  | cons u rest =>
      rw [collapseBlankLines]
      split
      · rfl
      · rfl

/-- Collapsing brings nothing before a line feed that was not before one. -/
theorem isInfix_of_collapseBlankLines {newlines : ℕ} (hu : u ≠ lineFeed)
    (h : [u, lineFeed] <:+: collapseBlankLines newlines text) :
  [u, lineFeed] <:+: text
  := by
  induction newlines, text using collapseBlankLines.induct with
  | case1 => exact h
  | case2 newlines rest hlt ih =>
      simp only [collapseBlankLines, if_true, if_pos hlt, List.infix_cons_iff,
        List.cons_prefix_cons, hu, false_and, false_or] at h
      exact (ih h).trans (List.suffix_cons _ _).isInfix
  | case3 newlines rest hlt ih =>
      simp only [collapseBlankLines, if_true, if_neg hlt] at h
      exact (ih h).trans (List.suffix_cons _ _).isInfix
  | case4 newlines v rest hv ih =>
      simp only [collapseBlankLines, if_neg hv, List.infix_cons_iff, List.cons_prefix_cons] at h ⊢
      rcases h with ⟨huv, hprefix⟩ | hinside
      · left
        refine ⟨huv, ?_⟩
        have hhead := head?_collapseBlankLines rest
        obtain ⟨after, hafter⟩ := hprefix
        rw [← hafter] at hhead
        obtain ⟨after', hrest⟩ := List.head?_eq_some_iff.mp hhead.symm
        exact ⟨after', hrest.symm⟩
      · exact .inr (ih hinside)

/-- After `newlines` line feeds, collapsing leaves no three line feeds together. -/
theorem blank_collapseBlankLines {newlines : ℕ} (h : newlines ≤ 2) :
  ¬ [lineFeed, lineFeed, lineFeed]
    <:+: List.replicate newlines lineFeed ++ collapseBlankLines newlines text
  := by
  induction newlines, text using collapseBlankLines.induct with
  | case1 newlines =>
      intro hinside
      have hlength := hinside.length_le
      simp [collapseBlankLines] at hlength
      omega
  | case2 newlines rest hlt ih =>
      have happend : List.replicate newlines lineFeed ++ lineFeed
          :: collapseBlankLines (newlines + 1) rest
          = List.replicate (newlines + 1) lineFeed ++ collapseBlankLines (newlines + 1) rest := by
        rw [List.replicate_succ', List.append_assoc, List.singleton_append]
      simp only [collapseBlankLines, if_true, if_pos hlt, happend]
      exact ih hlt
  | case3 newlines rest hlt ih =>
      simp only [collapseBlankLines, if_true, if_neg hlt]
      exact ih h
  | case4 newlines v rest hv ih =>
      simp only [collapseBlankLines, if_neg hv]
      intro hinside
      rcases isInfix_append_cons (by simpa using hv) hinside with hinside | hinside
      · have hlength := hinside.length_le
        simp at hlength
        omega
      · exact ih (Nat.zero_le 2) (by simpa using hinside)

theorem trim_isInfix (s : JsString) :
  trim s <:+: s
  := (List.rdropWhile_prefix isWhiteSpace _).isInfix.trans
    (List.dropWhile_suffix isWhiteSpace).isInfix

theorem getLast?_trim {s : JsString} (h : (trim s).getLast? = some u) :
  isWhiteSpace u = false
  := getLast?_rdropWhile h

theorem head?_trim {s : JsString} (h : (trim s).head? = some u) :
  isWhiteSpace u = false
  := by
  have hhead : (s.dropWhile isWhiteSpace).head? = some u := by
    obtain ⟨rest, hrest⟩ := List.head?_eq_some_iff.mp h
    obtain ⟨after, hafter⟩ := List.rdropWhile_prefix isWhiteSpace (s.dropWhile isWhiteSpace)
    rw [← hafter, ← trim, hrest]
    rfl
  have hnot := List.head?_dropWhile_not isWhiteSpace s
  rw [hhead] at hnot
  simpa using hnot

end

/-! ### The shape of the result -/

theorem unifyLineEndings_eq_self {text : JsString} (h : carriageReturn ∉ text) :
  unifyLineEndings text = text
  := by
  induction text using unifyLineEndings.induct with
  | case1 => rfl
  | case2 => simp at h
  | case3 u hu => simp [unifyLineEndings, hu]
  | case4 rest ih => simp at h
  | case5 v rest hv ih => simp at h
  | case6 u v rest hu ih =>
      rw [unifyLineEndings, if_neg hu, ih]
      exact fun hmem => h (List.mem_cons_of_mem u hmem)

theorem collapseBlankLines_eq_self {newlines : ℕ} {text : JsString} (hle : newlines ≤ 2)
    (h : ¬ [lineFeed, lineFeed, lineFeed] <:+: List.replicate newlines lineFeed ++ text) :
  collapseBlankLines newlines text = text
  := by
  induction newlines, text using collapseBlankLines.induct with
  | case1 => rfl
  | case2 newlines rest hlt ih =>
      rw [collapseBlankLines, if_pos rfl, if_pos hlt, ih hlt]
      rwa [List.replicate_succ', List.append_assoc, List.singleton_append]
  | case3 newlines rest hlt ih =>
      obtain rfl : newlines = 2 := by omega
      exact absurd ⟨[], rest, rfl⟩ h
  | case4 newlines v rest hv ih =>
      rw [collapseBlankLines, if_neg hv, ih (Nat.zero_le 2)]
      intro hinside
      apply h
      exact hinside.trans ⟨List.replicate newlines lineFeed ++ [v], [], by simp⟩

/-- The shape of normalised text: no controls but tabs and line feeds, no white space at the end of
a line, at most one blank line at a time, and no white space at the ends. -/
structure IsNormalText (text : JsString) : Prop where
  control : ∀ u ∈ text, u ≠ carriageReturn ∧ (u < 0x20 → u = 0x09 ∨ u = lineFeed) ∧ u ≠ 0x7F
  line : ∀ line ∈ split text lineFeed, ∀ u ∈ line.getLast?, u ≠ space ∧ u ≠ 0x09 ∧ u ≠ 0xA0
  blank : ¬ [lineFeed, lineFeed, lineFeed] <:+: text
  head : ∀ u ∈ text.head?, isWhiteSpace u = false
  last : ∀ u ∈ text.getLast?, isWhiteSpace u = false

/-- The controls that are removed are those that the shape excludes. -/
theorem isControl_eq_false_iff (u : UInt16) :
  isControl u = false ∧ u ≠ carriageReturn
    ↔ u ≠ carriageReturn ∧ (u < 0x20 → u = 0x09 ∨ u = lineFeed) ∧ u ≠ 0x7F
  := by
  simp only [isControl, carriageReturn, lineFeed, Bool.or_eq_false_iff, Bool.and_eq_false_iff,
    decide_eq_false_iff_not, beq_eq_false_iff_ne, ne_eq, ← UInt16.toNat_inj, UInt16.lt_iff_toNat_lt,
    UInt16.le_iff_toNat_le, UInt16.reduceToNat]
  omega

theorem isTrailing_eq_false_iff (u : UInt16) :
  isTrailing u = false ↔ u ≠ space ∧ u ≠ 0x09 ∧ u ≠ 0xA0
  := by simp [isTrailing, space, and_assoc]

theorem isTrailing_le_isWhiteSpace {u : UInt16} (h : isTrailing u = true) :
  isWhiteSpace u = true
  := by
  simp only [isTrailing, Bool.or_eq_true, beq_iff_eq] at h
  rcases h with (rfl | rfl) | rfl
  all_goals decide

/-- Normalised text has the shape, whatever NFC does. -/
theorem isNormalText_normalizeExtractedText (unicode : Unicode) (raw : JsString) :
  IsNormalText (normalizeExtractedText unicode raw)
  := by
  let stripped := stripLines (stripControls (unicode.nfc raw))
  have hinside : normalizeExtractedText unicode raw <:+: collapseBlankLines 0 stripped :=
    trim_isInfix _
  have hlast {u : UInt16} (hu : (normalizeExtractedText unicode raw).getLast? = some u) :
      isWhiteSpace u = false :=
    getLast?_trim hu
  constructor
  case control =>
    intro u hu
    rw [← isControl_eq_false_iff]
    rcases mem_stripLines (mem_collapseBlankLines (hinside.subset hu)) with hu | rfl
    · exact (mem_stripControls hu).2
    · decide
  case line =>
    intro line hline u hu
    rw [← isTrailing_eq_false_iff]
    by_contra htrailing
    have hne : u ≠ lineFeed := by
      rintro rfl
      exact htrailing (by decide)
    rw [Bool.not_eq_false] at htrailing
    have hlines : ∀ line ∈ split stripped lineFeed, line.getLast? ≠ some u := by
      intro line hline hlast
      rw [split_stripLines] at hline
      obtain ⟨line', -, rfl⟩ := List.mem_map.mp hline
      exact absurd (getLast?_rdropWhile hlast) (by simp [htrailing])
    refine getLast?_line ?_ ?_ hline hu
    · intro h
      apply (not_isInfix_of_lines hne hlines).1
      exact isInfix_of_collapseBlankLines hne (h.trans hinside)
    · intro h
      simpa [isTrailing_le_isWhiteSpace htrailing] using hlast h
  case blank =>
    intro h
    exact blank_collapseBlankLines (Nat.zero_le 2) (h.trans hinside)
  case head => exact fun u hu => head?_trim hu
  case last => exact fun u hu => hlast hu

/-- The documented shape of normalised text, whatever NFC does. -/
theorem normalizeExtractedText_shape (unicode : Unicode) (raw : JsString) :
  let text := normalizeExtractedText unicode raw
  carriageReturn ∉ text
    ∧ (∀ u ∈ text, u < 0x20 → u = 0x09 ∨ u = lineFeed)
    ∧ 0x7F ∉ text
    ∧ (∀ line ∈ split text lineFeed, ∀ u ∈ line.getLast?, u ≠ space ∧ u ≠ 0x09 ∧ u ≠ 0xA0)
    ∧ ¬ [lineFeed, lineFeed, lineFeed] <:+: text
    ∧ (∀ u ∈ text.head?, isWhiteSpace u = false)
    ∧ ∀ u ∈ text.getLast?, isWhiteSpace u = false
  := by
  intro text
  have h := isNormalText_normalizeExtractedText unicode raw
  refine ⟨?_, fun u hu => (h.control u hu).2.1, ?_, h.line, h.blank, h.head, h.last⟩
  · exact fun hmem => (h.control _ hmem).1 rfl
  · exact fun hmem => (h.control _ hmem).2.2 rfl

/-- Text of the shape passes as it is. -/
theorem IsNormalText.passes_eq {text : JsString} (h : IsNormalText text) :
  trim (collapseBlankLines 0 (stripLines (stripControls text))) = text
  := by
  have hcontrol (u : UInt16) (hu : u ∈ text) : isControl u = false ∧ u ≠ carriageReturn :=
    (isControl_eq_false_iff u).mpr (h.control u hu)
  have hstrip : stripControls text = text := by
    rw [stripControls, unifyLineEndings_eq_self fun hmem => (hcontrol _ hmem).2 rfl,
      List.filter_eq_self]
    intro u hu
    simp [(hcontrol u hu).1]
  have hlines : stripLines text = text := by
    have hmap : (split text lineFeed).map (fun line => line.rdropWhile isTrailing)
        = split text lineFeed := by
      conv_rhs => rw [← List.map_id (split text lineFeed)]
      apply List.map_congr_left
      intro line hline
      apply rdropWhile_eq_self
      intro u hu
      exact (isTrailing_eq_false_iff u).mpr (h.line line hline u hu)
    rw [stripLines, hmap, join_split]
  rw [hstrip, hlines, collapseBlankLines_eq_self (Nat.zero_le 2) h.blank,
    trim_eq_self h.head h.last]

/-! ### NFC -/

/-- The characters that NFC leaves alone and that nothing combines with: the controls that are
removed, and white space but the two spaces that NFC replaces by others. -/
def isInert (u : UInt16) : Bool :=
  isControl u || (isWhiteSpace u && u != 0x2000 && u != 0x2001)

/-- What Unicode says of NFC: it is a normal form that depends on the parts of a text up to
canonical equivalence only and is inherited by them, and it treats the text on both sides of an
inert character by itself. -/
structure LawfulNfc (nfc : JsString → JsString) : Prop where
  nfc_nfc : ∀ s, nfc (nfc s) = nfc s
  nfc_append : ∀ s t, nfc (nfc s ++ nfc t) = nfc (s ++ t)
  of_append : ∀ s t, nfc (s ++ t) = s ++ t → nfc s = s ∧ nfc t = t
  inert : ∀ s u t, isInert u = true → nfc (s ++ u :: t) = nfc s ++ u :: nfc t
  control : ∀ s, ∀ u ∈ nfc s, isControl u = true → u ∈ s
  quad : ∀ s, 0x2000 ∉ nfc s ∧ 0x2001 ∉ nfc s

/-- The stretches of a text between the controls that are removed from it. -/
def stretches (text : JsString) : List JsString :=
  text.splitOnP isControl

section

variable {nfc : JsString → JsString} (h : LawfulNfc nfc)
include h

theorem LawfulNfc.nil :
  nfc [] = []
  := (h.of_append [] (nfc []) (h.nfc_nfc [])).1

/-- A text is in NFC when all its words are. -/
theorem LawfulNfc.nfc_eq_self_iff {s : JsString} (hquad : 0x2000 ∉ s ∧ 0x2001 ∉ s) :
  nfc s = s ↔ ∀ word ∈ words isWhiteSpace s, nfc word = word
  := by
  constructor
  · intro hs word hword
    obtain ⟨before, after, rfl⟩ := isInfix_of_mem_words hword
    exact (h.of_append _ _ (h.of_append _ _ hs).1).2
  · intro hwords
    have hpiece (s : JsString) (hs : ∀ u ∈ s, isWhiteSpace u = false)
        (hwords : ∀ word ∈ words isWhiteSpace s, nfc word = word) : nfc s = s := by
      by_cases hne : s = []
      · rw [hne, h.nil]
      · apply hwords
        rw [words_eq_singleton hne hs]
        exact List.mem_cons_self
    induction s using pieces_induction (p := isWhiteSpace) with
    | piece s hs => exact hpiece s hs hwords
    | separated s u t hs hu ih =>
        simp only [List.mem_append, List.mem_cons, not_or] at hquad
        rw [words_append_cons hu] at hwords
        have hinert : isInert u = true := by
          simp [isInert, hu, Ne.symm hquad.1.2.1, Ne.symm hquad.2.2.1]
        rw [h.inert s u t hinert, hpiece s hs, ih ⟨hquad.1.2.2, hquad.2.2.2⟩]
        · exact fun word hword => hwords word (List.mem_append_right _ hword)
        · exact fun word hword => hwords word (List.mem_append_left _ hword)

/-- NFC of the stretches, put together, is NFC of the whole text without its controls, up to the
places where they meet. -/
theorem LawfulNfc.nfc_stretches (s : JsString) :
  nfc ((stretches s).flatMap nfc) = nfc (s.filter fun u => !isControl u)
  := by
  induction s using pieces_induction (p := isControl) with
  | piece s hs =>
      have hfilter : s.filter (fun u => !isControl u) = s :=
        List.filter_eq_self.mpr fun u hu => by simp [hs u hu]
      rw [stretches, List.splitOnP_eq_singleton hs, hfilter, List.flatMap_singleton, h.nfc_nfc]
  | separated s u t hs hu ih =>
      have hfilter : s.filter (fun u => !isControl u) = s :=
        List.filter_eq_self.mpr fun u hu => by simp [hs u hu]
      rw [stretches, List.splitOnP_append_cons_of_forall_mem hs u hu, List.flatMap_cons,
        ← stretches, List.filter_append, hfilter, List.filter_cons_of_neg (by simp [hu]),
        ← h.nfc_append, h.nfc_nfc, ih, h.nfc_append]

/-- The controls separate what NFC makes of the stretches. -/
theorem LawfulNfc.filter_nfc (s : JsString) :
  (nfc s).filter (fun u => !isControl u) = (stretches s).flatMap nfc
  := by
  have hpiece (s : JsString) (hs : ∀ u ∈ s, isControl u = false) :
      (nfc s).filter (fun u => !isControl u) = nfc s := by
    rw [List.filter_eq_self]
    intro u hu
    by_contra hcontrol
    have hu' := h.control s u hu (by simpa using hcontrol)
    simp [hs u hu'] at hcontrol
  induction s using pieces_induction (p := isControl) with
  | piece s hs =>
      rw [stretches, List.splitOnP_eq_singleton hs, List.flatMap_singleton, hpiece s hs]
  | separated s u t hs hu ih =>
      rw [stretches, List.splitOnP_append_cons_of_forall_mem hs u hu, List.flatMap_cons,
        ← stretches, h.inert s u t (by simp [isInert, hu]), List.filter_append, hpiece s hs,
        List.filter_cons_of_neg (by simp [hu]), ih]

end

/-! ### The words of the result -/

section

variable {text : JsString}

/-- Unified line endings and removed controls leave the words that removing the controls alone
leaves: before the rest of the text stand whole words, or the beginning of one. -/
theorem words_stripControls (before text : JsString) :
  words isWhiteSpace (before ++ stripControls text)
    = words isWhiteSpace (before ++ text.filter fun u => !isControl u)
  := by
  have hreturn : isWhiteSpace carriageReturn = true := by decide
  have hfeed : isWhiteSpace lineFeed = true := by decide
  have hkeep : isControl carriageReturn = false ∧ isControl lineFeed = false := by decide
  unfold stripControls
  induction text using unifyLineEndings.induct generalizing before with
  | case1 => rfl
  | case2 =>
      simp only [unifyLineEndings, if_true]
      rw [List.filter_cons_of_pos (by simp [hkeep]), List.filter_cons_of_pos (by simp [hkeep]),
        words_append_cons hfeed, words_append_cons hreturn]
  | case3 u hu => simp only [unifyLineEndings, if_neg hu]
  | case4 rest ih =>
      simp only [unifyLineEndings, if_true]
      rw [List.filter_cons_of_pos (by simp [hkeep]), List.filter_cons_of_pos (by simp [hkeep]),
        List.filter_cons_of_pos (by simp [hkeep]), words_append_cons hfeed,
        words_append_cons hreturn, words_cons hfeed]
      exact congrArg _ (ih [])
  | case5 v rest hv ih =>
      simp only [unifyLineEndings, if_true, if_neg hv]
      rw [List.filter_cons_of_pos (by simp [hkeep]), List.filter_cons_of_pos (by simp [hkeep]),
        words_append_cons hfeed, words_append_cons hreturn]
      exact congrArg _ (ih [])
  | case6 u v rest hu ih =>
      simp only [unifyLineEndings, if_neg hu]
      by_cases hcontrol : isControl u = true
      · rw [List.filter_cons_of_neg (by simp [hcontrol]),
          List.filter_cons_of_neg (by simp [hcontrol])]
        exact ih before
      · rw [List.filter_cons_of_pos (by simp [hcontrol]),
          List.filter_cons_of_pos (by simp [hcontrol]), ← List.singleton_append,
          ← List.singleton_append (l := List.filter _ (v :: rest)), ← List.append_assoc,
          ← List.append_assoc]
        exact ih (before ++ [u])

theorem words_stripLines (text : JsString) :
  words isWhiteSpace (stripLines text) = words isWhiteSpace text
  := by
  have hfeed : isWhiteSpace lineFeed = true := by decide
  conv_rhs => rw [← join_split text lineFeed]
  rw [stripLines, join, join, words_intercalate hfeed, words_intercalate hfeed, List.flatMap_map]
  apply List.flatMap_congr
  intro line _
  exact words_rdropWhile fun u _ hu => isTrailing_le_isWhiteSpace hu

/-- Collapsing removes line feeds after line feeds only. -/
theorem words_collapseBlankLines (newlines : ℕ) (before text : JsString)
    (h : 0 < newlines → ∃ line, before = line ++ [lineFeed]) :
  words isWhiteSpace (before ++ collapseBlankLines newlines text)
    = words isWhiteSpace (before ++ text)
  := by
  have hfeed : isWhiteSpace lineFeed = true := by decide
  induction newlines, text using collapseBlankLines.induct generalizing before with
  | case1 => rfl
  | case2 newlines rest hlt ih =>
      have hkept := ih (before ++ [lineFeed]) fun _ => ⟨before, rfl⟩
      simpa only [collapseBlankLines, if_true, if_pos hlt, List.append_assoc,
        List.singleton_append] using hkept
  | case3 newlines rest hlt ih =>
      obtain ⟨line, rfl⟩ := h (by omega)
      rw [collapseBlankLines, if_pos rfl, if_neg hlt, ih _ h, words_append_cons hfeed,
        List.append_assoc, List.singleton_append, words_append_cons hfeed, words_concat hfeed]
  | case4 newlines v rest hv ih =>
      have hkept := ih (before ++ [v]) fun hpos => absurd hpos (Nat.lt_irrefl 0)
      simpa only [collapseBlankLines, if_neg hv, List.append_assoc, List.singleton_append]
        using hkept

theorem words_trim (text : JsString) :
  words isWhiteSpace (trim text) = words isWhiteSpace text
  := by
  rw [trim, words_rdropWhile fun u _ hu => hu, words_dropWhile fun u _ hu => hu]

/-- The words of the result are those of the composed text without its controls. -/
theorem words_normalizeExtractedText (unicode : Unicode) (raw : JsString) :
  words isWhiteSpace (normalizeExtractedText unicode raw)
    = words isWhiteSpace ((unicode.nfc raw).filter fun u => !isControl u)
  := by
  rw [normalizeExtractedText_eq, words_trim]
  refine (words_collapseBlankLines 0 [] _ fun h => absurd h (Nat.lt_irrefl 0)).trans ?_
  rw [List.nil_append, words_stripLines]
  exact words_stripControls [] (unicode.nfc raw)

/-- The result has no character that the composed text does not have, but for line feeds. -/
theorem mem_normalizeExtractedText {unicode : Unicode} {raw : JsString} {u : UInt16}
    (h : u ∈ normalizeExtractedText unicode raw) :
  u ∈ unicode.nfc raw ∨ u = lineFeed
  := by
  rw [normalizeExtractedText_eq] at h
  rcases mem_stripLines (mem_collapseBlankLines ((trim_isInfix _).subset h)) with h | h
  · exact (mem_stripControls h).1
  · exact .inr h

/-- The result is in NFC, and stays what it is, just when the text around the removed controls
composes as if they were not there. -/
theorem normalizeExtractedText_stable_iff (unicode : Unicode) (hnfc : LawfulNfc unicode.nfc)
    (raw : JsString) :
  (unicode.nfc (normalizeExtractedText unicode raw) = normalizeExtractedText unicode raw
    ∧ normalizeExtractedText unicode (normalizeExtractedText unicode raw)
      = normalizeExtractedText unicode raw)
    ↔ unicode.nfc (raw.filter fun u => !isControl u) = (stretches raw).flatMap unicode.nfc
  := by
  have hstays (hresult : unicode.nfc (normalizeExtractedText unicode raw)
      = normalizeExtractedText unicode raw) :
      normalizeExtractedText unicode (normalizeExtractedText unicode raw)
        = normalizeExtractedText unicode raw := by
    conv_lhs => rw [normalizeExtractedText_eq, hresult]
    exact (isNormalText_normalizeExtractedText unicode raw).passes_eq
  have hquad : 0x2000 ∉ normalizeExtractedText unicode raw
      ∧ 0x2001 ∉ normalizeExtractedText unicode raw := by
    constructor
    · intro hmem
      rcases mem_normalizeExtractedText hmem with hmem | heq
      · exact (hnfc.quad raw).1 hmem
      · exact absurd heq (by decide)
    · intro hmem
      rcases mem_normalizeExtractedText hmem with hmem | heq
      · exact (hnfc.quad raw).2 hmem
      · exact absurd heq (by decide)
  have hkept : 0x2000 ∉ (unicode.nfc raw).filter (fun u => !isControl u)
      ∧ 0x2001 ∉ (unicode.nfc raw).filter (fun u => !isControl u) :=
    ⟨fun hmem => (hnfc.quad raw).1 (List.mem_filter.mp hmem).1,
      fun hmem => (hnfc.quad raw).2 (List.mem_filter.mp hmem).1⟩
  calc
    _ ↔ unicode.nfc (normalizeExtractedText unicode raw) = normalizeExtractedText unicode raw :=
      ⟨fun h => h.1, fun h => ⟨h, hstays h⟩⟩
    _ ↔ unicode.nfc ((unicode.nfc raw).filter fun u => !isControl u)
        = (unicode.nfc raw).filter fun u => !isControl u := by
      rw [hnfc.nfc_eq_self_iff hquad, hnfc.nfc_eq_self_iff hkept, words_normalizeExtractedText]
    _ ↔ _ := by rw [hnfc.filter_nfc, hnfc.nfc_stretches]

end

/-! ### An accent behind a control -/

/-- The spaces that NFC replaces the two quads by. -/
def quadSpace (u : UInt16) : UInt16 :=
  if u = 0x2000 then 0x2002 else if u = 0x2001 then 0x2003 else u

/-- A character before text that is composed already. -/
def acuteStep (u : UInt16) (composed : JsString) : JsString :=
  if u = 0x65 ∧ composed.head? = some 0x301 then 0xE9 :: composed.tail
  else quadSpace u :: composed

/-- NFC as far as the letter `e` with an acute accent and the two quads need it. -/
def composeAcute (text : JsString) : JsString :=
  text.foldr acuteStep []

theorem acuteStep_quadSpace (u : UInt16) (composed : JsString) :
  acuteStep (quadSpace u) composed = acuteStep u composed
  := by
  unfold quadSpace
  split
  · rename_i hu
    simp [hu, acuteStep, quadSpace]
  · split
    · rename_i hu
      simp [hu, acuteStep, quadSpace]
    · rfl

theorem foldr_acuteStep (s t : JsString) :
  (composeAcute s).foldr acuteStep t = s.foldr acuteStep t
  := by
  have hstep (u : UInt16) (composed : JsString) :
      (acuteStep u composed).foldr acuteStep t = acuteStep u (composed.foldr acuteStep t) := by
    by_cases hcompose : u = 0x65 ∧ composed.head? = some 0x301
    · obtain ⟨rest, rfl⟩ := List.head?_eq_some_iff.mp hcompose.2
      simp [acuteStep, quadSpace, hcompose.1]
    · rw [acuteStep, if_neg hcompose, List.foldr_cons, acuteStep_quadSpace]
  induction s with
  | nil => rfl
  | cons u s ih => rw [composeAcute, List.foldr_cons, ← composeAcute, hstep, ih, List.foldr_cons]

theorem composeAcute_append (s t : JsString) :
  composeAcute (s ++ t) = s.foldr acuteStep (composeAcute t)
  := List.foldr_append

/-- Text that begins with a character it was given is composed as it is. -/
theorem acuteStep_eq_cons {u : UInt16} {s t : JsString} (h : acuteStep u s = u :: t) :
  s = t ∧ ¬ (u = 0x65 ∧ s.head? = some 0x301) ∧ quadSpace u = u
  := by
  unfold acuteStep at h
  split at h
  · rename_i hcompose
    rw [hcompose.1] at h
    exact absurd (List.cons.inj h).1 (by decide)
  · rename_i hcompose
    exact ⟨(List.cons.inj h).2, hcompose, (List.cons.inj h).1⟩

/-- A character that does not combine with an `e` separates texts. -/
theorem foldr_acuteStep_cons {u : UInt16} (hu : u ≠ 0x301) (s t : JsString) :
  s.foldr acuteStep (u :: t) = composeAcute s ++ u :: t
  := by
  have hstep (v : UInt16) (composed : JsString) :
      acuteStep v (composed ++ u :: t) = acuteStep v composed ++ u :: t := by
    cases composed with
    | nil => simp [acuteStep, hu]
    | cons w composed =>
        by_cases hcompose : v = 0x65 ∧ (w :: composed).head? = some 0x301
        · have hcompose' : v = 0x65 ∧ (w :: composed ++ u :: t).head? = some 0x301 := hcompose
          rw [acuteStep, acuteStep, if_pos hcompose, if_pos hcompose']
          rfl
        · have hcompose' : ¬ (v = 0x65 ∧ (w :: composed ++ u :: t).head? = some 0x301) := hcompose
          rw [acuteStep, acuteStep, if_neg hcompose, if_neg hcompose']
          rfl
  induction s with
  | nil => rfl
  | cons v s ih =>
      rw [List.foldr_cons, ih, hstep]
      rfl

theorem mem_composeAcute {s : JsString} {u : UInt16} (h : u ∈ composeAcute s) :
  (u ∈ s ∧ u ≠ 0x2000 ∧ u ≠ 0x2001) ∨ u ∈ [0xE9, 0x2002, 0x2003]
  := by
  induction s with
  | nil => cases h
  | cons v s ih =>
      have hstep : u ∈ acuteStep v (composeAcute s) := h
      have htail : u ∈ (composeAcute s).tail → u ∈ composeAcute s := List.mem_of_mem_tail
      unfold acuteStep quadSpace at hstep
      split at hstep <;> grind

theorem lawfulNfc_composeAcute :
  LawfulNfc composeAcute
  where
  nfc_nfc s := foldr_acuteStep s []
  nfc_append s t := by
    have ht : composeAcute (composeAcute t) = composeAcute t := foldr_acuteStep t []
    rw [composeAcute_append, ht, foldr_acuteStep, composeAcute_append]
  of_append s t h := by
    induction s with
    | nil => exact ⟨rfl, h⟩
    | cons u s ih =>
        have hstep : acuteStep u (composeAcute (s ++ t)) = u :: (s ++ t) := h
        obtain ⟨hst, hcompose, hquad⟩ := acuteStep_eq_cons hstep
        obtain ⟨hs, ht⟩ := ih hst
        refine ⟨?_, ht⟩
        have hcompose' : ¬ (u = 0x65 ∧ s.head? = some 0x301) := by
          rintro ⟨hu, hhead⟩
          obtain ⟨rest, rfl⟩ := List.head?_eq_some_iff.mp hhead
          exact hcompose ⟨hu, by rw [hst]; rfl⟩
        have hu : acuteStep u s = u :: s := by rw [acuteStep, if_neg hcompose', hquad]
        rw [composeAcute, List.foldr_cons, ← composeAcute, hs, hu]
  inert s u t hu := by
    have hne : u ≠ 0x65 ∧ u ≠ 0x301 ∧ u ≠ 0x2000 ∧ u ≠ 0x2001 := by
      refine ⟨?_, ?_, ?_, ?_⟩
      all_goals
        rintro rfl
        exact absurd hu (by decide)
    have hstep : acuteStep u (composeAcute t) = u :: composeAcute t := by
      simp [acuteStep, quadSpace, hne]
    rw [composeAcute_append, composeAcute, List.foldr_cons, ← composeAcute, hstep,
      foldr_acuteStep_cons hne.2.1]
  control s u h hu := by
    rcases mem_composeAcute h with h | h
    · exact h.1
    · simp only [List.mem_cons, List.not_mem_nil, or_false] at h
      rcases h with rfl | rfl | rfl
      all_goals exact absurd hu (by decide)
  quad s := by
    constructor
    · intro h
      rcases mem_composeAcute h with h | h
      · exact h.2.1 rfl
      · exact absurd h (by decide)
    · intro h
      rcases mem_composeAcute h with h | h
      · exact h.2.2 rfl
      · exact absurd h (by decide)

/-- An `e`, the character NUL and an acute accent. -/
def hiddenAcute : JsString :=
  [0x65, 0x00, 0x301]

/-- NFC leaves the `e` and the accent behind the control apart, and nothing composes them when the
control is gone. -/
theorem hiddenAcute_unstable :
  LawfulNfc composeAcute
    ∧ normalizeExtractedText { asciiUnicode with nfc := composeAcute } hiddenAcute = [0x65, 0x301]
    ∧ composeAcute [0x65, 0x301] ≠ [0x65, 0x301]
    ∧ normalizeExtractedText { asciiUnicode with nfc := composeAcute } [0x65, 0x301]
      ≠ [0x65, 0x301]
  := ⟨lawfulNfc_composeAcute, by decide, by decide, by decide⟩

theorem normalizeExtractedText_stable_iff_hiddenAcute :
  ¬ (composeAcute (hiddenAcute.filter fun u => !isControl u)
    = (stretches hiddenAcute).flatMap composeAcute)
  := by
  intro h
  have hstable := (normalizeExtractedText_stable_iff
    { asciiUnicode with nfc := composeAcute } lawfulNfc_composeAcute hiddenAcute).mpr h
  exact absurd hstable.1 (by decide)

end DocuAI
