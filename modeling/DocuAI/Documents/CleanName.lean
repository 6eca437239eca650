import DocuAI.Documents.FileName

/-!
# Clean file names

A name that `sanitizeFileName` returns is short and without the characters it removes.  Whether it
is also in normal form, ends with a character that may end a name and is whole at its end depends on
the last segment of the input before dots and spaces are stripped, `segmentOf`, and on the place of
the cut.
-/

namespace DocuAI

open JsString

/-! ### Characters -/

/-- The characters `sanitizeFileName` removes, and those it takes for the end of a directory. -/
def isRemoved (u : UInt16) : Bool :=
  isControlCharacter u || isReservedCharacter u || u == slash || u == backslash

/-- The characters a name may not end with. -/
def isTrailingCharacter (u : UInt16) : Bool :=
  isWhiteSpace u || u == fullStop

theorem isReservedCharacter_iff (u : UInt16) :
  isReservedCharacter u = true ↔ u ∈ ([0x3C, 0x3E, 0x3A, 0x22, 0x7C, 0x3F, 0x2A] : List UInt16)
  := by
  have hreserved : js "<>:\"|?*" = [0x3C, 0x3E, 0x3A, 0x22, 0x7C, 0x3F, 0x2A] := by decide +kernel
  rw [isReservedCharacter, hreserved, List.contains_iff_mem]

/-- Surrogates are kept where they are. -/
theorem not_surrogate_of_isRemoved {u : UInt16} (h : isRemoved u = true) :
  isHighSurrogate u = false ∧ isLowSurrogate u = false
  := by
  simp only [isRemoved, Bool.or_eq_true, isReservedCharacter_iff, isControlCharacter, slash,
    backslash, decide_eq_true_eq, Bool.and_eq_true, beq_iff_eq, List.mem_cons,
    List.not_mem_nil, or_false, UInt16.le_iff_toNat_le, ← UInt16.toNat_inj,
    UInt16.reduceToNat] at h
  simp only [isHighSurrogate, isLowSurrogate, Bool.and_eq_false_iff, decide_eq_false_iff_not,
    UInt16.le_iff_toNat_le, UInt16.reduceToNat]
  omega

theorem not_surrogate_of_isTrailingCharacter {u : UInt16} (h : isTrailingCharacter u = true) :
  isHighSurrogate u = false ∧ isLowSurrogate u = false
  := by
  simp only [isTrailingCharacter, isWhiteSpace, fullStop, Bool.or_eq_true, Bool.and_eq_true,
    decide_eq_true_eq, beq_iff_eq, UInt16.le_iff_toNat_le, ← UInt16.toNat_inj,
    UInt16.reduceToNat] at h
  simp only [isHighSurrogate, isLowSurrogate, Bool.and_eq_false_iff, decide_eq_false_iff_not,
    UInt16.le_iff_toNat_le, UInt16.reduceToNat]
  omega

/-! ### The steps before the cut -/

/-- What the program relies on in the normal form NFC and in lower case. -/
structure Unicode.Lawful (unicode : Unicode) : Prop where
  nfc_nfc : ∀ s, unicode.nfc (unicode.nfc s) = unicode.nfc s
  isWellFormed_nfc : ∀ s, isWellFormed s = true → isWellFormed (unicode.nfc s) = true
  /-- An initial part of a string in normal form is in normal form. -/
  nfc_of_append : ∀ s t, isWellFormed s = true → unicode.nfc (s ++ t) = s ++ t → unicode.nfc s = s
  /-- A full stop neither composes with what is beside it nor lets it pass. -/
  nfc_fullStop : ∀ s t, unicode.nfc (s ++ fullStop :: t) = unicode.nfc s ++ fullStop :: unicode.nfc t
  /-- No other character becomes one of those the program removes, or a full stop. -/
  mem_of_mem_nfc : ∀ s u, isRemoved u = true ∨ u = fullStop → u ∈ unicode.nfc s → u ∈ s
  /-- No other character becomes white space. -/
  head_nfc : ∀ s u, isWhiteSpace u = true → (unicode.nfc s).head? = some u →
    ∃ v, isWhiteSpace v = true ∧ s.head? = some v
  last_nfc : ∀ s u, isTrailingCharacter u = true → (unicode.nfc s).getLast? = some u →
    ∃ v, isTrailingCharacter v = true ∧ s.getLast? = some v
  mem_of_mem_toLowerCase : ∀ s u, isRemoved u = true ∨ u = fullStop → u ∈ unicode.toLowerCase s →
    u ∈ s
  isWellFormed_toLowerCase : ∀ s, isWellFormed s = true →
    isWellFormed (unicode.toLowerCase s) = true
  /-- Lower case has no characters that the normal form would take apart. -/
  length_nfc_toLowerCase : ∀ s, unicode.nfc s = s →
    (unicode.nfc (unicode.toLowerCase s)).length ≤ (unicode.toLowerCase s).length

/-- What follows the last slash. -/
def lastSegment (segments : JsString) : JsString :=
  match lastIndexOf segments slash with
  | none => segments
  | some lastSlash => segments.drop (lastSlash + 1)

/-- The last segment without control and reserved characters, and without white space at its
ends. -/
def segmentOf (unicode : Unicode) (input : JsString) : JsString :=
  let segments := (unicode.nfc input).map fun u => if u = backslash then slash else u
  trim (((lastSegment segments).filter fun u => !isControlCharacter u).filter
    fun u => !isReservedCharacter u)

/-- The dots and spaces at the end of a segment are stripped. -/
def isStripped (u : UInt16) : Bool :=
  u = fullStop || u = space

/-- The name before it is cut. -/
def nameOf (unicode : Unicode) (input : JsString) : JsString :=
  let segments := (unicode.nfc input).map fun u => if u = backslash then slash else u
  let kept := ((lastSegment segments).filter fun u => !isControlCharacter u).filter
    fun u => !isReservedCharacter u
  (trim kept).rdropWhile fun u => u = fullStop || u = space

/-- A string without the characters the program removes, and without those it strips at either
end. -/
structure IsClean (s : JsString) : Prop where
  kept : ∀ u ∈ s, isRemoved u = false
  head : ∀ u ∈ s.head?, isWhiteSpace u = false
  last : ∀ u ∈ s.getLast?, isTrailingCharacter u = false

/-- The last segment is what follows a slash, or all. -/
theorem lastSegment_eq (segments : JsString) :
  (slash ∉ segments ∧ lastSegment segments = segments)
  ∨ ∃ before, segments = before ++ slash :: lastSegment segments ∧ slash ∉ lastSegment segments
  := by
  by_cases hslash : slash ∈ segments
  · obtain ⟨before, after, rfl, hafter⟩ := exists_last_of_mem hslash
    have hsegment : lastSegment (before ++ slash :: after) = after := by
      rw [lastSegment, lastIndexOf_append hafter]
      simp
    rw [hsegment]
    exact .inr ⟨before, rfl, hafter⟩
  · left
    rw [lastSegment, lastIndexOf_of_not_mem hslash]
    exact ⟨hslash, rfl⟩

theorem isRemoved_eq_false_iff {u : UInt16} :
  isRemoved u = false
    ↔ isControlCharacter u = false ∧ isReservedCharacter u = false ∧ u ≠ slash ∧ u ≠ backslash
  := by
  simp [isRemoved, and_assoc]

theorem nameOf_eq (unicode : Unicode) (input : JsString) :
  nameOf unicode input = (segmentOf unicode input).rdropWhile isStripped
  := rfl

/-- White space, a full stop and a space are the characters stripped at the end. -/
theorem isStripped_of_isTrailingCharacter {u : UInt16} (h : isTrailingCharacter u = false) :
  isWhiteSpace u = false ∧ isStripped u = false
  := by
  simp only [isTrailingCharacter, Bool.or_eq_false_iff, beq_eq_false_iff_ne] at h
  refine ⟨h.1, ?_⟩
  have hspace : u ≠ space := by
    rintro rfl
    exact absurd h.1 (by decide)
  simp [isStripped, h.2, hspace]

/-- The name of a segment ends properly when its dots and spaces are all that stands there. -/
theorem last_rdropWhile_iff (segment : JsString) :
  (∀ u ∈ (segment.rdropWhile isStripped).getLast?, isTrailingCharacter u = false)
    ↔ ∀ u ∈ segment.rtakeWhile isTrailingCharacter, isStripped u = true
  := by
  induction segment using List.reverseRecOn with
  | nil => simp
  | append_singleton segment u ih =>
      by_cases htrailing : isTrailingCharacter u = true
      · rw [List.rtakeWhile_concat_pos _ _ _ htrailing]
        by_cases hstripped : isStripped u = true
        · rw [List.rdropWhile_concat_pos _ _ _ hstripped, ih]
          simp [or_imp, forall_and, hstripped]
        · -- the last character is left, and no name may end with it
          rw [List.rdropWhile_concat_neg _ _ _ hstripped]
          simp [htrailing, hstripped]
      · have hnot := Bool.eq_false_of_not_eq_true htrailing
        have hstripped := (isStripped_of_isTrailingCharacter hnot).2
        rw [List.rtakeWhile_concat_neg _ _ _ htrailing,
          List.rdropWhile_concat_neg _ _ _ (by simp [hstripped])]
        simp [hnot]

/-- Where dots and spaces are all that stands there, no more is dropped with the white space. -/
theorem rdropWhile_isTrailingCharacter {segment : JsString}
    (h : ∀ u ∈ segment.rtakeWhile isTrailingCharacter, isStripped u = true) :
  segment.rdropWhile isTrailingCharacter = segment.rdropWhile isStripped
  := by
  induction segment using List.reverseRecOn with
  | nil => simp
  | append_singleton segment u ih =>
      by_cases htrailing : isTrailingCharacter u = true
      · rw [List.rtakeWhile_concat_pos _ _ _ htrailing] at h
        have hstripped : isStripped u = true := h u (by simp)
        rw [List.rdropWhile_concat_pos _ _ _ htrailing, List.rdropWhile_concat_pos _ _ _ hstripped]
        exact ih fun v hv => h v (List.mem_append_left _ hv)
      · have hnot := Bool.eq_false_of_not_eq_true htrailing
        have hstripped := (isStripped_of_isTrailingCharacter hnot).2
        rw [List.rdropWhile_concat_neg _ _ _ htrailing,
          List.rdropWhile_concat_neg _ _ _ (by simp [hstripped])]

/-- The steps before the cut leave a clean name as it is. -/
theorem nameOf_eq_of_isClean {unicode : Unicode} {input : JsString}
    (h : IsClean (unicode.nfc input)) :
  nameOf unicode input = unicode.nfc input
  := by
  generalize hname : unicode.nfc input = name at h
  have hsegments : (name.map fun u => if u = backslash then slash else u) = name := by
    conv_rhs => rw [← List.map_id name]
    apply List.map_congr_left
    intro u hu
    rw [if_neg (isRemoved_eq_false_iff.mp (h.kept u hu)).2.2.2, id]
  have hslash : slash ∉ name :=
    fun hmem => (isRemoved_eq_false_iff.mp (h.kept _ hmem)).2.2.1 rfl
  have hsegment : lastSegment name = name := by
    rw [lastSegment, lastIndexOf_of_not_mem hslash]
  have hcontrol : (name.filter fun u => !isControlCharacter u) = name := by
    rw [List.filter_eq_self]
    intro u hu
    rw [(isRemoved_eq_false_iff.mp (h.kept u hu)).1, Bool.not_false]
  have hreserved : (name.filter fun u => !isReservedCharacter u) = name := by
    rw [List.filter_eq_self]
    intro u hu
    rw [(isRemoved_eq_false_iff.mp (h.kept u hu)).2.1, Bool.not_false]
  have hlast (hne : name ≠ []) := isStripped_of_isTrailingCharacter
    (h.last (name.getLast hne) (List.getLast?_eq_getLast_of_ne_nil hne))
  have htrim : trim name = name := by
    have hleft : name.dropWhile isWhiteSpace = name := by
      rw [List.dropWhile_eq_self_iff]
      intro hlength
      rw [h.head name[0] (by simp [List.head?_eq_getElem?])]
      decide
    rw [trim, hleft, List.rdropWhile_eq_self_iff]
    intro hne
    rw [(hlast hne).1]
    decide
  have hstrip : name.rdropWhile isStripped = name := by
    rw [List.rdropWhile_eq_self_iff]
    intro hne
    rw [(hlast hne).2]
    decide
  simp only [nameOf_eq, segmentOf, hname, hsegments, hsegment, hcontrol, hreserved, htrim, hstrip]

/-- No step before the cut leaves a character the program removes, or white space at the start. -/
theorem kept_nameOf (unicode : Unicode) (input : JsString) {u : UInt16}
    (h : u ∈ nameOf unicode input) :
  isRemoved u = false
  := by
  have hkept := (List.dropWhile_sublist _).mem
    ((List.rdropWhile_prefix _ _).sublist.mem ((List.rdropWhile_prefix _ _).sublist.mem h))
  rw [List.mem_filter, List.mem_filter] at hkept
  obtain ⟨⟨hsegment, hcontrol⟩, hreserved⟩ := hkept
  rw [isRemoved_eq_false_iff]
  refine ⟨by simpa using hcontrol, by simpa using hreserved, ?_, ?_⟩
  · rcases lastSegment_eq _ with ⟨hslash, heq⟩ | ⟨before, -, hslash⟩
    · rw [heq] at hsegment
      exact fun hu => hslash (hu ▸ hsegment)
    · exact fun hu => hslash (hu ▸ hsegment)
  · have hmap : u ∈ (unicode.nfc input).map fun u => if u = backslash then slash else u := by
      rcases lastSegment_eq ((unicode.nfc input).map fun u => if u = backslash then slash else u)
        with ⟨-, heq⟩ | ⟨before, heq, -⟩
      · rwa [heq] at hsegment
      · rw [heq]
        simp [hsegment]
    obtain ⟨v, -, rfl⟩ := List.mem_map.mp hmap
    split
    · decide
    · assumption

theorem head_of_isPrefix {s t : JsString} {u : UInt16} (h : s <+: t) (hu : u ∈ s.head?) :
  u ∈ t.head?
  := by
  obtain ⟨rest, rfl⟩ := h
  rw [Option.mem_def] at hu
  simp [List.head?_append, hu]

theorem head_nameOf (unicode : Unicode) (input : JsString) :
  ∀ u ∈ (nameOf unicode input).head?, isWhiteSpace u = false
  := by
  intro u hu
  have hhead := head_of_isPrefix
    ((List.rdropWhile_prefix _ _).trans (List.rdropWhile_prefix _ _)) hu
  have hnot := List.head?_dropWhile_not isWhiteSpace
    (((lastSegment ((unicode.nfc input).map fun u => if u = backslash then slash else u)).filter
      fun u => !isControlCharacter u).filter fun u => !isReservedCharacter u)
  rw [Option.mem_def] at hhead
  rw [hhead] at hnot
  exact hnot

theorem isWellFormed_nameOf {unicode : Unicode} (hunicode : unicode.Lawful) {input : JsString}
    (h : isWellFormed input = true) :
  isWellFormed (nameOf unicode input) = true
  := by
  have hspace (u : UInt16) (hu : (decide (u = fullStop) || decide (u = space)) = true) :
      isHighSurrogate u = false ∧ isLowSurrogate u = false := by
    rw [Bool.or_eq_true, decide_eq_true_eq, decide_eq_true_eq] at hu
    rcases hu with rfl | rfl
    · decide
    · decide
  have hwhite (u : UInt16) (hu : isWhiteSpace u = true) :
      isHighSurrogate u = false ∧ isLowSurrogate u = false :=
    not_surrogate_of_isTrailingCharacter (by rw [isTrailingCharacter, hu, Bool.true_or])
  have hremoved (p : UInt16 → Bool) (hp : ∀ u, p u = true → isRemoved u = true) (u : UInt16)
      (hu : (!p u) = false) : isHighSurrogate u = false ∧ isLowSurrogate u = false :=
    not_surrogate_of_isRemoved (hp u (by simpa using hu))
  have hsegments : isWellFormed ((unicode.nfc input).map
      fun u => if u = backslash then slash else u) = true := by
    rw [isWellFormed, isWellFormedAfter_map]
    · exact hunicode.isWellFormed_nfc input h
    · intro u
      split
      · subst u
        decide
      · exact ⟨rfl, rfl⟩
  have hsegment : isWellFormed (lastSegment ((unicode.nfc input).map
      fun u => if u = backslash then slash else u)) = true := by
    rcases lastSegment_eq ((unicode.nfc input).map fun u => if u = backslash then slash else u)
      with ⟨-, heq⟩ | ⟨before, heq, -⟩
    · rwa [heq]
    · rw [heq, isWellFormed_append (by decide) (by decide), Bool.and_eq_true] at hsegments
      exact hsegments.2
  rw [nameOf, isWellFormed_rdropWhile hspace, trim, isWellFormed_rdropWhile hwhite,
    isWellFormed_dropWhile hwhite]
  apply isWellFormedAfter_filter
  · apply hremoved
    intro u hu
    simp [isRemoved, hu]
  · apply isWellFormedAfter_filter
    · apply hremoved
      intro u hu
      simp [isRemoved, hu]
    · exact hsegment

/-- The normal form of a clean string is clean. -/
theorem IsClean.nfc {unicode : Unicode} (hunicode : unicode.Lawful) {s : JsString}
    (h : IsClean s) :
  IsClean (unicode.nfc s)
  := by
  constructor
  · intro u hu
    by_contra hremoved
    have hmem := hunicode.mem_of_mem_nfc s u (.inl (by simpa using hremoved)) hu
    exact hremoved (h.kept u hmem)
  · intro u hu
    by_contra hwhite
    obtain ⟨v, hv, hhead⟩ := hunicode.head_nfc s u (by simpa using hwhite) hu
    rw [h.head v hhead] at hv
    cases hv
  · intro u hu
    by_contra htrailing
    obtain ⟨v, hv, hlast⟩ := hunicode.last_nfc s u (by simpa using htrailing) hu
    rw [h.last v hlast] at hv
    cases hv

/-! ### The cut -/

/-- The extension a name keeps when it is cut, with its dot. -/
def suffixOf (unicode : Unicode) (name : JsString) : JsString :=
  match (extensionOf unicode name).filter (·.length ≤ 16) with
  | none => []
  | some ext => if ext = [] then [] else fullStop :: ext

theorem sanitizeFileName_eq (unicode : Unicode) (input : JsString) :
  sanitizeFileName unicode input =
    if nameOf unicode input = [] then none
    else if FILE_NAME_MAX_LENGTH < (nameOf unicode input).length then
      some (truncate (nameOf unicode input)
          (FILE_NAME_MAX_LENGTH - (suffixOf unicode (nameOf unicode input)).length)
        ++ suffixOf unicode (nameOf unicode input))
    else some (nameOf unicode input)
  := by
  have hdef : sanitizeFileName unicode input =
      if nameOf unicode input = [] ∨ nameOf unicode input = [fullStop]
        ∨ nameOf unicode input = [fullStop, fullStop] then none
      else if FILE_NAME_MAX_LENGTH < (nameOf unicode input).length then
        some (truncate (nameOf unicode input)
            (FILE_NAME_MAX_LENGTH - (suffixOf unicode (nameOf unicode input)).length)
          ++ suffixOf unicode (nameOf unicode input))
      else some (nameOf unicode input) := rfl
  have hlast (hne : nameOf unicode input ≠ []) :
      (nameOf unicode input).getLast hne ≠ fullStop := by
    have hnot := List.rdropWhile_last_not _ _ hne
    simp only [Bool.or_eq_true, decide_eq_true_eq, not_or] at hnot
    exact hnot.1
  have hdot : nameOf unicode input ≠ [fullStop] := by
    intro heq
    apply hlast (by rw [heq]; simp)
    simp [heq]
  have hdots : nameOf unicode input ≠ [fullStop, fullStop] := by
    intro heq
    apply hlast (by rw [heq]; simp)
    simp [heq]
  rw [hdef]
  simp only [hdot, hdots, or_false]

/-- The extension is what follows the last dot of the name. -/
theorem suffixOf_spec (unicode : Unicode) (name : JsString) :
  suffixOf unicode name = []
  ∨ ∃ before ext, name = before ++ fullStop :: ext ∧ fullStop ∉ ext
    ∧ suffixOf unicode name = fullStop :: unicode.toLowerCase ext
    ∧ unicode.toLowerCase ext ≠ [] ∧ (unicode.toLowerCase ext).length ≤ 16
  := by
  by_cases hdot : fullStop ∈ name
  · obtain ⟨before, ext, rfl, hext⟩ := exists_last_of_mem hdot
    have hdrop : (before ++ fullStop :: ext).drop (before.length + 1) = ext := by simp
    unfold suffixOf extensionOf
    rw [lastIndexOf_append hext]
    simp only [hdrop]
    split
    · exact .inl rfl
    · rename_i kept hkept
      split
      · exact .inl rfl
      · rename_i hne
        obtain ⟨hsome, hshort⟩ := Option.filter_eq_some_iff.mp hkept
        split at hsome
        · cases hsome
        · obtain rfl := Option.some.inj hsome
          exact .inr ⟨before, ext, rfl, hext, rfl, hne, by simpa using hshort⟩
  · left
    unfold suffixOf extensionOf
    rw [lastIndexOf_of_not_mem hdot]
    rfl

theorem length_suffixOf_le (unicode : Unicode) (name : JsString) :
  (suffixOf unicode name).length ≤ 17
  := by
  rcases suffixOf_spec unicode name with heq | ⟨before, ext, -, -, heq, -, hshort⟩
  · simp [heq]
  · rw [heq, List.length_cons]
    omega

/-- A string has one place where its last dot is. -/
theorem append_fullStop_inj {s s' t t' : JsString} (ht : fullStop ∉ t) (ht' : fullStop ∉ t')
    (h : s ++ fullStop :: t = s' ++ fullStop :: t') :
  s = s' ∧ t = t'
  := by
  have hlength : s.length = s'.length := by
    have hindex : lastIndexOf (s ++ fullStop :: t) fullStop = some s.length :=
      lastIndexOf_append ht
    rw [h, lastIndexOf_append ht'] at hindex
    exact (Option.some.inj hindex).symm
  obtain ⟨hs, ht⟩ := List.append_inj h hlength
  exact ⟨hs, (List.cons.inj ht).2⟩

/-- The part of a name that a suffix is put after. -/
def cutOf (unicode : Unicode) (name : JsString) : JsString :=
  truncate name (FILE_NAME_MAX_LENGTH - (suffixOf unicode name).length)

section

variable {unicode : Unicode} (hunicode : unicode.Lawful) {name : JsString}

include hunicode

theorem nfc_nil :
  unicode.nfc [] = []
  := hunicode.nfc_of_append [] (unicode.nfc []) rfl (hunicode.nfc_nfc [])

/-- Both sides of the last dot of a string in normal form are in normal form. -/
theorem nfc_parts {s t : JsString} (ht : fullStop ∉ t)
    (h : unicode.nfc (s ++ fullStop :: t) = s ++ fullStop :: t) :
  unicode.nfc s = s ∧ unicode.nfc t = t
  := by
  rw [hunicode.nfc_fullStop] at h
  exact append_fullStop_inj (fun hmem => ht (hunicode.mem_of_mem_nfc t _ (.inr rfl) hmem)) ht h

theorem fullStop_not_mem_toLowerCase {s : JsString} (h : fullStop ∉ s) :
  fullStop ∉ unicode.toLowerCase s
  := fun hmem => h (hunicode.mem_of_mem_toLowerCase s _ (.inr rfl) hmem)

theorem nfc_cons_fullStop (s : JsString) :
  unicode.nfc (fullStop :: s) = fullStop :: unicode.nfc s
  := by
  have h := hunicode.nfc_fullStop [] s
  rwa [nfc_nil hunicode] at h

/-- A clean name short enough to be kept is left as it is when it is in normal form, and only
then. -/
theorem sanitizeFileName_eq_self_iff (hclean : IsClean name) (hwf : isWellFormed name = true)
    (hne : name ≠ []) (hlength : name.length ≤ FILE_NAME_MAX_LENGTH) :
  sanitizeFileName unicode name = some name ↔ unicode.nfc name = name
  := by
  have hname : nameOf unicode name = unicode.nfc name := nameOf_eq_of_isClean (hclean.nfc hunicode)
  rw [sanitizeFileName_eq, hname]
  refine ⟨?_, ?_⟩
  · intro h
    split at h
    · cases h
    · split at h
      · -- what was cut to a name in normal form was in normal form where it was cut
        rename_i hlong
        have hcut := Option.some.inj h
        have htake := List.take_append_drop (FILE_NAME_MAX_LENGTH
          - (suffixOf unicode (unicode.nfc name)).length) (unicode.nfc name)
        rcases suffixOf_spec unicode (unicode.nfc name) with
          hsuffix | ⟨before, ext, hsplit, hext, hsuffix, -, -⟩
        · rw [hsuffix] at hcut htake
          rw [List.append_nil, truncate] at hcut
          rw [hcut] at htake
          apply hunicode.nfc_of_append name _ hwf
          rw [htake]
          apply hunicode.nfc_nfc
        · exfalso
          have hnormal := hunicode.nfc_nfc name
          rw [hsplit] at hnormal
          have hextnfc := (nfc_parts hunicode hext hnormal).2
          have hshort := hunicode.length_nfc_toLowerCase ext hextnfc
          rw [hsuffix] at hcut htake
          have hwfcut : isWellFormed (truncate (unicode.nfc name) (FILE_NAME_MAX_LENGTH
              - (fullStop :: unicode.toLowerCase ext).length)) = true := by
            rw [← hcut, isWellFormed_append (by decide) (by decide), Bool.and_eq_true] at hwf
            exact hwf.1
          have hcutnfc := hunicode.nfc_of_append _ _ hwfcut
            (htake.symm ▸ hunicode.nfc_nfc name)
          have hnfc : unicode.nfc name = truncate (unicode.nfc name) (FILE_NAME_MAX_LENGTH
              - (fullStop :: unicode.toLowerCase ext).length)
                ++ fullStop :: unicode.nfc (unicode.toLowerCase ext) := by
            conv_lhs => rw [← hcut, hunicode.nfc_fullStop, hcutnfc]
          have hlengths := congrArg List.length hnfc
          have hsuffixLength := length_suffixOf_le unicode (unicode.nfc name)
          simp only [hsuffix, truncate, List.length_append, List.length_take, List.length_cons,
            FILE_NAME_MAX_LENGTH] at hlengths hlong hsuffixLength
          omega
      · exact Option.some.inj h
  · intro hnfc
    rw [hnfc, if_neg hne, if_neg (Nat.not_lt.mpr hlength)]

/-- What is kept of a name has the characters of the name, and its start. -/
theorem isRemoved_cutOf_append (hkept : ∀ u ∈ name, isRemoved u = false) :
  ∀ u ∈ cutOf unicode name ++ suffixOf unicode name, isRemoved u = false
  := by
  intro u hu
  rcases List.mem_append.mp hu with hcut | hsuffix
  · exact hkept u (List.mem_of_mem_take hcut)
  · rcases suffixOf_spec unicode name with heq | ⟨before, ext, hname, -, heq, -, -⟩
    · rw [heq] at hsuffix
      cases hsuffix
    · rw [heq, List.mem_cons] at hsuffix
      rcases hsuffix with rfl | hlower
      · decide
      · by_contra hremoved
        have hext := hunicode.mem_of_mem_toLowerCase ext u (.inl (by simpa using hremoved)) hlower
        exact hremoved (hkept u (by rw [hname]; simp [hext]))

/-- What is kept of a cut name is in normal form when both of its parts are. -/
theorem nfc_cutOf_append_iff :
  unicode.nfc (cutOf unicode name ++ suffixOf unicode name)
      = cutOf unicode name ++ suffixOf unicode name
    ↔ unicode.nfc (cutOf unicode name) = cutOf unicode name
      ∧ unicode.nfc (suffixOf unicode name) = suffixOf unicode name
  := by
  rcases suffixOf_spec unicode name with heq | ⟨before, ext, hname, hext, heq, -, -⟩
  · rw [heq, List.append_nil]
    simp only [nfc_nil hunicode, and_true]
  · rw [heq]
    refine ⟨?_, ?_⟩
    · intro h
      obtain ⟨hcut, hlower⟩ := nfc_parts hunicode (fullStop_not_mem_toLowerCase hunicode hext) h
      exact ⟨hcut, by rw [nfc_cons_fullStop hunicode, hlower]⟩
    · rintro ⟨hcut, hlower⟩
      rw [nfc_cons_fullStop hunicode] at hlower
      rw [hunicode.nfc_fullStop, hcut, (List.cons.inj hlower).2]

/-- What is kept of a cut name is well-formed when the cut is. -/
theorem isWellFormed_cutOf_append (hwf : isWellFormed name = true) :
  isWellFormed (cutOf unicode name ++ suffixOf unicode name) = isWellFormed (cutOf unicode name)
  := by
  rcases suffixOf_spec unicode name with heq | ⟨before, ext, hname, -, heq, -, -⟩
  · rw [heq, List.append_nil]
  · rw [hname, isWellFormed_append (by decide) (by decide), Bool.and_eq_true] at hwf
    rw [heq, isWellFormed_append (by decide) (by decide),
      hunicode.isWellFormed_toLowerCase ext hwf.2, Bool.and_true]

end

theorem length_cutOf (unicode : Unicode) {name : JsString}
    (hlong : FILE_NAME_MAX_LENGTH < name.length) :
  (cutOf unicode name).length = FILE_NAME_MAX_LENGTH - (suffixOf unicode name).length
  := by
  rw [cutOf, truncate, List.length_take]
  omega

/-! ### Clean and stable names -/

/-- A file name that is short, well-formed, clean, and sanitised to itself. -/
structure CleanName (unicode : Unicode) (name : JsString) : Prop where
  length : 1 ≤ name.length ∧ name.length ≤ FILE_NAME_MAX_LENGTH
  wellFormed : isWellFormed name = true
  clean : IsClean name
  stable : sanitizeFileName unicode name = some name

/-- When the name of a segment is a clean name.  Of a short one all that ends it are dots and spaces,
and it is in normal form without them.  What is kept of a long one is in normal form, it ends with a
character a name may end with, and the cut takes no surrogate from its partner. -/
structure StaysClean (unicode : Unicode) (segment : JsString) : Prop where
  whole : (segment.rdropWhile isStripped).length ≤ FILE_NAME_MAX_LENGTH →
    unicode.nfc (segment.rdropWhile isTrailingCharacter) = segment.rdropWhile isTrailingCharacter
    ∧ ∀ u ∈ segment.rtakeWhile isTrailingCharacter, isStripped u = true
  cut : ∀ name, name = segment.rdropWhile isStripped → FILE_NAME_MAX_LENGTH < name.length →
    isWellFormed (cutOf unicode name) = true
    ∧ unicode.nfc (cutOf unicode name) = cutOf unicode name
    ∧ unicode.nfc (suffixOf unicode name) = suffixOf unicode name
    ∧ ∀ u ∈ (if suffixOf unicode name = [] then cutOf unicode name
        else suffixOf unicode name).getLast?, isTrailingCharacter u = false

/-- The condition on a short segment, by the name it gives. -/
theorem whole_iff (unicode : Unicode) (segment : JsString) :
  (unicode.nfc (segment.rdropWhile isTrailingCharacter) = segment.rdropWhile isTrailingCharacter
      ∧ ∀ u ∈ segment.rtakeWhile isTrailingCharacter, isStripped u = true)
    ↔ unicode.nfc (segment.rdropWhile isStripped) = segment.rdropWhile isStripped
      ∧ ∀ u ∈ (segment.rdropWhile isStripped).getLast?, isTrailingCharacter u = false
  := by
  rw [last_rdropWhile_iff]
  apply and_congr_left
  intro h
  rw [rdropWhile_isTrailingCharacter h]

/-- A short enough text without removed characters, and without white space at the start, is a
clean name when it is well-formed, in normal form, and ends with a character a name may end with. -/
theorem cleanName_iff {unicode : Unicode} (hunicode : unicode.Lawful) {name : JsString}
    (hne : name ≠ []) (hlength : name.length ≤ FILE_NAME_MAX_LENGTH)
    (hkept : ∀ u ∈ name, isRemoved u = false) (hhead : ∀ u ∈ name.head?, isWhiteSpace u = false) :
  CleanName unicode name
    ↔ isWellFormed name = true ∧ unicode.nfc name = name
      ∧ ∀ u ∈ name.getLast?, isTrailingCharacter u = false
  := by
  refine ⟨?_, ?_⟩
  · intro h
    have hstable := (sanitizeFileName_eq_self_iff hunicode h.clean h.wellFormed hne hlength).mp
      h.stable
    exact ⟨h.wellFormed, hstable, h.clean.last⟩
  · rintro ⟨hwf, hnfc, hlast⟩
    have hclean : IsClean name := ⟨hkept, hhead, hlast⟩
    have hstable := (sanitizeFileName_eq_self_iff hunicode hclean hwf hne hlength).mpr hnfc
    exact ⟨⟨List.length_pos_iff.mpr hne, hlength⟩, hwf, hclean, hstable⟩

/-- A sanitised name is clean and stable exactly when nothing but dots and spaces is at the end of
the last segment, and what is kept of it is in normal form and, where it is cut, ends properly. -/
theorem sanitizeFileName_clean_iff {unicode : Unicode} (hunicode : unicode.Lawful)
    (input : JsString) (hwf : isWellFormed input = true) :
  (sanitizeFileName unicode input = none
      ∨ ∃ name, sanitizeFileName unicode input = some name ∧ CleanName unicode name)
    ↔ (∀ u ∈ segmentOf unicode input, isStripped u = true)
      ∨ StaysClean unicode (segmentOf unicode input)
  := by
  have hwfname := isWellFormed_nameOf hunicode hwf
  have hkept := fun u => kept_nameOf unicode input (u := u)
  have hhead := head_nameOf unicode input
  have hname := nameOf_eq unicode input
  rw [sanitizeFileName_eq, ← List.rdropWhile_eq_nil_iff]
  generalize segmentOf unicode input = segment at *
  have hwhole := whole_iff unicode segment
  rw [← hname] at hwhole ⊢
  generalize nameOf unicode input = name at *
  by_cases hne : name = []
  · simp [hne]
  · by_cases hlong : FILE_NAME_MAX_LENGTH < name.length
    · have hcutLength := length_cutOf unicode hlong
      have hsuffixLength := length_suffixOf_le unicode name
      have hcutNe : cutOf unicode name ≠ [] := by
        intro hnil
        rw [hnil, FILE_NAME_MAX_LENGTH] at hcutLength
        simp only [List.length_nil] at hcutLength
        omega
      have hkeptNe : cutOf unicode name ++ suffixOf unicode name ≠ [] := by
        simp [hcutNe]
      have hkeptHead : ∀ u ∈ (cutOf unicode name ++ suffixOf unicode name).head?,
          isWhiteSpace u = false := by
        intro u hu
        rw [List.head?_append_of_ne_nil _ hcutNe] at hu
        exact hhead u (head_of_isPrefix (List.take_prefix _ _) hu)
      have hkeptLength : (cutOf unicode name ++ suffixOf unicode name).length
          ≤ FILE_NAME_MAX_LENGTH := by
        rw [FILE_NAME_MAX_LENGTH] at hcutLength ⊢
        rw [List.length_append]
        omega
      have hkeptLast : (cutOf unicode name ++ suffixOf unicode name).getLast?
          = (if suffixOf unicode name = [] then cutOf unicode name
              else suffixOf unicode name).getLast? := by
        split
        · rename_i hnil
          rw [hnil, List.append_nil]
        · rename_i hsuffix
          rw [List.getLast?_append_of_ne_nil _ hsuffix]
      have hiff := cleanName_iff hunicode hkeptNe hkeptLength
        (isRemoved_cutOf_append hunicode hkept) hkeptHead
      rw [isWellFormed_cutOf_append hunicode hwfname, nfc_cutOf_append_iff hunicode, hkeptLast]
        at hiff
      rw [if_neg hne, if_pos hlong]
      refine ⟨?_, ?_⟩
      · rintro (hnone | ⟨kept, hsome, hclean⟩)
        · cases hnone
        · obtain rfl := Option.some.inj hsome
          obtain ⟨hcutwf, ⟨hcutnfc, hsuffixnfc⟩, hlast⟩ := hiff.mp hclean
          refine .inr ⟨fun hshort => absurd hlong (Nat.not_lt.mpr (hname ▸ hshort)), ?_⟩
          rintro _ rfl -
          rw [← hname]
          exact ⟨hcutwf, hcutnfc, hsuffixnfc, hlast⟩
      · rintro (hnil | hstays)
        · exact absurd hnil hne
        · obtain ⟨hcutwf, hcutnfc, hsuffixnfc, hlast⟩ := hstays.cut name hname hlong
          exact .inr ⟨_, rfl, hiff.mpr ⟨hcutwf, ⟨hcutnfc, hsuffixnfc⟩, hlast⟩⟩
    · have hshort := Nat.not_lt.mp hlong
      have hiff := cleanName_iff hunicode hne hshort hkept hhead
      rw [if_neg hne, if_neg hlong]
      refine ⟨?_, ?_⟩
      · rintro (hnone | ⟨kept, hsome, hclean⟩)
        · cases hnone
        · obtain rfl := Option.some.inj hsome
          refine .inr ⟨fun _ => hwhole.mpr (hiff.mp hclean).2, ?_⟩
          rintro _ rfl hlt
          exact absurd (hname ▸ hlt) hlong
      · rintro (hnil | hstays)
        · exact absurd hnil hne
        · have hnormal := hwhole.mp (hstays.whole (hname ▸ hshort))
          exact .inr ⟨_, rfl, hiff.mpr ⟨hwfname, hnormal⟩⟩

theorem lowerCase_eq (u : UInt16) :
  ((0x41 ≤ u && u ≤ 0x5A) = false
    ∧ (if 0x41 ≤ u && u ≤ 0x5A then u + 0x20 else u) = u)
  ∨ (isRemoved (if 0x41 ≤ u && u ≤ 0x5A then u + 0x20 else u) = false
    ∧ (if 0x41 ≤ u && u ≤ 0x5A then u + 0x20 else u) ≠ fullStop
    ∧ isHighSurrogate u = false ∧ isLowSurrogate u = false
    ∧ isHighSurrogate (if 0x41 ≤ u && u ≤ 0x5A then u + 0x20 else u) = false
    ∧ isLowSurrogate (if 0x41 ≤ u && u ≤ 0x5A then u + 0x20 else u) = false)
  := by
  by_cases hupper : (0x41 ≤ u && u ≤ 0x5A) = true
  · right
    rw [if_pos hupper]
    rw [Bool.and_eq_true, decide_eq_true_eq, decide_eq_true_eq] at hupper
    obtain ⟨hle, hge⟩ := hupper
    have hreserved : isReservedCharacter (u + 0x20) = false := by
      rw [← Bool.not_eq_true, isReservedCharacter_iff]
      simp only [List.mem_cons, List.not_mem_nil, or_false, ← UInt16.toNat_inj,
        UInt16.le_iff_toNat_le, UInt16.reduceToNat, UInt16.toNat_add] at hle hge ⊢
      omega
    rw [isRemoved_eq_false_iff]
    simp only [isControlCharacter, isHighSurrogate, isLowSurrogate, Bool.or_eq_false_iff,
      Bool.and_eq_false_iff, decide_eq_false_iff_not, slash, backslash, fullStop, ne_eq,
      ← UInt16.toNat_inj, UInt16.le_iff_toNat_le, UInt16.reduceToNat, UInt16.toNat_add, hreserved,
      true_and] at hle hge ⊢
    omega
  · left
    rw [if_neg hupper]
    exact ⟨by simpa using hupper, rfl⟩

/-- On ASCII text, where every string is in normal form, lower case is lawful. -/
theorem lawful_asciiUnicode :
  asciiUnicode.Lawful
  where
  nfc_nfc _ := rfl
  isWellFormed_nfc _ h := h
  nfc_of_append _ _ _ _ := rfl
  nfc_fullStop _ _ := rfl
  mem_of_mem_nfc _ _ _ h := h
  head_nfc _ u hu h := ⟨u, hu, h⟩
  last_nfc _ u hu h := ⟨u, hu, h⟩
  mem_of_mem_toLowerCase s u hu h := by
    obtain ⟨v, hv, rfl⟩ := List.mem_map.mp h
    rcases lowerCase_eq v with ⟨-, heq⟩ | ⟨hremoved, hdot, -⟩
    · rwa [heq]
    · rcases hu with hu | hu
      · rw [hremoved] at hu
        cases hu
      · exact absurd hu hdot
  isWellFormed_toLowerCase s h := by
    rw [asciiUnicode, isWellFormed, isWellFormedAfter_map]
    · exact h
    · intro u
      rcases lowerCase_eq u with ⟨-, heq⟩ | ⟨-, -, hhigh, hlow, hhigh', hlow'⟩
      · rw [heq]
        exact ⟨rfl, rfl⟩
      · rw [hhigh, hlow, hhigh', hlow']
        exact ⟨rfl, rfl⟩
  length_nfc_toLowerCase _ _ := Nat.le_refl _

/-- The condition holds of a plain name with a dot at its end, which is sanitised to a clean one. -/
theorem sanitizeFileName_clean_report :
  isWellFormed (js "/tmp/report.pdf .") = true
  ∧ StaysClean asciiUnicode (segmentOf asciiUnicode (js "/tmp/report.pdf ."))
  ∧ (sanitizeFileName asciiUnicode (js "/tmp/report.pdf .") = none
    ∨ ∃ name, sanitizeFileName asciiUnicode (js "/tmp/report.pdf .") = some name
      ∧ CleanName asciiUnicode name)
  := by
  have hwf : isWellFormed (js "/tmp/report.pdf .") = true := by decide +kernel
  have hsegment : segmentOf asciiUnicode (js "/tmp/report.pdf .") = js "report.pdf ." := by
    decide +kernel
  have hname : (js "report.pdf .").rdropWhile isStripped = js "report.pdf" := by decide +kernel
  have hend : (js "report.pdf .").rtakeWhile isTrailingCharacter = js " ." := by decide +kernel
  have hstays : StaysClean asciiUnicode (segmentOf asciiUnicode (js "/tmp/report.pdf .")) := by
    rw [hsegment]
    constructor
    · intro _
      refine ⟨rfl, ?_⟩
      rw [hend]
      simp [js, isStripped, fullStop, space]
    · rintro _ rfl hlong
      rw [hname] at hlong
      exact absurd hlong (by decide +kernel)
  exact ⟨hwf, hstays, (sanitizeFileName_clean_iff lawful_asciiUnicode _ hwf).mpr (.inr hstays)⟩

/-- A full stop protects the white space before it: the no-break space of this name is kept, and
removed when the name is sanitised again. -/
theorem not_clean_of_protected_whiteSpace :
  ¬ ∀ (unicode : Unicode), unicode.Lawful → ∀ input, isWellFormed input = true →
    sanitizeFileName unicode input = none
    ∨ ∃ name, sanitizeFileName unicode input = some name ∧ CleanName unicode name
  := by
  intro h
  have hinput : sanitizeFileName asciiUnicode [0x61, 0xA0, 0x2E] = some [0x61, 0xA0] := by
    decide +kernel
  rcases h asciiUnicode lawful_asciiUnicode [0x61, 0xA0, 0x2E] (by decide) with
    hnone | ⟨name, hsome, hclean⟩
  · rw [hinput] at hnone
    cases hnone
  · obtain rfl := Option.some.inj (hinput.symm.trans hsome)
    have hlast := hclean.clean.last 0xA0 (by decide)
    exact absurd hlast (by decide)

end DocuAI
