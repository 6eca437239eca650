import DocuAI.Config
import DocuAI.Ocr.Errors

/-!
# Languages

A request names its languages by their codes, joined by `+`.  Which languages are available is a
parameter.
-/

namespace DocuAI

open JsString

/-- Whether a code matches `/^[a-z]{3}(_[a-z]+)?$/`. -/
def isLanguageCode (code : JsString) : Bool :=
  let isLetter : UInt16 → Bool := fun u => 0x61 ≤ u && u ≤ 0x7A
  (code.take 3).length == 3 && (code.take 3).all isLetter
    && match code.drop 3 with
      | [] => true
      | u :: letters => u == 0x5F && !letters.isEmpty && letters.all isLetter

/-! ### First occurrences -/

section

variable {α : Type} [BEq α] [LawfulBEq α]

/-- The elements of a list at the places where they occur for the first time. -/
def firstOccurrences (list : List α) : List α :=
  (list.zipIdx.filter fun x => list.idxOf x.1 = x.2).map Prod.fst

theorem eraseDups_concat_of_mem {list : List α} {a : α} (h : a ∈ list) :
  (list ++ [a]).eraseDups = list.eraseDups
  := by
  rw [List.eraseDups_append]
  simp [List.removeAll, h]

theorem eraseDups_concat_of_notMem {list : List α} {a : α} (h : a ∉ list) :
  (list ++ [a]).eraseDups = list.eraseDups ++ [a]
  := by
  rw [List.eraseDups_append]
  simp [List.removeAll, h, List.eraseDups_cons]

theorem eraseDups_eq_firstOccurrences (list : List α) :
  list.eraseDups = firstOccurrences list
  := by
  induction list using List.reverseRecOn with
  | nil => rfl
  | append_singleton list a ih =>
      have hlist : (list.zipIdx.filter fun x => decide ((list ++ [a]).idxOf x.1 = x.2))
          = list.zipIdx.filter fun x => decide (list.idxOf x.1 = x.2) := by
        apply List.filter_congr
        intro x hx
        rw [List.idxOf_append_of_mem (List.fst_mem_of_mem_zipIdx hx)]
      rw [firstOccurrences, List.zipIdx_append, List.filter_append, hlist, List.map_append,
        ← firstOccurrences, ← ih]
      by_cases h : a ∈ list
      · have hlt := List.idxOf_lt_length_of_mem h
        rw [eraseDups_concat_of_mem h]
        simp [List.idxOf_append_of_mem h, Nat.ne_of_lt hlt]
      · rw [eraseDups_concat_of_notMem h]
        simp [List.idxOf_append_of_notMem h]

theorem nodup_eraseDups (list : List α) :
  list.eraseDups.Nodup
  := by
  induction list using List.reverseRecOn with
  | nil => simp
  | append_singleton list a ih =>
      by_cases h : a ∈ list
      · rwa [eraseDups_concat_of_mem h]
      · rw [eraseDups_concat_of_notMem h, List.nodup_append_comm, List.singleton_append,
          List.nodup_cons, List.mem_eraseDups]
        exact ⟨h, ih⟩

theorem eraseDups_eq_self {list : List α} (h : list.Nodup) :
  list.eraseDups = list
  := by
  induction list using List.reverseRecOn with
  | nil => rfl
  | append_singleton list a ih =>
      rw [List.nodup_append_comm, List.singleton_append, List.nodup_cons] at h
      rw [eraseDups_concat_of_notMem h.1, ih h.2]

end

namespace OcrLanguagesService

/-- Validates a language list and returns its canonical form: codes in the order of the request,
without duplicates.  An empty list selects the default. -/
def resolve (config : OcrConfig) (available : List JsString) (requested : Option JsString) :
    Except AppException JsString :=
  if available = [] then .error ocrUnavailable
  else
    let trimmed := trim (requested.getD [])
    let raw := if trimmed = [] then config.defaultLanguage else trimmed
    let codes := ((split raw 0x2B).map trim).eraseDups
    if codes.length = 0 ∨ config.maxLanguagesPerJob < codes.length
        ∨ codes.any fun code => !isLanguageCode code || !available.contains code then
      .error (ocrUnsupportedLanguage available)
    else .ok (join codes 0x2B)

/-- The codes of a request, or of the default language when the request is blank. -/
def requestedCodes (config : OcrConfig) (requested : Option JsString) : List JsString :=
  let trimmed := trim (requested.getD [])
  (split (if trimmed = [] then config.defaultLanguage else trimmed) 0x2B).map trim

section

variable {config : OcrConfig} {available : List JsString} {requested : Option JsString}
  {language : JsString}

/-- What `resolve` answers: the codes of the request, each at its first occurrence. -/
theorem resolve_eq_ok_iff :
  resolve config available requested = .ok language
    ↔ available ≠ [] ∧ (requestedCodes config requested).eraseDups ≠ []
      ∧ (requestedCodes config requested).eraseDups.length ≤ config.maxLanguagesPerJob
      ∧ (∀ code ∈ (requestedCodes config requested).eraseDups,
        isLanguageCode code = true ∧ code ∈ available)
      ∧ language = join (requestedCodes config requested).eraseDups 0x2B
  := by
  have hresolve : resolve config available requested
      = if available = [] then .error ocrUnavailable
        else
          let codes := (requestedCodes config requested).eraseDups
          if codes.length = 0 ∨ config.maxLanguagesPerJob < codes.length
              ∨ codes.any fun code => !isLanguageCode code || !available.contains code then
            .error (ocrUnsupportedLanguage available)
          else .ok (join codes 0x2B) := rfl
  rw [hresolve]
  generalize (requestedCodes config requested).eraseDups = codes
  by_cases havailable : available = []
  · simp [havailable]
  · rw [if_neg havailable]
    simp only
    split
    · rename_i hrefused
      constructor
      · intro h
        cases h
      · rintro ⟨-, hne, hle, hcodes, -⟩
        rcases hrefused with hnil | hlt | hany
        · exact absurd (List.length_eq_zero_iff.mp hnil) hne
        · exact absurd hlt (Nat.not_lt.mpr hle)
        · obtain ⟨code, hmem, hcode⟩ := List.any_eq_true.mp hany
          simp [hcodes code hmem] at hcode
    · rename_i haccepted
      simp only [not_or, List.length_eq_zero_iff, Nat.not_lt, List.any_eq_true, not_exists, not_and,
        Bool.or_eq_true, Bool.not_eq_true', Bool.not_eq_false, List.contains_iff_mem] at haccepted
      constructor
      · intro h
        exact ⟨havailable, haccepted.1, haccepted.2.1, haccepted.2.2, (Except.ok.inj h).symm⟩
      · rintro ⟨-, -, -, -, rfl⟩
        rfl

/-- A code is not empty and has neither white space nor a `+`. -/
theorem isLanguageCode_chars {code : JsString} (h : isLanguageCode code = true) :
  code ≠ [] ∧ ∀ u ∈ code, isWhiteSpace u = false ∧ u ≠ 0x2B
  := by
  have hletter (u : UInt16) (hu : (0x61 ≤ u && u ≤ 0x7A) = true) :
      isWhiteSpace u = false ∧ u ≠ 0x2B := by
    simp only [Bool.and_eq_true, decide_eq_true_eq, UInt16.le_iff_toNat_le,
      UInt16.reduceToNat] at hu
    simp only [isWhiteSpace, Bool.or_eq_false_iff, Bool.and_eq_false_iff, beq_eq_false_iff_ne,
      decide_eq_false_iff_not, ne_eq, ← UInt16.toNat_inj, UInt16.le_iff_toNat_le,
      UInt16.reduceToNat]
    omega
  simp only [isLanguageCode, Bool.and_eq_true, beq_iff_eq, List.all_eq_true] at h
  obtain ⟨⟨hlength, hstart⟩, hrest⟩ := h
  constructor
  · rintro rfl
    simp at hlength
  · intro u hu
    rw [← List.take_append_drop 3 code, List.mem_append] at hu
    rcases hu with hu | hu
    · exact hletter u (by simpa using hstart u hu)
    · cases hdrop : code.drop 3 with
      | nil => simp [hdrop] at hu
      | cons v letters =>
          rw [hdrop] at hu hrest
          simp only [Bool.and_eq_true, beq_iff_eq, List.all_eq_true] at hrest
          rcases List.mem_cons.mp hu with rfl | hu
          · rw [hrest.1.1]
            decide
          · exact hletter u (by simpa using hrest.2 u hu)

/-- Joined codes are read as the codes they are joined of. -/
theorem requestedCodes_join {codes : List JsString} (hne : codes ≠ [])
    (hcodes : ∀ code ∈ codes, isLanguageCode code = true) :
  requestedCodes config (some (join codes 0x2B)) = codes
  := by
  have hchar (u : UInt16) (hu : u ∈ join codes 0x2B) : isWhiteSpace u = false := by
    rcases mem_intercalate hu with rfl | ⟨code, hcode, hu⟩
    · decide
    · exact ((isLanguageCode_chars (hcodes code hcode)).2 u hu).1
  have htrim : trim (join codes 0x2B) = join codes 0x2B :=
    trim_eq_self (fun u hu => hchar u (List.mem_of_mem_head? hu))
      fun u hu => hchar u (List.mem_of_getLast? hu)
  have hsplit : split (join codes 0x2B) 0x2B = codes := by
    apply List.splitOn_intercalate
    · intro code hcode hmem
      exact ((isLanguageCode_chars (hcodes code hcode)).2 _ hmem).2 rfl
    · exact hne
  have hjoin : join codes 0x2B ≠ [] := by
    intro hnil
    rw [hnil] at hsplit
    have hmem : [] ∈ codes := by
      rw [← hsplit]
      exact List.mem_singleton_self []
    exact (isLanguageCode_chars (hcodes [] hmem)).1 rfl
  have hmap : codes.map trim = codes := by
    conv_rhs => rw [← List.map_id codes]
    apply List.map_congr_left
    intro code hcode
    have hchars := (isLanguageCode_chars (hcodes code hcode)).2
    exact trim_eq_self (fun u hu => (hchars u (List.mem_of_mem_head? hu)).1)
      fun u hu => (hchars u (List.mem_of_getLast? hu)).1
  simp only [requestedCodes, Option.getD_some]
  rw [htrim, if_neg hjoin, hsplit, hmap]

/-- A language is the list of the first occurrences of the requested codes.  It resolves to itself,
and requests share it when their codes are the same but for repetitions. -/
theorem resolve_canonical (config : OcrConfig) (available : List JsString)
    (requested : Option JsString) (language : JsString)
    (h : resolve config available requested = .ok language) :
  ∃ codes, language = join codes 0x2B ∧ codes = firstOccurrences (requestedCodes config requested)
    ∧ codes.Nodup ∧ (∀ code ∈ codes, code ∈ available)
    ∧ codes.length ≤ config.maxLanguagesPerJob
    ∧ resolve config available (some language) = .ok language
    ∧ ∀ available' requested' language',
      resolve config available' requested' = .ok language' →
        (language' = language ↔ firstOccurrences (requestedCodes config requested') = codes)
  := by
  obtain ⟨havailable, hne, hle, hcodes, rfl⟩ := resolve_eq_ok_iff.mp h
  have hlanguage : ∀ code ∈ (requestedCodes config requested).eraseDups,
      isLanguageCode code = true := fun code hcode => (hcodes code hcode).1
  have hself : requestedCodes config
      (some (join (requestedCodes config requested).eraseDups 0x2B))
        = (requestedCodes config requested).eraseDups :=
    requestedCodes_join hne hlanguage
  have hnodup : (requestedCodes config requested).eraseDups.Nodup := nodup_eraseDups _
  refine ⟨(requestedCodes config requested).eraseDups, rfl, eraseDups_eq_firstOccurrences _, hnodup,
    fun code hcode => (hcodes code hcode).2, hle, ?_, ?_⟩
  · rw [resolve_eq_ok_iff, hself, eraseDups_eq_self hnodup]
    exact ⟨havailable, hne, hle, hcodes, rfl⟩
  · intro available' requested' language' h'
    obtain ⟨-, hne', -, hcodes', rfl⟩ := resolve_eq_ok_iff.mp h'
    rw [← eraseDups_eq_firstOccurrences]
    constructor
    · intro heq
      have hself' : requestedCodes config
          (some (join (requestedCodes config requested').eraseDups 0x2B))
            = (requestedCodes config requested').eraseDups :=
        requestedCodes_join hne' fun code hcode => (hcodes' code hcode).1
      rw [← hself', heq, hself]
    · intro heq
      rw [heq]

end

/-- Blanks and a repeated code. -/
theorem resolve_canonical_repeated :
  resolve defaultOcrConfig [js "ind", js "eng"] (some (js "eng+ind")) = .ok (js "eng+ind")
  := by
  have h : resolve defaultOcrConfig [js "ind", js "eng"] (some (js " eng + ind+eng "))
      = .ok (js "eng+ind") := by
    decide
  obtain ⟨codes, -, -, -, -, -, hself, -⟩ := resolve_canonical _ _ _ _ h
  exact hself

end OcrLanguagesService

end DocuAI
