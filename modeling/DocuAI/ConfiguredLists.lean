import DocuAI.Library.Pattern
import DocuAI.Identifiers
import DocuAI.Documents.Writes
import DocuAI.Ocr.Health

/-!
# Configured lists

The content types and the languages of a deployment are lists in variables of the environment.  The
validator checks their texts against patterns at start-up, and the configuration is loaded by taking
the texts apart.  An upload is accepted for exactly the types that are listed, however they are
written, and an installed language can be requested exactly when it is listed.
-/

namespace DocuAI

open JsString

/-- Lower case is what it is in ASCII. -/
def Unicode.LowersAscii (unicode : Unicode) : Prop :=
  ∀ s, (∀ u ∈ s, u < 0x80) → unicode.toLowerCase s = asciiUnicode.toLowerCase s

theorem Unicode.LowersAscii.toLowerCase_nil {unicode : Unicode} (h : unicode.LowersAscii) :
  unicode.toLowerCase [] = []
  := h [] (List.forall_mem_nil _)

namespace Configuration

open Pattern Computability

def comma : UInt16 := 0x2C

/-! ### The patterns -/

/-- `[a-z]`. -/
def isLowerLetter (u : UInt16) : Bool :=
  0x61 ≤ u && u ≤ 0x7A

/-- `[a-z]{3}(_[a-z]+)?`. -/
def LANGUAGE_CODE : Language UInt16 :=
  oneOf isLowerLetter ^ 3 * zeroOrOne (oneOf (· == 0x5F) * oneOrMore (oneOf isLowerLetter))

/-- Codes joined by `+`. -/
def OCR_LANGUAGE_LIST_PATTERN : Language UInt16 :=
  LANGUAGE_CODE * (oneOf (· == 0x2B) * LANGUAGE_CODE)∗

/-- `^\s*item\s*(,\s*item\s*)*$`. -/
def commaSeparated (item : Language UInt16) : Language UInt16 :=
  (oneOf isWhiteSpace)∗ * item * (oneOf isWhiteSpace)∗
    * (oneOf (· == comma) * (oneOf isWhiteSpace)∗ * item * (oneOf isWhiteSpace)∗)∗

def OCR_LANGUAGE_CSV_PATTERN : Language UInt16 :=
  commaSeparated LANGUAGE_CODE

/-- ``[a-z0-9!#$&^_.+-]``, with letters of either case. -/
def isTypeCharacter (u : UInt16) : Bool :=
  (0x30 ≤ u && u ≤ 0x39) || (0x41 ≤ u && u ≤ 0x5A) || (0x61 ≤ u && u ≤ 0x7A)
    || (js "!#$&^_.+-").contains u

/-- A type and a subtype. -/
def MIME_TYPE : Language UInt16 :=
  oneOrMore (oneOf isTypeCharacter) * (oneOf (· == 0x2F) * oneOrMore (oneOf isTypeCharacter))

def MIME_TYPE_LIST_PATTERN : Language UInt16 :=
  commaSeparated MIME_TYPE

/-- `Joi.string().pattern(pattern).allow('').optional()`. -/
def Accepts (pattern : Language UInt16) (value : Option JsString) : Prop :=
  ∀ text ∈ value, text = [] ∨ text ∈ pattern

/-! ### Loading -/

def DEFAULT_ALLOWED_MIME_TYPES : List JsString :=
  [js "application/pdf", js "image/jpeg", js "image/png", js "image/webp"]

section

variable (unicode : Unicode)

/-- The items of a text, in lower case and each once, or the fallback if there are none. -/
def parseCodeList (value : Option JsString) (fallback : List JsString) : List JsString :=
  let parsed := ((split (value.getD []) comma).map fun code => unicode.toLowerCase (trim code)).filter
    (· ≠ [])
  if 0 < parsed.length then parsed.eraseDups else fallback

/-- The source has it as a function of its own, with the same body. -/
def parseMimeList (value : Option JsString) : List JsString :=
  parseCodeList unicode value DEFAULT_ALLOWED_MIME_TYPES

end

/-- `value?.trim() || 'ind+eng'`. -/
def loadDefaultLanguage (value : Option JsString) : JsString :=
  ((value.map trim).filter (· ≠ [])).getD (js "ind+eng")

/-! ### Items -/

theorem isLanguageCode_iff {s : JsString} :
  isLanguageCode s = true ↔ s ∈ LANGUAGE_CODE
  := by
  rw [LANGUAGE_CODE, mem_oneOf_pow_mul, mem_zeroOrOne, mem_oneOf_mul]
  simp only [isLanguageCode, Bool.and_eq_true, beq_iff_eq, List.all_eq_true, mem_oneOrMore_oneOf]
  cases s.drop 3 with
  | nil => simp [isLowerLetter]
  | cons u letters => simp [isLowerLetter, and_assoc]

theorem mem_mimeType {s : JsString} :
  s ∈ MIME_TYPE ↔ ∃ type subtype, s = type ++ 0x2F :: subtype
    ∧ (type ≠ [] ∧ ∀ u ∈ type, isTypeCharacter u = true)
    ∧ subtype ≠ [] ∧ ∀ u ∈ subtype, isTypeCharacter u = true
  := by
  rw [MIME_TYPE, Language.mem_mul]
  constructor
  · rintro ⟨type, htype, rest, hrest, rfl⟩
    obtain ⟨u, subtype, rfl, hu, hsubtype⟩ := mem_oneOf_mul.mp hrest
    obtain rfl := beq_iff_eq.mp hu
    exact ⟨type, subtype, rfl, mem_oneOrMore_oneOf.mp htype, mem_oneOrMore_oneOf.mp hsubtype⟩
  · rintro ⟨type, subtype, rfl, htype, hsubtype⟩
    exact ⟨type, mem_oneOrMore_oneOf.mpr htype, _,
      mem_oneOf_mul.mpr ⟨_, subtype, rfl, rfl, mem_oneOrMore_oneOf.mpr hsubtype⟩, rfl⟩

/-- The same with checks that are evaluated. -/
theorem mem_mimeType_of_all {type subtype : JsString} (hne : type ≠ [] ∧ subtype ≠ [])
    (hall : (type ++ subtype).all isTypeCharacter = true) :
  type ++ 0x2F :: subtype ∈ MIME_TYPE
  := by
  rw [List.all_append, Bool.and_eq_true, List.all_eq_true, List.all_eq_true] at hall
  exact mem_mimeType.mpr ⟨type, subtype, rfl, ⟨hne.1, hall.1⟩, hne.2, hall.2⟩

/-- A character of a type is in ASCII, separates nothing, and has a lower case that is one too. -/
theorem isTypeCharacter_iff {u : UInt16} :
  isTypeCharacter u = true ↔ (0x30 ≤ u.toNat ∧ u.toNat ≤ 0x39) ∨ (0x41 ≤ u.toNat ∧ u.toNat ≤ 0x5A)
    ∨ (0x61 ≤ u.toNat ∧ u.toNat ≤ 0x7A) ∨ u.toNat = 0x21 ∨ u.toNat = 0x23 ∨ u.toNat = 0x24
    ∨ u.toNat = 0x26 ∨ u.toNat = 0x5E ∨ u.toNat = 0x5F ∨ u.toNat = 0x2E ∨ u.toNat = 0x2B
    ∨ u.toNat = 0x2D
  := by
  have hjs : js "!#$&^_.+-" = [0x21, 0x23, 0x24, 0x26, 0x5E, 0x5F, 0x2E, 0x2B, 0x2D] := by
    decide
  simp only [isTypeCharacter, hjs, Bool.or_eq_true, Bool.and_eq_true, decide_eq_true_eq,
    List.contains_iff_mem, List.mem_cons, List.not_mem_nil, or_false, UInt16.le_iff_toNat_le,
    ← UInt16.toNat_inj, UInt16.reduceToNat, or_assoc]

theorem lowerCase_of_isTypeCharacter {u : UInt16} (h : isTypeCharacter u = true) :
  isTypeCharacter (lowerCase u) = true ∧ lowerCase (lowerCase u) = lowerCase u ∧ u < 0x80
    ∧ isWhiteSpace u = false ∧ u ≠ comma ∧ u ≠ 0x3B
  := by
  have hlower := toNat_lowerCase u
  have hagain := toNat_lowerCase (lowerCase u)
  rw [isTypeCharacter_iff] at h
  simp only [isTypeCharacter_iff, isWhiteSpace, comma, Bool.or_eq_false_iff, Bool.and_eq_false_iff,
    beq_eq_false_iff_ne, decide_eq_false_iff_not, ne_eq, ← UInt16.toNat_inj,
    UInt16.le_iff_toNat_le, UInt16.lt_iff_toNat_lt, UInt16.reduceToNat]
  split_ifs at hlower hagain <;> omega

/-- A type is in ASCII, has neither white space nor what follows a type, and is a type in lower case
again. -/
theorem mimeType_clear {s : JsString} (h : s ∈ MIME_TYPE) :
  s ≠ [] ∧ ∀ u ∈ s, isWhiteSpace u = false ∧ u ≠ comma ∧ u ≠ 0x3B ∧ u < 0x80
    ∧ lowerCase (lowerCase u) = lowerCase u
  := by
  obtain ⟨type, subtype, rfl, ⟨hne, htype⟩, -, hsubtype⟩ := mem_mimeType.mp h
  refine ⟨List.append_ne_nil_of_left_ne_nil hne _, fun u hu => ?_⟩
  have hchar {u : UInt16} (hu : isTypeCharacter u = true) := lowerCase_of_isTypeCharacter hu
  rcases List.mem_append.mp hu with hu | hu
  · have hu := hchar (htype u hu)
    exact ⟨hu.2.2.2.1, hu.2.2.2.2.1, hu.2.2.2.2.2, hu.2.2.1, hu.2.1⟩
  · rcases List.mem_cons.mp hu with rfl | hu
    · decide
    · have hu := hchar (hsubtype u hu)
      exact ⟨hu.2.2.2.1, hu.2.2.2.2.1, hu.2.2.2.2.2, hu.2.2.1, hu.2.1⟩

theorem mimeType_map_lowerCase {s : JsString} (h : s ∈ MIME_TYPE) :
  s.map lowerCase ∈ MIME_TYPE
  := by
  obtain ⟨type, subtype, rfl, ⟨hne, htype⟩, hne', hsubtype⟩ := mem_mimeType.mp h
  have hmap {t : JsString} (ht : ∀ u ∈ t, isTypeCharacter u = true) :
      ∀ u ∈ t.map lowerCase, isTypeCharacter u = true := by
    intro u hu
    obtain ⟨v, hv, rfl⟩ := List.mem_map.mp hu
    exact (lowerCase_of_isTypeCharacter (ht v hv)).1
  refine mem_mimeType.mpr ⟨type.map lowerCase, subtype.map lowerCase, ?_, ⟨?_, hmap htype⟩, ?_,
    hmap hsubtype⟩
  · rw [List.map_append, List.map_cons]
    rfl
  · exact mt List.map_eq_nil_iff.mp hne
  · exact mt List.map_eq_nil_iff.mp hne'

/-- A code is in lower case and in ASCII, and has neither white space nor a separator. -/
theorem languageCode_clear {s : JsString} (h : s ∈ LANGUAGE_CODE) :
  s ≠ [] ∧ ∀ u ∈ s, isWhiteSpace u = false ∧ u ≠ comma ∧ u ≠ 0x2B ∧ u < 0x80 ∧ lowerCase u = u
  := by
  have hclear {u : UInt16} (hu : isLowerLetter u = true ∨ u = 0x5F) :
      isWhiteSpace u = false ∧ u ≠ comma ∧ u ≠ 0x2B ∧ u < 0x80 ∧ lowerCase u = u := by
    have hlower := toNat_lowerCase u
    simp only [isLowerLetter, Bool.and_eq_true, decide_eq_true_eq, ← UInt16.toNat_inj,
      UInt16.le_iff_toNat_le, UInt16.reduceToNat] at hu
    simp only [isWhiteSpace, comma, Bool.or_eq_false_iff, Bool.and_eq_false_iff,
      beq_eq_false_iff_ne, decide_eq_false_iff_not, ne_eq, ← UInt16.toNat_inj,
      UInt16.le_iff_toNat_le, UInt16.lt_iff_toNat_lt, UInt16.reduceToNat]
    split_ifs at hlower <;> omega
  obtain ⟨hlength, hstart, hrest⟩ := mem_oneOf_pow_mul.mp h
  refine ⟨?_, fun u hu => ?_⟩
  · rintro rfl
    cases hlength
  · rw [← List.take_append_drop 3 s, List.mem_append] at hu
    rcases hu with hu | hu
    · exact hclear (.inl (hstart u hu))
    · rcases mem_zeroOrOne.mp hrest with hnil | hrest
      · rw [hnil] at hu
        cases hu
      · obtain ⟨v, letters, hdrop, hv, hletters⟩ := mem_oneOf_mul.mp hrest
        rw [hdrop] at hu
        rcases List.mem_cons.mp hu with rfl | hu
        · exact hclear (.inr (beq_iff_eq.mp hv))
        · exact hclear (.inl ((mem_oneOrMore_oneOf.mp hletters).2 u hu))

/-! ### Lists -/

/-- The items of the text of a variable, or of the fallback. -/
def listed (value : Option JsString) (fallback : List JsString) : List JsString :=
  ((value.filter (· ≠ [])).map fun text => split text comma).getD fallback

/-- Without white space nothing is trimmed. -/
theorem trim_of_clear {s : JsString} (h : ∀ u ∈ s, isWhiteSpace u = false) :
  trim s = s
  := trim_eq_self (fun u hu => h u (List.mem_of_mem_head? hu)) fun u hu => h u (List.mem_of_getLast? hu)

section

variable {unicode : Unicode} {item : Language UInt16} {value : Option JsString}
  {fallback list : List JsString}
  (hitem : ∀ s ∈ item, s ≠ [] ∧ ∀ u ∈ s, isWhiteSpace u = false ∧ u ≠ comma)

include hitem

/-- A text matches when its pieces are items, white space aside. -/
theorem mem_commaSeparated {s : JsString} :
  s ∈ commaSeparated item ↔ ∀ piece ∈ split s comma, trim piece ∈ item
  := by
  have hclear : ∀ s ∈ (oneOf isWhiteSpace)∗ * item * (oneOf isWhiteSpace)∗, comma ∉ s := by
    rintro _ ⟨_, ⟨before, hbefore, body, hbody, rfl⟩, after, hafter, rfl⟩ hmem
    rcases List.mem_append.mp hmem with hmem | hmem
    · rcases List.mem_append.mp hmem with hmem | hmem
      · cases mem_kstar_oneOf.mp hbefore _ hmem
      · exact ((hitem body hbody).2 _ hmem).2 rfl
    · cases mem_kstar_oneOf.mp hafter _ hmem
  have hshape : commaSeparated item = (oneOf isWhiteSpace)∗ * item * (oneOf isWhiteSpace)∗
      * (oneOf (· == comma) * ((oneOf isWhiteSpace)∗ * item * (oneOf isWhiteSpace)∗))∗ := by
    simp only [commaSeparated, mul_assoc]
  rw [hshape, mem_separated hclear]
  refine forall₂_congr fun piece _ => ?_
  apply mem_padded
  exact fun s hs => ⟨(hitem s hs).1, fun u hu => ((hitem s hs).2 u hu).1⟩

/-- The items of a variable that the validator accepts. -/
theorem trim_mem_of_listed (hvalue : Accepts (commaSeparated item) value)
    (hfallback : ∀ s ∈ fallback, s ∈ item) {piece : JsString} (hpiece : piece ∈ listed value fallback) :
  trim piece ∈ item
  := by
  unfold listed at hpiece
  cases htext : value.filter (· ≠ []) with
  | none =>
      rw [htext] at hpiece
      have hpiece := hfallback piece hpiece
      rwa [trim_of_clear fun u hu => ((hitem piece hpiece).2 u hu).1]
  | some text =>
      rw [htext] at hpiece
      obtain ⟨htext, hne⟩ := Option.filter_eq_some_iff.mp htext
      have hpattern := (hvalue text htext).resolve_left (of_decide_eq_true hne)
      exact (mem_commaSeparated hitem).mp hpattern piece hpiece

/-- What is loaded from a text that the validator accepts: its items in lower case, each once. -/
theorem parseCodeList_of_accepts (hunicode : unicode.LowersAscii)
    (hvalue : Accepts (commaSeparated item) value)
    (hlower : ∀ s ∈ item, unicode.toLowerCase s ∈ item
      ∧ unicode.toLowerCase (unicode.toLowerCase s) = unicode.toLowerCase s)
    (hfallback : fallback ≠ [] ∧ fallback.Nodup
      ∧ ∀ s ∈ fallback, s ∈ item ∧ unicode.toLowerCase s = s) :
  parseCodeList unicode value fallback ≠ [] ∧ (parseCodeList unicode value fallback).Nodup
  ∧ (∀ s ∈ parseCodeList unicode value fallback, s ∈ item ∧ unicode.toLowerCase s = s)
  ∧ ∀ s, s ∈ parseCodeList unicode value fallback
    ↔ ∃ piece ∈ listed value fallback, unicode.toLowerCase (trim piece) = s
  := by
  by_cases htext : value.getD [] = []
  · -- There is no text, or an empty one.
    have hparse : parseCodeList unicode value fallback = fallback := by
      rw [parseCodeList, htext]
      exact if_neg (by simp [split, trim, hunicode.toLowerCase_nil])
    have hlisted : listed value fallback = fallback := by
      cases value with
      | none => rfl
      | some text =>
          obtain rfl : text = [] := htext
          rfl
    rw [hparse, hlisted]
    refine ⟨hfallback.1, hfallback.2.1, hfallback.2.2, fun s => ?_⟩
    have hself {s : JsString} (hs : s ∈ fallback) : unicode.toLowerCase (trim s) = s := by
      obtain ⟨hmem, heq⟩ := hfallback.2.2 s hs
      rw [trim_of_clear fun u hu => ((hitem s hmem).2 u hu).1, heq]
    constructor
    · exact fun hs => ⟨s, hs, hself hs⟩
    · rintro ⟨piece, hpiece, rfl⟩
      rwa [hself hpiece]
  · obtain ⟨text, rfl, hne⟩ : ∃ text, value = some text ∧ text ≠ [] := by
      cases value with
      | none => exact absurd rfl htext
      | some text => exact ⟨text, rfl, htext⟩
    have hpieces : ∀ piece ∈ split text comma, trim piece ∈ item :=
      (mem_commaSeparated hitem).mp ((hvalue text rfl).resolve_left hne)
    have hfilter : ((split text comma).map fun code => unicode.toLowerCase (trim code)).filter (· ≠ [])
        = (split text comma).map fun code => unicode.toLowerCase (trim code) := by
      rw [List.filter_eq_self]
      intro s hs
      obtain ⟨piece, hpiece, rfl⟩ := List.mem_map.mp hs
      exact decide_eq_true (hitem _ (hlower _ (hpieces piece hpiece)).1).1
    have hparse : parseCodeList unicode (some text) fallback
        = ((split text comma).map fun code => unicode.toLowerCase (trim code)).eraseDups := by
      rw [parseCodeList, Option.getD_some, hfilter]
      apply if_pos
      rw [List.length_map]
      exact List.length_pos_of_ne_nil (List.splitOn_ne_nil comma text)
    have hlisted : listed (some text) fallback = split text comma := by
      simp [listed, Option.filter, hne]
    have hmem (s : JsString) : s ∈ parseCodeList unicode (some text) fallback
        ↔ ∃ piece ∈ split text comma, unicode.toLowerCase (trim piece) = s := by
      rw [hparse, List.mem_eraseDups, List.mem_map]
    rw [hlisted]
    refine ⟨?_, hparse ▸ nodup_eraseDups _, ?_, hmem⟩
    · obtain ⟨piece, hpiece⟩ := List.exists_mem_of_ne_nil _ (List.splitOn_ne_nil comma text)
      exact List.ne_nil_of_mem ((hmem _).mpr ⟨piece, hpiece, rfl⟩)
    · intro s hs
      obtain ⟨piece, hpiece, rfl⟩ := (hmem s).mp hs
      exact hlower _ (hpieces piece hpiece)

/-- A list of items is read back from its text. -/
theorem parseCodeList_join (hne : list ≠ []) (hnodup : list.Nodup)
    (hlist : ∀ s ∈ list, s ∈ item ∧ unicode.toLowerCase s = s) :
  join list comma ∈ commaSeparated item
  ∧ parseCodeList unicode (some (join list comma)) fallback = list
  := by
  have hsplit : split (join list comma) comma = list :=
    List.splitOn_intercalate comma
      (fun s hs hmem => ((hitem s (hlist s hs).1).2 comma hmem).2 rfl) hne
  have htrim {s : JsString} (hs : s ∈ list) : trim s = s :=
    trim_of_clear fun u hu => ((hitem s (hlist s hs).1).2 u hu).1
  have hmap : (list.map fun code => unicode.toLowerCase (trim code)) = list := by
    conv_rhs => rw [← List.map_id list]
    apply List.map_congr_left
    intro s hs
    rw [htrim hs, (hlist s hs).2]
    rfl
  have hfilter : list.filter (· ≠ []) = list := by
    rw [List.filter_eq_self]
    exact fun s hs => decide_eq_true (hitem s (hlist s hs).1).1
  constructor
  · rw [mem_commaSeparated hitem, hsplit]
    intro s hs
    rw [htrim hs]
    exact (hlist s hs).1
  · rw [parseCodeList, Option.getD_some, hsplit, hmap, hfilter]
    exact (if_pos (List.length_pos_of_ne_nil hne)).trans (eraseDups_eq_self hnodup)

end

/-! ### Content types -/

/-- What a listed type is for an upload that declares it. -/
theorem normalizeMimeType_of_trim {unicode : Unicode} {piece : JsString} (h : trim piece ∈ MIME_TYPE) :
  normalizeMimeType unicode piece = unicode.toLowerCase (trim piece)
  := by
  have hclear := mimeType_clear h
  have hmem : piece ∈ (oneOf isWhiteSpace)∗ * MIME_TYPE * (oneOf isWhiteSpace)∗ :=
    (mem_padded fun s hs => ⟨(mimeType_clear hs).1, fun u hu => ((mimeType_clear hs).2 u hu).1⟩).mpr h
  obtain ⟨_, ⟨before, hbefore, body, hbody, rfl⟩, after, hafter, rfl⟩ := hmem
  have hsemicolon : isWhiteSpace 0x3B = false := by decide
  have hall : ∀ u ∈ before ++ body ++ after, decide (u ≠ 0x3B) = true := by
    intro u hu
    rw [decide_eq_true_eq]
    rintro rfl
    rcases List.mem_append.mp hu with hu | hu
    · rcases List.mem_append.mp hu with hu | hu
      · cases hsemicolon.symm.trans (mem_kstar_oneOf.mp hbefore _ hu)
      · exact ((mimeType_clear hbody).2 _ hu).2.2.1 rfl
    · cases hsemicolon.symm.trans (mem_kstar_oneOf.mp hafter _ hu)
  unfold normalizeMimeType
  congr 2
  exact List.takeWhile_eq_self_iff.mpr hall

section

variable {unicode : Unicode} (hunicode : unicode.LowersAscii)

include hunicode

theorem toLowerCase_mimeType {s : JsString} (h : s ∈ MIME_TYPE) :
  unicode.toLowerCase s ∈ MIME_TYPE
  ∧ unicode.toLowerCase (unicode.toLowerCase s) = unicode.toLowerCase s
  := by
  have hlower {s : JsString} (h : s ∈ MIME_TYPE) : unicode.toLowerCase s = s.map lowerCase := by
    rw [hunicode s fun u hu => ((mimeType_clear h).2 u hu).2.2.2.1, toLowerCase_eq_map]
  have hmem := mimeType_map_lowerCase h
  rw [hlower h, hlower hmem, List.map_map]
  refine ⟨hmem, List.map_congr_left fun u hu => ?_⟩
  exact ((mimeType_clear h).2 u hu).2.2.2.2

theorem defaultMimeTypes :
  DEFAULT_ALLOWED_MIME_TYPES ≠ [] ∧ DEFAULT_ALLOWED_MIME_TYPES.Nodup
  ∧ ∀ s ∈ DEFAULT_ALLOWED_MIME_TYPES, s ∈ MIME_TYPE ∧ unicode.toLowerCase s = s
  := by
  refine ⟨List.cons_ne_nil _ _, by decide, ?_⟩
  have htype {type subtype : JsString} (hne : type ≠ [] ∧ subtype ≠ [])
      (hall : (type ++ subtype).all isTypeCharacter = true)
      (hmap : (type ++ 0x2F :: subtype).map lowerCase = type ++ 0x2F :: subtype) :
      type ++ 0x2F :: subtype ∈ MIME_TYPE
        ∧ unicode.toLowerCase (type ++ 0x2F :: subtype) = type ++ 0x2F :: subtype := by
    have hmem := mem_mimeType_of_all hne hall
    refine ⟨hmem, ?_⟩
    rw [hunicode _ fun u hu => ((mimeType_clear hmem).2 u hu).2.2.2.1, toLowerCase_eq_map, hmap]
  intro s hs
  have hsplit : s = js "application" ++ 0x2F :: js "pdf" ∨ s = js "image" ++ 0x2F :: js "jpeg"
      ∨ s = js "image" ++ 0x2F :: js "png" ∨ s = js "image" ++ 0x2F :: js "webp" := by
    simp only [DEFAULT_ALLOWED_MIME_TYPES, List.mem_cons, List.not_mem_nil, or_false] at hs
    exact hs
  rcases hsplit with rfl | rfl | rfl | rfl <;>
    exact htype (by decide) (by decide) (by decide)

/-- Uploads are accepted for the listed types.  Whatever text the validator accepts, the types that
the configuration has from it are at least one and distinct, an upload is let through by its type
exactly when that is one of the listed types, parameters, letter case and white space aside, and the
types written as a list are accepted at start-up and give the same types again. -/
theorem listed_types_accepted {value : Option JsString}
    (hvalue : Accepts MIME_TYPE_LIST_PATTERN value) {config : DocumentsConfig}
    (hconfig : config.allowedMimeTypes = parseMimeList unicode value) :
  config.allowedMimeTypes ≠ [] ∧ config.allowedMimeTypes.Nodup
  ∧ (∀ raw, (∃ type, DocumentFilesService.validateContentType config unicode raw = .ok type)
    ↔ ∃ item ∈ listed value DEFAULT_ALLOWED_MIME_TYPES,
      normalizeMimeType unicode item = normalizeMimeType unicode raw)
  ∧ join config.allowedMimeTypes comma ∈ MIME_TYPE_LIST_PATTERN
  ∧ parseMimeList unicode (some (join config.allowedMimeTypes comma)) = config.allowedMimeTypes
  := by
  have hclear (s : JsString) (hs : s ∈ MIME_TYPE) :
      s ≠ [] ∧ ∀ u ∈ s, isWhiteSpace u = false ∧ u ≠ comma :=
    ⟨(mimeType_clear hs).1, fun u hu => ⟨((mimeType_clear hs).2 u hu).1,
      ((mimeType_clear hs).2 u hu).2.1⟩⟩
  have hlower (s : JsString) (hs : s ∈ MIME_TYPE) := toLowerCase_mimeType hunicode hs
  have hdefault := defaultMimeTypes hunicode
  obtain ⟨hne, hnodup, hmem, hitems⟩ :=
    parseCodeList_of_accepts hclear hunicode hvalue hlower hdefault
  have hlisted {item : JsString} (hitem : item ∈ listed value DEFAULT_ALLOWED_MIME_TYPES) :
      trim item ∈ MIME_TYPE :=
    trim_mem_of_listed hclear hvalue (fun s hs => (hdefault.2.2 s hs).1) hitem
  have hread : join (parseMimeList unicode value) comma ∈ MIME_TYPE_LIST_PATTERN
      ∧ parseMimeList unicode (some (join (parseMimeList unicode value) comma))
        = parseMimeList unicode value :=
    parseCodeList_join hclear hne hnodup hmem
  obtain ⟨maxFileSizeBytes, types⟩ := config
  obtain rfl : types = parseMimeList unicode value := hconfig
  refine ⟨hne, hnodup, fun raw => ?_, hread⟩
  have hvalid : (∃ type, DocumentFilesService.validateContentType
        ⟨maxFileSizeBytes, parseMimeList unicode value⟩ unicode raw = .ok type)
      ↔ normalizeMimeType unicode raw ∈ parseMimeList unicode value := by
    unfold DocumentFilesService.validateContentType
    simp only
    split
    · rename_i h
      simp [h]
    · rename_i h
      simp [h]
  rw [hvalid, parseMimeList, hitems]
  constructor
  · rintro ⟨item, hitem, heq⟩
    exact ⟨item, hitem, (normalizeMimeType_of_trim (hlisted hitem)).trans heq⟩
  · rintro ⟨item, hitem, heq⟩
    exact ⟨item, hitem, (normalizeMimeType_of_trim (hlisted hitem)).symm.trans heq⟩

end

/-- Two types, written with blanks and capitals. -/
def sampleTypes : DocumentsConfig where
  maxFileSizeBytes := 1024
  allowedMimeTypes := parseMimeList asciiUnicode (some (js " Image/PNG , application/pdf"))

theorem lowersAscii_asciiUnicode :
  asciiUnicode.LowersAscii
  := fun _ _ => rfl

/-- An upload that declares one of them with a parameter. -/
theorem listed_types_accepted_of_blanks :
  sampleTypes.allowedMimeTypes = [js "image/png", js "application/pdf"]
  ∧ ∃ type, DocumentFilesService.validateContentType sampleTypes asciiUnicode (js "Image/PNG; q=1")
    = .ok type
  := by
  have hvalue : Accepts MIME_TYPE_LIST_PATTERN (some (js " Image/PNG , application/pdf")) := by
    intro text htext
    obtain rfl := Option.mem_some_iff.mp htext
    right
    rw [MIME_TYPE_LIST_PATTERN, mem_commaSeparated fun s hs => ⟨(mimeType_clear hs).1, fun u hu =>
      ⟨((mimeType_clear hs).2 u hu).1, ((mimeType_clear hs).2 u hu).2.1⟩⟩]
    have hsplit : split (js " Image/PNG , application/pdf") comma
        = [js " Image/PNG ", js " application/pdf"] := by
      decide
    have hpng : trim (js " Image/PNG ") = js "Image" ++ 0x2F :: js "PNG" := by decide
    have hpdf : trim (js " application/pdf") = js "application" ++ 0x2F :: js "pdf" := by
      decide
    rw [hsplit, List.forall_mem_cons, List.forall_mem_singleton, hpng, hpdf]
    exact ⟨mem_mimeType_of_all (by decide) (by decide), mem_mimeType_of_all (by decide) (by decide)⟩
  have hconfig : sampleTypes.allowedMimeTypes
      = parseMimeList asciiUnicode (some (js " Image/PNG , application/pdf")) := rfl
  obtain ⟨-, -, haccepted, -⟩ := listed_types_accepted lowersAscii_asciiUnicode hvalue hconfig
  refine ⟨by decide, (haccepted _).mpr ⟨js " Image/PNG ", ?_, ?_⟩⟩
  · decide
  · decide

/-! ### Languages -/

theorem toLowerCase_languageCode {unicode : Unicode} (hunicode : unicode.LowersAscii) {s : JsString}
    (h : s ∈ LANGUAGE_CODE) :
  unicode.toLowerCase s = s
  := by
  rw [hunicode s fun u hu => ((languageCode_clear h).2 u hu).2.2.2.1, toLowerCase_eq_map]
  conv_rhs => rw [← List.map_id s]
  exact List.map_congr_left fun u hu => ((languageCode_clear h).2 u hu).2.2.2.2

/-- A default language that the validator accepts is codes joined by `+`. -/
theorem defaultLanguage_codes {value : Option JsString}
    (h : Accepts OCR_LANGUAGE_LIST_PATTERN value) :
  ∀ code ∈ split (loadDefaultLanguage value) 0x2B, isLanguageCode code = true
  := by
  have hfallback : ∀ code ∈ split (js "ind+eng") 0x2B, isLanguageCode code = true := by
    decide
  cases value with
  | none => exact hfallback
  | some text =>
      rcases h text rfl with rfl | htext
      · exact hfallback
      · have hcodes := (mem_separated fun s hs hmem => ((languageCode_clear hs).2 _ hmem).2.2.1 rfl).mp
          htext
        have hjoin : text = join (split text 0x2B) 0x2B := (List.intercalate_splitOn 0x2B).symm
        have htrim : trim text = text := by
          apply trim_of_clear
          intro u hu
          rw [hjoin] at hu
          rcases mem_intercalate hu with rfl | ⟨code, hcode, hu⟩
          · decide
          · exact ((languageCode_clear (hcodes code hcode)).2 u hu).1
        unfold loadDefaultLanguage
        rw [Option.map_some, htrim]
        by_cases hne : text = []
        · rw [hne]
          exact hfallback
        · rw [Option.filter_some, if_pos (decide_eq_true hne), Option.getD_some]
          exact fun code hcode => isLanguageCode_iff.mpr (hcodes code hcode)

/-- Languages are offered as they are listed.  Whatever texts the validator accepts, the languages
that the configuration has from them are distinct, and those of the text; a single code is accepted
in a request exactly when it is listed and installed; and a request that names no language is
accepted exactly when all codes of the default language are, and are not too many. -/
theorem listed_languages_offered {unicode : Unicode} (hunicode : unicode.LowersAscii)
    {languages defaultLanguage : Option JsString}
    (hlanguages : Accepts OCR_LANGUAGE_CSV_PATTERN languages)
    (hdefault : Accepts OCR_LANGUAGE_LIST_PATTERN defaultLanguage) {config : OcrServiceConfig}
    (hsupported : config.supportedLanguages
      = parseCodeList unicode languages DEFAULT_OCR_LANGUAGES)
    (hloaded : config.defaultLanguage = loadDefaultLanguage defaultLanguage)
    (hmax : 1 ≤ config.maxLanguagesPerJob) (info : Option OcrEngineInfo) (now : ℕ) :
  config.supportedLanguages.Nodup
  ∧ (∀ code, code ∈ config.supportedLanguages
    ↔ ∃ item ∈ listed languages DEFAULT_OCR_LANGUAGES, trim item = code)
  ∧ (∀ code, 0x2B ∉ code →
    (OcrLanguagesService.resolve config.toOcrConfig
        (OcrLanguagesService.probe config info now).available (some code) = .ok code
      ↔ code ∈ config.supportedLanguages ∧ code ∈ installedLanguages info))
  ∧ ((∃ language, OcrLanguagesService.resolve config.toOcrConfig
        (OcrLanguagesService.probe config info now).available none = .ok language)
    ↔ (∀ code ∈ split config.defaultLanguage 0x2B,
        code ∈ config.supportedLanguages ∧ code ∈ installedLanguages info)
      ∧ (split config.defaultLanguage 0x2B).eraseDups.length ≤ config.maxLanguagesPerJob)
  := by
  have hclear (s : JsString) (hs : s ∈ LANGUAGE_CODE) :
      s ≠ [] ∧ ∀ u ∈ s, isWhiteSpace u = false ∧ u ≠ comma :=
    ⟨(languageCode_clear hs).1, fun u hu => ⟨((languageCode_clear hs).2 u hu).1,
      ((languageCode_clear hs).2 u hu).2.1⟩⟩
  have hlower (s : JsString) (hs : s ∈ LANGUAGE_CODE) := toLowerCase_languageCode hunicode hs
  have hfallback : DEFAULT_OCR_LANGUAGES ≠ [] ∧ DEFAULT_OCR_LANGUAGES.Nodup
      ∧ ∀ s ∈ DEFAULT_OCR_LANGUAGES, s ∈ LANGUAGE_CODE ∧ unicode.toLowerCase s = s := by
    have hcodes : ∀ s ∈ DEFAULT_OCR_LANGUAGES, isLanguageCode s = true := by decide
    refine ⟨List.cons_ne_nil _ _, by decide, fun s hs => ?_⟩
    have hs := isLanguageCode_iff.mp (hcodes s hs)
    exact ⟨hs, hlower s hs⟩
  have hcodes : ∀ code ∈ split config.defaultLanguage 0x2B, isLanguageCode code = true :=
    hloaded ▸ defaultLanguage_codes hdefault
  have hlowered (s : JsString) (hs : s ∈ LANGUAGE_CODE) : unicode.toLowerCase s ∈ LANGUAGE_CODE
      ∧ unicode.toLowerCase (unicode.toLowerCase s) = unicode.toLowerCase s := by
    rw [hlower s hs, hlower s hs]
    exact ⟨hs, rfl⟩
  obtain ⟨-, hnodup, hmem, hitems⟩ :=
    parseCodeList_of_accepts hclear hunicode hlanguages hlowered hfallback
  rw [← hsupported] at hnodup hmem hitems
  refine ⟨hnodup, fun code => ?_, fun code hplus => ?_, ?_⟩
  · have hlisted {item : JsString} (hitem : item ∈ listed languages DEFAULT_OCR_LANGUAGES) :
        unicode.toLowerCase (trim item) = trim item :=
      hlower _ (trim_mem_of_listed hclear hlanguages (fun s hs => (hfallback.2.2 s hs).1) hitem)
    rw [hitems]
    constructor
    · rintro ⟨item, hitem, heq⟩
      exact ⟨item, hitem, (hlisted hitem).symm.trans heq⟩
    · rintro ⟨item, hitem, heq⟩
      exact ⟨item, hitem, (hlisted hitem).trans heq⟩
  · constructor
    · intro h
      have hsplit : split code 0x2B = [code] :=
        List.splitOnP_eq_singleton fun u hu => beq_false_of_ne fun heq => hplus (heq ▸ hu)
      have hcode := OcrLanguagesService.split_of_resolve h code (hsplit ▸ List.mem_singleton_self code)
      exact OcrLanguagesService.mem_available.mp hcode.2
    · intro h
      have havailable : code ∈ (OcrLanguagesService.probe config info now).available :=
        OcrLanguagesService.mem_available.mpr h
      have hcode := isLanguageCode_iff.mpr (hmem code h.1).1
      have hjoin : join [code] 0x2B = code := List.intercalate_singleton
      have hrequested : OcrLanguagesService.requestedCodes config.toOcrConfig (some (join [code] 0x2B))
          = [code] :=
        OcrLanguagesService.requestedCodes_join (List.cons_ne_nil code [])
          (List.forall_mem_singleton.mpr hcode)
      rw [hjoin] at hrequested
      rw [OcrLanguagesService.resolve_eq_ok_iff, hrequested,
        eraseDups_eq_self (List.nodup_singleton code)]
      exact ⟨List.ne_nil_of_mem havailable, List.cons_ne_nil code [], hmax,
        List.forall_mem_singleton.mpr ⟨hcode, havailable⟩, hjoin.symm⟩
  · constructor
    · rintro ⟨language, h⟩
      obtain ⟨-, -, hle, havailable, -⟩ := OcrLanguagesService.resolve_eq_ok_iff.mp h
      rw [HealthController.requestedCodes_none hcodes] at hle havailable
      refine ⟨fun code hcode => ?_, hle⟩
      exact OcrLanguagesService.mem_available.mp (havailable code (List.mem_eraseDups.mpr hcode)).2
    · rintro ⟨hoffered, hle⟩
      refine (HealthController.resolve_none_iff hcodes ?_).mpr hle
      exact OcrLanguagesService.defaultAvailable_iff.mpr fun code hcode =>
        OcrLanguagesService.mem_available.mpr (hoffered code hcode)

/-- Two languages, one of them installed and the default. -/
def sampleLanguages : OcrServiceConfig :=
  { defaultOcrServiceConfig with
    supportedLanguages :=
      parseCodeList asciiUnicode (some (js "eng, chi_sim")) DEFAULT_OCR_LANGUAGES
    defaultLanguage := loadDefaultLanguage (some (js "eng")) }

theorem listed_languages_offered_of_two :
  sampleLanguages.supportedLanguages = [js "eng", js "chi_sim"]
  ∧ ∀ info, installedLanguages info = [js "eng", js "fra"] →
    OcrLanguagesService.resolve sampleLanguages.toOcrConfig
        (OcrLanguagesService.probe sampleLanguages info 0).available (some (js "eng")) = .ok (js "eng")
    ∧ ∃ language, OcrLanguagesService.resolve sampleLanguages.toOcrConfig
      (OcrLanguagesService.probe sampleLanguages info 0).available none = .ok language
  := by
  have hlanguages : Accepts OCR_LANGUAGE_CSV_PATTERN (some (js "eng, chi_sim")) := by
    intro text htext
    obtain rfl := Option.mem_some_iff.mp htext
    have hcodes : ∀ piece ∈ split (js "eng, chi_sim") comma, isLanguageCode (trim piece) = true := by
      decide
    right
    rw [OCR_LANGUAGE_CSV_PATTERN, mem_commaSeparated fun s hs => ⟨(languageCode_clear hs).1,
      fun u hu => ⟨((languageCode_clear hs).2 u hu).1, ((languageCode_clear hs).2 u hu).2.1⟩⟩]
    exact fun piece hpiece => isLanguageCode_iff.mp (hcodes piece hpiece)
  have hdefault : Accepts OCR_LANGUAGE_LIST_PATTERN (some (js "eng")) := by
    intro text htext
    obtain rfl := Option.mem_some_iff.mp htext
    have hcode : isLanguageCode (js "eng") = true := by decide
    exact .inr ⟨_, isLanguageCode_iff.mp hcode, [], Language.nil_mem_kstar _, List.append_nil _⟩
  have hsupported : sampleLanguages.supportedLanguages = [js "eng", js "chi_sim"] := by
    decide
  have hloaded : sampleLanguages.defaultLanguage = loadDefaultLanguage (some (js "eng")) := rfl
  have hparsed : sampleLanguages.supportedLanguages
      = parseCodeList asciiUnicode (some (js "eng, chi_sim")) DEFAULT_OCR_LANGUAGES := rfl
  refine ⟨hsupported, fun info hinfo => ?_⟩
  obtain ⟨-, -, hsingle, hnone⟩ := listed_languages_offered lowersAscii_asciiUnicode hlanguages
    hdefault hparsed hloaded (by decide) info 0
  rw [hsupported, hinfo] at hsingle hnone
  exact ⟨(hsingle _ (by decide)).mpr (by decide), hnone.mpr (by decide)⟩

end Configuration

end DocuAI
