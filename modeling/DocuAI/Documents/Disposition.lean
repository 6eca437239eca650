import DocuAI.UriComponent
import DocuAI.Documents.FileName

/-!
# The disposition of a download

The header that names a download holds the name twice: as a quoted string of ASCII characters, and
as an RFC 5987 value with its bytes in UTF-8.  Whatever the name is, the header has these two
parameters and no others, and the name is read back from the second one.
-/

namespace DocuAI

open JsString

/-! ### Reading a header -/

/-- The double quote. -/
def quote : UInt16 := 0x22

/-- The semicolon. -/
def semicolon : UInt16 := 0x3B

/-- The characters of RFC 5987 that an extended value holds unescaped, `attr-char`. -/
def isAttrChar (u : UInt16) : Bool :=
  (0x30 ≤ u && u ≤ 0x39) || (0x41 ≤ u && u ≤ 0x5A) || (0x61 ≤ u && u ≤ 0x7A)
    || (js "!#$&+-.^_`|~").contains u

/-- A character that ends no part of a header and opens no quoted string. -/
def isPlain (u : UInt16) : Bool :=
  u != semicolon && u != quote

/-- The parts of a header between its semicolons.  A semicolon in a quoted string is no end of a
part, and a backslash there takes the character after it for what it is. -/
def splitParameters : Bool → JsString → JsString → List JsString
  | _, part, [] => [part]
  | false, part, u :: rest =>
      if u = semicolon then part :: splitParameters false [] rest
      else splitParameters (u = quote) (part ++ [u]) rest
  | true, part, u :: rest =>
      if u = backslash then
        match rest with
        | [] => [part ++ [u]]
        | v :: rest => splitParameters true (part ++ [u, v]) rest
      else splitParameters (u ≠ quote) (part ++ [u]) rest

theorem isPlain_iff (u : UInt16) :
  isPlain u = true ↔ u ≠ semicolon ∧ u ≠ quote
  := by
  simp [isPlain]

theorem splitParameters_append {text : JsString} (h : ∀ u ∈ text, isPlain u = true)
    (part rest : JsString) :
  splitParameters false part (text ++ rest) = splitParameters false (part ++ text) rest
  := by
  induction text generalizing part with
  | nil => rw [List.nil_append, List.append_nil]
  | cons u text ih =>
      rw [List.forall_mem_cons, isPlain_iff] at h
      rw [List.cons_append, splitParameters, if_neg h.1.1, decide_eq_false h.1.2, ih h.2,
        List.append_assoc, List.singleton_append]

theorem splitParameters_append_quoted {text : JsString}
    (h : ∀ u ∈ text, u ≠ quote ∧ u ≠ backslash) (part rest : JsString) :
  splitParameters true part (text ++ rest) = splitParameters true (part ++ text) rest
  := by
  induction text generalizing part with
  | nil => rw [List.nil_append, List.append_nil]
  | cons u text ih =>
      rw [List.forall_mem_cons] at h
      rw [List.cons_append]
      conv_lhs => unfold splitParameters
      rw [if_neg h.1.2, decide_eq_true h.1.1, ih h.2, List.append_assoc, List.singleton_append]

/-! ### The extended value -/

/-- A character that `encodeURIComponent` keeps and RFC 5987 does not, escaped. -/
def escapeUnit (u : UInt16) : JsString :=
  if (js "'()*").contains u then percentEncode u.toNat else [u]

/-- What may stand in an extended value: a percent sign, a hexadecimal digit or an `attr-char`. -/
def isValueChar (u : UInt16) : Bool :=
  u == percent || (hexValue u).isSome || isAttrChar u

theorem isAttrChar_iff (u : UInt16) :
  isAttrChar u = true
    ↔ (0x30 ≤ u.toNat ∧ u.toNat ≤ 0x39) ∨ (0x41 ≤ u.toNat ∧ u.toNat ≤ 0x5A)
      ∨ (0x61 ≤ u.toNat ∧ u.toNat ≤ 0x7A)
      ∨ u.toNat ∈ [0x21, 0x23, 0x24, 0x26, 0x2B, 0x2D, 0x2E, 0x5E, 0x5F, 0x60, 0x7C, 0x7E]
  := by
  have hsymbols : js "!#$&+-.^_`|~"
      = [0x21, 0x23, 0x24, 0x26, 0x2B, 0x2D, 0x2E, 0x5E, 0x5F, 0x60, 0x7C, 0x7E] := by
    decide
  simp only [isAttrChar, hsymbols, Bool.or_eq_true, Bool.and_eq_true, decide_eq_true_eq,
    List.contains_iff_mem, List.mem_cons, List.not_mem_nil, or_false, UInt16.le_iff_toNat_le,
    ← UInt16.toNat_inj, UInt16.reduceToNat, or_assoc]

theorem isUnescaped_iff (u : UInt16) :
  isUnescaped u = true
    ↔ (0x30 ≤ u.toNat ∧ u.toNat ≤ 0x39) ∨ (0x41 ≤ u.toNat ∧ u.toNat ≤ 0x5A)
      ∨ (0x61 ≤ u.toNat ∧ u.toNat ≤ 0x7A)
      ∨ u.toNat ∈ [0x2D, 0x5F, 0x2E, 0x21, 0x7E, 0x2A, 0x27, 0x28, 0x29]
  := by
  have hmarks : js "-_.!~*'()" = [0x2D, 0x5F, 0x2E, 0x21, 0x7E, 0x2A, 0x27, 0x28, 0x29] := by
    decide
  simp only [isUnescaped, hmarks, Bool.or_eq_true, Bool.and_eq_true, decide_eq_true_eq,
    List.contains_iff_mem, List.mem_cons, List.not_mem_nil, or_false, UInt16.le_iff_toNat_le,
    ← UInt16.toNat_inj, UInt16.reduceToNat, or_assoc]

theorem isEscaped_iff (u : UInt16) :
  (js "'()*").contains u = true ↔ u.toNat ∈ [0x27, 0x28, 0x29, 0x2A]
  := by
  have hescaped : js "'()*" = [0x27, 0x28, 0x29, 0x2A] := by decide
  simp only [hescaped, List.contains_iff_mem, List.mem_cons, List.not_mem_nil, or_false,
    ← UInt16.toNat_inj, UInt16.reduceToNat]

/-- What may stand in an extended value is printable, and neither a quote nor a backslash nor a
semicolon. -/
theorem toNat_of_isValueChar {u : UInt16} (h : isValueChar u = true) :
  0x20 ≤ u.toNat ∧ u.toNat ≤ 0x7E ∧ u.toNat ≠ 0x22 ∧ u.toNat ≠ 0x3B ∧ u.toNat ≠ 0x5C
  := by
  simp only [isValueChar, Bool.or_eq_true, beq_iff_eq, isAttrChar_iff, List.mem_cons,
    List.not_mem_nil, or_false, percent, ← UInt16.toNat_inj, UInt16.reduceToNat] at h
  rcases h with (hpercent | hdigit) | hattr
  · omega
  · unfold hexValue at hdigit
    simp only [UInt16.le_iff_toNat_le, Bool.and_eq_true, decide_eq_true_eq, UInt16.reduceToNat]
      at hdigit
    split at hdigit
    · omega
    · split at hdigit
      · omega
      · split at hdigit
        · omega
        · cases hdigit
  · omega

/-- The digits of an escape are not escaped again. -/
theorem flatMap_escapeUnit_percentEncode {byte : ℕ} (h : byte < 0x100) :
  (percentEncode byte).flatMap escapeUnit = percentEncode byte
  := by
  have hkept {n : ℕ} (hn : n ∉ [0x27, 0x28, 0x29, 0x2A]) (hlt : n < 0x10000) :
      escapeUnit (UInt16.ofNat n) = [UInt16.ofNat n] := by
    rw [escapeUnit, if_neg]
    rw [isEscaped_iff, UInt16.toNat_ofNat', Nat.mod_eq_of_lt hlt]
    exact hn
  have hdigit {n : ℕ} (hn : n < 0x10) :
      escapeUnit (UInt16.ofNat (if n < 10 then 0x30 + n else 0x37 + n))
        = [UInt16.ofNat (if n < 10 then 0x30 + n else 0x37 + n)] := by
    apply hkept
    · simp only [List.mem_cons, List.not_mem_nil, or_false]
      split
      · omega
      · omega
    · split
      · omega
      · omega
  have hpercent : escapeUnit 0x25 = [0x25] := hkept (n := 0x25) (by decide) (by decide)
  rw [percentEncode, List.flatMap_cons, List.flatMap_cons, List.flatMap_cons, hpercent,
    hdigit (show byte / 0x10 < 0x10 by omega), hdigit (show byte % 0x10 < 0x10 by omega)]
  rfl

theorem flatMap_escapeUnit_flatMap {bytes : List ℕ} (h : ∀ byte ∈ bytes, byte < 0x100) :
  (bytes.flatMap percentEncode).flatMap escapeUnit = bytes.flatMap percentEncode
  := by
  rw [List.flatMap_assoc]
  apply List.flatMap_congr
  intro byte hbyte
  apply flatMap_escapeUnit_percentEncode (h byte hbyte)

/-- A character of the name in the extended value: itself when it is an `attr-char` that
`encodeURIComponent` keeps, or its escaped bytes. -/
theorem flatMap_escapeUnit_encodeUnit (u : UInt16) :
  (isAttrChar u = true ∧ u ≠ percent ∧ u.toNat < 0x80 ∧ (encodeUnit u).flatMap escapeUnit = [u])
  ∨ (encodeUnit u).flatMap escapeUnit = (utf8 u.toNat).flatMap percentEncode
  := by
  have hlt := u.toNat_lt
  unfold encodeUnit
  split
  · rename_i hkept
    rw [isUnescaped_iff] at hkept
    simp only [List.mem_cons, List.not_mem_nil, or_false] at hkept
    rw [List.flatMap_singleton, escapeUnit]
    split
    · rename_i hescaped
      right
      rw [isEscaped_iff] at hescaped
      simp only [List.mem_cons, List.not_mem_nil, or_false] at hescaped
      rw [utf8, if_pos (by omega), List.flatMap_singleton]
    · rename_i hescaped
      left
      rw [isEscaped_iff] at hescaped
      simp only [List.mem_cons, List.not_mem_nil, or_false] at hescaped
      refine ⟨?_, ?_, by omega, rfl⟩
      · rw [isAttrChar_iff]
        simp only [List.mem_cons, List.not_mem_nil, or_false]
        omega
      · rw [ne_eq, ← UInt16.toNat_inj]
        simp only [percent, UInt16.reduceToNat]
        omega
  · right
    apply flatMap_escapeUnit_flatMap
    intro byte hbyte
    apply lt_of_mem_utf8 (by omega) hbyte

/-- The extended value of a name. -/
def extValue (fileName : JsString) : Option JsString :=
  (encodeURIComponent fileName).map (·.flatMap escapeUnit)

/-- The first character of a value is decoded as its bytes. -/
theorem percentDecode_encodeUnit (u : UInt16) (value : JsString) :
  percentDecode isAttrChar ((encodeUnit u).flatMap escapeUnit ++ value)
    = (percentDecode isAttrChar value).map (Utf8.bytesOf u.toNat ++ ·)
  := by
  have hlt := u.toNat_lt
  rcases flatMap_escapeUnit_encodeUnit u with ⟨hattr, hne, hascii, hpart⟩ | hpart
  · rw [hpart, List.singleton_append, percentDecode_cons hattr hne, Utf8.bytesOf, utf8,
      if_pos hascii]
    rfl
  · rw [hpart,
      percentDecode_flatMap_percentEncode fun byte hbyte => lt_of_mem_utf8 (by omega) hbyte]
    rfl

/-- The value of a well-formed name is decoded as the name. -/
theorem exists_extValue {s : JsString} (h : isWellFormed s = true) :
  ∃ value bytes, extValue s = some value ∧ percentDecode isAttrChar value = some bytes
    ∧ Utf8.decode bytes = s
  := by
  induction s, h using isWellFormed_induction with
  | nil => exact ⟨[], [], rfl, rfl, rfl⟩
  | unit u rest hhigh hlow hrest ih h =>
      obtain ⟨value, bytes, hvalue, hbytes, hdecode⟩ := ih
      obtain ⟨encoded, hencoded, rfl⟩ := Option.map_eq_some_iff.mp hvalue
      refine ⟨(encodeUnit u).flatMap escapeUnit ++ encoded.flatMap escapeUnit,
        Utf8.bytesOf u.toNat ++ bytes, ?_, ?_, ?_⟩
      · rw [extValue, encodeURIComponent_cons hhigh hlow, hencoded, Option.map_some,
          Option.map_some, List.flatMap_append]
      · rw [percentDecode_encodeUnit, hbytes, Option.map_some]
      · rw [Utf8.decode, Utf8.decodeAfter_bytesOf (isScalar_toNat hhigh hlow), unitsOf_toNat,
          ← Utf8.decode, hdecode]
        rfl
  | pair u v rest hhigh hlow hrest ih h =>
      obtain ⟨value, bytes, hvalue, hbytes, hdecode⟩ := ih
      obtain ⟨encoded, hencoded, rfl⟩ := Option.map_eq_some_iff.mp hvalue
      obtain ⟨hunits, hscalar⟩ := unitsOf_pairPoint hhigh hlow
      have hlt : pairPoint u v < 0x110000 := by
        unfold Utf8.IsScalar at hscalar
        omega
      have hbyte : ∀ byte ∈ utf8 (pairPoint u v), byte < 0x100 :=
        fun byte hbyte => lt_of_mem_utf8 hlt hbyte
      refine ⟨(utf8 (pairPoint u v)).flatMap percentEncode ++ encoded.flatMap escapeUnit,
        Utf8.bytesOf (pairPoint u v) ++ bytes, ?_, ?_, ?_⟩
      · rw [extValue, encodeURIComponent_pair hhigh hlow, hencoded, Option.map_some,
          Option.map_some, List.flatMap_append, flatMap_escapeUnit_flatMap hbyte]
      · rw [percentDecode_flatMap_percentEncode hbyte, hbytes, Option.map_some]
        rfl
      · rw [Utf8.decode, Utf8.decodeAfter_bytesOf hscalar, hunits, ← Utf8.decode, hdecode]
        rfl

/-- A value that can be decoded has escapes and `attr-char`s only. -/
theorem isValueChar_of_percentDecode {value : JsString} {bytes : Bytes}
    (h : percentDecode isAttrChar value = some bytes) :
  ∀ u ∈ value, isValueChar u = true
  := by
  induction value using percentDecode.induct isAttrChar generalizing bytes with
  | case1 => simp
  | case2 high low rest ih =>
      rw [percentDecode, if_pos rfl] at h
      obtain ⟨m, hhigh, h⟩ := Option.bind_eq_some_iff.mp h
      obtain ⟨n, hlow, h⟩ := Option.bind_eq_some_iff.mp h
      obtain ⟨bytes', hrest, -⟩ := Option.bind_eq_some_iff.mp h
      simp only [List.forall_mem_cons]
      refine ⟨rfl, ?_, ?_, ih hrest⟩
      · simp [isValueChar, hhigh]
      · simp [isValueChar, hlow]
  | case3 rest hshort =>
      unfold percentDecode at h
      rw [if_pos rfl] at h
      split at h
      · rename_i high low rest
        exact absurd rfl (hshort high low rest)
      · cases h
  | case4 u rest hne hattr ih =>
      rw [percentDecode_cons hattr hne] at h
      obtain ⟨bytes', hrest, -⟩ := Option.map_eq_some_iff.mp h
      rw [List.forall_mem_cons]
      exact ⟨by simp [isValueChar, hattr], ih hrest⟩
  | case5 u rest hne hattr =>
      unfold percentDecode at h
      rw [if_neg hne, if_neg hattr] at h
      cases h

/-! ### The header -/

/-- The name with underscores for what a quoted string of ASCII characters cannot hold. -/
def fallbackOf (fileName : JsString) : JsString :=
  let underscore : UInt16 := 0x5F
  (fileName.map fun u => if 0x20 ≤ u ∧ u ≤ 0x7E then u else underscore).map fun u =>
    if u = 0x22 ∨ u = backslash then underscore else u

theorem attachmentContentDisposition_eq (fileName : JsString) :
  attachmentContentDisposition fileName
    = (extValue fileName).map fun value =>
      js "attachment; filename=\"" ++ fallbackOf fileName ++ js "\"; filename*=UTF-8''" ++ value
  := by
  unfold attachmentContentDisposition extValue
  cases encodeURIComponent fileName with
  | none => rfl
  | some encoded => rfl

theorem toNat_of_mem_fallbackOf {fileName : JsString} {u : UInt16} (h : u ∈ fallbackOf fileName) :
  0x20 ≤ u.toNat ∧ u.toNat ≤ 0x7E ∧ u.toNat ≠ 0x22 ∧ u.toNat ≠ 0x5C
  := by
  simp only [fallbackOf, List.map_map, List.mem_map, Function.comp_apply] at h
  obtain ⟨v, -, rfl⟩ := h
  simp only [UInt16.le_iff_toNat_le, ← UInt16.toNat_inj, UInt16.reduceToNat, backslash]
  split
  · split
    · decide
    · rename_i hprintable hplain
      omega
  · decide

/-- What a header says of the name of a download: a quoted string and an extended value, which is
decoded as the name, and nothing else. -/
structure Discloses (s header : JsString) : Prop where
  printable : ∀ u ∈ header, 0x20 ≤ u ∧ u ≤ 0x7E
  quotes : header.count quote = 2
  parameters : ∃ fallback value,
    header = js "attachment; filename=\"" ++ fallback ++ js "\"; filename*=UTF-8''" ++ value
    ∧ quote ∉ fallback ∧ backslash ∉ fallback
    ∧ (∃ bytes, percentDecode isAttrChar value = some bytes ∧ Utf8.decode bytes = s)
    ∧ splitParameters false [] header
      = [js "attachment", js " filename=\"" ++ fallback ++ js "\"",
        js " filename*=UTF-8''" ++ value]

/-- The text of the header before the quoted string. -/
theorem disposition_start :
  js "attachment; filename=\"" = js "attachment" ++ semicolon :: (js " filename=" ++ [quote])
  := by
  decide

/-- The text of the header between the quoted string and the extended value. -/
theorem disposition_middle :
  js "\"; filename*=UTF-8''" = quote :: semicolon :: js " filename*=UTF-8''"
  := by
  decide

theorem splitParameters_disposition {fallback value : JsString}
    (hfallback : ∀ u ∈ fallback, u ≠ quote ∧ u ≠ backslash)
    (hvalue : ∀ u ∈ value, isPlain u = true) :
  splitParameters false []
      (js "attachment; filename=\"" ++ fallback ++ js "\"; filename*=UTF-8''" ++ value)
    = [js "attachment", js " filename=\"" ++ fallback ++ js "\"",
      js " filename*=UTF-8''" ++ value]
  := by
  have htype : (js "attachment").all isPlain = true := by decide
  have hfirst : (js " filename=").all isPlain = true := by decide
  have hsecond : (js " filename*=UTF-8''").all isPlain = true := by decide
  rw [List.all_eq_true] at htype hfirst hsecond
  have hlast : ∀ u ∈ js " filename*=UTF-8''" ++ value, isPlain u = true := by
    intro u hu
    rcases List.mem_append.mp hu with hmem | hmem
    · exact hsecond u hmem
    · exact hvalue u hmem
  have hopen : js " filename=\"" = js " filename=" ++ [quote] := by decide
  have hclose : js "\"" = [quote] := by decide
  have hend : splitParameters false [] (js " filename*=UTF-8''" ++ value)
      = [js " filename*=UTF-8''" ++ value] := by
    have h := splitParameters_append hlast [] []
    rwa [List.append_nil, List.nil_append, splitParameters] at h
  rw [disposition_start, disposition_middle]
  simp only [List.append_assoc, List.cons_append, List.nil_append]
  rw [splitParameters_append htype, List.nil_append, splitParameters, if_pos rfl,
    splitParameters_append hfirst, List.nil_append, splitParameters, if_neg (by decide),
    decide_eq_true rfl, splitParameters_append_quoted hfallback]
  -- the closing quote and the semicolon after it end the second part
  conv_lhs =>
    arg 2
    unfold splitParameters
  rw [if_neg (by decide), decide_eq_false (by simp), splitParameters, if_pos rfl, hend, hopen,
    hclose]
  simp only [List.append_assoc]

/-- The header of a well-formed name, and the name it is read as. -/
theorem exists_disposition {s : JsString} (h : isWellFormed s = true) :
  ∃ header, attachmentContentDisposition s = some header ∧ Discloses s header
  := by
  obtain ⟨value, bytes, hvalue, hbytes, hdecode⟩ := exists_extValue h
  have hfallback : ∀ u ∈ fallbackOf s, u ≠ quote ∧ u ≠ backslash := by
    intro u hu
    have hnat := toNat_of_mem_fallbackOf hu
    rw [ne_eq, ne_eq, ← UInt16.toNat_inj, ← UInt16.toNat_inj]
    exact hnat.2.2
  have hchars : ∀ u ∈ value, isPlain u = true := by
    intro u hu
    have hnat := toNat_of_isValueChar (isValueChar_of_percentDecode hbytes u hu)
    rw [isPlain_iff, ne_eq, ne_eq, ← UInt16.toNat_inj, ← UInt16.toNat_inj]
    exact ⟨hnat.2.2.2.1, hnat.2.2.1⟩
  refine ⟨_, by rw [attachmentContentDisposition_eq, hvalue, Option.map_some], ?_, ?_, ?_⟩
  · have hstart : (js "attachment; filename=\"").all (fun u => 0x20 ≤ u && u ≤ 0x7E) = true := by
      decide
    have hmiddle : (js "\"; filename*=UTF-8''").all (fun u => 0x20 ≤ u && u ≤ 0x7E) = true := by
      decide
    simp only [List.all_eq_true, Bool.and_eq_true, decide_eq_true_eq] at hstart hmiddle
    intro u hu
    simp only [List.mem_append] at hu
    rcases hu with ((hu | hu) | hu) | hu
    · exact hstart u hu
    · have hnat := toNat_of_mem_fallbackOf hu
      rw [UInt16.le_iff_toNat_le, UInt16.le_iff_toNat_le]
      exact ⟨hnat.1, hnat.2.1⟩
    · exact hmiddle u hu
    · have hnat := toNat_of_isValueChar (isValueChar_of_percentDecode hbytes u hu)
      rw [UInt16.le_iff_toNat_le, UInt16.le_iff_toNat_le]
      exact ⟨hnat.1, hnat.2.1⟩
  · have hstart : (js "attachment; filename=\"").count quote = 1 := by decide
    have hmiddle : (js "\"; filename*=UTF-8''").count quote = 1 := by decide
    have hnone : (fallbackOf s).count quote = 0 :=
      List.count_eq_zero.mpr fun hmem => (hfallback quote hmem).1 rfl
    have hrest : value.count quote = 0 :=
      List.count_eq_zero.mpr fun hmem => absurd (hchars quote hmem) (by decide)
    simp only [List.count_append, hstart, hmiddle, hnone, hrest]
  · exact ⟨fallbackOf s, value, rfl, fun hmem => (hfallback _ hmem).1 rfl,
      fun hmem => (hfallback _ hmem).2 rfl, ⟨bytes, hbytes, hdecode⟩,
      splitParameters_disposition hfallback hchars⟩

/-- A header discloses one name only. -/
theorem Discloses.eq {s t header : JsString} (hs : Discloses s header) (ht : Discloses t header) :
  s = t
  := by
  obtain ⟨fallback, value, -, -, -, ⟨bytes, hbytes, rfl⟩, hparts⟩ := hs.parameters
  obtain ⟨fallback', value', -, -, -, ⟨bytes', hbytes', rfl⟩, hparts'⟩ := ht.parameters
  have hboth : fallback = fallback' ∧ value = value' := by simpa using hparts.symm.trans hparts'
  rw [hboth.2, hbytes'] at hbytes
  rw [Option.some.inj hbytes]

/-- A name that has a header is well-formed. -/
theorem isWellFormed_of_disposition {s header : JsString}
    (h : attachmentContentDisposition s = some header) :
  isWellFormed s = true
  := by
  rw [attachmentContentDisposition_eq, extValue, Option.map_map] at h
  obtain ⟨encoded, hencoded, -⟩ := Option.map_eq_some_iff.mp h
  rw [← isSome_encodeURIComponent, hencoded]
  rfl

/-- The header of a well-formed name is a list of two parameters from which the name is read back,
and no other name has it. -/
theorem attachmentContentDisposition_faithful (s : JsString) (h : isWellFormed s = true) :
  ∃ header, attachmentContentDisposition s = some header ∧ Discloses s header
    ∧ ∀ t, attachmentContentDisposition t = some header → t = s
  := by
  obtain ⟨header, hheader, hdiscloses⟩ := exists_disposition h
  refine ⟨header, hheader, hdiscloses, ?_⟩
  intro t ht
  obtain ⟨header', hheader', hdiscloses'⟩ := exists_disposition (isWellFormed_of_disposition ht)
  obtain rfl := Option.some.inj (ht.symm.trans hheader')
  exact hdiscloses'.eq hdiscloses

theorem attachmentContentDisposition_faithful_quoted :
  isWellFormed (js "a\"; x=é😀\r\n'*.pdf") = true
  ∧ ∃ header, attachmentContentDisposition (js "a\"; x=é😀\r\n'*.pdf") = some header
    ∧ Discloses (js "a\"; x=é😀\r\n'*.pdf") header
    ∧ ∀ t, attachmentContentDisposition t = some header → t = js "a\"; x=é😀\r\n'*.pdf"
  := by
  have h : isWellFormed (js "a\"; x=é😀\r\n'*.pdf") = true := by decide +kernel
  exact ⟨h, attachmentContentDisposition_faithful _ h⟩

end DocuAI
