import DocuAI.Documents.CleanName
import DocuAI.Documents.Disposition
import DocuAI.Documents.Writes

/-!
# Declared names

What becomes of a file name a client declares: whether its extension contradicts the declared type,
and whether the file can be downloaded by the name that is stored.
-/

namespace DocuAI

open JsString

/-! ### The extension -/

/-- The extension of a name implies a type other than the declared one. -/
def Contradicts (unicode : Unicode) (name contentType : JsString) : Prop :=
  ∃ ext mimeType, extensionOf unicode name = some ext
    ∧ EXTENSION_MIME_TYPES.lookup ext = some mimeType ∧ mimeType ≠ contentType

/-- The properties every object has are none of the known extensions. -/
theorem lookup_of_inherited {ext : JsString} (h : ext ∈ INHERITED_PROPERTIES) :
  ext ≠ [] ∧ EXTENSION_MIME_TYPES.lookup ext = none
  := by
  have hall : ∀ ext ∈ INHERITED_PROPERTIES,
      ext ≠ [] ∧ EXTENSION_MIME_TYPES.lookup ext = none := by
    decide
  exact hall ext h

theorem lookup_nil :
  EXTENSION_MIME_TYPES.lookup [] = none
  := by
  decide

/-- What the table implies of an extension contradicts a type when the extension is listed with
another type, or is a property every object has. -/
theorem any_mimeTypeForExtension (ext : Option JsString) (contentType : JsString) :
  (mimeTypeForExtension ext).any (· ≠ .mimeType contentType) = true
    ↔ ∃ ext', ext = some ext' ∧ ((∃ mimeType, EXTENSION_MIME_TYPES.lookup ext' = some mimeType
      ∧ mimeType ≠ contentType) ∨ ext' ∈ INHERITED_PROPERTIES)
  := by
  cases ext with
  | none => simp [mimeTypeForExtension]
  | some ext =>
      by_cases hempty : ext = []
      · subst hempty
        have hinherited : [] ∉ INHERITED_PROPERTIES := fun h => (lookup_of_inherited h).1 rfl
        have hfilter : (some ([] : JsString)).filter (· ≠ []) = none := by simp
        rw [mimeTypeForExtension, hfilter]
        simp [lookup_nil, hinherited]
      · have hfilter : (some ext).filter (· ≠ []) = some ext := by simp [hempty]
        rw [mimeTypeForExtension, hfilter]
        by_cases hinherited : ext ∈ INHERITED_PROPERTIES
        · simp [(lookup_of_inherited hinherited).2, hinherited]
        · cases hlookup : EXTENSION_MIME_TYPES.lookup ext with
          | none => simp [hlookup, hinherited]
          | some mimeType => simp [hlookup, hinherited]

namespace DocumentFilesService

/-- A name that can be sanitised is rejected for its extension only. -/
theorem validateFileName_error_iff {unicode : Unicode} {raw contentType name : JsString}
    (hname : sanitizeFileName unicode raw = some name) :
  (∃ e, validateFileName unicode raw contentType = .error e)
    ↔ ∃ ext, extensionOf unicode name = some ext
      ∧ ((∃ mimeType, EXTENSION_MIME_TYPES.lookup ext = some mimeType ∧ mimeType ≠ contentType)
        ∨ ext ∈ INHERITED_PROPERTIES)
  := by
  rw [← any_mimeTypeForExtension]
  simp only [validateFileName, hname]
  split
  · rename_i hcontradicts
    exact ⟨fun _ => hcontradicts, fun _ => ⟨_, rfl⟩⟩
  · rename_i hagrees
    exact ⟨by rintro ⟨e, ⟨⟩⟩, fun h => absurd h hagrees⟩

/-- Only the known extensions can contradict a type, exactly as long as the extension is no name of
a property that every object has. -/
theorem validateFileName_contradicts_iff {unicode : Unicode} {raw contentType name : JsString}
    (hname : sanitizeFileName unicode raw = some name) :
  ((∃ e, validateFileName unicode raw contentType = .error e)
      ↔ Contradicts unicode name contentType)
    ↔ ∀ ext ∈ extensionOf unicode name, ext ∉ INHERITED_PROPERTIES
  := by
  rw [validateFileName_error_iff hname]
  refine ⟨?_, ?_⟩
  · intro h ext hext hinherited
    obtain ⟨ext', mimeType, hext', hlookup, -⟩ := h.mp ⟨ext, hext, .inr hinherited⟩
    obtain rfl := Option.some.inj (hext.symm.trans hext')
    rw [(lookup_of_inherited hinherited).2] at hlookup
    cases hlookup
  · intro h
    refine ⟨?_, ?_⟩
    · rintro ⟨ext, hext, ⟨mimeType, hlookup, hne⟩ | hinherited⟩
      · exact ⟨ext, mimeType, hext, hlookup, hne⟩
      · exact absurd hinherited (h ext hext)
    · rintro ⟨ext, mimeType, hext, hlookup, hne⟩
      exact ⟨ext, hext, .inl ⟨mimeType, hlookup, hne⟩⟩

theorem validateFileName_contradicts_report :
  sanitizeFileName asciiUnicode (js "report.v2") = some (js "report.v2")
  ∧ (((∃ e, validateFileName asciiUnicode (js "report.v2") (js "image/png") = .error e)
      ↔ Contradicts asciiUnicode (js "report.v2") (js "image/png"))
    ↔ ∀ ext ∈ extensionOf asciiUnicode (js "report.v2"), ext ∉ INHERITED_PROPERTIES)
  := by
  have hname : sanitizeFileName asciiUnicode (js "report.v2") = some (js "report.v2") := by
    decide +kernel
  exact ⟨hname, validateFileName_contradicts_iff hname⟩

/-- A file with the extension `constructor` is refused whatever its type. -/
theorem validateFileName_inherited :
  ¬ ∀ (unicode : Unicode) (raw contentType name : JsString),
    sanitizeFileName unicode raw = some name →
    ((∃ e, validateFileName unicode raw contentType = .error e)
      ↔ Contradicts unicode name contentType)
  := by
  intro h
  have hname : sanitizeFileName asciiUnicode (js "class.Constructor")
      = some (js "class.Constructor") := by
    decide +kernel
  have hext : extensionOf asciiUnicode (js "class.Constructor") = some (js "constructor") := by
    decide +kernel
  have herror : ∃ e, validateFileName asciiUnicode (js "class.Constructor")
      (js "application/pdf") = .error e :=
    (validateFileName_error_iff hname).mpr ⟨_, hext, .inr (by decide +kernel)⟩
  obtain ⟨ext, mimeType, hext', hlookup, -⟩ := (h _ _ (js "application/pdf") _ hname).mp herror
  obtain rfl := Option.some.inj (hext.symm.trans hext')
  rw [(lookup_of_inherited (by decide +kernel)).2] at hlookup
  cases hlookup

end DocumentFilesService

/-! ### The download -/

/-- A cut leaves a well-formed string well-formed when the last unit it keeps is no first
surrogate, and only then. -/
theorem isWellFormed_take {s : JsString} (h : isWellFormed s = true) (n : ℕ) :
  isWellFormed (s.take n) = true ↔ ∀ u ∈ (s.take n).getLast?, isHighSurrogate u = false
  := by
  induction s, h using isWellFormed_induction generalizing n with
  | nil => simp [isWellFormed, isWellFormedAfter]
  | unit u rest hhigh hlow hrest ih h =>
      cases n with
      | zero => simp [isWellFormed, isWellFormedAfter]
      | succ n =>
          have hwf : isWellFormed (u :: rest.take n) = isWellFormed (rest.take n) := by
            simp [isWellFormed, isWellFormedAfter, hhigh, hlow]
          rw [List.take_succ_cons, hwf, ih n]
          cases rest.take n with
          | nil => simp [hhigh]
          | cons w kept => rw [List.getLast?_cons_cons]
  | pair u v rest hhigh hlow hrest ih h =>
      cases n with
      | zero => simp [isWellFormed, isWellFormedAfter]
      | succ n =>
          cases n with
          | zero => simp [isWellFormed, isWellFormedAfter, hhigh]
          | succ n =>
              have hv : isHighSurrogate v = false := by
                by_contra hne
                rw [isLowSurrogate_of_isHighSurrogate (by simpa using hne)] at hlow
                cases hlow
              have hwf : isWellFormed (u :: v :: rest.take n) = isWellFormed (rest.take n) := by
                simp [isWellFormed, isWellFormedAfter, hhigh, hlow]
              rw [List.take_succ_cons, List.take_succ_cons, hwf, ih n, List.getLast?_cons_cons]
              cases rest.take n with
              | nil => simp [hv]
              | cons w kept => rw [List.getLast?_cons_cons]

/-- A name has a header exactly when it is well-formed. -/
theorem isSome_disposition (name : JsString) :
  (attachmentContentDisposition name).isSome = isWellFormed name
  := by
  rw [attachmentContentDisposition_eq, extValue, Option.isSome_map, Option.isSome_map,
    isSome_encodeURIComponent]

namespace DocumentFilesService

theorem sanitizeFileName_of_ok {unicode : Unicode} {raw contentType name : JsString}
    (h : validateFileName unicode raw contentType = .ok name) :
  sanitizeFileName unicode raw = some name
  := by
  unfold validateFileName at h
  split at h
  · cases h
  · rename_i name' hname
    split at h
    · cases h
    · rw [hname, Except.ok.inj h]

/-- A file can be downloaded by the name that was stored for it exactly when the name was not cut
inside a character. -/
theorem downloadable_iff {unicode : Unicode} (hunicode : unicode.Lawful)
    {raw contentType name : JsString} (hwf : isWellFormed raw = true)
    (h : validateFileName unicode raw contentType = .ok name) :
  (attachmentContentDisposition name).isSome = true
    ↔ (FILE_NAME_MAX_LENGTH < (nameOf unicode raw).length →
      ∀ u ∈ (cutOf unicode (nameOf unicode raw)).getLast?, isHighSurrogate u = false)
  := by
  have hname := sanitizeFileName_of_ok h
  have hwfname := isWellFormed_nameOf hunicode hwf
  rw [isSome_disposition]
  rw [sanitizeFileName_eq] at hname
  split at hname
  · cases hname
  · split at hname
    · rename_i hlong
      obtain rfl := Option.some.inj hname
      have hcut := isWellFormed_cutOf_append hunicode hwfname
      rw [cutOf, truncate] at hcut ⊢
      rw [hcut, isWellFormed_take hwfname]
      exact ⟨fun hlast _ => hlast, fun hlast => hlast hlong⟩
    · rename_i hshort
      obtain rfl := Option.some.inj hname
      exact ⟨fun _ hlong => absurd hlong hshort, fun _ => hwfname⟩

/-- 254 letters, a character of two units and an extension, for which the cut leaves 251 letters. -/
def longReport : JsString :=
  List.replicate 254 0x61 ++ [0xD83D, 0xDE00] ++ js ".pdf"

theorem downloadable_iff_report :
  isWellFormed longReport = true
  ∧ validateFileName asciiUnicode longReport (js "application/pdf")
    = .ok (List.replicate 251 0x61 ++ js ".pdf")
  ∧ FILE_NAME_MAX_LENGTH < (nameOf asciiUnicode longReport).length
  ∧ (∀ u ∈ (cutOf asciiUnicode (nameOf asciiUnicode longReport)).getLast?,
    isHighSurrogate u = false)
  ∧ (attachmentContentDisposition (List.replicate 251 0x61 ++ js ".pdf")).isSome = true
  := by
  have hwf : isWellFormed longReport = true := by decide +kernel
  have h : validateFileName asciiUnicode longReport (js "application/pdf")
      = .ok (List.replicate 251 0x61 ++ js ".pdf") := by
    decide +kernel
  have hlast : (cutOf asciiUnicode (nameOf asciiUnicode longReport)).getLast? = some 0x61 := by
    decide +kernel
  have hcut : ∀ u ∈ (cutOf asciiUnicode (nameOf asciiUnicode longReport)).getLast?,
      isHighSurrogate u = false := by
    rw [hlast]
    rintro _ ⟨⟩
    rfl
  exact ⟨hwf, h, by decide +kernel, hcut,
    (downloadable_iff lawful_asciiUnicode hwf h).mpr fun _ => hcut⟩

/-- 254 letters and a character of two units: 255 characters, of which the cut keeps one half of
the last. -/
theorem not_downloadable_of_cut_character :
  ¬ ∀ (unicode : Unicode), unicode.Lawful → ∀ raw contentType name, isWellFormed raw = true →
    (codePoints raw).length ≤ FILE_NAME_MAX_LENGTH →
    validateFileName unicode raw contentType = .ok name →
    (attachmentContentDisposition name).isSome = true
  := by
  intro h
  have hname : validateFileName asciiUnicode (List.replicate 254 0x61 ++ [0xD83D, 0xDE00])
      (js "application/pdf") = .ok (List.replicate 254 0x61 ++ [0xD83D]) := by
    decide +kernel
  have hsome := h asciiUnicode lawful_asciiUnicode _ _ _ (by decide +kernel) (by decide +kernel)
    hname
  rw [isSome_disposition] at hsome
  exact absurd hsome (by decide +kernel)

end DocumentFilesService

end DocuAI
