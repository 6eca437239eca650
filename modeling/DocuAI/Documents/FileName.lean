import DocuAI.Ocr.Text

/-!
# File names

Client-supplied file names are untrusted.  They are kept for display and for the name of the
download only.
-/

namespace DocuAI

open JsString

def FILE_NAME_MAX_LENGTH : ℕ := 255

/-- The characters `[\u0000-\u001F\u007F-\u009F]`. -/
def isControlCharacter (u : UInt16) : Bool :=
  u ≤ 0x1F || (0x7F ≤ u && u ≤ 0x9F)

/-- The characters `[<>:"|?*]`, invalid in file names on at least one major system. -/
def isReservedCharacter (u : UInt16) : Bool :=
  (js "<>:\"|?*").contains u

/-- The full stop `.`. -/
def fullStop : UInt16 := 0x2E

/-- The slash `/`. -/
def slash : UInt16 := 0x2F

/-- The backslash. -/
def backslash : UInt16 := 0x5C

/-- Lower-cased extension without the dot. -/
def extensionOf (unicode : Unicode) (fileName : JsString) : Option JsString :=
  match lastIndexOf fileName fullStop with
  | none => none
  | some index =>
      if index = 0 ∨ index = fileName.length - 1 then none
      else some (unicode.toLowerCase (fileName.drop (index + 1)))

/-- Normalises an untrusted file name: its last segment, without control and reserved characters
and without white space and dots at its end, cut to the maximal length with its extension kept.
`none` when nothing usable remains. -/
def sanitizeFileName (unicode : Unicode) (input : JsString) : Option JsString :=
  let segments := (unicode.nfc input).map fun u => if u = backslash then slash else u
  let segment :=
    match lastIndexOf segments slash with
    | none => segments
    | some lastSlash => segments.drop (lastSlash + 1)
  let kept := (segment.filter fun u => !isControlCharacter u).filter fun u => !isReservedCharacter u
  let name := (trim kept).rdropWhile fun u => u = fullStop || u = space
  if name = [] ∨ name = [fullStop] ∨ name = [fullStop, fullStop] then none
  else if FILE_NAME_MAX_LENGTH < name.length then
    let suffix :=
      match (extensionOf unicode name).filter (·.length ≤ 16) with
      | none => []
      | some ext => if ext = [] then [] else fullStop :: ext
    some (truncate name (FILE_NAME_MAX_LENGTH - suffix.length) ++ suffix)
  else some name

/-- What the table of extensions answers: a type it lists, or a property every object of the
language has. -/
inductive ImpliedType where
  | mimeType (mimeType : JsString)
  | inherited
  deriving DecidableEq

/-- The properties `{}` inherits whose names are in lower case. -/
def INHERITED_PROPERTIES : List JsString :=
  [js "constructor", js "__proto__"]

def EXTENSION_MIME_TYPES : List (JsString × JsString) :=
  [(js "pdf", js "application/pdf"), (js "jpg", js "image/jpeg"), (js "jpeg", js "image/jpeg"),
    (js "jpe", js "image/jpeg"), (js "png", js "image/png"), (js "webp", js "image/webp")]

/-- The type an extension implies. -/
def mimeTypeForExtension (extension : Option JsString) : Option ImpliedType :=
  match extension.filter (· ≠ []) with
  | none => none
  | some extension =>
      match EXTENSION_MIME_TYPES.lookup extension with
      | some mimeType => some (.mimeType mimeType)
      | none => if extension ∈ INHERITED_PROPERTIES then some .inherited else none

/-- `type/subtype` in lower case, without parameters. -/
def normalizeMimeType (unicode : Unicode) (value : JsString) : JsString :=
  unicode.toLowerCase (trim (value.takeWhile (· ≠ 0x3B)))

/-- `attachment` with an ASCII fallback and the full name in UTF-8, `none` when the name cannot be
encoded. -/
def attachmentContentDisposition (fileName : JsString) : Option JsString := do
  let underscore : UInt16 := 0x5F
  let ascii := (fileName.map fun u => if 0x20 ≤ u ∧ u ≤ 0x7E then u else underscore).map fun u =>
    if u = 0x22 ∨ u = backslash then underscore else u
  let encoded := (← encodeURIComponent fileName).flatMap fun u =>
    if (js "'()*").contains u then percentEncode u.toNat else [u]
  some (js "attachment; filename=\"" ++ ascii ++ js "\"; filename*=UTF-8''" ++ encoded)

end DocuAI
