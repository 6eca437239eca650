import DocuAI.JsString
import DocuAI.Library.Double

/-!
# Extracted text

Text post-processing shared by native extraction and recognition.  What Unicode decides, the
normalisation form NFC, which characters are letters or digits, and lower case, is a parameter.
-/

namespace DocuAI

open JsString

/-- The part of Unicode the program uses: `normalize('NFC')`, whether a code point is in
`[\p{L}\p{N}]`, and `toLowerCase`. -/
structure Unicode where
  nfc : JsString → JsString
  isAlphanumeric : JsString → Bool
  toLowerCase : JsString → JsString

/-- Unicode as far as ASCII text needs it. -/
def asciiUnicode : Unicode where
  nfc s := s
  isAlphanumeric
    | [u] => (0x30 ≤ u && u ≤ 0x39) || (0x41 ≤ u && u ≤ 0x5A) || (0x61 ≤ u && u ≤ 0x7A)
    | _ => false
  toLowerCase s := s.map fun u => if 0x41 ≤ u && u ≤ 0x5A then u + 0x20 else u

/-! ### Normalisation -/

/-- `\r\n?` replaced by `\n`. -/
def unifyLineEndings : JsString → JsString
  | [] => []
  | [u] => if u = carriageReturn then [lineFeed] else [u]
  | u :: v :: rest =>
      if u = carriageReturn then
        if v = lineFeed then lineFeed :: unifyLineEndings rest
        else lineFeed :: unifyLineEndings (v :: rest)
      else u :: unifyLineEndings (v :: rest)

/-- The characters removed from the text: controls but the tab, the line feed and the carriage
return. -/
def isControl (u : UInt16) : Bool :=
  u ≤ 0x08 || u == 0x0B || u == 0x0C || (0x0E ≤ u && u ≤ 0x1F) || u == 0x7F

/-- The characters stripped from the end of every line. -/
def isTrailing (u : UInt16) : Bool :=
  u == 0x20 || u == 0x09 || u == 0xA0

/-- `\n{3,}` replaced by two line feeds, when `newlines` line feeds were kept just before. -/
def collapseBlankLines : ℕ → JsString → JsString
  | _, [] => []
  | newlines, u :: rest =>
      if u = lineFeed then
        if newlines < 2 then u :: collapseBlankLines (newlines + 1) rest
        else collapseBlankLines newlines rest
      else u :: collapseBlankLines 0 rest

/-- Raw tool output normalised for storage. -/
def normalizeExtractedText (unicode : Unicode) (raw : JsString) : JsString :=
  let text := (unifyLineEndings (unicode.nfc raw)).filter fun u => !isControl u
  let lines := (split text lineFeed).map fun line => line.rdropWhile isTrailing
  trim (collapseBlankLines 0 (join lines lineFeed))

/-! ### Usable native text -/

/-- When the native text of a page is used. -/
structure NativeTextRule where
  minChars : ℕ
  minAlphanumericRatio : Double

/-- `\s+` replaced by one space, when `inRun` says that the run has begun. -/
def collapseWhiteSpace : Bool → JsString → JsString
  | _, [] => []
  | inRun, u :: rest =>
      if isWhiteSpace u then
        if inRun then collapseWhiteSpace true rest else space :: collapseWhiteSpace true rest
      else u :: collapseWhiteSpace false rest

/-- Whether the native text layer of a page is usable: it is long enough, and letters and digits
are a large enough share of it. -/
def isNativeTextUsable (unicode : Unicode) (text : JsString) (rule : NativeTextRule) : Bool :=
  let collapsed := trim (collapseWhiteSpace false text)
  let nonSpace := (codePoints collapsed).filter fun char => char ≠ [space]
  let alphanumeric := nonSpace.filter unicode.isAlphanumeric
  if collapsed.length < rule.minChars then false
  else if nonSpace.length = 0 then false
  else decide (rule.minAlphanumericRatio ≤ (alphanumeric.length : Double) / nonSpace.length)

/-! ### Truncation -/

structure TruncatedText where
  text : JsString
  truncated : Bool
  charCount : ℕ

/-- The text cut at `maxChars` code points. -/
def truncateText (text : JsString) (maxChars : ℕ) : TruncatedText :=
  let chars := codePoints text
  if chars.length ≤ maxChars then ⟨text, false, chars.length⟩
  else ⟨(chars.take maxChars).flatten, true, maxChars⟩

theorem truncateText_charCount (text : JsString) (maxChars : ℕ) :
  (truncateText text maxChars).charCount
    = (codePoints (truncateText text maxChars).text).length
  := by
  unfold truncateText
  simp only
  split
  · rfl
  · rename_i hlong
    rw [codePoints_flatten_take, List.length_take_of_le (Nat.le_of_not_le hlong)]

theorem truncateText_charCount_le (text : JsString) (maxChars : ℕ) :
  (truncateText text maxChars).charCount ≤ maxChars
  := by
  unfold truncateText
  simp only
  split
  · assumption
  · apply Nat.le_refl

theorem truncateText_isPrefix (text : JsString) (maxChars : ℕ) :
  (truncateText text maxChars).text <+: text
  := by
  unfold truncateText
  simp only
  split
  · apply List.prefix_refl
  · conv_rhs => rw [← flatten_codePoints text, ← List.take_append_drop maxChars (codePoints text)]
    rw [List.flatten_append]
    apply List.prefix_append

/-- A text is marked as truncated when something of it is missing. -/
theorem truncateText_truncated (text : JsString) (maxChars : ℕ) :
  (truncateText text maxChars).truncated = true ↔ (truncateText text maxChars).text ≠ text
  := by
  have hcount := truncateText_charCount text maxChars
  unfold truncateText at hcount ⊢
  simp only at hcount ⊢
  split
  · simp
  · rename_i hlong
    simp only [if_neg hlong] at hcount ⊢
    refine ⟨?_, fun _ => trivial⟩
    rintro - heq
    rw [heq] at hcount
    omega

end DocuAI
