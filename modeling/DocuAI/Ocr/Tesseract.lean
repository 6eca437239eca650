import DocuAI.Environment

/-!
# Recognition with Tesseract

The command-line tool `tesseract` writes the text of an image and a table of its words to two files.
The outcome of `runCommand` and the contents of the files are arguments.
-/

namespace DocuAI

open JsString PopplerService

namespace TesseractOcrProvider

/-! ### The confidence of a page -/

/-- `Number.parseFloat`: white space, a sign, digits and an exponent or `Infinity`, whatever follows
them. -/
def parseFloat (s : JsString) : Double :=
  let (negative, unsigned) := Configuration.readSign (s.dropWhile isWhiteSpace)
  let whole := unsigned.takeWhile isDigit
  let (fraction, rest) := Configuration.readFraction (unsigned.dropWhile isDigit)
  if startsWith unsigned (js "Infinity") then .infinity negative
  else if whole = [] ∧ fraction = [] then .nan
  else
    let exponent := (Configuration.readExponent rest).elim 0 Prod.fst
    let decimal : Configuration.Decimal := { negative, whole, fraction, exponent }
    .ofRat decimal.value

def TSV_LEVEL : ℕ := 0

def TSV_CONF : ℕ := 10

def TSV_TEXT : ℕ := 11

def WORD_LEVEL : JsString := js "5"

/-- The confidence of a word in the row of a table, `none` for a row without one. -/
def wordConfidence (line : JsString) : Option Double :=
  let cols := split line 0x09
  if cols.length ≤ TSV_TEXT ∨ cols[TSV_LEVEL]? ≠ some WORD_LEVEL then none
  else do
    let conf := parseFloat (← cols[TSV_CONF]?)
    let word := trim (← cols[TSV_TEXT]?)
    if conf.isFinite = false ∨ conf < 0 ∨ word = [] then none
    else some (Double.min 100 (Double.max 0 conf))

/-- The mean confidence of the words, rounded to two decimals, and their number. -/
def parseTsvConfidence (tsv : JsString) : Option Double × ℕ :=
  let confidences := ((split tsv lineFeed).drop 1).filterMap wordConfidence
  let count := confidences.length
  if count = 0 then (none, 0)
  else
    let sum : Double := confidences.foldl (· + ·) 0
    (some ((sum / (count : Double) * 100).round / 100), count)

/-! ### Recognition -/

/-- A letter of ASCII in lower case. -/
def asciiLower (u : UInt16) : UInt16 :=
  if 0x41 ≤ u && u ≤ 0x5A then u + 0x20 else u

/-- Whether a text contains another. -/
def includes (s t : JsString) : Bool :=
  s.tails.any fun rest => t.isPrefixOf rest

/-- Whether `/Image file .* cannot be read/i` matches at the start of a text in lower case. -/
def imageFilePattern (s : JsString) : Bool :=
  match Scan.literal (js "image file ") s with
  | none => false
  | some rest => includes (rest.takeWhile fun u => !isLineTerminator u) (js " cannot be read")

/-- `/pixRead|Image file .* cannot be read|not read/i`: the image cannot be decoded. -/
def isUnreadable (stderr : JsString) : Bool :=
  let lowered := stderr.map asciiLower
  includes lowered (js "pixread") || includes lowered (js "not read")
    || lowered.tails.any imageFilePattern

/-- Recognises one image.  The files are read as empty when they cannot be read, and removed. -/
def recognize (outcome : Except CommandError RunCommandResult) (txt tsv : Option JsString)
    (removed : Except JsString Unit) : Except Thrown OcrRecognizeResult :=
  match outcome with
  | .error (.commandNotFound command) =>
      .error (.processing (.transient .OCR_PROCESSING_FAILED (js "The OCR engine is unavailable")
        (some (js "Command not found: " ++ command))))
  | .error (.other description) => .error (.other description)
  | .ok result =>
      if result.timedOut then
        .error (.processing (.transient .OCR_PROCESSING_TIMEOUT
          (js "Text recognition exceeded the time limit")
          (some (js "tesseract killed after " ++ jsNat result.durationMs ++ js " ms"))))
      else if result.exitCode ≠ some 0 then
        let permanent := isUnreadable result.stderr
        .error (.processing
          { code := if permanent then .OCR_INVALID_FILE else .OCR_PROCESSING_FAILED
            message :=
              if permanent then js "The image could not be decoded"
              else js "Text recognition failed"
            permanent
            detail := some (js "tesseract exit " ++ exitCodeText result.exitCode ++ js ": "
              ++ firstLine result.stderr) })
      else
        match removed with
        | .error description => .error (.other description)
        | .ok _ =>
            .ok { text := txt.getD [], confidence := (parseTsvConfidence (tsv.getD [])).1 }

end TesseractOcrProvider

end DocuAI
