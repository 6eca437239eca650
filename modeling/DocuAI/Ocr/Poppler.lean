import DocuAI.Library.Scan
import DocuAI.Ocr.Extraction
import DocuAI.Ocr.RunCommand

/-!
# The tools of Poppler

The command-line tools `pdfinfo`, `pdftotext` and `pdftoppm` and what the program reads in their
output.  The outcome of `runCommand` is an argument.
-/

namespace DocuAI

open JsString

/-- The first line of a text, cut at 200 characters. -/
def firstLine (text : JsString) : JsString :=
  truncate (text.takeWhile (· ≠ lineFeed)) 200

/-- An exit code as the template literals of the program print it. -/
def exitCodeText : Option ℤ → JsString
  | none => js "null"
  | some exitCode => js (toString exitCode)

namespace PopplerService

/-- Runs the tool of the given name. -/
def run (name : JsString) (outcome : Except CommandError RunCommandResult) :
    Except Thrown RunCommandResult :=
  match outcome with
  | .error (.commandNotFound command) =>
      .error (.processing (.transient .OCR_PROCESSING_FAILED (js "PDF tooling is unavailable")
        (some (js "Command not found: " ++ command))))
  | .error (.other description) => .error (.other description)
  | .ok result =>
      if result.timedOut then
        .error (.processing (.transient .OCR_PROCESSING_TIMEOUT
          (js "PDF processing exceeded the time limit")
          (some (name ++ js " killed after " ++ jsNat result.durationMs ++ js " ms"))))
      else .ok result

/-! ### The report on a document -/

/-- The characters `\d`. -/
def isDigit (u : UInt16) : Bool :=
  0x30 ≤ u && u ≤ 0x39

/-- The decimal point. -/
def decimalPoint : UInt16 := 0x2E

/-- The characters `[\d.]`. -/
def isDecimal (u : UInt16) : Bool :=
  isDigit u || u == decimalPoint

/-- The characters at which a line ends for `^` and `$`. -/
def isLineTerminator (u : UInt16) : Bool :=
  u == lineFeed || u == carriageReturn || u == 0x2028 || u == 0x2029

/-- `Number.parseInt` of a string of digits. -/
def parseInt (digits : JsString) : ℕ :=
  digits.foldl (fun n u => 10 * n + (u.toNat - 0x30)) 0

/-- `Number.parseFloat` of a string of digits and points. -/
def parseFloat (s : JsString) : Double :=
  let whole := s.takeWhile isDigit
  let fraction :=
    match s.dropWhile isDigit with
    | u :: rest => if u = decimalPoint then rest.takeWhile isDigit else []
    | [] => []
  if whole = [] ∧ fraction = [] then .nan
  else .ofRat (parseInt (whole ++ fraction) / 10 ^ fraction.length)

/-- `Pages:\s+(\d+)\s*$`. -/
def pagesPattern (s : JsString) : Option ℕ := do
  let s ← Scan.literal (js "Pages:") s
  let (_, s) ← Scan.many1 isWhiteSpace s
  let (digits, s) ← Scan.many1 isDigit s
  if s.dropWhile isWhiteSpace = [] ∨ (s.takeWhile isWhiteSpace).any isLineTerminator then
    some (parseInt digits)
  else none

/-- `Page\s+(\d+) size:\s+([\d.]+) x ([\d.]+) pts`. -/
def sizePattern (s : JsString) : Option (ℕ × PdfPageInfo) := do
  let s ← Scan.literal (js "Page") s
  let (_, s) ← Scan.many1 isWhiteSpace s
  let (page, s) ← Scan.many1 isDigit s
  let s ← Scan.literal (js " size:") s
  let (_, s) ← Scan.many1 isWhiteSpace s
  let (width, s) ← Scan.many1 isDecimal s
  let s ← Scan.literal (js " x ") s
  let (height, s) ← Scan.many1 isDecimal s
  let _ ← Scan.literal (js " pts") s
  some (parseInt page, { widthPt := parseFloat width, heightPt := parseFloat height })

/-- `pages[page - 1] = size`.  There is no element before the first. -/
def setPage (pages : List (Option PdfPageInfo)) : ℕ × PdfPageInfo → List (Option PdfPageInfo)
  | (0, _) => pages
  | (page + 1, size) =>
      (pages ++ List.replicate (page + 1 - pages.length) none).set page (some size)

/-- Page count and the sizes of pages. -/
def info (outcome : Except CommandError RunCommandResult) : Except Thrown PdfInfo := do
  let result ← run (js "pdfinfo") outcome
  let output := Utf8.decode result.stdout
  let unparsable := Thrown.processing (.ofPermanent .OCR_INVALID_FILE
    (js "The PDF could not be parsed")
    (some (js "pdfinfo exit " ++ exitCodeText result.exitCode ++ js ": "
      ++ firstLine result.stderr)))
  if result.exitCode ≠ some 0 then throw unparsable
  match Scan.atLines isLineTerminator pagesPattern true output with
  | [] => throw unparsable
  | pageCount :: _ =>
      return {
        pageCount
        pages := (Scan.atLines isLineTerminator sizePattern true output).foldl setPage [] }

/-! ### The text layer -/

/-- The pages in the output of `pdftotext`: the pieces between form feeds, as many as the document
has pages. -/
def textPages (stdout : Bytes) (pageCount : ℕ) : List JsString :=
  let pages := split (Utf8.decode stdout) Utf8.formFeed
  pages.take pageCount ++ List.replicate (pageCount - pages.length) []

/-- Native text of every page. -/
def extractText (outcome : Except CommandError RunCommandResult) (pageCount : ℕ) :
    Except Thrown (List JsString) := do
  let result ← run (js "pdftotext") outcome
  if result.exitCode ≠ some 0 then
    throw (.processing (.ofPermanent .OCR_INVALID_FILE (js "The PDF text layer could not be read")
      (some (js "pdftotext exit " ++ exitCodeText result.exitCode ++ js ": "
        ++ firstLine result.stderr))))
  return textPages result.stdout pageCount

/-- Renders one page to a file, which has to be there afterwards. -/
def renderPage (outcome : Except CommandError RunCommandResult) (outputExists : Bool) :
    Except Thrown Unit := do
  let result ← run (js "pdftoppm") outcome
  if result.exitCode ≠ some 0 ∨ outputExists = false then
    throw (.processing (.ofPermanent .OCR_INVALID_FILE (js "The PDF page could not be rendered")
      (some (js "pdftoppm exit " ++ exitCodeText result.exitCode ++ js ": "
        ++ firstLine result.stderr))))

/-- Every page is read from an initial part of that page in the whole output. -/
def AttributesPages (output : Bytes) (pages : List JsString) : Prop :=
  ∀ (i : ℕ) (page : JsString), pages[i]? = some page →
    ∃ part, part <+: (output.splitOn Utf8.formFeedByte)[i]?.getD [] ∧ page = Utf8.decode part

theorem attributesPages_textPages {stdout output : Bytes} (h : stdout <+: output)
    (pageCount : ℕ) :
  AttributesPages output (textPages stdout pageCount)
  := by
  intro i page hpage
  have hsplit : split (Utf8.decode stdout) Utf8.formFeed
      = (stdout.splitOn Utf8.formFeedByte).map Utf8.decode := Utf8.splitOn_decode stdout
  refine ⟨(stdout.splitOn Utf8.formFeedByte)[i]?.getD [], Utf8.splitOn_isPrefix h _ i, ?_⟩
  rw [textPages, hsplit] at hpage
  by_cases hi : i < (stdout.splitOn Utf8.formFeedByte).length
  · by_cases hcount : i < pageCount
    · rw [List.getElem?_append_left (by simp [hi, hcount]), List.getElem?_take_of_lt hcount,
        List.getElem?_map] at hpage
      rw [List.getElem?_eq_getElem hi] at hpage ⊢
      simpa using hpage.symm
    · rw [List.getElem?_append_right (by simp; omega), List.getElem?_eq_none (by simp; omega)]
        at hpage
      cases hpage
  · rw [List.getElem?_eq_none (Nat.not_lt.mp hi)]
    -- beyond the pieces that were written every page is empty
    rw [List.getElem?_append_right (by simp; omega)] at hpage
    exact (List.eq_of_mem_replicate (List.mem_of_getElem? hpage)).trans rfl

/-- The output of a command is an initial part of what the process wrote, and the text of a page is
read from that page, exactly when no chunk is kept out of order. -/
theorem capture_isPrefix_iff {command : JsString} {maxOutputBytes : Option ℕ}
    {events : List ChildEvent} {result : RunCommandResult}
    (h : runCommand command maxOutputBytes events = some (.ok result)) :
  (result.stdout <+: (stdoutChunks events).flatten
      ∧ result.stdout.length ≤ maxOutputBytes.getD DEFAULT_MAX_OUTPUT
      ∧ ∀ pageCount pages, extractText (.ok result) pageCount = .ok pages →
        AttributesPages (stdoutChunks events).flatten pages)
    ↔ KeptInOrder (maxOutputBytes.getD DEFAULT_MAX_OUTPUT) (stdoutChunks events)
  := by
  rw [← keptBytes_isPrefix_iff, ← stdout_of_runCommand h]
  refine ⟨fun hcaptured => hcaptured.1, fun hstart => ⟨hstart, ?_, ?_⟩⟩
  · rw [stdout_of_runCommand h]
    apply length_keptBytes_le
  · intro pageCount pages hpages
    simp only [extractText, run, bind, Except.bind, pure, Except.pure] at hpages
    split at hpages
    · cases hpages
    · rename_i hresult
      split at hresult
      · cases hresult
      · obtain rfl := Except.ok.inj hresult
        split at hpages
        · cases hpages
        · obtain rfl := Except.ok.inj hpages
          apply attributesPages_textPages hstart

/-- The first page and the start of the second, and two chunks for which three bytes leave no
room. -/
def truncatedRun : List ChildEvent :=
  [.stdout [0x41], .stdout [0x0C, 0x42], .stdout [0x42], .stdout [0x42, 0x0C, 0x43],
    .close (some 0) none 5]

/-- What does not fit is lost, and nothing is kept out of order. -/
theorem capture_isPrefix_of_truncatedRun :
  runCommand (js "pdftotext") (some 3) truncatedRun
    = some (.ok ⟨some 0, none, [0x41, 0x0C, 0x42], [], false, 5⟩)
  ∧ KeptInOrder 3 (stdoutChunks truncatedRun)
  ∧ ([0x41, 0x0C, 0x42] : Bytes) ≠ (stdoutChunks truncatedRun).flatten
  ∧ ([0x41, 0x0C, 0x42] : Bytes) <+: (stdoutChunks truncatedRun).flatten
  ∧ ([0x41, 0x0C, 0x42] : Bytes).length ≤ 3
  ∧ ∀ pageCount pages,
    extractText (.ok ⟨some 0, none, [0x41, 0x0C, 0x42], [], false, 5⟩) pageCount = .ok pages →
      AttributesPages (stdoutChunks truncatedRun).flatten pages
  := by
  have hrun : runCommand (js "pdftotext") (some 3) truncatedRun
      = some (.ok ⟨some 0, none, [0x41, 0x0C, 0x42], [], false, 5⟩) := by
    decide +kernel
  have hkept : KeptInOrder 3 (stdoutChunks truncatedRun) := by
    simp [stdoutChunks, truncatedRun, KeptInOrder, Repeats]
  exact ⟨hrun, hkept, by decide, (capture_isPrefix_iff hrun).mpr hkept⟩

/-- The first page, the start of the second in a chunk that does not fit, and the end of the second
page in one that does. -/
def overflowingRun : List ChildEvent :=
  [.stdout [0x41], .stdout [0x0C, 0x42, 0x42], .stdout [0x43], .close (some 0) none 5]

/-- With room for three bytes the end of the second page becomes part of the first. -/
theorem capture_out_of_order :
  ¬ ∀ (command : JsString) (maxOutputBytes : Option ℕ) (events : List ChildEvent)
      (result : RunCommandResult),
    runCommand command maxOutputBytes events = some (.ok result) →
    result.stdout <+: (stdoutChunks events).flatten
      ∧ result.stdout.length ≤ maxOutputBytes.getD DEFAULT_MAX_OUTPUT
      ∧ ∀ pageCount pages, extractText (.ok result) pageCount = .ok pages →
        AttributesPages (stdoutChunks events).flatten pages
  := by
  intro h
  have hrun : runCommand (js "pdftotext") (some 3) overflowingRun
      = some (.ok ⟨some 0, none, [0x41, 0x43], [], false, 5⟩) := by
    decide +kernel
  have hpages : extractText (.ok ⟨some 0, none, [0x41, 0x43], [], false, 5⟩) 2
      = .ok [js "AC", []] := by
    decide +kernel
  obtain ⟨-, -, hattributes⟩ := h _ _ _ _ hrun
  obtain ⟨part, hpart, hpage⟩ := hattributes 2 _ hpages 0 (js "AC") rfl
  have hfirst : ((stdoutChunks overflowingRun).flatten.splitOn Utf8.formFeedByte)[0]?.getD []
      = [0x41] := by
    decide +kernel
  -- nothing the first page starts with decodes to two letters
  rw [hfirst, List.prefix_cons_iff] at hpart
  rcases hpart with rfl | ⟨rest, rfl, hrest⟩
  · exact absurd hpage (by decide +kernel)
  · obtain rfl := List.prefix_nil.mp hrest
    exact absurd hpage (by decide +kernel)

end PopplerService

end DocuAI
