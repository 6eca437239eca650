import DocuAI.JsNumber
import DocuAI.Config
import DocuAI.Ocr.Errors

/-!
# The extraction pipeline

A PDF page with usable native text is stored as it is, any other page is rendered and recognised,
and an image is recognised as its single page.  Pages are produced one at a time: `Extraction` is
the generator between two of its results, and `Extraction.next` resumes it.  What the tools answer
is a parameter.
-/

namespace DocuAI

/-! ### Pages -/

/-- Result for one page, ready to be persisted. -/
structure ExtractedPage where
  pageNumber : ℕ
  status : OcrPageStatus
  method : Option PageMethod
  text : Option JsString
  confidence : Option Double
  charCount : ℕ
  truncated : Bool
  errorCode : Option OcrErrorCode
  deriving DecidableEq

/-- The page that records a failure. -/
def failedPage (pageNumber : ℕ) (errorCode : OcrErrorCode) (method : Option PageMethod) :
    ExtractedPage where
  pageNumber := pageNumber
  status := .FAILED
  method := method
  text := none
  confidence := none
  charCount := 0
  truncated := false
  errorCode := some errorCode

/-- The page that records a text, cut to the limit of the page and to what is left of the limit of
the document. -/
def storeText (pageNumber : ℕ) (method : PageMethod) (text : JsString) (confidence : Option Double)
    (budget : ℤ) (maxPerPage : ℕ) : ExtractedPage :=
  if text = [] then
    { pageNumber, status := .EMPTY, method, text := some [], confidence, charCount := 0,
      truncated := false, errorCode := none }
  else if budget ≤ 0 then failedPage pageNumber .OCR_TEXT_LIMIT_EXCEEDED method
  else
    let cut := truncateText text (min maxPerPage budget.toNat)
    { pageNumber, status := .COMPLETED, method, text := some cut.text, confidence,
      charCount := cut.charCount, truncated := cut.truncated, errorCode := none }

/-- The failed page a page-level processing error becomes, `none` for an error that aborts the
job: one that is no processing error, or says that a tool is missing. -/
def pageFailure (error : Thrown) (pageNumber : ℕ) : Option ExtractedPage :=
  match error with
  | .processing error =>
      if error.detail.any fun detail => detail.startsWith (js "Command not found") then none
      else some (failedPage pageNumber error.code none)
  | _ => none

@[simp]
theorem storeText_pageNumber (n : ℕ) (method : PageMethod) (text : JsString)
    (confidence : Option Double) (budget : ℤ) (maxPerPage : ℕ) :
  (storeText n method text confidence budget maxPerPage).pageNumber = n
  := by
  unfold storeText
  split
  · rfl
  · split
    · rfl
    · rfl

theorem exists_code_of_pageFailure {error : Thrown} {n : ℕ} {page : ExtractedPage}
    (h : pageFailure error n = some page) :
  ∃ code, page = failedPage n code none
  := by
  unfold pageFailure at h
  split at h
  · split at h
    · cases h
    · exact ⟨_, (Option.some.inj h).symm⟩
  · cases h

/-! ### Inspection -/

inductive DetectedFormat where
  | pdf
  | jpeg
  | png
  | webp
  deriving DecidableEq

/-- The size of a page in points. -/
structure PdfPageInfo where
  widthPt : Double
  heightPt : Double
  deriving DecidableEq

/-- What the tools report of a PDF; the size of a page may be missing. -/
structure PdfInfo where
  pageCount : ℕ
  pages : List (Option PdfPageInfo)
  deriving DecidableEq

structure ImageDimensions where
  width : ℕ
  height : ℕ
  deriving DecidableEq

/-- A file that passed inspection. -/
inductive InspectedFile where
  | pdf (info : PdfInfo)
  | image (format : DetectedFormat)
  deriving DecidableEq

def InspectedFile.totalPages : InspectedFile → ℕ
  | .pdf info => info.pageCount
  | .image _ => 1

/-- What the bytes of a file say of it: the format they show, the dimensions in an image header,
and the report on a PDF. -/
structure FileProbe where
  format : Option DetectedFormat
  dimensions : Option ImageDimensions
  info : Except Thrown PdfInfo

def mimeOf : DetectedFormat → JsString
  | .pdf => js "application/pdf"
  | .jpeg => js "image/jpeg"
  | .png => js "image/png"
  | .webp => js "image/webp"

/-- Validates a file against the document's verified type and the limits. -/
def inspect (config : OcrConfig) (expectedMimeType : Option JsString) (probe : FileProbe) :
    Except Thrown InspectedFile := do
  let some format := probe.format
    | throw (.processing (.ofPermanent .OCR_UNSUPPORTED_FILE_TYPE
        (js "The stored file is not a PDF, JPEG, PNG or WebP document") none))
  if let some expected := expectedMimeType then
    if expected ≠ [] ∧ mimeOf format ≠ expected then
      throw (.processing (.ofPermanent .OCR_UNSUPPORTED_FILE_TYPE
        (js "The stored file does not match its declared type")
        (some (js "declared " ++ expected ++ js ", detected " ++ (mimeOf format)))))
  if format = .pdf then
    let pdf ← probe.info
    if pdf.pageCount < 1 then
      throw (.processing (.ofPermanent .OCR_INVALID_FILE (js "The PDF contains no pages") none))
    if config.limits.maxPdfPages < pdf.pageCount then
      throw (.processing (.ofPermanent .OCR_PAGE_LIMIT_EXCEEDED
        (js "Documents with more than " ++ jsNat config.limits.maxPdfPages
          ++ js " pages cannot be processed")
        (some (jsNat pdf.pageCount ++ js " pages"))))
    return .pdf pdf
  let some dimensions := probe.dimensions
    | throw (.processing (.ofPermanent .OCR_INVALID_FILE (js "The image header is malformed") none))
  if config.limits.maxImagePixels < dimensions.width * dimensions.height then
    throw (.processing (.ofPermanent .OCR_PAGE_TOO_LARGE
      (js "Images larger than " ++ jsNat config.limits.maxImagePixels
        ++ js " pixels cannot be processed")
      (some (jsNat dimensions.width ++ js "x" ++ jsNat dimensions.height))))
  return .image format

/-- A file that passes the inspection has a page, and no more of them than the limit; an image has
its single one. -/
theorem totalPages_of_inspect {config : OcrConfig} {expectedMimeType : Option JsString}
    {probe : FileProbe} {inspected : InspectedFile}
    (h : inspect config expectedMimeType probe = .ok inspected) :
  1 ≤ inspected.totalPages ∧ inspected.totalPages ≤ max 1 config.limits.maxPdfPages
  := by
  simp only [inspect, bind, Except.bind, pure, Except.pure, throw, throwThe, MonadExceptOf.throw]
    at h
  grind [InspectedFile.totalPages]

/-- An inspection throws what the tools threw, or an error that describes the file. -/
theorem error_of_inspect {config : OcrConfig} {expectedMimeType : Option JsString}
    {probe : FileProbe} {error : Thrown}
    (h : inspect config expectedMimeType probe = .error error) :
  probe.info = .error error
  ∨ ∃ code ∈ PERMANENT_OCR_ERROR_CODES, ∃ message detail,
    error = .processing (.ofPermanent code message detail)
  := by
  have hcodes : OcrErrorCode.OCR_UNSUPPORTED_FILE_TYPE ∈ PERMANENT_OCR_ERROR_CODES
      ∧ OcrErrorCode.OCR_INVALID_FILE ∈ PERMANENT_OCR_ERROR_CODES
      ∧ OcrErrorCode.OCR_PAGE_LIMIT_EXCEEDED ∈ PERMANENT_OCR_ERROR_CODES
      ∧ OcrErrorCode.OCR_PAGE_TOO_LARGE ∈ PERMANENT_OCR_ERROR_CODES := by
    decide
  simp only [inspect, bind, Except.bind, pure, Except.pure, throw, throwThe, MonadExceptOf.throw]
    at h
  grind

/-! ### Extraction -/

structure OcrRecognizeResult where
  text : JsString
  confidence : Option Double
  deriving DecidableEq

/-- What the tools answer: the native text of all pages, the outcome of rendering a page, and the
text recognised on an image.  Their arguments are those the program passes. -/
structure Tools where
  extractText : (pageCount timeoutMs maxBytes : ℕ) → Except Thrown (List JsString)
  renderPage : (pageNumber : ℕ) → (dpi : Double) → (timeoutMs : ℕ) → Except Thrown Unit
  recognize : (language : JsString) → (timeoutMs : ℕ) → Except Thrown OcrRecognizeResult

structure ExtractionInput where
  inspected : InspectedFile
  language : JsString
  /-- The time after which remaining pages fail. -/
  deadline : ℕ
  /-- The first page to process. -/
  startPage : ℕ
  /-- The characters left for this document. -/
  charBudget : ℤ
  deriving DecidableEq

def MIN_RENDER_DPI : ℕ := 50

def POINTS_PER_INCH : Double := 72

section

variable (config : OcrConfig) (unicode : Unicode) (tools : Tools) (now : ℕ)

/-- The time for one page: the page budget, capped by the deadline of the job. -/
def pageBudget (deadline : ℕ) : ℕ :=
  max 1000 (min config.pageTimeoutMs (deadline - now))

/-- The resolution at which the rendered page stays within `maxRenderPixels`.  A page that would
need less than `MIN_RENDER_DPI` is refused. -/
def renderDpiFor (pdf : PdfInfo) (pageNumber : ℕ) : Except Thrown Double :=
  let configured : Double := config.limits.renderDpi
  match pdf.pages[pageNumber - 1]?.join with
  | none => .ok configured
  | some size =>
      let inches := (size.widthPt / POINTS_PER_INCH) * (size.heightPt / POINTS_PER_INCH)
      if inches ≤ 0 then .ok configured
      else
        let fitting := ((config.limits.maxRenderPixels : Double) / inches).sqrt.floor
        let dpi := Double.min configured fitting
        if dpi < MIN_RENDER_DPI then
          .error (.processing (.ofPermanent .OCR_PAGE_TOO_LARGE
            (js "The page is too large to render within the configured limits")
            (some (JsNumber.text size.widthPt ++ js "x" ++ JsNumber.text size.heightPt
              ++ js " pt"))))
        else .ok dpi

/-- Recognises one image.  A page-level failure becomes a failed page. -/
def ocrPage (pageNumber : ℕ) (input : ExtractionInput) (budget : ℤ) :
    Except Thrown ExtractedPage :=
  match tools.recognize input.language (pageBudget config now input.deadline) with
  | .ok result =>
      .ok (storeText pageNumber .OCR (normalizeExtractedText unicode result.text)
        result.confidence budget config.limits.maxTextPerPage)
  | .error error =>
      match pageFailure error pageNumber with
      | some failure => .ok failure
      | none => .error error

/-- One round of the loop of `extractPdf`. -/
def pdfPage (input : ExtractionInput) (pdf : PdfInfo) (nativePages : List JsString)
    (pageNumber : ℕ) (budget : ℤ) : Except Thrown ExtractedPage :=
  if input.deadline ≤ now then .ok (failedPage pageNumber .OCR_PROCESSING_TIMEOUT none)
  else
    let native := normalizeExtractedText unicode (nativePages[pageNumber - 1]?.getD [])
    if isNativeTextUsable unicode native config.nativeText then
      .ok (storeText pageNumber .NATIVE_TEXT native none budget config.limits.maxTextPerPage)
    else
      let attempt := do
        let dpi ← renderDpiFor config pdf pageNumber
        tools.renderPage pageNumber dpi (pageBudget config now input.deadline)
        ocrPage config unicode tools now pageNumber input budget
      match attempt with
      | .ok page => .ok page
      | .error error =>
          match pageFailure error pageNumber with
          | some failure => .ok failure
          | none => .error error

/-- The native text of all pages.  When the text layer is unreadable every page is recognised. -/
def nativePagesOf (input : ExtractionInput) (pdf : PdfInfo) : Except Thrown (List JsString) :=
  match tools.extractText pdf.pageCount (pageBudget config now input.deadline)
      (config.limits.maxTextPerDocument * 4 + 1024 * 1024) with
  | .ok nativePages => .ok nativePages
  | .error (.processing _) => .ok (List.replicate pdf.pageCount [])
  | .error error => .error error

/-- The generator `extract` between two of its results. -/
inductive Extraction where
  /-- Before the first result. -/
  | started (input : ExtractionInput)
  /-- In the loop of `extractPdf`, at the given page and with the given budget. -/
  | inPdf (input : ExtractionInput) (pdf : PdfInfo) (nativePages : List JsString) (pageNumber : ℕ)
      (budget : ℤ)
  /-- After the only result of `extractImage`. -/
  | afterImage (input : ExtractionInput)
  deriving DecidableEq

/-- What resuming a generator yields: a page and the generator after it, the end, or an error. -/
inductive Yield where
  | page (page : ExtractedPage) (rest : Extraction)
  | done
  | thrown (error : Thrown)

/-- The loop of `extractPdf` from its condition to the next result. -/
def pdfNext (input : ExtractionInput) (pdf : PdfInfo) (nativePages : List JsString)
    (pageNumber : ℕ) (budget : ℤ) : Yield :=
  if pageNumber ≤ pdf.pageCount then
    match pdfPage config unicode tools now input pdf nativePages pageNumber budget with
    | .ok page =>
        .page page (.inPdf input pdf nativePages (pageNumber + 1) (budget - page.charCount))
    | .error error => .thrown error
  else .done

/-- Resumes the generator. -/
def Extraction.next : Extraction → Yield
  | .started input =>
      match input.inspected with
      | .pdf pdf =>
          match nativePagesOf config tools now input pdf with
          | .ok nativePages =>
              pdfNext config unicode tools now input pdf nativePages input.startPage
                input.charBudget
          | .error error => .thrown error
      | .image _ =>
          if 1 < input.startPage then .done
          else
            match ocrPage config unicode tools now 1 input input.charBudget with
            | .ok page => .page page (.afterImage input)
            | .error error => .thrown error
  | .inPdf input pdf nativePages pageNumber budget =>
      pdfNext config unicode tools now input pdf nativePages pageNumber budget
  | .afterImage _ => .done

/-! ### The pages a generator yields -/

variable {config unicode tools now}

theorem error_of_renderDpiFor {pdf : PdfInfo} {n : ℕ} {error : Thrown}
    (h : renderDpiFor config pdf n = .error error) :
  ∃ message detail, error = .processing (.ofPermanent .OCR_PAGE_TOO_LARGE message detail)
  := by
  unfold renderDpiFor at h
  simp only at h
  split at h
  · cases h
  · split at h
    · cases h
    · split at h
      · exact ⟨_, _, (Except.error.inj h).symm⟩
      · cases h

/-- A recognised page records a failure, or the text recognised on the image. -/
theorem eq_of_ocrPage {n : ℕ} {input : ExtractionInput} {budget : ℤ} {page : ExtractedPage}
    (h : ocrPage config unicode tools now n input budget = .ok page) :
  (∃ code, page = failedPage n code none)
  ∨ ∃ result, tools.recognize input.language (pageBudget config now input.deadline) = .ok result
    ∧ page = storeText n .OCR (normalizeExtractedText unicode result.text) result.confidence budget
      config.limits.maxTextPerPage
  := by
  unfold ocrPage at h
  split at h
  · rename_i result hresult
    exact .inr ⟨result, hresult, (Except.ok.inj h).symm⟩
  · split at h
    · rename_i hfailure
      obtain rfl := Except.ok.inj h
      exact .inl (exists_code_of_pageFailure hfailure)
    · cases h

/-- A page of a PDF records a failure, its native text, or the text recognised on it. -/
theorem eq_of_pdfPage {input : ExtractionInput} {pdf : PdfInfo} {nativePages : List JsString}
    {n : ℕ} {budget : ℤ} {page : ExtractedPage}
    (h : pdfPage config unicode tools now input pdf nativePages n budget = .ok page) :
  (∃ code, page = failedPage n code none)
  ∨ page = storeText n .NATIVE_TEXT
      (normalizeExtractedText unicode (nativePages[n - 1]?.getD [])) none budget
      config.limits.maxTextPerPage
  ∨ ∃ result, tools.recognize input.language (pageBudget config now input.deadline) = .ok result
    ∧ page = storeText n .OCR (normalizeExtractedText unicode result.text) result.confidence budget
      config.limits.maxTextPerPage
  := by
  unfold pdfPage at h
  split at h
  · exact .inl ⟨_, (Except.ok.inj h).symm⟩
  · simp only at h
    split at h
    · exact .inr (.inl (Except.ok.inj h).symm)
    · split at h
      · rename_i hattempt
        obtain rfl := Except.ok.inj h
        simp only [bind, Except.bind] at hattempt
        split at hattempt
        · cases hattempt
        · split at hattempt
          · cases hattempt
          · rcases eq_of_ocrPage hattempt with hfailed | hstored
            · exact .inl hfailed
            · exact .inr (.inr hstored)
      · split at h
        · rename_i hfailure
          obtain rfl := Except.ok.inj h
          exact .inl (exists_code_of_pageFailure hfailure)
        · cases h

theorem ocrPage_pageNumber {n : ℕ} {input : ExtractionInput} {budget : ℤ} {page : ExtractedPage}
    (h : ocrPage config unicode tools now n input budget = .ok page) :
  page.pageNumber = n
  := by
  rcases eq_of_ocrPage h with ⟨code, rfl⟩ | ⟨result, -, rfl⟩
  · rfl
  · apply storeText_pageNumber

theorem pdfPage_pageNumber {input : ExtractionInput} {pdf : PdfInfo} {nativePages : List JsString}
    {n : ℕ} {budget : ℤ} {page : ExtractedPage}
    (h : pdfPage config unicode tools now input pdf nativePages n budget = .ok page) :
  page.pageNumber = n
  := by
  rcases eq_of_pdfPage h with ⟨code, rfl⟩ | rfl | ⟨result, -, rfl⟩
  · rfl
  · apply storeText_pageNumber
  · apply storeText_pageNumber

/-- The errors the tools throw on a file, and those of pages that are too large to render. -/
inductive Tools.Throws (config : OcrConfig) (tools : Tools) (error : Thrown) : Prop where
  | extractText {pageCount timeoutMs maxBytes : ℕ}
      (h : tools.extractText pageCount timeoutMs maxBytes = .error error)
  | renderPage {pageNumber : ℕ} {dpi : Double} {timeoutMs : ℕ}
      (h : tools.renderPage pageNumber dpi timeoutMs = .error error)
  | recognize {language : JsString} {timeoutMs : ℕ}
      (h : tools.recognize language timeoutMs = .error error)
  | tooLarge {pdf : PdfInfo} {pageNumber : ℕ}
      (h : renderDpiFor config pdf pageNumber = .error error)

theorem throws_of_ocrPage {n : ℕ} {input : ExtractionInput} {budget : ℤ} {error : Thrown}
    (h : ocrPage config unicode tools now n input budget = .error error) :
  tools.Throws config error
  := by
  unfold ocrPage at h
  split at h
  · cases h
  · rename_i hthrown
    split at h
    · cases h
    · obtain rfl := Except.error.inj h
      exact .recognize hthrown

theorem throws_of_pdfPage {input : ExtractionInput} {pdf : PdfInfo} {nativePages : List JsString}
    {n : ℕ} {budget : ℤ} {error : Thrown}
    (h : pdfPage config unicode tools now input pdf nativePages n budget = .error error) :
  tools.Throws config error
  := by
  unfold pdfPage at h
  split at h
  · cases h
  · simp only at h
    split at h
    · cases h
    · split at h
      · cases h
      · rename_i hattempt
        split at h
        · cases h
        · obtain rfl := Except.error.inj h
          simp only [bind, Except.bind] at hattempt
          split at hattempt
          · rename_i hdpi
            obtain rfl := Except.error.inj hattempt
            exact .tooLarge hdpi
          · split at hattempt
            · rename_i hrender
              obtain rfl := Except.error.inj hattempt
              exact .renderPage hrender
            · exact throws_of_ocrPage hattempt

/-- An error that ends a generator is one of the tools. -/
theorem Extraction.next_thrown {extraction : Extraction} {error : Thrown}
    (h : extraction.next config unicode tools now = .thrown error) :
  tools.Throws config error
  := by
  have hpdf {input : ExtractionInput} {pdf : PdfInfo} {nativePages : List JsString} {n : ℕ}
      {budget : ℤ}
      (h : pdfNext config unicode tools now input pdf nativePages n budget = .thrown error) :
      tools.Throws config error := by
    unfold pdfNext at h
    split at h
    · split at h
      · cases h
      · rename_i hpage
        obtain rfl := Yield.thrown.inj h
        exact throws_of_pdfPage hpage
    · cases h
  cases extraction with
  | started input =>
      simp only [Extraction.next] at h
      split at h
      · split at h
        · exact hpdf h
        · rename_i hnative
          obtain rfl := Yield.thrown.inj h
          unfold nativePagesOf at hnative
          split at hnative
          · cases hnative
          · cases hnative
          · rename_i hthrown
            obtain rfl := Except.error.inj hnative
            exact .extractText hthrown
      · split at h
        · cases h
        · split at h
          · cases h
          · rename_i hpage
            obtain rfl := Yield.thrown.inj h
            exact throws_of_ocrPage hpage
  | inPdf input pdf nativePages n budget => exact hpdf h
  | afterImage input => cases h

/-- The number of the page the generator yields next. -/
def Extraction.nextPage : Extraction → ℕ
  | .started input => input.startPage
  | .inPdf _ _ _ pageNumber _ => pageNumber
  | .afterImage _ => 2

/-- The number of pages of the file the generator reads. -/
def Extraction.totalPages : Extraction → ℕ
  | .started input => input.inspected.totalPages
  | .inPdf _ pdf _ _ _ => pdf.pageCount
  | .afterImage _ => 1

/-- How a generator yields a page: the first one of a PDF that is asked for, the next one, or the
only one of an image. -/
inductive Extraction.Yields (config : OcrConfig) (unicode : Unicode) (tools : Tools) (now : ℕ) :
    Extraction → ExtractedPage → Extraction → Prop where
  | firstPage {input : ExtractionInput} {pdf : PdfInfo} {nativePages : List JsString}
      {page : ExtractedPage} (hinspected : input.inspected = .pdf pdf)
      (hnative : nativePagesOf config tools now input pdf = .ok nativePages)
      (hle : input.startPage ≤ pdf.pageCount)
      (hpage : pdfPage config unicode tools now input pdf nativePages input.startPage
        input.charBudget = .ok page) :
      Yields config unicode tools now (.started input) page
        (.inPdf input pdf nativePages (input.startPage + 1) (input.charBudget - page.charCount))
  | nextPage {input : ExtractionInput} {pdf : PdfInfo} {nativePages : List JsString} {n : ℕ}
      {budget : ℤ} {page : ExtractedPage} (hle : n ≤ pdf.pageCount)
      (hpage : pdfPage config unicode tools now input pdf nativePages n budget = .ok page) :
      Yields config unicode tools now (.inPdf input pdf nativePages n budget) page
        (.inPdf input pdf nativePages (n + 1) (budget - page.charCount))
  | image {input : ExtractionInput} {format : DetectedFormat} {page : ExtractedPage}
      (hinspected : input.inspected = .image format) (hstart : input.startPage ≤ 1)
      (hpage : ocrPage config unicode tools now 1 input input.charBudget = .ok page) :
      Yields config unicode tools now (.started input) page (.afterImage input)

theorem pdfNext_eq_page {input : ExtractionInput} {pdf : PdfInfo} {nativePages : List JsString}
    {n : ℕ} {budget : ℤ} {page : ExtractedPage} {rest : Extraction}
    (h : pdfNext config unicode tools now input pdf nativePages n budget = .page page rest) :
  n ≤ pdf.pageCount ∧ pdfPage config unicode tools now input pdf nativePages n budget = .ok page
    ∧ rest = .inPdf input pdf nativePages (n + 1) (budget - page.charCount)
  := by
  unfold pdfNext at h
  split at h
  · rename_i hle
    split at h
    · rename_i hpage
      obtain ⟨rfl, rfl⟩ := Yield.page.inj h
      exact ⟨hle, hpage, rfl⟩
    · cases h
  · cases h

/-- A page a generator yields is yielded in one of the ways. -/
theorem Extraction.yields_of_next {extraction rest : Extraction} {page : ExtractedPage}
    (h : extraction.next config unicode tools now = .page page rest) :
  extraction.Yields config unicode tools now page rest
  := by
  cases extraction with
  | started input =>
      simp only [Extraction.next] at h
      split at h
      · rename_i hpdf
        split at h
        · rename_i hnative
          obtain ⟨hle, hpage, rfl⟩ := pdfNext_eq_page h
          exact .firstPage hpdf hnative hle hpage
        · cases h
      · rename_i himage
        split at h
        · cases h
        · rename_i hstart
          split at h
          · rename_i hpage
            obtain ⟨rfl, rfl⟩ := Yield.page.inj h
            exact .image himage (Nat.not_lt.mp hstart) hpage
          · cases h
  | inPdf input pdf nativePages n budget =>
      obtain ⟨hle, hpage, rfl⟩ := pdfNext_eq_page h
      exact .nextPage hle hpage
  | afterImage input => cases h

/-- A generator yields its pages in order, one record each, and never beyond the last page. -/
theorem Extraction.next_page {extraction rest : Extraction} {page : ExtractedPage}
    (hpos : 1 ≤ extraction.nextPage)
    (h : extraction.next config unicode tools now = .page page rest) :
  page.pageNumber = extraction.nextPage ∧ extraction.nextPage ≤ extraction.totalPages
    ∧ rest.nextPage = extraction.nextPage + 1 ∧ rest.totalPages = extraction.totalPages
  := by
  cases yields_of_next h with
  | firstPage hpdf hnative hle hpage =>
      simp only [nextPage, totalPages, hpdf, InspectedFile.totalPages]
      exact ⟨pdfPage_pageNumber hpage, hle, trivial, trivial⟩
  | nextPage hle hpage => exact ⟨pdfPage_pageNumber hpage, hle, rfl, rfl⟩
  | @image input format _ himage hstart hpage =>
      have hone : input.startPage = 1 := Nat.le_antisymm hstart hpos
      simp only [nextPage, totalPages, himage, InspectedFile.totalPages, hone,
        ocrPage_pageNumber hpage]
      decide

/-- A generator ends only when no page is left. -/
theorem Extraction.next_done {extraction : Extraction}
    (h : extraction.next config unicode tools now = .done) :
  extraction.totalPages < extraction.nextPage
  := by
  have hpdf : ∀ input pdf nativePages n budget,
      pdfNext config unicode tools now input pdf nativePages n budget = .done →
      pdf.pageCount < n := by
    intro input pdf nativePages n budget h
    unfold pdfNext at h
    split at h
    · split at h
      · cases h
      · cases h
    · omega
  cases extraction with
  | started input =>
      simp only [Extraction.next] at h
      split at h
      · rename_i hinspected
        split at h
        · simp only [nextPage, totalPages, hinspected, InspectedFile.totalPages]
          apply hpdf _ _ _ _ _ h
        · cases h
      · rename_i hinspected
        split at h
        · simpa only [nextPage, totalPages, hinspected, InspectedFile.totalPages]
        · split at h
          · cases h
          · cases h
  | inPdf input pdf nativePages n budget => apply hpdf _ _ _ _ _ h
  | afterImage input => exact Nat.lt_succ_self 1

end

end DocuAI
