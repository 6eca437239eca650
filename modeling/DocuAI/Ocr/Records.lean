import DocuAI.Environment
import DocuAI.Ocr.Limits

/-!
# The records of a run

A consumer resumes the generator until it ends or throws.  Whatever the tools answer and the clock
says at each page, the records are those of consecutive pages, each of them is well formed, and an
error that says that a tool is missing ends the run.
-/

namespace DocuAI

open JsString

/-! ### One record -/

/-- The parts of a record agree with its status. -/
structure ExtractedPage.WellFormed (page : ExtractedPage) : Prop where
  failed_iff_text : page.status = .FAILED ↔ page.text = none
  failed_iff_errorCode : page.status = .FAILED ↔ page.errorCode ≠ none
  failed : page.status = .FAILED → page.confidence = none ∧ page.charCount = 0
  empty_iff : page.status = .EMPTY ↔ page.text = some []
  empty : page.status = .EMPTY → page.charCount = 0
  completed : page.status = .COMPLETED → ∃ text, text ≠ [] ∧ page.text = some text
  native : page.method = some .NATIVE_TEXT → page.confidence = none

theorem wellFormed_failedPage (n : ℕ) (code : OcrErrorCode) (method : Option PageMethod) :
  (failedPage n code method).WellFormed
  where
  failed_iff_text := iff_of_true rfl rfl
  failed_iff_errorCode := iff_of_true rfl (by simp [failedPage])
  failed _ := ⟨rfl, rfl⟩
  empty_iff := by simp [failedPage]
  empty h := by cases h
  completed h := by cases h
  native _ := rfl

theorem codePoint_ne_nil {s c : JsString} (h : c ∈ codePoints s) :
  c ≠ []
  := by
  induction s using codePoints.induct with
  | case1 => cases h
  | case2 u =>
      rw [List.mem_singleton.mp h]
      exact List.cons_ne_nil _ _
  | case3 u v rest hpair ih =>
      rw [codePoints, if_pos hpair] at h
      rcases List.mem_cons.mp h with rfl | hrest
      · exact List.cons_ne_nil _ _
      · exact ih hrest
  | case4 u v rest hpair ih =>
      rw [codePoints, if_neg hpair] at h
      rcases List.mem_cons.mp h with rfl | hrest
      · exact List.cons_ne_nil _ _
      · exact ih hrest

/-- A cut leaves something of a text. -/
theorem truncateText_ne_nil {text : JsString} {maxChars : ℕ} (htext : text ≠ [])
    (hmax : 1 ≤ maxChars) :
  (truncateText text maxChars).text ≠ []
  := by
  unfold truncateText
  simp only
  split
  · exact htext
  · rename_i hlong
    cases hpoints : codePoints text with
    | nil =>
        rw [hpoints] at hlong
        exact absurd (Nat.zero_le _) hlong
    | cons c rest =>
        obtain ⟨n, rfl⟩ := Nat.exists_eq_add_of_le' hmax
        have hc : c ≠ [] := codePoint_ne_nil (hpoints ▸ List.mem_cons_self)
        simp only [List.take_succ_cons, List.flatten_cons]
        exact List.append_ne_nil_of_left_ne_nil hc _

/-- A stored text makes a well-formed record, when native text comes without a confidence. -/
theorem wellFormed_storeText (n : ℕ) (method : PageMethod) (text : JsString)
    {confidence : Option Double} (budget : ℤ) {maxPerPage : ℕ} (hmax : 1 ≤ maxPerPage)
    (hnative : method = .NATIVE_TEXT → confidence = none) :
  (storeText n method text confidence budget maxPerPage).WellFormed
  := by
  unfold storeText
  split
  · constructor
    · simp
    · simp
    · simp
    · simp
    · simp
    · simp
    · simpa using hnative
  · rename_i htext
    split
    · apply wellFormed_failedPage
    · rename_i hbudget
      have hcut : (truncateText text (min maxPerPage budget.toNat)).text ≠ [] := by
        apply truncateText_ne_nil htext
        omega
      constructor
      · simp
      · simp
      · simp
      · simpa using hcut
      · simp
      · simp [hcut]
      · simpa using hnative

section

variable {config : OcrConfig} {unicode : Unicode} {tools : Tools} {now : ℕ}

theorem wellFormed_of_ocrPage (hlimits : config.limits.Validated) {n : ℕ}
    {input : ExtractionInput} {budget : ℤ} {page : ExtractedPage}
    (h : ocrPage config unicode tools now n input budget = .ok page) :
  page.WellFormed
  := by
  have hmax := (show 1 ≤ 1000 by decide).trans hlimits.maxTextPerPage.1
  rcases eq_of_ocrPage h with ⟨code, rfl⟩ | ⟨result, -, rfl⟩
  · apply wellFormed_failedPage
  · exact wellFormed_storeText _ _ _ _ hmax (by simp)

theorem wellFormed_of_pdfPage (hlimits : config.limits.Validated) {input : ExtractionInput}
    {pdf : PdfInfo} {nativePages : List JsString} {n : ℕ} {budget : ℤ} {page : ExtractedPage}
    (h : pdfPage config unicode tools now input pdf nativePages n budget = .ok page) :
  page.WellFormed
  := by
  have hmax := (show 1 ≤ 1000 by decide).trans hlimits.maxTextPerPage.1
  rcases eq_of_pdfPage h with ⟨code, rfl⟩ | rfl | ⟨result, -, rfl⟩
  · apply wellFormed_failedPage
  · exact wellFormed_storeText _ _ _ _ hmax (by simp)
  · exact wellFormed_storeText _ _ _ _ hmax (by simp)

/-- Every page a generator yields is a well-formed record. -/
theorem Extraction.next_wellFormed (hlimits : config.limits.Validated)
    {extraction rest : Extraction} {page : ExtractedPage}
    (h : extraction.next config unicode tools now = .page page rest) :
  page.WellFormed
  := by
  cases yields_of_next h with
  | firstPage _ _ _ hpage => exact wellFormed_of_pdfPage hlimits hpage
  | nextPage _ hpage => exact wellFormed_of_pdfPage hlimits hpage
  | image _ _ hpage => exact wellFormed_of_ocrPage hlimits hpage

/-! ### Missing tools -/

/-- An error that says that a tool is missing. -/
def Thrown.MissingTool : Thrown → Prop
  | .processing error => ∃ detail ∈ error.detail, detail.startsWith (js "Command not found") = true
  | _ => False

theorem pageFailure_of_missingTool {error : Thrown} (h : error.MissingTool) (n : ℕ) :
  pageFailure error n = none
  := by
  cases error with
  | processing error =>
      obtain ⟨detail, hdetail, hstarts⟩ := h
      rw [Option.mem_def] at hdetail
      simp only [pageFailure, hdetail, Option.any_some, hstarts, if_true]
  | storage message => rfl
  | other description => rfl

/-- A generator makes its next page from a PDF with the given native texts. -/
def Extraction.AtPdf (config : OcrConfig) (tools : Tools) (now : ℕ) (pdf : PdfInfo)
    (nativePages : List JsString) (budget : ℤ) : Extraction → Prop
  | .started input =>
      input.inspected = .pdf pdf ∧ nativePagesOf config tools now input pdf = .ok nativePages
        ∧ input.charBudget = budget
  | .inPdf _ pdf' nativePages' _ budget' =>
      pdf' = pdf ∧ nativePages' = nativePages ∧ budget' = budget
  | .afterImage _ => False

/-- The next page of a PDF is rendered: it exists, its time is not up, and its native text is not
used. -/
structure Extraction.Renders (config : OcrConfig) (unicode : Unicode) (now : ℕ) (pdf : PdfInfo)
    (nativePages : List JsString) (extraction : Extraction) : Prop where
  exists_page : extraction.nextPage ≤ pdf.pageCount
  in_time : now < extraction.input.deadline
  not_native : isNativeTextUsable unicode
    (normalizeExtractedText unicode (nativePages[extraction.nextPage - 1]?.getD []))
    config.nativeText = false

/-- The errors that tools raise while a generator makes its next page. -/
inductive Extraction.Raises (config : OcrConfig) (unicode : Unicode) (tools : Tools) (now : ℕ)
    (extraction : Extraction) : Thrown → Prop where
  | image {input : ExtractionInput} {format : DetectedFormat} {error : Thrown}
      (hstarted : extraction = .started input) (himage : input.inspected = .image format)
      (hstart : input.startPage ≤ 1)
      (hrecognize : tools.recognize input.language (pageBudget config now input.deadline)
        = .error error) :
      Raises config unicode tools now extraction error
  | render {pdf : PdfInfo} {nativePages : List JsString} {budget : ℤ} {dpi : Double}
      {error : Thrown}
      (hpdf : extraction.AtPdf config tools now pdf nativePages budget)
      (hrenders : extraction.Renders config unicode now pdf nativePages)
      (hdpi : renderDpiFor config pdf extraction.nextPage = .ok dpi)
      (hrender : tools.renderPage extraction.nextPage dpi
        (pageBudget config now extraction.input.deadline) = .error error) :
      Raises config unicode tools now extraction error
  | recognize {pdf : PdfInfo} {nativePages : List JsString} {budget : ℤ} {dpi : Double}
      {error : Thrown}
      (hpdf : extraction.AtPdf config tools now pdf nativePages budget)
      (hrenders : extraction.Renders config unicode now pdf nativePages)
      (hdpi : renderDpiFor config pdf extraction.nextPage = .ok dpi)
      (hrender : tools.renderPage extraction.nextPage dpi
        (pageBudget config now extraction.input.deadline) = .ok ())
      (hrecognize : tools.recognize extraction.input.language
        (pageBudget config now extraction.input.deadline) = .error error) :
      Raises config unicode tools now extraction error

theorem Extraction.next_of_atPdf {extraction : Extraction} {pdf : PdfInfo}
    {nativePages : List JsString} {budget : ℤ}
    (h : extraction.AtPdf config tools now pdf nativePages budget) :
  extraction.next config unicode tools now
    = pdfNext config unicode tools now extraction.input pdf nativePages extraction.nextPage budget
  := by
  cases extraction with
  | started input =>
      obtain ⟨hpdf, hnative, rfl⟩ := h
      simp only [next, hpdf, hnative, Extraction.input, nextPage]
  | inPdf input pdf' nativePages' n budget' =>
      obtain ⟨rfl, rfl, rfl⟩ := h
      rfl
  | afterImage input => cases h

/-- An image whose recognition fails for want of a tool is no page. -/
theorem ocrPage_of_missingTool {error : Thrown} (h : error.MissingTool) (n : ℕ)
    {input : ExtractionInput} (budget : ℤ)
    (hrecognize : tools.recognize input.language (pageBudget config now input.deadline)
      = .error error) :
  ocrPage config unicode tools now n input budget = .error error
  := by
  simp only [ocrPage, hrecognize, pageFailure_of_missingTool h n]

/-- A page that is rendered or recognised with an error that says that a tool is missing ends the
run. -/
theorem pdfNext_of_missingTool {error : Thrown} (h : error.MissingTool) {extraction : Extraction}
    {pdf : PdfInfo} {nativePages : List JsString} (budget : ℤ) {dpi : Double}
    (hrenders : extraction.Renders config unicode now pdf nativePages)
    (hdpi : renderDpiFor config pdf extraction.nextPage = .ok dpi)
    (hattempt : (do
        tools.renderPage extraction.nextPage dpi (pageBudget config now extraction.input.deadline)
        ocrPage config unicode tools now extraction.nextPage extraction.input budget)
      = .error error) :
  pdfNext config unicode tools now extraction.input pdf nativePages extraction.nextPage budget
    = .thrown error
  := by
  have hnative := hrenders.not_native
  have hrender : (do
        let dpi ← renderDpiFor config pdf extraction.nextPage
        tools.renderPage extraction.nextPage dpi (pageBudget config now extraction.input.deadline)
        ocrPage config unicode tools now extraction.nextPage extraction.input budget)
      = .error error := by
    rw [hdpi]
    exact hattempt
  have hpage : pdfPage config unicode tools now extraction.input pdf nativePages
      extraction.nextPage budget = .error error := by
    simp only [pdfPage, if_neg (Nat.not_le.mpr hrenders.in_time), hnative, Bool.false_eq_true,
      if_false, hrender, pageFailure_of_missingTool h]
  simp only [pdfNext, if_pos hrenders.exists_page, hpage]

/-- An error that says that a tool is missing ends the run where it is raised. -/
theorem Extraction.next_of_missingTool {extraction : Extraction} {error : Thrown}
    (hraises : extraction.Raises config unicode tools now error) (h : error.MissingTool) :
  extraction.next config unicode tools now = .thrown error
  := by
  cases hraises with
  | image hstarted himage hstart hrecognize =>
      subst hstarted
      simp only [next, himage, if_neg (Nat.not_lt.mpr hstart),
        ocrPage_of_missingTool h 1 _ hrecognize]
  | render hpdf hrenders hdpi hrender =>
      rw [next_of_atPdf hpdf]
      apply pdfNext_of_missingTool h _ hrenders hdpi
      rw [hrender]
      rfl
  | recognize hpdf hrenders hdpi hrender hrecognize =>
      rw [next_of_atPdf hpdf]
      apply pdfNext_of_missingTool h _ hrenders hdpi
      rw [hrender]
      exact ocrPage_of_missingTool h _ _ hrecognize

end

/-! ### A whole run -/

/-- The tools and the clock while each page is made.  A tool is any function of its arguments, so
that it may answer as it would at later readings of the clock. -/
abbrev World := ℕ → Tools × ℕ

section

variable (config : OcrConfig) (unicode : Unicode) (world : World)

/-- What a consumer gets from a generator that it resumes at most so many times: the pages, and the
error at their end if there is one.  `none` when the generator has not ended by then. -/
def Extraction.records : ℕ → Extraction → Option (List ExtractedPage × Option Thrown)
  | 0, _ => none
  | limit + 1, extraction =>
      match extraction.next config unicode (world extraction.nextPage).1
          (world extraction.nextPage).2 with
      | .page page rest =>
          (records limit rest).map fun (pages, error) => (page :: pages, error)
      | .done => some ([], none)
      | .thrown error => some ([], some error)

end

/-- The pages of a run: consecutive well-formed records from the next page of the generator on, all
of them unless an error came. -/
structure Extraction.Recorded (extraction : Extraction) (pages : List ExtractedPage)
    (error : Option Thrown) : Prop where
  numbers : pages.map (·.pageNumber) = List.range' extraction.nextPage pages.length
  all : error = none → pages.length = extraction.totalPages + 1 - extraction.nextPage
  initial : pages.length ≤ extraction.totalPages + 1 - extraction.nextPage
  wellFormed : ∀ page ∈ pages, page.WellFormed

/-- A generator that is resumed often enough ends, and its pages are as they should be. -/
theorem Extraction.exists_records {config : OcrConfig} (unicode : Unicode) (world : World)
    (hlimits : config.limits.Validated) {extraction : Extraction}
    (hpos : 1 ≤ extraction.nextPage) {limit : ℕ}
    (hlimit : extraction.totalPages + 1 - extraction.nextPage < limit) :
  ∃ pages error, extraction.records config unicode world limit = some (pages, error)
    ∧ extraction.Recorded pages error
  := by
  induction limit generalizing extraction with
  | zero => exact absurd hlimit (Nat.not_lt_zero _)
  | succ limit ih =>
      rw [records]
      cases hnext : extraction.next config unicode (world extraction.nextPage).1
          (world extraction.nextPage).2 with
      | page page rest =>
          obtain ⟨hnumber, hle, hrest, htotal⟩ := next_page hpos hnext
          have hih : ∃ pages error, rest.records config unicode world limit = some (pages, error)
              ∧ rest.Recorded pages error := ih (by omega) (by omega)
          obtain ⟨pages, error, hrecords, hrecorded⟩ := hih
          refine ⟨page :: pages, error, by simp only [hrecords, Option.map_some], ?_⟩
          constructor
          · rw [List.map_cons, hrecorded.numbers, List.length_cons, List.range'_succ, hnumber,
              hrest]
          · intro hnone
            have hall := hrecorded.all hnone
            rw [List.length_cons]
            omega
          · have hinitial := hrecorded.initial
            rw [List.length_cons]
            omega
          · intro other hother
            rcases List.mem_cons.mp hother with rfl | hother
            · exact next_wellFormed hlimits hnext
            · exact hrecorded.wellFormed other hother
      | done =>
          have hend := next_done hnext
          refine ⟨[], none, rfl, rfl, ?_, Nat.zero_le _, by simp⟩
          intro _
          rw [List.length_nil]
          omega
      | thrown error => exact ⟨[], some error, rfl, rfl, by simp, Nat.zero_le _, by simp⟩

/-- The extraction of a file yields its pages from the start page on in order, one well-formed
record each, and ends, or it throws after some of them; and a page for which a tool is missing is
not recorded but ends it. -/
theorem extraction_records_pages {config : OcrConfig} (hlimits : config.limits.Validated)
    (unicode : Unicode) (input : ExtractionInput) (hstart : 1 ≤ input.startPage)
    (world : World) :
  (∃ pages error, (Extraction.started input).records config unicode world
      (input.inspected.totalPages + 1) = some (pages, error)
    ∧ pages.map (·.pageNumber) = List.range' input.startPage pages.length
    ∧ (error = none → pages.length = input.inspected.totalPages + 1 - input.startPage)
    ∧ pages.length ≤ input.inspected.totalPages + 1 - input.startPage
    ∧ ∀ page ∈ pages, page.WellFormed)
  ∧ ∀ (extraction : Extraction) (tools : Tools) (now : ℕ) (error : Thrown),
    extraction.Raises config unicode tools now error → error.MissingTool →
    extraction.next config unicode tools now = .thrown error
  := by
  refine ⟨?_, fun extraction tools now error => Extraction.next_of_missingTool⟩
  have hlimit : (Extraction.started input).totalPages + 1 - (Extraction.started input).nextPage
      < input.inspected.totalPages + 1 := by
    have htotal : (Extraction.started input).totalPages = input.inspected.totalPages := rfl
    have hnext : (Extraction.started input).nextPage = input.startPage := rfl
    omega
  have hpos : 1 ≤ (Extraction.started input).nextPage := hstart
  obtain ⟨pages, error, hrecords, hrecorded⟩ :=
    Extraction.exists_records unicode world hlimits hpos hlimit
  exact ⟨pages, error, hrecords, hrecorded.numbers, hrecorded.all, hrecorded.initial,
    hrecorded.wellFormed⟩

/-- A scanned document of two pages. -/
def scannedInput : ExtractionInput where
  inspected := .pdf { pageCount := 2, pages := [] }
  language := js "eng"
  deadline := 100000
  startPage := 1
  charBudget := 1000

/-- The first page is recognised; then the engine is missing. -/
def vanishingEngine : World := fun n =>
  ({ extractText := fun _ _ _ => .ok [[], []]
     renderPage := fun _ _ _ => .ok ()
     recognize := fun _ _ =>
       if n = 1 then .ok { text := js "one", confidence := some 90 }
       else .error (.processing (.transient .OCR_PROCESSING_FAILED
         (js "The OCR engine is unavailable") (some (js "Command not found: tesseract")))) }, 0)

theorem extraction_records_pages_of_vanishingEngine :
  (∃ pages error, (Extraction.started scannedInput).records defaultOcrConfig asciiUnicode
      vanishingEngine 3 = some (pages, error)
    ∧ pages.map (·.pageNumber) = List.range' 1 pages.length
    ∧ (error = none → pages.length = 2) ∧ pages.length ≤ 2
    ∧ ∀ page ∈ pages, page.WellFormed)
  ∧ ∀ (extraction : Extraction) (tools : Tools) (now : ℕ) (error : Thrown),
    extraction.Raises defaultOcrConfig asciiUnicode tools now error → error.MissingTool →
    extraction.next defaultOcrConfig asciiUnicode tools now = .thrown error
  := extraction_records_pages Configuration.validated_defaultLimits asciiUnicode scannedInput
    (by decide) vanishingEngine

/-- The engine is found missing at the second page, which is not recorded. -/
example :
    ((Extraction.started scannedInput).records defaultOcrConfig asciiUnicode vanishingEngine 3).map
        (fun run => (run.1.map fun page => (page.pageNumber, page.status), run.2.isSome))
      = some ([(1, .COMPLETED)], true) := by
  decide +kernel

end DocuAI
