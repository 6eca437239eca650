import DocuAI.Ocr.Completeness

/-!
# Text limits

The generator threads the characters left for the document from page to page, and a new attempt
takes them from the sum over the stored pages.  While one worker runs a job the two agree, so that
the limits hold over all attempts together (`Metered`).  Every stored text is traced to the text the
tools reported for its page (`Traced`).
-/

namespace DocuAI

open JsString

/-! ### One page -/

/-- The text of a page is what the limits leave of a text that was reported for it, the page counts
it, and says whether that is all of it. -/
structure ExtractedPage.Within (config : OcrConfig) (unicode : Unicode)
    (reported : PageMethod → JsString → Prop) (page : ExtractedPage) : Prop where
  charCount : page.charCount = (codePoints (page.text.getD [])).length
  charCount_le : page.charCount ≤ config.limits.maxTextPerPage
  truncated : page.text = none → page.truncated = false
  text : ∀ text ∈ page.text, ∃ method raw, page.method = some method ∧ reported method raw
    ∧ text <+: normalizeExtractedText unicode raw
    ∧ (page.truncated = true ↔ text ≠ normalizeExtractedText unicode raw)

theorem ExtractedPage.Within.mono {config : OcrConfig} {unicode : Unicode}
    {reported reported' : PageMethod → JsString → Prop} {page : ExtractedPage}
    (h : page.Within config unicode reported)
    (hreported : ∀ method raw, reported method raw → reported' method raw) :
  page.Within config unicode reported'
  := by
  obtain ⟨hcount, hle, htruncated, htext⟩ := h
  refine ⟨hcount, hle, htruncated, ?_⟩
  intro text hsome
  obtain ⟨method, raw, hmethod, hraw, hcut⟩ := htext text hsome
  exact ⟨method, raw, hmethod, hreported method raw hraw, hcut⟩

/-- A failed page holds nothing. -/
theorem within_failedPage (config : OcrConfig) (unicode : Unicode)
    (reported : PageMethod → JsString → Prop) (n : ℕ) (code : OcrErrorCode)
    (method : Option PageMethod) :
  (failedPage n code method).Within config unicode reported
  := ⟨rfl, Nat.zero_le _, fun _ => rfl, by rintro _ ⟨⟩⟩

section

variable (n : ℕ) (method : PageMethod) (text : JsString) (confidence : Option Double) (budget : ℤ)
  (maxPerPage : ℕ)

theorem storeText_charCount :
  (storeText n method text confidence budget maxPerPage).charCount
    = (codePoints ((storeText n method text confidence budget maxPerPage).text.getD [])).length
  := by
  unfold storeText
  split
  · rfl
  · split
    · rfl
    · apply truncateText_charCount

theorem storeText_charCount_le :
  (storeText n method text confidence budget maxPerPage).charCount ≤ maxPerPage
  := by
  unfold storeText
  split
  · apply Nat.zero_le
  · split
    · apply Nat.zero_le
    · exact (truncateText_charCount_le _ _).trans (Nat.min_le_left _ _)

/-- A stored text takes no more than what is left for the document. -/
theorem storeText_charCount_le_budget :
  ((storeText n method text confidence budget maxPerPage).charCount : ℤ) ≤ max 0 budget
  := by
  unfold storeText
  split
  · apply le_max_left
  · split
    · apply le_max_left
    · have hcut := truncateText_charCount_le text (min maxPerPage budget.toNat)
      simp only
      omega

theorem storeText_method :
  (storeText n method text confidence budget maxPerPage).method = some method
  := by
  unfold storeText
  split
  · rfl
  · split
    · rfl
    · rfl

theorem storeText_truncated
    (h : (storeText n method text confidence budget maxPerPage).text = none) :
  (storeText n method text confidence budget maxPerPage).truncated = false
  := by
  unfold storeText at h ⊢
  split
  · rfl
  · split
    · rfl
    · rename_i hempty hbudget
      rw [if_neg hempty, if_neg hbudget] at h
      cases h

/-- A stored text is an initial part of the text, marked when it is not all of it. -/
theorem storeText_text {stored : JsString}
    (h : (storeText n method text confidence budget maxPerPage).text = some stored) :
  stored <+: text
  ∧ ((storeText n method text confidence budget maxPerPage).truncated = true ↔ stored ≠ text)
  := by
  unfold storeText at h ⊢
  split
  · rename_i hempty
    rw [if_pos hempty] at h
    obtain rfl := Option.some.inj h
    simp [hempty]
  · rename_i hempty
    rw [if_neg hempty] at h
    split
    · rename_i hbudget
      rw [if_pos hbudget] at h
      cases h
    · rename_i hbudget
      rw [if_neg hbudget] at h
      obtain rfl := Option.some.inj h
      exact ⟨truncateText_isPrefix _ _, truncateText_truncated _ _⟩

end

/-! ### What a generator yields -/

/-- What `run` handed to a generator. -/
def Extraction.input : Extraction → ExtractionInput
  | .started input => input
  | .inPdf input _ _ _ _ => input
  | .afterImage input => input

/-- The characters left for the document, `none` when no page is to come. -/
def Extraction.budget : Extraction → Option ℤ
  | .started input => some input.charBudget
  | .inPdf _ _ _ _ budget => some budget
  | .afterImage _ => none

/-- The native texts a generator has read. -/
def Extraction.readPages : Extraction → Option (List JsString)
  | .inPdf _ _ nativePages _ _ => some nativePages
  | _ => none

/-- The native texts from which a generator makes its next page: those it has read, or, before its
first page, those it reads now. -/
def Extraction.nativePages (config : OcrConfig) (tools : Tools) (now : ℕ) :
    Extraction → Option (List JsString)
  | .started input =>
      match input.inspected with
      | .pdf pdf => (nativePagesOf config tools now input pdf).toOption
      | .image _ => none
  | .inPdf _ _ nativePages _ _ => some nativePages
  | .afterImage _ => none

/-- The texts the tools report for the next page of a generator, by the method they come from. -/
inductive Extraction.Reads (config : OcrConfig) (tools : Tools) (now : ℕ)
    (extraction : Extraction) : PageMethod → JsString → Prop where
  | native {nativePages : List JsString}
      (hnative : extraction.nativePages config tools now = some nativePages) :
      Reads config tools now extraction .NATIVE_TEXT
        (nativePages[extraction.nextPage - 1]?.getD [])
  | recognized {result : OcrRecognizeResult}
      (hresult : tools.recognize extraction.input.language
        (pageBudget config now extraction.input.deadline) = .ok result) :
      Reads config tools now extraction .OCR result.text

/-- How a generator makes its next page, and what the page leaves. -/
structure Extraction.Makes (config : OcrConfig) (unicode : Unicode) (tools : Tools) (now : ℕ)
    (extraction : Extraction) (page : ExtractedPage) (rest : Extraction) : Prop where
  made : (∃ code, page = failedPage extraction.nextPage code none)
    ∨ ∃ method raw confidence, ∃ budget ∈ extraction.budget,
      extraction.Reads config tools now method raw
      ∧ page = storeText extraction.nextPage method (normalizeExtractedText unicode raw) confidence
        budget config.limits.maxTextPerPage
  leaves : ∀ left ∈ rest.budget, ∀ budget ∈ extraction.budget, left = budget - page.charCount
  input : rest.input = extraction.input
  readPages : ∀ nativePages ∈ rest.readPages,
    extraction.nativePages config tools now = some nativePages

variable {config : OcrConfig} {unicode : Unicode} {tools : Tools} {now : ℕ}

theorem Extraction.Makes.within {extraction rest : Extraction} {page : ExtractedPage}
    (h : extraction.Makes config unicode tools now page rest) :
  page.Within config unicode (extraction.Reads config tools now)
  := by
  rcases h.made with ⟨code, rfl⟩ | ⟨method, raw, confidence, budget, -, hreads, rfl⟩
  · apply within_failedPage
  · constructor
    · apply storeText_charCount
    · apply storeText_charCount_le
    · apply storeText_truncated
    · intro text htext
      refine ⟨method, raw, ?_, hreads, ?_⟩
      · apply storeText_method
      · apply storeText_text
        apply htext

/-- The loop of `extractPdf` makes a page from the texts it has. -/
theorem makes_of_pdfPage {extraction : Extraction} {page : ExtractedPage} {pdf : PdfInfo}
    {nativePages : List JsString} {budget : ℤ}
    (hnative : extraction.nativePages config tools now = some nativePages)
    (hbudget : extraction.budget = some budget)
    (h : pdfPage config unicode tools now extraction.input pdf nativePages extraction.nextPage budget
      = .ok page) :
  extraction.Makes config unicode tools now page (.inPdf extraction.input pdf nativePages
    (extraction.nextPage + 1) (budget - page.charCount))
  := by
  refine ⟨?_, ?_, rfl, ?_⟩
  · rcases eq_of_pdfPage h with hfailed | hstored | ⟨result, hresult, hstored⟩
    · exact .inl hfailed
    · exact .inr ⟨_, _, _, budget, hbudget, .native hnative, hstored⟩
    · exact .inr ⟨_, _, _, budget, hbudget, .recognized hresult, hstored⟩
  · rintro left ⟨⟩ budget' hbudget'
    obtain rfl := Option.some.inj (hbudget.symm.trans hbudget')
    rfl
  · rintro _ ⟨⟩
    exact hnative

/-- Every page a generator yields is made so. -/
theorem Extraction.makes_of_next {extraction rest : Extraction} {page : ExtractedPage}
    (hpos : 1 ≤ extraction.nextPage)
    (h : extraction.next config unicode tools now = .page page rest) :
  extraction.Makes config unicode tools now page rest
  := by
  cases yields_of_next h with
  | @firstPage input pdf nativePages _ hpdf hnative hle hpage =>
      have hread : (Extraction.started input).nativePages config tools now = some nativePages := by
        simp only [Extraction.nativePages, hpdf, hnative]
        rfl
      exact makes_of_pdfPage hread rfl hpage
  | nextPage hle hpage => exact makes_of_pdfPage rfl rfl hpage
  | @image input format _ himage hstart hpage =>
      have hone : input.startPage = 1 := Nat.le_antisymm hstart hpos
      refine ⟨?_, by rintro _ ⟨⟩, rfl, by rintro _ ⟨⟩⟩
      simp only [nextPage, hone]
      rcases eq_of_ocrPage hpage with hfailed | ⟨result, hresult, hstored⟩
      · exact .inl hfailed
      · exact .inr ⟨_, _, _, input.charBudget, rfl, .recognized hresult, hstored⟩

namespace OcrWorker

/-! ### The stored characters -/

/-- The characters stored for a job. -/
def storedChars (db : Database) (jobId : ℕ) : ℕ :=
  ((db.pagesOf jobId).map OcrPage.charCount).sum

/-- A generator of the job goes on after the stored pages, with what they leave of the limit. -/
structure ExtractionFits (config : OcrConfig) (db : Database) (jobId : ℕ)
    (extraction : Extraction) : Prop where
  pos : 1 ≤ extraction.nextPage
  fresh : ∀ stored ∈ db.pagesOf jobId, stored.pageNumber < extraction.nextPage
  budget : ∀ budget ∈ extraction.budget,
    budget = (config.limits.maxTextPerDocument : ℤ) - storedChars db jobId

/-- A page about to be stored for the job is new and within the limits, and the generator goes on
after it. -/
structure YieldedFits (config : OcrConfig) (db : Database) (jobId : ℕ) (page : ExtractedPage)
    (rest : Extraction) : Prop where
  fresh : ∀ stored ∈ db.pagesOf jobId, stored.pageNumber < page.pageNumber
  charCount_le : storedChars db jobId + page.charCount ≤ config.limits.maxTextPerDocument
  nextPage : rest.nextPage = page.pageNumber + 1
  budget : ∀ budget ∈ rest.budget,
    budget = (config.limits.maxTextPerDocument : ℤ) - storedChars db jobId - page.charCount

/-- What the phase of the one process inside `run` says about the stored pages. -/
def Phase.Fits (config : OcrConfig) (db : Database) (jobId : ℕ) : Phase → Prop
  | .extracting _ extraction => ExtractionFits config db jobId extraction
  | .yielded _ page rest => YieldedFits config db jobId page rest
  | _ => True

/-- The invariant of the characters of a job. -/
structure Metered (config : OcrConfig) (jobId : ℕ) (s : State) : Prop where
  total : storedChars s.db jobId ≤ config.limits.maxTextPerDocument
  fits : ∀ q ∈ s.processes.rows, q.jobId = jobId → q.phase.Fits config s.db jobId

/-- At most one process is inside `run` with the job. -/
def OneWorkerInRun (jobId : ℕ) (s : State) : Prop :=
  ∀ p ∈ s.processes.rows, ∀ q ∈ s.processes.rows, p.jobId = jobId → q.jobId = jobId →
    p.phase.inRun = true → q.phase.inRun = true → p = q

instance (jobId : ℕ) (s : State) : Decidable (OneWorkerInRun jobId s) :=
  inferInstanceAs (Decidable (∀ p ∈ s.processes.rows, ∀ q ∈ s.processes.rows, p.jobId = jobId →
    q.jobId = jobId → p.phase.inRun = true → q.phase.inRun = true → p = q))

/-- Only the stored pages of the job matter. -/
theorem Phase.Fits.congr {db db' : Database} {jobId : ℕ}
    (hpages : db'.pagesOf jobId = db.pagesOf jobId) {phase : Phase}
    (h : phase.Fits config db jobId) :
  phase.Fits config db' jobId
  := by
  have hstored : storedChars db' jobId = storedChars db jobId := by
    rw [storedChars, hpages, storedChars]
  cases phase with
  | extracting job extraction =>
      obtain ⟨hpos, hfresh, hbudget⟩ := h
      rw [← hpages] at hfresh
      rw [← hstored] at hbudget
      exact ⟨hpos, hfresh, hbudget⟩
  | yielded job page rest =>
      obtain ⟨hfresh, hle, hnext, hbudget⟩ := h
      rw [← hpages] at hfresh
      rw [← hstored] at hle hbudget
      exact ⟨hfresh, hle, hnext, hbudget⟩
  | _ => trivial

theorem fits_load (db : Database) (jobId : ℕ) (job : OcrJob) :
  (Process.load config db job).Fits config db jobId
  := by
  apply Process.load_cases (motive := fun phase => phase.Fits config db jobId)
  · trivial
  · trivial
  · exact fun _ => trivial

/-- Outside `run` a phase says nothing. -/
theorem Phase.fits_of_not_inRun {phase : Phase} (h : phase.inRun = false) (db : Database)
    (jobId : ℕ) :
  phase.Fits config db jobId
  := by
  cases phase with
  | extracting job extraction => cases h
  | yielded job page rest => cases h
  | _ => trivial

theorem le_foldr_max {l : List ℕ} {n : ℕ} (h : n ∈ l) :
  n ≤ l.foldr max 0
  := by
  induction l with
  | nil => cases h
  | cons m l ih =>
      rw [List.foldr_cons]
      rcases List.mem_cons.mp h with rfl | h
      · apply le_max_left
      · exact (ih h).trans (le_max_right _ _)

/-- A new attempt goes on after the stored pages, with what they leave of the limit. -/
theorem fits_extractionInput (db : Database) (q : Process) (job : OcrJob)
    (inspected : InspectedFile) :
  ExtractionFits config db q.jobId (.started (q.extractionInput config db now job inspected))
  := by
  constructor
  · apply Nat.le_add_left
  · intro stored hstored
    have hmem : stored.pageNumber ∈ (db.pagesOf q.jobId).map OcrPage.pageNumber :=
      List.mem_map_of_mem hstored
    exact Nat.lt_succ_of_le (le_foldr_max hmem)
  · rintro _ ⟨⟩
    rfl

/-- What a fitting generator yields fits. -/
theorem ExtractionFits.yields {db : Database} {jobId : ℕ} {extraction rest : Extraction}
    {page : ExtractedPage} (h : ExtractionFits config db jobId extraction)
    (htotal : storedChars db jobId ≤ config.limits.maxTextPerDocument)
    (hnext : extraction.next config unicode tools now = .page page rest) :
  YieldedFits config db jobId page rest
  := by
  obtain ⟨hpos, hfresh, hbudget⟩ := h
  obtain ⟨hnumber, -, hrest, -⟩ := Extraction.next_page hpos hnext
  obtain ⟨hmade, hleaves, -, -⟩ := Extraction.makes_of_next hpos hnext
  constructor
  · rw [hnumber]
    exact hfresh
  · rcases hmade with ⟨code, rfl⟩ | ⟨method, raw, confidence, budget, hleft, -, rfl⟩
    · exact htotal
    · have hle := storeText_charCount_le_budget extraction.nextPage method
        (normalizeExtractedText unicode raw) confidence budget config.limits.maxTextPerPage
      have hbudget := hbudget budget hleft
      omega
  · rw [hnumber, hrest]
  · intro left hleft
    cases hextraction : extraction.budget with
    | none =>
        -- after its only page a generator yields none
        cases extraction with
        | afterImage input => cases hnext
        | _ => cases hextraction
    | some budget => rw [hleaves left hleft budget hextraction, hbudget budget hextraction]

/-- A process that stores no page goes on to a phase that fits. -/
theorem fits_of_act {db : Database} {q : Process} {a : Action} {e : Effect}
    (hact : q.act config unicode db now a = some e)
    (htotal : storedChars db q.jobId ≤ config.limits.maxTextPerDocument)
    (h : q.phase.Fits config db q.jobId)
    (hpersist : ∀ page, e.write ≠ some (.persistPage q.jobId page)) (reply : Bool) :
  (e.next reply).phase.Fits config db q.jobId
  := by
  have hmoves := Process.moves_of_act hact
  clear hact
  cases hmoves with
  | claims hphase hread =>
      cases reply with
      | false => trivial
      | true => trivial
  | loads hphase => apply fits_load
  | resumes hphase => apply fits_extractionInput
  | yields hphase hnext =>
      rw [hphase] at h
      exact h.yields htotal hnext
  | persists hphase => exact absurd rfl (hpersist _)
  | beats htimer => exact h
  | _ => trivial

/-! ### Runs -/

/-- Storing a page that fits adds its characters, and the generator goes on after it. -/
theorem YieldedFits.stored {db db' : Database} {jobId : ℕ} {page : ExtractedPage}
    {rest : Extraction} (h : YieldedFits config db jobId page rest)
    (hdb : db'.ocrPages = db.ocrPages.put (OcrJobService.pageRow jobId page)) :
  db'.pagesOf jobId = db.pagesOf jobId ++ [OcrJobService.pageRow jobId page]
  ∧ storedChars db' jobId = storedChars db jobId + page.charCount
  ∧ ExtractionFits config db' jobId rest
  := by
  have hnew : db.ocrPages.find (OcrJobService.pageRow jobId page).key = none := by
    cases hfind : db.ocrPages.find (OcrJobService.pageRow jobId page).key with
    | none => rfl
    | some stored =>
        obtain ⟨hmem, hnumber⟩ := Database.find_page_iff.mp hfind
        have hlt := h.fresh stored hmem
        rw [hnumber] at hlt
        exact absurd hlt (Nat.lt_irrefl _)
  have hpages : db'.pagesOf jobId = db.pagesOf jobId ++ [OcrJobService.pageRow jobId page] := by
    rw [Database.pagesOf, hdb]
    apply Database.pagesOf_storePage_of_find_none hnew
  have hchars : storedChars db' jobId = storedChars db jobId + page.charCount := by
    rw [storedChars, hpages, List.map_append, List.sum_append]
    simp [storedChars, OcrJobService.pageRow]
  refine ⟨hpages, hchars, ?_, ?_, ?_⟩
  · rw [h.nextPage]
    apply Nat.le_add_left
  · intro stored hstored
    rw [hpages, List.mem_append, List.mem_singleton] at hstored
    rw [h.nextPage]
    rcases hstored with hstored | rfl
    · exact (h.fresh stored hstored).trans (Nat.lt_succ_self _)
    · exact Nat.lt_succ_self _
  · intro budget hbudget
    rw [h.budget budget hbudget, hchars]
    push_cast
    ring

/-- Every step of a process keeps the invariant, when it is the only one inside `run`. -/
theorem metered_apply {jobId : ℕ} {s : State} {q : Process} {a : Action} {e : Effect}
    (h : Metered config jobId s) (hone : OneWorkerInRun jobId s) (hq : q ∈ s.processes.rows)
    (hact : q.act config unicode s.db s.now a = some e) :
  Metered config jobId (s.apply config q e)
  := by
  have hothers : (s.apply config q e).db.pagesOf jobId = s.db.pagesOf jobId →
      ∀ r ∈ s.processes.rows, r.jobId = jobId →
        r.phase.Fits config (s.apply config q e).db jobId := by
    intro hpages r hr hjob
    exact (h.fits r hr hjob).congr hpages
  rcases ocrPages_apply hact with ⟨job, page, rest, -, hphase, rfl, hpages⟩ | ⟨hpersist, hpages⟩
  · by_cases hjob : q.jobId = jobId
    · subst hjob
      have hyielded := h.fits q hq rfl
      rw [hphase] at hyielded
      obtain ⟨-, hchars, hfits⟩ := hyielded.stored hpages
      constructor
      · rw [hchars]
        exact hyielded.charCount_le
      · intro r hr hrjob
        rw [processes_apply] at hr
        rcases Table.mem_rows_put_iff.mp hr with rfl | ⟨hr, hne⟩
        · exact hfits
        · -- the process that stores the page is the one inside `run`
          apply Phase.fits_of_not_inRun
          by_contra hin
          apply hne
          rw [hone r hr q hq hrjob rfl (Bool.not_eq_false _ ▸ hin) (by rw [hphase]; rfl)]
    · have hsame : (s.apply config q ⟨some (.persistPage q.jobId page),
          q.renewTo s.now (.extracting job rest)⟩).db.pagesOf jobId = s.db.pagesOf jobId := by
        rw [Database.pagesOf, hpages]
        apply Database.pagesOf_storePage_of_ne hjob
      constructor
      · rw [storedChars, hsame]
        exact h.total
      · intro r hr hrjob
        rw [processes_apply] at hr
        rcases Table.mem_rows_put_iff.mp hr with rfl | ⟨hr, -⟩
        · exact absurd hrjob hjob
        · exact hothers hsame r hr hrjob
  · have hsame : (s.apply config q e).db.pagesOf jobId = s.db.pagesOf jobId := by
      rw [Database.pagesOf, hpages, Database.pagesOf]
    constructor
    · rw [storedChars, hsame]
      exact h.total
    · intro r hr hrjob
      rw [processes_apply] at hr
      rcases Table.mem_rows_put_iff.mp hr with rfl | ⟨hr, -⟩
      · subst hrjob
        exact (fits_of_act hact h.total (h.fits q hq rfl) hpersist _).congr hsame
      · exact hothers hsame r hr hrjob

/-- Every step of the system keeps the invariant. -/
theorem metered_step {jobId : ℕ} {s s' : State} {a : Label}
    (hstep : step config unicode s a = some s') (hone : OneWorkerInRun jobId s)
    (h : Metered config jobId s) :
  Metered config jobId s'
  := by
  rcases process_or_quiet_of_step hstep with
    ⟨q, hq, action, e, -, hact, rfl⟩ | ⟨hpages, hprocesses⟩
  · exact metered_apply h hone hq hact
  · have hsame : s'.db.pagesOf jobId = s.db.pagesOf jobId := by
      rw [Database.pagesOf, hpages, Database.pagesOf]
    constructor
    · rw [storedChars, hsame]
      exact h.total
    · intro r hr hjob
      rcases hprocesses r hr with hr | hphase
      · exact (h.fits r hr hjob).congr hsame
      · rw [hphase]
        trivial

theorem metered_init {s : State} (hinit : (system config unicode).init s) (jobId : ℕ) :
  Metered config jobId s
  := by
  obtain ⟨-, hpages, hprocesses, -⟩ := hinit
  constructor
  · simp [storedChars, Database.pagesOf, hpages]
  · simp [hprocesses]

/-! ### Where the texts come from -/

/-- In a transition a worker of the job resumes a generator, and the tools give their answers. -/
def Extracts (jobId : ℕ) (extraction : Extraction) (tools : Tools) (t : Transition State Label) :
    Prop :=
  ∃ q ∈ t.source.processes.rows, ∃ job, q.jobId = jobId ∧ q.phase = .extracting job extraction
    ∧ t.label = .process q.id (.extract tools)

/-- The native texts of all pages, as the tools reported them to a worker of the job. -/
def NativePagesReported (config : OcrConfig) (ts : List (Transition State Label)) (jobId : ℕ)
    (nativePages : List JsString) : Prop :=
  ∃ t ∈ ts, ∃ input pdf tools, Extracts jobId (.started input) tools t
    ∧ input.inspected = .pdf pdf
    ∧ nativePagesOf config tools t.source.now input pdf = .ok nativePages

/-- In a run the tools reported a text for a page to a worker of the job: among the native texts of
all pages, or as the one recognised on the page. -/
inductive Reported (config : OcrConfig) (ts : List (Transition State Label)) (jobId n : ℕ) :
    PageMethod → JsString → Prop where
  | native {nativePages : List JsString}
      (hnative : NativePagesReported config ts jobId nativePages) :
      Reported config ts jobId n .NATIVE_TEXT (nativePages[n - 1]?.getD [])
  | recognized {t : Transition State Label} {extraction : Extraction} {tools : Tools}
      {result : OcrRecognizeResult} (ht : t ∈ ts) (hextracts : Extracts jobId extraction tools t)
      (hpage : extraction.nextPage = n)
      (hresult : tools.recognize extraction.input.language
        (pageBudget config t.source.now extraction.input.deadline) = .ok result) :
      Reported config ts jobId n .OCR result.text

/-- What a phase holds was reported in the run. -/
def Phase.Traced (config : OcrConfig) (unicode : Unicode) (ts : List (Transition State Label))
    (jobId : ℕ) : Phase → Prop
  | .extracting _ extraction =>
      1 ≤ extraction.nextPage
        ∧ ∀ nativePages ∈ extraction.readPages, NativePagesReported config ts jobId nativePages
  | .yielded _ page rest =>
      page.Within config unicode (Reported config ts jobId page.pageNumber)
        ∧ 1 ≤ rest.nextPage
        ∧ ∀ nativePages ∈ rest.readPages, NativePagesReported config ts jobId nativePages
  | _ => True

/-- The stored pages of the job, and what its workers hold, were reported in the run. -/
structure Traced (config : OcrConfig) (unicode : Unicode) (ts : List (Transition State Label))
    (jobId : ℕ) (s : State) : Prop where
  pages : ∀ page ∈ s.db.pagesOf jobId, ∃ extracted, page = OcrJobService.pageRow jobId extracted
    ∧ extracted.Within config unicode (Reported config ts jobId extracted.pageNumber)
  phases : ∀ q ∈ s.processes.rows, q.jobId = jobId → q.phase.Traced config unicode ts jobId

/-- A worker goes on to a phase whose texts were reported. -/
theorem traced_of_act {ts : List (Transition State Label)} {t : Transition State Label} {q : Process}
    {a : Action} {e : Effect} (ht : t ∈ ts) (hq : q ∈ t.source.processes.rows)
    (hlabel : t.label = .process q.id a)
    (hact : q.act config unicode t.source.db t.source.now a = some e)
    (h : q.phase.Traced config unicode ts q.jobId) (reply : Bool) :
  (e.next reply).phase.Traced config unicode ts q.jobId
  := by
  have hmoves := Process.moves_of_act hact
  clear hact
  cases hmoves with
  | claims hphase hread =>
      cases reply with
      | false => trivial
      | true => trivial
  | @loads job hphase =>
      apply Process.load_cases (motive := fun phase => phase.Traced config unicode ts q.jobId)
      · trivial
      · trivial
      · exact fun _ => trivial
  | resumes hphase => exact ⟨Nat.le_add_left _ _, by rintro _ ⟨⟩⟩
  | @yields job extraction rest tools page hphase hnext =>
      rw [hphase] at h
      obtain ⟨hpos, hread⟩ := h
      have hextracts : Extracts q.jobId extraction tools t := ⟨q, hq, job, rfl, hphase, hlabel⟩
      have hmakes := Extraction.makes_of_next hpos hnext
      obtain ⟨hnumber, -, hrest, -⟩ := Extraction.next_page hpos hnext
      have hnative : ∀ nativePages,
          extraction.nativePages config tools t.source.now = some nativePages →
          NativePagesReported config ts q.jobId nativePages := by
        intro nativePages hsome
        cases extraction with
        | started input =>
            simp only [Extraction.nativePages] at hsome
            split at hsome
            · rename_i pdf hpdf
              refine ⟨t, ht, input, pdf, tools, hextracts, hpdf, ?_⟩
              cases hok : nativePagesOf config tools t.source.now input pdf with
              | ok pages =>
                  rw [hok] at hsome
                  rw [← Option.some.inj hsome]
              | error error =>
                  rw [hok] at hsome
                  cases hsome
            · cases hsome
        | inPdf input pdf pages n budget => exact hread nativePages hsome
        | afterImage input => cases hsome
      refine ⟨?_, by omega, fun nativePages hsome => hnative _ (hmakes.readPages _ hsome)⟩
      apply hmakes.within.mono
      rintro _ _ (hsome | hresult)
      · rw [hnumber]
        exact .native (hnative _ hsome)
      · exact .recognized ht hextracts hnumber.symm hresult
  | persists hphase =>
      rw [hphase] at h
      exact h.2
  | beats htimer => exact h
  | _ => trivial

/-- Every transition keeps the invariant. -/
theorem traced_step {ts : List (Transition State Label)} {t : Transition State Label} (ht : t ∈ ts)
    (hstep : step config unicode t.source t.label = some t.target) {jobId : ℕ}
    (h : Traced config unicode ts jobId t.source) :
  Traced config unicode ts jobId t.target
  := by
  rcases process_or_quiet_of_step hstep with
    ⟨q, hq, action, e, hlabel, hact, htarget⟩ | ⟨hpages, hprocesses⟩
  · rw [htarget]
    constructor
    · intro page hpage
      rcases ocrPages_apply hact with ⟨job, extracted, rest, -, hphase, rfl, hpages⟩ | ⟨-, hpages⟩
      · rw [Database.pagesOf, hpages, List.mem_filter] at hpage
        obtain ⟨hpage, hjob⟩ := hpage
        rcases Table.mem_rows_put_iff.mp hpage with rfl | ⟨hpage, -⟩
        · have hyielded := h.phases q hq (of_decide_eq_true hjob)
          rw [hphase] at hyielded
          obtain rfl : q.jobId = jobId := of_decide_eq_true hjob
          exact ⟨extracted, rfl, hyielded.1⟩
        · exact h.pages page (List.mem_filter.mpr ⟨hpage, hjob⟩)
      · rw [Database.pagesOf, hpages] at hpage
        exact h.pages page hpage
    · intro r hr hjob
      rw [processes_apply] at hr
      rcases Table.mem_rows_put_iff.mp hr with rfl | ⟨hr, -⟩
      · subst hjob
        exact traced_of_act ht hq hlabel hact (h.phases q hq rfl) _
      · exact h.phases r hr hjob
  · constructor
    · intro page hpage
      rw [Database.pagesOf, hpages] at hpage
      exact h.pages page hpage
    · intro r hr hjob
      rcases hprocesses r hr with hr | hphase
      · exact h.phases r hr hjob
      · rw [hphase]
        trivial

theorem traced_init {s : State} (hinit : (system config unicode).init s)
    (ts : List (Transition State Label)) (jobId : ℕ) :
  Traced config unicode ts jobId s
  := by
  obtain ⟨-, hpages, hprocesses, -⟩ := hinit
  constructor
  · simp [Database.pagesOf, hpages]
  · simp [hprocesses]

/-- While at most one worker at a time is inside `run` with a job, its pages together hold no more
characters than a document may; every page counts the code points of its text, holds no more than a
page may, and has as its text an initial part of the normalised text reported for it, marked when
something is missing. -/
theorem text_limits_hold {s₀ s : State} {ts : List (Transition State Label)}
    (hrun : (system config unicode).Run s₀ ts s) (hinit : (system config unicode).init s₀)
    {jobId : ℕ} (hone : ∀ t ∈ ts, OneWorkerInRun jobId t.source) :
  ((s.db.pagesOf jobId).map OcrPage.charCount).sum ≤ config.limits.maxTextPerDocument
  ∧ ∀ page ∈ s.db.pagesOf jobId,
    page.charCount = (codePoints (page.text.getD [])).length
    ∧ page.charCount ≤ config.limits.maxTextPerPage
    ∧ (page.text = none → page.truncated = false)
    ∧ ∀ text ∈ page.text, ∃ method raw, page.method = some method
      ∧ Reported config ts jobId page.pageNumber method raw
      ∧ text <+: normalizeExtractedText unicode raw
      ∧ (page.truncated = true ↔ text ≠ normalizeExtractedText unicode raw)
  := by
  have hmetered : Metered config jobId s := by
    apply hrun.invariant (metered_init hinit jobId)
    intro t ht hstep hmetered
    exact metered_step hstep (hone t ht) hmetered
  have htraced : Traced config unicode ts jobId s := by
    apply hrun.invariant (traced_init hinit ts jobId)
    intro t ht hstep htraced
    exact traced_step ht hstep htraced
  refine ⟨hmetered.total, ?_⟩
  intro page hpage
  obtain ⟨extracted, rfl, hcount, hle, htruncated, htext⟩ := htraced.pages page hpage
  exact ⟨hcount, hle, htruncated, htext⟩

/-- The sample configuration with limits that cut the texts of the sample. -/
def tightConfig : OcrConfig :=
  { sampleConfig with
    limits := { sampleConfig.limits with maxTextPerPage := 8, maxTextPerDocument := 12 } }

/-- The interrupted job under tight limits: the first page is cut to the limit of a page, and the
second, stored by another worker, to what the first has left. -/
theorem text_limits_hold_of_interruptedJob :
  ∃ ts s, (system tightConfig asciiUnicode).Run sampleState ts s
    ∧ (∀ t ∈ ts, OneWorkerInRun 1 t.source)
    ∧ (s.db.pagesOf 1).map (fun page => (page.text, page.charCount))
      = [(some (js "First pa"), 8), (some (js "Seco"), 4)]
    ∧ ((s.db.pagesOf 1).map OcrPage.charCount).sum ≤ tightConfig.limits.maxTextPerDocument
    ∧ ∀ page ∈ s.db.pagesOf 1,
      page.charCount = (codePoints (page.text.getD [])).length
      ∧ page.charCount ≤ tightConfig.limits.maxTextPerPage
      ∧ (page.text = none → page.truncated = false)
      ∧ ∀ text ∈ page.text, ∃ method raw, page.method = some method
        ∧ Reported tightConfig ts 1 page.pageNumber method raw
        ∧ text <+: normalizeExtractedText asciiUnicode raw
        ∧ (page.truncated = true ↔ text ≠ normalizeExtractedText asciiUnicode raw)
  := by
  have hsome : ((system tightConfig asciiUnicode).execute
      (fun t => decide (OneWorkerInRun 1 t.source)) sampleState interruptedJob).any
        (fun s => decide ((s.db.pagesOf 1).map (fun page => (page.text, page.charCount))
          = [(some (js "First pa"), 8), (some (js "Seco"), 4)])) = true := by
    decide +kernel
  obtain ⟨s, hs, htexts⟩ := (Option.any_eq_true _ _).mp hsome
  obtain ⟨ts, hrun, hts⟩ := TransitionSystem.run_of_execute hs
  have hone : ∀ t ∈ ts, OneWorkerInRun 1 t.source := fun t ht => of_decide_eq_true (hts t ht)
  refine ⟨ts, s, hrun, hone, of_decide_eq_true htexts, ?_⟩
  exact text_limits_hold hrun ⟨rfl, rfl, rfl, rfl⟩ hone

end OcrWorker

end DocuAI
