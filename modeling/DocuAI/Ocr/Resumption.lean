import DocuAI.Ocr.Limits
import DocuAI.Ocr.Rows

/-!
# Resuming equals not being interrupted

Each attempt starts a generator of its own, after the stored pages and with the characters they
leave.  When the tools answer the same about a page in every attempt and no deadline is reached, a
generator is determined by its place, the next page and the characters left (`Extraction.At`), and
the stored pages are the first ones of an attempt that is never interrupted (`Resumable`).
-/

namespace DocuAI

/-! ### Fixed answers -/

/-- What the tools answer about a file: its native texts, and for each page the outcome of rendering
it and the text recognised on it. -/
structure Answers where
  native : Except Thrown (List JsString)
  rendered : ℕ → Except Thrown Unit
  recognized : ℕ → Except Thrown OcrRecognizeResult

/-- The tools while page `n` is made. -/
def Answers.tools (answers : Answers) (n : ℕ) : Tools where
  extractText _ _ _ := answers.native
  renderPage pageNumber _ _ := answers.rendered pageNumber
  recognize _ _ := answers.recognized n

theorem Answers.tools_renderPage (answers : Answers) (n pageNumber : ℕ) (dpi : Double)
    (timeoutMs : ℕ) :
  (answers.tools n).renderPage pageNumber dpi timeoutMs = answers.rendered pageNumber
  := rfl

/-- While page `n` is made, each tool gives its answer or fails with an error that aborts the
attempt. -/
structure Tools.Give (tools : Tools) (answers : Answers) (n : ℕ) : Prop where
  extractText : ∀ pageCount timeoutMs maxBytes,
    tools.extractText pageCount timeoutMs maxBytes = answers.native
    ∨ ∃ error, tools.extractText pageCount timeoutMs maxBytes = .error error
      ∧ ∀ processing, error ≠ .processing processing
  renderPage : ∀ dpi timeoutMs, tools.renderPage n dpi timeoutMs = answers.rendered n
    ∨ ∃ error, tools.renderPage n dpi timeoutMs = .error error ∧ pageFailure error n = none
  recognize : ∀ language timeoutMs, tools.recognize language timeoutMs = answers.recognized n
    ∨ ∃ error, tools.recognize language timeoutMs = .error error ∧ pageFailure error n = none

/-! ### The uninterrupted attempt -/

section

variable (config : OcrConfig) (unicode : Unicode) (answers : Answers)

/-- The pages a generator yields one after the other, `none` when there are more than `limit` or
when an error aborts the attempt. -/
def Extraction.pages (now : ℕ) : ℕ → Extraction → Option (List ExtractedPage)
  | 0, extraction =>
      match extraction.next config unicode (answers.tools extraction.nextPage) now with
      | .done => some []
      | _ => none
  | limit + 1, extraction =>
      match extraction.next config unicode (answers.tools extraction.nextPage) now with
      | .page page rest => (pages now limit rest).map (page :: ·)
      | .done => some []
      | .thrown _ => none

/-- The pages of a single attempt that is not interrupted: the generator starts at the first page,
with all characters left, and yields all pages of the file before its deadline. -/
def uninterrupted (inspected : InspectedFile) (language : JsString) (now deadline : ℕ) :
    Option (List ExtractedPage) :=
  (Extraction.started
    { inspected
      language
      deadline
      startPage := 1
      charBudget := config.limits.maxTextPerDocument }).pages config unicode answers now
    inspected.totalPages

/-! ### Places -/

/-- A generator for a file is at a place: it makes page `n` next, with `budget` characters left. -/
def Extraction.At (inspected : InspectedFile) (n : ℕ) (budget : ℤ) : Extraction → Prop
  | .started input =>
      input.inspected = inspected ∧ input.startPage = n ∧ input.charBudget = budget
  | .inPdf input pdf nativePages pageNumber left =>
      inspected = .pdf pdf ∧ nativePagesOf config (answers.tools n) 0 input pdf = .ok nativePages
        ∧ pageNumber = n ∧ left = budget
  | .afterImage _ => (∃ format, inspected = .image format) ∧ n = 2

/-- What a generator at a place yields. -/
def Answers.yieldAt (inspected : InspectedFile) (n : ℕ) (budget : ℤ) : Yield :=
  (Extraction.started
    { inspected, language := [], deadline := 1, startPage := n, charBudget := budget }).next
    config unicode (answers.tools n) 0

/-- Two results of generators at a place: the same page, with the generators at the next place, or
both the end, or both an error. -/
inductive Yield.Matches (inspected : InspectedFile) (n : ℕ) (budget : ℤ) : Yield → Yield → Prop where
  | page {page : ExtractedPage} {rest rest' : Extraction}
      (hrest : rest.At config answers inspected (n + 1) (budget - page.charCount)) :
      Matches inspected n budget (.page page rest) (.page page rest')
  | done : Matches inspected n budget .done .done
  | thrown {error error' : Thrown} : Matches inspected n budget (.thrown error) (.thrown error')

end

variable {config : OcrConfig} {unicode : Unicode} {answers : Answers} {tools : Tools} {now : ℕ}

theorem Extraction.At.nextPage_eq {inspected : InspectedFile} {n : ℕ} {budget : ℤ}
    {extraction : Extraction} (h : extraction.At config answers inspected n budget) :
  extraction.nextPage = n
  := by
  cases extraction with
  | started input => exact h.2.1
  | inPdf input pdf nativePages pageNumber left => exact h.2.2.1
  | afterImage input => exact h.2.symm

/-! ### Answers that abort the attempt -/

/-- Tools that fail while a page is recognised abort the attempt, or else the page is as usual. -/
theorem ocrPage_of_give (config : OcrConfig) (unicode : Unicode) (now : ℕ) {n : ℕ}
    (input : ExtractionInput) (budget : ℤ) (h : tools.Give answers n) :
  (∃ error, ocrPage config unicode tools now n input budget = .error error
    ∧ pageFailure error n = none)
  ∨ ocrPage config unicode tools now n input budget
    = ocrPage config unicode (answers.tools n) now n input budget
  := by
  rcases h.recognize input.language (pageBudget config now input.deadline) with
    hanswer | ⟨error, hanswer, hfailure⟩
  · right
    unfold ocrPage
    rw [hanswer]
    rfl
  · left
    use error
    unfold ocrPage
    simp only [hanswer, hfailure, and_self]

theorem pdfPage_of_give (config : OcrConfig) (unicode : Unicode) (now : ℕ) {n : ℕ}
    (input : ExtractionInput) (pdf : PdfInfo) (nativePages : List JsString) (budget : ℤ)
    (h : tools.Give answers n) :
  (∃ error, pdfPage config unicode tools now input pdf nativePages n budget = .error error)
  ∨ pdfPage config unicode tools now input pdf nativePages n budget
    = pdfPage config unicode (answers.tools n) now input pdf nativePages n budget
  := by
  unfold pdfPage
  split
  · exact .inr rfl
  · simp only
    split
    · exact .inr rfl
    · cases hdpi : renderDpiFor config pdf n with
      | error error => exact .inr rfl
      | ok dpi =>
          simp only [bind, Except.bind]
          rcases h.renderPage dpi (pageBudget config now input.deadline) with
            hanswer | ⟨error, hanswer, hfailure⟩
          · rw [hanswer, Answers.tools_renderPage]
            cases hrendered : answers.rendered n with
            | error error => exact .inr rfl
            | ok _ =>
                simp only
                rcases ocrPage_of_give config unicode now input budget h with
                  ⟨error, herror, hfailure⟩ | heq
                · left
                  use error
                  rw [herror]
                  simp only [hfailure]
                · right
                  rw [heq]
          · left
            use error
            simp only [hanswer, hfailure]

/-- Tools that fail while a page is made abort the attempt, or else the generator goes on as usual. -/
theorem Extraction.next_of_give {extraction : Extraction} (hpos : 1 ≤ extraction.nextPage)
    (h : tools.Give answers extraction.nextPage) :
  (∃ error, extraction.next config unicode tools now = .thrown error)
  ∨ extraction.next config unicode tools now
    = extraction.next config unicode (answers.tools extraction.nextPage) now
  := by
  have hpdf : ∀ {input pdf nativePages n budget}, tools.Give answers n →
      (∃ error, pdfNext config unicode tools now input pdf nativePages n budget = .thrown error)
      ∨ pdfNext config unicode tools now input pdf nativePages n budget
        = pdfNext config unicode (answers.tools n) now input pdf nativePages n budget := by
    intro input pdf nativePages n budget h
    unfold pdfNext
    split
    · rcases pdfPage_of_give config unicode now input pdf nativePages budget h with
        ⟨error, herror⟩ | heq
      · left
        use error
        rw [herror]
      · right
        rw [heq]
    · exact .inr rfl
  cases extraction with
  | started input =>
      simp only [next, nextPage] at h hpos ⊢
      split
      · rename_i pdf hinspected
        rcases h.extractText pdf.pageCount (pageBudget config now input.deadline)
          (config.limits.maxTextPerDocument * 4 + 1024 * 1024) with
          hanswer | ⟨error, hanswer, hprocessing⟩
        · have hnative : nativePagesOf config tools now input pdf
              = nativePagesOf config (answers.tools input.startPage) now input pdf := by
            unfold nativePagesOf
            rw [hanswer]
            rfl
          rw [hnative]
          cases nativePagesOf config (answers.tools input.startPage) now input pdf with
          | error error => exact .inr rfl
          | ok nativePages => exact hpdf h
        · left
          use error
          unfold nativePagesOf
          rw [hanswer]
          cases error with
          | processing processing => exact absurd rfl (hprocessing processing)
          | _ => rfl
      · split
        · exact .inr rfl
        · have hone : input.startPage = 1 := by omega
          rw [hone] at h ⊢
          rcases ocrPage_of_give config unicode now input input.charBudget h with
            ⟨error, herror, -⟩ | heq
          · left
            use error
            rw [herror]
          · right
            rw [heq]
  | inPdf input pdf nativePages n budget => exact hpdf h
  | afterImage input => exact .inr rfl

/-! ### The same place, the same page -/

/-- Recognition depends neither on the attempt nor on the time. -/
theorem ocrPage_congr {n : ℕ} (input input' : ExtractionInput) (now' : ℕ) (budget : ℤ) :
  ocrPage config unicode (answers.tools n) now n input budget
    = ocrPage config unicode (answers.tools n) now' n input' budget
  := rfl

/-- Before the deadline a page of a PDF depends neither on the attempt nor on the time. -/
theorem pdfPage_congr {n now' : ℕ} {input input' : ExtractionInput} {pdf : PdfInfo}
    {nativePages : List JsString} {budget : ℤ} (hnow : now < input.deadline)
    (hnow' : now' < input'.deadline) :
  pdfPage config unicode (answers.tools n) now input pdf nativePages n budget
    = pdfPage config unicode (answers.tools n) now' input' pdf nativePages n budget
  := by
  unfold pdfPage
  rw [if_neg (Nat.not_le_of_lt hnow), if_neg (Nat.not_le_of_lt hnow')]
  rfl

theorem matches_pdfNext {n now' : ℕ} {input input' : ExtractionInput} {pdf : PdfInfo}
    {nativePages : List JsString} {budget : ℤ}
    (hnative : nativePagesOf config (answers.tools n) 0 input pdf = .ok nativePages)
    (hnow : now < input.deadline) (hnow' : now' < input'.deadline) :
  Yield.Matches config answers (.pdf pdf) n budget
    (pdfNext config unicode (answers.tools n) now input pdf nativePages n budget)
    (pdfNext config unicode (answers.tools n) now' input' pdf nativePages n budget)
  := by
  unfold pdfNext
  split
  · rw [pdfPage_congr hnow hnow']
    cases pdfPage config unicode (answers.tools n) now' input' pdf nativePages n budget with
    | ok page => exact .page ⟨rfl, hnative, rfl, rfl⟩
    | error error => exact .thrown
  · exact .done

/-- Before its deadline a generator yields what its place determines. -/
theorem Extraction.At.matches_yieldAt (unicode : Unicode) {inspected : InspectedFile} {n : ℕ}
    {budget : ℤ} {extraction : Extraction} (h : extraction.At config answers inspected n budget)
    (hpos : 1 ≤ n) (hnow : now < extraction.input.deadline) :
  Yield.Matches config answers inspected n budget
    (extraction.next config unicode (answers.tools n) now)
    (answers.yieldAt config unicode inspected n budget)
  := by
  -- the generator that has just started at the place has its deadline before it
  have hdeadline : 0 < 1 := Nat.one_pos
  cases extraction with
  | started input =>
      obtain ⟨rfl, rfl, rfl⟩ := h
      simp only [next, Answers.yieldAt]
      split
      · rename_i pdf hinspected
        have hnative : nativePagesOf config (answers.tools input.startPage) 0
            ⟨input.inspected, [], 1, input.startPage, input.charBudget⟩ pdf
            = nativePagesOf config (answers.tools input.startPage) now input pdf := rfl
        rw [hnative]
        cases hread : nativePagesOf config (answers.tools input.startPage) now input pdf with
        | error error => exact .thrown
        | ok nativePages => 
            rw [hinspected]
            exact matches_pdfNext hread hnow hdeadline
      · rename_i format hinspected
        split
        · exact .done
        · rename_i hstart
          have hone : input.startPage = 1 := by omega
          rw [hone, ocrPage_congr input ⟨input.inspected, [], 1, 1, input.charBudget⟩ 0]
          cases ocrPage config unicode (answers.tools 1) 0 1
            ⟨input.inspected, [], 1, 1, input.charBudget⟩ input.charBudget with
          | error error => exact .thrown
          | ok page => exact .page ⟨⟨format, hinspected⟩, rfl⟩
  | inPdf input pdf nativePages pageNumber left =>
      obtain ⟨rfl, hnative, rfl, rfl⟩ := h
      have hread : nativePagesOf config (answers.tools pageNumber) 0
          ⟨.pdf pdf, [], 1, pageNumber, left⟩ pdf = .ok nativePages := hnative
      simp only [next, Answers.yieldAt, hread]
      exact matches_pdfNext hnative hnow hdeadline
  | afterImage input =>
      obtain ⟨⟨format, rfl⟩, rfl⟩ := h
      exact .done

/-- Whatever its tools do, a generator throws before its deadline, or yields what its place
determines. -/
theorem Extraction.At.matches_of_next {inspected : InspectedFile} {n : ℕ} {budget : ℤ}
    {extraction : Extraction} {yielded : Yield}
    (h : extraction.At config answers inspected n budget) (hpos : 1 ≤ n)
    (hnow : now < extraction.input.deadline) (hgive : tools.Give answers n)
    (hnext : extraction.next config unicode tools now = yielded) :
  (∃ error, yielded = .thrown error)
  ∨ Yield.Matches config answers inspected n budget yielded
    (answers.yieldAt config unicode inspected n budget)
  := by
  obtain rfl := h.nextPage_eq
  rcases Extraction.next_of_give hpos hgive with ⟨error, hthrown⟩ | heq
  · exact .inl ⟨error, hnext.symm.trans hthrown⟩
  · right
    rw [← hnext, heq]
    exact h.matches_yieldAt unicode hpos hnow

/-- What a generator yields before its deadline, its place determines. -/
theorem Extraction.At.page_of_next {inspected : InspectedFile} {n : ℕ} {budget : ℤ}
    {extraction rest : Extraction} {page : ExtractedPage}
    (h : extraction.At config answers inspected n budget) (hpos : 1 ≤ n)
    (hnow : now < extraction.input.deadline) (hgive : tools.Give answers n)
    (hnext : extraction.next config unicode tools now = .page page rest) :
  (∃ rest', answers.yieldAt config unicode inspected n budget = .page page rest')
  ∧ rest.At config answers inspected (n + 1) (budget - page.charCount)
  := by
  rcases h.matches_of_next hpos hnow hgive hnext with ⟨error, hthrown⟩ | hmatches
  · cases hthrown
  · generalize answers.yieldAt config unicode inspected n budget = yielded at hmatches
    cases hmatches with
    | page hrest => exact ⟨⟨_, rfl⟩, hrest⟩

/-- A generator ends where its place says so. -/
theorem Extraction.At.done_of_next {inspected : InspectedFile} {n : ℕ} {budget : ℤ}
    {extraction : Extraction} (h : extraction.At config answers inspected n budget) (hpos : 1 ≤ n)
    (hnow : now < extraction.input.deadline) (hgive : tools.Give answers n)
    (hnext : extraction.next config unicode tools now = .done) :
  answers.yieldAt config unicode inspected n budget = .done
  := by
  rcases h.matches_of_next hpos hnow hgive hnext with ⟨error, hthrown⟩ | hmatches
  · cases hthrown
  · generalize answers.yieldAt config unicode inspected n budget = yielded at hmatches
    cases hmatches with
    | done => rfl

/-! ### The first pages of the uninterrupted attempt -/

/-- The characters the pages leave of the limit of the document. -/
def charsLeft (config : OcrConfig) (pages : List ExtractedPage) : ℤ :=
  (config.limits.maxTextPerDocument : ℤ) - (pages.map ExtractedPage.charCount).sum

/-- The pages are the first ones of an uninterrupted attempt: each is what a generator yields after
the ones before it. -/
def FirstPages (config : OcrConfig) (unicode : Unicode) (answers : Answers)
    (inspected : InspectedFile) (pages : List ExtractedPage) : Prop :=
  ∀ k page, pages[k]? = some page → ∃ rest,
    answers.yieldAt config unicode inspected (k + 1) (charsLeft config (pages.take k))
      = .page page rest

/-- The pages are all pages of an uninterrupted attempt. -/
def AllPages (config : OcrConfig) (unicode : Unicode) (answers : Answers)
    (inspected : InspectedFile) (pages : List ExtractedPage) : Prop :=
  FirstPages config unicode answers inspected pages
    ∧ answers.yieldAt config unicode inspected (pages.length + 1) (charsLeft config pages) = .done

theorem charsLeft_concat (config : OcrConfig) (pages : List ExtractedPage) (page : ExtractedPage) :
  charsLeft config (pages ++ [page]) = charsLeft config pages - page.charCount
  := by
  simp only [charsLeft, List.map_append, List.sum_append, List.map_cons, List.map_nil,
    List.sum_singleton]
  push_cast
  ring

section

variable {inspected : InspectedFile} {pages : List ExtractedPage}

theorem FirstPages.nil :
  FirstPages config unicode answers inspected []
  := by
  intro k page hpage
  simp at hpage

theorem FirstPages.concat {page : ExtractedPage} {rest : Extraction}
    (h : FirstPages config unicode answers inspected pages)
    (hpage : answers.yieldAt config unicode inspected (pages.length + 1) (charsLeft config pages)
      = .page page rest) :
  FirstPages config unicode answers inspected (pages ++ [page])
  := by
  intro k page' hk
  rcases Nat.lt_or_ge k pages.length with hlt | hge
  · rw [List.getElem?_append_left hlt] at hk
    rw [List.take_append_of_le_length (Nat.le_of_lt hlt)]
    exact h k page' hk
  · rw [List.getElem?_append_right hge] at hk
    obtain ⟨hzero, rfl⟩ : k - pages.length = 0 ∧ page = page' := by
      simpa [List.getElem?_singleton] using hk
    obtain rfl : k = pages.length := by omega
    rw [List.take_left]
    exact ⟨rest, hpage⟩

theorem FirstPages.pageNumber (h : FirstPages config unicode answers inspected pages) {k : ℕ}
    {page : ExtractedPage} (hpage : pages[k]? = some page) :
  page.pageNumber = k + 1 ∧ k + 1 ≤ inspected.totalPages
  := by
  obtain ⟨rest, hyield⟩ := h k page hpage
  obtain ⟨hnumber, hle, -⟩ := Extraction.next_page (by apply Nat.le_add_left) hyield
  exact ⟨hnumber, hle⟩

theorem FirstPages.length_le (h : FirstPages config unicode answers inspected pages) :
  pages.length ≤ inspected.totalPages
  := by
  rcases Nat.eq_zero_or_pos pages.length with hzero | hpos
  · rw [hzero]
    apply Nat.zero_le
  · have hlast : pages[pages.length - 1]? = some pages[pages.length - 1] :=
      List.getElem?_eq_getElem _
    have hle := (h.pageNumber hlast).2
    omega

theorem FirstPages.map_pageNumber (h : FirstPages config unicode answers inspected pages) :
  pages.map ExtractedPage.pageNumber = List.range' 1 pages.length
  := by
  apply List.ext_getElem?
  intro k
  rw [List.getElem?_map]
  cases hk : pages[k]? with
  | none =>
      have hlen := List.getElem?_eq_none_iff.mp hk
      symm
      rw [Option.map_none, List.getElem?_eq_none_iff, List.length_range']
      exact hlen
  | some page =>
      have hlt : k < pages.length := (List.getElem?_eq_some_iff.mp hk).1
      rw [Option.map_some, (h.pageNumber hk).1, List.getElem?_range' hlt]
      congr 1
      omega

/-- An uninterrupted generator yields what is left of the pages. -/
theorem AllPages.pages_of_at (h : AllPages config unicode answers inspected pages) {m k limit : ℕ}
    {extraction : Extraction} (hk : k + m = pages.length) (hlimit : m ≤ limit)
    (hat : extraction.At config answers inspected (k + 1) (charsLeft config (pages.take k)))
    (hnow : now < extraction.input.deadline) :
  extraction.pages config unicode answers now limit = some (pages.drop k)
  := by
  have hpos : 1 ≤ k + 1 := Nat.le_add_left 1 k
  induction m generalizing k limit extraction with
  | zero =>
      obtain rfl : k = pages.length := hk
      have hmatches := hat.matches_yieldAt unicode hpos hnow
      rw [List.take_length, h.2, ← hat.nextPage_eq] at hmatches
      have hdone : extraction.next config unicode (answers.tools extraction.nextPage) now
          = .done := by
        generalize extraction.next config unicode (answers.tools extraction.nextPage) now = yielded
          at hmatches
        cases hmatches with
        | done => rfl
      cases limit <;> simp [Extraction.pages, hdone]
  | succ m ih =>
      obtain ⟨limit, rfl⟩ : ∃ limit', limit = limit' + 1 := ⟨limit - 1, by omega⟩
      have hlt : k < pages.length := by omega
      have hget : pages[k]? = some pages[k] := List.getElem?_eq_getElem hlt
      obtain ⟨rest', hyield⟩ := h.1 k pages[k] hget
      have hmatches := hat.matches_yieldAt unicode hpos hnow
      rw [hyield, ← hat.nextPage_eq] at hmatches
      -- the generator yields the page at the place, and goes on to the next place
      generalize hnext : extraction.next config unicode (answers.tools extraction.nextPage) now
        = yielded at hmatches
      cases hmatches with
      | @page _ rest _ hrest =>
          have hinput : rest.input = extraction.input := by
            have hone : 1 ≤ extraction.nextPage := by
              rw [hat.nextPage_eq]
              exact hpos
            exact (Extraction.makes_of_next hone hnext).input
          rw [hat.nextPage_eq] at hrest
          have hleft : charsLeft config (pages.take k) - pages[k].charCount
              = charsLeft config (pages.take (k + 1)) := by
            rw [List.take_succ_eq_append_getElem hlt, charsLeft_concat]
          rw [hleft] at hrest
          have hpages : rest.pages config unicode answers now limit
              = some (pages.drop (k + 1)) := by
            apply ih (by omega) (Nat.le_of_succ_le_succ hlimit) hrest
            · rw [hinput]
              exact hnow
            · apply Nat.le_add_left
          rw [Extraction.pages, hnext]
          simp only
          rw [hpages, Option.map_some, List.drop_eq_getElem_cons hlt]

/-- All pages of an uninterrupted attempt are what the attempt yields. -/
theorem AllPages.uninterrupted_eq (h : AllPages config unicode answers inspected pages)
    (language : JsString) {deadline : ℕ} (hnow : now < deadline) :
  uninterrupted config unicode answers inspected language now deadline = some pages
  := by
  apply h.pages_of_at (Nat.zero_add _) h.1.length_le _ hnow
  refine ⟨rfl, rfl, ?_⟩
  simp [charsLeft]

end

namespace OcrWorker

/-! ### The stored pages -/

/-- The process found the given file, if it has just inspected it. -/
def Phase.shows (inspected : InspectedFile) : Phase → Bool
  | .measured _ _ shown => shown = inspected
  | _ => true

/-- Every inspection of the file of a job shows the same. -/
def InspectionsShow (inspected : InspectedFile) (jobId : ℕ) (s : State) : Prop :=
  ∀ q ∈ s.processes.rows, q.jobId = jobId → q.phase.shows inspected = true

instance (inspected : InspectedFile) (jobId : ℕ) (s : State) :
    Decidable (InspectionsShow inspected jobId s) :=
  inferInstanceAs (Decidable (∀ q ∈ s.processes.rows, q.jobId = jobId →
    q.phase.shows inspected = true))

/-- What the phase of a worker says about the stored pages, the first ones of an uninterrupted
attempt.  The worker may be behind another one. -/
def Phase.Resumes (config : OcrConfig) (unicode : Unicode) (answers : Answers)
    (inspected : InspectedFile) (pages : List ExtractedPage) : Phase → Prop
  | .measured _ _ shown => shown = inspected
  | .resuming _ shown => shown = inspected
  | .extracting _ extraction => ∃ k ≤ pages.length,
      extraction.At config answers inspected (k + 1) (charsLeft config (pages.take k))
  | .yielded _ page rest => ∃ k ≤ pages.length,
      (∃ rest', answers.yieldAt config unicode inspected (k + 1) (charsLeft config (pages.take k))
        = .page page rest')
      ∧ rest.At config answers inspected (k + 2) (charsLeft config (pages.take k) - page.charCount)
  | .finalizing _ => AllPages config unicode answers inspected pages
  | _ => True

/-- The stored pages of a job are the first ones of an uninterrupted attempt, and its workers go on
from one of them. -/
structure Resumable (config : OcrConfig) (unicode : Unicode) (answers : Answers)
    (inspected : InspectedFile) (jobId : ℕ) (pages : List ExtractedPage) (s : State) : Prop where
  rows : s.db.pagesOf jobId = pages.map (OcrJobService.pageRow jobId)
  first : FirstPages config unicode answers inspected pages
  phases : ∀ q ∈ s.processes.rows, q.jobId = jobId →
    q.phase.Resumes config unicode answers inspected pages

section

variable {inspected : InspectedFile} {pages : List ExtractedPage}

theorem resumes_load (db : Database) (job : OcrJob) :
  (Process.load config db job).Resumes config unicode answers inspected pages
  := by
  apply Process.load_cases
    (motive := fun phase => phase.Resumes config unicode answers inspected pages)
  · trivial
  · trivial
  · exact fun _ => trivial

/-- A new attempt starts after the stored pages, with the characters they leave. -/
theorem at_extractionInput {db : Database} {q : Process} (job : OcrJob)
    (hrows : db.pagesOf q.jobId = pages.map (OcrJobService.pageRow q.jobId))
    (hfirst : FirstPages config unicode answers inspected pages) :
  (Extraction.started (q.extractionInput config db now job inspected)).At config answers inspected
    (pages.length + 1) (charsLeft config pages)
  := by
  refine ⟨rfl, ?_, ?_⟩
  · have hnumbers : pageNumbers db q.jobId = List.range' 1 (db.pagesOf q.jobId).length := by
      rw [pageNumbers, hrows, List.map_map, List.length_map, ← hfirst.map_pageNumber]
      rfl
    rw [startPage_extractionInput hnumbers, hrows, List.length_map]
  · have hchars : (OcrJobService.persistedProgress db q.jobId).2
        = (pages.map ExtractedPage.charCount).sum := by
      simp only [OcrJobService.persistedProgress, hrows, List.map_map]
      rfl
    simp only [Process.extractionInput, hchars, charsLeft]

/-- A worker that stores no page goes on from one of the stored pages. -/
theorem resumes_of_act {t : Transition State Label} {q : Process} {a : Action} {e : Effect}
    (hq : q ∈ t.source.processes.rows) (hlabel : t.label = .process q.id a)
    (hact : q.act config unicode t.source.db t.source.now a = some e)
    (hrows : t.source.db.pagesOf q.jobId = pages.map (OcrJobService.pageRow q.jobId))
    (hfirst : FirstPages config unicode answers inspected pages)
    (hgive : ∀ extraction tools, Extracts q.jobId extraction tools t →
      tools.Give answers extraction.nextPage)
    (hdeadline : ∀ extraction tools, Extracts q.jobId extraction tools t →
      t.source.now < extraction.input.deadline)
    (hpersist : ∀ page, e.write ≠ some (.persistPage q.jobId page)) (reply : Bool)
    (hshows : (e.next reply).phase.shows inspected = true)
    (h : q.phase.Resumes config unicode answers inspected pages) :
  (e.next reply).phase.Resumes config unicode answers inspected pages
  := by
  have hmoves := Process.moves_of_act hact
  clear hact
  cases hmoves with
  | claims hphase hread =>
      cases reply with
      | false => trivial
      | true => trivial
  | loads hphase => apply resumes_load
  | @inspects job document probe shown hphase hinspect =>
      have hshown : decide (shown = inspected) = true := hshows
      change shown = inspected
      exact of_decide_eq_true hshown
  | measures hphase =>
      rw [hphase] at h
      exact h
  | resumes hphase =>
      rw [hphase] at h
      obtain rfl : _ = inspected := h
      use pages.length, Nat.le_refl _
      rw [List.take_length]
      exact at_extractionInput _ hrows hfirst
  | @yields job extraction rest tools page hphase hnext =>
      rw [hphase] at h
      obtain ⟨k, hk, hat⟩ := h
      have hextracts : Extracts q.jobId extraction tools t := ⟨q, hq, job, rfl, hphase, hlabel⟩
      use k, hk
      apply hat.page_of_next (Nat.le_add_left 1 k) (hdeadline _ _ hextracts) _ hnext
      rw [← hat.nextPage_eq]
      exact hgive _ _ hextracts
  | @ends job extraction tools hphase hnext =>
      rw [hphase] at h
      obtain ⟨k, hk, hat⟩ := h
      have hextracts : Extracts q.jobId extraction tools t := ⟨q, hq, job, rfl, hphase, hlabel⟩
      have hgives : tools.Give answers (k + 1) := by
        rw [← hat.nextPage_eq]
        exact hgive _ _ hextracts
      have hdone := hat.done_of_next (Nat.le_add_left 1 k) (hdeadline _ _ hextracts) hgives hnext
      -- where a page is stored, the generator would not have ended
      rcases Nat.lt_or_eq_of_le hk with hlt | rfl
      · obtain ⟨rest, hpage⟩ := hfirst k pages[k] (List.getElem?_eq_getElem hlt)
        rw [hpage] at hdone
        cases hdone
      · rw [List.take_length] at hdone
        exact ⟨hfirst, hdone⟩
  | persists hphase => exact absurd rfl (hpersist _)
  | beats htimer => exact h
  | _ => trivial

/-- The other workers go on from one of the stored pages also when one more is stored. -/
theorem Phase.Resumes.concat {phase : Phase} {page : ExtractedPage} {rest : Extraction}
    (h : phase.Resumes config unicode answers inspected pages)
    (hpage : answers.yieldAt config unicode inspected (pages.length + 1) (charsLeft config pages)
      = .page page rest) :
  phase.Resumes config unicode answers inspected (pages ++ [page])
  := by
  cases phase with
  | extracting job extraction =>
      obtain ⟨k, hk, hat⟩ := h
      use k, by rw [List.length_append]; omega
      rw [List.take_append_of_le_length hk]
      exact hat
  | yielded job page rest =>
      obtain ⟨k, hk, hat⟩ := h
      use k, by rw [List.length_append]; omega
      rw [List.take_append_of_le_length hk]
      exact hat
  | finalizing job =>
      rw [h.2] at hpage
      cases hpage
  | measured job document shown => exact h
  | resuming job shown => exact h
  | _ => trivial

/-- A worker stores the page after the first ones, or one that is stored already. -/
theorem resumable_persist {s : State} {q : Process} {job : OcrJob} {page : ExtractedPage}
    {rest : Extraction} (h : Resumable config unicode answers inspected q.jobId pages s)
    (hq : q ∈ s.processes.rows) (hphase : q.phase = .yielded job page rest)
    (hpages : (s.apply config q ⟨some (.persistPage q.jobId page),
      q.renewTo s.now (.extracting job rest)⟩).db.ocrPages
        = s.db.ocrPages.put (OcrJobService.pageRow q.jobId page)) :
  ∃ pages', Resumable config unicode answers inspected q.jobId pages'
    (s.apply config q ⟨some (.persistPage q.jobId page), q.renewTo s.now (.extracting job rest)⟩)
  := by
  obtain ⟨hrows, hfirst, hphases⟩ := h
  have hyielded := hphases q hq rfl
  rw [hphase] at hyielded
  obtain ⟨k, hk, ⟨rest', hyield⟩, hat⟩ := hyielded
  have hnumber : page.pageNumber = k + 1 :=
    (Extraction.next_page (by apply Nat.le_add_left) hyield).1
  rcases Nat.lt_or_eq_of_le hk with hlt | rfl
  · -- the worker is behind another one
    have hget : pages[k]? = some pages[k] := List.getElem?_eq_getElem hlt
    obtain rfl : page = pages[k] := by
      obtain ⟨rest'', hstored⟩ := hfirst k _ hget
      rw [hyield] at hstored
      exact (Yield.page.inj hstored).1
    have hfind : s.db.ocrPages.find (OcrJobService.pageRow q.jobId pages[k]).key
        = some (OcrJobService.pageRow q.jobId pages[k]) := by
      apply Database.find_page_iff.mpr
      refine ⟨?_, rfl⟩
      change _ ∈ s.db.pagesOf q.jobId
      rw [hrows]
      apply List.mem_map_of_mem
      apply List.getElem_mem
    use pages
    constructor
    · rw [Database.pagesOf, hpages, Table.put_of_find hfind]
      exact hrows
    · exact hfirst
    · intro r hr hjob
      rw [processes_apply] at hr
      rcases Table.mem_rows_put_iff.mp hr with rfl | ⟨hr, -⟩
      · use k + 1, hlt
        rw [List.take_succ_eq_append_getElem hlt, charsLeft_concat]
        exact hat
      · exact hphases r hr hjob
  · rw [List.take_length] at hyield hat
    have hnew : s.db.ocrPages.find (OcrJobService.pageRow q.jobId page).key = none := by
      cases hfind : s.db.ocrPages.find (OcrJobService.pageRow q.jobId page).key with
      | none => rfl
      | some stored =>
          obtain ⟨hmem, hstored⟩ := Database.find_page_iff.mp hfind
          change stored ∈ s.db.pagesOf q.jobId at hmem
          rw [hrows] at hmem
          obtain ⟨page', hpage', rfl⟩ := List.mem_map.mp hmem
          obtain ⟨i, hi, rfl⟩ := List.mem_iff_getElem.mp hpage'
          have hnumber' := (hfirst.pageNumber (List.getElem?_eq_getElem hi)).1
          have hsame : pages[i].pageNumber = page.pageNumber := hstored
          omega
    use pages ++ [page]
    constructor
    · rw [Database.pagesOf, hpages, List.map_append, ← hrows]
      apply Database.pagesOf_storePage_of_find_none hnew
    · exact hfirst.concat hyield
    · intro r hr hjob
      rw [processes_apply] at hr
      rcases Table.mem_rows_put_iff.mp hr with rfl | ⟨hr, -⟩
      · use pages.length + 1, by simp
        rw [List.take_of_length_le (by simp), charsLeft_concat]
        exact hat
      · exact (hphases r hr hjob).concat hyield

/-- Every transition keeps the stored pages the first ones of an uninterrupted attempt. -/
theorem resumable_step {t : Transition State Label}
    (hstep : step config unicode t.source t.label = some t.target) {jobId : ℕ}
    (hgive : ∀ extraction tools, Extracts jobId extraction tools t →
      tools.Give answers extraction.nextPage)
    (hdeadline : ∀ extraction tools, Extracts jobId extraction tools t →
      t.source.now < extraction.input.deadline)
    (hshows : InspectionsShow inspected jobId t.target)
    (h : Resumable config unicode answers inspected jobId pages t.source) :
  ∃ pages', Resumable config unicode answers inspected jobId pages' t.target
  := by
  rcases process_or_quiet_of_step hstep with
    ⟨q, hq, action, e, hlabel, hact, htarget⟩ | ⟨hpages, hprocesses⟩
  · rw [htarget] at hshows ⊢
    rcases ocrPages_apply hact with
      ⟨job, page, rest, -, hphase, rfl, hpages⟩ | ⟨hpersist, hpages⟩
    · by_cases hjob : q.jobId = jobId
      · subst hjob
        exact resumable_persist h hq hphase hpages
      · use pages
        constructor
        · rw [Database.pagesOf, hpages, ← h.rows]
          apply Database.pagesOf_storePage_of_ne hjob
        · exact h.first
        · intro r hr hrjob
          rw [processes_apply] at hr
          rcases Table.mem_rows_put_iff.mp hr with rfl | ⟨hr, -⟩
          · exact absurd hrjob hjob
          · exact h.phases r hr hrjob
    · use pages
      constructor
      · rw [Database.pagesOf, hpages, ← h.rows, Database.pagesOf]
      · exact h.first
      · intro r hr hrjob
        have hshown := hshows r hr hrjob
        rw [processes_apply] at hr
        rcases Table.mem_rows_put_iff.mp hr with rfl | ⟨hr, -⟩
        · subst hrjob
          exact resumes_of_act hq hlabel hact h.rows h.first hgive hdeadline hpersist _ hshown
            (h.phases q hq rfl)
        · exact h.phases r hr hrjob
  · use pages
    constructor
    · rw [Database.pagesOf, hpages, ← h.rows, Database.pagesOf]
    · exact h.first
    · intro r hr hjob
      rcases hprocesses r hr with hr | hphase
      · exact h.phases r hr hjob
      · rw [hphase]
        trivial

theorem resumable_init {s : State} (hinit : (system config unicode).init s) (jobId : ℕ) :
  Resumable config unicode answers inspected jobId [] s
  := by
  obtain ⟨-, hpages, hprocesses, -⟩ := hinit
  constructor
  · simp [Database.pagesOf, hpages]
  · exact FirstPages.nil
  · simp [hprocesses]

end

/-! ### Finalized jobs -/

/-- The transition ends the job by `finalize`. -/
def Finalizes (config : OcrConfig) (unicode : Unicode) (jobId : ℕ) (t : Transition State Label) :
    Prop :=
  t.label.write config unicode t.source = some (.finalize jobId)
    ∧ ((Write.finalize jobId).perform config.staleJobMs t.source.now t.source.db).2 = true

instance (config : OcrConfig) (unicode : Unicode) (jobId : ℕ) (t : Transition State Label) :
    Decidable (Finalizes config unicode jobId t) :=
  inferInstanceAs (Decidable (_ ∧ _))

/-- When every inspection shows the same file, the tools give the same answers in every attempt and
no deadline is reached, a job that is finalized, after any interruptions, has the pages, the status,
the extraction method and the error code of a single attempt that is not interrupted. -/
theorem resumed_eq_uninterrupted {s₀ s : State} {ts : List (Transition State Label)}
    (hrun : (system config unicode).Run s₀ ts s) (hinit : (system config unicode).init s₀)
    {jobId : ℕ} {inspected : InspectedFile} {answers : Answers}
    (hshows : ∀ t ∈ ts, InspectionsShow inspected jobId t.target)
    (hgive : ∀ t ∈ ts, ∀ extraction tools, Extracts jobId extraction tools t →
      tools.Give answers extraction.nextPage)
    (hdeadline : ∀ t ∈ ts, ∀ extraction tools, Extracts jobId extraction tools t →
      t.source.now < extraction.input.deadline)
    {t : Transition State Label} (ht : t ∈ ts) (hfinalizes : Finalizes config unicode jobId t)
    (language : JsString) {now deadline : ℕ} (hnow : now < deadline) :
  ∃ pages, uninterrupted config unicode answers inspected language now deadline = some pages
    ∧ t.target.db.pagesOf jobId = pages.map (OcrJobService.pageRow jobId)
    ∧ ∃ job, t.target.db.ocrJobs.find jobId = some job
      ∧ job.status = finalStatus (pages.map (OcrJobService.pageRow jobId))
      ∧ job.extractionMethod = extractionMethodOf (pages.map (OcrJobService.pageRow jobId))
      ∧ job.errorCode
        = if finalStatus (pages.map (OcrJobService.pageRow jobId)) = .COMPLETED then none
          else dominantError (pages.map (OcrJobService.pageRow jobId))
  := by
  obtain ⟨pages, hrows, hfirst, hphases⟩ : ∃ pages,
      Resumable config unicode answers inspected jobId pages t.source := by
    apply hrun.invariant_source
      (fun s => ∃ pages, Resumable config unicode answers inspected jobId pages s)
      ⟨[], resumable_init hinit jobId⟩ _ ht
    rintro t' ht' hstep ⟨pages, hresumable⟩
    exact resumable_step hstep (hgive t' ht') (hdeadline t' ht') (hshows t' ht') hresumable
  obtain ⟨hwrite, hreply⟩ := hfinalizes
  -- the worker that finalizes the job has come to the end of an attempt
  have hall : AllPages config unicode answers inspected pages := by
    obtain ⟨q, hq, job, hphase, hjob⟩ := exists_finalizing hwrite
    have hfinalizing := hphases q hq hjob
    rw [hphase] at hfinalizing
    exact hfinalizing
  refine ⟨pages, hall.uninterrupted_eq language hnow, ?_⟩
  rcases database_of_step (hrun.step_of_mem ht) with ⟨w, hw, hdb⟩ | ⟨hnone, -⟩
  · obtain rfl := Option.some.inj (hwrite.symm.trans hw)
    obtain ⟨job, hjob, hguard, hafter⟩ := Write.find_of_reply hreply
    constructor
    · rw [hdb, Write.pagesOf_perform (by rintro page ⟨⟩), hrows]
    · rw [hdb]
      refine ⟨_, hafter, ?_⟩
      rw [← hrows]
      exact ⟨rfl, rfl, rfl⟩
  · rw [hwrite] at hnone
    cases hnone

/-- What `sampleTools` answer in every attempt. -/
def sampleAnswers : Answers where
  native := .ok [js "First page", js "Second page"]
  rendered _ := .ok ()
  recognized _ := .ok ⟨js "Recognised", none⟩

/-- Whether a process that is about to resume its generator has not reached the deadline. -/
def Phase.beforeDeadline (now : ℕ) : Phase → Bool
  | .extracting _ extraction => now < extraction.input.deadline
  | _ => true

/-- The interrupted job under tight limits ends as an uninterrupted attempt would. -/
theorem resumed_eq_uninterrupted_of_interruptedJob :
  ∃ ts s, (system tightConfig asciiUnicode).Run sampleState ts s
    ∧ ∃ t ∈ ts, Finalizes tightConfig asciiUnicode 1 t
    ∧ (t.target.db.pagesOf 1).map (fun page => (page.text, page.truncated))
      = [(some (js "First pa"), true), (some (js "Seco"), true)]
    ∧ ∃ pages, uninterrupted tightConfig asciiUnicode sampleAnswers (.pdf ⟨2, []⟩) (js "eng") 0 1
        = some pages
      ∧ t.target.db.pagesOf 1 = pages.map (OcrJobService.pageRow 1)
      ∧ ∃ job, t.target.db.ocrJobs.find 1 = some job
        ∧ job.status = finalStatus (pages.map (OcrJobService.pageRow 1))
        ∧ job.extractionMethod = extractionMethodOf (pages.map (OcrJobService.pageRow 1))
        ∧ job.errorCode
          = if finalStatus (pages.map (OcrJobService.pageRow 1)) = .COMPLETED then none
            else dominantError (pages.map (OcrJobService.pageRow 1))
  := by
  have hsome : ((system tightConfig asciiUnicode).execute
      (fun t => decide (InspectionsShow (.pdf ⟨2, []⟩) 1 t.target)
        && t.source.processes.rows.all fun q => q.phase.beforeDeadline t.source.now)
      sampleState interruptedJob.dropLast).any (fun s₁ =>
        (step tightConfig asciiUnicode s₁ (.process 2 .advance)).any fun s₂ =>
          decide (Finalizes tightConfig asciiUnicode 1 ⟨s₁, .process 2 .advance, s₂⟩)
          && decide (InspectionsShow (.pdf ⟨2, []⟩) 1 s₂)
          && decide ((s₂.db.pagesOf 1).map (fun page => (page.text, page.truncated))
            = [(some (js "First pa"), true), (some (js "Seco"), true)])) = true := by
    decide +kernel
  obtain ⟨s₁, hs₁, hlast⟩ := (Option.any_eq_true _ _).mp hsome
  obtain ⟨s₂, hstep, hlast⟩ := (Option.any_eq_true _ _).mp hlast
  simp only [Bool.and_eq_true, decide_eq_true_eq] at hlast
  obtain ⟨⟨hfinalizes, hshown⟩, htexts⟩ := hlast
  obtain ⟨ts, hrun, hts, hlabels⟩ := TransitionSystem.run_of_execute_labels hs₁
  have hall : ∀ t ∈ ts ++ [⟨s₁, .process 2 .advance, s₂⟩],
      InspectionsShow (.pdf ⟨2, []⟩) 1 t.target
      ∧ ∀ extraction tools, Extracts 1 extraction tools t →
        tools.Give sampleAnswers extraction.nextPage ∧ t.source.now < extraction.input.deadline := by
    intro t ht
    rcases List.mem_append.mp ht with ht | ht
    · have hcheck := hts t ht
      simp only [Bool.and_eq_true, decide_eq_true_eq, List.all_eq_true] at hcheck
      refine ⟨hcheck.1, ?_⟩
      rintro extraction tools ⟨q, hq, job, -, hphase, hlabel⟩
      have htools : tools = sampleTools := by
        have hmem : t.label ∈ interruptedJob.dropLast := by
          rw [← hlabels]
          exact List.mem_map_of_mem ht
        rw [hlabel] at hmem
        simp only [interruptedJob, sampleClaim, sampleInspection, List.cons_append,
          List.nil_append, List.dropLast, List.mem_cons] at hmem
        have hsample : q.id = 1 ∧ tools = sampleTools ∨ q.id = 2 ∧ tools = sampleTools := by
          simpa using hmem
        rcases hsample with ⟨-, htools⟩ | ⟨-, htools⟩
        · exact htools
        · exact htools
      have hdeadline := hcheck.2 q hq
      rw [hphase] at hdeadline
      rw [htools]
      exact ⟨⟨fun _ _ _ => .inl rfl, fun _ _ => .inl rfl, fun _ _ => .inl rfl⟩,
        of_decide_eq_true hdeadline⟩
    · obtain rfl := List.mem_singleton.mp ht
      refine ⟨hshown, ?_⟩
      rintro extraction tools ⟨q, hq, job, -, hphase, hlabel⟩
      cases (Label.process.inj hlabel).2
  have hstep₂ : (system tightConfig asciiUnicode).step s₁ (.process 2 .advance) = some s₂ := hstep
  have hrun₂ := hrun.append (TransitionSystem.Run.cons hstep₂ (TransitionSystem.Run.nil s₂))
  refine ⟨_, s₂, hrun₂, ⟨s₁, .process 2 .advance, s₂⟩, by simp, hfinalizes, htexts, ?_⟩
  exact resumed_eq_uninterrupted hrun₂ ⟨rfl, rfl, rfl, rfl⟩ (fun t ht => (hall t ht).1)
    (fun t ht extraction tools hextracts => ((hall t ht).2 extraction tools hextracts).1)
    (fun t ht extraction tools hextracts => ((hall t ht).2 extraction tools hextracts).2)
    (by simp) hfinalizes (js "eng") Nat.one_pos

end OcrWorker

end DocuAI
