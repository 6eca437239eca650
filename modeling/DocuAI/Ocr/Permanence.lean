import DocuAI.Ocr.Attempts
import DocuAI.Ocr.Ownership
import DocuAI.Ocr.Requests
import DocuAI.Ocr.Tesseract

/-!
# Permanent failures

An error says itself whether another attempt can help, and the retry endpoint tells by the code it
left.  The two agree on every error that the worker can meet but one, that the stored object is
missing.
-/

namespace DocuAI

/-- The error says that it is permanent just when its code does. -/
def Agrees (error : Thrown) : Prop :=
  (toProcessingError error).permanent = true
    ↔ (toProcessingError error).code ∈ PERMANENT_OCR_ERROR_CODES

/-- An error that is not one of processing: of the database, the file system or the storage. -/
def Foreign (error : Thrown) : Prop :=
  ∀ failure, error ≠ .processing failure

theorem Foreign.agrees {error : Thrown} (h : Foreign error) :
  Agrees error
  := by
  cases error with
  | processing failure => exact absurd rfl (h failure)
  | storage message => simp [Agrees, toProcessingError, OcrProcessingError.transient,
      PERMANENT_OCR_ERROR_CODES]
  | other description => simp [Agrees, toProcessingError, OcrProcessingError.transient,
      PERMANENT_OCR_ERROR_CODES]

theorem agrees_ofPermanent {code : OcrErrorCode} (h : code ∈ PERMANENT_OCR_ERROR_CODES)
    (message : JsString) (detail : Option JsString) :
  Agrees (.processing (.ofPermanent code message detail))
  := ⟨fun _ => h, fun _ => rfl⟩

theorem agrees_transient {code : OcrErrorCode} (h : code ∉ PERMANENT_OCR_ERROR_CODES)
    (message : JsString) (detail : Option JsString) :
  Agrees (.processing (.transient code message detail))
  := ⟨fun hpermanent => Bool.noConfusion hpermanent, fun hcode => absurd hcode h⟩

/-! ### The tools -/

/-- An error of the tools.  One of processing has one of their codes, and is permanent when the file
cannot be read. -/
def OfTools (error : Thrown) : Prop :=
  ∀ failure, error = .processing failure → failure.code ∈ OcrWorker.TOOL_ERROR_CODES
    ∧ (failure.permanent = true ↔ failure.code = .OCR_INVALID_FILE)

theorem Foreign.ofTools {error : Thrown} (h : Foreign error) :
  OfTools error
  := fun failure hfailure => absurd hfailure (h failure)

theorem ofTools_invalidFile (message : JsString) (detail : Option JsString) :
  OfTools (.processing (.ofPermanent .OCR_INVALID_FILE message detail))
  := by
  have hcode : OcrErrorCode.OCR_INVALID_FILE ∈ OcrWorker.TOOL_ERROR_CODES := by decide
  rintro _ ⟨⟩
  exact ⟨hcode, fun _ => rfl, fun _ => rfl⟩

theorem ofTools_transient {code : OcrErrorCode}
    (h : code = .OCR_PROCESSING_FAILED ∨ code = .OCR_PROCESSING_TIMEOUT)
    (message : JsString) (detail : Option JsString) :
  OfTools (.processing (.transient code message detail))
  := by
  have hcode : code ∈ OcrWorker.TOOL_ERROR_CODES ∧ code ≠ .OCR_INVALID_FILE := by
    rcases h with rfl | rfl
    · decide
    · decide
  rintro _ ⟨⟩
  exact ⟨hcode.1, nofun, fun hinvalid => absurd hinvalid hcode.2⟩

/-- Of the codes of the tools one is permanent. -/
theorem permanent_toolErrorCode_iff :
  ∀ code ∈ OcrWorker.TOOL_ERROR_CODES, code = .OCR_INVALID_FILE ↔ code ∈ PERMANENT_OCR_ERROR_CODES
  := by
  decide

theorem OfTools.agrees {error : Thrown} (h : OfTools error) :
  Agrees error
  := by
  cases error with
  | processing failure =>
      obtain ⟨hcode, hpermanent⟩ := h failure rfl
      exact hpermanent.trans (permanent_toolErrorCode_iff failure.code hcode)
  | storage message => exact Foreign.agrees (by rintro _ ⟨⟩)
  | other description => exact Foreign.agrees (by rintro _ ⟨⟩)

theorem OfTools.expected {error : Thrown} (h : OfTools error) :
  OcrWorker.Expected error
  := by
  cases error with
  | processing failure => exact (h failure rfl).1
  | storage message => trivial
  | other description => trivial

/-- A sequence throws what its first part throws, or what the rest does. -/
theorem bind_eq_error {ε α β : Type} {x : Except ε α} {f : α → Except ε β} {error : ε}
    (h : x >>= f = .error error) :
  x = .error error ∨ ∃ a, x = .ok a ∧ f a = .error error
  := by
  cases x with
  | error error' => exact .inl (congrArg Except.error (Except.error.inj h))
  | ok a => exact .inr ⟨a, rfl, h⟩

namespace PopplerService

theorem ofTools_run {name : JsString} {outcome : Except CommandError RunCommandResult}
    {error : Thrown} (h : run name outcome = .error error) :
  OfTools error
  := by
  unfold run at h
  split at h
  · obtain rfl := Except.error.inj h
    exact ofTools_transient (.inl rfl) _ _
  · obtain rfl := Except.error.inj h
    exact Foreign.ofTools (by rintro _ ⟨⟩)
  · split at h
    · obtain rfl := Except.error.inj h
      exact ofTools_transient (.inr rfl) _ _
    · cases h

theorem ofTools_info {outcome : Except CommandError RunCommandResult} {error : Thrown}
    (h : info outcome = .error error) :
  OfTools error
  := by
  rcases bind_eq_error h with h | ⟨result, -, h⟩
  · exact ofTools_run h
  · simp only at h
    split at h
    · obtain rfl := Except.error.inj h
      exact ofTools_invalidFile _ _
    · split at h
      · obtain rfl := Except.error.inj h
        exact ofTools_invalidFile _ _
      · cases h

theorem ofTools_extractText {outcome : Except CommandError RunCommandResult} {pageCount : ℕ}
    {error : Thrown} (h : extractText outcome pageCount = .error error) :
  OfTools error
  := by
  rcases bind_eq_error h with h | ⟨result, -, h⟩
  · exact ofTools_run h
  · split at h
    · obtain rfl := Except.error.inj h
      exact ofTools_invalidFile _ _
    · cases h

theorem ofTools_renderPage {outcome : Except CommandError RunCommandResult} {outputExists : Bool}
    {error : Thrown} (h : renderPage outcome outputExists = .error error) :
  OfTools error
  := by
  rcases bind_eq_error h with h | ⟨result, -, h⟩
  · exact ofTools_run h
  · split at h
    · obtain rfl := Except.error.inj h
      exact ofTools_invalidFile _ _
    · cases h

end PopplerService

theorem TesseractOcrProvider.ofTools_recognize {outcome : Except CommandError RunCommandResult}
    {txt tsv : Option JsString} {removed : Except JsString Unit} {error : Thrown}
    (h : recognize outcome txt tsv removed = .error error) :
  OfTools error
  := by
  unfold recognize at h
  split at h
  · obtain rfl := Except.error.inj h
    exact ofTools_transient (.inl rfl) _ _
  · obtain rfl := Except.error.inj h
    exact Foreign.ofTools (by rintro _ ⟨⟩)
  · rename_i result
    split at h
    · obtain rfl := Except.error.inj h
      exact ofTools_transient (.inr rfl) _ _
    · split at h
      · obtain rfl := Except.error.inj h
        -- the code is chosen with the flag
        cases isUnreadable result.stderr with
        | true => exact ofTools_invalidFile _ _
        | false => exact ofTools_transient (.inl rfl) _ _
      · split at h
        · obtain rfl := Except.error.inj h
          exact Foreign.ofTools (by rintro _ ⟨⟩)
        · cases h

namespace OcrWorker

variable {config : OcrConfig} {unicode : Unicode}

/-! ### The worker -/

/-- The error of a download that finds nothing stored. -/
def missingObject : Thrown :=
  .processing (.ofPermanent .OCR_STORAGE_ERROR
    (js "The stored file for this document is missing") none)

/-- What an action brings comes from the tools, and any other call throws no error of
processing. -/
def Action.Faithful : Action → Prop
  | .download (.thrown error) | .throw error => Foreign error
  | .inspect probe => ∃ outcome, probe.info = PopplerService.info outcome
  | .extract tools =>
      (∀ pageCount timeoutMs maxBytes, ∃ outcome,
        tools.extractText pageCount timeoutMs maxBytes
          = PopplerService.extractText outcome pageCount)
      ∧ (∀ pageNumber dpi timeoutMs, ∃ outcome outputExists,
        tools.renderPage pageNumber dpi timeoutMs
          = PopplerService.renderPage outcome outputExists)
      ∧ ∀ language timeoutMs, ∃ outcome txt tsv removed,
        tools.recognize language timeoutMs
          = TesseractOcrProvider.recognize outcome txt tsv removed
  | _ => True

def Label.Faithful : Label → Prop
  | .process _ action => action.Faithful
  | _ => True

/-- What the tools throw, and what any other call throws, is expected. -/
theorem Action.Faithful.expected {action : Action} (h : action.Faithful) :
  action.Expected
  := by
  cases action with
  | download stream =>
      cases stream with
      | thrown error => exact (Foreign.ofTools h).expected
      | _ => trivial
  | throw error => exact (Foreign.ofTools h).expected
  | inspect probe =>
      obtain ⟨outcome, houtcome⟩ := h
      intro error hinfo
      exact (PopplerService.ofTools_info (houtcome ▸ hinfo)).expected
  | extract tools =>
      obtain ⟨hextract, hrender, hrecognize⟩ := h
      refine ⟨?_, ?_, ?_⟩
      · intro pageCount timeoutMs maxBytes error hthrows
        obtain ⟨outcome, htools⟩ := hextract pageCount timeoutMs maxBytes
        exact (PopplerService.ofTools_extractText (htools ▸ hthrows)).expected
      · intro pageNumber dpi timeoutMs error hthrows
        obtain ⟨outcome, outputExists, htools⟩ := hrender pageNumber dpi timeoutMs
        exact (PopplerService.ofTools_renderPage (htools ▸ hthrows)).expected
      · intro language timeoutMs error hthrows
        obtain ⟨outcome, txt, tsv, removed, htools⟩ := hrecognize language timeoutMs
        exact (TesseractOcrProvider.ofTools_recognize (htools ▸ hthrows)).expected
  | _ => trivial

theorem Label.Faithful.expected {label : Label} (h : label.Faithful) :
  label.Expected
  := by
  cases label with
  | process id action => exact Action.Faithful.expected h
  | _ => trivial

theorem agrees_fileTooLarge (maxBytes : ℕ) :
  Agrees (fileTooLarge maxBytes)
  := agrees_ofPermanent (by decide) _ _

theorem agrees_download {maxBytes : ℕ} {stream : ObjectStream} {error : Thrown}
    (hfaithful : (Action.download stream).Faithful) (hstored : stream ≠ .missing)
    (h : download maxBytes stream = .error error) :
  Agrees error
  := by
  rcases error_of_download h with (rfl | ⟨message, detail, rfl⟩) | rfl | ⟨hmissing, -⟩
  · exact agrees_fileTooLarge maxBytes
  · exact agrees_transient (by decide) _ _
  · exact Foreign.agrees hfaithful
  · exact absurd hmissing hstored

theorem agrees_inspect {expectedMimeType : Option JsString} {probe : FileProbe} {error : Thrown}
    (hfaithful : (Action.inspect probe).Faithful)
    (h : inspect config expectedMimeType probe = .error error) :
  Agrees error
  := by
  obtain ⟨outcome, houtcome⟩ := hfaithful
  rcases error_of_inspect h with hinfo | ⟨code, hcode, message, detail, rfl⟩
  · exact (PopplerService.ofTools_info (houtcome ▸ hinfo)).agrees
  · exact agrees_ofPermanent hcode _ _

theorem agrees_of_throws {tools : Tools} {error : Thrown}
    (hfaithful : (Action.extract tools).Faithful) (h : tools.Throws config error) :
  Agrees error
  := by
  cases h with
  | extractText h =>
      obtain ⟨outcome, htools⟩ := hfaithful.1 _ _ _
      exact (PopplerService.ofTools_extractText (htools ▸ h)).agrees
  | renderPage h =>
      obtain ⟨outcome, outputExists, htools⟩ := hfaithful.2.1 _ _ _
      exact (PopplerService.ofTools_renderPage (htools ▸ h)).agrees
  | recognize h =>
      obtain ⟨outcome, txt, tsv, removed, htools⟩ := hfaithful.2.2 _ _
      exact (TesseractOcrProvider.ofTools_recognize (htools ▸ h)).agrees
  | tooLarge h =>
      obtain ⟨message, detail, rfl⟩ := error_of_renderDpiFor h
      exact agrees_ofPermanent (by decide) _ _

/-! ### Runs -/

/-- The error that a process is about to handle, if there is one, says what its code says. -/
def Phase.Agrees : Phase → Prop
  | .failing _ error => DocuAI.Agrees error
  | _ => True

/-- A process for which nothing was stored: it is about to handle that, or has ended. -/
def Phase.Missed : Phase → Prop
  | .failing _ error => error = missingObject
  | .returned | .dead => True
  | _ => False

theorem Phase.Missed.not_inRun {phase : Phase} (h : phase.Missed) :
  phase.inRun = false
  := by
  cases phase with
  | failing job error => rfl
  | returned | dead => rfl
  | _ => exact h.elim

theorem agrees_load {db : Database} {job : OcrJob} :
  (Process.load config db job).Agrees
  := by
  apply Process.load_cases (motive := Phase.Agrees)
  · trivial
  · apply agrees_fileTooLarge
  · exact fun _ => trivial

/-- No step but a download of nothing takes a process to an error that does not say what its code
says. -/
theorem agrees_act {s : State} {q : Process} {a : Action} {e : Effect} (h : q.phase.Agrees)
    (hact : q.act config unicode s.db s.now a = some e) (hfaithful : a.Faithful)
    (hstored : a ≠ .download .missing) :
  (e.next (e.reply config s)).phase.Agrees
  := by
  have hmoves := Process.moves_of_act hact
  clear hact
  cases hmoves with
  | claims hphase hread =>
      simp only
      split
      · trivial
      · trivial
  | loads hphase => exact agrees_load
  | downloadFails hphase hdownload =>
      refine agrees_download hfaithful ?_ hdownload
      rintro rfl
      exact hstored rfl
  | inspectFails hphase hinspect => exact agrees_inspect hfaithful hinspect
  | extractFails hphase hnext => exact agrees_of_throws hfaithful (Extraction.next_thrown hnext)
  | throws hrun => exact Foreign.agrees hfaithful
  | beats htimer => exact h
  | _ => trivial

/-- A process for which nothing was stored handles that, or ends. -/
theorem missed_act {s : State} {q : Process} {a : Action} {e : Effect} (h : q.phase.Missed)
    (hact : q.act config unicode s.db s.now a = some e) :
  (e.next (e.reply config s)).phase.Missed
  := by
  have hmoves := Process.moves_of_act hact
  clear hact
  cases hmoves with
  | beats htimer => exact h
  | throws hrun => exact absurd (h.not_inRun) (by simp [hrun])
  | ignores hphase | finds hphase _ _ | claims hphase _ | exhausts hphase _ | starts hphase _
  | enters hphase | loads hphase | cancels hphase | downloads hphase _ | downloadFails hphase _
  | inspects hphase _ | inspectFails hphase _ | measures hphase | resumes hphase
  | yields hphase _ | ends hphase _ | extractFails hphase _ | persists hphase
  | finalizes hphase =>
      rw [hphase] at h
      exact h.elim
  | _ => trivial

theorem missed_of_download {s : State} {q : Process} {e : Effect}
    (hact : q.act config unicode s.db s.now (.download .missing) = some e) :
  (e.next (e.reply config s)).phase.Missed
  := by
  have hmoves := Process.moves_of_act hact
  clear hact
  cases hmoves with
  | downloads hphase hdownload => cases hdownload
  | downloadFails hphase hdownload => exact (Except.error.inj hdownload).symm

/-- A process for which something was stored meets no error that does not say what its code
says. -/
theorem agrees_of_run {s s' : State} {ts : List (Transition State Label)}
    (hrun : (system config unicode).Run s ts s') (hinit : (system config unicode).init s)
    (hfaithful : ∀ t ∈ ts, t.label.Faithful) {id : ℕ}
    (hstored : ∀ t ∈ ts, t.label ≠ .process id (.download .missing)) :
  ∀ q ∈ s'.processes.rows, q.id = id → q.phase.Agrees
  := by
  refine hrun.invariant (I := fun s => ∀ q ∈ s.processes.rows, q.id = id → q.phase.Agrees) ?_ ?_
  · rw [hinit.2.2.1]
    rintro _ ⟨⟩
  · intro t ht hstep h r hr hid
    cases processStep_of_step hstep hr with
    | @acts q action e hq ha hact hs' =>
        have haction : action.Faithful := by
          have hlabel := hfaithful t ht
          rw [ha] at hlabel
          exact hlabel
        refine agrees_act (h q hq hid) hact haction ?_
        rintro rfl
        exact hstored t ht (ha.trans (by rw [← hid]))
    | stays hq => exact h r hq hid
    | delivered id jobId => trivial

/-- Once nothing was stored for a process, it handles that, or has ended. -/
theorem missed_of_run {s s' : State} {ts : List (Transition State Label)}
    (hrun : (system config unicode).Run s ts s') {id : ℕ}
    (hmissing : ∃ t ∈ ts, t.label = .process id (.download .missing)) {q : Process}
    (hq : s'.processes.find id = some q) :
  q.phase.Missed
  := by
  obtain ⟨t, ht, hlabel⟩ := hmissing
  obtain ⟨before, after, rfl, hbefore, hafter⟩ := hrun.split_of_mem ht
  have hstep : step config unicode t.source t.label = some t.target := hrun.step_of_mem ht
  have hstart : ∃ q, t.target.processes.find id = some q ∧ q.phase.Missed := by
    rw [hlabel] at hstep
    generalize t.target = s', moves_of_step hstep = hmoves
    cases hmoves with
    | @acts p _ e hp hact =>
        refine ⟨{ p with toProgress := e.next (e.reply config t.source) }, ?_,
          missed_of_download hact⟩
        rw [processes_apply, Table.find_put, if_pos rfl]
  have hend : ∃ q, s'.processes.find id = some q ∧ q.phase.Missed := by
    refine hafter.invariant (I := fun s => ∃ q, s.processes.find id = some q ∧ q.phase.Missed)
      hstart ?_
    rintro t' - hstep ⟨q, hq, hmissed⟩
    rcases find_process_of_step hstep hq with hq' | ⟨action, e, -, hact, hq'⟩
    · exact ⟨q, hq', hmissed⟩
    · exact ⟨_, hq', missed_act hmissed hact⟩
  obtain ⟨q', hq', hmissed⟩ := hend
  obtain rfl := Option.some.inj (hq.symm.trans hq')
  exact hmissed

/-! ### Failing a job -/

/-- The process is about to end its attempt because of an error, or for want of attempts. -/
inductive Phase.EndsWith : Phase → OcrErrorCode → Prop where
  | failing (job : OcrJob) (error : Thrown) : EndsWith (.failing job error)
      (toProcessingError error).code
  | exhausted : EndsWith .exhausted .OCR_WORKER_INTERRUPTED

/-- The worker gives its job up whatever attempts are left. -/
def Phase.isPermanent : Phase → Bool
  | .failing _ error => (toProcessingError error).permanent
  | _ => false

/-- The step in which a process ends its job, which becomes FAILED, because of an error. -/
structure FailsJob (t : Transition State Label) (p : Process) (row : OcrJob) : Prop where
  process : t.source.processes.find p.id = some p
  label : t.label = .process p.id .advance
  error : ∃ code, p.phase.EndsWith code
  before : ∃ job, t.source.db.ocrJobs.find p.jobId = some job ∧ job.status ≠ .FAILED
  after : t.target.db.ocrJobs.find p.jobId = some row
  failed : row.status = .FAILED

/-- A write that makes a job FAILED leaves its own code there. -/
theorem errorCode_of_applied {s : State} {a : Label} {w : Write} {job : OcrJob}
    (hwrite : a.write config unicode s = some w) (hjobId : w.jobId = job.id)
    (hbefore : job.status ≠ .FAILED)
    (hafter : (a.applied config unicode s job).status = .FAILED) {code : OcrErrorCode}
    (hdata : ((w.update config.staleJobMs s.now s.db).data job).status = .FAILED →
      ((w.update config.staleJobMs s.now s.db).data job).errorCode = some code) :
  (a.applied config unicode s job).errorCode = some code
  := by
  have happlied : a.applied config unicode s job
      = (w.update config.staleJobMs s.now s.db).apply job := by
    simp only [Label.applied, hwrite, if_pos hjobId]
  rw [happlied] at hafter ⊢
  unfold Update.apply at hafter ⊢
  split at hafter
  · rename_i hguard
    rw [if_pos hguard]
    exact hdata hafter
  · exact absurd hafter hbefore

/-- A job that becomes FAILED has the code of the error. -/
theorem FailsJob.errorCode {t : Transition State Label} {p : Process} {row : OcrJob}
    (h : FailsJob t p row) (hstep : step config unicode t.source t.label = some t.target)
    {code : OcrErrorCode} (hcode : p.phase.EndsWith code) :
  row.errorCode = some code
  := by
  obtain ⟨job, hjob, hbefore⟩ := h.before
  have hafter := find_of_step hstep hjob
  rw [h.after, Option.some.injEq] at hafter
  have hfailed := h.failed
  rw [hafter] at hfailed ⊢
  have hid : p.jobId = job.id := (Table.key_of_find hjob).symm
  have hwrite : t.label.write config unicode t.source
      = (p.advance config t.source.db t.source.now).bind Effect.write := by
    rw [h.label, Label.write, h.process]
    rfl
  generalize hphase : p.phase = phase at hcode
  cases hcode with
  | failing job' error =>
      rw [Process.advance, hphase] at hwrite
      replace hwrite : t.label.write config unicode t.source
          = some (p.handleFailure job' error) := hwrite
      refine errorCode_of_applied hwrite ?_ hbefore hfailed ?_
      · unfold Process.handleFailure
        simp only
        split
        · exact hid
        · exact hid
      · -- a job that is returned to the queue does not become FAILED
        unfold Process.handleFailure
        simp only
        split
        · exact fun _ => rfl
        · intro hstatus
          cases hstatus
  | exhausted =>
      rw [Process.advance, hphase] at hwrite
      exact errorCode_of_applied hwrite hid hbefore hfailed fun _ => rfl

/-- The answer of the retry endpoint to a job that FAILED with a permanent error. -/
def permanentRefusal (code : OcrErrorCode) : AppException :=
  ocrRetryNotAllowed
    (js "The latest job failed with a permanent error (" ++ js code.name
      ++ js "); the document cannot be processed as-is")

/-- The endpoint refuses a FAILED job as permanent by its code. -/
theorem refuses_retry_iff {hashtext : ℕ → ℕ} {api : OcrService.State} {c : OcrService.Call}
    (hretry : c.phase = .locked .retry) {row : OcrJob}
    (hlatest : OcrJobService.latestForDocument api.worker.db c.documentId c.userId = some row)
    (hfailed : row.status = .FAILED) {code : OcrErrorCode} (hcode : row.errorCode = some code) :
  (∃ code, c.advance config hashtext api = OcrService.fail (permanentRefusal code))
    ↔ code ∈ PERMANENT_OCR_ERROR_CODES
  := by
  have hretryable : row.status ∈ OcrService.RETRYABLE_STATUSES := by
    rw [hfailed]
    decide
  by_cases hmem : code ∈ PERMANENT_OCR_ERROR_CODES
  · refine ⟨fun _ => hmem, fun _ => ⟨code, ?_⟩⟩
    simp only [OcrService.Call.advance, hretry, hlatest, hretryable, not_true_eq_false, if_false,
      hcode, Option.filter_some, hmem, decide_true, if_true]
    rfl
  · refine ⟨?_, fun h => absurd h hmem⟩
    rintro ⟨code', hadvance⟩
    simp only [OcrService.Call.advance, hretry, hlatest, hretryable, not_true_eq_false, if_false,
      hcode, Option.filter_some, hmem, decide_false, Bool.false_eq_true] at hadvance
    cases hadvance

/-- The worker and the retry endpoint agree on whether the error that failed a job is permanent just
when the object of the document was there to be downloaded. -/
theorem permanence_agrees_iff {s s' : State} {before after : List (Transition State Label)}
    {t : Transition State Label} (hrun : (system config unicode).Run s (before ++ t :: after) s')
    (hinit : (system config unicode).init s) (hfaithful : ∀ t' ∈ before, t'.label.Faithful)
    {p : Process} {row : OcrJob} (hfails : FailsJob t p row) (hashtext : ℕ → ℕ)
    (api : OcrService.State) (c : OcrService.Call) (hretry : c.phase = .locked .retry)
    (hlatest : OcrJobService.latestForDocument api.worker.db c.documentId c.userId = some row) :
  (p.phase.isPermanent = true
    ↔ ∃ code, c.advance config hashtext api = OcrService.fail (permanentRefusal code))
    ↔ ∀ t' ∈ before, t'.label ≠ .process p.id (.download .missing)
  := by
  obtain ⟨hbefore, -⟩ := hrun.of_append_cons
  obtain ⟨code, hcode⟩ := hfails.error
  have hstep : step config unicode t.source t.label = some t.target :=
    hrun.step_of_mem (List.mem_append_right before List.mem_cons_self)
  rw [refuses_retry_iff hretry hlatest hfails.failed (hfails.errorCode hstep hcode)]
  constructor
  · -- for a missing object the flag and the code disagree
    intro hagrees t' ht' hlabel
    have hmissed := missed_of_run hbefore ⟨t', ht', hlabel⟩ hfails.process
    generalize p.phase = phase at hcode hagrees hmissed
    cases hcode with
    | failing job error =>
        have hmissing : error = missingObject := hmissed
        subst hmissing
        exact absurd (hagrees.mp rfl) (by decide)
    | exhausted => exact hmissed.elim
  · intro hstored
    have hphase := agrees_of_run hbefore hinit hfaithful hstored p
      (Table.mem_of_find hfails.process) rfl
    generalize p.phase = phase at hcode hphase
    cases hcode with
    | failing job error => exact hphase
    | exhausted => decide

/-! ### A missing object -/

/-- A worker takes a job up to the download of its document. -/
def untilDownload (stream : ObjectStream) : List Label :=
  [.createJob 1 7 1 (js "eng") 0, .deliver 1 1] ++ sampleClaim 1 0
    ++ [.process 1 .advance, .process 1 (.download stream)]

/-- A call of the retry endpoint that has got the lock of the document. -/
def retryCall : OcrService.Call where
  id := 1
  userId := 7
  documentId := 1
  operation := .retry
  phase := .locked .retry

def retryCalls : Table OcrService.Call.id :=
  ⟨[retryCall], by decide⟩

/-- The download brings the process to the error, and its next step fails the job with the code of
the error. -/
def failsWith (stream : ObjectStream) (error : Thrown) : Bool :=
  ((system sampleConfig asciiUnicode).execute (fun _ => true) sampleState
      (untilDownload stream)).any fun s =>
    (step sampleConfig asciiUnicode s (.process 1 .advance)).any fun s' =>
      ((s.processes.find 1).any fun p => p.id = 1 && p.jobId = 1
        && (match p.phase with
          | .failing _ error' => decide (error' = error)
          | _ => false))
      && (s.db.ocrJobs.find 1).any (fun job => decide (job.status ≠ .FAILED))
      && (s'.db.ocrJobs.find 1).any (fun row =>
        decide (row.status = .FAILED
          ∧ OcrJobService.latestForDocument s'.db 1 7 = some row))

theorem exists_failsJob {stream : ObjectStream} {error : Thrown}
    (h : failsWith stream error = true) :
  ∃ before t p job row, (system sampleConfig asciiUnicode).Run sampleState (before ++ [t]) t.target
    ∧ before.map Transition.label = untilDownload stream ∧ p.id = 1
    ∧ p.phase = .failing job error ∧ FailsJob t p row
    ∧ OcrJobService.latestForDocument t.target.db 1 7 = some row
  := by
  obtain ⟨s, hs, h⟩ := (Option.any_eq_true _ _).mp h
  obtain ⟨s', hs', h⟩ := (Option.any_eq_true _ _).mp h
  simp only [Bool.and_eq_true] at h
  obtain ⟨⟨hprocess, hbefore⟩, hafter⟩ := h
  obtain ⟨p, hp, hphase⟩ := (Option.any_eq_true _ _).mp hprocess
  obtain ⟨job, hjob, hstatus⟩ := (Option.any_eq_true _ _).mp hbefore
  obtain ⟨row, hrow, hfailed⟩ := (Option.any_eq_true _ _).mp hafter
  simp only [Bool.and_eq_true, decide_eq_true_eq] at hphase hstatus hfailed
  obtain ⟨⟨hid, hjobId⟩, hphase⟩ := hphase
  obtain ⟨before, hrun, -, hlabels⟩ := TransitionSystem.run_of_execute_labels hs
  obtain ⟨job', hphase⟩ : ∃ job', p.phase = .failing job' error := by
    split at hphase
    · rename_i job' error' hfailing
      exact ⟨job', by rw [hfailing, of_decide_eq_true hphase]⟩
    · cases hphase
  have hends : p.phase.EndsWith (toProcessingError error).code := by
    rw [hphase]
    exact .failing job' error
  refine ⟨before, ⟨s, .process 1 .advance, s'⟩, p, job', row,
    hrun.append (.cons hs' (.nil s')), hlabels, hid, hphase, ?_, hfailed.2⟩
  exact
    { process := hid ▸ hp
      label := by rw [hid]
      error := ⟨_, hends⟩
      before := ⟨job, hjobId ▸ hjob, hstatus⟩
      after := hjobId ▸ hrow
      failed := hfailed.1 }

theorem faithful_untilDownload {stream : ObjectStream} (h : (Action.download stream).Faithful) :
  ∀ a ∈ untilDownload stream, a.Faithful
  := by
  simp only [untilDownload, sampleClaim, List.cons_append, List.nil_append, List.forall_mem_cons]
  exact ⟨trivial, trivial, trivial, trivial, trivial, trivial, trivial, h, List.forall_mem_nil _⟩

/-- A worker that finds nothing stored fails its job for good, and the retry endpoint takes the
job. -/
theorem missing_object_disagrees :
  ∃ before t p row, (system sampleConfig asciiUnicode).Run sampleState (before ++ [t]) t.target
    ∧ (system sampleConfig asciiUnicode).init sampleState
    ∧ (∀ t' ∈ before, t'.label.Faithful) ∧ FailsJob t p row
    ∧ p.phase.isPermanent = true ∧ row.errorCode = some .OCR_STORAGE_ERROR
    ∧ OcrJobService.latestForDocument t.target.db 1 7 = some row
    ∧ ∀ code, retryCall.advance sampleConfig id ⟨t.target, retryCalls⟩
      ≠ OcrService.fail (permanentRefusal code)
  := by
  have hsample : failsWith .missing missingObject = true := by
    decide +kernel
  obtain ⟨before, t, p, job, row, hrun, hlabels, hid, hphase, hfails, hlatest⟩ :=
    exists_failsJob hsample
  have hstep : step sampleConfig asciiUnicode t.source t.label = some t.target :=
    hrun.step_of_mem (List.mem_append_right before List.mem_cons_self)
  have hends : p.phase.EndsWith .OCR_STORAGE_ERROR := by
    rw [hphase]
    exact .failing job missingObject
  have hcode := hfails.errorCode hstep hends
  refine ⟨before, t, p, row, hrun, ⟨rfl, rfl, rfl, rfl⟩, ?_, hfails, ?_, hcode, hlatest, ?_⟩
  · intro t' ht'
    have huntil : ∀ a ∈ untilDownload .missing, a.Faithful := faithful_untilDownload trivial
    apply huntil
    rw [← hlabels]
    exact List.mem_map_of_mem ht'
  · rw [hphase]
    rfl
  · intro code hrefused
    have hmem := (refuses_retry_iff rfl hlatest hfails.failed hcode).mp ⟨code, hrefused⟩
    exact absurd hmem (by decide)

/-- An object that is too large fails the job for good, and the retry endpoint refuses the job. -/
theorem permanence_agrees_of_tooLarge :
  ∃ t : Transition State Label, ∃ code,
    retryCall.advance sampleConfig id ⟨t.target, retryCalls⟩
      = OcrService.fail (permanentRefusal code)
  := by
  have hsample : failsWith (.object (some 2000) [] none) (fileTooLarge 1000) = true := by
    decide +kernel
  obtain ⟨before, t, p, job, row, hrun, hlabels, hid, hphase, hfails, hlatest⟩ :=
    exists_failsJob hsample
  have hfaithful : ∀ t' ∈ before, t'.label.Faithful := by
    intro t' ht'
    have huntil : ∀ a ∈ untilDownload (.object (some 2000) [] none), a.Faithful :=
      faithful_untilDownload trivial
    apply huntil
    rw [← hlabels]
    exact List.mem_map_of_mem ht'
  have hstored : ∀ t' ∈ before, t'.label ≠ .process p.id (.download .missing) := by
    intro t' ht' hlabel
    have hmem := List.mem_map_of_mem (f := Transition.label) ht'
    rw [hlabels, hlabel] at hmem
    simp [untilDownload, sampleClaim] at hmem
  have hagrees := (permanence_agrees_iff hrun ⟨rfl, rfl, rfl, rfl⟩ hfaithful hfails id
    ⟨t.target, retryCalls⟩ retryCall rfl hlatest).mpr hstored
  refine ⟨t, hagrees.mp ?_⟩
  rw [hphase]
  rfl

end OcrWorker

end DocuAI
