import DocuAI.Ocr.Ownership

/-!
# Every delivery comes to its end

The statements a process has still to send bound how long a delivery takes (`Process.rank_of_act`),
and whatever it meets, its next statement can be sent.  A process that has claimed its job keeps it
until the statement that gives it back: its last one, or the one before.
-/

namespace DocuAI

namespace Extraction

/-- The pages a generator has still to yield, at most. -/
def remaining (extraction : Extraction) : ℕ :=
  extraction.totalPages + 1 - extraction.nextPage

/-- A page that is yielded is one less to yield. -/
theorem remaining_lt_of_next {config : OcrConfig} {unicode : Unicode} {tools : Tools} {now : ℕ}
    {extraction rest : Extraction} {page : ExtractedPage}
    (h : extraction.next config unicode tools now = .page page rest) :
  rest.remaining < extraction.remaining
  := by
  cases yields_of_next h with
  | firstPage hpdf hnative hle hpage =>
      simp only [remaining, totalPages, nextPage, hpdf, InspectedFile.totalPages]
      omega
  | nextPage hle hpage =>
      simp only [remaining, totalPages, nextPage]
      omega
  | image himage hstart hpage =>
      simp only [remaining, totalPages, nextPage, himage, InspectedFile.totalPages]
      omega

end Extraction

namespace OcrWorker

variable {config : OcrConfig} {unicode : Unicode}

/-! ### How long a delivery takes -/

/-- The statements a process has still to send, at most, when no file has more than `pages` pages:
two for each page, one to produce and one to store it. -/
def Phase.rank (pages : ℕ) : Phase → ℕ
  | .delivered => 2 * pages + 13
  | .found _ => 2 * pages + 12
  | .claimed _ => 2 * pages + 11
  | .starting _ => 2 * pages + 10
  | .loading _ => 2 * pages + 9
  | .downloading _ _ => 2 * pages + 8
  | .inspecting _ _ => 2 * pages + 7
  | .measured _ _ inspected => 2 * inspected.totalPages + 6
  | .resuming _ inspected => 2 * inspected.totalPages + 5
  | .yielded _ _ rest => 2 * rest.remaining + 5
  | .extracting _ extraction => 2 * extraction.remaining + 4
  | .finalizing _ | .cancelling _ => 3
  | .concluding _ => 2
  | .failing _ _ | .exhausted => 1
  | .returned | .dead => 0

/-- The process has neither returned nor been killed. -/
def Phase.isOpen : Phase → Bool
  | .returned | .dead => false
  | _ => true

theorem Phase.rank_pos {pages : ℕ} {phase : Phase} (h : phase.isOpen = true) :
  0 < phase.rank pages
  := by
  cases phase <;> simp_all [Phase.isOpen, Phase.rank]

/-- Inside `run` there is more to do than to handle a failure. -/
theorem Phase.one_lt_rank {pages : ℕ} {phase : Phase} (h : phase.inRun = true) :
  1 < phase.rank pages
  := by
  cases phase <;> simp_all [Phase.inRun, Phase.rank]

namespace Process

variable {db : Database} {now : ℕ} {q : Process} {a : Action} {e : Effect}

/-- A process that has returned or was killed sends nothing but heartbeats. -/
theorem isOpen_of_act (h : q.act config unicode db now a = some e) (ha : a ≠ .heartbeat) :
  q.phase.isOpen = true
  := by
  cases hphase : q.phase with
  | returned | dead => cases a <;> simp_all [act, advance, Process.throw]
  | _ => rfl

/-- A statement lowers the rank of its process. -/
theorem rank_of_act (h : q.act config unicode db now a = some e) (ha : a ≠ .heartbeat)
    (reply : Bool) :
  (e.next reply).phase.rank (max 1 config.limits.maxPdfPages)
    < q.phase.rank (max 1 config.limits.maxPdfPages)
  := by
  have hopen := isOpen_of_act h ha
  cases moves_of_act h with
  | claims hphase hread =>
      rw [hphase]
      cases reply
      · exact Nat.succ_pos _
      · exact Nat.lt_succ_self _
  | loads hphase =>
      rw [hphase]
      apply load_cases (motive := fun phase => Phase.rank _ phase < _)
      · simp [Phase.rank]
      · simp [Phase.rank]
      · simp [Phase.rank]
  | inspects hphase hinspect =>
      have hle := (totalPages_of_inspect hinspect).2
      rw [hphase]
      simp only [goTo, Phase.rank]
      omega
  | resumes hphase =>
      rw [hphase]
      simp only [goTo, Phase.rank, Extraction.remaining, Extraction.totalPages, Extraction.nextPage,
        extractionInput]
      omega
  | yields hphase hnext =>
      have hlt := Extraction.remaining_lt_of_next hnext
      rw [hphase]
      simp only [goTo, Phase.rank]
      omega
  | beats => exact absurd rfl ha
  | rejects | dies => exact Phase.rank_pos hopen
  | throws hrun => exact Phase.one_lt_rank hrun
  | _ hphase =>
      rw [hphase]
      simp [goTo, renewTo, Phase.rank]

end Process

/-! ### What a process can always do -/

/-- What the object storage, the file and the tools answer to a process. -/
structure Inputs where
  stream : ObjectStream
  probe : FileProbe
  tools : Tools

/-- The next statement of a process, with what it is answered. -/
def Phase.statement (inputs : Inputs) (readAt : ℕ) : Phase → Action
  | .found _ => .claim readAt
  | .downloading _ _ => .download inputs.stream
  | .inspecting _ _ => .inspect inputs.probe
  | .extracting _ _ => .extract inputs.tools
  | _ => .advance

/-- The next statement of a process can be sent, whatever it is answered. -/
theorem Process.exists_act {db : Database} {now readAt : ℕ} {q : Process}
    (hopen : q.phase.isOpen = true) (inputs : Inputs) (hread : readAt ≤ now) :
  ∃ e, q.act config unicode db now (q.phase.statement inputs readAt) = some e
  := by
  cases hphase : q.phase with
  | delivered =>
      simp only [Phase.statement, act, advance, hphase, quiet]
      split
      · exact ⟨_, rfl⟩
      · split <;> exact ⟨_, rfl⟩
  | found job => simp [Phase.statement, act, hphase, hread, send]
  | claimed job =>
      simp only [Phase.statement, act, advance, hphase, quiet]
      split <;> exact ⟨_, rfl⟩
  | downloading job document =>
      simp only [Phase.statement, act, hphase, quiet]
      split <;> exact ⟨_, rfl⟩
  | inspecting job document =>
      simp only [Phase.statement, act, hphase, quiet]
      split <;> exact ⟨_, rfl⟩
  | extracting job extraction =>
      simp only [Phase.statement, act, hphase, quiet]
      split <;> exact ⟨_, rfl⟩
  | returned | dead =>
      rw [hphase] at hopen
      cases hopen
  | _ => exact ⟨_, by simp only [Phase.statement, act, advance, hphase]; rfl⟩

/-! ### What a process leaves behind -/

/-- No row of the job is PROCESSING. -/
def Released (db : Database) (jobId : ℕ) : Prop :=
  ∀ job ∈ OcrJobService.findById db jobId, job.status ≠ .PROCESSING

/-- The phases of a process that has claimed its job and not given it back, killed or not. -/
def Phase.keeps : Phase → Bool
  | .delivered | .found _ | .concluding _ | .returned => false
  | _ => true

/-- A job whose pages are all stored, or that is given up, is no longer PROCESSING. -/
theorem released_of_update {w : Write} {staleMs now : ℕ} {db : Database}
    (hguard : ∀ job : OcrJob, job.status = .PROCESSING →
      (w.update staleMs now db).guard job = true)
    (hdata : ∀ job : OcrJob, ((w.update staleMs now db).data job).status ≠ .PROCESSING) :
  Released (w.perform staleMs now db).1 w.jobId
  := by
  intro job hjob
  rw [OcrJobService.findById, Write.find_perform, if_pos rfl] at hjob
  obtain ⟨before, hbefore, rfl⟩ := Option.mem_map.mp hjob
  unfold Update.apply
  split
  · apply hdata
  · rename_i hrefused
    intro hstatus
    exact hrefused (hguard before hstatus)

section

variable {staleMs now jobId : ℕ} {db : Database} {errorCode : OcrErrorCode} {errorMessage : JsString}

theorem released_of_fail :
  Released (Write.perform staleMs now db (.fail jobId errorCode errorMessage)).1 jobId
  := by
  apply released_of_update (w := .fail jobId errorCode errorMessage)
  · intro job hstatus
    simp [Write.update, OcrJobService.endUpdate, hstatus, ACTIVE_OCR_STATUSES]
  · intro job
    simp [Write.update, OcrJobService.endUpdate]

theorem released_of_cancel :
  Released (Write.perform staleMs now db (.cancel jobId errorCode errorMessage)).1 jobId
  := by
  apply released_of_update (w := .cancel jobId errorCode errorMessage)
  · intro job hstatus
    simp [Write.update, OcrJobService.endUpdate, hstatus, ACTIVE_OCR_STATUSES]
  · intro job
    simp [Write.update, OcrJobService.endUpdate]

theorem released_of_requeue :
  Released (Write.perform staleMs now db (.requeue jobId errorCode errorMessage)).1 jobId
  := by
  apply released_of_update (w := .requeue jobId errorCode errorMessage)
  · intro job hstatus
    simp [Write.update, OcrJobService.requeueUpdate, hstatus]
  · intro job
    simp [Write.update, OcrJobService.requeueUpdate]

theorem released_of_finalize :
  Released (Write.perform staleMs now db (.finalize jobId)).1 jobId
  := by
  apply released_of_update (w := .finalize jobId)
  · intro job hstatus
    simp [Write.update, OcrJobService.finalizeUpdate, hstatus]
  · intro job
    simp only [Write.update, OcrJobService.finalizeUpdate]
    unfold finalStatus
    split
    · decide
    · split <;> decide

end

/-- A call that throws inside `run` is handled as a failure of the job. -/
theorem Process.next_of_throw {q : Process} {error : Thrown} {e : Effect}
    (h : q.throw error = some e) (hrun : q.phase.inRun = true) :
  ∃ job, e = ⟨none, fun _ => q.goTo (.failing job error)⟩
  := by
  unfold Process.throw quiet at h
  cases hphase : q.phase with
  | delivered | found _ | claimed _ | exhausted | starting _ | failing _ _ | returned | dead =>
      rw [hphase] at hrun
      cases hrun
  | _ =>
      simp only [hphase] at h
      exact ⟨_, (Option.some.inj h).symm⟩

/-- The statement with which a process gives its job back leaves it no longer PROCESSING. -/
theorem Process.released_of_act {db : Database} {now : ℕ} {q : Process} {a : Action} {e : Effect}
    {reply : Bool} (h : q.act config unicode db now a = some e) (hkeeps : q.phase.keeps = true)
    (hgives : (e.next reply).phase.keeps = false)
    (hthrows : ∀ error, a = .throw error → q.phase.inRun = true) :
  ∃ w, e.write = some w ∧ Released (w.perform config.staleJobMs now db).1 q.jobId
  := by
  cases moves_of_act h with
  | ignores hphase | finds hphase | claims hphase | concludes hphase =>
      rw [hphase] at hkeeps
      cases hkeeps
  | givesUp hphase => exact ⟨_, rfl, released_of_fail⟩
  | cancels hphase => exact ⟨_, rfl, released_of_cancel⟩
  | finalizes hphase => exact ⟨_, rfl, released_of_finalize⟩
  | @handles job error w hphase hw =>
      subst hw
      refine ⟨_, rfl, ?_⟩
      simp only [handleFailure]
      split
      · exact released_of_fail
      · exact released_of_requeue
  | beats =>
      have hsame : (q.renewTo now q.phase reply).phase.keeps = true := hkeeps
      rw [hsame] at hgives
      cases hgives
  | @rejects error =>
      obtain ⟨job, he⟩ := next_of_throw h (hthrows error rfl)
      have hphase := congrArg (fun e => (e.next reply).phase) he
      simp only [goTo] at hphase
      cases hphase
  | @loads job hphase =>
      have hloaded : (load config db job).keeps = true :=
        load_cases (motive := fun phase => phase.keeps = true) rfl rfl fun _ => rfl
      have hsame := hloaded.symm.trans hgives
      cases hsame
  | _ => cases hgives

/-! ### Runs -/

/-- The process sends a statement of its program, and not one of its heartbeat timer. -/
def Label.isStatement (processId : ℕ) : Label → Bool
  | .process _ .heartbeat => false
  | .process p _ => p = processId
  | _ => false

/-- A call of the process throws. -/
def Label.throws (processId : ℕ) : Label → Bool
  | .process p (.throw _) => p = processId
  | _ => false

/-- A call of the process throws where no failure of the job is handled: in `claim`, when the work
directory is made, or in handling a failure. -/
def ThrowsOutsideRun (processId : ℕ) (t : Transition State Label) : Prop :=
  ∃ error, t.label = .process processId (.throw error)
    ∧ ∃ q ∈ t.source.processes.find processId, q.phase.inRun = false

theorem Label.eq_of_isStatement {processId : ℕ} {a : Label} (h : a.isStatement processId = true) :
  ∃ action, a = .process processId action ∧ action ≠ .heartbeat
  := by
  unfold isStatement at h
  split at h
  · cases h
  · rename_i hne
    rw [of_decide_eq_true h]
    refine ⟨_, rfl, ?_⟩
    rintro rfl
    exact hne rfl
  · cases h

theorem Label.isStatement_process {processId : ℕ} {action : Action} (h : action ≠ .heartbeat) :
  Label.isStatement processId (.process processId action) = true
  := by
  cases action <;> simp_all [isStatement]

/-- A heartbeat leaves a process where it is. -/
theorem Process.phase_of_heartbeat {db : Database} {now : ℕ} {q : Process} {e : Effect}
    (h : q.act config unicode db now .heartbeat = some e) (reply : Bool) :
  (e.next reply).phase = q.phase
  := by
  cases moves_of_act h with
  | beats => rfl

/-- The rank of a process in a state, the greatest one while it has not been delivered. -/
def rankIn (config : OcrConfig) (processId : ℕ) (s : State) : ℕ :=
  (s.processes.find processId).elim (2 * max 1 config.limits.maxPdfPages + 13)
    fun q => q.phase.rank (max 1 config.limits.maxPdfPages)

/-- A statement of a process lowers its rank, and no other step raises it. -/
theorem rankIn_of_step {s s' : State} {a : Label} {processId : ℕ}
    (h : step config unicode s a = some s') :
  (if a.isStatement processId = true then 1 else 0) + rankIn config processId s'
    ≤ rankIn config processId s
  := by
  cases hfind : s.processes.find processId with
  | some q =>
      obtain hsame | ⟨action, e, rfl, hact, hnext⟩ := find_process_of_step h hfind
      · by_cases hstatement : a.isStatement processId = true
        · obtain ⟨action, rfl, hne⟩ := Label.eq_of_isStatement hstatement
          obtain rfl := Table.key_of_find hfind
          obtain ⟨e, hact, rfl⟩ := target_of_step (Table.mem_of_find hfind) h
          rw [processes_apply, Table.find_put, if_pos rfl] at hsame
          have hlt := Process.rank_of_act hact hne (e.reply config s)
          have hq := congrArg (fun p : Process => p.phase) (Option.some.inj hsame)
          simp only at hq
          rw [hq] at hlt
          exact absurd hlt (lt_irrefl _)
        · simp only [hstatement, Bool.false_eq_true, if_false, rankIn, hsame, hfind]
          omega
      · simp only [rankIn, hnext, hfind, Option.elim_some]
        by_cases hne : action = .heartbeat
        · subst hne
          rw [Process.phase_of_heartbeat hact]
          simp [Label.isStatement]
        · have hlt := Process.rank_of_act hact hne (e.reply config s)
          rw [if_pos (Label.isStatement_process hne)]
          omega
  | none =>
      have hnone : ∀ q ∈ s.processes.rows, q.id ≠ processId := fun q hq hid => by
        rw [← hid, Table.mem_rows_iff.mp hq] at hfind
        cases hfind
      have hquiet : a.isStatement processId = false := by
        by_contra hstatement
        obtain ⟨action, rfl, -⟩ := Label.eq_of_isStatement (Bool.not_eq_false _ ▸ hstatement)
        simp [step, hfind] at h
      simp only [hquiet, Bool.false_eq_true, if_false, rankIn, hfind, Option.elim_none]
      cases hfind' : s'.processes.find processId with
      | none => simp
      | some r =>
          have hid := Table.key_of_find hfind'
          cases processStep_of_step h (Table.mem_of_find hfind') with
          | @acts q action e hq => exact absurd hid (hnone q hq)
          | stays hq => exact absurd hid (hnone r hq)
          | delivered => simp [Phase.rank]

/-- A process that has its job and later has not gave it back in between. -/
theorem exists_release {s s' : State} {ts : List (Transition State Label)}
    (hrun : (system config unicode).Run s ts s') {processId : ℕ} {q : Process}
    (hq : s.processes.find processId = some q) (hkeeps : q.phase.keeps = true)
    (hgiven : ∀ q' ∈ s'.processes.find processId, q'.phase.keeps = false)
    (hthrows : ∀ t ∈ ts, ¬ThrowsOutsideRun processId t) :
  ∃ t ∈ ts, t.label.isStatement processId = true ∧ Released t.target.db q.jobId
  := by
  induction hrun generalizing q with
  | nil =>
      have hnot := hgiven q hq
      rw [hkeeps] at hnot
      cases hnot
  | @cons s s₁ _ a ts hstep hrun ih =>
      have hrest : ∀ {q₁ : Process}, s₁.processes.find processId = some q₁ →
          q₁.jobId = q.jobId → q₁.phase.keeps = true →
          ∃ t ∈ (⟨s, a, s₁⟩ : Transition State Label) :: ts,
            t.label.isStatement processId = true ∧ Released t.target.db q.jobId := by
        intro q₁ hq₁ hjob hkeeps₁
        obtain ⟨t, ht, hreleases⟩ := ih hq₁ hkeeps₁ hgiven
          fun t ht => hthrows t (List.mem_cons_of_mem _ ht)
        exact ⟨t, List.mem_cons_of_mem _ ht, hjob ▸ hreleases⟩
      obtain hsame | ⟨action, e, rfl, hact, hnext⟩ := find_process_of_step hstep hq
      · exact hrest hsame rfl hkeeps
      · cases hgives : (e.next (e.reply config s)).phase.keeps with
        | true => exact hrest hnext rfl hgives
        | false =>
            have hinRun : ∀ error, action = .throw error → q.phase.inRun = true := by
              rintro error rfl
              by_contra hout
              exact hthrows _ List.mem_cons_self
                ⟨error, rfl, q, hq, Bool.not_eq_true _ ▸ hout⟩
            obtain ⟨w, hw, hreleased⟩ := Process.released_of_act hact hkeeps hgives hinRun
            have hne : action ≠ .heartbeat := by
              rintro rfl
              rw [Process.phase_of_heartbeat hact, hkeeps] at hgives
              cases hgives
            obtain rfl := Table.key_of_find hq
            obtain ⟨e', hact', rfl⟩ := target_of_step (Table.mem_of_find hq) hstep
            obtain rfl := Option.some.inj (hact.symm.trans hact')
            refine ⟨_, List.mem_cons_self, Label.isStatement_process hne, ?_⟩
            simp only [State.apply, hw]
            exact hreleased

/-- Every delivery comes to its end.  In every run of the worker system, however the steps of the
processes, the reconcilers and the API interleave, a process sends a bounded number of statements
besides its heartbeats; until it has returned or is killed it can send the next one, whatever the
storage and the tools answer; and if it returns after it has claimed its job, and no call threw
outside `run`, it has sent a statement after which the job was no longer PROCESSING. -/
theorem deliveries_end {s₀ s : State} {ts : List (Transition State Label)}
    (hrun : (system config unicode).Run s₀ ts s) (hinit : (system config unicode).init s₀)
    (processId : ℕ) :
  ts.countP (fun t => t.label.isStatement processId) ≤ 2 * max 1 config.limits.maxPdfPages + 13
  ∧ (∀ q ∈ s.processes.find processId, q.phase.isOpen = true →
    ∀ (inputs : Inputs) (readAt : ℕ), readAt ≤ s.now → ∃ s',
      step config unicode s (.process processId (q.phase.statement inputs readAt)) = some s')
  ∧ ∀ before t after, ts = before ++ t :: after → ∀ q ∈ t.target.processes.find processId,
    (∃ job, q.phase = .claimed job) → (∀ q' ∈ s.processes.find processId, q'.phase = .returned) →
    (∀ t' ∈ after, ¬ThrowsOutsideRun processId t') →
    ∃ t' ∈ after, t'.label.isStatement processId = true ∧ Released t'.target.db q.jobId
  := by
  refine ⟨?_, ?_, ?_⟩
  · have hcount := hrun.countP_add_rank_le (fun t => t.label.isStatement processId)
      (rankIn config processId) fun t ht => rankIn_of_step (hrun.step_of_mem ht)
    have hstart : rankIn config processId s₀ = 2 * max 1 config.limits.maxPdfPages + 13 := by
      rw [rankIn, Table.find_of_rows_eq_nil hinit.2.2.1]
      rfl
    omega
  · intro q hq hopen inputs readAt hread
    obtain ⟨e, hact⟩ : ∃ e, q.act config unicode s.db s.now (q.phase.statement inputs readAt)
        = some e := Process.exists_act hopen inputs hread
    refine ⟨s.apply config q e, ?_⟩
    rw [Option.mem_def] at hq
    simp [step, hq, hact]
  · rintro before t after rfl q hq ⟨job, hphase⟩ hreturned hthrows
    obtain ⟨-, hafter⟩ := hrun.of_append_cons
    refine exists_release hafter hq (by rw [hphase]; rfl) (fun q' hq' => ?_) hthrows
    rw [hreturned q' hq']
    rfl

/-- What the worker does after its claim: its second page throws, and it returns. -/
def interruptedWork : List Label :=
  [.process 1 .advance, .process 1 .advance] ++ sampleInspection 1
    ++ [.process 1 (.extract sampleTools), .process 1 .advance,
      .process 1 (.throw (.other (js "ENOSPC"))), .process 1 .advance]

/-- A worker whose second page throws returns its job to the queue. -/
theorem deliveries_end_of_interruptedWork :
  ∃ s₁ s₂ s ts,
    (system sampleConfig asciiUnicode).step s₁ (.process 1 (.claim 0)) = some s₂
    ∧ (system sampleConfig asciiUnicode).Run s₂ ts s
    ∧ ts.map Transition.label = interruptedWork
    ∧ (∃ job ∈ s.db.ocrJobs.find 1, job.status = .QUEUED)
    ∧ ∃ t ∈ ts, t.label.isStatement 1 = true ∧ Released t.target.db 1
  := by
  have hsome : ((system sampleConfig asciiUnicode).execute (fun _ => true) sampleState
      [.createJob 1 7 1 (js "eng") 0, .deliver 1 1, .process 1 .advance]).any (fun s₁ =>
        ((system sampleConfig asciiUnicode).step s₁ (.process 1 (.claim 0))).any fun s₂ =>
          (s₂.processes.find 1).any (fun q => q.jobId = 1
            && s₁.db.ocrJobs.rows.any fun job => q.phase = .claimed job)
          && ((system sampleConfig asciiUnicode).execute (fun t => !t.label.throws 1
              || (t.source.processes.find 1).any fun q => q.phase.inRun) s₂ interruptedWork).any
            fun s =>
            (s.processes.find 1).all (fun q => q.phase = .returned)
            && (s.db.ocrJobs.find 1).any fun job => job.status = .QUEUED) = true := by
    decide +kernel
  obtain ⟨s₁, hs₁, hsome⟩ := (Option.any_eq_true _ _).mp hsome
  obtain ⟨s₂, hs₂, hsome⟩ := (Option.any_eq_true _ _).mp hsome
  rw [Bool.and_eq_true] at hsome
  obtain ⟨hclaimed, hsome⟩ := hsome
  obtain ⟨s, hs, hend⟩ := (Option.any_eq_true _ _).mp hsome
  rw [Bool.and_eq_true] at hend
  obtain ⟨q, hq, hphase⟩ := (Option.any_eq_true _ _).mp hclaimed
  obtain ⟨before, hbefore, -⟩ := TransitionSystem.run_of_execute hs₁
  obtain ⟨ts, hafter, hts, hlabels⟩ := TransitionSystem.run_of_execute_labels hs
  have hrun := hbefore.append (.cons hs₂ hafter)
  refine ⟨s₁, s₂, s, ts, hs₂, hafter, hlabels, ?_, ?_⟩
  · obtain ⟨job, hjob, hqueued⟩ := (Option.any_eq_true _ _).mp hend.2
    exact ⟨job, hjob, of_decide_eq_true hqueued⟩
  · rw [Bool.and_eq_true] at hphase
    have hjob : q.jobId = 1 := of_decide_eq_true hphase.1
    obtain ⟨-, -, hreleases⟩ := deliveries_end hrun ⟨rfl, rfl, rfl, rfl⟩ 1
    refine hjob ▸ hreleases before _ ts rfl q hq ?_ (fun q' hq' => ?_) fun t ht => ?_
    · obtain ⟨job, -, hclaimed⟩ := List.any_eq_true.mp hphase.2
      exact ⟨job, of_decide_eq_true hclaimed⟩
    · have hreturned := hend.1
      rw [Option.mem_def] at hq'
      rw [hq'] at hreturned
      exact of_decide_eq_true hreturned
    · rintro ⟨error, hlabel, q', hq', hout⟩
      have hcheck := hts t ht
      rw [Option.mem_def] at hq'
      rw [hlabel] at hcheck
      simp [Label.throws, hq', hout] at hcheck

end OcrWorker

end DocuAI
