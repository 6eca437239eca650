import DocuAI.Documents.Confinement
import DocuAI.Ocr.Requests

/-!
# Requests for text extraction stay with their user

A call finds the jobs of its document by the id of the document, whoever they belong to.  Every job
is the user's whose document it is about (`Database.Owned`), and the call has seen that its document
is its user's.  So what it does is determined by the rows of its user (`Call.act_only`), and the job
it commits is one more of them (`createJob_only`, `Confined.step`).
-/

namespace DocuAI

namespace Database

/-- The part of the database that is a user's: the documents of the user, their jobs, and the pages
of these. -/
def only (db : Database) (userId : ℕ) : Database where
  ocrJobs := db.ocrJobs.restrict fun job => db.ownerOf job.documentId = some userId
  ocrPages := db.ocrPages.restrict fun page =>
    (db.ocrJobs.find page.ocrJobId).any fun job => db.ownerOf job.documentId = some userId
  documents := db.documents.restrict (Document.isOf userId)

/-- Every job is the user's whose document it is about, and every page is one of a job. -/
structure Owned (db : Database) : Prop where
  jobs : ∀ job ∈ db.ocrJobs.rows, db.ownerOf job.documentId = some job.userId
  pages : ∀ page ∈ db.ocrPages.rows, ∃ job, db.ocrJobs.find page.ocrJobId = some job

section

variable {db : Database} {userId documentId : ℕ}

/-- The jobs of a document are the user's whose document it is. -/
theorem jobsOf_only (howner : db.ownerOf documentId = some userId) :
  (db.only userId).jobsOf documentId = db.jobsOf documentId
  := by
  apply Table.filter_restrict
  intro job _ hjob
  rw [of_decide_eq_true hjob]
  apply decide_eq_true howner

theorem pagesOf_only {jobId : ℕ} {job : OcrJob} (hfind : db.ocrJobs.find jobId = some job)
    (howner : db.ownerOf job.documentId = some userId) :
  (db.only userId).pagesOf jobId = db.pagesOf jobId
  := by
  apply Table.filter_restrict
  intro page _ hpage
  rw [of_decide_eq_true hpage, hfind]
  apply decide_eq_true howner

theorem countActiveForUser_only (h : db.Owned) :
  OcrJobService.countActiveForUser (db.only userId) userId
    = OcrJobService.countActiveForUser db userId
  := by
  unfold OcrJobService.countActiveForUser
  rw [List.countP_eq_length_filter, List.countP_eq_length_filter]
  congr 1
  apply Table.filter_restrict
  intro job hjob hcounted
  rw [Bool.and_eq_true, decide_eq_true_eq] at hcounted
  rw [h.jobs job hjob, hcounted.1]
  apply decide_eq_true rfl

/-! ### A new job -/

variable {job : OcrJob} {ocrJobs : Table OcrJob.id}

/-- No page is one of a new job. -/
theorem Owned.find_create (h : db.Owned) (hcreate : db.ocrJobs.create job = some ocrJobs)
    {page : OcrPage} (hpage : page ∈ db.ocrPages.rows) :
  ocrJobs.find page.ocrJobId = db.ocrJobs.find page.ocrJobId
  := by
  obtain ⟨other, hother⟩ := h.pages page hpage
  rw [hother, Table.find_create_of_find hcreate hother]

theorem Owned.create (h : db.Owned) (hcreate : db.ocrJobs.create job = some ocrJobs)
    (howner : db.ownerOf job.documentId = some job.userId) :
  ({ db with ocrJobs } : Database).Owned
  := by
  constructor
  · intro job' hjob'
    change job' ∈ ocrJobs.rows at hjob'
    rw [Table.rows_of_create hcreate, List.mem_append, List.mem_singleton] at hjob'
    rcases hjob' with hjob' | rfl
    · apply h.jobs job' hjob'
    · apply howner
  · intro page hpage
    change ∃ job, ocrJobs.find page.ocrJobId = some job
    rw [h.find_create hcreate hpage]
    apply h.pages page hpage

theorem only_create (h : db.Owned) (hcreate : db.ocrJobs.create job = some ocrJobs) :
  ({ db with ocrJobs } : Database).only userId
    = { db.only userId with
        ocrJobs := ocrJobs.restrict fun job => db.ownerOf job.documentId = some userId }
  := by
  unfold only
  congr 1
  apply Table.restrict_congr
  intro page hpage
  rw [h.find_create hcreate hpage]
  rfl

/-- A new job of a user's document is one more of the rows of the user. -/
theorem create_only (h : db.Owned) (howner : db.ownerOf job.documentId = some userId)
    (hfresh : db.ocrJobs.find job.id = none) :
  ((db.only userId).ocrJobs.create job).map (fun ocrJobs => { db.only userId with ocrJobs })
    = (db.ocrJobs.create job).map fun ocrJobs => ({ db with ocrJobs } : Database).only userId
  := by
  obtain ⟨ocrJobs, hcreate⟩ := Table.exists_create hfresh
  have honly : (db.only userId).ocrJobs.create job = some (ocrJobs.restrict fun job =>
      db.ownerOf job.documentId = some userId) :=
    Table.create_restrict hcreate (decide_eq_true howner)
  rw [honly, hcreate, Option.map_some, Option.map_some, only_create h hcreate]

/-- A new job of another user's document is none of the user's rows. -/
theorem only_create_of_ne (h : db.Owned) (hcreate : db.ocrJobs.create job = some ocrJobs)
    (howner : db.ownerOf job.documentId ≠ some userId) :
  ({ db with ocrJobs } : Database).only userId = db.only userId
  := by
  rw [only_create h hcreate, Table.restrict_create_of_not hcreate (decide_eq_false howner)]
  rfl

end

end Database

namespace OcrService

/-! ### What a call sees -/

/-- The call has seen that its document is its user's. -/
def Phase.owns : Phase → Bool
  | .called | .returned _ | .rejected => false
  | _ => true

/-- The part of the state that is a user's. -/
def State.only (s : State) (userId : ℕ) : State :=
  { s with worker := { s.worker with db := s.worker.db.only userId } }

section

variable {config : OcrConfig} {unicode : Unicode} {hashtext : ℕ → ℕ} {s : State} {c : Call}

theorem Call.advance_only (hdb : s.worker.db.Owned)
    (howns : c.phase.owns = true → s.worker.db.ownerOf c.documentId = some c.userId) :
  c.advance config hashtext (s.only c.userId) = c.advance config hashtext s
  := by
  have hget : DocumentsService.getOwned (s.only c.userId).worker.db.documents c.userId c.documentId
      = DocumentsService.getOwned s.worker.db.documents c.userId c.documentId := by
    apply Documents.getOwned_restrict
  have hjobs : c.phase.owns = true →
      (s.only c.userId).worker.db.jobsOf c.documentId = s.worker.db.jobsOf c.documentId := by
    intro hphase
    apply Database.jobsOf_only (howns hphase)
  cases hphase : c.phase with
  | called => simp only [advance, hphase, hget]
  | waiting goal => simp only [advance, hphase]; rfl
  | locked goal =>
      rw [hphase] at hjobs
      cases goal <;> simp only [advance, hphase, OcrJobService.activeForDocument,
        OcrJobService.latestForDocument, hjobs rfl]
  | searching language =>
      rw [hphase] at hjobs
      simp only [advance, hphase, OcrJobService.latestForLanguage, hjobs rfl]
  | counting language =>
      have hcount : OcrJobService.countActiveForUser (s.only c.userId).worker.db c.userId
          = OcrJobService.countActiveForUser s.worker.db c.userId :=
        Database.countActiveForUser_only hdb
      simp only [advance, hphase, hcount]
  | counted language =>
      have hcount : OcrJobService.countForDocument (s.only c.userId).worker.db c.documentId
          = OcrJobService.countForDocument s.worker.db c.documentId := by
        unfold OcrJobService.countForDocument
        rw [hjobs (by rw [hphase]; rfl)]
      simp only [advance, hphase, hcount]
  | _ => simp only [advance, hphase]

/-- Where a call goes depends on the rows of its user only. -/
theorem Call.act_only {action : Action} (hdb : s.worker.db.Owned)
    (howns : c.phase.owns = true → s.worker.db.ownerOf c.documentId = some c.userId) :
  c.act config hashtext (s.only c.userId) action = c.act config hashtext s action
  := by
  cases action with
  | advance => apply advance_only hdb howns
  | _ => rfl

end

end OcrService

/-! ### Runs -/

namespace OcrWorker

variable {config : OcrConfig} {unicode : Unicode} {s s' : State}

/-- The job of a process is there, once the process has claimed it. -/
def Processes (s : State) : Prop :=
  ∀ q ∈ s.processes.rows, q.phase.holds = true → ∃ job, s.db.ocrJobs.find q.jobId = some job

/-- A process holds its job only if it did before, or the job is there. -/
theorem find_of_holds {q : Process} {action : Action} {e : Effect}
    (hact : q.act config unicode s.db s.now action = some e)
    (hholds : (e.next (e.reply config s)).phase.holds = true) :
  q.phase.holds = true ∨ ∃ job, s.db.ocrJobs.find q.jobId = some job
  := by
  cases Process.act_acts hact with
  | quiet hbeat hkeep => exact .inl (hkeep hholds)
  | @claim job readAt attempt hphase hread =>
      right
      cases hreply : ((Write.claim q.jobId readAt).perform config.staleJobMs s.now s.db).2 with
      | false => simp [Effect.reply, hreply, Process.goTo, Phase.holds] at hholds
      | true =>
          obtain ⟨row, hrow, -⟩ := (Write.perform_reply _).mp hreply
          exact ⟨row, hrow⟩
  | heartbeat => exact .inl hholds
  | measure hphase | persist hphase | finalize hphase | cancel hphase =>
      left
      rw [hphase]
      rfl
  | fail hq | requeue hq => exact .inl hq

theorem exists_find_of_step {a : Label} (h : step config unicode s a = some s') {jobId : ℕ}
    (hjob : ∃ job, s.db.ocrJobs.find jobId = some job) :
  ∃ job, s'.db.ocrJobs.find jobId = some job
  := by
  obtain ⟨job, hfind⟩ := hjob
  exact ⟨_, find_of_step h hfind⟩

theorem Processes.step {a : Label} (hprocesses : Processes s)
    (h : step config unicode s a = some s') :
  Processes s'
  := by
  intro r hr hholds
  apply exists_find_of_step h
  cases processStep_of_step h hr with
  | acts hq ha hact hs' =>
      rcases find_of_holds hact hholds with hheld | hfound
      · apply hprocesses _ hq hheld
      · apply hfound
  | stays hq => apply hprocesses r hq hholds
  | delivered => cases hholds

/-- Steps of the worker system that insert no job leave jobs and pages with their owners. -/
theorem owned_of_step {a : Label} (hdb : s.db.Owned) (hprocesses : Processes s)
    (h : step config unicode s a = some s') (ha : a.createsJob = false) :
  s'.db.Owned ∧ ∀ id userId, s.db.ownerOf id = some userId → s'.db.ownerOf id = some userId
  := by
  obtain ⟨⟨f, hf, hrows⟩, howner⟩ := OcrService.keeps_of_worker_step h ha
  refine ⟨⟨?_, ?_⟩, howner⟩
  · intro job' hjob'
    rw [hrows] at hjob'
    obtain ⟨job, hjob, rfl⟩ := List.mem_map.mp hjob'
    rw [hf.documentId, hf.userId]
    apply howner
    apply hdb.jobs job hjob
  · intro page hpage
    apply exists_find_of_step h
    rcases page_of_step h hpage with hpage | ⟨q, hq, job, extracted, rest, -, hphase, rfl⟩
    · apply hdb.pages page hpage
    · apply hprocesses q hq
      rw [hphase]
      rfl

end OcrWorker

namespace OcrService

/-- The rows are with their owners, and every call that has looked its document up has found it to be
its user's. -/
structure Confined (s : State) : Prop where
  db : s.worker.db.Owned
  processes : OcrWorker.Processes s.worker
  calls : ∀ c ∈ s.calls.rows, c.phase.owns = true →
    s.worker.db.ownerOf c.documentId = some c.userId

section

variable {config : OcrConfig} {unicode : Unicode} {hashtext : ℕ → ℕ} {s s' : State}

theorem confined_init (h : (system config unicode hashtext).init s) :
  Confined s
  := by
  obtain ⟨⟨hjobs, hpages, hprocesses, -⟩, hcalls⟩ := h
  constructor
  · constructor
    · simp [hjobs]
    · simp [hpages]
  · simp [OcrWorker.Processes, hprocesses]
  · simp [hcalls]

/-- The owner of a document is found by the first statement of a call, and does not change. -/
theorem owner_of_act {c : Call} {action : Action} {e : Effect}
    (howns : c.phase.owns = true → s.worker.db.ownerOf c.documentId = some c.userId)
    (hact : c.act config hashtext s action = some e) (hphase : e.phase.owns = true) :
  s.worker.db.ownerOf c.documentId = some c.userId
  := by
  cases Call.act_acts hact with
  | ends | rejects | commits => cases hphase
  | owns hdocument =>
      obtain ⟨hfind, huser, -⟩ := DocumentsService.getOwned_eq_ok_iff.mp hdocument
      rw [Database.ownerOf, hfind, Option.map_some, huser]
  | goes hc =>
      apply howns
      rcases hc with hc | hc <;> rw [hc] <;> rfl
  | waits hc | locks hc | finds hc | counts hc | admits hc | inserts hc =>
      apply howns
      rw [hc]
      rfl

/-- What a call commits is a job of its user on the document of the call. -/
theorem commit_of_act {c : Call} {action : Action} {phase : Phase} {a : OcrWorker.Label}
    (hact : c.act config hashtext s action = some ⟨phase, some a⟩) :
  c.phase.owns = true ∧ (∃ result, phase = .returned result)
    ∧ ∃ id language createdAt, c.phase = .inserted id language createdAt
      ∧ a = .createJob id c.userId c.documentId language createdAt
  := by
  cases Call.act_acts hact with
  | commits hphase =>
      rw [hphase]
      exact ⟨rfl, ⟨_, rfl⟩, _, _, _, rfl, rfl⟩

theorem Confined.step {a : Label} (h : Confined s) (hstep : step config unicode hashtext s a = some s') :
  Confined s' ∧ ∀ id userId, s.worker.db.ownerOf id = some userId →
    s'.worker.db.ownerOf id = some userId
  := by
  have hcalls {c : Call} {action : Action} {phase : Phase} {commit : Option OcrWorker.Label}
      (hc : s.calls.find c.id = some c)
      (hact : c.act config hashtext s action = some ⟨phase, commit⟩) :
      ∀ c' ∈ (s.calls.put { c with phase }).rows, c'.phase.owns = true →
        s.worker.db.ownerOf c'.documentId = some c'.userId := by
    apply (Table.forall_put_iff h.calls).mpr
    exact owner_of_act (h.calls c (Table.mem_of_find hc)) hact
  cases labelStep_of_step hstep with
  | worker ha hworker =>
      obtain ⟨hdb, howner⟩ := OcrWorker.owned_of_step h.db h.processes hworker ha
      refine ⟨⟨hdb, h.processes.step hworker, ?_⟩, howner⟩
      intro c hc howns
      apply howner
      apply h.calls c hc howns
  | calls hcreate =>
      refine ⟨⟨h.db, h.processes, ?_⟩, fun _ _ howner => howner⟩
      apply Table.forall_create h.calls hcreate
      rintro ⟨⟩
  | goes hc hact => exact ⟨⟨h.db, h.processes, hcalls hc hact⟩, fun _ _ howner => howner⟩
  | commits hc hact hworker =>
      obtain ⟨howns, -, id, language, createdAt, -, rfl⟩ := commit_of_act hact
      have hprocesses := h.processes.step hworker
      cases OcrWorker.moves_of_step hworker with
      | creates hcreate =>
          refine ⟨⟨?_, hprocesses, hcalls hc hact⟩, fun _ _ howner => howner⟩
          apply h.db.create hcreate
          apply h.calls _ (Table.mem_of_find hc) howns

end

end OcrService

end DocuAI
