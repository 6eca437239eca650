import DocuAI.Ocr.Ownership
import DocuAI.Ocr.Requests
import Mathlib.Data.List.Pairwise

/-!
# The limits on jobs

The lock of a document serialises the calls on it, so that it never has two active jobs, nor more
jobs than it may: `retry` looks at the latest job only, and relies on every older one being terminal
(`OneActive`).  The limit on the active jobs of a user is checked under the same lock, which does not
exclude the calls of that user on other documents; it holds exactly in the runs in which every job is
committed while the check would still pass.
-/

namespace DocuAI

namespace OcrService

variable {config : OcrConfig} {unicode : Unicode} {hashtext : ℕ → ℕ}

/-! ### The jobs of a document -/

/-- The jobs of a document were created at increasing times. -/
def CreatedInOrder (db : Database) (documentId : ℕ) : Prop :=
  (db.jobsOf documentId).Pairwise fun older newer => older.createdAt < newer.createdAt

instance (db : Database) (documentId : ℕ) : Decidable (CreatedInOrder db documentId) :=
  inferInstanceAs (Decidable (List.Pairwise _ _))

/-- No job of the document is active. -/
def Clear (db : Database) (documentId : ℕ) : Prop :=
  ∀ job ∈ db.jobsOf documentId, job.status ∈ TERMINAL_OCR_STATUSES

/-- Changes that keep the jobs change those of a document one by one. -/
theorem jobsOf_map {db db' : Database} {f : OcrJob → OcrJob} (hf : Keeps f)
    (hrows : db'.ocrJobs.rows = db.ocrJobs.rows.map f) (documentId : ℕ) :
  db'.jobsOf documentId = (db.jobsOf documentId).map f
  := by
  unfold Database.jobsOf
  rw [hrows, List.filter_map]
  congr 2
  ext job
  simp [hf.documentId]

/-- A new job comes last. -/
theorem jobsOf_create {db : Database} {job : OcrJob} {ocrJobs : Table OcrJob.id}
    (h : db.ocrJobs.create job = some ocrJobs) (documentId : ℕ) :
  { db with ocrJobs }.jobsOf documentId
    = db.jobsOf documentId ++ if job.documentId = documentId then [job] else []
  := by
  unfold Database.jobsOf
  rw [Table.rows_of_create h, List.filter_append]
  congr 1
  simp [List.filter_cons]

/-- What is clear stays clear. -/
theorem Clear.map {db db' : Database} {f : OcrJob → OcrJob} (hf : Keeps f) {documentId : ℕ}
    (hjobs : db'.jobsOf documentId = (db.jobsOf documentId).map f) (h : Clear db documentId) :
  Clear db' documentId
  := by
  intro job hjob
  rw [hjobs, List.mem_map] at hjob
  obtain ⟨old, hold, rfl⟩ := hjob
  rw [hf.terminal old (h old hold)]
  apply h old hold

/-- When no job of a document is found active, none is. -/
theorem clear_of_activeForDocument {db : Database} {documentId : ℕ}
    (h : OcrJobService.activeForDocument db documentId = none) :
  Clear db documentId
  := by
  intro job hjob
  rw [OcrJobService.activeForDocument, OcrJobService.findLatest, List.argmax_eq_none,
    List.filter_eq_nil_iff] at h
  apply (mem_terminal_iff job.status).mpr
  simpa using h job hjob

/-- The invariant of the jobs of a document. -/
structure Chain (config : OcrConfig) (db : Database) (documentId : ℕ) : Prop where
  /-- Every job but the last is terminal. -/
  older : (db.jobsOf documentId).Pairwise fun older _ => older.status ∈ TERMINAL_OCR_STATUSES
  length_le : (db.jobsOf documentId).length ≤ config.limits.maxJobsPerDocument
  /-- The jobs belong to the owner of the document. -/
  owner : ∀ job ∈ db.jobsOf documentId, db.ownerOf documentId = some job.userId
  inOrder : CreatedInOrder db documentId

/-- When the latest job of a document is terminal, every one is. -/
theorem Chain.clear_of_latest {db : Database} {documentId userId : ℕ}
    (h : Chain config db documentId) (howner : db.ownerOf documentId = some userId)
    {latest : OcrJob}
    (hlatest : OcrJobService.latestForDocument db documentId userId = some latest)
    (hterminal : latest.status ∈ TERMINAL_OCR_STATUSES) :
  Clear db documentId
  := by
  have hall : (db.jobsOf documentId).filter (fun job => job.userId = userId)
      = db.jobsOf documentId := by
    apply List.filter_eq_self.mpr
    intro job hjob
    have huser := h.owner job hjob
    rw [howner] at huser
    exact decide_eq_true (Option.some.inj huser).symm
  rw [OcrJobService.latestForDocument, OcrJobService.findLatest, hall] at hlatest
  have hmem : latest ∈ db.jobsOf documentId := List.argmax_mem hlatest
  intro job hjob
  by_cases heq : job = latest
  · rw [heq]
    apply hterminal
  -- Of two different jobs the older one is terminal, and no job is newer than the latest.
  have hpair : (db.jobsOf documentId).Pairwise fun a b =>
      (a.createdAt < b.createdAt ∧ a.status ∈ TERMINAL_OCR_STATUSES)
        ∨ (b.createdAt < a.createdAt ∧ b.status ∈ TERMINAL_OCR_STATUSES) := by
    apply (List.Pairwise.and h.inOrder h.older).imp
    intro a b hab
    exact .inl hab
  have hsymm : Std.Symm fun a b : OcrJob =>
      (a.createdAt < b.createdAt ∧ a.status ∈ TERMINAL_OCR_STATUSES)
        ∨ (b.createdAt < a.createdAt ∧ b.status ∈ TERMINAL_OCR_STATUSES) :=
    ⟨fun _ _ => Or.symm⟩
  rcases hpair.forall hjob hmem heq with ⟨-, hjobTerminal⟩ | ⟨hnewer, -⟩
  · apply hjobTerminal
  · have hle := List.le_of_mem_argmax hjob hlatest
    have hlt : toLex (latest.createdAt, latest.id) < toLex (job.createdAt, job.id) :=
      Prod.Lex.toLex_lt_toLex.mpr (.inl hnewer)
    exact absurd hle (not_le_of_gt hlt)

/-! ### The invariant of the calls -/

/-- What the phase of a call on a document says about the document. -/
def Phase.Sound (config : OcrConfig) (db : Database) (documentId userId : ℕ) : Phase → Prop
  | .called | .returned _ | .rejected => True
  | .owned _ _ | .waiting _ | .locked _ => db.ownerOf documentId = some userId
  | .searching _ | .resolving _ | .counting _ | .counted _ =>
      db.ownerOf documentId = some userId ∧ Clear db documentId
  | .admitted _ | .inserted _ _ _ =>
      db.ownerOf documentId = some userId ∧ Clear db documentId
        ∧ (db.jobsOf documentId).length < config.limits.maxJobsPerDocument

/-- At most one call holds a lock. -/
def Exclusive (hashtext : ℕ → ℕ) (calls : Table Call.id) : Prop :=
  ∀ c ∈ calls.rows, ∀ c' ∈ calls.rows, c.phase.locks = true → c'.phase.locks = true →
    hashtext c.documentId = hashtext c'.documentId → c = c'

/-- The invariant of the jobs of a document and of the calls on it. -/
structure OneActive (config : OcrConfig) (hashtext : ℕ → ℕ) (documentId : ℕ) (s : State) : Prop where
  chain : Chain config s.worker.db documentId
  exclusive : Exclusive hashtext s.calls
  sound : ∀ c ∈ s.calls.rows, c.documentId = documentId →
    c.phase.Sound config s.worker.db documentId c.userId

/-- Changes that keep the jobs keep the chain of a document. -/
theorem Chain.map {db db' : Database} {f : OcrJob → OcrJob} (hf : Keeps f) {documentId : ℕ}
    (hjobs : db'.jobsOf documentId = (db.jobsOf documentId).map f)
    (howner : ∀ id userId, db.ownerOf id = some userId → db'.ownerOf id = some userId)
    (h : Chain config db documentId) :
  Chain config db' documentId
  := by
  constructor
  · rw [hjobs, List.pairwise_map]
    apply h.older.imp
    intro a b hterminal
    rw [hf.terminal a hterminal]
    apply hterminal
  · rw [hjobs, List.length_map]
    apply h.length_le
  · intro job hjob
    rw [hjobs, List.mem_map] at hjob
    obtain ⟨old, hold, rfl⟩ := hjob
    rw [hf.userId]
    apply howner
    apply h.owner old hold
  · rw [CreatedInOrder, hjobs, List.pairwise_map]
    apply h.inOrder.imp
    intro a b hlt
    rw [hf.createdAt, hf.createdAt]
    apply hlt

/-- Changes that keep the jobs keep a call sound. -/
theorem Phase.Sound.map {db db' : Database} {f : OcrJob → OcrJob} (hf : Keeps f)
    {documentId userId : ℕ} (hjobs : db'.jobsOf documentId = (db.jobsOf documentId).map f)
    (howner : ∀ id userId, db.ownerOf id = some userId → db'.ownerOf id = some userId)
    {phase : Phase} (h : phase.Sound config db documentId userId) :
  phase.Sound config db' documentId userId
  := by
  have hclear : Clear db documentId → Clear db' documentId := Clear.map hf hjobs
  have hlength : (db'.jobsOf documentId).length = (db.jobsOf documentId).length := by
    rw [hjobs, List.length_map]
  cases phase with
  | called => trivial
  | returned result => trivial
  | rejected => trivial
  | owned document dto => apply howner _ _ h
  | waiting goal => apply howner _ _ h
  | locked goal => apply howner _ _ h
  | searching language => exact ⟨howner _ _ h.1, hclear h.2⟩
  | resolving language => exact ⟨howner _ _ h.1, hclear h.2⟩
  | counting language => exact ⟨howner _ _ h.1, hclear h.2⟩
  | counted language => exact ⟨howner _ _ h.1, hclear h.2⟩
  | admitted language => exact ⟨howner _ _ h.1, hclear h.2.1, hlength ▸ h.2.2⟩
  | inserted id language createdAt => exact ⟨howner _ _ h.1, hclear h.2.1, hlength ▸ h.2.2⟩

/-- A call that has got past the first query under its lock found its document clear. -/
theorem sound_of_acts {s : State} {c : Call} {action : Action} {phase : Phase}
    (hchain : Chain config s.worker.db c.documentId)
    (hsound : c.phase.Sound config s.worker.db c.documentId c.userId)
    (hacts : c.Acts config hashtext s action ⟨phase, none⟩) :
  phase.Sound config s.worker.db c.documentId c.userId
  := by
  cases hacts with
  | ends => trivial
  | rejects => trivial
  | @owns document _ hdocument hphase =>
      obtain ⟨hfind, huser, -⟩ := DocumentsService.getOwned_eq_ok_iff.mp hdocument
      have howner : s.worker.db.ownerOf c.documentId = some c.userId := by
        rw [Database.ownerOf, hfind, Option.map_some, huser]
      rcases hphase with ⟨dto, rfl⟩ | rfl
      · apply howner
      · apply howner
  | waits hphase =>
      rw [hphase] at hsound
      apply hsound
  | locks hphase hfree =>
      rw [hphase] at hsound
      apply hsound
  | @finds _ _ language hphase hfound hnext =>
      rw [hphase] at hsound
      have hclear : Clear s.worker.db c.documentId := by
        rcases hfound with hnone | ⟨latest, hretryable, hlatest⟩
        · apply clear_of_activeForDocument hnone
        · apply hchain.clear_of_latest hsound hlatest
          revert hretryable
          cases latest.status <;> decide
      rcases hnext with rfl | rfl | rfl
      · exact ⟨hsound, hclear⟩
      · exact ⟨hsound, hclear⟩
      · exact ⟨hsound, hclear⟩
  | goes hphase =>
      rcases hphase with hphase | hphase
      · rw [hphase] at hsound
        apply hsound
      · rw [hphase] at hsound
        apply hsound
  | counts hphase hlt =>
      rw [hphase] at hsound
      apply hsound
  | admits hphase hlt =>
      rw [hphase] at hsound
      exact ⟨hsound.1, hsound.2, hlt⟩
  | inserts hphase =>
      rw [hphase] at hsound
      apply hsound

/-- A step of a call leaves it outside the lock, or finds the lock free, or held by the call. -/
theorem locks_of_acts {s : State} {c : Call} {action : Action} {e : Effect}
    (hacts : c.Acts config hashtext s action e) (hlocks : e.phase.locks = true) :
  c.phase.locks = true ∨ lockFree hashtext s.calls c.documentId
  := by
  cases hacts with
  | ends => cases hlocks
  | rejects => cases hlocks
  | owns hdocument hphase =>
      rcases hphase with ⟨dto, rfl⟩ | rfl
      · cases hlocks
      · cases hlocks
  | waits hphase => cases hlocks
  | locks hphase hfree => exact .inr hfree
  | finds hphase hfound hnext => exact .inl (by rw [hphase]; rfl)
  | goes hphase =>
      rcases hphase with hphase | hphase
      · exact .inl (by rw [hphase]; rfl)
      · exact .inl (by rw [hphase]; rfl)
  | counts hphase hlt => exact .inl (by rw [hphase]; rfl)
  | admits hphase hlt => exact .inl (by rw [hphase]; rfl)
  | inserts hphase => exact .inl (by rw [hphase]; rfl)
  | commits hphase haction => cases hlocks

/-- When a call that takes a lock has it already, or finds it free, locks stay exclusive. -/
theorem Exclusive.put {calls : Table Call.id} (h : Exclusive hashtext calls) {c : Call}
    (hc : calls.find c.id = some c) {phase : Phase}
    (hlocks : phase.locks = true → c.phase.locks = true ∨ lockFree hashtext calls c.documentId) :
  Exclusive hashtext (calls.put { c with phase })
  := by
  have hmem := Table.mem_of_find hc
  have hother : ∀ d ∈ calls.rows, d.id ≠ c.id → phase.locks = true → d.phase.locks = true →
      hashtext d.documentId ≠ hashtext c.documentId := by
    intro d hd hne hlocks' hdlocks heq
    rcases hlocks hlocks' with hcl | hfree
    · apply hne
      rw [h d hd c hmem hdlocks hcl heq]
    · apply hfree d hd hdlocks heq
  intro d hd d' hd' hdl hdl' heq
  rcases Table.mem_rows_put_iff.mp hd with rfl | ⟨hd, hne⟩
  · rcases Table.mem_rows_put_iff.mp hd' with rfl | ⟨hd', hne'⟩
    · rfl
    · exact absurd heq.symm (hother d' hd' hne' hdl hdl')
  · rcases Table.mem_rows_put_iff.mp hd' with rfl | ⟨hd', hne'⟩
    · exact absurd heq (hother d hd hne hdl' hdl)
    · apply h d hd d' hd' hdl hdl' heq

/-- A call outside the lock knows nothing but the owner of its document. -/
theorem Phase.Sound.of_not_locks {db db' : Database}
    (howner : ∀ id userId, db.ownerOf id = some userId → db'.ownerOf id = some userId)
    {documentId userId : ℕ} {phase : Phase} (hlocks : phase.locks = false)
    (h : phase.Sound config db documentId userId) :
  phase.Sound config db' documentId userId
  := by
  cases phase with
  | called => trivial
  | returned result => trivial
  | rejected => trivial
  | owned document dto => apply howner _ _ h
  | waiting goal => apply howner _ _ h
  | _ => cases hlocks

/-- A commit appends a QUEUED job to the terminal jobs of its document. -/
theorem Chain.commit {db : Database} {ocrJobs : Table OcrJob.id} {job : OcrJob}
    (hcreate : db.ocrJobs.create job = some ocrJobs) {documentId : ℕ}
    (h : Chain config db documentId)
    (hnew : job.documentId = documentId → db.ownerOf documentId = some job.userId
      ∧ Clear db documentId ∧ (db.jobsOf documentId).length < config.limits.maxJobsPerDocument)
    (hinOrder : CreatedInOrder { db with ocrJobs } documentId) :
  Chain config { db with ocrJobs } documentId
  := by
  have hjobs := jobsOf_create hcreate documentId
  by_cases hdocument : job.documentId = documentId
  · obtain ⟨howner, hclear, hlt⟩ := hnew hdocument
    rw [if_pos hdocument] at hjobs
    constructor
    · rw [hjobs, List.pairwise_append]
      refine ⟨h.older, List.pairwise_singleton _ _, ?_⟩
      intro older hmem newer _
      apply hclear older hmem
    · rw [hjobs, List.length_append]
      apply hlt
    · intro job' hjob'
      rw [hjobs, List.mem_append, List.mem_singleton] at hjob'
      rcases hjob' with hjob' | rfl
      · apply h.owner job' hjob'
      · apply howner
    · apply hinOrder
  · rw [if_neg hdocument, List.append_nil] at hjobs
    constructor
    · rw [hjobs]
      apply h.older
    · rw [hjobs]
      apply h.length_le
    · intro job' hjob'
      rw [hjobs] at hjob'
      apply h.owner job' hjob'
    · apply hinOrder

/-- Every step keeps the invariant, as long as jobs are created in order. -/
theorem oneActive_step {s s' : State} {a : Label} (hmoves : Moves config hashtext s a s')
    {documentId : ℕ}
    (hinOrder : CreatedInOrder s'.worker.db documentId) (h : OneActive config hashtext documentId s) :
  OneActive config hashtext documentId s'
  := by
  cases hmoves with
  | worker hf hrows howner =>
      have hjobs := jobsOf_map hf hrows documentId
      constructor
      · apply h.chain.map hf hjobs howner
      · apply h.exclusive
      · intro c hc hdocument
        apply Phase.Sound.map hf hjobs howner
        apply h.sound c hc hdocument
  | @call calls c hcalls hphase =>
      have hrows := Table.rows_of_create hcalls
      constructor
      · apply h.chain
      · intro d hd d' hd' hdl hdl' heq
        simp only [hrows, List.mem_append, List.mem_singleton] at hd hd'
        rcases hd with hd | rfl
        · rcases hd' with hd' | rfl
          · apply h.exclusive d hd d' hd' hdl hdl' heq
          · rw [hphase] at hdl'
            cases hdl'
        · rw [hphase] at hdl
          cases hdl
      · intro d hd hdocument
        simp only [hrows, List.mem_append, List.mem_singleton] at hd
        rcases hd with hd | rfl
        · apply h.sound d hd hdocument
        · rw [hphase]
          trivial
  | @quiet c _ phase hc hacts =>
      constructor
      · apply h.chain
      · apply h.exclusive.put hc
        apply locks_of_acts hacts
      · intro d hd hdocument
        rcases Table.mem_rows_put_iff.mp hd with rfl | ⟨hd, -⟩
        · obtain rfl : c.documentId = documentId := hdocument
          have hsound := h.sound c (Table.mem_of_find hc) rfl
          have hnext := sound_of_acts h.chain hsound hacts
          apply hnext
        · apply h.sound d hd hdocument
  | @commit c id language createdAt ocrJobs result hc ha hphase hcreate =>
      have hmem := Table.mem_of_find hc
      have howner : ∀ id userId, s.worker.db.ownerOf id = some userId →
          { s.worker.db with ocrJobs }.ownerOf id = some userId := fun _ _ howner => howner
      constructor
      · apply h.chain.commit hcreate _ hinOrder
        rintro rfl
        have hsound := h.sound c hmem rfl
        rw [hphase] at hsound
        apply hsound
      · apply h.exclusive.put hc
        rintro ⟨⟩
      · intro d hd hdocument
        rcases Table.mem_rows_put_iff.mp hd with rfl | ⟨hd, hne⟩
        · trivial
        · have hsound := h.sound d hd hdocument
          by_cases hsame : c.documentId = documentId
          · -- The lock of the document is with the call that commits.
            have hlocks : d.phase.locks = false := by
              by_contra hlocks
              apply hne
              have hcl : c.phase.locks = true := by
                rw [hphase]
                rfl
              have heq : hashtext d.documentId = hashtext c.documentId := by
                rw [hdocument, hsame]
              rw [h.exclusive d hd c hmem (Bool.not_eq_false _ ▸ hlocks) hcl heq]
            apply hsound.of_not_locks howner hlocks
          · have hother : (createdJob config id c.userId c.documentId language
                createdAt).documentId ≠ documentId := hsame
            have hjobs := jobsOf_create hcreate documentId
            rw [if_neg hother, List.append_nil, ← List.map_id (s.worker.db.jobsOf documentId)] at hjobs
            apply hsound.map Keeps.id hjobs howner

theorem oneActive_init {s : State} (hinit : (system config unicode hashtext).init s)
    (documentId : ℕ) :
  OneActive config hashtext documentId s
  := by
  obtain ⟨⟨hjobs, -⟩, hcalls⟩ := hinit
  have hnone : s.worker.db.jobsOf documentId = [] := by
    simp [Database.jobsOf, hjobs]
  constructor
  · constructor
    · simp [hnone]
    · simp [hnone]
    · simp [hnone]
    · simp [CreatedInOrder, hnone]
  · simp [Exclusive, hcalls]
  · simp [hcalls]

/-- Of the jobs of a document at most one is active. -/
theorem Chain.active_le_one {db : Database} {documentId : ℕ} (h : Chain config db documentId) :
  (db.jobsOf documentId).countP (fun job => job.status ∈ ACTIVE_OCR_STATUSES) ≤ 1
  := by
  rw [List.countP_eq_length_filter]
  have hpair := h.older.sublist
    (@List.filter_sublist _ (fun job => decide (job.status ∈ ACTIVE_OCR_STATUSES)) _)
  have hactive : ∀ job ∈ (db.jobsOf documentId).filter (fun job => job.status ∈ ACTIVE_OCR_STATUSES),
      job.status ∉ TERMINAL_OCR_STATUSES := by
    intro job hjob hterminal
    apply (mem_terminal_iff job.status).mp hterminal
    simpa using (List.mem_filter.mp hjob).2
  generalize (db.jobsOf documentId).filter (fun job => job.status ∈ ACTIVE_OCR_STATUSES) = active
    at hpair hactive
  match active, hpair, hactive with
  | [], _, _ => simp
  | [_], _, _ => simp
  | older :: newer :: rest, hpair, hactive =>
      have hterminal := (List.pairwise_cons.mp hpair).1 newer List.mem_cons_self
      exact absurd hterminal (hactive older List.mem_cons_self)

/-! ### A sample system -/

/-- A configuration with room for one active job of a user. -/
def sampleConfig : OcrConfig :=
  { OcrWorker.sampleConfig with
    limits := { OcrWorker.sampleConfig.limits with maxActiveJobsPerUser := 1 } }

/-- A user with two documents. -/
def sampleState : State where
  worker :=
    { OcrWorker.sampleState with
      db :=
        { OcrWorker.sampleState.db with
          documents := OcrWorker.sampleState.db.documents.put
            { OcrWorker.sampleDocument with id := 2, storageKey := some ⟨7, 2, 0⟩ } } }
  calls := .empty

/-- The call `k` requests the text of a document, up to the lock. -/
def sampleRequest (k documentId : ℕ) : List Label :=
  [.call k 7 documentId (.request ⟨none, none⟩), .step k .advance, .step k (.resolve [js "eng"])]

/-- The call `k` takes the lock and inserts the job `k`, having found no job of its language. -/
def sampleInsert (k createdAt : ℕ) : List Label :=
  [.step k .advance, .step k .advance, .step k .advance, .step k .advance, .step k .advance,
    .step k (.create k createdAt)]

/-- The first worker finds no stored file for the job `1`. -/
def sampleFailure : List OcrWorker.Label :=
  OcrWorker.sampleClaim 1 0
    ++ [.process 1 .advance, .process 1 (.download .missing), .process 1 .advance]

/-- Two requests for one document, of which the second waits for the first; the job fails, and a
retry creates another one. -/
def requestAndRetry : List Label :=
  sampleRequest 1 1 ++ sampleRequest 2 1 ++ sampleInsert 1 0
    ++ [.step 1 .advance, .step 2 .advance, .step 2 .advance, .worker (.deliver 1 1)]
    ++ sampleFailure.map .worker
    ++ [.call 3 7 1 .retry, .step 3 .advance, .step 3 .advance, .step 3 .advance,
      .step 3 (.resolve [js "eng"]), .step 3 .advance, .step 3 .advance, .step 3 (.create 3 5),
      .step 3 .advance]

/-- When the jobs of a document are created at increasing times, at most one of them is active, and
they are never more than the limit. -/
theorem one_active_job {s₀ s : State} {ts : List (Transition State Label)}
    (hrun : (system config unicode hashtext).Run s₀ ts s)
    (hinit : (system config unicode hashtext).init s₀) {documentId : ℕ}
    (hinOrder : ∀ t ∈ ts, CreatedInOrder t.target.worker.db documentId) :
  (s.worker.db.jobsOf documentId).countP
      (fun job => job.status = .QUEUED ∨ job.status = .PROCESSING) ≤ 1
    ∧ (s.worker.db.jobsOf documentId).length ≤ config.limits.maxJobsPerDocument
  := by
  have hinvariant : OneActive config hashtext documentId s := by
    apply hrun.invariant (oneActive_init hinit documentId)
    intro t ht hstep h
    apply oneActive_step (moves_of_step hstep) (hinOrder t ht) h
  constructor
  · have hactive := hinvariant.chain.active_le_one
    simpa [ACTIVE_OCR_STATUSES] using hactive
  · apply hinvariant.chain.length_le

/-- After a request and a retry the document has two jobs, of which one is active. -/
theorem one_active_job_of_requestAndRetry :
  ∃ s, (system sampleConfig asciiUnicode id).execute
      (fun t => decide (CreatedInOrder t.target.worker.db 1)) sampleState requestAndRetry = some s
    ∧ (s.worker.db.jobsOf 1).length = 2
    ∧ (s.worker.db.jobsOf 1).countP (fun job => job.status = .QUEUED ∨ job.status = .PROCESSING) ≤ 1
    ∧ (s.worker.db.jobsOf 1).length ≤ sampleConfig.limits.maxJobsPerDocument
  := by
  have hsome : ((system sampleConfig asciiUnicode id).execute
      (fun t => decide (CreatedInOrder t.target.worker.db 1)) sampleState requestAndRetry).any
        (fun s => decide ((s.worker.db.jobsOf 1).length = 2)) = true := by
    decide +kernel
  obtain ⟨s, hs, hlength⟩ := (Option.any_eq_true _ _).mp hsome
  obtain ⟨ts, hrun, hts⟩ := TransitionSystem.run_of_execute hs
  refine ⟨s, hs, of_decide_eq_true hlength, ?_⟩
  apply one_active_job hrun ⟨⟨rfl, rfl, rfl, rfl⟩, rfl⟩
  intro t ht
  exact of_decide_eq_true (hts t ht)

/-! ### The active jobs of a user -/

/-- The call is about to commit the job it inserted. -/
def Phase.commits : Phase → Bool
  | .inserted _ _ _ => true
  | _ => false

/-- A call of the user commits its job only while fewer jobs of the user are active than the limit
allows. -/
def CommitsWithinQuota (config : OcrConfig) (userId : ℕ) (t : Transition State Label) : Prop :=
  ∀ c ∈ t.source.calls.rows, c.userId = userId → c.phase.commits = true →
    t.label.advances c.id = true →
    OcrJobService.countActiveForUser t.source.worker.db userId < config.limits.maxActiveJobsPerUser

instance (config : OcrConfig) (userId : ℕ) (t : Transition State Label) :
    Decidable (CommitsWithinQuota config userId t) :=
  inferInstanceAs (Decidable (∀ c ∈ t.source.calls.rows, _))

/-- Changes that keep the jobs make no job active. -/
theorem countActive_map {db db' : Database} {f : OcrJob → OcrJob} (hf : Keeps f)
    (hrows : db'.ocrJobs.rows = db.ocrJobs.rows.map f) (userId : ℕ) :
  OcrJobService.countActiveForUser db' userId ≤ OcrJobService.countActiveForUser db userId
  := by
  unfold OcrJobService.countActiveForUser
  rw [hrows, List.countP_map]
  apply List.countP_mono_left
  intro job _ hactive
  simp only [Function.comp_apply, hf.userId, Bool.and_eq_true, decide_eq_true_eq] at hactive ⊢
  refine ⟨hactive.1, ?_⟩
  by_contra hne
  have hterminal := (mem_terminal_iff job.status).mpr hne
  rw [hf.terminal job hterminal] at hactive
  apply hne hactive.2

/-- A new job is one more active job of its user. -/
theorem countActive_create {db : Database} {id owner documentId createdAt : ℕ}
    {language : JsString} {ocrJobs : Table OcrJob.id}
    (h : db.ocrJobs.create (createdJob config id owner documentId language createdAt) = some ocrJobs)
    (userId : ℕ) :
  OcrJobService.countActiveForUser { db with ocrJobs } userId
    = OcrJobService.countActiveForUser db userId + if owner = userId then 1 else 0
  := by
  unfold OcrJobService.countActiveForUser
  rw [Table.rows_of_create h, List.countP_append, List.countP_singleton]
  by_cases huser : owner = userId
  · simp [createdJob, ACTIVE_OCR_STATUSES, huser]
  · simp [createdJob, huser]

/-- What the next statement of a call commits, when the call has inserted a job. -/
theorem countActive_commit {s s' : State} {c : Call} (hc : c ∈ s.calls.rows)
    (hcommits : c.phase.commits = true)
    (h : step config unicode hashtext s (.step c.id .advance) = some s') :
  OcrJobService.countActiveForUser s'.worker.db c.userId
    = OcrJobService.countActiveForUser s.worker.db c.userId + 1
  := by
  cases hphase : c.phase with
  | inserted id language createdAt =>
      obtain ⟨c', hc', h⟩ := Option.bind_eq_some_iff.mp h
      rw [Table.mem_rows_iff.mp hc] at hc'
      obtain rfl := Option.some.inj hc'
      obtain ⟨e, hact, h⟩ := Option.bind_eq_some_iff.mp h
      simp only [Call.act, Call.advance, hphase] at hact
      obtain rfl := Option.some.inj hact
      obtain ⟨worker, hworker, hs'⟩ := Option.bind_eq_some_iff.mp h
      obtain rfl := Option.some.inj hs'
      obtain ⟨ocrJobs, hcreate, hworker⟩ := Option.bind_eq_some_iff.mp hworker
      obtain rfl := Option.some.inj hworker
      have hcount := countActive_create hcreate c.userId
      rw [if_pos rfl] at hcount
      apply hcount
  | _ =>
      rw [hphase] at hcommits
      cases hcommits

theorem Label.eq_of_advances {callId : ℕ} {a : Label} (h : a.advances callId = true) :
  a = .step callId .advance
  := by
  unfold advances at h
  split at h
  · rw [of_decide_eq_true h]
  · cases h

/-- A step takes a user over the limit only by a commit. -/
theorem countActive_step {s s' : State} {a : Label}
    (h : step config unicode hashtext s a = some s') {userId : ℕ}
    (hwithin : CommitsWithinQuota config userId ⟨s, a, s'⟩)
    (hle : OcrJobService.countActiveForUser s.worker.db userId
      ≤ config.limits.maxActiveJobsPerUser) :
  OcrJobService.countActiveForUser s'.worker.db userId ≤ config.limits.maxActiveJobsPerUser
  := by
  cases moves_of_step h with
  | worker hf hrows howner => apply Nat.le_trans (countActive_map hf hrows userId) hle
  | call hcalls hphase => apply hle
  | quiet hc hacts => apply hle
  | @commit c id language createdAt ocrJobs result hc ha hphase hcreate =>
      have hcount := countActive_create hcreate userId
      apply Nat.le_trans (Nat.le_of_eq hcount)
      by_cases huser : c.userId = userId
      · rw [if_pos huser]
        apply hwithin c (Table.mem_of_find hc) huser (by rw [hphase]; rfl) ha
      · rw [if_neg huser]
        apply hle

/-- The active jobs of a user never exceed the limit in a run exactly when each call of the user
commits its job while the user has fewer active jobs than that. -/
theorem user_quota_iff {s₀ s : State} {ts : List (Transition State Label)}
    (hrun : (system config unicode hashtext).Run s₀ ts s)
    (hinit : (system config unicode hashtext).init s₀) {userId : ℕ} :
  (∀ t ∈ ts, OcrJobService.countActiveForUser t.target.worker.db userId
    ≤ config.limits.maxActiveJobsPerUser)
  ↔ ∀ t ∈ ts, CommitsWithinQuota config userId t
  := by
  constructor
  · rintro h t ht c hc rfl hcommits hadvances
    have hstep := hrun.step_of_mem ht
    rw [Label.eq_of_advances hadvances] at hstep
    have hcount := countActive_commit hc hcommits hstep
    have hle := h t ht
    omega
  · intro h t ht
    have hnone : OcrJobService.countActiveForUser s₀.worker.db userId
        ≤ config.limits.maxActiveJobsPerUser := by
      simp [OcrJobService.countActiveForUser, hinit.1.1]
    have hsource := hrun.invariant_source (fun s => OcrJobService.countActiveForUser s.worker.db userId
      ≤ config.limits.maxActiveJobsPerUser) hnone
      (fun t' ht' hstep hle => countActive_step hstep (h t' ht') hle) ht
    exact countActive_step (hrun.step_of_mem ht) (h t ht) hsource

/-- In the run of a request and a retry the user stays within the limit of one active job. -/
theorem user_quota_of_requestAndRetry :
  ∃ ts s, (system sampleConfig asciiUnicode id).Run sampleState ts s
    ∧ OcrJobService.countActiveForUser s.worker.db 7 = 1
    ∧ ∀ t ∈ ts, OcrJobService.countActiveForUser t.target.worker.db 7
      ≤ sampleConfig.limits.maxActiveJobsPerUser
  := by
  have hsome : ((system sampleConfig asciiUnicode id).execute
      (fun t => decide (CommitsWithinQuota sampleConfig 7 t)) sampleState requestAndRetry).any
        (fun s => decide (OcrJobService.countActiveForUser s.worker.db 7 = 1)) = true := by
    decide +kernel
  obtain ⟨s, hs, hcount⟩ := (Option.any_eq_true _ _).mp hsome
  obtain ⟨ts, hrun, hts⟩ := TransitionSystem.run_of_execute hs
  refine ⟨ts, s, hrun, of_decide_eq_true hcount, ?_⟩
  apply (user_quota_iff hrun ⟨⟨rfl, rfl, rfl, rfl⟩, rfl⟩).mpr
  intro t ht
  exact of_decide_eq_true (hts t ht)

/-- Two requests for two documents of one user, each of which counts the active jobs before the
other commits. -/
def overlappingRequests : List Label :=
  sampleRequest 1 1 ++ sampleRequest 2 2 ++ sampleInsert 1 0 ++ sampleInsert 2 0
    ++ [.step 1 .advance, .step 2 .advance]

/-- Overlapping requests take a user over the limit. -/
theorem overlapping_requests_exceed_quota :
  ∃ ts s, (system sampleConfig asciiUnicode id).init sampleState
    ∧ (system sampleConfig asciiUnicode id).Run sampleState ts s
    ∧ sampleConfig.limits.maxActiveJobsPerUser < OcrJobService.countActiveForUser s.worker.db 7
  := by
  have hsome : ((system sampleConfig asciiUnicode id).execute (fun _ => true) sampleState
      overlappingRequests).any (fun s => decide (sampleConfig.limits.maxActiveJobsPerUser
        < OcrJobService.countActiveForUser s.worker.db 7)) = true := by
    decide +kernel
  obtain ⟨s, hs, hcount⟩ := (Option.any_eq_true _ _).mp hsome
  obtain ⟨ts, hrun, -⟩ := TransitionSystem.run_of_execute hs
  exact ⟨ts, s, ⟨⟨rfl, rfl, rfl, rfl⟩, rfl⟩, hrun, of_decide_eq_true hcount⟩

end OcrService

end DocuAI
