import DocuAI.Library.Window
import DocuAI.Ocr.Worker

/-!
# The queue and a pass of the reconciler

The queue schedules work and knows nothing that the rows of the jobs do not know.  Its entries are
keyed by the ids of the jobs: adding an id that exists changes nothing, and an entry that will not
be delivered can be removed.  `reconcile` makes the queue match the rows, undisturbed and with the
clock standing still.
-/

namespace DocuAI

/-- The states of a queue entry. -/
inductive EntryState where
  | waiting
  | active
  | delayed
  | prioritized
  | waitingChildren
  | completed
  | failed
  | unknown
  deriving DecidableEq

structure QueueEntry where
  id : ℕ
  state : EntryState
  deriving DecidableEq

/-- The states in which an entry will still be delivered. -/
def PENDING_STATES : List EntryState :=
  [.waiting, .active, .delayed, .prioritized, .waitingChildren]

namespace OcrQueueService

variable (queue : Table QueueEntry.id) (ocrJobId : ℕ)

/-- Schedules a persisted job. -/
def enqueue : Table QueueEntry.id :=
  match queue.find ocrJobId with
  | some _ => queue
  | none => queue.put ⟨ocrJobId, .waiting⟩

/-- An entry for the job exists and will still be delivered. -/
def isPending : Bool :=
  (queue.find ocrJobId).any fun entry => decide (entry.state ∈ PENDING_STATES)

/-- Removes a finished or orphaned entry so the id can be re-added. -/
def removeStaleEntry : Table QueueEntry.id :=
  match queue.find ocrJobId with
  | none => queue
  | some entry => if entry.state ∈ PENDING_STATES then queue else queue.erase ocrJobId

/-- A job whose stale entry is removed before it is scheduled is pending, and every other job is
pending as before. -/
theorem isPending_enqueue (id : ℕ) :
  isPending (enqueue (removeStaleEntry queue ocrJobId) ocrJobId) id
    = (decide (id = ocrJobId) || isPending queue id)
  := by
  have hput : ∀ q : Table QueueEntry.id, (∀ k ≠ ocrJobId, q.find k = queue.find k) →
      isPending (q.put ⟨ocrJobId, .waiting⟩) id = (decide (id = ocrJobId) || isPending queue id) := by
    intro q hq
    unfold isPending
    rw [Table.find_put]
    by_cases hid : id = ocrJobId
    · simp [hid, PENDING_STATES]
    · simp [hid, hq id hid]
  unfold removeStaleEntry
  cases hfind : queue.find ocrJobId with
  | none =>
      simp only [enqueue, hfind]
      apply hput
      intro k _
      rfl
  | some entry =>
      simp only
      split
      · rename_i hpending
        simp only [enqueue, hfind]
        by_cases hid : id = ocrJobId
        · subst hid
          simp [isPending, hfind, hpending]
        · simp [hid]
      · have hnone : (queue.erase ocrJobId).find ocrJobId = none := by
          rw [Table.find_erase, if_pos rfl]
        simp only [enqueue, hnone]
        apply hput
        intro k hk
        rw [Table.find_erase, if_neg hk]

end OcrQueueService

/-- The QUEUED jobs, oldest first and at most 500 of them. -/
def OcrJobService.findQueued (db : Database) : List OcrJob :=
  let queued := db.ocrJobs.rows.filter fun job => job.status = .QUEUED
  (queued.insertionSort fun a b => a.createdAt ≤ b.createdAt).take 500

namespace OcrWorker

open OcrQueueService

/-- What a pass of the reconciler works on. -/
structure Stores where
  db : Database
  queue : Table QueueEntry.id

/-- What a pass of the reconciler reports. -/
structure ReconcileSummary where
  enqueued : ℕ
  recovered : ℕ
  failed : ℕ
  deriving DecidableEq

section

variable (config : OcrConfig) (now : ℕ)

/-- The first loop of `reconcile`: a stale job is failed when it is out of attempts, and otherwise
reset to QUEUED and enqueued. -/
def reconcileStale (pass : Stores × ReconcileSummary) (job : OcrJob) : Stores × ReconcileSummary :=
  let (stores, summary) := pass
  if job.maxAttempts ≤ job.attemptCount then
    let failed := OcrJobService.fail stores.db job.id now .OCR_WORKER_INTERRUPTED attemptsExhausted
    ({ stores with db := failed.1 },
      if failed.2 then { summary with failed := summary.failed + 1 } else summary)
  else
    let recovered := OcrJobService.recover stores.db job.id now config.staleJobMs now
    if recovered.2 then
      ({ db := recovered.1, queue := enqueue (removeStaleEntry stores.queue job.id) job.id },
        { summary with recovered := summary.recovered + 1 })
    else ({ stores with db := recovered.1 }, summary)

/-- The second loop of `reconcile`: a QUEUED job without a pending entry is enqueued. -/
def reconcileQueued (pass : Stores × ReconcileSummary) (job : OcrJob) : Stores × ReconcileSummary :=
  let (stores, summary) := pass
  if isPending stores.queue job.id then pass
  else
    ({ stores with queue := enqueue (removeStaleEntry stores.queue job.id) job.id },
      { summary with enqueued := summary.enqueued + 1 })

/-- A pass of the reconciler. -/
def reconcile (stores : Stores) : Stores × ReconcileSummary :=
  let treated := (OcrJobService.findStaleProcessing stores.db config.staleJobMs now).foldl
    (reconcileStale config now) (stores, ⟨0, 0, 0⟩)
  (OcrJobService.findQueued treated.1.db).foldl reconcileQueued treated

end

end OcrWorker

end DocuAI
