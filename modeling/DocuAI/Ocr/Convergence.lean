import DocuAI.Ocr.Ownership
import DocuAI.Ocr.Queue

/-!
# Whether reconciliation converges

Repeated passes of the reconciler leave no stale job behind: the ones a pass has treated leave its
window.  QUEUED jobs do not leave it.  A job without a queue entry that is not among the oldest 500
by the end of the first loop of the first pass stays without one forever (`Starved`), since the
jobs before it only become more.
-/

namespace DocuAI

namespace OcrWorker

open OcrQueueService

section

variable (config : OcrConfig) (now : ℕ)

/-- The job is PROCESSING with a stale heartbeat. -/
def needsRecovery (job : OcrJob) : Bool :=
  job.status = .PROCESSING && job.isStale config.staleJobMs now

/-- The stale jobs a pass looks at: the oldest 500. -/
def seenStale (stores : Stores) : List OcrJob :=
  window OcrJob.createdAt 500 (stores.db.ocrJobs.rows.filter (needsRecovery config now))

/-- The stale jobs a pass looks at that have an attempt left. -/
def seenRecoverable (stores : Stores) : List OcrJob :=
  (seenStale config now stores).filter fun job => job.attemptCount < job.maxAttempts

/-- The jobs that are QUEUED, or will be once the first loop of a pass is through. -/
def backlog (stores : Stores) : List OcrJob :=
  stores.db.ocrJobs.rows.filter fun job =>
    job.status = .QUEUED || decide (job ∈ seenRecoverable config now stores)

/-- Every QUEUED job without a pending queue entry is among the oldest 500 of the backlog. -/
def OrphansInSight (stores : Stores) : Prop :=
  ∀ job ∈ stores.db.ocrJobs.rows, job.status = .QUEUED →
    isPending stores.queue job.id = false →
      job ∈ window OcrJob.createdAt 500 (backlog config now stores)

/-- Every QUEUED job has a pending queue entry. -/
def AllPending (stores : Stores) : Prop :=
  ∀ job ∈ stores.db.ocrJobs.rows, job.status = .QUEUED → isPending stores.queue job.id = true

/-- No PROCESSING job with a stale heartbeat remains. -/
def NoneStale (stores : Stores) : Prop :=
  ∀ job ∈ stores.db.ocrJobs.rows, needsRecovery config now job = false

/-- The stores after a pass of the reconciler. -/
def pass (stores : Stores) : Stores :=
  (reconcile config now stores).1

/-- After finitely many passes every QUEUED job has a pending queue entry, no stale job remains, and
further passes change nothing. -/
def Converges (stores : Stores) : Prop :=
  ∃ n, AllPending ((pass config now)^[n] stores) ∧ NoneStale config now ((pass config now)^[n] stores)
    ∧ ∀ m, n ≤ m → (pass config now)^[m] stores = (pass config now)^[n] stores

/-! ### The first loop -/

/-- What the first loop makes of a stale job. -/
def treated (job : OcrJob) : OcrJob :=
  if job.maxAttempts ≤ job.attemptCount then
    (OcrJobService.endUpdate .FAILED .OCR_WORKER_INTERRUPTED attemptsExhausted now).data job
  else (OcrJobService.recoverUpdate config.staleJobMs now now).data job

/-- What the first loop makes of a row, when it has seen the given jobs. -/
def treatedIn (seen : List OcrJob) (job : OcrJob) : OcrJob :=
  if job.id ∈ seen.map OcrJob.id then treated config now job else job

end

variable {config : OcrConfig} {now : ℕ}

@[simp]
theorem treated_id (job : OcrJob) :
  (treated config now job).id = job.id
  := by
  unfold treated
  split <;> rfl

@[simp]
theorem treatedIn_id (seen : List OcrJob) (job : OcrJob) :
  (treatedIn config now seen job).id = job.id
  := by
  unfold treatedIn
  split
  · apply treated_id
  · rfl

theorem treatedIn_createdAt (seen : List OcrJob) (job : OcrJob) :
  (treatedIn config now seen job).createdAt = job.createdAt
  := by
  unfold treatedIn treated
  split
  · split <;> rfl
  · rfl

/-- A treated job is QUEUED exactly when it had an attempt left. -/
theorem treated_status (job : OcrJob) :
  (treated config now job).status
    = if job.maxAttempts ≤ job.attemptCount then .FAILED else .QUEUED
  := by
  unfold treated
  split <;> rfl

/-- Two rows of a table with one id are one row. -/
theorem eq_of_id {db : Database} {job other : OcrJob} (hjob : job ∈ db.ocrJobs.rows)
    (hother : other ∈ db.ocrJobs.rows) (hid : job.id = other.id) :
  job = other
  := by
  have hfind := Table.mem_rows_iff.mp hjob
  rw [show OcrJob.id job = other.id from hid, Table.mem_rows_iff.mp hother] at hfind
  exact (Option.some.inj hfind).symm

/-- A row is changed by the update at its key if the guard admits it, and the others are not. -/
theorem rows_updateJob {db : Database} {u : Update OcrJob.id} {job : OcrJob}
    (hjob : job ∈ db.ocrJobs.rows) (hguard : u.guard job = true) :
  (db.updateJob job.id u).1.ocrJobs.rows
    = db.ocrJobs.rows.map fun r => if r.id = job.id then u.data r else r
  := by
  apply List.map_congr_left
  intro r hr
  rw [Update.on_apply]
  split
  · rename_i hid
    rw [eq_of_id hr hjob hid, u.apply_of_guard hguard]
  · rfl

/-- One round of the first loop, for a stale job. -/
theorem reconcileStale_of_stale {p : Stores × ReconcileSummary} {job : OcrJob}
    (hjob : job ∈ p.1.db.ocrJobs.rows) (hstale : needsRecovery config now job = true) :
  (reconcileStale config now p job).1.db.ocrJobs.rows
    = p.1.db.ocrJobs.rows.map (fun r => if r.id = job.id then treated config now r else r)
  ∧ ∀ id, isPending (reconcileStale config now p job).1.queue id
    = (decide (id = job.id ∧ job.attemptCount < job.maxAttempts) || isPending p.1.queue id)
  := by
  obtain ⟨stores, summary⟩ := p
  simp only at hjob
  have hprocessing : job.status = .PROCESSING := by
    simp only [needsRecovery, Bool.and_eq_true, decide_eq_true_eq] at hstale
    apply hstale.1
  unfold reconcileStale
  simp only
  split
  · rename_i hattempts
    constructor
    · simp only [OcrJobService.fail]
      rw [rows_updateJob hjob]
      · apply List.map_congr_left
        intro r hr
        split
        · rename_i hid
          rw [eq_of_id hr hjob hid, treated, if_pos hattempts]
        · rfl
      · simp [OcrJobService.endUpdate, hprocessing, ACTIVE_OCR_STATUSES]
    · intro id
      have hnot : ¬(id = job.id ∧ job.attemptCount < job.maxAttempts) := by omega
      simp [hnot]
  · rename_i hattempts
    have hguard : (OcrJobService.recoverUpdate config.staleJobMs now now).guard job = true := hstale
    have hreply : (OcrJobService.recover stores.db job.id now config.staleJobMs now).2 = true := by
      apply Database.updateJob_reply.mpr
      exact ⟨job, Table.mem_rows_iff.mp hjob, hguard⟩
    rw [if_pos hreply]
    constructor
    · simp only [OcrJobService.recover]
      rw [rows_updateJob hjob hguard]
      apply List.map_congr_left
      intro r hr
      split
      · rename_i hid
        rw [eq_of_id hr hjob hid, treated, if_neg hattempts]
      · rfl
    · intro id
      simp only
      rw [isPending_enqueue]
      congr 1
      simp
      omega

/-- The first loop treats the jobs it has seen, and leaves those with an attempt left pending. -/
theorem foldl_reconcileStale {seen : List OcrJob} {p : Stores × ReconcileSummary}
    (hseen : ∀ job ∈ seen, job ∈ p.1.db.ocrJobs.rows ∧ needsRecovery config now job = true)
    (hnodup : (seen.map OcrJob.id).Nodup) :
  (seen.foldl (reconcileStale config now) p).1.db.ocrJobs.rows
    = p.1.db.ocrJobs.rows.map (treatedIn config now seen)
  ∧ ∀ id, isPending (seen.foldl (reconcileStale config now) p).1.queue id
    = (decide (id ∈ (seen.filter fun job => job.attemptCount < job.maxAttempts).map OcrJob.id)
      || isPending p.1.queue id)
  := by
  induction seen generalizing p with
  | nil =>
      have hnone : treatedIn config now [] = id := by
        funext job
        simp [treatedIn]
      constructor
      · rw [hnone, List.map_id]
        rfl
      · simp
  | cons job seen ih =>
      rw [List.map_cons, List.nodup_cons] at hnodup
      obtain ⟨hnew, hnodup⟩ := hnodup
      obtain ⟨hjob, hstale⟩ := hseen job List.mem_cons_self
      obtain ⟨hrows, hpending⟩ := reconcileStale_of_stale hjob hstale
      have hrest : ∀ other ∈ seen, other ∈ (reconcileStale config now p job).1.db.ocrJobs.rows
          ∧ needsRecovery config now other = true := by
        intro other hother
        obtain ⟨hmem, hotherStale⟩ := hseen other (List.mem_cons_of_mem _ hother)
        refine ⟨?_, hotherStale⟩
        rw [hrows, List.mem_map]
        refine ⟨other, hmem, ?_⟩
        rw [if_neg]
        intro hid
        apply hnew
        rw [← hid]
        apply List.mem_map_of_mem hother
      obtain ⟨hrows', hpending'⟩ := ih hrest hnodup
      rw [List.foldl_cons]
      constructor
      · rw [hrows', hrows, List.map_map]
        apply List.map_congr_left
        intro r _
        simp only [Function.comp_apply, treatedIn, List.map_cons, List.mem_cons]
        by_cases hid : r.id = job.id
        · simp only [hid, treated_id, if_neg hnew, true_or, if_true]
        · rw [if_neg hid]
          simp [hid]
      · intro id
        rw [hpending', hpending, List.filter_cons]
        split
        · rename_i hleft
          simp only [decide_eq_true_eq] at hleft
          rw [← Bool.or_assoc, ← Bool.decide_or]
          congr 1
          simp only [hleft, and_true, List.map_cons, List.mem_cons, decide_eq_decide]
          apply or_comm
        · rename_i hleft
          simp only [decide_eq_true_eq] at hleft
          simp [hleft]

/-! ### A pass -/

/-- The second loop changes no row, and leaves the jobs it looks at pending. -/
theorem foldl_reconcileQueued {queued : List OcrJob} {p : Stores × ReconcileSummary} :
  (queued.foldl reconcileQueued p).1.db = p.1.db
  ∧ ∀ id, isPending (queued.foldl reconcileQueued p).1.queue id
    = (decide (id ∈ queued.map OcrJob.id) || isPending p.1.queue id)
  := by
  induction queued generalizing p with
  | nil => simp
  | cons job queued ih =>
      obtain ⟨hdb, hpending⟩ := ih (p := reconcileQueued p job)
      have hround : (reconcileQueued p job).1.db = p.1.db
          ∧ ∀ id, isPending (reconcileQueued p job).1.queue id
            = (decide (id = job.id) || isPending p.1.queue id) := by
        obtain ⟨stores, summary⟩ := p
        by_cases hjob : isPending stores.queue job.id = true
        · simp only [reconcileQueued, if_pos hjob]
          refine ⟨trivial, fun id => ?_⟩
          by_cases hid : id = job.id
          · subst hid
            simp [hjob]
          · simp [hid]
        · simp only [reconcileQueued, if_neg hjob]
          exact ⟨trivial, fun id => isPending_enqueue _ _ id⟩
      rw [List.foldl_cons]
      refine ⟨hdb.trans hround.1, fun id => ?_⟩
      rw [hpending, hround.2, ← Bool.or_assoc, ← Bool.decide_or]
      congr 1
      simp only [List.map_cons, List.mem_cons, decide_eq_decide]
      apply or_comm

section

variable {stores : Stores}

theorem mem_seenStale {job : OcrJob} (h : job ∈ seenStale config now stores) :
  job ∈ stores.db.ocrJobs.rows ∧ needsRecovery config now job = true
  := List.mem_filter.mp (mem_of_mem_window h)

/-- A row is seen when its id is. -/
theorem mem_seenStale_of_id {job : OcrJob} (hjob : job ∈ stores.db.ocrJobs.rows)
    (h : job.id ∈ (seenStale config now stores).map OcrJob.id) :
  job ∈ seenStale config now stores
  := by
  obtain ⟨other, hother, hid⟩ := List.mem_map.mp h
  rwa [← eq_of_id (mem_seenStale hother).1 hjob hid]

/-- The first loop of a pass. -/
theorem firstLoop :
  ((seenStale config now stores).foldl (reconcileStale config now) (stores, ⟨0, 0, 0⟩)).1.db.ocrJobs.rows
    = stores.db.ocrJobs.rows.map (treatedIn config now (seenStale config now stores))
  ∧ ∀ id, isPending
      ((seenStale config now stores).foldl (reconcileStale config now) (stores, ⟨0, 0, 0⟩)).1.queue id
    = (decide (id ∈ (seenRecoverable config now stores).map OcrJob.id)
      || isPending stores.queue id)
  := by
  apply foldl_reconcileStale
  · apply mem_seenStale
  · apply nodup_map_window
    apply List.Nodup.sublist _ stores.db.ocrJobs.nodup
    apply List.filter_sublist.map OcrJob.id

/-- The backlog is what is QUEUED after the first loop. -/
theorem filter_queued_treatedIn :
  (stores.db.ocrJobs.rows.map (treatedIn config now (seenStale config now stores))).filter
      (fun job => job.status = .QUEUED)
    = (backlog config now stores).map (treatedIn config now (seenStale config now stores))
  := by
  rw [List.filter_map, backlog]
  congr 1
  apply List.filter_congr
  intro job hjob
  simp only [Function.comp_apply, treatedIn]
  by_cases hid : job.id ∈ (seenStale config now stores).map OcrJob.id
  · have hseen := mem_seenStale_of_id hjob hid
    have hprocessing : job.status = .PROCESSING := by
      have hstale := (mem_seenStale hseen).2
      simp only [needsRecovery, Bool.and_eq_true, decide_eq_true_eq] at hstale
      apply hstale.1
    simp only [if_pos hid, treated_status]
    by_cases hattempts : job.maxAttempts ≤ job.attemptCount
    · simp [hattempts, hprocessing, seenRecoverable, Nat.not_lt.mpr hattempts]
    · simp [hattempts, hprocessing, seenRecoverable, Nat.lt_of_not_le hattempts, hseen]
  · have hunseen : job ∉ seenRecoverable config now stores := by
      intro hmem
      apply hid
      apply List.mem_map_of_mem (List.mem_of_mem_filter hmem)
    simp [hid, hunseen]

/-- The rows after a pass. -/
theorem rows_pass :
  (pass config now stores).db.ocrJobs.rows
    = stores.db.ocrJobs.rows.map (treatedIn config now (seenStale config now stores))
  := by
  unfold pass reconcile
  simp only
  rw [foldl_reconcileQueued.1]
  apply firstLoop.1

/-- The pending jobs after a pass: the ones it has recovered, and the oldest 500 of the backlog. -/
theorem isPending_pass (id : ℕ) :
  isPending (pass config now stores).queue id
    = (decide (id ∈ (window OcrJob.createdAt 500 (backlog config now stores)).map OcrJob.id)
      || (decide (id ∈ (seenRecoverable config now stores).map OcrJob.id)
        || isPending stores.queue id))
  := by
  unfold pass reconcile
  simp only
  rw [foldl_reconcileQueued.2]
  congr 1
  · have hqueued : OcrJobService.findQueued ((OcrJobService.findStaleProcessing stores.db
        config.staleJobMs now).foldl (reconcileStale config now) (stores, ⟨0, 0, 0⟩)).1.db
          = (window OcrJob.createdAt 500 (backlog config now stores)).map
            (treatedIn config now (seenStale config now stores)) := by
      rw [← window_map _ fun job _ => treatedIn_createdAt _ job, ← filter_queued_treatedIn,
        ← firstLoop.1]
      rfl
    rw [hqueued, List.map_map]
    have hids : OcrJob.id ∘ treatedIn config now (seenStale config now stores) = OcrJob.id := by
      funext job
      apply treatedIn_id
    rw [hids]
  · apply firstLoop.2

end

/-! ### Converging -/

/-- A pass after which every orphan of the backlog was in sight leaves every QUEUED job pending. -/
theorem allPending_pass {stores : Stores} (h : OrphansInSight config now stores) :
  AllPending (pass config now stores)
  := by
  intro job' hjob' hqueued
  rw [rows_pass, List.mem_map] at hjob'
  obtain ⟨job, hjob, rfl⟩ := hjob'
  rw [isPending_pass, treatedIn_id]
  simp only [Bool.or_eq_true, decide_eq_true_eq]
  by_cases hid : job.id ∈ (seenStale config now stores).map OcrJob.id
  · right
    left
    apply List.mem_map_of_mem
    simp only [treatedIn, if_pos hid, treated_status] at hqueued
    split at hqueued
    · cases hqueued
    · rename_i hattempts
      apply List.mem_filter.mpr
      exact ⟨mem_seenStale_of_id hjob hid, by simpa using hattempts⟩
  · rw [treatedIn, if_neg hid] at hqueued
    cases hpending : isPending stores.queue job.id with
    | true => exact .inr (.inr rfl)
    | false =>
        left
        apply List.mem_map_of_mem
        apply h job hjob hqueued hpending

theorem orphansInSight_of_allPending {stores : Stores} (h : AllPending stores) :
  OrphansInSight config now stores
  := by
  intro job hjob hqueued hpending
  rw [h job hjob hqueued] at hpending
  cases hpending

/-- A pass leaves fewer stale jobs, if there are any. -/
theorem stale_pass_lt {stores : Stores} (h : ¬NoneStale config now stores) :
  ((pass config now stores).db.ocrJobs.rows.filter (needsRecovery config now)).length
    < (stores.db.ocrJobs.rows.filter (needsRecovery config now)).length
  := by
  obtain ⟨first, hfirst⟩ : ∃ job, job ∈ seenStale config now stores := by
    apply List.exists_mem_of_ne_nil
    intro hnil
    apply h
    intro job hjob
    have hnone := window_eq_nil hnil
    rw [List.filter_eq_nil_iff] at hnone
    simpa using hnone job hjob
  have htreated : ∀ job ∈ stores.db.ocrJobs.rows,
      job.id ∈ (seenStale config now stores).map OcrJob.id →
        needsRecovery config now (treatedIn config now (seenStale config now stores) job) = false := by
    intro job _ hid
    simp only [needsRecovery, treatedIn, if_pos hid, treated_status]
    split
    · rfl
    · rfl
  have hkept : ∀ job ∈ stores.db.ocrJobs.rows,
      needsRecovery config now (treatedIn config now (seenStale config now stores) job) = true →
        needsRecovery config now job = true := by
    intro job hjob hstale
    by_cases hid : job.id ∈ (seenStale config now stores).map OcrJob.id
    · rw [htreated job hjob hid] at hstale
      cases hstale
    · rwa [treatedIn, if_neg hid] at hstale
  rw [rows_pass, List.filter_map, List.length_map]
  have hfilter : stores.db.ocrJobs.rows.filter
      (needsRecovery config now ∘ treatedIn config now (seenStale config now stores))
        = (stores.db.ocrJobs.rows.filter (needsRecovery config now)).filter
          (needsRecovery config now ∘ treatedIn config now (seenStale config now stores)) := by
    rw [List.filter_filter]
    apply List.filter_congr
    intro job hjob
    rw [Bool.eq_iff_iff, Bool.and_eq_true]
    exact ⟨fun hstale => ⟨hstale, hkept job hjob hstale⟩, fun hstale => hstale.1⟩
  rw [hfilter, List.length_filter_lt_length_iff_exists]
  obtain ⟨hmem, hstale⟩ := mem_seenStale hfirst
  refine ⟨first, List.mem_filter.mpr ⟨hmem, hstale⟩, ?_⟩
  rw [Function.comp_apply, htreated first hmem (List.mem_map_of_mem hfirst)]
  decide

/-- Where nothing is left to do a pass does nothing, and says so. -/
theorem reconcile_of_settled {stores : Stores} (hpending : AllPending stores)
    (hstale : NoneStale config now stores) :
  reconcile config now stores = (stores, ⟨0, 0, 0⟩)
  := by
  have hnone : OcrJobService.findStaleProcessing stores.db config.staleJobMs now = [] := by
    have hfilter : stores.db.ocrJobs.rows.filter (needsRecovery config now) = [] := by
      rw [List.filter_eq_nil_iff]
      intro job hjob
      simp [hstale job hjob]
    change window OcrJob.createdAt 500 (stores.db.ocrJobs.rows.filter (needsRecovery config now)) = []
    rw [hfilter]
    rfl
  have hskip : ∀ (queued : List OcrJob) (p : Stores × ReconcileSummary),
      (∀ job ∈ queued, isPending p.1.queue job.id = true) → queued.foldl reconcileQueued p = p := by
    intro queued
    induction queued with
    | nil => exact fun _ _ => rfl
    | cons job queued ih =>
        intro p hall
        have hround : reconcileQueued p job = p := by
          simp only [reconcileQueued]
          rw [if_pos (hall job List.mem_cons_self)]
        rw [List.foldl_cons, hround]
        apply ih
        exact fun other hother => hall other (List.mem_cons_of_mem _ hother)
  unfold reconcile
  simp only
  rw [hnone, List.foldl_nil]
  apply hskip
  intro job hjob
  have hmem := mem_of_mem_window hjob
  rw [List.mem_filter] at hmem
  apply hpending job hmem.1 (of_decide_eq_true hmem.2)

/-- Passes converge when every orphan is in sight of the first one. -/
theorem converges_of_orphansInSight {stores : Stores} (h : OrphansInSight config now stores) :
  Converges config now stores
  := by
  obtain ⟨n, hpending, hstale⟩ : ∃ n,
      AllPending ((pass config now)^[n] (pass config now stores))
        ∧ NoneStale config now ((pass config now)^[n] (pass config now stores)) := by
    apply exists_iterate_of_measure
      (fun stores => (stores.db.ocrJobs.rows.filter (needsRecovery config now)).length)
    · intro stores hall
      apply allPending_pass (orphansInSight_of_allPending hall)
    · intro stores _ hnot
      apply stale_pass_lt hnot
    · apply allPending_pass h
  rw [← Function.iterate_succ_apply] at hpending hstale
  refine ⟨n + 1, hpending, hstale, ?_⟩
  intro m hm
  obtain ⟨k, rfl⟩ := Nat.exists_eq_add_of_le hm
  rw [Nat.add_comm, Function.iterate_add_apply]
  have hfixed : pass config now ((pass config now)^[n + 1] stores) = (pass config now)^[n + 1] stores := by
    rw [pass, reconcile_of_settled hpending hstale]
  apply Function.iterate_fixed hfixed

/-! ### Starving -/

/-- The job is QUEUED without a pending queue entry, and out of sight. -/
def Starved (config : OcrConfig) (now : ℕ) (job : OcrJob) (stores : Stores) : Prop :=
  job ∈ stores.db.ocrJobs.rows ∧ job.status = .QUEUED ∧ isPending stores.queue job.id = false
    ∧ job ∉ window OcrJob.createdAt 500 (backlog config now stores)

/-- A job that is out of sight stays out of sight: the jobs before it only become more. -/
theorem starved_pass {job : OcrJob} {stores : Stores} (h : Starved config now job stores) :
  Starved config now job (pass config now stores)
  := by
  obtain ⟨hjob, hqueued, hpending, hunseen⟩ := h
  have hid : job.id ∉ (seenStale config now stores).map OcrJob.id := by
    intro hid
    have hstale := (mem_seenStale (mem_seenStale_of_id hjob hid)).2
    simp only [needsRecovery, hqueued, Bool.and_eq_true, decide_eq_true_eq] at hstale
    cases hstale.1
  have hsame : treatedIn config now (seenStale config now stores) job = job := if_neg hid
  have hmem : job ∈ (pass config now stores).db.ocrJobs.rows := by
    rw [rows_pass, List.mem_map]
    exact ⟨job, hjob, hsame⟩
  have hwindow : ∀ other ∈ window OcrJob.createdAt 500 (backlog config now stores),
      other.id ≠ job.id := by
    intro other hother heq
    have hrow := List.mem_of_mem_filter (mem_of_mem_window hother)
    rw [eq_of_id hrow hjob heq] at hother
    apply hunseen hother
  refine ⟨hmem, hqueued, ?_, ?_⟩
  · rw [isPending_pass, hpending, Bool.or_false, Bool.or_eq_false_iff, decide_eq_false_iff_not,
      decide_eq_false_iff_not]
    constructor
    · intro hin
      obtain ⟨other, hother, heq⟩ := List.mem_map.mp hin
      apply hwindow other hother heq
    · intro hin
      obtain ⟨other, hother, heq⟩ := List.mem_map.mp hin
      apply hid
      rw [← heq]
      apply List.mem_map_of_mem (List.mem_of_mem_filter hother)
  · intro hseen
    have hseen' := mem_window_filter (p := fun job => decide (job.status = .QUEUED)) hseen
      (decide_eq_true hqueued)
    have hfilter : (backlog config now (pass config now stores)).filter
        (fun job => decide (job.status = .QUEUED))
          = (pass config now stores).db.ocrJobs.rows.filter fun job => job.status = .QUEUED := by
      rw [backlog, List.filter_filter]
      apply List.filter_congr
      intro other _
      by_cases hother : other.status = .QUEUED <;> simp [hother]
    rw [hfilter, rows_pass, filter_queued_treatedIn,
      window_map _ fun job _ => treatedIn_createdAt _ job, List.mem_map] at hseen'
    obtain ⟨other, hother, heq⟩ := hseen'
    apply hwindow other hother
    rw [← heq, treatedIn_id]

/-- Passes do not converge when a job starves. -/
theorem not_converges_of_starved {job : OcrJob} {stores : Stores}
    (h : Starved config now job stores) :
  ¬Converges config now stores
  := by
  rintro ⟨n, hpending, -⟩
  have hstarved : Starved config now job ((pass config now)^[n] stores) := by
    clear hpending
    induction n with
    | zero => apply h
    | succ n ih =>
        rw [Function.iterate_succ_apply']
        apply starved_pass ih
  obtain ⟨hjob, hqueued, hnot, -⟩ := hstarved
  rw [hpending job hjob hqueued] at hnot
  cases hnot

/-- Repeated passes converge exactly when every QUEUED job without a pending queue entry is among
the oldest 500 of the backlog. -/
theorem reconciliation_converges_iff {stores : Stores} :
  Converges config now stores ↔ OrphansInSight config now stores
  := by
  constructor
  · intro hconverges job hjob hqueued hpending
    by_contra hunseen
    apply not_converges_of_starved ⟨hjob, hqueued, hpending, hunseen⟩ hconverges
  · apply converges_of_orphansInSight

/-- The `n`-th of a row of QUEUED jobs, each created after the one before. -/
def crowdedJob (n : ℕ) : OcrJob :=
  OcrService.createdJob sampleConfig n 7 n (js "eng") n

theorem nodup_crowdedJobs (k : ℕ) :
  (((List.range k).map crowdedJob).map OcrJob.id).Nodup
  := by
  rw [List.map_map, show OcrJob.id ∘ crowdedJob = id from rfl, List.map_id]
  apply List.nodup_range

theorem nodup_crowdedEntries (k : ℕ) :
  (((List.range k).map fun n => QueueEntry.mk n .waiting).map QueueEntry.id).Nodup
  := by
  rw [List.map_map, show (QueueEntry.id ∘ fun n => QueueEntry.mk n .waiting) = id from rfl,
    List.map_id]
  apply List.nodup_range

/-- The QUEUED jobs `0` to `n`, of which all but the last are waiting in the queue. -/
def crowdedStores (n : ℕ) : Stores where
  db :=
    { ocrJobs := ⟨(List.range (n + 1)).map crowdedJob, nodup_crowdedJobs (n + 1)⟩
      ocrPages := .empty
      documents := .empty }
  queue := ⟨(List.range n).map fun id => ⟨id, .waiting⟩, nodup_crowdedEntries n⟩

/-- The last of more than 500 QUEUED jobs is out of sight. -/
theorem starved_crowdedStores {n : ℕ} (h : 500 ≤ n) :
  Starved sampleConfig 0 (crowdedJob n) (crowdedStores n)
  := by
  have hjob : crowdedJob n ∈ (crowdedStores n).db.ocrJobs.rows :=
    List.mem_map_of_mem (List.mem_range.mpr (Nat.lt_succ_self n))
  have hpending : isPending (crowdedStores n).queue n = false := by
    have hnone : (crowdedStores n).queue.find n = none := by
      rw [Table.find_eq_none_iff]
      simp [crowdedStores]
    rw [isPending, hnone]
    rfl
  have hbacklog : backlog sampleConfig 0 (crowdedStores n) = (List.range (n + 1)).map crowdedJob := by
    apply List.filter_eq_self.mpr
    intro job hmem
    obtain ⟨k, -, rfl⟩ := List.mem_map.mp hmem
    rfl
  refine ⟨hjob, rfl, hpending, ?_⟩
  rw [hbacklog, window_of_pairwise, ← List.map_take, List.take_range, List.mem_map]
  · rintro ⟨k, hk, heq⟩
    have hid : k = n := congrArg OcrJob.id heq
    rw [hid, List.mem_range] at hk
    omega
  · rw [List.pairwise_map]
    apply List.pairwise_le_range

/-- The last of 501 QUEUED jobs is never enqueued. -/
theorem crowded_backlog_starves :
  ¬Converges sampleConfig 0 (crowdedStores 500)
  := not_converges_of_starved (starved_crowdedStores (Nat.le_refl 500))

end OcrWorker

end DocuAI
