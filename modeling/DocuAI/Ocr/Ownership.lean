import DocuAI.Library.Lease
import DocuAI.Ocr.Worker

/-!
# Ownership of a job

A job is a resource its workers lease.  A QUEUED job is free, a PROCESSING job is held since its
last heartbeat, and a terminal job is closed; the holders are the processes from a successful
claim until they return or die.  Every step of the worker system is a step of that lease, or none
(`lease_step`), so that what holds of leases holds of jobs: a process inside `run` is the only one
as long as workers renew their heartbeats in time.
-/

namespace DocuAI

open Lease

/-! ### The kinds of writes -/

/-- What a write does to the ownership of its job. -/
inductive WriteKind where
  | claims
  | renews
  | ends
  | requeues
  | recovers
  deriving DecidableEq

def Write.kind : Write → WriteKind
  | .claim _ _ => .claims
  | .heartbeat _ | .setTotalPages _ _ _ | .persistPage _ _ => .renews
  | .finalize _ | .fail _ _ _ | .cancel _ _ _ => .ends
  | .requeue _ _ _ => .requeues
  | .recover _ _ => .recovers

/-- The grant of the lease on a job. -/
def OcrJob.grant (job : OcrJob) : Grant :=
  match job.status with
  | .QUEUED => .free
  | .PROCESSING => .held job.heartbeatAt
  | _ => .closed

/-- The grant of a job after a write of the given kind. -/
def WriteKind.grant (now : ℕ) : WriteKind → Grant
  | .claims | .renews => .held (some now)
  | .ends => .closed
  | .requeues | .recovers => .free

/-- The terminal statuses, as the grants see them. -/
theorem OcrJob.grant_eq_closed_iff {job : OcrJob} :
  job.grant = .closed ↔ job.status ∈ TERMINAL_OCR_STATUSES
  := by
  unfold OcrJob.grant
  cases job.status <;> simp [TERMINAL_OCR_STATUSES]

theorem OcrJob.grant_eq_free_iff {job : OcrJob} :
  job.grant = .free ↔ job.status = .QUEUED
  := by
  unfold OcrJob.grant
  cases job.status <;> simp

theorem OcrJob.grant_eq_held_iff {job : OcrJob} {r : Option ℕ} :
  job.grant = .held r ↔ job.status = .PROCESSING ∧ job.heartbeatAt = r
  := by
  unfold OcrJob.grant
  cases job.status <;> simp

theorem finalStatus_terminal (pages : List OcrPage) :
  finalStatus pages ∈ TERMINAL_OCR_STATUSES
  := by
  unfold finalStatus
  split
  · decide
  · split
    · decide
    · decide

/-- A write that succeeds leaves the job with the grant of its kind. -/
theorem Write.grant_data (w : Write) {staleMs now : ℕ} {db : Database} {job : OcrJob}
    (h : (w.update staleMs now db).guard job = true) :
  ((w.update staleMs now db).data job).grant = w.kind.grant now
  := by
  cases w with
  | finalize jobId => exact OcrJob.grant_eq_closed_iff.mpr (finalStatus_terminal _)
  | claim jobId readAt => rfl
  | heartbeat jobId =>
      exact OcrJob.grant_eq_held_iff.mpr ⟨by simpa [update, OcrJobService.heartbeatUpdate] using h, rfl⟩
  | setTotalPages jobId documentId totalPages =>
      exact OcrJob.grant_eq_held_iff.mpr
        ⟨by simpa [update, OcrJobService.setTotalPagesUpdate] using h, rfl⟩
  | persistPage jobId page =>
      exact OcrJob.grant_eq_held_iff.mpr
        ⟨by simpa [update, OcrJobService.countPagesUpdate] using h, rfl⟩
  | fail jobId errorCode errorMessage => rfl
  | requeue jobId errorCode errorMessage => rfl
  | cancel jobId errorCode errorMessage => rfl
  | recover jobId readAt => rfl

/-- A write that renews the heartbeat or returns the job to the queue needs a PROCESSING job. -/
theorem Write.held_of_guard (w : Write) {staleMs now : ℕ} {db : Database} {job : OcrJob}
    (hkind : w.kind = .renews ∨ w.kind = .requeues)
    (h : (w.update staleMs now db).guard job = true) :
  job.grant = .held job.heartbeatAt
  := by
  apply OcrJob.grant_eq_held_iff.mpr
  refine ⟨?_, rfl⟩
  cases w with
  | heartbeat jobId => simpa [update, OcrJobService.heartbeatUpdate] using h
  | setTotalPages jobId documentId totalPages =>
      simpa [update, OcrJobService.setTotalPagesUpdate] using h
  | persistPage jobId page => simpa [update, OcrJobService.countPagesUpdate] using h
  | requeue jobId errorCode errorMessage => simpa [update, OcrJobService.requeueUpdate] using h
  | _ => simp [kind] at hkind

/-- A stale heartbeat is still stale later. -/
theorem OcrJob.isStale_mono {job : OcrJob} {staleMs readAt now : ℕ} (hread : readAt ≤ now)
    (h : job.isStale staleMs readAt = true) :
  ∀ r ∈ job.heartbeatAt, r + staleMs < now
  := by
  intro r hr
  rw [Option.mem_def] at hr
  simp only [isStale, hr, decide_eq_true_eq] at h
  omega

/-- A job is recovered only when its heartbeat is stale. -/
theorem OcrJobService.recover_guard {job : OcrJob} {staleMs readAt now : ℕ} (hread : readAt ≤ now)
    (h : (recoverUpdate staleMs readAt now).guard job = true) :
  ∃ renewedAt, job.grant = .held renewedAt ∧ ∀ r ∈ renewedAt, r + staleMs < now
  := by
  simp only [recoverUpdate, Bool.and_eq_true, decide_eq_true_eq] at h
  exact ⟨job.heartbeatAt, OcrJob.grant_eq_held_iff.mpr ⟨h.1, rfl⟩, OcrJob.isStale_mono hread h.2⟩

/-- A job is claimed only when it is free, or its heartbeat is stale. -/
theorem OcrJobService.claim_guard {job : OcrJob} {staleMs readAt now : ℕ} (hread : readAt ≤ now)
    (h : (claimUpdate staleMs readAt now).guard job = true) :
  job.grant = .free ∨ ∃ renewedAt, job.grant = .held renewedAt ∧ ∀ r ∈ renewedAt, r + staleMs < now
  := by
  simp only [claimUpdate, Bool.or_eq_true, Bool.and_eq_true, decide_eq_true_eq] at h
  rcases h with h | h
  · exact .inl (OcrJob.grant_eq_free_iff.mpr h)
  · exact .inr
      ⟨job.heartbeatAt, OcrJob.grant_eq_held_iff.mpr ⟨h.1, rfl⟩, OcrJob.isStale_mono hread h.2⟩

namespace OcrWorker

variable {config : OcrConfig} {unicode : Unicode}

/-! ### The lease on a job -/

/-- The grant of the lease on a job, which is free as long as there is no job. -/
def grantIn (db : Database) (jobId : ℕ) : Grant :=
  (db.ocrJobs.find jobId).elim .free OcrJob.grant

/-- When a process that holds the job last renewed the heartbeat. -/
def Process.holding (q : Process) (jobId : ℕ) : Option ℕ :=
  if q.jobId = jobId ∧ q.phase.holds = true then some q.lastBeat else none

/-- The lease on a job. -/
def leaseOf (s : State) (jobId : ℕ) : Lease.State ℕ where
  now := s.now
  grant := grantIn s.db jobId
  holder p := (s.processes.find p).bind fun q => q.holding jobId

/-- A write that succeeds leaves its job with the grant of its kind, and one that fails leaves it
alone. -/
theorem grantIn_perform (w : Write) {staleMs now : ℕ} {db : Database} :
  grantIn (w.perform staleMs now db).1 w.jobId
    = if (w.perform staleMs now db).2 then w.kind.grant now else grantIn db w.jobId
  := by
  unfold grantIn
  cases hreply : (w.perform staleMs now db).2 with
  | false => rw [(Write.find_of_not_reply hreply).2, if_neg Bool.false_ne_true]
  | true =>
      obtain ⟨job, -, hguard, hjob'⟩ := Write.find_of_reply hreply
      rw [hjob', if_pos rfl]
      apply Write.grant_data w hguard

/-- A write leaves the other jobs alone. -/
theorem grantIn_perform_of_ne (w : Write) {staleMs now jobId : ℕ} {db : Database}
    (h : w.jobId ≠ jobId) :
  grantIn (w.perform staleMs now db).1 jobId = grantIn db jobId
  := by
  rw [grantIn, Write.find_perform, if_neg (Ne.symm h), grantIn]

/-- A step of a process changes what that process holds. -/
theorem holder_put (processes : Table Process.id) (q : Process) (jobId : ℕ) :
  (fun p => ((processes.put q).find p).bind fun q => q.holding jobId)
    = Function.update (fun p => (processes.find p).bind fun q => q.holding jobId) q.id
        (q.holding jobId)
  := by
  funext p
  rw [Table.find_put]
  by_cases hp : p = q.id
  · subst hp
    rw [if_pos rfl, Function.update_self]
    rfl
  · rw [if_neg hp, Function.update_of_ne hp]

/-- The lease after a step that sends nothing. -/
theorem leaseOf_apply_quiet {s : State} {q : Process} {next : Bool → Progress} {jobId : ℕ} :
  leaseOf (s.apply config q ⟨none, next⟩) jobId
    = ⟨s.now, grantIn s.db jobId, Function.update (leaseOf s jobId).holder q.id
        (Process.holding { q with toProgress := next false } jobId)⟩
  := by
  simp only [leaseOf, State.apply, holder_put]

/-- The lease after a step that sends a write for the job. -/
theorem leaseOf_apply_write {s : State} {q : Process} {w : Write} {next : Bool → Progress}
    {b : Bool} (hw : w.jobId = q.jobId)
    (hreply : (w.perform config.staleJobMs s.now s.db).2 = b) :
  leaseOf (s.apply config q ⟨some w, next⟩) q.jobId
    = ⟨s.now, if b then w.kind.grant s.now else grantIn s.db q.jobId,
        Function.update (leaseOf s q.jobId).holder q.id
          (Process.holding { q with toProgress := next b } q.jobId)⟩
  := by
  have hgrant : grantIn (w.perform config.staleJobMs s.now s.db).1 q.jobId
      = if b then w.kind.grant s.now else grantIn s.db q.jobId := by
    rw [← hw, grantIn_perform, hreply]
  simp only [leaseOf, State.apply, holder_put, hgrant, hreply]

/-- A step of a process of another job leaves the lease alone. -/
theorem leaseOf_apply_of_ne {s : State} {q : Process} {e : Effect} {jobId : ℕ}
    (hq : s.processes.find q.id = some q) (hacts : q.Acts s.now e) (hne : q.jobId ≠ jobId) :
  leaseOf (s.apply config q e) jobId = leaseOf s jobId
  := by
  have hholder : ∀ p : Progress, Function.update (leaseOf s jobId).holder q.id
      (Process.holding { q with toProgress := p } jobId) = (leaseOf s jobId).holder := by
    intro p
    have hnone : Process.holding { q with toProgress := p } jobId = (leaseOf s jobId).holder q.id := by
      simp [leaseOf, hq, Process.holding, hne]
    rw [hnone]
    apply Function.update_eq_self
  obtain ⟨write, next⟩ := e
  cases write with
  | none =>
      rw [leaseOf_apply_quiet, hholder]
      rfl
  | some w =>
      have hgrant : grantIn (w.perform config.staleJobMs s.now s.db).1 jobId = grantIn s.db jobId :=
        grantIn_perform_of_ne w (hacts.jobId_write ▸ hne)
      simp only [leaseOf, State.apply, holder_put, hgrant]
      congr 1
      apply hholder

section

variable {s : State} {q : Process}

/-- The lease on the job of a process makes a step, or stays as it is. -/
def LeaseMoves (config : OcrConfig) (s : State) (q : Process) (e : Effect) : Prop :=
  leaseOf (s.apply config q e) q.jobId = leaseOf s q.jobId
    ∨ Lease.Step config.staleJobMs (leaseOf s q.jobId) (leaseOf (s.apply config q e) q.jobId)

/-- A process that goes on holding since the same time does not change who holds the lease. -/
theorem holder_update_same (hq : s.processes.find q.id = some q) (next : Progress)
    (hholds : next.phase.holds = q.phase.holds) (hbeat : next.lastBeat = q.lastBeat) :
  Function.update (leaseOf s q.jobId).holder q.id
      (Process.holding { q with toProgress := next } q.jobId)
    = (leaseOf s q.jobId).holder
  := by
  have h : Process.holding { q with toProgress := next } q.jobId
      = (leaseOf s q.jobId).holder q.id := by
    simp [leaseOf, hq, Process.holding, hholds, hbeat]
  rw [h]
  apply Function.update_eq_self

theorem holding_of_not_holds {next : Progress} (hholds : next.phase.holds = false) :
  Process.holding { q with toProgress := next } q.jobId = none
  := by
  simp [Process.holding, hholds]

theorem holder_ne_none (hq : s.processes.find q.id = some q) (hholds : q.phase.holds = true) :
  (leaseOf s q.jobId).holder q.id ≠ none
  := by
  simp [leaseOf, hq, Process.holding, hholds]

theorem grant_eq_of_find {w : Write} {job : OcrJob} (hw : w.jobId = q.jobId)
    (hjob : s.db.ocrJobs.find w.jobId = some job) :
  (leaseOf s q.jobId).grant = job.grant
  := by
  simp [leaseOf, grantIn, ← hw, hjob]

theorem leaseMoves_quiet (hq : s.processes.find q.id = some q) {p : Progress}
    (hbeat : p.lastBeat = q.lastBeat) (hholds : p.phase.holds = true → q.phase.holds = true) :
  LeaseMoves config s q ⟨none, fun _ => p⟩
  := by
  unfold LeaseMoves
  rw [leaseOf_apply_quiet]
  cases hp : p.phase.holds with
  | false =>
      right
      rw [holding_of_not_holds hp]
      exact .drop q.id
  | true =>
      left
      rw [holder_update_same hq p (by rw [hp, hholds hp]) hbeat]
      rfl

theorem leaseMoves_claim (hq : s.processes.find q.id = some q) {job : OcrJob}
    {readAt attempt : ℕ} (hphase : q.phase = .found job) (hread : readAt ≤ s.now) :
  LeaseMoves config s q ⟨some (.claim q.jobId readAt), fun claimed =>
    if claimed then ⟨.claimed job, q.timer, attempt, s.now⟩ else q.goTo .returned⟩
  := by
  unfold LeaseMoves
  cases hreply : ((Write.claim q.jobId readAt).perform config.staleJobMs s.now s.db).2 with
  | false =>
      left
      rw [leaseOf_apply_write rfl hreply]
      simp only [Bool.false_eq_true, if_false]
      rw [holder_update_same hq (q.goTo .returned) (by rw [hphase]; rfl) rfl]
      rfl
  | true =>
      right
      obtain ⟨row, hrow, hguard⟩ := (Write.perform_reply _).mp hreply
      rw [leaseOf_apply_write rfl hreply]
      simp only [if_true]
      have hclaimed : Process.holding
          { q with toProgress := ⟨.claimed job, q.timer, attempt, s.now⟩ } q.jobId
            = some s.now := by
        simp [Process.holding, Phase.holds]
      rw [hclaimed]
      apply Lease.Step.acquire q.id
      rw [Lease.State.Expired, grant_eq_of_find rfl hrow]
      exact OcrJobService.claim_guard hread hguard

/-- A write that renews the heartbeat renews the lease, if its process holds it, and otherwise
keeps it alive. -/
theorem leaseMoves_renew (hq : s.processes.find q.id = some q) {w : Write} {phase : Phase}
    (hjob : w.jobId = q.jobId) (hkind : w.kind = .renews)
    (hholds : phase.holds = q.phase.holds) :
  LeaseMoves config s q ⟨some w, q.renewTo s.now phase⟩
  := by
  unfold LeaseMoves
  cases hreply : (w.perform config.staleJobMs s.now s.db).2 with
  | false =>
      left
      rw [leaseOf_apply_write hjob hreply]
      simp only [Bool.false_eq_true, if_false]
      rw [holder_update_same hq (q.renewTo s.now phase false) hholds rfl]
      rfl
  | true =>
      right
      obtain ⟨row, hrow, hguard⟩ := (Write.perform_reply w).mp hreply
      have hheld := grant_eq_of_find hjob hrow
      rw [Write.held_of_guard w (.inl hkind) hguard] at hheld
      rw [leaseOf_apply_write hjob hreply]
      simp only [if_true, hkind, WriteKind.grant]
      cases hp : q.phase.holds with
      | true =>
          have hnow : Process.holding { q with toProgress := q.renewTo s.now phase true } q.jobId
              = some s.now := by
            simp [Process.holding, Process.renewTo, hholds, hp]
          rw [hnow]
          exact .renew q.id hheld (holder_ne_none hq hp)
      | false =>
          have hidle : Process.holding { q with toProgress := q.renewTo s.now phase true } q.jobId
              = (leaseOf s q.jobId).holder q.id := by
            simp [leaseOf, hq, Process.holding, Process.renewTo, hholds, hp]
          rw [hidle, Function.update_eq_self]
          exact .touch hheld

/-- A holder that ends the job and goes on leaves the lease closed. -/
theorem leaseMoves_conclude (hq : s.processes.find q.id = some q) {w : Write} {phase : Phase}
    (hjob : w.jobId = q.jobId) (hkind : w.kind = .ends) (hholds : phase.holds = q.phase.holds) :
  LeaseMoves config s q ⟨some w, fun _ => q.goTo phase⟩
  := by
  unfold LeaseMoves
  cases hreply : (w.perform config.staleJobMs s.now s.db).2 with
  | false =>
      left
      rw [leaseOf_apply_write hjob hreply]
      simp only [Bool.false_eq_true, if_false]
      rw [holder_update_same hq (q.goTo phase) hholds rfl]
      rfl
  | true =>
      right
      rw [leaseOf_apply_write hjob hreply]
      simp only [if_true, hkind, WriteKind.grant]
      rw [holder_update_same hq (q.goTo phase) hholds rfl]
      exact .close

/-- A holder that ends or requeues the job and returns gives the lease up. -/
theorem leaseMoves_leave (hq : s.processes.find q.id = some q) {w : Write}
    (hjob : w.jobId = q.jobId) (hkind : w.kind = .ends ∨ w.kind = .requeues)
    (hholds : q.phase.holds = true) :
  LeaseMoves config s q ⟨some w, fun _ => q.goTo .returned⟩
  := by
  unfold LeaseMoves
  have hleft : Process.holding { q with toProgress := q.goTo .returned } q.jobId = none :=
    holding_of_not_holds rfl
  right
  cases hreply : (w.perform config.staleJobMs s.now s.db).2 with
  | false =>
      rw [leaseOf_apply_write hjob hreply, hleft]
      exact .drop q.id
  | true =>
      obtain ⟨row, hrow, hguard⟩ := (Write.perform_reply w).mp hreply
      rw [leaseOf_apply_write hjob hreply, hleft]
      rcases hkind with hkind | hkind
      · simp only [if_true, hkind, WriteKind.grant]
        exact .finish q.id
      · have hheld := grant_eq_of_find hjob hrow
        rw [Write.held_of_guard w (.inr hkind) hguard] at hheld
        simp only [if_true, hkind, WriteKind.grant]
        exact .release q.id hheld (holder_ne_none hq hholds)

/-- Every step of a process is a step of the lease on its job, or leaves it alone. -/
theorem lease_apply {e : Effect} (hq : s.processes.find q.id = some q)
    (hacts : q.Acts s.now e) :
  LeaseMoves config s q e
  := by
  cases hacts with
  | quiet hbeat hholds => apply leaseMoves_quiet hq hbeat hholds
  | claim hphase hread => apply leaseMoves_claim hq hphase hread
  | heartbeat => apply leaseMoves_renew hq rfl rfl rfl
  | measure hphase => apply leaseMoves_renew hq rfl rfl (by rw [hphase]; rfl)
  | persist hphase => apply leaseMoves_renew hq rfl rfl (by rw [hphase]; rfl)
  | finalize hphase => apply leaseMoves_conclude hq rfl rfl (by rw [hphase]; rfl)
  | cancel hphase => apply leaseMoves_conclude hq rfl rfl (by rw [hphase]; rfl)
  | fail hholds => apply leaseMoves_leave hq rfl (.inl rfl) hholds
  | requeue hholds => apply leaseMoves_leave hq rfl (.inr rfl) hholds

end

/-- Every write of a reconciler is a step of the lease on its job, or leaves it alone. -/
theorem lease_reconcile {s : State} {job : OcrJob} {readAt jobId : ℕ}
    {reconcilers : Table Reconciler.id} (hread : readAt ≤ s.now) :
  let s' : State :=
    { s with
      db := ((Reconciler.write job readAt).perform config.staleJobMs s.now s.db).1
      reconcilers }
  leaseOf s' jobId = leaseOf s jobId ∨ Lease.Step config.staleJobMs (leaseOf s jobId) (leaseOf s' jobId)
  := by
  intro s'
  have hs' : leaseOf s' jobId = ⟨s.now, grantIn s'.db jobId, (leaseOf s jobId).holder⟩ := rfl
  rw [hs']
  by_cases hjob : (Reconciler.write job readAt).jobId = jobId
  · subst hjob
    cases hreply : ((Reconciler.write job readAt).perform config.staleJobMs s.now s.db).2 with
    | false =>
        left
        rw [grantIn_perform, hreply]
        rfl
    | true =>
        right
        obtain ⟨row, hrow, hguard⟩ := (Write.perform_reply _).mp hreply
        rw [grantIn_perform, hreply]
        simp only [if_true]
        by_cases hattempts : job.maxAttempts ≤ job.attemptCount
        · simp only [Reconciler.write, if_pos hattempts]
          exact .close
        · simp only [Reconciler.write, if_neg hattempts] at hrow hguard ⊢
          apply Lease.Step.expire
          have hgrant : (leaseOf s (Write.recover job.id readAt).jobId).grant = row.grant := by
            simp [leaseOf, grantIn, hrow]
          rw [Lease.State.Expired, hgrant]
          exact OcrJobService.recover_guard hread hguard
  · left
    rw [grantIn_perform_of_ne _ hjob]
    rfl

/-- Every step of the system is a step of the lease on a job, or leaves it alone. -/
theorem lease_step {s s' : State} {a : Label} (hstep : step config unicode s a = some s')
    (jobId : ℕ) :
  leaseOf s' jobId = leaseOf s jobId
    ∨ Lease.Step config.staleJobMs (leaseOf s jobId) (leaseOf s' jobId)
  := by
  cases moves_of_step hstep with
  | ticks ms => exact .inr (.tick (Nat.le_add_right s.now ms))
  | @creates _ _ _ _ _ ocrJobs hcreate =>
      left
      have hgrant : (ocrJobs.find jobId).elim .free OcrJob.grant = grantIn s.db jobId := by
        rw [Table.find_create hcreate]
        split
        · rename_i hid
          have hnone := Table.find_of_create hcreate
          rw [← hid] at hnone
          rw [grantIn, hnone]
          rfl
        · rfl
      simp only [leaseOf, grantIn, hgrant]
  | writes | reconciles | aborts => exact .inl rfl
  | @delivers _ _ processes hcreate =>
      left
      have hholder : (fun p => (processes.find p).bind fun q => q.holding jobId)
          = fun p => (s.processes.find p).bind fun q => q.holding jobId := by
        funext p
        rw [Table.find_create hcreate]
        split
        · rename_i hid
          have hnone := Table.find_of_create hcreate
          rw [← hid] at hnone
          rw [hnone]
          simp [Process.holding, Phase.holds]
        · rfl
      simp only [leaseOf, hholder]
  | @acts q action e hq hact =>
      by_cases hjob : q.jobId = jobId
      · subst hjob
        exact lease_apply hq (Process.act_acts hact)
      · exact .inl (leaseOf_apply_of_ne hq (Process.act_acts hact) hjob)
  | treats hr hremaining hread => exact lease_reconcile hread

/-! ### One worker at a time -/

/-- Every worker whose claim succeeded renewed the heartbeat of the job at most `staleJobMs` ago, as
long as the job is PROCESSING. -/
def HeartbeatsInTime (config : OcrConfig) (jobId : ℕ) (s : State) : Prop :=
  ∀ job ∈ s.db.ocrJobs.find jobId, job.status = .PROCESSING →
    ∀ q ∈ s.processes.rows, q.jobId = jobId → q.phase.holds = true →
      s.now ≤ q.lastBeat + config.staleJobMs

/-- No worker whose claim succeeded is left once the heartbeat of the job is stale. -/
def SilentWorkersStopped (config : OcrConfig) (jobId : ℕ) (s : State) : Prop :=
  ∀ job ∈ s.db.ocrJobs.find jobId, job.status = .PROCESSING →
    job.isStale config.staleJobMs s.now = true →
      ∀ q ∈ s.processes.rows, q.jobId = jobId → q.phase.holds = false

instance (jobId : ℕ) (s : State) : Decidable (HeartbeatsInTime config jobId s) := by
  unfold HeartbeatsInTime
  infer_instance

instance (jobId : ℕ) (s : State) : Decidable (SilentWorkersStopped config jobId s) := by
  unfold SilentWorkersStopped
  infer_instance

/-- Who holds the lease on a job. -/
theorem holder_eq_some_iff {s : State} {jobId p b : ℕ} :
  (leaseOf s jobId).holder p = some b
    ↔ ∃ q, s.processes.find p = some q ∧ q.jobId = jobId ∧ q.phase.holds = true ∧ q.lastBeat = b
  := by
  simp [leaseOf, Process.holding, Option.bind_eq_some_iff, and_assoc]

theorem grantIn_eq_held_iff {db : Database} {jobId : ℕ} {r : Option ℕ} :
  grantIn db jobId = .held r
    ↔ ∃ job, db.ocrJobs.find jobId = some job ∧ job.status = .PROCESSING ∧ job.heartbeatAt = r
  := by
  unfold grantIn
  cases h : db.ocrJobs.find jobId with
  | none => simp
  | some job => simp [OcrJob.grant_eq_held_iff]

theorem prompt_of_heartbeatsInTime {s : State} {jobId : ℕ}
    (h : HeartbeatsInTime config jobId s) :
  Lease.Prompt config.staleJobMs (leaseOf s jobId)
  := by
  intro r hgrant p b hholder
  obtain ⟨job, hjob, hstatus, -⟩ := grantIn_eq_held_iff.mp hgrant
  obtain ⟨q, hq, hqjob, hholds, rfl⟩ := holder_eq_some_iff.mp hholder
  exact h job hjob hstatus q (Table.mem_of_find hq) hqjob hholds

theorem guarded_of_silentWorkersStopped {s : State} {jobId : ℕ}
    (h : SilentWorkersStopped config jobId s) :
  Lease.Guarded config.staleJobMs (leaseOf s jobId)
  := by
  rintro ⟨r, hgrant, hlt⟩ p
  obtain ⟨job, hjob, hstatus, rfl⟩ := grantIn_eq_held_iff.mp hgrant
  cases hholder : (leaseOf s jobId).holder p with
  | none => rfl
  | some b =>
      obtain ⟨q, hq, hqjob, hholds, -⟩ := holder_eq_some_iff.mp hholder
      have hstale : job.isStale config.staleJobMs s.now = true := by
        unfold OcrJob.isStale
        cases hbeat : job.heartbeatAt with
        | none => rfl
        | some t => simpa [hbeat, leaseOf] using hlt
      rw [h job hjob hstatus hstale q (Table.mem_of_find hq) hqjob] at hholds
      cases hholds

/-- Before the first step nobody holds anything. -/
theorem valid_init {s : State} (hinit : (system config unicode).init s) (jobId : ℕ) :
  Lease.Valid (leaseOf s jobId)
  := by
  have hnone : ∀ p, (leaseOf s jobId).holder p = none := by
    intro p
    simp [leaseOf, Table.find, hinit.2.2.1]
  constructor
  · intro i j hi
    exact absurd (hnone i) hi
  · intro _
    apply hnone
  · intro i b r hi
    rw [hnone i] at hi
    cases hi
  · intro i b hi
    rw [hnone i] at hi
    cases hi

/-- A step keeps the lease on a job valid as long as nobody holds on to an expired lease. -/
theorem valid_step {s s' : State} {a : Label} (hstep : step config unicode s a = some s')
    {jobId : ℕ} (hguarded : Lease.Guarded config.staleJobMs (leaseOf s jobId))
    (h : Lease.Valid (leaseOf s jobId)) :
  Lease.Valid (leaseOf s' jobId)
  := by
  rcases lease_step hstep jobId with heq | hlease
  · rw [heq]
    apply h
  · apply hlease.valid hguarded h

/-- Two holders of one job are one process. -/
theorem eq_of_valid {s : State} {jobId : ℕ} (h : Lease.Valid (leaseOf s jobId)) {p q : Process}
    (hp : p ∈ s.processes.rows) (hq : q ∈ s.processes.rows) (hpjob : p.jobId = jobId)
    (hqjob : q.jobId = jobId) (hpholds : p.phase.holds = true) (hqholds : q.phase.holds = true) :
  p = q
  := by
  have hne : ∀ r ∈ s.processes.rows, r.jobId = jobId → r.phase.holds = true →
      (leaseOf s jobId).holder r.id ≠ none := by
    intro r hr hrjob hrholds
    rw [holder_eq_some_iff.mpr ⟨r, Table.mem_rows_iff.mp hr, hrjob, hrholds, rfl⟩]
    apply Option.some_ne_none
  have hid := h.unique p.id q.id (hne p hp hpjob hpholds) (hne q hq hqjob hqholds)
  have hp' := Table.mem_rows_iff.mp hp
  rw [hid, Table.mem_rows_iff.mp hq] at hp'
  exact (Option.some.inj hp').symm

/-- As long as workers renew their heartbeats in time, no two of them are inside `run` for one
job. -/
theorem one_worker_in_run {s₀ s : State} {ts : List (Transition State Label)}
    (hrun : (system config unicode).Run s₀ ts s) (hinit : (system config unicode).init s₀)
    {jobId : ℕ} (hbeats : ∀ t ∈ ts, HeartbeatsInTime config jobId t.source) :
  ∀ p ∈ s.processes.rows, ∀ q ∈ s.processes.rows, p.jobId = jobId → q.jobId = jobId →
    p.phase.inRun = true → q.phase.inRun = true → p = q
  := by
  have hvalid : Lease.Valid (leaseOf s jobId) := by
    apply hrun.invariant (valid_init hinit jobId)
    intro t ht hstep hvalid
    apply valid_step hstep _ hvalid
    exact Lease.guarded_of_prompt hvalid (prompt_of_heartbeatsInTime (hbeats t ht))
  intro p hp q hq hpjob hqjob hprun hqrun
  exact eq_of_valid hvalid hp hq hpjob hqjob (Phase.holds_of_inRun hprun)
    (Phase.holds_of_inRun hqrun)

/-! ### A sample system -/

/-- A small configuration. -/
def sampleConfig : OcrConfig where
  enabled := true
  defaultLanguage := js "eng"
  maxLanguagesPerJob := 3
  maxAttempts := 3
  jobTimeoutMs := 900000
  pageTimeoutMs := 60000
  staleJobMs := 120000
  limits :=
    { maxFileSizeBytes := 1000
      maxPdfPages := 10
      renderDpi := 150
      maxRenderPixels := 20000000
      maxImagePixels := 25000000
      maxTextPerPage := 100
      maxTextPerDocument := 1000
      maxActiveJobsPerUser := 5
      maxJobsPerDocument := 20 }
  nativeText := { minChars := 3, minAlphanumericRatio := 1 / 2 }

/-- An uploaded PDF of the user `7`. -/
def sampleDocument : Document where
  id := 1
  userId := 7
  folderId := none
  title := js "Report"
  description := none
  status := .READY
  mimeType := some (js "application/pdf")
  fileSize := some 500
  pageCount := none
  storageKey := some ⟨7, 1, 0⟩
  originalName := some (js "report.pdf")
  createdAt := 0
  updatedAt := 0
  deletedAt := none

/-- The state with the sample document and no job. -/
def sampleState : State where
  now := 0
  db :=
    { ocrJobs := .empty
      ocrPages := .empty
      documents := ⟨[sampleDocument], by simp⟩ }
  processes := .empty
  reconcilers := .empty

/-- Process `p` finds its job, claims it and enters `run`. -/
def sampleClaim (p readAt : ℕ) : List Label :=
  [.process p .advance, .process p (.claim readAt), .process p .advance, .process p .advance]

/-- What the tools and the storage answer for a PDF of two pages with native text. -/
def sampleTools : Tools where
  extractText _ _ _ := .ok [js "First page", js "Second page"]
  renderPage _ _ _ := .ok ()
  recognize _ _ := .ok ⟨js "Recognised", none⟩

def sampleProbe : FileProbe where
  format := some .pdf
  dimensions := none
  info := .ok ⟨2, []⟩

/-- Process `p` takes its job up to the first page it has to extract. -/
def sampleInspection (p : ℕ) : List Label :=
  [.process p .advance, .process p (.download (.object (some 500) [500] none)),
    .process p (.inspect sampleProbe), .process p .advance, .process p .advance]

/-- Two deliveries of one job, of which the second reads the job before the first claims it and
fails to claim it. -/
def duplicateDelivery : List Label :=
  [.createJob 1 7 1 (js "eng") 0, .deliver 1 1, .deliver 2 1, .process 2 .advance]
    ++ sampleClaim 1 0 ++ [.tick 1000, .process 2 (.claim 1000), .process 1 .heartbeat]

/-- After a duplicate delivery exactly one worker is inside `run`. -/
theorem one_worker_in_run_of_duplicateDelivery :
  ∃ s, (system sampleConfig asciiUnicode).execute
      (fun t => decide (HeartbeatsInTime sampleConfig 1 t.source)) sampleState duplicateDelivery
        = some s
    ∧ (∃ p ∈ s.processes.rows, p.jobId = 1 ∧ p.phase.inRun = true)
    ∧ ∀ p ∈ s.processes.rows, ∀ q ∈ s.processes.rows, p.jobId = 1 → q.jobId = 1 →
      p.phase.inRun = true → q.phase.inRun = true → p = q
  := by
  have hsome : ((system sampleConfig asciiUnicode).execute
      (fun t => decide (HeartbeatsInTime sampleConfig 1 t.source)) sampleState
        duplicateDelivery).any (fun s => s.processes.rows.any fun p =>
          decide (p.jobId = 1) && p.phase.inRun) = true := by
    decide
  obtain ⟨s, hs, hin⟩ := (Option.any_eq_true _ _).mp hsome
  obtain ⟨ts, hrun, hts⟩ := TransitionSystem.run_of_execute hs
  refine ⟨s, hs, by simpa using hin, ?_⟩
  apply one_worker_in_run hrun ⟨rfl, rfl, rfl, rfl⟩
  intro t ht
  exact of_decide_eq_true (hts t ht)

end OcrWorker

end DocuAI
