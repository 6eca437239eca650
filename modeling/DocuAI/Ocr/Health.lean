import DocuAI.Ocr.Availability

/-!
# Readiness

What the health endpoints report of the dependencies.  The answers of the engine, the renderer, the
queue and the stores are arguments; the state of the worker is that of its life cycle.
-/

namespace DocuAI

open JsString

inductive WorkerState where
  | disabled
  | starting
  | running
  | stopped
  deriving DecidableEq

namespace OcrWorkerService

/-- The worker between the start and the end of the process. -/
structure Lifecycle where
  initialised : Bool
  state : WorkerState
  deriving DecidableEq

inductive LifecycleLabel where
  /-- `onModuleInit`, up to the creation of the directory for temporary files. -/
  | onModuleInit
  /-- `onModuleInit`, once the directory is there. -/
  | started
  /-- The end of `onModuleDestroy`. -/
  | onModuleDestroy

def Lifecycle.step (config : OcrServiceConfig) (worker : Lifecycle) :
    LifecycleLabel → Option Lifecycle
  | .onModuleInit =>
      if worker.initialised then none
      else if !config.enabled || !config.workerEnabled then some { worker with initialised := true }
      else some { initialised := true, state := .starting }
  | .started => if worker.state = .starting then some { worker with state := .running } else none
  | .onModuleDestroy =>
      some (if worker.state ≠ .disabled then { worker with state := .stopped } else worker)

def lifecycle (config : OcrServiceConfig) : TransitionSystem Lifecycle LifecycleLabel where
  init worker := worker = { initialised := false, state := .disabled }
  step := Lifecycle.step config

/-- The worker is enabled by the settings. -/
def Enabled (config : OcrServiceConfig) : Prop :=
  config.enabled = true ∧ config.workerEnabled = true

/-- Once initialised, the worker is disabled exactly when the settings disable it. -/
theorem Lifecycle.disabled_iff {config : OcrServiceConfig} {worker₀ worker : Lifecycle}
    {ts : List (Transition Lifecycle LifecycleLabel)}
    (hrun : (lifecycle config).Run worker₀ ts worker) (hinit : (lifecycle config).init worker₀)
    (hinitialised : worker.initialised = true) :
  worker.state = .disabled ↔ ¬ Enabled config
  := by
  have hinvariant : (worker.initialised = true → (worker.state = .disabled ↔ ¬ Enabled config))
      ∧ (worker.initialised = false → worker.state = .disabled) := by
    apply hrun.invariant
      (I := fun worker => (worker.initialised = true → (worker.state = .disabled ↔ ¬ Enabled config))
        ∧ (worker.initialised = false → worker.state = .disabled))
    · rw [hinit]
      exact ⟨nofun, fun _ => rfl⟩
    · rintro ⟨⟨initialised, state⟩, label, next⟩ - hstep ⟨htrue, hfalse⟩
      change Lifecycle.step config ⟨initialised, state⟩ label = some next at hstep
      cases label with
      | onModuleInit =>
          cases initialised with
          | true => cases hstep
          | false =>
              obtain rfl := hfalse rfl
              by_cases henabled : Enabled config
              · obtain ⟨henabled₁, henabled₂⟩ := henabled
                simp [Lifecycle.step, henabled₁, henabled₂] at hstep
                obtain rfl := hstep
                simp [Enabled, henabled₁, henabled₂]
              · have hnot : (!config.enabled || !config.workerEnabled) = true := by
                  rw [Enabled, not_and_or] at henabled
                  simpa using henabled
                simp [Lifecycle.step, hnot] at hstep
                obtain rfl := hstep
                simp [henabled]
      | started =>
          simp only [Lifecycle.step] at hstep
          split at hstep
          · rename_i hstarting
            obtain rfl := Option.some.inj hstep
            change state = .starting at hstarting
            subst hstarting
            simp_all
          · cases hstep
      | onModuleDestroy =>
          simp only [Lifecycle.step] at hstep
          obtain rfl := Option.some.inj hstep
          by_cases hdisabled : state = .disabled
          · rw [if_neg (not_not_intro hdisabled)]
            exact ⟨htrue, hfalse⟩
          · rw [if_pos hdisabled]
            simp_all
  exact hinvariant.1 hinitialised

end OcrWorkerService

/-! ### Reports -/

inductive OcrHealthStatus where
  | ready
  | degraded
  | disabled
  deriving DecidableEq

inductive DependencyStatus where
  | up
  | down
  deriving DecidableEq

structure EngineHealth where
  available : Bool
  name : Option JsString
  version : Option JsString

structure RendererHealth where
  available : Bool
  name : JsString
  version : Option JsString

structure LanguagesHealth where
  default : JsString
  defaultAvailable : Bool
  available : List JsString
  missing : List JsString

structure QueueHealth where
  status : DependencyStatus
  name : JsString
  counts : Option (List (JsString × ℕ))

structure WorkerHealth where
  state : WorkerState
  concurrency : ℕ

structure OcrHealthReport where
  /-- Ready when engine, renderer, default language, queue and worker are available. -/
  status : OcrHealthStatus
  enabled : Bool
  engine : EngineHealth
  renderer : RendererHealth
  languages : LanguagesHealth
  queue : QueueHealth
  worker : WorkerHealth
  timestamp : ℕ

/-- What the dependencies answer: the engine, the renderer with its version, the cache of the
languages, the queue and, if it can be asked, its counts. -/
structure OcrDependencies where
  engine : Option OcrEngineInfo
  rendererVersion : Option JsString
  availability : LanguageAvailability
  queueUp : Bool
  counts : Option (List (JsString × ℕ))

namespace OcrHealthService

/-- Whether OCR is ready. -/
def ready (config : OcrServiceConfig) (workerState : WorkerState) (found : OcrDependencies) : Bool :=
  found.engine.isSome && found.rendererVersion.isSome && found.availability.defaultAvailable
    && found.queueUp && (!config.workerEnabled || workerState == .running)

def check (config : OcrServiceConfig) (workerState : WorkerState) (found : OcrDependencies)
    (timestamp : ℕ) : OcrHealthReport :=
  if !config.enabled then
    { status := .disabled
      enabled := false
      engine := { available := false, name := none, version := none }
      renderer := { available := false, name := js "poppler", version := none }
      languages :=
        { default := config.defaultLanguage
          defaultAvailable := false
          available := []
          missing := config.supportedLanguages }
      queue := { status := .down, name := config.queueName, counts := none }
      worker := { state := .disabled, concurrency := config.concurrency }
      timestamp }
  else
    { status := if ready config workerState found then .ready else .degraded
      enabled := true
      engine :=
        { available := found.engine.isSome
          name := found.engine.map OcrEngineInfo.name
          version := found.engine.bind OcrEngineInfo.version }
      renderer :=
        { available := found.rendererVersion.isSome
          name := js "poppler"
          version := found.rendererVersion }
      languages :=
        { default := found.availability.defaultLanguage
          defaultAvailable := found.availability.defaultAvailable
          available := found.availability.available
          missing := found.availability.missing }
      queue :=
        { status := if found.queueUp then .up else .down
          name := config.queueName
          counts := if found.queueUp then found.counts else none }
      worker := { state := workerState, concurrency := config.concurrency }
      timestamp }

end OcrHealthService

namespace HealthController

/-- The dependencies a degraded report is blamed on. -/
def problems (report : OcrHealthReport) : List JsString :=
  (if report.engine.available then [] else [js "engine"])
    ++ (if report.renderer.available then [] else [js "renderer"])
    ++ (if report.languages.defaultAvailable then [] else [js "default language data"])
    ++ (if report.queue.status = .up then [] else [js "queue"])
    ++ (if report.worker.state = .running ∨ report.worker.state = .disabled then []
      else [js "worker"])

/-- The text of a list of problems. -/
def problemsText (names : List JsString) : JsString :=
  let text := (js ", ").intercalate names
  if text = [] then js "unknown" else text

def ocr (report : OcrHealthReport) : Except AppException OcrHealthReport :=
  if report.status = .degraded then
    .error ⟨.SERVICE_UNAVAILABLE, .ocr .OCR_UNAVAILABLE,
      js "OCR dependencies unavailable: " ++ problemsText (problems report)⟩
  else .ok report

/-! ### The dependencies -/

/-- What readiness depends on. -/
inductive Dependency where
  | engine
  | renderer
  | defaultLanguage
  | queue
  | worker
  deriving DecidableEq

namespace Dependency

def all : List Dependency := [.engine, .renderer, .defaultLanguage, .queue, .worker]

def name : Dependency → JsString
  | .engine => js "engine"
  | .renderer => js "renderer"
  | .defaultLanguage => js "default language data"
  | .queue => js "queue"
  | .worker => js "worker"

def unavailable (config : OcrServiceConfig) (workerState : WorkerState) (found : OcrDependencies) :
    Dependency → Bool
  | .engine => found.engine.isNone
  | .renderer => found.rendererVersion.isNone
  | .defaultLanguage => !found.availability.defaultAvailable
  | .queue => !found.queueUp
  | .worker => config.workerEnabled && workerState != .running

theorem mem_all (dependency : Dependency) :
  dependency ∈ all
  := by
  cases dependency <;> decide

end Dependency

section

variable {config : OcrServiceConfig} {workerState : WorkerState} {found : OcrDependencies}
  {timestamp : ℕ}

theorem ready_iff :
  OcrHealthService.ready config workerState found = true
    ↔ ∀ dependency : Dependency, dependency.unavailable config workerState found = false
  := by
  constructor
  · intro h dependency
    simp only [OcrHealthService.ready, Bool.and_eq_true] at h
    obtain ⟨⟨⟨⟨hengine, hrenderer⟩, hlanguage⟩, hqueue⟩, hworker⟩ := h
    cases dependency with
    | engine => simp [Dependency.unavailable, hengine]
    | renderer => simp [Dependency.unavailable, hrenderer]
    | defaultLanguage => simp [Dependency.unavailable, hlanguage]
    | queue => simp [Dependency.unavailable, hqueue]
    | worker =>
        rw [Bool.or_eq_true, Bool.not_eq_true', beq_iff_eq] at hworker
        rcases hworker with hworker | rfl
        · simp [Dependency.unavailable, hworker]
        · simp [Dependency.unavailable]
  · intro h
    have hengine := h .engine
    have hrenderer := h .renderer
    have hlanguage := h .defaultLanguage
    have hqueue := h .queue
    have hworker := h .worker
    simp only [Dependency.unavailable, Option.isNone_eq_false_iff, Bool.not_eq_false',
      Bool.and_eq_false_iff, bne_eq_false_iff_eq] at hengine hrenderer hlanguage hqueue hworker
    simp only [OcrHealthService.ready, hengine, hrenderer, hlanguage, hqueue, Bool.and_self,
      Bool.true_and, Bool.or_eq_true, Bool.not_eq_true', beq_iff_eq]
    exact hworker

/-- The problems of a report are the dependencies that are not available. -/
theorem problems_check (henabled : config.enabled = true)
    (hworker : workerState = .disabled ↔ ¬ OcrWorkerService.Enabled config) :
  problems (OcrHealthService.check config workerState found timestamp)
    = (Dependency.all.filter (Dependency.unavailable config workerState found)).map Dependency.name
  := by
  have hdisabled : workerState = .disabled ↔ config.workerEnabled = false := by
    rw [hworker, OcrWorkerService.Enabled, henabled]
    simp
  have hone {P : Prop} [Decidable P] (dependency : Dependency)
      (h : dependency.unavailable config workerState found = false ↔ P) :
      ([dependency].filter (Dependency.unavailable config workerState found)).map Dependency.name
        = if P then [] else [dependency.name] := by
    by_cases hP : P
    · simp [hP, h.mpr hP]
    · simp [hP, Bool.eq_true_of_not_eq_false (mt h.mp hP)]
  have hall : Dependency.all
      = [.engine] ++ [.renderer] ++ [.defaultLanguage] ++ [.queue] ++ [.worker] := rfl
  simp only [problems, OcrHealthService.check, henabled, Bool.not_true, Bool.false_eq_true, if_false]
  rw [hall]
  simp only [List.filter_append, List.map_append]
  rw [hone (P := found.engine.isSome = true) .engine (by simp [Dependency.unavailable]),
    hone (P := found.rendererVersion.isSome = true) .renderer (by simp [Dependency.unavailable]),
    hone (P := found.availability.defaultAvailable = true) .defaultLanguage
      (by simp [Dependency.unavailable]),
    hone (P := (if found.queueUp then DependencyStatus.up else .down) = .up) .queue
      (by cases hup : found.queueUp <;> simp [Dependency.unavailable, hup]),
    hone (P := workerState = .running ∨ workerState = .disabled) .worker
      (by
        rw [hdisabled]
        cases hconfigured : config.workerEnabled <;>
          simp [Dependency.unavailable, hconfigured])]
  rfl

/-- A degraded report names a dependency. -/
theorem problemsText_of_mem {names : List JsString} {name : JsString} (hname : name ∈ names)
    (hne : name ≠ []) :
  problemsText names = (js ", ").intercalate names
  := by
  unfold problemsText
  rw [if_neg]
  intro hnil
  cases names with
  | nil => cases hname
  | cons first rest =>
      cases rest with
      | nil =>
          rw [List.mem_singleton.mp hname] at hne
          exact hne (by simpa [List.intercalate] using hnil)
      | cons second rest =>
          simp [List.intercalate, List.intersperse, js] at hnil

/-- A default language that the start-up accepts is read as its codes. -/
theorem requestedCodes_none
    (h : ∀ code ∈ split config.defaultLanguage 0x2B, isLanguageCode code = true) :
  OcrLanguagesService.requestedCodes config.toOcrConfig none = split config.defaultLanguage 0x2B
  := by
  change (split config.defaultLanguage 0x2B).map trim = split config.defaultLanguage 0x2B
  conv_rhs => rw [← List.map_id (split config.defaultLanguage 0x2B)]
  apply List.map_congr_left
  intro code hcode
  have hchars := (OcrLanguagesService.isLanguageCode_chars (h code hcode)).2
  exact trim_eq_self (fun u hu => (hchars u (List.mem_of_mem_head? hu)).1)
    fun u hu => (hchars u (List.mem_of_getLast? hu)).1

/-- While the default language is available, a request that names no language is accepted exactly when
the default language has no more codes than a job may have. -/
theorem resolve_none_iff {info : Option OcrEngineInfo} {now : ℕ}
    (hlanguage : ∀ code ∈ split config.defaultLanguage 0x2B, isLanguageCode code = true)
    (hdefault : (OcrLanguagesService.probe config info now).defaultAvailable = true) :
  (∃ language, OcrLanguagesService.resolve config.toOcrConfig
      (OcrLanguagesService.probe config info now).available none = .ok language)
    ↔ (split config.defaultLanguage 0x2B).eraseDups.length ≤ config.maxLanguagesPerJob
  := by
  have hcodes := OcrLanguagesService.defaultAvailable_iff.mp hdefault
  obtain ⟨code, hcode⟩ := List.exists_mem_of_ne_nil _
    (List.splitOn_ne_nil 0x2B config.defaultLanguage)
  have havailable := List.ne_nil_of_mem (hcodes code hcode)
  have hne := List.ne_nil_of_mem (List.mem_eraseDups.mpr hcode)
  constructor
  · rintro ⟨language, h⟩
    obtain ⟨-, -, hle, -, -⟩ := OcrLanguagesService.resolve_eq_ok_iff.mp h
    rwa [requestedCodes_none hlanguage] at hle
  · intro hle
    refine ⟨join (split config.defaultLanguage 0x2B).eraseDups 0x2B,
      OcrLanguagesService.resolve_eq_ok_iff.mpr ⟨havailable, ?_⟩⟩
    rw [requestedCodes_none hlanguage]
    exact ⟨hne, hle, fun c hc => ⟨hlanguage c (List.mem_eraseDups.mp hc),
      hcodes c (List.mem_eraseDups.mp hc)⟩, rfl⟩

end

/-- Once the worker is initialised, the endpoint answers while OCR is disabled or has everything it
depends on, and otherwise names exactly what is missing.  While it reports that OCR is ready, requests
that name no language are accepted, unless the default language has too many codes. -/
theorem readiness_reported (config : OcrServiceConfig) {worker₀ worker : OcrWorkerService.Lifecycle}
    {ts : List (Transition OcrWorkerService.Lifecycle OcrWorkerService.LifecycleLabel)}
    (hrun : (OcrWorkerService.lifecycle config).Run worker₀ ts worker)
    (hinit : (OcrWorkerService.lifecycle config).init worker₀)
    (hinitialised : worker.initialised = true) (found : OcrDependencies) (timestamp : ℕ) :
  ((∃ report, ocr (OcrHealthService.check config worker.state found timestamp) = .ok report)
      ↔ config.enabled = true →
        ∀ dependency : Dependency, dependency.unavailable config worker.state found = false)
    ∧ (∀ error, ocr (OcrHealthService.check config worker.state found timestamp) = .error error →
      ∃ missing : List Dependency, missing ≠ []
        ∧ (∀ dependency, dependency ∈ missing
          ↔ dependency.unavailable config worker.state found = true)
        ∧ error = ⟨.SERVICE_UNAVAILABLE, .ocr .OCR_UNAVAILABLE,
          js "OCR dependencies unavailable: "
            ++ (js ", ").intercalate (missing.map Dependency.name)⟩)
    ∧ ∀ report info checkedAt,
      ocr (OcrHealthService.check config worker.state found timestamp) = .ok report →
      report.status = .ready →
      found.availability = OcrLanguagesService.probe config info checkedAt →
      (∀ code ∈ split config.defaultLanguage 0x2B, isLanguageCode code = true) →
        ((∃ language, OcrLanguagesService.resolve config.toOcrConfig report.languages.available none
            = .ok language)
          ↔ (split config.defaultLanguage 0x2B).eraseDups.length ≤ config.maxLanguagesPerJob)
  := by
  have hworker := OcrWorkerService.Lifecycle.disabled_iff hrun hinit hinitialised
  have hmem (dependency : Dependency) : dependency
        ∈ Dependency.all.filter (Dependency.unavailable config worker.state found)
      ↔ dependency.unavailable config worker.state found = true := by
    rw [List.mem_filter]
    exact and_iff_right dependency.mem_all
  by_cases henabled : config.enabled = true
  · by_cases hready : OcrHealthService.ready config worker.state found = true
    · have hok : ocr (OcrHealthService.check config worker.state found timestamp)
          = .ok (OcrHealthService.check config worker.state found timestamp) := by
        simp [ocr, OcrHealthService.check, henabled, hready]
      rw [hok]
      refine ⟨⟨fun _ _ => ready_iff.mp hready, fun _ => ⟨_, rfl⟩⟩, fun _ h => (by cases h), ?_⟩
      intro report info checkedAt hreport _ havailability hlanguage
      obtain rfl := Except.ok.inj hreport
      have hdefault : found.availability.defaultAvailable = true := by
        simpa [Dependency.unavailable] using ready_iff.mp hready .defaultLanguage
      have hlist : (OcrHealthService.check config worker.state found timestamp).languages.available
          = found.availability.available := by
        simp [OcrHealthService.check, henabled]
      rw [hlist]
      rw [havailability] at hdefault ⊢
      exact resolve_none_iff hlanguage hdefault
    · have hfaulty : ∃ dependency : Dependency,
          dependency.unavailable config worker.state found = true := by
        by_contra hnone
        rw [not_exists] at hnone
        exact hready (ready_iff.mpr fun dependency => Bool.eq_false_iff.mpr (hnone dependency))
      obtain ⟨faulty, hfaulty⟩ := hfaulty
      have herror : ocr (OcrHealthService.check config worker.state found timestamp)
          = .error ⟨.SERVICE_UNAVAILABLE, .ocr .OCR_UNAVAILABLE,
            js "OCR dependencies unavailable: " ++ problemsText (problems
              (OcrHealthService.check config worker.state found timestamp))⟩ := by
        rw [ocr, if_pos]
        simp [OcrHealthService.check, henabled, hready]
      have hname : faulty.name ≠ [] := by
        cases faulty <;> decide
      rw [herror, problems_check henabled hworker,
        problemsText_of_mem (List.mem_map_of_mem ((hmem faulty).mpr hfaulty)) hname]
      refine ⟨⟨fun ⟨_, h⟩ => (by cases h), fun h => ?_⟩, ?_, fun _ _ _ h => by cases h⟩
      · rw [h henabled faulty] at hfaulty
        cases hfaulty
      · intro error h
        obtain rfl := Except.error.inj h
        exact ⟨_, List.ne_nil_of_mem ((hmem faulty).mpr hfaulty), hmem, rfl⟩
  · have hdisabled : OcrHealthService.check config worker.state found timestamp
        = OcrHealthService.check config .disabled found timestamp
        ∧ (OcrHealthService.check config worker.state found timestamp).status = .disabled := by
      simp [OcrHealthService.check, henabled]
    have hok : ocr (OcrHealthService.check config worker.state found timestamp)
        = .ok (OcrHealthService.check config worker.state found timestamp) := by
      rw [ocr, if_neg]
      rw [hdisabled.2]
      decide
    rw [hok]
    refine ⟨⟨fun _ h => absurd h henabled, fun _ => ⟨_, rfl⟩⟩, fun _ h => (by cases h), ?_⟩
    intro report info checkedAt hreport hready
    obtain rfl := Except.ok.inj hreport
    rw [hdisabled.2] at hready
    cases hready

/-- Everything is available. -/
def sampleDependencies : OcrDependencies where
  engine := some ⟨js "tesseract", some (js "5.3.4"), [js "eng", js "ind"]⟩
  rendererVersion := some (js "24.02.0")
  availability := OcrLanguagesService.probe defaultOcrServiceConfig
    (some ⟨js "tesseract", some (js "5.3.4"), [js "eng", js "ind"]⟩) 0
  queueUp := true
  counts := none

theorem readiness_reported_of_running :
  ∃ report, ocr (OcrHealthService.check defaultOcrServiceConfig .running sampleDependencies 0)
      = .ok report
    ∧ ∃ language, OcrLanguagesService.resolve defaultOcrConfig report.languages.available none
      = .ok language
  := by
  have hsome : ((OcrWorkerService.lifecycle defaultOcrServiceConfig).execute (fun _ => true)
      ⟨false, .disabled⟩ [.onModuleInit, .started]).any
      (fun worker => worker = ⟨true, .running⟩) = true := by
    decide
  obtain ⟨worker, hs, hend⟩ := (Option.any_eq_true _ _).mp hsome
  obtain rfl := of_decide_eq_true hend
  obtain ⟨ts, hrun, -⟩ := TransitionSystem.run_of_execute hs
  obtain ⟨hok, -, hdefault⟩ := readiness_reported _ hrun rfl rfl sampleDependencies 0
  obtain ⟨report, hreport⟩ := hok.mpr fun _ dependency => by cases dependency <;> decide
  have hready : report.status = .ready := by
    obtain rfl : OcrHealthService.check defaultOcrServiceConfig .running sampleDependencies 0
        = report := Except.ok.inj hreport
    decide
  exact ⟨report, hreport, (hdefault report _ _ hreport hready rfl (by decide)).mpr (by decide)⟩

end HealthController

end DocuAI
