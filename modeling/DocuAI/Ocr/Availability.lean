import Mathlib.Data.List.Sort
import DocuAI.Library.SingleFlight
import DocuAI.Ocr.Languages
import DocuAI.Ocr.Tesseract

/-!
# Availability of languages

A language is offered when it is configured and the engine has its data.  The engine is asked through
a cache: an answer serves for a minute, and calls that need another one share one probe, which runs
two commands of the engine.
-/

namespace DocuAI

open JsString

/-- The settings that readiness depends on besides those of the extraction. -/
structure OcrServiceConfig extends OcrConfig where
  /-- Codes the deployment intends to offer. -/
  supportedLanguages : List JsString
  workerEnabled : Bool
  queueName : JsString
  concurrency : ℕ

def DEFAULT_OCR_LANGUAGES : List JsString :=
  [js "ind", js "eng", js "msa", js "ara", js "chi_sim", js "jpn", js "kor", js "deu", js "fra",
    js "spa"]

/-- The settings the program has by default. -/
def defaultOcrServiceConfig : OcrServiceConfig where
  toOcrConfig := defaultOcrConfig
  supportedLanguages := DEFAULT_OCR_LANGUAGES
  workerEnabled := true
  queueName := js "docuai-ocr"
  concurrency := 1

structure OcrEngineInfo where
  name : JsString
  version : Option JsString
  installedLanguages : List JsString
  deriving DecidableEq

namespace TesseractOcrProvider

/-- The codes that `tesseract --list-langs` lists, sorted. -/
def parseLanguageList (output : JsString) : List JsString :=
  (((split output lineFeed).map trim).filter fun line =>
    isLanguageCode line && line != js "osd").insertionSort (· ≤ ·)

/-- The group of `/tesseract\s+v?([^\s]+)/i` when it matches at the start of a text. -/
def versionAt (s : JsString) : Option JsString :=
  if !(js "tesseract").isPrefixOf (s.map asciiLower) then none
  else
    let rest := s.drop (js "tesseract").length
    let word := (rest.dropWhile isWhiteSpace).takeWhile fun u => !isWhiteSpace u
    if !(rest.head?.any isWhiteSpace) || word = [] then none
    else if word.head?.map asciiLower = some 0x76 ∧ word.drop 1 ≠ [] then some (word.drop 1)
    else some word

/-- The version in the output of `tesseract --version`. -/
def engineVersion (output : JsString) : Option JsString :=
  output.tails.findSome? versionAt

/-- What the engine is and what it has installed, `none` when it does not run. -/
def describe (version langs : Except CommandError RunCommandResult) : Option OcrEngineInfo :=
  match version, langs with
  | .ok version, .ok langs =>
      if version.exitCode ≠ some 0 then none
      else
        some {
          name := js "tesseract"
          version := engineVersion (Utf8.decode version.stdout ++ version.stderr)
          installedLanguages := parseLanguageList (Utf8.decode langs.stdout ++ langs.stderr) }
  | _, _ => none

end TesseractOcrProvider

/-- What comes of `tesseract --version` and `tesseract --list-langs`. -/
structure EngineReport where
  version : Except CommandError RunCommandResult
  langs : Except CommandError RunCommandResult

structure LanguageAvailability where
  /-- Configured codes whose data is installed. -/
  available : List JsString
  /-- Configured codes without installed data. -/
  missing : List JsString
  /-- Whether every code of the default language is available. -/
  defaultAvailable : Bool
  defaultLanguage : JsString
  checkedAt : ℕ
  deriving DecidableEq

/-- The codes an answer of the engine says are installed. -/
def installedLanguages (info : Option OcrEngineInfo) : List JsString :=
  (info.map OcrEngineInfo.installedLanguages).getD []

/-- The engine runs, and the code is a line of its list, white space aside. -/
def EngineReport.Lists (report : EngineReport) (code : JsString) : Prop :=
  ∃ version langs, report.version = .ok version ∧ version.exitCode = some 0
    ∧ report.langs = .ok langs
    ∧ (∃ line ∈ split (Utf8.decode langs.stdout ++ langs.stderr) lineFeed, trim line = code)
    ∧ isLanguageCode code = true ∧ code ≠ js "osd"

namespace TesseractOcrProvider

theorem mem_parseLanguageList {output code : JsString} :
  code ∈ parseLanguageList output
    ↔ (∃ line ∈ split output lineFeed, trim line = code) ∧ isLanguageCode code = true
      ∧ code ≠ js "osd"
  := by
  simp [parseLanguageList]

/-- The codes that are installed, as the provider describes the engine, are those it lists. -/
theorem mem_installedLanguages_describe {report : EngineReport} {code : JsString} :
  code ∈ installedLanguages (describe report.version report.langs) ↔ report.Lists code
  := by
  obtain ⟨version, langs⟩ := report
  cases version with
  | error error => simp [describe, installedLanguages, EngineReport.Lists]
  | ok version =>
      cases langs with
      | error error => simp [describe, installedLanguages, EngineReport.Lists]
      | ok langs =>
          by_cases hexit : version.exitCode = some 0
          · simp [describe, installedLanguages, EngineReport.Lists, hexit, mem_parseLanguageList]
          · simp [describe, installedLanguages, EngineReport.Lists, hexit]

end TesseractOcrProvider

namespace OcrLanguagesService

def REFRESH_MS : ℕ := 60000

/-- What an answer of the engine means. -/
def probe (config : OcrServiceConfig) (info : Option OcrEngineInfo) (now : ℕ) :
    LanguageAvailability :=
  let installed := installedLanguages info
  let available := config.supportedLanguages.filter installed.contains
  let missing := config.supportedLanguages.filter fun code => !installed.contains code
  let defaultCodes := split config.defaultLanguage 0x2B
  { available, missing
    defaultAvailable := defaultCodes.all available.contains
    defaultLanguage := config.defaultLanguage
    checkedAt := now }

/-- The calls of `availability`, over what comes of the commands of the probes. -/
def system (config : OcrServiceConfig) :
    TransitionSystem (SingleFlight.State EngineReport LanguageAvailability)
      (SingleFlight.Label EngineReport) :=
  SingleFlight.system
    (fun report => probe config (TesseractOcrProvider.describe report.version report.langs))
    LanguageAvailability.checkedAt REFRESH_MS

section

variable {config : OcrServiceConfig} {info : Option OcrEngineInfo} {now : ℕ} {code : JsString}

theorem mem_available :
  code ∈ (probe config info now).available
    ↔ code ∈ config.supportedLanguages ∧ code ∈ installedLanguages info
  := by
  simp [probe]

theorem mem_missing :
  code ∈ (probe config info now).missing
    ↔ code ∈ config.supportedLanguages ∧ code ∉ installedLanguages info
  := by
  simp [probe]

/-- Every configured code is available or missing. -/
theorem available_append_missing_perm (config : OcrServiceConfig) (info : Option OcrEngineInfo)
    (now : ℕ) :
  ((probe config info now).available ++ (probe config info now).missing).Perm
    config.supportedLanguages
  :=
  List.filter_append_perm _ _

theorem defaultAvailable_iff :
  (probe config info now).defaultAvailable = true
    ↔ ∀ code ∈ split config.defaultLanguage 0x2B, code ∈ (probe config info now).available
  := by
  simp [probe]

/-- The codes of a resolved language. -/
theorem split_of_resolve {config : OcrConfig} {available : List JsString}
    {requested : Option JsString} {language : JsString}
    (h : resolve config available requested = .ok language) :
  ∀ code ∈ split language 0x2B, isLanguageCode code = true ∧ code ∈ available
  := by
  obtain ⟨-, hne, -, hcodes, rfl⟩ := resolve_eq_ok_iff.mp h
  have hsplit : split (join (requestedCodes config requested).eraseDups 0x2B) 0x2B
      = (requestedCodes config requested).eraseDups := by
    apply List.splitOn_intercalate
    · intro code hcode hmem
      exact ((isLanguageCode_chars (hcodes code hcode).1).2 _ hmem).2 rfl
    · exact hne
  rw [hsplit]
  exact hcodes

end

/-- One probe runs at a time.  What a call is answered came from the engine within the last minute, or
by a probe under way when the call was made; a forced call waits for a probe always.  An answer
divides the configured codes into those the engine lists and those it does not, and a request that it
lets through has configured and listed codes only. -/
theorem languages_offered (config : OcrServiceConfig)
    {s₀ s : SingleFlight.State EngineReport LanguageAvailability}
    {ts : List (Transition (SingleFlight.State EngineReport LanguageAvailability)
      (SingleFlight.Label EngineReport))}
    (hrun : (system config).Run s₀ ts s) (hinit : (system config).init s₀) :
  (∀ p ∈ s.probes.rows, ∀ p' ∈ s.probes.rows, p.phase.underWay = true → p'.phase.underWay = true →
      p = p')
    ∧ ∀ c ∈ s.calls.rows, ∀ a, c.phase = .returned a →
      (c.force = false ∧ c.calledAt < a.checkedAt + REFRESH_MS
          ∨ SingleFlight.UnderWayAt s c.calledAt a)
        ∧ ∃ report, (report, a.checkedAt) ∈ s.reports
          ∧ (a.available ++ a.missing).Perm config.supportedLanguages
          ∧ (∀ code ∈ a.available, report.Lists code)
          ∧ (∀ code ∈ a.missing, ¬report.Lists code)
          ∧ (a.defaultAvailable = true
            ↔ ∀ code ∈ split config.defaultLanguage 0x2B, code ∈ a.available)
          ∧ ∀ requested language,
            resolve config.toOcrConfig a.available requested = .ok language →
              ∀ code ∈ split language 0x2B, isLanguageCode code = true
                ∧ code ∈ config.supportedLanguages ∧ report.Lists code
  := by
  have hinvariant := SingleFlight.invariant_of_run hrun hinit
  refine ⟨fun p hp p' hp' h h' => hinvariant.eq_of_underWay hp hp' h h', fun c hc a hphase => ?_⟩
  obtain ⟨⟨report, reportedAt, hreport, rfl⟩, hserved⟩ := hinvariant.answered hc hphase
  refine ⟨?_, report, hreport, available_append_missing_perm config _ reportedAt, ?_, ?_,
    defaultAvailable_iff, ?_⟩
  · rcases hserved with ⟨hforce, hfresh⟩ | hunderWay
    · refine .inl ⟨hforce, ?_⟩
      simp only [REFRESH_MS] at hfresh ⊢
      omega
    · exact .inr hunderWay
  · intro code hcode
    exact TesseractOcrProvider.mem_installedLanguages_describe.mp (mem_available.mp hcode).2
  · intro code hcode hlists
    exact (mem_missing.mp hcode).2 (TesseractOcrProvider.mem_installedLanguages_describe.mpr hlists)
  · intro requested language hresolve code hcode
    obtain ⟨hcode, havailable⟩ := split_of_resolve hresolve code hcode
    obtain ⟨hconfigured, hinstalled⟩ := mem_available.mp havailable
    exact ⟨hcode, hconfigured, TesseractOcrProvider.mem_installedLanguages_describe.mp hinstalled⟩

/-- A command that ends well, with the output. -/
def sampleOutput (output : String) : Except CommandError RunCommandResult :=
  .ok { exitCode := some 0, signal := none, stdout := (js output).map (·.toUInt8), stderr := [],
        timedOut := false, durationMs := 10 }

/-- A second call that shares the probe of the first, and a third that is answered from the cache. -/
def sharedProbe : List (SingleFlight.Label EngineReport) :=
  [.call 0 false 0, .tick 5, .call 1 true 0,
    .answer 0 ⟨sampleOutput "tesseract 5.3.0\n",
      sampleOutput "List of available languages (2):\neng\nosd\nnld\n"⟩,
    .finish 0, .resume 0, .resume 1, .tick 59999, .call 2 false 1]

/-- The second call is answered by the probe of the first, and the third one gets the same answer. -/
theorem languages_offered_of_sharedProbe :
  ∃ ts s, (system defaultOcrServiceConfig).Run
      { now := 0, cache := none, refreshing := none, probes := .empty, calls := .empty,
        reports := [] } ts s
    ∧ (∃ c ∈ s.calls.rows, ∃ a, c.phase = .returned a ∧ c.force = true
      ∧ SingleFlight.UnderWayAt s c.calledAt a)
    ∧ ∃ c ∈ s.calls.rows, ∃ a, c.phase = .returned a ∧ c.calledAt = 60004
      ∧ a.available = [js "eng"] ∧ ∃ report, (report, a.checkedAt) ∈ s.reports
        ∧ report.Lists (js "eng") ∧ ∀ code ∈ a.missing, ¬report.Lists code
  := by
  have hsome : ((system defaultOcrServiceConfig).execute (fun _ => true)
      { now := 0, cache := none, refreshing := none, probes := .empty, calls := .empty,
        reports := [] } sharedProbe).any
      (fun s => (s.calls.rows.any fun c => c.force && match c.phase with
          | .returned _ => true
          | _ => false)
        && s.calls.rows.any fun c => c.calledAt = 60004 && match c.phase with
          | .returned a => a.available = [js "eng"]
          | _ => false) = true := by
    decide +kernel
  obtain ⟨s, hs, hend⟩ := (Option.any_eq_true _ _).mp hsome
  obtain ⟨ts, hrun, -⟩ := TransitionSystem.run_of_execute hs
  have hanswers := (languages_offered _ hrun ⟨rfl, rfl, rfl, rfl, rfl⟩).2
  rw [Bool.and_eq_true] at hend
  obtain ⟨hforced, hlast⟩ := hend
  refine ⟨ts, s, hrun, ?_, ?_⟩
  · obtain ⟨c, hc, hphase⟩ := List.any_eq_true.mp hforced
    rw [Bool.and_eq_true] at hphase
    obtain ⟨hforce, hphase⟩ := hphase
    split at hphase
    · rename_i a hreturned
      refine ⟨c, hc, a, hreturned, hforce, ?_⟩
      rcases (hanswers c hc a hreturned).1 with ⟨hnot, -⟩ | hunderWay
      · cases hnot.symm.trans hforce
      · exact hunderWay
    · cases hphase
  · obtain ⟨c, hc, hphase⟩ := List.any_eq_true.mp hlast
    rw [Bool.and_eq_true] at hphase
    obtain ⟨hcalledAt, hphase⟩ := hphase
    split at hphase
    · rename_i a hreturned
      obtain ⟨-, report, hreport, -, hlists, hmissing, -⟩ := hanswers c hc a hreturned
      have havailable : a.available = [js "eng"] := of_decide_eq_true hphase
      refine ⟨c, hc, a, hreturned, of_decide_eq_true hcalledAt, havailable, report, hreport, ?_,
        hmissing⟩
      apply hlists
      rw [havailable]
      exact List.mem_cons_self
    · cases hphase

end OcrLanguagesService

end DocuAI
