import DocuAI.Ocr.Text

/-!
# Configuration

The settings the modelled services read.
-/

namespace DocuAI

structure OcrLimits where
  maxFileSizeBytes : ℕ
  maxPdfPages : ℕ
  renderDpi : ℕ
  maxRenderPixels : ℕ
  maxImagePixels : ℕ
  maxTextPerPage : ℕ
  maxTextPerDocument : ℕ
  /-- QUEUED and PROCESSING jobs one user may have at once. -/
  maxActiveJobsPerUser : ℕ
  /-- Total jobs of one document, those of retries and reprocessing included. -/
  maxJobsPerDocument : ℕ

/-- The bounds the environment is validated against at start-up.  A limit that is loaded as another
number than the one that was validated may lie outside of them, and is excluded where they are
assumed. -/
structure OcrLimits.Validated (limits : OcrLimits) : Prop where
  maxFileSizeBytes : 1024 ≤ limits.maxFileSizeBytes
  maxPdfPages : 1 ≤ limits.maxPdfPages ∧ limits.maxPdfPages ≤ 2000
  renderDpi : 72 ≤ limits.renderDpi ∧ limits.renderDpi ≤ 600
  maxRenderPixels : 250000 ≤ limits.maxRenderPixels ∧ limits.maxRenderPixels ≤ 200000000
  maxImagePixels : 250000 ≤ limits.maxImagePixels ∧ limits.maxImagePixels ≤ 200000000
  maxTextPerPage : 1000 ≤ limits.maxTextPerPage ∧ limits.maxTextPerPage ≤ 10000000
  maxTextPerDocument : 1000 ≤ limits.maxTextPerDocument ∧ limits.maxTextPerDocument ≤ 100000000
  maxActiveJobsPerUser : 1 ≤ limits.maxActiveJobsPerUser
  maxJobsPerDocument : 1 ≤ limits.maxJobsPerDocument

/-- The limits the program has by default. -/
def defaultLimits : OcrLimits where
  maxFileSizeBytes := 52428800
  maxPdfPages := 100
  renderDpi := 150
  maxRenderPixels := 20000000
  maxImagePixels := 25000000
  maxTextPerPage := 200000
  maxTextPerDocument := 2000000
  maxActiveJobsPerUser := 5
  maxJobsPerDocument := 20

structure OcrConfig where
  enabled : Bool
  /-- The language of a request that names none. -/
  defaultLanguage : JsString
  maxLanguagesPerJob : ℕ
  maxAttempts : ℕ
  jobTimeoutMs : ℕ
  pageTimeoutMs : ℕ
  /-- PROCESSING jobs without a heartbeat for this long are considered interrupted. -/
  staleJobMs : ℕ
  limits : OcrLimits
  nativeText : NativeTextRule

/-- The settings the program has by default. -/
def defaultOcrConfig : OcrConfig where
  enabled := true
  defaultLanguage := js "ind+eng"
  maxLanguagesPerJob := 3
  maxAttempts := 3
  jobTimeoutMs := 600000
  pageTimeoutMs := 60000
  staleJobMs := 120000
  limits := defaultLimits
  nativeText := { minChars := 20, minAlphanumericRatio := 1 / 2 }

structure DocumentsConfig where
  maxFileSizeBytes : ℕ
  allowedMimeTypes : List JsString

structure AuthConfig where
  accessTtlSeconds : ℕ
  refreshTtlSeconds : ℕ

structure StorageConfig where
  uploadUrlTtlSeconds : ℕ

end DocuAI
