import Mathlib.Algebra.Order.Field.Power
import Mathlib.Tactic.Linarith
import Mathlib.Tactic.FieldSimp
import DocuAI.Ocr.Poppler

/-!
# The environment

The integers of the configuration are read from strings twice: the validator converts a string and
checks the number against the schema at start-up, and the configuration is loaded from the string
itself.  The validator's conversion is a parameter.
-/

namespace DocuAI

open JsString PopplerService

namespace Configuration

/-! ### The schema -/

/-- The variables that the schema validates as integers in a range. -/
inductive IntegerVariable where
  | PORT
  | THROTTLE_LIMIT
  | THROTTLE_TTL
  | AUTH_LOGIN_RATE_LIMIT
  | AUTH_LOGIN_RATE_WINDOW
  | AUTH_REGISTER_RATE_LIMIT
  | AUTH_REGISTER_RATE_WINDOW
  | AUTH_REFRESH_RATE_LIMIT
  | AUTH_REFRESH_RATE_WINDOW
  | S3_PRESIGNED_UPLOAD_EXPIRES_SECONDS
  | S3_PRESIGNED_DOWNLOAD_EXPIRES_SECONDS
  | MAX_DOCUMENT_FILE_SIZE_BYTES
  | DOCUMENT_PRESIGN_RATE_LIMIT
  | DOCUMENT_PRESIGN_RATE_WINDOW
  | OCR_MAX_LANGUAGES_PER_JOB
  | OCR_MAX_CONCURRENCY
  | OCR_MAX_RETRIES
  | OCR_RETRY_BACKOFF_MS
  | OCR_JOB_TIMEOUT_MS
  | OCR_PAGE_TIMEOUT_MS
  | OCR_STALE_JOB_MS
  | OCR_RECONCILE_INTERVAL_MS
  | OCR_MAX_FILE_SIZE_BYTES
  | OCR_MAX_PDF_PAGES
  | OCR_RENDER_DPI
  | OCR_MAX_RENDER_PIXELS
  | OCR_MAX_IMAGE_PIXELS
  | OCR_MAX_TEXT_PER_PAGE
  | OCR_MAX_TEXT_PER_DOCUMENT
  | OCR_MAX_ACTIVE_JOBS_PER_USER
  | OCR_MAX_JOBS_PER_DOCUMENT
  | OCR_NATIVE_TEXT_MIN_CHARS
  | OCR_REQUEST_RATE_LIMIT
  | OCR_REQUEST_RATE_WINDOW
  deriving DecidableEq

/-- `Joi.number().integer()` with its bounds and its default. -/
structure NumberSchema where
  min : ℤ
  max : Option ℤ
  default : Option ℤ

def envValidationSchema : IntegerVariable → NumberSchema
  | .PORT => ⟨1, some 65535, some 4310⟩
  | .THROTTLE_LIMIT => ⟨1, none, some 100⟩
  | .THROTTLE_TTL => ⟨1, none, some 60⟩
  | .AUTH_LOGIN_RATE_LIMIT => ⟨1, none, some 10⟩
  | .AUTH_LOGIN_RATE_WINDOW => ⟨1, none, some 60⟩
  | .AUTH_REGISTER_RATE_LIMIT => ⟨1, none, some 5⟩
  | .AUTH_REGISTER_RATE_WINDOW => ⟨1, none, some 60⟩
  | .AUTH_REFRESH_RATE_LIMIT => ⟨1, none, some 20⟩
  | .AUTH_REFRESH_RATE_WINDOW => ⟨1, none, some 60⟩
  | .S3_PRESIGNED_UPLOAD_EXPIRES_SECONDS => ⟨60, some 3600, some 900⟩
  | .S3_PRESIGNED_DOWNLOAD_EXPIRES_SECONDS => ⟨60, some 900, some 300⟩
  | .MAX_DOCUMENT_FILE_SIZE_BYTES => ⟨1024, some (5 * 1024 * 1024 * 1024), some 52428800⟩
  | .DOCUMENT_PRESIGN_RATE_LIMIT => ⟨1, none, some 30⟩
  | .DOCUMENT_PRESIGN_RATE_WINDOW => ⟨1, none, some 60⟩
  | .OCR_MAX_LANGUAGES_PER_JOB => ⟨1, some 5, some 3⟩
  | .OCR_MAX_CONCURRENCY => ⟨1, some 8, some 1⟩
  | .OCR_MAX_RETRIES => ⟨0, some 10, some 2⟩
  | .OCR_RETRY_BACKOFF_MS => ⟨100, none, some 5000⟩
  | .OCR_JOB_TIMEOUT_MS => ⟨10000, some 7200000, some 600000⟩
  | .OCR_PAGE_TIMEOUT_MS => ⟨5000, some 900000, some 60000⟩
  | .OCR_STALE_JOB_MS => ⟨10000, none, none⟩
  | .OCR_RECONCILE_INTERVAL_MS => ⟨5000, none, some 60000⟩
  | .OCR_MAX_FILE_SIZE_BYTES => ⟨1024, some (5 * 1024 * 1024 * 1024), none⟩
  | .OCR_MAX_PDF_PAGES => ⟨1, some 2000, some 100⟩
  | .OCR_RENDER_DPI => ⟨72, some 600, some 150⟩
  | .OCR_MAX_RENDER_PIXELS => ⟨250000, some 200000000, some 20000000⟩
  | .OCR_MAX_IMAGE_PIXELS => ⟨250000, some 200000000, some 25000000⟩
  | .OCR_MAX_TEXT_PER_PAGE => ⟨1000, some 10000000, some 200000⟩
  | .OCR_MAX_TEXT_PER_DOCUMENT => ⟨1000, some 100000000, some 2000000⟩
  | .OCR_MAX_ACTIVE_JOBS_PER_USER => ⟨1, none, some 5⟩
  | .OCR_MAX_JOBS_PER_DOCUMENT => ⟨1, none, some 20⟩
  | .OCR_NATIVE_TEXT_MIN_CHARS => ⟨1, none, some 20⟩
  | .OCR_REQUEST_RATE_LIMIT => ⟨1, none, some 10⟩
  | .OCR_REQUEST_RATE_WINDOW => ⟨1, none, some 60⟩

/-- The integers that the schema lets pass. -/
def NumberSchema.InRange (schema : NumberSchema) (n : ℤ) : Prop :=
  schema.min ≤ n ∧ ∀ max ∈ schema.max, n ≤ max

/-- A default is a number that the schema lets pass. -/
theorem inRange_default (name : IntegerVariable) :
  ∀ n ∈ (envValidationSchema name).default, (envValidationSchema name).InRange n
  := by
  cases name <;> simp [envValidationSchema, NumberSchema.InRange]

/-- No negative number passes. -/
theorem nonneg_of_inRange {name : IntegerVariable} {n : ℤ}
    (h : (envValidationSchema name).InRange n) :
  0 ≤ n
  := by
  have hmin : 0 ≤ (envValidationSchema name).min := by
    cases name <;> decide
  exact hmin.trans h.1

/-! ### Numbers in strings -/

/-- A sign and what follows it, and whether it is a minus. -/
def readSign : JsString → Bool × JsString
  | [] => (false, [])
  | u :: rest =>
      if u = 0x2D then (true, rest)
      else if u = 0x2B then (false, rest)
      else (false, u :: rest)

/-- A number with its sign. -/
def signed (negative : Bool) (n : ℕ) : ℤ :=
  if negative then -n else n

/-- The double nearest to a natural number, the even one of two. -/
def nearestDouble (n : ℕ) : ℕ :=
  let unit := 2 ^ (n.log2 - 52)
  if 2 * (n % unit) < unit ∨ (2 * (n % unit) = unit ∧ n / unit % 2 = 0) then n / unit * unit
  else (n / unit + 1) * unit

/-- `Number.parseInt` with the radix 10, `none` where it is not a number: white space, a sign and
digits, whatever follows them. -/
def parseInt (value : JsString) : Option ℤ :=
  let (negative, unsigned) := readSign (value.dropWhile isWhiteSpace)
  let digits := unsigned.takeWhile isDigit
  if digits = [] then none
  else some (signed negative (nearestDouble (PopplerService.parseInt digits)))

/-- A decimal number as it is spelled: a sign, the digits before and after the decimal point, and
an exponent. -/
structure Decimal where
  negative : Bool
  whole : JsString
  fraction : JsString
  exponent : ℤ
  deriving DecidableEq

/-- The number without its sign. -/
def Decimal.magnitude (decimal : Decimal) : ℚ :=
  PopplerService.parseInt (decimal.whole ++ decimal.fraction)
    * 10 ^ (decimal.exponent - decimal.fraction.length)

def Decimal.value (decimal : Decimal) : ℚ :=
  if decimal.negative then -decimal.magnitude else decimal.magnitude

/-- The digits after a decimal point, if there is one, and what follows them. -/
def readFraction : JsString → JsString × JsString
  | [] => ([], [])
  | u :: rest =>
      if u = decimalPoint then (rest.takeWhile isDigit, rest.dropWhile isDigit)
      else ([], u :: rest)

/-- The exponent of a number, zero if there is none, and what follows it. -/
def readExponent : JsString → Option (ℤ × JsString)
  | [] => some (0, [])
  | u :: rest =>
      if u = 0x45 ∨ u = 0x65 then
        let (negative, unsigned) := readSign rest
        let digits := unsigned.takeWhile isDigit
        if digits = [] then none
        else some (signed negative (PopplerService.parseInt digits), unsigned.dropWhile isDigit)
      else some (0, u :: rest)

/-- The decimal number in a string: white space, a sign, digits with a decimal point or without, an
exponent, and white space. -/
def readDecimal (value : JsString) : Option Decimal :=
  let (negative, unsigned) := readSign (value.dropWhile isWhiteSpace)
  let whole := unsigned.takeWhile isDigit
  let (fraction, rest) := readFraction (unsigned.dropWhile isDigit)
  if whole = [] ∧ fraction = [] then none
  else
    (readExponent rest).bind fun (exponent, rest) =>
      if rest.all isWhiteSpace then some { negative, whole, fraction, exponent } else none

/-! ### Loading -/

/-- The variables as the process has them. -/
abbrev ProcessEnv := IntegerVariable → Option JsString

def toInt (value : Option JsString) (fallback : ℤ) : ℤ :=
  (parseInt (value.getD [])).getD fallback

structure ThrottleConfig where
  limit : ℤ
  ttlSeconds : ℤ

structure RateLimitRule where
  limit : ℤ
  windowSeconds : ℤ

structure AuthRateLimits where
  login : RateLimitRule
  register : RateLimitRule
  refresh : RateLimitRule

structure StorageTtls where
  uploadUrlTtlSeconds : ℤ
  downloadUrlTtlSeconds : ℤ

structure DocumentsNumbers where
  maxFileSizeBytes : ℤ
  presign : RateLimitRule

structure OcrLimitNumbers where
  maxFileSizeBytes : ℤ
  maxPdfPages : ℤ
  renderDpi : ℤ
  maxRenderPixels : ℤ
  maxImagePixels : ℤ
  maxTextPerPage : ℤ
  maxTextPerDocument : ℤ
  maxActiveJobsPerUser : ℤ
  maxJobsPerDocument : ℤ

structure OcrNumbers where
  maxLanguagesPerJob : ℤ
  concurrency : ℤ
  maxAttempts : ℤ
  retryBackoffMs : ℤ
  jobTimeoutMs : ℤ
  pageTimeoutMs : ℤ
  staleJobMs : ℤ
  reconcileIntervalMs : ℤ
  limits : OcrLimitNumbers
  minChars : ℤ
  request : RateLimitRule

/-- The integers of the configuration. -/
structure AppNumbers where
  port : ℤ
  throttle : ThrottleConfig
  auth : AuthRateLimits
  storage : StorageTtls
  documents : DocumentsNumbers
  ocr : OcrNumbers

section

variable (env : ProcessEnv)

def loadAuthConfig : AuthRateLimits where
  login :=
    { limit := toInt (env .AUTH_LOGIN_RATE_LIMIT) 10
      windowSeconds := toInt (env .AUTH_LOGIN_RATE_WINDOW) 60 }
  register :=
    { limit := toInt (env .AUTH_REGISTER_RATE_LIMIT) 5
      windowSeconds := toInt (env .AUTH_REGISTER_RATE_WINDOW) 60 }
  refresh :=
    { limit := toInt (env .AUTH_REFRESH_RATE_LIMIT) 20
      windowSeconds := toInt (env .AUTH_REFRESH_RATE_WINDOW) 60 }

def loadStorageConfig : StorageTtls where
  uploadUrlTtlSeconds := toInt (env .S3_PRESIGNED_UPLOAD_EXPIRES_SECONDS) 900
  downloadUrlTtlSeconds := toInt (env .S3_PRESIGNED_DOWNLOAD_EXPIRES_SECONDS) 300

def loadDocumentsConfig : DocumentsNumbers where
  maxFileSizeBytes := toInt (env .MAX_DOCUMENT_FILE_SIZE_BYTES) 52428800
  presign :=
    { limit := toInt (env .DOCUMENT_PRESIGN_RATE_LIMIT) 30
      windowSeconds := toInt (env .DOCUMENT_PRESIGN_RATE_WINDOW) 60 }

def loadOcrConfig : OcrNumbers where
  maxLanguagesPerJob := toInt (env .OCR_MAX_LANGUAGES_PER_JOB) 3
  concurrency := toInt (env .OCR_MAX_CONCURRENCY) 1
  maxAttempts := toInt (env .OCR_MAX_RETRIES) 2 + 1
  retryBackoffMs := toInt (env .OCR_RETRY_BACKOFF_MS) 5000
  jobTimeoutMs := toInt (env .OCR_JOB_TIMEOUT_MS) 600000
  pageTimeoutMs := toInt (env .OCR_PAGE_TIMEOUT_MS) 60000
  staleJobMs := toInt (env .OCR_STALE_JOB_MS) 120000
  reconcileIntervalMs := toInt (env .OCR_RECONCILE_INTERVAL_MS) 60000
  limits :=
    { maxFileSizeBytes :=
        toInt (env .OCR_MAX_FILE_SIZE_BYTES) (toInt (env .MAX_DOCUMENT_FILE_SIZE_BYTES) 52428800)
      maxPdfPages := toInt (env .OCR_MAX_PDF_PAGES) 100
      renderDpi := toInt (env .OCR_RENDER_DPI) 150
      maxRenderPixels := toInt (env .OCR_MAX_RENDER_PIXELS) 20000000
      maxImagePixels := toInt (env .OCR_MAX_IMAGE_PIXELS) 25000000
      maxTextPerPage := toInt (env .OCR_MAX_TEXT_PER_PAGE) 200000
      maxTextPerDocument := toInt (env .OCR_MAX_TEXT_PER_DOCUMENT) 2000000
      maxActiveJobsPerUser := toInt (env .OCR_MAX_ACTIVE_JOBS_PER_USER) 5
      maxJobsPerDocument := toInt (env .OCR_MAX_JOBS_PER_DOCUMENT) 20 }
  minChars := toInt (env .OCR_NATIVE_TEXT_MIN_CHARS) 20
  request :=
    { limit := toInt (env .OCR_REQUEST_RATE_LIMIT) 10
      windowSeconds := toInt (env .OCR_REQUEST_RATE_WINDOW) 60 }

def loadConfiguration : AppNumbers where
  port := toInt (env .PORT) 4310
  throttle :=
    { limit := toInt (env .THROTTLE_LIMIT) 100
      ttlSeconds := toInt (env .THROTTLE_TTL) 60 }
  auth := loadAuthConfig env
  storage := loadStorageConfig env
  documents := loadDocumentsConfig env
  ocr := loadOcrConfig env

/-- The number that the configuration has from a variable; the attempts are one more than the
retries. -/
def AppNumbers.taken (config : AppNumbers) : IntegerVariable → ℤ
  | .PORT => config.port
  | .THROTTLE_LIMIT => config.throttle.limit
  | .THROTTLE_TTL => config.throttle.ttlSeconds
  | .AUTH_LOGIN_RATE_LIMIT => config.auth.login.limit
  | .AUTH_LOGIN_RATE_WINDOW => config.auth.login.windowSeconds
  | .AUTH_REGISTER_RATE_LIMIT => config.auth.register.limit
  | .AUTH_REGISTER_RATE_WINDOW => config.auth.register.windowSeconds
  | .AUTH_REFRESH_RATE_LIMIT => config.auth.refresh.limit
  | .AUTH_REFRESH_RATE_WINDOW => config.auth.refresh.windowSeconds
  | .S3_PRESIGNED_UPLOAD_EXPIRES_SECONDS => config.storage.uploadUrlTtlSeconds
  | .S3_PRESIGNED_DOWNLOAD_EXPIRES_SECONDS => config.storage.downloadUrlTtlSeconds
  | .MAX_DOCUMENT_FILE_SIZE_BYTES => config.documents.maxFileSizeBytes
  | .DOCUMENT_PRESIGN_RATE_LIMIT => config.documents.presign.limit
  | .DOCUMENT_PRESIGN_RATE_WINDOW => config.documents.presign.windowSeconds
  | .OCR_MAX_LANGUAGES_PER_JOB => config.ocr.maxLanguagesPerJob
  | .OCR_MAX_CONCURRENCY => config.ocr.concurrency
  | .OCR_MAX_RETRIES => config.ocr.maxAttempts - 1
  | .OCR_RETRY_BACKOFF_MS => config.ocr.retryBackoffMs
  | .OCR_JOB_TIMEOUT_MS => config.ocr.jobTimeoutMs
  | .OCR_PAGE_TIMEOUT_MS => config.ocr.pageTimeoutMs
  | .OCR_STALE_JOB_MS => config.ocr.staleJobMs
  | .OCR_RECONCILE_INTERVAL_MS => config.ocr.reconcileIntervalMs
  | .OCR_MAX_FILE_SIZE_BYTES => config.ocr.limits.maxFileSizeBytes
  | .OCR_MAX_PDF_PAGES => config.ocr.limits.maxPdfPages
  | .OCR_RENDER_DPI => config.ocr.limits.renderDpi
  | .OCR_MAX_RENDER_PIXELS => config.ocr.limits.maxRenderPixels
  | .OCR_MAX_IMAGE_PIXELS => config.ocr.limits.maxImagePixels
  | .OCR_MAX_TEXT_PER_PAGE => config.ocr.limits.maxTextPerPage
  | .OCR_MAX_TEXT_PER_DOCUMENT => config.ocr.limits.maxTextPerDocument
  | .OCR_MAX_ACTIVE_JOBS_PER_USER => config.ocr.limits.maxActiveJobsPerUser
  | .OCR_MAX_JOBS_PER_DOCUMENT => config.ocr.limits.maxJobsPerDocument
  | .OCR_NATIVE_TEXT_MIN_CHARS => config.ocr.minChars
  | .OCR_REQUEST_RATE_LIMIT => config.ocr.request.limit
  | .OCR_REQUEST_RATE_WINDOW => config.ocr.request.windowSeconds

/-- What a variable falls back to: the default of the schema, where there is one. -/
def fallback : IntegerVariable → ℤ
  | .OCR_STALE_JOB_MS => 120000
  | .OCR_MAX_FILE_SIZE_BYTES => toInt (env .MAX_DOCUMENT_FILE_SIZE_BYTES) 52428800
  | name => (envValidationSchema name).default.getD 0

/-- Every number is taken from its variable by `toInt`, with the default of the schema. -/
theorem taken_loadConfiguration (name : IntegerVariable) :
  (loadConfiguration env).taken name = toInt (env name) (fallback env name)
  := by
  cases name with
  | OCR_MAX_RETRIES => exact add_sub_cancel_right _ _
  | _ => rfl

end

/-! ### Reading a spelled number -/

theorem nearestDouble_eq_self {n : ℕ} (h : n < 2 ^ 53) :
  nearestDouble n = n
  := by
  have hlog : n.log2 - 52 = 0 := by
    by_cases hn : n = 0
    · simp [hn]
    · have hlt := (Nat.log2_lt hn).mpr h
      omega
  simp [nearestDouble, hlog, Nat.mod_one]

/-- A number that is not exact as a double is no exact number as one. -/
theorem le_nearestDouble {n : ℕ} (h : 2 ^ 53 ≤ n) :
  2 ^ 53 ≤ nearestDouble n
  := by
  have hne : n ≠ 0 := by omega
  have hlog : 53 ≤ n.log2 := (Nat.le_log2 hne).mpr h
  have hunit : 0 < 2 ^ (n.log2 - 52) := Nat.two_pow_pos _
  have hlower : 2 ^ 52 ≤ n / 2 ^ (n.log2 - 52) := by
    rw [Nat.le_div_iff_mul_le hunit, ← Nat.pow_add, Nat.add_sub_cancel' (by omega)]
    exact Nat.log2_self_le hne
  have hdouble : 2 ^ 53 ≤ n / 2 ^ (n.log2 - 52) * 2 ^ (n.log2 - 52) := by
    calc
      2 ^ 53 = 2 ^ 52 * 2 ^ 1 := rfl
      _ ≤ n / 2 ^ (n.log2 - 52) * 2 ^ (n.log2 - 52) :=
        Nat.mul_le_mul hlower (Nat.pow_le_pow_right (by omega) (by omega))
  unfold nearestDouble
  simp only
  split
  · exact hdouble
  · exact hdouble.trans (Nat.mul_le_mul_right _ (Nat.le_succ _))

theorem nearestDouble_eq_iff {m n : ℕ} (hm : m < 2 ^ 53) :
  nearestDouble n = m ↔ n = m
  := by
  by_cases hn : n < 2 ^ 53
  · rw [nearestDouble_eq_self hn]
  · have hle := le_nearestDouble (Nat.le_of_not_lt hn)
    omega

theorem parseInt_concat (digits : JsString) (u : UInt16) :
  PopplerService.parseInt (digits ++ [u])
    = 10 * PopplerService.parseInt digits + (u.toNat - 0x30)
  := by
  rw [PopplerService.parseInt, List.foldl_append]
  rfl

theorem parseInt_append (s t : JsString) :
  PopplerService.parseInt (s ++ t)
    = PopplerService.parseInt s * 10 ^ t.length + PopplerService.parseInt t
  := by
  induction t using List.reverseRecOn with
  | nil => simp [PopplerService.parseInt]
  | append_singleton t u ih =>
      rw [← List.append_assoc, parseInt_concat, parseInt_concat, ih, List.length_append,
        List.length_singleton, Nat.pow_succ]
      ring

theorem parseInt_lt {digits : JsString} (h : ∀ u ∈ digits, isDigit u = true) :
  PopplerService.parseInt digits < 10 ^ digits.length
  := by
  induction digits using List.reverseRecOn with
  | nil => simp [PopplerService.parseInt]
  | append_singleton digits u ih =>
      have hu : u.toNat - 0x30 < 10 := by
        have hdigit := h u (by simp)
        simp only [isDigit, Bool.and_eq_true, decide_eq_true_eq, UInt16.le_iff_toNat_le,
          UInt16.reduceToNat] at hdigit
        omega
      have hlt := ih fun v hv => h v (List.mem_append_left [u] hv)
      rw [parseInt_concat, List.length_append, List.length_singleton, Nat.pow_succ]
      omega

namespace Decimal

variable {decimal : Decimal}

/-- The number is a mantissa with an exponent, and the mantissa lies between the whole number and
the next one. -/
theorem exists_mantissa (hfraction : ∀ u ∈ decimal.fraction, isDigit u = true) :
  ∃ mantissa : ℚ, PopplerService.parseInt decimal.whole ≤ mantissa
    ∧ mantissa < PopplerService.parseInt decimal.whole + 1
    ∧ decimal.magnitude = mantissa * 10 ^ decimal.exponent
  := by
  have hlt := parseInt_lt hfraction
  have hpow : (0 : ℚ) < 10 ^ decimal.fraction.length := by positivity
  refine ⟨PopplerService.parseInt decimal.whole
    + PopplerService.parseInt decimal.fraction / 10 ^ decimal.fraction.length, ?_, ?_, ?_⟩
  · have hnonneg : (0 : ℚ)
        ≤ PopplerService.parseInt decimal.fraction / 10 ^ decimal.fraction.length := by
      positivity
    linarith
  · have hone : (PopplerService.parseInt decimal.fraction : ℚ) / 10 ^ decimal.fraction.length
        < 1 := by
      rw [div_lt_one hpow]
      exact_mod_cast hlt
    linarith
  · rw [magnitude, parseInt_append, zpow_sub₀ (by norm_num), zpow_natCast]
    push_cast
    field_simp

/-- The digits before the point are the number as long as there is no exponent. -/
theorem whole_eq_iff (hfraction : ∀ u ∈ decimal.fraction, isDigit u = true) {m : ℕ}
    (hm : decimal.magnitude = m) :
  PopplerService.parseInt decimal.whole = m ↔ decimal.exponent = 0 ∨ m = 0
  := by
  obtain ⟨mantissa, hlower, hupper, hmantissa⟩ := exists_mantissa hfraction
  rw [hm] at hmantissa
  have hpositive : (0 : ℚ) < 10 ^ decimal.exponent := by positivity
  constructor
  · intro hwhole
    by_contra hne
    rw [not_or] at hne
    rw [hwhole] at hlower hupper
    have hone : (1 : ℚ) ≤ m := by exact_mod_cast Nat.one_le_iff_ne_zero.mpr hne.2
    rcases lt_or_gt_of_ne hne.1 with hneg | hpos
    · -- a negative exponent makes the number smaller than a tenth of the next one
      have htenth : (10 : ℚ) ^ decimal.exponent ≤ 10 ^ (-1 : ℤ) :=
        zpow_le_zpow_right₀ (by norm_num) (by omega)
      norm_num at htenth
      nlinarith
    · -- a positive exponent makes it ten times the number at least
      have hten : (10 : ℚ) ^ (1 : ℤ) ≤ 10 ^ decimal.exponent :=
        zpow_le_zpow_right₀ (by norm_num) (by omega)
      norm_num at hten
      nlinarith
  · rintro (hexponent | rfl)
    · rw [hexponent, zpow_zero, mul_one] at hmantissa
      rw [← hmantissa] at hlower hupper
      have hle : PopplerService.parseInt decimal.whole ≤ m := by exact_mod_cast hlower
      have hlt : m < PopplerService.parseInt decimal.whole + 1 := by exact_mod_cast hupper
      omega
    · have hzero : mantissa = 0 := by
        rcases mul_eq_zero.mp (hmantissa.symm.trans Nat.cast_zero) with h | h
        · exact h
        · exact absurd h hpositive.ne'
      rw [hzero] at hlower
      have hle : PopplerService.parseInt decimal.whole ≤ 0 := by exact_mod_cast hlower
      omega

end Decimal

theorem isDigit_readFraction {s : JsString} {u : UInt16} (hu : u ∈ (readFraction s).1) :
  isDigit u = true
  := by
  cases s with
  | nil => cases hu
  | cons v rest =>
      by_cases hv : v = decimalPoint
      · rw [readFraction, if_pos hv] at hu
        exact List.mem_takeWhile_imp hu
      · rw [readFraction, if_neg hv] at hu
        cases hu

/-- The two readers begin alike: `parseInt` stops after the digits before the point. -/
theorem parseInt_of_readDecimal {value : JsString} {decimal : Decimal}
    (h : readDecimal value = some decimal) :
  (∀ u ∈ decimal.fraction, isDigit u = true)
    ∧ parseInt value = if decimal.whole = [] then none
      else some (signed decimal.negative
        (nearestDouble (PopplerService.parseInt decimal.whole)))
  := by
  unfold readDecimal at h
  simp only at h
  split at h
  · cases h
  · obtain ⟨⟨exponent, rest⟩, -, hrest⟩ := Option.bind_eq_some_iff.mp h
    simp only [Option.ite_none_right_eq_some, Option.some.injEq] at hrest
    obtain ⟨-, rfl⟩ := hrest
    refine ⟨?_, rfl⟩
    exact fun u hu => isDigit_readFraction hu

/-- A spelling that `parseInt` reads like the validator: digits before the point and no exponent,
or a zero, or else the number that is taken when there are no digits before the point. -/
def PlainlySpelled (value : JsString) (fallback : ℤ) : Prop :=
  ∃ decimal, readDecimal value = some decimal
    ∧ if decimal.whole = [] then decimal.value = fallback
      else decimal.exponent = 0 ∨ decimal.value = 0

theorem toInt_eq_iff {value : JsString} {decimal : Decimal}
    (hdecimal : readDecimal value = some decimal) {n : ℤ} (hvalue : decimal.value = n)
    (hnonneg : 0 ≤ n) (hsafe : n < 2 ^ 53) (fallback : ℤ) :
  toInt (some value) fallback = n ↔ PlainlySpelled value fallback
  := by
  obtain ⟨hfraction, hparse⟩ := parseInt_of_readDecimal hdecimal
  have hplain : PlainlySpelled value fallback
      ↔ if decimal.whole = [] then decimal.value = fallback
        else decimal.exponent = 0 ∨ decimal.value = 0 := by
    constructor
    · rintro ⟨decimal', hdecimal', h⟩
      obtain rfl := Option.some.inj (hdecimal.symm.trans hdecimal')
      exact h
    · exact fun h => ⟨decimal, hdecimal, h⟩
  rw [hplain, toInt, Option.getD_some, hparse, hvalue]
  by_cases hwhole : decimal.whole = []
  · rw [if_pos hwhole, if_pos hwhole, Option.getD_none, Int.cast_inj]
    exact eq_comm
  · rw [if_neg hwhole, if_neg hwhole, Option.getD_some, Int.cast_eq_zero]
    obtain ⟨m, rfl⟩ := Int.eq_ofNat_of_zero_le hnonneg
    have hm : m < 2 ^ 53 := by exact_mod_cast hsafe
    cases hnegative : decimal.negative with
    | false =>
        have hmagnitude : decimal.magnitude = m := by
          simpa [Decimal.value, hnegative] using hvalue
        simp only [signed, if_false, Bool.false_eq_true, Int.natCast_inj, Int.natCast_eq_zero]
        rw [nearestDouble_eq_iff hm, Decimal.whole_eq_iff hfraction hmagnitude]
    | true =>
        -- a number with a minus that is not negative is zero
        have hneg : -decimal.magnitude = m := by
          simpa [Decimal.value, hnegative] using hvalue
        have hpositive : 0 ≤ decimal.magnitude := by
          unfold Decimal.magnitude
          positivity
        have hzero : m = 0 := by
          have hle : (m : ℚ) ≤ 0 := by linarith
          exact_mod_cast le_antisymm hle (Nat.cast_nonneg m)
        subst hzero
        have hmagnitude : decimal.magnitude = (0 : ℕ) := by linarith
        have hwhole := (Decimal.whole_eq_iff hfraction hmagnitude).mpr (.inr rfl)
        simp [signed, hwhole, nearestDouble_eq_self]

/-! ### The validated number -/

/-- What the validator's conversion of strings does: it takes decimal numbers, with an exponent or
without, and numbers that are exact as doubles only. -/
structure LawfulConversion (convert : JsString → Option ℤ) : Prop where
  value : ∀ value n, convert value = some n →
    ∃ decimal, readDecimal value = some decimal ∧ decimal.value = n
  safe : ∀ value n, convert value = some n → n < 2 ^ 53

/-- The loaded number is the validated one just when it is spelled plainly. -/
theorem taken_eq_validated_iff {convert : JsString → Option ℤ} (hconvert : LawfulConversion convert)
    (env : ProcessEnv) (name : IntegerVariable) (value : JsString) (henv : env name = some value)
    (n : ℤ) (hvalidated : convert value = some n ∧ (envValidationSchema name).InRange n) :
  ((loadConfiguration env).taken name = n
    ∧ (envValidationSchema name).InRange ((loadConfiguration env).taken name))
    ↔ PlainlySpelled value (fallback env name)
  := by
  obtain ⟨decimal, hdecimal, hvalue⟩ := hconvert.value value n hvalidated.1
  have htaken := toInt_eq_iff hdecimal hvalue (nonneg_of_inRange hvalidated.2)
    (hconvert.safe value n hvalidated.1) (fallback env name)
  rw [← htaken, taken_loadConfiguration, henv]
  constructor
  · exact fun h => h.1
  · intro h
    rw [h]
    exact ⟨rfl, hvalidated.2⟩

/-- Where every variable that is set is validated and plainly spelled, the loaded numbers are in
their ranges. -/
theorem inRange_taken {convert : JsString → Option ℤ} (hconvert : LawfulConversion convert)
    {env : ProcessEnv}
    (hvalidated : ∀ name value, env name = some value →
      ∃ n, convert value = some n ∧ (envValidationSchema name).InRange n)
    (hplain : ∀ name value, env name = some value → PlainlySpelled value (fallback env name))
    (name : IntegerVariable) :
  (envValidationSchema name).InRange ((loadConfiguration env).taken name)
  := by
  have hset {name : IntegerVariable} {value : JsString} (henv : env name = some value) :
      (envValidationSchema name).InRange (toInt (env name) (fallback env name)) := by
    obtain ⟨n, hn, hrange⟩ := hvalidated name value henv
    obtain ⟨decimal, hdecimal, hvalue⟩ := hconvert.value value n hn
    rw [henv, (toInt_eq_iff hdecimal hvalue (nonneg_of_inRange hrange)
      (hconvert.safe value n hn) _).mpr (hplain name value henv)]
    exact hrange
  have hdefault (name : IntegerVariable) {n : ℤ}
      (hdefault : (envValidationSchema name).default = some n) (hfallback : fallback env name = n) :
      (envValidationSchema name).InRange (toInt (env name) (fallback env name)) := by
    cases henv : env name with
    | some value => exact henv ▸ hset henv
    | none => exact hfallback ▸ inRange_default name n hdefault
  rw [taken_loadConfiguration]
  cases name with
  | OCR_STALE_JOB_MS =>
      cases henv : env .OCR_STALE_JOB_MS with
      | some value => exact henv ▸ hset henv
      | none => exact ⟨(by decide : (10000 : ℤ) ≤ 120000), by simp [envValidationSchema]⟩
  | OCR_MAX_FILE_SIZE_BYTES =>
      cases henv : env .OCR_MAX_FILE_SIZE_BYTES with
      | some value => exact henv ▸ hset henv
      | none =>
          -- the limit of uploads, which has the same range
          exact hdefault .MAX_DOCUMENT_FILE_SIZE_BYTES rfl rfl
  | _ => exact hdefault _ rfl rfl

/-- The limits of text extraction as the services read them. -/
def OcrLimitNumbers.toLimits (limits : OcrLimitNumbers) : OcrLimits where
  maxFileSizeBytes := limits.maxFileSizeBytes.toNat
  maxPdfPages := limits.maxPdfPages.toNat
  renderDpi := limits.renderDpi.toNat
  maxRenderPixels := limits.maxRenderPixels.toNat
  maxImagePixels := limits.maxImagePixels.toNat
  maxTextPerPage := limits.maxTextPerPage.toNat
  maxTextPerDocument := limits.maxTextPerDocument.toNat
  maxActiveJobsPerUser := limits.maxActiveJobsPerUser.toNat
  maxJobsPerDocument := limits.maxJobsPerDocument.toNat

theorem validated_toLimits {config : AppNumbers}
    (h : ∀ name, (envValidationSchema name).InRange (config.taken name)) :
  config.ocr.limits.toLimits.Validated
  := by
  have hbounds (name : IntegerVariable) {min max : ℕ}
      (hmin : (envValidationSchema name).min = min)
      (hmax : (envValidationSchema name).max = some (max : ℤ)) :
      min ≤ (config.taken name).toNat ∧ (config.taken name).toNat ≤ max := by
    obtain ⟨hle, hle'⟩ := h name
    have hmax' := hle' max hmax
    omega
  have hmin (name : IntegerVariable) {min : ℕ} (hmin : (envValidationSchema name).min = min) :
      min ≤ (config.taken name).toNat := by
    have hle := (h name).1
    omega
  constructor
  case maxFileSizeBytes => exact hmin .OCR_MAX_FILE_SIZE_BYTES rfl
  case maxPdfPages => exact hbounds .OCR_MAX_PDF_PAGES rfl rfl
  case renderDpi => exact hbounds .OCR_RENDER_DPI rfl rfl
  case maxRenderPixels => exact hbounds .OCR_MAX_RENDER_PIXELS rfl rfl
  case maxImagePixels => exact hbounds .OCR_MAX_IMAGE_PIXELS rfl rfl
  case maxTextPerPage => exact hbounds .OCR_MAX_TEXT_PER_PAGE rfl rfl
  case maxTextPerDocument => exact hbounds .OCR_MAX_TEXT_PER_DOCUMENT rfl rfl
  case maxActiveJobsPerUser => exact hmin .OCR_MAX_ACTIVE_JOBS_PER_USER rfl
  case maxJobsPerDocument => exact hmin .OCR_MAX_JOBS_PER_DOCUMENT rfl

/-- The limits that are loaded lie within the bounds, where every variable that is set is validated
and plainly spelled. -/
theorem validated_loadConfiguration {convert : JsString → Option ℤ}
    (hconvert : LawfulConversion convert) {env : ProcessEnv}
    (hvalidated : ∀ name value, env name = some value →
      ∃ n, convert value = some n ∧ (envValidationSchema name).InRange n)
    (hplain : ∀ name value, env name = some value → PlainlySpelled value (fallback env name)) :
  (loadConfiguration env).ocr.limits.toLimits.Validated
  := validated_toLimits (inRange_taken hconvert hvalidated hplain)

/-- A conversion of decimal numbers. -/
def convertDecimal (value : JsString) : Option ℤ :=
  (readDecimal value).bind fun decimal =>
    if decimal.value.den = 1 ∧ decimal.value.num < 2 ^ 53 then some decimal.value.num else none

theorem lawfulConversion_convertDecimal :
  LawfulConversion convertDecimal
  where
  value value n h := by
    obtain ⟨decimal, hdecimal, hvalue⟩ := Option.bind_eq_some_iff.mp h
    simp only [Option.ite_none_right_eq_some, Option.some.injEq] at hvalue
    obtain ⟨⟨hden, -⟩, rfl⟩ := hvalue
    exact ⟨decimal, hdecimal, (Rat.den_eq_one_iff _).mp hden |>.symm⟩
  safe value n h := by
    obtain ⟨decimal, -, hvalue⟩ := Option.bind_eq_some_iff.mp h
    simp only [Option.ite_none_right_eq_some, Option.some.injEq] at hvalue
    obtain ⟨⟨-, hlt⟩, rfl⟩ := hvalue
    exact hlt

/-- Without any variables the default limits are loaded. -/
theorem toLimits_loadConfiguration_default :
  (loadConfiguration fun _ => none).ocr.limits.toLimits = defaultLimits
  := rfl

theorem validated_defaultLimits :
  defaultLimits.Validated
  := by
  rw [← toLimits_loadConfiguration_default]
  apply validated_loadConfiguration lawfulConversion_convertDecimal
  · intro name value hset
    cases hset
  · intro name value hset
    cases hset

/-- The largest file size of text extraction set with an exponent. -/
def exponentEnv : ProcessEnv
  | .OCR_MAX_FILE_SIZE_BYTES => some (js "1e6")
  | _ => none

theorem convertDecimal_exponent :
  convertDecimal (js "1e6") = some 1000000
  := by
  have hread : readDecimal (js "1e6") = some ⟨false, js "1", [], 6⟩ := by decide
  have hvalue : Decimal.value ⟨false, js "1", [], 6⟩ = 1000000 := by
    have hdigits : PopplerService.parseInt (js "1") = 1 := by decide
    simp only [Decimal.value, Decimal.magnitude, List.append_nil, hdigits]
    norm_num
  rw [convertDecimal, hread, Option.bind_some, hvalue]
  rfl

/-- A million bytes are validated, and one byte is loaded. -/
theorem exponent_misread :
  LawfulConversion convertDecimal
    ∧ convertDecimal (js "1e6") = some 1000000
    ∧ (envValidationSchema .OCR_MAX_FILE_SIZE_BYTES).InRange 1000000
    ∧ (loadConfiguration exponentEnv).taken .OCR_MAX_FILE_SIZE_BYTES = 1
    ∧ ¬ (envValidationSchema .OCR_MAX_FILE_SIZE_BYTES).InRange 1
  := by
  refine ⟨lawfulConversion_convertDecimal, convertDecimal_exponent, ?_, by decide, ?_⟩
  · simp [envValidationSchema, NumberSchema.InRange]
  · simp [envValidationSchema, NumberSchema.InRange]

theorem taken_eq_validated_iff_exponent :
  ¬ PlainlySpelled (js "1e6") (fallback exponentEnv .OCR_MAX_FILE_SIZE_BYTES)
  := by
  have hrange : (envValidationSchema .OCR_MAX_FILE_SIZE_BYTES).InRange 1000000 := by
    simp [envValidationSchema, NumberSchema.InRange]
  intro hplain
  have htaken := (taken_eq_validated_iff lawfulConversion_convertDecimal exponentEnv
    .OCR_MAX_FILE_SIZE_BYTES (js "1e6") rfl 1000000
    ⟨convertDecimal_exponent, hrange⟩).mpr hplain
  exact absurd htaken.1 (by decide)

end Configuration

end DocuAI
