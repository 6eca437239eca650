import DocuAI.AppException

/-!
# Processing errors

The errors an extraction attempt can end with.  Whether an error is permanent decides if the queue
may try the job again.
-/

namespace DocuAI

/-- The code as it is stored and shown. -/
def OcrErrorCode.name : OcrErrorCode → String
  | .OCR_NOT_FOUND => "OCR_NOT_FOUND"
  | .OCR_NOT_READY => "OCR_NOT_READY"
  | .OCR_ALREADY_PROCESSING => "OCR_ALREADY_PROCESSING"
  | .OCR_UNSUPPORTED_LANGUAGE => "OCR_UNSUPPORTED_LANGUAGE"
  | .OCR_UNSUPPORTED_FILE_TYPE => "OCR_UNSUPPORTED_FILE_TYPE"
  | .OCR_FILE_TOO_LARGE => "OCR_FILE_TOO_LARGE"
  | .OCR_PAGE_LIMIT_EXCEEDED => "OCR_PAGE_LIMIT_EXCEEDED"
  | .OCR_PAGE_TOO_LARGE => "OCR_PAGE_TOO_LARGE"
  | .OCR_INVALID_FILE => "OCR_INVALID_FILE"
  | .OCR_PROCESSING_TIMEOUT => "OCR_PROCESSING_TIMEOUT"
  | .OCR_PROCESSING_FAILED => "OCR_PROCESSING_FAILED"
  | .OCR_STORAGE_ERROR => "OCR_STORAGE_ERROR"
  | .OCR_TEXT_LIMIT_EXCEEDED => "OCR_TEXT_LIMIT_EXCEEDED"
  | .OCR_WORKER_INTERRUPTED => "OCR_WORKER_INTERRUPTED"
  | .OCR_DOCUMENT_UNAVAILABLE => "OCR_DOCUMENT_UNAVAILABLE"
  | .OCR_DOCUMENT_NOT_READY => "OCR_DOCUMENT_NOT_READY"
  | .OCR_RETRY_NOT_ALLOWED => "OCR_RETRY_NOT_ALLOWED"
  | .OCR_TOO_MANY_JOBS => "OCR_TOO_MANY_JOBS"
  | .OCR_UNAVAILABLE => "OCR_UNAVAILABLE"

/-- Error codes that describe the input itself.  The retry endpoint refuses a job that failed with
one of them. -/
def PERMANENT_OCR_ERROR_CODES : List OcrErrorCode :=
  [.OCR_UNSUPPORTED_FILE_TYPE, .OCR_FILE_TOO_LARGE, .OCR_PAGE_LIMIT_EXCEEDED, .OCR_PAGE_TOO_LARGE,
    .OCR_INVALID_FILE, .OCR_DOCUMENT_UNAVAILABLE, .OCR_UNSUPPORTED_LANGUAGE]

/-- A processing failure carried through the worker. -/
structure OcrProcessingError where
  code : OcrErrorCode
  message : JsString
  permanent : Bool
  detail : Option JsString
  deriving DecidableEq

namespace OcrProcessingError

/-- A failure that another attempt would meet again. -/
def ofPermanent (code : OcrErrorCode) (message : JsString) (detail : Option JsString) :
    OcrProcessingError :=
  { code, message, permanent := true, detail }

/-- A failure that another attempt may not meet. -/
def transient (code : OcrErrorCode) (message : JsString) (detail : Option JsString) :
    OcrProcessingError :=
  { code, message, permanent := false, detail }

end OcrProcessingError

/-- What a call can throw: a processing error, an error of the object storage, or any other error,
described as the log does. -/
inductive Thrown where
  | processing (error : OcrProcessingError)
  | storage (message : JsString)
  | other (description : JsString)
  deriving DecidableEq

/-- The processing error a thrown error counts as. -/
def toProcessingError : Thrown → OcrProcessingError
  | .processing error => error
  | .storage message =>
      .transient .OCR_STORAGE_ERROR (js "The document could not be read from storage")
        (some message)
  | .other description =>
      .transient .OCR_PROCESSING_FAILED (js "Text extraction failed unexpectedly")
        (some description)

/-! ### Errors of the API -/

def ocrNotFound : AppException :=
  ⟨.NOT_FOUND, .ocr .OCR_NOT_FOUND, js "No OCR job exists for this document"⟩

def ocrNotReady (status : JsString) : AppException :=
  ⟨.CONFLICT, .ocr .OCR_NOT_READY,
    js "OCR results are not available yet (job is " ++ status ++ js ")"⟩

def ocrAlreadyProcessing : AppException :=
  ⟨.CONFLICT, .ocr .OCR_ALREADY_PROCESSING,
    js "An OCR job with a different language configuration is already active for this document"⟩

def ocrUnsupportedLanguage (available : List JsString) : AppException :=
  ⟨.BAD_REQUEST, .ocr .OCR_UNSUPPORTED_LANGUAGE,
    js "Unsupported OCR language; available: " ++ (js ", ").intercalate available⟩

def ocrUnsupportedFileType : AppException :=
  ⟨.UNSUPPORTED_MEDIA_TYPE, .ocr .OCR_UNSUPPORTED_FILE_TYPE,
    js "OCR supports PDF, JPEG, PNG and WebP documents only"⟩

def ocrFileTooLarge (maxBytes : ℕ) : AppException :=
  ⟨.PAYLOAD_TOO_LARGE, .ocr .OCR_FILE_TOO_LARGE,
    js "Documents larger than " ++ jsNat maxBytes ++ js " bytes cannot be processed"⟩

def ocrPageLimitExceeded (maxPages : ℕ) : AppException :=
  ⟨.PAYLOAD_TOO_LARGE, .ocr .OCR_PAGE_LIMIT_EXCEEDED,
    js "Documents with more than " ++ jsNat maxPages ++ js " pages cannot be processed"⟩

def ocrDocumentNotReady : AppException :=
  ⟨.CONFLICT, .ocr .OCR_DOCUMENT_NOT_READY,
    js "The document has no completed upload; finish the upload before requesting OCR"⟩

def ocrRetryNotAllowed (message : JsString) : AppException :=
  ⟨.CONFLICT, .ocr .OCR_RETRY_NOT_ALLOWED, message⟩

def ocrTooManyJobs (message : JsString) : AppException :=
  ⟨.TOO_MANY_REQUESTS, .ocr .OCR_TOO_MANY_JOBS, message⟩

def ocrUnavailable : AppException :=
  ⟨.SERVICE_UNAVAILABLE, .ocr .OCR_UNAVAILABLE, js "OCR is currently unavailable"⟩

end DocuAI
