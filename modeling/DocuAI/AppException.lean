import DocuAI.Schema

/-!
# Domain exceptions

An exception of the API carries the status of the response, a stable error code and a message.
-/

namespace DocuAI

/-- The statuses of the responses with an error. -/
inductive HttpStatus where
  | BAD_REQUEST
  | UNAUTHORIZED
  | FORBIDDEN
  | NOT_FOUND
  | CONFLICT
  | PAYLOAD_TOO_LARGE
  | UNSUPPORTED_MEDIA_TYPE
  | TOO_MANY_REQUESTS
  | SERVICE_UNAVAILABLE
  deriving DecidableEq

/-- The statuses `4xx`. -/
def HttpStatus.isClientError : HttpStatus → Bool
  | .SERVICE_UNAVAILABLE => false
  | _ => true

/-- The error codes of the modelled modules.  Those of OCR are also stored with jobs and pages. -/
inductive ErrorCode where
  | VALIDATION_ERROR
  | DOCUMENT_NOT_FOUND
  | FILE_TOO_LARGE
  | UNSUPPORTED_FILE_TYPE
  | INVALID_UPLOAD
  | UPLOAD_NOT_FOUND
  | UPLOAD_NOT_READY
  | FOLDER_NOT_FOUND
  | INVALID_FOLDER
  | FOLDER_CYCLE_DETECTED
  | FOLDER_DEPTH_EXCEEDED
  | AUTH_INVALID_CREDENTIALS
  | AUTH_ACCOUNT_SUSPENDED
  | AUTH_ACCOUNT_DELETED
  | AUTH_REFRESH_TOKEN_INVALID
  | AUTH_REFRESH_TOKEN_EXPIRED
  | AUTH_REFRESH_TOKEN_REUSED
  | AUTH_EMAIL_ALREADY_EXISTS
  | ocr (code : OcrErrorCode)
  deriving DecidableEq

/-- A domain exception with a stable error code. -/
structure AppException where
  status : HttpStatus
  code : ErrorCode
  message : JsString
  deriving DecidableEq

end DocuAI
