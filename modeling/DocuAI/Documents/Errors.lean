import DocuAI.AppException

/-!
# Errors of documents and folders
-/

namespace DocuAI

/-- Returned for unknown, deleted and foreign documents alike. -/
def documentNotFound : AppException :=
  ⟨.NOT_FOUND, .DOCUMENT_NOT_FOUND, js "Document not found"⟩

def fileTooLarge (maxBytes : ℕ) : AppException :=
  ⟨.PAYLOAD_TOO_LARGE, .FILE_TOO_LARGE,
    js "File exceeds the maximum allowed size of " ++ jsNat maxBytes ++ js " bytes"⟩

def unsupportedFileType (message : JsString) : AppException :=
  ⟨.UNSUPPORTED_MEDIA_TYPE, .UNSUPPORTED_FILE_TYPE, message⟩

def invalidUpload (message : JsString) : AppException :=
  ⟨.CONFLICT, .INVALID_UPLOAD, message⟩

def uploadNotFound : AppException :=
  ⟨.CONFLICT, .UPLOAD_NOT_FOUND,
    js "No uploaded file was found for this document; upload the file to the upload URL first"⟩

def uploadNotReady : AppException :=
  ⟨.CONFLICT, .UPLOAD_NOT_READY, js "The document has no completed upload yet"⟩

/-- Returned for unknown and foreign folders alike. -/
def folderNotFound : AppException :=
  ⟨.NOT_FOUND, .FOLDER_NOT_FOUND, js "Folder not found"⟩

/-- Root folders have depth 1. -/
def MAX_FOLDER_DEPTH : ℕ := 10

def folderSelfParent : AppException :=
  ⟨.BAD_REQUEST, .INVALID_FOLDER, js "A folder cannot be its own parent"⟩

def folderCycle : AppException :=
  ⟨.BAD_REQUEST, .FOLDER_CYCLE_DETECTED,
    js "A folder cannot be moved inside one of its own descendants"⟩

def folderDepthExceeded : AppException :=
  ⟨.BAD_REQUEST, .FOLDER_DEPTH_EXCEEDED,
    js "Folders cannot be nested deeper than " ++ jsNat MAX_FOLDER_DEPTH ++ js " levels"⟩

end DocuAI
