import DocuAI.Library.Transition
import DocuAI.Library.Simulation
import DocuAI.Library.Table
import DocuAI.Library.SingleFlight
import DocuAI.Library.Lease
import DocuAI.Library.Chain
import DocuAI.Library.Forest
import DocuAI.Library.Window
import DocuAI.Library.Scan
import DocuAI.Library.Restrict
import DocuAI.Library.Program
import DocuAI.Library.Sorted
import DocuAI.Library.Words
import DocuAI.Library.Pattern
import DocuAI.Library.Base64
import DocuAI.Library.Loop
import DocuAI.Library.Double
import DocuAI.JsString
import DocuAI.JsNumber
import DocuAI.Utf8
import DocuAI.UriComponent
import DocuAI.Schema
import DocuAI.Config
import DocuAI.AppException
import DocuAI.Auth.Tokens
import DocuAI.Auth.Sessions
import DocuAI.Auth.Rotation
import DocuAI.Auth.Reuse
import DocuAI.Auth.Alarm
import DocuAI.Auth.Statements
import DocuAI.Auth.Credentials
import DocuAI.Auth.Accounts
import DocuAI.Auth.Logout
import DocuAI.Auth.Registry
import DocuAI.Auth.Replies
import DocuAI.Auth.AuditTrail
import DocuAI.Auth.Access
import DocuAI.Identifiers
import DocuAI.Documents.Errors
import DocuAI.Documents.Service
import DocuAI.Documents.FileName
import DocuAI.Documents.CleanName
import DocuAI.Documents.Disposition
import DocuAI.Documents.Writes
import DocuAI.Documents.DeclaredName
import DocuAI.Folders.Service
import DocuAI.Documents.Calls
import DocuAI.Documents.Lifecycle
import DocuAI.Documents.Deletion
import DocuAI.Documents.Replacement
import DocuAI.Documents.Confinement
import DocuAI.Documents.Storage
import DocuAI.Folders.Calls
import DocuAI.Folders.Owned
import DocuAI.Folders.Tree
import DocuAI.Folders.Hierarchy
import DocuAI.Folders.Atomicity
import DocuAI.Folders.Confinement
import DocuAI.Folders.Removal
import DocuAI.Ocr.Errors
import DocuAI.Ocr.Text
import DocuAI.Ocr.NormalForm
import DocuAI.Ocr.Languages
import DocuAI.Ocr.Extraction
import DocuAI.Ocr.RunCommand
import DocuAI.Ocr.Poppler
import DocuAI.Environment
import DocuAI.Ocr.Tesseract
import DocuAI.Ocr.Availability
import DocuAI.Ocr.Health
import DocuAI.ConfiguredLists
import DocuAI.Ocr.RenderBudget
import DocuAI.Ocr.FileSignature
import DocuAI.Ocr.ImageHeader
import DocuAI.Ocr.JobService
import DocuAI.Ocr.Finalization
import DocuAI.Ocr.Worker
import DocuAI.Ocr.Ownership
import DocuAI.Ocr.Rows
import DocuAI.Ocr.Attempts
import DocuAI.Ocr.FailedStart
import DocuAI.Ocr.Reconciler
import DocuAI.Ocr.Queue
import DocuAI.Ocr.Convergence
import DocuAI.Ocr.Completeness
import DocuAI.Ocr.Delivery
import DocuAI.Ocr.Progress
import DocuAI.Ocr.Limits
import DocuAI.Ocr.Records
import DocuAI.Ocr.Resumption
import DocuAI.Ocr.Superseded
import DocuAI.Ocr.Requests
import DocuAI.Ocr.Permanence
import DocuAI.Ocr.Quota
import DocuAI.Ocr.Agreement
import DocuAI.Ocr.Confinement
import DocuAI.Backend.Queries
import DocuAI.Backend.Listing
import DocuAI.Backend.System
import DocuAI.Backend.References
import DocuAI.Backend.Answers
import DocuAI.Backend.Operations
import DocuAI.Backend.Completion
import DocuAI.Backend.Removal
import DocuAI.Backend.Deletion
import DocuAI.Backend.Results
import DocuAI.Backend.Isolation
