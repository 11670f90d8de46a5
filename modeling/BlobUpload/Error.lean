import BlobUpload.Cipher.Stream
import BlobUpload.Phase

/-! # What can go wrong

A `SourceError` comes from reading or seeking a source, a `ServiceError` from a request, a
`Violation` from settings or chunks that break a rule. An `UploadError` ends a whole upload.
-/

namespace BlobUpload

/-- Number of bytes to which page writes are aligned. -/
def pageSize : Nat := 512

/-! ## Sources -/

/-- What kind of failure a source reports. Only `interrupted` is worth a second try. -/
inductive SourceError.Kind where
  | interrupted
  | brokenPipe
  | invalidInput
  | other (name : String)
  deriving DecidableEq, Repr

namespace SourceError.Kind

def name : Kind → String
  | interrupted => "Interrupted"
  | brokenPipe => "BrokenPipe"
  | invalidInput => "InvalidInput"
  | other name => name

def ofName : String → Kind
  | "Interrupted" => interrupted
  | "BrokenPipe" => brokenPipe
  | "InvalidInput" => invalidInput
  | name => other name

end SourceError.Kind

structure SourceError where
  kind : SourceError.Kind
  message : String
  deriving DecidableEq, Repr

namespace SourceError

/-- Whether the same read may be tried again at once. -/
def isInterrupted (e : SourceError) : Bool := e.kind = .interrupted

/-- A window has outlived its source. -/
def sourceClosed : SourceError := ⟨.brokenPipe, "shared source stream was dropped"⟩

/-- A seek in a window would go before its start. -/
def beforeWindow : SourceError := ⟨.invalidInput, "seek before start of substream"⟩

/-- A seek would go before the start of the source. -/
def beforeSource : SourceError :=
  ⟨.invalidInput, "invalid seek to a negative or overflowing position"⟩

end SourceError

/-! ## Services -/

def preconditionFailed : Nat := 412

def badRequest : Nat := 400

inductive ServiceError where
  /-- The request got no answer. -/
  | transport (cause : String)
  | service (status : Nat) (message : String)
  /-- A condition on lease, ETag, append position or size does not hold. -/
  | condition (message : String)
  deriving DecidableEq, Repr

namespace ServiceError

/-- The error for a failure status. -/
def ofStatus (status : Nat) (message : String) : ServiceError :=
  if status = preconditionFailed then condition message else service status message

/-- Whether the same request may succeed when it is sent again. -/
def isRetryable : ServiceError → Bool
  | condition _ => false
  | _ => true

def message : ServiceError → String
  | transport cause => "transport error: " ++ cause
  | service status message => s!"service error {status}: {message}"
  | condition message => "condition not satisfied: " ++ message

/-- The wording of the error behind a service error. -/
def cause? : ServiceError → Option String
  | transport cause => some cause
  | _ => none

end ServiceError

/-! ## Uploads -/

/-- A rule that settings, a chunk or a call breaks. -/
inductive Violation where
  | zeroChunkSize
  | zeroParallelism
  | zeroWindow
  | parallelEncryption
  | pageChunkSize (size : Nat)
  | pageLength (length : Nat)
  | encryptedPages
  | parallelAppend
  | pageOffset (offset : Nat)
  | pagePayload (offset length : Nat)
  | alreadyRun (phase : Phase)
  | parallelStream
  /-- A rule of somebody else, in their words. -/
  | reported (message : String)
  deriving DecidableEq, Repr

def Violation.message : Violation → String
  | zeroChunkSize => "chunk_size must be non-zero"
  | zeroParallelism => "parallelism must be at least 1"
  | zeroWindow => "substream_buffer_size must be non-zero"
  | parallelEncryption => "encryption requires sequential upload (parallelism = 1)"
  | pageChunkSize size => s!"page blob chunk_size {size} is not a multiple of {pageSize}"
  | pageLength length => s!"page blob length {length} is not a multiple of {pageSize}"
  | encryptedPages => "page blobs cannot be encrypted: padding breaks page alignment"
  | parallelAppend => "append blobs must be uploaded sequentially (parallelism = 1)"
  | pageOffset offset => s!"page write offset {offset} is not {pageSize}-byte aligned"
  | pagePayload offset length =>
    s!"page write at offset {offset} has length {length}, not a positive multiple of {pageSize}"
  | alreadyRun phase => s!"coordinator already ran a transfer (state: {phase.name})"
  | parallelStream => "parallel upload requires a seekable source"
  | reported message => message

/-- What ends an upload. -/
inductive UploadError where
  /-- A rule is broken; nothing was sent for the chunk in question. -/
  | violation (rule : Violation)
  /-- Every request for the chunk at `offset` failed, the last one with `cause`. -/
  | retriesExhausted (offset attempts : Nat) (cause : ServiceError)
  /-- A condition of the request for the chunk at `offset` did not hold. -/
  | condition (offset : Nat) (message : String)
  /-- The source could not be encrypted. -/
  | encoding (cause : CipherError)
  /-- The source failed while the chunk at `offset` was read. -/
  | source (offset : Nat) (cause : SourceError)
  | commit (cause : ServiceError)
  /-- The upload was told to stop before the chunk at `offset`. -/
  | aborted (offset : Nat)
  deriving DecidableEq, Repr

namespace UploadError

def message : UploadError → String
  | violation rule => "precondition violated: " ++ rule.message
  | retriesExhausted offset attempts _ =>
    s!"chunk at offset {offset} failed after {attempts} attempts"
  | condition offset message =>
    s!"condition not satisfied for chunk at offset {offset}: {message}"
  | encoding cause => "encoding error: " ++ cause.message
  | source offset cause => s!"source read failed at offset {offset}: {cause.message}"
  | commit cause => "block list commit failed: " ++ cause.message
  | aborted offset => s!"transfer aborted before chunk at offset {offset}"

def offset? : UploadError → Option Nat
  | retriesExhausted offset _ _ | condition offset _ | source offset _ | aborted offset =>
    some offset
  | _ => none

/-- The wording of the error behind an upload error. -/
def cause? : UploadError → Option String
  | retriesExhausted _ _ cause | commit cause => some cause.message
  | source _ cause => some cause.message
  | _ => none

end UploadError

end BlobUpload
