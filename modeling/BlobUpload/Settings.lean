import BlobUpload.Duration
import BlobUpload.Error
import BlobUpload.Text.Quoted

/-! # Settings of an upload -/

namespace BlobUpload

inductive BlobType where
  /-- Staged blocks that one list commits. -/
  | block
  /-- Pages of 512 bytes that are written in place. -/
  | page
  /-- Appends at the end. -/
  | append
  deriving DecidableEq, Repr

namespace BlobType

def name : BlobType → String
  | block => "block"
  | page => "page"
  | append => "append"

def ofName? : String → Option BlobType
  | "block" => some block
  | "page" => some page
  | "append" => some append
  | _ => none

def describe : BlobType → String
  | block => "Block"
  | page => "Page"
  | append => "Append"

end BlobType

/-- Largest chunk that one request may carry, and the size used unless another one is asked for. -/
def defaultChunkSize : Nat := 4 * 1024 * 1024

/-- How far a window reads ahead unless told otherwise. -/
def defaultWindowCapacity : Nat := 4 * 1024 * 1024

/-- How often a failing chunk is sent again unless told otherwise. -/
def defaultRetries : Nat := 5

/-- The wait before a chunk is sent again unless told otherwise. -/
def defaultRetryWait : Duration := .ofSeconds 1

/-- What an upload is asked to do. -/
structure Settings where
  blobType : BlobType
  /-- Number of source bytes to send; without it the source is read to its end. -/
  sourceLength : Option Nat := none
  chunkSize : Nat := defaultChunkSize
  parallelism : Nat := 1
  /-- Whether every payload carries its MD5 digest. -/
  validateContent : Bool := false
  leaseId : Option String := none
  maxRetries : Nat := defaultRetries
  retryWait : Duration := defaultRetryWait
  /-- The ETag that the first page write has to meet. -/
  ifMatch : Option String := none
  /-- The length beyond which an append blob must not grow. -/
  maxSize : Option Nat := none
  /-- Block blobs shorter than this are written by one request. -/
  singlePutThreshold : Option Nat := none
  windowCapacity : Nat := defaultWindowCapacity
  encryption : Option ContentKey := none
  deriving DecidableEq, Repr

namespace Settings

def isEncrypted (s : Settings) : Bool := s.encryption.isSome

def isParallel (s : Settings) : Bool := 1 < s.parallelism

/-- The first rule that a source of `length` bytes breaks. -/
def lengthViolation? (s : Settings) (length : Nat) : Option Violation :=
  if s.blobType = .page && length % pageSize ≠ 0 then some (.pageLength length) else none

def violation? (s : Settings) : Option Violation :=
  if s.chunkSize = 0 then some .zeroChunkSize
  else if s.parallelism = 0 then some .zeroParallelism
  else if s.windowCapacity = 0 then some .zeroWindow
  else if s.isEncrypted && s.isParallel then some .parallelEncryption
  else
    match s.blobType with
    | .block => none
    | .page =>
      if s.chunkSize % pageSize ≠ 0 then some (.pageChunkSize s.chunkSize)
      else
        match s.sourceLength.bind s.lengthViolation? with
        | some rule => some rule
        | none => if s.isEncrypted then some .encryptedPages else none
    | .append => if s.isParallel then some .parallelAppend else none

/-- Accepts settings that break no rule. -/
def validate (s : Settings) : Except UploadError Unit :=
  match s.violation? with
  | some rule => .error (.violation rule)
  | none => .ok ()

/-- The length of a block blob short enough to be written by one request. -/
def singlePutLength? (s : Settings) (length : Option Nat) : Option Nat :=
  match s.blobType, s.singlePutThreshold, length with
  | .block, some threshold, some length =>
    if 0 < length && length < threshold then some length else none
  | _, _, _ => none

/-- How many bytes progress is expected to reach for a source of this length. -/
def progressTotal (s : Settings) (length : Option Nat) : Option Nat :=
  if s.isEncrypted then length.map encryptedLength else length

def describe (s : Settings) : String :=
  let number (n : Nat) : String := toString n
  Record.render "TransferSpec" [
    ("blob_kind", s.blobType.describe),
    ("source_length", Record.optional (s.sourceLength.map number)),
    ("chunk_size", number s.chunkSize),
    ("parallelism", number s.parallelism),
    ("validate_content", toString s.validateContent),
    ("lease_id", Record.optional (s.leaseId.map Quoted.encode)),
    ("max_retries", number s.maxRetries),
    ("retry_wait", s.retryWait.describe),
    ("if_match", Record.optional (s.ifMatch.map Quoted.encode)),
    ("max_size_condition", Record.optional (s.maxSize.map number)),
    ("single_put_threshold", Record.optional (s.singlePutThreshold.map number)),
    ("substream_buffer_size", number s.windowCapacity),
    ("encryption", Record.optional (s.encryption.map ContentKey.describe))]

end Settings

end BlobUpload
