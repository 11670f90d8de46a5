import BlobUpload.BlockId
import BlobUpload.Chunk
import BlobUpload.Service.Request
import BlobUpload.Settings

/-! # How chunks of each blob type are written

A writer turns a chunk into the request that writes it, and takes in the reply. Until a reply comes
the writer stays as it is, so the same chunk always makes the same request. Blocks depend on
nothing. Pages follow one another by ETag, unless several workers write them. Appends follow one
another by the length of the blob, from the second one on.
-/

namespace BlobUpload

/-- What all payloads of an upload are sent under. -/
structure Envelope where
  /-- Whether the digest is sent along. -/
  validateContent : Bool := false
  lease : Option String := none
  deriving DecidableEq, Repr

def Envelope.body (e : Envelope) (payload : Bytes) : Body where
  payload
  md5 := if e.validateContent then some (.compute payload) else none
  lease := e.lease

inductive Writer where
  | block (envelope : Envelope)
  /-- `ifMatch` is the ETag that the next write has to meet; a writer that does not chain its writes
  sends none. -/
  | page (envelope : Envelope) (chained : Bool) (ifMatch : Option String)
  /-- `next` is the length that the blob has to have before the next append. -/
  | append (envelope : Envelope) (maxSize : Option Nat) (next : Option Nat)
  deriving DecidableEq, Repr

def Settings.envelope (s : Settings) : Envelope := ⟨s.validateContent, s.leaseId⟩

def Settings.writer (s : Settings) : Writer :=
  match s.blobType with
  | .block => .block s.envelope
  | .page => .page s.envelope (!s.isParallel) (if s.isParallel then none else s.ifMatch)
  | .append => .append s.envelope s.maxSize none

namespace Writer

def blobType : Writer → BlobType
  | block .. => .block
  | page .. => .page
  | append .. => .append

/-- The rule that a chunk breaks. -/
def violation? (w : Writer) (c : Chunk) : Option Violation :=
  match w with
  | page .. =>
    if c.offset % pageSize ≠ 0 then some (.pageOffset c.offset)
    else if c.length = 0 || c.length % pageSize ≠ 0 then some (.pagePayload c.offset c.length)
    else none
  | _ => none

/-- Accepts chunks that break no rule. -/
def check (w : Writer) (c : Chunk) : Except UploadError Unit :=
  match w.violation? c with
  | some rule => .error (.violation rule)
  | none => .ok ()

/-- The request that writes a chunk. -/
def request (w : Writer) (c : Chunk) : Request :=
  match w with
  | block envelope => .putBlock (blockId c.offset) (envelope.body c.payload)
  | page envelope chained ifMatch =>
    .updatePage c.offset (c.stop - 1) (envelope.body c.payload) (if chained then ifMatch else none)
  | append envelope maxSize next => .appendBlock (envelope.body c.payload) next maxSize

/-- The token of a written chunk, and the writer for the next one. The lengths of a blob are taken
to fit into 64 bits. -/
def accept (w : Writer) (c : Chunk) : (w.request c).Reply → Token × Writer :=
  match w with
  | block envelope => fun _ => (.block (blockId c.offset), block envelope)
  | page envelope chained ifMatch => fun etag =>
    (.page etag, page envelope chained (if chained then some etag else ifMatch))
  | append envelope maxSize _ => fun reply =>
    let next := reply.offset + c.length
    (.append next, append envelope maxSize (some next))

end Writer

end BlobUpload
