import BlobUpload.Service.Request
import BlobUpload.Text.Numeral

/-! # A blob in memory

A blob with the write rules of the service: staged blocks become content by a commit only, page
writes are aligned, and lease, digest, ETag, append position and size are checked before anything
changes. A rejected request changes nothing but the count of its method.
-/

namespace BlobUpload

/-- How often each method was called. -/
structure Calls where
  putBlock : Nat := 0
  putBlockList : Nat := 0
  updatePage : Nat := 0
  appendBlock : Nat := 0
  putBlob : Nat := 0
  deriving DecidableEq, Repr

namespace Calls

def count (m : Method) (c : Calls) : Calls :=
  match m with
  | .putBlock => { c with putBlock := c.putBlock + 1 }
  | .putBlockList => { c with putBlockList := c.putBlockList + 1 }
  | .updatePage => { c with updatePage := c.updatePage + 1 }
  | .appendBlock => { c with appendBlock := c.appendBlock + 1 }
  | .putBlob => { c with putBlob := c.putBlob + 1 }

def total (c : Calls) : Nat :=
  c.putBlock + c.putBlockList + c.updatePage + c.appendBlock + c.putBlob

end Calls

/-- Why a request is rejected. -/
inductive Rejection where
  | lease
  | digest
  | unknownBlock (id : String)
  | pageRange (first last : Nat)
  | pageLength
  | staleETag (expected : String)
  | appendPosition (expected actual : Nat)
  | tooLarge (limit : Nat)
  deriving DecidableEq, Repr

namespace Rejection

def status : Rejection → Nat
  | lease | staleETag _ | appendPosition _ _ | tooLarge _ => preconditionFailed
  | digest | unknownBlock _ | pageRange _ _ | pageLength => badRequest

def message : Rejection → String
  | lease => "lease id missing or mismatched"
  | digest => "Md5Mismatch: payload does not match Content-MD5"
  | unknownBlock id => "InvalidBlockList: " ++ id
  | pageRange first last => s!"InvalidPageRange: {first}-{last}"
  | pageLength => "page range does not match payload length"
  | staleETag expected => "ConditionNotMet: if-match " ++ expected
  | appendPosition expected actual =>
    s!"AppendPositionConditionNotMet: expected {expected}, blob is {actual}"
  | tooLarge limit => s!"MaxBlobSizeConditionNotMet: limit {limit}"

/-- The error that a rejected request is answered with. -/
def toError (r : Rejection) : ServiceError := .ofStatus r.status r.message

end Rejection

/-- The ETag after so many changes: the count in sixteen upper-case hexadecimal digits. -/
def etagOf (revision : Nat) : String :=
  String.ofList (['"', '0', 'x'] ++ (Numeral.padded 16 16 revision).map Char.toUpper ++ ['"'])

structure Blob where
  content : Bytes := []
  /-- Every block staged since the last commit with its id, newest first. -/
  staged : List (String × Bytes) := []
  /-- The ids of all blocks ever staged, oldest first. -/
  stagedOrder : List String := []
  committed : List String := []
  /-- Number of changes of the content. -/
  revision : Nat := 0
  calls : Calls := {}
  /-- The lease that every request has to claim. -/
  lease : Option String := none
  deriving DecidableEq, Repr

namespace Blob

/-- A blob that already holds `content`. -/
def ofContent (content : Bytes) : Blob := { content, revision := 1 }

def etag (b : Blob) : String := etagOf b.revision

/-- The block last staged under an id. -/
def stagedBlock? (b : Blob) (id : String) : Option Bytes := b.staged.lookup id

def uncommitted (b : Blob) : Nat := (b.staged.map Prod.fst).eraseDups.length

/-- The content becomes `content`, under the next ETag. -/
def replace (content : Bytes) (b : Blob) : Blob := { b with content, revision := b.revision + 1 }

/-- A lease is claimed by every request, if the blob has one. -/
def checkLease (b : Blob) (claimed : Option String) : Except Rejection Unit :=
  if b.lease.isSome && claimed ≠ b.lease then .error .lease else .ok ()

def check (b : Blob) (body : Body) : Except Rejection Unit := do
  b.checkLease body.lease
  if body.md5.any (· ≠ ContentMD5.compute body.payload) then .error .digest else .ok ()

/-- The staged blocks of a list one after another. -/
def assemble (b : Blob) : List String → Except Rejection Bytes
  | [] => .ok []
  | id :: ids =>
    match b.stagedBlock? id with
    | none => .error (.unknownBlock id)
    | some block => do .ok (block ++ (← b.assemble ids))

/-- The bytes from `first` to `last` are whole pages, as many as the payload has, and the ETag is
the expected one. -/
def checkPages (b : Blob) (first last : Nat) (payload : Bytes) (ifMatch : Option String) :
    Except Rejection Unit :=
  if first % pageSize ≠ 0 || (last + 1) % pageSize ≠ 0 || last < first then
    .error (.pageRange first last)
  else if last - first + 1 ≠ payload.length then .error .pageLength
  else
    match ifMatch with
    | some expected => if expected ≠ b.etag then .error (.staleETag expected) else .ok ()
    | none => .ok ()

def checkPosition (b : Blob) (position : Option Nat) : Except Rejection Unit :=
  match position with
  | some expected =>
    if expected ≠ b.content.length then .error (.appendPosition expected b.content.length)
    else .ok ()
  | none => .ok ()

/-- With so many bytes more the blob does not outgrow its limit. -/
def checkSize (b : Blob) (added : Nat) (maxSize : Option Nat) : Except Rejection Unit :=
  match maxSize with
  | some limit => if limit < b.content.length + added then .error (.tooLarge limit) else .ok ()
  | none => .ok ()

/-- Carries a request out, or tells why not. -/
def perform (b : Blob) : (r : Request) → Except Rejection (r.Reply × Blob)
  | .putBlock id body => do
    b.check body
    return ((), { b with
      staged := (id, body.payload) :: b.staged
      stagedOrder := b.stagedOrder ++ [id] })
  | .putBlockList ids lease => do
    b.checkLease lease
    let content ← b.assemble ids
    let b := { b.replace content with committed := ids, staged := [] }
    return (b.etag, b)
  | .updatePage first last body ifMatch => do
    b.check body
    b.checkPages first last body.payload ifMatch
    let b := b.replace (b.content.overlay first body.payload)
    return (b.etag, b)
  | .appendBlock body position maxSize => do
    b.check body
    b.checkPosition position
    b.checkSize body.payload.length maxSize
    let after := b.replace (b.content ++ body.payload)
    return (⟨b.content.length, after.etag⟩, after)
  | .putBlob body => do
    b.check body
    let b := { b.replace body.payload with committed := [], staged := [] }
    return (b.etag, b)

/-- Counts a request and carries it out, or rejects it. -/
def answer (r : Request) (b : Blob) : Except ServiceError r.Reply × Blob :=
  let b := { b with calls := b.calls.count r.method }
  match b.perform r with
  | .ok (reply, after) => (.ok reply, after)
  | .error rejection => (.error rejection.toError, b)

instance : Service Blob := ⟨answer⟩

end Blob

end BlobUpload
