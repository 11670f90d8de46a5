import BlobUpload.Delivery

/-! # The shared state of a running upload

All chunks of an upload are sent in one session. It holds the service, the writer, the bytes sent
so far and the abort flag. The flag is raised by whoever watches the progress, or from outside, and
is only looked at between chunks.
-/

namespace BlobUpload

/-- A report of progress: payload bytes sent, out of how many if that is known. -/
structure Report where
  completed : Nat
  total : Option Nat
  deriving DecidableEq, Repr

/-- Somebody who receives the reports of an upload and may abort it. -/
structure Watch where
  /-- Whether to abort now, from all reports so far, the newest last. -/
  abortsOn : List Report → Bool

/-- Receives reports and never aborts. -/
def Watch.quiet : Watch := ⟨fun _ => false⟩

/-- Aborts as soon as `threshold` bytes are reported. -/
def Watch.abortingAt (threshold : Nat) : Watch :=
  ⟨fun reports => reports.getLast?.any fun report => threshold ≤ report.completed⟩

/-- The abort flag. Once raised it stays. -/
structure Abort where
  raised : Bool := false
  /-- How many looks at the flag come before somebody outside raises it, if anybody does. -/
  outside : Option Nat := none
  deriving DecidableEq, Repr

namespace Abort

def raise (a : Abort) : Abort := { a with raised := true }

def look (a : Abort) : Bool × Abort :=
  match a.outside with
  | some 0 => (true, { raised := true, outside := none })
  | some (n + 1) => (a.raised, { a with outside := some n })
  | none => (a.raised, a)

end Abort

/-- An upload while chunks are being sent. -/
structure Session (σ : Type) where
  settings : Settings
  service : σ
  writer : Writer
  watch : Option Watch
  /-- All reports so far, oldest first. -/
  reports : List Report
  abort : Abort
  /-- The total that reports carry. -/
  total : Option Nat
  completed : Nat := 0

namespace Session

variable {σ : Type}

/-- Reports the progress, if somebody watches. -/
def report (s : Session σ) : Session σ :=
  match s.watch with
  | none => s
  | some watch =>
    let reports := s.reports ++ [⟨s.completed, s.total⟩]
    { s with reports, abort := if watch.abortsOn reports then s.abort.raise else s.abort }

/-- Counts `n` bytes more and reports. -/
def advance (n : Nat) (s : Session σ) : Session σ :=
  { s with completed := s.completed + n }.report

/-- Refuses to go on with the chunk at `offset` once the upload is aborted. -/
def checkAbort (offset : Nat) (s : Session σ) : Except UploadError Unit × Session σ :=
  let (raised, abort) := s.abort.look
  (if raised then .error (.aborted offset) else .ok (), { s with abort })

variable [Service σ]

/-- Sends a request for the chunk at `offset` until it is answered. -/
def deliver (offset : Nat) (r : Request) (s : Session σ) :
    Except UploadError r.Reply × Session σ :=
  let (answer, service) := BlobUpload.deliver offset r s.settings.maxRetries 0 s.service
  (answer, { s with service })

/-- Writes a chunk and counts it. -/
def send (c : Chunk) (s : Session σ) : Except UploadError Token × Session σ :=
  match s.writer.check c with
  | .error e => (.error e, s)
  | .ok () =>
    match s.deliver c.offset (s.writer.request c) with
    | (.error e, s') => (.error e, s')
    | (.ok reply, s') =>
      let (token, writer) := s.writer.accept c reply
      (.ok token, { s' with writer }.advance c.length)

/-- Commits the staged blocks of a block blob in the order of their tokens. Other blobs, and an
upload without chunks, have nothing to commit. -/
def commit (tokens : List Token) (s : Session σ) : Except UploadError (Option String) × Session σ :=
  if s.writer.blobType ≠ .block || tokens = [] then (.ok none, s)
  else
    match Service.answer (.putBlockList (tokens.filterMap Token.blockId?) s.settings.leaseId)
        s.service with
    | (.error e, service) => (.error (.commit e), { s with service })
    | (.ok etag, service) => (.ok (some etag), { s with service })

end Session

end BlobUpload
