import BlobUpload.Cutter
import BlobUpload.Source.Window
import BlobUpload.Upload.Session

/-! # Several workers

Workers take spans from a common queue. For each span a worker reads its window of the source, sends
the chunk it finds there and files the token under the chunk's offset. A worker that fails sets the
stop flag, and the first failure that is filed is the outcome of the pool.

A pool moves in small steps. A step belongs to one worker, and between any two steps of a worker the
others may have made any number of theirs; `Pool.step` is one such step and `Pool.run` follows a
schedule of them. What a schedule leaves to do is done by `Pool.finish`.
-/

namespace BlobUpload

/-- What a worker does in its next step. -/
inductive Worker where
  /-- Looks at the stop flag. -/
  | starting
  /-- Takes a span from the queue. -/
  | claiming
  /-- Looks at the abort flag before it works on a span. -/
  | checking (span : Span)
  /-- Reads from its window until the cutter has what it asked for. -/
  | reading (cutter : Cutter) (window : Window) (got : Bytes)
  /-- Sends a chunk; `sent` requests have failed so far. -/
  | sending (cutter : Cutter) (window : Window) (chunk : Chunk) (sent : Nat)
  /-- Counts a written chunk. -/
  | counting (cutter : Cutter) (window : Window) (chunk : Chunk) (token : Token)
  /-- Files the token of a written chunk. -/
  | filing (cutter : Cutter) (window : Window) (chunk : Chunk) (token : Token)
  /-- Sets the stop flag because of a failure. -/
  | stopping (failure : UploadError)
  /-- Files a failure. -/
  | reporting (failure : UploadError)
  | ended

/-- A pool of workers between two steps. -/
structure Pool (σ : Type) where
  session : Session σ
  common : CommonSource
  queue : List Span
  /-- The tokens filed so far, by ascending offset. -/
  tokens : List (Nat × Token) := []
  failure : Option UploadError := none
  stop : Bool := false
  workers : List Worker

/-- Files a token under its offset, in place of an earlier one. -/
def fileToken (offset : Nat) (token : Token) : List (Nat × Token) → List (Nat × Token)
  | [] => [(offset, token)]
  | (o, t) :: rest =>
    if offset < o then (offset, token) :: (o, t) :: rest
    else if offset = o then (offset, token) :: rest
    else (o, t) :: fileToken offset token rest

namespace Pool

variable {σ : Type} [Service σ]

/-- A pool of as many workers as asked for, but no more than there are spans. -/
def ofSession (session : Session σ) (common : CommonSource) (length : Nat) : Pool σ :=
  let queue := Span.cover length session.settings.chunkSize
  { session, common, queue
    workers := List.replicate (min session.settings.parallelism queue.length) .starting }

/-- The cutter for one span. -/
def cutterFor (settings : Settings) (span : Span) : Cutter :=
  { Cutter.ofSize settings.chunkSize with remaining := some span.length, offset := span.start }

/-- A worker begins to read a span. -/
def openSpan (p : Pool σ) (span : Span) : Worker :=
  let settings := p.session.settings
  .reading (cutterFor settings span)
    (p.common.window span.start span.length settings.windowCapacity) []

/-- What a worker does with the bytes of one reading. -/
def afterReading (writer : Writer) (window : Window) (answer : Except SourceError Bytes)
    (k : Cutter) : Worker :=
  match k.absorb answer with
  | (.chunk c, k) =>
    match writer.check c with
    | .ok () => .sending k window c 0
    | .error e => .stopping e
  | (.failed e, _) => .stopping e
  | (.more, k) => .reading k window []
  | (.done, _) => .starting

/-- One read of a worker from its window, or none if it has got what it wanted. -/
def stepReading (k : Cutter) (w : Window) (got : Bytes) (p : Pool σ) : Worker × Pool σ :=
  if k.finished then (.starting, p)
  else if k.limit ≤ got.length then (afterReading p.session.writer w (.ok got) k, p)
  else
    match w.read (k.limit - got.length) p.common with
    | (answer, w, common) =>
      let p := { p with common }
      match Verdict.of answer with
      | .more bytes => (.reading k w (got ++ bytes), p)
      | .stop none => (afterReading p.session.writer w (.ok got) k, p)
      | .stop (some e) => (afterReading p.session.writer w (.error e) k, p)

/-- One request of a worker for its chunk. -/
def stepSending (k : Cutter) (w : Window) (c : Chunk) (sent : Nat) (p : Pool σ) :
    Worker × Pool σ :=
  match p.session.writer.write c p.session.service with
  | (answer, writer, service) =>
    let p := { p with session := { p.session with service, writer } }
    match answer with
    | .ok token => (.counting k w c token, p)
    | .error (.condition message) => (.stopping (.condition c.offset message), p)
    | .error cause =>
      if p.session.settings.maxRetries ≤ sent then
        (.stopping (.retriesExhausted c.offset (sent + 1) cause), p)
      else (.sending k w c (sent + 1), p)

/-- One step of a worker: what it does next, and the pool after it. -/
def stepWorker (w : Worker) (p : Pool σ) : Worker × Pool σ :=
  match w with
  | .starting => (if p.stop then .ended else .claiming, p)
  | .claiming =>
    match p.queue with
    | [] => (.ended, p)
    | span :: queue => (.checking span, { p with queue })
  | .checking span =>
    let (answer, session) := p.session.checkAbort span.start
    let p := { p with session }
    match answer with
    | .ok () => (p.openSpan span, p)
    | .error e => (.stopping e, p)
  | .reading k window got => stepReading k window got p
  | .sending k window c sent => stepSending k window c sent p
  | .counting k window c token =>
    (.filing k window c token, { p with session := p.session.advance c.length })
  | .filing k window c token =>
    (.reading k window [], { p with tokens := fileToken c.offset token p.tokens })
  | .stopping e => (.reporting e, { p with stop := true })
  | .reporting e => (.ended, { p with failure := p.failure.or (some e) })
  | .ended => (.ended, p)

def step (i : Nat) (p : Pool σ) : Pool σ :=
  match p.workers[i]? with
  | none => p
  | some w =>
    let (w', p') := stepWorker w p
    { p' with workers := p'.workers.set i w' }

end Pool

end BlobUpload
