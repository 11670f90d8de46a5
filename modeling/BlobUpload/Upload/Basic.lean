import BlobUpload.Upload.Pool.Run
import BlobUpload.Upload.Sequential

/-! # One upload from settings to commit

An upload checks its settings, sends the source as one request, chunk by chunk or by several
workers, and commits what was sent. It can be run once: any later run is refused and changes
nothing.
-/

namespace BlobUpload

structure Summary where
  /-- The tokens of all chunks by ascending offset. -/
  tokens : List Token
  /-- Payload bytes sent, as encrypted. -/
  bytesSent : Nat
  /-- Number of requests that wrote payload. -/
  chunkCount : Nat
  commit : Option String
  deriving DecidableEq, Repr

/-- An upload before, or after, its run. -/
structure Upload (σ : Type) where
  settings : Settings
  service : σ
  watch : Option Watch := none
  /-- All reports so far, oldest first. -/
  reports : List Report := []
  abort : Abort := {}
  life : Lifecycle := {}

/-- How a run ends: its result, the source as it leaves it, and the upload. -/
abbrev Ending (σ : Type) := Except UploadError Summary × Source × Upload σ

namespace Upload

variable {σ : Type}

def enter (next : Phase) (u : Upload σ) : Upload σ := { u with life := u.life.advance next }

/-- Takes back what a session has changed. -/
def resume (s : Session σ) (u : Upload σ) : Upload σ :=
  { u with service := s.service, reports := s.reports, abort := s.abort }

/-- A session that begins with the first report. -/
def session (total : Option Nat) (u : Upload σ) : Session σ :=
  { settings := u.settings, service := u.service, writer := u.settings.writer, watch := u.watch,
    reports := u.reports, abort := u.abort, total : Session σ }.report

/-- Enters the phase in which the upload has ended. -/
def settle (ending : Ending σ) : Ending σ :=
  let (result, source, u) := ending
  match result with
  | .ok _ => (result, source, u.enter .done)
  | .error _ => (result, source, u.enter .failed)

variable [Service σ]

/-- Commits what a session has sent, unless the sending failed. -/
def conclude (sent : Except UploadError (List Token)) (source : Source) (s : Session σ)
    (u : Upload σ) : Ending σ :=
  match sent with
  | .error e => (.error e, source, u.resume s)
  | .ok tokens =>
    let u := u.enter .committing
    match s.commit tokens with
    | (.error e, s) => (.error e, source, u.resume s)
    | (.ok commit, s) =>
      (.ok { tokens, bytesSent := s.completed, chunkCount := tokens.length, commit }, source,
        u.resume s)

def runSequential (source : Source) (length : Option Nat) (u : Upload σ) : Ending σ :=
  let u := u.enter .sequential
  let (sent, source, s) :=
    sendAll (u.settings.cutter length) source (u.session (u.settings.progressTotal length))
  u.conclude sent source s

/-- Sends `length` bytes of the source by several workers. -/
def runParallel (schedule : List Pool.Action) (source : Source) (length : Nat) (u : Upload σ) :
    Ending σ :=
  match CommonSource.ofSource source with
  | (.error e, source) => (.error (.source 0 e), source, u)
  | (.ok common, _) =>
    let u := u.enter .parallel
    let pool := (Pool.ofSession (u.session (some length)) common length).run schedule
    u.conclude pool.outcome pool.common.source pool.session

def runSinglePut (source : Source) (length : Nat) (u : Upload σ) : Ending σ :=
  let u := u.enter .sequential
  match sendWhole (u.settings.cutter (some length)) source
      (u.session (u.settings.progressTotal (some length))) with
  | (.error e, source, s) => (.error e, source, u.resume s)
  | (.ok etag, source, s) =>
    (.ok { tokens := [], bytesSent := s.completed, chunkCount := 1, commit := some etag }, source,
      (u.enter .committing).resume s)

/-- Sends a seekable source whose length is known. -/
def runMeasured (schedule : List Pool.Action) (source : Source) (length : Nat) (u : Upload σ) :
    Ending σ :=
  match u.settings.lengthViolation? length with
  | some rule => (.error (.violation rule), source, u)
  | none =>
    -- What fits one request needs no workers, however many are asked for.
    match u.settings.singlePutLength? (some length) with
    | some length => u.runSinglePut source length
    | none =>
      if u.settings.isParallel then u.runParallel schedule source length
      else u.runSequential source (some length)

/-- Sends a seekable source, which is measured unless its length is given. -/
def runSeekable (schedule : List Pool.Action) (source : Source) (u : Upload σ) : Ending σ :=
  match u.settings.sourceLength with
  | some length => u.runMeasured schedule source length
  | none =>
    match source.remaining with
    | (.error e, source) => (.error (.source 0 e), source, u)
    | (.ok length, source) => u.runMeasured schedule source length

/-- Sends a source that can only be read. -/
def runStream (source : Source) (u : Upload σ) : Ending σ :=
  let length := u.settings.sourceLength
  match u.settings.singlePutLength? length with
  | some length => u.runSinglePut source length
  | none =>
    if u.settings.isParallel then (.error (.violation .parallelStream), source, u)
    else u.runSequential source length

/-- Starts an upload that has not run yet and whose settings break no rule. -/
def start (run : Source → Upload σ → Ending σ) (source : Source) (u : Upload σ) : Ending σ :=
  if u.life.current ≠ .idle then
    (.error (.violation (.alreadyRun u.life.current)), source, u)
  else
    let u := u.enter .splitting
    match u.settings.validate with
    | .error e => (.error e, source, u.enter .failed)
    | .ok () => settle (run source u)

/-- Uploads a seekable source from its position on. Several workers follow the schedule. -/
def upload (source : Source) (u : Upload σ) (schedule : List Pool.Action := []) : Ending σ :=
  u.start (runSeekable schedule) source

/-- Uploads a source that can only be read forward. -/
def uploadStream (source : Source) (u : Upload σ) : Ending σ := u.start runStream source

def describe (u : Upload σ) : String :=
  Record.render "TransferCoordinator" [
    ("spec", u.settings.describe),
    ("state", u.life.current.describe),
    ("aborted", toString u.abort.raised)]

end Upload

end BlobUpload
