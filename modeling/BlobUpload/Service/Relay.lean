import BlobUpload.BlockId
import BlobUpload.Service.Blob

/-! # Faults on the way to a service

A relay passes requests on to a service and keeps a record of them. Some of them it answers with an
error instead, either without passing them on or after dropping the answer.
-/

namespace BlobUpload

/-- An error for some of the requests that match. -/
structure Fault where
  /-- Only requests of this method. -/
  method : Option Method := none
  /-- Only requests with this number or a later one. -/
  fromRequest : Option Nat := none
  /-- Only requests for the chunk at this offset. -/
  offset : Option Nat := none
  error : ServiceError
  /-- How many requests are still hit. -/
  times : Nat := 1
  /-- Whether the request is passed on and only its answer is lost. -/
  passedOn : Bool := false
  deriving DecidableEq, Repr

/-- Whether a request writes the chunk at `offset`, as far as the request tells. -/
def Request.writesAt (offset : Nat) : Request → Bool
  | .putBlock id _ => id = blockId offset
  | .updatePage first _ _ _ => first = offset
  | .appendBlock _ position _ => position = some offset
  | _ => false

namespace Fault

/-- Whether a fault hits a request. -/
def hits (f : Fault) (number : Nat) (r : Request) : Bool :=
  0 < f.times &&
  f.method.all (· = r.method) &&
  f.fromRequest.all (· ≤ number) &&
  f.offset.all (r.writesAt ·)

/-- The first fault that hits a request, and the faults that are left. -/
def strike (number : Nat) (r : Request) : List Fault → Option Fault × List Fault
  | [] => (none, [])
  | f :: rest =>
    if f.hits number r then (some f, { f with times := f.times - 1 } :: rest)
    else
      let (hit, rest) := strike number r rest
      (hit, f :: rest)

end Fault

/-- A request and the error it was answered with, if any. -/
structure Exchange where
  request : Request
  failure : Option ServiceError
  deriving DecidableEq, Repr

/-- A service behind faults. -/
structure Relay (σ : Type) where
  service : σ
  faults : List Fault := []
  /-- All requests so far, oldest first. -/
  exchanges : List Exchange := []

namespace Relay

variable {σ : Type} [Service σ]

/-- Answers a request by a fault or by the service. -/
def resolve (r : Request) (relay : Relay σ) : Except ServiceError r.Reply × Relay σ :=
  match Fault.strike relay.exchanges.length r relay.faults with
  | (some fault, faults) =>
    let service := if fault.passedOn then (Service.answer r relay.service).2 else relay.service
    (.error fault.error, { relay with service, faults })
  | (none, faults) =>
    let (answer, service) := Service.answer r relay.service
    (answer, { relay with service, faults })

def failure? {α : Type} : Except ServiceError α → Option ServiceError
  | .ok _ => none
  | .error e => some e

/-- Answers a request and records it. -/
def answer (r : Request) (relay : Relay σ) : Except ServiceError r.Reply × Relay σ :=
  let (answer, relay) := relay.resolve r
  (answer, { relay with exchanges := relay.exchanges ++ [⟨r, failure? answer⟩] })

instance : Service (Relay σ) := ⟨answer⟩

end Relay

end BlobUpload
