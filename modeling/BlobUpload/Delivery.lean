import BlobUpload.Writer

/-! # Sending one request until it is answered

A request that fails is sent again unchanged, up to so many times. A condition that does not hold is
final: the same request cannot do better.
-/

namespace BlobUpload

/-- Sends the request that writes a chunk once. -/
def Writer.write {σ : Type} [Service σ] (w : Writer) (c : Chunk) (s : σ) :
    Except ServiceError Token × Writer × σ :=
  match Service.answer (w.request c) s with
  | (.error e, s) => (.error e, w, s)
  | (.ok reply, s) =>
    let (token, w) := w.accept c reply
    (.ok token, w, s)

/-- Sends a request for the chunk at `offset` at most `retries + 1` more times; `sent` counts the
requests before. -/
def deliver {σ : Type} [Service σ] (offset : Nat) (r : Request) :
    (retries : Nat) → (sent : Nat) → σ → Except UploadError r.Reply × σ
  | retries, sent, s =>
    match Service.answer r s with
    | (.ok reply, s) => (.ok reply, s)
    -- The same request would meet the same condition again.
    | (.error (.condition message), s) => (.error (.condition offset message), s)
    | (.error cause, s) =>
      match retries with
      | 0 => (.error (.retriesExhausted offset (sent + 1) cause), s)
      | retries + 1 => deliver offset r retries (sent + 1) s

end BlobUpload
