import BlobUpload.Cutter
import BlobUpload.Upload.Session

/-! # Sending chunks one after another -/

namespace BlobUpload

variable {ρ σ : Type} [Reader ρ] [Service σ]

/-- Cuts and sends one chunk after another until the reader ends or something fails. -/
def sendAll (k : Cutter) (r : ρ) (s : Session σ) :
    Except UploadError (List Token) × ρ × Session σ :=
  match h : k.next r with
  | (none, _, r') => (.ok [], r', s)
  | (some (.error e), _, r') => (.error e, r', s)
  | (some (.ok c), k', r') =>
    match s.checkAbort c.offset with
    | (.error e, s) => (.error e, r', s)
    | (.ok (), s) =>
      match s.send c with
      | (.error e, s) => (.error e, r', s)
      | (.ok token, s) =>
        have : k'.budget r' < k.budget r := by
          simpa only [h] using Cutter.budget_next_lt (k := k) (r := r) (by rw [h])
        match sendAll k' r' s with
        | (.ok tokens, r'', s) => (.ok (token :: tokens), r'', s)
        | (.error e, r'', s) => (.error e, r'', s)
termination_by k.budget r

/-- All payloads one after another, or the error that ends the cutting. -/
def gather (k : Cutter) (r : ρ) : Except UploadError Bytes × ρ :=
  match h : k.next r with
  | (none, _, r') => (.ok [], r')
  | (some (.error e), _, r') => (.error e, r')
  | (some (.ok c), k', r') =>
    have : k'.budget r' < k.budget r := by
      simpa only [h] using Cutter.budget_next_lt (k := k) (r := r) (by rw [h])
    match gather k' r' with
    | (.ok rest, r'') => (.ok (c.payload ++ rest), r'')
    | (.error e, r'') => (.error e, r'')
termination_by k.budget r

/-- The cutter that the settings ask for. -/
def Settings.cutter (s : Settings) (length : Option Nat) : Cutter :=
  { Cutter.ofSize s.chunkSize with
    remaining := length
    cipher := s.encryption.map ContentKey.stream }

/-- Reads the whole source and writes it by one request. -/
def sendWhole (k : Cutter) (r : ρ) (s : Session σ) : Except UploadError String × ρ × Session σ :=
  -- The whole source is read before the flag is looked at.
  match gather k r with
  | (.error e, r) => (.error e, r, s)
  | (.ok payload, r) =>
    match s.checkAbort 0 with
    | (.error e, s) => (.error e, r, s)
    | (.ok (), s) =>
      match s.deliver 0 (.putBlob (s.settings.envelope.body payload)) with
      | (.error e, s) => (.error e, r, s)
      | (.ok etag, s) => (.ok etag, r, s.advance payload.length)

end BlobUpload
