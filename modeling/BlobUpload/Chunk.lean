import BlobUpload.Bytes

/-! # Chunks and the spans they fill -/

namespace BlobUpload

/-- A half-open range of byte offsets. -/
structure Span where
  start : Nat
  stop : Nat
  deriving DecidableEq, Repr

namespace Span

def length (s : Span) : Nat := s.stop - s.start

/-- How many spans of `size` bytes, taken as at least one, it takes to cover `length` bytes. -/
def count (length size : Nat) : Nat := (length + (max size 1 - 1)) / max size 1

/-- The span number `i` of those that cover `length` bytes in steps of `size`. -/
def nth (length size i : Nat) : Span :=
  let step := max size 1
  ⟨i * step, min (i * step + step) length⟩

/-- The first `limit` of the spans that cover `length` bytes. -/
def firstOf (limit length size : Nat) : List Span :=
  (List.range (min limit (count length size))).map (nth length size)

/-- The consecutive spans of `size` bytes that cover `length` bytes; the last one holds the rest. -/
def cover (length size : Nat) : List Span := (List.range (count length size)).map (nth length size)

end Span

/-- A unit of upload: what is sent, and where in the blob it goes. -/
structure Chunk where
  offset : Nat
  payload : Bytes
  /-- Whether this is known to be the last chunk. A source of unknown length that ends on a chunk
  boundary has a last chunk that is not known to be one. -/
  isLast : Bool := false
  deriving DecidableEq, Repr

namespace Chunk

def length (c : Chunk) : Nat := c.payload.length

/-- The offset behind the payload. -/
def stop (c : Chunk) : Nat := c.offset + c.length

def span (c : Chunk) : Span := ⟨c.offset, c.stop⟩

def describe (c : Chunk) : String :=
  s!"Chunk({c.length} bytes @ {c.offset}" ++ (if c.isLast then ", final)" else ")")

end Chunk

/-- What a written chunk is remembered by. -/
inductive Token where
  /-- A staged block, committed later by its id. -/
  | block (id : String)
  /-- A page write and the ETag it answered. -/
  | page (etag : String)
  /-- An append and the blob length after it. -/
  | append (next : Nat)
  deriving DecidableEq, Repr

namespace Token

def blockId? : Token → Option String
  | block id => some id
  | _ => none

def etag? : Token → Option String
  | page etag => some etag
  | _ => none

def next? : Token → Option Nat
  | append next => some next
  | _ => none

def describe : Token → String
  | block id => "block " ++ id
  | page etag => "page etag " ++ etag
  | append next => "append next " ++ toString next

end Token

end BlobUpload
