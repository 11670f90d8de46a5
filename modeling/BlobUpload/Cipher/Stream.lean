import BlobUpload.Cipher.AES
import BlobUpload.Cipher.Chaining
import BlobUpload.Text.Record

/-! # Streaming encryption of one blob

A `CipherStream` encrypts a blob piece by piece. Only whole cipher blocks leave it; the rest of a
piece waits for the next one. The last piece is padded, after which the stream is used up.
-/

namespace BlobUpload

/-- Why bytes could not be encrypted or decrypted. -/
inductive CipherError where
  | finalized
  | partialBlock
  | badPadding
  /-- A failure reported by somebody else, in their words. -/
  | reported (message : String)
  deriving DecidableEq, Repr

def CipherError.message : CipherError → String
  | finalized => "encryptor used after finalize"
  | partialBlock => "ciphertext is not a whole number of blocks"
  | badPadding => "invalid padding in decrypted data"
  | reported message => message

/-- A cipher in the middle of a blob. -/
structure CipherStream where
  cipher : BlockCipher
  /-- The last cipher block that left, or the initialization vector. -/
  last : Block
  /-- Bytes that do not fill a block yet. -/
  pending : Bytes := []
  finalized : Bool := false

namespace CipherStream

/-- Encrypts whole blocks and remembers the last of them. -/
def emit (s : CipherStream) (blocks : List Block) : Bytes × CipherStream :=
  let out := s.cipher.chain s.last blocks
  (Block.join out, { s with last := out.getLastD s.last })

/-- Takes a piece and answers every block that it completes. -/
def update (s : CipherStream) (data : Bytes) : Except CipherError Bytes × CipherStream :=
  if s.finalized then (.error .finalized, s)
  else
    let (blocks, rest) := Block.split (s.pending ++ data)
    let (out, s) := s.emit blocks
    (.ok out, { s with pending := rest })

/-- Takes the last piece, pads it and answers all remaining blocks. -/
def finalize (s : CipherStream) (data : Bytes) : Except CipherError Bytes × CipherStream :=
  if s.finalized then (.error .finalized, s)
  else
    let (out, s) := s.emit (Block.split (Padding.add (s.pending ++ data))).1
    (.ok out, { s with pending := [], finalized := true })

def describe (s : CipherStream) : String :=
  Record.render "ChunkEncryptor"
    [("pending", toString s.pending.length), ("finalized", toString s.finalized)]

end CipherStream

def contentKeySize : Nat := 32

/-- What a blob is encrypted under: a key and an initialization vector. -/
structure ContentKey where
  key : AES.Key
  iv : Block
  deriving DecidableEq, Repr

namespace ContentKey

/-- The content key with these key bytes and this initialization vector. -/
def ofBytes? (key iv : Bytes) : Option ContentKey := do
  match Block.split key with
  | ([left, right], []) => some ⟨⟨left, right⟩, ← Block.ofBytes? iv⟩
  | _ => none

def keyBytes (k : ContentKey) : Bytes := k.key.left.toBytes ++ k.key.right.toBytes

def ivBytes (k : ContentKey) : Bytes := k.iv.toBytes

/-- A stream at the beginning of a blob. -/
def stream (k : ContentKey) : CipherStream := { cipher := AES.cipher k.key, last := k.iv }

/-- The plain bytes of a whole encrypted blob. -/
def decrypt (k : ContentKey) (ciphertext : Bytes) : Except CipherError Bytes :=
  match Block.split ciphertext with
  | (blocks, []) =>
    match Padding.remove? (Block.join ((AES.cipher k.key).unchain k.iv blocks)) with
    | some plain => .ok plain
    | none => .error .badPadding
  | _ => .error .partialBlock

def randomColumn {γ : Type} [RandomGen γ] (g : γ) : Column × γ :=
  let (a, g) := randNat g 0 255
  let (b, g) := randNat g 0 255
  let (c, g) := randNat g 0 255
  let (d, g) := randNat g 0 255
  (⟨a.toUInt8, b.toUInt8, c.toUInt8, d.toUInt8⟩, g)

def randomBlock {γ : Type} [RandomGen γ] (g : γ) : Block × γ :=
  let (w, g) := randomColumn g
  let (x, g) := randomColumn g
  let (y, g) := randomColumn g
  let (z, g) := randomColumn g
  (⟨w, x, y, z⟩, g)

def random {γ : Type} [RandomGen γ] (g : γ) : ContentKey × γ :=
  let (left, g) := randomBlock g
  let (right, g) := randomBlock g
  let (iv, g) := randomBlock g
  (⟨⟨left, right⟩, iv⟩, g)

/-- A content key as text: the key itself is left out. -/
def describe (k : ContentKey) : String :=
  Record.render "EncryptionContext"
    [("key", "\"<redacted>\""), ("iv", Record.list (k.ivBytes.map fun b => toString b.toNat))]

end ContentKey

end BlobUpload
