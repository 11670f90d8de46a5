import BlobUpload.Cipher.Block
import BlobUpload.Cipher.Substitution

/-! # AES with a key of 256 bits

The state of the cipher is a block. A round substitutes every byte, shifts the rows, mixes each
column and adds a round key; the last round mixes no column. Main definition: `AES.cipher`, whose
two directions are inverse to each other because each layer is invertible.
-/

namespace BlobUpload.AES

/-! ## Columns -/

/-- A byte times the polynomial `x` in the field of 256 elements. The bit that leaves on the left
comes back as `x ^ 4 + x ^ 3 + x + 1`. -/
def double (b : UInt8) : UInt8 :=
  let carry := b >>> 7
  (b <<< 1) ^^^ carry ^^^ (carry <<< 1) ^^^ (carry <<< 3) ^^^ (carry <<< 4)

/-- A column times the fixed polynomial `3 x ^ 3 + x ^ 2 + x + 2`. -/
def mix (s : Column) : Column :=
  ⟨double (s.a ^^^ s.b) ^^^ s.b ^^^ s.c ^^^ s.d,
   double (s.b ^^^ s.c) ^^^ s.c ^^^ s.d ^^^ s.a,
   double (s.c ^^^ s.d) ^^^ s.d ^^^ s.a ^^^ s.b,
   double (s.d ^^^ s.a) ^^^ s.a ^^^ s.b ^^^ s.c⟩

/-- A column times the square `4 x ^ 2 + 5` of that polynomial, which is its own inverse. -/
def mixTwice (s : Column) : Column :=
  let u := double (double (s.a ^^^ s.c))
  let v := double (double (s.b ^^^ s.d))
  ⟨s.a ^^^ u, s.b ^^^ v, s.c ^^^ u, s.d ^^^ v⟩

/-- The inverse of `mix`: the fixed polynomial has order four. -/
def unmix (s : Column) : Column := mix (mixTwice s)

theorem double_xor (s t : UInt8) : double (s ^^^ t) = double s ^^^ double t := by
  simp only [double, UInt8.shiftLeft_xor, UInt8.shiftRight_xor]
  ac_rfl

theorem xor_left_comm (r s t : UInt8) : r ^^^ (s ^^^ t) = s ^^^ (r ^^^ t) := by
  ac_rfl

theorem xor_cancel_left (s t : UInt8) : s ^^^ (s ^^^ t) = t := by
  rw [← UInt8.xor_assoc, UInt8.xor_self, UInt8.zero_xor]

theorem mix_mix (s : Column) : mix (mix s) = mixTwice s := by
  simp only [mix, mixTwice, double_xor, Column.mk.injEq]
  refine ⟨?_, ?_, ?_, ?_⟩ <;>
    simp only [UInt8.xor_assoc, UInt8.xor_comm, xor_left_comm, xor_cancel_left, UInt8.xor_self,
      UInt8.zero_xor]

theorem mixTwice_mixTwice (s : Column) : mixTwice (mixTwice s) = s := by
  have hcancel : ∀ p q u : UInt8, p ^^^ u ^^^ (q ^^^ u) = p ^^^ q := fun p q u => by
    simp only [UInt8.xor_comm, xor_left_comm, UInt8.xor_self, UInt8.xor_zero]
  simp only [mixTwice, hcancel, UInt8.xor_assoc, UInt8.xor_self, UInt8.xor_zero]

theorem unmix_mix (s : Column) : unmix (mix s) = s := by
  rw [unmix, ← mix_mix (mix s), mix_mix s, mix_mix, mixTwice_mixTwice]

theorem mix_unmix (s : Column) : mix (unmix s) = s := by
  rw [unmix, mix_mix, mixTwice_mixTwice]

/-! ## Layers of a round -/

/-- Row `i` of the state moves `i` columns to the left. -/
def shiftRows (s : Block) : Block :=
  ⟨⟨s.w.a, s.x.b, s.y.c, s.z.d⟩, ⟨s.x.a, s.y.b, s.z.c, s.w.d⟩,
   ⟨s.y.a, s.z.b, s.w.c, s.x.d⟩, ⟨s.z.a, s.w.b, s.x.c, s.y.d⟩⟩

/-- Row `i` of the state moves `i` columns to the right. -/
def unshiftRows (s : Block) : Block :=
  ⟨⟨s.w.a, s.z.b, s.y.c, s.x.d⟩, ⟨s.x.a, s.w.b, s.z.c, s.y.d⟩,
   ⟨s.y.a, s.x.b, s.w.c, s.z.d⟩, ⟨s.z.a, s.y.b, s.x.c, s.w.d⟩⟩

/-- The part of a round before its columns are mixed. -/
def scramble (s : Block) : Block := shiftRows (s.map (Column.map sub))

def unscramble (s : Block) : Block := (unshiftRows s).map (Column.map invSub)

theorem unscramble_scramble (s : Block) : unscramble (scramble s) = s := by
  simp [unscramble, scramble, shiftRows, unshiftRows, Block.map, Column.map, invSub_sub]

theorem scramble_unscramble (s : Block) : scramble (unscramble s) = s := by
  simp [unscramble, scramble, shiftRows, unshiftRows, Block.map, Column.map, sub_invSub]

/-- A round other than the last. -/
def round (s key : Block) : Block := (scramble s).map mix ^^^ key

def unround (key s : Block) : Block := unscramble ((s ^^^ key).map unmix)

theorem unround_round (s key : Block) : unround key (round s key) = s := by
  rw [unround, round, Block.xor_xor_cancel_right]
  simp only [Block.map, unmix_mix]
  exact unscramble_scramble s

theorem round_unround (s key : Block) : round (unround key s) key = s := by
  rw [unround, round, scramble_unscramble]
  simp only [Block.map, mix_unmix]
  exact Block.xor_xor_cancel_right s key

/-! ## Key schedule -/

/-- The key: thirty-two bytes in two halves. -/
structure Key where
  left : Block
  right : Block
  deriving DecidableEq, Repr

/-- The keys of the whitening, the thirteen full rounds and the last round. -/
structure Schedule where
  first : Block
  middle : List Block
  last : Block

/-- A column turned up by one byte. -/
def rotate (s : Column) : Column := ⟨s.b, s.c, s.d, s.a⟩

/-- The eight columns that follow eight columns of the schedule. -/
def Key.next (roundConstant : UInt8) (key : Key) : Key :=
  let w := key.left.w ^^^ (rotate key.right.z).map sub ^^^ ⟨roundConstant, 0, 0, 0⟩
  let x := key.left.x ^^^ w
  let y := key.left.y ^^^ x
  let z := key.left.z ^^^ y
  let w' := key.right.w ^^^ z.map sub
  let x' := key.right.x ^^^ w'
  let y' := key.right.y ^^^ x'
  ⟨⟨w, x, y, z⟩, ⟨w', x', y', key.right.z ^^^ y'⟩⟩

def Key.schedule (key : Key) : Schedule :=
  let k₁ := key.next 0x01
  let k₂ := k₁.next 0x02
  let k₃ := k₂.next 0x04
  let k₄ := k₃.next 0x08
  let k₅ := k₄.next 0x10
  let k₆ := k₅.next 0x20
  let k₇ := k₆.next 0x40
  { first := key.left
    middle := key.right :: [k₁, k₂, k₃, k₄, k₅, k₆].flatMap fun k => [k.left, k.right]
    last := k₇.left }

/-! ## The cipher -/

def Schedule.encrypt (s : Schedule) (block : Block) : Block :=
  scramble (s.middle.foldl round (block ^^^ s.first)) ^^^ s.last

def Schedule.decrypt (s : Schedule) (block : Block) : Block :=
  s.middle.foldr unround (unscramble (block ^^^ s.last)) ^^^ s.first

theorem foldr_unround_foldl_round (keys : List Block) (s : Block) :
    keys.foldr unround (keys.foldl round s) = s := by
  induction keys generalizing s with
  | nil => rfl
  | cons key keys ih => simp [ih, unround_round]

theorem foldl_round_foldr_unround (keys : List Block) (s : Block) :
    keys.foldl round (keys.foldr unround s) = s := by
  induction keys with
  | nil => rfl
  | cons key keys ih => simp [ih, round_unround]

theorem Schedule.decrypt_encrypt (s : Schedule) (block : Block) :
    s.decrypt (s.encrypt block) = block := by
  rw [decrypt, encrypt, Block.xor_xor_cancel_right, unscramble_scramble,
    foldr_unround_foldl_round, Block.xor_xor_cancel_right]

theorem Schedule.encrypt_decrypt (s : Schedule) (block : Block) :
    s.encrypt (s.decrypt block) = block := by
  rw [decrypt, encrypt, Block.xor_xor_cancel_right, foldl_round_foldr_unround,
    scramble_unscramble, Block.xor_xor_cancel_right]

def cipher (key : Key) : BlockCipher :=
  let s := key.schedule
  ⟨s.encrypt, s.decrypt, s.decrypt_encrypt, s.encrypt_decrypt⟩

end BlobUpload.AES
