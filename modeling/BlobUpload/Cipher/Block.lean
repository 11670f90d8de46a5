import BlobUpload.Bytes

/-! # Cipher blocks

A block is sixteen bytes, four columns of four. Byte strings are cut into whole blocks and a rest
of fewer than sixteen bytes by `Block.split`. A `BlockCipher` is any invertible map of blocks.
-/

namespace BlobUpload

def cipherBlockSize : Nat := 16

structure Column where
  a : UInt8
  b : UInt8
  c : UInt8
  d : UInt8
  deriving DecidableEq, Repr

namespace Column

/-- Bytewise exclusive or. -/
def xor (s t : Column) : Column := ⟨s.a ^^^ t.a, s.b ^^^ t.b, s.c ^^^ t.c, s.d ^^^ t.d⟩

instance : XorOp Column := ⟨xor⟩

theorem xor_def (s t : Column) :
    s ^^^ t = ⟨s.a ^^^ t.a, s.b ^^^ t.b, s.c ^^^ t.c, s.d ^^^ t.d⟩ := rfl

def map (f : UInt8 → UInt8) (s : Column) : Column := ⟨f s.a, f s.b, f s.c, f s.d⟩

theorem xor_xor_cancel_right (s t : Column) : s ^^^ t ^^^ t = s := by
  simp only [xor_def, UInt8.xor_assoc, UInt8.xor_self, UInt8.xor_zero]

end Column

structure Block where
  w : Column
  x : Column
  y : Column
  z : Column
  deriving DecidableEq, Repr

namespace Block

def xor (s t : Block) : Block := ⟨s.w ^^^ t.w, s.x ^^^ t.x, s.y ^^^ t.y, s.z ^^^ t.z⟩

instance : XorOp Block := ⟨xor⟩

theorem xor_def (s t : Block) :
    s ^^^ t = ⟨s.w ^^^ t.w, s.x ^^^ t.x, s.y ^^^ t.y, s.z ^^^ t.z⟩ := rfl

def map (f : Column → Column) (s : Block) : Block := ⟨f s.w, f s.x, f s.y, f s.z⟩

theorem xor_xor_cancel_right (s t : Block) : s ^^^ t ^^^ t = s := by
  simp only [xor_def, Column.xor_xor_cancel_right]

def toBytes (s : Block) : Bytes :=
  [s.w.a, s.w.b, s.w.c, s.w.d, s.x.a, s.x.b, s.x.c, s.x.d,
   s.y.a, s.y.b, s.y.c, s.y.d, s.z.a, s.z.b, s.z.c, s.z.d]

theorem length_toBytes (s : Block) : s.toBytes.length = cipherBlockSize := rfl

/-- The whole blocks at the front of a byte string, and the bytes left over. -/
def split : Bytes → List Block × Bytes
  | a :: b :: c :: d :: e :: f :: g :: h :: i :: j :: k :: l :: m :: n :: o :: p :: rest =>
    let (blocks, tail) := split rest
    (⟨⟨a, b, c, d⟩, ⟨e, f, g, h⟩, ⟨i, j, k, l⟩, ⟨m, n, o, p⟩⟩ :: blocks, tail)
  | tail => ([], tail)

def join (blocks : List Block) : Bytes := blocks.flatMap toBytes

/-- The block that holds exactly these bytes. -/
def ofBytes? (bytes : Bytes) : Option Block :=
  match split bytes with
  | ([block], []) => some block
  | _ => none

theorem join_split (bytes : Bytes) : join (split bytes).1 ++ (split bytes).2 = bytes := by
  fun_induction split bytes with
  | case1 a b c d e f g h i j k l m n o p rest blocks tail heq ih =>
    simp only [heq] at ih
    simp only [join, List.flatMap_cons, toBytes, List.cons_append, List.nil_append] at ih ⊢
    rw [ih]
  | case2 => rfl

theorem length_split_snd (bytes : Bytes) : (split bytes).2.length < cipherBlockSize := by
  fun_induction split bytes with
  | case1 a b c d e f g h i j k l m n o p rest blocks tail heq ih => simpa only [heq] using ih
  | case2 tail hshort =>
    refine Nat.lt_of_not_le fun hlong => ?_
    match tail, hlong with
    | a :: b :: c :: d :: e :: f :: g :: h :: i :: j :: k :: l :: m :: n :: o :: p :: rest, _ =>
      exact hshort a b c d e f g h i j k l m n o p rest rfl

end Block

/-- An invertible map of blocks. -/
structure BlockCipher where
  encrypt : Block → Block
  decrypt : Block → Block
  decrypt_encrypt : ∀ block, decrypt (encrypt block) = block
  encrypt_decrypt : ∀ block, encrypt (decrypt block) = block

end BlobUpload
