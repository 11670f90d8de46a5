import BlobUpload.Bytes

/-! # Base64 with the standard alphabet and padding

Three bytes are one number below `2 ^ 24`, written as four digits of base 64. A last group of one
or two bytes is filled with zero bits to whole digits and with `=` to four characters. Main
statement: `decode_encode`, reading a written text gives its bytes back.
-/

namespace BlobUpload.Base64

/-- The 64 digits in ascending order. -/
def alphabet : List Char :=
  "ABCDEFGHIJKLMNOPQRSTUVWXYZabcdefghijklmnopqrstuvwxyz0123456789+/".toList

/-- The digit for a value below 64. -/
def digit (value : Nat) : Char := alphabet.getD value '='

def value? (c : Char) : Option Nat := alphabet.findIdx? (· == c)

def encode : Bytes → List Char
  | [] => []
  | [a] =>
    let n := a.toNat * 16
    [digit (n / 64), digit (n % 64), '=', '=']
  | [a, b] =>
    let n := (a.toNat * 256 + b.toNat) * 4
    [digit (n / 4096), digit (n / 64 % 64), digit (n % 64), '=']
  | a :: b :: c :: rest =>
    let n := (a.toNat * 256 + b.toNat) * 256 + c.toNat
    digit (n / 262144) :: digit (n / 4096 % 64) :: digit (n / 64 % 64) :: digit (n % 64) ::
      encode rest

/-- The bytes of a last group of one byte; the filling bits have to be zero. -/
def decodeOne (p q : Char) : Option Bytes := do
  let n := (← value? p) * 64 + (← value? q)
  if n % 16 = 0 then some [(n / 16).toUInt8] else none

/-- The bytes of a last group of two bytes; the filling bits have to be zero. -/
def decodeTwo (p q r : Char) : Option Bytes := do
  let n := ((← value? p) * 64 + (← value? q)) * 64 + (← value? r)
  if n % 4 = 0 then some [(n / 1024).toUInt8, (n / 4 % 256).toUInt8] else none

/-- The bytes of a whole group. -/
def decodeThree (p q r s : Char) : Option Bytes := do
  let n := (((← value? p) * 64 + (← value? q)) * 64 + (← value? r)) * 64 + (← value? s)
  some [(n / 65536).toUInt8, (n / 256 % 256).toUInt8, (n % 256).toUInt8]

def decode : List Char → Option Bytes
  | [] => some []
  | [p, q, '=', '='] => decodeOne p q
  | [p, q, r, '='] => decodeTwo p q r
  | p :: q :: r :: s :: rest => do some ((← decodeThree p q r s) ++ (← decode rest))
  | _ => none

theorem value?_digit {n : Nat} (h : n < 64) : value? (digit n) = some n := by
  have hall : ∀ m ∈ List.range 64, value? (digit m) = some m := by decide +kernel
  exact hall n (List.mem_range.2 h)

theorem digit_ne_pad {n : Nat} (h : n < 64) : digit n ≠ '=' := by
  have hall : ∀ m ∈ List.range 64, digit m ≠ '=' := by decide +kernel
  exact hall n (List.mem_range.2 h)

theorem decode_encode (data : Bytes) : decode (encode data) = some data := by
  fun_induction encode data with
  | case1 => rfl
  | case2 a n =>
    have ha := a.toNat_lt
    have h1 : n / 64 < 64 := by omega
    have h2 : n % 64 < 64 := by omega
    have he : n / 64 * 64 + n % 64 = n := by omega
    have e0 : n % 16 = 0 := by omega
    have e1 : n / 16 = a.toNat := by omega
    simp [decode, decodeOne, value?_digit h1, value?_digit h2, he, e0, e1]
  | case3 a b n =>
    have ha := a.toNat_lt
    have hb := b.toNat_lt
    have h1 : n / 4096 < 64 := by omega
    have h2 : n / 64 % 64 < 64 := by omega
    have h3 : n % 64 < 64 := by omega
    have he : (n / 4096 * 64 + n / 64 % 64) * 64 + n % 64 = n := by omega
    have e0 : n % 4 = 0 := by omega
    have e1 : n / 1024 = a.toNat := by omega
    have e2 : n / 4 % 256 = b.toNat := by omega
    simp [decode, digit_ne_pad h3, decodeTwo, value?_digit h1, value?_digit h2, value?_digit h3,
      he, e0, e1, e2]
  | case4 a b c rest n ih =>
    have ha := a.toNat_lt
    have hb := b.toNat_lt
    have hc := c.toNat_lt
    have h1 : n / 262144 < 64 := by omega
    have h2 : n / 4096 % 64 < 64 := by omega
    have h3 : n / 64 % 64 < 64 := by omega
    have h4 : n % 64 < 64 := by omega
    have he : ((n / 262144 * 64 + n / 4096 % 64) * 64 + n / 64 % 64) * 64 + n % 64 = n := by omega
    have e1 : n / 65536 = a.toNat := by omega
    have e2 : n / 256 % 256 = b.toNat := by omega
    have e3 : n % 256 = c.toNat := by omega
    simp [decode, digit_ne_pad h3, digit_ne_pad h4, decodeThree, value?_digit h1, value?_digit h2,
      value?_digit h3, value?_digit h4, ih, he, e1, e2, e3]

end BlobUpload.Base64
