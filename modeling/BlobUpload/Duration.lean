import BlobUpload.Text.Numeral

/-! # Spans of time

A duration is a whole number of nanoseconds. A number of seconds given as a binary fraction is
rounded to the nearest nanosecond, a tie to the even one.
-/

namespace BlobUpload

/-- A span of time in nanoseconds. -/
structure Duration where
  nanos : Nat
  deriving DecidableEq, Repr

namespace Duration

def zero : Duration := ⟨0⟩

def ofSeconds (seconds : Nat) : Duration := ⟨seconds * 1000000000⟩

def ofMillis (millis : Nat) : Duration := ⟨millis * 1000000⟩

def seconds (d : Duration) : Nat := d.nanos / 1000000000

/-- What a span holds beyond its whole seconds, in nanoseconds. -/
def subsecondNanos (d : Duration) : Nat := d.nanos % 1000000000

/-- The integer nearest to `n / d`, of two the even one. -/
def roundHalfEven (n d : Nat) : Nat :=
  let q := n / d
  let r := n % d
  if 2 * r < d || (2 * r = d && q % 2 = 0) then q else q + 1

/-- The span of so many seconds, given as the 64 bits of a binary floating-point number. What is
negative, not a number or at least `2 ^ 64` counts as no time. -/
def ofBinarySeconds (bits : Nat) : Duration :=
  let negative := bits >>> 63 % 2 = 1
  let exponent := bits >>> 52 % 1 <<< 11
  let fraction := bits % 1 <<< 52
  if negative || 1023 + 64 ≤ exponent then zero
  else
    let mantissa := if exponent = 0 then fraction else fraction + 1 <<< 52
    let scaled := (mantissa * 1000000000) <<< max exponent 1
    ⟨roundHalfEven scaled (1 <<< 1075)⟩

/-- A decimal number with as few places as it needs, of at most `places`. -/
def decimal (places whole fraction : Nat) : String :=
  let digits := Numeral.padded 10 places fraction
  let shown := (digits.reverse.dropWhile (· == '0')).reverse
  if shown.isEmpty then toString whole else toString whole ++ "." ++ String.ofList shown

/-- A span in the largest unit in which it is at least one. -/
def describe (d : Duration) : String :=
  if 1000000000 ≤ d.nanos then
    decimal 9 d.seconds d.subsecondNanos ++ "s"
  else if 1000000 ≤ d.nanos then decimal 6 (d.nanos / 1000000) (d.nanos % 1000000) ++ "ms"
  else if 1000 ≤ d.nanos then decimal 3 (d.nanos / 1000) (d.nanos % 1000) ++ "µs"
  else toString d.nanos ++ "ns"

end Duration

end BlobUpload
