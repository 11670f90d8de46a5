/-! # Offsets of 64 bits

Offsets and lengths are 64 bits wide, and a sum that does not fit into them wraps around. Most sums
stay below the number of bytes that are at hand and are taken as they are. `Offset.add` is the sum
of offsets that come from outside. -/

namespace BlobUpload.Offset

/-- What 64 bits hold of a number. -/
def wrap (n : Nat) : Nat := n % UInt64.size

/-- The sum of two offsets, wrapped around. -/
def add (a b : Nat) : Nat := wrap (a + b)

theorem wrap_of_lt {n : Nat} (h : n < UInt64.size) : wrap n = n := Nat.mod_eq_of_lt h

theorem wrap_lt (n : Nat) : wrap n < UInt64.size := Nat.mod_lt n (by decide)

theorem add_of_lt {a b : Nat} (h : a + b < UInt64.size) : add a b = a + b := wrap_of_lt h

theorem add_lt (a b : Nat) : add a b < UInt64.size := wrap_lt (a + b)

example : add 5 (UInt64.size - 1) = 4 := by decide

end BlobUpload.Offset
