/-! # Bounds

The integers that documents and settings may state are those of 64 bits. -/

namespace SchemaIr.Bounds

/-- The largest unsigned integer of 64 bits. -/
def maxNat64 : Nat := 18446744073709551615

/-- The least signed integer of 64 bits. -/
def minInt64 : Int := -9223372036854775808

/-- The largest signed integer of 64 bits. -/
def maxInt64 : Int := 9223372036854775807

/-- The integer has a signed form of 64 bits. -/
def fitsInt64 (n : Int) : Bool := minInt64 ≤ n && n ≤ maxInt64

end SchemaIr.Bounds
