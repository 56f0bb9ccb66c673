import Mathlib.Data.List.Basic
import Std.Data.ExtTreeMap

/-! # Records of fixed-width byte fields

A binary record is a concatenation of fields whose widths are known, and a
reader cuts a field out by its offsets. Numbers are written with the most
significant byte first.
-/

namespace FastMcp.ByteRecords

/-- Bytes of a known number. -/
@[ext]
structure Block (size : Nat) where
  bytes : List UInt8
  length_eq : bytes.length = size
deriving DecidableEq

instance {size : Nat} : Ord (Block size) :=
  ⟨compareOn Block.bytes⟩

instance {size : Nat} : Std.TransOrd (Block size) :=
  inferInstanceAs (Std.TransCmp (compareOn (@Block.bytes size)))

instance {size : Nat} : Std.LawfulEqOrd (Block size) where
  compare_self {block} := Std.ReflOrd.compare_self (a := block.bytes)
  eq_of_compare same := Block.ext (Std.LawfulEqOrd.eq_of_compare same)

end FastMcp.ByteRecords
