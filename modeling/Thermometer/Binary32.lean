import Mathlib.Algebra.Group.Nat.Defs
import Mathlib.Data.Int.Notation

namespace Thermometer

/-- A `float` as its IEEE 754 binary32 word. -/
structure Binary32 where
  bits : BitVec 32
  deriving DecidableEq, Inhabited

namespace Binary32

def negative (x : Binary32) : Bool := x.bits.msb

def exponent (x : Binary32) : Nat := x.bits.toNat / 2 ^ 23 % 2 ^ 8

def fraction (x : Binary32) : Nat := x.bits.toNat % 2 ^ 23

def IsNaN (x : Binary32) : Prop := x.exponent = 255 ∧ x.fraction ≠ 0

def IsFinite (x : Binary32) : Prop := x.exponent ≠ 255

/-- The absolute value in units of the least positive number. An infinity is
above every finite number. -/
def magnitude (x : Binary32) : Nat :=
  if x.exponent = 0 then x.fraction else (2 ^ 23 + x.fraction) * 2 ^ (x.exponent - 1)

def scaled (x : Binary32) : Int := if x.negative then -x.magnitude else x.magnitude

/-- The comparison `x < y`, which is false when one of the two is not a number. -/
def Lt (x y : Binary32) : Prop := ¬ x.IsNaN ∧ ¬ y.IsNaN ∧ x.scaled < y.scaled

instance (x : Binary32) : Decidable x.IsFinite := inferInstanceAs (Decidable (_ ≠ _))

instance (x : Binary32) : Decidable x.IsNaN := inferInstanceAs (Decidable (_ ∧ _))

instance (x y : Binary32) : Decidable (x.Lt y) := inferInstanceAs (Decidable (_ ∧ _ ∧ _))

end Binary32

end Thermometer
