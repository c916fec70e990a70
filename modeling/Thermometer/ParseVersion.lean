import Mathlib.Data.Prod.Lex
import Mathlib.Data.Int.Order.Basic

namespace Thermometer.ParseVersion

structure Version where
  major : Int
  minor : Int
  patch : Int
  deriving DecidableEq

def Version.gt (v other : Version) : Bool :=
  if v.major ≠ other.major then decide (v.major > other.major)
  else if v.minor ≠ other.minor then decide (v.minor > other.minor)
  else decide (v.patch > other.patch)

def decimal (digits : List Char) : Nat :=
  digits.foldl (fun n c => 10 * n + (c.toNat - '0'.toNat)) 0

/-- `std::from_chars` into an `int`: an optional minus sign and the longest run
of digits, or an error without a digit or outside the range of `int`. -/
def fromChars (sv : List Char) : Option (Int × List Char) :=
  let (negative, body) : Bool × List Char :=
    match sv with
    | '-' :: body => (true, body)
    | _ => (false, sv)
  let digits := body.takeWhile Char.isDigit
  let value : Int := if negative then -(decimal digits : Int) else (decimal digits : Int)
  if digits = [] then none
  else if -2147483648 ≤ value ∧ value ≤ 2147483647 then
    some (value, body.dropWhile Char.isDigit)
  else none

/-- One round of the parser. A dot behind the number is removed if there is one. -/
def parseNext (sv : List Char) : Option (Int × List Char) :=
  if sv.isEmpty then none
  else
    (fromChars sv).map fun p =>
      (p.1, match p.2 with
        | '.' :: rest => rest
        | rest => rest)

/-- Only spaces are trimmed. A string of nothing but spaces has no version. -/
def parseVersion (sv : List Char) : Option Version :=
  match sv.dropWhile (· = ' ') with
  | [] => none
  | c :: rest =>
      (parseNext (c :: rest)).bind fun major =>
        (parseNext major.2).bind fun minor =>
          (parseNext minor.2).map fun patch => ⟨major.1, minor.1, patch.1⟩

def isNewerVersion (appVersion runningVersion : List Char) : Bool :=
  match parseVersion appVersion with
  | none => false
  | some app =>
      match parseVersion runningVersion with
      | none => false
      | some running => app.gt running

def Version.triple (v : Version) : Int ×ₗ Int ×ₗ Int := toLex (v.major, toLex (v.minor, v.patch))

theorem gt_iff (v other : Version) : v.gt other = true ↔ other.triple < v.triple := by
  simp only [Version.triple, Prod.Lex.toLex_lt_toLex, Version.gt]
  by_cases hmajor : v.major = other.major
  · by_cases hminor : v.minor = other.minor
    · simp [hmajor, hminor]
    · simp [hmajor, hminor, Ne.symm hminor]
  · simp [hmajor, Ne.symm hmajor]

def Newer (old new : List Char) : Prop :=
  ∃ v w, parseVersion old = some v ∧ parseVersion new = some w ∧ v.triple < w.triple

theorem isNewerVersion_iff (app running : List Char) :
    isNewerVersion app running = true ↔ Newer running app := by
  unfold isNewerVersion Newer
  cases ha : parseVersion app with
  | none => simp
  | some w =>
    cases hr : parseVersion running with
    | none => simp
    | some v => simp [gt_iff]

theorem Newer.trans {a b c : List Char} (hab : Newer a b) (hbc : Newer b c) : Newer a c := by
  obtain ⟨u, v, hu, hv, huv⟩ := hab
  obtain ⟨v', w, hv', hw, hvw⟩ := hbc
  obtain rfl : v = v' := Option.some.inj (hv.symm.trans hv')
  exact ⟨u, w, hu, hw, huv.trans hvw⟩

example : parseVersion " 10.11.4".toList = some ⟨10, 11, 4⟩ := by decide
example : parseVersion "1-2-3rc".toList = some ⟨1, -2, -3⟩ := by decide

end Thermometer.ParseVersion
