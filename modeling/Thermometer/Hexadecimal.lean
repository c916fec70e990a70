import Mathlib.Data.List.Basic

namespace Thermometer.Hexadecimal

/-- A digit as `std::hex` writes it, in lower case. -/
def isDigit (c : Char) : Bool := c.isDigit || ('a' ≤ c && c ≤ 'f')

def digit (c : Char) : Nat :=
  if c.isDigit then c.toNat - '0'.toNat else c.toNat - 'a'.toNat + 10

def value (cs : List Char) : Nat := cs.foldl (fun n c => 16 * n + digit c) 0

/-- The number that the digits stand for. -/
def decode (cs : List Char) : Option Nat :=
  if cs ≠ [] ∧ cs.all isDigit = true then some (value cs) else none

theorem value_append_digit (cs : List Char) (c : Char) :
    value (cs ++ [c]) = 16 * value cs + digit c := by
  rw [value, List.foldl_append]
  rfl

theorem digit_digitChar {n : Nat} (h : n < 16) : digit n.digitChar = n := by
  revert n
  decide

theorem all_toDigits {p : Char → Bool} (hp : ∀ k < 16, p (Nat.digitChar k) = true) (n : Nat) :
    (Nat.toDigits 16 n).all p = true := by
  induction n using Nat.base_induction 16 (by decide) with
  | single m hm =>
    rw [Nat.toDigits_of_lt_base hm, List.all_cons, hp m hm]
    rfl
  | digit m k hk hm ih =>
    rw [← Nat.toDigits_append_toDigits (by decide) hm hk, List.all_append, ih,
      Nat.toDigits_of_lt_base hk, List.all_cons, hp k hk]
    rfl

theorem value_toDigits (n : Nat) : value (Nat.toDigits 16 n) = n := by
  induction n using Nat.base_induction 16 (by decide) with
  | single m hm =>
    rw [Nat.toDigits_of_lt_base hm]
    exact (Nat.zero_add _).trans (digit_digitChar hm)
  | digit m k hk hm ih =>
    rw [← Nat.toDigits_append_toDigits (by decide) hm hk, Nat.toDigits_of_lt_base hk,
      value_append_digit, ih, digit_digitChar hk]

theorem decode_toDigits (n : Nat) : decode (Nat.toDigits 16 n) = some n := by
  have hall : (Nat.toDigits 16 n).all isDigit = true := all_toDigits (by decide) n
  rw [decode, if_pos ⟨Nat.toDigits_ne_nil, hall⟩, value_toDigits]

end Thermometer.Hexadecimal
