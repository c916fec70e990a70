import Mathlib.Data.BitVec

namespace Thermometer.Ticks

/-- Reducing before a division is harmless exactly below the modulus. -/
theorem mod_div_eq_iff {x m d : Nat} (hd : 0 < d) (hdm : d ≤ m) :
    x % m / d = x / d ↔ x < m := by
  constructor
  · intro h
    by_contra hx
    have hle : x % m + d ≤ x := by
      have hsplit := Nat.mod_add_div x m
      have hm : m * 1 ≤ m * (x / m) :=
        Nat.mul_le_mul_left m (Nat.div_pos (Nat.le_of_not_lt hx) (by omega))
      omega
    have hlt : x % m / d + 1 ≤ x / d := by
      rw [← Nat.add_div_right _ hd]
      exact Nat.div_le_div_right hle
    omega
  · intro h
    rw [Nat.mod_eq_of_lt h]

abbrev TickType := BitVec 32

def configTickRateHz : Nat := 100

def portMaxDelay : TickType := BitVec.allOnes 32

/-- `pdMS_TO_TICKS`, computed in `TickType_t` throughout. -/
def pdMsToTicks (x : Int) : TickType :=
  BitVec.ofInt 32 x * BitVec.ofNat 32 configTickRateHz / BitVec.ofNat 32 1000

def millisecondsMax : Int := 9223372036854775807

def days (n : Int) : Int := n * 86400000

def toTicks (ms : Int) : TickType :=
  if ms = millisecondsMax then portMaxDelay else pdMsToTicks ms

def tickCount (ms : Int) : Int := ms * configTickRateHz / 1000

theorem pdMsToTicks_toNat (n : Nat) :
    (pdMsToTicks n).toNat = n * configTickRateHz % 2 ^ 32 / 1000 := by
  have hrate : configTickRateHz % 2 ^ 32 = configTickRateHz := rfl
  have hunit : 1000 % 2 ^ 32 = 1000 := rfl
  simp only [pdMsToTicks, BitVec.ofInt_natCast, BitVec.toNat_udiv, BitVec.toNat_mul,
    BitVec.toNat_ofNat, hrate, hunit, Nat.mod_mul_mod]

theorem toTicks_toNat (n : Nat) (hmax : n < millisecondsMax) :
    (toTicks n).toNat = n * configTickRateHz % 2 ^ 32 / 1000 := by
  rw [toTicks, if_neg (by omega), pdMsToTicks_toNat]

/-- The conversion is exact as long as the product fits the tick type. -/
theorem toTicks_exact_iff (ms : Int) (h0 : 0 ≤ ms) (hmax : ms < millisecondsMax) :
    ((toTicks ms).toNat : Int) = tickCount ms ↔ ms * configTickRateHz < 2 ^ 32 := by
  obtain ⟨n, rfl⟩ := Int.eq_ofNat_of_zero_le h0
  have hexact : tickCount n = ((n * configTickRateHz / 1000 : Nat) : Int) := by
    simp [tickCount]
  rw [hexact, toTicks_toNat n hmax, Int.natCast_inj, mod_div_eq_iff (by decide) (by decide)]
  simp only [configTickRateHz]
  omega

theorem toTicks_exact_iff_minute :
    ((toTicks 60000).toNat : Int) = tickCount 60000 ↔ 60000 * (configTickRateHz : Int) < 2 ^ 32 :=
  toTicks_exact_iff 60000 (by decide) (by decide)

/-- The delay between two update rounds loses most of its day. -/
theorem day_loses_ticks :
    0 ≤ days 1 ∧ days 1 < millisecondsMax ∧ tickCount (days 1) < portMaxDelay.toNat ∧
      tickCount (days 1) = 8640000 ∧ (toTicks (days 1)).toNat = 50065 := by
  decide

theorem toTicks_mono {n n' : Nat} (hle : n ≤ n') (hfit : n' * configTickRateHz < 2 ^ 32) :
    toTicks n ≤ toTicks n' := by
  have hle' : n * configTickRateHz ≤ n' * configTickRateHz := Nat.mul_le_mul_right _ hle
  have hmax : n' < millisecondsMax := by
    simp only [configTickRateHz, millisecondsMax] at hfit ⊢
    omega
  rw [BitVec.le_def, toTicks_toNat n (by omega), toTicks_toNat n' hmax,
    Nat.mod_eq_of_lt (hle'.trans_lt hfit), Nat.mod_eq_of_lt hfit]
  exact Nat.div_le_div_right hle'

end Thermometer.Ticks
