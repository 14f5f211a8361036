import Mathlib.Algebra.Order.Floor.Div
import GenerationalHeap.Proofs.BlockSize

namespace GenerationalHeap

namespace Word

/-- Least multiple of `unit` that is not below `n`, whatever the word range. -/
def ceilTo (unit n : Nat) : Nat := unit * (n ⌈/⌉ unit)

theorem isLeast_ceilTo {unit : Nat} (hunit : 0 < unit) (n : Nat) :
    IsLeast {m | unit ∣ m ∧ n ≤ m} (ceilTo unit n) := by
  constructor
  · exact ⟨Nat.dvd_mul_right _ _, le_smul_ceilDiv hunit⟩
  · intro m hm
    obtain ⟨⟨q, rfl⟩, hle⟩ := hm
    exact Nat.mul_le_mul_left unit ((ceilDiv_le_iff_le_smul hunit).mpr hle)

theorem dvd_ceilTo (unit n : Nat) : unit ∣ ceilTo unit n := Nat.dvd_mul_right _ _

theorem le_ceilTo {unit : Nat} (hunit : 0 < unit) (n : Nat) : n ≤ ceilTo unit n :=
  (isLeast_ceilTo hunit n).1.2

theorem ceilTo_eq_div {unit : Nat} (hunit : 0 < unit) (n : Nat) :
    ceilTo unit n = unit * ((n + (unit - 1)) / unit) := by
  rw [ceilTo, Nat.ceilDiv_eq_add_pred_div, Nat.add_sub_assoc hunit]

/-- Rounding up adds less than one unit. -/
theorem ceilTo_lt_add {unit : Nat} (hunit : 0 < unit) (n : Nat) : ceilTo unit n < n + unit := by
  have hle : unit * ((n + (unit - 1)) / unit) ≤ n + (unit - 1) := Nat.mul_div_le _ _
  rw [ceilTo_eq_div hunit]
  omega

/-- The number of words is a multiple of every power of two that is a word, so the sum with which
rounding starts leaves the word range only if the rounded number does. -/
theorem ceilTo_lt_span_iff {k : Nat} (hk : k ≤ 64) (n : Nat) :
    ceilTo (2 ^ k) n < span ↔ n + (2 ^ k - 1) < span := by
  have hpos : 0 < 2 ^ k := Nat.two_pow_pos k
  have hle := le_ceilTo hpos n
  have hlt := ceilTo_lt_add hpos n
  constructor
  · intro h
    obtain ⟨words, hwords⟩ : 2 ^ k ∣ span := Nat.pow_dvd_pow 2 hk
    obtain ⟨q, hq⟩ := dvd_ceilTo (2 ^ k) n
    have hq' : q + 1 ≤ words := by
      rw [hq, hwords] at h
      exact Nat.lt_of_mul_lt_mul_left h
    have hstep : 2 ^ k * q + 2 ^ k ≤ span := by
      rw [hwords, ← Nat.mul_succ]
      exact Nat.mul_le_mul_left _ hq'
    omega
  · intro h
    omega

/-- Rounding gives the least multiple, or none if that is no word. -/
theorem roundUp?_exact {k : Nat} (hk : k ≤ 64) (n : Nat) :
    roundUp? (2 ^ k) n =
      if ceilTo (2 ^ k) n < span then some (ceilTo (2 ^ k) n) else none := by
  simp only [ceilTo_lt_span_iff hk]
  rw [roundUp?_two_pow k n hk, ceilTo_eq_div (Nat.two_pow_pos k)]

theorem toNat_lt_span (a : UInt64) : a.toNat < span := a.toNat_lt

/-- The sum of a machine wraps, so it is exact only where the sum of the numbers is a word. -/
theorem toNat_add_of_lt {a b : UInt64} (h : a.toNat + b.toNat < span) :
    (a + b).toNat = a.toNat + b.toNat := by
  rw [UInt64.toNat_add]
  exact Nat.mod_eq_of_lt h

theorem toNat_mul_of_lt {a b : UInt64} (h : a.toNat * b.toNat < span) :
    (a * b).toNat = a.toNat * b.toNat := by
  rw [UInt64.toNat_mul]
  exact Nat.mod_eq_of_lt h

/-- The complement of the bits below a unit is the mask that clears them. -/
theorem toNat_and_not_pred {unit : UInt64} (hunit : 0 < unit.toNat) (n : UInt64) :
    (n &&& ~~~(unit - 1)).toNat = clearBelow unit.toNat n.toNat := by
  have hone : (1 : UInt64) ≤ unit := UInt64.le_iff_toNat_le.mpr hunit
  have hpred : (unit - 1).toNat = unit.toNat - 1 := UInt64.toNat_sub_of_le _ _ hone
  have hlt := toNat_lt_span unit
  have hmask : UInt64.size - 1 - (unit.toNat - 1) = span - unit.toNat := by
    rw [show UInt64.size = span from rfl]
    omega
  rw [UInt64.toNat_and, UInt64.toNat_not, hpred, hmask, clearBelow]

/-- A machine rounds up by a sum and a mask; this is exact unless the rounded number is no word. -/
theorem toNat_roundUp {k : Nat} {unit n : UInt64} (hunit : unit.toNat = 2 ^ k)
    (h : ceilTo unit.toNat n.toNat < span) :
    ((n + (unit - 1)) &&& ~~~(unit - 1)).toNat = ceilTo unit.toNat n.toNat := by
  have hpos : 0 < unit.toNat := hunit ▸ Nat.two_pow_pos k
  have hk : k ≤ 64 := by
    have hlt : 2 ^ k < 2 ^ 64 := hunit ▸ unit.toNat_lt
    exact (Nat.pow_lt_pow_iff_right (by decide)).mp hlt |>.le
  have hpred : (unit - 1).toNat = unit.toNat - 1 :=
    UInt64.toNat_sub_of_le _ _ (UInt64.le_iff_toNat_le.mpr hpos)
  have hsum : n.toNat + (unit.toNat - 1) < span := by
    rw [hunit] at h ⊢
    exact (ceilTo_lt_span_iff hk n.toNat).mp h
  rw [toNat_and_not_pred hpos, toNat_add_of_lt (hpred ▸ hsum), hpred, ceilTo_eq_div hpos]
  rw [hunit] at hsum ⊢
  exact clearBelow_two_pow k _ hk hsum

end Word

end GenerationalHeap
