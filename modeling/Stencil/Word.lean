/-
Sizes and machine words. Extents, bounds and unit numbers are 64-bit words; sizes computed from them are natural
numbers that either fit a word or are refused, never wrapped.
-/
namespace Stencil

/-- the largest size a word can hold -/
def wordMax : Nat := 0xFFFFFFFFFFFFFFFF

/-- a computed size, unless it is larger than a word -/
def fits (n : Nat) : Option Nat := if n ≤ wordMax then some n else none

theorem fits_eq_some {n m : Nat} : fits n = some m ↔ n ≤ wordMax ∧ n = m := by
  unfold fits
  split <;> next h => simp [h]

theorem fits_eq_none {n : Nat} : fits n = none ↔ wordMax < n := by
  unfold fits
  split <;> simp_all

theorem toNat_le_wordMax (w : UInt64) : w.toNat ≤ wordMax := by
  have := w.toNat_lt
  simp only [wordMax]
  omega

/-- the word nearest to a size: sizes beyond the word range stop at its end -/
def clamp (n : Nat) : UInt64 := UInt64.ofNatClamp n

theorem toNat_clamp (n : Nat) : (clamp n).toNat = min n wordMax := by
  unfold clamp UInt64.ofNatClamp
  split
  · next h =>
    simp only [UInt64.size] at h
    simp only [UInt64.toNat_ofNatLT, wordMax]
    omega
  · next h =>
    simp only [UInt64.size] at h
    simp only [UInt64.toNat_ofNatLT, wordMax, UInt64.size]
    omega

theorem toNat_clamp_of_le {n : Nat} (h : n ≤ wordMax) : (clamp n).toNat = n := by rw [toNat_clamp, Nat.min_eq_left h]

theorem toNat_lt_of_lt_clamp {n : Nat} {w : UInt64} (h : w < clamp n) : w.toNat < n := by
  rw [UInt64.lt_iff_toNat_lt, toNat_clamp] at h
  omega

/-- the largest signed word, as a size -/
def signedMax : Nat := 0x7FFFFFFFFFFFFFFF

theorem toInt64_eq_ofNat (u : UInt64) : u.toInt64 = Int64.ofNat u.toNat := by
  rw [← UInt64.toInt64_ofNatLT u.toNat_lt, UInt64.ofNatLT_toNat]

end Stencil
