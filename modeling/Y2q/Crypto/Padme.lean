/-
`padme_len`: the length an object is padded to before it is sealed.

A length of binary logarithm `e` is rounded up to a multiple of `2 ^ (e - s)`, `s` the bits of `e`. As long as a multiple
is left above `l` below `2 ^ 64`, that is what the code computes (`padmeLen_eq`); from `2 ^ 64 - 2 ^ 57 + 1` on the
addition saturates, and masking the low bits takes the length below `l` (`padmeLen_top`).

`padmeLen_arithmetic` puts this together: at least `l` exactly for `l` up to `2 ^ 64 - 2 ^ 57`, and monotone, idempotent, at
most an eighth longer and the least multiple for all lengths below `2 ^ 63`.
-/
import Mathlib.Tactic
import Y2q.Core.Rounding
import Y2q.Crypto.Envelope

namespace Y2q.Envelope

open Y2q

/-- the low bits that are rounded away, for a length of binary logarithm `e` -/
def padmeBits (e : ℕ) : ℕ := e - (Nat.log2 e + 1)

theorem padmeBits_le (e : ℕ) : padmeBits e ≤ e := Nat.sub_le _ _

theorem two_pow_padmeBits_le (e : ℕ) : 2 ^ padmeBits e ≤ 2 ^ e / 8 + 1 := by
  rcases Nat.lt_or_ge e 4 with h | h
  · interval_cases e <;> decide
  · have hlog : 2 ≤ Nat.log2 e := (Nat.le_log2 (by omega)).2 h
    have hpow : 2 ^ padmeBits e ≤ 2 ^ (e - 3) := Nat.pow_le_pow_right two_pos (by rw [padmeBits]; omega)
    have hsplit : 2 ^ e = 2 ^ 3 * 2 ^ (e - 3) := by rw [← pow_add]; congr 1; omega
    omega

theorem padmeBits_of_lt {e : ℕ} (h : e < 64) : padmeBits e ≤ 57 := by
  interval_cases e <;> decide

/-- the two early returns are the lengths of granularity one -/
theorem padmeLen_eq_ite (l : ℕ) :
    padmeLen l = if padmeBits (Nat.log2 l) = 0 then l
      else min (l + (2 ^ padmeBits (Nat.log2 l) - 1)) (2 ^ 64 - 1) &&& (2 ^ 64 - 1 - (2 ^ padmeBits (Nat.log2 l) - 1)) := by
  rw [padmeLen]
  by_cases h2 : l < 2
  · have hbits : padmeBits (Nat.log2 l) = 0 := by interval_cases l <;> decide
    rw [if_pos h2, if_pos hbits]
  · rw [if_neg h2]
    by_cases hes : Nat.log2 l ≤ Nat.log2 (Nat.log2 l) + 1
    · have hbits : padmeBits (Nat.log2 l) = 0 := Nat.sub_eq_zero_of_le hes
      rw [if_pos hbits]
      exact if_pos hes
    · have hbits : padmeBits (Nat.log2 l) ≠ 0 := Nat.sub_ne_zero_of_lt (not_le.1 hes)
      rw [if_neg hbits]
      exact if_neg hes

theorem padmeLen_eq {l : ℕ} (h : l ≤ 2 ^ 64 - 2 ^ 57) : padmeLen l = bucketed padmeBits l := by
  have hlog : Nat.log2 l < 64 := by
    rcases eq_or_ne l 0 with rfl | h0
    · decide
    · exact (Nat.log2_lt h0).2 (by omega)
  have hbits := padmeBits_of_lt hlog
  have hpow : 2 ^ padmeBits (Nat.log2 l) ≤ 2 ^ 57 := Nat.pow_le_pow_right two_pos hbits
  rw [padmeLen_eq_ite, bucketed]
  split_ifs with h0
  · rw [h0, pow_zero, roundUp_one]
  · rw [min_eq_left (by omega), add_mask_and (by omega) (by omega)]

theorem padmeLen_top {l : ℕ} (hlow : 2 ^ 64 - 2 ^ 57 < l) (hl : l < 2 ^ 64) : padmeLen l = 2 ^ 64 - 2 ^ 57 := by
  have hlog : Nat.log2 l = 63 := (Nat.log2_eq_iff (by omega)).2 ⟨by omega, by omega⟩
  have hbits : padmeBits 63 = 57 := by decide
  rw [padmeLen_eq_ite, hlog, hbits, if_neg (by decide), min_eq_right (by omega)]
  decide

/-- what callers rely on: the padded length of an object below `2 ^ 63` bytes -/
theorem padmeLen_bounds {l : ℕ} (h : l < 2 ^ 63) : l ≤ padmeLen l ∧ padmeLen l < 2 ^ 64 := by
  have hlog : Nat.log2 l + 1 ≤ 63 := by
    rcases eq_or_ne l 0 with rfl | h0
    · decide
    · exact (Nat.log2_lt h0).2 h
  have hle := bucketed_le_two_pow padmeBits_le l
  have hpow : 2 ^ (Nat.log2 l + 1) ≤ 2 ^ 63 := Nat.pow_le_pow_right two_pos hlog
  rw [padmeLen_eq (by omega)]
  exact ⟨le_bucketed padmeBits l, by omega⟩

/-! ## The whole range -/

/-- the length is not shortened exactly up to `2 ^ 64 - 2 ^ 57`; below `2 ^ 63` padding is monotone, idempotent, costs at most
an eighth, and gives `l` or the least multiple of `2 ^ (e - s)` -/
theorem padmeLen_arithmetic (l : ℕ) :
    (l < 2 ^ 64 → (l ≤ padmeLen l ↔ l ≤ 2 ^ 64 - 2 ^ 57)) ∧
    (∀ l', l ≤ l' → l' < 2 ^ 63 → padmeLen l ≤ padmeLen l') ∧
    (l < 2 ^ 63 → padmeLen (padmeLen l) = padmeLen l ∧ padmeLen l ≤ l + l / 8 ∧
      (padmeLen l = l ∨
        IsLeast {n | 2 ^ (Nat.log2 l - (Nat.log2 (Nat.log2 l) + 1)) ∣ n ∧ l ≤ n} (padmeLen l))) := by
  refine ⟨fun hl => ⟨fun h => ?_, fun h => ?_⟩, fun l' h hl' => ?_, fun hl => ⟨?_, ?_, ?_⟩⟩
  · by_contra hlow
    rw [padmeLen_top (not_le.1 hlow) hl] at h
    exact hlow h
  · rw [padmeLen_eq h]
    exact le_bucketed padmeBits l
  · rw [padmeLen_eq (by omega), padmeLen_eq (by omega)]
    exact bucketed_mono padmeBits_le h
  · have hpad := bucketed_le_add_div two_pow_padmeBits_le l
    have hlt := (padmeLen_bounds hl).2
    rw [padmeLen_eq (l := l) (by omega)] at hlt ⊢
    rw [padmeLen_eq (by omega), bucketed_bucketed padmeBits_le]
  · rw [padmeLen_eq (by omega)]
    exact bucketed_le_add_div two_pow_padmeBits_le l
  · rw [padmeLen_eq (by omega)]
    exact .inr (roundUp_isLeast (Nat.two_pow_pos _) l)

/-- the longest length a `u64` holds comes out shorter -/
theorem padmeLen_max_shrinks : padmeLen (2 ^ 64 - 1) = 2 ^ 64 - 2 ^ 57 ∧ ¬ ∀ l < 2 ^ 64, l ≤ padmeLen l := by
  have h : padmeLen (2 ^ 64 - 1) = 2 ^ 64 - 2 ^ 57 := by decide
  refine ⟨h, fun hall => ?_⟩
  have := hall (2 ^ 64 - 1) (by norm_num)
  rw [h] at this
  omega

end Y2q.Envelope
