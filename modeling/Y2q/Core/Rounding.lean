/-
Rounding up to a multiple, with a granularity that grows with the binary logarithm.

- `roundUp m l`: the least multiple of `m` not below `l` (`roundUp_isLeast`).
- `bucketed g l`: `l` rounded up to a multiple of `2 ^ g e`, `e` the binary logarithm of `l`. If `g e ≤ e`, a result stays
  within the next power of two, which is a multiple of every granularity below it. So rounding is monotone, across the
  powers of two also (`bucketed_mono`), and idempotent (`bucketed_bucketed`).
- `and_high_bits`: a word with its `k` low bits masked off is rounded down to a multiple of `2 ^ k`.
-/
import Mathlib.Tactic
import Mathlib.Algebra.Order.Floor.Div

namespace Y2q

/-! ## Multiples -/

def roundUp (m l : ℕ) : ℕ := m * (l ⌈/⌉ m)

theorem dvd_roundUp (m l : ℕ) : m ∣ roundUp m l := Dvd.intro _ rfl

theorem le_roundUp {m : ℕ} (hm : 0 < m) (l : ℕ) : l ≤ roundUp m l := (ceilDiv_le_iff_le_mul hm).1 le_rfl

theorem roundUp_le {m l n : ℕ} (hm : 0 < m) (hn : m ∣ n) (hl : l ≤ n) : roundUp m l ≤ n := by
  obtain ⟨q, rfl⟩ := hn
  exact Nat.mul_le_mul_left m ((ceilDiv_le_iff_le_mul hm).2 hl)

theorem roundUp_isLeast {m : ℕ} (hm : 0 < m) (l : ℕ) : IsLeast {n | m ∣ n ∧ l ≤ n} (roundUp m l) :=
  ⟨⟨dvd_roundUp m l, le_roundUp hm l⟩, fun _ hn => roundUp_le hm hn.1 hn.2⟩

theorem roundUp_mono {m l l' : ℕ} (hm : 0 < m) (h : l ≤ l') : roundUp m l ≤ roundUp m l' :=
  roundUp_le hm (dvd_roundUp m l') (h.trans (le_roundUp hm l'))

theorem roundUp_of_dvd {m l : ℕ} (hm : 0 < m) (h : m ∣ l) : roundUp m l = l :=
  (roundUp_le hm h le_rfl).antisymm (le_roundUp hm l)

theorem roundUp_one (l : ℕ) : roundUp 1 l = l := roundUp_of_dvd one_pos (one_dvd l)

theorem roundUp_lt {m : ℕ} (hm : 0 < m) (l : ℕ) : roundUp m l < l + m := by
  have h : m * ((l + m - 1) / m) ≤ l + m - 1 := Nat.mul_div_le _ _
  rw [roundUp, Nat.ceilDiv_eq_add_pred_div]
  omega

/-! ## Words -/

theorem and_high_bits {x k : ℕ} (hx : x < 2 ^ 64) (hk : k ≤ 64) : x &&& (2 ^ 64 - 1 - (2 ^ k - 1)) = 2 ^ k * (x / 2 ^ k) := by
  have hmask : 2 ^ 64 - 1 - (2 ^ k - 1) = 2 ^ k * (2 ^ (64 - k) - 1) := by
    have h1 : 2 ^ k * 2 ^ (64 - k) = 2 ^ 64 := by rw [← pow_add]; congr 1; omega
    have h2 : 0 < 2 ^ k := Nat.two_pow_pos k
    rw [Nat.mul_sub, h1]; omega
  rw [hmask]
  apply Nat.eq_of_testBit_eq
  intro i
  rw [Nat.testBit_and, Nat.testBit_two_pow_mul, Nat.testBit_two_pow_mul, Nat.testBit_two_pow_sub_one, Nat.testBit_div_two_pow]
  by_cases hi : k ≤ i
  · rw [show i - k + k = i by omega]
    by_cases h64 : i < 64
    · simp [hi, show i - k < 64 - k by omega]
    · rw [Nat.testBit_lt_two_pow (lt_of_lt_of_le hx (Nat.pow_le_pow_right (by omega) (by omega)))]
      simp
  · simp [hi]

/-- adding the mask and clearing it again rounds up -/
theorem add_mask_and {l k : ℕ} (hl : l + (2 ^ k - 1) < 2 ^ 64) (hk : k ≤ 64) :
    (l + (2 ^ k - 1)) &&& (2 ^ 64 - 1 - (2 ^ k - 1)) = roundUp (2 ^ k) l := by
  have hpos := Nat.two_pow_pos k
  rw [and_high_bits hl hk, roundUp, Nat.ceilDiv_eq_add_pred_div, Nat.add_sub_assoc hpos]

/-! ## Granularity by the binary logarithm -/

def bucketed (g : ℕ → ℕ) (l : ℕ) : ℕ := roundUp (2 ^ g (Nat.log2 l)) l

section Bucketed

variable {g : ℕ → ℕ}

theorem le_bucketed (g : ℕ → ℕ) (l : ℕ) : l ≤ bucketed g l := le_roundUp (Nat.two_pow_pos _) l

theorem lt_two_pow_log2_succ (l : ℕ) : l < 2 ^ (Nat.log2 l + 1) := Nat.lt_log2_self

theorem bucketed_le_two_pow (hg : ∀ e, g e ≤ e) (l : ℕ) : bucketed g l ≤ 2 ^ (Nat.log2 l + 1) := by
  have hdvd : 2 ^ g (Nat.log2 l) ∣ 2 ^ (Nat.log2 l + 1) := Nat.pow_dvd_pow 2 ((hg _).trans (Nat.le_succ _))
  exact roundUp_le (Nat.two_pow_pos _) hdvd (lt_two_pow_log2_succ l).le

theorem bucketed_two_pow (hg : ∀ e, g e ≤ e) (e : ℕ) : bucketed g (2 ^ e) = 2 ^ e := by
  rw [bucketed, Nat.log2_two_pow]
  exact roundUp_of_dvd (Nat.two_pow_pos _) (Nat.pow_dvd_pow 2 (hg e))

theorem bucketed_mono (hg : ∀ e, g e ≤ e) : Monotone (bucketed g) := by
  intro l l' h
  rcases Nat.eq_zero_or_pos l with rfl | hl
  · have hzero : bucketed g 0 = 0 := roundUp_of_dvd (Nat.two_pow_pos _) (dvd_zero _)
    rw [hzero]
    exact Nat.zero_le _
  rcases eq_or_ne (Nat.log2 l) (Nat.log2 l') with he | he
  · rw [bucketed, bucketed, he]
    exact roundUp_mono (Nat.two_pow_pos _) h
  · -- a power of two lies between the two
    have hlt : Nat.log2 l < Nat.log2 l' := by
      refine lt_of_le_of_ne ?_ he
      rw [Nat.log2_eq_log_two, Nat.log2_eq_log_two]
      exact Nat.log_mono_right h
    calc bucketed g l ≤ 2 ^ (Nat.log2 l + 1) := bucketed_le_two_pow hg l
      _ ≤ 2 ^ Nat.log2 l' := Nat.pow_le_pow_right two_pos hlt
      _ ≤ l' := Nat.log2_self_le (by omega)
      _ ≤ bucketed g l' := le_bucketed g l'

theorem bucketed_bucketed (hg : ∀ e, g e ≤ e) (l : ℕ) : bucketed g (bucketed g l) = bucketed g l := by
  rcases (bucketed_le_two_pow hg l).eq_or_lt with h | h
  · rw [h, bucketed_two_pow hg]
  · have hlow : 2 ^ Nat.log2 l ≤ bucketed g l ∨ l = 0 := by
      rcases eq_or_ne l 0 with h0 | h0
      · exact .inr h0
      · exact .inl ((Nat.log2_self_le h0).trans (le_bucketed g l))
    rcases hlow with hlow | rfl
    · have hlog : Nat.log2 (bucketed g l) = Nat.log2 l :=
        (Nat.log2_eq_iff (by have := Nat.two_pow_pos (Nat.log2 l); omega)).2 ⟨hlow, h⟩
      rw [bucketed, hlog]
      exact roundUp_of_dvd (Nat.two_pow_pos _) (dvd_roundUp _ _)
    · have hzero : bucketed g 0 = 0 := roundUp_of_dvd (Nat.two_pow_pos _) (dvd_zero _)
      rw [hzero, hzero]

/-- a granularity at most an eighth of the power of two below costs at most an eighth -/
theorem bucketed_le_add_div (hg : ∀ e, 2 ^ g e ≤ 2 ^ e / 8 + 1) (l : ℕ) : bucketed g l ≤ l + l / 8 := by
  rcases eq_or_ne l 0 with rfl | h0
  · exact (roundUp_of_dvd (Nat.two_pow_pos _) (dvd_zero _)).le
  · have hlt := roundUp_lt (Nat.two_pow_pos (g (Nat.log2 l))) l
    have hdiv : 2 ^ Nat.log2 l / 8 ≤ l / 8 := Nat.div_le_div_right (Nat.log2_self_le h0)
    have := hg (Nat.log2 l)
    rw [bucketed]
    omega

end Bucketed

end Y2q
