/-
Byte strings: fixed-width integers, strings, slices and positioned I/O.

- `leBytes w n` / `ofLe`: the `w` low bytes of `n`, least significant first, and the number a byte string stands for;
  `beBytes` / `ofBe` the other way round. Encoding keeps `n % 256 ^ w` (`ofLe_leBytes`), decoding loses nothing
  (`leBytes_ofLe`).
- `utf8`, `lenPrefixed`: the bytes of a string, and the same after their number.
- `slice b i j`: the bytes `i..j` of `b`.
- `pread` / `pwrite`: read and write at an offset of a file; a write past the end fills the hole with zeros.
-/
import Mathlib.Tactic

namespace Y2q

abbrev Bytes := List UInt8

/-! ## Fixed-width integers -/

/-- `n` as `w` bytes, least significant first -/
def leBytes : ℕ → ℕ → Bytes
  | 0, _ => []
  | w + 1, n => UInt8.ofNat (n % 256) :: leBytes w (n / 256)

def ofLe : Bytes → ℕ
  | [] => 0
  | b :: bs => b.toNat + 256 * ofLe bs

/-- `n` as `w` bytes, most significant first -/
def beBytes (w n : ℕ) : Bytes := (leBytes w n).reverse

def ofBe (b : Bytes) : ℕ := ofLe b.reverse

@[simp] theorem length_leBytes (w n : ℕ) : (leBytes w n).length = w := by
  induction w generalizing n with
  | zero => rfl
  | succ w ih => simp [leBytes, ih]

@[simp] theorem length_beBytes (w n : ℕ) : (beBytes w n).length = w := by simp [beBytes]

theorem ofLe_leBytes (w n : ℕ) : ofLe (leBytes w n) = n % 256 ^ w := by
  induction w generalizing n with
  | zero => simp [leBytes, ofLe, Nat.mod_one]
  | succ w ih =>
    have hb : (UInt8.ofNat (n % 256)).toNat = n % 256 := by
      rw [UInt8.toNat_ofNat']; exact Nat.mod_eq_of_lt (Nat.mod_lt _ (by norm_num))
    simp only [leBytes, ofLe, ih, hb, pow_succ]
    rw [mul_comm (256 ^ w) 256, Nat.mod_mul]

theorem ofBe_beBytes (w n : ℕ) : ofBe (beBytes w n) = n % 256 ^ w := by
  simp [ofBe, beBytes, ofLe_leBytes]

theorem leBytes_ofLe (b : Bytes) : leBytes b.length (ofLe b) = b := by
  induction b with
  | nil => rfl
  | cons x b ih =>
    have hx : x.toNat < 256 := x.toNat_lt
    simp only [List.length_cons, leBytes, ofLe]
    have h1 : (x.toNat + 256 * ofLe b) % 256 = x.toNat := by omega
    have h2 : (x.toNat + 256 * ofLe b) / 256 = ofLe b := by omega
    rw [h1, h2, ih]; simp

theorem beBytes_ofBe (b : Bytes) : beBytes b.length (ofBe b) = b := by
  have h := leBytes_ofLe b.reverse
  rw [List.length_reverse] at h
  simp [beBytes, ofBe, h]

theorem ofLe_lt (b : Bytes) : ofLe b < 256 ^ b.length := by
  induction b with
  | nil => simp [ofLe]
  | cons x b ih =>
    have hx : x.toNat < 256 := x.toNat_lt
    simp only [ofLe, List.length_cons, pow_succ]
    omega

theorem ofBe_lt (b : Bytes) : ofBe b < 256 ^ b.length := by
  simpa [ofBe] using ofLe_lt b.reverse

theorem leBytes_mod (w n : ℕ) : leBytes w (n % 256 ^ w) = leBytes w n := by
  have h := leBytes_ofLe (leBytes w n)
  rwa [length_leBytes, ofLe_leBytes] at h

theorem beBytes_mod (w n : ℕ) : beBytes w (n % 256 ^ w) = beBytes w n := by rw [beBytes, leBytes_mod, beBytes]

theorem beBytes_inj {w m n : ℕ} (hm : m < 256 ^ w) (hn : n < 256 ^ w) (h : beBytes w m = beBytes w n) : m = n := by
  have := congrArg ofBe h
  rwa [ofBe_beBytes, ofBe_beBytes, Nat.mod_eq_of_lt hm, Nat.mod_eq_of_lt hn] at this

@[simp] theorem u16_le (x : UInt16) : UInt16.ofNat (ofLe (leBytes 2 x.toNat)) = x := by
  rw [ofLe_leBytes, Nat.mod_eq_of_lt (show x.toNat < 256 ^ 2 from x.toNat_lt), UInt16.ofNat_toNat]

@[simp] theorem u32_le (x : UInt32) : UInt32.ofNat (ofLe (leBytes 4 x.toNat)) = x := by
  rw [ofLe_leBytes, Nat.mod_eq_of_lt (show x.toNat < 256 ^ 4 from x.toNat_lt), UInt32.ofNat_toNat]

@[simp] theorem u64_le (x : UInt64) : UInt64.ofNat (ofLe (leBytes 8 x.toNat)) = x := by
  rw [ofLe_leBytes, Nat.mod_eq_of_lt (show x.toNat < 256 ^ 8 from x.toNat_lt), UInt64.ofNat_toNat]

/-! ## Strings -/

/-- the bytes of a string -/
def utf8 (s : String) : Bytes := s.toUTF8.data.toList

theorem utf8_inj {s t : String} (h : utf8 s = utf8 t) : s = t := by
  have h1 : s.toUTF8.data = t.toUTF8.data := Array.toList_inj.1 h
  have h2 : s.toUTF8 = t.toUTF8 := by
    cases hs : s.toUTF8; cases ht : t.toUTF8
    rw [hs, ht] at h1; simp only at h1; rw [h1]
  exact String.toByteArray_inj.1 h2

/-- `len(part) || part`, the length as a big-endian `u32` -/
def lenPrefixed (part : String) : Bytes := beBytes 4 (utf8 part).length ++ utf8 part

/-- two length-prefixed strings in a row can be told apart, if they are short enough for the prefixes not to wrap -/
theorem lenPrefixed_inj {a b a' b' : String} (hlen : (utf8 a).length + (utf8 b).length < 2 ^ 32)
    (h : lenPrefixed a' ++ lenPrefixed b' = lenPrefixed a ++ lenPrefixed b) : a' = a ∧ b' = b := by
  have htot := congrArg List.length h
  simp only [lenPrefixed, List.length_append, length_beBytes] at htot
  simp only [lenPrefixed, List.append_assoc] at h
  obtain ⟨hn, h⟩ := List.append_inj h (by simp)
  have hna : (utf8 a').length = (utf8 a).length :=
    beBytes_inj (show _ < 256 ^ 4 by norm_num; omega) (show _ < 256 ^ 4 by norm_num; omega) hn
  obtain ⟨ha, h⟩ := List.append_inj h hna
  exact ⟨utf8_inj ha, utf8_inj (List.append_inj h (by simp)).2⟩

/-! ## Slices -/

/-- `&b[i..j]` -/
def slice (b : Bytes) (i j : ℕ) : Bytes := (b.drop i).take (j - i)

theorem length_slice {b : Bytes} {i j : ℕ} (h : j ≤ b.length) : (slice b i j).length = j - i := by
  simp only [slice, List.length_take, List.length_drop]; omega

/-- the middle of three pieces -/
theorem slice_middle {p m q : Bytes} {i j : ℕ} (hi : p.length = i) (hj : i + m.length = j) :
    slice (p ++ m ++ q) i j = m := by
  subst hi hj
  simp [slice, List.append_assoc]

theorem slice_front {m q : Bytes} {j : ℕ} (hj : m.length = j) : slice (m ++ q) 0 j = m := by
  subst hj; simp [slice]

theorem slice_left {p q : Bytes} {i j : ℕ} (hj : j ≤ p.length) : slice (p ++ q) i j = slice p i j := by
  by_cases hij : i ≤ j
  · simp only [slice]
    rw [List.drop_append_of_le_length (by omega), List.take_append_of_le_length (by rw [List.length_drop]; omega)]
  · simp [slice, show j - i = 0 by omega]

/-- a slice of a front part -/
theorem slice_slice {b : Bytes} {m i j : ℕ} (hj : j ≤ m) : slice (slice b 0 m) i j = slice b i j := by
  simp only [slice, List.drop_zero, Nat.sub_zero, List.drop_take, List.take_take]
  congr 1; omega

/-- a slice of a slice -/
theorem slice_slice_add {b : Bytes} {m n i j : ℕ} (hj : m + j ≤ n) : slice (slice b m n) i j = slice b (m + i) (m + j) := by
  simp only [slice, List.drop_take, List.drop_drop, List.take_take]
  congr 1; omega

/-- two slices side by side -/
theorem slice_append_slice {b : Bytes} {i j k : ℕ} (hij : i ≤ j) (hjk : j ≤ k) : slice b i j ++ slice b j k = slice b i k := by
  have hrest : b.drop j = (b.drop i).drop (j - i) := by rw [List.drop_drop]; congr 1; omega
  have hlen : k - i = (j - i) + (k - j) := by omega
  rw [slice, slice, slice, hrest, hlen, List.take_add]

theorem slice_self (b : Bytes) (i : ℕ) : slice b i i = [] := by rw [slice, Nat.sub_self, List.take_zero]

theorem slice_zero (b : Bytes) (j : ℕ) : slice b 0 j = b.take j := by simp [slice]

/-! ## Positioned I/O -/

/-- the `n` bytes at offset `off` -/
def pread (f : Bytes) (off n : ℕ) : Bytes := slice f off (off + n)

/-- overwrite at offset `off`, growing the file and zero-filling the hole if `off` lies past its end -/
def pwrite (f : Bytes) (off : ℕ) (data : Bytes) : Bytes :=
  f.take off ++ List.replicate (off - f.length) 0 ++ data ++ f.drop (off + data.length)

/-- grow with zeros or cut to length `n` -/
def setLen (f : Bytes) (n : ℕ) : Bytes := f.take n ++ List.replicate (n - f.length) 0

@[simp] theorem length_setLen (f : Bytes) (n : ℕ) : (setLen f n).length = n := by
  simp only [setLen, List.length_append, List.length_take, List.length_replicate]; omega

theorem length_pwrite (f : Bytes) (off : ℕ) (data : Bytes) :
    (pwrite f off data).length = max f.length (off + data.length) := by
  simp only [pwrite, List.length_append, List.length_take, List.length_replicate, List.length_drop]; omega

theorem pwrite_eq_setLen (f : Bytes) (off : ℕ) (data : Bytes) :
    pwrite f off data = setLen f off ++ data ++ f.drop (off + data.length) := rfl

theorem slice_setLen {f : Bytes} {n i j : ℕ} (hj : j ≤ n) (hf : j ≤ f.length) : slice (setLen f n) i j = slice f i j := by
  by_cases hij : i ≤ j
  · simp only [slice, setLen]
    rw [List.drop_append_of_le_length (by simp; omega), List.take_append_of_le_length (by simp; omega),
      List.drop_take, List.take_take]
    congr 1; omega
  · simp [slice, show j - i = 0 by omega]

/-- a write at or past the end appends -/
theorem pwrite_end {f : Bytes} {off : ℕ} (h : f.length ≤ off) (data : Bytes) : pwrite f off data = setLen f off ++ data := by
  rw [pwrite_eq_setLen, List.drop_eq_nil_of_le (by omega), List.append_nil]

theorem setLen_self (f : Bytes) : setLen f f.length = f := by simp [setLen]

/-- a write in place -/
theorem pwrite_middle {p m q data : Bytes} {off : ℕ} (hoff : p.length = off) (hlen : m.length = data.length) :
    pwrite (p ++ m ++ q) off data = p ++ data ++ q := by
  subst hoff
  have hdrop : (p ++ m ++ q).drop (p.length + data.length) = q := by
    rw [← hlen, ← List.length_append]; exact List.drop_left
  have htake : (p ++ m ++ q).take p.length = p := by rw [List.append_assoc]; exact List.take_left
  rw [pwrite, hdrop, htake, Nat.sub_eq_zero_of_le (by simp)]
  simp

theorem slice_pwrite_same (f : Bytes) (off : ℕ) (data : Bytes) :
    slice (pwrite f off data) off (off + data.length) = data :=
  slice_middle (length_setLen f off) rfl

theorem slice_pwrite_before {f data : Bytes} {off i j : ℕ} (hj : j ≤ off) (hf : j ≤ f.length) :
    slice (pwrite f off data) i j = slice f i j := by
  rw [← slice_setLen hj hf, pwrite_eq_setLen, List.append_assoc]
  exact slice_left (by rw [length_setLen]; exact hj)

theorem take_pwrite {f data : Bytes} {off m : ℕ} (h : m ≤ off) (hf : m ≤ f.length) :
    (pwrite f off data).take m = f.take m := by
  rw [← slice_zero, ← slice_zero, slice_pwrite_before h hf]

theorem take_setLen {f : Bytes} {n m : ℕ} (h : m ≤ n) (hf : m ≤ f.length) : (setLen f n).take m = f.take m := by
  rw [← slice_zero, ← slice_zero, slice_setLen h hf]

theorem slice_pwrite_after {f data : Bytes} {off i j : ℕ} (hi : off + data.length ≤ i) :
    slice (pwrite f off data) i j = slice f i j := by
  simp only [slice, pwrite]
  congr 1
  have hlen : (f.take off ++ List.replicate (off - f.length) 0 ++ data).length = off + data.length := by
    simp only [List.length_append, List.length_take, List.length_replicate]; omega
  rw [List.drop_append, List.drop_eq_nil_of_le (by omega), hlen, List.nil_append, List.drop_drop]
  congr 1; omega

end Y2q
