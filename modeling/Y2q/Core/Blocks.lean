/-
Files as functions from positions to bytes, and their blocks.

- `span b off n`: the `n` values from position `off` on. Spans split (`span_add`), and cutting one gives one (`take_span`,
  `drop_span`).
- `overwrite b off d`: `b` with the list `d` put at `off`. Writing `d` and then `d'` behind it is writing `d ++ d'`
  (`overwrite_append`). A write inside one block changes that block alone (`span_overwrite_inside`,
  `span_overwrite_outside`).
- `cutTo z b n`: `b` with `z` from `n` on.
- `padded z d`: a list followed by `z` for ever; how `pwrite` and `setLen` act on it.
-/
import Mathlib.Tactic
import Y2q.Core.Bytes

namespace Y2q.Blocks

variable {α : Type}

/-! ## Spans -/

def span (b : ℕ → α) (off n : ℕ) : List α := (List.range n).map fun j => b (off + j)

@[simp] theorem length_span (b : ℕ → α) (off n : ℕ) : (span b off n).length = n := by simp [span]

@[simp] theorem span_zero (b : ℕ → α) (off : ℕ) : span b off 0 = [] := rfl

@[simp] theorem getElem_span (b : ℕ → α) (off n : ℕ) {j : ℕ} (h : j < (span b off n).length) :
    (span b off n)[j] = b (off + j) := by simp [span]

theorem span_add (b : ℕ → α) (off m n : ℕ) : span b off (m + n) = span b off m ++ span b (off + m) n := by
  simp [span, List.range_add, Function.comp_def, Nat.add_assoc]

theorem take_span (b : ℕ → α) (off n : ℕ) {m : ℕ} (h : m ≤ n) : (span b off n).take m = span b off m := by
  obtain ⟨k, rfl⟩ := Nat.exists_eq_add_of_le h
  rw [span_add, List.take_left' (length_span b off m)]

theorem drop_span (b : ℕ → α) (off n : ℕ) {m : ℕ} (h : m ≤ n) : (span b off n).drop m = span b (off + m) (n - m) := by
  obtain ⟨k, rfl⟩ := Nat.exists_eq_add_of_le h
  rw [span_add, List.drop_left' (length_span b off m), Nat.add_sub_cancel_left]

theorem span_congr {b b' : ℕ → α} {off n : ℕ} (h : ∀ j, off ≤ j → j < off + n → b j = b' j) :
    span b off n = span b' off n := by
  apply List.map_congr_left
  intro j hj
  exact h _ (Nat.le_add_right off j) (Nat.add_lt_add_left (List.mem_range.1 hj) off)

theorem span_const (z : α) (off n : ℕ) : span (fun _ => z) off n = List.replicate n z := by simp [span]

/-! ## Writing -/

def overwrite (b : ℕ → α) (off : ℕ) (d : List α) : ℕ → α := fun j =>
  if off ≤ j then (d[j - off]?).getD (b j) else b j

/-- `b` up to `n`, then `z` -/
def cutTo (z : α) (b : ℕ → α) (n : ℕ) : ℕ → α := fun j => if j < n then b j else z

@[simp] theorem overwrite_nil (b : ℕ → α) (off : ℕ) : overwrite b off [] = b := by
  funext j; simp [overwrite]

theorem overwrite_of_lt (b : ℕ → α) {off j : ℕ} (d : List α) (h : j < off) : overwrite b off d j = b j := by
  simp [overwrite, Nat.not_le.2 h]

theorem overwrite_of_ge (b : ℕ → α) {off j : ℕ} (d : List α) (h : off + d.length ≤ j) : overwrite b off d j = b j := by
  simp [overwrite, List.getElem?_eq_none (show d.length ≤ j - off by omega)]

theorem overwrite_of_mem (b : ℕ → α) (off : ℕ) (d : List α) {j : ℕ} (h : j < d.length) :
    overwrite b off d (off + j) = d[j] := by simp [overwrite, h]

theorem overwrite_append (b : ℕ → α) (off : ℕ) (d d' : List α) :
    overwrite (overwrite b off d) (off + d.length) d' = overwrite b off (d ++ d') := by
  funext j
  rcases lt_or_ge j (off + d.length) with h | h
  · rw [overwrite_of_lt _ _ h]
    unfold overwrite
    split_ifs with h'
    · rw [List.getElem?_append_left (by omega)]
    · rfl
  · unfold overwrite
    rw [if_pos h, if_pos (by omega), if_pos (by omega), List.getElem?_append_right (by omega),
      List.getElem?_eq_none (show d.length ≤ j - off by omega), Nat.sub_sub]
    rfl

theorem span_overwrite_self (b : ℕ → α) (off : ℕ) (d : List α) : span (overwrite b off d) off d.length = d := by
  apply List.ext_getElem (by simp)
  intro j h1 h2
  rw [getElem_span, overwrite_of_mem b off d h2]

/-- a file and another that differs from it inside a span only: writing that span gives the other -/
theorem overwrite_span {b c : ℕ → α} {off n : ℕ} (h : ∀ j, j < off ∨ off + n ≤ j → b j = c j) :
    overwrite b off (span c off n) = c := by
  funext j
  rcases lt_or_ge j off with h1 | h1
  · rw [overwrite_of_lt _ _ h1, h j (Or.inl h1)]
  · rcases lt_or_ge j (off + n) with h2 | h2
    · unfold overwrite
      rw [if_pos h1, List.getElem?_eq_getElem (by rw [length_span]; omega), getElem_span, Nat.add_sub_cancel' h1]
      rfl
    · rw [overwrite_of_ge _ _ (by rw [length_span]; exact h2), h j (Or.inr h2)]

/-- a write inside a span splices it -/
theorem span_overwrite_inside (b : ℕ → α) (off : ℕ) (d : List α) {w n : ℕ} (h : w + d.length ≤ n) :
    span (overwrite b (off + w) d) off n = (span b off n).take w ++ d ++ (span b off n).drop (w + d.length) := by
  obtain ⟨k, rfl⟩ := Nat.exists_eq_add_of_le h
  rw [span_add, span_add, take_span _ _ _ (by omega), drop_span _ _ _ (by omega), span_overwrite_self,
    Nat.add_sub_cancel_left, ← Nat.add_assoc]
  congr 1
  · congr 1
    exact span_congr fun j _ h => overwrite_of_lt b d h
  · exact span_congr fun j h _ => overwrite_of_ge b d h

theorem span_overwrite_outside (b : ℕ → α) {p off : ℕ} (d : List α) {n : ℕ} (h : off + n ≤ p ∨ p + d.length ≤ off) :
    span (overwrite b p d) off n = span b off n := by
  apply span_congr
  intro j h1 h2
  rcases h with h | h
  · exact overwrite_of_lt b d (by omega)
  · exact overwrite_of_ge b d (by omega)

/-- two blocks of one size with different numbers do not meet -/
theorem blocks_disjoint {B i j : ℕ} (h : i ≠ j) : j * B + B ≤ i * B ∨ i * B + B ≤ j * B := by
  rcases Nat.lt_or_gt_of_ne h with h | h
  · right; calc i * B + B = (i + 1) * B := by ring
      _ ≤ j * B := Nat.mul_le_mul_right B h
  · left; calc j * B + B = (j + 1) * B := by ring
      _ ≤ i * B := Nat.mul_le_mul_right B h

/-! ## Lists with padding -/

def padded (z : α) (d : List α) : ℕ → α := fun j => d.getD j z

theorem padded_of_le (z : α) {d : List α} {j : ℕ} (h : d.length ≤ j) : padded z d j = z := by
  simp [padded, List.getElem?_eq_none h]

theorem span_padded (d : Bytes) {off n : ℕ} (h : off + n ≤ d.length) : span (padded 0 d) off n = slice d off (off + n) := by
  apply List.ext_getElem
  · rw [length_span, length_slice h]; omega
  · intro j h1 h2
    rw [length_span] at h1
    simp [padded, slice, List.getElem?_eq_getElem (show off + j < d.length by omega)]

theorem slice_span (b : ℕ → UInt8) (off n : ℕ) {w m : ℕ} (h : w + m ≤ n) :
    slice (span b off n) w (w + m) = span b (off + w) m := by
  rw [slice, drop_span b off n (by omega), Nat.add_sub_cancel_left, take_span _ _ _ (by omega)]

theorem padded_setLen (d : Bytes) (n : ℕ) : padded 0 (setLen d n) = cutTo 0 (padded 0 d) n := by
  funext j
  simp only [padded, cutTo, setLen, List.getD_eq_getElem?_getD]
  split_ifs with h
  · rcases lt_or_ge j d.length with h' | h'
    · rw [List.getElem?_append_left (by simp; omega), List.getElem?_take, if_pos h]
    · rw [List.getElem?_append_right (by simp; omega), List.getElem?_eq_none h', List.getElem?_replicate,
        if_pos (by simp; omega)]
      rfl
  · rw [List.getElem?_eq_none (by simp; omega)]; rfl

theorem padded_pwrite (d : Bytes) (off : ℕ) (data : Bytes) :
    padded 0 (pwrite d off data) = overwrite (padded 0 d) off data := by
  funext j
  rw [pwrite_eq_setLen]
  rcases lt_or_ge j off with h | h
  · have hset := congrFun (padded_setLen d off) j
    simp only [padded, cutTo, if_pos h, List.getD_eq_getElem?_getD] at hset
    rw [overwrite_of_lt _ _ h]
    simp only [padded, List.getD_eq_getElem?_getD]
    rw [List.append_assoc, List.getElem?_append_left (by rw [length_setLen]; exact h), hset]
  · simp only [padded, overwrite, if_pos h, List.getD_eq_getElem?_getD]
    rw [List.append_assoc, List.getElem?_append_right (by rw [length_setLen]; exact h), length_setLen]
    rcases lt_or_ge (j - off) data.length with h' | h'
    · rw [List.getElem?_append_left h', List.getElem?_eq_getElem h']; rfl
    · rw [List.getElem?_append_right h', List.getElem?_eq_none h', List.getElem?_drop,
        show off + data.length + (j - off - data.length) = j by omega]
      rfl

/-- cutting at a position inside a span keeps the front and clears the rest -/
theorem span_cutTo_inside (z : α) (b : ℕ → α) (off : ℕ) {w n : ℕ} (h : w ≤ n) :
    span (cutTo z b (off + w)) off n = (span b off n).take w ++ List.replicate (n - w) z := by
  obtain ⟨k, rfl⟩ := Nat.exists_eq_add_of_le h
  rw [span_add, take_span _ _ _ (by omega), Nat.add_sub_cancel_left, ← span_const z (off + w) k]
  congr 1
  · exact span_congr fun j _ h => if_pos h
  · exact span_congr fun j h _ => if_neg (Nat.not_lt.2 h)

theorem cutTo_cutTo (z : α) (b : ℕ → α) {m e : ℕ} (h : m ≤ e) : cutTo z (cutTo z b e) m = cutTo z b m := by
  funext j
  unfold cutTo
  split_ifs with h1 h2
  · rfl
  · exact absurd (Nat.lt_of_lt_of_le h1 h) h2
  · rfl

theorem cutTo_of_zero {z : α} {b : ℕ → α} {m : ℕ} (h : ∀ j, m ≤ j → b j = z) : cutTo z b m = b := by
  funext j
  unfold cutTo
  split_ifs with h1
  · rfl
  · exact (h j (Nat.not_lt.1 h1)).symm

theorem span_cutTo_before (z : α) (b : ℕ → α) {off n e : ℕ} (h : off + n ≤ e) :
    span (cutTo z b e) off n = span b off n :=
  span_congr fun _ _ h' => if_pos (Nat.lt_of_lt_of_le h' h)

end Y2q.Blocks
