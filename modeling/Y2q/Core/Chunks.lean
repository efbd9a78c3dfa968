/-
Cutting a list into chunks of a fixed size, the last one possibly shorter.

- `chunks c l`: the chunks of `l`, in order; `flatten_chunks` puts them together again.
- `Chunked c L`: every list of `L` but the last is `c` long, and the last is not empty and at most that.
- `Chunked.eq_chunks`: there is only one way to cut a list so, whatever way a producer came by it.
- `getElem?_chunks`, `Chunked.take_drop`: a chunk by its position.
-/
import Mathlib.Tactic

namespace Y2q

variable {α : Type}

def chunks (c : ℕ) (l : List α) : List (List α) :=
  if _h : 0 < c ∧ l ≠ [] then l.take c :: chunks c (l.drop c) else []
termination_by l.length
decreasing_by
  obtain ⟨hc, hl⟩ := _h
  have := List.length_pos_of_ne_nil hl
  rw [List.length_drop]; omega

def Chunked (c : ℕ) : List (List α) → Prop
  | [] => True
  | [x] => x ≠ [] ∧ x.length ≤ c
  | x :: y :: ys => x.length = c ∧ Chunked c (y :: ys)

@[simp] theorem chunks_nil (c : ℕ) : chunks c ([] : List α) = [] := by
  rw [chunks, dif_neg]; exact fun h => h.2 rfl

theorem chunks_of_ne_nil {c : ℕ} (hc : 0 < c) {l : List α} (hl : l ≠ []) :
    chunks c l = l.take c :: chunks c (l.drop c) := by
  rw [chunks, dif_pos ⟨hc, hl⟩]

theorem chunks_eq_nil {c : ℕ} (hc : 0 < c) {l : List α} : chunks c l = [] ↔ l = [] := by
  constructor
  · intro h
    by_contra hl
    rw [chunks_of_ne_nil hc hl] at h
    cases h
  · rintro rfl; simp

theorem flatten_chunks {c : ℕ} (hc : 0 < c) (l : List α) : (chunks c l).flatten = l := by
  induction l using chunks.induct c with
  | case1 l h ih => rw [chunks_of_ne_nil hc h.2, List.flatten_cons, ih, List.take_append_drop]
  | case2 l h =>
    have hl : l = [] := by by_contra hl; exact h ⟨hc, hl⟩
    rw [hl]; simp

theorem chunked_chunks {c : ℕ} (hc : 0 < c) (l : List α) : Chunked c (chunks c l) := by
  induction l using chunks.induct c with
  | case1 l h ih =>
    have hpos := List.length_pos_of_ne_nil h.2
    rw [chunks_of_ne_nil hc h.2]
    cases hd : chunks c (l.drop c) with
    | nil =>
      refine ⟨fun ht => ?_, by rw [List.length_take]; omega⟩
      have := congrArg List.length ht
      simp only [List.length_take, List.length_nil] at this
      omega
    | cons y ys =>
      rw [hd] at ih
      refine ⟨?_, ih⟩
      have hlong : c < l.length := by
        by_contra hle
        rw [List.drop_eq_nil_of_le (by omega), chunks_nil] at hd
        cases hd
      rw [List.length_take]; omega
  | case2 l h =>
    have hl : l = [] := by by_contra hl; exact h ⟨hc, hl⟩
    rw [hl]; simp [Chunked]

/-- the cut is determined by what is cut -/
theorem Chunked.eq_chunks {c : ℕ} (hc : 0 < c) {L : List (List α)} (h : Chunked c L) : L = chunks c L.flatten := by
  induction L with
  | nil => simp
  | cons x xs ih =>
    cases xs with
    | nil =>
      obtain ⟨hne, hle⟩ := h
      simp only [List.flatten_cons, List.flatten_nil, List.append_nil]
      rw [chunks_of_ne_nil hc hne, List.take_of_length_le hle, List.drop_eq_nil_of_le hle, chunks_nil]
    | cons y ys =>
      obtain ⟨hx, hrest⟩ := h
      have hne : (x :: y :: ys).flatten ≠ [] := by
        intro h0
        have := congrArg List.length h0
        simp only [List.flatten_cons, List.length_append, List.length_nil] at this
        omega
      rw [chunks_of_ne_nil hc hne, List.flatten_cons, List.take_left' hx, List.drop_left' hx, ← ih hrest]

theorem Chunked.append_singleton {c : ℕ} {L : List (List α)} {x : List α} (hL : ∀ y ∈ L, y.length = c) (hx : x ≠ [])
    (hle : x.length ≤ c) : Chunked c (L ++ [x]) := by
  induction L with
  | nil => exact ⟨hx, hle⟩
  | cons y ys ih =>
    have hrest := ih fun z hz => hL z (List.mem_cons_of_mem _ hz)
    have hy := hL y List.mem_cons_self
    cases ys with
    | nil => exact ⟨hy, hrest⟩
    | cons z zs => exact ⟨hy, hrest⟩

/-- how many chunks there are -/
theorem length_chunks {c : ℕ} (hc : 0 < c) (l : List α) : (chunks c l).length = (l.length + (c - 1)) / c := by
  induction l using chunks.induct c with
  | case1 l h ih =>
    have hpos := List.length_pos_of_ne_nil h.2
    rw [chunks_of_ne_nil hc h.2, List.length_cons, ih, List.length_drop]
    by_cases hle : l.length ≤ c
    · rw [Nat.sub_eq_zero_of_le hle, Nat.zero_add, Nat.div_eq_of_lt (by omega)]
      symm
      apply Nat.div_eq_of_lt_le
      · omega
      · omega
    · rw [show l.length + (c - 1) = l.length - c + (c - 1) + c by omega, Nat.add_div_right _ hc]
  | case2 l h =>
    have hl : l = [] := by by_contra hl; exact h ⟨hc, hl⟩
    rw [hl]
    simp only [chunks_nil, List.length_nil, Nat.zero_add]
    exact (Nat.div_eq_of_lt (by omega)).symm

/-- chunk `i` is what lies between two multiples of `c` -/
theorem getElem?_chunks {c : ℕ} (hc : 0 < c) (l : List α) (i : ℕ) :
    (chunks c l)[i]? = if i * c < l.length then some ((l.drop (i * c)).take c) else none := by
  induction l using chunks.induct c generalizing i with
  | case1 l h ih =>
    have hpos := List.length_pos_of_ne_nil h.2
    rw [chunks_of_ne_nil hc h.2]
    cases i with
    | zero => rw [List.getElem?_cons_zero, Nat.zero_mul, if_pos hpos, List.drop_zero]
    | succ i =>
      have hlt : i * c < (l.drop c).length ↔ (i + 1) * c < l.length := by rw [List.length_drop, Nat.succ_mul]; omega
      rw [List.getElem?_cons_succ, ih, List.drop_drop, Nat.succ_mul, Nat.add_comm c (i * c)]
      exact if_congr (by rw [hlt, Nat.succ_mul]) rfl rfl
  | case2 l h =>
    have hl : l = [] := by by_contra hl; exact h ⟨hc, hl⟩
    rw [hl]
    simp

theorem Chunked.take_drop {c : ℕ} (hc : 0 < c) {L : List (List α)} (h : Chunked c L) {i : ℕ} {x : List α} (hx : L[i]? = some x) :
    (L.flatten.drop (i * c)).take c = x := by
  rw [h.eq_chunks hc, getElem?_chunks hc] at hx
  split_ifs at hx with hlt
  exact Option.some.inj hx

theorem Chunked.tail {c : ℕ} {x : List α} {xs : List (List α)} (h : Chunked c (x :: xs)) : Chunked c xs := by
  cases xs with
  | nil => trivial
  | cons y ys => exact h.2

theorem Chunked.drop {c : ℕ} {L : List (List α)} (h : Chunked c L) (n : ℕ) : Chunked c (L.drop n) := by
  induction n generalizing L with
  | zero => exact h
  | succ n ih =>
    cases L with
    | nil => trivial
    | cons x xs => exact ih h.tail

theorem Chunked.head_le {c : ℕ} {x : List α} {xs : List (List α)} (h : Chunked c (x :: xs)) : x.length ≤ c := by
  cases xs with
  | nil => exact h.2
  | cons y ys => exact h.1.le

theorem Chunked.head_ne_nil {c : ℕ} (hc : 0 < c) {x : List α} {xs : List (List α)} (h : Chunked c (x :: xs)) : x ≠ [] := by
  cases xs with
  | nil => exact h.1
  | cons y ys =>
    have hx := h.1
    exact List.ne_nil_of_length_pos (by omega)

theorem Chunked.take {c : ℕ} (hc : 0 < c) {L : List (List α)} (h : Chunked c L) (n : ℕ) : Chunked c (L.take n) := by
  induction n generalizing L with
  | zero => trivial
  | succ n ih =>
    cases L with
    | nil => trivial
    | cons x xs =>
      have hrest := ih h.tail
      rw [List.take_succ_cons]
      cases hxs : xs.take n with
      | nil => exact ⟨h.head_ne_nil hc, h.head_le⟩
      | cons y ys =>
        rw [hxs] at hrest
        cases xs with
        | nil => rw [List.take_nil] at hxs; cases hxs
        | cons z zs => exact ⟨h.1, hrest⟩

/-- chunks that all grow by the same amount -/
theorem Chunked.mapIdx {β : Type} {c t : ℕ} {L : List (List α)} (h : Chunked c L) {f : ℕ → List α → List β}
    (hf : ∀ i x, (f i x).length = x.length + t) : Chunked (c + t) (L.mapIdx f) := by
  induction L generalizing f with
  | nil => trivial
  | cons x xs ih =>
    cases xs with
    | nil =>
      obtain ⟨hne, hle⟩ := h
      have hpos := List.length_pos_of_ne_nil hne
      have hzero := hf 0 x
      rw [List.mapIdx_cons, List.mapIdx_nil]
      exact ⟨List.ne_nil_of_length_pos (by omega), by omega⟩
    | cons y ys =>
      have hrest := ih h.2 (f := fun i => f (i + 1)) fun i x => hf (i + 1) x
      rw [List.mapIdx_cons] at hrest ⊢
      rw [List.mapIdx_cons]
      exact ⟨by rw [hf, h.1], hrest⟩

end Y2q
