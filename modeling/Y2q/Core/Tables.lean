/-
Ordered tables: what a key-value store of byte strings gives its user. A table is a `Std.TreeMap` under the order of its keys.

- `getElem?_insert_iff`, `getElem?_erase_iff`, `mem_toList`: lookups after updates; the rows of an iteration.
- `range`: the rows from a key on. `withPrefix`: of these, those up to the first key without the prefix. Under the lexicographic
  order this loses none (`mem_withPrefix`): the keys with a prefix lie together, and none before the prefix itself.
-/
import Mathlib.Tactic
import Mathlib.Data.List.Lex

namespace Y2q

variable {κ ν β : Type} [LinearOrder κ] [LinearOrder β]

abbrev Table (κ ν : Type) [LinearOrder κ] := Std.TreeMap κ ν (LinearOrder.toOrd (α := κ)).compare

namespace Table

variable {t : Table κ ν} {k k' : κ} {v : ν}

theorem getElem?_insert_iff [Decidable (k = k')] : (t.insert k v)[k']? = if k = k' then some v else t[k']? := by
  rw [Std.TreeMap.getElem?_insert]
  exact if_congr compare_eq_iff_eq rfl rfl

theorem getElem?_erase_iff [Decidable (k = k')] : (t.erase k)[k']? = if k = k' then none else t[k']? := by
  rw [Std.TreeMap.getElem?_erase]
  exact if_congr compare_eq_iff_eq rfl rfl

theorem mem_insert_iff : k' ∈ t.insert k v ↔ k = k' ∨ k' ∈ t := by
  rw [Std.TreeMap.mem_insert, compare_eq_iff_eq]

theorem mem_erase_iff : k' ∈ t.erase k ↔ k ≠ k' ∧ k' ∈ t := by
  rw [Std.TreeMap.mem_erase, ne_eq, compare_eq_iff_eq]

theorem mem_iff_getElem? : k ∈ t ↔ ∃ v, t[k]? = some v := by
  rw [Std.TreeMap.mem_iff_isSome_getElem?, Option.isSome_iff_exists]

theorem mem_toList : (k, v) ∈ t.toList ↔ t[k]? = some v := Std.TreeMap.mem_toList_iff_getElem?_eq_some

theorem pairwise_toList (t : Table κ ν) : t.toList.Pairwise fun a b => a.1 < b.1 := by
  refine Std.TreeMap.ordered_keys_toList.imp fun h => ?_
  exact compare_lt_iff_lt.1 h

/-- removing the keys of a list one by one -/
theorem mem_foldl_erase {γ : Type} (key : γ → κ) (l : List γ) :
    k ∈ l.foldl (fun t x => t.erase (key x)) t ↔ k ∈ t ∧ ∀ x ∈ l, key x ≠ k := by
  induction l generalizing t with
  | nil => simp
  | cons x l ih =>
    rw [List.foldl_cons, ih, mem_erase_iff, List.forall_mem_cons]
    tauto

/-- inserting the keys of a list one by one -/
theorem mem_foldl_insert {γ : Type} (key : γ → κ) (l : List γ) :
    k ∈ l.foldl (fun t x => t.insert (key x) v) t ↔ k ∈ t ∨ ∃ x ∈ l, key x = k := by
  induction l generalizing t with
  | nil => simp
  | cons x l ih =>
    rw [List.foldl_cons, ih, mem_insert_iff, List.exists_mem_cons_iff]
    tauto

/-- the rows from `k` on -/
def range (t : Table κ ν) (k : κ) : List (κ × ν) := t.toList.dropWhile fun e => e.1 < k

theorem mem_dropWhile_lt {l : List (κ × ν)} (hl : l.Pairwise fun a b => a.1 < b.1) {e : κ × ν} :
    (e ∈ l.dropWhile fun e => e.1 < k) ↔ e ∈ l ∧ k ≤ e.1 := by
  induction l with
  | nil => simp
  | cons a l ih =>
    obtain ⟨ha, hl⟩ := List.pairwise_cons.1 hl
    by_cases hk : a.1 < k
    · rw [List.dropWhile_cons_of_pos (by simpa using hk), ih hl, List.mem_cons]
      constructor
      · rintro ⟨he, hle⟩
        exact ⟨Or.inr he, hle⟩
      · rintro ⟨rfl | he, hle⟩
        · exact absurd hk (not_lt.2 hle)
        · exact ⟨he, hle⟩
    · rw [List.dropWhile_cons_of_neg (by simpa using hk)]
      refine ⟨fun he => ⟨he, ?_⟩, fun h => h.1⟩
      rcases List.mem_cons.1 he with rfl | he
      · exact not_lt.1 hk
      · exact (not_lt.1 hk).trans (ha e he).le

theorem mem_range : (k', v) ∈ t.range k ↔ t[k']? = some v ∧ k ≤ k' := by
  rw [range, mem_dropWhile_lt t.pairwise_toList, mem_toList]

theorem pairwise_range (t : Table κ ν) (k : κ) : (t.range k).Pairwise fun a b => a.1 < b.1 :=
  t.pairwise_toList.sublist (List.dropWhile_sublist _)

end Table

/-! ## Keys with a prefix -/

/-- a prefix comes first -/
theorem prefix_not_lt {p k : List β} (h : p <+: k) : ¬k < p := by
  induction p generalizing k with
  | nil => exact List.not_lt_nil k
  | cons x p ih =>
    obtain ⟨s, rfl⟩ := h
    rw [List.cons_append, List.cons_lt_cons_iff]
    rintro (hx | ⟨-, hlt⟩)
    · exact lt_irrefl x hx
    · exact ih ⟨s, rfl⟩ hlt

/-- past the keys with the prefix there are no more -/
theorem not_prefix_of_lt {p k k' : List β} (hle : ¬k < p) (hk : ¬p <+: k) (hlt : k < k') : ¬p <+: k' := by
  induction p generalizing k k' with
  | nil => exact absurd List.nil_prefix hk
  | cons x p ih =>
    cases k with
    | nil => exact absurd (List.nil_lt_cons x p) hle
    | cons y k =>
      rintro ⟨s, rfl⟩
      rw [List.cons_append, List.cons_lt_cons_iff] at hlt
      rw [List.cons_prefix_cons] at hk
      rw [List.cons_lt_cons_iff, not_or] at hle
      rcases hlt with hyx | ⟨rfl, hlt⟩
      · exact hle.1 hyx
      · exact ih (fun h => hle.2 ⟨rfl, h⟩) (fun h => hk ⟨rfl, h⟩) hlt ⟨s, rfl⟩

/-- the rows from the prefix on, up to the first key without it -/
def Table.withPrefix (t : Table (List β) ν) (p : List β) : List (List β × ν) := (t.range p).takeWhile fun e => p.isPrefixOf e.1

theorem mem_takeWhile_prefix {p : List β} {l : List (List β × ν)} (hl : l.Pairwise fun a b => a.1 < b.1)
    (hp : ∀ e ∈ l, p ≤ e.1) {e : List β × ν} : (e ∈ l.takeWhile fun e => p.isPrefixOf e.1) ↔ e ∈ l ∧ p <+: e.1 := by
  induction l with
  | nil => simp
  | cons a l ih =>
    obtain ⟨ha, hl⟩ := List.pairwise_cons.1 hl
    by_cases hk : p <+: a.1
    · rw [List.takeWhile_cons_of_pos (by simpa using hk), List.mem_cons, ih hl fun e he => hp e (List.mem_cons_of_mem a he),
        List.mem_cons]
      constructor
      · rintro (rfl | ⟨he, hpe⟩)
        · exact ⟨Or.inl rfl, hk⟩
        · exact ⟨Or.inr he, hpe⟩
      · rintro ⟨rfl | he, hpe⟩
        · exact Or.inl rfl
        · exact Or.inr ⟨he, hpe⟩
    · rw [List.takeWhile_cons_of_neg (by simpa using hk)]
      refine iff_of_false (List.not_mem_nil) ?_
      rintro ⟨he, hpe⟩
      rcases List.mem_cons.1 he with rfl | he
      · exact hk hpe
      · exact not_prefix_of_lt (not_lt.2 (hp a List.mem_cons_self)) hk (ha e he) hpe

theorem Table.mem_withPrefix {t : Table (List β) ν} {p k : List β} {v : ν} :
    (k, v) ∈ t.withPrefix p ↔ t[k]? = some v ∧ p <+: k := by
  rw [withPrefix, mem_takeWhile_prefix (t.pairwise_range p) fun e he => (mem_range.1 he).2, mem_range]
  constructor
  · rintro ⟨⟨hk, -⟩, hp⟩
    exact ⟨hk, hp⟩
  · rintro ⟨hk, hp⟩
    exact ⟨⟨hk, not_lt.1 (prefix_not_lt hp)⟩, hp⟩

end Y2q
