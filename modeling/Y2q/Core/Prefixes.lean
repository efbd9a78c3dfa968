/-
The least list above all lists with a given prefix, in the lexicographic order.

The lists with a prefix lie together (`Core/Tables`), so a walk over sorted keys that has met one of them passes all of them by going
on from the first list above them.

- `Next next`: `next b` is the element after `b`, and there is none after the greatest.
- `afterPrefix next p`: the last element of `p` that has a next one is replaced by it, and what follows is cut.
- `lt_afterPrefix_iff`: below it lie the lists below `p` and those with the prefix `p`. `prefix_of_not_lt`: if there is none, every list
  from `p` on has the prefix.
- `scanBack_eq`: the same by a scan from the end, as code with an index has it.
-/
import Mathlib.Tactic
import Mathlib.Data.List.Lex

namespace Y2q

variable {β : Type} [LinearOrder β] {next : β → Option β}

structure Next (next : β → Option β) : Prop where
  lt_iff : ∀ b c, next b = some c → ∀ x, x < c ↔ x ≤ b
  top : ∀ b, next b = none → ∀ x, x ≤ b

def afterPrefix (next : β → Option β) : List β → Option (List β)
  | [] => none
  | b :: p =>
    match afterPrefix next p with
    | some q => some (b :: q)
    | none => (next b).map fun c => [c]

theorem prefix_of_not_lt (hnext : Next next) {p k : List β} (h : afterPrefix next p = none) (hk : ¬k < p) : p <+: k := by
  induction p generalizing k with
  | nil => exact List.nil_prefix
  | cons b p ih =>
    rw [afterPrefix] at h
    cases hp : afterPrefix next p with
    | some q =>
      rw [hp] at h
      cases h
    | none =>
      rw [hp] at h
      cases k with
      | nil => exact absurd (List.nil_lt_cons b p) hk
      | cons x k =>
        rw [List.cons_lt_cons_iff, not_or, not_and] at hk
        have hx : x = b := le_antisymm (hnext.top b (Option.map_eq_none_iff.1 h) x) (not_lt.1 hk.1)
        exact List.cons_prefix_cons.2 ⟨hx.symm, ih hp (hk.2 hx)⟩

/-- **It is the least list above those with the prefix.** -/
theorem lt_afterPrefix_iff (hnext : Next next) {p q k : List β} (h : afterPrefix next p = some q) : k < q ↔ k < p ∨ p <+: k := by
  induction p generalizing q k with
  | nil => cases h
  | cons b p ih =>
    rw [afterPrefix] at h
    cases hp : afterPrefix next p with
    | some q' =>
      rw [hp] at h
      cases h
      cases k with
      | nil => exact iff_of_true (List.nil_lt_cons _ _) (Or.inl (List.nil_lt_cons _ _))
      | cons x k =>
        rw [List.cons_lt_cons_iff, List.cons_lt_cons_iff, List.cons_prefix_cons, ih hp, eq_comm (a := b)]
        tauto
    | none =>
      rw [hp] at h
      obtain ⟨c, hc, rfl⟩ := Option.map_eq_some_iff.1 h
      cases k with
      | nil => exact iff_of_true (List.nil_lt_cons _ _) (Or.inl (List.nil_lt_cons _ _))
      | cons x k =>
        rw [List.cons_lt_cons_iff, List.cons_lt_cons_iff, List.cons_prefix_cons, hnext.lt_iff b c hc]
        constructor
        · intro hx
          rcases hx with hx | ⟨-, hnil⟩
          · rcases hx.lt_or_eq with hlt | heq
            · exact Or.inl (Or.inl hlt)
            · by_cases hk : k < p
              · exact Or.inl (Or.inr ⟨heq, hk⟩)
              · exact Or.inr ⟨heq.symm, prefix_of_not_lt hnext hp hk⟩
          · exact absurd hnil (List.not_lt_nil k)
        · intro hx
          rcases hx with (hlt | ⟨heq, -⟩) | ⟨heq, -⟩
          · exact Or.inl hlt.le
          · exact Or.inl heq.le
          · exact Or.inl heq.symm.le

/-! ## By a scan from the end -/

/-- the last index whose element has a next one -/
def scanBack (next : β → Option β) (p : List β) : Option (List β) :=
  (List.range p.length).reverse.findSome? fun i => (p[i]?.bind next).map fun c => p.take i ++ [c]

theorem scanBack_cons (b : β) (p : List β) :
    scanBack next (b :: p) = ((scanBack next p).map (b :: ·)).or ((next b).map fun c => [c]) := by
  rw [scanBack, List.length_cons, List.range_succ_eq_map, List.reverse_cons, List.findSome?_append, ← List.map_reverse,
    List.findSome?_map]
  congr 1
  · rw [scanBack, List.map_findSome?]
    congr 1
    funext i
    simp [Function.comp_def, Option.map_map]
  · cases hb : next b <;> simp [hb]

theorem scanBack_eq (p : List β) : scanBack next p = afterPrefix next p := by
  induction p with
  | nil => rfl
  | cons b p ih =>
    rw [scanBack_cons, ih, afterPrefix]
    cases afterPrefix next p with
    | none => rfl
    | some q => rfl

end Y2q
