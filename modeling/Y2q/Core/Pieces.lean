/-
Lists cut at a separator.

- `notMem_of_mem_splitOn`: a piece does not hold the separator.
-/
import Mathlib.Tactic

namespace Y2q

variable {α : Type} [BEq α] [LawfulBEq α] {a : α} {l t : List α}

theorem notMem_of_mem_splitOn (h : t ∈ l.splitOn a) : a ∉ t := by
  induction l generalizing t with
  | nil =>
    rw [List.splitOn_nil, List.mem_singleton] at h
    exact h ▸ List.not_mem_nil
  | cons b l ih =>
    rw [List.splitOn_cons_eq_if_modifyHead] at h
    split_ifs at h with hb
    · rcases List.mem_cons.1 h with rfl | h
      · exact List.not_mem_nil
      · exact ih h
    · -- the first piece gets the element
      obtain ⟨p, ps, hps⟩ := List.exists_cons_of_ne_nil (List.splitOn_ne_nil a l)
      rw [hps, List.modifyHead_cons] at h
      rw [hps] at ih
      rcases List.mem_cons.1 h with rfl | h
      · have hne : a ≠ b := fun hab => hb (by simp [hab])
        exact List.not_mem_cons_of_ne_of_not_mem hne (ih List.mem_cons_self)
      · exact ih (List.mem_cons_of_mem p h)

end Y2q
