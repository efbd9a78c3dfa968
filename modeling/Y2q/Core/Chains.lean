/-
Chains of signatures: a sequence of items of which each is signed together with the signature before it, the first together
with a seed. Whoever holds the key signs several such chains.

- `running`: the signature after some items.
- `Links C s i`: somewhere in the chains of `C`, item `i` follows signature `s`.
- `Distinct`: the seeds differ, no two links have one signature, and no signature is a seed.
- `running_unique`: then a signature says which chain it is of, and after how many items.
- `getElem_of_links`: and what follows the signature in one chain is the only item that follows it in any.
-/
import Mathlib.Tactic

namespace Y2q.Chains

variable {Sig Item : Type} (sign : Sig → Item → Sig)

structure Chain (Sig Item : Type) where
  seed : Sig
  items : List Item

/-- the signature after the first `n` items -/
def Chain.running (c : Chain Sig Item) (n : ℕ) : Sig := (c.items.take n).foldl sign c.seed

/-- in one of the chains the item follows the signature -/
def Links (C : Set (Chain Sig Item)) (s : Sig) (i : Item) : Prop :=
  ∃ c ∈ C, ∃ n, c.items[n]? = some i ∧ c.running sign n = s

structure Distinct (C : Set (Chain Sig Item)) : Prop where
  seeds : ∀ c ∈ C, ∀ c' ∈ C, c.seed = c'.seed → c = c'
  links : ∀ {s s' i i'}, Links sign C s i → Links sign C s' i' → sign s i = sign s' i' → s = s' ∧ i = i'
  fresh : ∀ c ∈ C, ∀ {s i}, Links sign C s i → sign s i ≠ c.seed

variable {sign} {C : Set (Chain Sig Item)} {c c' : Chain Sig Item}

theorem running_zero (c : Chain Sig Item) : c.running sign 0 = c.seed := rfl

theorem running_succ {n : ℕ} {i : Item} (h : c.items[n]? = some i) : c.running sign (n + 1) = sign (c.running sign n) i := by
  unfold Chain.running
  rw [List.take_add_one, h, Option.toList_some, List.foldl_append]
  rfl

theorem links_of (hc : c ∈ C) {n : ℕ} {i : Item} (h : c.items[n]? = some i) : Links sign C (c.running sign n) i :=
  ⟨c, hc, n, h, rfl⟩

/-- **A signature says where it stands.** By the number of items before it: both stand at a seed, or both have links before
them, which are the same. -/
theorem running_unique (hC : Distinct sign C) (hc : c ∈ C) (hc' : c' ∈ C) {n n' : ℕ} (hn : n ≤ c.items.length)
    (hn' : n' ≤ c'.items.length) (h : c.running sign n = c'.running sign n') : c = c' ∧ n = n' := by
  induction n generalizing n' with
  | zero =>
    cases n' with
    | zero => exact ⟨hC.seeds c hc c' hc' h, rfl⟩
    | succ n' =>
      have hi := List.getElem?_eq_getElem (show n' < c'.items.length by omega)
      rw [running_succ hi, running_zero] at h
      exact absurd h.symm (hC.fresh c hc (links_of hc' hi))
  | succ n ih =>
    have hi := List.getElem?_eq_getElem (show n < c.items.length by omega)
    cases n' with
    | zero =>
      rw [running_succ hi, running_zero] at h
      exact absurd h (hC.fresh c' hc' (links_of hc hi))
    | succ n' =>
      have hi' := List.getElem?_eq_getElem (show n' < c'.items.length by omega)
      rw [running_succ hi, running_succ hi'] at h
      obtain ⟨hrunning, -⟩ := hC.links (links_of hc hi) (links_of hc' hi') h
      obtain ⟨hchain, hnat⟩ := ih (by omega) (by omega) hrunning
      exact ⟨hchain, by rw [hnat]⟩

/-- what follows the signature after `n` items of a chain is the next item of that chain -/
theorem getElem_of_links (hC : Distinct sign C) (hc : c ∈ C) {n : ℕ} (hn : n ≤ c.items.length) {i : Item}
    (h : Links sign C (c.running sign n) i) : c.items[n]? = some i := by
  obtain ⟨c', hc', n', hi, hrunning⟩ := h
  have hn' : n' < c'.items.length := (List.getElem?_eq_some_iff.1 hi).1
  obtain ⟨rfl, rfl⟩ := running_unique hC hc' hc hn'.le hn hrunning
  exact hi

end Y2q.Chains
