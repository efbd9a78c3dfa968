/-
Parsing expressions (PEG) as functions that read a front part of their input and emit pairs.

Choices are ordered and repetitions greedy; neither is ever revisited. `seq` and the repetitions skip what `skip` says between two
parts, as the implicit whitespace of a grammar; an atomic rule has `skip := id`.

- `many_none`, `many_some`, `star_skip`: repetitions, step by step.
- `Spec Q a P R`: on an input with `Q`, the pairs that `a` emits have `P`, and the rest has `R`. One rule for each way of building an
  expression.
- `Front`, `Agree`: expressions that never lengthen their input, and expressions that agree on all inputs up to a length. With these a
  recursive rule is shown not to depend on how deep it may call itself.
-/
import Mathlib.Tactic

namespace Y2q.Peg

variable {τ α : Type}

/-! ## Expressions -/

abbrev Parser (τ α : Type) := List τ → Option (List α × List τ)

/-- one token -/
def tok (p : τ → Bool) : Parser τ α
  | [] => none
  | c :: rest => if p c then some ([], rest) else none

/-- these tokens, up to `same` -/
def lit (same : τ → τ → Bool) : List τ → Parser τ α
  | [], input => some ([], input)
  | _ :: _, [] => none
  | c :: cs, d :: rest => if same c d then lit same cs rest else none

def seq (skip : List τ → List τ) (a b : Parser τ α) : Parser τ α := fun input =>
  (a input).bind fun x => (b (skip x.2)).map fun y => (x.1 ++ y.1, y.2)

def choice (a b : Parser τ α) : Parser τ α := fun input =>
  match a input with
  | some x => some x
  | none => b input

/-- fails where `a` succeeds, and reads nothing -/
def notAt (a : Parser τ α) : Parser τ α := fun input => if (a input).isSome then none else some ([], input)

/-- the further rounds of a repetition; one that consumes nothing would go on for ever, and ends it here -/
def many (skip : List τ → List τ) (a : Parser τ α) (input : List τ) : List α × List τ :=
  match a (skip input) with
  | none => ([], input)
  | some x => if x.2.length < input.length then (x.1 ++ (many skip a x.2).1, (many skip a x.2).2) else ([], input)
termination_by input.length

def star (skip : List τ → List τ) (a : Parser τ α) : Parser τ α := fun input =>
  match a input with
  | none => some ([], input)
  | some x => some (x.1 ++ (many skip a x.2).1, (many skip a x.2).2)

def plus (skip : List τ → List τ) (a : Parser τ α) : Parser τ α := fun input =>
  (a input).map fun x => (x.1 ++ (many skip a x.2).1, (many skip a x.2).2)

/-- the text that was read, and the pairs in it, as one pair -/
def node (f : List τ → List α → α) (a : Parser τ α) : Parser τ α := fun input =>
  (a input).map fun x => ([f (input.take (input.length - x.2.length)) x.1], x.2)

variable {a b : Parser τ α} {skip : List τ → List τ} {input rest : List τ} {xs : List α}

/-! ## Reading -/

@[simp] theorem lit_append {same : τ → τ → Bool} (hsame : ∀ c, same c c = true) (s rest : List τ) :
    lit (α := α) same s (s ++ rest) = some ([], rest) := by
  induction s with
  | nil => rfl
  | cons c s ih => rw [List.cons_append, lit, if_pos (hsame c), ih]

theorem seq_some {y : List α × List τ} (ha : a input = some (xs, rest)) (hb : b (skip rest) = some y) :
    seq skip a b input = some (xs ++ y.1, y.2) := by rw [seq, ha, Option.bind_some, hb, Option.map_some]

theorem seq_none_left (ha : a input = none) : seq skip a b input = none := by rw [seq, ha, Option.bind_none]

theorem seq_none_right (ha : a input = some (xs, rest)) (hb : b (skip rest) = none) : seq skip a b input = none := by
  rw [seq, ha, Option.bind_some, hb, Option.map_none]

theorem choice_left {x : List α × List τ} (ha : a input = some x) : choice a b input = some x := by rw [choice, ha]

theorem choice_right (ha : a input = none) : choice a b input = b input := by rw [choice, ha]

theorem many_none (h : a (skip input) = none) : many skip a input = ([], input) := by rw [many, h]

theorem many_some (h : a (skip input) = some (xs, rest)) (hlt : rest.length < input.length) :
    many skip a input = (xs ++ (many skip a rest).1, (many skip a rest).2) := by
  rw [many, h]
  simp only [if_pos hlt]

theorem star_none (h : a input = none) : star skip a input = some ([], input) := by rw [star, h]

theorem star_some (h : a input = some (xs, rest)) :
    star skip a input = some (xs ++ (many skip a rest).1, (many skip a rest).2) := by rw [star, h]

/-- a repetition after a skip is its further rounds, if there is one or nothing was skipped -/
theorem star_skip (h : (∃ x, a (skip input) = some x ∧ x.2.length < input.length) ∨ a (skip input) = none ∧ skip input = input) :
    star skip a (skip input) = some (many skip a input) := by
  rcases h with ⟨⟨xs, rest⟩, hsome, hlt⟩ | ⟨hnone, hskip⟩
  · rw [star_some hsome, many_some hsome hlt]
  · rw [star_none hnone, many_none hnone, hskip]

theorem node_append {f : List τ → List α → α} {s : List τ} (h : a (s ++ rest) = some (xs, rest)) :
    node f a (s ++ rest) = some ([f s xs], rest) := by
  have htake : (s ++ rest).take ((s ++ rest).length - rest.length) = s := by
    rw [List.length_append, Nat.add_sub_cancel]
    exact List.take_left
  rw [node, h, Option.map_some, htake]

theorem many_tok {p : τ → Bool} {s : List τ} (hs : ∀ c ∈ s, p c = true) (hrest : tok (α := α) p rest = none) :
    many id (tok (α := α) p) (s ++ rest) = ([], rest) := by
  induction s with
  | nil => exact many_none hrest
  | cons c s ih =>
    have hread : tok (α := α) p (id (c :: s ++ rest)) = some ([], s ++ rest) := by
      rw [id, List.cons_append, tok, if_pos (hs c List.mem_cons_self)]
    rw [many_some hread (Nat.lt_succ_self _), ih fun d hd => hs d (List.mem_cons_of_mem c hd), List.nil_append]

/-! ## What is emitted -/

/-- on an input with `Q`, the pairs emitted have `P`, and the rest has `R` -/
def Spec (Q : List τ → Prop) (a : Parser τ α) (P : α → Prop) (R : List τ → Prop) : Prop :=
  ∀ input xs rest, Q input → a input = some (xs, rest) → (∀ x ∈ xs, P x) ∧ R rest

theorem seq_eq_some {y : List α × List τ} : seq skip a b input = some y ↔
    ∃ xs rest ys, a input = some (xs, rest) ∧ b (skip rest) = some (ys, y.2) ∧ y.1 = xs ++ ys := by
  rw [seq]
  constructor
  · intro h
    obtain ⟨⟨xs, rest⟩, ha, hmap⟩ := Option.bind_eq_some_iff.1 h
    obtain ⟨⟨ys, rest'⟩, hb, rfl⟩ := Option.map_eq_some_iff.1 hmap
    exact ⟨xs, rest, ys, ha, hb, rfl⟩
  · rintro ⟨xs, rest, ys, ha, hb, hy⟩
    rw [ha, Option.bind_some, hb, Option.map_some, ← hy]

theorem node_eq_some {f : List τ → List α → α} {y : List α × List τ} : node f a input = some y ↔
    ∃ xs, a input = some (xs, y.2) ∧ y.1 = [f (input.take (input.length - y.2.length)) xs] := by
  rw [node, Option.map_eq_some_iff]
  constructor
  · rintro ⟨⟨xs, rest⟩, ha, rfl⟩
    exact ⟨xs, ha, rfl⟩
  · rintro ⟨xs, ha, hy⟩
    exact ⟨(xs, y.2), ha, by rw [← hy]⟩

theorem choice_eq_some {y : List α × List τ} (h : choice a b input = some y) : a input = some y ∨ b input = some y := by
  unfold choice at h
  split at h
  · next heq =>
    rw [← h]
    exact Or.inl heq
  · exact Or.inr h

theorem tok_eq_some {p : τ → Bool} {y : List α × List τ} (h : tok p input = some y) : ∃ c, p c = true ∧ y.1 = [] ∧ input = c :: y.2 := by
  cases input with
  | nil => cases h
  | cons c input =>
    simp only [tok] at h
    split_ifs at h with hc
    cases h
    exact ⟨c, hc, rfl, rfl⟩

theorem lit_eq_some {same : τ → τ → Bool} {s : List τ} {y : List α × List τ} (h : lit same s input = some y) :
    y.1 = [] ∧ ∃ t, t.length = s.length ∧ input = t ++ y.2 := by
  induction s generalizing input with
  | nil =>
    cases h
    exact ⟨rfl, [], rfl, rfl⟩
  | cons c s ih =>
    cases input with
    | nil => cases h
    | cons d input =>
      simp only [lit] at h
      split_ifs at h
      obtain ⟨hnil, t, ht, hinput⟩ := ih h
      exact ⟨hnil, d :: t, congrArg Nat.succ ht, by rw [hinput, List.cons_append]⟩

namespace Spec

variable {Q Q' R R' : List τ → Prop} {P P' : α → Prop}

theorem tok (p : τ → Bool) : Spec Q (tok p) P fun _ => True := by
  intro input xs rest _ h
  obtain ⟨_, _, hnil, -⟩ := tok_eq_some h
  rw [show xs = [] from hnil]
  exact ⟨nofun, trivial⟩

theorem lit (same : τ → τ → Bool) (s : List τ) : Spec Q (lit same s) P fun _ => True := by
  intro input xs rest _ h
  rw [show xs = [] from (lit_eq_some h).1]
  exact ⟨nofun, trivial⟩

theorem seq (ha : Spec Q a P R) (hskip : ∀ rest, R rest → Q' (skip rest)) (hb : Spec Q' b P R') : Spec Q (seq skip a b) P R' := by
  intro input zs rest hQ h
  obtain ⟨xs, mid, ys, hxs, hys, hzs⟩ := seq_eq_some.1 h
  obtain ⟨hP, hR⟩ := ha _ _ _ hQ hxs
  obtain ⟨hP', hR'⟩ := hb _ _ _ (hskip _ hR) hys
  refine ⟨fun x hx => ?_, hR'⟩
  rw [show zs = xs ++ ys from hzs] at hx
  rcases List.mem_append.1 hx with hx | hx
  · exact hP x hx
  · exact hP' x hx

theorem choice (ha : Spec Q a P R) (hb : Spec Q b P R) : Spec Q (choice a b) P R := by
  intro input xs rest hQ h
  rcases choice_eq_some h with h | h
  · exact ha _ _ _ hQ h
  · exact hb _ _ _ hQ h

theorem node {f : List τ → List α → α} (ha : Spec Q a P' R) (hf : ∀ text xs, (∀ x ∈ xs, P' x) → P (f text xs)) :
    Spec Q (node f a) P R := by
  intro input xs rest hQ h
  obtain ⟨ys, hys, hxs⟩ := node_eq_some.1 h
  obtain ⟨hP, hR⟩ := ha _ _ _ hQ hys
  refine ⟨fun x hx => ?_, hR⟩
  rw [show xs = _ from hxs, List.mem_singleton] at hx
  rw [hx]
  exact hf _ _ hP

theorem many_emits (ha : Spec Q a P fun _ => True) (hskip : ∀ rest, Q (skip rest)) (input : List τ) : ∀ x ∈ (many skip a input).1, P x := by
  induction hn : input.length using Nat.strong_induction_on generalizing input with
  | _ n ih =>
    subst hn
    rw [many]
    split
    · exact nofun
    · next x hx =>
      split_ifs with hlt
      · intro y hy
        rcases List.mem_append.1 hy with hy | hy
        · exact (ha _ _ _ (hskip _) hx).1 y hy
        · exact ih _ hlt x.2 rfl y hy
      · exact nofun

theorem star (ha : Spec Q a P fun _ => True) (hskip : ∀ rest, Q (skip rest)) : Spec Q (star skip a) P fun _ => True := by
  intro input xs rest hQ h
  unfold Peg.star at h
  split at h
  · cases h
    exact ⟨nofun, trivial⟩
  · next x hx =>
    cases h
    refine ⟨fun y hy => ?_, trivial⟩
    rcases List.mem_append.1 hy with hy | hy
    · exact (ha _ _ _ hQ hx).1 y hy
    · exact many_emits ha hskip _ y hy

end Spec

/-! ## Lengths -/

/-- never lengthens its input -/
def Front (a : Parser τ α) : Prop := ∀ input x, a input = some x → x.2.length ≤ input.length

theorem many_le (skip : List τ → List τ) (a : Parser τ α) (input : List τ) : (many skip a input).2.length ≤ input.length := by
  induction hn : input.length using Nat.strong_induction_on generalizing input with
  | _ n ih =>
    subst hn
    rw [many]
    split
    · exact le_rfl
    · next x hx =>
      split_ifs with hlt
      · exact (ih _ hlt x.2 rfl).trans hlt.le
      · exact le_rfl

/-- a repetition ends where no further round can be read, if a round consumes -/
theorem many_stops (hskip : ∀ s, (skip s).length ≤ s.length) (ha : ∀ s x, a s = some x → x.2.length < s.length) (input : List τ) :
    a (skip (many skip a input).2) = none := by
  induction hn : input.length using Nat.strong_induction_on generalizing input with
  | _ n ih =>
    subst hn
    rw [many]
    split
    · next hnone => exact hnone
    · next x hx =>
      have hlt : x.2.length < input.length := (ha _ _ hx).trans_le (hskip input)
      rw [if_pos hlt]
      exact ih _ hlt x.2 rfl

namespace Front

theorem tok (p : τ → Bool) : Front (tok (α := α) p) := by
  intro input x h
  obtain ⟨c, -, -, hinput⟩ := tok_eq_some h
  rw [hinput]
  exact Nat.le_succ _

theorem lit (same : τ → τ → Bool) (s : List τ) : Front (lit (α := α) same s) := by
  intro input x h
  obtain ⟨-, t, -, hinput⟩ := lit_eq_some h
  rw [hinput, List.length_append]
  exact Nat.le_add_left _ _

theorem seq (hskip : ∀ s, (skip s).length ≤ s.length) (ha : Front a) (hb : Front b) : Front (seq skip a b) := by
  intro input x h
  obtain ⟨xs, mid, ys, hxs, hys, -⟩ := seq_eq_some.1 h
  exact (hb _ _ hys).trans ((hskip mid).trans (ha _ _ hxs))

theorem choice (ha : Front a) (hb : Front b) : Front (choice a b) := by
  intro input x h
  rcases choice_eq_some h with h | h
  · exact ha _ _ h
  · exact hb _ _ h

theorem node {f : List τ → List α → α} (ha : Front a) : Front (node f a) := by
  intro input x h
  obtain ⟨xs, hxs, -⟩ := node_eq_some.1 h
  exact ha input (xs, x.2) hxs

theorem notAt (a : Parser τ α) : Front (notAt a) := by
  intro input x h
  unfold Peg.notAt at h
  split_ifs at h
  cases h
  exact le_rfl

theorem star (ha : Front a) : Front (star skip a) := by
  intro input x h
  unfold Peg.star at h
  split at h
  · cases h
    exact le_rfl
  · next y hy =>
    cases h
    exact (many_le _ _ _).trans (ha _ _ hy)

theorem plus (ha : Front a) : Front (plus skip a) := by
  intro input x h
  obtain ⟨y, hy, rfl⟩ := Option.map_eq_some_iff.1 h
  exact (many_le _ _ _).trans (ha _ _ hy)

end Front

/-- the same on every input shorter than `n` -/
def Agree (n : ℕ) (a b : Parser τ α) : Prop := ∀ input, input.length < n → a input = b input

namespace Agree

variable {n : ℕ} {a' b' : Parser τ α}

theorem refl (a : Parser τ α) : Agree n a a := fun _ _ => rfl

theorem seq (hskip : ∀ s, (skip s).length ≤ s.length) (hfront : Front a) (ha : Agree n a a') (hb : Agree n b b') :
    Agree n (seq skip a b) (seq skip a' b') := by
  intro input hlt
  rw [Peg.seq, Peg.seq, ← ha input hlt]
  cases hx : a input with
  | none => rfl
  | some x => rw [Option.bind_some, Option.bind_some, hb _ (((hskip _).trans (hfront _ _ hx)).trans_lt hlt)]

/-- what follows a token sees a shorter input -/
theorem seq_lit {same : τ → τ → Bool} {c : τ} (hskip : ∀ s, (skip s).length ≤ s.length) (hb : Agree n b b') :
    Agree (n + 1) (Peg.seq skip (Peg.lit same [c]) b) (Peg.seq skip (Peg.lit same [c]) b') := by
  intro input hlt
  rw [Peg.seq, Peg.seq]
  cases hx : Peg.lit same [c] input with
  | none => rfl
  | some x =>
    obtain ⟨-, t, ht, hinput⟩ := lit_eq_some hx
    have hlen : input.length = x.2.length + 1 := by rw [hinput, List.length_append, ht, List.length_singleton, Nat.add_comm]
    have hmid := hskip x.2
    rw [Option.bind_some, Option.bind_some, hb _ (by omega)]

theorem choice (ha : Agree n a a') (hb : Agree n b b') : Agree n (choice a b) (choice a' b') := by
  intro input hlt
  rw [Peg.choice, Peg.choice, ha input hlt, hb input hlt]

theorem node {f : List τ → List α → α} (ha : Agree n a a') : Agree n (node f a) (node f a') := by
  intro input hlt
  rw [Peg.node, Peg.node, ha input hlt]

theorem many_eq (hskip : ∀ s, (skip s).length ≤ s.length) (ha : Agree n a a') {input : List τ} (hlt : input.length < n) :
    many skip a input = many skip a' input := by
  induction hm : input.length using Nat.strong_induction_on generalizing input with
  | _ m ih =>
    subst hm
    rw [many, many, ← ha _ ((hskip input).trans_lt hlt)]
    split
    · rfl
    · next x hx =>
      split_ifs with hshort
      · rw [ih _ hshort (hshort.trans hlt) rfl]
      · rfl

theorem star (hskip : ∀ s, (skip s).length ≤ s.length) (hfront : Front a) (ha : Agree n a a') : Agree n (star skip a) (star skip a') := by
  intro input hlt
  rw [Peg.star, Peg.star, ← ha input hlt]
  cases hx : a input with
  | none => rfl
  | some x =>
    simp only
    rw [many_eq hskip ha ((hfront _ _ hx).trans_lt hlt)]

end Agree

end Y2q.Peg
