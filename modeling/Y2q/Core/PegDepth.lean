/-
How many groups of a parsing expression are open at a time.

`Gauged` is an expression together with its gauge: the most groups that are open at a time while it reads an input, whether or not it
succeeds. A group is open from when its opener is read until its closer is. A scan that knows only the text in front of a position gives
a level to every position; `Within` says that the level bounds the groups.

- `Reads P a`: the tokens that `a` reads have `P`.
- `Keeps level a`: what `a` reads never leaves a lower level behind.
- `Within level bound a`: `Keeps`, and the level in front of `a` and the groups open in it are at most `bound` together. One rule for
  each way of building an expression.
-/
import Y2q.Core.Peg

namespace Y2q.Peg

variable {τ α : Type}

/-! ## What is read -/

/-- the tokens that are read have `P` -/
def Reads (P : τ → Prop) (a : Parser τ α) : Prop := ∀ input x, a input = some x → ∃ t, input = t ++ x.2 ∧ ∀ c ∈ t, P c

namespace Reads

variable {P : τ → Prop} {a b : Parser τ α} {skip : List τ → List τ}

theorem nothing (input : List τ) : ∃ t, input = t ++ input ∧ ∀ c ∈ t, P c := ⟨[], rfl, nofun⟩

theorem append {input mid rest : List τ} (h : ∃ t, input = t ++ mid ∧ ∀ c ∈ t, P c) (h' : ∃ t, mid = t ++ rest ∧ ∀ c ∈ t, P c) :
    ∃ t, input = t ++ rest ∧ ∀ c ∈ t, P c := by
  obtain ⟨t, rfl, ht⟩ := h
  obtain ⟨u, rfl, hu⟩ := h'
  exact ⟨t ++ u, (List.append_assoc _ _ _).symm, List.forall_mem_append.2 ⟨ht, hu⟩⟩

theorem tok {p : τ → Bool} (h : ∀ c, p c = true → P c) : Reads P (tok (α := α) p) := by
  intro input x hx
  obtain ⟨c, hc, -, hinput⟩ := tok_eq_some hx
  exact ⟨[c], hinput, List.forall_mem_singleton.2 (h c hc)⟩

theorem lit {same : τ → τ → Bool} {s : List τ} (h : ∀ c ∈ s, ∀ d, same c d = true → P d) : Reads P (lit (α := α) same s) := by
  induction s with
  | nil =>
    intro input x hx
    cases hx
    exact nothing input
  | cons c s ih =>
    intro input x hx
    cases input with
    | nil => cases hx
    | cons d input =>
      simp only [Peg.lit] at hx
      split_ifs at hx with hsame
      have hd : P d := h c List.mem_cons_self d hsame
      exact append ⟨[d], rfl, List.forall_mem_singleton.2 hd⟩ (ih (fun c' hc' => h c' (List.mem_cons_of_mem c hc')) input x hx)

theorem seq (hskip : ∀ s, ∃ t, s = t ++ skip s ∧ ∀ c ∈ t, P c) (ha : Reads P a) (hb : Reads P b) : Reads P (seq skip a b) := by
  intro input x hx
  obtain ⟨xs, mid, ys, hxs, hys, -⟩ := seq_eq_some.1 hx
  exact append (ha _ _ hxs) (append (hskip mid) (hb _ (ys, x.2) hys))

theorem choice (ha : Reads P a) (hb : Reads P b) : Reads P (choice a b) := by
  intro input x hx
  rcases choice_eq_some hx with hx | hx
  · exact ha _ _ hx
  · exact hb _ _ hx

theorem node {f : List τ → List α → α} (ha : Reads P a) : Reads P (node f a) := by
  intro input x hx
  obtain ⟨xs, hxs, -⟩ := node_eq_some.1 hx
  exact ha input (xs, x.2) hxs

/-- nothing is read by a look ahead -/
theorem notAt_tok {p : τ → Bool} (h : ∀ input c rest, input = c :: rest → a input = none → p c = true → P c) :
    Reads P (Peg.seq id (notAt a) (Peg.tok p)) := by
  intro input x hx
  obtain ⟨xs, mid, ys, hxs, hys, -⟩ := seq_eq_some.1 hx
  unfold notAt at hxs
  split_ifs at hxs with hnone
  cases hxs
  obtain ⟨c, hc, -, hinput⟩ := tok_eq_some hys
  exact ⟨[c], hinput, List.forall_mem_singleton.2 (h _ c x.2 hinput (Option.not_isSome_iff_eq_none.1 hnone) hc)⟩

theorem many (hskip : ∀ s, ∃ t, s = t ++ skip s ∧ ∀ c ∈ t, P c) (ha : Reads P a) (input : List τ) :
    ∃ t, input = t ++ (many skip a input).2 ∧ ∀ c ∈ t, P c := by
  induction hn : input.length using Nat.strong_induction_on generalizing input with
  | _ n ih =>
    subst hn
    rw [Peg.many]
    split
    · exact nothing input
    · next x hx =>
      split_ifs with hlt
      · exact append (append (hskip input) (ha _ _ hx)) (ih _ hlt x.2 rfl)
      · exact nothing input

theorem star (hskip : ∀ s, ∃ t, s = t ++ skip s ∧ ∀ c ∈ t, P c) (ha : Reads P a) : Reads P (star skip a) := by
  intro input x hx
  unfold Peg.star at hx
  split at hx
  · cases hx
    exact nothing input
  · next y hy =>
    cases hx
    exact append (ha _ _ hy) (many hskip ha y.2)

theorem plus (hskip : ∀ s, ∃ t, s = t ++ skip s ∧ ∀ c ∈ t, P c) (ha : Reads P a) : Reads P (plus skip a) := by
  intro input x hx
  obtain ⟨y, hy, rfl⟩ := Option.map_eq_some_iff.1 hx
  exact append (ha _ _ hy) (many hskip ha y.2)

end Reads

/-! ## Expressions with a gauge -/

structure Gauged (τ α : Type) where
  read : Parser τ α
  /-- the most groups open at a time while an input is read -/
  groups : List τ → ℕ

/-- an expression without groups -/
def flat (a : Parser τ α) : Gauged τ α := ⟨a, fun _ => 0⟩

/-- a failure of the first part ends the attempt -/
def seqG (skip : List τ → List τ) (a b : Gauged τ α) : Gauged τ α :=
  ⟨seq skip a.read b.read, fun input =>
    match a.read input with
    | none => a.groups input
    | some x => max (a.groups input) (b.groups (skip x.2))⟩

/-- the second part is attempted only where the first fails -/
def choiceG (a b : Gauged τ α) : Gauged τ α :=
  ⟨choice a.read b.read, fun input =>
    match a.read input with
    | some _ => a.groups input
    | none => max (a.groups input) (b.groups input)⟩

/-- every round counts, also the last one, which fails -/
def manyGroups (skip : List τ → List τ) (a : Gauged τ α) (input : List τ) : ℕ :=
  match a.read (skip input) with
  | none => a.groups (skip input)
  | some x => if x.2.length < input.length then max (a.groups (skip input)) (manyGroups skip a x.2) else a.groups (skip input)
termination_by input.length

def starG (skip : List τ → List τ) (a : Gauged τ α) : Gauged τ α :=
  ⟨star skip a.read, fun input =>
    match a.read input with
    | none => a.groups input
    | some x => max (a.groups input) (manyGroups skip a x.2)⟩

def nodeG (f : List τ → List α → α) (a : Gauged τ α) : Gauged τ α := ⟨node f a.read, a.groups⟩

/-- one group more than in `a`, from the opener on -/
def groupG (skip : List τ → List τ) (opener : Parser τ α) (a : Gauged τ α) (closer : Parser τ α) : Gauged τ α :=
  ⟨seq skip (seq skip opener a.read) closer, fun input =>
    match opener input with
    | none => 0
    | some x => a.groups (skip x.2) + 1⟩

/-! ## Levels -/

section Level

-- the input, and the level behind each of its front parts
variable (whole : List τ) (level : List τ → ℕ)

/-- at every position, what is read does not leave a lower level behind -/
def Keeps (a : Parser τ α) : Prop :=
  ∀ p s, p ++ s = whole → ∀ x, a s = some x → ∃ t, s = t ++ x.2 ∧ level p ≤ level (p ++ t)

/-- the same of a skip -/
def KeepsSkip (skip : List τ → List τ) : Prop := ∀ p s, p ++ s = whole → ∃ t, s = t ++ skip s ∧ level p ≤ level (p ++ t)

structure Within (bound : ℕ) (a : Gauged τ α) : Prop where
  keeps : Keeps whole level a.read
  groups_le : ∀ p s, p ++ s = whole → level p + a.groups s ≤ bound

variable {whole level} {skip : List τ → List τ} {bound : ℕ}

/-- one read after another -/
theorem level_append {p s mid rest : List τ} (hwhole : p ++ s = whole) (h : ∃ t, s = t ++ mid ∧ level p ≤ level (p ++ t))
    (h' : ∀ p, p ++ mid = whole → ∃ t, mid = t ++ rest ∧ level p ≤ level (p ++ t)) : ∃ t, s = t ++ rest ∧ level p ≤ level (p ++ t) := by
  obtain ⟨t, rfl, ht⟩ := h
  obtain ⟨u, rfl, hu⟩ := h' (p ++ t) (by rw [List.append_assoc, hwhole])
  refine ⟨t ++ u, (List.append_assoc _ _ _).symm, ht.trans ?_⟩
  rwa [← List.append_assoc]

theorem level_nothing (p s : List τ) : ∃ t, s = t ++ s ∧ level p ≤ level (p ++ t) := ⟨[], rfl, by rw [List.append_nil]⟩

namespace Keeps

variable {a b : Parser τ α}

theorem seq (hskip : KeepsSkip whole level skip) (ha : Keeps whole level a) (hb : Keeps whole level b) :
    Keeps whole level (seq skip a b) := by
  intro p s hwhole x hx
  obtain ⟨xs, mid, ys, hxs, hys, -⟩ := seq_eq_some.1 hx
  refine level_append hwhole (ha p s hwhole _ hxs) fun p hwhole => ?_
  exact level_append hwhole (hskip p mid hwhole) fun p hwhole => hb p _ hwhole (ys, x.2) hys

theorem choice (ha : Keeps whole level a) (hb : Keeps whole level b) : Keeps whole level (choice a b) := by
  intro p s hwhole x hx
  rcases choice_eq_some hx with hx | hx
  · exact ha p s hwhole x hx
  · exact hb p s hwhole x hx

theorem node {f : List τ → List α → α} (ha : Keeps whole level a) : Keeps whole level (node f a) := by
  intro p s hwhole x hx
  obtain ⟨xs, hxs, -⟩ := node_eq_some.1 hx
  exact ha p s hwhole (xs, x.2) hxs

theorem many (hskip : KeepsSkip whole level skip) (ha : Keeps whole level a) :
    ∀ p s, p ++ s = whole → ∃ t, s = t ++ (many skip a s).2 ∧ level p ≤ level (p ++ t) := by
  intro p s hwhole
  induction hn : s.length using Nat.strong_induction_on generalizing p s with
  | _ n ih =>
    subst hn
    rw [Peg.many]
    split
    · exact level_nothing p s
    · next x hx =>
      split_ifs with hlt
      · refine level_append hwhole (hskip p s hwhole) fun p hwhole => ?_
        exact level_append hwhole (ha p _ hwhole x hx) fun p hwhole => ih _ hlt p x.2 hwhole rfl
      · exact level_nothing p s

theorem star (hskip : KeepsSkip whole level skip) (ha : Keeps whole level a) : Keeps whole level (star skip a) := by
  intro p s hwhole x hx
  unfold Peg.star at hx
  split at hx
  · cases hx
    exact level_nothing p s
  · next y hy =>
    cases hx
    exact level_append hwhole (ha p s hwhole y hy) fun p hwhole => many hskip ha p y.2 hwhole

end Keeps

namespace Within

variable {a b : Gauged τ α}

/-- the groups of what comes after a read, from the level in front of it -/
theorem after {p s mid : List τ} {n : ℕ} (hwhole : p ++ s = whole) (h : ∃ t, s = t ++ mid ∧ level p ≤ level (p ++ t))
    (h' : ∀ p, p ++ mid = whole → level p + n ≤ bound) : level p + n ≤ bound := by
  obtain ⟨t, rfl, ht⟩ := h
  have hn := h' (p ++ t) (by rw [List.append_assoc, hwhole])
  omega

theorem flat {a : Parser τ α} (ha : Keeps whole level a) (hlevel : ∀ p s, p ++ s = whole → level p ≤ bound) :
    Within whole level bound (flat a) := ⟨ha, hlevel⟩

theorem seq (hskip : KeepsSkip whole level skip) (ha : Within whole level bound a) (hb : Within whole level bound b) :
    Within whole level bound (seqG skip a b) := by
  refine ⟨ha.keeps.seq hskip hb.keeps, fun p s hwhole => ?_⟩
  have hfirst := ha.groups_le p s hwhole
  simp only [seqG]
  split
  · exact hfirst
  · next x hx =>
    have hsecond : level p + b.groups (skip x.2) ≤ bound :=
      after hwhole (ha.keeps p s hwhole x hx) fun p hwhole =>
        after hwhole (hskip p x.2 hwhole) fun p hwhole => hb.groups_le p _ hwhole
    omega

theorem choice (ha : Within whole level bound a) (hb : Within whole level bound b) : Within whole level bound (choiceG a b) := by
  refine ⟨ha.keeps.choice hb.keeps, fun p s hwhole => ?_⟩
  have hfirst := ha.groups_le p s hwhole
  have hsecond := hb.groups_le p s hwhole
  simp only [choiceG]
  split
  · exact hfirst
  · omega

theorem node {f : List τ → List α → α} (ha : Within whole level bound a) : Within whole level bound (nodeG f a) :=
  ⟨ha.keeps.node, ha.groups_le⟩

theorem manyGroups_le (hskip : KeepsSkip whole level skip) (ha : Within whole level bound a) :
    ∀ p s, p ++ s = whole → level p + manyGroups skip a s ≤ bound := by
  intro p s hwhole
  induction hn : s.length using Nat.strong_induction_on generalizing p s with
  | _ n ih =>
    subst hn
    have hround : level p + a.groups (skip s) ≤ bound := after hwhole (hskip p s hwhole) fun p hwhole => ha.groups_le p _ hwhole
    rw [manyGroups]
    split
    · exact hround
    · next x hx =>
      split_ifs with hlt
      · have hrest : level p + manyGroups skip a x.2 ≤ bound :=
          after hwhole (hskip p s hwhole) fun p hwhole =>
            after hwhole (ha.keeps p _ hwhole x hx) fun p hwhole => ih _ hlt p x.2 hwhole rfl
        omega
      · exact hround

theorem star (hskip : KeepsSkip whole level skip) (ha : Within whole level bound a) : Within whole level bound (starG skip a) := by
  refine ⟨ha.keeps.star hskip, fun p s hwhole => ?_⟩
  have hfirst := ha.groups_le p s hwhole
  simp only [starG]
  split
  · exact hfirst
  · next x hx =>
    have hrest : level p + manyGroups skip a x.2 ≤ bound :=
      after hwhole (ha.keeps p s hwhole x hx) fun p hwhole => manyGroups_le hskip ha p x.2 hwhole
    omega

/-- **A group**: its opener raises the level by one, and its closer lowers it by at most one. -/
theorem group {opener closer : Parser τ α} (hskip : KeepsSkip whole level skip)
    (hopener : ∀ s x, opener s = some x → ∃ t, s = t ++ x.2 ∧ ∀ p, level (p ++ t) = level p + 1)
    (hcloser : ∀ s x, closer s = some x → ∃ t, s = t ++ x.2 ∧ ∀ p, level p ≤ level (p ++ t) + 1)
    (hlevel : ∀ p s, p ++ s = whole → level p ≤ bound) (ha : Within whole level bound a) :
    Within whole level bound (groupG skip opener a closer) := by
  refine ⟨fun p s hwhole x hx => ?_, fun p s hwhole => ?_⟩
  · obtain ⟨xs, mid, ys, hxs, hys, -⟩ := seq_eq_some.1 hx
    obtain ⟨os, start, is, hos, his, -⟩ := seq_eq_some.1 hxs
    obtain ⟨t, hs, hup⟩ := hopener s _ hos
    have hwhole' : p ++ t ++ start = whole := by rw [List.append_assoc, ← show s = t ++ start from hs, hwhole]
    -- from behind the opener to in front of the closer
    obtain ⟨u, hu, hkeep⟩ := level_append hwhole' (hskip _ start hwhole') fun p hwhole =>
      level_append hwhole (ha.keeps p _ hwhole _ his) fun p hwhole => hskip p mid hwhole
    obtain ⟨v, hv, hdown⟩ := hcloser _ (ys, x.2) hys
    refine ⟨t ++ (u ++ v), ?_, ?_⟩
    · rw [show s = t ++ start from hs, hu, hv, List.append_assoc, List.append_assoc]
    · have hraised := hup p
      have hlowered := hdown (p ++ t ++ u)
      rw [← List.append_assoc, ← List.append_assoc]
      omega
  · simp only [groupG]
    split
    · exact hlevel p s hwhole
    · next x hx =>
      obtain ⟨t, rfl, hup⟩ := hopener s x hx
      have hwhole' : p ++ t ++ x.2 = whole := by rw [List.append_assoc, hwhole]
      have hinner : level (p ++ t) + a.groups (skip x.2) ≤ bound :=
        after hwhole' (hskip _ x.2 hwhole') fun p hwhole => ha.groups_le p _ hwhole
      rw [hup p] at hinner
      omega

end Within

end Level

/-- tokens none of which lowers the level -/
theorem Reads.keeps {P : τ → Prop} {a : Parser τ α} {whole : List τ} {level : List τ → ℕ}
    (hlevel : ∀ p t, (∀ c ∈ t, P c) → level p ≤ level (p ++ t)) (ha : Reads P a) : Keeps whole level a := by
  intro p s _ x hx
  obtain ⟨t, hs, ht⟩ := ha s x hx
  exact ⟨t, hs, hlevel p t ht⟩

end Y2q.Peg
