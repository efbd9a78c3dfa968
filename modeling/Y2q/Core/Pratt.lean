/-
Operator precedence by binding powers (a Pratt parser): primaries, operators in front, and left-associative operators in between.

`expr rbp` reads an operand and then climbs: while the next operator binds tighter than `rbp`, it takes the operator and its right
operand. A stream that is no expression gives `none`.

- `expr_fuel`, `climb_fuel`: any fuel beyond the number of tokens gives the same.
- `exprAt_primary`, `exprAt_pre`, `climbAt_nil`, `climbAt_inl`: the equations without the fuel.
- `parse_forall`: what the primaries have and the operators keep, the result has.
- `parse_weight`: the result weighs no more than the primaries and one for each operator.
- `Tree`, `Tree.tokens`: an expression, and its tokens with a group only where the precedence asks for one. `parse_tokens`: they parse to
  its value.
-/
import Mathlib.Tactic

namespace Y2q.Pratt

variable {β : Type}

/-- a token: a value, or an operator with its precedence -/
inductive Role (β : Type) where
  | primary (v : β)
  | pre (prec : ℕ) (f : β → β)
  | inl (prec : ℕ) (f : β → β → β)

mutual

def expr : ℕ → ℕ → List (Role β) → Option (β × List (Role β))
  | n + 1, rbp, .primary v :: rest => climb n rbp v rest
  | n + 1, rbp, .pre prec f :: rest => (expr n (prec - 1) rest).bind fun x => climb n rbp (f x.1) x.2
  | _, _, _ => none

/-- the next token is an operator that binds tighter than `rbp`, or the operand ends before it -/
def climb : ℕ → ℕ → β → List (Role β) → Option (β × List (Role β))
  | 0, _, _, _ => none
  | _ + 1, _, lhs, [] => some (lhs, [])
  | _ + 1, _, _, .primary _ :: _ => none
  | _ + 1, rbp, lhs, .pre prec f :: rest => if rbp < prec then none else some (lhs, .pre prec f :: rest)
  | n + 1, rbp, lhs, .inl prec f :: rest =>
    if rbp < prec then (expr n prec rest).bind fun x => climb n rbp (f lhs x.1) x.2 else some (lhs, .inl prec f :: rest)

end

def parse (ts : List (Role β)) : Option β := (expr (ts.length + 1) 0 ts).map (·.1)

variable {rbp prec n m : ℕ} {lhs : β} {ts rest : List (Role β)} {x : β × List (Role β)}

/-! ## Fuel -/

theorem rest_le (n : ℕ) : (∀ rbp (ts : List (Role β)) x, expr n rbp ts = some x → x.2.length < ts.length) ∧
    ∀ rbp lhs (ts : List (Role β)) x, climb n rbp lhs ts = some x → x.2.length ≤ ts.length := by
  induction n with
  | zero =>
    refine ⟨fun rbp ts x h => ?_, fun rbp lhs ts x h => ?_⟩
    · simp only [expr] at h
      cases h
    · simp only [climb] at h
      cases h
  | succ n ih =>
    obtain ⟨ihe, ihc⟩ := ih
    refine ⟨fun rbp ts x h => ?_, fun rbp lhs ts x h => ?_⟩
    · match ts with
      | [] =>
        simp only [expr] at h
        cases h
      | .primary v :: rest =>
        simp only [expr] at h
        exact Nat.lt_succ_of_le (ihc _ _ _ _ h)
      | .pre prec f :: rest =>
        simp only [expr] at h
        obtain ⟨y, hy, hx⟩ := Option.bind_eq_some_iff.1 h
        exact Nat.lt_succ_of_le ((ihc _ _ _ _ hx).trans (ihe _ _ _ hy).le)
      | .inl prec f :: rest =>
        simp only [expr] at h
        cases h
    · match ts with
      | [] =>
        simp only [climb] at h
        cases h
        exact le_rfl
      | .primary v :: rest =>
        simp only [climb] at h
        cases h
      | .pre prec f :: rest =>
        simp only [climb] at h
        split_ifs at h
        cases h
        exact le_rfl
      | .inl prec f :: rest =>
        simp only [climb] at h
        split_ifs at h
        · obtain ⟨y, hy, hx⟩ := Option.bind_eq_some_iff.1 h
          exact (ihc _ _ _ _ hx).trans ((ihe _ _ _ hy).le.trans (Nat.le_succ _))
        · cases h
          exact le_rfl

theorem expr_lt (h : expr n rbp ts = some x) : x.2.length < ts.length := (rest_le n).1 _ _ _ h

theorem fuel (k : ℕ) : (∀ n m rbp (ts : List (Role β)), ts.length ≤ k → ts.length < n → ts.length < m → expr n rbp ts = expr m rbp ts) ∧
    ∀ n m rbp lhs (ts : List (Role β)), ts.length ≤ k → ts.length < n → ts.length < m → climb n rbp lhs ts = climb m rbp lhs ts := by
  induction k with
  | zero =>
    refine ⟨fun n m rbp ts hk hn hm => ?_, fun n m rbp lhs ts hk hn hm => ?_⟩
    all_goals
      rw [List.length_eq_zero_iff.1 (Nat.le_zero.1 hk)] at *
      obtain ⟨n, rfl⟩ := Nat.exists_eq_succ_of_ne_zero (show n ≠ 0 by omega)
      obtain ⟨m, rfl⟩ := Nat.exists_eq_succ_of_ne_zero (show m ≠ 0 by omega)
    · simp only [expr]
    · simp only [climb]
  | succ k ih =>
    obtain ⟨ihe, ihc⟩ := ih
    refine ⟨fun n m rbp ts hk hn hm => ?_, fun n m rbp lhs ts hk hn hm => ?_⟩
    all_goals
      obtain ⟨n, rfl⟩ := Nat.exists_eq_succ_of_ne_zero (show n ≠ 0 by omega)
      obtain ⟨m, rfl⟩ := Nat.exists_eq_succ_of_ne_zero (show m ≠ 0 by omega)
    · match ts with
      | [] => simp only [expr]
      | .primary v :: rest =>
        simp only [List.length_cons] at hk hn hm
        simp only [expr]
        exact ihc _ _ _ _ _ (by omega) (by omega) (by omega)
      | .pre prec f :: rest =>
        simp only [List.length_cons] at hk hn hm
        simp only [expr]
        rw [ihe n m _ rest (by omega) (by omega) (by omega)]
        cases hx : expr m (prec - 1) rest with
        | none => rfl
        | some x =>
          have hlt := expr_lt hx
          exact ihc _ _ _ _ _ (by omega) (by omega) (by omega)
      | .inl prec f :: rest => simp only [expr]
    · match ts with
      | [] => simp only [climb]
      | .primary v :: rest => simp only [climb]
      | .pre prec f :: rest => simp only [climb]
      | .inl prec f :: rest =>
        simp only [List.length_cons] at hk hn hm
        simp only [climb]
        split_ifs
        · rw [ihe n m _ rest (by omega) (by omega) (by omega)]
          cases hx : expr m prec rest with
          | none => rfl
          | some x =>
            have hlt := expr_lt hx
            exact ihc _ _ _ _ _ (by omega) (by omega) (by omega)
        · rfl

theorem expr_fuel (hn : ts.length < n) (hm : ts.length < m) : expr n rbp ts = expr m rbp ts :=
  (fuel ts.length).1 _ _ _ _ le_rfl hn hm

theorem climb_fuel (hn : ts.length < n) (hm : ts.length < m) : climb n rbp lhs ts = climb m rbp lhs ts :=
  (fuel ts.length).2 _ _ _ _ _ le_rfl hn hm

/-! ## The equations -/

def exprAt (rbp : ℕ) (ts : List (Role β)) : Option (β × List (Role β)) := expr (ts.length + 1) rbp ts

def climbAt (rbp : ℕ) (lhs : β) (ts : List (Role β)) : Option (β × List (Role β)) := climb (ts.length + 1) rbp lhs ts

theorem exprAt_primary (rbp : ℕ) (v : β) (rest : List (Role β)) : exprAt rbp (.primary v :: rest) = climbAt rbp v rest := by
  simp only [exprAt, climbAt, List.length_cons, expr]

theorem exprAt_pre (rbp prec : ℕ) (f : β → β) (rest : List (Role β)) :
    exprAt rbp (.pre prec f :: rest) = (exprAt (prec - 1) rest).bind fun x => climbAt rbp (f x.1) x.2 := by
  simp only [exprAt, climbAt, List.length_cons, expr]
  cases hx : expr (rest.length + 1) (prec - 1) rest with
  | none => rfl
  | some x =>
    have hlt := expr_lt hx
    exact climb_fuel (by omega) (Nat.lt_succ_self _)

theorem climbAt_nil (rbp : ℕ) (lhs : β) : climbAt rbp lhs [] = some (lhs, []) := by
  simp only [climbAt, climb]

theorem climbAt_inl (rbp : ℕ) (lhs : β) (prec : ℕ) (f : β → β → β) (rest : List (Role β)) : climbAt rbp lhs (.inl prec f :: rest) =
    if rbp < prec then (exprAt prec rest).bind fun x => climbAt rbp (f lhs x.1) x.2 else some (lhs, .inl prec f :: rest) := by
  simp only [exprAt, climbAt, List.length_cons, climb]
  split_ifs
  · cases hx : expr (rest.length + 1) prec rest with
    | none => rfl
    | some x =>
      have hlt := expr_lt hx
      exact climb_fuel (by omega) (Nat.lt_succ_self _)
  · rfl

/-! ## Results -/

/-- the values of a token keep `P` -/
def Role.Keeps (P : β → Prop) : Role β → Prop
  | .primary v => P v
  | .pre _ f => ∀ v, P v → P (f v)
  | .inl _ f => ∀ v w, P v → P w → P (f v w)

theorem run_forall {P : β → Prop} (n : ℕ) : (∀ rbp (ts : List (Role β)) x, (∀ t ∈ ts, t.Keeps P) → expr n rbp ts = some x →
      P x.1 ∧ ∀ t ∈ x.2, t.Keeps P) ∧
    ∀ rbp lhs (ts : List (Role β)) x, P lhs → (∀ t ∈ ts, t.Keeps P) → climb n rbp lhs ts = some x → P x.1 ∧ ∀ t ∈ x.2, t.Keeps P := by
  induction n with
  | zero =>
    refine ⟨fun rbp ts x _ h => ?_, fun rbp lhs ts x _ _ h => ?_⟩
    · simp only [expr] at h
      cases h
    · simp only [climb] at h
      cases h
  | succ n ih =>
    obtain ⟨ihe, ihc⟩ := ih
    refine ⟨fun rbp ts x hts h => ?_, fun rbp lhs ts x hlhs hts h => ?_⟩
    · match ts with
      | [] =>
        simp only [expr] at h
        cases h
      | .primary v :: rest =>
        simp only [expr] at h
        exact ihc _ _ _ _ (hts _ List.mem_cons_self) (fun t ht => hts t (List.mem_cons_of_mem _ ht)) h
      | .pre prec f :: rest =>
        simp only [expr] at h
        obtain ⟨y, hy, hx⟩ := Option.bind_eq_some_iff.1 h
        obtain ⟨hv, hrest⟩ := ihe _ _ _ (fun t ht => hts t (List.mem_cons_of_mem _ ht)) hy
        exact ihc _ _ _ _ (hts _ List.mem_cons_self _ hv) hrest hx
      | .inl prec f :: rest =>
        simp only [expr] at h
        cases h
    · match ts with
      | [] =>
        simp only [climb] at h
        cases h
        exact ⟨hlhs, hts⟩
      | .primary v :: rest =>
        simp only [climb] at h
        cases h
      | .pre prec f :: rest =>
        simp only [climb] at h
        split_ifs at h
        cases h
        exact ⟨hlhs, hts⟩
      | .inl prec f :: rest =>
        simp only [climb] at h
        split_ifs at h
        · obtain ⟨y, hy, hx⟩ := Option.bind_eq_some_iff.1 h
          obtain ⟨hv, hrest⟩ := ihe _ _ _ (fun t ht => hts t (List.mem_cons_of_mem _ ht)) hy
          exact ihc _ _ _ _ (hts _ List.mem_cons_self _ _ hlhs hv) hrest hx
        · cases h
          exact ⟨hlhs, hts⟩

theorem parse_forall {P : β → Prop} {v : β} (hts : ∀ t ∈ ts, t.Keeps P) (h : parse ts = some v) : P v := by
  obtain ⟨x, hx, rfl⟩ := Option.map_eq_some_iff.1 h
  exact ((run_forall _).1 _ _ _ hts hx).1

/-! ## Weights -/

section Weight

variable (w : β → ℕ)

/-- an operator adds at most one to the weight of its operands -/
def Role.Light : Role β → Prop
  | .primary _ => True
  | .pre _ f => ∀ v, w (f v) ≤ w v + 1
  | .inl _ f => ∀ v u, w (f v u) ≤ w v + w u + 1

/-- the weight of the primaries, and one for each operator -/
def load : List (Role β) → ℕ
  | [] => 0
  | .primary v :: rest => w v + load rest
  | .pre _ _ :: rest | .inl _ _ :: rest => 1 + load rest

variable {w}

theorem load_cons (t : Role β) (ts : List (Role β)) : load w (t :: ts) = load w [t] + load w ts := by
  cases t with
  | primary v => rfl
  | pre prec f => rfl
  | inl prec f => rfl

theorem run_weight (n : ℕ) : (∀ rbp (ts : List (Role β)) x, (∀ t ∈ ts, t.Light w) → expr n rbp ts = some x →
      w x.1 + load w x.2 ≤ load w ts ∧ ∀ t ∈ x.2, t.Light w) ∧
    ∀ rbp lhs (ts : List (Role β)) x, (∀ t ∈ ts, t.Light w) → climb n rbp lhs ts = some x →
      w x.1 + load w x.2 ≤ w lhs + load w ts ∧ ∀ t ∈ x.2, t.Light w := by
  induction n with
  | zero =>
    refine ⟨fun rbp ts x _ h => ?_, fun rbp lhs ts x _ h => ?_⟩
    · simp only [expr] at h
      cases h
    · simp only [climb] at h
      cases h
  | succ n ih =>
    obtain ⟨ihe, ihc⟩ := ih
    refine ⟨fun rbp ts x hts h => ?_, fun rbp lhs ts x hts h => ?_⟩
    · match ts with
      | [] =>
        simp only [expr] at h
        cases h
      | .primary v :: rest =>
        simp only [expr] at h
        exact ihc _ _ _ _ (fun t ht => hts t (List.mem_cons_of_mem _ ht)) h
      | .pre prec f :: rest =>
        simp only [expr] at h
        obtain ⟨y, hy, hx⟩ := Option.bind_eq_some_iff.1 h
        obtain ⟨hy, hrest⟩ := ihe _ _ _ (fun t ht => hts t (List.mem_cons_of_mem _ ht)) hy
        obtain ⟨hx, hlight⟩ := ihc _ _ _ _ hrest hx
        have hf : w (f y.1) ≤ w y.1 + 1 := hts _ List.mem_cons_self _
        exact ⟨by simp only [load]; omega, hlight⟩
      | .inl prec f :: rest =>
        simp only [expr] at h
        cases h
    · match ts with
      | [] =>
        simp only [climb] at h
        cases h
        exact ⟨le_rfl, hts⟩
      | .primary v :: rest =>
        simp only [climb] at h
        cases h
      | .pre prec f :: rest =>
        simp only [climb] at h
        split_ifs at h
        cases h
        exact ⟨le_rfl, hts⟩
      | .inl prec f :: rest =>
        simp only [climb] at h
        split_ifs at h
        · obtain ⟨y, hy, hx⟩ := Option.bind_eq_some_iff.1 h
          obtain ⟨hy, hrest⟩ := ihe _ _ _ (fun t ht => hts t (List.mem_cons_of_mem _ ht)) hy
          obtain ⟨hx, hlight⟩ := ihc _ _ _ _ hrest hx
          have hf : w (f lhs y.1) ≤ w lhs + w y.1 + 1 := hts _ List.mem_cons_self _ _
          exact ⟨by simp only [load]; omega, hlight⟩
        · cases h
          exact ⟨le_rfl, hts⟩

theorem parse_weight {v : β} (hts : ∀ t ∈ ts, t.Light w) (h : parse ts = some v) : w v ≤ load w ts := by
  obtain ⟨x, hx, rfl⟩ := Option.map_eq_some_iff.1 h
  have hweight := ((run_weight _).1 _ _ _ hts hx).1
  omega

end Weight

/-! ## Trees -/

inductive Tree (β : Type) where
  | leaf (v : β)
  | pre (prec : ℕ) (f : β → β) (a : Tree β)
  | inl (prec : ℕ) (f : β → β → β) (a b : Tree β)

namespace Tree

def value : Tree β → β
  | leaf v => v
  | pre _ f a => f a.value
  | inl _ f a b => f a.value b.value

/-- an operator that binds less tight than `p` is in a group, which is one primary -/
def tokens : Tree β → ℕ → List (Role β)
  | leaf v, _ => [.primary v]
  | pre q f a, p => if q < p then [.primary (f a.value)] else .pre q f :: a.tokens q
  | inl q f a b, p => if q < p then [.primary (f a.value b.value)] else a.tokens q ++ .inl q f :: b.tokens (q + 1)

/-- the operators in front bind tighter than `top`, and those in between no tighter -/
def Ordered (top : ℕ) : Tree β → Prop
  | leaf _ => True
  | pre q _ a => top < q ∧ a.Ordered top
  | inl q _ a b => q ≤ top ∧ a.Ordered top ∧ b.Ordered top

end Tree

/-- an operand that binds tighter than `q` ends before these -/
def Stops (q : ℕ) (ts : List (Role β)) : Prop := ts = [] ∨ ∃ prec f rest, ts = .inl prec f :: rest ∧ prec ≤ q

theorem Stops.mono {q q' : ℕ} (h : Stops q ts) (hq : q ≤ q') : Stops q' ts := by
  rcases h with rfl | ⟨prec, f, rest, rfl, hprec⟩
  · exact .inl rfl
  · exact .inr ⟨prec, f, rest, rfl, hprec.trans hq⟩

theorem climbAt_stops {q : ℕ} (h : Stops q ts) (lhs : β) : climbAt q lhs ts = some (lhs, ts) := by
  rcases h with rfl | ⟨prec, f, rest, rfl, hprec⟩
  · exact climbAt_nil q lhs
  · rw [climbAt_inl, if_neg (not_lt.2 hprec)]

theorem exprAt_tokens {top : ℕ} {t : Tree β} (ht : t.Ordered top) {p : ℕ} (hp : rbp < p) (hrest : Stops (min p top) rest) :
    exprAt rbp (t.tokens p ++ rest) = climbAt rbp t.value rest := by
  induction t generalizing p rbp rest with
  | leaf v => exact exprAt_primary rbp v rest
  | pre q f a ih =>
    rw [Tree.tokens]
    split_ifs with hq
    · exact exprAt_primary rbp _ rest
    · obtain ⟨htop, ha⟩ := ht
      have hstop : Stops (q - 1) rest := hrest.mono (by omega)
      rw [List.cons_append, exprAt_pre, ih ha (by omega) (hrest.mono (by omega)), climbAt_stops hstop]
      rfl
  | inl q f a b iha ihb =>
    rw [Tree.tokens]
    split_ifs with hq
    · exact exprAt_primary rbp _ rest
    · obtain ⟨htop, ha, hb⟩ := ht
      have hnext : Stops (min q top) (.inl q f :: (b.tokens (q + 1) ++ rest)) := .inr ⟨q, f, _, rfl, by omega⟩
      rw [List.append_assoc, List.cons_append, iha ha (by omega) hnext, climbAt_inl, if_pos (by omega),
        ihb hb (Nat.lt_succ_self q) (hrest.mono (by omega)), climbAt_stops (hrest.mono (by omega))]
      rfl

theorem parse_tokens {top : ℕ} {t : Tree β} (ht : t.Ordered top) : parse (t.tokens 1) = some t.value := by
  have h := exprAt_tokens ht Nat.zero_lt_one (.inl rfl : Stops (min 1 top) [])
  rw [List.append_nil, climbAt_nil] at h
  exact congrArg (Option.map (·.1)) h

end Y2q.Pratt
