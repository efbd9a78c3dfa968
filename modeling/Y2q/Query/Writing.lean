/-
Queries written down (`query/grammar.pest`, `query/mod.rs`).

A `Text` is what a client has in mind: conditions, `not`, `and` and `or`. `Text.write` writes it with parentheses only where the precedence
asks for them, and with each value in quotes.

- `Writable`: the names are identifiers that do not begin with `not`, and no value has a quote in it.
- `chain_write`: what `expr` reads of a text that is written, in front of any other.
- `parse_write`: a query that is written and parsed is the query, unless one of the two limits refuses it.
-/
import Mathlib.Tactic
import Y2q.Query.Grammar

namespace Y2q.Query

open Peg
open MetadataIndex (LabelQuery MatchOp)

/-! ## Texts -/

inductive Op where
  | eq | ne | re | pre | suf

def Op.rule : Op → Rule
  | .eq => .eq
  | .ne => .ne
  | .re => .re
  | .pre => .pre
  | .suf => .suf

def Op.text : Op → String
  | .eq => "=="
  | .ne => "!="
  | .re => "=~"
  | .pre => "^="
  | .suf => "$="

inductive Text where
  | cond (name : String) (op : Op) (value : String)
  | not (a : Text)
  | and (a b : Text)
  | or (a b : Text)

/-- a name that the grammar takes for one, in front of a condition -/
def Nameable (name : String) : Prop := name.toList ≠ [] ∧ name.toList.all identChar = true ∧ beginsNot name.toList = false

instance (name : String) : Decidable (Nameable name) := inferInstanceAs (Decidable (_ ∧ _ ∧ _))

def group (parens : Prop) [Decidable parens] (s : List Char) : List Char := if parens then '(' :: s ++ [')'] else s

namespace Text

def Writable : Text → Prop
  | cond name _ value => Nameable name ∧ QUOTE ∉ value.toList
  | not a => a.Writable
  | and a b | or a b => a.Writable ∧ b.Writable

/-- in a place where what binds less tight than `p` needs parentheses -/
def write : Text → ℕ → List Char
  | cond name op value, _ => name.toList ++ ' ' :: (op.text.toList ++ ' ' :: QUOTE :: (value.toList ++ [QUOTE]))
  | not a, p => group (30 < p) ("not ".toList ++ a.write 30)
  | and a b, p => group (20 < p) (a.write 20 ++ " and ".toList ++ b.write 21)
  | or a b, p => group (10 < p) (a.write 10 ++ " or ".toList ++ b.write 11)

def operators : Text → ℕ
  | cond .. => 0
  | not a => a.operators + 1
  | and a b | or a b => a.operators + b.operators + 1

section Meaning

variable (compile : String → Option (String → Bool))

def matcher : Op → String → Except QueryError MatchOp
  | .eq, v => .ok (.Eq v)
  | .ne, v => .ok (.Ne v)
  | .pre, v => .ok (.Prefix v)
  | .suf, v => .ok (.Suffix v)
  | .re, v =>
    match compile v with
    | some isMatch => .ok (.Regex isMatch)
    | none => .error (.regex v)

/-- what is meant; a regex that does not compile is an error, the leftmost of them -/
def meaning : Text → Except QueryError LabelQuery
  | cond name op value => (matcher compile op value).map (.Cond name)
  | not a => a.meaning.map .Not
  | and a b => do return .And (← a.meaning) (← b.meaning)
  | or a b => do return .Or (← a.meaning) (← b.meaning)

def tree : Text → Pratt.Tree Built
  | cond name op value => .leaf ((matcher compile op value).map (.Cond name))
  | not a => .pre 30 buildNot a.tree
  | and a b => .inl 20 (buildInfix .And) a.tree b.tree
  | or a b => .inl 10 (buildInfix .Or) a.tree b.tree

theorem tree_value (t : Text) : (t.tree compile).value = t.meaning compile := by
  induction t with
  | cond name op value => rfl
  | not a ih => rw [tree, Pratt.Tree.value, ih, meaning, buildNot]
  | and a b iha ihb => rw [tree, Pratt.Tree.value, iha, ihb, meaning, buildInfix]
  | or a b iha ihb => rw [tree, Pratt.Tree.value, iha, ihb, meaning, buildInfix]

theorem tree_ordered (t : Text) : (t.tree compile).Ordered 20 := by
  induction t with
  | cond name op value => exact trivial
  | not a ih => exact ⟨by decide, ih⟩
  | and a b iha ihb => exact ⟨by decide, iha, ihb⟩
  | or a b iha ihb => exact ⟨by decide, iha, ihb⟩

end Meaning

end Text

/-! ## Conditions -/

section Condition

variable {name value : String} {k : List Char}

theorem exact_append (s : String) (k : List Char) : exact s (s.toList ++ k) = some ([], k) := by
  have hsame : ∀ c : Char, decide (c = c) = true := fun c => decide_eq_true rfl
  exact lit_append hsame s.toList k

theorem skip_cons {c : Char} (h : WHITESPACE c = false) (s : List Char) : skip (c :: s) = c :: s := by
  rw [skip, List.dropWhile_cons_of_neg (by rw [h]; exact Bool.false_ne_true)]

theorem skip_space (s : List Char) : skip (' ' :: s) = skip s := by
  rw [skip, List.dropWhile_cons_of_pos (by decide), skip]

theorem whitespace_identChar {c : Char} (h : identChar c = true) : WHITESPACE c = false := by
  by_contra hspace
  rw [Bool.not_eq_false, WHITESPACE] at hspace
  simp only [Bool.or_eq_true, decide_eq_true_eq] at hspace
  rcases hspace with ((rfl | rfl) | rfl) | rfl <;> revert h <;> decide

theorem Nameable.identChar (hname : Nameable name) : ∀ c ∈ name.toList, identChar c = true := List.all_eq_true.1 hname.2.1

theorem ident_read (hname : Nameable name) (k : List Char) :
    ident (name.toList ++ ' ' :: k) = some ([.mk .ident name.toList []], ' ' :: k) := by
  refine node_append ?_
  have hident := hname.identChar
  obtain ⟨c, s, hs⟩ := List.exists_cons_of_ne_nil hname.1
  rw [hs] at hident ⊢
  have hread : tok (α := Pair) identChar (c :: s ++ ' ' :: k) = some ([], s ++ ' ' :: k) := by
    rw [List.cons_append, tok, if_pos (hident c List.mem_cons_self)]
  have hrest : tok (α := Pair) identChar (' ' :: k) = none := rfl
  rw [plus, hread, Option.map_some, many_tok (fun d hd => hident d (List.mem_cons_of_mem c hd)) hrest, List.nil_append]

theorem op_read (o : Op) (k : List Char) : op (o.text.toList ++ ' ' :: k) = some ([.mk o.rule o.text.toList []], ' ' :: k) := by
  have hrule : ∀ r, rule r (exact o.text) (o.text.toList ++ ' ' :: k) = some ([.mk r o.text.toList []], ' ' :: k) :=
    fun r => node_append (exact_append o.text (' ' :: k))
  cases o with
  | eq => exact choice_left (hrule .eq)
  | ne => exact (choice_right rfl).trans (choice_left (hrule .ne))
  | re => exact (choice_right rfl).trans ((choice_right rfl).trans (choice_left (hrule .re)))
  | pre => exact (choice_right rfl).trans ((choice_right rfl).trans ((choice_right rfl).trans (choice_left (hrule .pre))))
  | suf => exact (choice_right rfl).trans ((choice_right rfl).trans ((choice_right rfl).trans ((choice_right rfl).trans (hrule .suf))))

theorem inner_read {v : List Char} (hv : QUOTE ∉ v) (k : List Char) : inner (v ++ QUOTE :: k) = some ([.mk .inner v []], QUOTE :: k) := by
  refine node_append ?_
  have hstop : seq id (notAt (exact "\"")) ANY (QUOTE :: k) = none := rfl
  have hnext : ∀ c s, c ≠ QUOTE → seq id (notAt (exact "\"")) ANY (c :: s) = some ([], s) := by
    intro c s hc
    have hquote : exact "\"" (c :: s) = none := if_neg (by rw [decide_eq_true_eq]; exact Ne.symm hc)
    rw [seq, notAt, hquote]
    rfl
  have hmany : many id (seq id (notAt (exact "\"")) ANY) (v ++ QUOTE :: k) = ([], QUOTE :: k) := by
    induction v with
    | nil => exact many_none hstop
    | cons c v ih =>
      rw [List.mem_cons, not_or] at hv
      have hread : seq id (notAt (exact "\"")) ANY (id (c :: (v ++ QUOTE :: k))) = some ([], v ++ QUOTE :: k) := hnext c _ (Ne.symm hv.1)
      rw [List.cons_append, many_some hread (Nat.lt_succ_self _), ih hv.2, List.nil_append]
  have hround : (∃ x, seq id (notAt (exact "\"")) ANY (id (v ++ QUOTE :: k)) = some x ∧ x.2.length < (v ++ QUOTE :: k).length) ∨
      seq id (notAt (exact "\"")) ANY (id (v ++ QUOTE :: k)) = none ∧ id (v ++ QUOTE :: k) = v ++ QUOTE :: k := by
    cases v with
    | nil => exact .inr ⟨hstop, rfl⟩
    | cons c v =>
      rw [List.mem_cons, not_or] at hv
      exact .inl ⟨_, hnext c _ (Ne.symm hv.1), Nat.lt_succ_self _⟩
  exact (star_skip hround).trans (congrArg some hmany)

theorem string_read {v : List Char} (hv : QUOTE ∉ v) (k : List Char) :
    string (QUOTE :: (v ++ [QUOTE]) ++ k) = some ([.mk .string (QUOTE :: (v ++ [QUOTE])) [.mk .inner v []]], k) := by
  refine node_append ?_
  have hopen : exact "\"" (QUOTE :: (v ++ QUOTE :: k)) = some ([], v ++ QUOTE :: k) := exact_append "\"" _
  have hclose : exact "\"" (QUOTE :: k) = some ([], k) := exact_append "\"" k
  have hread : seq id (exact "\"") inner (QUOTE :: (v ++ QUOTE :: k)) = some ([.mk .inner v []], QUOTE :: k) :=
    seq_some (y := ([.mk .inner v []], QUOTE :: k)) hopen (inner_read hv k)
  rw [List.cons_append, List.append_assoc, List.singleton_append]
  exact seq_some (y := ([], k)) hread hclose

/-- the pairs of a condition that is written -/
def conditionPairs (name : String) (o : Op) (value : String) : List Pair :=
  [.mk .ident name.toList [], .mk o.rule o.text.toList [],
    .mk .string (QUOTE :: (value.toList ++ [QUOTE])) [.mk .inner value.toList []]]

theorem condition_read {name value : String} (hname : Nameable name) (hvalue : QUOTE ∉ value.toList) (o : Op) (k : List Char) :
    condition ((Text.cond name o value).write 0 ++ k) =
      some ([.mk .condition ((Text.cond name o value).write 0) (conditionPairs name o value)], k) := by
  refine node_append ?_
  have hopStart : skip (' ' :: (o.text.toList ++ ' ' :: (QUOTE :: (value.toList ++ [QUOTE]) ++ k))) =
      o.text.toList ++ ' ' :: (QUOTE :: (value.toList ++ [QUOTE]) ++ k) := by
    rw [skip_space]
    cases o <;> exact skip_cons rfl _
  have hvalueStart : skip (' ' :: (QUOTE :: (value.toList ++ [QUOTE]) ++ k)) = QUOTE :: (value.toList ++ [QUOTE]) ++ k := by
    rw [skip_space]
    exact skip_cons rfl _
  have hhead := seq_some (ident_read hname (o.text.toList ++ ' ' :: (QUOTE :: (value.toList ++ [QUOTE]) ++ k)))
    ((congrArg op hopStart).trans (op_read o _))
  have hbody := seq_some hhead ((congrArg Query.value hvalueStart).trans (choice_left (string_read hvalue k)))
  simpa [Text.write, conditionPairs] using hbody

theorem buildCondition_written (compile : String → Option (String → Bool)) (name : String) (o : Op) (value : String) :
    buildCondition compile (conditionPairs name o value) = (Text.matcher compile o value).map (.Cond name) := by
  have hvalue : valueStr (.mk .string (QUOTE :: (value.toList ++ [QUOTE])) [.mk .inner value.toList []]) = value := String.ofList_toList
  have hname : Pair.asStr (.mk .ident name.toList []) = name := String.ofList_toList
  rw [conditionPairs, buildCondition, hvalue, hname]
  cases o with
  | re =>
    simp only [Op.rule, Pair.asRule, Text.matcher]
    cases compile value <;> rfl
  | _ => rfl

/-- no letter of `not` is a space -/
theorem lit_space {s t : List Char} (hs : s.all (fun c => c.toLower ≠ ' ') = true) (k : List Char)
    (h : (lit (α := Pair) (fun c d => c.toLower = d.toLower) s t).isSome = false) :
    lit (α := Pair) (fun c d => c.toLower = d.toLower) s (t ++ ' ' :: k) = none := by
  induction s generalizing t with
  | nil => cases h
  | cons c s ih =>
    rw [List.all_cons, Bool.and_eq_true, decide_eq_true_eq] at hs
    cases t with
    | nil => exact if_neg (by rw [decide_eq_true_eq]; exact hs.1)
    | cons d t =>
      rw [lit] at h
      rw [List.cons_append, lit]
      split_ifs at h ⊢
      · exact ih hs.2 h
      · rfl

theorem starts_cond (hname : Nameable name) {o : Op} (k : List Char) :
    skip ((Text.cond name o value).write 0 ++ k) = (Text.cond name o value).write 0 ++ k := by
  obtain ⟨c, s, hs⟩ := List.exists_cons_of_ne_nil hname.1
  rw [Text.write, hs]
  exact skip_cons (whitespace_identChar (hname.identChar c (hs ▸ List.mem_cons_self))) _

theorem prefixOp_cond (hname : Nameable name) {o : Op} (k : List Char) : prefixOp ((Text.cond name o value).write 0 ++ k) = none := by
  have hnot := hname.2.2
  rw [beginsNot, insensitive] at hnot
  have hword : insensitive "not" ((Text.cond name o value).write 0 ++ k) = none := by
    rw [Text.write, List.append_assoc, List.cons_append]
    exact lit_space rfl _ hnot
  have hbang : exact "!" ((Text.cond name o value).write 0 ++ k) = none := by
    obtain ⟨c, s, hs⟩ := List.exists_cons_of_ne_nil hname.1
    have hc : c ≠ '!' := by
      rintro rfl
      exact absurd (hname.identChar '!' (hs ▸ List.mem_cons_self)) (by decide)
    rw [Text.write, hs]
    exact if_neg (by rw [decide_eq_true_eq]; exact hc.symm)
  exact Option.map_eq_none_iff.2 ((choice_right hword).trans hbang)

end Condition

/-! ## Chains -/

section Chain

variable (n : ℕ)

/-- the further operations of an expression -/
def operations (s : List Char) : List Pair × List Char := many skip (operation (expr n)) s

/-- an operand and all operations behind it -/
def chain (s : List Char) : Option (List Pair × List Char) :=
  (operand (expr n) s).map fun x => (x.1 ++ (operations n x.2).1, (operations n x.2).2)

variable {n} {s k : List Char} {x : List Pair × List Char}

theorem infixOp_shrinks (h : infixOp s = some x) : x.2.length < s.length := by
  rcases choice_eq_some h with h | h
  all_goals
    obtain ⟨xs, hread, -⟩ := node_eq_some.1 h
    rcases choice_eq_some hread with hlit | hlit
    all_goals
      obtain ⟨-, t, ht, hs⟩ := lit_eq_some hlit
      rw [hs, List.length_append, ht]
      exact Nat.lt_add_of_pos_left (by decide)

theorem operation_shrinks (h : operation (expr n) s = some x) : x.2.length < s.length := by
  obtain ⟨xs, mid, ys, hxs, hys, -⟩ := seq_eq_some.1 h
  obtain ⟨is, start, ps, his, hps, -⟩ := seq_eq_some.1 hxs
  have hfirst : start.length < s.length := infixOp_shrinks his
  have hstar : mid.length ≤ (skip start).length := Front.star front_prefixOp _ _ hps
  have hlast : x.2.length ≤ (skip mid).length := front_primary (front_expr n) _ (ys, x.2) hys
  exact (hlast.trans ((skip_le mid).trans (hstar.trans (skip_le start)))).trans_lt hfirst

theorem operation_none (h : infixOp s = none) : operation (expr n) s = none := seq_none_left (seq_none_left h)

/-- an expression is a chain, if nothing but the end of its group follows -/
theorem exprBody_of_chain (h : chain n s = some x) (hend : skip x.2 = x.2) : exprBody (expr n) s = some x := by
  obtain ⟨⟨ps, mid⟩, hoperand, rfl⟩ := Option.map_eq_some_iff.1 h
  have hround : (∃ y, operation (expr n) (skip mid) = some y ∧ y.2.length < mid.length) ∨
      operation (expr n) (skip mid) = none ∧ skip mid = mid := by
    cases hnext : operation (expr n) (skip mid) with
    | none =>
      have hmany : operations n mid = ([], mid) := many_none hnext
      dsimp only at hend
      rw [hmany] at hend
      exact .inr ⟨rfl, hend⟩
    | some y => exact .inl ⟨y, rfl, (operation_shrinks hnext).trans_le (skip_le mid)⟩
  exact seq_some hoperand (star_skip hround)

theorem operations_none (h : infixOp (skip s) = none) : operations n s = ([], s) := many_none (operation_none h)

/-- behind an operator, the operations are a chain -/
theorem operations_infix {w : List Char} {p : Pair} (hw : skip (' ' :: w ++ ' ' :: s) = w ++ ' ' :: s)
    (hp : infixOp (w ++ ' ' :: s) = some ([p], ' ' :: s)) (hs : skip s = s) (h : chain n s = some x) :
    operations n (' ' :: w ++ ' ' :: s) = (p :: x.1, x.2) := by
  obtain ⟨⟨ps, mid⟩, hoperand, rfl⟩ := Option.map_eq_some_iff.1 h
  obtain ⟨ns, start, qs, hns, hqs, hps⟩ := seq_eq_some.1 hoperand
  have hnext : skip (' ' :: s) = s := by rw [skip_space, hs]
  have hread : operation (expr n) (skip (' ' :: w ++ ' ' :: s)) = some (p :: ps, mid) := by
    rw [hw, show p :: ps = ([p] ++ ns) ++ qs by rw [show ps = ns ++ qs from hps]; rfl]
    exact seq_some (y := (qs, mid)) (seq_some (y := (ns, start)) hp (by rw [hnext, hns])) hqs
  have hlt : mid.length < (' ' :: w ++ ' ' :: s).length := (operation_shrinks hread).trans_le (skip_le _)
  exact many_some hread hlt

theorem operand_not (hs : skip s = s) :
    operand (expr n) ("not ".toList ++ s) = (operand (expr n) s).map fun x => (.mk .not "not".toList [] :: x.1, x.2) := by
  have hnext : skip (' ' :: s) = s := by rw [skip_space, hs]
  have hfirst : prefixOp ("not ".toList ++ s) = some ([.mk .not "not".toList []], ' ' :: s) := by
    have hlit : insensitive "not" ("not".toList ++ ' ' :: s) = some ([], ' ' :: s) := rfl
    have hname : choice (insensitive "not") (exact "!") ("not".toList ++ ' ' :: s) = some ([], ' ' :: s) := choice_left hlit
    exact node_append hname
  have hprefixes : ∃ ns mid mid', star skip prefixOp s = some (ns, mid) ∧ many skip prefixOp (' ' :: s) = (ns, mid') ∧
      skip mid' = skip mid := by
    cases hmore : prefixOp s with
    | none => exact ⟨[], s, ' ' :: s, star_none hmore, many_none (by rw [hnext, hmore]), by rw [hnext, hs]⟩
    | some y =>
      have hlt := prefixOp_shrinks s y hmore
      have hstar : star skip prefixOp (skip (' ' :: s)) = some (many skip prefixOp (' ' :: s)) :=
        star_skip (.inl ⟨y, by rw [hnext, hmore], hlt.trans (Nat.lt_succ_self _)⟩)
      rw [hnext] at hstar
      exact ⟨_, _, _, hstar, rfl, rfl⟩
  obtain ⟨ns, mid, mid', hstar, hmany, hmid⟩ := hprefixes
  have hwhole : star skip prefixOp ("not ".toList ++ s) = some (.mk .not "not".toList [] :: ns, mid') := by
    rw [star_some hfirst, hmany]
    rfl
  rw [operand, seq, seq, hwhole, hstar, Option.bind_some, Option.bind_some, hmid, Option.map_map]
  rfl

theorem chain_not (hs : skip s = s) :
    chain n ("not ".toList ++ s) = (chain n s).map fun x => (.mk .not "not".toList [] :: x.1, x.2) := by
  rw [chain, operand_not hs, Option.map_map, chain, Option.map_map]
  rfl

end Chain

/-! ## Reading what is written -/

theorem roles_append (compile : String → Option (String → Bool)) (ps qs : List Pair) :
    roles compile (ps ++ qs) = roles compile ps ++ roles compile qs := by
  induction ps with
  | nil => simp only [List.nil_append, roles]
  | cons p ps ih => simp only [List.cons_append, roles, ih]

theorem operators_append (ps qs : List Pair) : operators (ps ++ qs) = operators ps + operators qs := by
  induction ps with
  | nil => simp only [List.nil_append, operators, Nat.zero_add]
  | cons p ps ih => simp only [List.cons_append, operators, ih, Nat.add_assoc]

/-- it does not begin with a space -/
def Starts (s : List Char) : Prop := ∃ c r, s = c :: r ∧ WHITESPACE c = false

theorem Starts.skip_append {s : List Char} (h : Starts s) (k : List Char) : skip (s ++ k) = s ++ k := by
  obtain ⟨c, r, rfl, hc⟩ := h
  exact skip_cons hc (r ++ k)

variable {compile : String → Option (String → Bool)}

variable (compile) in
/-- in front of anything, the text is read as these tokens, with so many operators, and then the operations behind it -/
def Reads (s : List Char) (ts : List (Pratt.Role Built)) (count : ℕ) : Prop :=
  ∀ n k, (s ++ k).length ≤ n → ∃ ps, chain n (s ++ k) = some (ps ++ (operations n k).1, (operations n k).2) ∧
    roles compile ps = ts ∧ operators ps = count

namespace Reads

variable {s s' : List Char} {ts ts' : List (Pratt.Role Built)} {count count' : ℕ}

theorem not (h : Reads compile s ts count) (hs : Starts s) : Reads compile ("not ".toList ++ s) (.pre 30 buildNot :: ts) (count + 1) := by
  intro n k hlen
  rw [List.append_assoc] at hlen ⊢
  rw [List.length_append] at hlen
  obtain ⟨ps, hchain, rfl, rfl⟩ := h n k (by omega)
  refine ⟨.mk .not "not".toList [] :: ps, ?_, ?_, ?_⟩
  · rw [chain_not (hs.skip_append k), hchain]
    rfl
  · rw [roles, Pair.role]
  · simp [operators, Pair.operators, Nat.add_comm]

theorem between {w : List Char} {p : Pair} {t : Pratt.Role Built} (h : Reads compile s ts count) (h' : Reads compile s' ts' count')
    (hs' : Starts s') (hw : ∀ k, skip (' ' :: w ++ ' ' :: k) = w ++ ' ' :: k)
    (hp : ∀ k, infixOp (w ++ ' ' :: k) = some ([p], ' ' :: k)) (hrole : p.role compile = t) (hcount : p.operators = 1) :
    Reads compile (s ++ (' ' :: w ++ [' ']) ++ s') (ts ++ t :: ts') (count + count' + 1) := by
  intro n k hlen
  have hassoc : s ++ (' ' :: w ++ [' ']) ++ s' ++ k = s ++ (' ' :: w ++ ' ' :: (s' ++ k)) := by simp
  rw [hassoc] at hlen ⊢
  have hlen' : (s' ++ k).length ≤ n := by
    simp only [List.length_append, List.length_cons] at hlen ⊢
    omega
  obtain ⟨ps, hchain, rfl, rfl⟩ := h n _ hlen
  obtain ⟨ps', hchain', rfl, rfl⟩ := h' n k hlen'
  refine ⟨ps ++ p :: ps', ?_, ?_, ?_⟩
  · rw [hchain, operations_infix (hw (s' ++ k)) (hp (s' ++ k)) (hs'.skip_append k) hchain', List.append_assoc]
    rfl
  · rw [roles_append, roles, hrole]
  · rw [operators_append, operators, hcount]
    omega

theorem cond {name value : String} (hname : Nameable name) (hvalue : QUOTE ∉ value.toList) (o : Op) :
    Reads compile ((Text.cond name o value).write 0) [.primary ((Text.matcher compile o value).map (.Cond name))] 0 := by
  intro n k _
  refine ⟨[.mk .condition ((Text.cond name o value).write 0) (conditionPairs name o value)], ?_, ?_, ?_⟩
  · have hstart : skip ((Text.cond name o value).write 0 ++ k) = (Text.cond name o value).write 0 ++ k := starts_cond hname k
    have hnone : prefixOp ((Text.cond name o value).write 0 ++ k) = none := prefixOp_cond hname k
    have hread : operand (expr n) ((Text.cond name o value).write 0 ++ k) =
        some ([.mk .condition ((Text.cond name o value).write 0) (conditionPairs name o value)], k) := by
      refine seq_some (y := ([.mk .condition ((Text.cond name o value).write 0) (conditionPairs name o value)], k)) (star_none hnone) ?_
      rw [hstart]
      exact choice_left (condition_read hname hvalue o k)
    rw [chain, hread]
    rfl
  · rw [roles, roles, Pair.role, buildCondition_written]
  · cases o <;> simp [operators, Pair.operators, conditionPairs, Op.rule]

theorem group {u : Pratt.Tree Built} (h : Reads compile s (u.tokens 1) count) (hs : Starts s) (hu : u.Ordered 20) :
    Reads compile ('(' :: s ++ [')']) [.primary u.value] count := by
  intro n k hlen
  have hassoc : '(' :: s ++ [')'] ++ k = '(' :: (s ++ ')' :: k) := by simp
  rw [hassoc] at hlen ⊢
  obtain ⟨n, rfl⟩ : ∃ m, n = m + 1 := ⟨n - 1, by simp only [List.length_cons] at hlen; omega⟩
  obtain ⟨ps, hchain, hroles, rfl⟩ := h n (')' :: k) (by simp only [List.length_cons] at hlen; omega)
  have hstop : operations n (')' :: k) = ([], ')' :: k) := operations_none rfl
  rw [hstop, List.append_nil] at hchain
  have hbody := exprBody_of_chain hchain rfl
  have hexpr : expr (n + 1) (s ++ ')' :: k) = some ([.mk .expr s ps], ')' :: k) := node_append hbody
  have hopen : exact "(" ('(' :: (s ++ ')' :: k)) = some ([], s ++ ')' :: k) := exact_append "(" _
  have hclose : exact ")" (')' :: k) = some ([], k) := exact_append ")" k
  have hprimary : primary (expr (n + 1)) ('(' :: (s ++ ')' :: k)) = some ([.mk .expr s ps], k) := by
    refine (choice_right rfl).trans (seq_some (y := ([], k)) (seq_some (y := ([.mk .expr s ps], ')' :: k)) hopen ?_) hclose)
    rw [hs.skip_append, hexpr]
  have hread : operand (expr (n + 1)) ('(' :: (s ++ ')' :: k)) = some ([.mk .expr s ps], k) :=
    seq_some (y := ([Pair.mk .expr s ps], k)) (star_none rfl) hprimary
  refine ⟨[.mk .expr s ps], ?_, ?_, ?_⟩
  · rw [chain, hread]
    rfl
  · rw [roles, roles, Pair.role, hroles, Pratt.parse_tokens hu]
    rfl
  · simp [operators, Pair.operators]

end Reads

namespace Text

variable {t : Text}

theorem starts_group {s : List Char} (hs : Starts s) (parens : Prop) [Decidable parens] : Starts (group parens s) := by
  rw [Query.group]
  split_ifs
  · exact ⟨'(', _, rfl, rfl⟩
  · exact hs

theorem starts_write (ht : t.Writable) (p : ℕ) : Starts (t.write p) := by
  induction t generalizing p with
  | cond name op value =>
    obtain ⟨c, s, hs⟩ := List.exists_cons_of_ne_nil ht.1.1
    rw [write, hs]
    exact ⟨c, _, rfl, whitespace_identChar (ht.1.identChar c (hs ▸ List.mem_cons_self))⟩
  | not a ih => exact starts_group ⟨'n', _, rfl, rfl⟩ _
  | and a b iha ihb =>
    obtain ⟨c, s, hs, hc⟩ := iha ht.1 20
    rw [write, hs]
    exact starts_group ⟨c, _, rfl, hc⟩ _
  | or a b iha ihb =>
    obtain ⟨c, s, hs, hc⟩ := iha ht.1 10
    rw [write, hs]
    exact starts_group ⟨c, _, rfl, hc⟩ _

/-- a group where the place asks for one, and else the tokens themselves -/
theorem reads_group {s : List Char} {u : Pratt.Tree Built} {ts : List (Pratt.Role Built)} {count p q : ℕ}
    (h : Reads compile s ts count) (hs : Starts s) (hu : u.Ordered 20) (hone : u.tokens 1 = ts)
    (htokens : u.tokens p = if q < p then [.primary u.value] else ts) :
    Reads compile (Query.group (q < p) s) (u.tokens p) count := by
  rw [Query.group, htokens]
  split_ifs
  · exact (hone ▸ h : Reads compile s (u.tokens 1) count).group hs hu
  · exact h

variable (compile) in
theorem reads_write (ht : t.Writable) (p : ℕ) : Reads compile (t.write p) ((t.tree compile).tokens p) t.operators := by
  induction t generalizing p with
  | cond name op value => exact Reads.cond ht.1 ht.2 op
  | not a ih =>
    have hwritable : a.Writable := ht
    have h := (ih hwritable 30).not (starts_write hwritable 30)
    exact reads_group h ⟨'n', _, rfl, rfl⟩ (tree_ordered compile a.not) rfl rfl
  | and a b iha ihb =>
    have hand : ∀ k, infixOp ("and".toList ++ ' ' :: k) = some ([.mk .and "and".toList []], ' ' :: k) := fun k => by
      have hlit : choice (insensitive "and") (exact "&&") ("and".toList ++ ' ' :: k) = some ([], ' ' :: k) := choice_left rfl
      exact choice_left (node_append hlit)
    have h := (iha ht.1 20).between (ihb ht.2 21) (starts_write ht.2 21) (fun _ => rfl) hand rfl rfl
    have hstarts : Starts (a.write 20 ++ " and ".toList ++ b.write 21) := by
      obtain ⟨c, s, hs, hc⟩ := starts_write ht.1 20
      rw [hs]
      exact ⟨c, _, rfl, hc⟩
    exact reads_group h hstarts (tree_ordered compile (a.and b)) rfl rfl
  | or a b iha ihb =>
    have hor : ∀ k, infixOp ("or".toList ++ ' ' :: k) = some ([.mk .or "or".toList []], ' ' :: k) := fun k => by
      have hlit : choice (insensitive "or") (exact "||") ("or".toList ++ ' ' :: k) = some ([], ' ' :: k) := choice_left rfl
      exact (choice_right rfl).trans (node_append hlit)
    have h := (iha ht.1 10).between (ihb ht.2 11) (starts_write ht.2 11) (fun _ => rfl) hor rfl rfl
    have hstarts : Starts (a.write 10 ++ " or ".toList ++ b.write 11) := by
      obtain ⟨c, s, hs, hc⟩ := starts_write ht.1 10
      rw [hs]
      exact ⟨c, _, rfl, hc⟩
    exact reads_group h hstarts (tree_ordered compile (a.or b)) rfl rfl

/-- **A query that is written and parsed is the query**, unless one of the limits refuses it. -/
theorem parse_write (ht : t.Writable) :
    parse compile (String.ofList (t.write 1)) =
      if tooDeep (quoted (t.write 1)) 0 0 (t.write 1) then
        .error (.query
          "query parenthesis nesting exceeds 32 levels (parenthesis characters inside quoted text also count toward the limit)")
      else if MAX_QUERY_OPERATORS < t.operators then
        .error (.query "query contains more than 128 operators (and/or/not)")
      else t.meaning compile := by
  obtain ⟨ps, hchain, hroles, hcount⟩ := reads_write compile ht 1 (t.write 1).length [] (by rw [List.append_nil])
  have hend : operations (t.write 1).length [] = ([], []) := operations_none rfl
  rw [hend, List.append_nil, List.append_nil] at hchain
  have hexpr : expr ((t.write 1).length + 1) (t.write 1 ++ []) = some ([.mk .expr (t.write 1) ps], []) := by
    refine node_append ?_
    rw [List.append_nil]
    exact exprBody_of_chain hchain rfl
  rw [List.append_nil] at hexpr
  have hquery : query (t.write 1) = some ([.mk .query (t.write 1) [.mk .expr (t.write 1) ps, .mk .EOI [] []]], []) := by
    have hstart : skip (t.write 1) = t.write 1 := by
      have h := (starts_write ht 1).skip_append []
      rwa [List.append_nil] at h
    have hread : seq skip SOI (expr ((t.write 1).length + 1)) (t.write 1) = some ([.mk .expr (t.write 1) ps], []) := by
      have hsoi : SOI (t.write 1) = some ([], t.write 1) := rfl
      refine seq_some (y := ([Pair.mk .expr (t.write 1) ps], [])) hsoi ?_
      rw [hstart, hexpr]
    have hbody : seq skip (seq skip SOI (expr ((t.write 1).length + 1))) EOI (t.write 1) =
        some ([.mk .expr (t.write 1) ps, .mk .EOI [] []], []) :=
      seq_some (y := ([Pair.mk .EOI [] []], [])) hread rfl
    rw [query, rule, node, hbody, Option.map_some, List.length_nil, Nat.sub_zero, List.take_length]
  have hbuild : buildExpr compile ps = t.meaning compile := by
    rw [buildExpr, hroles, Pratt.parse_tokens (tree_ordered compile t), tree_value]
    rfl
  rw [parse, String.toList_ofList, hquery]
  simp only [Pair.intoInner, Pair.asRule, List.find?_cons, decide_true, hcount, hbuild]

/-- `not (env == "prod" or tier ^= "web") and region != ")"` -/
def grouped : Text := .and (.not (.or (.cond "env" .eq "prod") (.cond "tier" .pre "web"))) (.cond "region" .ne ")")

theorem parse_write_grouped : parse (fun _ => none) (String.ofList (grouped.write 1)) =
    .ok (.And (.Not (.Or (.Cond "env" (.Eq "prod")) (.Cond "tier" (.Prefix "web")))) (.Cond "region" (.Ne ")"))) := by
  have hwritable : grouped.Writable := by
    refine ⟨⟨⟨?_, ?_⟩, ?_, ?_⟩, ?_, ?_⟩
    all_goals decide
  rw [parse_write hwritable, if_neg (by decide), if_neg (by decide)]
  rfl

end Text

end Y2q.Query
