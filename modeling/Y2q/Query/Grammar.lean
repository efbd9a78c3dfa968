/-
The label query language (`query/grammar.pest`, `query/mod.rs`).

Each rule of the grammar is a definition under its name, in the order and with the implicit whitespace of the grammar file; pest reads
it as a PEG. `buildExpr` gives the pairs of an `expr` to the precedence parser. A compiled regex is the function it computes; the texts
of pest's own errors and of the regex compiler are left out.

- `expr_fuel`: how deep `expr` may call itself does not matter, once it is more than the length of the input.
- `parse_names`: no query that is parsed has a label name that begins with `not`, in any case.
-/
import Mathlib.Data.List.DropRight
import Mathlib.Tactic
import Y2q.Core.Peg
import Y2q.Core.Pratt
import Y2q.Storage.Listing

namespace Y2q.Query

open Peg
open MetadataIndex (LabelQuery MatchOp)

/-! ## The grammar -/

inductive Rule where
  | query | expr | and | or | not | condition | eq | ne | re | pre | suf | ident | string | inner | bare | EOI
deriving DecidableEq, Repr

inductive Pair where
  | mk (rule : Rule) (text : List Char) (inner : List Pair)

def Pair.asRule : Pair → Rule
  | .mk rule _ _ => rule

def Pair.asStr : Pair → String
  | .mk _ text _ => String.ofList text

def Pair.intoInner : Pair → List Pair
  | .mk _ _ inner => inner

def WHITESPACE (c : Char) : Bool := c = ' ' || c = '\t' || c = '\r' || c = '\n'

def skip (input : List Char) : List Char := input.dropWhile WHITESPACE

def QUOTE : Char := Char.ofNat 34

/-- a literal in quotes -/
def exact (s : String) : Parser Char Pair := lit (fun c d => c = d) s.toList

/-- `^` and a literal in quotes: any ASCII case -/
def insensitive (s : String) : Parser Char Pair := lit (fun c d => c.toLower = d.toLower) s.toList

def ANY : Parser Char Pair := tok fun _ => true

def rule (r : Rule) (a : Parser Char Pair) : Parser Char Pair := node (Pair.mk r) a

def and : Parser Char Pair := rule .and (choice (insensitive "and") (exact "&&"))
def or : Parser Char Pair := rule .or (choice (insensitive "or") (exact "||"))
def infixOp : Parser Char Pair := choice and or

def not : Parser Char Pair := rule .not (choice (insensitive "not") (exact "!"))
def prefixOp : Parser Char Pair := not

def eq : Parser Char Pair := rule .eq (exact "==")
def ne : Parser Char Pair := rule .ne (exact "!=")
def re : Parser Char Pair := rule .re (exact "=~")
def pre : Parser Char Pair := rule .pre (exact "^=")
def suf : Parser Char Pair := rule .suf (exact "$=")
def op : Parser Char Pair := choice eq (choice ne (choice re (choice pre suf)))

def identChar (c : Char) : Bool := c.isAlphanum || c = '-' || c = '_' || c = '.'

def ident : Parser Char Pair := rule .ident (plus id (tok identChar))

def inner : Parser Char Pair := rule .inner (star id (seq id (notAt (exact "\"")) ANY))
def string : Parser Char Pair := rule .string (seq id (seq id (exact "\"") inner) (exact "\""))
def bare : Parser Char Pair := rule .bare (plus id (seq id (notAt (choice (tok WHITESPACE) (exact ")"))) ANY))
def value : Parser Char Pair := choice string bare

def condition : Parser Char Pair := rule .condition (seq skip (seq skip ident op) value)

section Recursive

variable (expr : Parser Char Pair)

def primary : Parser Char Pair := choice condition (seq skip (seq skip (exact "(") expr) (exact ")"))

/-- `prefix* ~ primary` -/
def operand : Parser Char Pair := seq skip (star skip prefixOp) (primary expr)

/-- `infix ~ prefix* ~ primary` -/
def operation : Parser Char Pair := seq skip (seq skip infixOp (star skip prefixOp)) (primary expr)

def exprBody : Parser Char Pair := seq skip (operand expr) (star skip (operation expr))

end Recursive

/-- at most `n` groups deep -/
def expr : ℕ → Parser Char Pair
  | 0 => fun _ => none
  | n + 1 => rule .expr (exprBody (expr n))

def SOI : Parser Char Pair := fun input => some ([], input)

def EOI : Parser Char Pair := fun input => if input = [] then some ([.mk .EOI [] []], []) else none

/-- every group consumes its parenthesis, so no input is nested deeper than it is long -/
def query (input : List Char) : Option (List Pair × List Char) :=
  rule .query (seq skip (seq skip SOI (expr (input.length + 1))) EOI) input

/-! ## Queries -/

inductive QueryError where
  | query (message : String)
  /-- pest's error -/
  | grammar
  /-- the regex compiler's error -/
  | regex (value : String)
  /-- a stream that the precedence parser does not expect -/
  | panic
deriving DecidableEq, Repr

abbrev MAX_PAREN_DEPTH : ℕ := 32
abbrev MAX_QUERY_OPERATORS : ℕ := 128

/-- the positions of the first and the last `"` -/
def quoted (input : List Char) : Option (ℕ × ℕ) :=
  match input.findIdx? (· = QUOTE), input.reverse.findIdx? (· = QUOTE) with
  | some first, some fromEnd => some (first, input.length - 1 - fromEnd)
  | _, _ => none

/-- does a `)` at `i` lower the depth -/
def closes (quoted : Option (ℕ × ℕ)) (i : ℕ) : Bool :=
  match quoted with
  | some (first, last) => !(first < i && i < last)
  | none => true

/-- the loop over the characters: does the depth exceed the limit -/
def tooDeep (quoted : Option (ℕ × ℕ)) : ℕ → ℕ → List Char → Bool
  | _, _, [] => false
  | depth, i, c :: rest =>
    if c = '(' then if MAX_PAREN_DEPTH < depth + 1 then true else tooDeep quoted (depth + 1) (i + 1) rest
    else if c = ')' ∧ closes quoted i then tooDeep quoted (depth - 1) (i + 1) rest
    else tooDeep quoted depth (i + 1) rest

mutual

/-- how many `not`, `and` and `or` there are in a pair -/
def Pair.operators : Pair → ℕ
  | .mk rule _ inner => (if rule = .not ∨ rule = .and ∨ rule = .or then 1 else 0) + operators inner

def operators : List Pair → ℕ
  | [] => 0
  | p :: ps => p.operators + operators ps

end

/-- unwraps a quoted string -/
def valueStr (pair : Pair) : String :=
  if pair.asRule = .string then
    match pair.intoInner with
    | [] => ""
    | p :: _ => p.asStr
  else pair.asStr

section Build

-- `regex::Regex::new`
variable (compile : String → Option (String → Bool))

def buildCondition : List Pair → Except QueryError LabelQuery
  | [] => .error (.query "condition missing label name")
  | [_] => .error (.query "condition missing operator")
  | [_, _] => .error (.query "condition missing value")
  | name :: op :: v :: _ =>
    let value := valueStr v
    match op.asRule with
    | .eq => .ok (.Cond name.asStr (.Eq value))
    | .ne => .ok (.Cond name.asStr (.Ne value))
    | .pre => .ok (.Cond name.asStr (.Prefix value))
    | .suf => .ok (.Cond name.asStr (.Suffix value))
    | .re =>
      match compile value with
      | some isMatch => .ok (.Cond name.asStr (.Regex isMatch))
      | none => .error (.regex value)
    | _ => .error (.query "unexpected operator")

abbrev Built := Except QueryError LabelQuery

/-- `map_prefix` -/
def buildNot (rhs : Built) : Built := rhs.map .Not

/-- `map_infix` -/
def buildInfix (f : LabelQuery → LabelQuery → LabelQuery) (lhs rhs : Built) : Built := do
  let lhs ← lhs
  let rhs ← rhs
  return f lhs rhs

/-- the precedence parser's result -/
def orPanic : Option Built → Built
  | some r => r
  | none => .error .panic

mutual

/-- a pair in the eyes of the precedence parser: `or` binds least, then `and`, then `not` -/
def Pair.role : Pair → Pratt.Role Built
  | .mk .or _ _ => .inl 10 (buildInfix .Or)
  | .mk .and _ _ => .inl 20 (buildInfix .And)
  | .mk .not _ _ => .pre 30 buildNot
  | .mk .condition _ inner => .primary (buildCondition compile inner)
  | .mk .expr _ inner => .primary (orPanic (Pratt.parse (roles inner)))
  | .mk _ _ _ => .primary (.error (.query "unexpected token"))

def roles : List Pair → List (Pratt.Role Built)
  | [] => []
  | p :: ps => p.role :: roles ps

end

def buildExpr (pairs : List Pair) : Built := orPanic (Pratt.parse (roles compile pairs))

/-- `LabelQuery::parse` -/
def parse (input : String) : Built :=
  let chars := input.toList
  if tooDeep (quoted chars) 0 0 chars then
    .error (.query "query parenthesis nesting exceeds 32 levels (parenthesis characters inside quoted text also count toward the limit)")
  else
    match query chars with
    | none => .error .grammar
    | some ([], _) => .error (.query "empty query")
    | some (query :: _, _) =>
      match query.intoInner.find? fun p => p.asRule = .expr with
      | none => .error (.query "empty query")
      | some expr =>
        if MAX_QUERY_OPERATORS < operators expr.intoInner then
          .error (.query "query contains more than 128 operators (and/or/not)")
        else buildExpr compile expr.intoInner

end Build

/-! ## Depth -/

theorem skip_le (s : List Char) : (skip s).length ≤ s.length := (List.dropWhile_suffix _).length_le

theorem skip_skip (s : List Char) : skip (skip s) = skip s := List.dropWhile_idempotent _ _

theorem front_rule {a : Parser Char Pair} (r : Rule) (ha : Front a) : Front (rule r a) := Front.node ha

theorem front_id {τ : Type} (s : List τ) : (id s).length ≤ s.length := le_rfl

theorem front_prefixOp : Front prefixOp := front_rule _ (Front.choice (Front.lit _ _) (Front.lit _ _))

theorem front_infixOp : Front infixOp :=
  Front.choice (front_rule _ (Front.choice (Front.lit _ _) (Front.lit _ _))) (front_rule _ (Front.choice (Front.lit _ _) (Front.lit _ _)))

theorem front_condition : Front condition := by
  have hop : Front op := by
    refine Front.choice ?_ (Front.choice ?_ (Front.choice ?_ (Front.choice ?_ ?_)))
    all_goals exact front_rule _ (Front.lit _ _)
  have hstring : Front string :=
    front_rule _ (Front.seq front_id (Front.seq front_id (Front.lit _ _)
      (front_rule _ (Front.star (Front.seq front_id (Front.notAt _) (Front.tok _))))) (Front.lit _ _))
  have hbare : Front bare := front_rule _ (Front.plus (Front.seq front_id (Front.notAt _) (Front.tok _)))
  exact front_rule _ (Front.seq skip_le (Front.seq skip_le (front_rule _ (Front.plus (Front.tok _))) hop) (Front.choice hstring hbare))

section Front

variable {e e' : Parser Char Pair} {n : ℕ}

theorem front_primary (he : Front e) : Front (primary e) :=
  Front.choice front_condition (Front.seq skip_le (Front.seq skip_le (Front.lit _ _) he) (Front.lit _ _))

theorem front_operand (he : Front e) : Front (operand e) := Front.seq skip_le (Front.star front_prefixOp) (front_primary he)

theorem front_operation (he : Front e) : Front (operation e) :=
  Front.seq skip_le (Front.seq skip_le front_infixOp (Front.star front_prefixOp)) (front_primary he)

theorem front_expr (n : ℕ) : Front (expr n) := by
  induction n with
  | zero => exact nofun
  | succ n ih => exact front_rule _ (Front.seq skip_le (front_operand ih) (Front.star (front_operation ih)))

theorem agree_primary (he : Front e) (h : Agree n e e') : Agree (n + 1) (primary e) (primary e') :=
  Agree.choice (Agree.refl _)
    (Agree.seq skip_le (Front.seq skip_le (Front.lit _ _) he) (Agree.seq_lit skip_le h) (Agree.refl _))

theorem agree_exprBody (he : Front e) (h : Agree n e e') : Agree (n + 1) (exprBody e) (exprBody e') := by
  have hprimary := agree_primary he h
  have hstar : Front (star skip prefixOp) := Front.star front_prefixOp
  refine Agree.seq skip_le (front_operand he) (Agree.seq skip_le hstar (Agree.refl _) hprimary) ?_
  exact Agree.star skip_le (front_operation he) (Agree.seq skip_le (Front.seq skip_le front_infixOp hstar) (Agree.refl _) hprimary)

end Front

theorem agree_expr (k : ℕ) : ∀ n m, k ≤ n → k ≤ m → Agree k (expr n) (expr m) := by
  induction k with
  | zero => exact fun n m _ _ input hlt => absurd hlt (Nat.not_lt_zero _)
  | succ k ih =>
    intro n m hn hm
    obtain ⟨n, rfl⟩ := Nat.exists_eq_succ_of_ne_zero (show n ≠ 0 by omega)
    obtain ⟨m, rfl⟩ := Nat.exists_eq_succ_of_ne_zero (show m ≠ 0 by omega)
    exact Agree.node (agree_exprBody (front_expr n) (ih n m (Nat.le_of_succ_le_succ hn) (Nat.le_of_succ_le_succ hm)))

/-- any depth beyond the length of the input reads the same -/
theorem expr_fuel {input : List Char} {n m : ℕ} (hn : input.length < n) (hm : input.length < m) : expr n input = expr m input :=
  agree_expr (input.length + 1) n m hn hm input (Nat.lt_succ_self _)

/-! ## Names -/

/-- the name begins with `not`, in any case -/
def beginsNot (name : List Char) : Bool := (insensitive "not" name).isSome

def names : LabelQuery → List String
  | .And a b => names a ++ names b
  | .Or a b => names a ++ names b
  | .Not a => names a
  | .Cond name _ => [name]

mutual

/-- no condition in the pair has a name that begins with `not` -/
def Pair.Clean : Pair → Prop
  | .mk r _ inner => (r = .condition → ∀ p ∈ inner.head?, beginsNot p.asStr.toList = false) ∧ (r = .expr → CleanAll inner)

def CleanAll : List Pair → Prop
  | [] => True
  | p :: ps => p.Clean ∧ CleanAll ps

end

theorem cleanAll_iff {ps : List Pair} : CleanAll ps ↔ ∀ p ∈ ps, p.Clean := by
  induction ps with
  | nil => exact iff_of_true trivial nofun
  | cons p ps ih => rw [CleanAll, ih, List.forall_mem_cons]

theorem clean_leaf {r : Rule} {text : List Char} {inner : List Pair} (hcondition : r ≠ .condition) (hexpr : r ≠ .expr) :
    (Pair.mk r text inner).Clean := by
  rw [Pair.Clean]
  exact ⟨fun h => absurd h hcondition, fun h => absurd h hexpr⟩

theorem clean_expr {text : List Char} {inner : List Pair} (h : ∀ p ∈ inner, p.Clean) : (Pair.mk .expr text inner).Clean := by
  rw [Pair.Clean]
  exact ⟨nofun, fun _ => cleanAll_iff.2 h⟩

def Fixed (s : List Char) : Prop := skip s = s

/-- a front part that begins with `not` makes the whole begin with it -/
theorem lit_take {same : Char → Char → Bool} {s input : List Char} {k : ℕ} (h : (lit (α := Pair) same s input).isSome = false) :
    (lit (α := Pair) same s (input.take k)).isSome = false := by
  induction s generalizing input k with
  | nil => cases h
  | cons c s ih =>
    cases k with
    | zero => rfl
    | succ k =>
      cases input with
      | nil => rfl
      | cons d input =>
        rw [List.take_succ_cons, lit]
        rw [lit] at h
        split_ifs at h ⊢
        · exact ih h
        · rfl

theorem not_of_prefixOp {input : List Char} (h : prefixOp input = none) : beginsNot input = false := by
  have hchoice : choice (insensitive "not") (exact "!") input = none := Option.map_eq_none_iff.1 h
  unfold choice at hchoice
  split at hchoice
  · cases hchoice
  · next hnone => rw [beginsNot, hnone, Option.isSome_none]

theorem clean_condition : Spec (fun s => prefixOp s = none) condition Pair.Clean fun _ => True := by
  intro input zs rest hnot h
  obtain ⟨xs, hread, hzs⟩ := node_eq_some.1 h
  obtain ⟨ys, mid, vs, hys, -, hxs⟩ := seq_eq_some.1 hread
  obtain ⟨is, mid', os, his, -, hyis⟩ := seq_eq_some.1 hys
  obtain ⟨ps, -, hpair⟩ := node_eq_some.1 his
  refine ⟨fun p hp => ?_, trivial⟩
  rw [show zs = _ from hzs, List.mem_singleton] at hp
  rw [hp, Pair.Clean]
  refine ⟨fun _ q hq => ?_, nofun⟩
  rw [show xs = ys ++ vs from hxs, show ys = is ++ os from hyis, show is = _ from hpair] at hq
  cases hq
  rw [Pair.asStr, String.toList_ofList]
  exact lit_take (not_of_prefixOp hnot)

theorem prefixOp_shrinks (s : List Char) (x : List Pair × List Char) (h : prefixOp s = some x) : x.2.length < s.length := by
  obtain ⟨xs, hchoice, -⟩ := node_eq_some.1 h
  rcases choice_eq_some hchoice with hlit | hlit
  all_goals
    obtain ⟨-, t, ht, hs⟩ := lit_eq_some hlit
    rw [hs, List.length_append, ht]
  · exact Nat.lt_add_of_pos_left (by decide)
  · exact Nat.lt_add_of_pos_left (by decide)

theorem clean_prefixes : Spec Fixed (star skip prefixOp) Pair.Clean fun rest => prefixOp (skip rest) = none := by
  have hclean : Spec (fun _ => True) prefixOp Pair.Clean fun _ => True :=
    @Spec.node _ _ _ _ _ _ (fun _ => True) _ (Spec.choice (Spec.lit _ _) (Spec.lit _ _)) fun _ _ _ => clean_leaf (by decide) (by decide)
  intro input zs rest hfixed h
  refine ⟨(Spec.star hclean (fun _ => trivial) input zs rest trivial h).1, ?_⟩
  unfold Peg.star at h
  split at h
  · next hnone =>
    cases h
    rw [hfixed]
    exact hnone
  · cases h
    exact many_stops skip_le prefixOp_shrinks _

section Clean

variable {e : Parser Char Pair} {Q : List Char → Prop}

theorem clean_primary (he : Spec Fixed e Pair.Clean fun _ => True) :
    Spec (fun s => prefixOp s = none) (primary e) Pair.Clean fun _ => True := by
  have hgroup : Spec (fun s => prefixOp s = none) (seq skip (exact "(") e) Pair.Clean fun _ => True :=
    Spec.seq (Spec.lit _ _) (fun rest _ => skip_skip rest) he
  exact Spec.choice clean_condition (Spec.seq hgroup (fun _ _ => trivial) (@Spec.lit _ _ (fun _ => True) _ _ _))

theorem clean_operand (he : Spec Fixed e Pair.Clean fun _ => True) : Spec Fixed (operand e) Pair.Clean fun _ => True :=
  Spec.seq clean_prefixes (fun _ h => h) (clean_primary he)

theorem clean_operation (he : Spec Fixed e Pair.Clean fun _ => True) : Spec Q (operation e) Pair.Clean fun _ => True := by
  have hjoin : Spec Q infixOp Pair.Clean fun _ => True := by
    refine Spec.choice ?_ ?_
    all_goals
      exact @Spec.node _ _ _ _ _ _ (fun _ => True) _ (Spec.choice (Spec.lit _ _) (Spec.lit _ _))
        fun _ _ _ => clean_leaf (by decide) (by decide)
  exact Spec.seq (Spec.seq hjoin (fun rest _ => skip_skip rest) clean_prefixes) (fun _ h => h) (clean_primary he)

theorem clean_rule_expr (n : ℕ) : Spec Fixed (expr n) Pair.Clean fun _ => True := by
  induction n with
  | zero => exact nofun
  | succ n ih =>
    have hbody : Spec Fixed (exprBody (expr n)) Pair.Clean fun _ => True :=
      Spec.seq (clean_operand ih) (fun _ _ => trivial) (Spec.star (@clean_operation _ (fun _ => True) ih) fun _ => trivial)
    exact Spec.node hbody fun _ _ h => clean_expr h

end Clean

variable {compile : String → Option (String → Bool)}

/-- no label name begins with `not` -/
def Named (b : Built) : Prop := ∀ q, b = .ok q → ∀ n ∈ names q, beginsNot n.toList = false

theorem named_error (e : QueryError) : Named (.error e) := nofun

theorem named_condition {inner : List Pair} (h : ∀ p ∈ inner.head?, beginsNot p.asStr.toList = false) :
    Named (buildCondition compile inner) := by
  match inner with
  | [] => exact named_error _
  | [_] => exact named_error _
  | [_, _] => exact named_error _
  | name :: op :: v :: rest =>
    have hname : ∀ m, Named (.ok (.Cond name.asStr m)) := by
      intro m q hq n hn
      cases hq
      rw [names, List.mem_singleton] at hn
      rw [hn]
      exact h name rfl
    simp only [buildCondition]
    split
    · exact hname _
    · exact hname _
    · exact hname _
    · exact hname _
    · split
      · exact hname _
      · exact named_error _
    · exact named_error _

theorem named_not {b : Built} (h : Named b) : Named (buildNot b) := by
  intro q hq
  cases b with
  | error e => cases hq
  | ok q' =>
    cases hq
    exact h q' rfl

theorem named_infix {f : LabelQuery → LabelQuery → LabelQuery} (hf : ∀ a b, names (f a b) = names a ++ names b) {b c : Built}
    (hb : Named b) (hc : Named c) : Named (buildInfix f b c) := by
  intro q hq n hn
  cases b with
  | error e => cases hq
  | ok q' =>
    cases c with
    | error e => cases hq
    | ok q'' =>
      cases hq
      rw [hf, List.mem_append] at hn
      rcases hn with hn | hn
      · exact hb _ rfl n hn
      · exact hc _ rfl n hn

theorem named_orPanic {r : Option Built} (h : ∀ b, r = some b → Named b) : Named (orPanic r) := by
  cases r with
  | none => exact named_error _
  | some b => exact h b rfl

mutual

theorem role_keeps : ∀ p : Pair, p.Clean → (p.role compile).Keeps Named
  | .mk .or _ _, _ => fun _ _ hb hc => named_infix (fun _ _ => rfl) hb hc
  | .mk .and _ _, _ => fun _ _ hb hc => named_infix (fun _ _ => rfl) hb hc
  | .mk .not _ _, _ => fun _ hb => named_not hb
  | .mk .condition _ inner, h => by
    rw [Pair.Clean] at h
    exact named_condition (h.1 rfl)
  | .mk .expr _ inner, h => by
    rw [Pair.Clean] at h
    exact named_orPanic fun b hb => Pratt.parse_forall (roles_keep inner (h.2 rfl)) hb
  | .mk .query _ _, _ | .mk .eq _ _, _ | .mk .ne _ _, _ | .mk .re _ _, _ | .mk .pre _ _, _ | .mk .suf _ _, _ | .mk .ident _ _, _
  | .mk .string _ _, _ | .mk .inner _ _, _ | .mk .bare _ _, _ | .mk .EOI _ _, _ => named_error _

theorem roles_keep : ∀ ps : List Pair, CleanAll ps → ∀ t ∈ roles compile ps, t.Keeps Named
  | [], _ => nofun
  | p :: ps, h => by
    rw [CleanAll] at h
    rw [roles, List.forall_mem_cons]
    exact ⟨role_keeps p h.1, roles_keep ps h.2⟩

end

theorem query_eq_some {input : List Char} {x : List Pair × List Char} (h : query input = some x) :
    ∃ ps text mid eoi, expr (input.length + 1) (skip input) = some (ps, mid) ∧ EOI (skip mid) = some (eoi, x.2) ∧
      x.1 = [.mk .query text (ps ++ eoi)] := by
  obtain ⟨xs, hbody, hx⟩ := node_eq_some.1 h
  obtain ⟨ys, mid, eoi, hys, heoi, hxs⟩ := seq_eq_some.1 hbody
  obtain ⟨ss, start, ps, hss, hps, hyps⟩ := seq_eq_some.1 hys
  cases hss
  rw [show xs = ys ++ eoi from hxs, show ys = [] ++ ps from hyps, List.nil_append] at hx
  exact ⟨ps, _, mid, eoi, hps, heoi, hx⟩

/-- the one pair of an `expr` -/
theorem expr_eq_some {n : ℕ} {input : List Char} {x : List Pair × List Char} (h : expr n input = some x) :
    ∃ text inner, x.1 = [.mk .expr text inner] := by
  cases n with
  | zero => cases h
  | succ n =>
    obtain ⟨xs, -, hx⟩ := node_eq_some.1 h
    exact ⟨_, xs, hx⟩

/-- what a query that parses was built from -/
theorem parse_eq_ok {s : String} {q : LabelQuery} (h : parse compile s = .ok q) :
    tooDeep (quoted s.toList) 0 0 s.toList = false ∧ ∃ text inner mid,
      expr (s.toList.length + 1) (skip s.toList) = some ([.mk .expr text inner], mid) ∧
      operators inner ≤ MAX_QUERY_OPERATORS ∧ buildExpr compile inner = .ok q := by
  unfold parse at h
  simp only at h
  split at h
  · cases h
  next hdepth =>
    refine ⟨Bool.eq_false_iff.2 hdepth, ?_⟩
    split at h
    · cases h
    · cases h
    next p ps rest hquery =>
      obtain ⟨es, text, mid, eoi, hexpr, -, hpair⟩ := query_eq_some hquery
      obtain ⟨etext, inner, hes⟩ := expr_eq_some hexpr
      cases hpair
      rw [show es = _ from hes] at h hexpr
      have hbuilt : (if MAX_QUERY_OPERATORS < operators inner then Except.error _ else buildExpr compile inner) = Except.ok q := h
      by_cases hops : MAX_QUERY_OPERATORS < operators inner
      · rw [if_pos hops] at hbuilt
        cases hbuilt
      · rw [if_neg hops] at hbuilt
        exact ⟨etext, inner, mid, hexpr, Nat.le_of_not_lt hops, hbuilt⟩

/-- **No parsed query has a label name that begins with `not`**: the grammar takes the three letters for the operator. -/
theorem parse_names {s : String} {q : LabelQuery} (h : parse compile s = .ok q) : ∀ n ∈ names q, beginsNot n.toList = false := by
  obtain ⟨-, text, inner, mid, hexpr, -, hbuild⟩ := parse_eq_ok h
  have hclean := (clean_rule_expr _ _ _ _ (skip_skip _) hexpr).1 _ List.mem_cons_self
  rw [Pair.Clean] at hclean
  exact named_orPanic (fun b hb => Pratt.parse_forall (roles_keep inner (hclean.2 rfl)) hb) q hbuild

end Y2q.Query
