/-
What the checks in front of the query parser bound (`query/mod.rs`).

The scan reads characters and knows no grammar: a `)` between the first and the last `"` does not lower its depth, and the depth stops
at zero. `queryG` is the grammar with its groups counted, also in attempts that fail.

- `level_string`: a string that the grammar reads lies between the first and the last `"`, so none of its parentheses lowers the depth.
- `within_expr`: at every position, the depth of the scan bounds the groups that are open there.
- `guard_bounds`: an input that the scan lets through opens at most 32 groups at a time, and a query that parses has at most 128
  operators and is at most 129 deep.
-/
import Y2q.Core.PegDepth
import Y2q.Query.Grammar

namespace Y2q.Query

open Peg
open MetadataIndex (LabelQuery)

/-! ## The scan -/

/-- the depth behind a character -/
def scanChar (quoted : Option (ℕ × ℕ)) (depth i : ℕ) (c : Char) : ℕ :=
  if c = '(' then depth + 1 else if c = ')' ∧ closes quoted i then depth - 1 else depth

/-- the depth behind a text that begins at `i` -/
def scanned (quoted : Option (ℕ × ℕ)) : ℕ → ℕ → List Char → ℕ
  | depth, _, [] => depth
  | depth, i, c :: rest => scanned quoted (scanChar quoted depth i c) (i + 1) rest

section Scan

variable {quoted : Option (ℕ × ℕ)} {depth i : ℕ}

theorem scanned_append (p s : List Char) :
    scanned quoted depth i (p ++ s) = scanned quoted (scanned quoted depth i p) (i + p.length) s := by
  induction p generalizing depth i with
  | nil => rfl
  | cons c p ih =>
    rw [List.cons_append, scanned, scanned, ih, List.length_cons]
    congr 1
    omega

/-- a text lowers the depth only with a `)` that closes -/
theorem scanned_le {t : List Char} (h : ∀ k, t[k]? = some ')' → closes quoted (i + k) = false) : depth ≤ scanned quoted depth i t := by
  induction t generalizing depth i with
  | nil => exact le_rfl
  | cons c t ih =>
    have hchar : depth ≤ scanChar quoted depth i c := by
      unfold scanChar
      split_ifs with hopen hclose
      · exact Nat.le_succ _
      · have hstays : closes quoted i = false := h 0 (congrArg some hclose.1)
        rw [hstays] at hclose
        exact absurd hclose.2 nofun
      · exact le_rfl
    refine hchar.trans (ih fun k hk => ?_)
    rw [Nat.add_assoc, Nat.add_comm 1]
    exact h (k + 1) hk

/-- the scan has seen every front part -/
theorem scanned_of_tooDeep {l : List Char} (h : tooDeep quoted depth i l = false) (hdepth : depth ≤ MAX_PAREN_DEPTH) :
    ∀ p s, p ++ s = l → scanned quoted depth i p ≤ MAX_PAREN_DEPTH := by
  induction l generalizing depth i with
  | nil =>
    intro p s hl
    rw [(List.append_eq_nil_iff.1 hl).1]
    exact hdepth
  | cons c l ih =>
    intro p s hl
    cases p with
    | nil => exact hdepth
    | cons d p =>
      obtain ⟨rfl, hrest⟩ := List.cons.inj hl
      rw [scanned]
      simp only [tooDeep] at h
      unfold scanChar
      split_ifs at h ⊢ with hopen hlimit hclose
      · exact ih h (Nat.le_of_not_lt hlimit) p s hrest
      · exact ih h ((Nat.sub_le _ _).trans hdepth) p s hrest
      · exact ih h hdepth p s hrest

end Scan

/-! ## The grammar with its groups -/

section Recursive

variable (expr : Gauged Char Pair)

def primaryG : Gauged Char Pair := choiceG (flat condition) (groupG skip (exact "(") expr (exact ")"))

def operandG : Gauged Char Pair := seqG skip (flat (star skip prefixOp)) (primaryG expr)

def operationG : Gauged Char Pair := seqG skip (flat (seq skip infixOp (star skip prefixOp))) (primaryG expr)

def exprBodyG : Gauged Char Pair := seqG skip (operandG expr) (starG skip (operationG expr))

end Recursive

def exprG : ℕ → Gauged Char Pair
  | 0 => flat fun _ => none
  | n + 1 => nodeG (Pair.mk .expr) (exprBodyG (exprG n))

/-- `query`, at most `n` groups deep -/
def queryG (n : ℕ) : Gauged Char Pair := nodeG (Pair.mk .query) (seqG skip (seqG skip (flat SOI) (exprG n)) (flat EOI))

theorem exprG_read (n : ℕ) : (exprG n).read = expr n := by
  induction n with
  | zero => rfl
  | succ n ih =>
    show rule .expr (exprBody (exprG n).read) = rule .expr (exprBody (expr n))
    rw [ih]

/-- counting the groups changes nothing that is read -/
theorem queryG_read (input : List Char) : (queryG (input.length + 1)).read input = query input := by
  show rule .query (seq skip (seq skip SOI (exprG (input.length + 1)).read) EOI) input = query input
  rw [exprG_read]
  rfl

/-! ## Levels -/

/-- the depth of the scan of `input` behind its front part `p` -/
def level (input p : List Char) : ℕ := scanned (quoted input) 0 0 p

variable {input : List Char}

theorem exact_eq_some {s : String} {c : Char} (hs : s.toList = [c]) {t : List Char} {x : List Pair × List Char} (h : exact s t = some x) :
    t = c :: x.2 := by
  rw [Query.exact, hs] at h
  cases t with
  | nil => cases h
  | cons d t =>
    simp only [lit, decide_eq_true_eq] at h
    split_ifs at h with hcd
    cases h
    rw [hcd]

theorem findIdx_le {P : Char → Bool} {c : Char} (hc : P c = true) (l r : List Char) :
    ∃ i, (l ++ c :: r).findIdx? P = some i ∧ i ≤ l.length := by
  rw [List.findIdx?_append, List.findIdx?_cons, if_pos hc]
  cases h : l.findIdx? P with
  | none => exact ⟨_, rfl, (Nat.zero_add _).le⟩
  | some i => exact ⟨i, rfl, (List.findIdx?_eq_some_iff_findIdx_eq.1 h).1.le⟩

/-- between two quotes, nothing closes -/
theorem closes_between {p mid rest : List Char} {k : ℕ} (hk : k < mid.length) :
    closes (quoted (p ++ QUOTE :: (mid ++ QUOTE :: rest))) (p.length + 1 + k) = false := by
  have hquote : decide (QUOTE = QUOTE) = true := decide_eq_true rfl
  obtain ⟨first, hfirst, hle⟩ := findIdx_le (P := (· = QUOTE)) hquote p (mid ++ QUOTE :: rest)
  obtain ⟨fromEnd, hend, hle'⟩ := findIdx_le (P := (· = QUOTE)) hquote rest.reverse (mid.reverse ++ QUOTE :: p.reverse)
  have hreverse : (p ++ QUOTE :: (mid ++ QUOTE :: rest)).reverse = rest.reverse ++ QUOTE :: (mid.reverse ++ QUOTE :: p.reverse) := by
    simp only [List.reverse_append, List.reverse_cons, List.append_assoc, List.cons_append, List.nil_append]
  rw [← hreverse] at hend
  rw [List.length_reverse] at hle'
  unfold quoted
  rw [hfirst, hend]
  simp only [closes, List.length_append, List.length_cons, Bool.not_eq_false', Bool.and_eq_true, decide_eq_true_eq]
  omega

theorem level_append {p t : List Char} (h : ∀ k, t[k]? = some ')' → closes (quoted input) (p.length + k) = false) :
    level input p ≤ level input (p ++ t) := by
  rw [level, level, scanned_append, Nat.zero_add]
  exact scanned_le h

theorem level_open (p : List Char) : level input (p ++ ['(']) = level input p + 1 := by
  rw [level, scanned_append]
  rfl

theorem level_close (p : List Char) : level input p ≤ level input (p ++ [')']) + 1 := by
  rw [level, level, scanned_append]
  simp only [scanned, scanChar]
  split_ifs <;> omega

/-- characters that close nothing -/
theorem level_calm (p t : List Char) (h : ∀ c ∈ t, c ≠ ')') : level input p ≤ level input (p ++ t) :=
  level_append fun _ hk => absurd rfl (h _ (List.mem_of_getElem? hk))

theorem skip_reads (s : List Char) : ∃ t, s = t ++ skip s ∧ ∀ c ∈ t, c ≠ ')' := by
  refine ⟨s.takeWhile WHITESPACE, List.takeWhile_append_dropWhile.symm, fun c hc heq => ?_⟩
  have hwhite := List.mem_takeWhile_imp hc
  rw [heq] at hwhite
  exact absurd hwhite (by decide)

theorem id_reads {P : Char → Prop} (s : List Char) : ∃ t, s = t ++ id s ∧ ∀ c ∈ t, P c := ⟨[], rfl, nofun⟩

theorem skip_keeps : KeepsSkip input (level input) skip := by
  intro p s _
  obtain ⟨t, hs, ht⟩ := skip_reads s
  exact ⟨t, hs, level_calm p t ht⟩

/-- **A string keeps the level**: it lies between the first and the last quote of the input. -/
theorem level_string : Keeps input (level input) string := by
  refine Keeps.node fun p s hwhole x hx => ?_
  obtain ⟨xs, mid, ys, hxs, hys, -⟩ := seq_eq_some.1 hx
  obtain ⟨os, start, is, hos, his, -⟩ := seq_eq_some.1 hxs
  have hopen : s = QUOTE :: start := exact_eq_some (x := (os, start)) rfl hos
  have hclose : mid = QUOTE :: x.2 := exact_eq_some (x := (ys, x.2)) rfl hys
  have hinner : Reads (· ≠ QUOTE) inner := by
    refine Reads.node (Reads.star id_reads (Reads.notAt_tok fun input c rest hinput hnone _ heq => ?_))
    rw [hinput, heq] at hnone
    cases hnone
  obtain ⟨t, ht, -⟩ := hinner start (is, mid) his
  have hs : s = QUOTE :: (t ++ QUOTE :: x.2) := by rw [hopen, ← hclose, ht]
  refine ⟨QUOTE :: (t ++ [QUOTE]), by rw [hs, List.cons_append, List.append_assoc, List.singleton_append], level_append fun k hk => ?_⟩
  rw [← hwhole, hs]
  -- a parenthesis is neither of the two quotes
  cases k with
  | zero => cases hk
  | succ k =>
    rw [List.getElem?_cons_succ] at hk
    rcases Nat.lt_or_ge k t.length with hlt | hge
    · rw [Nat.add_comm k, ← Nat.add_assoc]
      exact closes_between hlt
    · rw [List.getElem?_append_right hge] at hk
      have hquote := List.mem_of_getElem? hk
      cases List.mem_singleton.1 hquote

theorem exact_reads {s : String} (h : s.toList.contains ')' = false) : Reads (· ≠ ')') (exact s) := by
  refine Reads.lit fun c hc d hcd heq => ?_
  rw [of_decide_eq_true hcd, heq] at hc
  rw [List.contains_iff_mem.2 hc] at h
  cases h

theorem insensitive_reads {s : String} (h : (s.toList.map Char.toLower).contains ')' = false) : Reads (· ≠ ')') (insensitive s) := by
  refine Reads.lit fun c hc d hcd heq => ?_
  have hlower : c.toLower = ')' := by
    rw [of_decide_eq_true hcd, heq]
    rfl
  rw [List.contains_iff_mem.2 (List.mem_map.2 ⟨c, hc, hlower⟩)] at h
  cases h

theorem prefixOp_reads : Reads (· ≠ ')') prefixOp := Reads.node (Reads.choice (insensitive_reads rfl) (exact_reads rfl))

theorem infixOp_reads : Reads (· ≠ ')') infixOp :=
  Reads.choice (Reads.node (Reads.choice (insensitive_reads rfl) (exact_reads rfl)))
    (Reads.node (Reads.choice (insensitive_reads rfl) (exact_reads rfl)))

theorem op_reads : Reads (· ≠ ')') op := by
  refine Reads.choice ?_ (Reads.choice ?_ (Reads.choice ?_ (Reads.choice ?_ ?_)))
  all_goals exact Reads.node (exact_reads rfl)

theorem ident_reads : Reads (· ≠ ')') ident := by
  refine Reads.node (Reads.plus id_reads (Reads.tok fun c hc heq => ?_))
  rw [heq] at hc
  exact absurd hc (by decide)

/-- a bare value may hold a quote or a `(`, and ends in front of a `)` -/
theorem bare_reads : Reads (· ≠ ')') bare := by
  refine Reads.node (Reads.plus id_reads (Reads.notAt_tok fun input c rest hinput hnone _ heq => ?_))
  rw [hinput, heq] at hnone
  cases hnone

theorem condition_keeps : Keeps input (level input) condition := by
  have hname : Reads (· ≠ ')') (seq skip ident op) := Reads.seq skip_reads ident_reads op_reads
  have hvalue : Keeps input (level input) value := Keeps.choice level_string (bare_reads.keeps level_calm)
  exact Keeps.node (Keeps.seq skip_keeps (hname.keeps level_calm) hvalue)

/-! ## Groups -/

section Within

variable {bound : ℕ} {e : Gauged Char Pair}

theorem within_calm (hlevel : ∀ p s, p ++ s = input → level input p ≤ bound) {a : Parser Char Pair} (ha : Reads (· ≠ ')') a) :
    Within input (level input) bound (flat a) := Within.flat (ha.keeps level_calm) hlevel

theorem within_primary (hlevel : ∀ p s, p ++ s = input → level input p ≤ bound) (he : Within input (level input) bound e) :
    Within input (level input) bound (primaryG e) := by
  refine Within.choice (Within.flat condition_keeps hlevel) (Within.group skip_keeps (fun s x hx => ?_) (fun s x hx => ?_) hlevel he)
  · exact ⟨['('], exact_eq_some rfl hx, level_open⟩
  · exact ⟨[')'], exact_eq_some rfl hx, level_close⟩

/-- **The depth of the scan bounds the groups that are open**, at every position and in every attempt. -/
theorem within_expr (hlevel : ∀ p s, p ++ s = input → level input p ≤ bound) (n : ℕ) : Within input (level input) bound (exprG n) := by
  induction n with
  | zero => exact within_calm hlevel fun _ _ h => nomatch h
  | succ n ih =>
    have hprefixes : Reads (· ≠ ')') (star skip prefixOp) := Reads.star skip_reads prefixOp_reads
    have hoperand : Within input (level input) bound (operandG (exprG n)) :=
      Within.seq skip_keeps (within_calm hlevel hprefixes) (within_primary hlevel ih)
    have hoperation : Within input (level input) bound (operationG (exprG n)) :=
      Within.seq skip_keeps (within_calm hlevel (Reads.seq skip_reads infixOp_reads hprefixes)) (within_primary hlevel ih)
    exact Within.node (Within.seq skip_keeps hoperand (Within.star skip_keeps hoperation))

theorem within_query (hlevel : ∀ p s, p ++ s = input → level input p ≤ bound) (n : ℕ) : Within input (level input) bound (queryG n) := by
  have hSOI : Reads (· ≠ ')') SOI := by
    intro s x hx
    cases hx
    exact Reads.nothing s
  have hEOI : Reads (· ≠ ')') EOI := by
    intro s x hx
    unfold EOI at hx
    split_ifs at hx with hend
    cases hx
    exact ⟨[], hend, nofun⟩
  exact Within.node (Within.seq skip_keeps (Within.seq skip_keeps (within_calm hlevel hSOI) (within_expr hlevel n))
    (within_calm hlevel hEOI))

end Within

theorem groups_le (h : tooDeep (quoted input) 0 0 input = false) (n : ℕ) : (queryG n).groups input ≤ MAX_PAREN_DEPTH := by
  have hwithin := within_query (scanned_of_tooDeep h (Nat.zero_le _)) n
  have hgroups := hwithin.groups_le [] input rfl
  omega

/-! ## Operators -/

/-- the operators of a query -/
def operatorCount : LabelQuery → ℕ
  | .And a b | .Or a b => operatorCount a + operatorCount b + 1
  | .Not inner => operatorCount inner + 1
  | .Cond _ _ => 0

/-- the nodes on the longest way from the root -/
def treeDepth : LabelQuery → ℕ
  | .And a b | .Or a b => max (treeDepth a) (treeDepth b) + 1
  | .Not inner => treeDepth inner + 1
  | .Cond _ _ => 1

theorem treeDepth_le (q : LabelQuery) : treeDepth q ≤ operatorCount q + 1 := by
  induction q with
  | And a b iha ihb | Or a b iha ihb =>
    rw [treeDepth, operatorCount]
    omega
  | Not inner ih =>
    rw [treeDepth, operatorCount]
    omega
  | Cond name op => exact le_rfl

variable {compile : String → Option (String → Bool)}

/-- an error has no operators -/
def builtCount : Built → ℕ
  | .ok q => operatorCount q
  | .error _ => 0

theorem count_condition (inner : List Pair) : builtCount (buildCondition compile inner) = 0 := by
  match inner with
  | [] | [_] | [_, _] => rfl
  | name :: op :: v :: rest =>
    simp only [buildCondition]
    split
    · rfl
    · rfl
    · rfl
    · rfl
    · split <;> rfl
    · rfl

theorem count_not (b : Built) : builtCount (buildNot b) ≤ builtCount b + 1 := by
  cases b with
  | error e => exact Nat.zero_le _
  | ok q => exact le_rfl

theorem count_infix {f : LabelQuery → LabelQuery → LabelQuery} (hf : ∀ a b, operatorCount (f a b) = operatorCount a + operatorCount b + 1)
    (b c : Built) : builtCount (buildInfix f b c) ≤ builtCount b + builtCount c + 1 := by
  cases b with
  | error e => exact Nat.zero_le _
  | ok q =>
    cases c with
    | error e => exact Nat.zero_le _
    | ok q' => exact (hf q q').le

theorem role_light : ∀ p : Pair, (p.role compile).Light builtCount
  | .mk .or _ _ => count_infix fun _ _ => rfl
  | .mk .and _ _ => count_infix fun _ _ => rfl
  | .mk .not _ _ => count_not
  | .mk .condition _ _ | .mk .expr _ _ | .mk .query _ _ | .mk .eq _ _ | .mk .ne _ _ | .mk .re _ _ | .mk .pre _ _ | .mk .suf _ _
  | .mk .ident _ _ | .mk .string _ _ | .mk .inner _ _ | .mk .bare _ _ | .mk .EOI _ _ => trivial

theorem roles_light (ps : List Pair) : ∀ t ∈ roles compile ps, t.Light builtCount := by
  induction ps with
  | nil =>
    intro t ht
    cases ht
  | cons p ps ih => exact List.forall_mem_cons.2 ⟨role_light p, ih⟩

/-- what the precedence parser builds has no more operators than the tokens -/
theorem count_parsed (ps : List Pair) :
    builtCount (orPanic (Pratt.parse (roles compile ps))) ≤ Pratt.load builtCount (roles compile ps) := by
  cases h : Pratt.parse (roles compile ps) with
  | none => exact Nat.zero_le _
  | some b => exact Pratt.parse_weight (roles_light ps) h

mutual

theorem role_load : ∀ p : Pair, Pratt.load builtCount [p.role compile] ≤ p.operators
  | .mk .or _ _ | .mk .and _ _ | .mk .not _ _ => Nat.le_add_right _ _
  | .mk .condition _ inner => by
    simp only [Pair.role, Pratt.load, count_condition]
    exact Nat.zero_le _
  | .mk .expr _ inner => by
    simp only [Pair.role, Pratt.load, Pair.operators]
    have hinner := (count_parsed inner).trans (roles_load inner)
    omega
  | .mk .query _ _ | .mk .eq _ _ | .mk .ne _ _ | .mk .re _ _ | .mk .pre _ _ | .mk .suf _ _ | .mk .ident _ _
  | .mk .string _ _ | .mk .inner _ _ | .mk .bare _ _ | .mk .EOI _ _ => Nat.zero_le _

theorem roles_load : ∀ ps : List Pair, Pratt.load builtCount (roles compile ps) ≤ operators ps
  | [] => le_rfl
  | p :: ps => by
    rw [roles, operators, Pratt.load_cons]
    exact Nat.add_le_add (role_load p) (roles_load ps)

end

/-- the operators of a query that parses -/
theorem operatorCount_le {s : String} {q : LabelQuery} (h : parse compile s = .ok q) : operatorCount q ≤ MAX_QUERY_OPERATORS := by
  obtain ⟨-, text, inner, mid, -, hops, hbuild⟩ := parse_eq_ok h
  have hcount := (@count_parsed compile inner).trans (roles_load inner)
  rw [show orPanic (Pratt.parse (roles compile inner)) = _ from hbuild] at hcount
  exact hcount.trans hops

/-- **The guard never under-counts**: where the scan lets an input through, no attempt to read it has more than 32 groups open at a time,
however deep `expr` may call itself, and a query that parses has at most 128 operators and is at most 129 deep. -/
theorem guard_bounds (s : String) :
    (tooDeep (quoted s.toList) 0 0 s.toList = false → (queryG (s.toList.length + 1)).read s.toList = query s.toList ∧
      ∀ n, (queryG n).groups s.toList ≤ MAX_PAREN_DEPTH) ∧
    ∀ q, parse compile s = .ok q → operatorCount q ≤ MAX_QUERY_OPERATORS ∧ treeDepth q ≤ MAX_QUERY_OPERATORS + 1 := by
  refine ⟨fun h => ⟨queryG_read _, groups_le h⟩, fun q hq => ?_⟩
  have hcount := operatorCount_le hq
  exact ⟨hcount, (treeDepth_le q).trans (Nat.add_le_add_right hcount 1)⟩

/-- parentheses in strings and in a bare value -/
def mixedQuery : String := "not (a == \"))\" or (b ^= ((\"))"

theorem guard_bounds_mixed : (∀ n, (queryG n).groups mixedQuery.toList ≤ 32) ∧
    ∃ q, parse (fun _ => none) mixedQuery = .ok q ∧ operatorCount q ≤ 128 ∧ treeDepth q ≤ 129 := by
  have hparses : tooDeep (quoted mixedQuery.toList) 0 0 mixedQuery.toList = false ∧
      (parse (fun _ => none) mixedQuery).isOk = true := by decide +kernel
  obtain ⟨hgroups, hbounds⟩ := @guard_bounds (fun _ => none) mixedQuery
  refine ⟨(hgroups hparses.1).2, ?_⟩
  cases hq : parse (fun _ => none) mixedQuery with
  | error e =>
    rw [hq] at hparses
    cases hparses.2
  | ok q => exact ⟨q, rfl, hbounds q hq⟩

end Y2q.Query
