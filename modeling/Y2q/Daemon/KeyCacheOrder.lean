/-
The session key cache over whole runs (`auth/session.rs`).

The map and the queue of a `BucketKeyCache` are updated apart. A log beside the cache says what was inserted and what was gone after an
insertion, newest first; it is read off the two states of each step, not off what the code decides.

- `insert_cases`: the three things that an insertion may do.
- `lastKey`, `since`, `Older`: what the log says of an id.
- `Faithful`: the invariant. The queue holds the ids of the map once each, in the order of their first insertions.
- `runs_faithful`: every run keeps it; `cache_exact`: what it says of the answers and of the evictions.
-/
import Y2q.Daemon.KeyCache

namespace Y2q.BucketKeys

namespace BucketKeyCache

/-! ## Insertions -/

variable {c : BucketKeyCache} {id other : String × UInt32} {key : Bytes}

theorem setEntry_self (entries : String → UInt32 → Option Bytes) (id : String × UInt32) (key : Option Bytes) :
    setEntry entries id key id.1 id.2 = key := if_pos rfl

theorem setEntry_other (entries : String → UInt32 → Option Bytes) (key : Option Bytes) (h : other ≠ id) :
    setEntry entries id key other.1 other.2 = entries other.1 other.2 := if_neg h

/-- the id is held already, there is room for it, or the oldest goes -/
theorem insert_cases (c : BucketKeyCache) (id : String × UInt32) (key : Bytes) :
    ((c.get id.1 id.2).isSome ∧ c.insert id.1 id.2 key = ⟨setEntry c.entries id (some key), c.order⟩) ∨
    (c.get id.1 id.2 = none ∧ c.order.length < MAX_SESSION_BUCKET_KEYS ∧
      c.insert id.1 id.2 key = ⟨setEntry c.entries id (some key), c.order ++ [id]⟩) ∨
    ∃ oldest rest, c.get id.1 id.2 = none ∧ c.order = oldest :: rest ∧ MAX_SESSION_BUCKET_KEYS ≤ c.order.length ∧
      c.insert id.1 id.2 key = ⟨setEntry (setEntry c.entries oldest none) id (some key), rest ++ [id]⟩ := by
  unfold get insert
  cases hheld : c.entries id.1 id.2 with
  | some k => exact Or.inl ⟨rfl, rfl⟩
  | none =>
    right
    cases horder : c.order with
    | nil =>
      refine Or.inl ⟨rfl, Nat.zero_lt_succ _, ?_⟩
      simp only [Option.isNone_none, if_true, makeRoom, horder]
      rfl
    | cons oldest rest =>
      have hlength : (rest ++ [id]).length = (oldest :: rest).length := by rw [List.length_append, List.length_singleton, List.length_cons]
      simp only [Option.isNone_none, if_true, makeRoom, horder, List.cons_append, hlength]
      rcases Nat.lt_or_ge (oldest :: rest).length MAX_SESSION_BUCKET_KEYS with hlt | hge
      · rw [if_neg (Nat.not_le.2 hlt)]
        exact Or.inl ⟨trivial, hlt, rfl⟩
      · rw [if_pos hge]
        exact Or.inr ⟨oldest, rest, trivial, rfl, hge, rfl⟩

/-! ## The log -/

inductive Logged where
  | inserted (id : String × UInt32) (key : Bytes)
  | evicted (id : String × UInt32)

/-- the ids held before and not afterwards -/
def gone (c c' : BucketKeyCache) : List (String × UInt32) := c.order.filter fun id => (c'.get id.1 id.2).isNone

inductive Op where
  | insert (bucket : String) (epoch : UInt32) (key : Bytes)
  | get (bucket : String) (epoch : UInt32)

def apply (c : BucketKeyCache) : Op → BucketKeyCache
  | .insert bucket epoch key => c.insert bucket epoch key
  | .get _ _ => c

/-- a cache and its log -/
def step (s : BucketKeyCache × List Logged) (op : Op) : BucketKeyCache × List Logged :=
  match op with
  | .insert bucket epoch key =>
    (s.1.apply op, .inserted (bucket, epoch) key :: ((gone s.1 (s.1.apply op)).map .evicted ++ s.2))
  | .get _ _ => (s.1.apply op, s.2)

def run (ops : List Op) : BucketKeyCache × List Logged := ops.foldl step (empty, [])

/-- the last key inserted under `id` since it was last evicted -/
def lastKey (id : String × UInt32) : List Logged → Option Bytes
  | [] => none
  | .inserted id' key :: log => if id' = id then some key else lastKey id log
  | .evicted id' :: log => if id' = id then none else lastKey id log

/-- when `id` was inserted first since it was last evicted -/
def since (id : String × UInt32) : List Logged → Option ℕ
  | [] => none
  | .inserted id' _ :: log => if id' = id then (since id log).or (some log.length) else since id log
  | .evicted id' :: log => if id' = id then none else since id log

/-- `id` was inserted first before `other` was -/
def Older (log : List Logged) (id other : String × UInt32) : Prop :=
  ∃ t t', since id log = some t ∧ since other log = some t' ∧ t < t'

theorem since_isSome (id : String × UInt32) (log : List Logged) : (since id log).isSome = (lastKey id log).isSome := by
  induction log with
  | nil => rfl
  | cons l log ih =>
    cases l with
    | inserted id' key =>
      rw [since, lastKey]
      split_ifs
      · rw [Option.isSome_or, Option.isSome_some, Option.isSome_some, Bool.or_true]
      · exact ih
    | evicted id' =>
      rw [since, lastKey]
      split_ifs
      · rfl
      · exact ih

theorem since_lt {log : List Logged} {t : ℕ} (h : since id log = some t) : t < log.length := by
  induction log generalizing t with
  | nil => cases h
  | cons l log ih =>
    rw [List.length_cons]
    cases l with
    | inserted id' key =>
      rw [since] at h
      split_ifs at h
      · rcases Option.or_eq_some_iff.1 h with h | ⟨-, h⟩
        · exact Nat.lt_succ_of_lt (ih h)
        · cases h
          exact Nat.lt_succ_self _
      · exact Nat.lt_succ_of_lt (ih h)
    | evicted id' =>
      rw [since] at h
      split_ifs at h
      exact Nat.lt_succ_of_lt (ih h)

/-! ## The invariant -/

structure Faithful (c : BucketKeyCache) (log : List Logged) : Prop where
  nodup : c.order.Nodup
  bounded : c.order.length ≤ MAX_SESSION_BUCKET_KEYS
  entries : ∀ id : String × UInt32, c.entries id.1 id.2 = lastKey id log
  held : ∀ id, id ∈ c.order ↔ (lastKey id log).isSome
  sorted : c.order.Pairwise (Older log)

namespace Faithful

variable {log : List Logged}

theorem mem_iff (h : Faithful c log) : id ∈ c.order ↔ (c.get id.1 id.2).isSome := by
  rw [get, h.entries id]
  exact h.held id

theorem not_mem (h : Faithful c log) (hget : c.get id.1 id.2 = none) : id ∉ c.order := by
  rw [h.mem_iff, hget]
  exact Bool.false_ne_true

theorem empty : Faithful empty [] where
  nodup := List.nodup_nil
  bounded := Nat.zero_le _
  entries _ := rfl
  held _ := ⟨fun h => absurd h List.not_mem_nil, fun h => absurd h Bool.false_ne_true⟩
  sorted := List.Pairwise.nil

/-- the key of an id that is held is replaced -/
theorem again (h : Faithful c log) (hheld : (c.get id.1 id.2).isSome) :
    Faithful ⟨setEntry c.entries id (some key), c.order⟩ (.inserted id key :: log) := by
  have hsince (other : String × UInt32) : since other (.inserted id key :: log) = since other log := by
    rw [since]
    split_ifs with heq
    · subst heq
      refine Option.or_of_isSome ?_
      rw [since_isSome, ← h.entries]
      exact hheld
    · rfl
  refine ⟨h.nodup, h.bounded, fun other => ?_, fun other => ?_, ?_⟩
  · rw [lastKey]
    split_ifs with heq
    · subst heq
      exact setEntry_self _ _ _
    · rw [← h.entries]
      exact setEntry_other _ _ (Ne.symm heq)
  · rw [← since_isSome, hsince, since_isSome]
    exact h.held other
  · refine h.sorted.imp fun {a b} hold => ?_
    rw [Older, hsince, hsince]
    exact hold

/-- an id that is not held goes to the end of the queue -/
theorem push (h : Faithful c log) (hfree : c.get id.1 id.2 = none) (hroom : c.order.length < MAX_SESSION_BUCKET_KEYS) :
    Faithful ⟨setEntry c.entries id (some key), c.order ++ [id]⟩ (.inserted id key :: log) := by
  have hnot := h.not_mem hfree
  have hnone : since id log = none := by
    rw [← Option.not_isSome_iff_eq_none, since_isSome, ← h.held]
    exact hnot
  have hsame {other : String × UInt32} (hne : other ≠ id) : since other (.inserted id key :: log) = since other log := by
    rw [since, if_neg (Ne.symm hne)]
  have hnew : since id (.inserted id key :: log) = some log.length := by rw [since, if_pos rfl, hnone, Option.none_or]
  refine ⟨?_, ?_, fun other => ?_, fun other => ?_, ?_⟩
  · exact List.nodup_append.2 ⟨h.nodup, List.nodup_singleton _, fun a ha b hb heq => hnot (List.mem_singleton.1 hb ▸ heq ▸ ha)⟩
  · rw [List.length_append, List.length_singleton]
    exact hroom
  · rw [lastKey]
    split_ifs with heq
    · subst heq
      exact setEntry_self _ _ _
    · rw [← h.entries]
      exact setEntry_other _ _ (Ne.symm heq)
  · rw [List.mem_append, List.mem_singleton, lastKey, h.held]
    split_ifs with heq
    · exact ⟨fun _ => rfl, fun _ => Or.inr heq.symm⟩
    · exact ⟨fun hmem => hmem.resolve_right (Ne.symm heq), Or.inl⟩
  · refine List.pairwise_append.2 ⟨h.sorted.imp_of_mem fun {a b} ha hb hold => ?_, List.pairwise_singleton _ _, fun a ha b hb => ?_⟩
    · rw [Older, hsame (ne_of_mem_of_not_mem ha hnot), hsame (ne_of_mem_of_not_mem hb hnot)]
      exact hold
    · rw [List.mem_singleton] at hb
      subst hb
      obtain ⟨t, ht⟩ := Option.isSome_iff_exists.1 ((since_isSome a log).trans ((h.held a).1 ha))
      exact ⟨t, log.length, (hsame (ne_of_mem_of_not_mem ha hnot)).trans ht, hnew, since_lt ht⟩

/-- the oldest goes -/
theorem evict {oldest : String × UInt32} {rest : List (String × UInt32)} (h : Faithful c log) (horder : c.order = oldest :: rest) :
    Faithful ⟨setEntry c.entries oldest none, rest⟩ (.evicted oldest :: log) := by
  have hnodup := h.nodup
  have hbounded := h.bounded
  have hsorted := h.sorted
  rw [horder] at hnodup hbounded hsorted
  obtain ⟨hnot, hnodup⟩ := List.nodup_cons.1 hnodup
  have hsame {other : String × UInt32} (hne : other ≠ oldest) : since other (.evicted oldest :: log) = since other log := by
    rw [since, if_neg (Ne.symm hne)]
  refine ⟨hnodup, Nat.le_of_succ_le hbounded, fun other => ?_, fun other => ?_, ?_⟩
  · rw [lastKey]
    split_ifs with heq
    · subst heq
      exact setEntry_self _ _ _
    · rw [← h.entries]
      exact setEntry_other _ _ (Ne.symm heq)
  · rw [lastKey]
    split_ifs with heq
    · subst heq
      exact ⟨fun hmem => absurd hmem hnot, fun hsome => absurd hsome Bool.false_ne_true⟩
    · rw [← h.held, horder, List.mem_cons, or_iff_right (Ne.symm heq)]
  · refine (List.pairwise_cons.1 hsorted).2.imp_of_mem fun {a b} ha hb hold => ?_
    rw [Older, hsame (ne_of_mem_of_not_mem ha hnot), hsame (ne_of_mem_of_not_mem hb hnot)]
    exact hold

/-! ## What goes -/

theorem gone_room (h : Faithful c log) (order : List (String × UInt32)) : gone c ⟨setEntry c.entries id (some key), order⟩ = [] := by
  refine List.filter_eq_nil_iff.2 fun a ha => ?_
  show ¬(setEntry c.entries id (some key) a.1 a.2).isNone
  by_cases heq : a = id
  · subst heq
    rw [setEntry_self]
    exact Bool.false_ne_true
  · rw [setEntry_other _ _ heq, Option.isNone_iff_eq_none, ← Option.not_isSome_iff_eq_none]
    exact not_not_intro (h.mem_iff.1 ha)

theorem gone_full {oldest : String × UInt32} {rest : List (String × UInt32)} (h : Faithful c log) (hfree : c.get id.1 id.2 = none)
    (horder : c.order = oldest :: rest) (order : List (String × UInt32)) :
    gone c ⟨setEntry (setEntry c.entries oldest none) id (some key), order⟩ = [oldest] := by
  have hnot := h.not_mem hfree
  have hrest := @gone_room _ id key _ (h.evict horder) order
  rw [gone, horder, List.filter_cons_of_pos]
  · exact congrArg (oldest :: ·) hrest
  · have hne : oldest ≠ id := ne_of_mem_of_not_mem (horder ▸ List.mem_cons_self) hnot
    show (setEntry (setEntry c.entries oldest none) id (some key) oldest.1 oldest.2).isNone
    rw [setEntry_other _ _ hne, setEntry_self]
    rfl

/-! ## Runs -/

theorem step {s : BucketKeyCache × List Logged} (h : Faithful s.1 s.2) (op : Op) : Faithful (step s op).1 (step s op).2 := by
  cases op with
  | get bucket epoch => exact h
  | insert bucket epoch key =>
    obtain ⟨c, log⟩ := s
    rcases insert_cases c (bucket, epoch) key with
      ⟨hheld, hinsert⟩ | ⟨hfree, hroom, hinsert⟩ | ⟨oldest, rest, hfree, horder, hfull, hinsert⟩
    · rw [BucketKeyCache.step, apply, hinsert, h.gone_room]
      exact h.again hheld
    · rw [BucketKeyCache.step, apply, hinsert, h.gone_room]
      exact h.push hfree hroom
    · rw [BucketKeyCache.step, apply, hinsert, h.gone_full hfree horder]
      have hrest : rest.length < MAX_SESSION_BUCKET_KEYS := by
        have hbounded := h.bounded
        rw [horder] at hbounded
        exact hbounded
      have hstill : (BucketKeyCache.mk (setEntry c.entries oldest none) rest).get bucket epoch = none := by
        show setEntry c.entries oldest none bucket epoch = none
        rw [setEntry]
        split_ifs
        · rfl
        · exact hfree
      exact @push _ (bucket, epoch) _ _ (h.evict horder) hstill hrest

/-- the one that goes is older than all the others -/
theorem gone_older {s : BucketKeyCache × List Logged} (h : Faithful s.1 s.2) (op : Op) (hgone : id ∈ gone s.1 (s.1.apply op))
    (hother : other ∈ s.1.order) (hne : other ≠ id) : Older s.2 id other := by
  cases op with
  | get bucket epoch =>
    obtain ⟨hmem, hnone⟩ := List.mem_filter.1 hgone
    rw [apply, Option.isNone_iff_eq_none] at hnone
    exact absurd hmem (h.not_mem hnone)
  | insert bucket epoch key =>
    obtain ⟨c, log⟩ := s
    rcases insert_cases c (bucket, epoch) key with
      ⟨hheld, hinsert⟩ | ⟨hfree, hroom, hinsert⟩ | ⟨oldest, rest, hfree, horder, hfull, hinsert⟩
    · rw [apply, hinsert, h.gone_room] at hgone
      exact absurd hgone List.not_mem_nil
    · rw [apply, hinsert, h.gone_room] at hgone
      exact absurd hgone List.not_mem_nil
    · rw [apply, hinsert, h.gone_full hfree horder, List.mem_singleton] at hgone
      subst hgone
      have hsorted := h.sorted
      rw [horder] at hsorted hother
      exact (List.pairwise_cons.1 hsorted).1 other ((List.mem_cons.1 hother).resolve_left hne)

end Faithful

theorem runs_faithful (ops : List Op) : Faithful (run ops).1 (run ops).2 := by
  induction ops using List.reverseRecOn with
  | nil => exact Faithful.empty
  | append_singleton ops op ih =>
    rw [run, List.foldl_append]
    exact ih.step op

/-- The queue and the map hold the same ids, each once and 32 at most. An answer is the last key inserted since the id last went. The
ids that go are those inserted first longest ago, and only insertions make any go. -/
theorem cache_exact (ops : List Op) :
    (run ops).1.order.Nodup ∧ (run ops).1.order.length ≤ 32 ∧
    (∀ bucket epoch, (bucket, epoch) ∈ (run ops).1.order ↔ ((run ops).1.get bucket epoch).isSome) ∧
    (∀ bucket epoch, (run ops).1.get bucket epoch = lastKey (bucket, epoch) (run ops).2) ∧
    ∀ op, ∀ id ∈ gone (run ops).1 ((run ops).1.apply op), ∀ other ∈ (run ops).1.order, other ≠ id → Older (run ops).2 id other := by
  have h := runs_faithful ops
  exact ⟨h.nodup, h.bounded, fun bucket epoch => @Faithful.mem_iff _ (bucket, epoch) _ h, fun bucket epoch => h.entries (bucket, epoch),
    fun op id hgone other hother hne => h.gone_older op hgone hother hne⟩

/-- as many ids as there is room for -/
def filling : List Op := (List.range MAX_SESSION_BUCKET_KEYS).map fun i => .insert "b" i.toUInt32 []

/-- the 33rd id makes the first go -/
theorem cache_exact_33 :
    gone (run filling).1 ((run filling).1.apply (.insert "b" 32 [])) = [("b", 0)] ∧ Older (run filling).2 ("b", 0) ("b", 31) := by
  have hgone : gone (run filling).1 ((run filling).1.apply (.insert "b" 32 [])) = [("b", 0)] ∧ ("b", 31) ∈ (run filling).1.order := by
    decide +kernel
  refine ⟨hgone.1, (cache_exact filling).2.2.2.2 (.insert "b" 32 []) ("b", 0) ?_ ("b", 31) hgone.2 (by decide)⟩
  rw [hgone.1]
  exact List.mem_singleton_self _

end BucketKeyCache

end Y2q.BucketKeys
