/-
The per-object write-lock registry (`storage/locks.rs`) under any interleaving of its callers.

`inner` is the shared map `(bucket, key) → acquisition time`; every access to one entry is atomic. A `LockGuard` remembers
its key only, and its drop removes the entry under that key, whoever inserted it. `clear_stale` is not atomic: it first
visits the entries one by one and collects the keys older than the cutoff, then removes the collected keys one by one,
also by key only. Two ghost fields say who is who and are read by no branch of the code: `Entry.owner` (the guard whose
`try_acquire` inserted the entry) and `St.evicted` (the guards whose own entry a `clear_stale` removed).

Results:
- `exclusion_iff_own_drops`: along a run, no `try_acquire` succeeds while a guard of that object is alive and was not
  evicted, and no drop releases another guard's lock, exactly if every dropped guard finds its own entry or none.
- `stale_drop_releases_fresh_lock`: acquire, force-release, acquire again, drop the first guard: the second writer's lock
  is gone and a third writer gets in.
-/
import Mathlib.Tactic
import Y2q.Core.Run

namespace Y2q.Locks

open Y2q.Run

/-! ## Model -/

/-- `(bucket, key)` -/
abbrev ObjKey := String × String

structure Entry where
  since : ℤ
  /-- ghost -/
  owner : ℕ
deriving DecidableEq, Repr

/-- a live guard: its (ghost) identity and the key it will remove -/
structure Guard where
  id : ℕ
  key : ObjKey
deriving DecidableEq, Repr

/-- a running `clear_stale` call: its cutoff and the keys it has collected and not yet removed -/
structure Sweep where
  olderThan : ℤ
  stale : List ObjKey
deriving DecidableEq, Repr

structure St where
  inner : ObjKey → Option Entry
  guards : List Guard
  nextId : ℕ
  sweeps : List Sweep
  /-- ghost -/
  evicted : List ℕ

inductive Error where
  | locked (bucket key : String) (since : ℤ)
deriving DecidableEq, Repr

def init : St := ⟨fun _ => none, [], 0, [], []⟩

def St.remove (s : St) (k : ObjKey) : St := { s with inner := Function.update s.inner k none }

/-- `LockRegistry::try_acquire` -/
def tryAcquire (s : St) (bucket key : String) (now : ℤ) : St × Except Error Guard :=
  match s.inner (bucket, key) with
  | none =>
    ({ s with
        inner := Function.update s.inner (bucket, key) (some ⟨now, s.nextId⟩)
        guards := s.guards ++ [⟨s.nextId, (bucket, key)⟩]
        nextId := s.nextId + 1 },
      .ok ⟨s.nextId, (bucket, key)⟩)
  | some e => (s, .error (.locked bucket key e.since))

/-- `LockGuard::drop` -/
def dropGuard (s : St) (id : ℕ) : St :=
  match s.guards.find? (fun g => g.id = id) with
  | none => s
  | some g => { s.remove g.key with guards := s.guards.filter fun g => g.id ≠ id }

/-- `clear_stale`, first half: the iterator visits the entry of `k` -/
def visit (s : St) (c : ℕ) (k : ObjKey) : St :=
  match s.sweeps[c]?, s.inner k with
  | some w, some e =>
    if e.since < w.olderThan then { s with sweeps := s.sweeps.set c { w with stale := w.stale ++ [k] } } else s
  | _, _ => s

/-- `clear_stale`, second half: remove the next collected key -/
def evict (s : St) (c : ℕ) : St :=
  match s.sweeps[c]? with
  | some ⟨t, k :: stale⟩ =>
    let s' := { s with sweeps := s.sweeps.set c ⟨t, stale⟩ }
    match s.inner k with
    | none => s'
    | some e => { s'.remove k with evicted := s.evicted ++ [e.owner] }
  | _ => s

inductive Op where
  | tryAcquire (bucket key : String) (now : ℤ)
  | drop (id : ℕ)
  | clearStale (olderThan : ℤ)
  | visit (c : ℕ) (k : ObjKey)
  | evict (c : ℕ)
deriving DecidableEq, Repr

def step (s : St) : Op → St
  | .tryAcquire b k now => (tryAcquire s b k now).1
  | .drop id => dropGuard s id
  | .clearStale t => { s with sweeps := s.sweeps ++ [⟨t, []⟩] }
  | .visit c k => visit s c k
  | .evict c => evict s c

/-- lock exclusion at one step: an acquisition succeeds only if every live guard of the object was evicted, and a drop
leaves the entries of the other live guards that were not evicted in place -/
def Excludes (s : St) : Op → Prop
  | .tryAcquire b k now =>
    (tryAcquire s b k now).2.isOk = true → ∀ g ∈ s.guards, g.key = (b, k) → g.id ∈ s.evicted
  | .drop id => ∀ g ∈ s.guards, g.id ≠ id → g.id ∉ s.evicted → (dropGuard s id).inner g.key = s.inner g.key
  | _ => True

/-- the dropped guard finds its own entry, or none, under its key -/
def OwnDrop (s : St) : Op → Prop
  | .drop id => ∀ g ∈ s.guards, g.id = id → ∀ e ∈ s.inner g.key, e.owner = id
  | _ => True

/-! ## The invariant -/

structure Inv (s : St) : Prop where
  uniq : ∀ g ∈ s.guards, ∀ g' ∈ s.guards, g.id = g'.id → g = g'
  guardLt : ∀ g ∈ s.guards, g.id < s.nextId
  evictedLt : ∀ i ∈ s.evicted, i < s.nextId
  /-- every entry belongs to a live guard that was not evicted -/
  owned : ∀ k, ∀ e ∈ s.inner k, (⟨e.owner, k⟩ : Guard) ∈ s.guards ∧ e.owner ∉ s.evicted
  /-- every live guard that was not evicted has its entry -/
  held : ∀ g ∈ s.guards, g.id ∉ s.evicted → ∃ e ∈ s.inner g.key, e.owner = g.id

theorem inv_init : Inv init := by
  constructor <;> simp [init]

theorem find_guard {s : St} {id : ℕ} {g : Guard} (h : s.guards.find? (fun g => g.id = id) = some g) :
    g ∈ s.guards ∧ g.id = id :=
  ⟨List.mem_of_find?_eq_some h, by simpa using List.find?_some h⟩

theorem update_none_eq_some {m : ObjKey → Option Entry} {k k' : ObjKey} {e : Entry}
    (h : e ∈ Function.update m k none k') : k' ≠ k ∧ e ∈ m k' := by
  by_cases hk : k' = k
  · subst hk; simp at h
  · rw [Function.update_of_ne hk] at h; exact ⟨hk, h⟩

theorem inv_tryAcquire (s : St) (b k : String) (now : ℤ) (h : Inv s) : Inv (tryAcquire s b k now).1 := by
  unfold tryAcquire
  cases hk : s.inner (b, k) with
  | some e => exact h
  | none =>
    have hfresh : s.nextId ∉ s.evicted := fun hm => absurd (h.evictedLt _ hm) (lt_irrefl _)
    refine ⟨?_, ?_, fun i hi => Nat.lt_succ_of_lt (h.evictedLt i hi), ?_, ?_⟩
    · intro g hg g' hg' hid
      simp only [List.mem_append, List.mem_singleton] at hg hg'
      rcases hg with hg | rfl <;> rcases hg' with hg' | rfl
      · exact h.uniq g hg g' hg' hid
      · have := h.guardLt g hg; simp only at hid; omega
      · have := h.guardLt g' hg'; simp only at hid; omega
      · rfl
    · intro g hg
      simp only [List.mem_append, List.mem_singleton] at hg
      rcases hg with hg | rfl
      · exact Nat.lt_succ_of_lt (h.guardLt g hg)
      · exact Nat.lt_succ_self _
    · intro k' e he
      by_cases hk' : k' = (b, k)
      · subst hk'
        simp only [Function.update_self, Option.mem_some_iff] at he
        subst he
        exact ⟨List.mem_append_right _ (List.mem_singleton.2 rfl), hfresh⟩
      · simp only [Function.update_of_ne hk'] at he
        exact ⟨List.mem_append_left _ (h.owned k' e he).1, (h.owned k' e he).2⟩
    · intro g hg hev
      simp only [List.mem_append, List.mem_singleton] at hg
      rcases hg with hg | rfl
      · obtain ⟨e, he, ho⟩ := h.held g hg hev
        have hne : g.key ≠ (b, k) := by intro hc; rw [hc, hk] at he; simp at he
        exact ⟨e, by simpa only [Function.update_of_ne hne] using he, ho⟩
      · exact ⟨⟨now, s.nextId⟩, by simp, rfl⟩

theorem inv_dropGuard (s : St) (id : ℕ) (h : Inv s) (hown : OwnDrop s (.drop id)) : Inv (dropGuard s id) := by
  unfold dropGuard
  cases hf : s.guards.find? (fun g => g.id = id) with
  | none => exact h
  | some g0 =>
    obtain ⟨hg0, hid0⟩ := find_guard hf
    refine ⟨?_, fun g hg => h.guardLt g (List.mem_filter.1 hg).1, h.evictedLt, ?_, ?_⟩
    · intro g hg g' hg' he
      exact h.uniq g (List.mem_filter.1 hg).1 g' (List.mem_filter.1 hg').1 he
    · intro k e he
      obtain ⟨hk, he'⟩ := update_none_eq_some he
      obtain ⟨hg, hev⟩ := h.owned k e he'
      refine ⟨List.mem_filter.2 ⟨hg, ?_⟩, hev⟩
      -- an entry of the dropped guard would lie under the dropped guard's key
      have : e.owner ≠ id := by
        intro hc
        have := h.uniq _ hg g0 hg0 (by rw [hid0]; exact hc)
        exact hk (by rw [← this])
      simpa using this
    · intro g hg hev
      obtain ⟨hg', hne⟩ := List.mem_filter.1 hg
      have hne : g.id ≠ id := by simpa using hne
      obtain ⟨e, he, ho⟩ := h.held g hg' hev
      have hkey : g.key ≠ g0.key := by
        intro hc
        rw [hc] at he
        exact hne (ho.symm.trans (hown g0 hg0 hid0 e he))
      exact ⟨e, by simpa only [St.remove, Function.update_of_ne hkey] using he, ho⟩

theorem inv_evict (s : St) (c : ℕ) (h : Inv s) : Inv (evict s c) := by
  unfold evict
  split
  · rename_i t k stale hw
    cases hk : s.inner k with
    | none => exact { h with }
    | some e =>
      obtain ⟨hg, hev⟩ := h.owned k e hk
      refine ⟨h.uniq, h.guardLt, ?_, ?_, ?_⟩
      · intro i hi
        simp only [List.mem_append, List.mem_singleton] at hi
        rcases hi with hi | rfl
        · exact h.evictedLt i hi
        · exact h.guardLt _ hg
      · intro k' e' he
        obtain ⟨hne, he'⟩ := update_none_eq_some he
        obtain ⟨hg', hev'⟩ := h.owned k' e' he'
        refine ⟨hg', ?_⟩
        simp only [List.mem_append, List.mem_singleton, not_or]
        refine ⟨hev', fun hc => hne ?_⟩
        have := h.uniq _ hg' _ hg hc
        simpa using congrArg Guard.key this
      · intro g hg' hev'
        simp only [List.mem_append, List.mem_singleton, not_or] at hev'
        obtain ⟨e', he', ho⟩ := h.held g hg' hev'.1
        have hne : g.key ≠ k := by
          intro hc
          rw [hc, hk] at he'
          simp only [Option.mem_some_iff] at he'
          exact hev'.2 (by rw [he']; exact ho.symm)
        exact ⟨e', by simpa only [St.remove, Function.update_of_ne hne] using he', ho⟩
  · exact h

theorem inv_visit (s : St) (c : ℕ) (k : ObjKey) (h : Inv s) : Inv (visit s c k) := by
  unfold visit
  split
  · split_ifs
    · exact { h with }
    · exact h
  · exact h

theorem step_inv (s : St) (o : Op) (h : Inv s) (hown : OwnDrop s o) : Inv (step s o) := by
  cases o with
  | tryAcquire b k now => exact inv_tryAcquire s b k now h
  | drop id => exact inv_dropGuard s id h hown
  | clearStale t => exact { h with }
  | visit c k => exact inv_visit s c k h
  | evict c => exact inv_evict s c h

/-! ## Exclusion -/

theorem acquire_needs_vacant {s : St} {b k : String} {now : ℤ} (h : (tryAcquire s b k now).2.isOk = true) :
    s.inner (b, k) = none := by
  unfold tryAcquire at h
  cases hk : s.inner (b, k) with
  | none => rfl
  | some e => rw [hk] at h; cases h

theorem excludes_of_ownDrop (s : St) (o : Op) (h : Inv s) (hown : OwnDrop s o) : Excludes s o := by
  cases o with
  | tryAcquire b k now =>
    intro hok g hg hkey
    by_contra hev
    obtain ⟨e, he, _⟩ := h.held g hg hev
    rw [hkey, acquire_needs_vacant hok] at he
    cases he
  | drop id =>
    intro g hg hne hev
    obtain ⟨e, he, ho⟩ := h.held g hg hev
    unfold dropGuard
    cases hf : s.guards.find? (fun g => g.id = id) with
    | none => rfl
    | some g0 =>
      obtain ⟨hg0, hid0⟩ := find_guard hf
      have hkey : g.key ≠ g0.key := by
        intro hc
        rw [hc] at he
        exact hne (ho.symm.trans (hown g0 hg0 hid0 e he))
      simp only [St.remove, Function.update_of_ne hkey]
  | _ => trivial

/-- a drop that finds another guard's entry releases that guard's lock -/
theorem ownDrop_of_excludes (s : St) (o : Op) (h : Inv s) (hex : Excludes s o) : OwnDrop s o := by
  cases o with
  | drop id =>
    intro g hg hid e he
    by_contra hne
    obtain ⟨hg', hev⟩ := h.owned g.key e he
    have hkept := hex _ hg' hne hev
    have hf : s.guards.find? (fun g => g.id = id) = some g := by
      cases hf : s.guards.find? (fun g => g.id = id) with
      | none => rw [List.find?_eq_none] at hf; exact absurd (by simpa using hid) (hf g hg)
      | some g0 =>
        obtain ⟨hg0, hid0⟩ := find_guard hf
        rw [h.uniq g0 hg0 g hg (hid0.trans hid.symm)]
    simp only [dropGuard, hf, St.remove, Function.update_self] at hkept
    rw [← hkept] at he
    cases he
  | _ => trivial

/-- **Lock exclusion.** Along any interleaving of acquisitions, drops and `clear_stale` calls, an object's lock is
exclusive and no drop releases a later writer's lock, exactly if no guard is dropped while the entry under its key belongs
to another guard. -/
theorem exclusion_iff_own_drops (ops : List Op) : Along step Excludes init ops ↔ Along step OwnDrop init ops := by
  constructor
  · exact Along.imp (I := Inv) (fun s o h hex => step_inv s o h (ownDrop_of_excludes s o h hex)) ownDrop_of_excludes
      inv_init
  · exact Along.imp (I := Inv) step_inv excludes_of_ownDrop inv_init

/-- writer 0 acquires, a `clear_stale` evicts it, writer 1 acquires, writer 0's guard is dropped, writer 2 asks -/
def staleDropRun : List Op :=
  [.tryAcquire "b" "k" 0, .clearStale 5, .visit 0 ("b", "k"), .evict 0, .tryAcquire "b" "k" 10, .drop 0,
    .tryAcquire "b" "k" 11]

/-- **A stale guard's drop releases the next writer's lock**: guard 1 is alive and was never evicted, yet the third
acquisition succeeds. -/
theorem stale_drop_releases_fresh_lock : ¬ Along step Excludes init staleDropRun := by
  have hlast : (tryAcquire (run step init (staleDropRun.take 6)) "b" "k" 11).2.isOk = true := by decide
  have hlive : (⟨1, ("b", "k")⟩ : Guard) ∈ (run step init (staleDropRun.take 6)).guards ∧
      1 ∉ (run step init (staleDropRun.take 6)).evicted := by decide
  rintro ⟨-, -, -, -, -, -, h, -⟩
  exact hlive.2 (h hlast _ hlive.1 rfl)

end Y2q.Locks
