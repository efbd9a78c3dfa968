/-
What a put says of the object it replaces: whether there was one, and when it was created.

A put inspects the object once, and uses what it has found when it renames its file into place. A plain put inspects under the lock; a
streaming put inspects first, takes the lock then, and commits once the body has been received. A delete tests the lock once and holds
none. `Storage/Objects` reads the existing object in one step; here the stat and the read of `created` are two, as in the filesystem
backend and in both streaming puts; the read fails if the object is gone. A plain put of the uring backend reads through the file it has
opened.

- `step`: the requests for one object. `Entry`: the puts that were committed, with what they reported, and the deletes.
- `Undisturbed`: the object that a put commits over was neither created nor deleted since the put inspected it.
- `PutInv.step`: as long as that holds, every inspection that is still of use tells the truth.
- `puts_truthful`: along such runs every put reports the truth and keeps `created`, and between two creations there is a delete.
- `second_creation`: a streaming put that has found no object, and is committed over one.
-/
import Mathlib.Tactic
import Y2q.Core.Run
import Y2q.Storage.Objects

namespace Y2q.Overwrites

open Run (Along run)
open Objects (Backend)

/-! ## The requests -/

/-- what a put has found; `since`: how many births and deaths of the object there had been (ghost) -/
structure Inspection where
  isOverwrite : Bool
  priorCreated : Option ℕ
  since : ℕ
deriving DecidableEq, Repr

inductive Method where
  | plain | streaming
deriving DecidableEq, Repr

inductive Pc where
  /-- a plain put -/
  | putNew
  | putLocked
  /-- the file is open, and `created` is read through it -/
  | opened (created since : ℕ)
  /-- a streaming put -/
  | streamNew
  /-- the object was there -/
  | statted (method : Method) (since : ℕ)
  | inspected (found : Inspection)
  | ready (found : Inspection)
  | renamed
  | deleteNew
  | deleteChecked
  | deleteOpened
deriving DecidableEq, Repr

/-- a committed put: what it reported, its `created`, its time, and the `created` of the version that it replaced -/
structure Report where
  isOverwrite : Bool
  created : ℕ
  now : ℕ
  replaced : Option ℕ
deriving DecidableEq, Repr

inductive Entry where
  | put (r : Report)
  | delete
deriving DecidableEq, Repr

structure St where
  /-- the object's file: its `created` -/
  file : Option ℕ
  locked : Bool
  threads : ℕ → Option Pc
  /-- births and deaths of the object: ghost -/
  lives : ℕ
  /-- newest first: ghost -/
  log : List Entry

def empty : St := ⟨none, false, fun _ => none, 0, []⟩

inductive Request where
  | put | beginStreamingPut | delete
deriving DecidableEq, Repr

def Request.start : Request → Pc
  | .put => .putNew
  | .beginStreamingPut => .streamNew
  | .delete => .deleteNew

inductive Event where
  | call (i : ℕ) (q : Request)
  | step (i : ℕ)
  /-- the rename, with the time that the put has taken for its own -/
  | commit (i now : ℕ)
  /-- an error, or a stream that is dropped -/
  | abort (i : ℕ)
deriving DecidableEq, Repr

namespace St

def setThread (s : St) (i : ℕ) (p : Option Pc) : St := { s with threads := Function.update s.threads i p }

def goTo (s : St) (i : ℕ) (p : Pc) : St := s.setThread i (some p)

/-- the put takes the lock and goes on, or is refused -/
def tryAcquire (s : St) (i : ℕ) (p : Pc) : St := if s.locked then s.setThread i none else { s with locked := true }.goTo i p

/-- the staging file is renamed into place -/
def install (s : St) (found : Inspection) (now : ℕ) : St :=
  let created := found.priorCreated.getD now
  { s with
    file := some created
    lives := if s.file.isNone then s.lives + 1 else s.lives
    log := .put ⟨found.isOverwrite, created, now, s.file⟩ :: s.log }

def unlink (s : St) : St :=
  { s with
    file := none
    lives := if s.file.isSome then s.lives + 1 else s.lives
    log := if s.file.isSome then .delete :: s.log else s.log }

def stepThread (B : Backend) (s : St) (i : ℕ) : Pc → St
  | .putNew => s.tryAcquire i .putLocked
  | .putLocked =>
    match s.file, B with
    | none, _ => s.goTo i (.ready ⟨false, none, s.lives⟩)
    | some created, .uring => s.goTo i (.opened created s.lives)
    | some _, .filesystem => s.goTo i (.statted .plain s.lives)
  | .opened created since => s.goTo i (.ready ⟨true, some created, since⟩)
  | .streamNew =>
    match s.file with
    | none => s.goTo i (.inspected ⟨false, none, s.lives⟩)
    | some _ => s.goTo i (.statted .streaming s.lives)
  | .statted .plain since => s.goTo i (.ready ⟨true, s.file, since⟩)
  | .statted .streaming since => s.goTo i (.inspected ⟨true, s.file, since⟩)
  | .inspected found => s.tryAcquire i (.ready found)
  | .ready _ => s
  | .renamed => { s with locked := false }.setThread i none
  | .deleteNew => if s.locked then s.setThread i none else s.goTo i .deleteChecked
  | .deleteChecked => if s.file.isSome then s.goTo i .deleteOpened else s.setThread i none
  | .deleteOpened => s.unlink.setThread i none

def step (B : Backend) (s : St) : Event → St
  | .call i q => if s.threads i = none then s.goTo i q.start else s
  | .step i =>
    match s.threads i with
    | some p => s.stepThread B i p
    | none => s
  | .commit i now =>
    match s.threads i with
    | some (.ready found) => (s.install found now).goTo i .renamed
    | _ => s
  | .abort i =>
    match s.threads i with
    | some (.putLocked) | some (.opened _ _) | some (.statted .plain _) | some (.ready _) => { s with locked := false }.setThread i none
    | some (.statted .streaming _) | some (.inspected _) => s.setThread i none
    | _ => s

end St

/-! ## The property and the condition -/

/-- a put that replaced a version says so and keeps its `created`; one that replaced none says so and is created now -/
structure Report.Truthful (r : Report) : Prop where
  overwrite : r.isOverwrite = r.replaced.isSome
  created : r.created = r.replaced.getD r.now

structure Truthful (log : List Entry) : Prop where
  reports : ∀ r, .put r ∈ log → r.Truthful
  /-- between two puts that report a creation an object was deleted -/
  creations : ∀ a r b r' c, log = a ++ .put r :: (b ++ .put r' :: c) → r.isOverwrite = false → r'.isOverwrite = false → .delete ∈ b

/-- a put that is ready inspected the object in its present life, or in the present absence of one -/
def Current (s : St) : Option Pc → Prop
  | some (.ready found) => found.since = s.lives
  | _ => True

instance (s : St) : DecidablePred (Current s)
  | some (.ready found) => inferInstanceAs (Decidable (found.since = s.lives))
  | some .putNew | some .putLocked | some (.opened _ _) | some .streamNew | some (.statted _ _) | some (.inspected _) | some .renamed
  | some .deleteNew | some .deleteChecked | some .deleteOpened | none => .isTrue trivial

/-- the object that a put is committed over was neither created nor deleted since the put inspected it -/
def Undisturbed (s : St) : Event → Prop
  | .commit i _ => Current s (s.threads i)
  | _ => True

instance (s : St) : DecidablePred (Undisturbed s)
  | .commit i _ => inferInstanceAs (Decidable (Current s (s.threads i)))
  | .call _ _ | .step _ | .abort _ => .isTrue trivial

/-! ## The log -/

/-- no creation since the last delete -/
def Calm : List Entry → Prop
  | [] | .delete :: _ => True
  | .put r :: log => r.isOverwrite = true ∧ Calm log

/-- there was no creation since the last delete when a creation was reported -/
def Separated : List Entry → Prop
  | [] => True
  | .delete :: log => Separated log
  | .put r :: log => (r.isOverwrite = false → Calm log) ∧ Separated log

theorem Calm.delete_mem {b c : List Entry} {r : Report} (h : Calm (b ++ .put r :: c)) (hr : r.isOverwrite = false) : .delete ∈ b := by
  induction b with
  | nil => exact absurd h.1 (by simp [hr])
  | cons e b ih =>
    cases e with
    | delete => exact List.mem_cons_self
    | put r' => exact List.mem_cons_of_mem _ (ih h.2)

theorem Separated.tail {e : Entry} {log : List Entry} (h : Separated (e :: log)) : Separated log := by
  cases e with
  | delete => exact h
  | put r => exact h.2

theorem Separated.suffix {a log : List Entry} (h : Separated (a ++ log)) : Separated log := by
  induction a with
  | nil => exact h
  | cons e a ih => exact ih h.tail

theorem Separated.creations {log a b c : List Entry} {r r' : Report} (h : Separated log) (hlog : log = a ++ .put r :: (b ++ .put r' :: c))
    (hr : r.isOverwrite = false) (hr' : r'.isOverwrite = false) : .delete ∈ b := by
  subst hlog
  exact (h.suffix.1 hr).delete_mem hr'

/-! ## What an inspection is worth -/

variable {B : Backend} {s s' : St} {p : Pc} {x : Event} {i : ℕ}

/-- what was found in the present life of the object is still so -/
def Inspection.Known (s : St) (found : Inspection) : Prop :=
  found.since ≤ s.lives ∧ (found.since = s.lives → found.isOverwrite = s.file.isSome ∧ found.priorCreated = s.file)

def Pc.Known (s : St) : Pc → Prop
  | .opened created since => Inspection.Known s ⟨true, some created, since⟩
  | .statted _ since => since ≤ s.lives ∧ (since = s.lives → s.file.isSome = true)
  | .inspected found | .ready found => found.Known s
  | _ => True

/-- the object is as it was, or it has been born or has died since -/
def Later (s s' : St) : Prop := (s'.file = s.file ∧ s'.lives = s.lives) ∨ s.lives < s'.lives

theorem Inspection.Known.later {found : Inspection} (h : found.Known s) (hs : Later s s') : found.Known s' := by
  rcases hs with ⟨hfile, hlives⟩ | hlt
  · rwa [Inspection.Known, hfile, hlives]
  · exact ⟨h.1.trans hlt.le, fun e => absurd (e ▸ h.1) (not_le.2 hlt)⟩

theorem Pc.Known.later (h : p.Known s) (hs : Later s s') : p.Known s' := by
  cases p with
  | opened created since => exact Inspection.Known.later h hs
  | inspected found | ready found => exact Inspection.Known.later h hs
  | statted method since =>
    rcases hs with ⟨hfile, hlives⟩ | hlt
    · rwa [Pc.Known, hfile, hlives]
    · exact ⟨h.1.trans hlt.le, fun e => absurd (e ▸ h.1) (not_le.2 hlt)⟩
  | putNew | putLocked | streamNew | renamed | deleteNew | deleteChecked | deleteOpened => trivial

/-- what holds along the runs in which no put is committed over another life of the object than it inspected -/
structure PutInv (s : St) : Prop where
  known : ∀ i p, s.threads i = some p → p.Known s
  reports : ∀ r, .put r ∈ s.log → r.Truthful
  separated : Separated s.log
  calm : s.file = none → Calm s.log

theorem putInv_empty : PutInv empty := ⟨fun _ _ h => (by cases h), fun _ h => (by cases h), trivial, fun _ => trivial⟩

/-- a step of one thread that leaves the object and the log as they are -/
theorem PutInv.quiet (h : PutInv s) {q : Option Pc} (hfile : s'.file = s.file) (hlives : s'.lives = s.lives) (hlog : s'.log = s.log)
    (hthreads : s'.threads = Function.update s.threads i q) (hq : ∀ p, q = some p → p.Known s) : PutInv s' := by
  refine ⟨fun j p hp => ?_, by rw [hlog]; exact h.reports, by rw [hlog]; exact h.separated, by rw [hfile, hlog]; exact h.calm⟩
  have hlater : Later s s' := .inl ⟨hfile, hlives⟩
  rw [hthreads, Function.update_apply] at hp
  split at hp
  · exact (hq p hp).later hlater
  · exact (h.known j p hp).later hlater

theorem PutInv.setThread (h : PutInv s) (q : Option Pc) (hq : ∀ p, q = some p → p.Known s) : PutInv (s.setThread i q) :=
  h.quiet rfl rfl rfl rfl hq

theorem PutInv.goTo (h : PutInv s) (hp : p.Known s) : PutInv (s.goTo i p) := h.setThread _ fun _ e => by cases e; exact hp

theorem PutInv.leave (h : PutInv s) : PutInv (s.setThread i none) := h.setThread _ fun _ e => by cases e

theorem PutInv.unlock (h : PutInv s) : PutInv ({ s with locked := false }.setThread i none) :=
  h.quiet rfl rfl rfl rfl fun _ e => by cases e

theorem PutInv.tryAcquire (h : PutInv s) (hp : p.Known s) : PutInv (s.tryAcquire i p) := by
  rw [St.tryAcquire]
  split
  · exact h.leave
  · exact h.quiet rfl rfl rfl rfl fun _ e => by cases e; exact hp

/-- a put that commits over the life it has inspected -/
theorem PutInv.install (h : PutInv s) {found : Inspection} (hfound : found.Known s) (hsince : found.since = s.lives) (now : ℕ) :
    PutInv ((s.install found now).goTo i .renamed) := by
  obtain ⟨hover, hprior⟩ := hfound.2 hsince
  have htrue : Report.Truthful ⟨found.isOverwrite, found.priorCreated.getD now, now, s.file⟩ := ⟨hover, by rw [hprior]⟩
  have hlater : Later s (s.install found now) := by
    cases hfile : s.file with
    | none => exact .inr (by simp [St.install, hfile])
    | some created => exact .inl ⟨by simp [St.install, hprior, hfile], by simp [St.install, hfile]⟩
  have hinv : PutInv (s.install found now) := by
    refine ⟨fun j p hp => (h.known j p hp).later hlater, fun r hr => ?_, ⟨fun hcreation => h.calm ?_, h.separated⟩, fun hnone => by cases hnone⟩
    · rcases List.mem_cons.1 hr with e | hr
      · cases e
        exact htrue
      · exact h.reports r hr
    · simpa [hover] using hcreation
  exact hinv.goTo trivial

theorem PutInv.unlink (h : PutInv s) : PutInv (s.unlink.setThread i none) := by
  cases hfile : s.file with
  | none =>
    have hsame : s.unlink = s := by
      obtain ⟨file, _, _, _, _⟩ := s
      cases hfile
      rfl
    rw [hsame]
    exact h.leave
  | some created =>
    have hlater : Later s s.unlink := .inr (by simp [St.unlink, hfile])
    have hlog : s.unlink.log = .delete :: s.log := by simp [St.unlink, hfile]
    have hinv : PutInv s.unlink := by
      refine ⟨fun j p hp => (h.known j p hp).later hlater, fun r hr => h.reports r ?_, ?_, fun _ => ?_⟩
      · rw [hlog] at hr
        exact (List.mem_cons.1 hr).resolve_left (by simp)
      · rw [hlog]
        exact h.separated
      · rw [hlog]
        trivial
    exact hinv.leave

theorem PutInv.stepThread (h : PutInv s) (hp : s.threads i = some p) : PutInv (s.stepThread B i p) := by
  have hknown := h.known i p hp
  cases p with
  | putNew => exact h.tryAcquire trivial
  | putLocked =>
    cases hfile : s.file with
    | none =>
      simp only [St.stepThread, hfile]
      exact h.goTo ⟨le_rfl, fun _ => by simp [hfile]⟩
    | some created =>
      cases B with
      | filesystem =>
        simp only [St.stepThread, hfile]
        exact h.goTo ⟨le_rfl, fun _ => by simp [hfile]⟩
      | uring =>
        simp only [St.stepThread, hfile]
        exact h.goTo ⟨le_rfl, fun _ => by simp [hfile]⟩
  | opened created since => exact h.goTo hknown
  | streamNew =>
    cases hfile : s.file with
    | none =>
      simp only [St.stepThread, hfile]
      exact h.goTo ⟨le_rfl, fun _ => by simp [hfile]⟩
    | some created =>
      simp only [St.stepThread, hfile]
      exact h.goTo ⟨le_rfl, fun _ => by simp [hfile]⟩
  | statted method since =>
    have hread : Inspection.Known s ⟨true, s.file, since⟩ := ⟨hknown.1, fun e => ⟨(hknown.2 e).symm, rfl⟩⟩
    cases method <;> exact h.goTo hread
  | inspected found => exact h.tryAcquire hknown
  | ready found => exact h
  | renamed => exact h.unlock
  | deleteNew =>
    simp only [St.stepThread]
    split
    · exact h.leave
    · exact h.goTo trivial
  | deleteChecked =>
    simp only [St.stepThread]
    split
    · exact h.goTo trivial
    · exact h.leave
  | deleteOpened => exact h.unlink

theorem PutInv.step (h : PutInv s) (hx : Undisturbed s x) : PutInv (s.step B x) := by
  cases x with
  | call i q =>
    simp only [St.step]
    split
    · exact h.goTo (by cases q <;> trivial)
    · exact h
  | step i =>
    simp only [St.step]
    split
    · exact h.stepThread ‹_›
    · exact h
  | commit i now =>
    simp only [St.step]
    split
    · rename_i found hfound
      simp only [Undisturbed, hfound, Current] at hx
      exact h.install (h.known i _ hfound) hx now
    · exact h
  | abort i =>
    simp only [St.step]
    split
    · exact h.unlock
    · exact h.unlock
    · exact h.unlock
    · exact h.unlock
    · exact h.leave
    · exact h.leave
    · exact h

/-- **Puts tell the truth if the object has neither been created nor deleted since they inspected it.** -/
theorem puts_truthful (B : Backend) (events : List Event) (h : Along (St.step B) Undisturbed empty events) :
    Truthful (run (St.step B) empty events).log := by
  have hinv := h.inv (fun _ _ hi hx => PutInv.step hi hx) putInv_empty
  exact ⟨hinv.reports, fun a r b r' c hlog => hinv.separated.creations hlog⟩

def steps (i n : ℕ) : List Event := List.replicate n (.step i)

/-- a put, a streaming put over it, a delete and one more put -/
theorem puts_truthful_in_turn : Truthful (run (St.step .filesystem) empty
    (.call 0 .put :: steps 0 2 ++ .commit 0 7 :: steps 0 1 ++ .call 1 .beginStreamingPut :: steps 1 3 ++ .commit 1 8 :: steps 1 1 ++
      .call 2 .delete :: steps 2 3 ++ .call 3 .put :: steps 3 2 ++ [.commit 3 9])).log := by
  exact puts_truthful .filesystem _ (by decide)

/-! ## A put that is overtaken -/

/-- a streaming put finds no object, a plain put creates it, and the streaming put is committed -/
def overtaken : List Event := .call 0 .beginStreamingPut :: steps 0 1 ++ .call 1 .put :: steps 1 2 ++ .commit 1 7 :: steps 1 1 ++
  steps 0 1 ++ [.commit 0 8]

theorem second_creation : ¬Truthful (run (St.step .filesystem) empty overtaken).log := by
  intro h
  have hlog : (run (St.step .filesystem) empty overtaken).log = [.put ⟨false, 8, 8, some 7⟩, .put ⟨false, 7, 7, none⟩] := by decide
  exact absurd (h.reports ⟨false, 8, 8, some 7⟩ (by simp [hlog])).overwrite (by decide)

end Y2q.Overwrites
