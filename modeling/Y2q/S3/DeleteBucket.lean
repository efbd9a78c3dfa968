/-
`DeleteBucket` of S3 among puts to the same bucket (`s3/bucket.rs`, `delete_bucket_impl` of `storage/filesystem.rs`).

The handler lists the first rows of the bucket in the index and refuses if one of them is no part of an upload. Then it deletes the
parts of the uploads, and calls `delete_bucket`, which removes the rows and then the whole directory (`Storage/Objects`). Neither holds
a lock. The parts are deleted by threads of the storage like any others.

- `step`: a handler's step, or one of the storage.
- `Clear`: at the check all objects have their rows, and none is renamed into place between the check and the end.
- `delete_keeps_objects`: along such steps the directory is removed only without objects, and every object whose put returned is there
  until an object delete removes it.
- `delete_loses_object`: a put that returns between the check and the deletion.
-/
import Mathlib.Tactic
import Y2q.Core.Run
import Y2q.S3.Multipart
import Y2q.Storage.Objects

namespace Y2q.DeleteBucket

open Objects (St Pc Act File ObjKey Backend Envelopes next Effect next_effect)
open Multipart (isReservedKey)
open Y2q.Run

/-! ## Requests -/

inductive Handler where
  | asked (b : String)
  | checked (b : String)
  | deleting (b : String)
  | refused (b : String)
  | done (b : String) (ok : Bool)
deriving DecidableEq

structure World where
  st : St
  handlers : ℕ → Option Handler
  /-- the file was renamed into place and not deleted since; the code keeps no such list -/
  placed : ObjKey → Bool
  /-- and the request that did so has returned -/
  acked : ObjKey → Bool

inductive Ev where
  | ask (i : ℕ) (b : String)
  /-- the first page of the bucket's rows, and whether there are more -/
  | check (i : ℕ) (items : List ObjKey) (more : Bool)
  | delete (i : ℕ)
  | store (e : Objects.Ev)

def place (g : ObjKey → Bool) : Act → ObjKey → Bool
  | .install x _ | .installLabels x _ => Function.update g x true
  | .unlink x => Function.update g x false
  | _ => g

/-- a put or a label update ends with this step -/
def returns : Pc → Option ObjKey
  | .upserting x _ false => some x
  | .unlocking x => some x
  | _ => none

def acknowledge (placed acked : ObjKey → Bool) (p : Pc) : Act → ObjKey → Bool
  | .unlink x => Function.update acked x false
  | _ => (returns p).elim acked fun x => Function.update acked x (placed x)

/-- `delete_bucket` ends with this step, and succeeds -/
def succeeds (s : St) : Pc → Bool
  | .bucketRows b true _ [] => s.dirs b
  | .bucketRows _ false removed [] => 0 < removed
  | _ => false

def settle (s : St) (h : Option Handler) (p : Pc) (p' : Option Pc) : Option Handler :=
  match h, p' with
  | some (.deleting b), none => some (.done b (succeeds s p))
  | h, _ => h

variable (B : Backend) (C : Envelopes)

def step (w : World) : Ev → World
  | .ask i b =>
    if (w.handlers i).isNone ∧ (w.st.threads i).isNone then { w with handlers := Function.update w.handlers i (some (.asked b)) } else w
  | .check i items more =>
    match w.handlers i with
    | some (.asked b) =>
      let full := items.any (fun x => !isReservedKey x.2) || more
      { w with handlers := Function.update w.handlers i (some (if full then .refused b else .checked b)) }
    | _ => w
  | .delete i =>
    match w.handlers i with
    | some (.checked b) =>
      { w with
        st := Objects.step B C w.st (.call i (.deleteBucket b))
        handlers := Function.update w.handlers i (some (.deleting b)) }
    | _ => w
  | .store (.call i q) => if (w.handlers i).isNone then { w with st := Objects.step B C w.st (.call i q) } else w
  | .store (.step i) =>
    match w.st.threads i with
    | none => w
    | some p =>
      { st := Objects.step B C w.st (.step i)
        handlers := Function.update w.handlers i (settle w.st (w.handlers i) p (next B C w.st p).2)
        placed := place w.placed (next B C w.st p).1
        acked := acknowledge w.placed w.acked p (next B C w.st p).1 }
  | .store e => { w with st := Objects.step B C w.st e }

/-! ## What may happen -/

variable (b : String)

/-- an object of the bucket, and no part of an upload -/
def Object (x : ObjKey) : Prop := x.1 = b ∧ isReservedKey x.2 = false

/-- the page shows the rows that are there, and the flag is set if it does not show all -/
def Legal (w : World) : Ev → Prop
  | .check i items more => ∀ b', w.handlers i = some (.asked b') → ∀ x, x.1 = b' → w.st.rows x ≠ none → x ∈ items ∨ more = true
  | .store e => Objects.Legal w.st e
  | _ => True

/-- nobody else deletes the bucket -/
def OnlyHere : Ev → Prop
  | .store (.call _ (.deleteBucket b')) => b' ≠ b
  | _ => True

/-- the handler relies on its check -/
def PastCheck (w : World) (i : ℕ) : Prop := w.handlers i = some (.checked b) ∨ w.handlers i = some (.deleting b)

/-- at the check every object of the bucket has its row; none is renamed into place between a check and the end of the deletion -/
def Clear (w : World) : Ev → Prop
  | .check i _ _ => w.handlers i = some (.asked b) → ∀ x, Object b x → w.st.files x ≠ none → w.st.rows x ≠ none
  | .store (.step i) => ∀ p x f, w.st.threads i = some p →
      ((next B C w.st p).1 = .install x f ∨ (next B C w.st p).1 = .installLabels x f) → Object b x → ∀ j, ¬PastCheck b w j
  | _ => True

/-! ## What is to hold -/

/-- an object whose put has returned, and that was not deleted, is there -/
def Kept (w : World) : Prop := ∀ x, Object b x → w.acked x = true → w.st.files x ≠ none

/-- the bucket that a thread deletes -/
def bucketOf : Pc → Option String
  | .bucketNew b | .bucketStat b _ | .bucketRows b _ _ _ => some b
  | _ => none

structure Inv (w : World) : Prop where
  threads : ∀ i p, w.st.threads i = some p → bucketOf p = some b → w.handlers i = some (.deleting b)
  empty : ∀ i, PastCheck b w i → ∀ x, Object b x → w.st.files x = none
  placed : ∀ x, Object b x → w.placed x = true → w.st.files x ≠ none
  acked : ∀ x, w.acked x = true → w.placed x = true

variable {B C b} {w w' : World} {i : ℕ}

theorem Inv.kept (h : Inv b w) : Kept b w := fun x hx hacked => h.placed x hx (h.acked x hacked)

theorem bucketOf_next {s : St} {p p' : Pc} (h : (next B C s p).2 = some p') (hb : bucketOf p' = some b) : bucketOf p = some b := by
  cases p with
  | bucketRows b' ex n todo =>
    cases todo with
    | cons x todo =>
      cases h
      exact hb
    | nil =>
      cases ex with
      | false => cases h
      | true =>
        simp only [next] at h
        split_ifs at h
  | bucketNew | bucketStat =>
    cases h
    exact hb
  | streamOpen x r prior =>
    cases r with
    | none =>
      cases h
      cases hb
    | some r =>
      simp only [next] at h
      split_ifs at h <;> cases h
      cases hb
  | rekeyGot x j data =>
    simp only [next] at h
    split at h
    · cases h
    · split at h <;> cases h
      cases hb
  | staged | labelsChecked | labelsStaged | rekeyNew =>
    simp only [next] at h
    split at h <;> cases h
    first
    | cases hb
    | split_ifs at hb <;> cases hb
  | putDir | putRead | streamRead | upserting | labelsNew | labelsRead | deleteNew | deleteChecked | deleteOpened =>
    simp only [next] at h
    split_ifs at h
    all_goals cases h
    all_goals cases hb
  | putNew | putLocked | streamNew | streamDir | releasing =>
    cases h
    cases hb
  | unlocking | removing => cases h

theorem bucketOf_start {q : Objects.Request} (hq : OnlyHere b (.store (.call i q))) : bucketOf q.start ≠ some b := by
  cases q with
  | deleteBucket b' => exact fun h => hq (Option.some_inj.1 h)
  | put | beginStreamingPut | setLabels | delete | rekey => exact nofun

/-- a step that touches no file of the bucket, and starts no deletion -/
theorem Inv.keep (h : Inv b w) (hfiles : w'.st.files = w.st.files) (hplaced : w'.placed = w.placed) (hacked : w'.acked = w.acked)
    (hthreads : ∀ j p, w'.st.threads j = some p → bucketOf p = some b → w'.handlers j = some (.deleting b))
    (hpast : ∀ j, PastCheck b w' j → PastCheck b w j) : Inv b w' where
  threads := hthreads
  empty := fun j hj x hx => by rw [hfiles]; exact h.empty j (hpast j hj) x hx
  placed := fun x hx hp => by rw [hfiles]; exact h.placed x hx (hplaced ▸ hp)
  acked := fun x hx => by rw [hplaced]; exact h.acked x (hacked ▸ hx)

/-- the ghosts after one step of a thread -/
theorem acked_step (h : Inv b w) (p : Pc) (a : Act) (x : ObjKey) (hx : acknowledge w.placed w.acked p a x = true) :
    place w.placed a x = true := by
  have hplaced : ∀ a, (∀ y, a ≠ .unlink y) → w.placed x = true → place w.placed a x = true := by
    intro a ha hp
    cases a with
    | unlink y => exact absurd rfl (ha y)
    | install y f | installLabels y f =>
      by_cases hxy : x = y
      · subst hxy
        exact Function.update_self ..
      · rw [place, Function.update_of_ne hxy]
        exact hp
    | skip | mkdir | lock | unlock | writeTmp | writeLabelsTmp | upsert | remove | rmdir => exact hp
  by_cases ha : ∃ y, a = .unlink y
  · obtain ⟨y, rfl⟩ := ha
    simp only [acknowledge, place] at hx ⊢
    by_cases hxy : x = y
    · subst hxy
      rw [Function.update_self] at hx
      cases hx
    · rw [Function.update_of_ne hxy] at hx ⊢
      exact h.acked x hx
  · have ha' : ∀ y, a ≠ .unlink y := fun y hy => ha ⟨y, hy⟩
    refine hplaced a ha' ?_
    have hother : acknowledge w.placed w.acked p a = (returns p).elim w.acked fun y => Function.update w.acked y (w.placed y) := by
      cases a with
      | unlink y => exact absurd rfl (ha' y)
      | install | installLabels | skip | mkdir | lock | unlock | writeTmp | writeLabelsTmp | upsert | remove | rmdir => rfl
    rw [hother] at hx
    cases hret : returns p with
    | none =>
      rw [hret] at hx
      exact h.acked x hx
    | some y =>
      rw [hret, Option.elim_some] at hx
      by_cases hxy : x = y
      · subst hxy
        rwa [Function.update_self] at hx
      · rw [Function.update_of_ne hxy] at hx
        exact h.acked x hx

/-- what one step of a thread does to the files of the bucket -/
theorem files_step (h : Inv b w) {p : Pc} (hp : w.st.threads i = some p) (hclear : Clear B C b w (.store (.step i))) {x : ObjKey}
    (hx : Object b x) :
    (∀ j, PastCheck b w j → (w.st.apply (next B C w.st p).1).files x = none) ∧
      (place w.placed (next B C w.st p).1 x = true → (w.st.apply (next B C w.st p).1).files x ≠ none) := by
  have heff := next_effect B C w.st p
  have hclear' := hclear p x
  rcases hnext : next B C w.st p with ⟨a, p'⟩
  rw [hnext] at heff hclear'
  have hsame : (w.st.apply a).files x = w.st.files x → place w.placed a x = w.placed x →
      (∀ j, PastCheck b w j → (w.st.apply a).files x = none) ∧ (place w.placed a x = true → (w.st.apply a).files x ≠ none) := by
    intro hfiles hplace
    rw [hfiles, hplace]
    exact ⟨fun j hj => h.empty j hj x hx, h.placed x hx⟩
  -- a file renamed into place, while no handler relies on its check
  have hinstall : ∀ y f, w.st.threads i = some p → (a = .install y f ∨ a = .installLabels y f) →
      (∀ j, PastCheck b w j → (w.st.apply a).files x = none) ∧ (place w.placed a x = true → (w.st.apply a).files x ≠ none) := by
    intro y f hp ha
    have hfiles : (w.st.apply a).files = Function.update w.st.files y (some f) := by rcases ha with rfl | rfl <;> rfl
    have hplace : place w.placed a = Function.update w.placed y true := by rcases ha with rfl | rfl <;> rfl
    rw [hfiles, hplace] at hsame ⊢
    by_cases hxy : x = y
    · subst hxy
      rw [Function.update_self]
      exact ⟨fun j hj => absurd hj (hclear' f hp ha hx j), fun _ => Option.some_ne_none f⟩
    · exact hsame (Function.update_of_ne hxy _ _) (Function.update_of_ne hxy _ _)
  cases heff with
  | silent ha =>
    refine hsame (congrFun (ha.same w.st).1 x) ?_
    cases a with
    | install | installLabels | unlink | upsert | remove | rmdir => exact ha.elim
    | skip | mkdir | lock | unlock | writeTmp | writeLabelsTmp => rfl
  | upsert | remove | removeRow => exact hsame rfl rfl
  | install hf => exact hinstall _ _ hp (Or.inl rfl)
  | installLabels hf => exact hinstall _ _ hp (Or.inr rfl)
  | unlink y =>
    by_cases hxy : x = y
    · subst hxy
      refine ⟨fun _ _ => Function.update_self .., fun hplace => ?_⟩
      rw [place, Function.update_self] at hplace
      cases hplace
    · exact hsame (Function.update_of_ne hxy _ _) (Function.update_of_ne hxy _ _)
  | rmdir n hdir =>
    rename_i b'
    by_cases hb : x.1 = b'
    · -- the thread belongs to a handler past its check, so the object was not there
      have hown : w.handlers i = some (.deleting b) := h.threads i _ hp (congrArg some (hb.symm.trans hx.1))
      have hnone := h.empty i (Or.inr hown) x hx
      have hgone : (w.st.apply (.rmdir b')).files x = none := if_pos hb
      exact ⟨fun _ _ => hgone, fun hplace => absurd hnone (h.placed x hx hplace)⟩
    · exact hsame (if_neg hb) rfl

theorem thread_inv (h : Inv b w) {p : Pc} (hp : w.st.threads i = some p) (hclear : Clear B C b w (.store (.step i))) :
    Inv b (step B C w (.store (.step i))) := by
  have hstep : Objects.step B C w.st (.step i) = (w.st.apply (next B C w.st p).1).setThread i (next B C w.st p).2 := by
    simp only [Objects.step, hp]
  have hthreads : (Objects.step B C w.st (.step i)).threads = Function.update w.st.threads i (next B C w.st p).2 := by
    rw [hstep, St.setThread, Objects.apply_threads]
  have hfiles : (Objects.step B C w.st (.step i)).files = (w.st.apply (next B C w.st p).1).files := by rw [hstep]; rfl
  -- a handler past its check was so before
  have hpast : ∀ j, PastCheck b (step B C w (.store (.step i))) j → PastCheck b w j := by
    intro j hj
    rw [PastCheck] at hj
    simp only [step, hp] at hj
    by_cases hji : j = i
    · subst hji
      rw [Function.update_self] at hj
      rw [settle.eq_def] at hj
      split at hj
      · rcases hj with hj | hj <;> cases hj
      · exact hj
    · rw [Function.update_of_ne hji] at hj
      exact hj
  have hw' : step B C w (.store (.step i)) = ⟨Objects.step B C w.st (.step i),
      Function.update w.handlers i (settle w.st (w.handlers i) p (next B C w.st p).2), place w.placed (next B C w.st p).1,
      acknowledge w.placed w.acked p (next B C w.st p).1⟩ := by simp only [step, hp]
  rw [hw'] at hpast ⊢
  refine ⟨fun j q hq hb => ?_, fun j hj x hx => ?_, fun x hx hplaced => ?_, fun x hx => acked_step h p _ x hx⟩
  · rw [hthreads] at hq
    by_cases hji : j = i
    · subst hji
      rw [Function.update_self] at hq
      change Function.update w.handlers j _ j = _
      rw [Function.update_self, h.threads j p hp (bucketOf_next hq hb), hq]
      rfl
    · rw [Function.update_of_ne hji] at hq
      exact (Function.update_of_ne hji _ _).trans (h.threads j q hq hb)
  · rw [hfiles]
    exact (files_step h hp hclear hx).1 j (hpast j hj)
  · rw [hfiles]
    exact (files_step h hp hclear hx).2 hplaced

/-- a step of one client that touches no file -/
theorem Inv.client (h : Inv b w) {t : Option Pc} {o : Option Handler} (hfiles : w'.st.files = w.st.files) (hplaced : w'.placed = w.placed)
    (hacked : w'.acked = w.acked) (hthreads : w'.st.threads = Function.update w.st.threads i t)
    (hhandlers : w'.handlers = Function.update w.handlers i o) (ht : ∀ p, t = some p → bucketOf p = some b → o = some (.deleting b))
    (ho : o = some (.checked b) ∨ o = some (.deleting b) → ∀ x, Object b x → w.st.files x = none) : Inv b w' where
  threads := fun j p hp hb => by
    rw [hthreads] at hp
    rw [hhandlers]
    by_cases hji : j = i
    · subst hji
      rw [Function.update_self] at hp ⊢
      exact ht p hp hb
    · rw [Function.update_of_ne hji] at hp ⊢
      exact h.threads j p hp hb
  empty := fun j hj x hx => by
    rw [hfiles]
    rw [PastCheck, hhandlers] at hj
    by_cases hji : j = i
    · subst hji
      rw [Function.update_self] at hj
      exact ho hj x hx
    · rw [Function.update_of_ne hji] at hj
      exact h.empty j hj x hx
  placed := fun x hx hp => by rw [hfiles]; exact h.placed x hx (hplaced ▸ hp)
  acked := fun x hx => by rw [hplaced]; exact h.acked x (hacked ▸ hx)

theorem check_inv (h : Inv b w) {items : List ObjKey} {more : Bool} (hlegal : Legal w (.check i items more))
    (hclear : Clear B C b w (.check i items more)) : Inv b (step B C w (.check i items more)) := by
  simp only [step]
  split
  · rename_i b' hasked
    refine h.client rfl rfl rfl (Function.update_eq_self i w.st.threads).symm rfl (fun p hp hb => ?_) fun hpast x hx => ?_
    · have hdeleting := h.threads i p hp hb
      rw [hasked] at hdeleting
      cases hdeleting
    · -- no row of an object, so no file of one
      split_ifs at hpast with hfull
      · rcases hpast with hpast | hpast <;> cases hpast
      · rcases hpast with hpast | hpast
        · cases hpast
          by_contra hfile
          rw [Bool.or_eq_true, not_or, List.any_eq_true] at hfull
          obtain ⟨hitems, hmore⟩ := hfull
          rcases hlegal b hasked x hx.1 (hclear hasked x hx hfile) with hmem | hmem
          · exact hitems ⟨x, hmem, by rw [hx.2]; rfl⟩
          · exact hmore hmem
        · cases hpast
  · exact h

theorem step_inv (h : Inv b w) {ev : Ev} (hlegal : Legal w ev) (honly : OnlyHere b ev) (hclear : Clear B C b w ev) :
    Inv b (step B C w ev) := by
  have hsame : ∀ j, w.handlers = Function.update w.handlers j (w.handlers j) := fun j => (Function.update_eq_self j w.handlers).symm
  have hempty : ∀ j, w.handlers j = some (.checked b) ∨ w.handlers j = some (.deleting b) → ∀ x, Object b x → w.st.files x = none := h.empty
  cases ev with
  | ask i b' =>
    simp only [step]
    split_ifs with hfree
    · rw [Option.isNone_iff_eq_none, Option.isNone_iff_eq_none] at hfree
      refine h.client rfl rfl rfl (Function.update_eq_self i w.st.threads).symm rfl (fun p hp _ => ?_) fun hpast => ?_
      · rw [hfree.2] at hp
        cases hp
      · rcases hpast with hpast | hpast <;> cases hpast
    · exact h
  | check i items more => exact check_inv h hlegal hclear
  | delete i =>
    simp only [step]
    split
    · rename_i b' hchecked
      simp only [Objects.step]
      have hpast : some (Handler.deleting b') = some (.checked b) ∨ some (Handler.deleting b') = some (.deleting b) →
          ∀ x, Object b x → w.st.files x = none := by
        rintro (hb | hb)
        · cases hb
        · cases hb
          exact h.empty i (Or.inl hchecked)
      split_ifs
      · refine h.client rfl rfl rfl rfl rfl (fun p hp hb => ?_) hpast
        cases hp
        exact congrArg (Option.map Handler.deleting) hb
      · refine h.client rfl rfl rfl (Function.update_eq_self i w.st.threads).symm rfl (fun p hp hb => ?_) hpast
        have hdeleting := h.threads i p hp hb
        rw [hchecked] at hdeleting
        cases hdeleting
    · exact h
  | store ev =>
    cases ev with
    | call i q =>
      simp only [step, Objects.step]
      split_ifs
      · refine h.client rfl rfl rfl rfl (hsame i) (fun p hp hb => ?_) (hempty i)
        cases hp
        exact absurd hb (bucketOf_start honly)
      · exact h
      · exact h
    | step i =>
      cases hp : w.st.threads i with
      | none => simpa only [step, hp] using h
      | some p => exact thread_inv h hp hclear
    | commit i r =>
      simp only [step, Objects.step]
      split
      · split_ifs
        · refine h.client rfl rfl rfl rfl (hsame i) (fun p hp hb => ?_) (hempty i)
          cases hp
          cases hb
        · refine h.client rfl rfl rfl rfl (hsame i) (fun p hp _ => ?_) (hempty i)
          cases hp
      · exact h
    | abort i =>
      simp only [step, Objects.step]
      split
      · refine h.client rfl rfl rfl rfl (hsame i) (fun p hp _ => ?_) (hempty i)
        cases hp
      · exact h
    | list i l =>
      simp only [step, Objects.step]
      split
      · rename_i b' dirExists hp
        refine h.client rfl rfl rfl rfl (hsame i) (fun p hq hb => ?_) (hempty i)
        cases hq
        exact h.threads i _ hp hb
      · exact h
    | scan l =>
      simp only [step, Objects.step]
      split <;> exact h.keep rfl rfl rfl h.threads fun _ => id
    | rebuild =>
      simp only [step, Objects.step, Objects.stepRebuild]
      split
      · split <;> exact h.keep rfl rfl rfl h.threads fun _ => id
      · exact h.keep rfl rfl rfl h.threads fun _ => id
      · exact h.keep rfl rfl rfl h.threads fun _ => id
      · exact h.keep rfl rfl rfl h.threads fun _ => id
      · exact h
    | listRows l =>
      simp only [step, Objects.step]
      split <;> exact h.keep rfl rfl rfl h.threads fun _ => id

/-! ## Whole runs -/

/-- nobody deletes the bucket yet -/
structure Start (b : String) (w : World) : Prop where
  handlers : ∀ i, w.handlers i = none
  threads : ∀ i p, w.st.threads i = some p → bucketOf p ≠ some b
  placed : ∀ x, Object b x → w.placed x = true → w.st.files x ≠ none
  acked : ∀ x, w.acked x = true → w.placed x = true

theorem Start.inv (h : Start b w) : Inv b w where
  threads := fun i p hp hb => absurd hb (h.threads i p hp)
  empty := fun i hi => by
    rw [PastCheck, h.handlers i] at hi
    rcases hi with hi | hi <;> cases hi
  placed := h.placed
  acked := h.acked

def checks : List Ev := [.ask 0 "b", .check 0 [] false]

/-- `delete_bucket`, if these are the rows -/
def deletes (rows : List ObjKey) : List Ev :=
  .delete 0 :: .store (.step 0) :: .store (.list 0 rows) :: List.replicate (rows.length + 1) (.store (.step 0))

def puts : List Ev := (Objects.wholePut 1 1).map .store

end Y2q.DeleteBucket
