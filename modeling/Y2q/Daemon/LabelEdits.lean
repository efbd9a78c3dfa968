/-
Edits of one object's labels by many clients (`handlers/tags.rs`, `put_tagging` of `s3/object.rs`).

A PATCH or a `PutObjectTagging` reads the labels of the object (`describe`), works out the new ones, and stores these with
`set_labels`. Reading and storing are two calls of the storage, and the second one is itself several steps (`Storage/Objects`): it
writes a copy of the file to `<id>.labels.tmp`, which all edits of the object share, and renames it into place.

Requests that are refused before they read, and tagging bodies that are no XML, change nothing and are left out.

- `step`: a client sends a request, its handler takes a step, or the storage does.
- `Serial`: the successful edits, one after the other in some order, give the labels, and each response shows those after its own edit.
- `edits_serial`: so it is, once all have returned, if every edit that renames its copy into place finds its own copy there, and labels
  of which it would make the same.
- `edit_is_lost`: two PATCH requests, and the labels of one are gone.
-/
import Mathlib.Tactic
import Y2q.Core.Run
import Y2q.Daemon.Labels
import Y2q.S3.Meta
import Y2q.Storage.Objects

namespace Y2q.LabelEdits

open Objects (St Pc File LabelSet ObjKey Backend Envelopes next)
open Labels Meta
open Y2q.Run

/-! ## Requests -/

inductive Edit where
  | patch (mode : LabelMode) (incoming : LabelSet) (canRead : Bool)
  | tagging (tags : List (String × String))
deriving DecidableEq

/-- the labels it makes of others; none if the request is refused -/
def Edit.resolve (limits : LabelLimits) (e : Edit) (current : LabelSet) : Option LabelSet :=
  match e with
  | .patch mode incoming _ => some (mode.resolve current incoming)
  | .tagging tags => (replaceTags limits current tags).toOption

/-- the labels in the response, if there are any: without read access only those that the caller sent -/
def Edit.shows (e : Edit) (final : LabelSet) : Option LabelSet :=
  match e with
  | .patch _ _ true => some final
  | .patch _ incoming false => some incoming
  | .tagging _ => none

inductive Handler where
  | sent (e : Edit)
  /-- `describe` has found the object unlocked -/
  | checked (e : Edit)
  | described (e : Edit) (final : LabelSet)
  | storing (e : Edit) (final : LabelSet)
  | answered (e : Edit) (shown : Option LabelSet)
  | failed (e : Edit)

structure World where
  st : St
  handlers : ℕ → Option Handler
  /-- whose copies have been renamed into place; the code has no such list -/
  order : List ℕ

inductive Ev where
  | send (i : ℕ) (e : Edit)
  | handle (i : ℕ) (now : ℕ)
  | store (e : Objects.Ev)

/-- how `set_labels` ends: the upsert is its last step, and may fail unnoticed -/
def outcome (e : Edit) (final : LabelSet) : Pc → Handler
  | .upserting _ _ _ => .answered e (e.shows final)
  | _ => .failed e

/-- a handler after a step of its storage call -/
def settle (h : Option Handler) (p : Pc) (p' : Option Pc) : Option Handler :=
  match h, p' with
  | some (.storing e final), none => some (outcome e final p)
  | h, _ => h

/-- the next step renames a copy into place -/
def renames (s : St) : Pc → Bool
  | .labelsStaged x _ => (s.labelsTmp x).isSome
  | _ => false

section Step

variable (B : Backend) (C : Envelopes) (limits : LabelLimits) (x : ObjKey)

/-- the next step of a handler -/
def handle (w : World) (i now : ℕ) : Handler → World
  | .sent e => { w with handlers := Function.update w.handlers i (some (if w.st.locks x then .failed e else .checked e)) }
  | .checked e =>
    let final := (w.st.files x).bind fun f => e.resolve limits f.metadata.labels
    { w with handlers := Function.update w.handlers i (some (final.elim (.failed e) (.described e))) }
  | .described e final =>
    { w with
      st := Objects.step B C w.st (.call i (.setLabels x final now))
      handlers := Function.update w.handlers i (some (.storing e final)) }
  | _ => w

/-- the clients all edit the labels of `x`; client `i` has the storage thread `i` -/
def step (w : World) : Ev → World
  | .send i e =>
    if (w.handlers i).isNone ∧ (w.st.threads i).isNone then { w with handlers := Function.update w.handlers i (some (.sent e)) } else w
  | .handle i now => (w.handlers i).elim w (handle B C limits x w i now)
  | .store (.call i q) => if (w.handlers i).isNone then { w with st := Objects.step B C w.st (.call i q) } else w
  | .store (.step i) =>
    match w.st.threads i with
    | none => w
    | some p =>
      { st := Objects.step B C w.st (.step i)
        handlers := Function.update w.handlers i (settle (w.handlers i) p (next B C w.st p).2)
        order := if (w.handlers i).isSome && renames w.st p then w.order ++ [i] else w.order }
  | .store e => { w with st := Objects.step B C w.st e }

end Step

/-! ## One after the other -/

/-- the request of a client that has been answered, and the labels in the answer -/
def World.answers (w : World) (i : ℕ) : Option (Edit × Option LabelSet) :=
  match w.handlers i with
  | some (.answered e shown) => some (e, shown)
  | _ => none

/-- one edit on its own, if that is what its client was shown -/
def exec (limits : LabelLimits) (answers : ℕ → Option (Edit × Option LabelSet)) (i : ℕ) (current : LabelSet) : Option LabelSet :=
  (answers i).bind fun a => (a.1.resolve limits current).filter fun final => a.2 = a.1.shows final

def World.labels (w : World) (x : ObjKey) : Option LabelSet := (w.st.files x).map (·.metadata.labels)

def Serial (limits : LabelLimits) (x : ObjKey) (before : LabelSet) (w : World) : Prop :=
  ∃ order : List ℕ, order.Nodup ∧ (∀ i, i ∈ order ↔ (w.answers i).isSome) ∧
    replay (exec limits w.answers) before order = w.labels x

/-- no request is under way -/
def Returned (w : World) : Prop :=
  ∀ i h, w.handlers i = some h → (∃ e shown, h = .answered e shown) ∨ ∃ e, h = .failed e

/-! ## Other objects -/

section Elsewhere

variable (x : ObjKey)

/-- the thread works on another object -/
def PcElsewhere : Pc → Prop
  | .putNew y _ | .putDir y _ | .putLocked y _ | .putRead y _ _ | .streamNew y _ | .streamDir y _ | .streamRead y _ _
  | .streamOpen y _ _ | .staged y _ _ _ | .releasing y _ | .upserting y _ _ | .unlocking y | .labelsNew y _ _ | .labelsChecked y _ _
  | .labelsRead y _ | .labelsStaged y _ | .deleteNew y | .deleteChecked y | .deleteOpened y | .removing y | .rekeyNew y _
  | .rekeyGot y _ _ => y ≠ x
  | .bucketNew b | .bucketStat b _ | .bucketRows b _ _ _ => b ≠ x.1

def ActElsewhere : Objects.Act → Prop
  | .install y _ | .writeLabelsTmp y _ | .installLabels y _ | .unlink y => y ≠ x
  | .rmdir b => b ≠ x.1
  | _ => True

def RequestElsewhere : Objects.Request → Prop
  | .put y _ | .beginStreamingPut y | .setLabels y _ _ | .delete y | .rekey y _ => y ≠ x
  | .deleteBucket b => b ≠ x.1

/-- no write to the object but by these requests -/
def Elsewhere : Ev → Prop
  | .store (.call _ q) => RequestElsewhere x q
  | _ => True

variable {x} {B : Backend} {C : Envelopes} {s : St} {p : Pc}

theorem apply_elsewhere {a : Objects.Act} (ha : ActElsewhere x a) :
    (s.apply a).files x = s.files x ∧ (s.apply a).labelsTmp x = s.labelsTmp x := by
  cases a with
  | install y f => exact ⟨Function.update_of_ne (Ne.symm ha) _ _, rfl⟩
  | writeLabelsTmp y f => exact ⟨rfl, Function.update_of_ne (Ne.symm ha) _ _⟩
  | installLabels y f => exact ⟨Function.update_of_ne (Ne.symm ha) _ _, Function.update_of_ne (Ne.symm ha) _ _⟩
  | unlink y => exact ⟨Function.update_of_ne (Ne.symm ha) _ _, rfl⟩
  | rmdir b => exact ⟨if_neg (Ne.symm ha), if_neg (Ne.symm ha)⟩
  | skip | mkdir | lock | unlock | writeTmp | upsert | remove => exact ⟨rfl, rfl⟩

theorem next_elsewhere (h : PcElsewhere x p) :
    ActElsewhere x (next B C s p).1 ∧ ∀ p', (next B C s p).2 = some p' → PcElsewhere x p' := by
  cases p with
  | bucketRows b ex n todo =>
    cases todo with
    | cons y todo => exact ⟨trivial, by rintro p' ⟨⟩; exact h⟩
    | nil =>
      cases ex with
      | false => exact ⟨trivial, by rintro p' ⟨⟩⟩
      | true =>
        simp only [next]
        split_ifs
        · exact ⟨h, by rintro p' ⟨⟩⟩
        · exact ⟨trivial, by rintro p' ⟨⟩⟩
  | streamOpen y r prior =>
    cases r with
    | none => exact ⟨trivial, by rintro p' ⟨⟩; exact h⟩
    | some r => simp only [next]; split_ifs <;> exact ⟨trivial, by rintro p' ⟨⟩ <;> exact h⟩
  | staged y row early rekey =>
    simp only [next]
    split
    · refine ⟨h, ?_⟩
      split_ifs <;> (rintro p' ⟨⟩; exact h)
    · exact ⟨trivial, by rintro p' ⟨⟩⟩
  | upserting y row locked =>
    refine ⟨trivial, ?_⟩
    simp only [next]
    split_ifs <;> rintro p' ⟨⟩
    exact h
  | rekeyGot y j data =>
    simp only [next]
    split
    · exact ⟨trivial, by rintro p' ⟨⟩⟩
    · split
      · exact ⟨trivial, by rintro p' ⟨⟩⟩
      · exact ⟨trivial, by rintro p' ⟨⟩; exact h⟩
  | labelsChecked | labelsStaged | rekeyNew =>
    simp only [next]
    split
    · exact ⟨by first | exact h | trivial, by rintro p' ⟨⟩; exact h⟩
    · exact ⟨trivial, by rintro p' ⟨⟩⟩
  | putDir | putRead | streamRead | labelsNew | labelsRead | deleteNew | deleteChecked | deleteOpened =>
    simp only [next]
    split_ifs
    · exact ⟨by first | exact h | trivial, by rintro p' ⟨⟩ <;> exact h⟩
    · exact ⟨by first | exact h | trivial, by rintro p' ⟨⟩ <;> exact h⟩
  | putNew | putLocked | streamNew | streamDir | releasing | unlocking | removing | bucketNew | bucketStat =>
    exact ⟨trivial, by rintro p' ⟨⟩ <;> exact h⟩

theorem start_elsewhere {q : Objects.Request} (h : RequestElsewhere x q) : PcElsewhere x q.start := by
  cases q <;> exact h

end Elsewhere

/-! ## What the steps keep -/

section Inv

variable (limits : LabelLimits) (x : ObjKey)

/-- the storage call of an edit; `done`: its copy has been renamed into place -/
def Stores (final : LabelSet) (done : Prop) : Pc → Prop
  | .labelsNew y l _ => y = x ∧ l = final ∧ ¬done
  | .labelsChecked y l _ => y = x ∧ l = final ∧ ¬done
  | .labelsRead y f => y = x ∧ f.metadata.labels = final ∧ ¬done
  | .labelsStaged y row => y = x ∧ row.labels = final ∧ ¬done
  | .upserting y _ locked => y = x ∧ locked = false ∧ done
  | _ => False

/-- a client, its storage thread, and whether its copy has been renamed into place -/
def Slot (thread : Option Pc) (done : Prop) : Option Handler → Prop
  | none => (∀ p, thread = some p → PcElsewhere x p) ∧ ¬done
  | some (.storing _ final) => ∃ p, thread = some p ∧ Stores x final done p
  | some (.answered _ _) => thread = none ∧ done
  | some _ => thread = none ∧ ¬done

/-- what the clients whose edits are stored are shown, or will be -/
def World.results (w : World) (i : ℕ) : Option (Edit × Option LabelSet) :=
  match w.handlers i with
  | some (.storing e final) => some (e, e.shows final)
  | some (.answered e shown) => some (e, shown)
  | _ => none

structure Inv (before : LabelSet) (w : World) : Prop where
  slots : ∀ i, Slot x (w.st.threads i) (i ∈ w.order) (w.handlers i)
  nodup : w.order.Nodup
  serial : replay (exec limits w.results) before w.order = w.labels x

/-- an edit that renames a copy into place finds its own there, and labels of which it would make the same -/
def Current (w : World) : Ev → Prop
  | .store (.step i) => ∀ e final row f, w.handlers i = some (.storing e final) → w.st.threads i = some (.labelsStaged x row) →
      w.st.labelsTmp x = some f →
        f.metadata.labels = final ∧ ∃ cur, w.labels x = some cur ∧ e.resolve limits cur = some final
  | _ => True

variable {limits x} {B : Backend} {C : Envelopes} {before : LabelSet} {w w' : World} {i : ℕ}

/-- a step that renames nothing -/
theorem Inv.keep (h : Inv limits x before w) (hlabels : w'.labels x = w.labels x) (horder : w'.order = w.order)
    (hslots : ∀ j, Slot x (w'.st.threads j) (j ∈ w.order) (w'.handlers j)) (hresults : ∀ j ∈ w.order, w'.results j = w.results j) :
    Inv limits x before w' := by
  refine ⟨horder ▸ hslots, horder ▸ h.nodup, ?_⟩
  rw [horder, hlabels, ← h.serial]
  refine replay_congr (fun j hj => ?_) before
  funext current
  rw [exec, exec, hresults j hj]

/-- a step of one client -/
theorem Inv.client (h : Inv limits x before w) {t : Option Pc} {o : Option Handler} (hlabels : w'.labels x = w.labels x)
    (horder : w'.order = w.order) (hthreads : w'.st.threads = Function.update w.st.threads i t)
    (hhandlers : w'.handlers = Function.update w.handlers i o) (hslot : Slot x t (i ∈ w.order) o)
    (hresult : i ∈ w.order → w'.results i = w.results i) : Inv limits x before w' := by
  refine h.keep hlabels horder (fun j => ?_) fun j hj => ?_
  · by_cases hji : j = i
    · subst hji
      rw [hthreads, hhandlers, Function.update_self, Function.update_self]
      exact hslot
    · rw [hthreads, hhandlers, Function.update_of_ne hji, Function.update_of_ne hji]
      exact h.slots j
  · by_cases hji : j = i
    · exact hji ▸ hresult (hji ▸ hj)
    · rw [World.results, World.results, hhandlers, Function.update_of_ne hji]

theorem handle_inv (h : Inv limits x before w) {o : Handler} (ho : w.handlers i = some o) (now : ℕ) :
    Inv limits x before (handle B C limits x w i now o) := by
  have hslot := h.slots i
  rw [ho] at hslot
  have hself : w.st.threads = Function.update w.st.threads i (w.st.threads i) := (Function.update_eq_self i w.st.threads).symm
  cases o with
  | sent e =>
    refine h.client rfl rfl hself rfl ?_ fun hi => absurd hi hslot.2
    split_ifs <;> exact hslot
  | checked e =>
    refine h.client rfl rfl hself rfl ?_ fun hi => absurd hi hslot.2
    cases (w.st.files x).bind fun f => e.resolve limits f.metadata.labels <;> exact hslot
  | described e final =>
    have hcall : Objects.step B C w.st (.call i (.setLabels x final now)) = w.st.setThread i (some (.labelsNew x final now)) := by
      rw [Objects.step, hslot.1]
      rfl
    refine h.client ?_ rfl ?_ rfl ⟨.labelsNew x final now, rfl, rfl, rfl, hslot.2⟩ fun hi => absurd hi hslot.2
    · simp only [World.labels, handle, hcall]
      rfl
    · simp only [handle, hcall]
      rfl
  | storing | answered | failed => exact h

/-- a step of the storage call of an edit -/
theorem storing_inv (h : Inv limits x before w) {e : Edit} {final : LabelSet} {p : Pc} (hi : w.handlers i = some (.storing e final))
    (hp : w.st.threads i = some p) (hcurrent : Current limits x w (.store (.step i))) :
    Inv limits x before (step B C limits x w (.store (.step i))) := by
  have hslot := h.slots i
  rw [hi] at hslot
  obtain ⟨p', hp', hstores⟩ := hslot
  obtain rfl : p' = p := Option.some_inj.1 (hp'.symm.trans hp)
  have hstep : Objects.step B C w.st (.step i) = (w.st.apply (next B C w.st p').1).setThread i (next B C w.st p').2 := by
    simp only [Objects.step, hp]
  have hthreads : (Objects.step B C w.st (.step i)).threads = Function.update w.st.threads i (next B C w.st p').2 := by
    rw [hstep, St.setThread, Objects.apply_threads]
  simp only [step, hp, hi, Option.isSome_some, Bool.true_and]
  cases p' with
  | labelsNew y l now =>
    obtain ⟨rfl, rfl, hnew⟩ := hstores
    have hlabels : (Objects.step B C w.st (.step i)).files y = w.st.files y := by
      rw [hstep]
      simp only [next]
      split_ifs <;> rfl
    refine h.client (congrArg (Option.map _) hlabels) rfl hthreads rfl ?_ fun hmem => absurd hmem hnew
    simp only [next]
    split_ifs
    · exact ⟨rfl, hnew⟩
    · exact ⟨.labelsChecked y l now, rfl, rfl, rfl, hnew⟩
  | labelsChecked y l now =>
    obtain ⟨rfl, rfl, hnew⟩ := hstores
    have hfiles : (Objects.step B C w.st (.step i)).files y = w.st.files y := by
      rw [hstep]
      simp only [next]
      split <;> rfl
    refine h.client (congrArg (Option.map _) hfiles) rfl hthreads rfl ?_ fun hmem => absurd hmem hnew
    simp only [next]
    split
    · exact ⟨.labelsRead y _, rfl, rfl, rfl, hnew⟩
    · exact ⟨rfl, hnew⟩
  | labelsRead y f =>
    obtain ⟨rfl, hf, hnew⟩ := hstores
    have hfiles : (Objects.step B C w.st (.step i)).files y = w.st.files y := by
      rw [hstep]
      simp only [next]
      split_ifs <;> rfl
    refine h.client (congrArg (Option.map _) hfiles) rfl hthreads rfl ?_ fun hmem => absurd hmem hnew
    simp only [next]
    split_ifs
    · exact ⟨.labelsStaged y f.metadata, rfl, rfl, hf, hnew⟩
    · exact ⟨rfl, hnew⟩
  | labelsStaged y row =>
    obtain ⟨rfl, hrow, hnew⟩ := hstores
    cases htmp : w.st.labelsTmp y with
    | none =>
      have hfiles : (Objects.step B C w.st (.step i)).files y = w.st.files y := by
        rw [hstep]
        simp only [next, htmp]
        rfl
      refine h.client (congrArg (Option.map _) hfiles) (by simp [renames, htmp]) hthreads rfl ?_ fun hmem => absurd hmem hnew
      simp only [next, htmp]
      exact ⟨rfl, hnew⟩
    | some f =>
      -- the copy is renamed into place
      obtain ⟨hf, cur, hcur, hresolve⟩ := hcurrent e final row f hi hp htmp
      have hnext : next B C w.st (.labelsStaged y row) = (.installLabels y f, some (.upserting y row false)) := by simp only [next, htmp]
      rw [hnext] at hthreads hstep
      have hrenames : renames w.st (.labelsStaged y row) = true := by simp [renames, htmp]
      have hsame : Function.update w.handlers i (some (.storing e final)) = w.handlers := by rw [← hi, Function.update_eq_self]
      simp only [hnext, hrenames, if_true, settle, hsame]
      refine ⟨fun k => ?_, ?_, ?_⟩
      · by_cases hki : k = i
        · subst hki
          rw [hthreads, Function.update_self, hi]
          exact ⟨.upserting y row false, rfl, rfl, rfl, by simp⟩
        · rw [hthreads, Function.update_of_ne hki]
          have hiff : k ∈ w.order ++ [i] ↔ k ∈ w.order := by simp [hki]
          simp only [hiff]
          exact h.slots k
      · exact List.nodup_append.2 ⟨h.nodup, List.nodup_singleton i, by
          rintro k hk _ hki rfl
          exact hnew (List.mem_singleton.1 hki ▸ hk)⟩
      · have hlabels : ((Objects.step B C w.st (.step i)).files y).map (·.metadata.labels) = some final := by
          rw [hstep]
          change (Function.update w.st.files y (some f) y).map _ = _
          rw [Function.update_self]
          exact congrArg some hf
        have hexec : exec limits w.results i cur = some final := by
          simp [exec, World.results, hi, hresolve]
        change replay (exec limits w.results) before (w.order ++ [i]) = _
        rw [World.labels, hlabels, replay_append, h.serial, hcur]
        simp [replay, hexec]
  | upserting y row locked =>
    obtain ⟨rfl, rfl, hdone⟩ := hstores
    have hfiles : (Objects.step B C w.st (.step i)).files y = w.st.files y := by rw [hstep]; rfl
    refine h.client (congrArg (Option.map _) hfiles) rfl hthreads rfl ⟨rfl, hdone⟩ fun _ => ?_
    simp only [World.results, hi, Function.update_self]
    rfl
  | _ => exact hstores.elim

/-- a step of another request's thread -/
theorem other_inv (h : Inv limits x before w) (p' : Option Pc) (hi : w.handlers i = none) (hp' : ∀ q, p' = some q → PcElsewhere x q)
    (hlabels : w'.labels x = w.labels x) (horder : w'.order = w.order) (hhandlers : w'.handlers = w.handlers)
    (hthreads : w'.st.threads = Function.update w.st.threads i p') : Inv limits x before w' := by
  have hslot := h.slots i
  rw [hi] at hslot
  refine h.client hlabels horder hthreads (o := none) ?_ ⟨hp', hslot.2⟩ fun hmem => absurd hmem hslot.2
  rw [hhandlers, ← hi, Function.update_eq_self]

/-- a thread that is no storage call of an edit is elsewhere -/
theorem Inv.elsewhere (h : Inv limits x before w) {p : Pc} (hp : w.st.threads i = some p) (hno : ∀ final done, ¬Stores x final done p) :
    w.handlers i = none ∧ PcElsewhere x p := by
  have hslot := h.slots i
  rw [hp] at hslot
  cases ho : w.handlers i with
  | none =>
    rw [ho] at hslot
    exact ⟨rfl, hslot.1 p rfl⟩
  | some o =>
    rw [ho] at hslot
    cases o with
    | storing e final =>
      obtain ⟨q, hq, hstores⟩ := hslot
      cases hq
      exact absurd hstores (hno _ _)
    | sent | checked | described | answered | failed => exact absurd hslot.1 nofun

theorem step_inv (h : Inv limits x before w) {ev : Ev} (hev : Elsewhere x ev) (hcurrent : Current limits x w ev) :
    Inv limits x before (step B C limits x w ev) := by
  cases ev with
  | send i e =>
    simp only [step]
    split_ifs with hfree
    · obtain ⟨hh, ht⟩ := hfree
      rw [Option.isNone_iff_eq_none] at hh ht
      have hslot := h.slots i
      rw [hh] at hslot
      exact h.client rfl rfl (Function.update_eq_self i w.st.threads).symm rfl ⟨ht, hslot.2⟩ fun hmem => absurd hmem hslot.2
    · exact h
  | handle i now =>
    cases ho : w.handlers i with
    | none =>
      rw [step, ho]
      exact h
    | some o =>
      rw [step, ho]
      exact handle_inv h ho now
  | store ev =>
    cases ev with
    | call i q =>
      simp only [step]
      split_ifs with hfree
      · rw [Option.isNone_iff_eq_none] at hfree
        simp only [Objects.step]
        split_ifs
        · exact other_inv h (some q.start) hfree (fun p hp => Option.some_inj.1 hp ▸ start_elsewhere hev) rfl rfl rfl rfl
        · exact h
      · exact h
    | step i =>
      cases hp : w.st.threads i with
      | none => simpa only [step, hp] using h
      | some p =>
        cases ho : w.handlers i with
        | some o =>
          have hslot := h.slots i
          rw [ho] at hslot
          cases o with
          | storing e final => exact storing_inv h ho hp hcurrent
          | sent | checked | described | answered | failed => exact absurd (hslot.1.symm.trans hp) nofun
        | none =>
          have hslot := h.slots i
          rw [ho] at hslot
          have helse := hslot.1 p hp
          obtain ⟨hact, hpc⟩ := next_elsewhere (B := B) (C := C) (s := w.st) helse
          have hsettle : settle none p (next B C w.st p).2 = none := by simp only [settle]
          simp only [step, hp, ho, hsettle]
          refine other_inv h _ ho hpc ?_ (by simp) (by rw [← ho, Function.update_eq_self]) ?_
          · simp only [World.labels, Objects.step, hp]
            exact congrArg (Option.map _) (apply_elsewhere hact).1
          · simp only [Objects.step, hp, St.setThread, Objects.apply_threads]
    | commit i r =>
      simp only [step, Objects.step]
      split
      · rename_i y prior hp
        obtain ⟨ho, hy⟩ := h.elsewhere hp fun _ _ => id
        split_ifs
        · refine other_inv h (some (.staged y (r.metadata prior) false false)) ho (fun q hq => ?_) rfl rfl rfl rfl
          exact Option.some_inj.1 hq ▸ hy
        · exact other_inv h none ho (fun q hq => by cases hq) rfl rfl rfl rfl
      · exact h
    | abort i =>
      simp only [step, Objects.step]
      split
      · rename_i y prior hp
        obtain ⟨ho, -⟩ := h.elsewhere hp fun _ _ => id
        exact other_inv h none ho (fun q hq => by cases hq) rfl rfl rfl rfl
      · exact h
    | list i l =>
      simp only [step, Objects.step]
      split
      · rename_i b dirExists hp
        obtain ⟨ho, hb⟩ := h.elsewhere hp fun _ _ => id
        refine other_inv h (some (.bucketRows b dirExists 0 l)) ho (fun q hq => ?_) rfl rfl rfl rfl
        exact Option.some_inj.1 hq ▸ hb
      · exact h
    | scan l =>
      simp only [step, Objects.step]
      split <;> exact h.keep rfl rfl h.slots fun _ _ => rfl
    | rebuild =>
      simp only [step, Objects.step, Objects.stepRebuild]
      split
      · split <;> exact h.keep rfl rfl h.slots fun _ _ => rfl
      · exact h.keep rfl rfl h.slots fun _ _ => rfl
      · exact h.keep rfl rfl h.slots fun _ _ => rfl
      · exact h.keep rfl rfl h.slots fun _ _ => rfl
      · exact h
    | listRows l =>
      simp only [step, Objects.step]
      split <;> exact h.keep rfl rfl h.slots fun _ _ => rfl

/-- nobody edits the labels of the object yet, nor writes it -/
structure Start (x : ObjKey) (before : LabelSet) (w : World) : Prop where
  handlers : ∀ i, w.handlers i = none
  threads : ∀ i p, w.st.threads i = some p → PcElsewhere x p
  order : w.order = []
  labels : w.labels x = some before

theorem Start.inv (h : Start x before w) : Inv limits x before w := by
  refine ⟨fun i => ?_, ?_, ?_⟩
  · rw [h.handlers i, h.order]
    exact ⟨h.threads i, List.not_mem_nil⟩
  · rw [h.order]
    exact List.nodup_nil
  · rw [h.order, h.labels]
    rfl

end Inv

/-! ## Two edits at once -/

/-- a store with one object, without labels -/
def labelled : World where
  st := { Objects.emptyStore (fun _ => none) .done with
    files := Function.update (fun _ => none) Objects.sampleObject (some ⟨[1], (Objects.samplePut 1).metadata none⟩)
    dirs := fun _ => true }
  handlers := fun _ => none
  order := []

/-- the client sends its request, and the handler reads the labels; the handler stores the new ones -/
def reads (i : ℕ) (e : Edit) : List Ev := [.send i e, .handle i 9, .handle i 9]

end Y2q.LabelEdits
