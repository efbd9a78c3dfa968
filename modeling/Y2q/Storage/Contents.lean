/-
A property of files that every request keeps.

Whatever is read of an object was written by a put, or by a rekey, or is such a file with other labels. A property of files that
puts and rekeys bring and that labels and times do not touch (`Lasting`) is a property of all files there ever are: those in place,
the staged ones, and those that a request holds in its hands.

- `Contents G`: all of them have the property `G`.
- `step_contents`: one step keeps it, if what clients hand over and rekeys seal has the property.
-/
import Mathlib.Tactic
import Y2q.Storage.Objects

namespace Y2q.Objects

/-- the file a request leaves, whenever the object was created -/
def PutRequest.file (r : PutRequest) (priorCreated : Option ℕ) : File := ⟨r.data, r.metadata priorCreated⟩

/-- labels and times do not touch the property -/
structure Lasting (G : ObjKey → File → Prop) : Prop where
  relabel : ∀ x f labels now, G x f → G x { f with metadata := { f.metadata with labels := labels, modified := now } }
  created : ∀ x r prior prior', G x (PutRequest.file r prior) → G x (PutRequest.file r prior')

variable {B : Backend} {C : Envelopes} {G : ObjKey → File → Prop} {s t : St} {i : ℕ} {x : ObjKey}

/-! ## Files -/

def AllFiles (G : ObjKey → File → Prop) (s : St) : Prop :=
  ∀ x f, s.files x = some f ∨ s.tmp x = some f ∨ s.labelsTmp x = some f → G x f

/-- the file a step writes has the property -/
def Act.Writes (G : ObjKey → File → Prop) : Act → Prop
  | .writeTmp x f => G x f
  | .install x f => G x f
  | .writeLabelsTmp x f => G x f
  | .installLabels x f => G x f
  | _ => True

theorem forall_update {g : ObjKey → Option File} (hg : ∀ y f, g y = some f → G y f) {o : Option File}
    (ho : ∀ f, o = some f → G x f) : ∀ y f, Function.update g x o y = some f → G y f := by
  intro y f hy
  by_cases hyx : y = x
  · subst hyx
    rw [Function.update_self] at hy
    exact ho f hy
  · rw [Function.update_of_ne hyx] at hy
    exact hg y f hy

theorem forall_unless {g : ObjKey → Option File} (hg : ∀ y f, g y = some f → G y f) (b : String) :
    ∀ y f, (if y.1 = b then none else g y) = some f → G y f := by
  intro y f hy
  split_ifs at hy
  exact hg y f hy

theorem allFiles_iff : AllFiles G s ↔ (∀ x f, s.files x = some f → G x f) ∧ (∀ x f, s.tmp x = some f → G x f) ∧
    ∀ x f, s.labelsTmp x = some f → G x f := by
  constructor
  · intro h
    exact ⟨fun x f hf => h x f (Or.inl hf), fun x f hf => h x f (Or.inr (Or.inl hf)), fun x f hf => h x f (Or.inr (Or.inr hf))⟩
  · rintro ⟨h1, h2, h3⟩ x f (hf | hf | hf)
    · exact h1 x f hf
    · exact h2 x f hf
    · exact h3 x f hf

theorem AllFiles.apply (hs : AllFiles G s) {a : Act} (ha : a.Writes G) : AllFiles G (s.apply a) := by
  obtain ⟨hf, ht, hl⟩ := allFiles_iff.1 hs
  have hnone : ∀ {y : ObjKey} (f : File), none = some f → G y f := nofun
  have hsome : ∀ {y : ObjKey} {g : File}, G y g → ∀ f, some g = some f → G y f := by
    intro y g hg f h
    cases h
    exact hg
  cases a with
  | skip | mkdir | lock | unlock | upsert | remove => exact hs
  | writeTmp x f => exact allFiles_iff.2 ⟨hf, forall_update ht (hsome ha), hl⟩
  | install x f => exact allFiles_iff.2 ⟨forall_update hf (hsome ha), forall_update ht hnone, hl⟩
  | writeLabelsTmp x f => exact allFiles_iff.2 ⟨hf, ht, forall_update hl (hsome ha)⟩
  | installLabels x f => exact allFiles_iff.2 ⟨forall_update hf (hsome ha), ht, forall_update hl hnone⟩
  | unlink x => exact allFiles_iff.2 ⟨forall_update hf hnone, ht, hl⟩
  | rmdir b => exact allFiles_iff.2 ⟨forall_unless hf b, forall_unless ht b, forall_unless hl b⟩

/-! ## Requests -/

/-- what the request is going to store has the property -/
def Pc.Carries (G : ObjKey → File → Prop) : Pc → Prop
  | .putNew x r => G x (r.file none)
  | .putDir x r => G x (r.file none)
  | .putLocked x r => G x (r.file none)
  | .putRead x r _ => G x (r.file none)
  | .streamNew x (some r) => G x (r.file none)
  | .streamDir x (some r) => G x (r.file none)
  | .streamRead x (some r) _ => G x (r.file none)
  | .streamOpen x (some r) _ => G x (r.file none)
  | .labelsRead x f => G x f
  | _ => True

/-- what a client hands over has the property, and so has what a rekey makes of an object it has read -/
def Brings (C : Envelopes) (G : ObjKey → File → Prop) (s : St) : Ev → Prop
  | .call _ (.put x r) => G x (r.file none)
  | .commit i r => ∀ x prior, s.threads i = some (.streamOpen x none prior) → G x (r.file none)
  | .step i => ∀ x j data f plain, s.threads i = some (.rekeyGot x j data) → s.files x = some f →
    C.decrypt x j.oldEpoch data f.metadata.size = some plain → G x ((j.request C x plain f.metadata.labels).file none)
  | _ => True

structure Contents (G : ObjKey → File → Prop) (s : St) : Prop where
  files : AllFiles G s
  threads : ∀ i p, s.threads i = some p → p.Carries G

/-- the step writes a file with the property, and the request holds one after it -/
def Keeps (G : ObjKey → File → Prop) (r : Act × Option Pc) : Prop := r.1.Writes G ∧ ∀ p', r.2 = some p' → p'.Carries G

theorem keeps_end {a : Act} (ha : a.Writes G) : Keeps G (a, none) := ⟨ha, nofun⟩

theorem keeps_to {a : Act} {q : Pc} (ha : a.Writes G) (hq : q.Carries G) : Keeps G (a, some q) := by
  refine ⟨ha, fun p' h => ?_⟩
  cases h
  exact hq

/-- **One step of a request** writes files with the property, and holds one afterwards. -/
theorem next_contents (hG : Lasting G) (hs : AllFiles G s) {p : Pc} (hp : p.Carries G)
    (hrekey : ∀ x j data f plain, p = .rekeyGot x j data → s.files x = some f →
      C.decrypt x j.oldEpoch data f.metadata.size = some plain → G x ((j.request C x plain f.metadata.labels).file none)) :
    Keeps G (next B C s p) := by
  cases p with
  | putNew x r => exact keeps_to trivial hp
  | putDir x r =>
    simp only [next]
    split_ifs
    · exact keeps_end trivial
    · exact keeps_to trivial hp
  | putLocked x r => exact keeps_to trivial hp
  | putRead x r prior =>
    simp only [next]
    split_ifs
    · exact keeps_to (hG.created x r none prior hp) trivial
    · exact keeps_end trivial
  | streamNew x r =>
    cases r with
    | none => exact keeps_to trivial trivial
    | some r => exact keeps_to trivial hp
  | streamDir x r =>
    cases r with
    | none => exact keeps_to trivial trivial
    | some r => exact keeps_to trivial hp
  | streamRead x r prior =>
    simp only [next]
    split_ifs
    · exact keeps_end trivial
    · cases r with
      | none => exact keeps_to trivial trivial
      | some r => exact keeps_to trivial hp
  | streamOpen x r prior =>
    cases r with
    | none => exact keeps_to trivial trivial
    | some r =>
      simp only [next]
      split_ifs
      · exact keeps_to (hG.created x r none prior hp) trivial
      · exact keeps_end trivial
  | staged x row early rekey =>
    cases hf : s.tmp x with
    | none => simp only [next, hf]; exact keeps_end trivial
    | some f =>
      simp only [next, hf]
      refine keeps_to (hs x f (Or.inr (Or.inl hf))) ?_
      cases early <;> trivial
  | upserting x row locked =>
    cases locked with
    | false => exact keeps_end trivial
    | true => exact keeps_to trivial trivial
  | labelsNew x labels now =>
    simp only [next]
    split_ifs
    · exact keeps_end trivial
    · exact keeps_to trivial trivial
  | labelsChecked x labels now =>
    cases hf : s.files x with
    | none => simp only [next, hf]; exact keeps_end trivial
    | some f => simp only [next, hf]; exact keeps_to trivial (hG.relabel x f labels now (hs x f (Or.inl hf)))
  | labelsRead x f =>
    simp only [next]
    split_ifs
    · exact keeps_to hp trivial
    · exact keeps_end trivial
  | labelsStaged x row =>
    cases hf : s.labelsTmp x with
    | none => simp only [next, hf]; exact keeps_end trivial
    | some f => simp only [next, hf]; exact keeps_to (hs x f (Or.inr (Or.inr hf))) trivial
  | deleteNew x =>
    simp only [next]
    split_ifs
    · exact keeps_end trivial
    · exact keeps_to trivial trivial
  | deleteChecked x | deleteOpened x =>
    simp only [next]
    split_ifs
    · exact keeps_to trivial trivial
    · exact keeps_end trivial
  | bucketRows b ex n todo =>
    cases todo with
    | cons y todo => exact keeps_to trivial trivial
    | nil =>
      cases ex with
      | false => exact keeps_end trivial
      | true => simp only [next]; split_ifs <;> exact keeps_end trivial
  | rekeyNew x j =>
    cases hf : s.files x with
    | none => simp only [next, hf]; exact keeps_end trivial
    | some f => simp only [next, hf]; exact keeps_to trivial trivial
  | rekeyGot x j data =>
    cases hf : s.files x with
    | none => simp only [next, hf]; exact keeps_end trivial
    | some f =>
      simp only [next, hf]
      cases hplain : C.decrypt x j.oldEpoch data f.metadata.size with
      | none => exact keeps_end trivial
      | some plain => exact keeps_to trivial (hrekey x j data f plain rfl hf hplain)
  | releasing | bucketNew | bucketStat => exact keeps_to trivial trivial
  | unlocking | removing => exact keeps_end trivial

/-- a thread moves on -/
theorem Contents.move (hs : Contents G s) {a : Act} {o : Option Pc} (ha : a.Writes G) (ho : ∀ p', o = some p' → p'.Carries G) :
    Contents G ((s.apply a).setThread i o) where
  files := hs.files.apply ha
  threads k q hq := by
    by_cases hk : k = i
    · subst hk
      refine ho q ?_
      rw [← hq]
      exact (Function.update_self k o (s.apply a).threads).symm
    · refine hs.threads k q ?_
      rw [← apply_threads s a, ← hq]
      exact (Function.update_of_ne hk o (s.apply a).threads).symm

theorem Contents.same (hs : Contents G s) (hf : t.files = s.files) (ht : ∀ x f, t.tmp x = some f → s.tmp x = some f)
    (hl : t.labelsTmp = s.labelsTmp) (hthreads : t.threads = s.threads) : Contents G t where
  files x f h := by
    rw [hf, hl] at h
    exact hs.files x f (h.imp_right (Or.imp_left (ht x f)))
  threads k q hq := hs.threads k q (hthreads ▸ hq)

/-- **One step**, of whatever kind, keeps the property of all files. -/
theorem step_contents (hG : Lasting G) (hs : Contents G s) {e : Ev} (he : Brings C G s e) : Contents G (step B C s e) := by
  have hskip : ∀ {i : ℕ} {o : Option Pc}, (∀ p', o = some p' → p'.Carries G) → Contents G (s.setThread i o) :=
    fun ho => hs.move (a := .skip) trivial ho
  cases e with
  | call i q =>
    simp only [step]
    split_ifs
    · refine hskip fun p' h => ?_
      cases h
      cases q with
      | put x r => exact he
      | beginStreamingPut | setLabels | delete | deleteBucket | rekey => trivial
    · exact hs
  | step i =>
    cases hp : s.threads i with
    | none => simp only [step, hp]; exact hs
    | some p =>
      simp only [step, hp]
      obtain ⟨ha, hnext⟩ := next_contents (B := B) hG hs.files (hs.threads i p hp) fun x j data f plain h =>
        he x j data f plain (h ▸ hp)
      exact hs.move ha hnext
  | commit i r =>
    simp only [step]
    split
    · rename_i x prior hp
      split_ifs
      · refine hs.move (a := .writeTmp x (r.file prior)) (hG.created x r none prior (he x prior hp)) fun p' h => ?_
        cases h
        trivial
      · exact hs.move (a := .unlock x) trivial nofun
    · exact hs
  | abort i =>
    simp only [step]
    split
    · rename_i x prior hp
      refine Contents.move (a := .unlock x) ?_ trivial nofun
      refine hs.same rfl (fun y f hf => ?_) rfl rfl
      by_cases hy : y = x
      · rw [hy] at hf
        cases (Function.update_self x none s.tmp).symm.trans hf
      · exact (Function.update_of_ne hy none s.tmp).symm.trans hf
    · exact hs
  | list i l =>
    simp only [step]
    split
    · refine hskip fun p' h => ?_
      cases h
      trivial
    · exact hs
  | scan l => simp only [step]; split <;> exact hs.same rfl (fun _ _ h => h) rfl rfl
  | rebuild =>
    simp only [step, stepRebuild]
    split
    · split <;> exact hs.same rfl (fun _ _ h => h) rfl rfl
    · exact hs.same rfl (fun _ _ h => h) rfl rfl
    · exact hs.same rfl (fun _ _ h => h) rfl rfl
    · exact hs.same rfl (fun _ _ h => h) rfl rfl
    · exact hs
  | listRows l => simp only [step]; split <;> exact hs.same rfl (fun _ _ h => h) rfl rfl

end Y2q.Objects
