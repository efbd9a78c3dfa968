/-
A rekey run re-encrypts stale objects while clients use the bucket (`handlers/keys.rs`, `run_rekey`).

For each object it gets the data, describes it, decrypts, begins a streaming put (which takes the lock) and commits the new
ciphertext with the labels it has read. Between the get and the rename it holds a copy of the object (`Pc.copying`), as a `set_labels`
does between its read and its rename.

- `step_kept`: what these copies show is what the object shows, as long as no other request stages, renames or removes a file of it.
- `rekey_changes_nothing`: along such a run every object has the plaintext and the labels of its last put or label update, and none
  if a delete came last.
- `rekey_restores_deleted_object`: a delete between the rekey's reads and its commit is undone.
-/
import Mathlib.Tactic
import Y2q.Storage.Contents
import Y2q.Storage.Writers

namespace Y2q.Objects

open Y2q.Run

/-! ## What an object contains -/

/-- the plaintext of a stored file, under the epoch its metadata records -/
def Envelopes.content (C : Envelopes) (x : ObjKey) (f : File) : Option Bytes :=
  C.decrypt x ((f.metadata.cipher.map (·.keyEpoch)).getD 0) f.data f.metadata.size

/-- plaintext and labels; a re-encryption is no write of them -/
def plainWatch (C : Envelopes) : Watch (Option Bytes × LabelSet) :=
  ⟨fun x f => (C.content x f, f.metadata.labels), fun l a => (a.1, l), false⟩

/-- what `run_rekey` relies on: an object opens with the key it was encrypted to, and with no other key to something else -/
structure Envelopes.Lawful (C : Envelopes) : Prop where
  round_trip : ∀ x e plain, C.decrypt x e (C.encrypt x e plain).1 plain.length = some plain
  records_epoch : ∀ x e plain, (C.encrypt x e plain).2.keyEpoch = e
  one_plaintext : ∀ x e e' data n p p', C.decrypt x e data n = some p → C.decrypt x e' data n = some p' → p = p'

def Opens (C : Envelopes) (x : ObjKey) (f : File) : Prop := ∃ plain, C.content x f = some plain

/-- every file of the store opens under the epoch it records -/
def AllOpen (C : Envelopes) (s : St) : Prop :=
  ∀ x f, s.files x = some f ∨ s.tmp x = some f ∨ s.labelsTmp x = some f → Opens C x f

/-- the data of a put was encrypted under the epoch it records -/
def Sealed (C : Envelopes) (s : St) : Ev → Prop
  | .call _ (.put x r) => Opens C x (r.file none)
  | .commit i r => ∀ x prior, s.threads i = some (.streamOpen x none prior) → Opens C x (r.file none)
  | _ => True

/-! ## Copies in hand -/

/-- the object that the request has read and is about to put back -/
def Pc.copying : Pc → Option ObjKey
  | .rekeyGot x _ _ => some x
  | .streamNew x (some _) => some x
  | .streamDir x (some _) => some x
  | .streamRead x (some _) _ => some x
  | .streamOpen x (some _) _ => some x
  | .staged x _ _ true => some x
  | .labelsRead x _ => some x
  | .labelsStaged x _ => some x
  | _ => none

/-- the step stages, renames or removes a file of `x` -/
def Act.Touches (x : ObjKey) : Act → Prop
  | .writeTmp y _ => y = x
  | .install y _ => y = x
  | .writeLabelsTmp y _ => y = x
  | .installLabels y _ => y = x
  | .unlink y => y = x
  | .rmdir b => x.1 = b
  | _ => False

/-- no request other than `i` has a copy of `x` in hand -/
def Untaken (s : St) (i : ℕ) (x : ObjKey) : Prop := ∀ k q, k ≠ i → s.threads k = some q → q.copying ≠ some x

/-- an object of which another request has a copy in hand is left alone -/
def Undisturbed (B : Backend) (C : Envelopes) (s : St) : Ev → Prop
  | .step i => ∀ p x, s.threads i = some p → (next B C s p).1.Touches x → Untaken s i x
  | .commit i _ => ∀ x prior, s.threads i = some (.streamOpen x none prior) → Untaken s i x
  | _ => True

variable {B : Backend} {C : Envelopes} {s t : St} {p : Pc} {i : ℕ} {x : ObjKey} {r : PutRequest}

/-- the copy shows what the object shows -/
def Pc.Holds (C : Envelopes) (s : St) : Pc → Prop
  | .rekeyGot x _ data => ∃ f, s.files x = some f ∧ f.data = data
  | .streamNew x (some r) => s.shown (plainWatch C) x = some ((plainWatch C).shows x (r.file none))
  | .streamDir x (some r) => s.shown (plainWatch C) x = some ((plainWatch C).shows x (r.file none))
  | .streamRead x (some r) _ => s.shown (plainWatch C) x = some ((plainWatch C).shows x (r.file none))
  | .streamOpen x (some r) _ => s.shown (plainWatch C) x = some ((plainWatch C).shows x (r.file none))
  | .staged x _ _ true => ∀ f ∈ s.tmp x, s.shown (plainWatch C) x = some ((plainWatch C).shows x f)
  | .labelsRead x f =>
    (s.shown (plainWatch C) x).map ((plainWatch C).relabel f.metadata.labels) = some ((plainWatch C).shows x f)
  | .labelsStaged x row => ∀ f ∈ s.labelsTmp x,
    (s.shown (plainWatch C) x).map ((plainWatch C).relabel row.labels) = some ((plainWatch C).shows x f)
  | _ => True

/-- what the request is going to store opens -/
def Pc.Opens (C : Envelopes) : Pc → Prop
  | .putNew x r => Objects.Opens C x (r.file none)
  | .putDir x r => Objects.Opens C x (r.file none)
  | .putLocked x r => Objects.Opens C x (r.file none)
  | .putRead x r _ => Objects.Opens C x (r.file none)
  | .streamNew x (some r) => Objects.Opens C x (r.file none)
  | .streamDir x (some r) => Objects.Opens C x (r.file none)
  | .streamRead x (some r) _ => Objects.Opens C x (r.file none)
  | .streamOpen x (some r) _ => Objects.Opens C x (r.file none)
  | .labelsRead x f => Objects.Opens C x f
  | _ => True

/-- files open, and copies in hand are fresh -/
structure Kept (C : Envelopes) (s : St) : Prop where
  opens : AllOpen C s
  threads : ∀ i p, s.threads i = some p → p.Opens C ∧ p.Holds C s

/-! ## Files that open -/

/-- the file a step writes opens -/
def Act.Opens (C : Envelopes) : Act → Prop
  | .writeTmp x f => Objects.Opens C x f
  | .install x f => Objects.Opens C x f
  | .writeLabelsTmp x f => Objects.Opens C x f
  | .installLabels x f => Objects.Opens C x f
  | _ => True

theorem AllOpen.apply (hs : AllOpen C s) {a : Act} (ha : a.Opens C) : AllOpen C (s.apply a) := by
  refine AllFiles.apply (G := Objects.Opens C) hs ?_
  cases a <;> exact ha

/-! ## Steps -/

/-- copies are judged by the files of their object; staged ones may go -/
theorem Pc.Holds.congr {q : Pc} (h : q.Holds C s) (hx : ∀ x, q.copying = some x →
    t.files x = s.files x ∧ (∀ f ∈ t.tmp x, f ∈ s.tmp x) ∧ ∀ f ∈ t.labelsTmp x, f ∈ s.labelsTmp x) : q.Holds C t := by
  have hshown : ∀ {x : ObjKey}, t.files x = s.files x → t.shown (plainWatch C) x = s.shown (plainWatch C) x := by
    intro x hf
    unfold St.shown
    rw [hf]
  cases q with
  | rekeyGot x j data =>
    obtain ⟨hf, -, -⟩ := hx x rfl
    simp only [Pc.Holds, hf]
    exact h
  | streamNew x r | streamDir x r | streamRead x r _ | streamOpen x r _ =>
    cases r with
    | none => trivial
    | some r =>
      obtain ⟨hf, -, -⟩ := hx x rfl
      simp only [Pc.Holds, hshown hf]
      exact h
  | staged x row early rekey =>
    cases rekey with
    | false => trivial
    | true =>
      obtain ⟨hf, ht, -⟩ := hx x rfl
      simp only [Pc.Holds, hshown hf]
      exact fun f hf => h f (ht f hf)
  | labelsRead x f =>
    obtain ⟨hf, -, -⟩ := hx x rfl
    simp only [Pc.Holds, hshown hf]
    exact h
  | labelsStaged x row =>
    obtain ⟨hf, -, hl⟩ := hx x rfl
    simp only [Pc.Holds, hshown hf]
    exact fun f hf => h f (hl f hf)
  | putNew | putDir | putLocked | putRead | releasing | upserting | unlocking | labelsNew | labelsChecked | deleteNew | deleteChecked
  | deleteOpened | removing | bucketNew | bucketStat | bucketRows | rekeyNew => trivial

theorem apply_untouched {a : Act} (ha : ¬a.Touches x) :
    (s.apply a).files x = s.files x ∧ (s.apply a).tmp x = s.tmp x ∧ (s.apply a).labelsTmp x = s.labelsTmp x := by
  cases a with
  | skip | mkdir | lock | unlock | upsert | remove => exact ⟨rfl, rfl, rfl⟩
  | writeTmp y f =>
    have hy : x ≠ y := fun h => ha h.symm
    exact ⟨rfl, Function.update_of_ne hy _ _, rfl⟩
  | install y f =>
    have hy : x ≠ y := fun h => ha h.symm
    exact ⟨Function.update_of_ne hy _ _, Function.update_of_ne hy _ _, rfl⟩
  | writeLabelsTmp y f =>
    have hy : x ≠ y := fun h => ha h.symm
    exact ⟨rfl, rfl, Function.update_of_ne hy _ _⟩
  | installLabels y f =>
    have hy : x ≠ y := fun h => ha h.symm
    exact ⟨Function.update_of_ne hy _ _, rfl, Function.update_of_ne hy _ _⟩
  | unlink y =>
    have hy : x ≠ y := fun h => ha h.symm
    exact ⟨Function.update_of_ne hy _ _, rfl, rfl⟩
  | rmdir b =>
    have hb : ¬x.1 = b := ha
    exact ⟨if_neg hb, if_neg hb, if_neg hb⟩

/-- a plaintext that the rekey gets out of an object is the one the object has; the file it makes of it shows the same -/
theorem request_shows (hC : C.Lawful) {j : RekeyJob} {f : File} {plain : Bytes} (hf : Opens C x f)
    (hplain : C.decrypt x j.oldEpoch f.data f.metadata.size = some plain) :
    (plainWatch C).shows x f = (plainWatch C).shows x ((j.request C x plain f.metadata.labels).file none) ∧
      Opens C x ((j.request C x plain f.metadata.labels).file none) := by
  have hnew : C.content x ((j.request C x plain f.metadata.labels).file none) = some plain := by
    change C.decrypt x (C.encrypt x j.newEpoch plain).2.keyEpoch (C.encrypt x j.newEpoch plain).1 plain.length = some plain
    rw [hC.records_epoch]
    exact hC.round_trip x j.newEpoch plain
  obtain ⟨plain', hplain'⟩ := hf
  have hsame : plain' = plain := hC.one_plaintext x _ _ f.data f.metadata.size _ _ hplain' hplain
  refine ⟨Prod.ext ?_ rfl, plain, hnew⟩
  calc C.content x f = some plain' := hplain'
    _ = some plain := by rw [hsame]
    _ = C.content x ((j.request C x plain f.metadata.labels).file none) := hnew.symm

/-- the step writes a file that opens, and the request holds a fresh copy after it -/
def Sound (C : Envelopes) (s : St) (r : Act × Option Pc) : Prop :=
  r.1.Opens C ∧ ∀ p', r.2 = some p' → p'.Opens C ∧ p'.Holds C (s.apply r.1)

theorem sound_end {a : Act} (ha : a.Opens C) : Sound C s (a, none) := ⟨ha, nofun⟩

theorem sound_to {a : Act} {q : Pc} (ha : a.Opens C) (hq : q.Opens C) (hq' : q.Holds C (s.apply a)) : Sound C s (a, some q) := by
  refine ⟨ha, fun p' h => ?_⟩
  cases h
  exact ⟨hq, hq'⟩

/-- **One step of a request** writes files that open and takes its own copy along. -/
theorem next_sound (hC : C.Lawful) (hs : AllOpen C s) (ho : p.Opens C) (hh : p.Holds C s) : Sound C s (next B C s p) := by
  cases p with
  | putNew x r => exact sound_to trivial ho trivial
  | putDir x r =>
    simp only [next]
    split_ifs
    · exact sound_end trivial
    · exact sound_to trivial ho trivial
  | putLocked x r => exact sound_to trivial ho trivial
  | putRead x r prior =>
    simp only [next]
    split_ifs
    · exact sound_to ho trivial trivial
    · exact sound_end trivial
  | streamNew x r =>
    cases r with
    | none => exact sound_to trivial trivial trivial
    | some r => exact sound_to trivial ho hh
  | streamDir x r =>
    cases r with
    | none => exact sound_to trivial trivial trivial
    | some r => exact sound_to trivial ho hh
  | streamRead x r prior =>
    simp only [next]
    split_ifs
    · exact sound_end trivial
    · cases r with
      | none => exact sound_to trivial trivial trivial
      | some r => exact sound_to trivial ho hh
  | streamOpen x r prior =>
    cases r with
    | none => exact sound_to trivial trivial trivial
    | some r =>
      simp only [next]
      split_ifs
      · refine sound_to ho trivial fun f hf => ?_
        have hf' : some (r.file prior) = some f := by
          rw [← hf]
          exact (Function.update_self x _ s.tmp).symm
        cases hf'
        exact hh
      · exact sound_end trivial
  | staged x row early rekey =>
    cases hf : s.tmp x with
    | none => simp only [next, hf]; exact sound_end trivial
    | some f =>
      simp only [next, hf]
      have hopen : Opens C x f := hs x f (Or.inr (Or.inl hf))
      cases early with
      | false => exact sound_to hopen trivial trivial
      | true => exact sound_to hopen trivial trivial
  | releasing x row => exact sound_to trivial trivial trivial
  | upserting x row locked =>
    cases locked with
    | false => exact sound_end trivial
    | true => exact sound_to trivial trivial trivial
  | unlocking x => exact sound_end trivial
  | labelsNew x labels now =>
    simp only [next]
    split_ifs
    · exact sound_end trivial
    · exact sound_to trivial trivial trivial
  | labelsChecked x labels now =>
    cases hf : s.files x with
    | none => simp only [next, hf]; exact sound_end trivial
    | some f =>
      simp only [next, hf]
      have hopen : Opens C x f := hs x f (Or.inl hf)
      refine sound_to trivial hopen ?_
      change Option.map _ (Option.map _ (s.files x)) = _
      rw [hf]
      rfl
  | labelsRead x f =>
    simp only [next]
    split_ifs
    · refine sound_to ho trivial fun f' hf => ?_
      have hf' : some f = some f' := by
        rw [← hf]
        exact (Function.update_self x _ s.labelsTmp).symm
      cases hf'
      exact hh
    · exact sound_end trivial
  | labelsStaged x row =>
    cases hf : s.labelsTmp x with
    | none => simp only [next, hf]; exact sound_end trivial
    | some f => simp only [next, hf]; exact sound_to (hs x f (Or.inr (Or.inr hf))) trivial trivial
  | deleteNew x =>
    simp only [next]
    split_ifs
    · exact sound_end trivial
    · exact sound_to trivial trivial trivial
  | deleteChecked x =>
    simp only [next]
    split_ifs
    · exact sound_to trivial trivial trivial
    · exact sound_end trivial
  | deleteOpened x =>
    simp only [next]
    split_ifs
    · exact sound_to trivial trivial trivial
    · exact sound_end trivial
  | removing x => exact sound_end trivial
  | bucketNew b => exact sound_to trivial trivial trivial
  | bucketStat b ex => exact sound_to trivial trivial trivial
  | bucketRows b ex n todo =>
    cases todo with
    | cons y todo => exact sound_to trivial trivial trivial
    | nil =>
      cases ex with
      | false => exact sound_end trivial
      | true => simp only [next]; split_ifs <;> exact sound_end trivial
  | rekeyNew x j =>
    cases hf : s.files x with
    | none => simp only [next, hf]; exact sound_end trivial
    | some f => simp only [next, hf]; exact sound_to trivial trivial ⟨f, hf, rfl⟩
  | rekeyGot x j data =>
    obtain ⟨f, hf, rfl⟩ := hh
    simp only [next, hf]
    cases hplain : C.decrypt x j.oldEpoch f.data f.metadata.size with
    | none => exact sound_end trivial
    | some plain =>
      obtain ⟨hshows, hopen⟩ := request_shows hC (hs x f (Or.inl hf)) hplain
      refine sound_to trivial hopen ?_
      change Option.map _ (s.files x) = _
      rw [hf, ← hshows]
      rfl

/-- a thread moves on; the others see the same files of the objects they have copies of -/
theorem Kept.move (hs : Kept C s) {a : Act} {o : Option Pc} (ha : a.Opens C) (ho : ∀ p', o = some p' → p'.Opens C ∧ p'.Holds C (s.apply a))
    (halone : ∀ x, a.Touches x → Untaken s i x) : Kept C ((s.apply a).setThread i o) where
  opens := hs.opens.apply ha
  threads k q hq := by
    by_cases hk : k = i
    · subst hk
      have hself : o = some q := by
        rw [← hq]
        exact (Function.update_self k o (s.apply a).threads).symm
      obtain ⟨hopen, hhold⟩ := ho q hself
      exact ⟨hopen, hhold.congr fun _ _ => ⟨rfl, fun _ h => h, fun _ h => h⟩⟩
    · have hother : s.threads k = some q := by
        rw [← hq, ← apply_threads s a]
        exact (Function.update_of_ne hk o (s.apply a).threads).symm
      obtain ⟨hopen, hhold⟩ := hs.threads k q hother
      refine ⟨hopen, hhold.congr fun x hx => ?_⟩
      obtain ⟨hf, ht, hl⟩ := apply_untouched (s := s) fun htouch => halone x htouch k q hk hother hx
      change (s.apply a).files x = _ ∧ (∀ f ∈ (s.apply a).tmp x, _) ∧ ∀ f ∈ (s.apply a).labelsTmp x, _
      rw [hf, ht, hl]
      exact ⟨rfl, fun _ h => h, fun _ h => h⟩

/-- the rebuild leaves files and threads alone, and a stream that is dropped only its staging file -/
theorem Kept.same (hs : Kept C s) (hf : t.files = s.files) (ht : ∀ x f, t.tmp x = some f → s.tmp x = some f)
    (hl : t.labelsTmp = s.labelsTmp) (hthreads : t.threads = s.threads) : Kept C t where
  opens x f h := by
    rw [hf, hl] at h
    exact hs.opens x f (h.imp_right (Or.imp_left (ht x f)))
  threads k q hq := by
    rw [hthreads] at hq
    obtain ⟨hopen, hhold⟩ := hs.threads k q hq
    refine ⟨hopen, hhold.congr fun x _ => ?_⟩
    rw [hf, hl]
    exact ⟨rfl, ht x, fun _ h => h⟩

/-- **One step**, of whatever kind, keeps files readable and copies fresh if it disturbs no copy. -/
theorem step_kept (hC : C.Lawful) (hs : Kept C s) {e : Ev} (hsealed : Sealed C s e) (halone : Undisturbed B C s e) :
    Kept C (step B C s e) := by
  have hskip : ∀ {i : ℕ} {o : Option Pc}, (∀ p', o = some p' → p'.Opens C ∧ p'.Holds C s) → Kept C (s.setThread i o) := by
    intro i o ho
    exact hs.move (a := .skip) trivial ho fun x hx => by cases hx
  cases e with
  | call i q =>
    simp only [step]
    split_ifs
    · refine hskip fun p' h => ?_
      cases h
      cases q with
      | put x r => exact ⟨hsealed, trivial⟩
      | beginStreamingPut | setLabels | delete | deleteBucket | rekey => exact ⟨trivial, trivial⟩
    · exact hs
  | step i =>
    cases hp : s.threads i with
    | none => simp only [step, hp]; exact hs
    | some p =>
      simp only [step, hp]
      obtain ⟨ho, hh⟩ := hs.threads i p hp
      obtain ⟨ha, hnext⟩ := next_sound (B := B) hC hs.opens ho hh
      exact hs.move ha hnext fun x => halone p x hp
  | commit i r =>
    simp only [step]
    split
    · rename_i x prior hp
      split_ifs
      · refine hs.move (a := .writeTmp x (r.file prior)) (hsealed x prior hp) ?_ ?_
        · intro p' h
          cases h
          exact ⟨trivial, trivial⟩
        · rintro y rfl
          exact halone x prior hp
      · exact hs.move (a := .unlock x) trivial (fun p' h => by cases h) fun y hy => by cases hy
    · exact hs
  | abort i =>
    simp only [step]
    split
    · rename_i x prior hp
      refine Kept.move (a := .unlock x) ?_ trivial (fun p' h => by cases h) fun y hy => by cases hy
      refine hs.same rfl (fun y f hf => ?_) rfl rfl
      by_cases hy : y = x
      · rw [hy] at hf
        cases (Function.update_self x none s.tmp).symm.trans hf
      · exact (Function.update_of_ne hy none s.tmp).symm.trans hf
    · exact hs
  | list i l =>
    simp only [step]
    split
    · refine hskip fun p' h => ?_
      cases h
      exact ⟨trivial, trivial⟩
    · exact hs
  | scan l => simp only [step]; split <;> exact hs.same rfl (fun _ _ h => h) rfl rfl
  | rebuild =>
    simp only [step, stepRebuild]
    split
    · split <;> exact hs.same rfl (fun _ _ h => h) rfl rfl
    · exact hs.same rfl (fun _ _ h => h) rfl rfl
    · exact hs.same rfl (fun _ _ h => h) rfl rfl
    · exact hs.same rfl (fun _ _ h => h) rfl rfl
    · exact hs
  | listRows l => simp only [step]; split <;> exact hs.same rfl (fun _ _ h => h) rfl rfl

/-! ## Runs -/

theorem Pc.Holds.fresh (h : p.Holds C s) : p.Fresh (plainWatch C) s := by
  cases p with
  | staged x row early rekey =>
    cases rekey with
    | false => trivial
    | true => exact fun _ => h
  | labelsStaged x row => exact h
  | putNew | putDir | putLocked | putRead | streamNew | streamDir | streamRead | streamOpen | releasing | upserting | unlocking
  | labelsNew | labelsChecked | labelsRead | deleteNew | deleteChecked | deleteOpened | removing | bucketNew | bucketStat
  | bucketRows | rekeyNew | rekeyGot => trivial

theorem Kept.fresh (hs : Kept C s) (e : Ev) : Fresh (plainWatch C) s e := by
  cases e with
  | step i => exact fun p hp => (hs.threads i p hp).2.fresh
  | call | commit | abort | list | scan | rebuild | listRows => trivial

/-- **An undisturbed rekey changes nothing.** From a store at rest, in any interleaving of rekeys, puts, label updates, deletes and
index rebuilds in which no request touches an object while a rekey or a label update has a copy of it in hand: every object has the
plaintext and the labels of its last put or label update, and there is none where a delete came last. -/
theorem rekey_changes_nothing {B : Backend} {C : Envelopes} (hC : C.Lawful) {u : Watched (Option Bytes × LabelSet)}
    (hu : Faithful (plainWatch C) u) (hquiet : Quiet u.st) (hopen : AllOpen C u.st) {evs : List Ev}
    (h : Along (watch B C (plainWatch C)) (fun u e => Sealed C u.st e ∧ Undisturbed B C u.st e) u evs) :
    Faithful (plainWatch C) (run (watch B C (plainWatch C)) u evs) := by
  have hkept : Kept C u.st := by
    refine ⟨hopen, fun i p hp => ?_⟩
    rw [hquiet i] at hp
    cases hp
  have hinv := Along.inv (I := fun u => Kept C u.st ∧ Faithful (plainWatch C) u) ?_ ⟨hkept, hu⟩ h
  · exact hinv.2
  · rintro u e ⟨hk, hf⟩ ⟨hsealed, halone⟩
    exact ⟨step_kept hC hk hsealed halone, (watch_faithful_iff hf e).2 (hk.fresh e)⟩

/-! ## A rekey by itself, and one that a delete overtakes -/

/-- a ciphertext that names its epoch by as many leading ones -/
def untag : Bytes → Option (ℕ × Bytes)
  | [] => none
  | b :: rest => if b = 0 then some (0, rest) else (untag rest).map fun a => (a.1 + 1, a.2)

def tagged : Envelopes where
  decrypt _ e data n := (untag data).bind fun a => if a.1 = e ∧ n ≤ a.2.length then some (a.2.take n) else none
  encrypt _ e plain := (List.replicate e 1 ++ 0 :: plain, ⟨e + 1 + plain.length, "", "", "", 0, e⟩)
  checksum _ := ""

theorem untag_replicate (e : ℕ) (plain : Bytes) : untag (List.replicate e 1 ++ 0 :: plain) = some (e, plain) := by
  induction e with
  | zero => rfl
  | succ e ih =>
    rw [List.replicate_succ, List.cons_append, untag, if_neg (by decide), ih]
    rfl

theorem tagged_lawful : tagged.Lawful where
  round_trip x e plain := by
    simp only [tagged, untag_replicate, Option.bind_some, and_self, le_refl, if_true, List.take_length]
  records_epoch x e plain := rfl
  one_plaintext x e e' data n p p' hp hp' := by
    simp only [tagged] at hp hp'
    cases hdata : untag data with
    | none =>
      rw [hdata] at hp
      cases hp
    | some a =>
      rw [hdata, Option.bind_some] at hp hp'
      split_ifs at hp hp'
      exact Option.some.inj (hp.symm.trans hp')

/-- a put of one byte under epoch 0 -/
def taggedPut : PutRequest := ⟨[0, 7], 1, "", ∅, some ⟨2, "", "", "", 0, 0⟩, none, 5, false⟩

def wholeTaggedPut : List Ev := .call 0 (.put sampleObject taggedPut) :: List.replicate 7 (.step 0)

def sampleRekey : Ev := .call 1 (.rekey sampleObject ⟨0, 1, 9⟩)

/-- a thread that runs alone disturbs nobody -/
theorem solo_along {α : Type} {W : Watch α} {u : Watched α} (h : ∀ k, k ≠ i → u.st.threads k = none) (n : ℕ) :
    Along (watch B C W) (fun u e => Sealed C u.st e ∧ Undisturbed B C u.st e) u (List.replicate n (.step i)) := by
  induction n generalizing u with
  | zero => trivial
  | succ n ih =>
    refine ⟨⟨trivial, fun p x _ _ k q hk hq => ?_⟩, ih fun k hk => ?_⟩
    · rw [h k hk] at hq
      cases hq
    · simp only [watch, step]
      split
      · rename_i p hp
        simp only [St.setThread, apply_threads, Function.update_of_ne hk]
        exact h k hk
      · exact h k hk

theorem rekey_changes_nothing_alone :
    let u := run (watch .filesystem tagged (plainWatch tagged)) (freshStore (Option Bytes × LabelSet))
      (wholeTaggedPut ++ sampleRekey :: List.replicate 9 (.step 1))
    Faithful (plainWatch tagged) u ∧ (u.st.files sampleObject).map (·.data) = some [1, 0, 7] := by
  refine ⟨?_, rfl⟩
  have hempty : AllOpen tagged (freshStore (Option Bytes × LabelSet)).st := allFiles_iff.2 ⟨fun _ _ => nofun, fun _ _ => nofun, fun _ _ => nofun⟩
  refine rekey_changes_nothing tagged_lawful (fun _ => rfl) (fun _ => rfl) hempty (Along.append ⟨⟨?_, trivial⟩, solo_along ?_ 7⟩
    ⟨⟨trivial, trivial⟩, solo_along ?_ 9⟩)
  · exact ⟨[7], rfl⟩
  · intro k hk
    exact Function.update_of_ne hk _ _
  · intro k hk
    match k with
    | 0 => rfl
    | 1 => exact absurd rfl hk
    | n + 2 => rfl

/-- **A rekey restores a deleted object.** It has read the object; a delete completes; then it commits its re-encrypted copy. Nothing
is in flight, the delete came last, and the object exists. -/
theorem rekey_restores_deleted_object :
    let u := run (watch .filesystem tagged (plainWatch tagged)) (freshStore (Option Bytes × LabelSet))
      (wholeTaggedPut ++ sampleRekey :: .step 1 :: .step 1 :: .call 2 (.delete sampleObject) :: List.replicate 4 (.step 2) ++
        List.replicate 7 (.step 1))
    Quiet u.st ∧ u.last sampleObject = none ∧ (u.st.files sampleObject).map (·.data) = some [1, 0, 7] := by
  refine ⟨fun i => ?_, rfl, rfl⟩
  match i with
  | 0 => rfl
  | 1 => rfl
  | 2 => rfl
  | n + 3 => rfl

end Y2q.Objects
