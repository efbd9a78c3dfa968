/-
When do the index and the disk agree once no request is in flight?

Every request changes the file first and the row afterwards, and what it then writes to the row was fixed before. So at any moment
the row of an object is right, or some thread still owes the right row, or a `delete_bucket` is about to remove the file, or the
running rebuild has yet to come to the object (`Covered`). A step breaks this only if it writes a row that is no longer (or never
was) what the disk says while nobody else will correct it; `InTime` says that it does not.

- `step_covered`: one step, in time, keeps every object covered.
- `agrees_when_quiet`: along a run whose index writes are all in time, rows and files agree in every quiet state.
- `rebuild_agrees_when_quiet`: the same from any index at all, once a rebuild has completed.
- `late_remove_after_put`, `rebuild_removes_new_object`: runs with a late write.
-/
import Mathlib.Tactic
import Y2q.Storage.Objects

namespace Y2q.Objects

open Y2q.Run

variable {B : Backend} {C : Envelopes} {s t : St} {i : ℕ} {p : Pc} {x : ObjKey} {v : Option Metadata}

/-! ## What is still to come -/

/-- the request will write `v` (`none`: no row) to the row of `x` -/
def Pc.Owes (x : ObjKey) (v : Option Metadata) : Pc → Prop
  | .releasing y row => y = x ∧ v = some row
  | .upserting y row _ => y = x ∧ v = some row
  | .removing y => y = x ∧ v = none
  | .bucketRows _ _ _ todo => x ∈ todo ∧ v = none
  | _ => False

/-- the request will remove the directory of `b` -/
def Pc.Clears (b : String) : Pc → Prop
  | .bucketStat c true => c = b
  | .bucketRows c true _ _ => c = b
  | _ => False

/-- the rebuild will set the row of `x` right if the disk stays at `v` -/
def Rebuild.Mends (x : ObjKey) (v : Option Metadata) : Rebuild → Prop
  | .idle => True
  | .scanning todo seen => (v ≠ none ∧ x ∈ todo) ∨ (v = none ∧ x ∉ seen)
  | .read y m todo seen => (y = x ∧ v = some m) ∨ (v ≠ none ∧ x ∈ todo) ∨ (v = none ∧ x ∉ seen ∧ y ≠ x)
  | .removing todo => v = none ∧ x ∈ todo
  | .done => False

/-- some thread, other than `i` if one is named, owes `v` or clears the bucket -/
def Awaited (s : St) (i : Option ℕ) (x : ObjKey) (v : Option Metadata) : Prop :=
  ∃ j q, some j ≠ i ∧ s.threads j = some q ∧ (q.Owes x v ∨ q.Clears x.1)

/-- the row is right, or will be set right -/
def Covered (s : St) (x : ObjKey) : Prop :=
  s.rows x = s.disk x ∨ Awaited s none x (s.disk x) ∨ s.rebuild.Mends x (s.disk x)

/-- a row written by thread `i` is what the disk says, or will be set right -/
def Timely (s : St) (i : ℕ) (x : ObjKey) (v : Option Metadata) : Prop :=
  v = s.disk x ∨ Awaited s (some i) x (s.disk x) ∨ s.rebuild.Mends x (s.disk x)

/-- the next step of a thread writes no row too late -/
def Pc.InTime (s : St) (i : ℕ) : Pc → Prop
  -- what is renamed into place carries the metadata that the index will get
  | .staged x row _ _ => ∀ f ∈ s.tmp x, f.metadata = row
  | .labelsStaged x row => ∀ f ∈ s.labelsTmp x, f.metadata = row
  | .upserting x row _ => Timely s i x (some row)
  | .removing x => Timely s i x none
  | .bucketRows _ false _ (x :: _) => Timely s i x none
  -- the directory goes when no row of the bucket is left
  | .bucketRows b true _ [] => ∀ x : ObjKey, x.1 = b →
      s.rows x = none ∨ Awaited s (some i) x none ∨ s.rebuild.Mends x none
  | _ => True

/-- the same for the rebuild -/
def Rebuild.InTime (s : St) : Rebuild → Prop
  | .read x m _ _ => some m = s.disk x ∨ Awaited s none x (s.disk x)
  | .removing (x :: _) => s.disk x = none ∨ Awaited s none x (s.disk x)
  | _ => True

def InTime (s : St) : Ev → Prop
  | .step i => ∀ p, s.threads i = some p → p.InTime s i
  | .rebuild => s.rebuild.InTime s
  | _ => True

/-! ## Shape -/

/-- files lie in directories, `delete_bucket` removes its own bucket's rows, and the rebuild visits each file once -/
structure Shape (s : St) : Prop where
  housed : ∀ x, s.files x ≠ none ∨ s.tmp x ≠ none ∨ s.labelsTmp x ≠ none → s.dirs x.1 = true
  todo : ∀ i b ex n l, s.threads i = some (.bucketRows b ex n l) → ∀ x ∈ l, x.1 = b
  rebuild : match s.rebuild with
    | .scanning todo seen => todo.Nodup ∧ ∀ x ∈ todo, x ∉ seen
    | .read x _ todo seen => (x :: todo).Nodup ∧ ∀ y ∈ x :: todo, y ∉ seen
    | _ => True

/-- a file is written where its directory is -/
def Act.Placed (s : St) : Act → Prop
  | .writeTmp x _ | .install x _ | .writeLabelsTmp x _ | .installLabels x _ => s.dirs x.1 = true
  | _ => True

theorem next_placed (hs : Shape s) (p : Pc) : (next B C s p).1.Placed s := by
  cases p with
  | staged x row early rekey =>
    cases hf : s.tmp x with
    | none => simp only [next, hf]; trivial
    | some f => simp only [next, hf]; exact hs.housed x (Or.inr (Or.inl (by rw [hf]; exact Option.some_ne_none f)))
  | labelsStaged x row =>
    cases hf : s.labelsTmp x with
    | none => simp only [next, hf]; trivial
    | some f => simp only [next, hf]; exact hs.housed x (Or.inr (Or.inr (by rw [hf]; exact Option.some_ne_none f)))
  | putRead x r prior =>
    simp only [next]
    split_ifs with hdir
    · exact hdir
    · trivial
  | streamOpen x r prior =>
    cases r with
    | none => trivial
    | some r =>
      simp only [next]
      split_ifs with hdir
      · exact hdir
      · trivial
  | labelsRead x f =>
    simp only [next]
    split_ifs with hdir
    · exact hdir
    · trivial
  | bucketRows b ex n todo =>
    cases todo with
    | cons x todo => trivial
    | nil =>
      cases ex with
      | false => trivial
      | true => simp only [next]; split_ifs <;> trivial
  | deleteOpened x => simp only [next]; split_ifs <;> trivial
  | labelsChecked x labels now => simp only [next]; split <;> trivial
  | rekeyNew x j => simp only [next]; split <;> trivial
  | rekeyGot x j data =>
    simp only [next]
    split
    · trivial
    · split <;> trivial
  | putDir x r => simp only [next]; split_ifs <;> trivial
  | streamRead x r prior => simp only [next]; split_ifs <;> trivial
  | labelsNew x labels now => simp only [next]; split_ifs <;> trivial
  | deleteNew x => simp only [next]; split_ifs <;> trivial
  | deleteChecked x => simp only [next]; split_ifs <;> trivial
  | putNew | putLocked | streamNew | streamDir | releasing | upserting | unlocking | removing | bucketNew | bucketStat => trivial

theorem apply_housed (hs : ∀ x, s.files x ≠ none ∨ s.tmp x ≠ none ∨ s.labelsTmp x ≠ none → s.dirs x.1 = true) {a : Act}
    (ha : a.Placed s) (x : ObjKey)
    (h : (s.apply a).files x ≠ none ∨ (s.apply a).tmp x ≠ none ∨ (s.apply a).labelsTmp x ≠ none) :
    (s.apply a).dirs x.1 = true := by
  -- an object's own files may be new, the others were there
  have hupd : ∀ {y : ObjKey} {g : ObjKey → Option File} {o : Option File}, s.dirs y.1 = true → (g x ≠ none → s.dirs x.1 = true) →
      Function.update g y o x ≠ none → s.dirs x.1 = true := by
    intro y g o hy hg hne
    by_cases hxy : x = y
    · rw [hxy]; exact hy
    · rw [Function.update_of_ne hxy] at hne
      exact hg hne
  have hfile := fun h => hs x (Or.inl h)
  have htmp := fun h => hs x (Or.inr (Or.inl h))
  have hltmp := fun h => hs x (Or.inr (Or.inr h))
  cases a with
  | skip => exact hs x h
  | lock y => exact hs x h
  | unlock y => exact hs x h
  | upsert y m => exact hs x h
  | remove y => exact hs x h
  | mkdir b =>
    change Function.update s.dirs b true x.1 = true
    by_cases hb : x.1 = b
    · rw [hb, Function.update_self]
    · rw [Function.update_of_ne hb]
      exact hs x h
  | writeTmp y f =>
    rcases h with h | h | h
    · exact hfile h
    · exact hupd ha htmp h
    · exact hltmp h
  | install y f =>
    rcases h with h | h | h
    · exact hupd ha hfile h
    · exact hupd ha htmp h
    · exact hltmp h
  | writeLabelsTmp y f =>
    rcases h with h | h | h
    · exact hfile h
    · exact htmp h
    · exact hupd ha hltmp h
  | installLabels y f =>
    rcases h with h | h | h
    · exact hupd ha hfile h
    · exact htmp h
    · exact hupd ha hltmp h
  | unlink y =>
    rcases h with h | h | h
    · by_cases hxy : x = y
      · subst hxy
        exact absurd (Function.update_self ..) h
      · exact hfile (by rwa [show (s.apply (.unlink y)).files x = s.files x from Function.update_of_ne hxy _ _] at h)
    · exact htmp h
    · exact hltmp h
  | rmdir b =>
    by_cases hb : x.1 = b
    · rcases h with h | h | h
      · exact absurd (if_pos hb) h
      · exact absurd (if_pos hb) h
      · exact absurd (if_pos hb) h
    · change Function.update s.dirs b false x.1 = true
      rw [Function.update_of_ne hb]
      refine hs x (h.imp ?_ (Or.imp ?_ ?_))
      · exact fun h => by rwa [show (s.apply (.rmdir b)).files x = s.files x from if_neg hb] at h
      · exact fun h => by rwa [show (s.apply (.rmdir b)).tmp x = s.tmp x from if_neg hb] at h
      · exact fun h => by rwa [show (s.apply (.rmdir b)).labelsTmp x = s.labelsTmp x from if_neg hb] at h

theorem next_todo {b : String} {ex : Bool} {n : ℕ} {l : List ObjKey} (h : (next B C s p).2 = some (.bucketRows b ex n l)) :
    ∃ n' y, p = .bucketRows b ex n' (y :: l) := by
  cases p with
  | bucketRows c ex' n' todo =>
    cases todo with
    | cons y todo =>
      cases h
      exact ⟨n', y, rfl⟩
    | nil =>
      cases ex' with
      | false => cases h
      | true => simp only [next] at h; split_ifs at h
  | staged x row early rekey =>
    simp only [next] at h
    split at h
    · cases early <;> cases h
    · cases h
  | upserting x row locked => cases locked <;> cases h
  | streamOpen x r prior =>
    cases r with
    | none => cases h
    | some r => simp only [next] at h; split_ifs at h <;> cases h
  | labelsStaged x row => simp only [next] at h; split at h <;> cases h
  | labelsChecked x labels now => simp only [next] at h; split at h <;> cases h
  | rekeyNew x j => simp only [next] at h; split at h <;> cases h
  | rekeyGot x j data =>
    simp only [next] at h
    split at h
    · cases h
    · split at h <;> cases h
  | putDir x r => simp only [next] at h; split_ifs at h; cases h
  | putRead x r prior => simp only [next] at h; split_ifs at h <;> cases h
  | streamRead x r prior => simp only [next] at h; split_ifs at h; cases h
  | labelsNew x labels now => simp only [next] at h; split_ifs at h; cases h
  | labelsRead x f => simp only [next] at h; split_ifs at h; cases h
  | deleteNew x => simp only [next] at h; split_ifs at h; cases h
  | deleteChecked x => simp only [next] at h; split_ifs at h; cases h
  | deleteOpened x => simp only [next] at h; split_ifs at h; cases h
  | putNew | putLocked | streamNew | streamDir | releasing | unlocking | removing | bucketNew | bucketStat => cases h

theorem Shape.thread (hs : Shape s) {a : Act} (ha : a.Placed s) {p' : Option Pc}
    (htodo : ∀ b ex n l, p' = some (.bucketRows b ex n l) → ∀ x ∈ l, x.1 = b) : Shape ((s.apply a).setThread i p') := by
  refine ⟨apply_housed hs.housed ha, fun j b ex n l hj => ?_, ?_⟩
  · change Function.update (s.apply a).threads i p' j = _ at hj
    rw [apply_threads] at hj
    by_cases hji : j = i
    · rw [hji, Function.update_self] at hj
      exact htodo b ex n l hj
    · rw [Function.update_of_ne hji] at hj
      exact hs.todo j b ex n l hj
  · have hre : ((s.apply a).setThread i p').rebuild = s.rebuild := apply_rebuild s a
    rw [hre]
    exact hs.rebuild

theorem stepRebuild_shape (hs : Shape s) : Shape (stepRebuild s) := by
  have hshape := hs.rebuild
  unfold stepRebuild
  cases hre : s.rebuild with
  | idle => exact hs
  | done => exact hs
  | scanning todo seen =>
    rw [hre] at hshape
    cases todo with
    | nil => exact hs
    | cons y todo =>
      simp only
      cases s.files y with
      | some f => exact ⟨hs.housed, hs.todo, hshape⟩
      | none => exact ⟨hs.housed, hs.todo, hshape.1.of_cons, fun x hx => hshape.2 x (List.mem_cons_of_mem _ hx)⟩
  | read y m todo seen =>
    rw [hre] at hshape
    obtain ⟨hnd, hdisj⟩ := hshape
    refine ⟨hs.housed, hs.todo, hnd.of_cons, fun x hx hmem => ?_⟩
    rcases List.mem_cons.1 hmem with rfl | hmem
    · exact (List.nodup_cons.1 hnd).1 hx
    · exact hdisj x (List.mem_cons_of_mem _ hx) hmem
  | removing todo =>
    cases todo with
    | nil => exact ⟨hs.housed, hs.todo, trivial⟩
    | cons y todo => exact ⟨hs.housed, hs.todo, trivial⟩

theorem step_shape (hs : Shape s) {e : Ev} (hlegal : Legal s e) : Shape (step B C s e) := by
  cases e with
  | call i q =>
    simp only [step]
    split_ifs
    · refine Shape.thread (a := .skip) hs trivial fun b ex n l h => ?_
      cases q <;> cases h
    · exact hs
  | step i =>
    simp only [step]
    cases hp : s.threads i with
    | none => exact hs
    | some p =>
      refine hs.thread (next_placed hs p) fun b ex n l h x hx => ?_
      obtain ⟨n', y, rfl⟩ := next_todo h
      exact hs.todo i b ex n' (y :: l) hp x (List.mem_cons_of_mem _ hx)
  | commit i r =>
    simp only [step]
    split
    · split_ifs with hdir
      · refine hs.thread ?_ fun b ex n l h => ?_
        · exact hdir
        · cases h
      · refine hs.thread ?_ fun b ex n l h => ?_
        · trivial
        · cases h
    · exact hs
  | abort i =>
    simp only [step]
    split
    · rename_i y prior hp
      have hs' : Shape { s with tmp := Function.update s.tmp y none } := by
        refine ⟨fun x h => hs.housed x (h.imp_right (Or.imp_left fun h => ?_)), hs.todo, hs.rebuild⟩
        by_cases hxy : x = y
        · rw [hxy] at h
          exact absurd (Function.update_self ..) h
        · change Function.update s.tmp y none x ≠ none at h
          rwa [Function.update_of_ne hxy] at h
      refine hs'.thread ?_ fun b ex n l h => ?_
      · trivial
      · cases h
    · exact hs
  | list i l =>
    simp only [step]
    split
    · rename_i b ex hp
      refine Shape.thread (a := .skip) hs trivial fun b' ex' n l' h x hx => ?_
      cases h
      exact ((hlegal b ex hp x).1 hx).1
    · exact hs
  | scan l =>
    simp only [step]
    split
    · exact ⟨hs.housed, hs.todo, hlegal.1, fun _ _ => List.not_mem_nil⟩
    · exact hs
  | rebuild => exact stepRebuild_shape hs
  | listRows l =>
    simp only [step]
    split
    · exact ⟨hs.housed, hs.todo, trivial⟩
    · exact hs

/-! ## Steps of a thread -/

/-- another thread's part stands -/
theorem Awaited.other {p' : Option Pc} (h : Awaited s (some i) x v) (ht : t.threads = Function.update s.threads i p') :
    Awaited t none x v := by
  obtain ⟨j, q, hne, hq, ho⟩ := h
  refine ⟨j, q, Option.some_ne_none j, ?_, ho⟩
  have hj : j ≠ i := fun he => hne (by rw [he])
  rw [ht, Function.update_of_ne hj]
  exact hq

/-- what a thread owes is passed on to its next state -/
theorem Awaited.pass {p' : Option Pc} (h : Awaited s none x v) (hp : s.threads i = some p)
    (ht : t.threads = Function.update s.threads i p')
    (hpass : p.Owes x v ∨ p.Clears x.1 → ∃ q, p' = some q ∧ (q.Owes x v ∨ q.Clears x.1)) : Awaited t none x v := by
  obtain ⟨j, q, -, hq, ho⟩ := h
  by_cases hj : j = i
  · subst hj
    cases hp.symm.trans hq
    obtain ⟨q', hq', ho'⟩ := hpass ho
    refine ⟨j, q', Option.some_ne_none j, ?_, ho'⟩
    rw [ht, Function.update_self, hq']
  · exact Awaited.other ⟨j, q, fun he => hj (Option.some.inj he), hq, ho⟩ ht

/-- the thread's own new state -/
theorem Awaited.self {q : Pc} (ht : t.threads = Function.update s.threads i (some q)) (h : q.Owes x v ∨ q.Clears x.1) :
    Awaited t none x v :=
  ⟨i, q, Option.some_ne_none i, by rw [ht, Function.update_self], h⟩

/-- an object whose file and row are not touched stays covered -/
theorem Covered.pass {p' : Option Pc} (h : Covered s x) (hp : s.threads i = some p)
    (ht : t.threads = Function.update s.threads i p') (hf : t.files x = s.files x) (hr : t.rows x = s.rows x)
    (hre : t.rebuild = s.rebuild)
    (hpass : ∀ v, p.Owes x v ∨ p.Clears x.1 → ∃ q, p' = some q ∧ (q.Owes x v ∨ q.Clears x.1)) : Covered t x := by
  have hdisk : t.disk x = s.disk x := by unfold St.disk; rw [hf]
  unfold Covered
  rw [hdisk, hr, hre]
  rcases h with h | h | h
  · exact Or.inl h
  · exact Or.inr (Or.inl (h.pass hp ht (hpass _)))
  · exact Or.inr (Or.inr h)

/-- the row just written is right, or will be set right -/
theorem Timely.covered {p' : Option Pc} (h : Timely s i x v) (ht : t.threads = Function.update s.threads i p')
    (hf : t.files x = s.files x) (hr : t.rows x = v) (hre : t.rebuild = s.rebuild) : Covered t x := by
  have hdisk : t.disk x = s.disk x := by unfold St.disk; rw [hf]
  unfold Covered
  rw [hdisk, hr, hre]
  rcases h with h | h | h
  · exact Or.inl h
  · exact Or.inr (Or.inl (h.other ht))
  · exact Or.inr (Or.inr h)

variable (hcov : ∀ x, Covered s x) (hp : s.threads i = some p)

include hcov hp

theorem covered_silent {a : Act} {p' : Option Pc} (ha : a.Silent)
    (hpass : ∀ x v, p.Owes x v ∨ p.Clears x.1 → ∃ q, p' = some q ∧ (q.Owes x v ∨ q.Clears x.1)) (x : ObjKey) :
    Covered ((s.apply a).setThread i p') x := by
  have ht : ((s.apply a).setThread i p').threads = Function.update s.threads i p' := by
    unfold St.setThread
    rw [apply_threads]
  obtain ⟨hf, hr⟩ := ha.same s
  exact (hcov x).pass hp ht (congrFun hf x) (congrFun hr x) (apply_rebuild s a) (hpass x)

/-- a rename into place, or an unlink -/
theorem covered_install {a : Act} {f : Option File} {q : Pc} {y : ObjKey} (hf : (s.apply a).files = Function.update s.files y f)
    (hr : (s.apply a).rows = s.rows) (howes : q.Owes y (f.map (·.metadata)))
    (hpass : ∀ x v, x ≠ y → p.Owes x v ∨ p.Clears x.1 → q.Owes x v ∨ q.Clears x.1) (x : ObjKey) :
    Covered ((s.apply a).setThread i (some q)) x := by
  have ht : ((s.apply a).setThread i (some q)).threads = Function.update s.threads i (some q) := by
    unfold St.setThread
    rw [apply_threads]
  by_cases hx : x = y
  · subst hx
    have hdisk : ((s.apply a).setThread i (some q)).disk x = f.map (·.metadata) := by
      change ((s.apply a).files x).map (·.metadata) = _
      rw [hf, Function.update_self]
    unfold Covered
    rw [hdisk]
    exact Or.inr (Or.inl (Awaited.self ht (Or.inl howes)))
  · refine (hcov x).pass hp ht ?_ (congrFun hr x) (apply_rebuild s a) fun v h => ⟨q, rfl, hpass x v hx h⟩
    change (s.apply a).files x = _
    rw [hf, Function.update_of_ne hx]

/-- a row written -/
theorem covered_write {a : Act} {p' : Option Pc} {y : ObjKey} (hf : (s.apply a).files = s.files)
    (hr : (s.apply a).rows = Function.update s.rows y v)
    (hy : Timely s i y v ∨ ∃ q, p' = some q ∧ q.Clears y.1)
    (hpass : ∀ x w, x ≠ y → p.Owes x w ∨ p.Clears x.1 → ∃ q, p' = some q ∧ (q.Owes x w ∨ q.Clears x.1)) (x : ObjKey) :
    Covered ((s.apply a).setThread i p') x := by
  have ht : ((s.apply a).setThread i p').threads = Function.update s.threads i p' := by
    unfold St.setThread
    rw [apply_threads]
  by_cases hx : x = y
  · subst hx
    rcases hy with hy | ⟨q, rfl, hq⟩
    · refine hy.covered ht (congrFun hf x) ?_ (apply_rebuild s a)
      change (s.apply a).rows x = v
      rw [hr, Function.update_self]
    · exact Or.inr (Or.inl (Awaited.self ht (Or.inr hq)))
  · refine (hcov x).pass hp ht (congrFun hf x) ?_ (apply_rebuild s a) fun w h => hpass x w hx h
    change (s.apply a).rows x = _
    rw [hr, Function.update_of_ne hx]

/-- the end of a `delete_bucket` that found its directory: removed by it, or gone already -/
theorem covered_rmdir {a : Act} {b : String} {n : ℕ} (hs : Shape s) (hpc : p = .bucketRows b true n []) (hin : p.InTime s i)
    (ha : a = .rmdir b ∨ (a = .skip ∧ s.dirs b = false)) (x : ObjKey) : Covered ((s.apply a).setThread i none) x := by
  subst hpc
  have ht : ((s.apply a).setThread i none).threads = Function.update s.threads i none := by
    unfold St.setThread
    rw [apply_threads]
  have hrows : (s.apply a).rows = s.rows := by rcases ha with rfl | ⟨rfl, -⟩ <;> rfl
  by_cases hx : x.1 = b
  · -- the directory holds nothing now
    have hfile : ((s.apply a).setThread i none).files x = none := by
      rcases ha with rfl | ⟨rfl, hdir⟩
      · exact if_pos hx
      · by_contra hne
        have := hs.housed x (Or.inl hne)
        rw [hx, hdir] at this
        cases this
    have hdisk : ((s.apply a).setThread i none).disk x = none := by unfold St.disk; rw [hfile]; rfl
    have hrow : ((s.apply a).setThread i none).rows x = s.rows x := congrFun hrows x
    have hre : ((s.apply a).setThread i none).rebuild = s.rebuild := apply_rebuild s a
    unfold Covered
    rw [hdisk, hrow, hre]
    rcases hin x hx with h | h | h
    · exact Or.inl h
    · exact Or.inr (Or.inl (h.other ht))
    · exact Or.inr (Or.inr h)
  · refine (hcov x).pass hp ht ?_ (congrFun hrows x) (apply_rebuild s a) fun w h => ?_
    · rcases ha with rfl | ⟨rfl, -⟩
      · exact if_neg hx
      · rfl
    · rcases h with ⟨h, -⟩ | h
      · cases h
      · exact absurd (show b = x.1 from h).symm hx

omit hcov hp

/-- a step that changes no file and no row passes on what the thread owes, the last step of a `delete_bucket` apart -/
theorem next_pass (ha : (next B C s p).1.Silent) (h : p.Owes x v ∨ p.Clears x.1) :
    (∃ q, (next B C s p).2 = some q ∧ (q.Owes x v ∨ q.Clears x.1)) ∨
      ∃ b n, p = .bucketRows b true n [] ∧ next B C s p = (.skip, none) ∧ s.dirs b = false := by
  cases p with
  | releasing y row => exact Or.inl ⟨_, rfl, h.imp_right fun h => h.elim⟩
  | upserting y row locked => exact ha.elim
  | removing y => exact ha.elim
  | bucketStat b ex => exact Or.inl ⟨_, rfl, h⟩
  | bucketRows b ex n todo =>
    cases todo with
    | cons y todo => exact ha.elim
    | nil =>
      cases ex with
      | false =>
        rcases h with ⟨h, -⟩ | h
        · cases h
        · exact h.elim
      | true =>
        cases hdir : s.dirs b with
        | true =>
          simp only [next, hdir, if_true] at ha
          exact ha.elim
        | false => exact Or.inr ⟨b, n, rfl, by simp only [next, hdir, Bool.false_eq_true, if_false], hdir⟩
  | putNew | putDir | putLocked | putRead | streamNew | streamDir | streamRead | streamOpen | staged | unlocking | labelsNew
  | labelsChecked | labelsRead | labelsStaged | deleteNew | deleteChecked | deleteOpened | bucketNew | rekeyNew | rekeyGot =>
    rcases h with h | h
    · exact h.elim
    · exact h.elim

/-- **One step of a request.** -/
theorem next_covered (hs : Shape s) (hcov : ∀ x, Covered s x) (hp : s.threads i = some p) (hin : p.InTime s i) (x : ObjKey) :
    Covered ((s.apply (next B C s p).1).setThread i (next B C s p).2) x := by
  by_cases ha : (next B C s p).1.Silent
  · by_cases hend : ∃ b n, p = .bucketRows b true n [] ∧ next B C s p = (.skip, none) ∧ s.dirs b = false
    · obtain ⟨b, n, hpc, hnext, hdir⟩ := hend
      rw [hnext]
      exact covered_rmdir hcov hp hs hpc hin (Or.inr ⟨rfl, hdir⟩) x
    · exact covered_silent hcov hp ha (fun x v h => (next_pass ha h).resolve_right hend) x
  · have heff := next_effect B C s p
    generalize (next B C s p).1 = a at heff ha ⊢
    generalize (next B C s p).2 = p' at heff ⊢
    cases heff with
    | silent h => exact absurd h ha
    | install hf =>
      rename_i y row early rekey f
      have hrow : f.metadata = row := hin f hf
      refine covered_install hcov hp (f := some f) (y := y) rfl rfl ?_ (fun _ _ _ h => (h.elim id id : False).elim) x
      cases early with
      | true => exact ⟨rfl, congrArg some hrow⟩
      | false => exact ⟨rfl, congrArg some hrow⟩
    | installLabels hf =>
      rename_i y row f
      have hrow : f.metadata = row := hin f hf
      refine covered_install hcov hp (f := some f) (y := y) rfl rfl ?_ (fun _ _ _ h => (h.elim id id : False).elim) x
      exact ⟨rfl, congrArg some hrow⟩
    | unlink y =>
      refine covered_install hcov hp (f := none) (y := y) rfl rfl ?_ (fun _ _ _ h => (h.elim id id : False).elim) x
      exact ⟨rfl, rfl⟩
    | upsert y row locked =>
      refine covered_write hcov hp (v := some row) (y := y) rfl rfl (Or.inl hin) (fun x v hne h => ?_) x
      rcases h with ⟨he, -⟩ | h
      · exact absurd he.symm hne
      · exact h.elim
    | remove y =>
      refine covered_write hcov hp (v := none) (y := y) rfl rfl (Or.inl hin) (fun x v hne h => ?_) x
      rcases h with ⟨he, -⟩ | h
      · exact absurd he.symm hne
      · exact h.elim
    | removeRow b ex n y todo =>
      have hy : y.1 = b := hs.todo i b ex n (y :: todo) hp y List.mem_cons_self
      refine covered_write hcov hp (v := none) (y := y) rfl rfl ?_ (fun x v hne h => ⟨_, rfl, ?_⟩) x
      · cases ex with
        | true => exact Or.inr ⟨_, rfl, hy.symm⟩
        | false => exact Or.inl hin
      · rcases h with ⟨hmem, hv⟩ | h
        · exact Or.inl ⟨(List.mem_cons.1 hmem).resolve_left hne, hv⟩
        · cases ex with
          | true => exact Or.inr h
          | false => exact h.elim
    | rmdir n hdir => exact covered_rmdir hcov hp hs rfl hin (Or.inl rfl) x

/-! ## Steps of the rebuild -/

theorem rebuild_covered (hs : Shape s) (hcov : ∀ x, Covered s x) (hin : s.rebuild.InTime s) (x : ObjKey) :
    Covered (stepRebuild s) x := by
  unfold stepRebuild
  have hshape := hs.rebuild
  have hx := hcov x
  unfold Covered at hx ⊢
  cases hre : s.rebuild with
  | idle => rw [hre] at hx; simp only; rw [hre]; exact hx
  | done => rw [hre] at hx; simp only; rw [hre]; exact hx
  | scanning todo seen =>
    rw [hre] at hx hshape
    cases todo with
    | nil => simp only; rw [hre]; exact hx
    | cons y todo =>
      obtain ⟨hnd, hdisj⟩ := hshape
      cases hfile : s.files y with
      | some f =>
        simp only [hfile]
        change s.rows x = s.disk x ∨ Awaited s none x (s.disk x) ∨ _
        refine hx.imp_right (Or.imp_right fun h => ?_)
        change (y = x ∧ s.disk x = some f.metadata) ∨ (s.disk x ≠ none ∧ x ∈ todo) ∨ (s.disk x = none ∧ x ∉ seen ∧ y ≠ x)
        have hdisk : s.disk y = some f.metadata := by unfold St.disk; rw [hfile]; rfl
        rcases h with ⟨hsome, hmem⟩ | ⟨hnone, hns⟩
        · rcases List.mem_cons.1 hmem with rfl | hmem
          · exact Or.inl ⟨rfl, hdisk⟩
          · exact Or.inr (Or.inl ⟨hsome, hmem⟩)
        · refine Or.inr (Or.inr ⟨hnone, hns, ?_⟩)
          rintro rfl
          rw [hdisk] at hnone
          cases hnone
      | none =>
        simp only [hfile]
        change s.rows x = s.disk x ∨ Awaited s none x (s.disk x) ∨ _
        refine hx.imp_right (Or.imp_right fun h => ?_)
        change (s.disk x ≠ none ∧ x ∈ todo) ∨ (s.disk x = none ∧ x ∉ seen)
        have hdisk : s.disk y = none := by unfold St.disk; rw [hfile]; rfl
        refine h.imp_left fun ⟨hsome, hmem⟩ => ⟨hsome, (List.mem_cons.1 hmem).resolve_left ?_⟩
        rintro rfl
        exact hsome hdisk
  | read y m todo seen =>
    rw [hre] at hx hin
    simp only
    change Function.update s.rows y (some m) x = s.disk x ∨ Awaited s none x (s.disk x) ∨
      ((s.disk x ≠ none ∧ x ∈ todo) ∨ (s.disk x = none ∧ x ∉ y :: seen))
    by_cases hxy : x = y
    · subst hxy
      rw [Function.update_self]
      rcases hin with h | h
      · exact Or.inl h
      · exact Or.inr (Or.inl h)
    · rw [Function.update_of_ne hxy]
      refine hx.imp_right (Or.imp_right fun h => ?_)
      rcases h with ⟨he, -⟩ | h | ⟨hnone, hns, -⟩
      · exact absurd he.symm hxy
      · exact Or.inl h
      · refine Or.inr ⟨hnone, fun hmem => ?_⟩
        rcases List.mem_cons.1 hmem with he | hmem
        · exact hxy he
        · exact hns hmem
  | removing todo =>
    rw [hre] at hx hin
    cases todo with
    | nil =>
      simp only
      change s.rows x = s.disk x ∨ Awaited s none x (s.disk x) ∨ False
      refine hx.imp_right (Or.imp_right fun h => ?_)
      cases h.2
    | cons y todo =>
      simp only
      change Function.update s.rows y none x = s.disk x ∨ Awaited s none x (s.disk x) ∨ (s.disk x = none ∧ x ∈ todo)
      by_cases hxy : x = y
      · subst hxy
        rw [Function.update_self]
        rcases hin with h | h
        · exact Or.inl h.symm
        · exact Or.inr (Or.inl h)
      · rw [Function.update_of_ne hxy]
        exact hx.imp_right (Or.imp_right fun h => ⟨h.1, (List.mem_cons.1 h.2).resolve_left hxy⟩)

/-! ## Steps -/

/-- a request that begins changes nothing yet -/
theorem call_covered (hcov : ∀ x, Covered s x) (hi : s.threads i = none) (q : Option Pc) (x : ObjKey) :
    Covered (s.setThread i q) x := by
  refine (hcov x).imp_right (Or.imp_left ?_)
  rintro ⟨j, r, hj, hr, ho⟩
  refine ⟨j, r, hj, ?_, ho⟩
  have hne : j ≠ i := by
    rintro rfl
    rw [hi] at hr
    cases hr
  exact (Function.update_of_ne hne _ _).trans hr

/-- **One step, in time, keeps every object covered.** -/
theorem step_covered (hs : Shape s) (hcov : ∀ x, Covered s x) {e : Ev} (hlegal : Legal s e) (hin : InTime s e) (x : ObjKey) :
    Covered (step B C s e) x := by
  cases e with
  | call i q =>
    simp only [step]
    split_ifs with hi
    · exact call_covered hcov (Option.isNone_iff_eq_none.1 hi) _ x
    · exact hcov x
  | step i =>
    simp only [step]
    cases hp : s.threads i with
    | none => exact hcov x
    | some p => exact next_covered hs hcov hp (hin p hp) x
  | commit i r =>
    simp only [step]
    split
    · rename_i y prior hp
      split_ifs
      · exact (hcov x).pass hp rfl rfl rfl rfl fun _ h => (h.elim id id : False).elim
      · exact (hcov x).pass hp rfl rfl rfl rfl fun _ h => (h.elim id id : False).elim
    · exact hcov x
  | abort i =>
    simp only [step]
    split
    · rename_i y prior hp
      exact (hcov x).pass hp rfl rfl rfl rfl fun _ h => (h.elim id id : False).elim
    · exact hcov x
  | list i l =>
    simp only [step]
    split
    · rename_i b ex hp
      refine (hcov x).pass hp rfl rfl rfl rfl fun _ h => ⟨_, rfl, ?_⟩
      cases ex with
      | true => exact Or.inr (h.elim (fun h => h.elim) id)
      | false => exact (h.elim id id : False).elim
    · exact hcov x
  | scan l =>
    simp only [step]
    split
    · -- every file is on the list, and nothing is seen yet
      refine Or.inr (Or.inr ?_)
      change (s.disk x ≠ none ∧ x ∈ l) ∨ (s.disk x = none ∧ x ∉ [])
      by_cases hx : s.files x = none
      · exact Or.inr ⟨by unfold St.disk; rw [hx]; rfl, List.not_mem_nil⟩
      · refine Or.inl ⟨fun h => hx ?_, (hlegal.2 x).2 hx⟩
        unfold St.disk at h
        exact Option.map_eq_none_iff.1 h
    · exact hcov x
  | rebuild => exact rebuild_covered hs hcov hin x
  | listRows l =>
    simp only [step]
    split
    · rename_i seen hre
      have hx := hcov x
      unfold Covered at hx ⊢
      rw [hre] at hx
      change s.rows x = s.disk x ∨ Awaited s none x (s.disk x) ∨ (s.disk x = none ∧ x ∈ l.filter fun y => y ∉ seen)
      rcases hx with h | h | ⟨-, h⟩ | ⟨hnone, hns⟩
      · exact Or.inl h
      · exact Or.inr (Or.inl h)
      · cases h
      · -- nothing on disk, not seen: the row is listed, or there is none
        by_cases hr : s.rows x = none
        · exact Or.inl (by rw [hr, hnone])
        · exact Or.inr (Or.inr ⟨hnone, List.mem_filter.2 ⟨(hlegal x).2 hr, by simpa using hns⟩⟩)
    · exact hcov x

/-! ## Runs -/

/-- row for row what the files say -/
def Agrees (s : St) : Prop := ∀ x, s.rows x = s.disk x

theorem run_covered (hs : Shape s) (hcov : ∀ x, Covered s x) {evs : List Ev}
    (h : Along (step B C) (fun s e => Legal s e ∧ InTime s e) s evs) : ∀ x, Covered (run (step B C) s evs) x :=
  (h.inv (I := fun s => Shape s ∧ ∀ x, Covered s x)
    (fun _ _ hi he => ⟨step_shape hi.1 he.1, step_covered hi.1 hi.2 he.1 he.2⟩) ⟨hs, hcov⟩).2

/-- a covered object whose row nobody will touch any more is right -/
theorem Covered.settled (h : Covered s x) (hq : Quiet s) (hre : s.rebuild = .done) : s.rows x = s.disk x := by
  rcases h with h | ⟨j, q, -, hj, -⟩ | h
  · exact h
  · rw [hq j] at hj
    cases hj
  · rw [hre] at h
    exact h.elim

/-- **A rebuild that has completed has set every row right.** Whatever the index held and whatever was in flight when the run began:
along every run in which no index write is late, they agree once the rebuild is complete and no request is in flight. -/
theorem rebuild_agrees_when_quiet (hs : Shape s) (hre : s.rebuild = .idle) {evs : List Ev}
    (h : Along (step B C) (fun s e => Legal s e ∧ InTime s e) s evs) (hq : Quiet (run (step B C) s evs))
    (hdone : (run (step B C) s evs).rebuild = .done) : Agrees (run (step B C) s evs) := by
  have hmend : ∀ x, Covered s x := by
    intro x
    refine Or.inr (Or.inr ?_)
    rw [hre]
    trivial
  exact fun x => (run_covered hs hmend h x).settled hq hdone

/-! ## Instances -/

theorem inTime_step (hp : s.threads i = some p) (h : p.InTime s i) : InTime s (.step i) := by
  intro q hq
  cases hp.symm.trans hq
  exact h

/-- a put alone is in time -/
theorem wholePut_inTime (rows : ObjKey → Option Metadata) (r : Rebuild) :
    Along (step .filesystem noEnvelopes) (fun s e => Legal s e ∧ InTime s e) (emptyStore rows r) (wholePut 0 1) := by
  refine ⟨⟨trivial, trivial⟩, ⟨trivial, inTime_step rfl trivial⟩, ⟨trivial, inTime_step rfl trivial⟩,
    ⟨trivial, inTime_step rfl trivial⟩, ⟨trivial, inTime_step rfl trivial⟩, ⟨trivial, inTime_step rfl ?_⟩,
    ⟨trivial, inTime_step rfl (Or.inl rfl)⟩, ⟨trivial, inTime_step rfl trivial⟩, trivial⟩
  intro f hf
  cases hf
  rfl

theorem emptyStore_shape (rows : ObjKey → Option Metadata) {r : Rebuild} (hr : r = .idle ∨ r = .done) :
    Shape (emptyStore rows r) := by
  refine ⟨fun x h => ?_, fun j b ex n l h => ?_, ?_⟩
  · rcases h with h | h | h <;> exact absurd rfl h
  · cases h
  · rcases hr with rfl | rfl <;> trivial

/-- what a listing sees of a table with one more entry -/
theorem mem_cons_iff_update {α : Type} {g : ObjKey → Option α} {l : List ObjKey} (hg : ∀ x, x ∈ l ↔ g x ≠ none) (y : ObjKey) (a : α)
    (x : ObjKey) : x ∈ y :: l ↔ Function.update g y (some a) x ≠ none := by
  by_cases hx : x = y
  · subst hx
    rw [Function.update_self]
    exact iff_of_true List.mem_cons_self (Option.some_ne_none _)
  · rw [Function.update_of_ne hx, List.mem_cons, hg x]
    exact or_iff_right hx

theorem mem_nil_iff_none {α : Type} (x : ObjKey) : x ∈ [] ↔ (none : Option α) ≠ none :=
  iff_of_false List.not_mem_nil fun h => h rfl

/-- a put, then a rebuild of an index with a stale row -/
def scanAfterPut : List Ev :=
  wholePut 0 1 ++ [.scan [sampleObject], .rebuild, .rebuild, .listRows [sampleObject, ("b", "z")], .rebuild, .rebuild]

theorem rebuild_agrees_after_one_put :
    Agrees (run (step .filesystem noEnvelopes) (emptyStore staleRow .idle) scanAfterPut) := by
  refine rebuild_agrees_when_quiet (emptyStore_shape _ (Or.inl rfl)) rfl ?_ (fun i => ?_) rfl
  · refine (wholePut_inTime _ .idle).append ⟨⟨⟨List.nodup_singleton _, fun x => ?_⟩, trivial⟩, ⟨trivial, trivial⟩,
      ⟨trivial, Or.inl rfl⟩, ⟨fun x => ?_, trivial⟩, ⟨trivial, Or.inl rfl⟩, ⟨trivial, trivial⟩, trivial⟩
    · exact mem_cons_iff_update mem_nil_iff_none _ _ x
    · -- the rebuild has written the row a second time
      refine (mem_cons_iff_update (g := staleRow) (mem_cons_iff_update mem_nil_iff_none ("b", "z") _) sampleObject
        ((samplePut 1).metadata none) x).trans ?_
      exact Iff.of_eq (congrArg (· ≠ none) (congrFun (Function.update_idem _ _ _).symm x))
  · match i with
    | 0 => rfl
    | n + 1 => rfl

/-- a rebuild that has listed the files before a put, and the rows after it -/
def lateScan : List Ev := [.scan []] ++ wholePut 0 1 ++ [.listRows [sampleObject], .rebuild, .rebuild]

/-- **A rebuild loses a concurrent write.** The object is on disk and was never missing; the rebuild has not seen it and removes
its row. -/
theorem rebuild_removes_new_object :
    let s := run (step .filesystem noEnvelopes) (emptyStore (fun _ => none) .idle) lateScan
    Along (step .filesystem noEnvelopes) Legal (emptyStore (fun _ => none) .idle) lateScan ∧ Quiet s ∧ s.rebuild = .done ∧
      s.rows sampleObject = none ∧ s.disk sampleObject = some ((samplePut 1).metadata none) := by
  refine ⟨?_, fun i => ?_, rfl, rfl, rfl⟩
  · refine ⟨⟨List.nodup_nil, fun x => ?_⟩, ?_⟩
    · exact mem_nil_iff_none x
    · refine ⟨trivial, trivial, trivial, trivial, trivial, trivial, trivial, trivial, fun x => ?_, trivial, trivial, trivial⟩
      exact mem_cons_iff_update mem_nil_iff_none _ _ x
  · match i with
    | 0 => rfl
    | n + 1 => rfl

end Y2q.Objects
