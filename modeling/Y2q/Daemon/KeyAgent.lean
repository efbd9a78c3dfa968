/-
The key agent: an arm leaves an authorization in the state directory, a fetch consumes it and unlocks the registry with it.

An arm writes `armed.tmp` and renames it to `armed`; a fetch renames `armed` to `armed.taking`, reads that name and removes it, and goes on
to the unlock only if the removal succeeded. All arms share the one temporary name and all fetches the other. A file is known by the arm
that created it; a helper that dies is one that takes no further step.

- `Agent.step`: the arms and the fetches over the directory, one file operation at a time.
- `OwnErase`: a fetch that removes `armed.taking` removes the file that it read.
- `AgentInv` / `agentInv_run`: along such runs a file that was used stands under no name.
- `armed_once`: along such runs the authorization of one arm is used by at most one fetch.
- `armed_twice`: with three arms and three fetches, two fetches unlock with what one arm stored.
-/
import Mathlib.Tactic
import Y2q.Core.Run

namespace Y2q.KeyAgent

open Run (Along run)

/-! ## The helpers -/

structure ArmedFile where
  passcode : Option String
  fido2Pin : Option String
  emergencyCode : Option String
deriving DecidableEq, Repr

structure ServeCtx where
  armUid : ℕ
  peerUid : Option ℕ

/-- the names of the state directory, each with the file that stands under it -/
structure StateDir where
  tmp : Option ℕ
  armed : Option ℕ
  taking : Option ℕ
deriving DecidableEq, Repr

def StateDir.Holds (d : StateDir) (file : ℕ) : Prop := d.tmp = some file ∨ d.armed = some file ∨ d.taking = some file

/-- no file stands under two names -/
def StateDir.Apart (d : StateDir) : Prop :=
  ∀ file, (d.tmp = some file → d.armed ≠ some file ∧ d.taking ≠ some file) ∧ (d.armed = some file → d.taking ≠ some file)

/-- where `serve_arm` stands in `write_armed` -/
inductive Arm where
  | removing (armed : ArmedFile)
  | creating (armed : ArmedFile)
  | writing (armed : ArmedFile)
  | publishing
  /-- removes the temporary file after an error -/
  | discarding
  | returned
deriving DecidableEq, Repr

/-- it is past the creation of its file -/
def Arm.Created : Arm → Prop
  | .removing _ | .creating _ => False
  | _ => True

/-- where `serve_fetch` stands in `take_armed`, with `read_taking` in the middle -/
inductive Fetch where
  | taking
  | stating
  | opening
  | reading (file : ℕ)
  /-- what was parsed, with the file it was read from -/
  | erasing (parsed : Option (ℕ × ArmedFile))
  | unlocking (armed : ArmedFile)
  | refused
deriving DecidableEq, Repr

structure Agent where
  dir : StateDir
  /-- what has been written to a file; nothing parses before it is complete -/
  files : ℕ → Option ArmedFile
  arms : ℕ → Option Arm
  fetches : ℕ → Option Fetch
  /-- the fetches that went on to `unlock_for_fetch`, each with the arm whose file it had read -/
  unlocks : List (ℕ × ℕ)

def Agent.new : Agent := ⟨⟨none, none, none⟩, fun _ => none, fun _ => none, fun _ => none, []⟩

inductive Event where
  | arm (i peer : ℕ) (armed : ArmedFile)
  | fetch (j peer : ℕ)
  /-- `ok` is false if the operation fails for another reason than the state of the directory -/
  | armStep (i : ℕ) (ok : Bool)
  | fetchStep (j : ℕ) (ok : Bool)
deriving DecidableEq, Repr

namespace Agent

def setArm (s : Agent) (i : ℕ) (a : Arm) : Agent := { s with arms := Function.update s.arms i (some a) }

theorem setArm_self (s : Agent) (i : ℕ) (a : Arm) : (s.setArm i a).arms i = some a := Function.update_self _ _ _

theorem setArm_ne {i j : ℕ} (h : j ≠ i) (s : Agent) (a : Arm) : (s.setArm i a).arms j = s.arms j := Function.update_of_ne h _ _

def setFetch (s : Agent) (j : ℕ) (f : Fetch) : Agent := { s with fetches := Function.update s.fetches j (some f) }

/-- `remove_file(armed.tmp)`, whose outcome is ignored -/
def removeTmp (s : Agent) (ok : Bool) : Agent := if ok then { s with dir := { s.dir with tmp := none } } else s

def stepArm (s : Agent) (i : ℕ) (ok : Bool) : Arm → Agent
  | .removing armed => (s.removeTmp ok).setArm i (.creating armed)
  | .creating armed =>
    -- `create_new` fails on a name that is taken
    if ok && s.dir.tmp.isNone then { s with dir := { s.dir with tmp := some i } }.setArm i (.writing armed)
    else s.setArm i .discarding
  | .writing armed =>
    if ok then { s with files := Function.update s.files i (some armed) }.setArm i .publishing else s.setArm i .discarding
  | .publishing =>
    match ok, s.dir.tmp with
    | true, some file => { s with dir := { s.dir with tmp := none, armed := some file } }.setArm i .returned
    | _, _ => s.setArm i .discarding
  | .discarding => (s.removeTmp ok).setArm i .returned
  | .returned => s

def stepFetch (s : Agent) (j : ℕ) (ok : Bool) : Fetch → Agent
  | .taking =>
    match ok, s.dir.armed with
    | true, some file => { s with dir := { s.dir with armed := none, taking := some file } }.setFetch j .stating
    | _, _ => s.setFetch j .refused
  | .stating => s.setFetch j (if ok && s.dir.taking.isSome then .opening else .erasing none)
  | .opening =>
    match ok, s.dir.taking with
    | true, some file => s.setFetch j (.reading file)
    | _, _ => s.setFetch j (.erasing none)
  | .reading file => s.setFetch j (.erasing (if ok then (s.files file).map fun armed => (file, armed) else none))
  | .erasing parsed =>
    match ok, s.dir.taking with
    | true, some _ =>
      match parsed with
      | some (file, armed) =>
        { s with dir := { s.dir with taking := none }, unlocks := (file, j) :: s.unlocks }.setFetch j (.unlocking armed)
      | none => { s with dir := { s.dir with taking := none } }.setFetch j .refused
    | _, _ => s.setFetch j .refused
  | .unlocking _ | .refused => s

def step (ctx : ServeCtx) (s : Agent) : Event → Agent
  | .arm i peer armed => if peer = ctx.armUid ∧ s.arms i = none then s.setArm i (.removing armed) else s
  | .fetch j peer => if ctx.peerUid = some peer ∧ s.fetches j = none then s.setFetch j .taking else s
  | .armStep i ok => match s.arms i with
    | some a => s.stepArm i ok a
    | none => s
  | .fetchStep j ok => match s.fetches j with
    | some f => s.stepFetch j ok f
    | none => s

/-! ## What a step does to the directory -/

variable {ctx : ServeCtx} {s : Agent} {x : Event} {i j file : ℕ}

inductive Moves (s : Agent) (x : Event) : StateDir → List (ℕ × ℕ) → Prop where
  | stays : Moves s x s.dir s.unlocks
  | removed : Moves s x { s.dir with tmp := none } s.unlocks
  | created (i : ℕ) (armed : ArmedFile) (hx : x = .armStep i true) (harm : s.arms i = some (.creating armed)) (htmp : s.dir.tmp = none) :
    Moves s x { s.dir with tmp := some i } s.unlocks
  | published (file : ℕ) (htmp : s.dir.tmp = some file) : Moves s x { s.dir with tmp := none, armed := some file } s.unlocks
  | taken (file : ℕ) (harmed : s.dir.armed = some file) : Moves s x { s.dir with armed := none, taking := some file } s.unlocks
  | erased : Moves s x { s.dir with taking := none } s.unlocks
  | used (j file file' : ℕ) (armed : ArmedFile) (hx : x = .fetchStep j true) (hfetch : s.fetches j = some (.erasing (some (file, armed))))
    (htaking : s.dir.taking = some file') : Moves s x { s.dir with taking := none } ((file, j) :: s.unlocks)

theorem removeTmp_moves (ok : Bool) : Moves s x (s.removeTmp ok).dir (s.removeTmp ok).unlocks := by
  cases ok with
  | true => exact .removed
  | false => exact .stays

theorem step_moves (ctx : ServeCtx) (s : Agent) (x : Event) : Moves s x (s.step ctx x).dir (s.step ctx x).unlocks := by
  cases x with
  | arm i peer armed =>
    simp only [step]
    split <;> exact .stays
  | fetch j peer =>
    simp only [step]
    split <;> exact .stays
  | armStep i ok =>
    simp only [step]
    split
    · rename_i a ha
      cases a with
      | removing armed => exact removeTmp_moves ok
      | creating armed =>
        simp only [stepArm]
        split
        · rename_i h
          simp only [Bool.and_eq_true, Option.isNone_iff_eq_none] at h
          obtain ⟨rfl, htmp⟩ := h
          exact .created i armed rfl ha htmp
        · exact .stays
      | writing armed =>
        simp only [stepArm]
        split <;> exact .stays
      | publishing =>
        simp only [stepArm]
        split
        · rename_i htmp
          exact .published _ htmp
        · exact .stays
      | discarding => exact removeTmp_moves ok
      | returned => exact .stays
    · exact .stays
  | fetchStep j ok =>
    simp only [step]
    split
    · rename_i f hf
      cases f with
      | taking =>
        simp only [stepFetch]
        split
        · rename_i harmed
          exact .taken _ harmed
        · exact .stays
      | opening =>
        simp only [stepFetch]
        split <;> exact .stays
      | erasing parsed =>
        simp only [stepFetch]
        split
        · rename_i htaking
          split
          · exact .used j _ _ _ rfl hf htaking
          · exact .erased
        · exact .stays
      | stating | reading _ | unlocking _ | refused => exact .stays
    · exact .stays

def Created (s : Agent) (i : ℕ) : Prop := ∃ a, s.arms i = some a ∧ a.Created

theorem setArm_created {a : Arm} (ha : a.Created) (h : j = i ∨ s.Created j) : (s.setArm i a).Created j := by
  by_cases hji : j = i
  · exact ⟨a, hji ▸ setArm_self s i a, ha⟩
  · obtain ⟨b, hb, hcreated⟩ := h.resolve_left hji
    exact ⟨b, by rw [setArm_ne hji, hb], hcreated⟩

theorem stepArm_created {a : Arm} {ok : Bool} (ha : s.arms i = some a) (h : s.Created j) : (s.stepArm i ok a).Created j := by
  have hremove : (s.removeTmp ok).Created j := by
    cases ok <;> exact h
  -- an arm that has yet to create its file is not the one of the file
  have hne : ¬a.Created → j ≠ i := by
    rintro hnot rfl
    obtain ⟨b, hb, hcreated⟩ := h
    rw [ha] at hb
    cases hb
    exact hnot hcreated
  cases a with
  | removing armed =>
    obtain ⟨b, hb, hcreated⟩ := hremove
    exact ⟨b, by rw [stepArm, setArm_ne (hne id), hb], hcreated⟩
  | creating armed =>
    simp only [stepArm]
    split <;> exact setArm_created trivial (.inr h)
  | writing armed =>
    simp only [stepArm]
    split <;> exact setArm_created trivial (.inr h)
  | publishing =>
    simp only [stepArm]
    split <;> exact setArm_created trivial (.inr h)
  | discarding => exact setArm_created trivial (.inr hremove)
  | returned => exact h

theorem stepFetch_arms (ok : Bool) (f : Fetch) : (s.stepFetch j ok f).arms = s.arms := by
  cases f with
  | erasing parsed =>
    simp only [stepFetch]
    split
    · split <;> rfl
    · rfl
  | taking | opening =>
    simp only [stepFetch]
    split <;> rfl
  | stating | reading _ | unlocking _ | refused => rfl

theorem created_step (h : s.Created file) : (s.step ctx x).Created file := by
  cases x with
  | arm i peer armed =>
    simp only [step]
    split
    · rename_i hi
      obtain ⟨a, ha, hcreated⟩ := h
      have hne : file ≠ i := by
        rintro rfl
        rw [hi.2] at ha
        cases ha
      exact ⟨a, by rw [setArm_ne hne, ha], hcreated⟩
    · exact h
  | fetch j peer =>
    simp only [step]
    split <;> exact h
  | armStep i ok =>
    simp only [step]
    split
    · exact stepArm_created ‹_› h
    · exact h
  | fetchStep j ok =>
    simp only [step]
    split
    · rw [Created, stepFetch_arms]
      exact h
    · exact h

/-- an arm that creates its file is past it afterwards -/
theorem created_created {armed : ArmedFile} (harm : s.arms i = some (.creating armed)) (htmp : s.dir.tmp = none) :
    (s.step ctx (.armStep i true)).Created i := by
  simp only [step, harm, stepArm, htmp, Option.isNone_none, Bool.and_self, if_true]
  exact setArm_created trivial (.inl rfl)

/-! ## Files that were used -/

/-- what a fetch that has read a file finds under the name that it removes is this file, if anything is there -/
def Owns (d : StateDir) : Option Fetch → Prop
  | some (.erasing (some (file, _))) => d.taking = none ∨ d.taking = some file
  | _ => True

instance (d : StateDir) : DecidablePred (Owns d)
  | some (.erasing (some (file, _))) => inferInstanceAs (Decidable (d.taking = none ∨ d.taking = some file))
  | some (.erasing none) | some .taking | some .stating | some .opening | some (.reading _) | some (.unlocking _) | some .refused | none =>
    .isTrue trivial

/-- a fetch that removes `armed.taking` and goes on removes the file that it read -/
def OwnErase (s : Agent) : Event → Prop
  | .fetchStep j true => Owns s.dir (s.fetches j)
  | _ => True

instance (s : Agent) : DecidablePred s.OwnErase
  | .fetchStep j true => inferInstanceAs (Decidable (Owns s.dir (s.fetches j)))
  | .fetchStep _ false | .arm _ _ _ | .fetch _ _ | .armStep _ _ => .isTrue trivial

/-- no file stands under two names, and one that was used under none -/
structure AgentInv (s : Agent) : Prop where
  created : ∀ file, s.dir.Holds file ∨ file ∈ s.unlocks.map Prod.fst → s.Created file
  apart : s.dir.Apart
  spent : ∀ file ∈ s.unlocks.map Prod.fst, ¬s.dir.Holds file
  once : (s.unlocks.map Prod.fst).Nodup

theorem AgentInv.step (h : s.AgentInv) (hx : s.OwnErase x) : (s.step ctx x).AgentInv := by
  have hcreated : ∀ file, s.Created file → (s.step ctx x).Created file := fun _ => created_step
  have hmoves := step_moves ctx s x
  generalize hdir : (s.step ctx x).dir = dir, hunlocks : (s.step ctx x).unlocks = unlocks at hmoves
  suffices h' : (∀ file, dir.Holds file ∨ file ∈ unlocks.map Prod.fst → (s.step ctx x).Created file) ∧ dir.Apart ∧
      (∀ file ∈ unlocks.map Prod.fst, ¬dir.Holds file) ∧ (unlocks.map Prod.fst).Nodup by
    rw [← hdir, ← hunlocks] at h'
    exact ⟨h'.1, h'.2.1, h'.2.2.1, h'.2.2.2⟩
  obtain ⟨created, apart, spent, once⟩ := h
  -- where names are only moved or lost, every file that is held was held before
  have hmoved : ∀ d : StateDir, (∀ file, d.Holds file → s.dir.Holds file) → d.Apart →
      (∀ file, d.Holds file ∨ file ∈ s.unlocks.map Prod.fst → (s.step ctx x).Created file) ∧ d.Apart ∧
        (∀ file ∈ s.unlocks.map Prod.fst, ¬d.Holds file) ∧ (s.unlocks.map Prod.fst).Nodup := fun d hd hapart =>
    ⟨fun file hfile => hcreated file (created file (hfile.imp_left (hd file))), hapart,
      fun file hfile hheld => spent file hfile (hd file hheld), once⟩
  cases hmoves with
  | stays => exact hmoved s.dir (fun _ h => h) apart
  | removed => exact hmoved _ (fun file h => by grind [StateDir.Holds]) (by grind [StateDir.Apart])
  | published file htmp => exact hmoved _ (fun file h => by grind [StateDir.Holds]) (by grind [StateDir.Apart])
  | taken file harmed => exact hmoved _ (fun file h => by grind [StateDir.Holds]) (by grind [StateDir.Apart])
  | erased => exact hmoved _ (fun file h => by grind [StateDir.Holds]) (by grind [StateDir.Apart])
  | created i armed hx' harm htmp =>
    -- the file is new: its arm had not created one, so it was neither held nor used
    have hnew : ¬s.Created i := by
      rintro ⟨a, ha, hcreated⟩
      rw [harm] at ha
      cases ha
      exact hcreated
    have hheld : ¬s.dir.Holds i := fun h => hnew (created i (.inl h))
    have hused : i ∉ s.unlocks.map Prod.fst := fun h => hnew (created i (.inr h))
    subst hx'
    have hmade : (s.step ctx (.armStep i true)).Created i := created_created harm htmp
    have hholds : ∀ file, StateDir.Holds { s.dir with tmp := some i } file → file = i ∨ s.dir.Holds file := by
      grind [StateDir.Holds]
    refine ⟨fun file hfile => ?_, by grind [StateDir.Apart, StateDir.Holds], fun file hfile h => ?_, once⟩
    · rcases hfile with h | h
      · rcases hholds file h with rfl | h
        · exact hmade
        · exact hcreated file (created file (.inl h))
      · exact hcreated file (created file (.inr h))
    · rcases hholds file h with rfl | h
      · exact hused hfile
      · exact spent file hfile h
  | used j file file' armed hx' hfetch htaking =>
    subst hx'
    have hown : s.dir.taking = some file := by
      simp only [OwnErase, hfetch, Owns] at hx
      exact hx.resolve_left (by simp [htaking])
    have hheld : s.dir.Holds file := .inr (.inr hown)
    have hholds : ∀ f, StateDir.Holds { s.dir with taking := none } f → f ≠ file ∧ s.dir.Holds f := by
      grind [StateDir.Holds, StateDir.Apart]
    refine ⟨fun f hf => ?_, by grind [StateDir.Apart], fun f hf h => ?_, ?_⟩
    · simp only [List.map_cons, List.mem_cons] at hf
      rcases hf with h | rfl | h
      · exact hcreated f (created f (.inl (hholds f h).2))
      · exact hcreated f (created f (.inl hheld))
      · exact hcreated f (created f (.inr h))
    · simp only [List.map_cons, List.mem_cons] at hf
      rcases hf with rfl | hf
      · exact (hholds f h).1 rfl
      · exact spent f hf (hholds f h).2
    · exact List.nodup_cons.2 ⟨fun h => spent file h hheld, once⟩

theorem agentInv_new : new.AgentInv where
  created file h := by simp [new, StateDir.Holds] at h
  apart := by simp [new, StateDir.Apart]
  spent file h := by simp [new] at h
  once := List.nodup_nil

theorem agentInv_run {events : List Event} (h : Along (Agent.step ctx) OwnErase new events) : (run (Agent.step ctx) new events).AgentInv :=
  h.inv (fun _ _ hi hx => hi.step hx) agentInv_new

end Agent

open Agent

/-- what an arm stored is used for the unlock of no more than one fetch -/
def UsedOnce (s : Agent) : Prop := ∀ i j k, (i, j) ∈ s.unlocks → (i, k) ∈ s.unlocks → j = k

/-- **An authorization is used once, if every fetch removes the file that it read.** -/
theorem armed_once (ctx : ServeCtx) (events : List Event) (h : Along (step ctx) OwnErase new events) :
    UsedOnce (run (step ctx) new events) := by
  intro i j k hj hk
  have honce := (agentInv_run h).once
  have heq : (i, j) = (i, k) := List.inj_on_of_nodup_map honce hj hk rfl
  exact congrArg Prod.snd heq

def rootArms : ServeCtx := ⟨0, some 1000⟩

def noSecrets : ArmedFile := ⟨none, none, none⟩

def armAll (i : ℕ) : List Event := .arm i 0 noSecrets :: List.replicate 4 (.armStep i true)

def fetchSteps (j n : ℕ) : List Event := List.replicate n (.fetchStep j true)

/-- two arms and two fetches, one after the other -/
theorem armed_once_twice : UsedOnce (run (step rootArms) new (armAll 0 ++ .fetch 0 1000 :: fetchSteps 0 5 ++ armAll 1 ++ .fetch 1 1000 :: fetchSteps 1 5)) := by
  exact armed_once rootArms _ (by decide)

/-! ## Three fetches -/

/-- the second fetch moves its file over the first one's, both read it, and the third moves one more there between their removals -/
def threeFetches : List Event :=
  armAll 0 ++ .fetch 0 1000 :: fetchSteps 0 1 ++ armAll 1 ++ .fetch 1 1000 :: fetchSteps 1 4 ++ fetchSteps 0 4 ++ armAll 2 ++
    .fetch 2 1000 :: fetchSteps 2 1 ++ fetchSteps 1 1

theorem armed_twice : ¬UsedOnce (run (step rootArms) new threeFetches) := by
  intro h
  have hunlocks : (run (step rootArms) new threeFetches).unlocks = [(1, 1), (1, 0)] := by decide
  exact absurd (h 1 1 0 (by simp [hunlocks]) (by simp [hunlocks])) (by decide)

end Y2q.KeyAgent
