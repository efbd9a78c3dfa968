/-
The status of an index rebuild (`rebuild_cache` and `run_rebuild` of both backends).

A call claims the status under its lock, reads two keys of the node key's slot, and spawns the task. The task reports how far it is and
how it ended. Between any two of these steps others may come. A key that is not there ends the call, and nothing takes the claim back.

What a task meets on the disk and in the index comes with its step. Errors of single files and rows are logged and passed over.

- `Exclusive`: there is at most one task or claim, and while there is one the status is `Running`. It holds along every run
  (`exclusive_run`).
- `Sound`: what is asked of a step. `KeysFound`: a call that holds the claim finds its keys.
- `rebuild_never_wedges_iff`: a run is `Sound` exactly if it is `KeysFound`.
- `Wedged`: `Running` without a task or a claim. A call that does not find its keys ends there (`wedged_of_setUp`), and it is final
  (`Wedged.run`, `Wedged.refuses`).
-/
import Mathlib.Tactic
import Y2q.Core.Bytes
import Y2q.Core.Run

namespace Y2q.RebuildStatus

open Run

/-! ## Status and keys -/

inductive CacheRebuildStatus where
  | Idle
  | Running (percent : UInt8)
  | Completed
  | Failed (reason : String)
deriving DecidableEq, Repr

inductive Error where
  | rebuildAlreadyRunning
  | internalError (bucket key operation message : String)
deriving DecidableEq, Repr

/-- the keys of the slot that a rebuild reads -/
structure NodeKeys where
  objectMetadataKey : Bytes
  containerHeaderKey : Bytes
deriving DecidableEq, Repr

/-- nothing if the slot is empty, or its guarded memory does not unlock -/
def keyAt (slot : Option NodeKeys) (unlocks : Bool) (key : NodeKeys → Bytes) : Option Bytes :=
  slot.bind fun keys => if unlocks then some (key keys) else none

def requireObjectMetadataKey (slot : Option NodeKeys) (unlocks : Bool) : Except Error Bytes :=
  match keyAt slot unlocks NodeKeys.objectMetadataKey with
  | some key => .ok key
  | none => .error (.internalError "" "" "metadata" "metadata operation attempted without an installed node key")

def requireContainerHeaderKey (slot : Option NodeKeys) (unlocks : Bool) : Except Error Bytes :=
  match keyAt slot unlocks NodeKeys.containerHeaderKey with
  | some key => .ok key
  | none => .error (.internalError "" "" "container-header" "object header operation attempted without an installed node key")

/-! ## The task -/

inductive Backend where
  | filesystem
  | uring
deriving DecidableEq, Repr

/-- how far `run_rebuild` is -/
inductive Phase where
  | enumerate
  | walk (total processed : ℕ)
  | listKeys
  | finish (result : Except String Unit)

structure Task where
  mek : Bytes
  chk : Bytes
  phase : Phase

def REBUILD_BATCH_SIZE : ℕ := 64

def reportEvery (total : ℕ) : ℕ := max (total / 100) 1

def percentDone (total processed : ℕ) : UInt8 := min (UInt8.ofNat (processed * 100 / total)) 99

/-- what is reported after the `i`-th file, counted from zero -/
def report (backend : Backend) (total i : ℕ) : Option UInt8 :=
  let count := match backend with
    | .filesystem => i
    | .uring => i + 1
  if count % reportEvery total = 0 ∧ 0 < total then some (percentDone total (i + 1)) else none

/-- the `uring` walk hands its files to the pool a batch at a time, and the pool may be gone -/
def walkStep (backend : Backend) (total i : ℕ) (answer : Except String ℕ) : Phase × Option UInt8 :=
  if i < total then
    match backend, answer with
    | .uring, .error e =>
      if i % REBUILD_BATCH_SIZE = 0 then (.finish (.error ("worker pool closed mid-rebuild: " ++ e)), none)
      else (.walk total (i + 1), report backend total i)
    | _, _ => (.walk total (i + 1), report backend total i)
  else (.listKeys, none)

def enumerateError (backend : Backend) (e : String) : String :=
  match backend with
  | .filesystem => "enumerate obj files: " ++ e
  | .uring => "enumerate .obj files: " ++ e

/-- the next phase, given what the disk, the pool or the index answers, and the percentage reported with it -/
def runRebuild (backend : Backend) (answer : Except String ℕ) : Phase → Phase × Option UInt8
  | .enumerate =>
    match answer with
    | .ok total => (.walk total 0, none)
    | .error e => (.finish (.error (enumerateError backend e)), none)
  | .walk total i => walkStep backend total i answer
  | .listKeys =>
    match answer with
    | .ok _ => (.finish (.ok ()), none)
    | .error e => (.finish (.error ("list index keys: " ++ e)), none)
  | .finish result => (.finish result, none)

def outcome : Except String Unit → CacheRebuildStatus
  | .ok () => .Completed
  | .error reason => .Failed reason

/-! ## Calls and tasks -/

structure Storage where
  backend : Backend
  slot : Option NodeKeys
  status : CacheRebuildStatus
  /-- for each call that has claimed the status and not yet read its keys, the status it found -/
  claims : List CacheRebuildStatus
  tasks : List Task

def Storage.new (backend : Backend) : Storage := ⟨backend, none, .Idle, [], []⟩

inductive Event where
  | install (keys : NodeKeys)
  /-- a call takes the lock -/
  | claim
  /-- a call that holds a claim goes on, with whether the slot's memory unlocks for either key -/
  | setUp (call : ℕ) (unlocksMek unlocksChk : Bool)
  /-- a task goes on -/
  | work (task : ℕ) (answer : Except String ℕ)

def claim : CacheRebuildStatus → Except Error CacheRebuildStatus
  | .Running _ => .error .rebuildAlreadyRunning
  | _ => .ok (.Running 0)

def setUp (slot : Option NodeKeys) (unlocksMek unlocksChk : Bool) : Except Error Task := do
  let mek ← requireObjectMetadataKey slot unlocksMek
  let chk ← requireContainerHeaderKey slot unlocksChk
  pure ⟨mek, chk, .enumerate⟩

def setUpStep (s : Storage) (call : ℕ) : Except Error Task → Storage
  | .error _ => { s with claims := s.claims.eraseIdx call }
  | .ok task => { s with claims := s.claims.eraseIdx call, tasks := s.tasks ++ [task] }

/-- the end of the task is its last step -/
def workStep (s : Storage) (t : ℕ) (task : Task) (answer : Except String ℕ) : Storage :=
  match task.phase with
  | .finish result => { s with status := outcome result, tasks := s.tasks.eraseIdx t }
  | phase =>
    let next := runRebuild s.backend answer phase
    { s with status := next.2.elim s.status .Running, tasks := s.tasks.set t { task with phase := next.1 } }

def step (s : Storage) : Event → Storage
  | .install keys => { s with slot := some keys }
  | .claim =>
    match claim s.status with
    | .error _ => s
    | .ok status => { s with status, claims := s.claims ++ [s.status] }
  | .setUp call unlocksMek unlocksChk =>
    match s.claims[call]? with
    | none => s
    | some _ => setUpStep s call (setUp s.slot unlocksMek unlocksChk)
  | .work t answer =>
    match s.tasks[t]? with
    | none => s
    | some task => workStep s t task answer

/-! ## What is asked of them -/

def IsRunning (status : CacheRebuildStatus) : Prop := ∃ percent, status = .Running percent

/-- a task runs, or a call is about to spawn one -/
def InFlight (s : Storage) : Prop := s.tasks ≠ [] ∨ s.claims ≠ []

structure Sound (s : Storage) (e : Event) : Prop where
  /-- a call is refused only while a rebuild is in flight -/
  refused : ∀ error, e = .claim → claim s.status = .error error → InFlight s
  /-- a call that fails leaves the status as it found it -/
  failed : ∀ call unlocksMek unlocksChk found error, e = .setUp call unlocksMek unlocksChk → s.claims[call]? = some found →
    setUp s.slot unlocksMek unlocksChk = .error error → (step s e).status = found
  /-- when a task has ended, the next call can claim the status -/
  ended : ∀ t answer task result, e = .work t answer → s.tasks[t]? = some task → task.phase = .finish result →
    ¬IsRunning (step s e).status ∧ claim (step s e).status = .ok (.Running 0)
  alone : (step s e).tasks.length ≤ 1
  tended : IsRunning (step s e).status → InFlight (step s e)

/-- a call that holds a claim finds the keys of the node key -/
def KeysFound (s : Storage) : Event → Prop
  | .setUp call unlocksMek unlocksChk => s.claims[call]? ≠ none → s.slot ≠ none ∧ unlocksMek = true ∧ unlocksChk = true
  | _ => True

/-! ## What a step does -/

section Step

variable {s : Storage} {status : CacheRebuildStatus}

theorem claim_running (h : IsRunning status) : claim status = .error .rebuildAlreadyRunning := by
  obtain ⟨percent, rfl⟩ := h
  rfl

theorem claim_idle (h : ¬IsRunning status) : claim status = .ok (.Running 0) := by
  cases status with
  | Running percent => exact absurd ⟨percent, rfl⟩ h
  | _ => rfl

theorem not_isRunning_outcome (result : Except String Unit) : ¬IsRunning (outcome result) := by
  rintro ⟨percent, h⟩
  cases result <;> cases h

/-- what a percentage is reported over is `Running` as before -/
theorem isRunning_elim (percent : Option UInt8) (h : IsRunning status) : IsRunning (percent.elim status .Running) := by
  cases percent with
  | none => exact h
  | some percent => exact ⟨percent, rfl⟩

theorem setUp_ok (slot : Option NodeKeys) (unlocksMek unlocksChk : Bool) :
    (∃ task, setUp slot unlocksMek unlocksChk = .ok task) ↔ slot ≠ none ∧ unlocksMek = true ∧ unlocksChk = true := by
  cases slot with
  | none =>
    refine iff_of_false ?_ fun h => h.1 rfl
    rintro ⟨task, h⟩
    cases h
  | some keys =>
    cases unlocksMek with
    | false =>
      refine iff_of_false ?_ fun h => Bool.false_ne_true h.2.1
      rintro ⟨task, h⟩
      cases h
    | true =>
      cases unlocksChk with
      | false =>
        refine iff_of_false ?_ fun h => Bool.false_ne_true h.2.2
        rintro ⟨task, h⟩
        cases h
      | true => exact iff_of_true ⟨_, rfl⟩ ⟨nofun, rfl, rfl⟩

/-- a task ends, or goes on under the status it had or under `Running` -/
theorem workStep_cases (s : Storage) (t : ℕ) (task : Task) (answer : Except String ℕ) :
    (∃ result, task.phase = .finish result ∧
      workStep s t task answer = { s with status := outcome result, tasks := s.tasks.eraseIdx t }) ∨
    (∀ result, task.phase ≠ .finish result) ∧ ∃ percent task',
      workStep s t task answer = { s with status := Option.elim percent s.status .Running, tasks := s.tasks.set t task' } := by
  unfold workStep
  split
  next result hphase => exact .inl ⟨result, hphase, rfl⟩
  next hphase => exact .inr ⟨fun result h => hphase result h, _, _, rfl⟩

end Step

/-! ## One rebuild at a time -/

structure Exclusive (s : Storage) : Prop where
  one : s.tasks.length + s.claims.length ≤ 1
  running : 0 < s.tasks.length + s.claims.length → IsRunning s.status
  found : ∀ found ∈ s.claims, ¬IsRunning found

variable {s : Storage}

theorem inFlight_iff : InFlight s ↔ 0 < s.tasks.length + s.claims.length := by
  rw [InFlight, Nat.add_pos_iff_pos_or_pos, List.length_pos_iff, List.length_pos_iff]

theorem exclusive_new (backend : Backend) : Exclusive (Storage.new backend) :=
  ⟨Nat.zero_le 1, fun h => absurd h (Nat.lt_irrefl 0), nofun⟩

theorem Exclusive.step (h : Exclusive s) (e : Event) : Exclusive (step s e) := by
  cases e with
  | install keys => exact ⟨h.one, h.running, h.found⟩
  | claim =>
    simp only [RebuildStatus.step]
    by_cases hrunning : IsRunning s.status
    · rw [claim_running hrunning]
      exact h
    · -- there is no task and no other claim
      have hnone : s.tasks.length + s.claims.length = 0 := Nat.eq_zero_of_not_pos fun hpos => hrunning (h.running hpos)
      rw [claim_idle hrunning]
      refine ⟨?_, fun _ => ⟨0, rfl⟩, fun found hfound => ?_⟩
      · simp only [List.length_append, List.length_singleton]
        omega
      · rcases List.mem_append.1 hfound with hfound | hfound
        · exact h.found found hfound
        · rw [List.mem_singleton.1 hfound]
          exact hrunning
  | setUp call unlocksMek unlocksChk =>
    simp only [RebuildStatus.step]
    cases hcall : s.claims[call]? with
    | none => exact h
    | some found =>
      have hlt := (List.getElem?_eq_some_iff.1 hcall).1
      have hone := h.one
      have hrunning := h.running (by omega)
      have hfound : ∀ found ∈ s.claims.eraseIdx call, ¬IsRunning found := fun found hmem =>
        h.found found (List.mem_of_mem_eraseIdx hmem)
      cases setUp s.slot unlocksMek unlocksChk with
      | error error =>
        refine ⟨?_, fun _ => hrunning, hfound⟩
        simp only [setUpStep, List.length_eraseIdx_of_lt hlt]
        omega
      | ok task =>
        refine ⟨?_, fun _ => hrunning, hfound⟩
        simp only [setUpStep, List.length_eraseIdx_of_lt hlt, List.length_append, List.length_singleton]
        omega
  | work t answer =>
    simp only [RebuildStatus.step]
    cases htask : s.tasks[t]? with
    | none => exact h
    | some task =>
      have hlt := (List.getElem?_eq_some_iff.1 htask).1
      have hone := h.one
      have hrunning := h.running (by omega)
      obtain ⟨result, -, hs⟩ | ⟨-, percent, task', hs⟩ := workStep_cases s t task answer
      · simp only [hs]
        refine ⟨?_, fun hpos => ?_, h.found⟩
        · simp only [List.length_eraseIdx_of_lt hlt]
          omega
        · simp only [List.length_eraseIdx_of_lt hlt] at hpos
          omega
      · simp only [hs]
        refine ⟨?_, fun _ => isRunning_elim percent hrunning, h.found⟩
        simpa only [List.length_set] using hone

/-- two tasks never run at the same time -/
theorem exclusive_run (h : Exclusive s) (events : List Event) : Exclusive (run step s events) := by
  induction events generalizing s with
  | nil => exact h
  | cons e events ih => exact ih (h.step e)

/-! ## Never wedged -/

def Tended (s : Storage) : Prop := IsRunning s.status → InFlight s

theorem tended_step (htended : Tended s) {e : Event} (he : KeysFound s e) : Tended (step s e) := by
  cases e with
  | install keys => exact htended
  | claim =>
    simp only [RebuildStatus.step]
    by_cases hrunning : IsRunning s.status
    · rw [claim_running hrunning]
      exact htended
    · rw [claim_idle hrunning]
      exact fun _ => .inr (List.append_ne_nil_of_right_ne_nil _ (List.cons_ne_nil _ _))
  | setUp call unlocksMek unlocksChk =>
    simp only [RebuildStatus.step]
    cases hcall : s.claims[call]? with
    | none => exact htended
    | some found =>
      obtain ⟨task, htask⟩ := (setUp_ok s.slot unlocksMek unlocksChk).2 (he (by rw [hcall]; exact Option.some_ne_none found))
      rw [htask]
      exact fun _ => .inl (List.append_ne_nil_of_right_ne_nil _ (List.cons_ne_nil _ _))
  | work t answer =>
    simp only [RebuildStatus.step]
    cases htask : s.tasks[t]? with
    | none => exact htended
    | some task =>
      obtain ⟨result, -, hs⟩ | ⟨-, percent, task', hs⟩ := workStep_cases s t task answer
      · simp only [hs]
        exact fun hrunning => absurd hrunning (not_isRunning_outcome result)
      · simp only [hs]
        refine fun _ => .inl fun hnil => ?_
        have hlt := (List.getElem?_eq_some_iff.1 htask).1
        have hlen := congrArg List.length hnil
        simp only [List.length_set, List.length_nil] at hlen
        omega

theorem sound_of_keysFound (h : Exclusive s) (htended : Tended s) {e : Event} (he : KeysFound s e) : Sound s e where
  refused := by
    rintro error rfl herror
    refine htended (not_not.1 fun hidle => ?_)
    cases (claim_idle hidle).symm.trans herror
  failed := by
    rintro call unlocksMek unlocksChk found error rfl hcall herror
    obtain ⟨task, htask⟩ := (setUp_ok s.slot unlocksMek unlocksChk).2 (he (by rw [hcall]; exact Option.some_ne_none found))
    cases htask.symm.trans herror
  ended := by
    rintro t answer task result rfl htask hphase
    have hstatus : (step s (.work t answer)).status = outcome result := by
      simp only [step, htask, workStep, hphase]
    rw [hstatus]
    exact ⟨not_isRunning_outcome result, claim_idle (not_isRunning_outcome result)⟩
  alone := (Nat.le_add_right _ _).trans (h.step e).one
  tended := tended_step htended he

theorem keysFound_of_sound (h : Exclusive s) {e : Event} (he : Sound s e) : KeysFound s e := by
  cases e with
  | setUp call unlocksMek unlocksChk =>
    intro hcall
    obtain ⟨found, hfound⟩ := Option.ne_none_iff_exists'.1 hcall
    refine (setUp_ok s.slot unlocksMek unlocksChk).1 ?_
    cases hsetUp : setUp s.slot unlocksMek unlocksChk with
    | ok task => exact ⟨task, rfl⟩
    | error error =>
      -- the claim stays, and what the call found was not `Running`
      have hstatus := he.failed call unlocksMek unlocksChk found error rfl hfound hsetUp
      simp only [step, hfound, hsetUp, setUpStep] at hstatus
      have hlt := (List.getElem?_eq_some_iff.1 hfound).1
      exact absurd (hstatus ▸ h.running (by omega)) (h.found found (List.mem_of_getElem? hfound))
  | _ => trivial

/-- **The status never wedges exactly if every call that claims it finds its keys.** -/
theorem rebuild_never_wedges_iff (backend : Backend) (events : List Event) :
    Along step Sound (Storage.new backend) events ↔ Along step KeysFound (Storage.new backend) events := by
  have hnew : Exclusive (Storage.new backend) ∧ Tended (Storage.new backend) := by
    refine ⟨exclusive_new backend, ?_⟩
    rintro ⟨percent, h⟩
    cases h
  constructor
  · intro h
    exact Along.imp (I := Exclusive) (fun s e hs _ => hs.step e) (fun s e hs he => keysFound_of_sound hs he) hnew.1 h
  · intro h
    exact Along.imp (I := fun s => Exclusive s ∧ Tended s) (fun s e hs he => ⟨hs.1.step e, tended_step hs.2 he⟩)
      (fun s e hs he => sound_of_keysFound hs.1 hs.2 he) hnew h

/-! ## A wedge -/

/-- `Running`, and nothing will ever say otherwise -/
structure Wedged (s : Storage) : Prop where
  running : IsRunning s.status
  tasks : s.tasks = []
  claims : s.claims = []

theorem Wedged.refuses (h : Wedged s) : claim s.status = .error .rebuildAlreadyRunning := claim_running h.running

theorem Wedged.step (h : Wedged s) (e : Event) : Wedged (step s e) := by
  cases e with
  | install keys => exact ⟨h.running, h.tasks, h.claims⟩
  | claim =>
    simp only [RebuildStatus.step, h.refuses]
    exact h
  | setUp call unlocksMek unlocksChk =>
    simp only [RebuildStatus.step, h.claims, List.getElem?_nil]
    exact h
  | work t answer =>
    simp only [RebuildStatus.step, h.tasks, List.getElem?_nil]
    exact h

theorem Wedged.run (h : Wedged s) (events : List Event) : Wedged (run RebuildStatus.step s events) := by
  induction events generalizing s with
  | nil => exact h
  | cons e events ih => exact ih (h.step e)

/-- **A call that claims the status and does not find its keys wedges it**, in whatever state. -/
theorem wedged_of_setUp (h : Exclusive s) {call : ℕ} {unlocksMek unlocksChk : Bool} {found : CacheRebuildStatus} {error : Error}
    (hcall : s.claims[call]? = some found) (herror : setUp s.slot unlocksMek unlocksChk = .error error) :
    Wedged (step s (.setUp call unlocksMek unlocksChk)) := by
  have hlt := (List.getElem?_eq_some_iff.1 hcall).1
  have hone := h.one
  have htasks : s.tasks = [] := List.eq_nil_of_length_eq_zero (by omega)
  have hclaims : s.claims.eraseIdx call = [] := by
    refine List.eq_nil_of_length_eq_zero ?_
    rw [List.length_eraseIdx_of_lt hlt]
    omega
  simp only [step, hcall, herror, setUpStep]
  exact ⟨h.running (by omega), htasks, hclaims⟩

/-- a call before the node key is there: it fails, and whatever comes after it, every other call is refused -/
theorem early_call_wedges : ¬Along step Sound (Storage.new .filesystem) [.claim, .setUp 0 true true] ∧
    ∀ later, let s := run step (Storage.new .filesystem) (.claim :: .setUp 0 true true :: later)
      claim s.status = .error .rebuildAlreadyRunning ∧ s.tasks = [] := by
  refine ⟨fun h => ?_, fun later => ?_⟩
  · have hstatus := h.2.1.failed 0 true true .Idle _ rfl rfl rfl
    cases hstatus
  · have hwedged : Wedged (run step (Storage.new .filesystem) [.claim, .setUp 0 true true]) := ⟨⟨0, rfl⟩, rfl, rfl⟩
    exact ⟨(hwedged.run later).refuses, (hwedged.run later).tasks⟩

end Y2q.RebuildStatus
