/-
The registry of rekey jobs (`handlers/keys.rs`: `RekeyRegistry`, `start_rekey`).

`try_start` claims a bucket by marking it `Running`. Then `start_rekey` opens the caller's grant on every epoch below the newest, and
spawns the job, which marks its progress and how it ended. A grant that does not open ends the call, and nothing takes the claim back.

What the storage answers to a call, whether the session can unseal its identity key, and whether there is guarded memory for a key come
with the call. Jobs do not panic.

- `Untouched`: a call that fails leaves the bucket's entry alone. `Tended`: only a bucket with a job in flight is `Running`.
- `Resolves`: a call that gets as far as the claim opens every older epoch. `never_wedges_iff`: the registry is `Untouched` and `Tended`
  along a run exactly if its calls are so.
- `wedge_final`: after a call that does not, the bucket is `Running` for good, and every further rekey of it is refused.
- `one_job`: no two jobs in flight are for the same bucket.
-/
import Mathlib.Tactic
import Y2q.Core.Run
import Y2q.Daemon.Authorization
import Y2q.Daemon.Epochs

namespace Y2q.RekeyRegistry

open BucketKeys Run

variable {S : Sealing}

/-! ## The registry -/

inductive RekeyState where
  | Running (percent : UInt8)
  | Completed
  | Failed (reason : String)
deriving DecidableEq, Repr

/-- an absent entry means idle -/
abbrev Registry := Table String RekeyState

inductive AppError where
  | core (e : Error)
  | rekeyAlreadyRunning (bucket : String)
deriving DecidableEq, Repr

def IsRunning (registry : Registry) (bucket : String) : Prop := ∃ percent, registry[bucket]? = some (.Running percent)

def tryStart (bucket : String) (registry : Registry) : Except AppError Registry :=
  match registry[bucket]? with
  | some (.Running _) => .error (.rekeyAlreadyRunning bucket)
  | _ => .ok (registry.insert bucket (.Running 0))

theorem tryStart_running {registry : Registry} {bucket : String} (h : IsRunning registry bucket) :
    tryStart bucket registry = .error (.rekeyAlreadyRunning bucket) := by
  obtain ⟨percent, h⟩ := h
  rw [tryStart, h]

theorem tryStart_claims {registry : Registry} {bucket : String} (h : ¬IsRunning registry bucket) :
    tryStart bucket registry = .ok (registry.insert bucket (.Running 0)) := by
  rw [tryStart]
  split
  next percent hrunning => exact absurd ⟨percent, hrunning⟩ h
  next => rfl

/-! ## `start_rekey` -/

/-- a call, with what it meets -/
structure Call (S : Sealing) where
  bucket : String
  auth : Authenticated
  /-- the storage's answers to `authorize_bucket`, and then to the handler -/
  authConfig : Except Error (BucketConfig S)
  authExists : Except Error Bool
  bucketExists : Except Error Bool
  config : Except Error (BucketConfig S)
  /-- whether the `n`-th `with_identity_sk` can open the session's sealed identity key -/
  unseals : ℕ → Bool
  /-- the guarded memory for the `n`-th key, or why there is none -/
  guarded : ℕ → Except String Unit

/-- the job holds the secret keys of the older epochs -/
structure Job where
  bucket : String
  epochSks : List (UInt32 × Bytes)
deriving DecidableEq, Repr

def authError : AppError := .core (.internalError "" "auth" "auth error")

section Call

variable (call : Call S)

def Call.withIdentitySk {α : Type} (n : ℕ) (f : Bytes → Except Error α) : Except AppError α :=
  if call.unseals n then (f call.auth.session.identitySk).mapError .core else .error authError

def Call.openVerifiedBwk (cfg : BucketConfig S) (epoch : UInt32) : Except AppError Key32 :=
  call.withIdentitySk 0 (BucketKeys.openVerifiedBwk cfg call.bucket epoch call.auth.session.username call.auth.session.persona)

/-- everything before the claim -/
def Call.checks : Except AppError (BucketConfig S × BucketKeyVersion S) := do
  let _ ← (authorizeBucket call.auth call.authConfig call.authExists call.bucket .Admin).1.mapError .core
  if !(← call.bucketExists.mapError .core) then throw (.core (.notFound call.bucket))
  let cfg ← call.config.mapError .core
  match currentKey cfg with
  | none => throw (.core (.internalError call.bucket "rekey" "bucket has no key material yet"))
  | some newest =>
    let _ ← call.openVerifiedBwk cfg newest.epoch
    pure (cfg, newest)

def Call.readKey (cfg : BucketConfig S) (n : ℕ) (epoch : UInt32) : Except AppError Bytes :=
  call.withIdentitySk (n + 1) (BucketKeys.readKey cfg call.bucket epoch call.auth.session.username call.auth.session.persona)

def Call.secretBuf (n : ℕ) (sk : Bytes) : Except AppError Bytes :=
  match call.guarded n with
  | .error message => .error (.core (.internalError call.bucket "rekey" message))
  | .ok () => .ok sk

/-- the loop over the retained epochs; `n` keys are open -/
def Call.resolve (cfg : BucketConfig S) (newest : UInt32) :
    ℕ → List (BucketKeyVersion S) → Except AppError (List (UInt32 × Bytes))
  | _, [] => pure []
  | n, kv :: keys =>
    if kv.epoch < newest then do
      let sk ← call.readKey cfg n kv.epoch
      let sk ← call.secretBuf n sk
      let sks ← resolve cfg newest (n + 1) keys
      pure ((kv.epoch, sk) :: sks)
    else resolve cfg newest n keys

end Call

def startRekey (call : Call S) (registry : Registry) : Except AppError Job × Registry :=
  match call.checks with
  | .error e => (.error e, registry)
  | .ok (cfg, newest) =>
    match tryStart call.bucket registry with
    | .error e => (.error e, registry)
    | .ok registry => ((call.resolve cfg newest.epoch 0 cfg.keys).map (Job.mk call.bucket), registry)

/-! ## Calls and jobs -/

structure Daemon where
  registry : Registry
  /-- the jobs in flight -/
  jobs : List Job

def Daemon.new : Daemon := ⟨∅, []⟩

inductive Event (S : Sealing) where
  | start (call : Call S)
  /-- the job has re-encrypted the `i`-th of `total` objects -/
  | migrated (job i total : ℕ)
  | ended (job : ℕ) (result : Except String Unit)

def percent (i total : ℕ) : UInt8 := UInt8.ofNat ((i + 1) * 100 / max total 1)

def outcome : Except String Unit → RekeyState
  | .ok () => .Completed
  | .error reason => .Failed reason

def step (s : Daemon) : Event S → Daemon
  | .start call =>
    match startRekey call s.registry with
    | (.error _, registry) => { s with registry }
    | (.ok job, registry) => ⟨registry, s.jobs ++ [job]⟩
  | .migrated j i total =>
    match s.jobs[j]? with
    | none => s
    | some job => { s with registry := s.registry.insert job.bucket (.Running (percent i total)) }
  | .ended j result =>
    match s.jobs[j]? with
    | none => s
    | some job => ⟨s.registry.insert job.bucket (outcome result), s.jobs.eraseIdx j⟩

/-! ## What is asked of it -/

/-- a call that fails leaves the entry of its bucket as it was -/
def Untouched (s : Daemon) : Event S → Prop
  | .start call => ∀ e, (startRekey call s.registry).1 = .error e →
      (step s (.start call)).registry[call.bucket]? = s.registry[call.bucket]?
  | _ => True

/-- only a bucket with a job in flight is `Running` -/
def Tended (s : Daemon) : Prop := ∀ bucket, IsRunning s.registry bucket → ∃ job ∈ s.jobs, job.bucket = bucket

/-- the call gets as far as the claim, with this config and newest epoch -/
structure Call.Admitted (call : Call S) (cfg : BucketConfig S) (newest : BucketKeyVersion S) : Prop where
  authorized : ∃ d, (authorizeBucket call.auth call.authConfig call.authExists call.bucket .Admin).1 = .ok d
  bucketExists : call.bucketExists = .ok true
  config : call.config = .ok cfg
  current : currentKey cfg = some newest
  unseals : call.unseals 0 = true
  opens : ∃ bwk, BucketKeys.openVerifiedBwk cfg call.bucket newest.epoch call.auth.session.username call.auth.session.persona
    call.auth.session.identitySk = .ok bwk

/-- the retained epochs below the newest -/
def older (cfg : BucketConfig S) (newest : UInt32) : List (BucketKeyVersion S) := cfg.keys.filter fun kv => kv.epoch < newest

/-- the caller holds the key of every older epoch, and the daemon can unseal the session and keep the keys -/
structure Call.OpensOlder (call : Call S) (cfg : BucketConfig S) (newest : UInt32) : Prop where
  keys : ∀ kv ∈ older cfg newest, ∃ sk, BucketKeys.readKey cfg call.bucket kv.epoch call.auth.session.username call.auth.session.persona
    call.auth.session.identitySk = .ok sk
  unseals : ∀ n < (older cfg newest).length, call.unseals (n + 1) = true
  guarded : ∀ n < (older cfg newest).length, call.guarded n = .ok ()

/-- a call that claims its bucket opens every older epoch -/
def Resolves (s : Daemon) : Event S → Prop
  | .start call => ∀ cfg newest, call.Admitted cfg newest → ¬IsRunning s.registry call.bucket → call.OpensOlder cfg newest.epoch
  | _ => True

/-! ## What a call does -/

section Call

variable {call : Call S} {cfg : BucketConfig S} {newest : BucketKeyVersion S} {epoch : UInt32} {n : ℕ}

theorem mapError_ok {ε ε' α : Type} {x : Except ε α} {f : ε → ε'} {a : α} : x.mapError f = .ok a ↔ x = .ok a := by
  cases x with
  | error e => exact iff_of_false nofun nofun
  | ok b => simp [Except.mapError]

theorem Call.withIdentitySk_ok {α : Type} {f : Bytes → Except Error α} {a : α} :
    call.withIdentitySk n f = .ok a ↔ call.unseals n = true ∧ f call.auth.session.identitySk = .ok a := by
  unfold withIdentitySk
  split
  next h => simp [h, mapError_ok]
  next h => simp [h]

theorem Call.secretBuf_ok {sk a : Bytes} : call.secretBuf n sk = .ok a ↔ call.guarded n = .ok () ∧ sk = a := by
  unfold secretBuf
  cases call.guarded n with
  | error message => simp
  | ok u => simp

/-- what the checks ask for -/
theorem Call.checks_ok : call.checks = .ok (cfg, newest) ↔ call.Admitted cfg newest := by
  constructor
  · intro h
    obtain ⟨d, hauth, h⟩ := bind_ok h
    obtain ⟨there, hthere, h⟩ := bind_ok h
    cases there with
    | false => cases h
    | true =>
      obtain ⟨cfg', hcfg, h⟩ := bind_ok h
      cases hnewest : currentKey cfg' with
      | none =>
        simp only [hnewest] at h
        cases h
      | some kv =>
        simp only [hnewest] at h
        obtain ⟨bwk, hbwk, h⟩ := bind_ok h
        cases h
        obtain ⟨hunseals, hopens⟩ := withIdentitySk_ok.1 hbwk
        exact ⟨⟨d, mapError_ok.1 hauth⟩, mapError_ok.1 hthere, mapError_ok.1 hcfg, hnewest, hunseals, bwk, hopens⟩
  · intro ⟨⟨d, hauth⟩, hthere, hcfg, hnewest, hunseals, bwk, hopens⟩
    have hbwk : call.openVerifiedBwk cfg newest.epoch = .ok bwk := withIdentitySk_ok.2 ⟨hunseals, hopens⟩
    simp [checks, hauth, hthere, hcfg, hnewest, hbwk, Except.mapError, bind, Except.bind, pure, Except.pure]

/-- the loop, with `n` keys open and these epochs left -/
theorem Call.resolve_ok (keys : List (BucketKeyVersion S)) (n : ℕ) :
    (∃ sks, call.resolve cfg epoch n keys = .ok sks) ↔
      (∀ kv ∈ keys.filter fun kv => kv.epoch < epoch, ∃ sk, BucketKeys.readKey cfg call.bucket kv.epoch call.auth.session.username call.auth.session.persona
        call.auth.session.identitySk = .ok sk) ∧
      (∀ i < (keys.filter fun kv => kv.epoch < epoch).length, call.unseals (i + n + 1) = true) ∧
      ∀ i < (keys.filter fun kv => kv.epoch < epoch).length, call.guarded (i + n) = .ok () := by
  induction keys generalizing n with
  | nil => simp [resolve, pure, Except.pure]
  | cons kv keys ih =>
    by_cases hold : kv.epoch < epoch
    · have hstep : (∃ sks, call.resolve cfg epoch n (kv :: keys) = .ok sks) ↔
          (∃ sk, call.readKey cfg n kv.epoch = .ok sk) ∧ call.guarded n = .ok () ∧
            ∃ sks, call.resolve cfg epoch (n + 1) keys = .ok sks := by
        rw [resolve, if_pos hold]
        constructor
        · intro ⟨sks, h⟩
          obtain ⟨sk, hsk, h⟩ := bind_ok h
          obtain ⟨sk', hbuf, h⟩ := bind_ok h
          obtain ⟨rest, hrest, h⟩ := bind_ok h
          exact ⟨⟨sk, hsk⟩, (secretBuf_ok.1 hbuf).1, rest, hrest⟩
        · intro ⟨⟨sk, hsk⟩, hguarded, rest, hrest⟩
          refine ⟨(kv.epoch, sk) :: rest, ?_⟩
          simp [hsk, secretBuf_ok.2 ⟨hguarded, rfl⟩, hrest, bind, Except.bind, pure, Except.pure]
      simp only [hstep, ih (n + 1), readKey, withIdentitySk_ok, List.filter_cons_of_pos, hold, decide_true, List.forall_mem_cons,
        List.length_cons, Nat.forall_lt_succ_left, exists_and_left, Nat.zero_add, Nat.add_right_comm _ 1 n, ← Nat.add_assoc]
      tauto
    · rw [resolve, if_neg hold, ih n]
      simp [hold]

theorem Call.resolves_iff (call : Call S) (cfg : BucketConfig S) (epoch : UInt32) :
    (∃ sks, call.resolve cfg epoch 0 cfg.keys = .ok sks) ↔ call.OpensOlder cfg epoch :=
  (resolve_ok cfg.keys 0).trans ⟨fun h => ⟨h.1, h.2.1, h.2.2⟩, fun h => ⟨h.keys, h.unseals, h.guarded⟩⟩

theorem Call.Admitted.unique {cfg' : BucketConfig S} {newest' : BucketKeyVersion S} (h : call.Admitted cfg newest)
    (h' : call.Admitted cfg' newest') : cfg = cfg' ∧ newest = newest' := by
  cases h.config.symm.trans h'.config
  exact ⟨rfl, Option.some.inj (h.current.symm.trans h'.current)⟩

end Call

/-- what a call answers and leaves -/
inductive Started (call : Call S) (registry : Registry) : Except AppError Job × Registry → Prop
  | refused (e : AppError) (h : ∀ cfg newest, call.Admitted cfg newest → IsRunning registry call.bucket) :
    Started call registry (.error e, registry)
  | spawned (cfg : BucketConfig S) (newest : BucketKeyVersion S) (sks : List (UInt32 × Bytes)) (h : call.Admitted cfg newest)
    (hidle : ¬IsRunning registry call.bucket) (hopens : call.OpensOlder cfg newest.epoch) :
    Started call registry (.ok ⟨call.bucket, sks⟩, registry.insert call.bucket (.Running 0))
  | stuck (cfg : BucketConfig S) (newest : BucketKeyVersion S) (e : AppError) (h : call.Admitted cfg newest)
    (hidle : ¬IsRunning registry call.bucket) (hshut : ¬call.OpensOlder cfg newest.epoch) :
    Started call registry (.error e, registry.insert call.bucket (.Running 0))

theorem startRekey_started (call : Call S) (registry : Registry) : Started call registry (startRekey call registry) := by
  unfold startRekey
  cases hchecks : call.checks with
  | error e =>
    refine .refused e fun cfg newest h => ?_
    cases hchecks.symm.trans (Call.checks_ok.2 h)
  | ok x =>
    obtain ⟨cfg, newest⟩ := x
    have hadm := Call.checks_ok.1 hchecks
    by_cases hrunning : IsRunning registry call.bucket
    · simp only [tryStart_running hrunning]
      exact .refused _ fun _ _ _ => hrunning
    · simp only [tryStart_claims hrunning]
      have hopens := call.resolves_iff cfg newest.epoch
      cases hresolve : call.resolve cfg newest.epoch 0 cfg.keys with
      | ok sks => exact .spawned cfg newest sks hadm hrunning (hopens.1 ⟨sks, hresolve⟩)
      | error e =>
        refine .stuck cfg newest e hadm hrunning fun h => ?_
        obtain ⟨sks, hsks⟩ := hopens.2 h
        cases hresolve.symm.trans hsks

/-! ## Along a run -/

section Run

variable {s : Daemon} {registry : Registry} {bucket bucket' : String} {state : RekeyState}

theorem isRunning_insert_self : IsRunning (registry.insert bucket state) bucket ↔ ∃ percent, state = .Running percent := by
  simp [IsRunning]

theorem isRunning_insert_ne (h : bucket ≠ bucket') : IsRunning (registry.insert bucket state) bucket' ↔ IsRunning registry bucket' := by
  simp [IsRunning, Table.getElem?_insert_iff, h]

theorem outcome_not_running (result : Except String Unit) : ¬∃ percent, outcome result = .Running percent := by
  intro ⟨percent, h⟩
  cases result with
  | error reason => cases h
  | ok u => cases h

/-- **A failing call leaves its bucket's entry alone exactly if it does not claim a bucket whose older epochs it cannot open.** -/
theorem untouched_iff (s : Daemon) (e : Event S) : Untouched s e ↔ Resolves s e := by
  cases e with
  | migrated j i total => exact Iff.rfl
  | ended j result => exact Iff.rfl
  | start call =>
    have hstarted := startRekey_started call s.registry
    simp only [Untouched, Resolves, step]
    generalize startRekey call s.registry = r at hstarted
    cases hstarted with
    | refused e h => exact iff_of_true (fun _ _ => rfl) fun cfg newest hadm hidle => absurd (h cfg newest hadm) hidle
    | spawned cfg newest sks hadm hidle hopens =>
      refine iff_of_true nofun fun cfg' newest' hadm' _ => ?_
      obtain ⟨rfl, rfl⟩ := hadm.unique hadm'
      exact hopens
    | stuck cfg newest e hadm hidle hshut =>
      refine iff_of_false (fun h => hidle ⟨0, ?_⟩) fun h => hshut (h cfg newest hadm hidle)
      rw [← h e rfl]
      exact Std.TreeMap.getElem?_insert_self

theorem tended_step {e : Event S} (hs : Tended s) (he : Resolves s e) : Tended (step s e) := by
  intro bucket hrunning
  cases e with
  | start call =>
    have hstarted := startRekey_started call s.registry
    simp only [step] at hrunning ⊢
    generalize startRekey call s.registry = r at hstarted hrunning ⊢
    cases hstarted with
    | refused e h => exact hs bucket hrunning
    | spawned cfg newest sks hadm hidle hopens =>
      by_cases hb : call.bucket = bucket
      · exact ⟨⟨call.bucket, sks⟩, List.mem_concat_self, hb⟩
      · obtain ⟨job, hjob, hjb⟩ := hs bucket ((isRunning_insert_ne hb).1 hrunning)
        exact ⟨job, List.mem_append_left _ hjob, hjb⟩
    | stuck cfg newest e hadm hidle hshut => exact absurd (he cfg newest hadm hidle) hshut
  | migrated j i total =>
    simp only [step] at hrunning ⊢
    cases hj : s.jobs[j]? with
    | none =>
      rw [hj] at hrunning
      exact hs bucket hrunning
    | some job =>
      simp only [hj] at hrunning ⊢
      by_cases hb : job.bucket = bucket
      · exact ⟨job, List.mem_of_getElem? hj, hb⟩
      · exact hs bucket ((isRunning_insert_ne hb).1 hrunning)
  | ended j result =>
    simp only [step] at hrunning ⊢
    cases hj : s.jobs[j]? with
    | none =>
      rw [hj] at hrunning
      exact hs bucket hrunning
    | some job =>
      simp only [hj] at hrunning ⊢
      by_cases hb : job.bucket = bucket
      · subst hb
        exact absurd (isRunning_insert_self.1 hrunning) (outcome_not_running result)
      · -- the job of a bucket that is still `Running` is another one
        obtain ⟨job', hjob', hb'⟩ := hs bucket ((isRunning_insert_ne hb).1 hrunning)
        obtain ⟨i, hi⟩ := List.mem_iff_getElem?.1 hjob'
        refine ⟨job', List.mem_eraseIdx_iff_getElem?.2 ⟨i, fun hij => hb ?_, hi⟩, hb'⟩
        rw [hij, hj] at hi
        cases hi
        exact hb'

theorem tended_new : Tended Daemon.new := by
  intro bucket ⟨percent, h⟩
  rw [Daemon.new, Std.TreeMap.getElem?_emptyc] at h
  cases h

/-- **The registry never wedges exactly if no call claims a bucket whose older epochs it cannot open.** Along a run from an empty
registry, every call that fails leaves its bucket's entry as it was, and only buckets with a job in flight are `Running`, exactly if
every call that passes its checks while no rekey of its bucket is running opens all the older epochs. -/
theorem never_wedges_iff (events : List (Event S)) :
    Along step (fun s e => Untouched s e ∧ Tended (step s e)) Daemon.new events ↔ Along step Resolves Daemon.new events := by
  constructor
  · intro h
    exact Along.imp (I := fun _ => True) (fun _ _ _ _ => trivial) (fun s e _ he => (untouched_iff s e).1 he.1) trivial h
  · intro h
    exact Along.imp (fun s e => tended_step) (fun s e hs he => ⟨(untouched_iff s e).2 he, tended_step hs he⟩) tended_new h

end Run

/-! ## A wedged bucket -/

section Wedge

variable {s : Daemon} {bucket : String}

/-- `Running`, and no job in flight will ever say otherwise -/
structure Wedged (s : Daemon) (bucket : String) : Prop where
  running : IsRunning s.registry bucket
  alone : ∀ job ∈ s.jobs, job.bucket ≠ bucket

theorem Wedged.refuses (h : Wedged s bucket) (call : Call S) (hcall : call.bucket = bucket) :
    ∃ e, startRekey call s.registry = (.error e, s.registry) := by
  have hstarted := startRekey_started call s.registry
  generalize startRekey call s.registry = r at hstarted
  subst hcall
  cases hstarted with
  | refused e _ => exact ⟨e, rfl⟩
  | spawned cfg newest sks hadm hidle hopens => exact absurd h.running hidle
  | stuck cfg newest e hadm hidle hshut => exact absurd h.running hidle

theorem Wedged.step (h : Wedged s bucket) (e : Event S) : Wedged (step s e) bucket := by
  cases e with
  | start call =>
    by_cases hb : call.bucket = bucket
    · obtain ⟨e, he⟩ := h.refuses call hb
      simp only [RekeyRegistry.step, he]
      exact h
    · have hstarted := startRekey_started call s.registry
      have hclaimed : IsRunning (s.registry.insert call.bucket (.Running 0)) bucket := (isRunning_insert_ne hb).2 h.running
      simp only [RekeyRegistry.step]
      generalize startRekey call s.registry = r at hstarted
      cases hstarted with
      | refused e _ => exact h
      | stuck cfg newest e hadm hidle hshut => exact ⟨hclaimed, h.alone⟩
      | spawned cfg newest sks hadm hidle hopens =>
        refine ⟨hclaimed, fun job hjob => ?_⟩
        rcases List.mem_append.1 hjob with hold | hnew
        · exact h.alone job hold
        · rw [List.mem_singleton.1 hnew]
          exact hb
  | migrated j i total =>
    simp only [RekeyRegistry.step]
    cases hj : s.jobs[j]? with
    | none => exact h
    | some job => exact ⟨(isRunning_insert_ne (h.alone job (List.mem_of_getElem? hj))).2 h.running, h.alone⟩
  | ended j result =>
    simp only [RekeyRegistry.step]
    cases hj : s.jobs[j]? with
    | none => exact h
    | some job =>
      refine ⟨(isRunning_insert_ne (h.alone job (List.mem_of_getElem? hj))).2 h.running, fun job' hjob' => ?_⟩
      exact h.alone job' (List.mem_of_mem_eraseIdx hjob')

theorem Wedged.run (h : Wedged s bucket) (events : List (Event S)) : Wedged (run RekeyRegistry.step s events) bucket := by
  induction events generalizing s with
  | nil => exact h
  | cons e events ih => exact ih (h.step e)

/-- **A wedge is final.** A call that claims its bucket and cannot open an older epoch leaves the bucket so that, whatever happens
later, it is `Running` without a job and every rekey of it is refused. -/
theorem wedge_final {call : Call S} {cfg : BucketConfig S} {newest : BucketKeyVersion S} (hadm : call.Admitted cfg newest)
    (hidle : ¬IsRunning s.registry call.bucket) (hjobs : ∀ job ∈ s.jobs, job.bucket ≠ call.bucket)
    (hshut : ¬call.OpensOlder cfg newest.epoch) (later : List (Event S)) :
    let s' := run step s (.start call :: later)
    Wedged s' call.bucket ∧ ∀ call' : Call S, call'.bucket = call.bucket →
      ∃ e, startRekey call' s'.registry = (.error e, s'.registry) := by
  have hwedged : Wedged (step s (.start call)) call.bucket := by
    have hstarted := startRekey_started call s.registry
    simp only [step]
    generalize startRekey call s.registry = r at hstarted
    cases hstarted with
    | refused e h => exact absurd (h cfg newest hadm) hidle
    | stuck cfg newest e hadm hidle hshut => exact ⟨isRunning_insert_self.2 ⟨0, rfl⟩, hjobs⟩
    | spawned cfg' newest' sks hadm' _ hopens =>
      obtain ⟨rfl, rfl⟩ := hadm.unique hadm'
      exact absurd hopens hshut
  exact ⟨hwedged.run later, fun call' => (hwedged.run later).refuses call'⟩

end Wedge

/-! ## One job a bucket -/

/-- the jobs in flight are for different buckets, each of them `Running` -/
structure Apart (s : Daemon) : Prop where
  nodup : (s.jobs.map Job.bucket).Nodup
  running : ∀ job ∈ s.jobs, IsRunning s.registry job.bucket

theorem Apart.step {s : Daemon} (h : Apart s) (e : Event S) : Apart (step s e) := by
  -- an entry that is written `Running` changes nothing for the jobs
  have hwrite : ∀ bucket percent, ∀ job ∈ s.jobs, IsRunning (s.registry.insert bucket (.Running percent)) job.bucket := by
    intro bucket percent job hjob
    by_cases hb : bucket = job.bucket
    · subst hb
      exact isRunning_insert_self.2 ⟨percent, rfl⟩
    · exact (isRunning_insert_ne hb).2 (h.running job hjob)
  cases e with
  | start call =>
    have hstarted := startRekey_started call s.registry
    simp only [RekeyRegistry.step]
    generalize startRekey call s.registry = r at hstarted
    cases hstarted with
    | refused e _ => exact h
    | stuck cfg newest e hadm hidle hshut => exact ⟨h.nodup, hwrite _ 0⟩
    | spawned cfg newest sks hadm hidle hopens =>
      refine ⟨?_, fun job hjob => ?_⟩
      · rw [List.map_append, List.map_singleton, ← List.concat_eq_append, List.nodup_concat]
        refine ⟨fun hmem => hidle ?_, h.nodup⟩
        obtain ⟨job, hjob, hb⟩ := List.mem_map.1 hmem
        have hrunning := h.running job hjob
        rwa [show job.bucket = call.bucket from hb] at hrunning
      · rcases List.mem_append.1 hjob with hold | hnew
        · exact hwrite _ 0 job hold
        · rw [List.mem_singleton.1 hnew]
          exact isRunning_insert_self.2 ⟨0, rfl⟩
  | migrated j i total =>
    simp only [RekeyRegistry.step]
    cases hj : s.jobs[j]? with
    | none => exact h
    | some job => exact ⟨h.nodup, hwrite _ _⟩
  | ended j result =>
    simp only [RekeyRegistry.step]
    cases hj : s.jobs[j]? with
    | none => exact h
    | some job =>
      refine ⟨h.nodup.sublist ((List.eraseIdx_sublist _ _).map _), fun job' hjob' => ?_⟩
      obtain ⟨i, hij, hi⟩ := List.mem_eraseIdx_iff_getElem?.1 hjob'
      refine (isRunning_insert_ne fun hb => hij ?_).2 (h.running job' (List.mem_of_getElem? hi))
      -- two jobs of one bucket would be the same job
      refine (List.getElem?_inj ?_ h.nodup).1 ?_
      · rw [List.length_map]
        exact (List.getElem?_eq_some_iff.1 hi).1
      · rw [List.getElem?_map, List.getElem?_map, hi, hj, Option.map_some, Option.map_some, hb]

/-- **Two rekeys of one bucket never overlap**, whatever calls and jobs do. -/
theorem one_job (events : List (Event S)) : Apart (run step Daemon.new events) := by
  suffices hgen : ∀ s, Apart s → Apart (run step s events) from hgen _ ⟨List.nodup_nil, nofun⟩
  induction events with
  | nil => exact fun s hs => hs
  | cons e events ih => exact fun s hs => ih _ (hs.step e)

/-! ## Real grants and decoys -/

/-- where the epochs are sealed as their books say, the caller opens the older ones exactly if its slot holds a real grant on each -/
theorem keys_open_iff_real {users : Users} {bucket u : String} {slot : ℕ} {sk : Bytes} {cfg : BucketConfig S} {newest : UInt32}
    {books : UInt32 → EpochBook} (hcfg : ∀ kv ∈ cfg.keys, Epoch S users bucket (books kv.epoch) kv) (hnodup : (epochs cfg.keys).Nodup)
    (hsk : Matches S users u slot sk) :
    (∀ kv ∈ older cfg newest, ∃ key, readKey cfg bucket kv.epoch u slot sk = .ok key) ↔
      ∀ kv ∈ older cfg newest, (books kv.epoch).Real u slot := by
  refine forall₂_congr fun kv hkv => ?_
  have hmem : kv ∈ cfg.keys := List.mem_of_mem_filter hkv
  calc (∃ key, readKey cfg bucket kv.epoch u slot sk = .ok key)
      ↔ ∃ x, openWith cfg bucket kv.epoch u slot sk = .ok x := map_ok_iff
    _ ↔ Matches S users u slot sk ∧ (books kv.epoch).Real u slot := (hcfg kv hmem).openWith_iff (findEpoch_of_mem hnodup hmem)
    _ ↔ (books kv.epoch).Real u slot := and_iff_right hsk

/-! ## A decoy on the old epoch -/

/-- the one user's key version of an epoch, with decoys in all her slots -/
def decoyKey (e : UInt32) : BucketKeyVersion symbolic :=
  { soloKey e with
    grants := Std.TreeMap.insert ∅ "alice" ((List.range 4).map fun slot =>
      ([UInt8.ofNat slot], (soloDraws 0 slot).decoy.1, bucketGrantAad "b" e "alice" slot)) }

def decoyConfig : BucketConfig symbolic := soloConfig [decoyKey 0, soloKey 1]

def decoyCall : Call symbolic where
  bucket := "b"
  auth := ⟨sessionOf "alice" .User, true⟩
  authConfig := .ok decoyConfig
  authExists := .ok true
  bucketExists := .ok true
  config := .ok decoyConfig
  unseals _ := true
  guarded _ := .ok ()

/-- **The first rekey of a bucket whose owner came after the first epoch** is refused, and leaves the bucket `Running` without a job. -/
theorem decoy_wedges : ¬Along step (fun s e => Untouched s e ∧ Tended (step s e)) Daemon.new [.start decoyCall] := by
  intro ⟨⟨huntouched, _⟩, _⟩
  have hrefused : (startRekey decoyCall Daemon.new.registry).1 = .error (.core (.forbidden "b")) := by decide +kernel
  have hclaimed : (step Daemon.new (.start decoyCall)).registry["b"]? = some (.Running 0) := by decide +kernel
  have hidle : Daemon.new.registry["b"]? = none := by decide +kernel
  have hsame := huntouched _ hrefused
  cases hclaimed.symm.trans (hsame.trans hidle)

end Y2q.RekeyRegistry
