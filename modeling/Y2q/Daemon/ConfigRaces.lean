/-
Concurrent updates of one bucket's config.

Every call is two steps: `get_bucket_config` (with the user records it looks up), and `set_bucket_config` of what it has computed.
Nothing is compared at the second step; `acl_generation` is compared with the config read in the first. `delete_user` is a change of the
user store and two such calls, one for the rows and one for the ACL. What the calls did is kept beside the state: a log of the
successful ones in the order of their writes, what each `get_acl` has shown, and what each successful `set_acl` has replaced.

- `InTime`: when a call writes, the config and the records it looked up are those it has read; a `set_acl` does not wrap the generation
  around; and no one has been shown the current generation when a scrub takes an entry out of the ACL, for it does not raise it.
- `config_updates_serial`: along such runs the compare-and-swap is one, and the config is that of the log.
-/
import Mathlib.Tactic
import Y2q.Core.Run
import Y2q.Daemon.ConfigUpdates
import Y2q.Daemon.Grants

namespace Y2q.BucketKeys

open Run (Along replay)

variable {S : Sealing}

/-- what `get_acl` shows -/
structure AclView where
  generation : UInt64
  owner : Option String
  acl : Table String BucketPermission

def BucketConfig.view (cfg : BucketConfig S) : AclView := ⟨cfg.aclGeneration, cfg.owner, cfg.acl⟩

structure Races (S : Sealing) where
  cfg : BucketConfig S
  users : Users
  /-- a call between its two steps, with the config and the user store it has read -/
  calls : ℕ → Option (Update × BucketConfig S × Users)
  log : List Entry
  shown : List AclView
  swaps : List AclView

def Races.start (cfg : BucketConfig S) (users : Users) : Races S := ⟨cfg, users, fun _ => none, [], [], []⟩

inductive ConfigEv where
  | getAcl
  | start (i : ℕ) (r : Update)
  | finish (i : ℕ)
  | account (u : String) (record : Option UserRecord)

def Update.isScrub : Update → Bool
  | .scrubGrants _ | .scrubAcl _ => true
  | _ => false

/-- what a successful `set_acl` replaces -/
def Update.swap (cfg : BucketConfig S) : Update → List AclView
  | .setAcl _ body _ => [⟨body.generation, cfg.owner, cfg.acl⟩]
  | _ => []

section Machine

variable (E : Env)

def finishCall (w : Races S) (r : Update) (snapshot : BucketConfig S) (seen : Users) : Races S :=
  match r.apply E seen snapshot with
  | .failed => w
  | .nothing => if r.isScrub then { w with log := w.log ++ [.done r] } else w
  | .write cfg => { w with cfg := cfg, log := w.log ++ [.done r], swaps := w.swaps ++ r.swap w.cfg }

def raceStep (w : Races S) : ConfigEv → Races S
  | .getAcl => { w with shown := w.shown ++ [w.cfg.view] }
  | .start i r =>
    match w.calls i with
    | some _ => w
    | none => { w with calls := Function.update w.calls i (some (r, w.cfg, w.users)) }
  | .finish i =>
    match w.calls i with
    | none => w
    | some (r, snapshot, seen) => finishCall E { w with calls := Function.update w.calls i none } r snapshot seen
  | .account u record => { w with users := Function.update w.users u record, log := w.log ++ [.account u record] }

/-- what the call has read is still so -/
def StillFresh (w : Races S) (r : Update) (snapshot : BucketConfig S) (seen : Users) : Prop :=
  snapshot = w.cfg ∧ ∀ v ∈ r.looksUp w.cfg, seen v = w.users v

/-- the generation of the ACL is not used twice -/
def Bumps (w : Races S) : Update → Prop
  | .setAcl .. => w.cfg.aclGeneration ≠ 0xffffffffffffffff
  | .scrubAcl _ => ∀ v ∈ w.shown, v.generation ≠ w.cfg.aclGeneration
  | _ => True

def InTime (w : Races S) : ConfigEv → Prop
  | .finish i =>
    match w.calls i with
    | none => True
    | some (r, snapshot, seen) =>
      match r.apply E seen snapshot with
      | .failed => True
      | .nothing => r.isScrub = true → StillFresh w r snapshot seen
      | .write _ => StillFresh w r snapshot seen ∧ Bumps w r
  | _ => True

end Machine

/-! ## One step -/

variable {E : Env} {cfg₀ : BucketConfig S} {users₀ : Users} {w : Races S}

structure Races.Inv (E : Env) (cfg₀ : BucketConfig S) (users₀ : Users) (w : Races S) : Prop where
  serial : replay (exec E) (cfg₀, users₀) w.log = some (w.cfg, w.users)
  shown : ∀ v ∈ w.shown, v.generation ≤ w.cfg.aclGeneration ∧ (v.generation = w.cfg.aclGeneration → v = w.cfg.view)
  swapped : ∀ v ∈ w.swaps, v.generation < w.cfg.aclGeneration ∧ ∀ v' ∈ w.shown, v'.generation = v.generation → v' = v
  once : (w.swaps.map (·.generation)).Nodup

theorem lt_succ_of_ne_max64 {g : UInt64} (h : g ≠ 0xffffffffffffffff) : g < g + 1 := by
  have hne : g.toNat ≠ 18446744073709551615 := fun heq => h (UInt64.toNat_inj.1 heq)
  have hlt := g.toNat_lt
  rw [UInt64.lt_iff_toNat_lt, UInt64.toNat_add]
  simp only [UInt64.toNat_one]
  omega

/-- one more entry, served on the config and the records as they are -/
theorem Races.Inv.log_done {r : Update} {cfg : BucketConfig S} (hinv : w.Inv E cfg₀ users₀)
    (h : exec E (.done r) (w.cfg, w.users) = some (cfg, w.users)) :
    replay (exec E) (cfg₀, users₀) (w.log ++ [.done r]) = some (cfg, w.users) := by
  rw [Run.replay_append, hinv.serial, Option.bind_some]
  simp only [replay, h, Option.bind_some]

theorem exec_nothing {r : Update} {users : Users} {cfg : BucketConfig S} (h : r.apply E users cfg = .nothing) :
    exec E (.done r) (cfg, users) = some (cfg, users) := by
  rw [exec, h]

theorem exec_write {r : Update} {users : Users} {cfg cfg' : BucketConfig S} (h : r.apply E users cfg = .write cfg') :
    exec E (.done r) (cfg, users) = some (cfg', users) := by
  rw [exec, h]

theorem finishCall_inv {r : Update} {snapshot cfg : BucketConfig S} {seen : Users} (hinv : w.Inv E cfg₀ users₀)
    (hfresh : StillFresh w r snapshot seen) (hbumps : Bumps w r) (h : r.apply E seen snapshot = .write cfg) :
    Races.Inv E cfg₀ users₀ { w with cfg := cfg, log := w.log ++ [.done r], swaps := w.swaps ++ r.swap w.cfg } := by
  obtain ⟨rfl, hseen⟩ := hfresh
  rw [Update.apply_congr hseen] at h
  have hserial := hinv.log_done (exec_write h)
  have hacl := Update.apply_acl h
  cases r with
  | setAcl session body draws =>
    -- the generation goes up: what was shown under the old one is what is replaced now
    obtain ⟨-, -, hgen, hnext⟩ := hacl
    have hlt : w.cfg.aclGeneration < cfg.aclGeneration := hnext ▸ lt_succ_of_ne_max64 hbumps
    have hview : (⟨body.generation, w.cfg.owner, w.cfg.acl⟩ : AclView) = w.cfg.view := by rw [hgen]; rfl
    refine ⟨hserial, fun v hv => ?_, fun v hv => ?_, ?_⟩
    · have hle := (hinv.shown v hv).1
      refine ⟨(hle.trans_lt hlt).le, fun heq => ?_⟩
      exact absurd heq (hle.trans_lt hlt).ne
    · rcases List.mem_append.1 hv with hold | hnew
      · obtain ⟨hless, hsame⟩ := hinv.swapped v hold
        exact ⟨hless.trans hlt, hsame⟩
      · rw [List.mem_singleton.1 hnew]
        refine ⟨hgen ▸ hlt, fun v' hv' heq => ?_⟩
        rw [hview]
        exact (hinv.shown v' hv').2 (heq.trans hgen)
    · rw [List.map_append, List.nodup_append]
      refine ⟨hinv.once, List.nodup_singleton _, fun g hg g' hg' heq => ?_⟩
      obtain ⟨v, hv, rfl⟩ := List.mem_map.1 hg
      rw [List.mem_singleton.1 hg'] at heq
      exact absurd (heq.trans hgen) (hinv.swapped v hv).1.ne
  | scrubAcl u =>
    obtain ⟨-, -, hgen⟩ := hacl
    refine ⟨hserial, fun v hv => ?_, fun v hv => ?_, ?_⟩
    · refine ⟨hgen ▸ (hinv.shown v hv).1, fun heq => ?_⟩
      exact absurd (heq.trans hgen) (hbumps v hv)
    · simp only [Update.swap, List.append_nil] at hv
      exact hgen ▸ hinv.swapped v hv
    · simp only [Update.swap, List.append_nil]
      exact hinv.once
  | _ =>
    obtain ⟨hacl, howner, hgen⟩ := hacl
    have hview : cfg.view = w.cfg.view := by rw [BucketConfig.view, hacl, howner, hgen]; rfl
    refine ⟨hserial, fun v hv => ?_, fun v hv => ?_, ?_⟩
    · rw [hview, hgen]
      exact hinv.shown v hv
    · simp only [Update.swap, List.append_nil] at hv
      exact hgen ▸ hinv.swapped v hv
    · simp only [Update.swap, List.append_nil]
      exact hinv.once

theorem raceStep_inv {ev : ConfigEv} (hinv : w.Inv E cfg₀ users₀) (hev : InTime E w ev) : (raceStep E w ev).Inv E cfg₀ users₀ := by
  cases ev with
  | getAcl =>
    refine ⟨hinv.serial, fun v hv => ?_, fun v hv => ?_, hinv.once⟩
    · rcases List.mem_append.1 hv with hold | hnew
      · exact hinv.shown v hold
      · rw [List.mem_singleton.1 hnew]
        exact ⟨le_refl _, fun _ => rfl⟩
    · obtain ⟨hless, hsame⟩ := hinv.swapped v hv
      refine ⟨hless, fun v' hv' heq => ?_⟩
      rcases List.mem_append.1 hv' with hold | hnew
      · exact hsame v' hold heq
      · rw [List.mem_singleton.1 hnew] at heq
        exact absurd heq.symm hless.ne
  | start i r =>
    simp only [raceStep]
    split
    · exact hinv
    · exact ⟨hinv.serial, hinv.shown, hinv.swapped, hinv.once⟩
  | finish i =>
    simp only [raceStep, InTime] at hev ⊢
    split
    · exact hinv
    · rename_i r snapshot seen hcall
      simp only [hcall] at hev
      have hinv' : Races.Inv E cfg₀ users₀ { w with calls := Function.update w.calls i none } :=
        ⟨hinv.serial, hinv.shown, hinv.swapped, hinv.once⟩
      rw [finishCall]
      split
      · exact hinv'
      · rename_i hnothing
        split_ifs with hscrub
        · simp only [hnothing] at hev
          obtain ⟨rfl, hseen⟩ := hev hscrub
          rw [Update.apply_congr hseen] at hnothing
          exact ⟨hinv'.log_done (exec_nothing hnothing), hinv.shown, hinv.swapped, hinv.once⟩
        · exact hinv'
      · rename_i cfg hwrite
        simp only [hwrite] at hev
        exact finishCall_inv hinv' hev.1 (by cases r <;> exact hev.2) hwrite
  | account u record =>
    refine ⟨?_, hinv.shown, hinv.swapped, hinv.once⟩
    simp only [raceStep]
    rw [Run.replay_append, hinv.serial]
    rfl

theorem Races.inv_start (cfg₀ : BucketConfig S) (users₀ : Users) : (Races.start cfg₀ users₀).Inv E cfg₀ users₀ :=
  ⟨rfl, nofun, nofun, List.nodup_nil⟩

/-! ## Runs -/

/-- **Config updates are serial.** Along runs in which every call writes in time:
- a successful `set_acl` replaces the owner and the ACL that every `get_acl` of its generation has shown, and no two successful ones
  carry the same generation;
- the config is what the successful calls make of it one after the other, in the order of their writes. So the owner and the ACL are
  those of the last `set_acl` (less the users scrubbed since), the settings are those of the last `set_config`, the epochs of all
  rotations are there, so are the rows of a share if they were not sealed again or scrubbed, and a deleted user has no row and no ACL
  entry unless added or named again. -/
theorem config_updates_serial (E : Env) (cfg₀ : BucketConfig S) (users₀ : Users) (hv : Valid cfg₀) (evs : List ConfigEv)
    (h : Along (raceStep E) (InTime E) (Races.start cfg₀ users₀) evs) :
    let w := Run.run (raceStep E) (Races.start cfg₀ users₀) evs
    ((∀ v ∈ w.swaps, ∀ v' ∈ w.shown, v'.generation = v.generation → v'.owner = v.owner ∧ v'.acl = v.acl) ∧
      (w.swaps.map (·.generation)).Nodup) ∧
    replay (exec E) (cfg₀, users₀) w.log = some (w.cfg, w.users) ∧
    (∀ log session body draws log', w.log = log ++ .done (.setAcl session body draws) :: log' → (∀ x ∈ log', x.NotSetAcl) →
      (∃ before, replay (exec E) (cfg₀, users₀) log = some before ∧ w.cfg.owner = body.owner.or before.1.owner) ∧
        ∀ u, w.cfg.acl[u]? = if some u ∈ log'.map Entry.scrubs then none else body.grants[u]?) ∧
    (∀ log body log', w.log = log ++ .done (.setConfig body) :: log' → (∀ x ∈ log', x.NotSetConfig) → settings w.cfg = body) ∧
    (∀ log session fresh draws log', w.log = log ++ .done (.rotate session fresh draws) :: log' →
      ∃ before newest, replay (exec E) (cfg₀, users₀) log = some before ∧ currentKey before.1 = some newest ∧
        (newest.epoch + 1, fresh.publicKeyB64) ∈ ids w.cfg.keys) ∧
    (∀ log session target authorizeTarget allowed draws log',
      w.log = log ++ .done (.share session target authorizeTarget allowed draws) :: log' → (∀ x ∈ log', x.LeavesRow session.username) →
      ∃ before after, replay (exec E) (cfg₀, users₀) log = some before ∧
        exec E (.done (.share session target authorizeTarget allowed draws)) before = some after ∧
        RowKept session.username after.1 w.cfg) ∧
    ∀ log u l₁ l₂ l₃, w.log = log ++ .account u none :: (l₁ ++ .done (.scrubGrants u) :: (l₂ ++ .done (.scrubAcl u) :: l₃)) →
      (∀ x ∈ l₁ ++ l₂ ++ l₃, x.NotAdded u) → (∀ x ∈ l₃, x.NotNamed u) → NoRow u w.cfg ∧ w.cfg.acl[u]? = none := by
  intro w
  have hinv : w.Inv E cfg₀ users₀ :=
    h.inv (I := fun w => w.Inv E cfg₀ users₀) (fun _ _ hinv hev => raceStep_inv hinv hev) (Races.inv_start cfg₀ users₀)
  have hserial := hinv.serial
  refine ⟨⟨fun v hv v' hv' heq => ?_, hinv.once⟩, hserial, ?_, ?_, ?_, ?_, ?_⟩
  · rw [(hinv.swapped v hv).2 v' hv' heq]
    exact ⟨rfl, rfl⟩
  · intro log session body draws log' hlog hlast
    exact replay_acl hlast (hlog ▸ hserial)
  · intro log body log' hlog hlast
    exact replay_settings hlast (hlog ▸ hserial)
  · intro log session fresh draws log' hlog
    exact replay_rotate hv (hlog ▸ hserial)
  · intro log session target authorizeTarget allowed draws log' hlog hlast
    exact replay_share hlast (hlog ▸ hserial)
  · intro log u l₁ l₂ l₃ hlog hadded hnamed
    exact replay_deleted hadded hnamed (hlog ▸ hserial)

/-! ## Two calls at once -/

/-- a bucket without key material, and an administrator who sends its ACL back as it is -/
def plainEnv : Env := ⟨fun _ => false, "b"⟩

theorem length_zeroKey : (List.replicate 32 (0 : UInt8)).length = 32 := List.length_replicate

def sameAcl : Update := .setAcl ⟨"root", 0, [], true⟩ ⟨none, ∅, 0⟩ fun _ _ => ⟨⟨List.replicate 32 0, length_zeroKey⟩, []⟩

theorem sameAcl_apply : sameAcl.apply plainEnv (fun _ => none) (BucketConfig.default symbolic) =
    .write { BucketConfig.default symbolic with aclGeneration := 1 } := by
  have hkeys : (∅ : Table String BucketPermission).keys = [] := by
    rw [List.eq_nil_iff_forall_not_mem]
    intro u hu
    exact Std.TreeMap.not_mem_emptyc (Std.TreeMap.mem_keys.1 hu)
  simp only [sameAcl, Update.apply, setAcl, BucketConfig.default, nextOwner, hkeys, checkGrants, ne_eq, not_true_eq_false, if_false, or_self]
  rfl

theorem sameAcl_swap {cfg : BucketConfig S} : sameAcl.swap cfg = [⟨0, cfg.owner, cfg.acl⟩] := rfl

/-- one call, then the next -/
def oneByOne : List ConfigEv := [.getAcl, .start 0 sameAcl, .finish 0, .getAcl, .start 1 (.setConfig ⟨some 7, none, none⟩), .finish 1]

/-- the quota of the second call and the generation of the first are both there -/
theorem config_updates_serial_one_by_one :
    let w := Run.run (raceStep plainEnv) (Races.start (BucketConfig.default symbolic) fun _ => none) oneByOne
    Along (raceStep plainEnv) (InTime plainEnv) (Races.start (BucketConfig.default symbolic) fun _ => none) oneByOne ∧
      (w.swaps.map (·.generation)).Nodup ∧ settings w.cfg = ⟨some 7, none, none⟩ := by
  intro w
  have hlog : w.log = [.done sameAcl] ++ .done (.setConfig ⟨some 7, none, none⟩) :: [] := by
    simp [w, oneByOne, Run.run, raceStep, Races.start, finishCall, sameAcl_apply, setConfig_apply]
  have halong : Along (raceStep plainEnv) (InTime plainEnv) (Races.start (BucketConfig.default symbolic) fun _ => none) oneByOne := by
    simp [oneByOne, Along, InTime, raceStep, Races.start, finishCall, sameAcl_apply, setConfig_apply, StillFresh, Bumps]
    exact (by decide : (0 : UInt64) ≠ 0xffffffffffffffff)
  obtain ⟨⟨-, honce⟩, -, -, hsettings, -⟩ := config_updates_serial plainEnv (BucketConfig.default symbolic) (fun _ => none)
    ⟨Consecutive.nil, Nat.zero_le _⟩ oneByOne halong
  exact ⟨halong, honce, hsettings _ _ _ hlog fun x hx => by cases hx⟩

/-- two calls with the same generation, both of which read before either writes: both succeed -/
theorem same_generation_twice :
    ¬((Run.run (raceStep plainEnv) (Races.start (BucketConfig.default symbolic) fun _ => none)
      [.start 0 sameAcl, .start 1 sameAcl, .finish 0, .finish 1]).swaps.map (·.generation)).Nodup := by
  simp [Run.run, raceStep, Races.start, finishCall, sameAcl_apply, Function.update, sameAcl_swap]

end Y2q.BucketKeys
