/-
A bucket comes into being (`authz.rs`, `storage/filesystem.rs`): its directory, its registration and its config are three effects.

A write to a bucket that does not exist claims it: `create_bucket` makes the directory and registers the name, and only the caller who is
told that this was new goes on to write the config with an owner and the key of epoch 0. A crash or an error can fall after any effect.

- `claimOwnership`, `create`, `put`: programs that may be cut. The other requests are single effects here.
- `Sound`: the bucket is absent, or owned with key material, or open to a claim. `Stuck`: it is there and refuses everything for ever.
- `claims_sound_iff`: along every run all states are sound, and none is stuck, exactly if no claim is cut between the two (and no
  config is written for a bucket without an owner, which takes authorization to be off).
-/
import Mathlib.Tactic
import Y2q.Core.Crash
import Y2q.Core.Run
import Y2q.Daemon.Authorization
import Y2q.Daemon.ConfigUpdates

namespace Y2q.BucketClaims

open BucketKeys CrashLogic
open Auth (Role roleCaps)
open Run (Along run)

variable {S : Sealing}

/-! ## Model -/

structure Store (S : Sealing) where
  dir : Bool
  /-- the registration in the index -/
  row : Bool
  /-- the keys of the bucket's objects in the index -/
  objects : Finset String
  config : Option (BucketConfig S)

def Store.absent : Store S := ⟨false, false, ∅, none⟩

def Store.bucketExists (s : Store S) : Bool := s.row || decide s.objects.Nonempty

/-- what `get_bucket_config` reads -/
def Store.cfg (s : Store S) : BucketConfig S := s.config.getD (.default S)

def isAdmin (auth : Authenticated) : Bool := !auth.authzEnforced || auth.session.role = .Admin

/-- the caller as the handlers see it -/
def caller (auth : Authenticated) : Session := ⟨auth.session.username, auth.session.persona, auth.session.identitySk, isAdmin auth⟩

abbrev Program (S : Sealing) (α : Type) : Type := Prog (Store S) Error α

def createBucket : Program S Bool := do
  let s ← Prog.get
  if s.dir then pure false
  else do
    Prog.modify fun s => { s with dir := true }
    Prog.modify fun s => { s with row := true }
    pure true

def getBucketConfig : Program S (BucketConfig S) := do
  let s ← Prog.get
  pure s.cfg

/-- the directory is made if it is missing -/
def setBucketConfig (cfg : BucketConfig S) : Program S Unit := Prog.modify fun s => { s with dir := true, config := some cfg }

/-- an error inside is a cut, as a crash is -/
inductive Request where
  | create (users : Users) (auth : Authenticated) (fresh : Fresh) (draws : ℕ → ℕ → Draw) (cut : Option ℕ)
  | put (users : Users) (auth : Authenticated) (key : String) (fresh : Fresh) (draws : ℕ → ℕ → Draw) (cut : Option ℕ)
  | removeObject (auth : Authenticated) (key : String)
  | deleteBucket (auth : Authenticated)
  | update (users : Users) (auth : Authenticated) (r : Update)
  | rekey (auth : Authenticated)

section Model

variable (E : Env)

/-- what `authorize_bucket` answers -/
def Store.answer (s : Store S) (auth : Authenticated) (required : BucketPermission) : Except Error Decision :=
  BucketKeys.answer auth s.cfg s.bucketExists E.bucket required

def authorize (auth : Authenticated) (required : BucketPermission) : Program S Decision := do
  let s ← Prog.get
  Prog.ofExcept (s.answer E auth required)

def claimOwnership (users : Users) (auth : Authenticated) (fresh : Fresh) (draws : ℕ → ℕ → Draw) :
    Program S (BucketConfig S × Bool) := do
  let created ← createBucket
  let cfg ← getBucketConfig
  match ← Prog.ofExcept (BucketKeys.claimOwnership created users E.bucket (caller auth) fresh draws cfg) with
  | none => pure (cfg, created)
  | some cfg => do
    setBucketConfig cfg
    let cfg ← getBucketConfig
    pure (cfg, created)

def resolveBucketConfig (decision : Decision) (users : Users) (auth : Authenticated) (fresh : Fresh) (draws : ℕ → ℕ → Draw) :
    Program S (BucketConfig S) :=
  match decision with
  | .claimOwnership => do
    let (cfg, _) ← claimOwnership E users auth fresh draws
    pure cfg
  | .allowed => getBucketConfig

/-- the handler of the create endpoint -/
def create (users : Users) (auth : Authenticated) (fresh : Fresh) (draws : ℕ → ℕ → Draw) : Program S Bool := do
  match ← authorize E auth .Write with
  | .claimOwnership => do
    let (_, created) ← claimOwnership E users auth fresh draws
    pure created
  | .allowed => pure false

/-- the write paths: the object is committed last -/
def put (users : Users) (auth : Authenticated) (key : String) (fresh : Fresh) (draws : ℕ → ℕ → Draw) : Program S Unit := do
  let decision ← authorize E auth .Write
  let cfg ← resolveBucketConfig E decision users auth fresh draws
  let _ ← Prog.ofExcept (resolveWriteKey cfg E.bucket)
  Prog.modify fun s => { s with dir := true, objects := insert key s.objects }

/-- the state in which a program stops -/
def stopAfter {α : Type} (p : Program S α) (cut : Option ℕ) (s : Store S) : Store S :=
  match cut with
  | none => p.final s
  | some k => p.cutAt s k

/-- the verb that the handler of the update asks for; the scrubs belong to the deletion of a user -/
def required : Update → Option BucketPermission
  | .setAcl .. | .setConfig _ | .rotate .. => some .Admin
  | .share .. => some .Read
  | .scrubGrants _ | .scrubAcl _ => none

/-- the config that the update writes, if it does -/
def Store.writes (s : Store S) (users : Users) (auth : Authenticated) (r : Update) : Option (BucketConfig S) :=
  if (required r).all fun verb => (s.answer E auth verb).isOk then
    match r.apply E users s.cfg with
    | .write cfg => some cfg
    | _ => none
  else none

def step (s : Store S) : Request → Store S
  | .create users auth fresh draws cut => stopAfter (create E users auth fresh draws) cut s
  | .put users auth key fresh draws cut => stopAfter (put E users auth key fresh draws) cut s
  | .removeObject auth key => if (s.answer E auth .Write).isOk then { s with objects := s.objects.erase key } else s
  | .deleteBucket auth => if (s.answer E auth .Admin).isOk && (s.dir || decide s.objects.Nonempty) then .absent else s
  | .update users auth r =>
    match s.writes E users auth r with
    | some cfg => { s with dir := true, config := some cfg }
    | none => s
  | .rekey auth =>
    match s.answer E auth .Admin, startRekey E.bucket (caller auth) s.cfg, currentKey s.cfg with
    | .ok _, .ok _, some newest => { s with dir := true, config := some (pruneTo newest.epoch s.cfg) }
    | _, _, _ => s

/-! ## Properties -/

def Store.Absent (s : Store S) : Prop := s.dir = false ∧ s.row = false ∧ s.objects = ∅ ∧ s.config = none

/-- an owner, and the key of epoch 0 or of one that came after it -/
def Store.Owned (s : Store S) : Prop := ∃ cfg, s.config = some cfg ∧ cfg.owner ≠ none ∧ cfg.keys ≠ []

/-- `authorize_bucket` offers a claim, and `create_bucket` will report that the bucket is new -/
def Store.Claimable (s : Store S) : Prop := s.bucketExists = false ∧ s.dir = false ∧ s.config = none

def Store.Sound (s : Store S) : Prop := s.Absent ∨ s.Owned ∨ s.Claimable

/-- everyone is refused everything -/
def Store.Refuses (s : Store S) : Prop :=
  ∀ (auth : Authenticated) (verb : BucketPermission), auth.authzEnforced = true → ∃ e, s.answer E auth verb = .error e

def Request.enforced : Request → Prop
  | .create _ auth _ _ _ | .put _ auth _ _ _ _ | .removeObject auth _ | .deleteBucket auth | .update _ auth _ | .rekey auth =>
    auth.authzEnforced = true

/-- the bucket is there, and refuses for ever -/
def Store.Stuck (s : Store S) : Prop :=
  (s.dir = true ∨ s.row = true) ∧ ∀ requests : List Request, (∀ x ∈ requests, x.enforced) → (run (step E) s requests).Refuses E

/-- a claim gets from its first effect to its third -/
def Completes (users : Users) (auth : Authenticated) (fresh : Fresh) (draws : ℕ → ℕ → Draw) (cut : Option ℕ) : Prop :=
  cut = some 0 ∨ (∃ key : BucketKeyVersion S,
    newOwnerKey users E.bucket auth.session.username auth.session.persona fresh draws = .ok key) ∧ ∀ k, cut = some k → 3 ≤ k

/-- no claim is cut on the way, and a config is written only for a bucket that has an owner -/
def Undisturbed (s : Store S) : Request → Prop
  | .create users auth fresh draws cut | .put users auth _ fresh draws cut =>
    s.answer E auth .Write = .ok .claimOwnership → Completes (S := S) E users auth fresh draws cut
  | .update users auth r => s.writes E users auth r ≠ none → s.Owned
  | _ => True

end Model

variable {E : Env} {s : Store S} {auth : Authenticated} {verb : BucketPermission} {users : Users} {fresh : Fresh} {draws : ℕ → ℕ → Draw}

/-! ## Where a program stops -/

section Cut

variable {α : Type} {p : Program S α} {cut : Option ℕ} {a b c : Store S} {rest : List (Store S)}

theorem stopAfter_silent (h : (p s).1 = []) : stopAfter p cut s = s := by
  cases cut with
  | none => rw [stopAfter, Prog.final, h, List.getLastD_nil]
  | some k => rw [stopAfter, Prog.cutAt, h, List.take_nil, List.getLastD_nil]

theorem stopAfter_one (h : (p s).1 = [a]) : stopAfter p cut s = s ∨ stopAfter p cut s = a := by
  cases cut with
  | none =>
    right
    rw [stopAfter, Prog.final, h]
    rfl
  | some k =>
    rw [stopAfter, Prog.cutAt, h]
    cases k with
    | zero => exact Or.inl rfl
    | succ k =>
      right
      rw [List.take_succ_cons, List.take_nil]
      rfl

theorem getLastD_mem (a : Store S) (l : List (Store S)) : l.getLastD a ∈ a :: l := by
  induction l generalizing a with
  | nil => exact List.mem_singleton_self a
  | cons b l ih =>
    rw [List.getLastD_cons]
    exact List.mem_cons_of_mem a (ih b)

/-- past the second effect -/
theorem stopAfter_complete (h : (p s).1 = a :: b :: c :: rest) (hcut : ∀ k, cut = some k → 3 ≤ k) : stopAfter p cut s ∈ c :: rest := by
  cases cut with
  | none =>
    rw [stopAfter, Prog.final, h, List.getLastD_cons, List.getLastD_cons, List.getLastD_cons]
    exact getLastD_mem c rest
  | some k =>
    obtain ⟨j, rfl⟩ := Nat.exists_eq_add_of_le' (hcut k rfl)
    have htake : (a :: b :: c :: rest).take (j + 3) = a :: b :: c :: rest.take j := rfl
    rw [stopAfter, Prog.cutAt, h, htake, List.getLastD_cons, List.getLastD_cons, List.getLastD_cons]
    rcases List.mem_cons.1 (getLastD_mem c (rest.take j)) with heq | hmem
    · exact List.mem_cons.2 (Or.inl heq)
    · exact List.mem_cons.2 (Or.inr (List.mem_of_mem_take hmem))

/-- at the first or the second -/
theorem stopAfter_incomplete (h : (p s).1 = a :: b :: rest) (hstart : cut ≠ some 0) (hcut : rest = [] ∨ ∃ k, cut = some k ∧ k < 3) :
    stopAfter p cut s = a ∨ stopAfter p cut s = b := by
  cases cut with
  | none =>
    right
    obtain rfl : rest = [] := hcut.resolve_right (by rintro ⟨_, ⟨⟩, _⟩)
    rw [stopAfter, Prog.final, h]
    rfl
  | some k =>
    rw [stopAfter, Prog.cutAt, h]
    rcases k with - | - | - | k
    · exact absurd rfl hstart
    · exact Or.inl rfl
    · exact Or.inr rfl
    · right
      have hnil : rest = [] := by
        rcases hcut with hnil | ⟨_, hk, hlt⟩
        · exact hnil
        · cases hk
          omega
      subst hnil
      rfl

end Cut

/-! ## The answers -/

/-- a bucket that exists is not claimed -/
theorem answer_ne_claim {cfg : BucketConfig S} {bucket : String} : BucketKeys.answer auth cfg true bucket verb ≠ .ok .claimOwnership := by
  unfold BucketKeys.answer authorizeBucket
  simp only [Except.map, if_true]
  split_ifs <;> nofun

theorem answer_default (henf : auth.authzEnforced = true) {there : Bool} {bucket : String} :
    BucketKeys.answer auth (.default S) there bucket verb = if there = false then absentAnswer auth bucket verb else .error (.notFound bucket) := by
  rw [answer_hidden henf (effectiveCaps_absent auth bucket)]
  exact if_congr (and_iff_left rfl) rfl rfl

/-- an owner who has the newest key, and whose role has the verb, is served -/
theorem owner_allowed {cfg : BucketConfig S} {there : Bool} {bucket : String} (henf : auth.authzEnforced = true)
    (howner : cfg.owner = some auth.session.username) (hv : (isVisible auth.session cfg bucket).1 = true) (hrole : auth.session.role = .User) :
    BucketKeys.answer auth cfg there bucket verb = .ok .allowed := by
  have hrel : bucketGrantCaps cfg auth.session.username = some Auth.Caps.FULL := by
    rw [bucketGrantCaps, howner]
    exact if_pos rfl
  have heff := effectiveCaps_related hrel (Or.inl (by rw [hrole]; rfl)) (Or.inl hv)
  have hallows : Caps.allows (effectiveCaps auth cfg bucket).1.1 verb = true := by
    rw [heff, hrole]
    cases verb <;> rfl
  rw [answer_allowed henf hallows, if_neg]
  rintro ⟨-, hnone, -⟩
  cases howner.symm.trans hnone

/-- whoever has the key in the cache sees the bucket -/
def holderOf (owner : String) (bucket : String) (epoch : UInt32) : Authenticated :=
  ⟨⟨owner, .User, 0, [], BucketKeyCache.empty.insert bucket epoch []⟩, true⟩

theorem holderOf_sees {cfg : BucketConfig S} {kv : BucketKeyVersion S} {owner bucket : String} (hkv : currentKey cfg = some kv) :
    (isVisible (holderOf owner bucket kv.epoch).session cfg bucket).1 = true := by
  rw [isVisible_some hkv]
  have hcached : (holderOf owner bucket kv.epoch).session.bucketKeys.get bucket kv.epoch = some [] := if_pos rfl
  unfold resolveReadKey
  rw [hcached]
  rfl

/-! ## A claim -/

/-- after the first and the second effect of a claim -/
def Store.madeDir : Store S := { Store.absent with dir := true }

def Store.registered : Store S := { Store.absent with dir := true, row := true }

def claimedConfig (auth : Authenticated) (key : BucketKeyVersion S) : BucketConfig S :=
  { BucketConfig.default S with owner := some auth.session.username, keys := [key] }

/-- after the third -/
def Store.claimed (auth : Authenticated) (key : BucketKeyVersion S) : Store S :=
  ⟨true, true, ∅, some (claimedConfig auth key)⟩

theorem claimOwnership_absent : claimOwnership E users auth fresh draws (Store.absent : Store S) =
    match newOwnerKey users E.bucket auth.session.username auth.session.persona fresh draws with
    | .error e => ([.madeDir, .registered], .error e)
    | .ok key => ([.madeDir, .registered, .claimed auth key], .ok (claimedConfig auth key, true)) := by
  have hclaim : BucketKeys.claimOwnership true users E.bucket (caller auth) fresh draws (.default S) =
      (newOwnerKey users E.bucket auth.session.username auth.session.persona fresh draws).map fun key => some (claimedConfig auth key) := by
    unfold BucketKeys.claimOwnership
    rw [if_pos ⟨rfl, rfl⟩]
    rfl
  have hcreate : createBucket (Store.absent : Store S) = ([.madeDir, .registered], .ok true) := rfl
  have hread : getBucketConfig (Store.registered : Store S) = ([], .ok (.default S)) := rfl
  unfold claimOwnership
  rw [Prog.bind_apply_ok hcreate]
  have hlast : ([Store.madeDir, Store.registered] : List (Store S)).getLastD .absent = .registered := rfl
  rw [hlast, Prog.bind_apply_silent hread, hclaim]
  cases newOwnerKey users E.bucket auth.session.username auth.session.persona fresh draws with
  | error e => rfl
  | ok key => rfl

/-- the effects of a write that claims the bucket: two, and if there is a key the config and perhaps the object -/
structure Claims {α : Type} (p : Program S α) (E : Env) (users : Users) (auth : Authenticated) (fresh : Fresh)
    (draws : ℕ → ℕ → Draw) : Prop where
  failed : ∀ e : Error, newOwnerKey users E.bucket auth.session.username auth.session.persona fresh draws = (.error e : Except Error (BucketKeyVersion S)) →
    (p .absent).1 = [.madeDir, .registered]
  done : ∀ key, newOwnerKey users E.bucket auth.session.username auth.session.persona fresh draws = .ok key →
    ∃ rest : List (Store S), (p .absent).1 = .madeDir :: .registered :: .claimed auth key :: rest ∧
      ∀ s ∈ rest, ∃ objects, s = { Store.claimed auth key with objects := objects }

theorem authorize_apply : authorize E auth verb s = ([], s.answer E auth verb) := by
  unfold authorize
  rw [Prog.get_bind_apply]
  cases s.answer E auth verb <;> rfl

theorem create_claims (h : (Store.absent : Store S).answer E auth .Write = .ok .claimOwnership) :
    Claims (create (S := S) E users auth fresh draws) E users auth fresh draws := by
  have hcreate : create E users auth fresh draws (Store.absent : Store S) =
      (claimOwnership E users auth fresh draws >>= fun r => pure r.2) .absent := by
    unfold create
    rw [Prog.bind_apply_silent (authorize_apply.trans (congrArg _ h))]
  constructor
  · intro e he
    have hp := @claimOwnership_absent S E auth users fresh draws
    rw [he] at hp
    rw [hcreate, Prog.bind_apply_error hp]
  · intro key hkey
    have hp := @claimOwnership_absent S E auth users fresh draws
    rw [hkey] at hp
    refine ⟨[], ?_, fun _ hs => absurd hs List.not_mem_nil⟩
    rw [hcreate, Prog.bind_apply_ok hp]
    rfl

theorem put_claims {key : String} (h : (Store.absent : Store S).answer E auth .Write = .ok .claimOwnership) :
    Claims (put (S := S) E users auth key fresh draws) E users auth fresh draws := by
  have hput : put E users auth key fresh draws (Store.absent : Store S) =
      ((claimOwnership E users auth fresh draws >>= fun r => pure r.1) >>= fun cfg =>
        Prog.ofExcept (resolveWriteKey cfg E.bucket) >>= fun _ =>
          Prog.modify fun s => { s with dir := true, objects := insert key s.objects }) .absent := by
    unfold put
    rw [Prog.bind_apply_silent (authorize_apply.trans (congrArg _ h))]
    rfl
  have hp := @claimOwnership_absent S E auth users fresh draws
  constructor
  · intro e he
    rw [he] at hp
    rw [hput, Prog.bind_apply_error (Prog.bind_apply_error hp)]
  · intro bucketKey hkey
    rw [hkey] at hp
    have hcfg : (claimOwnership E users auth fresh draws >>= fun r => pure r.1) (Store.absent : Store S) =
        ([.madeDir, .registered, .claimed auth bucketKey], .ok (claimedConfig auth bucketKey)) := by
      rw [Prog.bind_apply_ok hp]
      rfl
    rw [hput, Prog.bind_apply_ok hcfg]
    cases resolveWriteKey (claimedConfig auth bucketKey) E.bucket with
    | error e => exact ⟨[], rfl, fun _ hs => absurd hs List.not_mem_nil⟩
    | ok pk =>
      refine ⟨[{ Store.claimed auth bucketKey with objects := insert key ∅ }], rfl, fun s hs => ?_⟩
      exact ⟨insert key ∅, List.mem_singleton.1 hs⟩

/-- otherwise a create has no effect, and a put at most commits its object -/
theorem create_silent (h : s.answer E auth .Write ≠ .ok .claimOwnership) : (create E users auth fresh draws s).1 = [] := by
  unfold create
  cases hans : s.answer E auth .Write with
  | error e => rw [Prog.bind_apply_error (authorize_apply.trans (congrArg _ hans))]
  | ok decision =>
    rw [Prog.bind_apply_silent (authorize_apply.trans (congrArg _ hans))]
    cases decision with
    | allowed => rfl
    | claimOwnership => exact absurd hans h

theorem put_denied {key : String} {e : Error} (h : s.answer E auth .Write = .error e) : (put E users auth key fresh draws s).1 = [] := by
  unfold put
  rw [Prog.bind_apply_error (authorize_apply.trans (congrArg _ h))]

theorem put_allowed {key : String} (h : s.answer E auth .Write = .ok .allowed) :
    (put E users auth key fresh draws s).1 = [] ∨
      (put E users auth key fresh draws s).1 = [{ s with dir := true, objects := insert key s.objects }] := by
  have hread : resolveBucketConfig E .allowed users auth fresh draws s = ([], .ok s.cfg) := rfl
  unfold put
  rw [Prog.bind_apply_silent (authorize_apply.trans (congrArg _ h)), Prog.bind_apply_silent hread]
  cases resolveWriteKey s.cfg E.bucket with
  | error e => exact Or.inl rfl
  | ok pk => exact Or.inr rfl

/-! ## What a run keeps -/

/-- owned, with everything that goes with it -/
structure Held (s : Store S) : Prop where
  config : ∃ cfg, s.config = some cfg ∧ cfg.owner ≠ none ∧ cfg.keys ≠ [] ∧ Valid cfg
  dir : s.dir = true
  row : s.row = true

def Inv (s : Store S) : Prop := s = .absent ∨ Held s

theorem Held.owned (h : Held s) : s.Owned := by
  obtain ⟨cfg, hcfg, howner, hkeys, -⟩ := h.config
  exact ⟨cfg, hcfg, howner, hkeys⟩

theorem Held.exists (h : Held s) : s.bucketExists = true := by
  rw [Store.bucketExists, h.row]
  rfl

theorem Held.ne_claim (h : Held s) : s.answer E auth verb ≠ .ok .claimOwnership := by
  rw [Store.answer, h.exists]
  exact answer_ne_claim

theorem Held.objects (h : Held s) (objects : Finset String) : Held { s with objects := objects } := ⟨h.config, h.dir, h.row⟩

theorem held_claimed (auth : Authenticated) {key : BucketKeyVersion S} (objects : Finset String) :
    Held { Store.claimed auth key with objects := objects } where
  config := by
    refine ⟨claimedConfig auth key, rfl, nofun, List.cons_ne_nil _ _, Consecutive.single key.epoch, ?_⟩
    exact (by decide : 1 ≤ MAX_RETAINED_EPOCHS)
  dir := rfl
  row := rfl

theorem Held.write {cfg : BucketConfig S} (h : Held s) (howner : cfg.owner ≠ none) (hkeys : cfg.keys ≠ []) (hvalid : Valid cfg) :
    Held { s with dir := true, config := some cfg } := ⟨⟨cfg, rfl, howner, hkeys, hvalid⟩, rfl, h.row⟩

/-- what an update writes for an owned bucket -/
theorem Held.update {cfg' : BucketConfig S} {r : Update} (h : Held s) (hr : r.apply E users s.cfg = .write cfg') :
    Held { s with dir := true, config := some cfg' } := by
  obtain ⟨cfg, hcfg, howner, hkeys, hvalid⟩ := h.config
  rw [Store.cfg, hcfg, Option.getD_some] at hr
  refine h.write ?_ ?_ (Update.apply_valid hvalid hr)
  · have hacl := Update.apply_acl hr
    cases r with
    | setAcl session body draws =>
      rw [hacl.2.1]
      cases body.owner with
      | none => exact howner
      | some owner => exact Option.some_ne_none owner
    | _ =>
      rw [hacl.2.1]
      exact howner
  · obtain ⟨kv, rest, hcons⟩ := List.exists_cons_of_ne_nil hkeys
    have hid : (kv.epoch, kv.publicKeyB64) ∈ ids cfg.keys := by
      rw [hcons]
      exact List.mem_cons_self
    intro hnil
    have hid' := Update.apply_ids hvalid hr hid
    rw [hnil] at hid'
    exact List.not_mem_nil hid'

/-- an update of a config without keys writes none -/
theorem keys_of_default {cfg' : BucketConfig S} {r : Update} (h : r.apply E users (.default S) = .write cfg') : cfg'.keys = [] := by
  have hnodup : (epochs (BucketConfig.default S).keys).Nodup := List.nodup_nil
  have hkeys := Update.apply_keys hnodup h
  cases r with
  | rotate session fresh draws =>
    obtain ⟨newest, kv, hnewest, -⟩ := hkeys
    exact absurd hnewest nofun
  | _ => exact List.forall₂_nil_left_iff.1 hkeys

theorem writes_some {cfg' : BucketConfig S} {r : Update} (h : s.writes E users auth r = some cfg') :
    r.apply E users s.cfg = .write cfg' ∧ ∀ verb, required r = some verb → (s.answer E auth verb).isOk = true := by
  unfold Store.writes at h
  split at h
  next hall =>
    refine ⟨?_, fun verb hverb => by rwa [hverb] at hall⟩
    split at h
    next cfg hr =>
      cases h
      exact hr
    next => exact absurd h nofun
  next => exact absurd h nofun

theorem pruneTo_keys {cfg : BucketConfig S} {newest : BucketKeyVersion S} (hvalid : Valid cfg) (hnewest : currentKey cfg = some newest) :
    (pruneTo newest.epoch cfg).keys = [newest] :=
  filter_epoch hvalid.nodup (currentKey_mem hnewest)

/-- the directory is there and no key is: neither absent, nor owned, nor open to a claim -/
theorem not_sound (hdir : s.dir = true) (hkeys : s.cfg.keys = []) : ¬s.Sound := by
  intro h
  rcases h with ⟨hno, -⟩ | ⟨cfg, hcfg, -, hne⟩ | ⟨-, hno, -⟩
  · exact absurd (hdir.symm.trans hno) Bool.noConfusion
  · rw [Store.cfg, hcfg, Option.getD_some] at hkeys
    exact hne hkeys
  · exact absurd (hdir.symm.trans hno) Bool.noConfusion

/-- whoever has the newest key of an owned bucket and is its owner is served -/
theorem Held.serves (h : Held s) : ∃ auth : Authenticated, auth.authzEnforced = true ∧ ∀ verb, s.answer E auth verb = .ok .allowed := by
  obtain ⟨cfg, hcfg, howner, hkeys, -⟩ := h.config
  obtain ⟨owner, howner⟩ := Option.ne_none_iff_exists'.1 howner
  have hsome : (currentKey cfg).isSome := by
    rw [currentKey, List.getLast?_isSome]
    exact hkeys
  obtain ⟨kv, hkv⟩ := Option.isSome_iff_exists.1 hsome
  refine ⟨holderOf owner E.bucket kv.epoch, rfl, fun verb => ?_⟩
  rw [Store.answer, Store.cfg, hcfg, Option.getD_some]
  exact owner_allowed rfl howner (holderOf_sees hkv) rfl

theorem Inv.holds (h : Inv s) : s.Sound ∧ ¬s.Stuck E := by
  rcases h with rfl | hheld
  · refine ⟨Or.inl ⟨rfl, rfl, rfl, rfl⟩, fun hstuck => ?_⟩
    rcases hstuck.1 with h | h <;> exact absurd h Bool.noConfusion
  · refine ⟨Or.inr (Or.inl hheld.owned), fun hstuck => ?_⟩
    obtain ⟨auth, henf, hserved⟩ := hheld.serves (E := E)
    obtain ⟨e, he⟩ := hstuck.2 [] (fun x hx => absurd hx List.not_mem_nil) auth .Read henf
    exact absurd ((hserved .Read).symm.trans he) nofun

/-! ## One request -/

/-- a write on an absent bucket: whole if the claim completes, and else at one of its first two effects -/
theorem Claims.stop {α : Type} {p : Program S α} (h : Claims p E users auth fresh draws) (cut : Option ℕ) :
    Completes (S := S) E users auth fresh draws cut ∧ Inv (stopAfter p cut .absent) ∨
      ¬Completes (S := S) E users auth fresh draws cut ∧ ¬(stopAfter p cut .absent).Sound := by
  have hunsound : ∀ s : Store S, s = .madeDir ∨ s = .registered → ¬s.Sound := by
    rintro s (rfl | rfl)
    · exact not_sound rfl rfl
    · exact not_sound rfl rfl
  by_cases hstart : cut = some 0
  · left
    refine ⟨Or.inl hstart, Or.inl ?_⟩
    rw [hstart, stopAfter, Prog.cutAt]
    rfl
  · cases hkey : (newOwnerKey users E.bucket auth.session.username auth.session.persona fresh draws : Except Error (BucketKeyVersion S)) with
    | error e =>
      right
      constructor
      · rintro (hzero | ⟨⟨key, hok⟩, -⟩)
        · exact hstart hzero
        · exact absurd (hkey.symm.trans hok) nofun
      · exact hunsound _ (stopAfter_incomplete (h.failed e hkey) hstart (Or.inl rfl))
    | ok key =>
      obtain ⟨rest, heffects, hrest⟩ := h.done key hkey
      by_cases hcut : ∀ k, cut = some k → 3 ≤ k
      · left
        refine ⟨Or.inr ⟨⟨key, hkey⟩, hcut⟩, Or.inr ?_⟩
        rcases List.mem_cons.1 (stopAfter_complete heffects hcut) with heq | hmem
        · rw [heq]
          exact held_claimed auth ∅
        · obtain ⟨objects, heq⟩ := hrest _ hmem
          rw [heq]
          exact held_claimed auth objects
      · right
        refine ⟨fun hcompletes => hcut (hcompletes.resolve_left hstart).2, hunsound _ (stopAfter_incomplete heffects hstart (Or.inr ?_))⟩
        by_contra hnone
        exact hcut fun k hk => Nat.le_of_not_lt fun hlt => hnone ⟨k, hk, hlt⟩

theorem absent_not_allowed : (Store.absent : Store S).answer E auth .Write ≠ .ok .allowed := by
  cases henf : auth.authzEnforced with
  | true =>
    have hans : (Store.absent : Store S).answer E auth .Write = absentAnswer auth E.bucket .Write :=
      (answer_default henf).trans (if_pos rfl)
    rw [hans]
    exact absentAnswer_ne_allowed
  | false =>
    have hans : (Store.absent : Store S).answer E auth .Write = .ok .claimOwnership := by
      unfold Store.answer BucketKeys.answer authorizeBucket
      rw [henf]
      rfl
    rw [hans]
    nofun

theorem put_cases {key : String} {cut : Option ℕ} (h : Inv s) (hclaim : s.answer E auth .Write ≠ .ok .claimOwnership) :
    Inv (stopAfter (put E users auth key fresh draws) cut s) := by
  cases hans : s.answer E auth .Write with
  | error e =>
    rw [stopAfter_silent (put_denied hans)]
    exact h
  | ok decision =>
    cases decision with
    | claimOwnership => exact absurd hans hclaim
    | allowed =>
      have hheld : Held s := h.resolve_left fun habsent => absent_not_allowed (habsent ▸ hans)
      rcases put_allowed hans with hnone | hone
      · rw [stopAfter_silent hnone]
        exact h
      · rcases stopAfter_one hone with heq | heq
        · rw [heq]
          exact h
        · rw [heq]
          exact Or.inr ⟨hheld.config, rfl, hheld.row⟩

/-- a request either is undisturbed and keeps the invariant, or is not and leaves a state that is not sound -/
theorem step_cases (h : Inv s) (x : Request) :
    Undisturbed E s x ∧ Inv (step E s x) ∨ ¬Undisturbed E s x ∧ ¬(step E s x).Sound := by
  cases x with
  | create users auth fresh draws cut =>
    by_cases hclaim : s.answer E auth .Write = .ok .claimOwnership
    · obtain rfl : s = .absent := h.resolve_right fun hheld => hheld.ne_claim hclaim
      rcases (create_claims hclaim).stop cut with ⟨hc, hinv⟩ | ⟨hc, hbad⟩
      · exact Or.inl ⟨fun _ => hc, hinv⟩
      · exact Or.inr ⟨fun hu => hc (hu hclaim), hbad⟩
    · refine Or.inl ⟨fun hans => absurd hans hclaim, ?_⟩
      rw [step, stopAfter_silent (create_silent hclaim)]
      exact h
  | put users auth key fresh draws cut =>
    by_cases hclaim : s.answer E auth .Write = .ok .claimOwnership
    · obtain rfl : s = .absent := h.resolve_right fun hheld => hheld.ne_claim hclaim
      rcases (put_claims hclaim).stop cut with ⟨hc, hinv⟩ | ⟨hc, hbad⟩
      · exact Or.inl ⟨fun _ => hc, hinv⟩
      · exact Or.inr ⟨fun hu => hc (hu hclaim), hbad⟩
    · exact Or.inl ⟨fun hans => absurd hans hclaim, put_cases h hclaim⟩
  | removeObject auth key =>
    refine Or.inl ⟨trivial, ?_⟩
    rw [step]
    split
    · rcases h with rfl | hheld
      · exact Or.inl rfl
      · exact Or.inr (hheld.objects _)
    · exact h
  | deleteBucket auth =>
    refine Or.inl ⟨trivial, ?_⟩
    rw [step]
    split
    · exact Or.inl rfl
    · exact h
  | update users auth r =>
    cases hw : s.writes E users auth r with
    | none =>
      refine Or.inl ⟨fun hne => absurd hw hne, ?_⟩
      rw [step, hw]
      exact h
    | some cfg =>
      obtain ⟨hr, -⟩ := writes_some hw
      have hstep : step E s (.update users auth r) = { s with dir := true, config := some cfg } := by rw [step, hw]
      rw [hstep]
      rcases h with rfl | hheld
      · refine Or.inr ⟨fun hu => ?_, not_sound rfl (keys_of_default hr)⟩
        obtain ⟨c, hc, -⟩ := hu (hw ▸ Option.some_ne_none cfg)
        exact absurd hc nofun
      · exact Or.inl ⟨fun _ => hheld.owned, Or.inr (hheld.update hr)⟩
  | rekey auth =>
    refine Or.inl ⟨trivial, ?_⟩
    rw [step]
    split
    next newest _ _ hnewest =>
      rcases h with rfl | hheld
      · exact absurd hnewest nofun
      · obtain ⟨cfg, hcfg, howner, -, hvalid⟩ := hheld.config
        have hs : s.cfg = cfg := by rw [Store.cfg, hcfg, Option.getD_some]
        rw [hs] at hnewest ⊢
        have hkeys := pruneTo_keys hvalid hnewest
        refine Or.inr (hheld.write howner ?_ ?_)
        · rw [hkeys]
          exact List.cons_ne_nil _ _
        · rw [Valid, hkeys]
          exact ⟨Consecutive.single _, (by decide : 1 ≤ MAX_RETAINED_EPOCHS)⟩
    next => exact h

/-- **A claim is whole or undone.** For every run of requests on a bucket that is absent at the start, where a create or a put may stop
after any of its effects: each state reached is sound, and none refuses everything for ever, exactly if no claim stops between its first
effect and its third, and no config is written while the bucket has no owner. -/
theorem claims_sound_iff (E : Env) (requests : List Request) :
    Along (step E) (fun s x => (step E s x).Sound ∧ ¬(step E s x).Stuck E) (Store.absent : Store S) requests ↔
      Along (step E) (Undisturbed E) (Store.absent : Store S) requests := by
  refine Run.along_iff_of (I := Inv) (fun s x hs hx => ?_) (fun s hs => hs.holds) (fun s x hs hq => ?_) (Or.inl rfl)
  · rcases step_cases hs x with ⟨-, hinv⟩ | ⟨hnot, -⟩
    · exact hinv
    · exact absurd hx hnot
  · rcases step_cases hs x with ⟨hx, -⟩ | ⟨-, hbad⟩
    · exact hx
    · exact absurd hq.1 hbad

/-! ## The crash that strands a bucket -/

/-- nobody is let in -/
theorem registered_refuses : (Store.registered : Store S).Refuses E :=
  fun auth verb henf => ⟨.notFound E.bucket, (answer_default henf).trans (if_neg Bool.noConfusion)⟩

/-- and nothing changes -/
theorem registered_step {x : Request} (hx : x.enforced) : step E (Store.registered : Store S) x = .registered := by
  cases x with
  | create users auth fresh draws cut =>
    obtain ⟨e, he⟩ := registered_refuses (S := S) (E := E) auth .Write hx
    rw [step, stopAfter_silent (create_silent (he ▸ nofun))]
  | put users auth key fresh draws cut =>
    obtain ⟨e, he⟩ := registered_refuses (S := S) (E := E) auth .Write hx
    rw [step, stopAfter_silent (put_denied he)]
  | removeObject auth key =>
    obtain ⟨e, he⟩ := registered_refuses (S := S) (E := E) auth .Write hx
    rw [step, he]
    rfl
  | deleteBucket auth =>
    obtain ⟨e, he⟩ := registered_refuses (S := S) (E := E) auth .Admin hx
    rw [step, he]
    rfl
  | update users auth r =>
    have hnone : (Store.registered : Store S).writes E users auth r = none := by
      cases hw : (Store.registered : Store S).writes E users auth r with
      | none => rfl
      | some cfg =>
        obtain ⟨hr, hverb⟩ := writes_some hw
        cases hreq : required r with
        | none =>
          cases r with
          | scrubGrants username => exact absurd hr nofun
          | scrubAcl username => exact absurd hr nofun
          | _ => exact absurd hreq nofun
        | some verb =>
          have hok := hverb verb hreq
          obtain ⟨e, he⟩ := registered_refuses (S := S) (E := E) auth verb hx
          rw [he] at hok
          exact absurd hok Bool.false_ne_true
    rw [step, hnone]
  | rekey auth =>
    obtain ⟨e, he⟩ := registered_refuses (S := S) (E := E) auth .Admin hx
    rw [step, he]

theorem registered_run (requests : List Request) (h : ∀ x ∈ requests, x.enforced) :
    run (step E) (Store.registered : Store S) requests = .registered := by
  induction requests with
  | nil => rfl
  | cons x requests ih =>
    rw [Run.run_cons, registered_step (h x List.mem_cons_self)]
    exact ih fun y hy => h y (List.mem_cons_of_mem x hy)

theorem registered_stuck : (Store.registered : Store S).Stuck E := by
  refine ⟨Or.inl rfl, fun requests h => ?_⟩
  rw [registered_run requests h]
  exact registered_refuses

def soloEnv : Env := ⟨fun _ => false, "b"⟩

/-- alice creates a bucket, and the daemon dies when it is registered -/
theorem claim_cut_strands :
    ¬(run (step soloEnv) (Store.absent : Store symbolic)
        [.create solo ⟨sessionOf "alice" .User, true⟩ soloFresh soloDraws (some 2)]).Sound ∧
      (run (step soloEnv) (Store.absent : Store symbolic)
        [.create solo ⟨sessionOf "alice" .User, true⟩ soloFresh soloDraws (some 2)]).Stuck soloEnv := by
  have hclaim : (Store.absent : Store symbolic).answer soloEnv ⟨sessionOf "alice" .User, true⟩ .Write = .ok .claimOwnership := rfl
  have hcut : run (step soloEnv) (Store.absent : Store symbolic)
      [.create solo ⟨sessionOf "alice" .User, true⟩ soloFresh soloDraws (some 2)] = .registered := by
    have hclaims : Claims (create soloEnv solo ⟨sessionOf "alice" .User, true⟩ soloFresh soloDraws) soloEnv solo
      ⟨sessionOf "alice" .User, true⟩ soloFresh soloDraws := create_claims hclaim
    rw [Run.run_cons, step]
    cases hkey : (newOwnerKey solo "b" "alice" 0 soloFresh soloDraws : Except Error (BucketKeyVersion symbolic)) with
    | error e =>
      rw [stopAfter, Prog.cutAt, hclaims.failed e hkey]
      rfl
    | ok key =>
      obtain ⟨rest, heffects, -⟩ := hclaims.done key hkey
      rw [stopAfter, Prog.cutAt, heffects]
      rfl
  rw [hcut]
  exact ⟨not_sound rfl rfl, registered_stuck⟩

end Y2q.BucketClaims
