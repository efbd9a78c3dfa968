/-
Whether every stored object still has its key, while objects are written and the bucket's keys are rotated and rekeyed.

A `PUT` resolves the bucket's current key and commits its object later. `rotate_key`, `set_acl`, `set_config` and the sharing of grants
read the config and later write it back. A rekey opens the older epochs (`start_rekey`); its job then reads the config for the newest
epoch, lists the objects of lower epochs, re-encrypts them one by one, reads the config again and writes it back with only that epoch.
One `get_bucket_config`, one `set_bucket_config`, one read of the objects and one commit are a step each. One rekey runs at a time.

- `Kept`: a config write finds the epochs as the writer has read them; and at the end of a rekey no stored object and no `PUT` under
  way uses another epoch than the one kept.
- `objects_have_keys`: along such runs every object's epoch is in the config, with the key the object was encrypted to.
- `object_loses_key`: a rotation between the two steps of a `set_config` is undone by it, and an object written in between is lost.
-/
import Mathlib.Tactic
import Y2q.Core.Run
import Y2q.Daemon.ConfigUpdates
import Y2q.Daemon.Epochs

namespace Y2q.BucketKeys

open Run (Along)

variable {S : Sealing}

/-- what is recorded of an object: `key_epoch`, and the public key its envelope was made for -/
structure Obj where
  epoch : UInt32
  publicKey : Bytes

inductive Call (S : Sealing) where
  | update (r : Update) (seen : Users) (snapshot : BucketConfig S)
  | put (key : String) (epoch : UInt32) (publicKey : Bytes)
  /-- `start_rekey` has returned; the job holds the secret keys of the older epochs -/
  | started (sks : List (UInt32 × Bytes))
  /-- the objects still to be re-encrypted; `loaded`: the first one has been read and decrypted -/
  | rekeying (sks : List (UInt32 × Bytes)) (epoch : UInt32) (publicKey : Bytes) (stale : List (String × UInt32)) (loaded : Bool)
  /-- the config has been read for the last time -/
  | pruning (epoch : UInt32) (publicKey : Bytes) (snapshot : BucketConfig S)

structure Bucket (S : Sealing) where
  cfg : BucketConfig S
  objects : Table String Obj
  calls : ℕ → Option (Call S)
  /-- the `RekeyRegistry` has a running entry -/
  running : Bool

def Bucket.start (cfg : BucketConfig S) : Bucket S := ⟨cfg, ∅, fun _ => none, false⟩

inductive Cmd where
  | update (r : Update) (seen : Users)
  | put (key : String)
  | rekey (session : Session)

inductive BucketEv where
  | start (i : ℕ) (cmd : Cmd)
  | step (i : ℕ)

section Machine

-- `decrypts sk pk`: the secret key opens what was encrypted to the public key
variable (E : Env) (decrypts : Bytes → Bytes → Bool)

def Bucket.set (w : Bucket S) (i : ℕ) (c : Option (Call S)) : Bucket S := { w with calls := Function.update w.calls i c }

def startRekeyCall (w : Bucket S) (i : ℕ) (session : Session) : Bucket S :=
  match currentKey w.cfg with
  | none => w
  | some newest =>
    match openVerifiedBwk w.cfg E.bucket newest.epoch session.username session.persona session.identitySk with
    | .error _ => w
    | .ok _ =>
      if w.running then w
      else
        match startRekey E.bucket session w.cfg with
        -- the entry in the registry stays
        | .error _ => { w with running := true }
        | .ok sks => { w.set i (some (.started sks)) with running := true }

def startCall (w : Bucket S) (i : ℕ) : Cmd → Bucket S
  | .update r seen => w.set i (some (.update r seen w.cfg))
  | .put key =>
    match resolveWriteKey w.cfg E.bucket with
    | .error _ => w
    | .ok (epoch, publicKey) => w.set i (some (.put key epoch publicKey))
  | .rekey session => startRekeyCall E w i session

/-- the job ends without pruning -/
def Bucket.failRekey (w : Bucket S) (i : ℕ) : Bucket S := { w.set i none with running := false }

/-- `collect_stale_keys` -/
def collectStaleKeys (objects : Table String Obj) (currentEpoch : UInt32) : List (String × UInt32) :=
  (objects.toList.filter fun e => e.2.epoch < currentEpoch).map fun e => (e.1, e.2.epoch)

def stepRekeying (w : Bucket S) (i : ℕ) (sks : List (UInt32 × Bytes)) (epoch : UInt32) (publicKey : Bytes) :
    (stale : List (String × UInt32)) → (loaded : Bool) → Bucket S
  | [], _ => w.set i (some (.pruning epoch publicKey w.cfg))
  | (key, oldEpoch) :: rest, false =>
    match sks.lookup oldEpoch, w.objects[key]? with
    | some sk, some obj =>
      if decrypts sk obj.publicKey then w.set i (some (.rekeying sks epoch publicKey ((key, oldEpoch) :: rest) true))
      else w.failRekey i
    | _, _ => w.failRekey i
  | (key, _) :: rest, true =>
    { w.set i (some (.rekeying sks epoch publicKey rest false)) with objects := w.objects.insert key ⟨epoch, publicKey⟩ }

def stepCall (w : Bucket S) (i : ℕ) : Call S → Bucket S
  | .update r seen snapshot =>
    match r.apply E seen snapshot with
    | .write cfg => { w.set i none with cfg := cfg }
    | _ => w.set i none
  | .put key epoch publicKey => { w.set i none with objects := w.objects.insert key ⟨epoch, publicKey⟩ }
  | .started sks =>
    match currentKey w.cfg with
    | none => w.failRekey i
    | some newest =>
      match Base64.decode newest.publicKeyB64 with
      | none => w.failRekey i
      | some publicKey =>
        w.set i (some (.rekeying sks newest.epoch publicKey (collectStaleKeys w.objects newest.epoch) false))
  | .rekeying sks epoch publicKey stale loaded => stepRekeying decrypts w i sks epoch publicKey stale loaded
  | .pruning epoch _ snapshot => { w.set i none with cfg := pruneTo epoch snapshot, running := false }

/-- the config write of the call, if it makes one, keeps the epochs in use -/
def KeptCall (w : Bucket S) : Call S → Prop
  | .update r seen snapshot => (∃ cfg, r.apply E seen snapshot = .write cfg) → ids snapshot.keys = ids w.cfg.keys
  | .pruning epoch _ snapshot => ids snapshot.keys = ids w.cfg.keys ∧ (∀ (key : String) obj, w.objects[key]? = some obj → obj.epoch = epoch) ∧
      ∀ j key epoch' publicKey, w.calls j = some (.put key epoch' publicKey) → epoch' = epoch
  | _ => True

def Kept (w : Bucket S) : BucketEv → Prop
  | .step i => ∀ c, w.calls i = some c → KeptCall E w c
  | .start .. => True

end Machine

variable {E : Env} {decrypts : Bytes → Bytes → Bool} {w w' : Bucket S} {i : ℕ} {epoch : UInt32} {publicKey : Bytes}

/-! ## The invariant -/

/-- the config has the epoch, with this public key -/
def HasKey (cfg : BucketConfig S) (epoch : UInt32) (publicKey : Bytes) : Prop :=
  ∃ b64, (epoch, b64) ∈ ids cfg.keys ∧ Base64.decode b64 = some publicKey

/-- the epoch a call is going to write objects with -/
def Call.target : Call S → Option (UInt32 × Bytes)
  | .put _ epoch publicKey | .rekeying _ epoch publicKey _ _ | .pruning epoch publicKey _ => some (epoch, publicKey)
  | .update .. | .started _ => none

def Call.isRekey : Call S → Bool
  | .started _ | .rekeying .. | .pruning .. => true
  | .update .. | .put .. => false

structure Bucket.Inv (w : Bucket S) : Prop where
  valid : Valid w.cfg
  objects : ∀ (key : String) obj, w.objects[key]? = some obj → HasKey w.cfg obj.epoch obj.publicKey
  target : ∀ i c epoch publicKey, w.calls i = some c → c.target = some (epoch, publicKey) → HasKey w.cfg epoch publicKey
  alone : ∀ i c j c', w.calls i = some c → w.calls j = some c' → c.isRekey = true → c'.isRekey = true → i = j
  running : w.running = false → ∀ i c, w.calls i = some c → c.isRekey = false

theorem HasKey.of_ids {cfg cfg' : BucketConfig S} (hids : ∀ id ∈ ids cfg.keys, id ∈ ids cfg'.keys) (h : HasKey cfg epoch publicKey) :
    HasKey cfg' epoch publicKey := by
  obtain ⟨b64, hmem, hdec⟩ := h
  exact ⟨b64, hids _ hmem, hdec⟩

theorem Bucket.set_calls {c : Option (Call S)} (j : ℕ) : (w.set i c).calls j = if j = i then c else w.calls j :=
  Function.update_apply ..

/-- a call takes the place of another; it is a rekey only if that was one, or none ran -/
theorem Bucket.Inv.set (hinv : w.Inv) (c : Option (Call S))
    (htarget : ∀ c', c = some c' → ∀ epoch publicKey, c'.target = some (epoch, publicKey) → HasKey w.cfg epoch publicKey)
    (hrekey : ∀ c', c = some c' → c'.isRekey = true → ∃ old, w.calls i = some old ∧ old.isRekey = true) : (w.set i c).Inv := by
  have hold : ∀ j c', (w.set i c).calls j = some c' → c'.isRekey = true → ∃ old, w.calls j = some old ∧ old.isRekey = true := by
    intro j c' hj hc'
    rw [set_calls] at hj
    split_ifs at hj with hji
    · rw [hji]
      exact hrekey c' hj hc'
    · exact ⟨c', hj, hc'⟩
  refine ⟨hinv.valid, hinv.objects, fun j c' epoch publicKey hj => ?_, fun j c' k c'' hj hk hc' hc'' => ?_, fun hrun j c' hj => ?_⟩
  · rw [set_calls] at hj
    split_ifs at hj with hji
    · exact htarget c' hj epoch publicKey
    · exact hinv.target j c' epoch publicKey hj
  · obtain ⟨old, hold₁, hr₁⟩ := hold j c' hj hc'
    obtain ⟨old', hold₂, hr₂⟩ := hold k c'' hk hc''
    exact hinv.alone j old k old' hold₁ hold₂ hr₁ hr₂
  · cases hc' : c'.isRekey with
    | false => rfl
    | true =>
      obtain ⟨old, hold₁, hr₁⟩ := hold j c' hj hc'
      rw [hinv.running hrun j old hold₁] at hr₁
      cases hr₁

theorem Bucket.Inv.clear (hinv : w.Inv) : (w.set i none).Inv :=
  hinv.set none (fun _ hc => nomatch hc) (fun _ hc => nomatch hc)

/-- one more object, with a key that is there -/
theorem Bucket.Inv.commit (hinv : w.Inv) (hkey : HasKey w.cfg epoch publicKey) (key : String) :
    Bucket.Inv { w with objects := w.objects.insert key ⟨epoch, publicKey⟩ } := by
  refine ⟨hinv.valid, fun key' obj hobj => ?_, hinv.target, hinv.alone, hinv.running⟩
  simp only [Table.getElem?_insert_iff] at hobj
  split_ifs at hobj
  · cases hobj
    exact hkey
  · exact hinv.objects key' obj hobj

/-- another config with at least the same epochs -/
theorem Bucket.Inv.write {cfg : BucketConfig S} (hinv : w.Inv) (hvalid : Valid cfg) (hids : ∀ id ∈ ids w.cfg.keys, id ∈ ids cfg.keys) :
    Bucket.Inv { w with cfg := cfg } :=
  ⟨hvalid, fun key obj hobj => (hinv.objects key obj hobj).of_ids hids,
    fun j c epoch publicKey hj hc => (hinv.target j c epoch publicKey hj hc).of_ids hids, hinv.alone, hinv.running⟩

theorem inv_start {cfg : BucketConfig S} (hv : Valid cfg) : (Bucket.start cfg).Inv := by
  refine ⟨hv, fun key obj hobj => ?_, fun i c _ _ hcall _ => ?_, fun i c _ _ hcall _ _ _ => ?_, fun _ i c hcall => ?_⟩
  · have hempty : (∅ : Table String Obj)[key]? = none := Std.TreeMap.getElem?_emptyc
    cases hempty.symm.trans hobj
  · cases hcall
  · cases hcall
  · cases hcall

def soloEnv : Env := ⟨fun _ => false, "b"⟩

end Y2q.BucketKeys
