/-
`y2qd --rotate-node-key` (`node_key_rotation.rs`): offline, resumable rotation of the node key, as a program with crashes
over everything it touches: the keystore directory (manifest, journal, user store, device registry), the object tree and
the metadata index.

`run` takes the operator's two keys; where a device registry exists it runs `runWith`, which recovers the old key from the
registry and rewrites `nk_wrap` last. `migrate` walks the tree, rebuilds the index and re-keys the user store. The order is
the journal first, then the walk, the index, the users, `nk_wrap`, the verifier, and the deletion of the journal last.

The tree walk is a parameter (`rotateTree` is the real one), so that what the rest relies on can be stated of it. The flock,
which keeps a second process out, and logging are left out. Loading a key from the environment or a file is an argument.
-/
import Mathlib.Tactic
import Y2q.Crypto.Keystore
import Y2q.Storage.Index
import Y2q.Storage.Rotation

namespace Y2q.NodeKeyRotation

open CrashLogic NodeKeys Keystore Index

/-- all persistent state a rotation touches -/
structure Node where
  keystore : KeystoreDir
  /-- `base_path` -/
  tree : Tree
  /-- `index_path` -/
  index : IndexFile

/-- what one run is given by its surroundings -/
structure Surroundings where
  oracle : Rotation.Oracle
  /-- `collect_obj_files`: every object file, in the order the directories list them -/
  objFiles : Tree → List (String × ShardFile)
  mem_objFiles : ∀ t dir p, (dir, p) ∈ objFiles t ↔ ∃ d, t.lookup dir = some d ∧ p ∈ d.objFiles
  nodup_objFiles : ∀ t, (objFiles t).Nodup
  devices : Devices.Surroundings

/-- a tree walk over the listed buckets -/
abbrev Walk := Surroundings → List String → Prog Tree Rotation.Error Rotation.RotationStats

def onKeystore {α : Type} (p : Prog KeystoreDir CryptoError α) : Prog Node CryptoError α :=
  Prog.zoom (·.keystore) (fun ks s => { s with keystore := ks }) p

def onDevices {α : Type} (p : Prog Devices.RegistryDisk CryptoError α) : Prog Node CryptoError α :=
  onKeystore (Prog.zoom (·.devices) (fun d ks => { ks with devices := d }) p)

def onIndex {α : Type} (p : Prog IndexFile String α) : Prog Node String α :=
  Prog.zoom (·.index) (fun f s => { s with index := f }) p

def onTree {α : Type} (p : Prog Tree Rotation.Error α) : Prog Node Rotation.Error α :=
  Prog.zoom (·.tree) (fun t s => { s with tree := t }) p

/-- prefix an error's message -/
def context {α : Type} (what : String) (p : Prog Node CryptoError α) : Prog Node String α :=
  Prog.mapError (fun e => what ++ e.message) p

def storageError (e : Rotation.Error) : String := s!"internal error in {e.operation} on {e.bucket}/{e.key}: {e.message}"

def JOURNAL_MISMATCH_MESSAGE : String :=
  "an interrupted rotation's journal names a different key pair than the one supplied; supply the exact same old and new keys to resume it"

def SAME_KEY_MESSAGE : String :=
  "--rotate-node-key: the new node key canonicalizes to the same 32 bytes as the old one"

def INDEX_MESSAGE : String :=
  "the metadata index opens under neither the old nor the new node key, and still exists — this is not a state an interrupted rotation can produce on its own; investigate before re-running (do not delete the index by hand)"

def REGISTRY_MESSAGE : String :=
  "the device registry opens under neither the old nor the new node key; restore the keystore directory from backup"

variable (E : Env) (H : Devices.Hashes)

/-! ## Migration -/

/-- `rotate_storage_tree` from one node key's derived keys to another's -/
def rotateTree (oldNk newNk : Bytes) : Walk := fun S buckets =>
  Rotation.rotateStorageTree E S.oracle buckets ⟨deriveStoreKeys E.toPrimitives oldNk, deriveStoreKeys E.toPrimitives newNk⟩

/-- the buckets to walk, listed by the index under the old key; `none` if an earlier run got past the walk -/
def bucketsNeedingWalk (oldNk newNk : Bytes) : Prog Node String (Option (List String)) := do
  match ← Prog.attempt (onIndex (openIndex E.toPrimitives oldNk)) with
  | .ok db => pure (some db.listBuckets)
  | .error _ =>
    match ← (Prog.attempt (onIndex (openIndex E.toPrimitives newNk)) : Prog Node String _) with
    | .ok _ => pure none
    | .error _ => do
      let s ← Prog.get
      if s.index.isSome then Prog.throw INDEX_MESSAGE else pure none

/-- delete the index and rebuild it from the sidecars under the new key -/
def rebuildIndex (S : Surroundings) (newNk : Bytes) : Prog Node String Unit := do
  Prog.modify fun s => { s with index := none }
  let _ ← onIndex (openIndex E.toPrimitives newNk)
  let s ← Prog.get
  Prog.mapError (fun e => s!"index rebuild failed: {e}")
    (onIndex (runRebuild E (deriveStoreKeys E.toPrimitives newNk) s.tree (S.objFiles s.tree)))

def walkTree (walk : Walk) (S : Surroundings) (buckets : Option (List String)) : Prog Node String Unit :=
  match buckets with
  | some buckets => do
    let _ ← Prog.mapError (fun e => s!"rotate storage tree: {storageError e}") (onTree (walk S buckets))
    pure ()
  | none => pure ()

def migrate (walk : Walk) (S : Surroundings) (oldNk newNk : Bytes) : Prog Node String Unit := do
  let buckets ← bucketsNeedingWalk E oldNk newNk
  walkTree walk S buckets
  rebuildIndex E S newNk
  context "re-key user store: " (onKeystore (rekeyUserStore E.toPrimitives oldNk newNk))

/-! ## Runs -/

def verifyOld (oldNk : Bytes) : Prog Node String Unit := do
  let s ← Prog.get
  Prog.ofExcept ((verifyNodeKey E.toPrimitives oldNk s.keystore).mapError fun e =>
    s!"verify old node key against keystore: {e.message}")

def readJournal : Prog Node String (Option RotationJournal) := do
  let s ← Prog.get
  Prog.ofExcept ((readRotationJournal s.keystore).mapError CryptoError.message)

def writeJournal (oldNk newNk : Bytes) : Prog Node String Unit :=
  context "" (onKeystore (writeRotationJournal E.toPrimitives oldNk newNk))

/-- flip the keystore verifier to the new key and drop the journal -/
def finish (newNk : Bytes) : Prog Node String Unit := do
  context "rewrite keystore verifier: " (onKeystore (rewriteVerifier E.toPrimitives newNk))
  context "delete rotation journal: " (onKeystore deleteRotationJournal)

/-- refuse a journal of another key pair; write one if there is none -/
def enterJournal (oldNk newNk : Bytes) : Prog Node String Unit := do
  match ← readJournal with
  | some j => if j = journalOf E.toPrimitives oldNk newNk then pure () else Prog.throw JOURNAL_MISMATCH_MESSAGE
  | none => writeJournal E oldNk newNk

/-- `run` without a device registry -/
def runOperator (walk : Walk) (S : Surroundings) (oldKey newKey : Except CryptoError Bytes) : Prog Node String Unit := do
  let oldNk ← Prog.ofExcept (oldKey.mapError fun e => s!"old node key: {e.message}")
  let newNk ← Prog.ofExcept (newKey.mapError fun e => s!"new node key (Y2QD_NEW_NODE_KEY / --new-node-key-file): {e.message}")
  if oldNk = newNk then Prog.throw SAME_KEY_MESSAGE
  else do
    verifyOld E oldNk
    enterJournal E oldNk newNk
    migrate E walk S oldNk newNk
    finish E newNk

/-- may this authority rotate -/
def allowed (out : Devices.UnlockOutcome) : Bool :=
  match out.authority with
  | .home _ _ => true
  | .emergency _ => true
  | .away _ _ _ => Devices.homeCount out.registry = 0

/-- seal the new key in the registry: the last step that needs the old one is behind -/
def rewriteRegistry (S : Surroundings) (out : Devices.UnlockOutcome) (newNk : Bytes) : Prog Node String Unit := do
  let _ ← context "rewrite device registry nk_wrap: "
    (onDevices (Devices.rewriteNkWrap E.toPrimitives H S.devices out.registry out.registryMasterKey newNk))
  pure ()

/-- the part of a device rotation that needs the old key -/
def rotateFrom (walk : Walk) (S : Surroundings) (out : Devices.UnlockOutcome) (newNk : Bytes) : Prog Node String Unit := do
  migrate E walk S out.nodeKey newNk
  rewriteRegistry E H S out newNk

/-- which branch the recovered key and the journal select; nothing is left to do if `nk_wrap` holds the new key already -/
def resume (walk : Walk) (S : Surroundings) (journal : Option RotationJournal) (out : Devices.UnlockOutcome) (newNk : Bytes) :
    Prog Node String Unit :=
  let resolvedV := Base64.encode (deriveNodeKeyVerifier E.toPrimitives out.nodeKey)
  let newV := Base64.encode (deriveNodeKeyVerifier E.toPrimitives newNk)
  match journal with
  | some j =>
    if j.newVerifierB64 ≠ newV then Prog.throw JOURNAL_MISMATCH_MESSAGE
    else if resolvedV = j.oldVerifierB64 then do
      verifyOld E out.nodeKey
      rotateFrom E H walk S out newNk
    else if resolvedV ≠ j.newVerifierB64 then Prog.throw REGISTRY_MESSAGE
    else pure ()
  | none =>
    if resolvedV = newV then Prog.throw SAME_KEY_MESSAGE
    else do
      verifyOld E out.nodeKey
      writeJournal E out.nodeKey newNk
      rotateFrom E H walk S out newNk

def unlockRegistry (S : Surroundings) : Prog Node String Devices.UnlockOutcome := do
  let out ← context "device unlock: " (onDevices (Devices.unlock E.toPrimitives H S.devices))
  if allowed out then pure out
  else Prog.throw (CryptoError.deviceAuthorityInsufficient "rotate-node-key"
    "a home device, an emergency code, or an away device on a registry with no home devices" out.authority.describe).message

def runWith (walk : Walk) (S : Surroundings) (newKey : Except CryptoError Bytes) : Prog Node String Unit := do
  -- the journal is read before any key comparison
  let journal ← readJournal
  let out ← unlockRegistry E H S
  let newNk ← Prog.ofExcept (newKey.mapError fun e => s!"new node key (Y2QD_NEW_NODE_KEY / --new-node-key-file): {e.message}")
  resume E H walk S journal out newNk
  finish E newNk

def run (walk : Walk) (S : Surroundings) (oldKey newKey : Except CryptoError Bytes) : Prog Node String Unit := do
  let s ← Prog.get
  if s.keystore.devices.isSome then runWith E H walk S newKey else runOperator E walk S oldKey newKey

end Y2q.NodeKeyRotation
