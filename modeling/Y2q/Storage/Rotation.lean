/-
Offline node-key rotation of the object tree (`storage/rotation.rs`), as a program with crashes.

`rotateStorageTree` takes the listed buckets one by one. In a bucket directory that still has its old name it re-seals
every object's sidecar under the new keys, writes the object under its new id (`.tmp`, then rename), unlinks the old file,
re-seals the config sidecar, and last renames the directory. Each write, rename and unlink is one atomic effect.

What the operating system and the random generator decide is an `Oracle`: the order in which a directory lists its files,
and the nonces. `debug_assert_eq!(new_meta.len(), meta_bytes.len())` is compiled out of a release build and is not modelled.
Errors keep the source's operation and message; the base path in front of a displayed path is left out.
-/
import Mathlib.Tactic
import Y2q.Core.Crash
import Y2q.Storage.Tree

namespace Y2q.Rotation

open Y2q CrashLogic Format NodeKeys

/-- `Error::InternalError` -/
structure Error where
  bucket : String
  key : String
  operation : String
  message : String
deriving DecidableEq, Repr

def internal (bucket message : String) : Error := ⟨bucket, "", "rotate-node-key", message⟩

structure RotationStats where
  bucketsMigrated : ℕ
  objectsMigrated : ℕ
  objectsAlreadyDone : ℕ
deriving DecidableEq, Repr

structure RotationKeys where
  old : StoreKeys
  new : StoreKeys

/-- what one run is given by its surroundings -/
structure Oracle where
  /-- `read_dir`: every entry once, in any order -/
  readDir : List ShardFile → List ShardFile
  readDir_perm : ∀ l, (readDir l).Perm l
  nonce : BucketDir → ShardFile → Nonce
  configNonce : BucketDir → Nonce

variable (E : Env)

/-! ## One object -/

/-- read the file, authenticate its header under the old key and split it into header, data and sidecar -/
def readSections (chk : Bytes) (bucket : String) (path : ShardFile) (d : BucketDir) :
    Except Error (Header × Bytes × Bytes) :=
  match d.files.lookup path with
  | none => .error (internal bucket "No such file or directory (os error 2)")
  | some bytes =>
    if bytes.length < HEADER_SIZE then .error (internal bucket "object file shorter than header")
    else
      match Header.decode E.toPrimitives (slice bytes 0 HEADER_SIZE) chk path.stem with
      | .error e => .error (internal bucket s!"decode header: {e.message}")
      | .ok h =>
        match h.checkTotalLen bytes.length with
        | .error e => .error (internal bucket e.message)
        | .ok () =>
          .ok (h, slice bytes h.dataOffset.toNat h.metaOffset, slice bytes h.metaOffset (h.metaOffset + h.metaLen.toNat))

/-- open a sidecar under the old key and parse it -/
def openSidecar (K : RotationKeys) (bucket : String) (path : ShardFile) (metaBytes : Bytes) :
    Except Error (Bytes × Metadata) :=
  match decryptMeta E.toPrimitives K.old.omk metaBytes path.stem with
  | .error _ => .error (internal bucket s!"object at {path.xx}/{path.yy}/{path.stem}.{path.ext}: metadata decrypts under neither the old nor the new node key — possible corruption")
  | .ok plainJson =>
    match E.parseMetadata plainJson with
    | .error e => .error (internal bucket s!"parse metadata: {e}")
    | .ok m => .ok (plainJson, m)

/-- the object under its new id: the old header fields re-MAC'd, the same data, the freshly sealed sidecar -/
def assemble (K : RotationKeys) (newId : String) (h : Header) (data newMeta : Bytes) : Bytes :=
  h.encode E.toPrimitives K.new.chk newId ++ List.replicate (h.dataOffset.toNat - HEADER_SIZE) 0 ++ data ++ newMeta ++
    h.encode E.toPrimitives K.new.chk newId

def migrateObjectFile (O : Oracle) (K : RotationKeys) (bucket : String) (path : ShardFile) : Prog BucketDir Error Bool := do
  let d ← Prog.get
  let (header, data, metaBytes) ← Prog.ofExcept (readSections E K.old.chk bucket path d)
  -- resume fast path: the sidecar already opens under the new key
  if (decryptMeta E.toPrimitives K.new.omk metaBytes path.stem).isOk then pure false
  else do
    let (plainJson, metadata) ← Prog.ofExcept (openSidecar E K bucket path metaBytes)
    let newId := encodeObjectId E.toPrimitives K.new.pathKey metadata.bucket metadata.key
    let newPath := objFile newId
    if newPath ∈ d.files then do
      if newPath ≠ path then Prog.modify fun d => { d with files := d.files.erase path }
      pure false
    else
      match encryptMeta E.toPrimitives K.new.omk plainJson newId META_PAD_BLOCK (O.nonce d path) with
      | .error e => Prog.throw (internal bucket s!"re-encrypt metadata: {e.message}")
      | .ok newMeta => do
        Prog.modify fun d => { d with files := d.files.insert newPath.tmp (assemble E K newId header data newMeta) }
        Prog.modify fun d => { d with files := d.files.rename newPath.tmp newPath }
        if newPath ≠ path then Prog.modify fun d => { d with files := d.files.erase path }
        pure true

/-! ## One bucket -/

def migrateBucketConfig (O : Oracle) (K : RotationKeys) (bucket : String) : Prog BucketDir Error Unit := do
  let d ← Prog.get
  match d.config with
  | none => pure ()
  | some bytes =>
    let newAad := encodeBucketDir E.toPrimitives K.new.pathKey bucket
    if (decryptMeta E.toPrimitives K.new.bck bytes newAad).isOk then pure ()
    else
      match decryptMeta E.toPrimitives K.old.bck bytes (encodeBucketDir E.toPrimitives K.old.pathKey bucket) with
      | .error _ => Prog.throw (internal bucket "bucket config decrypts under neither the old nor the new node key")
      | .ok plain =>
        match encryptMeta E.toPrimitives K.new.bck plain newAad BUCKET_CONFIG_PAD_BLOCK (O.configNonce d) with
        | .error e => Prog.throw (internal bucket s!"re-encrypt bucket config: {e.message}")
        | .ok newBytes => do
          Prog.modify fun d => { d with configTmp := some newBytes }
          Prog.modify fun d => { d with config := d.configTmp, configTmp := none }

def migrateOne (O : Oracle) (K : RotationKeys) (bucket : String) (stats : RotationStats) (path : ShardFile) :
    Prog BucketDir Error RotationStats := do
  let migrated ← migrateObjectFile E O K bucket path
  if migrated then pure { stats with objectsMigrated := stats.objectsMigrated + 1 }
  else pure { stats with objectsAlreadyDone := stats.objectsAlreadyDone + 1 }

/-- everything that happens inside the still old-named directory -/
def migrateBucketDir (O : Oracle) (K : RotationKeys) (bucket : String) (stats : RotationStats) :
    Prog BucketDir Error RotationStats := do
  let d ← Prog.get
  let stats ← (O.readDir d.objFiles).foldlM (migrateOne E O K bucket) stats
  migrateBucketConfig E O K bucket
  pure stats

/-! ## The tree -/

/-- run a program inside one bucket directory -/
def inDir {α : Type} (dir : String) (p : Prog BucketDir Error α) : Prog Tree Error α :=
  Prog.zoom (fun t : Tree => (t.lookup dir).getD ⟨none, none, ∅⟩) (fun d t => t.insert dir d) p

def renameDir (src dst : String) (t : Tree) : Tree :=
  match t.lookup src with
  | none => t
  | some d => (t.erase src).insert dst d

def rotateBucket (O : Oracle) (K : RotationKeys) (stats : RotationStats) (bucket : String) :
    Prog Tree Error RotationStats := do
  let t ← Prog.get
  let oldDir := encodeBucketDir E.toPrimitives K.old.pathKey bucket
  let newDir := encodeBucketDir E.toPrimitives K.new.pathKey bucket
  if newDir ∈ t then pure stats
  else if oldDir ∉ t then pure stats
  else do
    let stats ← inDir oldDir (migrateBucketDir E O K bucket stats)
    Prog.modify (renameDir oldDir newDir)
    pure { stats with bucketsMigrated := stats.bucketsMigrated + 1 }

def rotateStorageTree (O : Oracle) (buckets : List String) (K : RotationKeys) : Prog Tree Error RotationStats :=
  buckets.foldlM (rotateBucket E O K) ⟨0, 0, 0⟩

end Y2q.Rotation
