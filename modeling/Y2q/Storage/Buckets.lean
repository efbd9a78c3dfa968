/-
Requests on an open store, one after another: create and delete a bucket, put and delete an object
(`storage/filesystem.rs`).

A `Store` is the object tree and the tables of the open index. Of a request the model keeps what decides the files and the
rows: the names, the data, the metadata JSON that the request serializes to, the header flags and the nonce. Requests that come
one after another find every per-object lock free. File-system and index errors are left out: `put` and `delete` log an index
error and go on, the others return it.

- `createBucket`: a directory that exists already is not registered.
- `put`: makes the bucket's directory if it is missing and does not register the bucket.
- `deleteBucket`: drops the rows, the directory and the registration.
- `SoundStore`: each object file lies where its own metadata says and is readable, the rows are those of the files, and a registered
  bucket has a directory. `run_sound`: every sequence of requests keeps it.
-/
import Mathlib.Tactic
import Y2q.Core.Run
import Y2q.Storage.Index
import Y2q.Storage.RotationResume

namespace Y2q.Buckets

open Format NodeKeys Index Rotation

/-! ## Model -/

inductive Error where
  | invalidBucket (bucket : String)
  | invalidKey (key : String)
  | notFound (bucket key : String)
  | internalError (bucket key operation message : String)
deriving DecidableEq, Repr

/-- `char::is_alphanumeric`; beyond ASCII it is Unicode's table -/
structure CharTable where
  isAlphanumeric : Char → Bool
  ascii : ∀ c : Char, c.val < 128 → isAlphanumeric c = c.isAlphanum

theorem isAlphanum_ascii (c : Char) (_ : c.val < 128) : c.isAlphanum = c.isAlphanum := rfl

def RESERVED_BUCKETS : List String := ["api"]

def MAX_KEY_LEN : ℕ := 1024

def validateBucket (U : CharTable) (bucket : String) : Except Error Unit :=
  let lower := String.ofList (bucket.toList.map Char.toLower)
  if bucket.isEmpty ∨ '/' ∈ bucket.toList ∨ '\\' ∈ bucket.toList ∨ ['.', '.'] <:+: bucket.toList ∨
      ¬ bucket.toList.all (fun c => U.isAlphanumeric c || c == '-' || c == '_') ∨ lower ∈ RESERVED_BUCKETS then
    .error (.invalidBucket bucket)
  else .ok ()

def validateKey (key : String) : Except Error Unit :=
  if key.isEmpty ∨ '\x00' ∈ key.toList ∨ key.utf8ByteSize > MAX_KEY_LEN then .error (.invalidKey key)
  else if (key.toList.splitOn '/').any (fun part => part = [] ∨ part = ['.'] ∨ part = ['.', '.']) then .error (.invalidKey key)
  else .ok ()

structure Store where
  tree : Tree
  db : IndexDb

/-- a put: what it stores, and the metadata as it is serialized -/
structure PutRequest (E : Env) where
  bucket : String
  key : String
  data : Bytes
  json : Bytes
  flags : UInt16
  nonce : Nonce
  /-- a slice holds at most `isize::MAX` bytes -/
  length_data : data.length < 2 ^ 63
  /-- the JSON parses back to the record it was made from -/
  parses : E.parseMetadata json = .ok ⟨bucket, key⟩
  /-- the header has 32 bits for the sealed length -/
  length_json : sealedLen json.length META_PAD_BLOCK < 2 ^ 32

section Model

variable (E : Env) (U : CharTable) (K : StoreKeys)

/-- `create_bucket_impl` -/
def createBucket (bucket : String) (s : Store) : Except Error Bool × Store :=
  match validateBucket U bucket with
  | .error e => (.error e, s)
  | .ok () =>
    let dir := encodeBucketDir E.toPrimitives K.pathKey bucket
    if dir ∈ s.tree then (.ok false, s)
    else (.ok true, ⟨s.tree.insert dir ⟨none, none, ∅⟩, s.db.registerBucket bucket⟩)

/-- the bucket's directory, made if it is missing -/
def bucketDir (t : Tree) (dir : String) : BucketDir := (t.lookup dir).getD ⟨none, none, ∅⟩

def put (r : PutRequest E) (s : Store) : Except Error Bool × Store :=
  match validateBucket U r.bucket, validateKey r.key with
  | .error e, _ => (.error e, s)
  | .ok (), .error e => (.error e, s)
  | .ok (), .ok () =>
    let dir := encodeBucketDir E.toPrimitives K.pathKey r.bucket
    let id := encodeObjectId E.toPrimitives K.pathKey r.bucket r.key
    let d := bucketDir s.tree dir
    match encryptMeta E.toPrimitives K.omk r.json id META_PAD_BLOCK r.nonce with
    | .error e => (.error (.internalError r.bucket r.key "put" e.message), { s with tree := s.tree.insert dir d })
    | .ok sidecar =>
      let header : Header := ⟨UInt64.ofNat r.data.length, UInt32.ofNat sidecar.length, 64, r.flags, VERSION⟩
      let files := (d.files.insert (objFile id).tmp (container E.toPrimitives K id header r.data sidecar))
      (.ok (objFile id ∈ d.files),
        ⟨s.tree.insert dir { d with files := Files.rename files (objFile id).tmp (objFile id) }, s.db.upsert ⟨r.bucket, r.key⟩⟩)

/-- the checks `delete` makes on the file before it unlinks it -/
def checkHeader (bucket key id : String) (bytes : Bytes) : Except Error Unit :=
  if bytes.length < HEADER_SIZE then .error (.internalError bucket key "delete" "read header: early eof")
  else
    match Header.decode E.toPrimitives (slice bytes 0 HEADER_SIZE) K.chk id with
    | .error e => .error (.internalError bucket key "delete" s!"decode header: {e.message}")
    | .ok h =>
      match h.checkTotalLen bytes.length with
      | .error e => .error (.internalError bucket key "delete" e.message)
      | .ok () => .ok ()

def delete (bucket key : String) (s : Store) : Except Error Unit × Store :=
  match validateBucket U bucket, validateKey key with
  | .error e, _ => (.error e, s)
  | .ok (), .error e => (.error e, s)
  | .ok (), .ok () =>
    let dir := encodeBucketDir E.toPrimitives K.pathKey bucket
    let id := encodeObjectId E.toPrimitives K.pathKey bucket key
    match (s.tree.lookup dir).bind fun d => (d.files.lookup (objFile id)).map fun bytes => (d, bytes) with
    | none => (.error (.notFound bucket key), s)
    | some (d, bytes) =>
      match checkHeader E K bucket key id bytes with
      | .error e => (.error e, s)
      | .ok () => (.ok (), ⟨s.tree.insert dir { d with files := d.files.erase (objFile id) }, s.db.remove bucket key⟩)

/-- `delete_bucket_impl` -/
def deleteBucket (bucket : String) (s : Store) : Except Error ℕ × Store :=
  match validateBucket U bucket with
  | .error e => (.error e, s)
  | .ok () =>
    let dir := encodeBucketDir E.toPrimitives K.pathKey bucket
    let keys := (s.db.objects.filter fun r => r.bucket = bucket).map (·.key)
    let db := keys.foldl (fun db key => db.remove bucket key) s.db
    if dir ∉ s.tree ∧ keys.length = 0 then (.error (.notFound bucket ""), { s with db := db })
    else (.ok keys.length, ⟨s.tree.erase dir, db.unregisterBucket bucket⟩)

inductive Op (E : Env) where
  | createBucket (bucket : String)
  | put (r : PutRequest E)
  | delete (bucket key : String)
  | deleteBucket (bucket : String)

def Op.bucket : Op E → String
  | .createBucket b => b
  | .put r => r.bucket
  | .delete b _ => b
  | .deleteBucket b => b

def step (s : Store) : Op E → Store
  | .createBucket b => (createBucket E U K b s).2
  | .put r => (put E U K r s).2
  | .delete b k => (delete E U K b k s).2
  | .deleteBucket b => (deleteBucket E U K b s).2

end Model

/-! ## Sound stores -/

section Sound

variable (E : Env) (K : RotationKeys) (all keys : List String)

def oldPath (b k : String) : ShardFile := objFile (encodeObjectId E.toPrimitives K.old.pathKey b k)

def newPath (b k : String) : ShardFile := objFile (encodeObjectId E.toPrimitives K.new.pathKey b k)

/-- no two keyed hashes of the names in play collide, under one path key or across the two -/
structure NamesApart : Prop where
  dirNe : ∀ b ∈ all, ∀ b' ∈ all, oldDir E K b ≠ newDir E K b'
  oldDirInj : ∀ b ∈ all, ∀ b' ∈ all, oldDir E K b = oldDir E K b' → b = b'
  newDirInj : ∀ b ∈ all, ∀ b' ∈ all, newDir E K b = newDir E K b' → b = b'
  pathNe : ∀ b ∈ all, ∀ k ∈ keys, ∀ k' ∈ keys, newPath E K b k ≠ oldPath E K b k'
  oldPathInj : ∀ b ∈ all, ∀ k ∈ keys, ∀ k' ∈ keys, oldPath E K b k = oldPath E K b k' → k = k'
  newPathInj : ∀ b ∈ all, ∀ k ∈ keys, ∀ k' ∈ keys, newPath E K b k = newPath E K b k' → k = k'

/-- every `.obj` file of the directory is readable and lies where its own metadata says -/
structure Placed (b : String) (d : BucketDir) : Prop where
  objects : ∀ p ∈ d.objFiles, ∃ k ∈ keys, p = oldPath E K b k ∧ ∃ o, Stored E K d p o ∧ o.md = ⟨b, k⟩
  config : ∀ c ∈ d.config, ∃ plain, plain.length < 2 ^ 32 ∧
    decryptMeta E.toPrimitives K.old.bck c (encodeBucketDir E.toPrimitives K.old.pathKey b) = .ok plain

/-- the object's file is there -/
def Holds (t : Tree) (b k : String) : Prop := ∃ d ∈ t.lookup (oldDir E K b), oldPath E K b k ∈ d.files

structure SoundStore (U : CharTable) (s : Store) : Prop where
  dirs : ∀ n ∈ s.tree, ∃ b ∈ all, n = oldDir E K b
  placed : ∀ b ∈ all, ∀ d ∈ s.tree.lookup (oldDir E K b), Placed E K keys b d
  rows : ∀ m : Metadata, m ∈ s.db.objects ↔ m.bucket ∈ all ∧ m.key ∈ keys ∧ Holds E K s.tree m.bucket m.key
  registered : ∀ b ∈ s.db.buckets, b ∈ all ∧ oldDir E K b ∈ s.tree
  valid : ∀ b ∈ all, oldDir E K b ∈ s.tree → validateBucket U b = .ok ()

/-- the request's names are among those in play -/
def Op.InPlay : Op E → Prop
  | .createBucket b => b ∈ all
  | .put r => r.bucket ∈ all ∧ r.key ∈ keys
  | .delete b k => b ∈ all ∧ k ∈ keys
  | .deleteBucket b => b ∈ all

variable {E K all keys} {U : CharTable} {s : Store} {t : Tree} {db : IndexDb} {b k : String} {d d' : BucketDir}

/-- a request changes the files, rows and registration of one bucket -/
theorem SoundStore.update (hs : SoundStore E K all keys U s) (hn : NamesApart E K all keys) (hb : b ∈ all)
    (hother : ∀ n, n ≠ oldDir E K b → t.lookup n = s.tree.lookup n)
    (hplaced : ∀ d ∈ t.lookup (oldDir E K b), Placed E K keys b d)
    (hrowsOther : ∀ m : Metadata, m.bucket ≠ b → (m ∈ db.objects ↔ m ∈ s.db.objects))
    (hrows : ∀ k, (⟨b, k⟩ : Metadata) ∈ db.objects ↔ k ∈ keys ∧ Holds E K t b k)
    (hregOther : ∀ b' ∈ db.buckets, b' ≠ b → b' ∈ s.db.buckets) (hreg : b ∈ db.buckets → oldDir E K b ∈ t)
    (hvalid : oldDir E K b ∈ t → validateBucket U b = .ok ()) :
    SoundStore E K all keys U ⟨t, db⟩ := by
  have hlookup : ∀ b' ∈ all, b' ≠ b → t.lookup (oldDir E K b') = s.tree.lookup (oldDir E K b') :=
    fun b' hb' hne => hother _ fun he => hne (hn.oldDirInj b' hb' b hb he)
  have hdir : ∀ b' ∈ all, b' ≠ b → (oldDir E K b' ∈ t ↔ oldDir E K b' ∈ s.tree) := by
    intro b' hb' hne
    rw [← Finmap.lookup_isSome, hlookup b' hb' hne, Finmap.lookup_isSome]
  refine ⟨fun n hmem => ?_, fun b' hb' d hd => ?_, fun m => ?_, fun b' hb' => ?_, fun b' hb' hmem => ?_⟩
  · by_cases he : n = oldDir E K b
    · exact ⟨b, hb, he⟩
    · apply hs.dirs
      rw [← Finmap.lookup_isSome, ← hother n he, Finmap.lookup_isSome]
      exact hmem
  · by_cases he : b' = b
    · subst he
      exact hplaced d hd
    · rw [hlookup b' hb' he] at hd
      exact hs.placed b' hb' d hd
  · obtain ⟨b', k'⟩ := m
    by_cases he : b' = b
    · subst he
      simp only [hrows k', hb, true_and]
    · rw [hrowsOther _ he, hs.rows]
      simp only
      refine and_congr_right fun hb' => and_congr_right fun _ => ?_
      unfold Holds
      rw [hlookup b' hb' he]
  · by_cases he : b' = b
    · subst he
      exact ⟨hb, hreg hb'⟩
    · obtain ⟨hmem, hold⟩ := hs.registered b' (hregOther b' hb' he)
      exact ⟨hmem, (hdir b' hmem he).2 hold⟩
  · by_cases he : b' = b
    · subst he
      exact hvalid hmem
    · exact hs.valid b' hb' ((hdir b' hb' he).1 hmem)

theorem stored_congr {p : ShardFile} {o : Obj} (h : Stored E K d p o) (he : d'.files.lookup p = d.files.lookup p) :
    Stored E K d' p o := ⟨he.trans h.file, h.ext, h.parts, h.parse⟩

theorem Holds.of_lookup (hd : t.lookup (oldDir E K b) = some d) : Holds E K t b k ↔ oldPath E K b k ∈ d.files := by
  constructor
  · rintro ⟨d', hd', hmem⟩
    cases (Option.mem_unique hd' hd : d' = d)
    exact hmem
  · exact fun h => ⟨d, hd, h⟩

theorem Holds.of_absent (hd : t.lookup (oldDir E K b) = none) : ¬ Holds E K t b k := by
  rintro ⟨d, hd', -⟩
  rw [hd] at hd'
  cases hd'

/-- the rows of one bucket in a sound store, by its directory -/
theorem SoundStore.row (hs : SoundStore E K all keys U s) (hb : b ∈ all) (k : String) :
    (⟨b, k⟩ : Metadata) ∈ s.db.objects ↔ k ∈ keys ∧ Holds E K s.tree b k := by
  rw [hs.rows]
  simp only [hb, true_and]

theorem placed_empty : Placed E K keys b ⟨none, none, ∅⟩ := by
  refine ⟨fun p hp => ?_, fun c hc => ?_⟩
  · cases hp
  · cases hc

/-! ### Create -/

theorem createBucket_sound (hs : SoundStore E K all keys U s) (hn : NamesApart E K all keys) (hb : b ∈ all) :
    SoundStore E K all keys U (createBucket E U K.old b s).2 := by
  unfold createBucket
  cases hvalid : validateBucket U b with
  | error e => exact hs
  | ok _ =>
    simp only
    split_ifs with hdir
    · exact hs
    · have habsent : s.tree.lookup (oldDir E K b) = none := Finmap.lookup_eq_none.2 hdir
      refine hs.update hn hb (fun n hne => Finmap.lookup_insert_of_ne _ hne) ?_ ?_ ?_ ?_ ?_ fun _ => hvalid
      · intro d hd
        cases (Option.mem_unique hd (Finmap.lookup_insert s.tree) : d = ⟨none, none, ∅⟩)
        exact placed_empty
      · intro m _
        unfold IndexDb.registerBucket
        split_ifs <;> rfl
      · intro k
        have hrow : (⟨b, k⟩ : Metadata) ∉ (s.db.registerBucket b).objects := by
          have hsame : (s.db.registerBucket b).objects = s.db.objects := by
            unfold IndexDb.registerBucket
            split_ifs <;> rfl
          rw [hsame, hs.row hb]
          exact fun h => Holds.of_absent habsent h.2
        have hheld : ¬ Holds E K (s.tree.insert (oldDir E K b) ⟨none, none, ∅⟩) b k := by
          rw [Holds.of_lookup (Finmap.lookup_insert _)]
          exact AList.notMem_empty _
        exact iff_of_false hrow fun h => hheld h.2
      · intro b' hb' hne
        unfold IndexDb.registerBucket at hb'
        split_ifs at hb'
        · exact hb'
        · rcases List.mem_append.1 hb' with h | h
          · exact h
          · exact absurd (List.mem_singleton.1 h) hne
      · intro _
        exact Finmap.mem_insert.2 (Or.inl rfl)

/-! ### Put -/

/-- the directory with one object's file replaced -/
structure FileReplaced (p : ShardFile) (d d' : BucketDir) : Prop where
  config : d'.config = d.config
  files : ∀ q, q.ext = "obj" → q ≠ p → d'.files.lookup q = d.files.lookup q

theorem FileReplaced.mem {p q : ShardFile} (h : FileReplaced p d d') (hext : q.ext = "obj") (hne : q ≠ p) :
    q ∈ d'.files ↔ q ∈ d.files := by
  rw [← AList.lookup_isSome, h.files q hext hne, AList.lookup_isSome]

theorem FileReplaced.placed (h : FileReplaced (oldPath E K b k) d d') (hd : Placed E K keys b d) (hk : k ∈ keys)
    (hnew : oldPath E K b k ∈ d'.files → ∃ o, Stored E K d' (oldPath E K b k) o ∧ o.md = ⟨b, k⟩) : Placed E K keys b d' := by
  refine ⟨fun p hp => ?_, by rw [h.config]; exact hd.config⟩
  obtain ⟨hmem, hext⟩ := BucketDir.mem_objFiles.1 hp
  by_cases he : p = oldPath E K b k
  · subst he
    exact ⟨k, hk, rfl, hnew hmem⟩
  · obtain ⟨k', hk', hpath, o, ho, hmd⟩ := hd.objects p (BucketDir.mem_objFiles.2 ⟨(h.mem hext he).1 hmem, hext⟩)
    exact ⟨k', hk', hpath, o, stored_congr ho (h.files p hext he), hmd⟩

/-- written to the staging name and renamed -/
theorem fileReplaced_write (p : ShardFile) (x : Bytes) :
    FileReplaced p d { d with files := Files.rename (d.files.insert p.tmp x) p.tmp p } := by
  refine ⟨rfl, fun q hext hne => ?_⟩
  exact (lookup_rename_insert d.files x).2 q (ne_tmp hext) hne

/-- the bucket's directory as a put finds or makes it -/
theorem placed_bucketDir (hs : SoundStore E K all keys U s) (hb : b ∈ all) : Placed E K keys b (bucketDir s.tree (oldDir E K b)) := by
  unfold bucketDir
  cases hd : s.tree.lookup (oldDir E K b) with
  | none => exact placed_empty
  | some d => exact hs.placed b hb d hd

theorem mem_bucketDir : oldPath E K b k ∈ (bucketDir s.tree (oldDir E K b)).files ↔ Holds E K s.tree b k := by
  unfold bucketDir
  cases hd : s.tree.lookup (oldDir E K b) with
  | none => exact iff_of_false (AList.notMem_empty _) (Holds.of_absent hd)
  | some d => exact (Holds.of_lookup hd).symm

/-- the file a put writes, read back -/
theorem stored_put {r : PutRequest E} {sidecar : Bytes} {p : ShardFile}
    (hseal : encryptMeta E.toPrimitives K.old.omk r.json p.stem META_PAD_BLOCK r.nonce = .ok sidecar) (hext : p.ext = "obj")
    (hfile : d.files.lookup p = some (container E.toPrimitives K.old p.stem
      ⟨UInt64.ofNat r.data.length, UInt32.ofNat sidecar.length, 64, r.flags, VERSION⟩ r.data sidecar)) :
    ∃ o, Stored E K d p o ∧ o.md = ⟨r.bucket, r.key⟩ := by
  have hside : sidecar.length < 2 ^ 32 := by rw [length_encryptMeta hseal]; exact r.length_json
  have hdata := r.length_data
  have hlen : (UInt64.ofNat r.data.length).toNat = r.data.length := by
    rw [UInt64.toNat_ofNat']
    exact Nat.mod_eq_of_lt (by omega)
  have hmeta : (UInt32.ofNat sidecar.length).toNat = sidecar.length := by
    rw [UInt32.toNat_ofNat']
    exact Nat.mod_eq_of_lt hside
  refine ⟨⟨_, _, r.data, r.json, ⟨r.bucket, r.key⟩⟩, ⟨hfile, hext, parts_container ⟨rfl, le_rfl⟩ hlen.symm hmeta.symm ?_
    (decryptMeta_encryptMeta hseal), r.parses⟩, rfl⟩
  rw [hlen, hmeta]
  change 64 + r.data.length + sidecar.length + 64 < 2 ^ 64
  omega

theorem mem_upsert {m m' : Metadata} : m' ∈ (db.upsert m).objects ↔ m' = m ∨ m' ∈ db.objects := by
  obtain ⟨b, k⟩ := m
  obtain ⟨b', k'⟩ := m'
  simp only [IndexDb.upsert, List.mem_append, List.mem_filter, List.mem_singleton, decide_eq_true_eq, Metadata.mk.injEq]
  tauto

theorem mem_remove {m : Metadata} : m ∈ (db.remove b k).objects ↔ m ∈ db.objects ∧ m ≠ ⟨b, k⟩ := by
  obtain ⟨b', k'⟩ := m
  simp only [IndexDb.remove, List.mem_filter, decide_eq_true_eq, ne_eq, Metadata.mk.injEq]

/-- a put or a delete changes one file and one row -/
theorem SoundStore.replace (hs : SoundStore E K all keys U s) (hn : NamesApart E K all keys) (hb : b ∈ all) (hk : k ∈ keys)
    (hf : FileReplaced (oldPath E K b k) (bucketDir s.tree (oldDir E K b)) d)
    (hnew : oldPath E K b k ∈ d.files → ∃ o, Stored E K d (oldPath E K b k) o ∧ o.md = ⟨b, k⟩)
    (hrows : ∀ m : Metadata, m ≠ ⟨b, k⟩ → (m ∈ db.objects ↔ m ∈ s.db.objects))
    (hrow : (⟨b, k⟩ : Metadata) ∈ db.objects ↔ oldPath E K b k ∈ d.files) (hreg : db.buckets = s.db.buckets)
    (hvalid : validateBucket U b = .ok ()) :
    SoundStore E K all keys U ⟨s.tree.insert (oldDir E K b) d, db⟩ := by
  refine hs.update hn hb (fun n hne => Finmap.lookup_insert_of_ne _ hne) ?_ ?_ ?_ ?_ ?_ fun _ => hvalid
  · intro d' hd'
    cases (Option.mem_unique hd' (Finmap.lookup_insert s.tree) : d' = d)
    exact hf.placed (placed_bucketDir hs hb) hk hnew
  · intro m hne
    exact hrows m fun he => hne (by rw [he])
  · intro k'
    rw [Holds.of_lookup (Finmap.lookup_insert _)]
    by_cases he : k' = k
    · subst he
      simp only [hrow, hk, true_and]
    · rw [hrows ⟨b, k'⟩ (fun h => he (by cases h; rfl)), hs.row hb]
      refine and_congr_right fun hk' => ?_
      rw [hf.mem rfl fun h => he (hn.oldPathInj b hb k' hk' k hk h), mem_bucketDir]
  · intro b' hb' _
    rw [← hreg]
    exact hb'
  · intro _
    exact Finmap.mem_insert.2 (Or.inl rfl)

theorem put_sound (hs : SoundStore E K all keys U s) (hn : NamesApart E K all keys) (r : PutRequest E) (hb : r.bucket ∈ all)
    (hk : r.key ∈ keys) : SoundStore E K all keys U (put E U K.old r s).2 := by
  unfold put
  cases hvalid : validateBucket U r.bucket with
  | error e => exact hs
  | ok _ =>
    cases validateKey r.key with
    | error e => exact hs
    | ok _ =>
      simp only
      have hjson : r.json.length < 2 ^ 32 := by
        have h1 := r.length_json
        have h2 := le_paddedLen r.json.length META_PAD_BLOCK
        unfold sealedLen at h1
        omega
      obtain ⟨sidecar, hseal⟩ := @encryptMeta_ok E.toPrimitives K.old.omk _
        (encodeObjectId E.toPrimitives K.old.pathKey r.bucket r.key) META_PAD_BLOCK r.nonce hjson
      rw [hseal]
      refine hs.replace hn hb hk (fileReplaced_write _ _) (fun _ => ?_) (fun m hne => ?_) ?_ rfl hvalid
      · exact stored_put hseal rfl (lookup_rename_insert _ _).1
      · rw [mem_upsert]
        exact or_iff_right hne
      · refine iff_of_true (mem_upsert.2 (Or.inl rfl)) ?_
        rw [← AList.lookup_isSome]
        exact Option.isSome_iff_exists.2 ⟨_, (lookup_rename_insert _ _).1⟩

/-! ### Delete -/

theorem delete_sound (hs : SoundStore E K all keys U s) (hn : NamesApart E K all keys) (hb : b ∈ all) (hk : k ∈ keys) :
    SoundStore E K all keys U (delete E U K.old b k s).2 := by
  unfold delete
  cases hvalid : validateBucket U b with
  | error e => exact hs
  | ok _ =>
    cases validateKey k with
    | error e => exact hs
    | ok _ =>
      simp only
      cases hfile : (s.tree.lookup (oldDir E K b)).bind fun d =>
          (d.files.lookup (oldPath E K b k)).map fun bytes => (d, bytes) with
      | none =>
        rw [show ((s.tree.lookup (encodeBucketDir E.toPrimitives K.old.pathKey b)).bind fun d =>
          (d.files.lookup (objFile (encodeObjectId E.toPrimitives K.old.pathKey b k))).map fun bytes => (d, bytes)) = none from hfile]
        exact hs
      | some x =>
        obtain ⟨d, bytes⟩ := x
        rw [show ((s.tree.lookup (encodeBucketDir E.toPrimitives K.old.pathKey b)).bind fun d =>
          (d.files.lookup (objFile (encodeObjectId E.toPrimitives K.old.pathKey b k))).map fun bytes => (d, bytes)) =
            some (d, bytes) from hfile]
        simp only
        split
        · exact hs
        · obtain ⟨d', hd', hmap⟩ := Option.bind_eq_some_iff.1 hfile
          obtain ⟨bytes', -, hpair⟩ := Option.map_eq_some_iff.1 hmap
          cases hpair
          have hdir : bucketDir s.tree (oldDir E K b) = d := by unfold bucketDir; rw [hd']; rfl
          have hgone : oldPath E K b k ∉ d.files.erase (oldPath E K b k) := fun h => (AList.mem_erase.1 h).1 rfl
          refine hs.replace hn hb hk ?_ (fun h => absurd h hgone) (fun m hne => ?_) ?_ rfl hvalid
          · rw [hdir]
            exact ⟨rfl, fun q _ hne => AList.lookup_erase_ne hne⟩
          · rw [mem_remove]
            exact and_iff_left hne
          · exact iff_of_false (fun h => (mem_remove.1 h).2 rfl) hgone

/-! ### Delete a bucket -/

theorem mem_removeAll {l : List String} {m : Metadata} :
    m ∈ (l.foldl (fun db key => db.remove b key) db).objects ↔ m ∈ db.objects ∧ (m.bucket = b → m.key ∉ l) := by
  induction l generalizing db with
  | nil => simp
  | cons x l ih =>
    obtain ⟨b', k'⟩ := m
    simp only [List.foldl_cons, ih, mem_remove, ne_eq, Metadata.mk.injEq, List.mem_cons]
    tauto

theorem buckets_removeAll (l : List String) : (l.foldl (fun db key => IndexDb.remove b key db) db).buckets = db.buckets := by
  induction l generalizing db with
  | nil => rfl
  | cons x l ih => exact ih

theorem deleteBucket_sound (hs : SoundStore E K all keys U s) (hn : NamesApart E K all keys) (hb : b ∈ all) :
    SoundStore E K all keys U (deleteBucket E U K.old b s).2 := by
  unfold deleteBucket
  cases hvalid : validateBucket U b with
  | error e => exact hs
  | ok _ =>
    simp only
    set l := (s.db.objects.filter fun r => r.bucket = b).map (·.key) with hl
    have hmem : ∀ k, k ∈ l ↔ (⟨b, k⟩ : Metadata) ∈ s.db.objects := by
      intro k
      simp only [hl, List.mem_map, List.mem_filter, decide_eq_true_eq]
      constructor
      · rintro ⟨m, ⟨hm, rfl⟩, rfl⟩
        exact hm
      · exact fun h => ⟨_, ⟨h, rfl⟩, rfl⟩
    split_ifs with hnone
    · -- nothing is there, so nothing was removed
      have hnil : l = [] := List.length_eq_zero_iff.1 hnone.2
      rw [hnil]
      exact hs
    · have hrowsGone : ∀ k, (⟨b, k⟩ : Metadata) ∉ (l.foldl (fun db key => db.remove b key) s.db).objects := by
        intro k h
        obtain ⟨h1, h2⟩ := mem_removeAll.1 h
        exact h2 rfl ((hmem k).2 h1)
      refine hs.update hn hb (fun n hne => Finmap.lookup_erase_ne hne) ?_ ?_ ?_ ?_ ?_ fun _ => hvalid
      · intro d hd
        have habsent : (s.tree.erase (oldDir E K b)).lookup (oldDir E K b) = none := Finmap.lookup_erase _ _
        cases habsent.symm.trans hd
      · intro m hne
        change m ∈ (l.foldl (fun db key => IndexDb.remove b key db) s.db).objects ↔ _
        rw [mem_removeAll]
        exact and_iff_left fun h => absurd h hne
      · intro k
        exact iff_of_false (hrowsGone k) fun h => Holds.of_absent (Finmap.lookup_erase _ _) h.2
      · intro b' hb' _
        have := List.mem_of_mem_filter hb'
        rwa [buckets_removeAll] at this
      · intro hb'
        have := List.of_mem_filter hb'
        exact absurd rfl (of_decide_eq_true this)

/-! ### Runs -/

theorem step_sound (hn : NamesApart E K all keys) (s : Store) (op : Op E) (hs : SoundStore E K all keys U s)
    (hop : op.InPlay E all keys) : SoundStore E K all keys U (step E U K.old s op) := by
  cases op with
  | createBucket b => exact createBucket_sound hs hn hop
  | put r => exact put_sound hs hn r hop.1 hop.2
  | delete b k => exact delete_sound hs hn hop.1 hop.2
  | deleteBucket b => exact deleteBucket_sound hs hn hop

/-- **Every sequence of requests keeps the store sound.** -/
theorem run_sound (hn : NamesApart E K all keys) {ops : List (Op E)} (hops : ∀ op ∈ ops, op.InPlay E all keys)
    (hs : SoundStore E K all keys U s) : SoundStore E K all keys U (Run.run (step E U K.old) s ops) := by
  induction ops generalizing s with
  | nil => exact hs
  | cons op ops ih =>
    rw [Run.run_cons]
    exact ih (fun op' h => hops op' (List.mem_cons_of_mem _ h)) (step_sound hn s op hs (hops op List.mem_cons_self))

/-- a sound store's tree can be rotated -/
theorem SoundStore.soundTree (hs : SoundStore E K all keys U s) (hn : NamesApart E K all keys) : SoundTree E K all s.tree := by
  refine ⟨fun b hb d hd => ?_, fun b hb hmem => ?_, hn.dirNe, hn.oldDirInj, hn.newDirInj⟩
  · have hplaced := hs.placed b hb d hd
    have hat : ∀ p o, Stored E K d p o → ∃ k ∈ keys, p = oldPath E K b k ∧ newFile E K o = newPath E K b k := by
      intro p o ho
      obtain ⟨k, hk, hpath, o', ho', hmd⟩ := hplaced.objects p (BucketDir.mem_objFiles.2 ⟨ho.mem, ho.ext⟩)
      cases ho.unique ho'
      refine ⟨k, hk, hpath, ?_⟩
      unfold newFile newId newPath
      rw [hmd]
    refine ⟨fun p hp => ?_, hplaced.config, fun p o ho hmem => ?_, fun p o p' o' ho ho' he => ?_⟩
    · obtain ⟨k, -, -, o, ho, -⟩ := hplaced.objects p hp
      exact ⟨o, ho⟩
    · obtain ⟨k, hk, -, hnew⟩ := hat p o ho
      obtain ⟨k', hk', hpath, -⟩ := hplaced.objects (newFile E K o) (BucketDir.mem_objFiles.2 ⟨hmem, rfl⟩)
      exact hn.pathNe b hb k hk k' hk' (hnew.symm.trans hpath)
    · obtain ⟨k, hk, hp, hnew⟩ := hat p o ho
      obtain ⟨k', hk', hp', hnew'⟩ := hat p' o' ho'
      have hkk := hn.newPathInj b hb k hk k' hk' (by rw [← hnew, ← hnew', he])
      rw [hp, hp', hkk]
  · obtain ⟨b', hb', he⟩ := hs.dirs _ hmem
    exact hn.dirNe b' hb' b hb he.symm

end Sound

end Y2q.Buckets
