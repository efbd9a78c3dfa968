/-
The metadata index and its rebuild (`storage/index.rs`, `run_rebuild` of `storage/filesystem.rs`).

The index caches, for every object, its metadata row, and registers the buckets created explicitly; it is the only place
where bucket names can be listed, since directory names are keyed hashes. Of a row the modelled code uses the bucket and the
key; the label table is left out. Each transaction is one atomic effect.

- `listBuckets`: the names with a row or a registration, sorted, once each.
- `runRebuild`: upsert the metadata of every readable object file, skip the unreadable ones, then drop the rows not seen.
-/
import Mathlib.Tactic
import Y2q.Storage.Database
import Y2q.Storage.Tree

namespace Y2q.Index

open CrashLogic Format NodeKeys EncryptedBackend

structure IndexDb where
  /-- the `objects` table -/
  objects : List Metadata
  /-- the `buckets` table -/
  buckets : List String
deriving DecidableEq, Repr

def emptyDb : IndexDb := ⟨[], []⟩

abbrev IndexFile := Option (DbFile IndexDb)

/-- insert or replace the row of `(m.bucket, m.key)` -/
def IndexDb.upsert (m : Metadata) (db : IndexDb) : IndexDb :=
  { db with objects := db.objects.filter (fun r => ¬ (r.bucket = m.bucket ∧ r.key = m.key)) ++ [m] }

def IndexDb.remove (bucket key : String) (db : IndexDb) : IndexDb :=
  { db with objects := db.objects.filter fun r => ¬ (r.bucket = bucket ∧ r.key = key) }

/-- `register_bucket`: idempotent -/
def IndexDb.registerBucket (bucket : String) (db : IndexDb) : IndexDb :=
  if bucket ∈ db.buckets then db else { db with buckets := db.buckets ++ [bucket] }

def IndexDb.unregisterBucket (bucket : String) (db : IndexDb) : IndexDb :=
  { db with buckets := db.buckets.filter fun b => b ≠ bucket }

/-- `list_buckets_union` -/
def IndexDb.listBuckets (db : IndexDb) : List String :=
  ((db.objects.map (·.bucket) ++ db.buckets).mergeSort fun a b => decide (a ≤ b)).dedup

theorem IndexDb.mem_listBuckets {db : IndexDb} {b : String} :
    b ∈ db.listBuckets ↔ (∃ m ∈ db.objects, m.bucket = b) ∨ b ∈ db.buckets := by
  simp [listBuckets, List.mem_mergeSort]

/-- the list is determined by its members -/
theorem IndexDb.listBuckets_ext {db db' : IndexDb} (h : ∀ b, b ∈ db.listBuckets ↔ b ∈ db'.listBuckets) :
    db.listBuckets = db'.listBuckets := by
  have hsorted : ∀ db : IndexDb, db.listBuckets.Pairwise (· ≤ ·) := fun db =>
    (List.pairwise_mergeSort' (· ≤ ·) _).sublist (List.dedup_sublist _)
  have hperm : db.listBuckets.Perm db'.listBuckets :=
    (List.perm_ext_iff_of_nodup (List.nodup_dedup _) (List.nodup_dedup _)).2 h
  exact hperm.eq_of_pairwise' (hsorted db) (hsorted db')

theorem listBuckets_emptyDb : emptyDb.listBuckets = [] := by
  simp [IndexDb.listBuckets, emptyDb]

/-- `MetadataIndex::open_db` under the index key of a node key -/
def openIndex (P : Primitives) (nk : Bytes) : Prog IndexFile String IndexDb :=
  openDb .Recreate (deriveIndexFileKey P nk) emptyDb

/-! ## Rebuild -/

variable (E : Env)

/-- `read_obj_metadata`: the parsed sidecar of an object file -/
def readObjMetadata (K : StoreKeys) (t : Tree) (dir : String) (p : ShardFile) : Option Metadata :=
  (t.lookup dir).bind fun d => (d.files.lookup p).bind fun bytes =>
    (openObject E.toPrimitives K p.stem bytes).bind fun r => (E.parseMetadata r.2).toOption

def upsertSeen (_ : Unit) (m : Option Metadata) : Prog IndexFile String Unit :=
  match m with
  | none => pure ()
  | some m => Prog.modify (DbFile.update (IndexDb.upsert m))

def removeStale (_ : Unit) (m : Metadata) : Prog IndexFile String Unit :=
  Prog.modify (DbFile.update (IndexDb.remove m.bucket m.key))

/-- the rows whose object was not seen -/
def staleRows (seen : List (Option Metadata)) : IndexFile → List Metadata
  | some (.sealed _ db) => db.objects.filter fun r => !(seen.filterMap id).any fun m => m.bucket = r.bucket ∧ m.key = r.key
  | _ => []

/-- `files` is the listing of every object file, directory by directory -/
def runRebuild (K : StoreKeys) (t : Tree) (files : List (String × ShardFile)) : Prog IndexFile String Unit := do
  let seen := files.map fun f => readObjMetadata E K t f.1 f.2
  seen.foldlM upsertSeen ()
  let file ← Prog.get
  (staleRows seen file).foldlM removeStale ()

/-! what the rebuild of an empty index leaves -/

/-- the rows of `db` are seen metadata, one for every key seen, and no bucket is registered -/
structure RowsOf (seen : List (Option Metadata)) (db : IndexDb) : Prop where
  buckets : db.buckets = []
  mem : ∀ r ∈ db.objects, some r ∈ seen
  cover : ∀ m, some m ∈ seen → ∃ r ∈ db.objects, r.bucket = m.bucket ∧ r.key = m.key

theorem RowsOf.upsert {seen : List (Option Metadata)} {db : IndexDb} (h : RowsOf seen db) (m : Metadata) :
    RowsOf (seen ++ [some m]) (db.upsert m) := by
  refine ⟨h.buckets, fun r hr => ?_, fun m' hm' => ?_⟩
  · simp only [IndexDb.upsert, List.mem_append, List.mem_singleton] at hr
    rcases hr with hr | rfl
    · exact List.mem_append_left _ (h.mem r (List.mem_of_mem_filter hr))
    · exact List.mem_append_right _ (List.mem_singleton.2 rfl)
  · simp only [List.mem_append, List.mem_singleton] at hm'
    rcases hm' with hm' | hm'
    · obtain ⟨r, hr, hb, hk⟩ := h.cover m' hm'
      by_cases hsame : r.bucket = m.bucket ∧ r.key = m.key
      · -- the row is replaced by `m`'s
        exact ⟨m, by simp [IndexDb.upsert], by rw [← hsame.1, hb], by rw [← hsame.2, hk]⟩
      · refine ⟨r, List.mem_append_left _ (List.mem_filter.2 ⟨hr, ?_⟩), hb, hk⟩
        exact decide_eq_true hsame
    · cases hm'
      exact ⟨m, by simp [IndexDb.upsert], rfl, rfl⟩

theorem RowsOf.skip {seen : List (Option Metadata)} {db : IndexDb} (h : RowsOf seen db) : RowsOf (seen ++ [none]) db := by
  refine ⟨h.buckets, fun r hr => List.mem_append_left _ (h.mem r hr), fun m hm => h.cover m ?_⟩
  simpa using hm

theorem RowsOf.mem_listBuckets {seen : List (Option Metadata)} {db : IndexDb} (h : RowsOf seen db) (b : String) :
    b ∈ db.listBuckets ↔ ∃ m, some m ∈ seen ∧ m.bucket = b := by
  rw [IndexDb.mem_listBuckets, h.buckets]
  simp only [List.not_mem_nil, or_false]
  constructor
  · rintro ⟨r, hr, hb⟩
    exact ⟨r, h.mem r hr, hb⟩
  · rintro ⟨m, hm, hb⟩
    obtain ⟨r, hr, hrb, -⟩ := h.cover m hm
    exact ⟨r, hr, by rw [hrb, hb]⟩

/-- every row was seen, so none is stale -/
theorem RowsOf.staleRows {seen : List (Option Metadata)} {db : IndexDb} (h : RowsOf seen db) (fileKey : Bytes) :
    staleRows seen (some (.sealed fileKey db)) = [] := by
  refine List.filter_eq_nil_iff.2 fun r hr => ?_
  simp only [Bool.not_eq_true', Bool.not_eq_false, List.any_eq_true, List.mem_filterMap]
  exact ⟨r, ⟨some r, h.mem r hr, rfl⟩, by simp⟩

/-- **A rebuild of an empty index** cannot fail and lists the buckets of the files it could read. -/
theorem runRebuild_fresh (K : StoreKeys) (t : Tree) (files : List (String × ShardFile)) (fileKey : Bytes) :
    Spec (fun f => f = some (.sealed fileKey emptyDb)) (runRebuild E K t files)
      (fun _ f => ∃ db, f = some (.sealed fileKey db) ∧
        ∀ b, b ∈ db.listBuckets ↔ ∃ m, some m ∈ files.map (fun f => readObjMetadata E K t f.1 f.2) ∧ m.bucket = b)
      (fun _ _ => False) (SealedUnder fileKey) := by
  unfold runRebuild
  set seen := files.map fun f => readObjMetadata E K t f.1 f.2 with hseen
  -- after each round the rows are those of the files read so far
  have hloop := Spec.foldlM (f := upsertSeen) (E := fun _ _ => False) (C := SealedUnder fileKey)
    (I := fun done _ _ f => ∃ db, f = some (.sealed fileKey db) ∧ RowsOf done db) ?_ ?_ [] seen ()
  · refine Spec.bind (hloop.conseq ?_ (fun _ _ h => h) (fun _ _ h => h) fun _ h => h) fun _ => Spec.get_bind ?_
    · rintro f rfl
      exact ⟨emptyDb, rfl, rfl, nofun, nofun⟩
    · rintro f ⟨db, rfl, hdb⟩
      rw [List.nil_append] at hdb
      simp only [hdb.staleRows, List.foldlM_nil]
      refine Spec.pure _ ?_ ?_
      · rintro f rfl
        exact ⟨db, rfl, hdb.mem_listBuckets⟩
      · rintro f rfl
        exact ⟨db, rfl⟩
  · rintro done rest _ f ⟨db, rfl, -⟩
    exact ⟨db, rfl⟩
  · intro done m rest _
    cases m with
    | none =>
      refine Spec.pure _ ?_ ?_
      · rintro f ⟨db, rfl, h⟩
        exact ⟨db, rfl, h.skip⟩
      · rintro f ⟨db, rfl, -⟩
        exact ⟨db, rfl⟩
    | some m =>
      refine Spec.modify ?_ ?_ ?_
      · rintro f ⟨db, rfl, h⟩
        exact ⟨db.upsert m, rfl, h.upsert m⟩
      · rintro f ⟨db, rfl, -⟩
        exact ⟨db, rfl⟩
      · rintro f ⟨db, rfl, -⟩
        exact ⟨db.upsert m, rfl⟩

end Y2q.Index
