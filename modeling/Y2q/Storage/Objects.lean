/-
Object requests of many clients on one backend, step by step (`storage/filesystem.rs`, `storage/uring/{storage,ops,streaming}.rs`).

Each request is a thread. One step of a thread is one access to shared state: the directory, the object's file, one of its two
staging files, its lock, or one index transaction. `next` says what a thread's step does (`Act`) and where the thread then stands
(`Pc`); `St.apply` does it.

- put: make the directory, take the lock, read the old file's `created`, write `<id>.tmp`, rename it, upsert the row. The
  filesystem backend releases the lock after the upsert, the uring backend before it. If the uring backend falls back from direct
  to buffered I/O, it adds a label to the row that the sealed metadata does not have.
- streaming put: read `created`, then take the lock; the rest on commit. `run_rekey` does the same with an object it has read.
- set_labels: test the lock once, read the file, write `<id>.labels.tmp`, rename it, upsert. It holds no lock.
- delete: test the lock once, open the file, unlink it, remove the row. It holds no lock.
- delete_bucket: look for the directory, list the rows, remove them one by one, remove the directory. It holds no lock.
- index rebuild: list the files; read and upsert each; list the rows and remove those not seen.

A file holds its data and its sealed metadata. Files are whole when they are renamed into place, so the header checks of the
readers pass and are left out, as are bucket registrations, names that do not validate, and `clear_stale` (see `Storage/Locks`).
A worker of the uring backend also runs the requests of one object one after another; nothing here relies on it.
-/
import Mathlib.Tactic
import Y2q.Core.Bytes
import Y2q.Core.Run

namespace Y2q.Objects

/-! ## Data -/

/-- `(bucket, key)` -/
abbrev ObjKey := String × String

abbrev LabelSet := Finset (String × String)

structure CipherMetadata where
  cipherSize : ℕ
  cipherChecksum : String
  kemAlg : String
  aeadAlg : String
  envelopeVersion : ℕ
  keyEpoch : ℕ
deriving DecidableEq

/-- the record sealed in the file and stored in the row; its names and paths are those of the object -/
structure Metadata where
  created : ℕ
  modified : ℕ
  size : ℕ
  checksumGxhash : String
  labels : LabelSet
  cipher : Option CipherMetadata
  version : Option ℕ
  committedAt : Option ℕ
deriving DecidableEq

structure File where
  data : Bytes
  metadata : Metadata
deriving DecidableEq

inductive Backend where
  | filesystem
  | uring
deriving DecidableEq, Repr

/-- what a put stores; `size` and `checksumGxhash` as given or computed from the data -/
structure PutRequest where
  data : Bytes
  size : ℕ
  checksumGxhash : String
  labels : LabelSet
  cipher : Option CipherMetadata
  version : Option ℕ
  now : ℕ
  /-- the uring backend found that direct I/O is not supported -/
  directFallback : Bool

/-- the metadata sealed in the file -/
def PutRequest.metadata (r : PutRequest) (priorCreated : Option ℕ) : Metadata where
  created := priorCreated.getD r.now
  modified := r.now
  size := r.size
  checksumGxhash := r.checksumGxhash
  labels := r.labels
  cipher := r.cipher
  version := r.version
  committedAt := r.version.map fun _ => r.now

/-- the metadata a buffered put writes to the index -/
def PutRequest.row (B : Backend) (r : PutRequest) (m : Metadata) : Metadata :=
  if B = .uring ∧ r.directFallback then { m with labels := insert ("y2q.direct_io", "fallback") m.labels } else m

/-- the per-object ciphers of a rekey run: epoch, data and recorded size to plaintext, and back -/
structure Envelopes where
  decrypt : ObjKey → ℕ → Bytes → ℕ → Option Bytes
  /-- the stored bytes, and what is recorded about them -/
  encrypt : ObjKey → ℕ → Bytes → Bytes × CipherMetadata
  checksum : Bytes → String

/-- one object of a rekey run -/
structure RekeyJob where
  oldEpoch : ℕ
  newEpoch : ℕ
  now : ℕ
deriving DecidableEq

/-- the streaming put a rekey makes of a plaintext and the labels it has read -/
def RekeyJob.request (C : Envelopes) (x : ObjKey) (j : RekeyJob) (plain : Bytes) (labels : LabelSet) : PutRequest where
  data := (C.encrypt x j.newEpoch plain).1
  size := plain.length
  checksumGxhash := C.checksum plain
  labels := labels
  cipher := some (C.encrypt x j.newEpoch plain).2
  version := none
  now := j.now
  directFallback := false

/-! ## Threads -/

/-- where a request stands: what it knows, and what its next step will do -/
inductive Pc where
  | putNew (x : ObjKey) (r : PutRequest)
  | putDir (x : ObjKey) (r : PutRequest)
  | putLocked (x : ObjKey) (r : PutRequest)
  | putRead (x : ObjKey) (r : PutRequest) (priorCreated : Option ℕ)
  /-- a streaming put; a rekey's knows already what it will commit -/
  | streamNew (x : ObjKey) (rekey : Option PutRequest)
  | streamDir (x : ObjKey) (rekey : Option PutRequest)
  | streamRead (x : ObjKey) (rekey : Option PutRequest) (priorCreated : Option ℕ)
  | streamOpen (x : ObjKey) (rekey : Option PutRequest) (priorCreated : Option ℕ)
  /-- the staging file is complete; `row` is what the index will get; `early`: the lock goes before the upsert -/
  | staged (x : ObjKey) (row : Metadata) (early rekey : Bool)
  | releasing (x : ObjKey) (row : Metadata)
  | upserting (x : ObjKey) (row : Metadata) (locked : Bool)
  | unlocking (x : ObjKey)
  | labelsNew (x : ObjKey) (labels : LabelSet) (now : ℕ)
  | labelsChecked (x : ObjKey) (labels : LabelSet) (now : ℕ)
  | labelsRead (x : ObjKey) (f : File)
  | labelsStaged (x : ObjKey) (row : Metadata)
  | deleteNew (x : ObjKey)
  | deleteChecked (x : ObjKey)
  | deleteOpened (x : ObjKey)
  | removing (x : ObjKey)
  | bucketNew (b : String)
  | bucketStat (b : String) (dirExists : Bool)
  | bucketRows (b : String) (dirExists : Bool) (removed : ℕ) (todo : List ObjKey)
  | rekeyNew (x : ObjKey) (j : RekeyJob)
  | rekeyGot (x : ObjKey) (j : RekeyJob) (data : Bytes)

/-- the one index rebuild that may run -/
inductive Rebuild where
  | idle
  | scanning (todo seen : List ObjKey)
  /-- the metadata of `x` is read and not yet written to the index -/
  | read (x : ObjKey) (m : Metadata) (todo seen : List ObjKey)
  | removing (todo : List ObjKey)
  | done

structure St where
  files : ObjKey → Option File
  rows : ObjKey → Option Metadata
  /-- `<id>.tmp` -/
  tmp : ObjKey → Option File
  /-- `<id>.labels.tmp` -/
  labelsTmp : ObjKey → Option File
  locks : ObjKey → Bool
  dirs : String → Bool
  threads : ℕ → Option Pc
  rebuild : Rebuild

/-- the metadata sealed on disk -/
def St.disk (s : St) (x : ObjKey) : Option Metadata := (s.files x).map (·.metadata)

/-- what one step does to the shared state -/
inductive Act where
  | skip
  | mkdir (b : String)
  | lock (x : ObjKey)
  | unlock (x : ObjKey)
  | writeTmp (x : ObjKey) (f : File)
  | install (x : ObjKey) (f : File)
  | writeLabelsTmp (x : ObjKey) (f : File)
  | installLabels (x : ObjKey) (f : File)
  | unlink (x : ObjKey)
  | upsert (x : ObjKey) (m : Metadata)
  | remove (x : ObjKey)
  | rmdir (b : String)

def St.apply (s : St) : Act → St
  | .skip => s
  | .mkdir b => { s with dirs := Function.update s.dirs b true }
  | .lock x => { s with locks := Function.update s.locks x true }
  | .unlock x => { s with locks := Function.update s.locks x false }
  | .writeTmp x f => { s with tmp := Function.update s.tmp x (some f) }
  | .install x f => { s with files := Function.update s.files x (some f), tmp := Function.update s.tmp x none }
  | .writeLabelsTmp x f => { s with labelsTmp := Function.update s.labelsTmp x (some f) }
  | .installLabels x f => { s with files := Function.update s.files x (some f), labelsTmp := Function.update s.labelsTmp x none }
  | .unlink x => { s with files := Function.update s.files x none }
  | .upsert x m => { s with rows := Function.update s.rows x (some m) }
  | .remove x => { s with rows := Function.update s.rows x none }
  | .rmdir b => { s with
      files := fun x => if x.1 = b then none else s.files x
      tmp := fun x => if x.1 = b then none else s.tmp x
      labelsTmp := fun x => if x.1 = b then none else s.labelsTmp x
      dirs := Function.update s.dirs b false }

/-- a request ends with an error: the lock it holds is released -/
def failed (x : ObjKey) : Act × Option Pc := (.unlock x, none)

/-- one step of a request -/
def next (B : Backend) (C : Envelopes) (s : St) : Pc → Act × Option Pc
  | .putNew x r => (.mkdir x.1, some (.putDir x r))
  | .putDir x r => if s.locks x then (.skip, none) else (.lock x, some (.putLocked x r))
  | .putLocked x r => (.skip, some (.putRead x r ((s.files x).map (·.metadata.created))))
  | .putRead x r prior =>
    if s.dirs x.1 then
      (.writeTmp x ⟨r.data, r.metadata prior⟩, some (.staged x (r.row B (r.metadata prior)) (B = .uring) false))
    else failed x
  | .streamNew x r => (.mkdir x.1, some (.streamDir x r))
  | .streamDir x r => (.skip, some (.streamRead x r ((s.files x).map (·.metadata.created))))
  | .streamRead x r prior => if s.locks x then (.skip, none) else (.lock x, some (.streamOpen x r prior))
  | .streamOpen x none prior => (.skip, some (.streamOpen x none prior))
  | .streamOpen x (some r) prior =>
    if s.dirs x.1 then (.writeTmp x ⟨r.data, r.metadata prior⟩, some (.staged x (r.metadata prior) false true)) else failed x
  | .staged x row early _ =>
    match s.tmp x with
    | some f => (.install x f, some (if early then .releasing x row else .upserting x row true))
    | none => failed x
  | .releasing x row => (.unlock x, some (.upserting x row false))
  | .upserting x row locked => (.upsert x row, if locked then some (.unlocking x) else none)
  | .unlocking x => (.unlock x, none)
  | .labelsNew x labels now => if s.locks x then (.skip, none) else (.skip, some (.labelsChecked x labels now))
  | .labelsChecked x labels now =>
    match s.files x with
    | some f => (.skip, some (.labelsRead x { f with metadata := { f.metadata with labels := labels, modified := now } }))
    | none => (.skip, none)
  | .labelsRead x f => if s.dirs x.1 then (.writeLabelsTmp x f, some (.labelsStaged x f.metadata)) else (.skip, none)
  | .labelsStaged x row =>
    match s.labelsTmp x with
    | some f => (.installLabels x f, some (.upserting x row false))
    | none => (.skip, none)
  | .deleteNew x => if s.locks x then (.skip, none) else (.skip, some (.deleteChecked x))
  | .deleteChecked x => if (s.files x).isSome then (.skip, some (.deleteOpened x)) else (.skip, none)
  | .deleteOpened x =>
    -- the filesystem backend takes a file that is gone for deleted
    if (s.files x).isSome ∨ B = .filesystem then (.unlink x, some (.removing x)) else (.skip, none)
  | .removing x => (.remove x, none)
  | .bucketNew b => (.skip, some (.bucketStat b (s.dirs b)))
  | .bucketStat b dirExists => (.skip, some (.bucketStat b dirExists))
  | .bucketRows b dirExists removed (x :: todo) => (.remove x, some (.bucketRows b dirExists (removed + 1) todo))
  | .bucketRows b true _ [] => if s.dirs b then (.rmdir b, none) else (.skip, none)
  | .bucketRows _ false _ [] => (.skip, none)
  | .rekeyNew x j =>
    match s.files x with
    | some f => (.skip, some (.rekeyGot x j f.data))
    | none => (.skip, none)
  | .rekeyGot x j data =>
    match s.files x with
    | none => (.skip, none)
    | some f =>
      match C.decrypt x j.oldEpoch data f.metadata.size with
      | none => (.skip, none)
      | some plain => (.skip, some (.streamNew x (some (j.request C x plain f.metadata.labels))))

/-! ## Runs -/

inductive Request where
  | put (x : ObjKey) (r : PutRequest)
  | beginStreamingPut (x : ObjKey)
  | setLabels (x : ObjKey) (labels : LabelSet) (now : ℕ)
  | delete (x : ObjKey)
  | deleteBucket (b : String)
  | rekey (x : ObjKey) (j : RekeyJob)

def Request.start : Request → Pc
  | .put x r => .putNew x r
  | .beginStreamingPut x => .streamNew x none
  | .setLabels x labels now => .labelsNew x labels now
  | .delete x => .deleteNew x
  | .deleteBucket b => .bucketNew b
  | .rekey x j => .rekeyNew x j

inductive Ev where
  | call (i : ℕ) (q : Request)
  | step (i : ℕ)
  /-- the client of an open stream commits it or drops it -/
  | commit (i : ℕ) (r : PutRequest)
  | abort (i : ℕ)
  /-- `delete_bucket` lists the bucket's rows -/
  | list (i : ℕ) (l : List ObjKey)
  /-- the rebuild lists the files, takes its next step, lists the rows -/
  | scan (l : List ObjKey)
  | rebuild
  | listRows (l : List ObjKey)

def St.setThread (s : St) (i : ℕ) (p : Option Pc) : St := { s with threads := Function.update s.threads i p }

/-- one step of the rebuild -/
def stepRebuild (s : St) : St :=
  match s.rebuild with
  | .scanning (x :: todo) seen =>
    match s.files x with
    | some f => { s with rebuild := .read x f.metadata todo seen }
    | none => { s with rebuild := .scanning todo seen }
  | .read x m todo seen => { s.apply (.upsert x m) with rebuild := .scanning todo (x :: seen) }
  | .removing (x :: todo) => { s.apply (.remove x) with rebuild := .removing todo }
  | .removing [] => { s with rebuild := .done }
  | _ => s

def step (B : Backend) (C : Envelopes) (s : St) : Ev → St
  | .call i q => if (s.threads i).isNone then s.setThread i (some q.start) else s
  | .step i =>
    match s.threads i with
    | some p => (s.apply (next B C s p).1).setThread i (next B C s p).2
    | none => s
  | .commit i r =>
    match s.threads i with
    | some (.streamOpen x none prior) =>
      if s.dirs x.1 then
        (s.apply (.writeTmp x ⟨r.data, r.metadata prior⟩)).setThread i (some (.staged x (r.metadata prior) false false))
      else (s.apply (.unlock x)).setThread i none
    | _ => s
  | .abort i =>
    match s.threads i with
    | some (.streamOpen x none _) => ({ s with tmp := Function.update s.tmp x none }.apply (.unlock x)).setThread i none
    | _ => s
  | .list i l =>
    match s.threads i with
    | some (.bucketStat b dirExists) => s.setThread i (some (.bucketRows b dirExists 0 l))
    | _ => s
  | .scan l =>
    match s.rebuild with
    | .idle => { s with rebuild := .scanning l [] }
    | _ => s
  | .rebuild => stepRebuild s
  | .listRows l =>
    match s.rebuild with
    | .scanning [] seen => { s with rebuild := .removing (l.filter fun x => x ∉ seen) }
    | _ => s

/-- a listing returns what is there, each object once -/
def Legal (s : St) : Ev → Prop
  | .list i l => ∀ b ex, s.threads i = some (.bucketStat b ex) → ∀ x, x ∈ l ↔ x.1 = b ∧ s.rows x ≠ none
  | .scan l => l.Nodup ∧ ∀ x, x ∈ l ↔ s.files x ≠ none
  | .listRows l => ∀ x, x ∈ l ↔ s.rows x ≠ none
  | _ => True

/-- no request is in flight -/
def Quiet (s : St) : Prop := ∀ i, s.threads i = none

/-! ## What a step can do -/

/-- the step changes no file and no row -/
def Act.Silent : Act → Prop
  | .install _ _ | .installLabels _ _ | .unlink _ | .upsert _ _ | .remove _ | .rmdir _ => False
  | _ => True

/-- the steps that change a file or a row, and the rest -/
inductive Effect (s : St) : Pc → Act → Option Pc → Prop where
  | silent {p : Pc} {a : Act} {p' : Option Pc} (ha : a.Silent) : Effect s p a p'
  | install {x : ObjKey} {row : Metadata} {early rekey : Bool} {f : File} (hf : s.tmp x = some f) :
    Effect s (.staged x row early rekey) (.install x f) (some (if early then .releasing x row else .upserting x row true))
  | installLabels {x : ObjKey} {row : Metadata} {f : File} (hf : s.labelsTmp x = some f) :
    Effect s (.labelsStaged x row) (.installLabels x f) (some (.upserting x row false))
  | unlink (x : ObjKey) : Effect s (.deleteOpened x) (.unlink x) (some (.removing x))
  | upsert (x : ObjKey) (row : Metadata) (locked : Bool) :
    Effect s (.upserting x row locked) (.upsert x row) (if locked then some (.unlocking x) else none)
  | remove (x : ObjKey) : Effect s (.removing x) (.remove x) none
  | removeRow (b : String) (ex : Bool) (n : ℕ) (x : ObjKey) (todo : List ObjKey) :
    Effect s (.bucketRows b ex n (x :: todo)) (.remove x) (some (.bucketRows b ex (n + 1) todo))
  | rmdir {b : String} (n : ℕ) (hdir : s.dirs b = true) : Effect s (.bucketRows b true n []) (.rmdir b) none

theorem next_effect (B : Backend) (C : Envelopes) (s : St) (p : Pc) : Effect s p (next B C s p).1 (next B C s p).2 := by
  cases p with
  | staged x row early rekey =>
    cases hf : s.tmp x with
    | none => simp only [next, hf]; exact .silent trivial
    | some f => simp only [next, hf]; exact .install hf
  | labelsStaged x row =>
    cases hf : s.labelsTmp x with
    | none => simp only [next, hf]; exact .silent trivial
    | some f => simp only [next, hf]; exact .installLabels hf
  | deleteOpened x =>
    simp only [next]
    split_ifs
    · exact .unlink x
    · exact .silent trivial
  | upserting x row locked => exact .upsert x row locked
  | removing x => exact .remove x
  | bucketRows b ex n todo =>
    cases todo with
    | cons x todo => exact .removeRow b ex n x todo
    | nil =>
      cases ex with
      | false => exact .silent trivial
      | true =>
        simp only [next]
        split_ifs with hdir
        · exact .rmdir n hdir
        · exact .silent trivial
  | streamOpen x r prior =>
    cases r with
    | none => exact .silent trivial
    | some r => simp only [next]; split_ifs <;> exact .silent trivial
  | labelsChecked x labels now => simp only [next]; split <;> exact .silent trivial
  | rekeyNew x j => simp only [next]; split <;> exact .silent trivial
  | rekeyGot x j data =>
    simp only [next]
    split
    · exact .silent trivial
    · split <;> exact .silent trivial
  | putDir x r => simp only [next]; split_ifs <;> exact .silent trivial
  | putRead x r prior => simp only [next]; split_ifs <;> exact .silent trivial
  | streamRead x r prior => simp only [next]; split_ifs <;> exact .silent trivial
  | labelsNew x labels now => simp only [next]; split_ifs <;> exact .silent trivial
  | labelsRead x f => simp only [next]; split_ifs <;> exact .silent trivial
  | deleteNew x => simp only [next]; split_ifs <;> exact .silent trivial
  | deleteChecked x => simp only [next]; split_ifs <;> exact .silent trivial
  | putNew | putLocked | streamNew | streamDir | releasing | unlocking | bucketNew | bucketStat => exact .silent trivial

theorem Act.Silent.same {a : Act} (ha : a.Silent) (s : St) :
    (s.apply a).files = s.files ∧ (s.apply a).rows = s.rows := by
  cases a with
  | install | installLabels | unlink | upsert | remove | rmdir => exact ha.elim
  | skip | mkdir | lock | unlock | writeTmp | writeLabelsTmp => exact ⟨rfl, rfl⟩

theorem apply_threads (s : St) (a : Act) : (s.apply a).threads = s.threads := by
  cases a <;> rfl

theorem apply_rebuild (s : St) (a : Act) : (s.apply a).rebuild = s.rebuild := by
  cases a <;> rfl

/-! ## Sample requests -/

def noEnvelopes : Envelopes := ⟨fun _ _ _ _ => none, fun _ _ _ => ([], ⟨0, "", "", "", 0, 0⟩), fun _ => ""⟩

def sampleObject : ObjKey := ("b", "k")

/-- a put of one byte at the time it carries -/
def samplePut (n : ℕ) : PutRequest := ⟨[UInt8.ofNat n], 1, "", ∅, none, none, n, false⟩

/-- a store without files, whatever its index holds -/
def emptyStore (rows : ObjKey → Option Metadata) (r : Rebuild) : St :=
  ⟨fun _ => none, rows, fun _ => none, fun _ => none, fun _ => false, fun _ => false, fun _ => none, r⟩

/-- the row of an object that is not there -/
def staleRow : ObjKey → Option Metadata := Function.update (fun _ => none) ("b", "z") (some ((samplePut 0).metadata none))

/-- all steps of a put by thread `i` -/
def wholePut (i : ℕ) (n : ℕ) : List Ev := .call i (.put sampleObject (samplePut n)) :: List.replicate 7 (.step i)

end Y2q.Objects
