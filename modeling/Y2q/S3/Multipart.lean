/-
Multipart uploads (`s3/multipart.rs`, `MultipartRegistry` in `s3/state.rs`), step by step.

An upload has an entry in the registry and a map of recorded parts, which the entries of a refreshed session share. Its parts are
objects under `.y2q-mpu/<upload id>/<part number>` in the bucket of the upload. One step of a request is one access to the registry,
to the part map or to an object:

- create: count the session's uploads, register.
- upload_part: find the upload; put the part's object; describe it; record its size and ETag.
- complete: find the upload; look up the listed ETags; describe and read part after part; put the object; clear the upload.
- abort: find the upload; clear it. The sweeper clears a list of uploads.
- to clear: take the recorded numbers, delete the parts one by one, drop the entry.
- rekey_session: list the uploads of the old token; insert each again under the new one.

Requests that do not go by uploads put and delete objects; the S3 handlers refuse keys under `.y2q-mpu/`, the REST handlers do not.
A part's data is read in one step: what a stream gives when its file changes on the way is told in `Daemon/GetRequests`. Quotas and
keys of the bucket are left out: where they end a request early, it fails.
-/
import Mathlib.Tactic
import Y2q.Core.Run
import Y2q.Core.Tables
import Y2q.Storage.Objects

namespace Y2q.Multipart

open Y2q.Objects (ObjKey LabelSet)

abbrev TokenHash := List UInt8

/-! ## Part keys -/

/-- `PREFIX` -/
def reservedKeys : String := ".y2q-mpu/"

/-- `{:05}` of a `u16` -/
def pad5 (n : ℕ) : String :=
  String.ofList [Nat.digitChar (n / 10000), Nat.digitChar (n / 1000 % 10), Nat.digitChar (n / 100 % 10), Nat.digitChar (n / 10 % 10),
    Nat.digitChar (n % 10)]

def partKey (uploadId : String) (partNumber : ℕ) : String := reservedKeys ++ uploadId ++ "/" ++ pad5 partNumber

def isReservedKey (key : String) : Bool := reservedKeys.toList.isPrefixOf key.toList

theorem reserved_partKey (uploadId : String) (num : ℕ) : isReservedKey (partKey uploadId num) = true := by
  rw [isReservedKey, List.isPrefixOf_iff_prefix, partKey, String.toList_append, String.toList_append, String.toList_append,
    List.append_assoc, List.append_assoc]
  exact List.prefix_append _ _

theorem digitChar_inj {a b : ℕ} (ha : a < 10) (hb : b < 10) (h : Nat.digitChar a = Nat.digitChar b) : a = b := by
  interval_cases a <;> interval_cases b <;> first | rfl | exact absurd h (by decide)

theorem pad5_inj {a b : ℕ} (ha : a < 100000) (hb : b < 100000) (h : (pad5 a).toList = (pad5 b).toList) : a = b := by
  rw [pad5, pad5, String.toList_ofList, String.toList_ofList] at h
  simp only [List.cons.injEq, and_true] at h
  obtain ⟨h1, h2, h3, h4, h5⟩ := h
  have h1 := digitChar_inj (by omega) (by omega) h1
  have h2 := digitChar_inj (Nat.mod_lt _ (by decide)) (Nat.mod_lt _ (by decide)) h2
  have h3 := digitChar_inj (Nat.mod_lt _ (by decide)) (Nat.mod_lt _ (by decide)) h3
  have h4 := digitChar_inj (Nat.mod_lt _ (by decide)) (Nat.mod_lt _ (by decide)) h4
  have h5 := digitChar_inj (Nat.mod_lt _ (by decide)) (Nat.mod_lt _ (by decide)) h5
  omega

theorem partKey_inj {u v : String} {a b : ℕ} (ha : a ≤ 10000) (hb : b ≤ 10000) (h : partKey u a = partKey v b) : u = v ∧ a = b := by
  have hlist := congrArg String.toList h
  simp only [partKey, String.toList_append, List.append_assoc, List.append_cancel_left_eq] at hlist
  have hlen : ∀ n, (pad5 n).toList.length = 5 := fun n => by rw [pad5, String.toList_ofList]; rfl
  rw [← List.append_assoc, ← List.append_assoc] at hlist
  obtain ⟨hfront, hpad⟩ := List.append_inj' hlist (by rw [hlen, hlen])
  exact ⟨String.toList_inj.1 (List.append_cancel_right hfront), pad5_inj (by omega) (by omega) hpad⟩

/-! ## Uploads -/

structure MultipartUpload where
  uploadId : String
  bucket : String
  key : String
  tokenHash : TokenHash
  username : String
  createdAt : ℕ
  labels : LabelSet

/-- part number to plaintext size and ETag -/
abbrev PartMap := Table ℕ (ℕ × String)

structure NewUpload where
  bucket : String
  key : String
  tokenHash : TokenHash
  username : String
  labels : LabelSet

/-- what a `Complete` lists: part numbers and ETags -/
abbrev Listed := List (ℕ × String)

/-- how objects are described and read -/
structure Sealing (Obj : Type) where
  etag : Obj → String
  /-- what the stream of an object gives, from the object that was described and those that its reads found: nothing yet, or all -/
  stream : ObjKey → Obj → List Obj → Option (Option Bytes)

/-- what a stream gives while the object stays as it is -/
def Sealing.Reads {Obj : Type} (S : Sealing Obj) (x : ObjKey) (o : Obj) (content : Bytes) : Prop :=
  ∃ n, S.stream x o (List.replicate n o) = some (some content) ∧ ∀ m < n, S.stream x o (List.replicate m o) = some none

/-- objects that are stored as they are, and read at once -/
def plain : Sealing Bytes where
  etag o := String.ofList (o.map fun b => Char.ofNat b.toNat)
  stream _ _ seen := some seen.head?

theorem plain_reads {x : ObjKey} {o content : Bytes} : plain.Reads x o content ↔ content = o := by
  constructor
  · intro ⟨n, hn, _⟩
    cases n with
    | zero => cases hn
    | succ n =>
      cases hn
      rfl
  · rintro rfl
    refine ⟨1, rfl, fun m hm => ?_⟩
    rw [Nat.lt_one_iff.1 hm]
    rfl

/-- where a request stands -/
inductive Call (Obj : Type) where
  | creating (new : NewUpload)
  | uploading (u : MultipartUpload) (num : ℕ)
  | stored (u : MultipartUpload) (num : ℕ) (body : Bytes)
  | described (u : MultipartUpload) (num : ℕ) (body : Bytes) (etag : String)
  | completing (u : MultipartUpload) (requested : Listed)
  | assembling (u : MultipartUpload) (requested : Listed) (done : Bytes) (todo : Listed)
  /-- the next part is described, and its reads found these objects -/
  | reading (u : MultipartUpload) (requested : Listed) (done : Bytes) (md : Obj) (seen : List Obj) (num : ℕ) (todo : Listed)
  /-- the upload is to be cleared, and these after it -/
  | clearing (u : MultipartUpload) (more : List MultipartUpload)
  | deleting (u : MultipartUpload) (numbers : List ℕ) (more : List MultipartUpload)
  | rekeying (new : TokenHash) (todo : List MultipartUpload)

/-- a `Complete` that went through -/
structure Completed (Obj : Type) where
  uploadId : String
  requested : Listed
  x : ObjKey
  /-- the object that was committed -/
  object : Obj

structure State (Obj : Type) where
  registry : String → Option MultipartUpload
  parts : String → PartMap
  objects : ObjKey → Option Obj
  calls : ℕ → Option (Call Obj)
  /-- bucket and key of the uploads there were, and the uploads that were cleared -/
  created : String → Option ObjKey
  removed : Set String
  /-- upload, part number, ETag and the body it was issued for -/
  issued : Set (String × ℕ × String × Bytes)
  completed : List (Completed Obj)

variable {Obj : Type}

def init (objects : ObjKey → Option Obj) : State Obj :=
  ⟨fun _ => none, fun _ => ∅, objects, fun _ => none, fun _ => none, ∅, ∅, []⟩

namespace State

def setCall (t : State Obj) (i : ℕ) (c : Option (Call Obj)) : State Obj := { t with calls := Function.update t.calls i c }

def setObject (t : State Obj) (x : ObjKey) (o : Option Obj) : State Obj := { t with objects := Function.update t.objects x o }

def register (t : State Obj) (u : MultipartUpload) : State Obj := { t with registry := Function.update t.registry u.uploadId (some u) }

/-- `owned_upload` -/
def owned (t : State Obj) (uploadId bucket key : String) (tokenHash : TokenHash) : Option MultipartUpload :=
  (t.registry uploadId).bind fun u => if u.tokenHash = tokenHash ∧ u.bucket = bucket ∧ u.key = key then some u else none

end State

/-- the checks of `complete` against the part map: ETags, and 5 MiB for all parts but the last -/
def validate (recorded : PartMap) : Listed → Bool
  | [] => true
  | (num, etag) :: rest =>
    match recorded[num]? with
    | none => false
    | some (size, recordedEtag) => recordedEtag = etag ∧ (rest = [] ∨ 5 * 1024 * 1024 ≤ size) ∧ validate recorded rest

/-- go on to the next upload to clear -/
def clearNext : List MultipartUpload → Option (Call Obj)
  | [] => none
  | u :: more => some (.clearing u more)

inductive Ev (Obj : Type) where
  /-- the session's uploads are counted -/
  | create (i : ℕ) (new : NewUpload) (uploads : List MultipartUpload)
  | register (i : ℕ) (uploadId : String) (now : ℕ)
  | uploadPart (i : ℕ) (uploadId bucket key : String) (tokenHash : TokenHash) (num : ℕ)
  /-- the part's object is committed, sealed from the request's body -/
  | store (i : ℕ) (o : Obj) (body : Bytes)
  | complete (i : ℕ) (uploadId bucket key : String) (tokenHash : TokenHash) (requested : Listed)
  /-- the assembled object is committed -/
  | commit (i : ℕ) (o : Obj)
  | abort (i : ℕ) (uploadId bucket key : String) (tokenHash : TokenHash)
  | sweep (i : ℕ) (victims : List MultipartUpload)
  | rekeySession (i : ℕ) (old new : TokenHash) (matching : List MultipartUpload)
  /-- the next step of a request -/
  | step (i : ℕ)
  | fail (i : ℕ)
  /-- other requests; to reseal is to store the content of an object again, under another key or with other labels -/
  | put (x : ObjKey) (o : Obj)
  | reseal (x : ObjKey) (o : Obj)
  | delete (x : ObjKey)

variable (S : Sealing Obj) (maxPerSession : ℕ)

/-- the next step of a request that needs nothing from outside -/
def advance (t : State Obj) (i : ℕ) : Call Obj → State Obj
  | .stored u num body =>
    match t.objects (u.bucket, partKey u.uploadId num) with
    | none => t.setCall i none
    | some o => t.setCall i (some (.described u num body (S.etag o)))
  | .described u num body etag =>
    { t.setCall i none with
      parts := Function.update t.parts u.uploadId ((t.parts u.uploadId).insert num (body.length, etag))
      issued := {(u.uploadId, num, etag, body)} ∪ t.issued }
  | .completing u requested =>
    if validate (t.parts u.uploadId) requested then t.setCall i (some (.assembling u requested [] requested)) else t.setCall i none
  | .assembling u requested done ((num, _) :: todo) =>
    match t.objects (u.bucket, partKey u.uploadId num) with
    | none => t.setCall i none
    | some md => t.setCall i (some (.reading u requested done md [] num todo))
  | .reading u requested done md seen num todo =>
    match S.stream (u.bucket, partKey u.uploadId num) md seen with
    | none => t.setCall i none
    | some (some part) => t.setCall i (some (.assembling u requested (done ++ part) todo))
    | some none =>
      match t.objects (u.bucket, partKey u.uploadId num) with
      | none => t.setCall i none
      | some o => t.setCall i (some (.reading u requested done md (seen ++ [o]) num todo))
  | .clearing u more => t.setCall i (some (.deleting u ((t.parts u.uploadId).toList.map Prod.fst) more))
  | .deleting u (num :: numbers) more =>
    (t.setObject (u.bucket, partKey u.uploadId num) none).setCall i (some (.deleting u numbers more))
  | .deleting u [] more =>
    { t.setCall i (clearNext more) with
      registry := Function.update t.registry u.uploadId none
      removed := {u.uploadId} ∪ t.removed }
  | .rekeying new (u :: todo) => (t.register { u with tokenHash := new }).setCall i (some (.rekeying new todo))
  | .rekeying _ [] => t.setCall i none
  | _ => t

/-- a request that has no call yet -/
def start (t : State Obj) (i : ℕ) (c : Option (Call Obj)) : State Obj := if (t.calls i).isNone then t.setCall i c else t

def step (t : State Obj) : Ev Obj → State Obj
  | .create i new uploads =>
    if isReservedKey new.key ∨ maxPerSession ≤ uploads.length then t else start t i (some (.creating new))
  | .register i uploadId now =>
    match t.calls i with
    | some (.creating new) =>
      { (t.register ⟨uploadId, new.bucket, new.key, new.tokenHash, new.username, now, new.labels⟩).setCall i none with
        parts := Function.update t.parts uploadId ∅
        created := Function.update t.created uploadId (some (new.bucket, new.key)) }
    | _ => t
  | .uploadPart i uploadId bucket key tokenHash num =>
    if 1 ≤ num ∧ num ≤ 10000 then start t i ((t.owned uploadId bucket key tokenHash).map fun u => .uploading u num) else t
  | .store i o body =>
    match t.calls i with
    | some (.uploading u num) =>
      (t.setObject (u.bucket, partKey u.uploadId num) (some o)).setCall i (some (.stored u num body))
    | _ => t
  | .complete i uploadId bucket key tokenHash requested =>
    if requested ≠ [] ∧ requested.IsChain (fun a b => a.1 < b.1) then
      start t i ((t.owned uploadId bucket key tokenHash).map fun u => .completing u requested)
    else t
  | .commit i o =>
    match t.calls i with
    | some (.assembling u requested _ []) =>
      { (t.setObject (u.bucket, u.key) (some o)).setCall i (some (.clearing u [])) with
        completed := ⟨u.uploadId, requested, (u.bucket, u.key), o⟩ :: t.completed }
    | _ => t
  | .abort i uploadId bucket key tokenHash => start t i ((t.owned uploadId bucket key tokenHash).map fun u => .clearing u [])
  | .sweep i victims => start t i (clearNext victims)
  | .rekeySession i _ new matching => start t i (some (.rekeying new matching))
  | .step i =>
    match t.calls i with
    | some c => advance S t i c
    | none => t
  | .fail i =>
    match t.calls i with
    | some (.uploading _ _) => t.setCall i none
    | some (.stored _ _ _) => t.setCall i none
    | some (.completing _ _) => t.setCall i none
    | some (.assembling _ _ _ _) => t.setCall i none
    | some (.reading _ _ _ _ _ _ _) => t.setCall i none
    | _ => t
  | .put x o => t.setObject x (some o)
  | .reseal x o => if (t.objects x).isSome then t.setObject x (some o) else t
  | .delete x => t.setObject x none

/-! ## Names -/

/-- the uploads that a request has in its hands -/
def Call.uploads : Call Obj → List MultipartUpload
  | .creating _ => []
  | .uploading u _ => [u]
  | .stored u _ _ => [u]
  | .described u _ _ _ => [u]
  | .completing u _ => [u]
  | .assembling u _ _ _ => [u]
  | .reading u _ _ _ _ _ _ => [u]
  | .clearing u more => u :: more
  | .deleting u _ more => u :: more
  | .rekeying _ todo => todo

/-- the part that an upload_part is about -/
def Call.part : Call Obj → Option (String × ℕ)
  | .uploading u num => some (u.uploadId, num)
  | .stored u num _ => some (u.uploadId, num)
  | .described u num _ _ => some (u.uploadId, num)
  | _ => none

/-- the part that an upload_part has stored and not recorded -/
def Call.pending : Call Obj → Option (String × ℕ)
  | .stored u num _ => some (u.uploadId, num)
  | .described u num _ _ => some (u.uploadId, num)
  | _ => none

/-- upload ids stand for one bucket and key, which is not reserved; part numbers have five digits -/
structure Named (t : State Obj) : Prop where
  registry : ∀ id u, t.registry id = some u → u.uploadId = id ∧ t.created id = some (u.bucket, u.key)
  calls : ∀ i c, t.calls i = some c → ∀ u ∈ c.uploads, t.created u.uploadId = some (u.bucket, u.key)
  creating : ∀ i new, t.calls i = some (.creating new) → isReservedKey new.key = false
  key : ∀ id b k, t.created id = some (b, k) → isReservedKey k = false
  parts : ∀ id num, num ∈ t.parts id → num ≤ 10000
  part : ∀ i c id num, t.calls i = some c → c.part = some (id, num) → num ≤ 10000

/-- a new upload id was never used; a listing is of what is there; what is stored reads as what was sealed -/
def Legal (t : State Obj) : Ev Obj → Prop
  | .register _ uploadId _ => t.created uploadId = none
  | .store i o body => ∀ u num, t.calls i = some (.uploading u num) → S.Reads (u.bucket, partKey u.uploadId num) o body
  | .commit i o => ∀ u requested done, t.calls i = some (.assembling u requested done []) → S.Reads (u.bucket, u.key) o done
  | .reseal x o' => ∀ o content, t.objects x = some o → S.Reads x o content → S.Reads x o' content
  | .sweep _ victims => ∀ u ∈ victims, t.registry u.uploadId = some u
  | .rekeySession _ old _ matching => ∀ u ∈ matching, t.registry u.uploadId = some u ∧ u.tokenHash = old
  | _ => True

/-! ## Steps -/

/-- what a request goes on to; `none` before its first step and after its last one -/
inductive Turn (t : State Obj) : Ev Obj → ℕ → Option (Call Obj) → Option (Call Obj) → Prop where
  | create (i : ℕ) (new : NewUpload) (uploads : List MultipartUpload) (hkey : isReservedKey new.key = false) :
    Turn t (.create i new uploads) i none (some (.creating new))
  | uploadPart (i : ℕ) (uploadId bucket key : String) (tokenHash : TokenHash) (num : ℕ) (u : MultipartUpload)
    (howned : t.owned uploadId bucket key tokenHash = some u) (hnum : num ≤ 10000) :
    Turn t (.uploadPart i uploadId bucket key tokenHash num) i none (some (.uploading u num))
  | complete (i : ℕ) (uploadId bucket key : String) (tokenHash : TokenHash) (requested : Listed) (u : MultipartUpload)
    (howned : t.owned uploadId bucket key tokenHash = some u) (hchain : requested.IsChain fun a b => a.1 < b.1) :
    Turn t (.complete i uploadId bucket key tokenHash requested) i none (some (.completing u requested))
  | abort (i : ℕ) (uploadId bucket key : String) (tokenHash : TokenHash) (u : MultipartUpload)
    (howned : t.owned uploadId bucket key tokenHash = some u) : Turn t (.abort i uploadId bucket key tokenHash) i none (some (.clearing u []))
  | sweep (i : ℕ) (u : MultipartUpload) (more : List MultipartUpload) : Turn t (.sweep i (u :: more)) i none (some (.clearing u more))
  | rekeySession (i : ℕ) (old new : TokenHash) (matching : List MultipartUpload) :
    Turn t (.rekeySession i old new matching) i none (some (.rekeying new matching))
  | fail (i : ℕ) (c : Call Obj) : Turn t (.fail i) i (some c) none
  | lost (i : ℕ) (u : MultipartUpload) (num : ℕ) (body : Bytes) (hobj : t.objects (u.bucket, partKey u.uploadId num) = none) :
    Turn t (.step i) i (some (.stored u num body)) none
  | describe (i : ℕ) (u : MultipartUpload) (num : ℕ) (body : Bytes) (o : Obj)
    (hobj : t.objects (u.bucket, partKey u.uploadId num) = some o) :
    Turn t (.step i) i (some (.stored u num body)) (some (.described u num body (S.etag o)))
  | validate (i : ℕ) (u : MultipartUpload) (requested : Listed) (hvalid : validate (t.parts u.uploadId) requested = true) :
    Turn t (.step i) i (some (.completing u requested)) (some (.assembling u requested [] requested))
  | refuse (i : ℕ) (u : MultipartUpload) (requested : Listed) : Turn t (.step i) i (some (.completing u requested)) none
  | pick (i : ℕ) (u : MultipartUpload) (requested : Listed) (done : Bytes) (num : ℕ) (etag : String) (todo : Listed) (md : Obj)
    (hobj : t.objects (u.bucket, partKey u.uploadId num) = some md) :
    Turn t (.step i) i (some (.assembling u requested done ((num, etag) :: todo))) (some (.reading u requested done md [] num todo))
  | gone (i : ℕ) (u : MultipartUpload) (requested : Listed) (done : Bytes) (todo : Listed) :
    Turn t (.step i) i (some (.assembling u requested done todo)) none
  | read (i : ℕ) (u : MultipartUpload) (requested : Listed) (done : Bytes) (md : Obj) (seen : List Obj) (num : ℕ) (todo : Listed) (o : Obj)
    (hmore : S.stream (u.bucket, partKey u.uploadId num) md seen = some none) (hobj : t.objects (u.bucket, partKey u.uploadId num) = some o) :
    Turn t (.step i) i (some (.reading u requested done md seen num todo)) (some (.reading u requested done md (seen ++ [o]) num todo))
  | append (i : ℕ) (u : MultipartUpload) (requested : Listed) (done : Bytes) (md : Obj) (seen : List Obj) (num : ℕ) (todo : Listed)
    (part : Bytes) (hpart : S.stream (u.bucket, partKey u.uploadId num) md seen = some (some part)) :
    Turn t (.step i) i (some (.reading u requested done md seen num todo)) (some (.assembling u requested (done ++ part) todo))
  | unread (i : ℕ) (u : MultipartUpload) (requested : Listed) (done : Bytes) (md : Obj) (seen : List Obj) (num : ℕ) (todo : Listed) :
    Turn t (.step i) i (some (.reading u requested done md seen num todo)) none
  | snapshot (i : ℕ) (u : MultipartUpload) (more : List MultipartUpload) :
    Turn t (.step i) i (some (.clearing u more)) (some (.deleting u ((t.parts u.uploadId).toList.map Prod.fst) more))
  | rekeyed (i : ℕ) (new : TokenHash) : Turn t (.step i) i (some (.rekeying new [])) none

/-- what a step does -/
inductive Moves (t : State Obj) : Ev Obj → State Obj → Prop where
  | idle (e : Ev Obj) : Moves t e t
  | turn {e : Ev Obj} {i : ℕ} {c : Option (Call Obj)} (h : Turn S t e i (t.calls i) c) : Moves t e (t.setCall i c)
  | register (i : ℕ) (uploadId : String) (now : ℕ) (new : NewUpload) (h : t.calls i = some (.creating new)) :
    Moves t (.register i uploadId now)
      { (t.register ⟨uploadId, new.bucket, new.key, new.tokenHash, new.username, now, new.labels⟩).setCall i none with
        parts := Function.update t.parts uploadId ∅
        created := Function.update t.created uploadId (some (new.bucket, new.key)) }
  | store (i : ℕ) (o : Obj) (body : Bytes) (u : MultipartUpload) (num : ℕ) (h : t.calls i = some (.uploading u num)) :
    Moves t (.store i o body) ((t.setObject (u.bucket, partKey u.uploadId num) (some o)).setCall i (some (.stored u num body)))
  | record (i : ℕ) (u : MultipartUpload) (num : ℕ) (body : Bytes) (etag : String) (h : t.calls i = some (.described u num body etag)) :
    Moves t (.step i)
      { t.setCall i none with
        parts := Function.update t.parts u.uploadId ((t.parts u.uploadId).insert num (body.length, etag))
        issued := {(u.uploadId, num, etag, body)} ∪ t.issued }
  | commit (i : ℕ) (o : Obj) (u : MultipartUpload) (requested : Listed) (done : Bytes)
    (h : t.calls i = some (.assembling u requested done [])) :
    Moves t (.commit i o)
      { (t.setObject (u.bucket, u.key) (some o)).setCall i (some (.clearing u [])) with
        completed := ⟨u.uploadId, requested, (u.bucket, u.key), o⟩ :: t.completed }
  | deletePart (i : ℕ) (u : MultipartUpload) (num : ℕ) (numbers : List ℕ) (more : List MultipartUpload)
    (h : t.calls i = some (.deleting u (num :: numbers) more)) :
    Moves t (.step i) ((t.setObject (u.bucket, partKey u.uploadId num) none).setCall i (some (.deleting u numbers more)))
  | remove (i : ℕ) (u : MultipartUpload) (more : List MultipartUpload) (h : t.calls i = some (.deleting u [] more)) :
    Moves t (.step i)
      { t.setCall i (clearNext more) with
        registry := Function.update t.registry u.uploadId none
        removed := {u.uploadId} ∪ t.removed }
  | rekey (i : ℕ) (new : TokenHash) (u : MultipartUpload) (todo : List MultipartUpload) (h : t.calls i = some (.rekeying new (u :: todo))) :
    Moves t (.step i) ((t.register { u with tokenHash := new }).setCall i (some (.rekeying new todo)))
  | put (x : ObjKey) (o : Obj) : Moves t (.put x o) (t.setObject x (some o))
  | reseal (x : ObjKey) (o o' : Obj) (h : t.objects x = some o) : Moves t (.reseal x o') (t.setObject x (some o'))
  | delete (x : ObjKey) : Moves t (.delete x) (t.setObject x none)

theorem start_moves {t : State Obj} {e : Ev Obj} {i : ℕ} {c : Option (Call Obj)} (h : ∀ d, c = some d → Turn S t e i none (some d)) :
    Moves S t e (start t i c) := by
  unfold start
  split
  · next hnone =>
    cases c with
    | some d =>
      refine .turn ?_
      rw [Option.isNone_iff_eq_none.1 hnone]
      exact h d rfl
    | none =>
      have hsame : t.setCall i none = t := by
        rw [State.setCall, ← Option.isNone_iff_eq_none.1 hnone, Function.update_eq_self]
      rw [hsame]
      exact .idle e
  · exact .idle e

theorem advance_moves {t : State Obj} {i : ℕ} {c : Call Obj} (hi : t.calls i = some c) : Moves S t (.step i) (advance S t i c) := by
  have turn : ∀ d, Turn S t (.step i) i (some c) d → Moves S t (.step i) (t.setCall i d) := fun d h => .turn (by rw [hi]; exact h)
  cases c with
  | creating new => exact .idle _
  | uploading u num => exact .idle _
  | stored u num body =>
    simp only [advance]
    split
    · next hobj => exact turn _ (.lost i u num body hobj)
    · next o hobj => exact turn _ (.describe i u num body o hobj)
  | described u num body etag => exact .record i u num body etag hi
  | completing u requested =>
    simp only [advance]
    split
    · next hvalid => exact turn _ (.validate i u requested hvalid)
    · exact turn _ (.refuse i u requested)
  | assembling u requested done todo =>
    cases todo with
    | nil => exact .idle _
    | cons p todo =>
      obtain ⟨num, etag⟩ := p
      simp only [advance]
      split
      · exact turn _ (.gone i u requested done _)
      · next md hobj => exact turn _ (.pick i u requested done num etag todo md hobj)
  | reading u requested done md seen num todo =>
    simp only [advance]
    split
    · exact turn _ (.unread i u requested done md seen num todo)
    · next part hpart => exact turn _ (.append i u requested done md seen num todo part hpart)
    · next hmore =>
      split
      · exact turn _ (.unread i u requested done md seen num todo)
      · next o hobj => exact turn _ (.read i u requested done md seen num todo o hmore hobj)
  | clearing u more => exact turn _ (.snapshot i u more)
  | deleting u numbers more =>
    cases numbers with
    | nil => exact .remove i u more hi
    | cons num numbers => exact .deletePart i u num numbers more hi
  | rekeying new todo =>
    cases todo with
    | nil => exact turn _ (.rekeyed i new)
    | cons u todo => exact .rekey i new u todo hi

theorem step_moves (t : State Obj) (e : Ev Obj) : Moves S t e (step S maxPerSession t e) := by
  cases e with
  | create i new uploads =>
    rw [step]
    split
    · exact .idle _
    · next hkey =>
      refine start_moves S fun d hd => ?_
      cases hd
      exact .create i new uploads (by simpa using fun h => hkey (Or.inl h))
  | register i uploadId now =>
    rw [step]
    split
    · next new hi => exact .register i uploadId now new hi
    · exact .idle _
  | uploadPart i uploadId bucket key tokenHash num =>
    rw [step]
    split
    · next hnum =>
      refine start_moves S fun d hd => ?_
      obtain ⟨u, hu, rfl⟩ := Option.map_eq_some_iff.1 hd
      exact .uploadPart i uploadId bucket key tokenHash num u hu hnum.2
    · exact .idle _
  | store i o body =>
    rw [step]
    split
    · next u num hi => exact .store i o body u num hi
    · exact .idle _
  | complete i uploadId bucket key tokenHash requested =>
    rw [step]
    split
    · next hreq =>
      refine start_moves S fun d hd => ?_
      obtain ⟨u, hu, rfl⟩ := Option.map_eq_some_iff.1 hd
      exact .complete i uploadId bucket key tokenHash requested u hu hreq.2
    · exact .idle _
  | commit i o =>
    rw [step]
    split
    · next u requested done hi => exact .commit i o u requested done hi
    · exact .idle _
  | abort i uploadId bucket key tokenHash =>
    rw [step]
    refine start_moves S fun d hd => ?_
    obtain ⟨u, hu, rfl⟩ := Option.map_eq_some_iff.1 hd
    exact .abort i uploadId bucket key tokenHash u hu
  | sweep i victims =>
    rw [step]
    refine start_moves S fun d hd => ?_
    cases victims with
    | nil => cases hd
    | cons u more =>
      cases hd
      exact .sweep i u more
  | rekeySession i old new matching =>
    rw [step]
    refine start_moves S fun d hd => ?_
    cases hd
    exact .rekeySession i old new matching
  | step i =>
    rw [step]
    split
    · next c hi => exact advance_moves S hi
    · exact .idle _
  | fail i =>
    rw [step]
    have stop : ∀ c, t.calls i = some c → Moves S t (.fail i) (t.setCall i none) := fun c hi => .turn (by rw [hi]; exact .fail i c)
    split
    · next hi => exact stop _ hi
    · next hi => exact stop _ hi
    · next hi => exact stop _ hi
    · next hi => exact stop _ hi
    · next hi => exact stop _ hi
    · exact .idle _
  | put x o => exact .put x o
  | reseal x o' =>
    rw [step]
    split
    · next hobj =>
      obtain ⟨o, ho⟩ := Option.isSome_iff_exists.1 hobj
      exact .reseal x o o' ho
    · exact .idle _
  | delete x => exact .delete x

/-! ## Names are kept -/

theorem setCall_calls (t : State Obj) (i : ℕ) (c : Option (Call Obj)) (j : ℕ) :
    (t.setCall i c).calls j = if j = i then c else t.calls j := Function.update_apply ..

theorem setObject_objects (t : State Obj) (x : ObjKey) (o : Option Obj) (y : ObjKey) :
    (t.setObject x o).objects y = if y = x then o else t.objects y := Function.update_apply ..

theorem calls_setCall {t : State Obj} {i : ℕ} {c : Option (Call Obj)} {j : ℕ} {d : Call Obj} (h : (t.setCall i c).calls j = some d) :
    (j = i ∧ c = some d) ∨ (j ≠ i ∧ t.calls j = some d) := by
  rw [setCall_calls] at h
  split at h
  · next heq => exact Or.inl ⟨heq, h⟩
  · next hne => exact Or.inr ⟨hne, h⟩

/-- a request that has no part pending, neither before nor after -/
theorem pending_setCall {t : State Obj} {i : ℕ} {c : Option (Call Obj)} (hbefore : ∀ c₀, t.calls i = some c₀ → c₀.pending = none)
    (hafter : ∀ d, c = some d → d.pending = none) {j : ℕ} {d : Call Obj} {p : String × ℕ} (hd : d.pending = some p) :
    (t.setCall i c).calls j = some d ↔ t.calls j = some d := by
  rw [setCall_calls]
  split
  · next heq =>
    subst heq
    constructor
    · intro hc
      rw [hafter d hc] at hd
      cases hd
    · intro hc
      rw [hbefore d hc] at hd
      cases hd
  · exact Iff.rfl

theorem owned_registry {t : State Obj} {uploadId bucket key : String} {tokenHash : TokenHash} {u : MultipartUpload}
    (h : t.owned uploadId bucket key tokenHash = some u) : t.registry uploadId = some u := by
  obtain ⟨v, hv, h⟩ := Option.bind_eq_some_iff.1 h
  split at h
  · cases h
    exact hv
  · cases h

/-- a call names its upload and its part as they are named -/
structure Call.Named (t : State Obj) (c : Call Obj) : Prop where
  uploads : ∀ u ∈ c.uploads, t.created u.uploadId = some (u.bucket, u.key)
  creating : ∀ new, c = .creating new → isReservedKey new.key = false
  part : ∀ id num, c.part = some (id, num) → num ≤ 10000

theorem Named.call {t : State Obj} (h : Named t) {i : ℕ} {c : Call Obj} (hi : t.calls i = some c) : c.Named t where
  uploads := h.calls i c hi
  creating := fun new hc => h.creating i new (hc ▸ hi)
  part := fun id num => h.part i c id num hi

theorem Named.listed {t : State Obj} (h : Named t) {id : String} {u : MultipartUpload} (hu : t.registry id = some u) :
    t.created u.uploadId = some (u.bucket, u.key) := by
  obtain ⟨hid, hcreated⟩ := h.registry id u hu
  rw [hid]
  exact hcreated

theorem Named.setCall {t : State Obj} (h : Named t) {i : ℕ} {c : Option (Call Obj)} (hc : ∀ d, c = some d → d.Named t) :
    Named (t.setCall i c) := by
  have hcalls : ∀ j d, (t.setCall i c).calls j = some d → d.Named t := by
    intro j d hj
    rw [setCall_calls] at hj
    split at hj
    · exact hc d hj
    · exact h.call hj
  exact {
    registry := h.registry
    calls := fun j d hj => (hcalls j d hj).uploads
    creating := fun j new hj => (hcalls j _ hj).creating new rfl
    key := h.key
    parts := h.parts
    part := fun j d id num hj => (hcalls j d hj).part id num }

/-- a request that keeps its uploads and its part keeps its names -/
theorem Call.Named.go {t : State Obj} {c d : Call Obj} (h : c.Named t) (huploads : d.uploads ⊆ c.uploads)
    (hcreating : ∀ new, d ≠ .creating new) (hpart : d.part = none ∨ d.part = c.part) : d.Named t where
  uploads := fun u hu => h.uploads u (huploads hu)
  creating := fun new hd => absurd hd (hcreating new)
  part := by
    intro id num hd
    rcases hpart with hnone | hsame
    · rw [hnone] at hd
      cases hd
    · exact h.part id num (hsame ▸ hd)

theorem Named.go {t : State Obj} (h : Named t) {i : ℕ} {c : Call Obj} (hi : t.calls i = some c) (d : Call Obj)
    (huploads : d.uploads ⊆ c.uploads) (hcreating : ∀ new, d ≠ .creating new) (hpart : d.part = none ∨ d.part = c.part) :
    Named (t.setCall i (some d)) := by
  refine h.setCall fun d' hd => ?_
  cases hd
  exact (h.call hi).go huploads hcreating hpart

theorem Turn.named {t : State Obj} {e : Ev Obj} {i : ℕ} {d : Call Obj} (h : Named t) (hlegal : Legal S t e)
    (hturn : Turn S t e i (t.calls i) (some d)) : d.Named t := by
  have owned : ∀ {uploadId bucket key tokenHash u}, t.owned uploadId bucket key tokenHash = some u →
      ∀ v ∈ [u], t.created v.uploadId = some (v.bucket, v.key) := by
    intro _ _ _ _ u hu v hv
    rw [List.mem_singleton.1 hv]
    exact h.listed (owned_registry hu)
  generalize hi : t.calls i = c at hturn
  generalize hd : some d = d' at hturn
  cases hturn with
  | create _ new _ hkey =>
    cases hd
    refine ⟨nofun, fun new' hnew => ?_, nofun⟩
    cases hnew
    exact hkey
  | uploadPart _ _ _ _ _ num u howned hnum =>
    cases hd
    refine ⟨owned howned, nofun, fun id n hp => ?_⟩
    cases hp
    exact hnum
  | complete _ _ _ _ _ _ u howned _ =>
    cases hd
    exact ⟨owned howned, nofun, nofun⟩
  | abort _ _ _ _ _ u howned =>
    cases hd
    exact ⟨owned howned, nofun, nofun⟩
  | sweep _ u more =>
    cases hd
    exact ⟨fun v hv => h.listed (hlegal v hv), nofun, nofun⟩
  | rekeySession _ _ _ matching =>
    cases hd
    exact ⟨fun v hv => h.listed (hlegal v hv).1, nofun, nofun⟩
  | describe _ u num body o _ =>
    cases hd
    exact (h.call hi).go (List.Subset.refl _) nofun (Or.inr rfl)
  | validate _ u requested _ =>
    cases hd
    exact (h.call hi).go (List.Subset.refl _) nofun (Or.inl rfl)
  | pick _ u requested done num etag todo md _ =>
    cases hd
    exact (h.call hi).go (List.Subset.refl _) nofun (Or.inl rfl)
  | read _ u requested done md seen num todo o _ _ =>
    cases hd
    exact (h.call hi).go (List.Subset.refl _) nofun (Or.inl rfl)
  | append _ u requested done md seen num todo part _ =>
    cases hd
    exact (h.call hi).go (List.Subset.refl _) nofun (Or.inl rfl)
  | snapshot _ u more =>
    cases hd
    exact (h.call hi).go (List.Subset.refl _) nofun (Or.inl rfl)
  | fail _ _ => cases hd
  | lost _ _ _ _ _ => cases hd
  | refuse _ _ _ => cases hd
  | gone _ _ _ _ _ => cases hd
  | unread _ _ _ _ _ _ _ _ => cases hd
  | rekeyed _ _ => cases hd

theorem clearNext_named {t : State Obj} {u : MultipartUpload} {more : List MultipartUpload} {numbers : List ℕ}
    (h : (Call.deleting u numbers more : Call Obj).Named t) : ∀ d, clearNext more = some d → d.Named t := by
  intro d hd
  cases more with
  | nil => cases hd
  | cons v more =>
    cases hd
    exact h.go (List.subset_cons_self u _) nofun (Or.inl rfl)

/-- a new upload id changes no name -/
theorem Named.register {t : State Obj} (h : Named t) {i : ℕ} {uploadId : String} {now : ℕ} {new : NewUpload}
    (hi : t.calls i = some (.creating new)) (hfresh : t.created uploadId = none) :
    Named { (t.register ⟨uploadId, new.bucket, new.key, new.tokenHash, new.username, now, new.labels⟩).setCall i none with
      parts := Function.update t.parts uploadId ∅
      created := Function.update t.created uploadId (some (new.bucket, new.key)) } := by
  have hkeep : ∀ {id x}, t.created id = some x → Function.update t.created uploadId (some (new.bucket, new.key)) id = some x := by
    intro id x hid
    rw [Function.update_of_ne]
    · exact hid
    · intro heq
      rw [heq, hfresh] at hid
      cases hid
  have hquiet : Named (t.setCall i none) := h.setCall fun d hd => by cases hd
  exact {
    registry := by
      intro id u hu
      simp only [State.register, State.setCall, Function.update_apply] at hu
      split at hu
      · next heq =>
        cases hu
        rw [heq]
        exact ⟨rfl, Function.update_self ..⟩
      · exact ⟨(h.registry id u hu).1, hkeep (h.registry id u hu).2⟩
    calls := fun j c hj u hu => hkeep (hquiet.calls j c hj u hu)
    creating := fun j new' hj => hquiet.creating j new' hj
    key := by
      intro id b k hid
      simp only [Function.update_apply] at hid
      split at hid
      · cases hid
        exact h.creating i new hi
      · exact h.key id b k hid
    parts := by
      intro id num hnum
      simp only [Function.update_apply] at hnum
      split at hnum
      · exact absurd hnum Std.TreeMap.not_mem_emptyc
      · exact h.parts id num hnum
    part := fun j c id num hj => hquiet.part j c id num hj }

theorem Named.step {t : State Obj} {e : Ev Obj} (h : Named t) (hlegal : Legal S t e) : Named (step S maxPerSession t e) := by
  generalize hs : Multipart.step S maxPerSession t e = t'
  have hmoves : Moves S t e t' := hs ▸ step_moves S maxPerSession t e
  cases hmoves with
  | idle e => exact h
  | turn hturn => exact h.setCall fun d hd => (hd ▸ hturn).named S h hlegal
  | register i uploadId now new hi => exact h.register hi hlegal
  | store i o body u num hi =>
    have hgo := h.go hi (.stored u num body) (List.Subset.refl _) nofun (Or.inr rfl)
    exact ⟨hgo.registry, hgo.calls, hgo.creating, hgo.key, hgo.parts, hgo.part⟩
  | record i u num body etag hi =>
    have hgo : Named (t.setCall i none) := h.setCall nofun
    refine ⟨hgo.registry, hgo.calls, hgo.creating, hgo.key, fun id n hn => ?_, hgo.part⟩
    simp only [Function.update_apply] at hn
    split at hn
    · rcases Table.mem_insert_iff.1 hn with rfl | hn
      · exact (h.call hi).part _ num rfl
      · exact h.parts _ n hn
    · exact h.parts id n hn
  | commit i o u requested done hi =>
    have hgo := h.go hi (.clearing u []) (List.Subset.refl _) nofun (Or.inl rfl)
    exact ⟨hgo.registry, hgo.calls, hgo.creating, hgo.key, hgo.parts, hgo.part⟩
  | deletePart i u num numbers more hi =>
    have hgo := h.go hi (.deleting u numbers more) (List.Subset.refl _) nofun (Or.inl rfl)
    exact ⟨hgo.registry, hgo.calls, hgo.creating, hgo.key, hgo.parts, hgo.part⟩
  | remove i u more hi =>
    have hgo := h.setCall (i := i) (clearNext_named (h.call hi))
    refine ⟨fun id v hv => ?_, hgo.calls, hgo.creating, hgo.key, hgo.parts, hgo.part⟩
    simp only [Function.update_apply] at hv
    split at hv
    · cases hv
    · exact h.registry id v hv
  | rekey i new u todo hi =>
    have hgo := h.go hi (.rekeying new todo) (List.subset_cons_self u _) nofun (Or.inl rfl)
    refine ⟨fun id v hv => ?_, hgo.calls, hgo.creating, hgo.key, hgo.parts, hgo.part⟩
    simp only [State.register, State.setCall, Function.update_apply] at hv
    split at hv
    · next heq =>
      cases hv
      exact ⟨heq.symm, heq ▸ (h.call hi).uploads u List.mem_cons_self⟩
    · exact h.registry id v hv
  | put x o => exact ⟨h.registry, h.calls, h.creating, h.key, h.parts, h.part⟩
  | reseal x o o' _ => exact ⟨h.registry, h.calls, h.creating, h.key, h.parts, h.part⟩
  | delete x => exact ⟨h.registry, h.calls, h.creating, h.key, h.parts, h.part⟩

theorem init_named (objects : ObjKey → Option Obj) : Named (init objects) where
  registry := nofun
  calls := nofun
  creating := nofun
  key := nofun
  parts := fun _ _ h => absurd h Std.TreeMap.not_mem_emptyc
  part := nofun

end Y2q.Multipart
