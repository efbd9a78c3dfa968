/-
The on-disk object tree and its readers (`storage/filesystem.rs`).

    <base>/<bucket_dir>/.y2q-bucket.json           sealed bucket config
    <base>/<bucket_dir>/<xx>/<yy>/<id>.obj         one object, in the container format

Bucket directories and object ids are keyed hashes under the path key. A `Tree` is the base directory: a finite map from
directory names to bucket directories; a bucket directory holds the config sidecar, its staging file, and the files two
levels down. A file name is split into stem and extension the way `Path::file_stem` and `Path::extension` do. The metadata
JSON is parsed by serde (third-party); of the parsed record the modelled code uses the bucket and the key.

- `readObject`: what a reader of `(bucket, key)` gets under the keys of one node key: `Header::decode`,
  `check_total_len`, the data section, and the sidecar opened by `decrypt_meta`.
- `readConfig`: the same for a bucket's config.
-/
import Mathlib.Data.Finmap
import Mathlib.Tactic
import Y2q.Crypto.NodeKeys

namespace Y2q

open Format NodeKeys

/-! ## Names -/

def hexDigit (n : ℕ) : Char := if n < 10 then Char.ofNat (48 + n) else Char.ofNat (87 + n)

/-- lowercase hex -/
def toHex (b : Bytes) : String := String.ofList (b.flatMap fun x => [hexDigit (x.toNat / 16), hexDigit (x.toNat % 16)])

def encodeBucketDir (P : Primitives) (pathKey : Bytes) (bucket : String) : String :=
  toHex (prf P pathKey (utf8 "y2q-bucket\x00" ++ lenPrefixed bucket))

def encodeObjectId (P : Primitives) (pathKey : Bytes) (bucket key : String) : String :=
  toHex (prf P pathKey (utf8 "y2q-object\x00" ++ lenPrefixed bucket ++ lenPrefixed key))

/-- a file `<xx>/<yy>/<stem>.<ext>` of a bucket directory -/
structure ShardFile where
  xx : String
  yy : String
  stem : String
  ext : String
deriving DecidableEq, Repr

/-- `<id[0..2]>/<id[2..4]>/<id>.obj` -/
def objFile (id : String) : ShardFile :=
  ⟨String.ofList (id.toList.take 2), String.ofList ((id.toList.drop 2).take 2), id, "obj"⟩

/-- `Path::with_extension("tmp")` -/
def ShardFile.tmp (p : ShardFile) : ShardFile := { p with ext := "tmp" }

/-! ## The tree -/

abbrev Files := AList fun _ : ShardFile => Bytes

/-- rename within a directory: replaces the target -/
def Files.rename (f : Files) (src dst : ShardFile) : Files :=
  match f.lookup src with
  | none => f
  | some b => (f.erase src).insert dst b

structure BucketDir where
  /-- `.y2q-bucket.json` -/
  config : Option Bytes
  /-- `.y2q-bucket.json.rotate-tmp` -/
  configTmp : Option Bytes
  files : Files

abbrev Tree := Finmap fun _ : String => BucketDir

/-- the names of the `*.obj` files, in the order the directory lists them -/
def BucketDir.objFiles (d : BucketDir) : List ShardFile := d.files.keys.filter fun p => p.ext = "obj"

theorem BucketDir.mem_objFiles {d : BucketDir} {p : ShardFile} : p ∈ d.objFiles ↔ p ∈ d.files ∧ p.ext = "obj" := by
  simp [objFiles, AList.mem_keys]

theorem BucketDir.nodup_objFiles (d : BucketDir) : d.objFiles.Nodup := d.files.keys_nodup.filter _

/-! ## Readers -/

/-- the node-derived keys the tree is written under -/
structure StoreKeys where
  pathKey : Bytes
  omk : Bytes
  bck : Bytes
  chk : Bytes
deriving DecidableEq, Repr

def deriveStoreKeys (P : Primitives) (nk : Bytes) : StoreKeys :=
  ⟨derivePathKey P nk, deriveObjectMetadataKey P nk, deriveBucketConfigKey P nk, deriveContainerHeaderKey P nk⟩

structure Metadata where
  bucket : String
  key : String
deriving DecidableEq, Repr

/-- the primitives and `serde_json::from_slice::<Metadata>` -/
structure Env extends Primitives where
  parseMetadata : Bytes → Except String Metadata

variable (P : Primitives)

/-- an object file, opened: its data bytes and its metadata JSON -/
def openObject (K : StoreKeys) (id : String) (bytes : Bytes) : Option (Bytes × Bytes) :=
  if bytes.length < HEADER_SIZE then none
  else
    match Header.decode P (slice bytes 0 HEADER_SIZE) K.chk id with
    | .error _ => none
    | .ok h =>
      match h.checkTotalLen bytes.length with
      | .error _ => none
      | .ok () =>
        match decryptMeta P K.omk (slice bytes h.metaOffset (h.metaOffset + h.metaLen.toNat)) id with
        | .error _ => none
        | .ok json => some (slice bytes h.dataOffset.toNat h.metaOffset, json)

/-- a readable object file, taken apart -/
structure Parts (K : StoreKeys) (id : String) (bytes : Bytes) (h : Header) (data json : Bytes) : Prop where
  decode : Header.decode P (slice bytes 0 HEADER_SIZE) K.chk id = .ok h
  total : h.dataOffset.toNat + h.dataLen.toNat + h.metaLen.toNat + 64 = bytes.length
  lt : bytes.length < 2 ^ 64
  data_eq : data = slice bytes h.dataOffset.toNat h.metaOffset
  sidecar : decryptMeta P K.omk (slice bytes h.metaOffset (h.metaOffset + h.metaLen.toNat)) id = .ok json

variable {P} in
theorem Header.checkTotalLen_ok {h : Header} {n : ℕ} :
    h.checkTotalLen n = .ok () ↔
      h.dataOffset.toNat + h.dataLen.toNat + h.metaLen.toNat + 64 = n ∧ n < 2 ^ 64 := by
  unfold Header.checkTotalLen Header.checkedTotalLen
  by_cases h1 : h.dataOffset.toNat + h.dataLen.toNat + h.metaLen.toNat + 64 < 2 ^ 64
  · rw [if_pos h1]
    by_cases h2 : h.dataOffset.toNat + h.dataLen.toNat + h.metaLen.toNat + 64 = n
    · simp only [if_pos h2, true_iff]; exact ⟨h2, by omega⟩
    · simp only [h2, false_and, iff_false]; intro hc; cases hc
  · rw [if_neg h1]
    constructor
    · intro hc; cases hc
    · intro hc; omega

variable {P} in
theorem openObject_eq_some {K : StoreKeys} {id : String} {bytes data json : Bytes} :
    openObject P K id bytes = some (data, json) ↔ ∃ h, Parts P K id bytes h data json := by
  unfold openObject
  constructor
  · intro ho
    split_ifs at ho
    cases hd : Header.decode P (slice bytes 0 HEADER_SIZE) K.chk id with
    | error e => rw [hd] at ho; cases ho
    | ok h =>
      rw [hd] at ho
      simp only at ho
      cases ht : h.checkTotalLen bytes.length with
      | error e => rw [ht] at ho; cases ho
      | ok u =>
        rw [ht] at ho
        simp only at ho
        cases hm : decryptMeta P K.omk (slice bytes h.metaOffset (h.metaOffset + h.metaLen.toNat)) id with
        | error e => rw [hm] at ho; cases ho
        | ok j =>
          rw [hm] at ho
          cases ho
          obtain ⟨h1, h2⟩ := Header.checkTotalLen_ok.1 ht
          exact ⟨h, hd, h1, h2, rfl, hm⟩
  · rintro ⟨h, hd, h1, h2, rfl, hm⟩
    rw [if_neg (by simp only [HEADER_SIZE]; omega), hd]
    simp only [Header.checkTotalLen_ok.2 ⟨h1, h2⟩, hm]

namespace Parts

variable {P} {K : StoreKeys} {id : String} {bytes data json : Bytes} {h : Header}

theorem wf (p : Parts P K id bytes h data json) : h.Wf := Header.decode_wf p.decode

theorem metaOffset (p : Parts P K id bytes h data json) : h.metaOffset = h.dataOffset.toNat + h.dataLen.toNat := by
  have h1 := p.total
  have h2 := p.lt
  unfold Header.metaOffset
  exact Nat.mod_eq_of_lt (by omega)

theorem length_data (p : Parts P K id bytes h data json) : data.length = h.dataLen.toNat := by
  have h1 := p.total
  have hw := p.wf.dataOffset
  rw [p.data_eq, p.metaOffset, length_slice (by omega)]
  omega

theorem length_json (p : Parts P K id bytes h data json) : json.length < 2 ^ 32 := by
  have hl := length_decryptMeta p.sidecar
  have hm := h.metaLen.toNat_lt
  have hs : (slice bytes h.metaOffset (h.metaOffset + h.metaLen.toNat)).length ≤ h.metaLen.toNat := by
    simp only [slice, List.length_take]; omega
  omega

/-- a file opens in one way only -/
theorem unique (p : Parts P K id bytes h data json) {h' : Header} {data' json' : Bytes}
    (p' : Parts P K id bytes h' data' json') : h = h' ∧ data = data' ∧ json = json' := by
  have e : h = h' := by have := p.decode.symm.trans p'.decode; cases this; rfl
  subst e
  refine ⟨rfl, p.data_eq.trans p'.data_eq.symm, ?_⟩
  have := p.sidecar.symm.trans p'.sidecar
  cases this; rfl

end Parts

/-- the layout of an object file -/
def container (K : StoreKeys) (id : String) (h : Header) (data sidecar : Bytes) : Bytes :=
  h.encode P K.chk id ++ List.replicate (h.dataOffset.toNat - HEADER_SIZE) 0 ++ data ++ sidecar ++ h.encode P K.chk id

section Container

variable {P} {K : StoreKeys} {id : String} {data json sidecar : Bytes} {h : Header}

theorem length_container (hw : h.Wf) (data sidecar : Bytes) :
    (container P K id h data sidecar).length = h.dataOffset.toNat + data.length + sidecar.length + 64 := by
  have := hw.dataOffset
  have hz : h.dataOffset.toNat - HEADER_SIZE = h.dataOffset.toNat - 64 := rfl
  simp only [container, List.length_append, Header.length_encode, List.length_replicate, hz]
  omega

theorem head_container (h : Header) (data sidecar : Bytes) :
    slice (container P K id h data sidecar) 0 HEADER_SIZE = h.encode P K.chk id := by
  simp only [container, List.append_assoc]
  exact slice_front (Header.length_encode _ _ _ _)

theorem decode_container (hw : h.Wf) (data sidecar : Bytes) :
    Header.decode P (slice (container P K id h data sidecar) 0 HEADER_SIZE) K.chk id = .ok h := by
  rw [head_container]
  exact Header.decode_encode _ hw _ _

/-- a file whose header declares the lengths of its sections is readable -/
theorem parts_container (hw : h.Wf) (hd : data.length = h.dataLen.toNat) (hm : sidecar.length = h.metaLen.toNat)
    (hlt : h.dataOffset.toNat + h.dataLen.toNat + h.metaLen.toNat + 64 < 2 ^ 64)
    (hs : decryptMeta P K.omk sidecar id = .ok json) : Parts P K id (container P K id h data sidecar) h data json := by
  have hoff := hw.dataOffset
  have hz : h.dataOffset.toNat - HEADER_SIZE = h.dataOffset.toNat - 64 := rfl
  have htot := @length_container P K id h hw data sidecar
  have hmo : h.metaOffset = h.dataOffset.toNat + h.dataLen.toNat := Nat.mod_eq_of_lt (by omega)
  refine ⟨decode_container hw data sidecar, by rw [htot, hd, hm], by rw [htot, hd, hm]; exact hlt, ?_, ?_⟩
  · rw [hmo]
    simp only [container, List.append_assoc]
    rw [← List.append_assoc, ← List.append_assoc]
    refine (slice_middle ?_ ?_).symm
    · simp only [List.length_append, Header.length_encode, List.length_replicate, hz]; omega
    · rw [hd]
  · have hside : slice (container P K id h data sidecar) h.metaOffset (h.metaOffset + h.metaLen.toNat) = sidecar := by
      rw [hmo]
      refine slice_middle ?_ ?_
      · simp only [List.length_append, Header.length_encode, List.length_replicate, hd, hz]; omega
      · rw [hm]
    rw [hside]; exact hs

end Container

def BucketDir.read (K : StoreKeys) (d : BucketDir) (bucket key : String) : Option (Bytes × Bytes) :=
  (d.files.lookup (objFile (encodeObjectId P K.pathKey bucket key))).bind
    (openObject P K (encodeObjectId P K.pathKey bucket key))

def BucketDir.readConfig (K : StoreKeys) (d : BucketDir) (bucket : String) : Option Bytes :=
  d.config.bind fun c => (decryptMeta P K.bck c (encodeBucketDir P K.pathKey bucket)).toOption

def readObject (K : StoreKeys) (t : Tree) (bucket key : String) : Option (Bytes × Bytes) :=
  (t.lookup (encodeBucketDir P K.pathKey bucket)).bind fun d => d.read P K bucket key

def readConfig (K : StoreKeys) (t : Tree) (bucket : String) : Option Bytes :=
  (t.lookup (encodeBucketDir P K.pathKey bucket)).bind fun d => d.readConfig P K bucket

end Y2q
