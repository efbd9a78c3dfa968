/-
Replacing the labels of a stored object (`storage/filesystem.rs`, `set_labels_impl`; both backends use it).

The file is read whole and checked, its metadata opened, parsed, changed in two fields, and sealed again; header, padding, data, metadata
and trailer are put together anew from the old header and the new length, staged as `<id>.labels.tmp` and renamed over the old file.
The index gets the new metadata. Errors of the file system and of the index are left out, and so are the locks of writers.

- `setLabels`: the function. `setLabels_ok`: what it needs and what it leaves.
- `Relabelled`: the rewritten file opens with the old flags, offset and data, its metadata is the old one with the new labels and time, and
  the index row is that metadata.
- `relabelled_iff`: so it is exactly if the sealed metadata is shorter than 4 GiB.
- `long_labels_cut`: the length of a longer one is cut to 32 bits, and the object no longer opens.
-/
import Mathlib.Tactic
import Y2q.Storage.Buckets
import Y2q.Storage.SameObject

namespace Y2q.WritePaths

open Format NodeKeys
open MetadataIndex (Json Tables encodeObjectKey)
open Buckets (Error CharTable validateBucket validateKey)

/-! ## Model -/

/-- `obj_path.with_extension("labels.tmp")` -/
def labelsTmp (id : String) : ShardFile := { objFile id with stem := id ++ ".labels", ext := "tmp" }

/-- `now` and the nonce are what the clock and the generator give -/
structure LabelRequest where
  bucket : String
  key : String
  labels : List (String × String)
  now : UInt64
  nonce : Nonce

variable (S : Store) (U : CharTable)

def Store.labelledId (r : LabelRequest) : String := encodeObjectId S.P S.K.pathKey r.bucket r.key

/-- the metadata with only `labels` and `modified` replaced -/
def LabelRequest.relabel (r : LabelRequest) (m : Metadata) : Metadata := { m with labels := r.labels, modified := r.now }

def LabelRequest.internal (r : LabelRequest) (message : String) : Error := .internalError r.bucket r.key "set_labels" message

/-- the new contents: what `out` holds at the end -/
def relabelledFile (id : String) (header : Header) (data newMeta : Bytes) : Bytes :=
  let newHeader := { header with metaLen := UInt32.ofNat newMeta.length }
  let headerEnc := newHeader.encode S.P S.K.chk id
  setLen headerEnc header.dataOffset.toNat ++ data ++ newMeta ++ headerEnc

/-- `set_labels_impl` -/
def setLabels (r : LabelRequest) (files : Files) (index : Tables) : Except Error (Files × Tables) :=
  match validateBucket U r.bucket, validateKey r.key with
  | .error e, _ => .error e
  | .ok (), .error e => .error e
  | .ok (), .ok () =>
    let id := S.labelledId r
    match files.lookup (objFile id) with
    | none => .error (.notFound r.bucket r.key)
    | some bytes =>
      if bytes.length < HEADER_SIZE then .error (r.internal "object file shorter than header")
      else
        match Header.decode S.P (slice bytes 0 HEADER_SIZE) S.K.chk id with
        | .error e => .error (r.internal s!"decode header: {e.message}")
        | .ok header =>
          match header.checkTotalLen bytes.length with
          | .error e => .error (r.internal e.message)
          | .ok () =>
            let data := slice bytes header.dataOffset.toNat header.metaOffset
            let metaBytes := slice bytes header.metaOffset (header.metaOffset + header.metaLen.toNat)
            match decryptMeta S.P S.K.omk metaBytes id with
            | .error e => .error (r.internal s!"decrypt meta: {e.message}")
            | .ok metaJson =>
              match S.J.decode metaJson with
              | .error e => .error (r.internal s!"parse meta: {e}")
              | .ok metadata =>
                let relabelled := r.relabel metadata
                match encryptMeta S.P S.K.omk (S.J.encode relabelled) id META_PAD_BLOCK r.nonce with
                | .error e => .error (r.internal s!"encrypt meta: {e.message}")
                | .ok newMeta =>
                  .ok (Files.rename (files.insert (labelsTmp id) (relabelledFile S id header data newMeta)) (labelsTmp id) (objFile id),
                    MetadataIndex.upsert S.J relabelled index)

/-! ## Statement -/

/-- an object as `set_labels` finds it: a file that the three checks accept, with metadata that parses. No allocation is longer -/
structure Found (id : String) (files : Files) (h : Header) (data : Bytes) (m : Metadata) : Prop where
  accepted : ∃ bytes json, files.lookup (objFile id) = some bytes ∧ Parts S.P S.K id bytes h data json ∧ S.J.decode json = .ok m ∧
    bytes.length < 2 ^ 63

/-- the labels, and nothing else, are changed -/
structure Relabelled (id : String) (h : Header) (data : Bytes) (m : Metadata) (files files' : Files) (index' : Tables) : Prop where
  stored : ∃ file h', files'.lookup (objFile id) = some file ∧ Stored S id file data h' m ∧ h'.flags = h.flags ∧
    h'.dataOffset = h.dataOffset
  others : ∀ p, p ≠ objFile id → p ≠ labelsTmp id → files'.lookup p = files.lookup p
  row : index'.objects[encodeObjectKey m.bucket m.key]? = some (S.J.encode m)

variable {S U} {r : LabelRequest} {files files' : Files} {index index' : Tables} {h : Header} {data newMeta : Bytes} {m : Metadata}
  {id : String}

/-! ## What is left -/

theorem relabelledFile_eq (hw : h.Wf) : relabelledFile S id h data newMeta =
    container S.P S.K id { h with metaLen := UInt32.ofNat newMeta.length } data newMeta := by
  have hoff := hw.dataOffset
  have hz : HEADER_SIZE = 64 := rfl
  rw [relabelledFile, container, setLen, Header.length_encode, List.take_of_length_le (by rw [Header.length_encode]; exact hoff), hz]

theorem setLabels_ok (hbucket : validateBucket U r.bucket = .ok ()) (hkey : validateKey r.key = .ok ())
    (hfound : Found S (S.labelledId r) files h data m) :
    setLabels S U r files index =
      match encryptMeta S.P S.K.omk (S.J.encode (r.relabel m)) (S.labelledId r) META_PAD_BLOCK r.nonce with
      | .error e => .error (r.internal s!"encrypt meta: {e.message}")
      | .ok newMeta => .ok (Files.rename (files.insert (labelsTmp (S.labelledId r)) (relabelledFile S (S.labelledId r) h data newMeta))
          (labelsTmp (S.labelledId r)) (objFile (S.labelledId r)), MetadataIndex.upsert S.J (r.relabel m) index) := by
  obtain ⟨bytes, json, hfile, hparts, hjson, -⟩ := hfound.accepted
  have htotal := hparts.total
  have hz : HEADER_SIZE = 64 := rfl
  simp only [setLabels, hbucket, hkey, hfile]
  rw [if_neg (by omega)]
  simp only [hparts.decode, Header.checkTotalLen_ok.2 ⟨htotal, hparts.lt⟩, hparts.sidecar, hjson, ← hparts.data_eq]

/-- a file staged under another name and renamed over the old one -/
theorem lookup_relabel (files : Files) (tmp : ShardFile) (file : Bytes) :
    (Files.rename (files.insert tmp file) tmp (objFile id)).lookup (objFile id) = some file ∧
      ∀ p, p ≠ objFile id → p ≠ tmp → (Files.rename (files.insert tmp file) tmp (objFile id)).lookup p = files.lookup p := by
  rw [Files.rename, AList.lookup_insert]
  refine ⟨AList.lookup_insert _, fun p hp hp' => ?_⟩
  simp only
  rw [AList.lookup_insert_ne hp, AList.lookup_erase_ne hp', AList.lookup_insert_ne hp']

/-- the header of the new file declares its length if the length of the sidecar fits 32 bits -/
theorem total_iff (hw : h.Wf) (hlen : h.dataLen.toNat = data.length) (hlt : h.dataOffset.toNat + data.length < 2 ^ 63) :
    ({ h with metaLen := UInt32.ofNat newMeta.length } : Header).checkTotalLen (relabelledFile S id h data newMeta).length = .ok () ↔
      newMeta.length < 2 ^ 32 := by
  have hw' : ({ h with metaLen := UInt32.ofNat newMeta.length } : Header).Wf := ⟨hw.version, hw.dataOffset⟩
  rw [Header.checkTotalLen_ok, relabelledFile_eq hw, length_container hw', UInt32.toNat_ofNat', hlen]
  have hcut := Nat.mod_lt newMeta.length (show 2 ^ 32 > 0 by decide)
  constructor
  · rintro ⟨htotal, -⟩
    change h.dataOffset.toNat + data.length + newMeta.length % 2 ^ 32 + 64 = h.dataOffset.toNat + data.length + newMeta.length + 64
      at htotal
    omega
  · intro hshort
    rw [Nat.mod_eq_of_lt hshort]
    refine ⟨rfl, ?_⟩
    change h.dataOffset.toNat + data.length + newMeta.length + 64 < 2 ^ 64
    omega

/-- the new file stores the data and the new metadata, if its length fits -/
theorem stored_relabelled (hw : h.Wf) (hlen : h.dataLen.toNat = data.length) (hlt : h.dataOffset.toNat + data.length < 2 ^ 63)
    (hsidecar : decryptMeta S.P S.K.omk newMeta id = .ok (S.J.encode m)) (hshort : newMeta.length < 2 ^ 32) :
    Stored S id (relabelledFile S id h data newMeta) data { h with metaLen := UInt32.ofNat newMeta.length } m := by
  have htotal := (@total_iff S h data newMeta id hw hlen hlt).2 hshort
  rw [relabelledFile_eq hw] at htotal ⊢
  have hmeta : newMeta.length = (UInt32.ofNat newMeta.length).toNat := by
    rw [UInt32.toNat_ofNat']
    exact (Nat.mod_eq_of_lt hshort).symm
  generalize hh : ({ h with metaLen := UInt32.ofNat newMeta.length } : Header) = h' at *
  have hw' : h'.Wf := by
    rw [← hh]
    exact ⟨hw.version, hw.dataOffset⟩
  have hmeta' : newMeta.length = h'.metaLen.toNat := by rw [← hh]; exact hmeta
  have hlen' : data.length = h'.dataLen.toNat := by rw [← hh]; exact hlen.symm
  have hlt' : h'.dataOffset.toNat + h'.dataLen.toNat < 2 ^ 63 := by rw [← hh]; exact hlen ▸ hlt
  have hmax := h'.metaLen.toNat_lt
  have hparts : Parts S.P S.K id (container S.P S.K id h' data newMeta) h' data (S.J.encode m) :=
    parts_container hw' hlen' hmeta' (by omega) hsidecar
  refine ⟨hparts.decode, htotal, hparts.data_eq.symm, ?_, S.J.encode m, hparts.sidecar, S.J.round_trip m⟩
  rw [head_container]
  have hoff : h'.trailerOffset = h'.dataOffset.toNat + data.length + newMeta.length := by
    rw [Header.trailerOffset, hparts.metaOffset, hlen', hmeta']
    exact Nat.mod_eq_of_lt (by omega)
  have hsections := @length_sections S id h' hw'.dataOffset data newMeta
  have htrailer : slice (sections S id h' data newMeta ++ h'.encode S.P S.K.chk id ++ []) h'.trailerOffset
      (h'.trailerOffset + HEADER_SIZE) = h'.encode S.P S.K.chk id :=
    slice_middle (hsections.trans hoff.symm) (by rw [Header.length_encode])
  rwa [List.append_nil] at htrailer

section Outcome

variable (hbucket : validateBucket U r.bucket = .ok ()) (hkey : validateKey r.key = .ok ())
  (hfound : Found S (S.labelledId r) files h data m)
include hbucket hkey hfound

/-- it is refused only if the metadata is too large to seal -/
theorem setLabels_accepts : (∃ out, setLabels S U r files index = .ok out) ↔ (S.J.encode (r.relabel m)).length < 2 ^ 32 := by
  rw [setLabels_ok hbucket hkey hfound]
  constructor
  · rintro ⟨out, hout⟩
    by_contra hlong
    rw [encryptMeta, if_pos (Nat.not_lt.1 hlong)] at hout
    cases hout
  · intro hshort
    obtain ⟨newMeta, hseal⟩ := @encryptMeta_ok S.P S.K.omk _ (S.labelledId r) META_PAD_BLOCK r.nonce hshort
    rw [hseal]
    exact ⟨_, rfl⟩

/-- what a run leaves, with the sidecar it has sealed -/
theorem setLabels_leaves (hset : setLabels S U r files index = .ok (files', index')) :
    ∃ newMeta, encryptMeta S.P S.K.omk (S.J.encode (r.relabel m)) (S.labelledId r) META_PAD_BLOCK r.nonce = .ok newMeta ∧
      files'.lookup (objFile (S.labelledId r)) = some (relabelledFile S (S.labelledId r) h data newMeta) ∧
      (∀ p, p ≠ objFile (S.labelledId r) → p ≠ labelsTmp (S.labelledId r) → files'.lookup p = files.lookup p) ∧
      index' = MetadataIndex.upsert S.J (r.relabel m) index := by
  rw [setLabels_ok hbucket hkey hfound] at hset
  cases hseal : encryptMeta S.P S.K.omk (S.J.encode (r.relabel m)) (S.labelledId r) META_PAD_BLOCK r.nonce with
  | error e =>
    rw [hseal] at hset
    cases hset
  | ok newMeta =>
    rw [hseal] at hset
    cases hset
    obtain ⟨hnew, hothers⟩ := @lookup_relabel (S.labelledId r) files (labelsTmp (S.labelledId r))
      (relabelledFile S (S.labelledId r) h data newMeta)
    exact ⟨newMeta, rfl, hnew, hothers, rfl⟩

theorem relabelled_short (hset : setLabels S U r files index = .ok (files', index'))
    (hrelabelled : Relabelled S (S.labelledId r) h data (r.relabel m) files files' index') :
    sealedLen (S.J.encode (r.relabel m)).length META_PAD_BLOCK < 2 ^ 32 := by
  obtain ⟨newMeta, hseal, hnew, -, -⟩ := setLabels_leaves hbucket hkey hfound hset
  obtain ⟨bytes, json, -, hparts, -, hbytes⟩ := hfound.accepted
  obtain ⟨file, h', hfile, hstored, -⟩ := hrelabelled.stored
  have htotal := hparts.total
  have hdata := hparts.length_data
  rw [hnew] at hfile
  cases hfile
  -- the header that decodes is the one written
  have hdecode := hstored.decode
  have hw' : ({ h with metaLen := UInt32.ofNat newMeta.length } : Header).Wf := ⟨hparts.wf.version, hparts.wf.dataOffset⟩
  rw [relabelledFile_eq hparts.wf, decode_container hw'] at hdecode
  cases hdecode
  rw [← length_encryptMeta hseal]
  exact (total_iff hparts.wf hdata.symm (by omega)).1 hstored.total

theorem relabelled_of_short (hset : setLabels S U r files index = .ok (files', index'))
    (hshort : sealedLen (S.J.encode (r.relabel m)).length META_PAD_BLOCK < 2 ^ 32) :
    Relabelled S (S.labelledId r) h data (r.relabel m) files files' index' := by
  obtain ⟨newMeta, hseal, hnew, hothers, rfl⟩ := setLabels_leaves hbucket hkey hfound hset
  obtain ⟨bytes, json, -, hparts, -, hbytes⟩ := hfound.accepted
  have htotal := hparts.total
  have hdata := hparts.length_data
  rw [← length_encryptMeta hseal] at hshort
  have hstored := stored_relabelled hparts.wf hdata.symm (by omega) (decryptMeta_encryptMeta hseal) hshort
  exact ⟨⟨_, _, hnew, hstored, rfl, rfl⟩, hothers, Std.TreeMap.getElem?_insert_self⟩

/-- **Only the labels change**, exactly if the sealed metadata is shorter than 4 GiB; it is refused only if the metadata is not. -/
theorem relabelled_iff : ((∃ out, setLabels S U r files index = .ok out) ↔ (S.J.encode (r.relabel m)).length < 2 ^ 32) ∧
    ∀ files' index', setLabels S U r files index = .ok (files', index') →
      (Relabelled S (S.labelledId r) h data (r.relabel m) files files' index' ↔
        sealedLen (S.J.encode (r.relabel m)).length META_PAD_BLOCK < 2 ^ 32) :=
  ⟨setLabels_accepts hbucket hkey hfound, fun _ _ hset =>
    ⟨relabelled_short hbucket hkey hfound hset, relabelled_of_short hbucket hkey hfound hset⟩⟩

end Outcome

/-! ## A long label -/

namespace LongLabel

def record : Metadata :=
  ⟨1, 1, 1, "", "b", "k", "/k", "b/k", [], none, none, none, none, none, none, none, none⟩

/-- the record with one label, with a value of `k` letters -/
def labelled (k : ℕ) : Metadata :=
  ⟨1, 2, 1, "", "b", "k", "/k", "b/k", [("n", String.ofList (List.replicate k 'x'))], none, none, none, none, none, none, none, none⟩

def recordText : Bytes := utf8 ("\x7b\"created\":1,\"modified\":1,\"size\":1,\"checksum_gxhash\":\"\",\"bucket\":\"b\",\"key\":\"k\"," ++
  "\"disk_path\":\"/k\",\"url_path\":\"b/k\",\"labels\":[],\"cipher_size\":null,\"cipher_checksum\":null,\"kem_alg\":null," ++
  "\"aead_alg\":null,\"envelope_version\":null,\"version\":null,\"committed_at\":null,\"key_epoch\":null\x7d")

def front : Bytes := utf8 ("\x7b\"created\":1,\"modified\":2,\"size\":1,\"checksum_gxhash\":\"\",\"bucket\":\"b\",\"key\":\"k\"," ++
  "\"disk_path\":\"/k\",\"url_path\":\"b/k\",\"labels\":[[\"n\",\"")

def back : Bytes := utf8 ("\"]],\"cipher_size\":null,\"cipher_checksum\":null,\"kem_alg\":null,\"aead_alg\":null," ++
  "\"envelope_version\":null,\"version\":null,\"committed_at\":null,\"key_epoch\":null\x7d")

def labelledText (k : ℕ) : Bytes := front ++ List.replicate k 120 ++ back

theorem length_labelledText (k : ℕ) : (labelledText k).length = 282 + k := by
  have hfront : front.length = 129 := by decide +kernel
  have hback : back.length = 153 := by decide +kernel
  rw [labelledText, List.length_append, List.length_append, List.length_replicate, hfront, hback]
  omega

/-- the two texts differ in the time of the last change -/
theorem labelledText_ne (k : ℕ) : labelledText k ≠ recordText := by
  intro h
  have hfront : (labelledText k).take 129 = front := by
    rw [labelledText, List.append_assoc]
    exact List.take_left' (by decide +kernel)
  rw [h] at hfront
  exact absurd hfront (by decide +kernel)

theorem head?_labelledText (k : ℕ) : (labelledText k).head? = some 123 := by
  have hfront : front.head? = some 123 := by decide +kernel
  rw [labelledText, List.append_assoc, List.head?_append_of_ne_nil _ (by decide +kernel), hfront]

/-- the texts of these records, and texts that no JSON begins like for the others -/
noncomputable def texts : Json where
  encode m :=
    let k := (m.labels.headD ("", "")).2.length
    if m = record then recordText else if m = labelled k then labelledText k else 0 :: MetadataIndex.sampleJson.encode m
  decode b :=
    if b = recordText then .ok record
    else if b = labelledText (b.length - 282) then .ok (labelled (b.length - 282))
    else MetadataIndex.sampleJson.decode (b.drop 1)
  round_trip m := by
    by_cases hrecord : m = record
    · rw [if_pos hrecord, if_pos rfl, hrecord]
    simp only
    rw [if_neg hrecord]
    by_cases hlabelled : m = labelled (m.labels.headD ("", "")).2.length
    · have hlen := length_labelledText (m.labels.headD ("", "")).2.length
      rw [if_pos hlabelled, if_neg (labelledText_ne _), hlen, Nat.add_sub_cancel_left, if_pos rfl, ← hlabelled]
    · have hzero : ∀ {l l' : Bytes}, l'.head? = some 123 → 0 :: l ≠ l' := fun hhead h => by
        rw [← h] at hhead
        exact absurd (Option.some.inj hhead) (by decide)
      rw [if_neg hlabelled, if_neg (hzero (by decide +kernel)), if_neg (hzero (head?_labelledText _)), List.drop_one, List.tail_cons]
      exact MetadataIndex.sampleJson.round_trip m

noncomputable def store : Store := ⟨Fallback.primitives, texts, ⟨[], [], [], []⟩, fun _ => "", fun _ => "/k"⟩

def asciiNames : CharTable := ⟨Char.isAlphanum, Buckets.isAlphanum_ascii⟩

theorem valid_b : validateBucket asciiNames "b" = .ok () := by
  unfold validateBucket
  rw [if_neg]
  simp only [asciiNames, Buckets.RESERVED_BUCKETS, List.mem_singleton]
  simp
  decide

theorem valid_k : validateKey "k" = .ok () := by decide +kernel

/-- one label, with a value of `k` letters -/
def request (k : ℕ) : LabelRequest :=
  ⟨"b", "k", [("n", String.ofList (List.replicate k 'x'))], 2, ⟨List.replicate 12 0, length_zeroNonce⟩⟩

theorem encode_record : store.J.encode record = recordText := by
  simp only [store, texts, if_true]

theorem encode_relabelled (k : ℕ) : store.J.encode ((request k).relabel record) = labelledText k := by
  have hlen : (String.ofList (List.replicate k 'x')).length = k := by rw [String.length_ofList, List.length_replicate]
  have hrelabel : (request k).relabel record = labelled k := rfl
  have hne : labelled k ≠ record := fun h => absurd (congrArg MetadataIndex.Metadata.modified h) (show (2 : UInt64) ≠ 1 by decide)
  rw [hrelabel]
  change (if labelled k = record then recordText else if labelled k = labelled _ then labelledText _ else _) = _
  rw [if_neg hne]
  change (if labelled k = labelled (String.ofList (List.replicate k 'x')).length then labelledText _ else _) = _
  rw [hlen, if_pos rfl]
  exact congrArg labelledText hlen

/-- the object, as a put into an empty bucket leaves it -/
theorem exists_found (k : ℕ) : ∃ files h, Found store (store.labelledId (request k)) files h [7] record := by
  have hlen : (store.J.encode record).length = 274 := by
    rw [encode_record]
    decide +kernel
  have hput : ∃ out, (Path.filesystemPut Fallback.payload).put store Fallback.request ∅ = .ok out :=
    Path.put_accepts.2 (show (store.J.encode record).length < 2 ^ 32 by rw [hlen]; decide)
  obtain ⟨⟨files, row⟩, hput⟩ := hput
  obtain ⟨metaBytes, file, head, hseal, L, rfl, -⟩ := Path.put_ok hput
  change sealMeta store Fallback.request record = .ok metaBytes at hseal
  have hshort : metaBytes.length < 2 ^ 32 := by
    rw [length_sealMeta hseal, hlen]
    decide
  have hparts := L.parts hshort (decryptMeta_encryptMeta hseal)
  have htotal := hparts.total
  have hoff := L.offset
  have hdata : head.dataLen.toNat = 1 := L.dataLen
  have hmeta := head.metaLen.toNat_lt
  exact ⟨install ∅ _ file, head, file, store.J.encode record, lookup_install _ _ _, hparts, store.J.round_trip record, by omega⟩

end LongLabel

open LongLabel in
theorem relabelled_iff_one_letter : ∃ files h, ((∃ out, setLabels store asciiNames (request 1) files Tables.empty = .ok out) ↔
    (store.J.encode ((request 1).relabel record)).length < 2 ^ 32) ∧
    ∀ files' index', setLabels store asciiNames (request 1) files Tables.empty = .ok (files', index') →
      (Relabelled store (store.labelledId (request 1)) h [7] ((request 1).relabel record) files files' index' ↔
        sealedLen (store.J.encode ((request 1).relabel record)).length META_PAD_BLOCK < 2 ^ 32) := by
  obtain ⟨files, h, hfound⟩ := exists_found 1
  exact ⟨files, h, relabelled_iff valid_b valid_k hfound⟩

open LongLabel in
theorem cut_of_long {k : ℕ} (hseal : 282 + k < 2 ^ 32) (hlong : 2 ^ 32 ≤ sealedLen (282 + k) META_PAD_BLOCK) :
    ∃ files h files' index', Found store (store.labelledId (request k)) files h [7] record ∧
      setLabels store asciiNames (request k) files Tables.empty = .ok (files', index') ∧
      ¬Relabelled store (store.labelledId (request k)) h [7] ((request k).relabel record) files files' index' := by
  obtain ⟨files, h, hfound⟩ := exists_found k
  have hlen : (store.J.encode ((request k).relabel record)).length = 282 + k := by rw [encode_relabelled, length_labelledText]
  have haccepted : ∃ out, setLabels store asciiNames (request k) files Tables.empty = .ok out :=
    (setLabels_accepts valid_b valid_k hfound).2 (hlen ▸ hseal)
  obtain ⟨⟨files', index'⟩, hset⟩ := haccepted
  refine ⟨files, h, files', index', hfound, hset, fun hrelabelled => ?_⟩
  have hshort := relabelled_short valid_b valid_k hfound hset hrelabelled
  rw [hlen] at hshort
  omega

open LongLabel in
/-- a label of 4 GiB less a kilobyte: its text can be sealed, and the length of the sidecar is cut to 32 bits -/
theorem long_labels_cut : ∃ files h files' index', Found store (store.labelledId (request (2 ^ 32 - 1024))) files h [7] record ∧
    setLabels store asciiNames (request (2 ^ 32 - 1024)) files Tables.empty = .ok (files', index') ∧
    ¬Relabelled store (store.labelledId (request (2 ^ 32 - 1024))) h [7] ((request (2 ^ 32 - 1024)).relabel record) files files' index' :=
  cut_of_long (by decide) (by decide)

end Y2q.WritePaths
