/-
Do all write paths store the same object?

- `Path`: the four functions that write an object, with what each is called with. `Path.put` runs one.
- `SameObject`: the file opens, holds the data, ends in its header, and has the sealed metadata that was asked for; and either backend
  reads the data and the row of the put from it.
- `Path.put_ok`: what a put leaves, by path.
- `same_object_iff`: a put stores the same object exactly if the sealed metadata is shorter than 4 GiB and, for a buffered uring put,
  plaintext metrics and cipher metadata come together, and a fallback from direct I/O finds its label among those asked for.
- `fallback_row_differs`: the row of a fallback has a label that the object does not have.
-/
import Mathlib.Tactic
import Y2q.Storage.WritePaths

namespace Y2q.WritePaths

open Format NodeKeys RangeReads
open MetadataIndex (Json)

variable (S : Store)

/-! ## Statement -/

inductive Path where
  | filesystemPut (payload : Payload)
  | filesystemStreaming (s : Stream)
  /-- buffered or direct, as the configuration and the length say -/
  | uringPut (largeObjectBytes : UInt64) (direct : Bool) (payload : Payload)
  | uringStreaming (s : Stream)

namespace Path

def put : Path → PutRequest → Files → Except CryptoError (Files × Metadata)
  | .filesystemPut payload, r, files => WritePaths.filesystemPut S r payload files
  | .filesystemStreaming s, r, files => filesystemCommit S r s files
  | .uringPut largeObjectBytes direct payload, r, files => WritePaths.uringPut S largeObjectBytes direct r payload files
  | .uringStreaming s, r, files => uringCommit S r s files

def data : Path → Bytes
  | .filesystemPut payload => payload.bytes
  | .filesystemStreaming s => streamed s.writes
  | .uringPut _ _ payload => payload.bytes
  | .uringStreaming s => streamed s.writes

/-- the metadata that is asked for: the caller's metrics if there are any, else those of the data, and the caller's cipher metadata -/
def asked (r : PutRequest) (priorCreated : Option UInt64) : Path → Metadata
  | .filesystemPut payload => putMetadata S r payload.bytes r.options.plaintextMetrics r.options.cipherMetadata priorCreated
  | .filesystemStreaming s => commitMetadata S r s.plaintextMetrics s.cipherMetadata priorCreated
  | .uringPut _ _ payload => putMetadata S r payload.bytes r.options.plaintextMetrics r.options.cipherMetadata priorCreated
  | .uringStreaming s => commitMetadata S r s.plaintextMetrics s.cipherMetadata priorCreated

end Path

/-- a file that holds `data` and the metadata `m` -/
structure Stored (id : String) (file data : Bytes) (h : Header) (m : Metadata) : Prop where
  decode : Header.decode S.P (slice file 0 HEADER_SIZE) S.K.chk id = .ok h
  total : h.checkTotalLen file.length = .ok ()
  data : slice file h.dataOffset.toNat h.metaOffset = data
  trailer : slice file h.trailerOffset (h.trailerOffset + HEADER_SIZE) = slice file 0 HEADER_SIZE
  sidecar : ∃ json, decryptMeta S.P S.K.omk (slice file h.metaOffset (h.metaOffset + h.metaLen.toNat)) id = .ok json ∧
    S.J.decode json = .ok m

/-- two metadata that agree on size, checksums, labels, key and bucket -/
structure Agree (m m' : Metadata) : Prop where
  size : m.size = m'.size
  checksumGxhash : m.checksumGxhash = m'.checksumGxhash
  cipherSize : m.cipherSize = m'.cipherSize
  cipherChecksum : m.cipherChecksum = m'.cipherChecksum
  labels : m.labels = m'.labels
  key : m.key = m'.key
  bucket : m.bucket = m'.bucket

/-- the object is stored as asked for, and reads as the put said -/
structure SameObject (r : PutRequest) (data : Bytes) (asked : Metadata) (files : Files) (row : Metadata) : Prop where
  stored : ∃ file h m, files.lookup (objFile (S.objectId r)) = some file ∧ Stored S (S.objectId r) file data h m ∧ Agree m asked ∧
    m.bucket = r.bucket ∧ m.key = r.key ∧ m.labels = r.options.labels
  get : ∀ batch, get S (S.objectId r) batch false (files.lookup (objFile (S.objectId r))) = .ok data
  filesystemDescribe : ∀ batch, filesystemDescribe S (S.objectId r) batch false (files.lookup (objFile (S.objectId r))) = .ok row
  uringDescribe : ∀ batch, uringDescribe S (S.objectId r) batch false (files.lookup (objFile (S.objectId r))) = .ok row

/-- a buffered uring put keeps the metrics and the cipher metadata it is given, or computes what it was given -/
def Path.Kept (o : PutOptions) : Path → Prop
  | .uringPut _ _ payload =>
    match o.plaintextMetrics, o.cipherMetadata with
    | some p, none => p.size = UInt64.ofNat payload.bytes.length ∧ p.checksumGxhashB64 = S.checksumB64 payload.bytes
    | none, some _ => False
    | _, _ => True
  | _ => True

/-- a fallback from direct I/O adds no label -/
def Path.Unlabelled (o : PutOptions) : Path → Prop
  | .uringPut largeObjectBytes direct payload => useDirect largeObjectBytes payload.bytes → direct = true ∨ FALLBACK ∈ o.labels
  | _ => True

/-- the length of the sealed metadata fits its field -/
def Path.Short (r : PutRequest) (files : Files) (w : Path) : Prop :=
  sealedLen (S.J.encode (w.asked S r (readObjCreated S (S.objectId r) files))).length META_PAD_BLOCK < 2 ^ 32

/-! ## Laid out -/

/-- a file as one of the four functions writes it -/
structure LaidOut (id : String) (file data metaBytes : Bytes) (h : Header) : Prop where
  wf : h.Wf
  offset : h.dataOffset.toNat ≤ 4096
  dataLen : h.dataLen.toNat = data.length
  lt : data.length < 2 ^ 63
  metaLen : h.metaLen = UInt32.ofNat metaBytes.length
  layout : file = sections S id h data metaBytes ++ h.encode S.P S.K.chk id ∨
    file = writeAt (sections S id h data metaBytes) h.trailerOffset (h.encode S.P S.K.chk id)

variable {S} {id : String} {file data metaBytes json : Bytes} {h h' : Header} {m m' row : Metadata} {r : PutRequest} {files files' : Files}

theorem metaOffset_eq (hoff : h.dataOffset.toNat ≤ 4096) (hlen : h.dataLen.toNat = data.length) (hlt : data.length < 2 ^ 63) :
    h.metaOffset = h.dataOffset.toNat + data.length := by
  rw [Header.metaOffset, hlen]
  exact Nat.mod_eq_of_lt (by omega)

namespace LaidOut

theorem metaOffset (L : LaidOut S id file data metaBytes h) : h.metaOffset = h.dataOffset.toNat + data.length :=
  metaOffset_eq L.offset L.dataLen L.lt

theorem trailerOffset (L : LaidOut S id file data metaBytes h) :
    h.trailerOffset = h.dataOffset.toNat + data.length + h.metaLen.toNat := by
  have hoff := L.offset
  have hlt := L.lt
  have hmeta := h.metaLen.toNat_lt
  rw [Header.trailerOffset, L.metaOffset]
  exact Nat.mod_eq_of_lt (by omega)

theorem length_sections_le (L : LaidOut S id file data metaBytes h) :
    h.dataOffset.toNat + data.length + metaBytes.length ≤ file.length := by
  rw [← @length_sections S id h L.wf.dataOffset]
  rcases L.layout with hfile | hfile
  · rw [hfile, List.length_append]
    exact Nat.le_add_right _ _
  · rw [hfile]
    exact le_length_writeAt _ _ _

/-- the header stands at the front, whatever became of the trailer -/
theorem head (L : LaidOut S id file data metaBytes h) : slice file 0 HEADER_SIZE = h.encode S.P S.K.chk id := by
  have hoff := L.wf.dataOffset
  have hhead := Header.length_encode S.P h S.K.chk id
  have hsections : slice (sections S id h data metaBytes) 0 HEADER_SIZE = h.encode S.P S.K.chk id := by
    simp only [sections, List.append_assoc]
    exact slice_front hhead
  have hlen := @length_sections S id h hoff data metaBytes
  have hz : HEADER_SIZE = 64 := rfl
  rcases L.layout with hfile | hfile
  · rw [hfile, slice_left (by omega), hsections]
  · have hne : h.encode S.P S.K.chk id ≠ [] := List.ne_nil_of_length_pos (by rw [hhead]; decide)
    rw [hfile, writeAt, if_neg hne, slice_pwrite_before (by rw [L.trailerOffset]; omega) (by omega), hsections]

theorem decode (L : LaidOut S id file data metaBytes h) : Header.decode S.P (slice file 0 HEADER_SIZE) S.K.chk id = .ok h := by
  rw [L.head]
  exact Header.decode_encode S.P L.wf S.K.chk id

/-- if the length of the metadata has been cut to 32 bits, the total length is wrong -/
theorem short_of_total (L : LaidOut S id file data metaBytes h) (htotal : h.checkTotalLen file.length = .ok ()) :
    metaBytes.length < 2 ^ 32 := by
  obtain ⟨hsum, -⟩ := Header.checkTotalLen_ok.1 htotal
  have hfile := L.length_sections_le
  have hcut : h.metaLen.toNat = metaBytes.length % 2 ^ 32 := by rw [L.metaLen, UInt32.toNat_ofNat']
  rw [L.dataLen] at hsum
  omega

theorem eq_container (L : LaidOut S id file data metaBytes h) (hshort : metaBytes.length < 2 ^ 32) :
    metaBytes.length = h.metaLen.toNat ∧ file = container S.P S.K id h data metaBytes := by
  have hmeta : metaBytes.length = h.metaLen.toNat := by
    rw [L.metaLen, UInt32.toNat_ofNat']
    exact (Nat.mod_eq_of_lt hshort).symm
  refine ⟨hmeta, ?_⟩
  rcases L.layout with hfile | hfile
  · exact hfile
  · rw [hfile, writeAt_end (by rw [length_sections L.wf.dataOffset, L.trailerOffset, hmeta])]
    rfl

theorem parts (L : LaidOut S id file data metaBytes h) (hshort : metaBytes.length < 2 ^ 32)
    (hsidecar : decryptMeta S.P S.K.omk metaBytes id = .ok json) : Parts S.P S.K id file h data json := by
  have hoff := L.offset
  have hlt := L.lt
  obtain ⟨hmeta, hfile⟩ := L.eq_container hshort
  rw [hfile]
  exact parts_container L.wf L.dataLen.symm hmeta (by rw [L.dataLen]; omega) hsidecar

theorem trailer (L : LaidOut S id file data metaBytes h) (hshort : metaBytes.length < 2 ^ 32) :
    slice file h.trailerOffset (h.trailerOffset + HEADER_SIZE) = slice file 0 HEADER_SIZE := by
  obtain ⟨hmeta, hfile⟩ := L.eq_container hshort
  have hsections : (sections S id h data metaBytes).length = h.trailerOffset := by
    rw [length_sections L.wf.dataOffset, L.trailerOffset, hmeta]
  have htrailer : slice (sections S id h data metaBytes ++ h.encode S.P S.K.chk id ++ []) h.trailerOffset
      (h.trailerOffset + HEADER_SIZE) = h.encode S.P S.K.chk id := by
    refine slice_middle hsections ?_
    rw [Header.length_encode]
  rw [L.head, hfile]
  rw [List.append_nil] at htrailer
  exact htrailer

/-- **What a written file stores**: the data and the sealed metadata, if the length of the sidecar fits its field. -/
theorem stored_iff (L : LaidOut S id file data metaBytes h) (hsidecar : decryptMeta S.P S.K.omk metaBytes id = .ok (S.J.encode m)) :
    Stored S id file data h' m' ↔ metaBytes.length < 2 ^ 32 ∧ h' = h ∧ m' = m := by
  constructor
  · intro hstored
    have hheader : h' = h := by
      have hdecode := hstored.decode
      rw [L.decode] at hdecode
      cases hdecode
      rfl
    subst hheader
    have hshort := L.short_of_total hstored.total
    obtain ⟨json, hjson, hparse⟩ := hstored.sidecar
    rw [(L.parts hshort hsidecar).sidecar] at hjson
    cases hjson
    rw [S.J.round_trip] at hparse
    cases hparse
    exact ⟨hshort, rfl, rfl⟩
  · rintro ⟨hshort, rfl, rfl⟩
    have hparts := L.parts hshort hsidecar
    exact ⟨hparts.decode, Header.checkTotalLen_ok.2 ⟨hparts.total, hparts.lt⟩, hparts.data_eq.symm, L.trailer hshort,
      S.J.encode m', hparts.sidecar, S.J.round_trip m'⟩

end LaidOut

/-! ## Reading -/

theorem openAndReadHeader_parts (hparts : Parts S.P S.K id file h data json) (t : Stages) (batch : ℕ → ℕ+) :
    openAndReadHeader S t id batch false (some file) = .ok (file, h) := by
  have htotal := hparts.total
  have hoff := hparts.wf.dataOffset
  have hz : HEADER_SIZE = 64 := rfl
  rw [openAndReadHeader, if_neg Bool.false_ne_true]
  simp only [readExact_eq batch file (show 0 + HEADER_SIZE ≤ file.length by omega) 0, Nat.zero_add, hparts.decode,
    Header.checkTotalLen_ok.2 ⟨htotal, hparts.lt⟩]

theorem get_parts (hparts : Parts S.P S.K id file h data json) (batch : ℕ → ℕ+) : get S id batch false (some file) = .ok data := by
  have htotal := hparts.total
  rw [get, openAndReadHeader_parts hparts]
  simp only
  rw [readExact_eq batch file (by omega)]
  simp only
  rw [hparts.data_eq, hparts.metaOffset]

theorem describe_parts (hparts : Parts S.P S.K id file h data (S.J.encode m)) (t : Stages) (batch : ℕ → ℕ+) :
    describe S t id batch false (some file) = .ok m := by
  have htotal := hparts.total
  have hoffset := hparts.metaOffset
  rw [describe, openAndReadHeader_parts hparts]
  simp only
  rw [readExact_eq batch file (by omega)]
  simp only [hparts.sidecar, S.J.round_trip]

/-! ## Puts -/

/-- the metadata that a put seals -/
def Path.sealedMetadata (S : Store) (r : PutRequest) (priorCreated : Option UInt64) : Path → Metadata
  | .uringPut _ _ payload =>
    putMetadata S r payload.bytes ((cryptoFields r.options).map (·.1)) ((cryptoFields r.options).map (·.2)) priorCreated
  | .filesystemPut payload => (Path.filesystemPut payload).asked S r priorCreated
  | .filesystemStreaming s => (Path.filesystemStreaming s).asked S r priorCreated
  | .uringStreaming s => (Path.uringStreaming s).asked S r priorCreated

/-- the metadata that a put gives to the index -/
def Path.indexed (m : Metadata) : Path → Metadata
  | .uringPut largeObjectBytes direct payload =>
    if useDirect largeObjectBytes payload.bytes ∧ direct = false then { m with labels := insertLabel FALLBACK m.labels } else m
  | _ => m

variable {w : Path}

theorem sealMeta_ne_nil {metaBytes : Bytes} (h : sealMeta S r m = .ok metaBytes) : metaBytes ≠ [] := by
  have hlen := length_encryptMeta h
  refine List.ne_nil_of_length_pos ?_
  rw [hlen, sealedLen]
  omega

theorem ofNat_toNat {n : ℕ} (h : n < 2 ^ 63) : (UInt64.ofNat n).toNat = n := by
  rw [UInt64.toNat_ofNat']
  exact Nat.mod_eq_of_lt (by omega)

theorem bufferedHeader_wf (sync : SyncLevel) (n : UInt64) (metaBytes : Bytes) : (bufferedHeader sync n metaBytes).Wf := ⟨rfl, le_rfl⟩

theorem directHeader_wf (sync : SyncLevel) (n : UInt64) (metaBytes : Bytes) : (directHeader sync n metaBytes).Wf :=
  ⟨rfl, show 64 ≤ 4096 by decide⟩

theorem bufferedHeader_offset (sync : SyncLevel) (n : UInt64) (metaBytes : Bytes) :
    (bufferedHeader sync n metaBytes).dataOffset.toNat ≤ 4096 := show 64 ≤ 4096 by decide

theorem bufferedFile_laidOut {payload : Payload} (sync : SyncLevel) (hmeta : metaBytes ≠ []) :
    LaidOut S id (bufferedFile S id (bufferedHeader sync (UInt64.ofNat payload.bytes.length) metaBytes) payload.bytes metaBytes)
      payload.bytes metaBytes (bufferedHeader sync (UInt64.ofNat payload.bytes.length) metaBytes) := by
  have hoff := bufferedHeader_offset sync (UInt64.ofNat payload.bytes.length) metaBytes
  have hwf := bufferedHeader_wf sync (UInt64.ofNat payload.bytes.length) metaBytes
  have hlen := ofNat_toNat payload.lt
  exact ⟨hwf, hoff, hlen, payload.lt, rfl, Or.inr (bufferedFile_eq hwf.dataOffset (metaOffset_eq hoff hlen payload.lt) hmeta)⟩

theorem directFile_laidOut {payload : Payload} (sync : SyncLevel) (hmeta : metaBytes ≠ []) :
    LaidOut S id (directFile S id (directHeader sync (UInt64.ofNat payload.bytes.length) metaBytes) payload.bytes metaBytes)
      payload.bytes metaBytes (directHeader sync (UInt64.ofNat payload.bytes.length) metaBytes) := by
  have hoff : (directHeader sync (UInt64.ofNat payload.bytes.length) metaBytes).dataOffset.toNat ≤ 4096 := le_rfl
  have hwf := directHeader_wf sync (UInt64.ofNat payload.bytes.length) metaBytes
  have hlen := ofNat_toNat payload.lt
  exact ⟨hwf, hoff, hlen, payload.lt, rfl, Or.inr (directFile_eq hwf.dataOffset (metaOffset_eq hoff hlen payload.lt) hmeta)⟩

/-- **What a put leaves**: the file, renamed into place, and the row. -/
theorem Path.put_ok (h : w.put S r files = .ok (files', row)) : ∃ metaBytes file head,
    sealMeta S r (w.sealedMetadata S r (readObjCreated S (S.objectId r) files)) = .ok metaBytes ∧
    LaidOut S (S.objectId r) file w.data metaBytes head ∧ files' = install files (S.objectId r) file ∧
    row = w.indexed (w.sealedMetadata S r (readObjCreated S (S.objectId r) files)) := by
  cases w with
  | filesystemPut payload =>
    simp only [Path.put, WritePaths.filesystemPut] at h
    split at h
    · cases h
    next metaBytes hseal =>
      obtain ⟨hfiles, hrow⟩ := Prod.mk.inj (Except.ok.inj h)
      exact ⟨metaBytes, _, _, hseal, ⟨bufferedHeader_wf _ _ _, bufferedHeader_offset _ _ _, ofNat_toNat payload.lt, payload.lt, rfl,
        Or.inl (filesystemFile_eq rfl)⟩, hfiles.symm, hrow.symm⟩
  | filesystemStreaming s =>
    simp only [Path.put, filesystemCommit] at h
    split at h
    · cases h
    next metaBytes hseal =>
      obtain ⟨hfiles, hrow⟩ := Prod.mk.inj (Except.ok.inj h)
      exact ⟨metaBytes, _, _, hseal, ⟨bufferedHeader_wf _ _ _, bufferedHeader_offset _ _ _, s.counted, s.lt, rfl,
        Or.inl (filesystemStreamFile_eq rfl)⟩, hfiles.symm, hrow.symm⟩
  | uringStreaming s =>
    simp only [Path.put, uringCommit] at h
    split at h
    · cases h
    next metaBytes hseal =>
      obtain ⟨hfiles, hrow⟩ := Prod.mk.inj (Except.ok.inj h)
      exact ⟨metaBytes, _, _, hseal, ⟨bufferedHeader_wf _ _ _, bufferedHeader_offset _ _ _, s.counted, s.lt, rfl,
        Or.inl (uringStreamFile_eq rfl)⟩, hfiles.symm, hrow.symm⟩
  | uringPut largeObjectBytes direct payload =>
    simp only [Path.put, WritePaths.uringPut] at h
    split at h
    · cases h
    next metaBytes hseal =>
      have hmeta := sealMeta_ne_nil hseal
      refine ⟨metaBytes, ?_⟩
      simp only [Path.indexed]
      by_cases huse : useDirect largeObjectBytes payload.bytes
      · rw [if_pos huse] at h
        cases hdirect : direct with
        | true =>
          rw [hdirect, if_pos rfl] at h
          obtain ⟨hfiles, hrow⟩ := Prod.mk.inj (Except.ok.inj h)
          refine ⟨_, _, hseal, directFile_laidOut r.options.sync hmeta, hfiles.symm, hrow.symm.trans ?_⟩
          rw [if_neg (by simp)]
          rfl
        | false =>
          rw [hdirect, if_neg Bool.false_ne_true] at h
          obtain ⟨hfiles, hrow⟩ := Prod.mk.inj (Except.ok.inj h)
          refine ⟨_, _, hseal, bufferedFile_laidOut r.options.sync hmeta, hfiles.symm, hrow.symm.trans ?_⟩
          rw [if_pos ⟨huse, rfl⟩]
          rfl
      · rw [if_neg huse] at h
        obtain ⟨hfiles, hrow⟩ := Prod.mk.inj (Except.ok.inj h)
        refine ⟨_, _, hseal, bufferedFile_laidOut r.options.sync hmeta, hfiles.symm, hrow.symm.trans ?_⟩
        rw [if_neg fun hboth => huse hboth.1]
        rfl

theorem lookup_install (files : Files) (id : String) (file : Bytes) : (install files id file).lookup (objFile id) = some file :=
  (Rotation.lookup_rename_insert files file).1

/-! ## The same object -/

theorem length_insertLabel {l : String × String} {labels : List (String × String)} (h : l ∉ labels) :
    (insertLabel l labels).length = labels.length + 1 := by rw [insertLabel, if_neg h, List.orderedInsert_length]

/-- the row shows the sealed labels exactly if no label was added -/
theorem Path.indexed_eq_iff (hlabels : m.labels = r.options.labels) : w.indexed m = m ↔ w.Unlabelled r.options := by
  cases w with
  | filesystemPut | filesystemStreaming | uringStreaming => exact iff_of_true rfl trivial
  | uringPut largeObjectBytes direct payload =>
    simp only [Path.indexed, Path.Unlabelled]
    by_cases hfall : useDirect largeObjectBytes payload.bytes ∧ direct = false
    · rw [if_pos hfall]
      by_cases hmem : FALLBACK ∈ r.options.labels
      · refine iff_of_true ?_ fun _ => Or.inr hmem
        rw [hlabels, insertLabel, if_pos hmem, ← hlabels]
      · refine iff_of_false (fun heq => ?_) fun hun => ?_
        · have hsame : insertLabel FALLBACK m.labels = m.labels := congrArg MetadataIndex.Metadata.labels heq
          have hlen := length_insertLabel (hlabels ▸ hmem)
          rw [hsame] at hlen
          omega
        · rcases hun hfall.1 with hdirect | hin
          · rw [hfall.2] at hdirect
            cases hdirect
          · exact hmem hin
    · rw [if_neg hfall]
      refine iff_of_true rfl fun huse => Or.inl ?_
      cases hdirect : direct with
      | true => rfl
      | false => exact absurd ⟨huse, hdirect⟩ hfall

/-- metrics and cipher metadata that are kept are those asked for -/
theorem Path.sealedMetadata_of_kept (hkept : w.Kept S r.options) (priorCreated : Option UInt64) :
    w.sealedMetadata S r priorCreated = w.asked S r priorCreated := by
  cases w with
  | filesystemPut | filesystemStreaming | uringStreaming => rfl
  | uringPut largeObjectBytes direct payload =>
    simp only [Path.Kept] at hkept
    simp only [Path.sealedMetadata, Path.asked, cryptoFields]
    split at hkept
    · next p hp hc =>
      rw [hp, hc]
      simp only [Option.map_none, putMetadata, hkept.1, hkept.2]
    · exact hkept.elim
    · next h1 h2 =>
      cases hp : r.options.plaintextMetrics with
      | none =>
        cases hc : r.options.cipherMetadata with
        | none => rfl
        | some c => exact (h2 c hp hc).elim
      | some p =>
        cases hc : r.options.cipherMetadata with
        | none => exact (h1 p hp hc).elim
        | some c => rfl

theorem Path.kept_of_agree {priorCreated : Option UInt64} (h : Agree (w.sealedMetadata S r priorCreated) (w.asked S r priorCreated)) :
    w.Kept S r.options := by
  cases w with
  | filesystemPut | filesystemStreaming | uringStreaming => trivial
  | uringPut largeObjectBytes direct payload =>
    simp only [Path.Kept]
    have hsize := h.size
    have hchecksum := h.checksumGxhash
    have hcipher := h.cipherSize
    simp only [Path.sealedMetadata, Path.asked, putMetadata, cryptoFields] at hsize hchecksum hcipher
    cases hp : r.options.plaintextMetrics with
    | none =>
      cases hc : r.options.cipherMetadata with
      | none => trivial
      | some c =>
        rw [hp, hc] at hcipher
        cases hcipher
    | some p =>
      cases hc : r.options.cipherMetadata with
      | none =>
        rw [hp, hc] at hsize hchecksum
        exact ⟨hsize.symm, hchecksum.symm⟩
      | some c => trivial

theorem Path.asked_labels (priorCreated : Option UInt64) : (w.asked S r priorCreated).labels = r.options.labels := by cases w <;> rfl

theorem Path.sealed_names (priorCreated : Option UInt64) : (w.sealedMetadata S r priorCreated).labels = r.options.labels ∧
    (w.sealedMetadata S r priorCreated).bucket = r.bucket ∧ (w.sealedMetadata S r priorCreated).key = r.key := by
  cases w <;> exact ⟨rfl, rfl, rfl⟩

theorem sealMeta_accepts : (∃ metaBytes, sealMeta S r m = .ok metaBytes) ↔ (S.J.encode m).length < 2 ^ 32 := by
  constructor
  · rintro ⟨metaBytes, h⟩
    by_contra hlong
    rw [sealMeta, encryptMeta, if_pos (by omega)] at h
    cases h
  · exact fun hshort => encryptMeta_ok r.nonce hshort

/-- a put is refused only if its metadata is too large to seal -/
theorem Path.put_accepts : (∃ out, w.put S r files = .ok out) ↔
    (S.J.encode (w.sealedMetadata S r (readObjCreated S (S.objectId r) files))).length < 2 ^ 32 := by
  constructor
  · rintro ⟨⟨files', row⟩, h⟩
    obtain ⟨metaBytes, -, -, hseal, -⟩ := Path.put_ok h
    exact sealMeta_accepts.1 ⟨metaBytes, hseal⟩
  · intro hshort
    obtain ⟨metaBytes, hseal⟩ := (@sealMeta_accepts S _ r).2 hshort
    cases w with
    | filesystemPut payload =>
      simp only [Path.sealedMetadata, Path.asked] at hseal
      simp only [Path.put, WritePaths.filesystemPut, hseal]
      exact ⟨_, rfl⟩
    | filesystemStreaming s =>
      simp only [Path.sealedMetadata, Path.asked] at hseal
      simp only [Path.put, filesystemCommit, hseal]
      exact ⟨_, rfl⟩
    | uringStreaming s =>
      simp only [Path.sealedMetadata, Path.asked] at hseal
      simp only [Path.put, uringCommit, hseal]
      exact ⟨_, rfl⟩
    | uringPut largeObjectBytes direct payload =>
      simp only [Path.sealedMetadata] at hseal
      simp only [Path.put, WritePaths.uringPut, hseal]
      split_ifs <;> exact ⟨_, rfl⟩

/-- the sidecar's length, when the metadata sealed is that asked for -/
theorem length_sealMeta {metaBytes : Bytes} (h : sealMeta S r m = .ok metaBytes) :
    metaBytes.length = sealedLen (S.J.encode m).length META_PAD_BLOCK := length_encryptMeta h

theorem SameObject.conditions (h : w.put S r files = .ok (files', row))
    (hsame : SameObject S r w.data (w.asked S r (readObjCreated S (S.objectId r) files)) files' row) :
    w.Kept S r.options ∧ w.Unlabelled r.options ∧ w.Short S r files := by
  obtain ⟨metaBytes, file, head, hseal, L, rfl, rfl⟩ := Path.put_ok h
  obtain ⟨file', h', m, hfile, hstored, hagree, -⟩ := hsame.stored
  rw [lookup_install] at hfile
  cases hfile
  have hsidecar := decryptMeta_encryptMeta hseal
  obtain ⟨hshort, -, rfl⟩ := (L.stored_iff hsidecar).1 hstored
  have hkept := Path.kept_of_agree hagree
  have hparts := L.parts hshort hsidecar
  have hdescribe := hsame.filesystemDescribe fun _ => 1
  rw [lookup_install, WritePaths.filesystemDescribe, describe_parts hparts] at hdescribe
  refine ⟨hkept, (Path.indexed_eq_iff (Path.sealed_names _).1).1 (Except.ok.inj hdescribe).symm, ?_⟩
  rw [Path.Short, ← Path.sealedMetadata_of_kept hkept, ← length_sealMeta hseal]
  exact hshort

/-- **A put stores the same object, and reads as it said**, exactly if the sealed metadata is shorter than 4 GiB and a buffered uring put
keeps what it is given: metrics and cipher metadata together, and no label added by a fallback from direct I/O. -/
theorem same_object_iff (S : Store) (w : Path) (r : PutRequest) (files files' : Files) (row : Metadata)
    (h : w.put S r files = .ok (files', row)) :
    SameObject S r w.data (w.asked S r (readObjCreated S (S.objectId r) files)) files' row ↔
      w.Kept S r.options ∧ w.Unlabelled r.options ∧ w.Short S r files := by
  constructor
  · exact SameObject.conditions h
  · rintro ⟨hkept, hunlabelled, hshort⟩
    obtain ⟨metaBytes, file, head, hseal, L, rfl, rfl⟩ := Path.put_ok h
    have hsealed := Path.sealedMetadata_of_kept hkept (readObjCreated S (S.objectId r) files)
    obtain ⟨hlabels, hbucket, hkey⟩ := @Path.sealed_names S r w (readObjCreated S (S.objectId r) files)
    have hsidecar := decryptMeta_encryptMeta hseal
    have hlen : metaBytes.length < 2 ^ 32 := by
      rw [length_sealMeta hseal, hsealed]
      exact hshort
    have hparts := L.parts hlen hsidecar
    have hrow := (Path.indexed_eq_iff hlabels).2 hunlabelled
    refine ⟨⟨file, head, _, lookup_install _ _ _, (L.stored_iff hsidecar).2 ⟨hlen, rfl, rfl⟩, ?_, hbucket, hkey, hlabels⟩, ?_, ?_, ?_⟩
    · rw [hsealed]
      exact ⟨rfl, rfl, rfl, rfl, rfl, rfl, rfl⟩
    · intro batch
      rw [lookup_install]
      exact get_parts hparts batch
    · intro batch
      rw [lookup_install, hrow]
      exact describe_parts hparts _ batch
    · intro batch
      rw [lookup_install, hrow]
      exact describe_parts hparts _ batch

/-! ## A fallback -/

namespace Fallback

def primitives : Primitives where
  aead := Aead.tagged
  hmacSha256 _ _ := List.replicate 32 0
  crc32 _ := 0
  aead_correct := Aead.tagged_correct
  length_hmac := length_zeroDigest

def request : PutRequest := ⟨"b", "k", ⟨[], .durable, none, none, none⟩, 1, ⟨List.replicate 12 0, length_zeroNonce⟩⟩

def payload : Payload := ⟨[7], by decide⟩

def record : Metadata :=
  ⟨1, 1, 1, "", "b", "k", "/k", "b/k", [], none, none, none, none, none, none, none, none⟩

open Classical in
/-- a short text for the one record, and texts of their own for the others -/
noncomputable def texts : Json where
  encode m := if m = record then [] else 0 :: MetadataIndex.sampleJson.encode m
  decode
    | [] => .ok record
    | _ :: rest => MetadataIndex.sampleJson.decode rest
  round_trip m := by
    by_cases hm : m = record
    · rw [if_pos hm, hm]
    · rw [if_neg hm]
      exact MetadataIndex.sampleJson.round_trip m

noncomputable def store : Store := ⟨primitives, texts, ⟨[], [], [], []⟩, fun _ => "", fun _ => "/k"⟩

/-- a put from one byte on is direct, and the file system does not know `O_DIRECT` -/
def path : Path := .uringPut 1 false payload

theorem sealed_record : path.sealedMetadata store request (readObjCreated store (store.objectId request) ∅) = record := rfl

theorem put_accepted : ∃ out, path.put store request ∅ = .ok out := by
  refine Path.put_accepts.2 ?_
  rw [sealed_record]
  have hencode : store.J.encode record = [] := by simp only [store, texts, if_true]
  rw [hencode]
  decide

end Fallback

open Fallback in
/-- the row of a fallback has a label that the sealed metadata does not have -/
theorem fallback_row_differs : ∃ files' row, path.put store request ∅ = .ok (files', row) ∧
    ¬SameObject store request path.data (path.asked store request (readObjCreated store (store.objectId request) ∅)) files' row := by
  obtain ⟨⟨files', row⟩, h⟩ := put_accepted
  refine ⟨files', row, h, fun hsame => ?_⟩
  obtain ⟨-, hunlabelled, -⟩ := hsame.conditions h
  rcases hunlabelled ⟨by decide, by decide⟩ with hdirect | hlabel
  · cases hdirect
  · cases hlabel

open Fallback in
theorem same_object_iff_fallback : ∃ files' row, path.put store request ∅ = .ok (files', row) ∧
    (SameObject store request path.data (path.asked store request (readObjCreated store (store.objectId request) ∅)) files' row ↔
      path.Kept store request.options ∧ path.Unlabelled request.options ∧ path.Short store request ∅) := by
  obtain ⟨⟨files', row⟩, h⟩ := put_accepted
  exact ⟨files', row, h, same_object_iff store path request ∅ files' row h⟩

end Y2q.WritePaths
