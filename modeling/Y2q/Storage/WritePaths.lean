/-
The ways an object is written and read (`storage/filesystem.rs`; `storage/uring/{storage,ops,streaming}.rs`).

Four functions write the container of an object, five ways:
- `filesystemPut`: header, data, metadata and trailer one after another;
- `filesystemCommit`: a stream; a placeholder first, and the header over it once the metadata and the trailer are there;
- `uringPut`: four positioned writes, or the direct layout, where the data starts at 4096, whole blocks of it go through a file
  opened with `O_DIRECT` in chunks of 1 MiB, and the rest through a second file;
- `uringCommit`: a stream through a writer that keeps its own cursor.

All stage `<id>.tmp` and rename it. The index gets what the put returns. Validation of names, the locks of writers and errors of
the file system are left out, and `key_path` is a function of the object id.

- `Reaches`: a file and what it holds up to an offset, holes included; `Reaches.write` extends it by one positioned write.
- `filesystemFile_eq`, `streamFile_eq`, `uringStreamFile_eq`, `bufferedFile_eq`, `directFile_eq`: every layout is `container`.
-/
import Mathlib.Tactic
import Y2q.Storage.MetadataIndex
import Y2q.Storage.RangeReads
import Y2q.Storage.RotationDir

namespace Y2q.WritePaths

open Format NodeKeys RangeReads
open MetadataIndex (Json)

abbrev Metadata := MetadataIndex.Metadata

/-! ## Requests -/

structure PlaintextMetrics where
  size : UInt64
  checksumGxhashB64 : String
deriving DecidableEq, Repr

structure CipherMetadata where
  /-- bytes of the envelope on disk -/
  cipherSize : UInt64
  cipherChecksumB64 : String
  kemAlg : String
  aeadAlg : String
  envelopeVersion : UInt16
  keyEpoch : UInt32
deriving DecidableEq, Repr

inductive SyncLevel where
  | durable
  | bestEffort
deriving DecidableEq, Repr

/-- `labels` is a set, here the list of its elements -/
structure PutOptions where
  labels : List (String × String)
  sync : SyncLevel
  plaintextMetrics : Option PlaintextMetrics
  cipherMetadata : Option CipherMetadata
  version : Option UInt64
deriving DecidableEq, Repr

/-- `now` and the nonce are what the clock and the generator give -/
structure PutRequest where
  bucket : String
  key : String
  options : PutOptions
  now : UInt64
  nonce : Nonce

/-- a body in memory; no allocation is larger -/
structure Payload where
  bytes : Bytes
  lt : bytes.length < 2 ^ 63

/-- what an encrypt session does with its sink: slices at the end, and a field patched with `write_all_at`, then `seek_to_end` -/
inductive StreamWrite where
  | append (piece : Bytes)
  | patch (off : ℕ) (piece : Bytes)
deriving DecidableEq, Repr

/-- `write_all` at an offset; of no bytes, it does nothing -/
def writeAt (file : Bytes) (off : ℕ) (bytes : Bytes) : Bytes := if bytes = [] then file else pwrite file off bytes

def StreamWrite.apply (data : Bytes) : StreamWrite → Bytes
  | .append piece => data ++ piece
  | .patch off piece => writeAt data off piece

def streamed (writes : List StreamWrite) : Bytes := writes.foldl StreamWrite.apply []

/-- what `commit` is called with: the session counts the bytes it has written, and no file is longer -/
structure Stream where
  writes : List StreamWrite
  plaintextMetrics : PlaintextMetrics
  cipherMetadata : CipherMetadata
  counted : cipherMetadata.cipherSize.toNat = (streamed writes).length
  lt : (streamed writes).length < 2 ^ 63

/-- the third-party parts, the keys, and where the objects lie -/
structure Store where
  P : Primitives
  J : Json
  K : StoreKeys
  /-- `checksum_b64`: the gxhash64 of the bytes, in base64 -/
  checksumB64 : Bytes → String
  /-- the absolute path of a file -/
  diskPath : ShardFile → String

variable (S : Store)

def Store.objectId (r : PutRequest) : String := encodeObjectId S.P S.K.pathKey r.bucket r.key

/-! ## Metadata -/

/-- `read_obj_created`; `read_existing_created` and `ReadObjectMeta` of the uring backend do the same -/
def readObjCreated (id : String) (files : Files) : Option UInt64 :=
  (files.lookup (objFile id)).bind fun bytes =>
    (openObject S.P S.K id bytes).bind fun o => (S.J.decode o.2).toOption.map (·.created)

/-- the metadata of a buffered put; it never has a version -/
def putMetadata (r : PutRequest) (data : Bytes) (plaintextMetrics : Option PlaintextMetrics)
    (cipherMetadata : Option CipherMetadata) (priorCreated : Option UInt64) : Metadata where
  created := priorCreated.getD r.now
  modified := r.now
  size :=
    match plaintextMetrics with
    | some p => p.size
    | none => UInt64.ofNat data.length
  checksumGxhash :=
    match plaintextMetrics with
    | some p => p.checksumGxhashB64
    | none => S.checksumB64 data
  bucket := r.bucket
  key := r.key
  diskPath := S.diskPath (objFile (S.objectId r))
  urlPath := s!"{r.bucket}/{r.key}"
  labels := r.options.labels
  cipherSize := cipherMetadata.map (·.cipherSize)
  cipherChecksum := cipherMetadata.map (·.cipherChecksumB64)
  kemAlg := cipherMetadata.map (·.kemAlg)
  aeadAlg := cipherMetadata.map (·.aeadAlg)
  envelopeVersion := cipherMetadata.map (·.envelopeVersion)
  version := none
  committedAt := none
  keyEpoch := cipherMetadata.map (·.keyEpoch)

/-- the metadata of a committed stream -/
def commitMetadata (r : PutRequest) (p : PlaintextMetrics) (c : CipherMetadata) (priorCreated : Option UInt64) : Metadata where
  created := priorCreated.getD r.now
  modified := r.now
  size := p.size
  checksumGxhash := p.checksumGxhashB64
  bucket := r.bucket
  key := r.key
  diskPath := S.diskPath (objFile (S.objectId r))
  urlPath := s!"{r.bucket}/{r.key}"
  labels := r.options.labels
  cipherSize := some c.cipherSize
  cipherChecksum := some c.cipherChecksumB64
  kemAlg := some c.kemAlg
  aeadAlg := some c.aeadAlg
  envelopeVersion := some c.envelopeVersion
  version := r.options.version
  committedAt := r.options.version.map fun _ => r.now
  keyEpoch := some c.keyEpoch

def sealMeta (r : PutRequest) (m : Metadata) : Except CryptoError Bytes :=
  encryptMeta S.P S.K.omk (S.J.encode m) (S.objectId r) META_PAD_BLOCK r.nonce

/-! ## Files -/

def WRITTEN_O_DIRECT : UInt16 := 1
def DURABLE : UInt16 := 2
def MIN_DIRECT_DATA_OFFSET : UInt32 := 4096
abbrev DIRECT_IO_ALIGN : ℕ := 4 * 1024
abbrev DIRECT_IO_CHUNK : ℕ := 1024 * 1024

def SyncLevel.flags : SyncLevel → UInt16
  | .durable => DURABLE
  | .bestEffort => 0

def bufferedHeader (sync : SyncLevel) (dataLen : UInt64) (metaBytes : Bytes) : Header where
  dataLen := dataLen
  metaLen := UInt32.ofNat metaBytes.length
  dataOffset := Header.MIN_DATA_OFFSET
  flags := sync.flags
  version := VERSION

def directHeader (sync : SyncLevel) (dataLen : UInt64) (metaBytes : Bytes) : Header where
  dataLen := dataLen
  metaLen := UInt32.ofNat metaBytes.length
  dataOffset := MIN_DIRECT_DATA_OFFSET
  flags := WRITTEN_O_DIRECT ||| sync.flags
  version := VERSION

/-- a `tokio::fs::File` -/
structure TokioFile where
  bytes : Bytes
  pos : ℕ

namespace TokioFile

def create : TokioFile := ⟨[], 0⟩

def writeAll (f : TokioFile) (piece : Bytes) : TokioFile := ⟨writeAt f.bytes f.pos piece, f.pos + piece.length⟩

def seek (f : TokioFile) (pos : ℕ) : TokioFile := { f with pos := pos }

def seekToEnd (f : TokioFile) : TokioFile := f.seek f.bytes.length

def stream (f : TokioFile) : StreamWrite → TokioFile
  | .append piece => f.writeAll piece
  | .patch off piece => ((f.seek (HEADER_SIZE + off)).writeAll piece).seekToEnd

end TokioFile

/-- `end_` is the high-water mark -/
structure UringStreamingWriter where
  bytes : Bytes
  cursor : ℕ
  end_ : ℕ

namespace UringStreamingWriter

def writeAllAt (w : UringStreamingWriter) (piece : Bytes) (off : ℕ) : UringStreamingWriter :=
  if piece = [] then w else ⟨writeAt w.bytes off piece, off + piece.length, max w.end_ (off + piece.length)⟩

def writeAll (w : UringStreamingWriter) (piece : Bytes) : UringStreamingWriter := w.writeAllAt piece w.cursor

def seekToEnd (w : UringStreamingWriter) : UringStreamingWriter := { w with cursor := w.end_ }

def stream (w : UringStreamingWriter) : StreamWrite → UringStreamingWriter
  | .append piece => w.writeAll piece
  | .patch off piece => (w.writeAllAt piece (HEADER_SIZE + off)).seekToEnd

end UringStreamingWriter

def placeholder : Bytes := List.replicate HEADER_SIZE 0

section Writers

variable (id : String) (h : Header)

def filesystemFile (data metaBytes : Bytes) : Bytes :=
  let head := h.encode S.P S.K.chk id
  ((((TokioFile.create.writeAll head).writeAll data).writeAll metaBytes).writeAll head).bytes

def filesystemStreamFile (writes : List StreamWrite) (metaBytes : Bytes) : Bytes :=
  let head := h.encode S.P S.K.chk id
  let f := writes.foldl TokioFile.stream (TokioFile.create.writeAll placeholder)
  ((((f.writeAll metaBytes).writeAll head).seek 0).writeAll head).bytes

def uringStreamFile (writes : List StreamWrite) (metaBytes : Bytes) : Bytes :=
  let head := h.encode S.P S.K.chk id
  let w := writes.foldl UringStreamingWriter.stream ⟨writeAt [] 0 placeholder, HEADER_SIZE, HEADER_SIZE⟩
  (((w.writeAll metaBytes).writeAll head).writeAllAt head 0).bytes

/-- `put_via_buffered` -/
def bufferedFile (data metaBytes : Bytes) : Bytes :=
  let head := h.encode S.P S.K.chk id
  let file := writeAt [] 0 head
  let file := writeAt file h.dataOffset.toNat data
  let file := writeAt file h.metaOffset metaBytes
  writeAt file h.trailerOffset head

/-- the loop over the aligned part of the data -/
def writeBulk (data : Bytes) (dataOffset bulk written : ℕ) (file : Bytes) : Bytes :=
  if written < bulk then
    let chunkLen := min (bulk - written) DIRECT_IO_CHUNK
    writeBulk data dataOffset bulk (written + chunkLen)
      (writeAt file (dataOffset + written) (slice data written (written + chunkLen)))
  else file
termination_by bulk - written
decreasing_by
  have hchunk : 0 < DIRECT_IO_CHUNK := by decide
  omega

/-- `put_via_direct` -/
def directFile (data metaBytes : Bytes) : Bytes :=
  let head := h.encode S.P S.K.chk id
  let file := writeAt [] 0 head
  let bulk := data.length / DIRECT_IO_ALIGN * DIRECT_IO_ALIGN
  let file := writeBulk data h.dataOffset.toNat bulk 0 file
  let file := if 0 < data.length - bulk then writeAt file (h.dataOffset.toNat + bulk) (data.drop bulk) else file
  let file := writeAt file h.metaOffset metaBytes
  writeAt file h.trailerOffset head

end Writers

/-! ## Puts -/

/-- the staging file, renamed into place -/
def install (files : Files) (id : String) (file : Bytes) : Files :=
  Files.rename (files.insert (objFile id).tmp file) (objFile id).tmp (objFile id)

/-- `FilesystemStorage::put` -/
def filesystemPut (r : PutRequest) (payload : Payload) (files : Files) : Except CryptoError (Files × Metadata) :=
  let data := payload.bytes
  let m := putMetadata S r data r.options.plaintextMetrics r.options.cipherMetadata (readObjCreated S (S.objectId r) files)
  match sealMeta S r m with
  | .error e => .error e
  | .ok metaBytes =>
    let h := bufferedHeader r.options.sync (UInt64.ofNat data.length) metaBytes
    .ok (install files (S.objectId r) (filesystemFile S (S.objectId r) h data metaBytes), m)

/-- `FilesystemStorage::begin_streaming_put`, the writes, and `StreamingPutGuard::commit` -/
def filesystemCommit (r : PutRequest) (s : Stream) (files : Files) : Except CryptoError (Files × Metadata) :=
  let m := commitMetadata S r s.plaintextMetrics s.cipherMetadata (readObjCreated S (S.objectId r) files)
  match sealMeta S r m with
  | .error e => .error e
  | .ok metaBytes =>
    let h := bufferedHeader r.options.sync s.cipherMetadata.cipherSize metaBytes
    .ok (install files (S.objectId r) (filesystemStreamFile S (S.objectId r) h s.writes metaBytes), m)

/-- `UringStorage::begin_streaming_put`, the writes, and `UringStreamingPutGuard::commit` -/
def uringCommit (r : PutRequest) (s : Stream) (files : Files) : Except CryptoError (Files × Metadata) :=
  let m := commitMetadata S r s.plaintextMetrics s.cipherMetadata (readObjCreated S (S.objectId r) files)
  match sealMeta S r m with
  | .error e => .error e
  | .ok metaBytes =>
    let h := bufferedHeader r.options.sync s.cipherMetadata.cipherSize metaBytes
    .ok (install files (S.objectId r) (uringStreamFile S (S.objectId r) h s.writes metaBytes), m)

/-- what `UringStorage::put` hands to its worker -/
def cryptoFields (o : PutOptions) : Option (PlaintextMetrics × CipherMetadata) :=
  match o.plaintextMetrics, o.cipherMetadata with
  | some p, some c => some (p, c)
  | _, _ => none

def FALLBACK : String × String := ("y2q.direct_io", "fallback")

local instance lawfulBEqLabel : LawfulBEq (String × String) := inferInstance

/-- `BTreeSet::insert` -/
def insertLabel (l : String × String) (labels : List (String × String)) : List (String × String) :=
  if l ∈ labels then labels else labels.orderedInsert (fun a b => a.1 < b.1 ∨ a.1 = b.1 ∧ a.2 ≤ b.2) l

/-- `large_object_bytes`: from which length on to use direct I/O; 0 is never -/
def useDirect (largeObjectBytes : UInt64) (data : Bytes) : Prop :=
  0 < largeObjectBytes.toNat ∧ largeObjectBytes.toNat ≤ data.length

instance (largeObjectBytes : UInt64) (data : Bytes) : Decidable (useDirect largeObjectBytes data) := by
  unfold useDirect
  infer_instance

/-- `UringStorage::put` and `do_put`; `direct`: a file of the store can be opened with `O_DIRECT` -/
def uringPut (largeObjectBytes : UInt64) (direct : Bool) (r : PutRequest) (payload : Payload) (files : Files) :
    Except CryptoError (Files × Metadata) :=
  let data := payload.bytes
  let crypto := cryptoFields r.options
  let m := putMetadata S r data (crypto.map (·.1)) (crypto.map (·.2)) (readObjCreated S (S.objectId r) files)
  match sealMeta S r m with
  | .error e => .error e
  | .ok metaBytes =>
    let buffered := install files (S.objectId r)
      (bufferedFile S (S.objectId r) (bufferedHeader r.options.sync (UInt64.ofNat data.length) metaBytes) data metaBytes)
    if useDirect largeObjectBytes data then
      if direct then
        let h := directHeader r.options.sync (UInt64.ofNat data.length) metaBytes
        .ok (install files (S.objectId r) (directFile S (S.objectId r) h data metaBytes), m)
      else .ok (buffered, { m with labels := insertLabel FALLBACK m.labels })
    else .ok (buffered, m)

/-! ## Reads -/

/-- what stands before the text of an error -/
structure Stages where
  readHeader : String
  decodeHeader : String
  readMeta : String
  decryptMeta : String
  decodeMeta : String

/-- `open_and_read_header` -/
def Stages.uring : Stages := ⟨"read header: ", "decode header: ", "read meta: ", "decrypt meta: ", "decode meta: "⟩

/-- `read_obj_metadata` -/
def Stages.filesystem : Stages := ⟨"", "", "", "", ""⟩

/-- open, header, total length -/
def openAndReadHeader (t : Stages) (id : String) (batch : ℕ → ℕ+) (locked : Bool) (file : Option Bytes) :
    Except ReadError (Bytes × Header) :=
  if locked then .error .locked
  else
    match file with
    | none => .error .notFound
    | some bytes =>
      match readExact batch bytes 0 HEADER_SIZE 0 with
      | none => .error (.internal (t.readHeader ++ "early eof"))
      | some head =>
        match Header.decode S.P head S.K.chk id with
        | .error e => .error (.internal (t.decodeHeader ++ e.message))
        | .ok h =>
          match h.checkTotalLen bytes.length with
          | .error e => .error (.internal e.message)
          | .ok () => .ok (bytes, h)

/-- `FilesystemStorage::get`, and `do_get` of the uring backend -/
def get (id : String) (batch : ℕ → ℕ+) (locked : Bool) (file : Option Bytes) : Except ReadError Bytes :=
  match openAndReadHeader S .uring id batch locked file with
  | .error e => .error e
  | .ok (bytes, h) =>
    match readExact batch bytes h.dataOffset.toNat h.dataLen.toNat HEADER_SIZE with
    | none => .error (.internal "read data: early eof")
    | some data => .ok data

def describe (t : Stages) (id : String) (batch : ℕ → ℕ+) (locked : Bool) (file : Option Bytes) : Except ReadError Metadata :=
  match openAndReadHeader S t id batch locked file with
  | .error e => .error e
  | .ok (bytes, h) =>
    match readExact batch bytes h.metaOffset h.metaLen.toNat HEADER_SIZE with
    | none => .error (.internal (t.readMeta ++ "early eof"))
    | some buf =>
      match decryptMeta S.P S.K.omk buf id with
      | .error e => .error (.internal (t.decryptMeta ++ e.message))
      | .ok plaintext =>
        match S.J.decode plaintext with
        | .error e => .error (.internal (t.decodeMeta ++ e))
        | .ok m => .ok m

/-- `FilesystemStorage::describe` -/
def filesystemDescribe : String → (ℕ → ℕ+) → Bool → Option Bytes → Except ReadError Metadata := describe S .filesystem

/-- `do_describe` -/
def uringDescribe : String → (ℕ → ℕ+) → Bool → Option Bytes → Except ReadError Metadata := describe S .uring

/-! ## One positioned write -/

theorem writeAt_end {file piece : Bytes} {off : ℕ} (h : file.length = off) : writeAt file off piece = file ++ piece := by
  unfold writeAt
  split_ifs with hpiece
  · rw [hpiece, List.append_nil]
  · rw [pwrite_end h.le, ← h, setLen_self]

/-- a write past a front part leaves it -/
theorem writeAt_append {front file piece : Bytes} {n : ℕ} (h : front.length = n) (off : ℕ) :
    writeAt (front ++ file) (n + off) piece = front ++ writeAt file off piece := by
  unfold writeAt
  split_ifs
  · rfl
  · subst h
    have hgap : front.length + off - (front ++ file).length = off - file.length := by rw [List.length_append]; omega
    rw [pwrite, pwrite, List.take_length_add_append, hgap, Nat.add_assoc, List.drop_length_add_append]
    simp only [List.append_assoc]

/-- a write over the front part -/
theorem writeAt_front {front file piece : Bytes} (h : front.length = piece.length) : writeAt (front ++ file) 0 piece = piece ++ file := by
  unfold writeAt
  split_ifs with hpiece
  · rw [hpiece, List.length_nil, List.length_eq_zero_iff] at h
    rw [h, hpiece]
  · exact @pwrite_middle [] front file piece 0 rfl h

theorem le_length_writeAt (file : Bytes) (off : ℕ) (piece : Bytes) : file.length ≤ (writeAt file off piece).length := by
  unfold writeAt
  split_ifs
  · exact le_rfl
  · rw [length_pwrite]
    exact le_max_left _ _

/-- up to `n` the file holds `content`, holes included, and past it nothing -/
structure Reaches (file : Bytes) (n : ℕ) (content : Bytes) : Prop where
  le : file.length ≤ n
  filled : setLen file n = content

namespace Reaches

variable {file content piece : Bytes} {n : ℕ}

theorem length (h : Reaches file n content) : content.length = n := by rw [← h.filled, length_setLen]

theorem of_eq (h : file.length = n) : Reaches file n file := ⟨h.le, by rw [← h, setLen_self]⟩

theorem eq (h : Reaches file n content) (hlen : file.length = n) : file = content := by rw [← h.filled, ← hlen, setLen_self]

/-- the hole before the next write -/
theorem pad (h : file.length ≤ n) : Reaches file n (file ++ List.replicate (n - file.length) 0) :=
  ⟨h, by rw [setLen, List.take_of_length_le h]⟩

theorem writeAt_eq (h : Reaches file n content) (hpiece : piece ≠ []) : writeAt file n piece = content ++ piece := by
  rw [writeAt, if_neg hpiece, pwrite_end h.le, h.filled]

theorem write (h : Reaches file n content) (piece : Bytes) :
    Reaches (writeAt file n piece) (n + piece.length) (content ++ piece) := by
  by_cases hpiece : piece = []
  · rw [writeAt, if_pos hpiece, hpiece, List.length_nil, List.append_nil]
    exact h
  · rw [h.writeAt_eq hpiece]
    exact of_eq (by rw [List.length_append, h.length])

end Reaches

/-! ## Layouts -/

section Layouts

variable {S} {id : String} {h : Header} {data metaBytes front : Bytes} {writes : List StreamWrite}

/-- the container up to its trailer -/
def sections (S : Store) (id : String) (h : Header) (data metaBytes : Bytes) : Bytes :=
  h.encode S.P S.K.chk id ++ List.replicate (h.dataOffset.toNat - HEADER_SIZE) 0 ++ data ++ metaBytes

theorem length_sections (hoff : 64 ≤ h.dataOffset.toNat) (data metaBytes : Bytes) :
    (sections S id h data metaBytes).length = h.dataOffset.toNat + data.length + metaBytes.length := by
  have hz : h.dataOffset.toNat - HEADER_SIZE = h.dataOffset.toNat - 64 := rfl
  simp only [sections, List.length_append, Header.length_encode, List.length_replicate, hz]
  omega

theorem sections_buffered (hoff : h.dataOffset = Header.MIN_DATA_OFFSET) :
    sections S id h data metaBytes = h.encode S.P S.K.chk id ++ data ++ metaBytes := by
  have hz : h.dataOffset.toNat - HEADER_SIZE = 0 := by rw [hoff]; rfl
  rw [sections, hz, List.replicate_zero, List.append_nil]

/-- the file whose cursor stands at its end -/
def TokioFile.atEnd (bytes : Bytes) : TokioFile := ⟨bytes, bytes.length⟩

@[simp] theorem TokioFile.writeAll_atEnd (bytes piece : Bytes) : (atEnd bytes).writeAll piece = atEnd (bytes ++ piece) := by
  rw [writeAll, atEnd, atEnd, writeAt_end rfl, List.length_append]

theorem filesystemFile_eq (hoff : h.dataOffset = Header.MIN_DATA_OFFSET) :
    filesystemFile S id h data metaBytes = sections S id h data metaBytes ++ h.encode S.P S.K.chk id := by
  rw [sections_buffered hoff, filesystemFile, show TokioFile.create = TokioFile.atEnd [] from rfl]
  simp only [TokioFile.writeAll_atEnd, List.nil_append]
  rfl

/-- a stream writes, past the front part, what it makes of the data -/
theorem TokioFile.foldl_stream (hfront : front.length = HEADER_SIZE) :
    writes.foldl stream (atEnd (front ++ data)) = atEnd (front ++ writes.foldl StreamWrite.apply data) := by
  induction writes generalizing data with
  | nil => rfl
  | cons w writes ih =>
    rw [List.foldl_cons, List.foldl_cons, ← ih]
    congr 1
    cases w with
    | append piece => rw [stream, writeAll_atEnd, StreamWrite.apply, List.append_assoc]
    | patch off piece =>
      simp only [stream, seek, writeAll, seekToEnd, atEnd, StreamWrite.apply]
      rw [writeAt_append hfront]

theorem filesystemStreamFile_eq (hoff : h.dataOffset = Header.MIN_DATA_OFFSET) :
    filesystemStreamFile S id h writes metaBytes = sections S id h (streamed writes) metaBytes ++ h.encode S.P S.K.chk id := by
  have hhead := Header.length_encode S.P h S.K.chk id
  have hfront : placeholder.length = HEADER_SIZE := List.length_replicate
  have hstart : TokioFile.create.writeAll placeholder = TokioFile.atEnd (placeholder ++ []) := by
    rw [show TokioFile.create = TokioFile.atEnd [] from rfl, TokioFile.writeAll_atEnd, List.nil_append, List.append_nil]
  rw [sections_buffered hoff]
  simp only [filesystemStreamFile]
  rw [hstart, TokioFile.foldl_stream hfront, TokioFile.writeAll_atEnd, TokioFile.writeAll_atEnd]
  simp only [TokioFile.seek, TokioFile.writeAll, TokioFile.atEnd, List.append_assoc]
  rw [writeAt_front (by rw [hfront, hhead])]
  rfl

/-- the writer whose cursor stands at its high-water mark -/
def UringStreamingWriter.atEnd (bytes : Bytes) : UringStreamingWriter := ⟨bytes, bytes.length, bytes.length⟩

@[simp] theorem UringStreamingWriter.writeAll_atEnd (bytes piece : Bytes) :
    (atEnd bytes).writeAll piece = atEnd (bytes ++ piece) := by
  unfold writeAll writeAllAt
  split_ifs with hpiece
  · rw [hpiece, List.append_nil]
  · have hmax : max bytes.length (bytes.length + piece.length) = bytes.length + piece.length := max_eq_right (Nat.le_add_right _ _)
    simp only [atEnd]
    rw [writeAt_end rfl, hmax, List.length_append]

theorem UringStreamingWriter.foldl_stream (hfront : front.length = HEADER_SIZE) :
    writes.foldl stream (atEnd (front ++ data)) = atEnd (front ++ writes.foldl StreamWrite.apply data) := by
  induction writes generalizing data with
  | nil => rfl
  | cons w writes ih =>
    rw [List.foldl_cons, List.foldl_cons, ← ih]
    congr 1
    cases w with
    | append piece => rw [stream, writeAll_atEnd, StreamWrite.apply, List.append_assoc]
    | patch off piece =>
      simp only [stream, writeAllAt, seekToEnd, StreamWrite.apply]
      split_ifs with hpiece
      · rw [writeAt, if_pos hpiece]
        rfl
      · have hend : max (front ++ data).length (HEADER_SIZE + off + piece.length) = (front ++ writeAt data off piece).length := by
          rw [writeAt, if_neg hpiece, List.length_append, List.length_append, length_pwrite, hfront]
          omega
        simp only [atEnd]
        rw [writeAt_append hfront, hend]

theorem uringStreamFile_eq (hoff : h.dataOffset = Header.MIN_DATA_OFFSET) :
    uringStreamFile S id h writes metaBytes = sections S id h (streamed writes) metaBytes ++ h.encode S.P S.K.chk id := by
  have hhead := Header.length_encode S.P h S.K.chk id
  have hne : h.encode S.P S.K.chk id ≠ [] := List.ne_nil_of_length_pos (by rw [hhead]; decide)
  have hfront : placeholder.length = HEADER_SIZE := List.length_replicate
  have hstart : (⟨writeAt [] 0 placeholder, HEADER_SIZE, HEADER_SIZE⟩ : UringStreamingWriter) = .atEnd (placeholder ++ []) := by
    rw [writeAt_end (show ([] : Bytes).length = 0 from rfl), List.nil_append, List.append_nil, UringStreamingWriter.atEnd, hfront]
  rw [sections_buffered hoff]
  simp only [uringStreamFile]
  rw [hstart, UringStreamingWriter.foldl_stream hfront, UringStreamingWriter.writeAll_atEnd, UringStreamingWriter.writeAll_atEnd,
    UringStreamingWriter.writeAllAt, if_neg hne]
  simp only [UringStreamingWriter.atEnd, List.append_assoc]
  rw [writeAt_front (by rw [hfront, hhead])]
  rfl

/-- header, hole and data at their offsets, and the metadata after them -/
theorem positioned_eq {file : Bytes} (hdata : Reaches file (h.dataOffset.toNat + data.length)
    (h.encode S.P S.K.chk id ++ List.replicate (h.dataOffset.toNat - HEADER_SIZE) 0 ++ data))
    (hmo : h.metaOffset = h.dataOffset.toNat + data.length) (hmeta : metaBytes ≠ []) :
    writeAt file h.metaOffset metaBytes = sections S id h data metaBytes := by
  rw [hmo, hdata.writeAt_eq hmeta]
  rfl

/-- the header alone reaches as far as the data begins -/
theorem head_reaches (hoff : 64 ≤ h.dataOffset.toNat) : Reaches (writeAt [] 0 (h.encode S.P S.K.chk id)) h.dataOffset.toNat
    (h.encode S.P S.K.chk id ++ List.replicate (h.dataOffset.toNat - HEADER_SIZE) 0) := by
  have hhead := Header.length_encode S.P h S.K.chk id
  have hpad := @Reaches.pad (h.encode S.P S.K.chk id) h.dataOffset.toNat (by rw [hhead]; exact hoff)
  rw [hhead] at hpad
  rw [writeAt_end (show ([] : Bytes).length = 0 from rfl), List.nil_append]
  exact hpad

theorem bufferedFile_eq (hoff : 64 ≤ h.dataOffset.toNat) (hmo : h.metaOffset = h.dataOffset.toNat + data.length)
    (hmeta : metaBytes ≠ []) :
    bufferedFile S id h data metaBytes = writeAt (sections S id h data metaBytes) h.trailerOffset (h.encode S.P S.K.chk id) := by
  simp only [bufferedFile]
  rw [positioned_eq ((head_reaches hoff).write data) hmo hmeta]

theorem writeBulk_reaches {off bulk written : ℕ} {file content : Bytes} (hbulk : bulk ≤ data.length) (hwritten : written ≤ bulk)
    (hfile : Reaches file (off + written) (content ++ data.take written)) :
    Reaches (writeBulk data off bulk written file) (off + bulk) (content ++ data.take bulk) := by
  induction hn : bulk - written using Nat.strong_induction_on generalizing written file with
  | _ n ih =>
    rw [writeBulk]
    by_cases hlt : written < bulk
    · rw [if_pos hlt]
      have hchunk : 0 < DIRECT_IO_CHUNK := by decide
      have hle : written + min (bulk - written) DIRECT_IO_CHUNK ≤ bulk := by omega
      have hnext := hfile.write (slice data written (written + min (bulk - written) DIRECT_IO_CHUNK))
      rw [length_slice (hle.trans hbulk), Nat.add_sub_cancel_left, List.append_assoc, ← slice_zero,
        slice_append_slice (Nat.zero_le _) (Nat.le_add_right _ _), slice_zero, Nat.add_assoc] at hnext
      exact ih _ (by omega) hle hnext rfl
    · rw [if_neg hlt, show bulk = written by omega]
      exact hfile

theorem directFile_eq (hoff : 64 ≤ h.dataOffset.toNat) (hmo : h.metaOffset = h.dataOffset.toNat + data.length)
    (hmeta : metaBytes ≠ []) :
    directFile S id h data metaBytes = writeAt (sections S id h data metaBytes) h.trailerOffset (h.encode S.P S.K.chk id) := by
  have hbulk : data.length / DIRECT_IO_ALIGN * DIRECT_IO_ALIGN ≤ data.length := Nat.div_mul_le_self _ _
  have hwritten := @writeBulk_reaches data h.dataOffset.toNat _ 0 _ _ hbulk (Nat.zero_le _)
    (by rw [List.take_zero, List.append_nil]; exact @head_reaches S id h hoff)
  simp only [directFile]
  rw [positioned_eq _ hmo hmeta]
  generalize data.length / DIRECT_IO_ALIGN * DIRECT_IO_ALIGN = bulk at hbulk hwritten
  split_ifs with htail
  · have hnext := hwritten.write (data.drop bulk)
    rw [List.append_assoc, List.take_append_drop, List.length_drop, Nat.add_assoc, Nat.add_sub_cancel' hbulk] at hnext
    exact hnext
  · rw [show bulk = data.length by omega, List.take_length] at hwritten
    rw [show bulk = data.length by omega]
    exact hwritten

end Layouts

end Y2q.WritePaths
