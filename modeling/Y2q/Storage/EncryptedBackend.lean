/-
The whole-file-encrypting backend of the index and the user store (`storage/encrypted_backend.rs`).

    magic "Y2QIDX01" | nonce | AES-GCM(version, flags, logical_len, epoch)     52 bytes
    nonce | AES-GCM(4096 bytes)                                               4124 bytes per data block

A logical offset lies in block `offset / 4096`. A block past the physical end reads as zeros; writing one seals the blocks
missing before it as zeros first. Every seal takes its nonce from a counter `epoch | seq`, 48 bits each, the epoch burnt
anew at every open. Reads change nothing; everything else is a program over the file, the fields under the lock and the
list of nonces sealed with so far.

- `openFile`, `read`, `write`, `setLen`, `syncData`: the backend, as the source computes it, version-1 files included.
- `File`: what reads see, and the contents a power loss may bring back (those since the last completed sync).
- `Machine` and `step`: one file through any number of opens, calls and power losses.

AES-GCM is third-party code and is taken as a function; sealing a block does not fail (messages are far below its limit).
Positioned reads and writes do not fail except at the end of the file. Offsets are small enough for `u64` arithmetic.
-/
import Mathlib.Tactic
import Y2q.Core.Aead
import Y2q.Core.Crash

namespace Y2q.EncryptedBackend

open Y2q CrashLogic

/-! ## Constants -/

abbrev BLOCK_SIZE : ℕ := 4096
abbrev NONCE_LEN : ℕ := 12
abbrev TAG_LEN : ℕ := 16
abbrev PHYS_BLOCK : ℕ := NONCE_LEN + BLOCK_SIZE + TAG_LEN
abbrev HEADER_PLAINTEXT_LEN : ℕ := 16
abbrev HEADER_PHYS : ℕ := 8 + NONCE_LEN + HEADER_PLAINTEXT_LEN + TAG_LEN

/-- `b"Y2QIDX01"` -/
def MAGIC : Bytes := [0x59, 0x32, 0x51, 0x49, 0x44, 0x58, 0x30, 0x31]

def FORMAT_VERSION : UInt8 := 2
def LEGACY_VERSION_TAG : UInt8 := 0
def FLAG_RESEAL_PENDING : UInt8 := 1
abbrev MAX_U48 : ℕ := 2 ^ 48 - 1

def blockPhysOffset (idx : ℕ) : ℕ := HEADER_PHYS + idx * PHYS_BLOCK

theorem blockPhysOffset_eq (k : ℕ) : blockPhysOffset k = 52 + k * 4124 := rfl

theorem blockPhysOffset_succ (k : ℕ) : blockPhysOffset (k + 1) = blockPhysOffset k + 4124 := by
  simp only [blockPhysOffset_eq]; ring

theorem blockPhysOffset_mono {j k : ℕ} (h : j ≤ k) : blockPhysOffset j ≤ blockPhysOffset k := by
  simp only [blockPhysOffset_eq]; omega

theorem blockPhysOffset_max (j k : ℕ) : max (blockPhysOffset j) (blockPhysOffset k) = blockPhysOffset (max j k) :=
  (Monotone.map_max (fun _ _ => blockPhysOffset_mono)).symm

inductive IoError where
  | invalidData (msg : String)
  | unexpectedEof
deriving DecidableEq, Repr

def epochExhausted : IoError := .invalidData "index nonce epoch exhausted"

/-! ## The file -/

structure File where
  /-- what a read sees -/
  bytes : Bytes
  /-- the earlier contents since the last completed sync, newest first -/
  unsynced : List Bytes
deriving DecidableEq

namespace File

def writeAllAt (f : File) (data : Bytes) (off : ℕ) : File := ⟨pwrite f.bytes off data, f.bytes :: f.unsynced⟩

def setLen (f : File) (n : ℕ) : File := ⟨Y2q.setLen f.bytes n, f.bytes :: f.unsynced⟩

def syncData (f : File) : File := ⟨f.bytes, []⟩

def readExactAt (f : File) (off n : ℕ) : Except IoError Bytes :=
  if off + n ≤ f.bytes.length then .ok (pread f.bytes off n) else .error .unexpectedEof

/-- the contents a power loss may bring back, the present one first -/
def images (f : File) : List Bytes := f.bytes :: f.unsynced

/-- what a power loss may leave: the header of the present or of an earlier unsynced content (52 bytes in one sector, so
    never torn), and anything at all behind it -/
def survive (f : File) (age : ℕ) (tail : Bytes) : File :=
  let header := (f.images.getD age f.bytes).take HEADER_PHYS
  ⟨if header.length < HEADER_PHYS then header else header ++ tail, []⟩

end File

/-! ## State -/

/-- the fields under the lock, all but the file -/
structure Inner where
  logicalLen : ℕ
  physLen : ℕ
  epoch : ℕ
  seq : ℕ
deriving DecidableEq

structure Backend where
  file : File
  inner : Inner
  /-- the nonces sealed with under the file key, newest first -/
  seals : List Bytes
deriving DecidableEq

inductive ForeignFile where
  | Recreate
  | Reject
deriving DecidableEq

structure StoredHeader where
  logicalLen : ℕ
  nonceEpoch : ℕ
  legacy : Bool
  resealPending : Bool
deriving DecidableEq

/-- `StoredHeader::default()` -/
def StoredHeader.fresh : StoredHeader := ⟨0, 0, false, false⟩

variable (A : Aead Bytes) (key : Bytes)

/-! ## Sealing -/

/-- `epoch (6B BE) || seq (6B BE)`, both cut to their low 48 bits -/
def nextNonce (i : Inner) : Bytes × Inner :=
  (beBytes 6 i.epoch ++ beBytes 6 i.seq, { i with seq := i.seq + 1 })

def Backend.nonce (s : Backend) : Bytes := (nextNonce s.inner).1

/-- one more seal -/
def Backend.sealed (s : Backend) : Backend := { s with inner := (nextNonce s.inner).2, seals := s.nonce :: s.seals }

/-- seal under the next nonce: `nonce | ciphertext` -/
def sealNext (aad msg : Bytes) : Prog Backend IoError Bytes := do
  let s ← Prog.get
  Prog.modify Backend.sealed
  pure (s.nonce ++ A.encrypt key s.nonce aad msg)

def headerPlaintext (i : Inner) (resealPending : Bool) : Bytes :=
  [FORMAT_VERSION, if resealPending then FLAG_RESEAL_PENDING else 0] ++ beBytes 6 i.logicalLen ++ beBytes 6 i.epoch ++ [0, 0]

def writeHeader (resealPending : Bool) : Prog Backend IoError Unit := do
  let s ← Prog.get
  if MAX_U48 < s.inner.logicalLen then Prog.throw (.invalidData "index logical length exceeds 48-bit field")
  else do
    let out ← sealNext A key MAGIC (headerPlaintext s.inner resealPending)
    Prog.modify fun s => { s with
      file := s.file.writeAllAt (MAGIC ++ out) 0
      inner := { s.inner with physLen := max s.inner.physLen HEADER_PHYS } }

def Backend.synced (s : Backend) : Backend := { s with file := s.file.syncData }

def syncData : Prog Backend IoError Unit := Prog.modify Backend.synced

/-- the counter at the start of the next epoch -/
def Backend.rolled (s : Backend) : Backend := { s with inner := { s.inner with epoch := s.inner.epoch + 1, seq := 0 } }

/-- roll to the next epoch when the 48-bit sequence is exhausted -/
def ensureNonceSpace : Prog Backend IoError Unit := do
  let s ← Prog.get
  if s.inner.seq < MAX_U48 then pure ()
  else if s.inner.epoch + 1 ≤ MAX_U48 then do
    Prog.modify Backend.rolled
    writeHeader A key false
    syncData
  else Prog.throw epochExhausted

def sealBlock (idx : ℕ) (plain : Bytes) : Prog Backend IoError Bytes := sealNext A key (beBytes 8 idx) plain

/-! ## Blocks -/

def zeroBlock : Bytes := List.replicate BLOCK_SIZE 0

def readBlock (s : Backend) (idx : ℕ) : Except IoError Bytes :=
  if s.inner.physLen < blockPhysOffset idx + PHYS_BLOCK then .ok zeroBlock
  else do
    let buf ← s.file.readExactAt (blockPhysOffset idx) PHYS_BLOCK
    match A.decrypt key (buf.take NONCE_LEN) (beBytes 8 idx) (buf.drop NONCE_LEN) with
    | none => .error (.invalidData "index block decrypt/auth")
    | some plain =>
      if plain.length ≠ BLOCK_SIZE then .error (.invalidData "index block wrong plaintext length") else .ok plain

/-- first block index not yet present on disk -/
def nextMissing (i : Inner) : ℕ :=
  if i.physLen ≤ HEADER_PHYS then 0 else (i.physLen - HEADER_PHYS + (PHYS_BLOCK - 1)) / PHYS_BLOCK

/-- `m` sealed zero blocks from `first` on, in one buffer -/
def gapBatch (first m : ℕ) : Prog Backend IoError Bytes :=
  (List.range' first m).foldlM (fun batch gap => do
    let sealed ← sealBlock A key gap zeroBlock
    pure (batch ++ sealed)) []

/-- the buffer, written at once behind the last block -/
def fillFrom (first idx : ℕ) : Prog Backend IoError Unit := do
  let batch ← gapBatch A key first (idx - first)
  Prog.modify fun s => { s with file := s.file.writeAllAt batch (blockPhysOffset first) }

def fillGap (idx : ℕ) : Prog Backend IoError Unit := do
  let s ← Prog.get
  if nextMissing s.inner < idx then fillFrom A key (nextMissing s.inner) idx else pure ()

def storeBlock (idx : ℕ) (plain : Bytes) : Prog Backend IoError Unit := do
  let block ← sealBlock A key idx plain
  Prog.modify fun s => { s with
    file := s.file.writeAllAt block (blockPhysOffset idx)
    inner := { s.inner with physLen := max s.inner.physLen (blockPhysOffset idx + PHYS_BLOCK) } }

def writeBlock (idx : ℕ) (plain : Bytes) : Prog Backend IoError Unit := do
  ensureNonceSpace A key
  fillGap A key idx
  storeBlock A key idx plain

/-! ## Opening -/

def readU48 (b : Bytes) : ℕ := ofBe b

def readHeader (f : Bytes) : Except IoError StoredHeader :=
  if f.length < HEADER_PHYS then .error .unexpectedEof
  else
    match A.decrypt key (slice f 8 20) MAGIC (slice f 20 52) with
    | none => .error (.invalidData "index header decrypt/auth (wrong key or tampered)")
    | some plain =>
      if plain.length ≠ HEADER_PLAINTEXT_LEN then .error (.invalidData "index header wrong length")
      else if plain.getD 0 0 = LEGACY_VERSION_TAG then
        let version := ofBe (slice plain 0 4)
        let blockSize := ofBe (slice plain 4 8)
        if version ≠ 1 then .error (.invalidData s!"unsupported index format {version}")
        else if blockSize ≠ BLOCK_SIZE then
          .error (.invalidData s!"index block size mismatch: file {blockSize}, expected 4096")
        else .ok ⟨ofBe (slice plain 8 16), 0, true, false⟩
      else if plain.getD 0 0 ≠ FORMAT_VERSION then
        .error (.invalidData ("unsupported index format " ++ toString (plain.getD 0 0).toNat))
      else .ok ⟨readU48 (slice plain 2 8), readU48 (slice plain 8 14), false,
        plain.getD 1 0 &&& FLAG_RESEAL_PENDING != 0⟩

/-- what `open_file` makes of the file it finds -/
def readStored (onForeign : ForeignFile) : Prog Backend IoError StoredHeader := do
  let s ← Prog.get
  if s.file.bytes.length = 0 then pure StoredHeader.fresh
  else if 8 ≤ s.file.bytes.length ∧ s.file.bytes.take 8 = MAGIC then Prog.ofExcept (readHeader A key s.file.bytes)
  else if onForeign = .Reject then Prog.throw (.invalidData "encrypted file has no recognizable magic")
  else do
    Prog.modify fun s => { s with file := s.file.setLen 0 }
    pure StoredHeader.fresh

/-- re-seal every existing block under the current epoch -/
def resealLegacyBlocks : Prog Backend IoError Unit := do
  let s ← Prog.get
  (List.range ((s.inner.physLen - HEADER_PHYS) / PHYS_BLOCK)).foldlM (fun _ idx => do
    let t ← Prog.get
    let plain ← Prog.ofExcept (readBlock A key t idx)
    writeBlock A key idx plain) ()
  writeHeader A key false
  syncData

/-- with the header read: reserve a fresh nonce epoch and persist it before anything else is written under it -/
def reserveEpoch (stored : StoredHeader) : Prog Backend IoError Unit := do
  if stored.nonceEpoch + 1 ≤ MAX_U48 then do
    Prog.modify fun s => { s with inner := ⟨stored.logicalLen, s.file.bytes.length, stored.nonceEpoch + 1, 0⟩ }
    writeHeader A key (stored.legacy || stored.resealPending)
    syncData
    if stored.legacy || stored.resealPending then resealLegacyBlocks A key else pure ()
  else Prog.throw epochExhausted

def openFile (onForeign : ForeignFile) : Prog Backend IoError Unit := do
  let stored ← readStored A key onForeign
  reserveEpoch A key stored

/-! ## What a header write, a roll and a block write do -/

section Header

variable {A key}

variable (A key) in
/-- the 52 bytes `write_header` puts at the front of the file -/
def Backend.headerBytes (s : Backend) (resealPending : Bool) : Bytes :=
  MAGIC ++ (s.nonce ++ A.encrypt key s.nonce MAGIC (headerPlaintext s.inner resealPending))

variable (A key) in
def Backend.headed (s : Backend) (resealPending : Bool) : Backend := { s.sealed with
  file := s.file.writeAllAt (s.headerBytes A key resealPending) 0
  inner := { s.sealed.inner with physLen := max s.inner.physLen HEADER_PHYS } }

theorem sealNext_apply (aad msg : Bytes) (s : Backend) :
    sealNext A key aad msg s = ([s.sealed], .ok (s.nonce ++ A.encrypt key s.nonce aad msg)) := rfl

theorem writeHeader_ok {s : Backend} (h : s.inner.logicalLen ≤ MAX_U48) (r : Bool) :
    writeHeader A key r s = ([s.sealed, s.headed A key r], .ok ()) := by
  unfold writeHeader
  rw [Prog.get_bind_apply, if_neg (Nat.not_lt.2 h), Prog.bind_apply_ok (sealNext_apply _ _ s)]
  rfl

theorem writeHeader_too_long {s : Backend} (h : MAX_U48 < s.inner.logicalLen) (r : Bool) :
    writeHeader A key r s = ([], .error (.invalidData "index logical length exceeds 48-bit field")) := by
  unfold writeHeader
  rw [Prog.get_bind_apply, if_pos h]
  rfl

theorem ensureNonceSpace_pass {s : Backend} (h : s.inner.seq < MAX_U48) : ensureNonceSpace A key s = ([], .ok ()) := by
  unfold ensureNonceSpace
  rw [Prog.get_bind_apply, if_pos h]
  rfl

theorem ensureNonceSpace_roll {s : Backend} (h : ¬ s.inner.seq < MAX_U48) (he : s.inner.epoch + 1 ≤ MAX_U48)
    (hl : s.inner.logicalLen ≤ MAX_U48) : ensureNonceSpace A key s =
      ([s.rolled, s.rolled.sealed, s.rolled.headed A key false, (s.rolled.headed A key false).synced], .ok ()) := by
  unfold ensureNonceSpace
  rw [Prog.get_bind_apply, if_neg h, if_pos he, Prog.modify_bind_apply,
    Prog.bind_apply_ok (writeHeader_ok (s := s.rolled) hl false)]
  rfl

theorem ensureNonceSpace_too_long {s : Backend} (h : ¬ s.inner.seq < MAX_U48) (he : s.inner.epoch + 1 ≤ MAX_U48)
    (hl : MAX_U48 < s.inner.logicalLen) : ensureNonceSpace A key s =
      ([s.rolled], .error (.invalidData "index logical length exceeds 48-bit field")) := by
  unfold ensureNonceSpace
  rw [Prog.get_bind_apply, if_neg h, if_pos he, Prog.modify_bind_apply,
    Prog.bind_apply_error (writeHeader_too_long (s := s.rolled) hl false)]

theorem ensureNonceSpace_exhausted {s : Backend} (h : ¬ s.inner.seq < MAX_U48) (he : ¬ s.inner.epoch + 1 ≤ MAX_U48) :
    ensureNonceSpace A key s = ([], .error epochExhausted) := by
  unfold ensureNonceSpace
  rw [Prog.get_bind_apply, if_neg h, if_neg he]
  rfl

variable (A key) in
/-- the 4124 bytes of a sealed block -/
def Backend.blockBytes (s : Backend) (idx : ℕ) (plain : Bytes) : Bytes :=
  s.nonce ++ A.encrypt key s.nonce (beBytes 8 idx) plain

variable (A key) in
def Backend.stored (s : Backend) (idx : ℕ) (plain : Bytes) : Backend := { s.sealed with
  file := s.file.writeAllAt (s.blockBytes A key idx plain) (blockPhysOffset idx)
  inner := { s.sealed.inner with physLen := max s.inner.physLen (blockPhysOffset idx + PHYS_BLOCK) } }

theorem storeBlock_apply (idx : ℕ) (plain : Bytes) (s : Backend) :
    storeBlock A key idx plain s = ([s.sealed, s.stored A key idx plain], .ok ()) := rfl

@[simp] theorem length_nonce (s : Backend) : s.nonce.length = 12 := by simp [Backend.nonce, nextNonce]

theorem length_headerBytes (hA : A.Correct) (s : Backend) (r : Bool) : (s.headerBytes A key r).length = 52 := by
  simp [Backend.headerBytes, hA.length_encrypt, headerPlaintext, MAGIC]

theorem headed_bytes (hA : A.Correct) (s : Backend) (r : Bool) :
    (s.headed A key r).file.bytes = s.headerBytes A key r ++ s.file.bytes.drop 52 := by
  simp [Backend.headed, File.writeAllAt, pwrite, length_headerBytes hA]

/-- reading a header looks at the first 52 bytes alone -/
theorem readHeader_append {hd : Bytes} (h : hd.length = 52) (t : Bytes) :
    readHeader A key (hd ++ t) = readHeader A key hd := by
  have h1 : ¬ (hd ++ t).length < HEADER_PHYS := by
    rw [List.length_append, h]; exact Nat.not_lt.2 (Nat.le_add_right 52 t.length)
  have h2 : ¬ hd.length < HEADER_PHYS := by rw [h]; exact Nat.lt_irrefl 52
  unfold readHeader
  rw [if_neg h1, if_neg h2, slice_left (by omega), slice_left (by omega)]

theorem readHeader_congr {f g : Bytes} (hf : 52 ≤ f.length) (h : g.take 52 = f.take 52) : readHeader A key g = readHeader A key f := by
  have hlen : (f.take 52).length = 52 := List.length_take_of_le hf
  rw [← List.take_append_drop 52 g, ← List.take_append_drop 52 f, readHeader_append (by rw [h, hlen]), readHeader_append hlen, h]

theorem readHeader_length {f : Bytes} {h : StoredHeader} (hr : readHeader A key f = .ok h) : 52 ≤ f.length := by
  unfold readHeader at hr
  split_ifs at hr with hlen
  exact Nat.not_lt.1 hlen

/-- what `write_header` writes, `read_header` reads back -/
theorem readHeader_headerBytes (hA : A.Correct) {s : Backend} (hlen : s.inner.logicalLen ≤ MAX_U48)
    (hepoch : s.inner.epoch ≤ MAX_U48) (r : Bool) :
    readHeader A key (s.headerBytes A key r) = .ok ⟨s.inner.logicalLen, s.inner.epoch, false, r⟩ := by
  have h1 : slice (s.headerBytes A key r) 8 20 = s.nonce := by
    rw [Backend.headerBytes, ← List.append_assoc]
    exact slice_middle rfl (by simp)
  have h2 : slice (s.headerBytes A key r) 20 52 = A.encrypt key s.nonce MAGIC (headerPlaintext s.inner r) := by
    rw [Backend.headerBytes, ← List.append_assoc, ← List.append_nil (MAGIC ++ s.nonce ++ _)]
    exact slice_middle (by simp [MAGIC]) (by simp [hA.length_encrypt, headerPlaintext])
  have h3 : slice (headerPlaintext s.inner r) 2 8 = beBytes 6 s.inner.logicalLen := by
    rw [headerPlaintext, List.append_assoc]
    exact slice_middle rfl (by simp)
  have h4 : slice (headerPlaintext s.inner r) 8 14 = beBytes 6 s.inner.epoch := by
    rw [headerPlaintext]
    exact slice_middle (by simp) (by simp)
  have h5 : (headerPlaintext s.inner r).getD 0 0 = FORMAT_VERSION := rfl
  have h6 : ((headerPlaintext s.inner r).getD 1 0 &&& FLAG_RESEAL_PENDING != 0) = r := by
    change ((if r then FLAG_RESEAL_PENDING else 0) &&& FLAG_RESEAL_PENDING != 0) = r
    cases r <;> decide
  have h7 : (headerPlaintext s.inner r).length = 16 := by simp [headerPlaintext]
  have h8 : ¬ (s.headerBytes A key r).length < HEADER_PHYS := by
    rw [length_headerBytes hA]; exact Nat.lt_irrefl 52
  unfold readHeader
  rw [if_neg h8, h1, h2, hA.decrypt_encrypt]
  simp only [h3, h4, h5, h6, h7, readU48, ofBe_beBytes]
  rw [Nat.mod_eq_of_lt (show s.inner.logicalLen < 256 ^ 6 by norm_num at hlen ⊢; omega),
    Nat.mod_eq_of_lt (show s.inner.epoch < 256 ^ 6 by norm_num at hepoch ⊢; omega)]
  rfl

end Header

/-! ## `impl StorageBackend` -/

def len (s : Backend) : ℕ := s.inner.logicalLen

/-- the bytes of one round: those of block `pos / 4096` from `pos` on, at most `left` of them -/
def roundLen (pos left : ℕ) : ℕ := min (BLOCK_SIZE - pos % BLOCK_SIZE) left

theorem roundLen_pos {pos left : ℕ} (h : 0 < left) : 0 < roundLen pos left :=
  lt_min (Nat.sub_pos_of_lt (Nat.mod_lt _ (by norm_num))) h

theorem roundLen_le (pos left : ℕ) : roundLen pos left ≤ left := Nat.min_le_right _ _

/-- `out` holds the `done` bytes read so far -/
def readLoop (s : Backend) (offset n : ℕ) (out : Bytes) (done : ℕ) : Except IoError Bytes :=
  if done < n then
    match readBlock A key s ((offset + done) / BLOCK_SIZE) with
    | .error e => .error e
    | .ok plain =>
      readLoop s offset n
        (out ++ slice plain ((offset + done) % BLOCK_SIZE)
          ((offset + done) % BLOCK_SIZE + roundLen (offset + done) (n - done)))
        (done + roundLen (offset + done) (n - done))
  else .ok out
termination_by n - done
decreasing_by
  have : 0 < roundLen (offset + done) (n - done) := roundLen_pos (by omega)
  omega

def read (s : Backend) (offset n : ℕ) : Except IoError Bytes := readLoop A key s offset n [] 0

/-- the block a round of `write` starts from: a full aligned block needs no read -/
def oldBlock (s : Backend) (pos n : ℕ) : Except IoError Bytes :=
  if pos % BLOCK_SIZE = 0 ∧ n = BLOCK_SIZE then .ok zeroBlock else readBlock A key s (pos / BLOCK_SIZE)

/-- `plain[within..within + piece.len()].copy_from_slice(piece)` -/
def splice (plain : Bytes) (within : ℕ) (piece : Bytes) : Bytes :=
  plain.take within ++ piece ++ plain.drop (within + piece.length)

def writeRound (pos : ℕ) (piece : Bytes) : Prog Backend IoError Unit := do
  let s ← Prog.get
  let plain ← Prog.ofExcept (oldBlock A key s pos piece.length)
  writeBlock A key (pos / BLOCK_SIZE) (splice plain (pos % BLOCK_SIZE) piece)

def writeLoop (offset : ℕ) (data : Bytes) (done : ℕ) : Prog Backend IoError Unit :=
  if done < data.length then do
    writeRound A key (offset + done) (slice data done (done + roundLen (offset + done) (data.length - done)))
    writeLoop offset data (done + roundLen (offset + done) (data.length - done))
  else pure ()
termination_by data.length - done
decreasing_by
  have : 0 < roundLen (offset + done) (data.length - done) := roundLen_pos (by omega)
  omega

/-- the end of `write`: a longer file gets its header rewritten -/
def growTo (e : ℕ) : Prog Backend IoError Unit := do
  let s ← Prog.get
  if s.inner.logicalLen < e then do
    Prog.modify fun s => { s with inner := { s.inner with logicalLen := e } }
    writeHeader A key false
  else pure ()

def write (offset : ℕ) (data : Bytes) : Prog Backend IoError Unit := do
  writeLoop A key offset data 0
  growTo A key (offset + data.length)

def neededPhys (n : ℕ) : ℕ := HEADER_PHYS + (n + (BLOCK_SIZE - 1)) / BLOCK_SIZE * PHYS_BLOCK

def truncatePhys (n : ℕ) : Prog Backend IoError Unit := do
  let s ← Prog.get
  if neededPhys n < s.inner.physLen then
    Prog.modify fun s => { s with file := s.file.setLen (neededPhys n), inner := { s.inner with physLen := neededPhys n } }
  else pure ()

/-- the last logical block, if present, loses its bytes past the new length -/
def zeroTail (n : ℕ) : Prog Backend IoError Unit := do
  let s ← Prog.get
  if n % BLOCK_SIZE ≠ 0 ∧ blockPhysOffset (n / BLOCK_SIZE + 1) ≤ s.inner.physLen then do
    let plain ← Prog.ofExcept (readBlock A key s (n / BLOCK_SIZE))
    writeBlock A key (n / BLOCK_SIZE)
      (plain.take (n % BLOCK_SIZE) ++ List.replicate (BLOCK_SIZE - n % BLOCK_SIZE) 0)
  else pure ()

def setLen (n : ℕ) : Prog Backend IoError Unit := do
  Prog.modify fun s => { s with inner := { s.inner with logicalLen := n } }
  truncatePhys n
  zeroTail A key n
  writeHeader A key false

/-! ## A file's life -/

inductive Call where
  | openFile (onForeign : ForeignFile)
  | write (offset : ℕ) (data : Bytes)
  | setLen (n : ℕ)
  | syncData

def Call.prog : Call → Prog Backend IoError Unit
  | .openFile onForeign => EncryptedBackend.openFile A key onForeign
  | .write offset data => EncryptedBackend.write A key offset data
  | .setLen n => EncryptedBackend.setLen A key n
  | .syncData => EncryptedBackend.syncData

/-- the file, the backend that has it open (if any), and the nonces sealed with in the file's whole life -/
structure Machine where
  file : File
  inner : Option Inner
  seals : List Bytes

/-- a file before its first open -/
def Machine.found (f : Bytes) : Machine := ⟨⟨f, []⟩, none, []⟩

def Machine.backend (m : Machine) : Option Backend := m.inner.map fun i => ⟨m.file, i, m.seals⟩

/-- the state a call starts in: an open makes its own backend, every other call needs one -/
def Machine.enter (m : Machine) : Call → Option Backend
  | .openFile _ => some ⟨m.file, ⟨0, 0, 0, 0⟩, m.seals⟩
  | _ => m.backend

/-- a failed open leaves no backend; any other failed call leaves it as it was at the error -/
def Machine.leave (s : Backend) : Call → Except IoError Unit → Machine
  | .openFile _, .error _ => ⟨s.file, none, s.seals⟩
  | _, _ => ⟨s.file, some s.inner, s.seals⟩

/-- one call that must succeed -/
def Machine.exec (m : Machine) (c : Call) : Except IoError Machine :=
  match m.enter c with
  | none => .ok m
  | some s =>
    match (c.prog A key).result s with
    | .error e => .error e
    | .ok () => .ok (Machine.leave ((c.prog A key).final s) c (.ok ()))

inductive Event where
  | call (c : Call)
  /-- power is lost after `cut` effects of the call; see `File.survive` for what comes back -/
  | crash (c : Call) (cut age : ℕ) (tail : Bytes)

def step (m : Machine) : Event → Machine
  | .call c =>
    match m.enter c with
    | none => m
    | some s => Machine.leave ((c.prog A key).final s) c ((c.prog A key).result s)
  | .crash c cut age tail =>
    match m.enter c with
    | none => ⟨m.file.survive age tail, none, m.seals⟩
    | some s =>
      let t := (c.prog A key).cutAt s cut
      ⟨t.file.survive age tail, none, t.seals⟩

end Y2q.EncryptedBackend
