/-
The single-file object container (`storage/format.rs`): a 64-byte header, padding up to `data_offset`, the data, the
sealed metadata sidecar, and a trailer that mirrors the header.

The header carries a CRC32 over its first 60 bytes and an HMAC over its first 24 bytes and the object's on-disk id, so a
header decodes only under the container header key and the id it was encoded for (`decode_encode`, `decode_other_key`).
CRC32 and HMAC-SHA256 are third-party code: `Primitives` takes them, and the AEAD, as functions with their documented
lengths.
-/
import Mathlib.Tactic
import Y2q.Core.Aead

namespace Y2q

/-- the third-party primitives: AES-256-GCM, HMAC-SHA256 and CRC32 -/
structure Primitives where
  aead : Aead Bytes
  hmacSha256 : Bytes → Bytes → Bytes
  crc32 : Bytes → UInt32
  aead_correct : aead.Correct
  length_hmac : ∀ k d, (hmacSha256 k d).length = 32

namespace Format

/-- `b"Y2QO"` -/
def MAGIC : Bytes := [0x59, 0x32, 0x51, 0x4f]

def VERSION : UInt16 := 2

abbrev HEADER_SIZE : ℕ := 64

inductive FormatError where
  | magic
  | version (v : UInt16)
  | crc
  | mac
  | totalLen (declared actual : ℕ)
  | dataOffset (off : UInt32)
deriving DecidableEq, Repr

def FormatError.message : FormatError → String
  | .magic => "invalid magic bytes"
  | .version v => s!"unsupported format version {v}"
  | .crc => "header CRC32 mismatch"
  | .mac => "header MAC mismatch"
  | .totalLen declared actual => s!"header declares total length {declared} but the file is {actual} bytes"
  | .dataOffset off => s!"data_offset {off} is below the minimum of {HEADER_SIZE}"

structure Header where
  dataLen : UInt64
  metaLen : UInt32
  dataOffset : UInt32
  flags : UInt16
  version : UInt16
deriving DecidableEq, Repr

namespace Header

def MIN_DATA_OFFSET : UInt32 := 64

/-- a `u64` sum, wrapping as in a release build -/
def metaOffset (h : Header) : ℕ := (h.dataOffset.toNat + h.dataLen.toNat) % 2 ^ 64

def trailerOffset (h : Header) : ℕ := (h.metaOffset + h.metaLen.toNat) % 2 ^ 64

def checkedTotalLen (h : Header) : Option ℕ :=
  let total := h.dataOffset.toNat + h.dataLen.toNat + h.metaLen.toNat + HEADER_SIZE
  if total < 2 ^ 64 then some total else none

def checkTotalLen (h : Header) (actual : ℕ) : Except FormatError Unit :=
  match h.checkedTotalLen with
  | some declared => if declared = actual then .ok () else .error (.totalLen declared actual)
  | none => .error (.totalLen (2 ^ 64 - 1) actual)

/-- the 24 bytes every field of the header is read from -/
def fields (h : Header) : Bytes :=
  MAGIC ++ leBytes 2 h.version.toNat ++ leBytes 2 h.flags.toNat ++ leBytes 8 h.dataLen.toNat ++
    leBytes 4 h.metaLen.toNat ++ leBytes 4 h.dataOffset.toNat

/-- HMAC over bytes `0..24` and the object id -/
def mac (P : Primitives) (chk buf : Bytes) (objectId : String) : Bytes :=
  P.hmacSha256 chk (slice buf 0 24 ++ utf8 objectId)

def encode (P : Primitives) (h : Header) (chk : Bytes) (objectId : String) : Bytes :=
  let buf := h.fields ++ mac P chk h.fields objectId ++ [0, 0, 0, 0]
  buf ++ leBytes 4 (P.crc32 buf).toNat

def decode (P : Primitives) (buf chk : Bytes) (objectId : String) : Except FormatError Header :=
  let version := UInt16.ofNat (ofLe (slice buf 4 6))
  let rawDataOffset := UInt32.ofNat (ofLe (slice buf 20 24))
  let dataOffset := if rawDataOffset = 0 then MIN_DATA_OFFSET else rawDataOffset
  if slice buf 0 4 ≠ MAGIC then .error .magic
  else if version ≠ VERSION then .error (.version version)
  else if ofLe (slice buf 60 64) ≠ (P.crc32 (slice buf 0 60)).toNat then .error .crc
  else if slice buf 24 56 ≠ mac P chk buf objectId then .error .mac
  else if dataOffset < MIN_DATA_OFFSET then .error (.dataOffset dataOffset)
  else .ok
    { dataLen := UInt64.ofNat (ofLe (slice buf 8 16))
      metaLen := UInt32.ofNat (ofLe (slice buf 16 20))
      dataOffset := dataOffset
      flags := UInt16.ofNat (ofLe (slice buf 6 8))
      version := version }

/-! ## Encoding and decoding -/

@[simp] theorem length_fields (h : Header) : h.fields.length = 24 := by simp [fields, MAGIC]

theorem length_mac (P : Primitives) (chk buf : Bytes) (id : String) : (mac P chk buf id).length = 32 :=
  P.length_hmac _ _

@[simp] theorem length_encode (P : Primitives) (h : Header) (chk : Bytes) (id : String) :
    (h.encode P chk id).length = 64 := by
  simp [encode, length_mac]

/-- the pieces of an encoded header that `decode` looks at -/
theorem encode_slices (P : Primitives) (h : Header) (chk : Bytes) (id : String) :
    slice (h.encode P chk id) 0 24 = h.fields ∧ slice (h.encode P chk id) 24 56 = mac P chk h.fields id ∧
      ofLe (slice (h.encode P chk id) 60 64) = (P.crc32 (slice (h.encode P chk id) 0 60)).toNat := by
  have hm := length_mac P chk h.fields id
  refine ⟨?_, ?_, ?_⟩
  · simp only [encode, List.append_assoc]
    exact slice_front (by simp)
  · simp only [encode, List.append_assoc]
    rw [← List.append_assoc]
    exact slice_middle (by simp) (by simp [hm])
  · have h0 : slice (h.encode P chk id) 0 60 = h.fields ++ mac P chk h.fields id ++ [0, 0, 0, 0] :=
      slice_front (by simp [hm])
    have h1 : slice (h.encode P chk id) 60 64 = leBytes 4 (P.crc32 (slice (h.encode P chk id) 0 60)).toNat := by
      rw [h0]
      have := @slice_middle (h.fields ++ mac P chk h.fields id ++ [0, 0, 0, 0])
        (leBytes 4 (P.crc32 (h.fields ++ mac P chk h.fields id ++ [0, 0, 0, 0])).toNat) [] 60 64 (by simp [hm]) (by simp)
      simpa [encode] using this
    rw [h1, ofLe_leBytes]
    exact Nat.mod_eq_of_lt (UInt32.toNat_lt _)

theorem slice_of_fields {b f : Bytes} {i j : ℕ} (h : slice b 0 24 = f) (hj : j ≤ 24) : slice b i j = slice f i j := by
  subst h
  exact (slice_slice hj).symm

theorem mac_congr (P : Primitives) (chk : Bytes) {b b' : Bytes} (id : String) (h : slice b 0 24 = slice b' 0 24) :
    mac P chk b id = mac P chk b' id := by simp only [mac, h]

theorem fields_slices (h : Header) :
    slice h.fields 0 4 = MAGIC ∧ slice h.fields 4 6 = leBytes 2 h.version.toNat ∧
      slice h.fields 6 8 = leBytes 2 h.flags.toNat ∧ slice h.fields 8 16 = leBytes 8 h.dataLen.toNat ∧
      slice h.fields 16 20 = leBytes 4 h.metaLen.toNat ∧ slice h.fields 20 24 = leBytes 4 h.dataOffset.toNat := by
  have hmid : ∀ (p m q : Bytes) (i j : ℕ), h.fields = p ++ m ++ q → p.length = i → i + m.length = j →
      slice h.fields i j = m := fun p m q i j e hi hj => by rw [e]; exact slice_middle hi hj
  refine ⟨?_, ?_, ?_, ?_, ?_, ?_⟩
  · exact hmid [] _ _ 0 4 (by simp only [fields, List.append_assoc, List.nil_append]; rfl) rfl rfl
  · exact hmid MAGIC _ _ 4 6 (by simp only [fields, List.append_assoc]; rfl) rfl (by simp)
  · exact hmid (MAGIC ++ leBytes 2 h.version.toNat) _ _ 6 8 (by simp only [fields, List.append_assoc]; rfl)
      (by simp [MAGIC]) (by simp)
  · exact hmid (MAGIC ++ leBytes 2 h.version.toNat ++ leBytes 2 h.flags.toNat) _ _ 8 16
      (by simp only [fields, List.append_assoc]; rfl) (by simp [MAGIC]) (by simp)
  · exact hmid (MAGIC ++ leBytes 2 h.version.toNat ++ leBytes 2 h.flags.toNat ++ leBytes 8 h.dataLen.toNat) _ _ 16 20
      (by simp only [fields, List.append_assoc]; rfl) (by simp [MAGIC]) (by simp)
  · exact hmid (MAGIC ++ leBytes 2 h.version.toNat ++ leBytes 2 h.flags.toNat ++ leBytes 8 h.dataLen.toNat ++
      leBytes 4 h.metaLen.toNat) _ [] 20 24 (by simp only [fields, List.append_assoc, List.append_nil])
      (by simp [MAGIC]) (by simp)

/-- a header that passed `decode` has the current version and starts its data past the header -/
structure Wf (h : Header) : Prop where
  version : h.version = VERSION
  dataOffset : 64 ≤ h.dataOffset.toNat

theorem decode_encode (P : Primitives) {h : Header} (hw : h.Wf) (chk : Bytes) (id : String) :
    decode P (h.encode P chk id) chk id = .ok h := by
  obtain ⟨e1, e2, e3⟩ := encode_slices P h chk id
  obtain ⟨f1, f2, f3, f4, f5, f6⟩ := fields_slices h
  have hmac : mac P chk (h.encode P chk id) id = mac P chk h.fields id := by
    apply mac_congr
    rw [e1]; simp [slice]
  have hd : h.dataOffset ≠ 0 := by
    intro hc; have := hw.dataOffset; rw [hc] at this; simp at this
  have hmin : ¬ h.dataOffset < MIN_DATA_OFFSET := by
    have := hw.dataOffset
    rw [UInt32.lt_iff_toNat_lt]; simp [MIN_DATA_OFFSET]; omega
  unfold decode
  simp only [slice_of_fields e1 (show 4 ≤ 24 by omega), slice_of_fields e1 (show 6 ≤ 24 by omega),
    slice_of_fields e1 (show 8 ≤ 24 by omega), slice_of_fields e1 (show 16 ≤ 24 by omega),
    slice_of_fields e1 (show 20 ≤ 24 by omega), slice_of_fields e1 (le_refl 24), e2, e3, hmac, f1, f2, f3, f4, f5, f6,
    u16_le, u32_le, u64_le, ne_eq, not_true_eq_false, if_false, if_neg hd, if_neg hmin, not_not.2 hw.version]

theorem decode_wf {P : Primitives} {buf chk : Bytes} {id : String} {h : Header} (hd : decode P buf chk id = .ok h) :
    h.Wf := by
  unfold decode at hd
  simp only at hd
  split_ifs at hd with h1 h2 h3 h4 h5 h6 h6
  all_goals cases hd
  all_goals refine ⟨not_not.1 h2, ?_⟩
  · simp [MIN_DATA_OFFSET]
  · rw [UInt32.lt_iff_toNat_lt] at h6
    simpa [MIN_DATA_OFFSET] using h6

/-- a header encoded under one key does not decode under a key whose MACs are all different -/
theorem decode_other_key (P : Primitives) (h : Header) {chk chk' : Bytes} (id id' : String)
    (hsep : ∀ d d', P.hmacSha256 chk d ≠ P.hmacSha256 chk' d') :
    ∃ e, decode P (h.encode P chk id) chk' id' = .error e := by
  obtain ⟨-, e2, -⟩ := encode_slices P h chk id
  unfold decode
  simp only
  split_ifs with h1 h2 h3 h4 h5
  all_goals first
    | exact ⟨_, rfl⟩
    | exact absurd (e2.symm.trans (not_not.1 h4)) (hsep _ _)

end Header

end Format

end Y2q
