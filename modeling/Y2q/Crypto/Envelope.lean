/-
The chunked AEAD envelope (`crypto/envelope.rs`): the streaming writer `EncryptSession` and the two whole-envelope readers.

    magic "Y2Q3" | format_ver | kem_alg | aead_alg | key_epoch | nonce_base | plaintext_len | chunk_size     36 bytes
    kem_ct                                                                                                  1088 bytes
    one AES-GCM ciphertext per chunk, each 16 bytes longer than its plaintext

A writer encapsulates once, derives the content key from the shared secret and the object's address, and seals each chunk
under `nonce_base XOR index` with the header (all but `plaintext_len`) and, in version 4, an is-final byte as associated
data. It holds one complete chunk back in `pending`, because only what follows decides whether that chunk is the final one.

ML-KEM, HKDF, AES-GCM and XXH3 are third-party code and are taken as functions (`Suite`); what a real call draws at random
(the encapsulation, `nonce_base`) is an argument. Writes to the sink do not fail. `u64` counters wrap, as in a release build.
-/
import Mathlib.Tactic
import Y2q.Core.Aead
import Y2q.Core.Chunks
import Y2q.Crypto.NodeKeys

namespace Y2q.Envelope

open Y2q

/-! ## Constants and primitives -/

abbrev ENVELOPE_V3_HEADER_FIXED_LEN : ℕ := 36
abbrev CIPHERTEXT_BYTES : ℕ := 1088
abbrev PREAMBLE_LEN : ℕ := ENVELOPE_V3_HEADER_FIXED_LEN + CIPHERTEXT_BYTES
abbrev TAG_LEN : ℕ := 16
abbrev V3_AAD_PREFIX_LEN : ℕ := 24
abbrev V3_PLAINTEXT_LEN_OFFSET : ℕ := 24
abbrev PUBLIC_KEY_BYTES : ℕ := 1184
abbrev SECRET_KEY_BYTES : ℕ := 2400

/-- `b"Y2Q3"` -/
def MAGIC_V3 : Bytes := [0x59, 0x32, 0x51, 0x33]

def FORMAT_VER_V3 : ℕ := 3
def FORMAT_VER_V4 : ℕ := 4
def KEM_ALG_MLKEM768 : UInt8 := 1
def AEAD_ALG_AES256GCM : UInt8 := 1

/-- the third-party primitives -/
structure Suite where
  aead : Aead Bytes
  length_seal : ∀ k n a m, (aead.encrypt k n a m).length = m.length + 16
  /-- `Hkdf::new(Some(salt), ikm).expand(info)`, 32 bytes -/
  hkdfSha256 : Bytes → Bytes → Bytes → Bytes
  /-- the key encodings ML-KEM accepts, past their length -/
  validPk : Bytes → Bool
  validSk : Bytes → Bool
  /-- shared secret and ciphertext, from a public key and the randomness drawn -/
  encapsulate : Bytes → Bytes → Bytes × Bytes
  decapsulate : Bytes → Bytes → Bytes
  length_ct : ∀ pk r, (encapsulate pk r).2.length = 1088
  /-- base64 of the XXH3-64 digest of the bytes fed, however they were split -/
  checksumB64 : Bytes → String

/-- a key pair: both encodings are accepted, and decapsulation undoes encapsulation -/
structure Suite.KeyPair (S : Suite) (pk sk : Bytes) : Prop where
  pk_length : pk.length = 1184
  sk_length : sk.length = 2400
  pk_valid : S.validPk pk = true
  sk_valid : S.validSk sk = true
  correct : ∀ r, S.decapsulate (S.encapsulate pk r).2 sk = (S.encapsulate pk r).1

/-- `padme_len`, on a `u64` -/
def padmeLen (l : ℕ) : ℕ :=
  if l < 2 then l
  else
    let e := Nat.log2 l
    let s := Nat.log2 e + 1
    if e ≤ s then l
    else
      let mask := 2 ^ (e - s) - 1
      min (l + mask) (2 ^ 64 - 1) &&& (2 ^ 64 - 1 - mask)

/-- `nonce_base` with the index, as a big-endian `u64`, XORed into bytes `4..12` -/
def chunkNonce (base : Bytes) (idx : ℕ) : Bytes := base.take 4 ++ List.zipWith (· ^^^ ·) (base.drop 4) (beBytes 8 idx)

def buildV3Aad (header : Bytes) : Bytes := slice header 0 V3_AAD_PREFIX_LEN ++ slice header 32 36

def buildV4Aad (aadBase : Bytes) (isFinal : Bool) : Bytes := aadBase ++ [if isFinal then 1 else 0]

/-- the fixed header -/
def header (version : ℕ) (keyEpoch : UInt32) (nonceBase : Bytes) (plaintextLen : ℕ) (chunkSize : ℕ) : Bytes :=
  MAGIC_V3 ++ beBytes 2 version ++ [KEM_ALG_MLKEM768] ++ [AEAD_ALG_AES256GCM] ++ beBytes 4 keyEpoch.toNat ++ nonceBase ++
    beBytes 8 plaintextLen ++ beBytes 4 chunkSize

variable (S : Suite)

def deriveContentKey (ss kemCt : Bytes) (bucket key : String) : Bytes :=
  S.hkdfSha256 kemCt ss (utf8 "y2q/v1/content-key" ++ lenPrefixed bucket ++ lenPrefixed key)

def publicKeyFromBytes (b : Bytes) : Except CryptoError Bytes :=
  if b.length ≠ PUBLIC_KEY_BYTES then .error (.kemDecode "public key")
  else if S.validPk b then .ok b else .error (.kemDecode "public key")

def secretKeyFromBytes (b : Bytes) : Except CryptoError Bytes :=
  if b.length ≠ SECRET_KEY_BYTES then .error (.kemDecode "secret key")
  else if S.validSk b then .ok b else .error (.kemDecode "secret key")

/-! ## Writing -/

/-- a file and the position of the next write -/
structure Sink where
  file : Bytes
  cursor : ℕ
deriving DecidableEq, Repr

namespace Sink

def writeAll (s : Sink) (b : Bytes) : Sink := ⟨pwrite s.file s.cursor b, s.cursor + b.length⟩

def writeAllAt (s : Sink) (b : Bytes) (offset : ℕ) : Sink := ⟨pwrite s.file offset b, offset + b.length⟩

def seekToEnd (s : Sink) : Sink := ⟨s.file, s.file.length⟩

end Sink

structure EnvelopeInfo where
  envelopeVersion : ℕ
  kemAlg : String
  aeadAlg : String
  cipherSize : UInt64
  cipherChecksumB64 : String
  keyEpoch : UInt32
deriving DecidableEq, Repr

structure EncryptSession where
  sink : Sink
  /-- the key of `cipher` -/
  cipher : Bytes
  nonceBase : Bytes
  chunkIdx : UInt64
  staging : Bytes
  pending : Option Bytes
  plaintextTotal : UInt64
  aadBase : Bytes
  bytesWritten : UInt64
  writeOffset : ℕ
  chunkSize : ℕ
  keyEpoch : UInt32
  /-- the bytes fed to the running checksum -/
  cipherHasher : Bytes
deriving DecidableEq, Repr

namespace EncryptSession

def new (sink : Sink) (pkBytes : Bytes) (keyEpoch : UInt32) (bucket key : String) (writeOffset chunkSize : ℕ)
    (rand : Bytes) (nonceBase : Nonce) : Except CryptoError EncryptSession :=
  if chunkSize = 0 ∨ 2 ^ 32 - 1 < chunkSize then .error (.envelope "invalid chunk_size")
  else
    match publicKeyFromBytes S pkBytes with
    | .error e => .error e
    | .ok pk =>
      let (ss, kemCt) := S.encapsulate pk rand
      let hdr := header FORMAT_VER_V4 keyEpoch nonceBase.1 0 chunkSize
      .ok
        { sink := (sink.writeAll hdr).writeAll kemCt
          cipher := deriveContentKey S ss kemCt bucket key
          nonceBase := nonceBase.1
          chunkIdx := 0
          staging := []
          pending := none
          plaintextTotal := 0
          aadBase := buildV3Aad hdr
          bytesWritten := UInt64.ofNat (hdr.length + kemCt.length)
          writeOffset := writeOffset
          chunkSize := chunkSize
          keyEpoch := keyEpoch
          cipherHasher := hdr ++ kemCt }

/-- seal one chunk and write it -/
def flushRaw (s : EncryptSession) (data : Bytes) (isFinal : Bool) : EncryptSession :=
  let ct := S.aead.encrypt s.cipher (chunkNonce s.nonceBase s.chunkIdx.toNat) (buildV4Aad s.aadBase isFinal) data
  { s with
    plaintextTotal := s.plaintextTotal + UInt64.ofNat data.length
    bytesWritten := s.bytesWritten + UInt64.ofNat ct.length
    cipherHasher := s.cipherHasher ++ ct
    sink := s.sink.writeAll ct
    chunkIdx := s.chunkIdx + 1 }

/-- flush the chunk held back, which is now known not to be the final one -/
def flushPending (s : EncryptSession) : EncryptSession :=
  match s.pending with
  | none => s
  | some prev => flushRaw S { s with pending := none } prev false

def promoteStaging (s : EncryptSession) : EncryptSession :=
  { flushPending S s with pending := some s.staging, staging := [] }

/-- put bytes that fit into `staging`, promoting it if it is full then -/
def stage (s : EncryptSession) (part : Bytes) : EncryptSession :=
  if s.staging.length + part.length = s.chunkSize then promoteStaging S { s with staging := s.staging ++ part }
  else { s with staging := s.staging ++ part }

/-- how many of `n` bytes one round takes -/
def take (s : EncryptSession) (n : ℕ) : ℕ := min n (s.chunkSize - s.staging.length)

def feed (s : EncryptSession) (remaining : Bytes) : EncryptSession :=
  if _h : remaining = [] then s
  -- `staging` is never full here, so each round takes a byte at least
  else if _ht : s.take remaining.length = 0 then s
  else feed (stage S s (remaining.take (s.take remaining.length))) (remaining.drop (s.take remaining.length))
termination_by remaining.length
decreasing_by
  have := List.length_pos_of_ne_nil _h
  rw [List.length_drop]; omega

/-- the padding loop of `finish` -/
def pad (s : EncryptSession) (padRemaining : ℕ) : EncryptSession :=
  if _h : padRemaining = 0 then s
  else if _ht : s.take padRemaining = 0 then s
  else pad (stage S s (List.replicate (s.take padRemaining) 0)) (padRemaining - s.take padRemaining)
termination_by padRemaining

/-- seal the final chunk: the tail in `staging`, or else the chunk held back, if there is one -/
def flushFinal (s : EncryptSession) : EncryptSession :=
  if s.staging ≠ [] then flushRaw S { flushPending S s with staging := [] } s.staging true
  else
    match s.pending with
    | none => s
    | some prev => flushRaw S { s with pending := none } prev true

def finish (s : EncryptSession) : Sink × EnvelopeInfo :=
  let alreadyAbsorbed := s.plaintextTotal + UInt64.ofNat (s.pending.elim 0 List.length) + UInt64.ofNat s.staging.length
  let target := UInt64.ofNat (padmeLen alreadyAbsorbed.toNat)
  let s := flushFinal S (pad S s (target - alreadyAbsorbed).toNat)
  ((s.sink.writeAllAt (beBytes 8 s.plaintextTotal.toNat) (s.writeOffset + V3_PLAINTEXT_LEN_OFFSET)).seekToEnd,
    { envelopeVersion := FORMAT_VER_V4
      kemAlg := "ml-kem-768"
      aeadAlg := "aes-256-gcm"
      cipherSize := s.bytesWritten
      cipherChecksumB64 := S.checksumB64 s.cipherHasher
      keyEpoch := s.keyEpoch })

end EncryptSession

/-- `new`, then `feed` on each slice, then `finish` -/
def encrypt (sink : Sink) (pkBytes : Bytes) (keyEpoch : UInt32) (bucket key : String) (writeOffset chunkSize : ℕ)
    (rand : Bytes) (nonceBase : Nonce) (slices : List Bytes) : Except CryptoError (Sink × EnvelopeInfo) :=
  match EncryptSession.new S sink pkBytes keyEpoch bucket key writeOffset chunkSize rand nonceBase with
  | .error e => .error e
  | .ok s => .ok ((slices.foldl (EncryptSession.feed S) s).finish S)

/-! ## Reading -/

/-- what the readers take from the preamble once it has passed their checks -/
structure Preamble where
  nonceBase : Bytes
  plaintextLen : ℕ
  chunkSize : ℕ
  aadBase : Bytes
  contentKey : Bytes
deriving DecidableEq, Repr

/-- the checks on the preamble that all four readers make, in order, for the version `ver` -/
def readPreamble (ver : ℕ) (truncated : String) (skBytes envelope : Bytes) (bucket key : String) :
    Except CryptoError Preamble :=
  if envelope.length < PREAMBLE_LEN then .error (.envelope truncated)
  else if ofBe (slice envelope 4 6) ≠ ver then .error (.unsupportedVersion (ofBe (slice envelope 4 6)))
  else if slice envelope 6 7 ≠ [KEM_ALG_MLKEM768] then .error (.envelope "unknown kem_alg")
  else if slice envelope 7 8 ≠ [AEAD_ALG_AES256GCM] then .error (.envelope "unknown aead_alg")
  else if ofBe (slice envelope 32 36) = 0 then .error (.envelope "zero chunk_size")
  else
    match secretKeyFromBytes S skBytes with
    | .error e => .error e
    | .ok sk =>
      let kemCt := slice envelope ENVELOPE_V3_HEADER_FIXED_LEN PREAMBLE_LEN
      .ok
        { nonceBase := slice envelope 12 24
          plaintextLen := ofBe (slice envelope 24 32)
          chunkSize := ofBe (slice envelope 32 36)
          aadBase := buildV3Aad (slice envelope 0 ENVELOPE_V3_HEADER_FIXED_LEN)
          contentKey := deriveContentKey S (S.decapsulate kemCt sk) kemCt bucket key }

/-- a chunk's associated data in the two versions -/
def chunkAad (ver : ℕ) (aadBase : Bytes) (isFinal : Bool) : Bytes :=
  if ver = FORMAT_VER_V3 then aadBase else buildV4Aad aadBase isFinal

/-- the chunk loop of `decrypt_v3` and `decrypt_v4`: a position in the envelope -/
def chunkLoop (ver : ℕ) (p : Preamble) (envelope : Bytes) (pos idx : ℕ) (plaintext : Bytes) : Except CryptoError Bytes :=
  if _h : pos < envelope.length then
    let ctEnd := min (pos + p.chunkSize + TAG_LEN) envelope.length
    if _ht : ctEnd - pos < TAG_LEN then .error (.envelope "truncated chunk ciphertext")
    else
      match S.aead.decrypt p.contentKey (chunkNonce p.nonceBase idx) (chunkAad ver p.aadBase (ctEnd = envelope.length))
        (slice envelope pos ctEnd) with
      | none => .error .authFailed
      | some m => chunkLoop ver p envelope ctEnd (idx + 1) (plaintext ++ m)
  else .ok plaintext
termination_by envelope.length - pos
decreasing_by
  have : TAG_LEN = 16 := rfl
  omega

/-- the chunk loop of the owned readers: the rest of the body, and how much of the envelope is consumed -/
def chunkLoopOwned (ver : ℕ) (p : Preamble) (totalLen : ℕ) (body : Bytes) (consumed idx : ℕ) (plaintext : Bytes) :
    Except CryptoError Bytes :=
  if _h : body = [] then .ok plaintext
  else
    let take := min (p.chunkSize + TAG_LEN) body.length
    if _ht : take < TAG_LEN then .error (.envelope "truncated chunk ciphertext")
    else
      match S.aead.decrypt p.contentKey (chunkNonce p.nonceBase idx) (chunkAad ver p.aadBase (consumed + take = totalLen))
        (body.take take) with
      | none => .error .authFailed
      | some m => chunkLoopOwned ver p totalLen (body.drop take) (consumed + take) (idx + 1) (plaintext ++ m)
termination_by body.length
decreasing_by
  have : TAG_LEN = 16 := rfl
  rw [List.length_drop]; omega

/-- `finish_plaintext`, after the check of the length the header declares -/
def finishPlaintext (p : Preamble) (expectedPlaintextLen : ℕ) (plaintext : Bytes) : Except CryptoError Bytes :=
  if plaintext.length ≠ p.plaintextLen then .error (.envelope "plaintext length mismatch")
  else if plaintext.length < expectedPlaintextLen then .error (.envelope "plaintext shorter than authenticated size")
  else .ok (plaintext.take expectedPlaintextLen)

def decryptVersion (ver : ℕ) (truncated : String) (skBytes envelope : Bytes) (bucket key : String) (expectedPlaintextLen : ℕ) :
    Except CryptoError Bytes := do
  let p ← readPreamble S ver truncated skBytes envelope bucket key
  let plaintext ← chunkLoop S ver p envelope PREAMBLE_LEN 0 []
  finishPlaintext p expectedPlaintextLen plaintext

def decryptVersionOwned (ver : ℕ) (truncated : String) (skBytes envelope : Bytes) (bucket key : String)
    (expectedPlaintextLen : ℕ) : Except CryptoError Bytes := do
  let p ← readPreamble S ver truncated skBytes envelope bucket key
  let plaintext ← chunkLoopOwned S ver p envelope.length (envelope.drop PREAMBLE_LEN) PREAMBLE_LEN 0 []
  finishPlaintext p expectedPlaintextLen plaintext

def decryptV3 := decryptVersion S FORMAT_VER_V3 "truncated v3 envelope"
def decryptV4 := decryptVersion S FORMAT_VER_V4 "truncated v4 envelope"
def decryptV3Owned := decryptVersionOwned S FORMAT_VER_V3 "truncated v3 envelope"
def decryptV4Owned := decryptVersionOwned S FORMAT_VER_V4 "truncated v4 envelope"

/-- the dispatch on magic and version -/
def dispatch (v3 v4 : Bytes → Bytes → String → String → ℕ → Except CryptoError Bytes) (skBytes envelope : Bytes)
    (bucket key : String) (expectedPlaintextLen : ℕ) : Except CryptoError Bytes :=
  if envelope.length < 4 then .error (.envelope "truncated header")
  else if slice envelope 0 4 ≠ MAGIC_V3 then .error (.envelope "bad magic")
  else if envelope.length < 6 then .error (.envelope "truncated header")
  else if ofBe (slice envelope 4 6) = FORMAT_VER_V3 then v3 skBytes envelope bucket key expectedPlaintextLen
  else if ofBe (slice envelope 4 6) = FORMAT_VER_V4 then v4 skBytes envelope bucket key expectedPlaintextLen
  else .error (.unsupportedVersion (ofBe (slice envelope 4 6)))

def decrypt := dispatch (decryptV3 S) (decryptV4 S)

def decryptOwned := dispatch (decryptV3Owned S) (decryptV4Owned S)

end Y2q.Envelope
