/-
Node-key derivation and the metadata sealing (`crypto/node_keys.rs`).

Every server key is a PRF of the node key under its own label. A metadata blob is sealed by `encrypt_meta` as
`0x02 | nonce | AES-GCM(len | json | zero padding)`, bound to the object id as associated data; `decrypt_meta` also accepts
the older `0x01 | nonce | AES-GCM(json)`. The nonce a real call draws at random is an argument here.

- `decryptMeta_encryptMeta`: what `encrypt_meta` seals opens to the same JSON.
- `length_encryptMeta`: the sealed length is a function of the JSON's length alone (`sealedLen`).
- `decryptMeta_other_key`: under a key that separates, a sealed blob does not open.
-/
import Mathlib.Tactic
import Y2q.Crypto.Error
import Y2q.Storage.Format

namespace Y2q

namespace NodeKeys

variable (P : Primitives)

/-! ## Derivation -/

def prf (key data : Bytes) : Bytes := P.hmacSha256 key data

def deriveIndexFileKey (nk : Bytes) : Bytes := prf P nk (utf8 "y2q/v3/index-file-key")
def deriveUserStoreFileKey (nk : Bytes) : Bytes := prf P nk (utf8 "y2q/v3/user-store-file-key")
def derivePathKey (nk : Bytes) : Bytes := prf P nk (utf8 "y2q/v3/path-key")
def deriveObjectMetadataKey (nk : Bytes) : Bytes := prf P nk (utf8 "y2q/v3/object-metadata-key")
def deriveBucketConfigKey (nk : Bytes) : Bytes := prf P nk (utf8 "y2q/v3/bucket-config-key")
def deriveNodeKeyVerifier (nk : Bytes) : Bytes := prf P nk (utf8 "y2q/v3/node-key-verifier")
def deriveContainerHeaderKey (nk : Bytes) : Bytes := prf P nk (utf8 "y2q/v3/container-header-key")

/-! ## Metadata sealing -/

def VERSION_BYTE : UInt8 := 0x01
def VERSION_BYTE_PADDED : UInt8 := 0x02
abbrev NONCE_LEN : ℕ := 12
abbrev MIN_ENCRYPTED_LEN : ℕ := 1 + NONCE_LEN + 16
abbrev MIN_ENCRYPTED_PADDED_LEN : ℕ := 1 + NONCE_LEN + 4 + 16
abbrev META_PAD_BLOCK : ℕ := 4096
abbrev BUCKET_CONFIG_PAD_BLOCK : ℕ := 65536

/-- `usize::next_multiple_of` -/
def nextMultipleOf (n m : ℕ) : ℕ := if n % m = 0 then n else n + (m - n % m)

def paddedLen (jsonLen padBlock : ℕ) : ℕ :=
  if 1 < padBlock then nextMultipleOf (4 + jsonLen) padBlock else 4 + jsonLen

/-- the plaintext `encrypt_meta` seals -/
def metaPlain (json : Bytes) (padBlock : ℕ) : Bytes :=
  beBytes 4 json.length ++ json ++ List.replicate (paddedLen json.length padBlock - (4 + json.length)) 0

def encryptMeta (omk json : Bytes) (objectId : String) (padBlock : ℕ) (nonce : Nonce) : Except CryptoError Bytes :=
  if 2 ^ 32 ≤ json.length then .error (.envelope "metadata too large to seal")
  else .ok (VERSION_BYTE_PADDED :: (nonce.1 ++ P.aead.encrypt omk nonce.1 (utf8 objectId) (metaPlain json padBlock)))

/-- the version byte of a blob, if `decrypt_meta` knows it and the blob is long enough for it -/
def metaVersion (blob : Bytes) : Except CryptoError UInt8 :=
  match blob.head? with
  | none => .error (.envelope "unrecognized metadata format")
  | some v =>
    if v ≠ VERSION_BYTE ∧ v ≠ VERSION_BYTE_PADDED then .error (.envelope "unrecognized metadata format")
    else if blob.length < (if v = VERSION_BYTE_PADDED then MIN_ENCRYPTED_PADDED_LEN else MIN_ENCRYPTED_LEN) then
      .error (.envelope "metadata blob too short for decryption")
    else .ok v

/-- cut the JSON out of an opened plaintext: all of it in the old format, the length-prefixed part in the padded one -/
def unpadMeta (v : UInt8) (plain : Bytes) : Except CryptoError Bytes :=
  if v = VERSION_BYTE then .ok plain
  else if plain.length < 4 then .error (.envelope "padded metadata too short")
  else if plain.length - 4 < ofBe (slice plain 0 4) then .error (.envelope "metadata length prefix out of range")
  else .ok (slice plain 4 (4 + ofBe (slice plain 0 4)))

def decryptMeta (omk blob : Bytes) (objectId : String) : Except CryptoError Bytes :=
  match metaVersion blob with
  | .error e => .error e
  | .ok v =>
    match P.aead.decrypt omk (slice blob 1 (1 + NONCE_LEN)) (utf8 objectId) (blob.drop (1 + NONCE_LEN)) with
    | none => .error .authFailed
    | some plain => unpadMeta v plain

/-! ## Facts -/

theorem le_nextMultipleOf (n m : ℕ) : n ≤ nextMultipleOf n m := by
  unfold nextMultipleOf; split_ifs <;> omega

theorem le_paddedLen (l padBlock : ℕ) : 4 + l ≤ paddedLen l padBlock := by
  unfold paddedLen
  split_ifs
  · exact le_nextMultipleOf _ _
  · exact le_rfl

theorem length_metaPlain (json : Bytes) (padBlock : ℕ) : (metaPlain json padBlock).length = paddedLen json.length padBlock := by
  have := le_paddedLen json.length padBlock
  simp only [metaPlain, List.length_append, length_beBytes, List.length_replicate]; omega

/-- the length of a sidecar sealed by `encrypt_meta` -/
def sealedLen (jsonLen padBlock : ℕ) : ℕ := 29 + paddedLen jsonLen padBlock

variable {P}

theorem length_encryptMeta {omk json blob : Bytes} {id : String} {pad : ℕ} {nonce : Nonce}
    (h : encryptMeta P omk json id pad nonce = .ok blob) : blob.length = sealedLen json.length pad := by
  unfold encryptMeta at h
  split_ifs at h
  cases h
  simp only [List.length_cons, List.length_append, nonce.2, P.aead_correct.length_encrypt, length_metaPlain, sealedLen]
  omega

theorem encryptMeta_ok {omk json : Bytes} {id : String} {pad : ℕ} (nonce : Nonce) (h : json.length < 2 ^ 32) :
    ∃ blob, encryptMeta P omk json id pad nonce = .ok blob := by
  unfold encryptMeta
  rw [if_neg (by omega)]
  exact ⟨_, rfl⟩

theorem metaVersion_ok {blob : Bytes} {v : UInt8} (h : metaVersion blob = .ok v) : 29 ≤ blob.length := by
  unfold metaVersion at h
  cases hv : blob.head? with
  | none => rw [hv] at h; cases h
  | some w =>
    rw [hv] at h
    simp only at h
    split_ifs at h with h1 h2 h3 h3
    all_goals simp only [MIN_ENCRYPTED_LEN, MIN_ENCRYPTED_PADDED_LEN, NONCE_LEN] at h3; omega

theorem decryptMeta_ok {omk blob json : Bytes} {id : String} (h : decryptMeta P omk blob id = .ok json) :
    ∃ v plain, metaVersion blob = .ok v ∧
      P.aead.decrypt omk (slice blob 1 (1 + NONCE_LEN)) (utf8 id) (blob.drop (1 + NONCE_LEN)) = some plain ∧
      unpadMeta v plain = .ok json := by
  unfold decryptMeta at h
  cases hv : metaVersion blob with
  | error e => rw [hv] at h; cases h
  | ok v =>
    rw [hv] at h
    cases hd : P.aead.decrypt omk (slice blob 1 (1 + NONCE_LEN)) (utf8 id) (blob.drop (1 + NONCE_LEN)) with
    | none => rw [hd] at h; cases h
    | some plain => rw [hd] at h; exact ⟨v, plain, rfl, rfl, h⟩

theorem unpadMeta_metaPlain {json : Bytes} (pad : ℕ) (h : json.length < 2 ^ 32) :
    unpadMeta VERSION_BYTE_PADDED (metaPlain json pad) = .ok json := by
  have hpad := le_paddedLen json.length pad
  have hpre : slice (metaPlain json pad) 0 4 = beBytes 4 json.length := by
    simp only [metaPlain, List.append_assoc]; exact slice_front (by simp)
  have hdecl : ofBe (slice (metaPlain json pad) 0 4) = json.length := by
    rw [hpre, ofBe_beBytes]; exact Nat.mod_eq_of_lt h
  have hjson : slice (metaPlain json pad) 4 (4 + json.length) = json := slice_middle (by simp) rfl
  unfold unpadMeta
  rw [hdecl, hjson, length_metaPlain, if_neg (by decide), if_neg (by omega), if_neg (by omega)]

theorem decryptMeta_encryptMeta {omk json blob : Bytes} {id : String} {pad : ℕ} {nonce : Nonce}
    (h : encryptMeta P omk json id pad nonce = .ok blob) : decryptMeta P omk blob id = .ok json := by
  have hlen := length_encryptMeta h
  have hpad := le_paddedLen json.length pad
  unfold encryptMeta at h
  split_ifs at h with hj
  cases h
  set ct := P.aead.encrypt omk nonce.1 (utf8 id) (metaPlain json pad) with hctdef
  have hnonce : slice (VERSION_BYTE_PADDED :: (nonce.1 ++ ct)) 1 (1 + NONCE_LEN) = nonce.1 := by
    simp [slice, NONCE_LEN, nonce.2]
  have hct : (VERSION_BYTE_PADDED :: (nonce.1 ++ ct)).drop (1 + NONCE_LEN) = ct := by
    rw [show 1 + NONCE_LEN = nonce.1.length + 1 by rw [nonce.2]; rfl, List.drop_succ_cons, List.drop_left]
  have hver : metaVersion (VERSION_BYTE_PADDED :: (nonce.1 ++ ct)) = .ok VERSION_BYTE_PADDED := by
    unfold metaVersion
    rw [hlen, List.head?_cons]
    simp only [if_true, sealedLen, MIN_ENCRYPTED_PADDED_LEN, NONCE_LEN]
    rw [if_neg (by decide), if_neg (by omega)]
  unfold decryptMeta
  rw [hver, hnonce, hct, hctdef, P.aead_correct.decrypt_encrypt]
  exact unpadMeta_metaPlain pad (by omega)

/-- a blob that opens under one key does not open under a separate one -/
theorem decryptMeta_other_key {omk omk' blob json : Bytes} {id id' : String} (hsep : P.aead.KeySeparates omk omk')
    (h : decryptMeta P omk blob id = .ok json) : decryptMeta P omk' blob id' = .error .authFailed := by
  obtain ⟨v, plain, hv, hd, -⟩ := decryptMeta_ok h
  unfold decryptMeta
  rw [hv, hsep _ _ (slice blob 1 (1 + NONCE_LEN)) (utf8 id') _ _ hd]

/-- an opened blob is at least 29 bytes longer than the JSON in it, so the JSON can be sealed again -/
theorem length_decryptMeta {omk blob json : Bytes} {id : String} (h : decryptMeta P omk blob id = .ok json) :
    json.length + 29 ≤ blob.length := by
  obtain ⟨v, plain, hv, hd, hu⟩ := decryptMeta_ok h
  have hl := P.aead_correct.length_decrypt _ _ _ _ _ hd
  have hb := metaVersion_ok hv
  have hj : json.length ≤ plain.length := by
    unfold unpadMeta at hu
    split_ifs at hu
    all_goals cases hu
    · exact le_rfl
    · simp only [slice, List.length_take, List.length_drop]; omega
  simp only [List.length_drop, NONCE_LEN] at hl
  omega

end NodeKeys

end Y2q
