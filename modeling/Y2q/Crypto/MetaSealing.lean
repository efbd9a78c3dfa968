/-
What a metadata blob that opens says of its sealing (`crypto/node_keys.rs`).

The nonce, the object id and the ciphertext of a blob are bound together by the cipher. The first byte, which says whether the plaintext is
length-prefixed and padded, is not: a sealed blob with the other version byte opens too, and is read in the other format.

- `MetaSealing`: one sealing, by `encrypt_meta` or by the older sealer without padding. `Unforged`: the cipher opens the blob only if it was
  sealed.
- `decryptMeta_blob`: what a ciphertext under a version byte is read as.
- `authentic_iff`: a blob opens only to what was sealed for its id exactly when it is no sealed blob with the other version byte, or when
  what the other format reads is no forgery.
-/
import Mathlib.Tactic
import Mathlib.Algebra.Order.Floor.Div
import Y2q.Crypto.NodeKeys

namespace Y2q

namespace NodeKeys

/-! ## Lengths -/

theorem nextMultipleOf_eq (n : ℕ) {m : ℕ} (h : 0 < m) : nextMultipleOf n m = m * (n ⌈/⌉ m) := by
  rw [Nat.ceilDiv_eq_add_pred_div, nextMultipleOf]
  have hdiv := Nat.div_add_mod n m
  have hmod := Nat.mod_lt n h
  split_ifs with hzero
  · have hq : (n + m - 1) / m = n / m := by
      rw [Nat.div_eq_iff h]
      rw [Nat.mul_comm] at hdiv
      omega
    rw [hq]
    omega
  · have hq : (n + m - 1) / m = n / m + 1 := by
      rw [Nat.div_eq_iff h]
      rw [Nat.mul_comm] at hdiv
      rw [Nat.add_mul]
      omega
    rw [hq, Nat.mul_add]
    omega

theorem sealedLen_eq (jsonLen : ℕ) {padBlock : ℕ} (h : 1 < padBlock) :
    sealedLen jsonLen padBlock = 29 + padBlock * ((4 + jsonLen) ⌈/⌉ padBlock) := by
  rw [sealedLen, paddedLen, if_pos h, nextMultipleOf_eq _ (Nat.lt_of_succ_lt h)]

/-! ## Sealings -/

/-- the older sealer did not pad -/
structure MetaSealing where
  json : Bytes
  id : String
  nonce : Nonce
  padBlock : Option ℕ
  short : padBlock.isSome → json.length < 2 ^ 32

namespace MetaSealing

variable (P : Primitives) (omk : Bytes) (s : MetaSealing)

def version : UInt8 := if s.padBlock.isSome then VERSION_BYTE_PADDED else VERSION_BYTE

def otherVersion : UInt8 := if s.padBlock.isSome then VERSION_BYTE else VERSION_BYTE_PADDED

def plain : Bytes :=
  match s.padBlock with
  | some pad => metaPlain s.json pad
  | none => s.json

def box : Aead.Box Bytes := ⟨omk, s.nonce.1, utf8 s.id, P.aead.encrypt omk s.nonce.1 (utf8 s.id) s.plain, s.plain⟩

def blob : Bytes := s.version :: (s.nonce.1 ++ (s.box P omk).ct)

/-- the same blob, said to be of the other format -/
def flipped : Bytes := s.otherVersion :: (s.nonce.1 ++ (s.box P omk).ct)

end MetaSealing

/-- in the log, for `id` -/
def SealedFor (log : Set MetaSealing) (id : String) (m : Bytes) : Prop := ∃ s ∈ log, s.id = id ∧ s.json = m

/-- the ideal cipher: what it opens for `id` in the blob was sealed -/
def Unforged (P : Primitives) (omk : Bytes) (log : Set MetaSealing) (blob : Bytes) (id : String) : Prop :=
  ∀ plain, P.aead.decrypt omk (slice blob 1 (1 + NONCE_LEN)) (utf8 id) (blob.drop (1 + NONCE_LEN)) = some plain →
    ∃ s ∈ log, s.box P omk = ⟨omk, slice blob 1 (1 + NONCE_LEN), utf8 id, blob.drop (1 + NONCE_LEN), plain⟩

variable {P : Primitives} {omk json blob m : Bytes} {id : String} {pad : ℕ} {nonce : Nonce} {v : UInt8} {s : MetaSealing}
  {log : Set MetaSealing}

/-- `encrypt_meta` makes the blob of a sealing -/
theorem exists_sealing (h : encryptMeta P omk json id pad nonce = .ok blob) :
    ∃ s : MetaSealing, s.json = json ∧ s.id = id ∧ s.padBlock = some pad ∧ s.blob P omk = blob := by
  unfold encryptMeta at h
  split_ifs at h with hlong
  cases h
  exact ⟨⟨json, id, nonce, some pad, fun _ => Nat.lt_of_not_le hlong⟩, rfl, rfl, rfl, rfl⟩

theorem metaVersion_cons {rest : Bytes} (hv : v = VERSION_BYTE ∨ v = VERSION_BYTE_PADDED)
    (hlen : (if v = VERSION_BYTE_PADDED then MIN_ENCRYPTED_PADDED_LEN else MIN_ENCRYPTED_LEN) ≤ (v :: rest).length) :
    metaVersion (v :: rest) = .ok v := by
  rw [metaVersion, List.head?_cons]
  simp only
  rw [if_neg, if_neg (Nat.not_lt.2 hlen)]
  rintro ⟨h1, h2⟩
  exact hv.elim h1 h2

theorem metaVersion_eq_ok (h : metaVersion blob = .ok v) : (v = VERSION_BYTE ∨ v = VERSION_BYTE_PADDED) ∧ ∃ rest, blob = v :: rest := by
  unfold metaVersion at h
  cases blob with
  | nil => cases h
  | cons w rest =>
    simp only [List.head?_cons] at h
    split_ifs at h with hunknown
    all_goals
      cases h
      exact ⟨or_iff_not_and_not.2 hunknown, rest, rfl⟩

theorem unpadMeta_padded_ok {plain : Bytes} (h : unpadMeta VERSION_BYTE_PADDED plain = .ok m) : 4 ≤ plain.length := by
  rw [unpadMeta, if_neg (by decide)] at h
  split_ifs at h with hshort
  all_goals exact Nat.le_of_not_lt hshort

theorem slice_nonce (v : UInt8) (nonce : Nonce) (ct : Bytes) : slice (v :: (nonce.1 ++ ct)) 1 (1 + NONCE_LEN) = nonce.1 := by
  simp [slice, NONCE_LEN, nonce.2]

theorem drop_nonce (v : UInt8) (nonce : Nonce) (ct : Bytes) : (v :: (nonce.1 ++ ct)).drop (1 + NONCE_LEN) = ct := by
  rw [show 1 + NONCE_LEN = nonce.1.length + 1 by rw [nonce.2]; rfl, List.drop_succ_cons, List.drop_left]

/-- a ciphertext under a version byte -/
theorem decryptMeta_blob {plain : Bytes} (hv : v = VERSION_BYTE ∨ v = VERSION_BYTE_PADDED)
    (hlen : v = VERSION_BYTE_PADDED → 4 ≤ plain.length) :
    decryptMeta P omk (v :: (nonce.1 ++ P.aead.encrypt omk nonce.1 (utf8 id) plain)) id = unpadMeta v plain := by
  set ct := P.aead.encrypt omk nonce.1 (utf8 id) plain with hct
  have hlength : (v :: (nonce.1 ++ ct)).length = 29 + plain.length := by
    rw [List.length_cons, List.length_append, nonce.2, hct, P.aead_correct.length_encrypt]
    omega
  have hver : metaVersion (v :: (nonce.1 ++ ct)) = .ok v := by
    refine metaVersion_cons hv ?_
    rw [hlength]
    simp only [MIN_ENCRYPTED_PADDED_LEN, MIN_ENCRYPTED_LEN, NONCE_LEN]
    split_ifs with hpadded
    · have := hlen hpadded
      omega
    · omega
  rw [decryptMeta, hver, slice_nonce, drop_nonce, hct, P.aead_correct.decrypt_encrypt]

theorem MetaSealing.version_ne_other (s : MetaSealing) : s.version ≠ s.otherVersion := by
  rw [version, otherVersion]
  split_ifs <;> decide

theorem MetaSealing.otherVersion_of_ne (hv : v = VERSION_BYTE ∨ v = VERSION_BYTE_PADDED) (hne : v ≠ s.version) : v = s.otherVersion := by
  rw [version] at hne
  rw [otherVersion]
  split_ifs at hne ⊢
  · exact hv.resolve_right hne
  · exact hv.resolve_left hne

/-- read in its own format, a sealing is what was sealed -/
theorem MetaSealing.unpadMeta_plain (s : MetaSealing) : unpadMeta s.version s.plain = .ok s.json := by
  obtain ⟨json, id, nonce, padBlock, short⟩ := s
  cases padBlock with
  | none => exact if_pos rfl
  | some pad => exact unpadMeta_metaPlain pad (short rfl)

/-! ## Authenticity -/

/-- the forgeries are sealed blobs with the other version byte, where the other format reads something that was never sealed -/
theorem authentic_iff (h : Unforged P omk log blob id) :
    (∀ m, decryptMeta P omk blob id = .ok m → SealedFor log id m) ↔
      ∀ s ∈ log, s.id = id → blob = s.flipped P omk → ∀ m, unpadMeta s.otherVersion s.plain = .ok m → SealedFor log id m := by
  constructor
  · rintro hauth s - rfl rfl m hm
    refine hauth m ((decryptMeta_blob ?_ fun hpadded => ?_).trans hm)
    · rw [MetaSealing.otherVersion]
      split_ifs
      · exact Or.inl rfl
      · exact Or.inr rfl
    · rw [hpadded] at hm
      exact unpadMeta_padded_ok hm
  · intro hflipped m hm
    obtain ⟨v, plain, hv, hopen, hread⟩ := decryptMeta_ok hm
    obtain ⟨hknown, rest, rfl⟩ := metaVersion_eq_ok hv
    obtain ⟨s, hs, hbox⟩ := h plain hopen
    obtain ⟨-, hnonce, haad, hct, hplain⟩ := Aead.Box.mk.inj hbox
    have hid : s.id = id := utf8_inj haad
    have hrest : rest = s.nonce.1 ++ (s.box P omk).ct := by
      have hlength : 12 ≤ rest.length := by
        have := metaVersion_ok hv
        rw [List.length_cons] at this
        omega
      rw [hnonce, show (s.box P omk).ct = _ from hct]
      simp only [slice, NONCE_LEN, Nat.reduceAdd, List.drop_succ_cons, List.drop_zero, Nat.reduceSub, List.take_append_drop]
    by_cases hown : v = s.version
    · rw [hown, ← hplain, s.unpadMeta_plain] at hread
      exact ⟨s, hs, hid, Except.ok.inj hread⟩
    · have hother := MetaSealing.otherVersion_of_ne hknown hown
      refine hflipped s hs hid ?_ m ?_
      · rw [hother, hrest]
        rfl
      · rw [← hother, hplain]
        exact hread

/-- What is sealed opens to itself, in a blob whose length says only how many blocks it fills. Of all blobs, those that open to something
that was not sealed for their id are sealed blobs with the other version byte. -/
theorem meta_sealing (P : Primitives) (omk : Bytes) :
    (∀ json id pad nonce, json.length < 2 ^ 32 → ∃ blob, encryptMeta P omk json id pad nonce = .ok blob ∧
      decryptMeta P omk blob id = .ok json ∧ (1 < pad → blob.length = 29 + pad * ((4 + json.length) ⌈/⌉ pad))) ∧
    ∀ log blob id, Unforged P omk log blob id →
      ((∀ m, decryptMeta P omk blob id = .ok m → SealedFor log id m) ↔
        ∀ s ∈ log, s.id = id → blob = s.flipped P omk → ∀ m, unpadMeta s.otherVersion s.plain = .ok m → SealedFor log id m) := by
  refine ⟨fun json id pad nonce hshort => ?_, fun log blob id => authentic_iff⟩
  obtain ⟨blob, hblob⟩ := encryptMeta_ok nonce hshort
  exact ⟨blob, hblob, decryptMeta_encryptMeta hblob, fun hpad => (length_encryptMeta hblob).trans (sealedLen_eq _ hpad)⟩

/-- nothing else was sealed, and the ciphertext is its own -/
theorem unforged_of_sealing (P : Primitives) (omk : Bytes) (s : MetaSealing) (v : UInt8) :
    Unforged P omk {s} (v :: (s.nonce.1 ++ (s.box P omk).ct)) s.id := by
  intro plain hopen
  rw [slice_nonce, drop_nonce] at hopen ⊢
  rw [MetaSealing.box, P.aead_correct.decrypt_encrypt, Option.some.injEq] at hopen
  exact ⟨s, rfl, by rw [← hopen]; rfl⟩

/-! ## One sealing -/

namespace Flipped

def primitives : Primitives where
  aead := Aead.tagged
  hmacSha256 _ _ := List.replicate 32 0
  crc32 _ := 0
  aead_correct := Aead.tagged_correct
  length_hmac _ _ := List.length_replicate

/-- two bytes, in a block of eight -/
def sealing : MetaSealing := ⟨[5, 7], "o", ⟨List.replicate 12 0, List.length_replicate⟩, some 8, fun _ => by decide⟩

/-- the blob itself is no forgery -/
theorem meta_sealing_blob : SealedFor {sealing} "o" [5, 7] := by
  refine ((meta_sealing primitives [1]).2 {sealing} (sealing.blob primitives [1]) "o" (unforged_of_sealing _ _ sealing _)).2 ?_ [5, 7] ?_
  · intro s hs _ hflipped
    cases hs
    exact absurd (List.cons.inj hflipped).1 sealing.version_ne_other
  · exact (decryptMeta_blob (Or.inr rfl) fun _ => by decide).trans sealing.unpadMeta_plain

/-- With the version byte of the older format the blob opens to the length, the two bytes and the padding. -/
theorem flipped_opens :
    Unforged primitives [1] {sealing} (sealing.flipped primitives [1]) "o" ∧
    decryptMeta primitives [1] (sealing.flipped primitives [1]) "o" = .ok [0, 0, 0, 2, 5, 7, 0, 0] ∧
    ¬SealedFor {sealing} "o" [0, 0, 0, 2, 5, 7, 0, 0] := by
  refine ⟨unforged_of_sealing _ _ sealing _, (decryptMeta_blob (Or.inl rfl) nofun).trans rfl, ?_⟩
  rintro ⟨s, hs, -, hm⟩
  cases hs
  exact absurd hm (by decide)

end Flipped

end NodeKeys

end Y2q
