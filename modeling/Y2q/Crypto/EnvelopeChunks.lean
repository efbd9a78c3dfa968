/-
Envelopes of both versions, read chunk by chunk or whole (`crypto/envelope.rs`).

- `parseV3Geometry`, `parseV4Geometry`: what a reader takes from the fixed header before it asks for chunks.
- `decryptV3Chunks`, `decryptV4Chunks`: open a run of whole chunks, given the index of the first. Version 3 binds no position but
  the nonce; version 4 binds whether a chunk is the final one, so the caller says how many chunks the object has.
- `envelopeOf`: the envelope of a plaintext in either version; `envelope_eq` says that the writer's is the one of version 4.
- `openChunks_run`: any run of chunks of an envelope opens to those chunks of the plaintext.
- `decrypt_envelopeOf`, `decrypt_other_key`: the whole envelope, under its own key and under one that opens nothing.
-/
import Mathlib.Tactic
import Y2q.Crypto.EnvelopeIntegrity

namespace Y2q.Envelope

variable (S : Suite)

/-! ## The readers -/

/-- key epoch, chunk size and plaintext length -/
def parseGeometry (ver : ℕ) (truncated : String) (header : Bytes) : Except CryptoError (UInt32 × ℕ × ℕ) :=
  if header.length < ENVELOPE_V3_HEADER_FIXED_LEN then .error (.envelope truncated)
  else if slice header 0 4 ≠ MAGIC_V3 then .error (.envelope "bad magic")
  else if ofBe (slice header 4 6) ≠ ver then .error (.unsupportedVersion (ofBe (slice header 4 6)))
  else if slice header 6 7 ≠ [KEM_ALG_MLKEM768] then .error (.envelope "unknown kem_alg")
  else if slice header 7 8 ≠ [AEAD_ALG_AES256GCM] then .error (.envelope "unknown aead_alg")
  else if ofBe (slice header 32 36) = 0 then .error (.envelope "zero chunk_size")
  else .ok (UInt32.ofNat (ofBe (slice header 8 12)), ofBe (slice header 32 36), ofBe (slice header 24 32))

def parseV3Geometry := parseGeometry FORMAT_VER_V3 "truncated v3 header"
def parseV4Geometry := parseGeometry FORMAT_VER_V4 "truncated v4 header"

/-- the loop over the chunks of a run; `aad` is a chunk's associated data by its index -/
def openChunks (contentKey nonceBase : Bytes) (aad : ℕ → Bytes) (chunkSize : ℕ) (chunksCt : Bytes) (pos chunkIdx : ℕ)
    (plaintext : Bytes) : Except CryptoError Bytes :=
  if _h : pos < chunksCt.length then
    let ctEnd := min (pos + chunkSize + TAG_LEN) chunksCt.length
    if _ht : ctEnd - pos < TAG_LEN then .error (.envelope "truncated chunk ciphertext")
    else
      match S.aead.decrypt contentKey (chunkNonce nonceBase chunkIdx) (aad chunkIdx) (slice chunksCt pos ctEnd) with
      | none => .error .authFailed
      | some m => openChunks contentKey nonceBase aad chunkSize chunksCt ctEnd (chunkIdx + 1) (plaintext ++ m)
  else .ok plaintext
termination_by chunksCt.length - pos
decreasing_by
  have : TAG_LEN = 16 := rfl
  omega

def decryptChunks (truncated : String) (parse : Bytes → Except CryptoError (UInt32 × ℕ × ℕ)) (aad : Bytes → ℕ → Bytes)
    (skBytes preamble chunksCt : Bytes) (firstChunkIdx : ℕ) (bucket key : String) : Except CryptoError Bytes :=
  if preamble.length < PREAMBLE_LEN then .error (.envelope truncated)
  else
    match parse (slice preamble 0 ENVELOPE_V3_HEADER_FIXED_LEN) with
    | .error e => .error e
    | .ok (_, chunkSize, _) =>
      match secretKeyFromBytes S skBytes with
      | .error e => .error e
      | .ok sk =>
        let kemCt := slice preamble ENVELOPE_V3_HEADER_FIXED_LEN PREAMBLE_LEN
        openChunks S (deriveContentKey S (S.decapsulate kemCt sk) kemCt bucket key) (slice preamble 12 24)
          (aad (buildV3Aad (slice preamble 0 ENVELOPE_V3_HEADER_FIXED_LEN))) chunkSize chunksCt 0 firstChunkIdx []

def decryptV3Chunks (skBytes preamble chunksCt : Bytes) (firstChunkIdx : ℕ) (bucket key : String) : Except CryptoError Bytes :=
  decryptChunks S "truncated v3 preamble" parseV3Geometry (fun aad _ => aad) skBytes preamble chunksCt firstChunkIdx bucket key

def decryptV4Chunks (skBytes preamble chunksCt : Bytes) (firstChunkIdx totalChunks : ℕ) (bucket key : String) :
    Except CryptoError Bytes :=
  decryptChunks S "truncated v4 preamble" parseV4Geometry (fun aadBase chunkIdx => buildV4Aad aadBase (chunkIdx + 1 = totalChunks))
    skBytes preamble chunksCt firstChunkIdx bucket key

/-! ## Envelopes of both versions -/

/-- chunk `i` of `n` as the two versions seal it -/
def sealed (ver : ℕ) (key nonceBase aadBase : Bytes) (n i : ℕ) (x : Bytes) : Bytes :=
  S.aead.encrypt key (chunkNonce nonceBase i) (chunkAad ver aadBase (i + 1 = n)) x

def sealedChunks (ver : ℕ) (key nonceBase aadBase : Bytes) (L : List Bytes) : List Bytes :=
  L.mapIdx (sealed S ver key nonceBase aadBase L.length)

/-- the envelope of a (padded) plaintext in either version -/
def envelopeOf (ver : ℕ) (ss kemCt : Bytes) (bucket key : String) (epoch : UInt32) (nb : Bytes) (c : ℕ) (Q : Bytes) : Bytes :=
  header ver epoch nb Q.length c ++ kemCt ++ (sealedChunks S ver (deriveContentKey S ss kemCt bucket key) nb
    (headerFront ver epoch nb ++ beBytes 4 c) (chunks c Q)).flatten

section

variable {S} {ver : ℕ} {key nb aad : Bytes}

variable (S ver key nb aad) in
/-- every chunk of the list opens to what was sealed -/
def OpensChunks (L : List Bytes) : Prop := ∀ i x, L[i]? = some x →
  S.aead.decrypt key (chunkNonce nb i) (chunkAad ver aad (i + 1 = L.length)) (sealed S ver key nb aad L.length i x) = some x

theorem opensChunks_of_opensSealed (h : S.aead.OpensSealed) (L : List Bytes) : OpensChunks S ver key nb aad L := fun _ _ _ => h _ _ _ _

theorem length_sealed (n i : ℕ) (x : Bytes) : (sealed S ver key nb aad n i x).length = x.length + 16 := S.length_seal _ _ _ _

theorem sealFinal_eq (i : ℕ) (L : List Bytes) :
    sealFinal S key nb aad i L = (L.mapIdx fun j x => sealed S FORMAT_VER_V4 key nb aad (i + L.length) (i + j) x).flatten := by
  induction L generalizing i with
  | nil => rfl
  | cons x xs ih =>
    cases xs with
    | nil => simp [sealFinal, sealed, sealChunk, chunkAad, FORMAT_VER_V3, FORMAT_VER_V4]
    | cons y ys =>
      have hfirst : ¬ i + 1 = i + (x :: y :: ys).length := by simp only [List.length_cons]; omega
      have hhead : sealed S FORMAT_VER_V4 key nb aad (i + (x :: y :: ys).length) (i + 0) x = sealChunk S key nb aad i false x := by
        rw [sealed, sealChunk, Nat.add_zero, decide_eq_false hfirst]
        rfl
      have hlen : i + (x :: y :: ys).length = i + 1 + (y :: ys).length := by simp only [List.length_cons]; omega
      rw [sealFinal, ih]
      conv_rhs => rw [List.mapIdx_cons, List.flatten_cons, hhead, hlen]
      congr 3
      funext j z
      rw [Nat.add_assoc i 1 j, Nat.add_comm 1 j]

theorem envelope_eq (ss kemCt : Bytes) (bucket key : String) (epoch : UInt32) (nb : Bytes) (c : ℕ) (Q : Bytes) :
    envelope S ss kemCt bucket key epoch nb c Q = envelopeOf S FORMAT_VER_V4 ss kemCt bucket key epoch nb c Q := by
  rw [envelope, envelopeOf, sealFinal_eq, sealedChunks]
  simp only [Nat.zero_add]

theorem chunked_sealedChunks {c : ℕ} {L : List Bytes} (h : Chunked c L) : Chunked (c + 16) (sealedChunks S ver key nb aad L) :=
  h.mapIdx fun i x => length_sealed L.length i x

end

/-! ## The header of an envelope -/

section

variable {S} {ver c : ℕ} {ss kemCt Q nb : Bytes} {bucket key : String} {epoch : UInt32}

theorem slice_epoch (ver : ℕ) (epoch : UInt32) {nb : Bytes} (len c : ℕ) :
    slice (header ver epoch nb len c) 8 12 = beBytes 4 epoch.toNat := by
  have h : header ver epoch nb len c = (MAGIC_V3 ++ beBytes 2 ver ++ [KEM_ALG_MLKEM768] ++ [AEAD_ALG_AES256GCM]) ++
      beBytes 4 epoch.toNat ++ (nb ++ beBytes 8 len ++ beBytes 4 c) := by
    simp only [header, List.append_assoc]
  rw [h]
  exact slice_middle (by simp [MAGIC_V3]) (by simp)

theorem parseGeometry_header (epoch : UInt32) (t : String) (hver : ver < 2 ^ 16) (hnb : nb.length = 12) {len : ℕ} (hlen : len < 2 ^ 64) (hc : 0 < c)
    (hc' : c < 2 ^ 32) (rest : Bytes) : parseGeometry ver t (header ver epoch nb len c ++ rest) = .ok (epoch, c, len) := by
  have hhead : ∀ {i j : ℕ}, j ≤ 36 → slice (header ver epoch nb len c ++ rest) i j = slice (header ver epoch nb len c) i j :=
    fun hj => slice_left (by rw [length_header _ _ hnb]; exact hj)
  obtain ⟨h1, h2, h3, h4, -, h6, h7⟩ := header_slices ver epoch hnb len c
  have hv : ofBe (beBytes 2 ver) = ver := by rw [ofBe_beBytes]; exact Nat.mod_eq_of_lt hver
  have hcs : ofBe (beBytes 4 c) = c := by rw [ofBe_beBytes]; exact Nat.mod_eq_of_lt hc'
  have hpl : ofBe (beBytes 8 len) = len := by rw [ofBe_beBytes]; exact Nat.mod_eq_of_lt hlen
  have hep : UInt32.ofNat (ofBe (beBytes 4 epoch.toNat)) = epoch := by
    rw [ofBe_beBytes, Nat.mod_eq_of_lt (show epoch.toNat < 256 ^ 4 from UInt32.toNat_lt epoch), UInt32.ofNat_toNat]
  have hlong : ¬ (header ver epoch nb len c ++ rest).length < ENVELOPE_V3_HEADER_FIXED_LEN := by
    rw [List.length_append, length_header _ _ hnb]
    have : ENVELOPE_V3_HEADER_FIXED_LEN = 36 := rfl
    omega
  unfold parseGeometry
  simp only [hhead (show 4 ≤ 36 by omega), hhead (show 6 ≤ 36 by omega), hhead (show 7 ≤ 36 by omega),
    hhead (show 8 ≤ 36 by omega), hhead (show 12 ≤ 36 by omega), hhead (show 32 ≤ 36 by omega), hhead (le_refl 36), h1, h2, h3, h4,
    h6, h7, slice_epoch, hv, hcs, hpl, hep]
  rw [if_neg hlong, if_neg (not_not.2 rfl), if_neg (not_not.2 rfl), if_neg (not_not.2 rfl), if_neg (not_not.2 rfl),
    if_neg (by omega)]

/-- the preamble of an envelope -/
theorem slice_preamble (hnb : nb.length = 12) (hct : kemCt.length = 1088) :
    slice (envelopeOf S ver ss kemCt bucket key epoch nb c Q) 0 PREAMBLE_LEN = header ver epoch nb Q.length c ++ kemCt := by
  rw [envelopeOf]
  exact slice_front (by rw [List.length_append, length_header _ _ hnb, hct])

theorem length_envelopeOf (hc : 0 < c) (hnb : nb.length = 12) (hct : kemCt.length = 1088) :
    (envelopeOf S ver ss kemCt bucket key epoch nb c Q).length = 1124 + Q.length + 16 * (chunks c Q).length := by
  have hbody : ∀ (L : List Bytes) (n i : ℕ) (k : Bytes), (L.mapIdx fun j x => sealed S ver k nb
      (headerFront ver epoch nb ++ beBytes 4 c) n (i + j) x).flatten.length = L.flatten.length + 16 * L.length := by
    intro L n i k
    induction L generalizing i with
    | nil => rfl
    | cons x xs ih =>
      have hrest := ih (i + 1)
      simp only [Nat.add_assoc, Nat.add_comm 1] at hrest
      rw [List.mapIdx_cons, List.flatten_cons, List.length_append, hrest, length_sealed, List.flatten_cons, List.length_append,
        List.length_cons]
      omega
  have h := hbody (chunks c Q) (chunks c Q).length 0 (deriveContentKey S ss kemCt bucket key)
  simp only [Nat.zero_add] at h
  rw [envelopeOf, List.length_append, List.length_append, length_header _ _ hnb, hct, sealedChunks, h, flatten_chunks hc]
  omega

end

/-! ## Opening a run of chunks -/

section

variable {S} {ver c : ℕ} {key nb : Bytes} {aad : ℕ → Bytes}

variable (key nb aad) in
/-- the loop opens what was sealed under its indices, wherever the run starts -/
theorem openChunks_sealed (hc : 0 < c) {L : List Bytes} (hL : Chunked c L) (pre : Bytes) (idx : ℕ) (acc : Bytes)
    (hopens : ∀ j x, L[j]? = some x → S.aead.decrypt key (chunkNonce nb (idx + j)) (aad (idx + j))
      (S.aead.encrypt key (chunkNonce nb (idx + j)) (aad (idx + j)) x) = some x) :
    openChunks S key nb aad c
      (pre ++ (L.mapIdx fun j x => S.aead.encrypt key (chunkNonce nb (idx + j)) (aad (idx + j)) x).flatten) pre.length idx acc =
      .ok (acc ++ L.flatten) := by
  induction L generalizing pre idx acc with
  | nil => rw [openChunks, dif_neg (by simp)]; simp
  | cons x xs ih =>
    set ct := S.aead.encrypt key (chunkNonce nb idx) (aad idx) x with hct
    set rest := (xs.mapIdx fun j y => S.aead.encrypt key (chunkNonce nb (idx + (j + 1))) (aad (idx + (j + 1))) y).flatten with hrest
    have hctl : ct.length = x.length + 16 := S.length_seal _ _ _ _
    have hwhole : (List.mapIdx (fun j y => S.aead.encrypt key (chunkNonce nb (idx + j)) (aad (idx + j)) y) (x :: xs)).flatten =
        ct ++ rest := by
      rw [List.mapIdx_cons, List.flatten_cons]
      rfl
    have hxpos := List.length_pos_of_ne_nil (hL.head_ne_nil hc)
    -- a full chunk unless it is the last one, which takes all that is left
    have hend : min (pre.length + c + TAG_LEN) (pre ++ (ct ++ rest)).length = pre.length + ct.length := by
      have htag : TAG_LEN = 16 := rfl
      cases xs with
      | nil =>
        have hle := hL.2
        have hr : rest = [] := by rw [hrest]; rfl
        rw [hr, List.append_nil, List.length_append]
        omega
      | cons y ys =>
        have hx := hL.1
        rw [List.length_append, List.length_append]
        omega
    have hsl : slice (pre ++ (ct ++ rest)) pre.length (pre.length + ct.length) = ct := by
      rw [← List.append_assoc]
      exact slice_middle rfl rfl
    have hnext : ∀ j, idx + 1 + j = idx + (j + 1) := fun j => by omega
    have htail := ih hL.tail (pre ++ ct) (idx + 1) (acc ++ x) fun j y hy => by
      rw [hnext]
      exact hopens (j + 1) y hy
    simp only [hnext] at htail
    have hfirst : S.aead.decrypt key (chunkNonce nb idx) (aad idx) ct = some x := hopens 0 x rfl
    rw [hwhole, openChunks, dif_pos (by simp only [List.length_append]; omega)]
    simp only [hend]
    rw [dif_neg (by have : TAG_LEN = 16 := rfl; omega), hsl, hfirst]
    simp only
    rw [← hrest, List.append_assoc, List.length_append] at htail
    rw [htail, List.flatten_cons, List.append_assoc]

/-- a window of one chunk at most is opened as one, or is empty -/
theorem openChunks_one {window pt : Bytes} (hwin : window.length ≤ c + TAG_LEN) {idx : ℕ}
    (h : openChunks S key nb aad c window 0 idx [] = .ok pt) :
    window = [] ∧ pt = [] ∨ S.aead.decrypt key (chunkNonce nb idx) (aad idx) window = some pt := by
  rw [openChunks] at h
  by_cases hw : window = []
  · subst hw
    cases h
    exact Or.inl ⟨rfl, rfl⟩
  · have hpos := List.length_pos_of_ne_nil hw
    rw [dif_pos hpos] at h
    simp only [show min (0 + c + TAG_LEN) window.length = window.length by omega] at h
    split_ifs at h with ht
    rw [slice_zero, List.take_length] at h
    cases hd : S.aead.decrypt key (chunkNonce nb idx) (aad idx) window with
    | none => rw [hd] at h; cases h
    | some m =>
      rw [hd] at h
      simp only at h
      rw [openChunks, dif_neg (lt_irrefl _), List.nil_append] at h
      cases h
      exact Or.inr rfl

/-- under a key that opens nothing, no window opens but the empty one -/
theorem openChunks_none (hnone : ∀ n a ct, S.aead.decrypt key n a ct = none) {window pt : Bytes} {idx : ℕ}
    (h : openChunks S key nb aad c window 0 idx [] = .ok pt) : pt = [] := by
  rw [openChunks] at h
  simp only [hnone] at h
  split_ifs at h
  cases h
  rfl

/-- **A run of chunks opens to those chunks of the plaintext**, given the index of the first. -/
theorem openChunks_run {ver : ℕ} {aad Q : Bytes} (hopens : OpensChunks S ver key nb aad (chunks c Q)) (hc : 0 < c) (first n : ℕ) :
    openChunks S key nb (fun j => chunkAad ver aad (j + 1 = (chunks c Q).length)) c
      (((sealedChunks S ver key nb aad (chunks c Q)).drop first).take n).flatten 0 first [] =
      .ok (((chunks c Q).drop first).take n).flatten := by
  -- the sealed chunks of the run are the chunks of the run, sealed under their own indices
  have hrun : ((sealedChunks S ver key nb aad (chunks c Q)).drop first).take n = (((chunks c Q).drop first).take n).mapIdx fun j x =>
      S.aead.encrypt key (chunkNonce nb (first + j)) (chunkAad ver aad (first + j + 1 = (chunks c Q).length)) x := by
    apply List.ext_getElem?
    intro i
    simp only [sealedChunks, List.getElem?_take, List.getElem?_drop, List.getElem?_mapIdx]
    split_ifs
    · rfl
    · rfl
  have hopen := openChunks_sealed key nb (fun j => chunkAad ver aad (j + 1 = (chunks c Q).length)) hc
    (((chunked_chunks hc Q).drop first).take hc n) [] first []
    fun j x hx => by
      rw [List.getElem?_take, List.getElem?_drop] at hx
      split_ifs at hx
      exact hopens (first + j) x hx
  rw [hrun]
  exact hopen

variable {ss kemCt Q nb sk : Bytes} {bucket key bucket' key' : String} {epoch : UInt32} {truncated : String}
  {parse : Bytes → Except CryptoError (UInt32 × ℕ × ℕ)} {aadOf : Bytes → ℕ → Bytes}

/-- what the openers of a run take from the preamble of an envelope -/
theorem decryptChunks_preamble (hver : ver < 2 ^ 16) (hc : 0 < c) (hc' : c < 2 ^ 32) (hnb : nb.length = 12) (hct : kemCt.length = 1088)
    (hQ : Q.length < 2 ^ 64) (hsk : sk.length = 2400) (hval : S.validSk sk = true) {t : String} (hparse : parse = parseGeometry ver t)
    (window : Bytes) (first : ℕ) :
    decryptChunks S truncated parse aadOf sk (slice (envelopeOf S ver ss kemCt bucket key epoch nb c Q) 0 PREAMBLE_LEN) window first
      bucket' key' = openChunks S (deriveContentKey S (S.decapsulate kemCt sk) kemCt bucket' key') nb
        (aadOf (headerFront ver epoch nb ++ beBytes 4 c)) c window 0 first [] := by
  subst hparse
  obtain ⟨-, -, -, -, h5, -, -⟩ := header_slices ver epoch hnb Q.length c
  have hlen := length_header ver epoch hnb Q.length c
  have hhead : slice (header ver epoch nb Q.length c ++ kemCt) 0 ENVELOPE_V3_HEADER_FIXED_LEN = header ver epoch nb Q.length c :=
    slice_front hlen
  have hnonce : slice (header ver epoch nb Q.length c ++ kemCt) 12 24 = nb := by
    rw [slice_left (by rw [hlen]; omega), h5]
  have hkem : slice (header ver epoch nb Q.length c ++ kemCt) ENVELOPE_V3_HEADER_FIXED_LEN PREAMBLE_LEN = kemCt := by
    rw [← List.append_nil (header ver epoch nb Q.length c ++ kemCt)]
    exact slice_middle hlen (by rw [hct])
  have hgeo := parseGeometry_header epoch t hver hnb hQ hc hc' []
  rw [List.append_nil] at hgeo
  have hkey : secretKeyFromBytes S sk = .ok sk := by
    unfold secretKeyFromBytes
    rw [if_neg (not_not.2 hsk), if_pos hval]
  rw [slice_preamble hnb hct, decryptChunks, if_neg (by rw [List.length_append, hlen, hct]; decide), hhead, hgeo]
  simp only [hkey, hkem, hnonce, buildV3Aad_header _ _ hnb]

theorem decryptChunks_none {pre window pt : Bytes} {first : ℕ}
    (hnone : ∀ n a ct, S.aead.decrypt (deriveContentKey S (S.decapsulate (slice pre 36 1124) sk) (slice pre 36 1124) bucket key) n a ct = none)
    (h : decryptChunks S truncated parse aadOf sk pre window first bucket key = .ok pt) : pt = [] := by
  unfold decryptChunks at h
  split_ifs at h
  cases hgeo : parse (slice pre 0 ENVELOPE_V3_HEADER_FIXED_LEN) with
  | error e => rw [hgeo] at h; cases h
  | ok g =>
    rw [hgeo] at h
    unfold secretKeyFromBytes at h
    split_ifs at h
    exact openChunks_none hnone h

/-! ## The whole envelope -/

/-- the chunk loop of the whole-envelope readers opens what was sealed for it -/
theorem chunkLoop_sealed {p : Preamble} {ver n : ℕ} (hc : 0 < p.chunkSize) {L : List Bytes} (hL : Chunked p.chunkSize L) (pre : Bytes)
    (idx : ℕ) (acc : Bytes) (hn : idx + L.length = n)
    (hopens : ∀ j x, L[j]? = some x → S.aead.decrypt p.contentKey (chunkNonce p.nonceBase (idx + j))
      (chunkAad ver p.aadBase (idx + j + 1 = n)) (sealed S ver p.contentKey p.nonceBase p.aadBase n (idx + j) x) = some x) :
    chunkLoop S ver p (pre ++ (L.mapIdx fun j => sealed S ver p.contentKey p.nonceBase p.aadBase n (idx + j)).flatten) pre.length idx acc =
      .ok (acc ++ L.flatten) := by
  induction L generalizing pre idx acc with
  | nil => rw [chunkLoop, dif_neg (by simp)]; simp
  | cons x xs ih =>
    set ct := sealed S ver p.contentKey p.nonceBase p.aadBase n idx x with hct
    set rest := (xs.mapIdx fun j => sealed S ver p.contentKey p.nonceBase p.aadBase n (idx + (j + 1))).flatten with hrest
    have hctl : ct.length = x.length + 16 := length_sealed _ _ _
    have hwhole : (List.mapIdx (fun j => sealed S ver p.contentKey p.nonceBase p.aadBase n (idx + j)) (x :: xs)).flatten = ct ++ rest := by
      rw [List.mapIdx_cons, List.flatten_cons]
      rfl
    have htag : TAG_LEN = 16 := rfl
    have hxpos := List.length_pos_of_ne_nil (hL.head_ne_nil hc)
    -- the loop takes the chunk, and takes it for the last exactly if it is
    have hcut : min (pre.length + p.chunkSize + TAG_LEN) (pre ++ (ct ++ rest)).length = pre.length + ct.length ∧
        (pre.length + ct.length = (pre ++ (ct ++ rest)).length ↔ idx + 1 = n) := by
      cases xs with
      | nil =>
        have hle := hL.2
        have hr : rest = [] := by rw [hrest]; rfl
        rw [List.length_singleton] at hn
        rw [hr, List.append_nil, List.length_append]
        exact ⟨by omega, by omega⟩
      | cons y ys =>
        have hx := hL.1
        have hr : 16 ≤ rest.length := by
          rw [hrest, List.mapIdx_cons, List.flatten_cons, List.length_append, length_sealed]
          omega
        rw [List.length_cons, List.length_cons] at hn
        rw [List.length_append, List.length_append]
        exact ⟨by omega, by omega⟩
    have hsl : slice (pre ++ (ct ++ rest)) pre.length (pre.length + ct.length) = ct := by
      rw [← List.append_assoc]
      exact slice_middle rfl rfl
    have hnext : ∀ j, idx + 1 + j = idx + (j + 1) := fun j => by omega
    have htail := ih hL.tail (pre ++ ct) (idx + 1) (acc ++ x) (by rw [List.length_cons] at hn; omega) fun j y hy => by
      rw [hnext]
      exact hopens (j + 1) y hy
    simp only [hnext] at htail
    have hfirst : S.aead.decrypt p.contentKey (chunkNonce p.nonceBase idx) (chunkAad ver p.aadBase (idx + 1 = n)) ct = some x :=
      hopens 0 x rfl
    rw [hwhole, chunkLoop, dif_pos (by simp only [List.length_append]; omega)]
    simp only [hcut.1]
    rw [dif_neg (by omega), hsl, decide_eq_decide.2 hcut.2, hfirst]
    simp only
    rw [← hrest, List.append_assoc, List.length_append] at htail
    rw [htail, List.flatten_cons, List.append_assoc]

/-- what the readers take from the preamble of an envelope -/
def preambleOf (ver : ℕ) (contentKey : Bytes) (epoch : UInt32) (nb : Bytes) (c len : ℕ) : Preamble :=
  { nonceBase := nb, plaintextLen := len, chunkSize := c, aadBase := headerFront ver epoch nb ++ beBytes 4 c, contentKey := contentKey }

theorem readPreamble_envelopeOf {t : String} (hver : ver < 2 ^ 16) (hc : 0 < c) (hc' : c < 2 ^ 32) (hnb : nb.length = 12)
    (hct : kemCt.length = 1088) (hQ : Q.length < 2 ^ 64) (hsk : sk.length = 2400) (hval : S.validSk sk = true) :
    readPreamble S ver t sk (envelopeOf S ver ss kemCt bucket key epoch nb c Q) bucket' key' =
      .ok (preambleOf ver (deriveContentKey S (S.decapsulate kemCt sk) kemCt bucket' key') epoch nb c Q.length) := by
  obtain ⟨-, h2, h3, h4, h5, h6, h7⟩ := header_slices ver epoch hnb Q.length c
  have hlen := @length_envelopeOf S ver c ss kemCt Q nb bucket key epoch hc hnb hct
  have hhead : ∀ {i j : ℕ}, j ≤ 36 →
      slice (envelopeOf S ver ss kemCt bucket key epoch nb c Q) i j = slice (header ver epoch nb Q.length c) i j := fun hj => by
    rw [envelopeOf, List.append_assoc]
    exact slice_left (by rw [length_header _ _ hnb]; exact hj)
  have hkem : slice (envelopeOf S ver ss kemCt bucket key epoch nb c Q) ENVELOPE_V3_HEADER_FIXED_LEN PREAMBLE_LEN = kemCt :=
    slice_middle (length_header _ _ hnb _ _) (by rw [hct])
  have haad : buildV3Aad (slice (header ver epoch nb Q.length c) 0 36) = headerFront ver epoch nb ++ beBytes 4 c := by
    rw [slice_zero, List.take_of_length_le (length_header _ _ hnb _ _).le, buildV3Aad_header _ _ hnb]
  have hkey : secretKeyFromBytes S sk = .ok sk := by
    unfold secretKeyFromBytes
    rw [if_neg (not_not.2 hsk), if_pos hval]
  have hv : ofBe (beBytes 2 ver) = ver := by rw [ofBe_beBytes]; exact Nat.mod_eq_of_lt hver
  have hcs : ofBe (beBytes 4 c) = c := by rw [ofBe_beBytes]; exact Nat.mod_eq_of_lt hc'
  have hpl : ofBe (beBytes 8 Q.length) = Q.length := by rw [ofBe_beBytes]; exact Nat.mod_eq_of_lt hQ
  unfold readPreamble
  simp only [hhead (show 6 ≤ 36 by omega), hhead (show 7 ≤ 36 by omega), hhead (show 8 ≤ 36 by omega), hhead (show 24 ≤ 36 by omega),
    hhead (show 32 ≤ 36 by omega), hhead (le_refl 36), h2, h3, h4, h5, h6, h7, hv, hcs, hpl, hkem, haad, hkey]
  rw [if_neg (by rw [hlen]; have : PREAMBLE_LEN = 1124 := rfl; omega), if_neg (not_not.2 rfl), if_neg (not_not.2 rfl),
    if_neg (not_not.2 rfl), if_neg (by omega)]
  rfl

/-- **Both versions give back the plaintext**, trimmed to the size asked for. -/
theorem decrypt_envelopeOf (hver : ver = FORMAT_VER_V3 ∨ ver = FORMAT_VER_V4) (hc : 0 < c) (hc' : c < 2 ^ 32) (hnb : nb.length = 12)
    (hct : kemCt.length = 1088) (hQ : Q.length < 2 ^ 64) (hsk : sk.length = 2400) (hval : S.validSk sk = true)
    (hopens : OpensChunks S ver (deriveContentKey S (S.decapsulate kemCt sk) kemCt bucket key) nb (headerFront ver epoch nb ++ beBytes 4 c)
      (chunks c Q)) {n : ℕ} (hn : n ≤ Q.length) :
    decrypt S sk (envelopeOf S ver (S.decapsulate kemCt sk) kemCt bucket key epoch nb c Q) bucket key n = .ok (Q.take n) := by
  have hlt : ver < 2 ^ 16 := by
    rcases hver with h | h
    · rw [h]; decide
    · rw [h]; decide
  have hP : PREAMBLE_LEN = 1124 := rfl
  have hlen := @length_envelopeOf S ver c (S.decapsulate kemCt sk) kemCt Q nb bucket key epoch hc hnb hct
  have hread := fun t : String => @readPreamble_envelopeOf S ver c (S.decapsulate kemCt sk) kemCt Q nb sk bucket key bucket key epoch t hlt hc hc' hnb hct
    hQ hsk hval
  have hpre : (header ver epoch nb Q.length c ++ kemCt).length = PREAMBLE_LEN := by rw [List.length_append, length_header _ _ hnb, hct]
  have hloop : chunkLoop S ver (preambleOf ver (deriveContentKey S (S.decapsulate kemCt sk) kemCt bucket key) epoch nb c Q.length)
      (envelopeOf S ver (S.decapsulate kemCt sk) kemCt bucket key epoch nb c Q) PREAMBLE_LEN 0 [] = .ok Q := by
    have h := @chunkLoop_sealed S (preambleOf ver (deriveContentKey S (S.decapsulate kemCt sk) kemCt bucket key) epoch nb c Q.length) ver
      (chunks c Q).length hc _ (chunked_chunks hc Q)
      (header ver epoch nb Q.length c ++ kemCt) 0 [] (Nat.zero_add _) fun j x hx => by
        rw [Nat.zero_add]
        exact hopens j x hx
    simp only [Nat.zero_add] at h
    rw [hpre, flatten_chunks hc, List.nil_append] at h
    exact h
  have hversion : ∀ t, decryptVersion S ver t sk (envelopeOf S ver (S.decapsulate kemCt sk) kemCt bucket key epoch nb c Q) bucket key n =
      .ok (Q.take n) := by
    intro t
    rw [decryptVersion, hread t]
    change (chunkLoop S ver _ _ PREAMBLE_LEN 0 [] >>= _) = _
    rw [hloop]
    change finishPlaintext _ n Q = _
    unfold finishPlaintext
    simp only [preambleOf, ne_eq, not_true_eq_false, if_false]
    rw [if_neg (by omega)]
  obtain ⟨h1, h2, -⟩ := header_slices ver epoch hnb Q.length c
  have hhead : ∀ {i j : ℕ}, j ≤ 36 → slice (envelopeOf S ver (S.decapsulate kemCt sk) kemCt bucket key epoch nb c Q) i j =
      slice (header ver epoch nb Q.length c) i j := fun hj => by
    rw [envelopeOf, List.append_assoc]
    exact slice_left (by rw [length_header _ _ hnb]; exact hj)
  have hv : ofBe (beBytes 2 ver) = ver := by rw [ofBe_beBytes]; exact Nat.mod_eq_of_lt hlt
  unfold decrypt dispatch
  rw [if_neg (by omega), hhead (by omega), h1, if_neg (not_not.2 rfl), if_neg (by omega), hhead (by omega), h2, hv]
  rcases hver with h | h
  · rw [if_pos h]
    rw [h] at hversion ⊢
    exact hversion _
  · rw [if_neg (by rw [h]; decide), if_pos h]
    rw [h] at hversion ⊢
    exact hversion _

/-- under a key that opens nothing, only the empty plaintext is read, and only where it was asked for -/
theorem decrypt_other_key {env r : Bytes} {n : ℕ}
    (hnone : ∀ nonce aad ct, S.aead.decrypt (deriveContentKey S (S.decapsulate (slice env 36 1124) sk) (slice env 36 1124) bucket key)
      nonce aad ct = none) (h : decrypt S sk env bucket key n = .ok r) : n = 0 ∧ r = [] := by
  obtain ⟨ver, p, pt, -, -, -, -, -, hkey, hloop, hn, rfl⟩ := decrypt_ok h
  rw [chunkLoopOwned] at hloop
  by_cases hbody : env.drop PREAMBLE_LEN = []
  · rw [dif_pos hbody] at hloop
    cases hloop
    rw [List.length_nil] at hn
    exact ⟨by omega, List.take_nil⟩
  · rw [dif_neg hbody, hkey] at hloop
    simp only [hnone] at hloop
    split_ifs at hloop

end

end Y2q.Envelope
