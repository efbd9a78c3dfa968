/-
The envelope round trip: what an encrypt session writes, in closed form, and that the readers give the plaintext back.

- `Absorbed`: the invariant of a session. The bytes fed so far are the flushed chunks, the chunk held back and the tail in
  `staging`, in this order; the sink holds the seals of the flushed ones, none of them marked final.
- `feed_absorbed`, `pad_absorbed`: kept by feeding any slice and by the padding loop.
- `encrypt_eq`: the session writes `envelope`, a function of the padded plaintext alone, whatever the slices were.
- `readers_agree`: the two kinds of readers agree on every input; `decrypt_envelope`: both open what was written.
-/
import Mathlib.Tactic
import Y2q.Crypto.Padme

namespace Y2q.Envelope

open Y2q

/-! ## Sealed chunks -/

variable (S : Suite)

/-- chunk `i` as version 4 seals it -/
def sealChunk (key nonceBase aadBase : Bytes) (i : ℕ) (isFinal : Bool) (x : Bytes) : Bytes :=
  S.aead.encrypt key (chunkNonce nonceBase i) (buildV4Aad aadBase isFinal) x

/-- chunks from index `i` on, none of them final -/
def sealOpen (key nonceBase aadBase : Bytes) : ℕ → List Bytes → Bytes
  | _, [] => []
  | i, x :: xs => sealChunk S key nonceBase aadBase i false x ++ sealOpen key nonceBase aadBase (i + 1) xs

/-- chunks from index `i` on, the last of them final -/
def sealFinal (key nonceBase aadBase : Bytes) : ℕ → List Bytes → Bytes
  | _, [] => []
  | i, [x] => sealChunk S key nonceBase aadBase i true x
  | i, x :: y :: ys => sealChunk S key nonceBase aadBase i false x ++ sealFinal key nonceBase aadBase (i + 1) (y :: ys)

/-- the same sealings one by one, as the cipher saw them -/
def boxes (key nb aad : Bytes) : ℕ → List Bytes → List (Aead.Box Bytes)
  | _, [] => []
  | i, x :: xs => ⟨key, chunkNonce nb i, buildV4Aad aad xs.isEmpty, sealChunk S key nb aad i xs.isEmpty x, x⟩ ::
      boxes key nb aad (i + 1) xs

/-- every sealing of the list opens to what was sealed -/
def OpensBoxes (L : List (Aead.Box Bytes)) : Prop := ∀ b ∈ L, S.aead.decrypt b.key b.nonce b.aad b.ct = some b.msg

section Seal

variable {S} {key nb aad : Bytes}

theorem opensBoxes_of_opensSealed (h : S.aead.OpensSealed) (i : ℕ) (L : List Bytes) :
    OpensBoxes S (boxes S key nb aad i L) := by
  induction L generalizing i with
  | nil => intro b hb; cases hb
  | cons x xs ih =>
    intro b hb
    rcases List.mem_cons.1 hb with rfl | hb
    · exact h _ _ _ _
    · exact ih _ b hb

theorem length_sealChunk (i : ℕ) (f : Bool) (x : Bytes) : (sealChunk S key nb aad i f x).length = x.length + 16 :=
  S.length_seal _ _ _ _

theorem sealOpen_append (i : ℕ) (L : List Bytes) (x : Bytes) :
    sealOpen S key nb aad i (L ++ [x]) = sealOpen S key nb aad i L ++ sealChunk S key nb aad (i + L.length) false x := by
  induction L generalizing i with
  | nil => simp [sealOpen]
  | cons y ys ih => simp only [List.cons_append, sealOpen, ih, List.append_assoc, List.length_cons, Nat.add_right_comm,
      Nat.add_assoc]

theorem sealFinal_append (i : ℕ) (L : List Bytes) (x : Bytes) :
    sealFinal S key nb aad i (L ++ [x]) = sealOpen S key nb aad i L ++ sealChunk S key nb aad (i + L.length) true x := by
  induction L generalizing i with
  | nil => simp [sealFinal, sealOpen]
  | cons y ys ih =>
    have hcons : sealFinal S key nb aad i (y :: (ys ++ [x])) =
        sealChunk S key nb aad i false y ++ sealFinal S key nb aad (i + 1) (ys ++ [x]) := by
      cases ys <;> rfl
    rw [List.cons_append, hcons, ih, sealOpen, List.append_assoc, List.length_cons, Nat.add_assoc, Nat.add_comm 1]

theorem length_sealFinal (i : ℕ) (L : List Bytes) :
    (sealFinal S key nb aad i L).length = L.flatten.length + 16 * L.length := by
  induction L generalizing i with
  | nil => simp [sealFinal]
  | cons x xs ih =>
    cases xs with
    | nil => simp [sealFinal, length_sealChunk]
    | cons y ys =>
      rw [sealFinal, List.length_append, length_sealChunk, ih]
      simp only [List.flatten_cons, List.length_append, List.length_cons]
      omega

end Seal

/-! ## The session -/

namespace EncryptSession

/-- what a session has written since `s₀`: `n` chunks, their seals `body` and their total length -/
structure Wrote (s₀ s : EncryptSession) (n : ℕ) (body : Bytes) (total : ℕ) : Prop where
  file : s.sink.file = s₀.sink.file ++ body
  cursor : s.sink.cursor = s.sink.file.length
  idx : s.chunkIdx = UInt64.ofNat n
  plaintextTotal : s.plaintextTotal = UInt64.ofNat total
  bytesWritten : s.bytesWritten = s₀.bytesWritten + UInt64.ofNat body.length
  hasher : s.cipherHasher = s₀.cipherHasher ++ body
  cipher : s.cipher = s₀.cipher
  nonceBase : s.nonceBase = s₀.nonceBase
  aadBase : s.aadBase = s₀.aadBase
  writeOffset : s.writeOffset = s₀.writeOffset
  chunkSize : s.chunkSize = s₀.chunkSize
  keyEpoch : s.keyEpoch = s₀.keyEpoch

variable {S} {s₀ s : EncryptSession} {n total : ℕ} {body : Bytes}

/-- the buffers are not part of it -/
theorem Wrote.buffers (h : Wrote s₀ s n body total) (staging : Bytes) (pending : Option Bytes) :
    Wrote s₀ { s with staging := staging, pending := pending } n body total :=
  ⟨h.file, h.cursor, h.idx, h.plaintextTotal, h.bytesWritten, h.hasher, h.cipher, h.nonceBase, h.aadBase, h.writeOffset,
    h.chunkSize, h.keyEpoch⟩

theorem chunkNonce_ofNat (base : Bytes) (n : ℕ) : chunkNonce base (UInt64.ofNat n).toNat = chunkNonce base n := by
  unfold chunkNonce
  rw [UInt64.toNat_ofNat', show 2 ^ 64 = 256 ^ 8 by norm_num, beBytes_mod]

theorem Wrote.flushRaw (h : Wrote s₀ s n body total) (x : Bytes) (f : Bool) :
    Wrote s₀ (flushRaw S s x f) (n + 1) (body ++ sealChunk S s₀.cipher s₀.nonceBase s₀.aadBase n f x) (total + x.length) := by
  have hct : S.aead.encrypt s.cipher (chunkNonce s.nonceBase s.chunkIdx.toNat) (buildV4Aad s.aadBase f) x =
      sealChunk S s₀.cipher s₀.nonceBase s₀.aadBase n f x := by
    rw [h.cipher, h.nonceBase, h.aadBase, h.idx, chunkNonce_ofNat]; rfl
  unfold EncryptSession.flushRaw
  simp only [hct]
  refine ⟨?_, ?_, ?_, ?_, ?_, ?_, h.cipher, h.nonceBase, h.aadBase, h.writeOffset, h.chunkSize, h.keyEpoch⟩
  · simp only [Sink.writeAll]
    rw [pwrite_end h.cursor.ge, h.cursor, setLen_self, h.file, List.append_assoc]
  · simp only [Sink.writeAll]
    rw [length_pwrite, h.cursor]; omega
  · simp only [h.idx]; rw [UInt64.ofNat_add]; rfl
  · simp only [h.plaintextTotal]; rw [UInt64.ofNat_add]
  · simp only [h.bytesWritten]; rw [List.length_append, UInt64.ofNat_add, UInt64.add_assoc]
  · simp only [h.hasher, List.append_assoc]

variable (S) in
/-- the bytes `Q` absorbed so far: `flushed` chunks in the sink, then the chunk held back, then the tail -/
structure Holds (s₀ s : EncryptSession) (flushed : List Bytes) (Q : Bytes) : Prop where
  wrote : Wrote s₀ s flushed.length (sealOpen S s₀.cipher s₀.nonceBase s₀.aadBase 0 flushed) flushed.flatten.length
  full : ∀ x ∈ flushed, x.length = s₀.chunkSize
  held : ∀ p ∈ s.pending, p.length = s₀.chunkSize
  first : s.pending = none → flushed = []
  tail : s.staging.length < s₀.chunkSize
  absorbed : flushed.flatten ++ s.pending.getD [] ++ s.staging = Q

variable (S) in
def Absorbed (s₀ s : EncryptSession) (Q : Bytes) : Prop := ∃ flushed, Holds S s₀ s flushed Q

/-- flushing the chunk held back, whatever `staging` holds by then -/
theorem Wrote.flushPending {flushed : List Bytes}
    (h : Wrote s₀ s flushed.length (sealOpen S s₀.cipher s₀.nonceBase s₀.aadBase 0 flushed) flushed.flatten.length)
    (hp : s.pending = none → flushed = []) :
    Wrote s₀ (flushPending S s) (flushed ++ s.pending.toList).length
      (sealOpen S s₀.cipher s₀.nonceBase s₀.aadBase 0 (flushed ++ s.pending.toList))
      (flushed ++ s.pending.toList).flatten.length := by
  unfold EncryptSession.flushPending
  cases hpend : s.pending with
  | none =>
    rw [hp hpend] at h ⊢
    simpa using h
  | some prev =>
    have := (h.buffers s.staging none).flushRaw (S := S) prev false
    simp only [Option.toList_some, sealOpen_append, List.length_append, List.length_singleton, List.flatten_append,
      List.flatten_cons, List.flatten_nil, List.append_nil, Nat.zero_add]
    exact this

/-- **One round of the feed and padding loops.** -/
theorem Holds.stage {flushed : List Bytes} {Q part : Bytes} (h : Holds S s₀ s flushed Q)
    (hfit : s.staging.length + part.length ≤ s₀.chunkSize) : Absorbed S s₀ (stage S s part) (Q ++ part) := by
  have hc : s.chunkSize = s₀.chunkSize := h.wrote.chunkSize
  have hQ : flushed.flatten ++ s.pending.getD [] ++ (s.staging ++ part) = Q ++ part := by
    rw [← h.absorbed, List.append_assoc _ s.staging]
  unfold EncryptSession.stage
  by_cases hfull : s.staging.length + part.length = s.chunkSize
  · -- `staging` is complete: what was held back is flushed, and `staging` held back in its place
    rw [if_pos hfull]
    have hw := (h.wrote.buffers (s.staging ++ part) s.pending).flushPending h.first
    refine ⟨flushed ++ s.pending.toList, hw.buffers [] (some (s.staging ++ part)), ?_, ?_, ?_, ?_, ?_⟩
    · intro x hx
      rcases List.mem_append.1 hx with hx | hx
      · exact h.full x hx
      · exact h.held x (Option.mem_toList.1 hx)
    · rintro p hp
      cases hp
      rw [List.length_append, hfull, hc]
    · intro hc; cases hc
    · have := h.tail
      simp only [promoteStaging, List.length_nil]; omega
    · simp only [promoteStaging, Option.getD_some, List.append_nil]
      rw [← hQ, List.flatten_append]
      cases s.pending <;> simp
  · rw [if_neg hfull]
    refine ⟨flushed, h.wrote.buffers _ _, h.full, h.held, h.first, ?_, hQ⟩
    simp only [List.length_append]; omega

/-- feeding a slice absorbs it -/
theorem feed_absorbed {Q data : Bytes} (h : Absorbed S s₀ s Q) : Absorbed S s₀ (feed S s data) (Q ++ data) := by
  induction s, data using feed.induct S generalizing Q with
  | case1 s => rw [feed, dif_pos rfl, List.append_nil]; exact h
  | case2 s data hne ht =>
    obtain ⟨flushed, h⟩ := h
    have := h.tail
    have hc := h.wrote.chunkSize
    have := List.length_pos_of_ne_nil hne
    unfold EncryptSession.take at ht
    omega
  | case3 s data hne ht ih =>
    obtain ⟨flushed, h⟩ := h
    have hfit : s.staging.length + (data.take (s.take data.length)).length ≤ s₀.chunkSize := by
      have := h.tail
      have := h.wrote.chunkSize
      rw [List.length_take]; unfold EncryptSession.take; omega
    have hcut : Q ++ data = Q ++ data.take (s.take data.length) ++ data.drop (s.take data.length) := by
      rw [List.append_assoc, List.take_append_drop]
    rw [feed, dif_neg hne, dif_neg ht, hcut]
    exact ih (h.stage hfit)

theorem pad_absorbed {Q : Bytes} {k : ℕ} (h : Absorbed S s₀ s Q) :
    Absorbed S s₀ (pad S s k) (Q ++ List.replicate k 0) := by
  induction s, k using pad.induct S generalizing Q with
  | case1 s => rw [pad, dif_pos rfl, List.replicate_zero, List.append_nil]; exact h
  | case2 s k hk ht =>
    obtain ⟨flushed, h⟩ := h
    have := h.tail
    have hc := h.wrote.chunkSize
    unfold EncryptSession.take at ht
    omega
  | case3 s k hk ht ih =>
    obtain ⟨flushed, h⟩ := h
    have hle : s.take k ≤ k := by unfold EncryptSession.take; omega
    have hfit : s.staging.length + (List.replicate (s.take k) (0 : UInt8)).length ≤ s₀.chunkSize := by
      have := h.tail
      have := h.wrote.chunkSize
      rw [List.length_replicate]; unfold EncryptSession.take; omega
    have hcut : Q ++ List.replicate k 0 = Q ++ List.replicate (s.take k) 0 ++ List.replicate (k - s.take k) (0 : UInt8) := by
      rw [List.append_assoc, List.replicate_append_replicate, Nat.add_sub_cancel' hle]
    rw [pad, dif_neg hk, dif_neg ht, hcut]
    exact ih (h.stage hfit)

/-- all slices of a run -/
theorem feeds_absorbed {Q : Bytes} (h : Absorbed S s₀ s Q) (slices : List Bytes) :
    Absorbed S s₀ (slices.foldl (feed S) s) (Q ++ slices.flatten) := by
  induction slices generalizing s Q with
  | nil => simpa using h
  | cons x xs ih =>
    rw [List.foldl_cons, List.flatten_cons, ← List.append_assoc]
    exact ih (feed_absorbed h)

/-- **The final chunk.** The sink then holds the chunks of what was absorbed, the last one sealed as final. -/
theorem flushFinal_wrote {Q : Bytes} (hc : 0 < s₀.chunkSize) (h : Absorbed S s₀ s Q) :
    Wrote s₀ (flushFinal S s) (chunks s₀.chunkSize Q).length
      (sealFinal S s₀.cipher s₀.nonceBase s₀.aadBase 0 (chunks s₀.chunkSize Q)) Q.length := by
  obtain ⟨flushed, h⟩ := h
  -- it is enough to name the chunks, for they can be cut in one way only
  have hcut : ∀ L x, (∀ y ∈ L, y.length = s₀.chunkSize) → x ≠ [] → x.length ≤ s₀.chunkSize → (L ++ [x]).flatten = Q →
      Wrote s₀ (flushFinal S s) (L.length + 1)
        (sealOpen S s₀.cipher s₀.nonceBase s₀.aadBase 0 L ++ sealChunk S s₀.cipher s₀.nonceBase s₀.aadBase L.length true x)
        (L.flatten.length + x.length) →
      Wrote s₀ (flushFinal S s) (chunks s₀.chunkSize Q).length
        (sealFinal S s₀.cipher s₀.nonceBase s₀.aadBase 0 (chunks s₀.chunkSize Q)) Q.length := by
    intro L x hL hx hle hflat hw
    have hL' := (Chunked.append_singleton hL hx hle).eq_chunks hc
    rw [hflat] at hL'
    rw [← hL', sealFinal_append, ← hflat]
    simpa using hw
  by_cases hst : s.staging = []
  · cases hp : s.pending with
    | none =>
      have hQ : Q = [] := by rw [← h.absorbed, h.first hp, hp, hst]; rfl
      have hw := h.wrote
      rw [h.first hp] at hw
      rw [hQ, chunks_nil]
      unfold flushFinal
      rw [if_neg (not_not.2 hst), hp]
      exact hw
    | some prev =>
      have hlen := h.held prev hp
      refine hcut flushed prev h.full (fun e => ?_) hlen.le ?_ ?_
      · rw [e] at hlen; simp only [List.length_nil] at hlen; omega
      · rw [← h.absorbed, hp, hst]; simp
      · unfold flushFinal
        rw [if_neg (not_not.2 hst), hp]
        exact (h.wrote.buffers s.staging none).flushRaw prev true
  · have hw := h.wrote.flushPending h.first
    refine hcut (flushed ++ s.pending.toList) s.staging ?_ hst h.tail.le ?_ ?_
    · intro y hy
      rcases List.mem_append.1 hy with hy | hy
      · exact h.full y hy
      · exact h.held y (Option.mem_toList.1 hy)
    · rw [← h.absorbed]
      cases s.pending <;> simp
    · unfold flushFinal
      rw [if_pos hst]
      exact (hw.buffers [] _).flushRaw s.staging true

end EncryptSession

/-! ## The envelope in closed form -/

@[simp] theorem length_header (v : ℕ) (epoch : UInt32) {nb : Bytes} (hnb : nb.length = 12) (len c : ℕ) :
    (header v epoch nb len c).length = 36 := by
  simp [header, MAGIC_V3, hnb]

/-- the fields of a header, each at its place -/
theorem header_slices (v : ℕ) (epoch : UInt32) {nb : Bytes} (hnb : nb.length = 12) (len c : ℕ) :
    slice (header v epoch nb len c) 0 4 = MAGIC_V3 ∧ slice (header v epoch nb len c) 4 6 = beBytes 2 v ∧
      slice (header v epoch nb len c) 6 7 = [KEM_ALG_MLKEM768] ∧ slice (header v epoch nb len c) 7 8 = [AEAD_ALG_AES256GCM] ∧
      slice (header v epoch nb len c) 12 24 = nb ∧ slice (header v epoch nb len c) 24 32 = beBytes 8 len ∧
      slice (header v epoch nb len c) 32 36 = beBytes 4 c := by
  have hmid : ∀ (p m q : Bytes) (i j : ℕ), header v epoch nb len c = p ++ m ++ q → p.length = i → i + m.length = j →
      slice (header v epoch nb len c) i j = m := fun p m q i j e hi hj => by rw [e]; exact slice_middle hi hj
  refine ⟨?_, ?_, ?_, ?_, ?_, ?_, ?_⟩
  · exact hmid [] MAGIC_V3 _ 0 4 (by simp only [header, List.append_assoc, List.nil_append]; rfl) rfl rfl
  · exact hmid MAGIC_V3 _ _ 4 6 (by simp only [header, List.append_assoc]; rfl) rfl (by simp)
  · exact hmid (MAGIC_V3 ++ beBytes 2 v) _ _ 6 7 (by simp only [header, List.append_assoc]; rfl) (by simp [MAGIC_V3]) rfl
  · exact hmid (MAGIC_V3 ++ beBytes 2 v ++ [KEM_ALG_MLKEM768]) _ _ 7 8 (by simp only [header, List.append_assoc]; rfl)
      (by simp [MAGIC_V3]) rfl
  · exact hmid (MAGIC_V3 ++ beBytes 2 v ++ [KEM_ALG_MLKEM768] ++ [AEAD_ALG_AES256GCM] ++ beBytes 4 epoch.toNat) _ _ 12 24
      (by simp only [header, List.append_assoc]; rfl) (by simp [MAGIC_V3]) (by simp [hnb])
  · exact hmid (MAGIC_V3 ++ beBytes 2 v ++ [KEM_ALG_MLKEM768] ++ [AEAD_ALG_AES256GCM] ++ beBytes 4 epoch.toNat ++ nb) _ _ 24 32
      (by simp only [header, List.append_assoc]; rfl) (by simp [MAGIC_V3, hnb]) (by simp)
  · exact hmid (MAGIC_V3 ++ beBytes 2 v ++ [KEM_ALG_MLKEM768] ++ [AEAD_ALG_AES256GCM] ++ beBytes 4 epoch.toNat ++ nb ++
      beBytes 8 len) _ [] 32 36 (by simp only [header, List.append_assoc, List.append_nil]) (by simp [MAGIC_V3, hnb]) (by simp)

/-- the part of the header before `plaintext_len` -/
def headerFront (v : ℕ) (epoch : UInt32) (nb : Bytes) : Bytes :=
  MAGIC_V3 ++ beBytes 2 v ++ [KEM_ALG_MLKEM768] ++ [AEAD_ALG_AES256GCM] ++ beBytes 4 epoch.toNat ++ nb

theorem header_eq (v : ℕ) (epoch : UInt32) (nb : Bytes) (len c : ℕ) :
    header v epoch nb len c = headerFront v epoch nb ++ beBytes 8 len ++ beBytes 4 c := rfl

theorem length_headerFront (v : ℕ) (epoch : UInt32) {nb : Bytes} (hnb : nb.length = 12) :
    (headerFront v epoch nb).length = 24 := by
  simp [headerFront, MAGIC_V3, hnb]

/-- `plaintext_len` is not part of the associated data -/
theorem buildV3Aad_header (v : ℕ) (epoch : UInt32) {nb : Bytes} (hnb : nb.length = 12) (len c : ℕ) :
    buildV3Aad (header v epoch nb len c) = headerFront v epoch nb ++ beBytes 4 c := by
  have h1 : slice (header v epoch nb len c) 0 V3_AAD_PREFIX_LEN = headerFront v epoch nb := by
    rw [header_eq, List.append_assoc]
    exact slice_front (length_headerFront v epoch hnb)
  obtain ⟨-, -, -, -, -, -, h2⟩ := header_slices v epoch hnb len c
  rw [buildV3Aad, h1, h2]

/-- the envelope of a (padded) plaintext -/
def envelope (ss kemCt : Bytes) (bucket key : String) (epoch : UInt32) (nb : Bytes) (c : ℕ) (Q : Bytes) : Bytes :=
  header FORMAT_VER_V4 epoch nb Q.length c ++ kemCt ++
    sealFinal S (deriveContentKey S ss kemCt bucket key) nb (headerFront FORMAT_VER_V4 epoch nb ++ beBytes 4 c) 0 (chunks c Q)

/-- the plaintext zero-padded to its Padmé length -/
def padded (P : Bytes) : Bytes := P ++ List.replicate (padmeLen P.length - P.length) 0

/-- how many bytes `finish` pads `n` bytes with: its counters wrap -/
def padU64 (n : ℕ) : ℕ := (UInt64.ofNat (padmeLen (UInt64.ofNat n).toNat) - UInt64.ofNat n).toNat

/-- what a session writes for any plaintext, also for one that no `u64` counts -/
def paddedU64 (P : Bytes) : Bytes := P ++ List.replicate (padU64 P.length) 0

theorem length_padded {P : Bytes} (hP : P.length < 2 ^ 63) : (padded P).length = padmeLen P.length := by
  have := (padmeLen_bounds hP).1
  simp only [padded, List.length_append, List.length_replicate]; omega

section Closed

variable {S} {sink : Sink} {pk : Bytes} {epoch : UInt32} {bucket key : String} {wo c : ℕ} {rand : Bytes} {nb : Nonce}

/-- the length of an envelope -/
theorem length_envelope {ss kemCt Q nb : Bytes} (hc : 0 < c) (hnb : nb.length = 12) (hct : kemCt.length = 1088) :
    (envelope S ss kemCt bucket key epoch nb c Q).length = 1124 + Q.length + 16 * ((Q.length + (c - 1)) / c) := by
  rw [envelope, List.length_append, List.length_append, length_header _ _ hnb, hct, length_sealFinal, flatten_chunks hc,
    length_chunks hc]
  omega

namespace EncryptSession

/-- what `finish` takes for the number of bytes absorbed, and how many it pads with -/
theorem Absorbed.count {s₀ s : EncryptSession} {P : Bytes} (h : Absorbed S s₀ s P) :
    s.plaintextTotal + UInt64.ofNat (s.pending.elim 0 List.length) + UInt64.ofNat s.staging.length = UInt64.ofNat P.length := by
  obtain ⟨flushed, h⟩ := h
  have hpend : s.pending.elim 0 List.length = (s.pending.getD []).length := by cases s.pending <;> rfl
  rw [h.wrote.plaintextTotal, hpend, ← UInt64.ofNat_add, ← UInt64.ofNat_add, ← h.absorbed]
  simp only [List.length_append]

theorem padU64_eq {n : ℕ} (hn : n < 2 ^ 63) : padU64 n = padmeLen n - n := by
  obtain ⟨hle, hlt⟩ := padmeLen_bounds hn
  have hn' : (UInt64.ofNat n).toNat = n := by rw [UInt64.toNat_ofNat']; exact Nat.mod_eq_of_lt (by omega)
  have hp' : (UInt64.ofNat (padmeLen n)).toNat = padmeLen n := by rw [UInt64.toNat_ofNat']; exact Nat.mod_eq_of_lt hlt
  rw [padU64, hn', UInt64.toNat_sub_of_le _ _ (by rw [UInt64.le_iff_toNat_le, hn', hp']; exact hle), hn', hp']

theorem paddedU64_eq {P : Bytes} (hP : P.length < 2 ^ 63) : paddedU64 P = padded P := by
  rw [paddedU64, padded, padU64_eq hP]

/-- **What `finish` leaves.** The chunks of the padded plaintext after what the session started with, the header's
`plaintext_len` patched to the padded length. -/
theorem Absorbed.finish_eq {s₀ s : EncryptSession} {P base front rest : Bytes} (h : Absorbed S s₀ s P)
    (hc : 0 < s₀.chunkSize) (hfile : s₀.sink.file = base ++ front ++ beBytes 8 0 ++ rest)
    (hbase : base.length = s₀.writeOffset) (hfront : front.length = 24) :
    let body := sealFinal S s₀.cipher s₀.nonceBase s₀.aadBase 0 (chunks s₀.chunkSize (paddedU64 P))
    let file := base ++ front ++ beBytes 8 (paddedU64 P).length ++ rest ++ body
    s.finish S = (⟨file, file.length⟩,
      { envelopeVersion := FORMAT_VER_V4
        kemAlg := "ml-kem-768"
        aeadAlg := "aes-256-gcm"
        cipherSize := s₀.bytesWritten + UInt64.ofNat body.length
        cipherChecksumB64 := S.checksumB64 (s₀.cipherHasher ++ body)
        keyEpoch := s₀.keyEpoch }) := by
  intro body file
  have hw : Wrote s₀ (flushFinal S (pad S s (padU64 P.length))) _ body (paddedU64 P).length :=
    flushFinal_wrote hc (pad_absorbed h)
  have htotal : beBytes 8 (UInt64.ofNat (paddedU64 P).length).toNat = beBytes 8 (paddedU64 P).length := by
    rw [UInt64.toNat_ofNat', show 2 ^ 64 = 256 ^ 8 by norm_num, beBytes_mod]
  unfold EncryptSession.finish
  rw [h.count]
  simp only
  rw [← padU64]
  generalize flushFinal S (pad S s (padU64 P.length)) = sf at hw ⊢
  have hpatch : sf.sink.writeAllAt (beBytes 8 sf.plaintextTotal.toNat) (sf.writeOffset + V3_PLAINTEXT_LEN_OFFSET) =
      ⟨file, base.length + 24 + 8⟩ := by
    have hmid := @pwrite_middle (base ++ front) (beBytes 8 0) (rest ++ body) (beBytes 8 (paddedU64 P).length)
      (base.length + 24) (by rw [List.length_append, hfront]) (by simp)
    unfold Sink.writeAllAt
    rw [hw.writeOffset, ← hbase, hw.plaintextTotal, htotal, hw.file, hfile, length_beBytes]
    simp only [file, List.append_assoc] at hmid ⊢
    rw [hmid]
  rw [hpatch, hw.bytesWritten, hw.hasher, hw.keyEpoch]
  rfl

end EncryptSession

/-- the session `new` returns -/
def EncryptSession.fresh (S : Suite) (sink : Sink) (ss kemCt : Bytes) (keyEpoch : UInt32) (bucket key : String)
    (writeOffset chunkSize : ℕ) (nonceBase : Nonce) : EncryptSession :=
  { sink := (sink.writeAll (header FORMAT_VER_V4 keyEpoch nonceBase.1 0 chunkSize)).writeAll kemCt
    cipher := deriveContentKey S ss kemCt bucket key
    nonceBase := nonceBase.1
    chunkIdx := 0
    staging := []
    pending := none
    plaintextTotal := 0
    aadBase := buildV3Aad (header FORMAT_VER_V4 keyEpoch nonceBase.1 0 chunkSize)
    bytesWritten := UInt64.ofNat ((header FORMAT_VER_V4 keyEpoch nonceBase.1 0 chunkSize).length + kemCt.length)
    writeOffset := writeOffset
    chunkSize := chunkSize
    keyEpoch := keyEpoch
    cipherHasher := header FORMAT_VER_V4 keyEpoch nonceBase.1 0 chunkSize ++ kemCt }

theorem new_ok (hc : 0 < c) (hc' : c < 2 ^ 32) (hpk : pk.length = 1184) (hval : S.validPk pk = true) :
    EncryptSession.new S sink pk epoch bucket key wo c rand nb =
      .ok (.fresh S sink (S.encapsulate pk rand).1 (S.encapsulate pk rand).2 epoch bucket key wo c nb) := by
  have hkey : publicKeyFromBytes S pk = .ok pk := by
    unfold publicKeyFromBytes
    rw [if_neg (not_not.2 hpk), if_pos hval]
  unfold EncryptSession.new
  rw [if_neg (by omega), hkey]
  rfl

theorem fresh_sink {ss kemCt : Bytes} (hct : kemCt.length = 1088) (hcur : sink.cursor = wo) (hlen : sink.file.length ≤ wo) :
    (EncryptSession.fresh S sink ss kemCt epoch bucket key wo c nb).sink =
      ⟨setLen sink.file wo ++ header FORMAT_VER_V4 epoch nb.1 0 c ++ kemCt, wo + 36 + 1088⟩ := by
  have hhl := length_header FORMAT_VER_V4 epoch nb.2 0 c
  have h1 : sink.writeAll (header FORMAT_VER_V4 epoch nb.1 0 c) =
      ⟨setLen sink.file wo ++ header FORMAT_VER_V4 epoch nb.1 0 c, wo + 36⟩ := by
    unfold Sink.writeAll
    rw [hcur, pwrite_end hlen, hhl]
  have hl1 : (setLen sink.file wo ++ header FORMAT_VER_V4 epoch nb.1 0 c).length = wo + 36 := by
    rw [List.length_append, length_setLen, hhl]
  unfold EncryptSession.fresh
  rw [h1]
  unfold Sink.writeAll
  simp only
  rw [pwrite_end hl1.le, ← hl1, setLen_self, hct]

theorem fresh_absorbed {ss kemCt : Bytes} (hct : kemCt.length = 1088) (hcur : sink.cursor = wo) (hlen : sink.file.length ≤ wo)
    (hc : 0 < c) : EncryptSession.Absorbed S (.fresh S sink ss kemCt epoch bucket key wo c nb)
      (.fresh S sink ss kemCt epoch bucket key wo c nb) [] := by
  have hsink := @fresh_sink S sink epoch bucket key wo c nb ss kemCt hct hcur hlen
  refine ⟨[], ⟨?_, ?_, rfl, rfl, ?_, ?_, rfl, rfl, rfl, rfl, rfl, rfl⟩, ?_, ?_, fun _ => rfl, hc, rfl⟩
  · rw [sealOpen, List.append_nil]
  · rw [hsink, List.length_append, List.length_append, length_setLen, length_header _ _ nb.2, hct]
  · rw [sealOpen, List.length_nil]; exact (UInt64.add_zero _).symm
  · rw [sealOpen, List.append_nil]
  · intro x hx; cases hx
  · intro p hp; cases hp

/-- **The writer in closed form.** On a sink that ends at or before `write_offset`, whatever the slices: the envelope of
the padded plaintext, written at `write_offset`. The checksum is that of the header as it was first written. -/
theorem encrypt_closed (hcur : sink.cursor = wo) (hlen : sink.file.length ≤ wo) (hc : 0 < c) (hc' : c < 2 ^ 32)
    (hpk : pk.length = 1184) (hval : S.validPk pk = true) (slices : List Bytes) :
    let env := envelope S (S.encapsulate pk rand).1 (S.encapsulate pk rand).2 bucket key epoch nb.1 c (paddedU64 slices.flatten)
    encrypt S sink pk epoch bucket key wo c rand nb slices =
      .ok (⟨setLen sink.file wo ++ env, wo + env.length⟩,
        { envelopeVersion := FORMAT_VER_V4
          kemAlg := "ml-kem-768"
          aeadAlg := "aes-256-gcm"
          cipherSize := UInt64.ofNat env.length
          cipherChecksumB64 := S.checksumB64 (header FORMAT_VER_V4 epoch nb.1 0 c ++ env.drop 36)
          keyEpoch := epoch }) := by
  intro env
  have hct := S.length_ct pk rand
  set ss := (S.encapsulate pk rand).1
  set kemCt := (S.encapsulate pk rand).2
  set s₀ := EncryptSession.fresh S sink ss kemCt epoch bucket key wo c nb with hs₀
  set body := sealFinal S s₀.cipher s₀.nonceBase s₀.aadBase 0 (chunks s₀.chunkSize (paddedU64 slices.flatten)) with hbody
  have hhl := length_header FORMAT_VER_V4 epoch nb.2
  have hfed := EncryptSession.feeds_absorbed (@fresh_absorbed S sink epoch bucket key wo c nb ss kemCt hct hcur hlen hc)
    slices
  rw [List.nil_append] at hfed
  have hfile : s₀.sink.file = setLen sink.file wo ++ headerFront FORMAT_VER_V4 epoch nb.1 ++ beBytes 8 0 ++
      (beBytes 4 c ++ kemCt) := by
    rw [hs₀, fresh_sink hct hcur hlen, header_eq]
    simp only [List.append_assoc]
  have hfin := hfed.finish_eq hc hfile (length_setLen _ _) (length_headerFront _ _ nb.2)
  have henv : env = header FORMAT_VER_V4 epoch nb.1 (paddedU64 slices.flatten).length c ++ kemCt ++ body := by
    have haad := buildV3Aad_header FORMAT_VER_V4 epoch nb.2 0 c
    simp only [env, envelope, hbody, hs₀, EncryptSession.fresh, haad]
    rfl
  have hdrop : env.drop 36 = kemCt ++ body := by
    rw [henv, List.append_assoc]
    exact List.drop_left' (hhl _ _)
  have hwhole : setLen sink.file wo ++ headerFront FORMAT_VER_V4 epoch nb.1 ++ beBytes 8 (paddedU64 slices.flatten).length ++
      (beBytes 4 c ++ kemCt) ++ body = setLen sink.file wo ++ env := by
    rw [henv, header_eq]
    simp only [List.append_assoc]
  have hsize : s₀.bytesWritten + UInt64.ofNat body.length = UInt64.ofNat env.length := by
    rw [henv, List.length_append, List.length_append, hhl, UInt64.ofNat_add]
    simp only [hs₀, EncryptSession.fresh, hhl]
  unfold encrypt
  rw [new_ok hc hc' hpk hval]
  simp only
  rw [hfin, hwhole, hsize, hdrop, List.length_append, length_setLen, ← List.append_assoc]
  rfl

theorem encrypt_eq (hcur : sink.cursor = wo) (hlen : sink.file.length ≤ wo) (hc : 0 < c) (hc' : c < 2 ^ 32)
    (hpk : pk.length = 1184) (hval : S.validPk pk = true) {slices : List Bytes} (hP : slices.flatten.length < 2 ^ 63) :
    let env := envelope S (S.encapsulate pk rand).1 (S.encapsulate pk rand).2 bucket key epoch nb.1 c (padded slices.flatten)
    encrypt S sink pk epoch bucket key wo c rand nb slices =
      .ok (⟨setLen sink.file wo ++ env, wo + env.length⟩,
        { envelopeVersion := FORMAT_VER_V4
          kemAlg := "ml-kem-768"
          aeadAlg := "aes-256-gcm"
          cipherSize := UInt64.ofNat env.length
          cipherChecksumB64 := S.checksumB64 (header FORMAT_VER_V4 epoch nb.1 0 c ++ env.drop 36)
          keyEpoch := epoch }) := by
  rw [← EncryptSession.paddedU64_eq hP]
  exact encrypt_closed hcur hlen hc hc' hpk hval slices

end Closed

/-! ## The readers -/

section Read

variable {S} {ver c idx : ℕ} {p : Preamble} {env body acc : Bytes}

/-- the two chunk loops agree -/
theorem chunkLoop_eq_owned (ver : ℕ) (p : Preamble) (env : Bytes) {pos : ℕ} (hpos : pos ≤ env.length) (idx : ℕ) (acc : Bytes) :
    chunkLoop S ver p env pos idx acc = chunkLoopOwned S ver p env.length (env.drop pos) pos idx acc := by
  induction hn : env.length - pos using Nat.strong_induction_on generalizing pos idx acc with
  | _ n ih =>
    rw [chunkLoop, chunkLoopOwned]
    by_cases hlt : pos < env.length
    · have hne : env.drop pos ≠ [] := fun h => absurd (List.drop_eq_nil_iff.1 h) (by omega)
      have hend : min (pos + p.chunkSize + TAG_LEN) env.length = pos + min (p.chunkSize + TAG_LEN) (env.drop pos).length := by
        rw [List.length_drop]; omega
      have hle : pos + min (p.chunkSize + TAG_LEN) (env.drop pos).length ≤ env.length := by rw [← hend]; omega
      generalize min (p.chunkSize + TAG_LEN) (env.drop pos).length = take at hend hle
      have hsl : slice env pos (pos + take) = (env.drop pos).take take := by rw [slice, Nat.add_sub_cancel_left]
      simp only [dif_pos hlt, dif_neg hne, hend, Nat.add_sub_cancel_left, hsl]
      by_cases ht : take < TAG_LEN
      · rw [dif_pos ht, dif_pos ht]
      · rw [dif_neg ht, dif_neg ht]
        split
        · rfl
        · rw [ih (env.length - (pos + take)) (by have : TAG_LEN = 16 := rfl; omega) hle _ _ rfl, List.drop_drop]
    · rw [dif_neg hlt, dif_pos (List.drop_eq_nil_of_le (by omega))]

theorem readPreamble_length {tr : String} {sk : Bytes} {b k : String} (h : readPreamble S ver tr sk env b k = .ok p) :
    PREAMBLE_LEN ≤ env.length := by
  unfold readPreamble at h
  split_ifs at h with h1
  all_goals omega

theorem decryptVersionOwned_eq (tr : String) (sk env : Bytes) (b k : String) (n : ℕ) :
    decryptVersionOwned S ver tr sk env b k n = decryptVersion S ver tr sk env b k n := by
  unfold decryptVersionOwned decryptVersion
  cases h : readPreamble S ver tr sk env b k with
  | error e => rfl
  | ok p =>
    change (chunkLoopOwned S ver p env.length (env.drop PREAMBLE_LEN) PREAMBLE_LEN 0 [] >>= _) = (chunkLoop S ver p env PREAMBLE_LEN 0 [] >>= _)
    rw [chunkLoop_eq_owned ver p env (readPreamble_length h)]

/-- **The two readers agree**, on every input. -/
theorem decryptOwned_eq (sk env : Bytes) (b k : String) (n : ℕ) : decryptOwned S sk env b k n = decrypt S sk env b k n := by
  unfold decryptOwned decrypt dispatch decryptV3Owned decryptV4Owned decryptV3 decryptV4
  simp only [decryptVersionOwned_eq]

/-- **The copying and the consuming readers agree**, version by version and behind the dispatch: the same plaintext or the same error for
every byte string, whatever the primitives compute. The two laws of a suite are about sealing, and no reader seals. -/
theorem readers_agree (S : Suite) (sk env : Bytes) (bucket key : String) (n : ℕ) :
    decryptV3Owned S sk env bucket key n = decryptV3 S sk env bucket key n ∧
      decryptV4Owned S sk env bucket key n = decryptV4 S sk env bucket key n ∧
      decryptOwned S sk env bucket key n = decrypt S sk env bucket key n :=
  ⟨decryptVersionOwned_eq _ sk env bucket key n, decryptVersionOwned_eq _ sk env bucket key n, decryptOwned_eq sk env bucket key n⟩

/-- the chunk loop opens what was sealed for it -/
theorem chunkLoopOwned_sealFinal (hp : p.chunkSize = c) (hc : 0 < c) {L : List Bytes} (hL : Chunked c L) (consumed idx : ℕ)
    (acc : Bytes) (hopens : OpensBoxes S (boxes S p.contentKey p.nonceBase p.aadBase idx L)) :
    chunkLoopOwned S FORMAT_VER_V4 p (consumed + (sealFinal S p.contentKey p.nonceBase p.aadBase idx L).length)
      (sealFinal S p.contentKey p.nonceBase p.aadBase idx L) consumed idx acc = .ok (acc ++ L.flatten) := by
  induction L generalizing consumed idx acc with
  | nil => rw [chunkLoopOwned, sealFinal, dif_pos rfl, List.flatten_nil, List.append_nil]
  | cons x xs ih =>
    have hopen : S.aead.decrypt p.contentKey (chunkNonce p.nonceBase idx) (chunkAad FORMAT_VER_V4 p.aadBase xs.isEmpty)
        (sealChunk S p.contentKey p.nonceBase p.aadBase idx xs.isEmpty x) = some x := hopens _ List.mem_cons_self
    have hxl : ∀ f, (sealChunk S p.contentKey p.nonceBase p.aadBase idx f x).length = x.length + 16 :=
      fun f => length_sealChunk idx f x
    have htag : TAG_LEN = 16 := rfl
    cases xs with
    | nil =>
      -- the last chunk takes all that is left
      have hle := hL.2
      have hne : sealChunk S p.contentKey p.nonceBase p.aadBase idx true x ≠ [] :=
        List.ne_nil_of_length_pos (by rw [hxl]; omega)
      have htake : min (p.chunkSize + TAG_LEN) (sealChunk S p.contentKey p.nonceBase p.aadBase idx true x).length =
          (sealChunk S p.contentKey p.nonceBase p.aadBase idx true x).length := by rw [hxl]; omega
      rw [sealFinal, chunkLoopOwned, dif_neg hne]
      simp only [htake]
      rw [dif_neg (by rw [hxl]; omega), List.take_length, List.drop_length]
      rw [List.isEmpty_nil] at hopen
      simp only [decide_true, hopen]
      rw [chunkLoopOwned, dif_pos rfl]
      simp
    | cons y ys =>
      obtain ⟨hx, hrest⟩ := hL
      rw [List.isEmpty_cons] at hopen
      rw [sealFinal]
      set ct := sealChunk S p.contentKey p.nonceBase p.aadBase idx false x with hct
      set rest := sealFinal S p.contentKey p.nonceBase p.aadBase (idx + 1) (y :: ys) with hrestdef
      have hctl : ct.length = c + 16 := by rw [hct, hxl, hx]
      have hrl : 16 ≤ rest.length := by
        rw [hrestdef, length_sealFinal, List.length_cons]; omega
      have hne : ct ++ rest ≠ [] := List.ne_nil_of_length_pos (by rw [List.length_append]; omega)
      have htake : min (p.chunkSize + TAG_LEN) (ct ++ rest).length = ct.length := by
        rw [List.length_append]; omega
      have hfin : ¬ consumed + ct.length = consumed + (ct ++ rest).length := by
        rw [List.length_append]; omega
      rw [chunkLoopOwned, dif_neg hne]
      simp only [htake]
      rw [dif_neg (by omega), List.take_left, List.drop_left, decide_eq_false hfin, hopen]
      simp only
      have := ih hrest (consumed + ct.length) (idx + 1) (acc ++ x) fun b hb => hopens b (List.mem_cons_of_mem _ hb)
      rw [← hrestdef] at this
      rw [List.length_append, ← Nat.add_assoc, this, List.append_assoc]
      rfl

section Preamble

variable {ss kemCt Q nb sk : Bytes} {bucket key bucket' key' : String} {epoch : UInt32}

/-- what the reader of version 4 takes from the preamble of an envelope -/
def preamble (S : Suite) (ss kemCt : Bytes) (bucket key : String) (epoch : UInt32) (nb : Bytes) (c len : ℕ) : Preamble :=
  { nonceBase := nb
    plaintextLen := len
    chunkSize := c
    aadBase := headerFront FORMAT_VER_V4 epoch nb ++ beBytes 4 c
    contentKey := deriveContentKey S ss kemCt bucket key }

theorem envelope_head (hnb : nb.length = 12) {i j : ℕ} (hj : j ≤ 36) :
    slice (envelope S ss kemCt bucket key epoch nb c Q) i j = slice (header FORMAT_VER_V4 epoch nb Q.length c) i j := by
  rw [envelope, List.append_assoc]
  exact slice_left (by rw [length_header _ _ hnb]; exact hj)

theorem readPreamble_envelope (hc : 0 < c) (hc' : c < 2 ^ 32) (hnb : nb.length = 12) (hct : kemCt.length = 1088)
    (hQ : Q.length < 2 ^ 64) (hsk : sk.length = 2400) (hval : S.validSk sk = true) (hss : S.decapsulate kemCt sk = ss) :
    readPreamble S FORMAT_VER_V4 "truncated v4 envelope" sk (envelope S ss kemCt bucket key epoch nb c Q) bucket' key' =
      .ok (preamble S ss kemCt bucket' key' epoch nb c Q.length) := by
  obtain ⟨-, h2, h3, h4, h5, h6, h7⟩ := header_slices FORMAT_VER_V4 epoch hnb Q.length c
  have hlen := @length_envelope S epoch bucket key c ss kemCt Q nb hc hnb hct
  have hkem : slice (envelope S ss kemCt bucket key epoch nb c Q) ENVELOPE_V3_HEADER_FIXED_LEN PREAMBLE_LEN = kemCt :=
    slice_middle (length_header _ _ hnb _ _) (by rw [hct])
  have haad : buildV3Aad (slice (header FORMAT_VER_V4 epoch nb Q.length c) 0 36) =
      headerFront FORMAT_VER_V4 epoch nb ++ beBytes 4 c := by
    rw [slice_zero, List.take_of_length_le (length_header _ _ hnb _ _).le, buildV3Aad_header _ _ hnb]
  have hkey : secretKeyFromBytes S sk = .ok sk := by
    unfold secretKeyFromBytes
    rw [if_neg (not_not.2 hsk), if_pos hval]
  have hver : ofBe (beBytes 2 FORMAT_VER_V4) = FORMAT_VER_V4 := by rw [ofBe_beBytes]; rfl
  have hcs : ofBe (beBytes 4 c) = c := by rw [ofBe_beBytes]; exact Nat.mod_eq_of_lt hc'
  have hpl : ofBe (beBytes 8 Q.length) = Q.length := by rw [ofBe_beBytes]; exact Nat.mod_eq_of_lt hQ
  unfold readPreamble
  simp only [envelope_head hnb (show 6 ≤ 36 by omega), envelope_head hnb (show 7 ≤ 36 by omega),
    envelope_head hnb (show 8 ≤ 36 by omega), envelope_head hnb (show 24 ≤ 36 by omega),
    envelope_head hnb (show 32 ≤ 36 by omega), envelope_head hnb (le_refl 36), h2, h3, h4, h5, h6, h7, hver, hcs, hpl, hkem,
    haad, hkey, hss]
  rw [if_neg (by rw [hlen]; have : PREAMBLE_LEN = 1124 := rfl; omega), if_neg (not_not.2 rfl), if_neg (not_not.2 rfl),
    if_neg (not_not.2 rfl), if_neg (by omega)]
  rfl

/-- **Both readers give back the plaintext**, trimmed to the size asked for. -/
theorem decrypt_envelope (hc : 0 < c) (hc' : c < 2 ^ 32) (hnb : nb.length = 12) (hct : kemCt.length = 1088)
    (hQ : Q.length < 2 ^ 64) (hsk : sk.length = 2400) (hval : S.validSk sk = true) (hss : S.decapsulate kemCt sk = ss)
    {n : ℕ} (hn : n ≤ Q.length) (hopens : OpensBoxes S (boxes S (deriveContentKey S ss kemCt bucket key) nb
      (headerFront FORMAT_VER_V4 epoch nb ++ beBytes 4 c) 0 (chunks c Q))) :
    decrypt S sk (envelope S ss kemCt bucket key epoch nb c Q) bucket key n = .ok (Q.take n) := by
  obtain ⟨h1, h2, -⟩ := header_slices FORMAT_VER_V4 epoch hnb Q.length c
  have hlen := @length_envelope S epoch bucket key c ss kemCt Q nb hc hnb hct
  set env := envelope S ss kemCt bucket key epoch nb c Q with henv
  have hmagic : slice env 0 4 = MAGIC_V3 := by rw [henv, envelope_head hnb (by omega), h1]
  have hver : ofBe (slice env 4 6) = FORMAT_VER_V4 := by rw [henv, envelope_head hnb (by omega), h2, ofBe_beBytes]; rfl
  have hdisp : decrypt S sk env bucket key n = decryptV4 S sk env bucket key n := by
    unfold decrypt dispatch
    rw [if_neg (by omega), if_neg (not_not.2 hmagic), if_neg (by omega), hver, if_neg (by decide), if_pos rfl]
  have hbody : env.drop PREAMBLE_LEN = sealFinal S (preamble S ss kemCt bucket key epoch nb c Q.length).contentKey nb
      (headerFront FORMAT_VER_V4 epoch nb ++ beBytes 4 c) 0 (chunks c Q) := by
    rw [henv, envelope]
    exact List.drop_left' (by rw [List.length_append, length_header _ _ hnb, hct])
  have htot : env.length = PREAMBLE_LEN + (env.drop PREAMBLE_LEN).length := by
    rw [List.length_drop, hlen]
    have : PREAMBLE_LEN = 1124 := rfl
    omega
  have hloop : chunkLoop S FORMAT_VER_V4 (preamble S ss kemCt bucket key epoch nb c Q.length) env PREAMBLE_LEN 0 [] = .ok Q := by
    rw [chunkLoop_eq_owned _ _ _ (by rw [hlen]; have : PREAMBLE_LEN = 1124 := rfl; omega), htot, hbody]
    have := chunkLoopOwned_sealFinal (S := S) (p := preamble S ss kemCt bucket key epoch nb c Q.length) rfl hc
      (chunked_chunks hc Q) PREAMBLE_LEN 0 [] hopens
    rw [flatten_chunks hc, List.nil_append] at this
    exact this
  rw [hdisp, decryptV4, decryptVersion, henv, readPreamble_envelope hc hc' hnb hct hQ hsk hval hss, ← henv]
  change (chunkLoop S FORMAT_VER_V4 _ env PREAMBLE_LEN 0 [] >>= _) = _
  rw [hloop]
  change finishPlaintext _ n Q = _
  unfold finishPlaintext
  simp only [preamble, ne_eq, not_true_eq_false, if_false]
  rw [if_neg (by omega)]

end Preamble

end Read

/-! ## The round trip -/

section RoundTrip

variable {S} {sink : Sink} {pk sk P : Bytes} {epoch : UInt32} {bucket key : String} {wo c : ℕ} {rand : Bytes} {nb : Nonce}

/-- **Round trip.** Whatever the slices, epoch, address and chunk size: the session leaves an envelope from which both
readers recover the plaintext, `plaintext_len` is the Padmé length, the number of bytes is as the layout says, `cipher_size`
is that number as a `u64`, and the result depends on the slices' concatenation only. -/
theorem envelope_round_trip (hopens : S.aead.OpensSealed) (hkp : S.KeyPair pk sk) (hcur : sink.cursor = wo)
    (hlen : sink.file.length ≤ wo) (hc : 1 ≤ c) (hc' : c ≤ 2 ^ 32 - 1) (hP : P.length < 2 ^ 63) {slices : List Bytes} (hslices : slices.flatten = P) :
    ∃ sink' info, encrypt S sink pk epoch bucket key wo c rand nb slices = .ok (sink', info) ∧
      decrypt S sk (sink'.file.drop wo) bucket key P.length = .ok P ∧
      decryptOwned S sk (sink'.file.drop wo) bucket key P.length = .ok P ∧
      ofBe (slice (sink'.file.drop wo) 24 32) = padmeLen P.length ∧
      (sink'.file.drop wo).length = 1124 + padmeLen P.length + 16 * ((padmeLen P.length + c - 1) / c) ∧
      info.cipherSize.toNat = (sink'.file.drop wo).length % 2 ^ 64 ∧
      ∀ slices' : List Bytes, slices'.flatten = P →
        encrypt S sink pk epoch bucket key wo c rand nb slices' = .ok (sink', info) := by
  subst hslices
  obtain ⟨hle, hlt⟩ := padmeLen_bounds hP
  have hct := S.length_ct pk rand
  have hQ := length_padded hP
  have henc := fun (slices' : List Bytes) (h : slices'.flatten.length < 2 ^ 63) => @encrypt_eq S sink pk epoch bucket key wo c
    rand nb hcur hlen (by omega) (by omega) hkp.pk_length hkp.pk_valid slices' h
  refine ⟨_, _, henc _ hP, ?_⟩
  set env := envelope S (S.encapsulate pk rand).1 (S.encapsulate pk rand).2 bucket key epoch nb.1 c (padded slices.flatten)
    with henv
  have hdrop : (setLen sink.file wo ++ env).drop wo = env := List.drop_left' (length_setLen _ _)
  have hread : decrypt S sk env bucket key slices.flatten.length = .ok slices.flatten := by
    rw [henv, decrypt_envelope (by omega) (by omega) nb.2 hct (by omega) hkp.sk_length hkp.sk_valid (hkp.correct rand)
      (by omega) (opensBoxes_of_opensSealed hopens _ _), padded, List.take_left]
  refine ⟨?_, ?_, ?_, ?_, ?_, ?_⟩
  · rw [hdrop]; exact hread
  · rw [hdrop, decryptOwned_eq]; exact hread
  · obtain ⟨-, -, -, -, -, h6, -⟩ := header_slices FORMAT_VER_V4 epoch nb.2 (padded slices.flatten).length c
    rw [hdrop, henv, envelope_head nb.2 (by omega), h6, ofBe_beBytes, hQ]
    exact Nat.mod_eq_of_lt hlt
  · rw [hdrop, henv, length_envelope (by omega) nb.2 hct, hQ, Nat.add_sub_assoc hc]
  · rw [hdrop, UInt64.toNat_ofNat']
  · intro slices' h'
    have hsame := henc slices' (by rw [h']; exact hP)
    rw [h'] at hsame
    exact hsame

/-- a suite with a one-byte key check in place of AES-GCM, the identity in place of HKDF and a fixed encapsulation -/
def sampleSuite : Suite where
  aead := Aead.tagged
  length_seal := Aead.tagged_correct.length_encrypt
  hkdfSha256 _ ikm info := ikm ++ info
  validPk _ := true
  validSk _ := true
  encapsulate _ _ := ([], List.replicate 1088 7)
  decapsulate _ _ := []
  length_ct _ _ := List.length_replicate
  checksumB64 _ := ""

theorem sampleSuite_keyPair : sampleSuite.KeyPair (List.replicate 1184 0) (List.replicate 2400 0) :=
  ⟨List.length_replicate, List.length_replicate, rfl, rfl, fun _ => rfl⟩

theorem padmeLen_two_pow : padmeLen (2 ^ 62) = 2 ^ 62 := by decide

/-- `cipher_size` of a plaintext of `2 ^ 62` bytes in chunks of one byte -/
theorem cipherSize_wrapped {P : Bytes} (hP : P.length = 2 ^ 62) :
    ∃ sink' info, encrypt sampleSuite ⟨[], 0⟩ (List.replicate 1184 0) 0 "b" "k" 0 1 [] ⟨List.replicate 12 0, rfl⟩ [P] =
      .ok (sink', info) ∧ info.cipherSize.toNat ≠ (sink'.file.drop 0).length := by
  have hflat : [P].flatten = P := by simp
  have hlen := @length_envelope sampleSuite 0 "b" "k" 1 [] (List.replicate 1088 7) (padded P) (List.replicate 12 0) (by omega) rfl
    List.length_replicate
  have henc := @encrypt_eq sampleSuite ⟨[], 0⟩ (List.replicate 1184 0) 0 "b" "k" 0 1 [] ⟨List.replicate 12 0, rfl⟩ rfl le_rfl
    (by omega) (by omega) List.length_replicate rfl [P] (by rw [hflat, hP]; norm_num)
  rw [hflat] at henc
  refine ⟨_, _, henc, ?_⟩
  rw [List.drop_zero, UInt64.toNat_ofNat', List.length_append, length_setLen]
  have hQ : (padded P).length = 2 ^ 62 := by rw [length_padded (by rw [hP]; norm_num), hP, padmeLen_two_pow]
  rw [hQ] at hlen
  rw [show (sampleSuite.encapsulate (List.replicate 1184 0) []).1 = [] from rfl,
    show (sampleSuite.encapsulate (List.replicate 1184 0) []).2 = List.replicate 1088 7 from rfl, hlen]
  norm_num

/-- **`cipher_size` wraps.** A plaintext below `2 ^ 63` bytes can give an envelope of more than `2 ^ 64`, whose size no `u64`
counts. -/
theorem cipher_size_is_not_exact : (List.replicate (2 ^ 62) (0 : UInt8)).length < 2 ^ 63 ∧
    ∃ sink' info, encrypt sampleSuite ⟨[], 0⟩ (List.replicate 1184 0) 0 "b" "k" 0 1 [] ⟨List.replicate 12 0, rfl⟩
      [List.replicate (2 ^ 62) 0] = .ok (sink', info) ∧ info.cipherSize.toNat ≠ (sink'.file.drop 0).length :=
  ⟨by rw [List.length_replicate]; norm_num, cipherSize_wrapped List.length_replicate⟩

/-- three bytes in two slices, chunks of two bytes -/
theorem envelope_round_trip_three_bytes :
    ∃ sink' info, encrypt sampleSuite ⟨[], 64⟩ (List.replicate 1184 0) 5 "b" "k" 64 2 [] ⟨List.replicate 12 0, rfl⟩
        [[1], [], [2, 3]] = .ok (sink', info) ∧
      decrypt sampleSuite (List.replicate 2400 0) (sink'.file.drop 64) "b" "k" 3 = .ok [1, 2, 3] := by
  obtain ⟨sink', info, h1, h2, -⟩ := @envelope_round_trip _ ⟨[], 64⟩ _ _ [1, 2, 3] 5 "b" "k" 64 2 []
    ⟨List.replicate 12 0, rfl⟩ Aead.tagged_correct.decrypt_encrypt sampleSuite_keyPair rfl (by decide) (by decide) (by decide)
    (by decide) [[1], [], [2, 3]] rfl
  exact ⟨sink', info, h1, h2⟩

end RoundTrip

end Y2q.Envelope
