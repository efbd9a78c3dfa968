/-
The encrypted backend is a plain growable file.

The plain file is a byte string: `write` is `pwrite`, `set_len` is `setLen`, opening and syncing change nothing. The backend
holds it as `k` whole blocks that open, block `j` to the bytes `j * 4096 ..` of the file followed by zeros for ever
(`BlocksAt`); what lies past the blocks or past the logical end is zero (`Sound`), and the header on disk carries the length
(`Persisted`). Every call keeps this, and no call fails before 2^48 epochs are used up.
-/
import Mathlib.Tactic
import Y2q.Core.Blocks
import Y2q.Storage.EncryptedBackend

namespace Y2q.EncryptedBackend

open Y2q CrashLogic Blocks

variable {A : Aead Bytes} {key : Bytes}

/-! ## Blocks on disk -/

/-- the physical block `blk` opens as block `j` -/
def Opens (A : Aead Bytes) (key : Bytes) (j : ℕ) (blk plain : Bytes) : Prop :=
  blk.length = 4124 ∧ A.decrypt key (blk.take 12) (beBytes 8 j) (blk.drop 12) = some plain

/-- the file is `k` whole blocks behind the header, with the plaintext `b` -/
structure BlocksAt (A : Aead Bytes) (key : Bytes) (f : Bytes) (k : ℕ) (b : ℕ → UInt8) : Prop where
  length : f.length = blockPhysOffset k
  opens : ∀ j < k, Opens A key j (slice f (blockPhysOffset j) (blockPhysOffset (j + 1))) (span b (j * 4096) 4096)

/-- writing block `idx`, in place or right behind the last one -/
theorem BlocksAt.put {f : Bytes} {k : ℕ} {b : ℕ → UInt8} (h : BlocksAt A key f k b) {idx : ℕ} (hidx : idx ≤ k)
    {blk plain : Bytes} (hblk : Opens A key idx blk plain) (hlen : plain.length = 4096) :
    BlocksAt A key (pwrite f (blockPhysOffset idx) blk) (max k (idx + 1)) (overwrite b (idx * 4096) plain) := by
  have hend : blockPhysOffset idx + blk.length = blockPhysOffset (idx + 1) := by
    rw [hblk.1, blockPhysOffset_succ]
  refine ⟨?_, fun j hj => ?_⟩
  · rw [length_pwrite, h.length, hend, blockPhysOffset_max]
  · rcases Nat.lt_trichotomy j idx with hlt | rfl | hgt
    · have hle : blockPhysOffset (j + 1) ≤ blockPhysOffset idx := blockPhysOffset_mono hlt
      rw [slice_pwrite_before hle (hle.trans (by rw [h.length]; exact blockPhysOffset_mono hidx)),
        span_overwrite_outside b plain (by rw [hlen]; exact blocks_disjoint (by omega))]
      exact h.opens j (by omega)
    · have hspan : span (overwrite b (j * 4096) plain) (j * 4096) 4096 = plain := by
        rw [← hlen]; exact span_overwrite_self b _ plain
      rwa [← hend, slice_pwrite_same, hspan]
    · have hle : blockPhysOffset idx + blk.length ≤ blockPhysOffset j := by
        rw [hend]; exact blockPhysOffset_mono hgt
      rw [slice_pwrite_after hle, span_overwrite_outside b plain (by rw [hlen]; exact blocks_disjoint (by omega))]
      exact h.opens j (by omega)

/-- a write inside the header leaves the blocks alone -/
theorem BlocksAt.header {f : Bytes} {k : ℕ} {b : ℕ → UInt8} (h : BlocksAt A key f k b) {hd : Bytes}
    (hhd : hd.length = 52) : BlocksAt A key (pwrite f 0 hd) k b := by
  have hle : ∀ j, 0 + hd.length ≤ blockPhysOffset j := fun j => by rw [hhd, blockPhysOffset_eq]; omega
  refine ⟨?_, fun j hj => ?_⟩
  · rw [length_pwrite, h.length, max_eq_left (hle k)]
  · rw [slice_pwrite_after (hle j)]
    exact h.opens j hj

theorem BlocksAt.truncate {f : Bytes} {k : ℕ} {b : ℕ → UInt8} (h : BlocksAt A key f k b) {k' : ℕ} (hk : k' ≤ k) :
    BlocksAt A key (Y2q.setLen f (blockPhysOffset k')) k' b := by
  refine ⟨length_setLen _ _, fun j hj => ?_⟩
  have hle : blockPhysOffset (j + 1) ≤ blockPhysOffset k' := blockPhysOffset_mono hj
  rw [slice_setLen hle (hle.trans (by rw [h.length]; exact blockPhysOffset_mono hk))]
  exact h.opens j (by omega)

/-- only the plaintext of the blocks present matters -/
theorem BlocksAt.congr {f : Bytes} {k : ℕ} {b b' : ℕ → UInt8} (h : BlocksAt A key f k b)
    (hb : ∀ j < k, span b (j * 4096) 4096 = span b' (j * 4096) 4096) : BlocksAt A key f k b' :=
  ⟨h.length, fun j hj => hb j hj ▸ h.opens j hj⟩

/-! ## What the backend stands for -/

/-- the backend holds the plaintext `b`; past the blocks present `b` is zero. Zero blocks up to `g` may be on disk without
    being counted yet -/
structure Sound (A : Aead Bytes) (key : Bytes) (b : ℕ → UInt8) (g : ℕ) (s : Backend) : Prop where
  present : ∃ k, s.inner.physLen = blockPhysOffset k ∧ BlocksAt A key s.file.bytes (max k g) b ∧
    ∀ i, k * 4096 ≤ i → b i = 0

/-- the header on disk says what the backend knows -/
structure Persisted (A : Aead Bytes) (key : Bytes) (s : Backend) : Prop where
  magic : s.file.bytes.take 8 = MAGIC
  header : readHeader A key s.file.bytes = .ok ⟨s.inner.logicalLen, s.inner.epoch, false, false⟩

/-- a call in progress: plaintext `b`, logical length `L`, at most `n` epochs used; `H` if the header is kept up to date -/
structure Holds (A : Aead Bytes) (key : Bytes) (H : Prop) (b : ℕ → UInt8) (g L n : ℕ) (s : Backend) : Prop
    extends Sound A key b g s where
  logical : s.inner.logicalLen = L
  epochs : s.inner.epoch ≤ n
  bounded : s.inner.epoch ≤ MAX_U48
  persisted : H → Persisted A key s

/-- no call fails but for a length or an epoch that does not fit 48 bits -/
def Fails (L n : ℕ) : IoError → Backend → Prop := fun _ _ => MAX_U48 < L ∨ MAX_U48 ≤ n

theorem span_zeroBlock {b : ℕ → UInt8} {k : ℕ} (hz : ∀ i, k * 4096 ≤ i → b i = 0) {j : ℕ} (hj : k ≤ j) :
    span b (j * 4096) 4096 = zeroBlock :=
  (span_congr fun i h _ => hz i ((Nat.mul_le_mul_right 4096 hj).trans h)).trans (span_const 0 _ _)

theorem Sound.readBlock {b : ℕ → UInt8} {s : Backend} (h : Sound A key b 0 s) (idx : ℕ) :
    readBlock A key s idx = .ok (span b (idx * 4096) 4096) := by
  obtain ⟨k, hk, hf, hz⟩ := h.present
  rw [Nat.max_zero] at hf
  unfold EncryptedBackend.readBlock
  rw [hk]
  have hs := blockPhysOffset_succ idx
  by_cases hidx : idx < k
  · have hle : blockPhysOffset (idx + 1) ≤ blockPhysOffset k := blockPhysOffset_mono hidx
    obtain ⟨hlen, hopen⟩ := hf.opens idx hidx
    rw [hs] at hopen
    have hbuf : s.file.readExactAt (blockPhysOffset idx) PHYS_BLOCK =
        .ok (slice s.file.bytes (blockPhysOffset idx) (blockPhysOffset idx + 4124)) := by
      rw [File.readExactAt, if_pos (by rw [hf.length]; exact hs ▸ hle)]
      rfl
    rw [if_neg (Nat.not_lt.2 (hs ▸ hle)), hbuf]
    simp only [bind, Except.bind, hopen]
    simp
  · have hle : blockPhysOffset k ≤ blockPhysOffset idx := blockPhysOffset_mono (by omega)
    rw [if_pos (lt_of_le_of_lt hle (Nat.lt_add_of_pos_right (by norm_num))), span_zeroBlock hz (Nat.not_lt.1 hidx)]

section Specs

variable {H : Prop} {b : ℕ → UInt8} {g L n : ℕ} {E : IoError → Backend → Prop}

theorem Holds.weaken {n' : ℕ} {H' : Prop} {s : Backend} (h : Holds A key H b g L n s) (hn : n ≤ n') (hH : H' → H) :
    Holds A key H' b g L n' s :=
  ⟨h.toSound, h.logical, h.epochs.trans hn, h.bounded, fun h' => h.persisted (hH h')⟩

/-! ## The header and the counter -/

/-- a header stays valid while the first 52 bytes and the two numbers in it stay -/
theorem Persisted.keep {s t : Backend} (h : Persisted A key s) (hb : t.file.bytes.take 52 = s.file.bytes.take 52)
    (hl : t.inner.logicalLen = s.inner.logicalLen) (he : t.inner.epoch = s.inner.epoch) : Persisted A key t := by
  refine ⟨?_, ?_⟩
  · have h8 := congrArg (List.take 8) hb
    rw [List.take_take, List.take_take] at h8
    exact h8.trans h.magic
  · rw [hl, he, ← h.header]
    exact readHeader_congr (readHeader_length h.header) hb

theorem headed_persisted (hA : A.Correct) {s : Backend} (hlen : s.inner.logicalLen ≤ MAX_U48)
    (hepoch : s.inner.epoch ≤ MAX_U48) : Persisted A key (s.headed A key false) := by
  refine ⟨?_, ?_⟩
  · rw [headed_bytes hA]; rfl
  · rw [headed_bytes hA, readHeader_append (length_headerBytes hA s false)]
    exact readHeader_headerBytes hA hlen hepoch false

theorem headed_sound (hA : A.Correct) {s : Backend} (h : Sound A key b 0 s) (r : Bool) :
    Sound A key b 0 (s.headed A key r) := by
  obtain ⟨k, hk, hf, hz⟩ := h.present
  refine ⟨k, ?_, hf.header (length_headerBytes hA s r), hz⟩
  change max s.inner.physLen HEADER_PHYS = blockPhysOffset k
  rw [hk]
  exact max_eq_left (Nat.le_add_right 52 _)

theorem writeHeader_holds (hA : A.Correct) :
    Spec (Holds A key H b 0 L n) (writeHeader A key false) (fun _ s => L ≤ MAX_U48 ∧ Holds A key True b 0 L n s)
      (fun _ _ => MAX_U48 < L) (fun _ => True) := by
  apply Spec.of_apply
  intro s hs
  refine ⟨trivial, ?_⟩
  by_cases hL : L ≤ MAX_U48
  · have hl : s.inner.logicalLen ≤ MAX_U48 := hs.logical ▸ hL
    refine ⟨_, _, writeHeader_ok hl false, fun _ _ => trivial, fun _ _ => ⟨hL, ?_⟩, nofun⟩
    exact ⟨headed_sound hA hs.toSound false, hs.logical, hs.epochs, hs.bounded, fun _ => headed_persisted hA hl hs.bounded⟩
  · refine ⟨_, _, writeHeader_too_long (by rw [hs.logical]; omega) false, fun _ _ => trivial, nofun,
      fun _ _ => Nat.not_le.1 hL⟩

theorem syncData_holds : Spec (Holds A key H b g L n) syncData (fun _ => Holds A key H b g L n)
    E (fun _ => True) :=
  Spec.modify (fun _ h => ⟨⟨h.present⟩, h.logical, h.epochs, h.bounded, fun hH => ⟨(h.persisted hH).1, (h.persisted hH).2⟩⟩)
    (fun _ _ => trivial) (fun _ _ => trivial)

theorem ensureNonceSpace_holds (hA : A.Correct) :
    Spec (Holds A key H b 0 L n) (ensureNonceSpace A key) (fun _ => Holds A key H b 0 L (n + 1)) (Fails L n)
      (fun _ => True) := by
  apply Spec.of_apply
  intro s hs
  refine ⟨trivial, ?_⟩
  by_cases hq : s.inner.seq < MAX_U48
  · exact ⟨_, _, ensureNonceSpace_pass hq, fun _ _ => trivial, fun _ _ => hs.weaken (Nat.le_succ n) id,
      nofun⟩
  by_cases he : s.inner.epoch + 1 ≤ MAX_U48
  · by_cases hL : s.inner.logicalLen ≤ MAX_U48
    · refine ⟨_, _, ensureNonceSpace_roll hq he hL, fun _ _ => trivial, fun _ _ => ?_, nofun⟩
      have hroll : Sound A key b 0 (s.rolled.headed A key false) := headed_sound (s := s.rolled) hA ⟨hs.present⟩ false
      have hpers : Persisted A key (s.rolled.headed A key false) := headed_persisted (s := s.rolled) hA hL he
      exact ⟨⟨hroll.present⟩, hs.logical, Nat.succ_le_succ hs.epochs, he, fun _ => ⟨hpers.1, hpers.2⟩⟩
    · refine ⟨_, _, ensureNonceSpace_too_long hq he (Nat.not_le.1 hL), fun _ _ => trivial, nofun,
        fun _ _ => Or.inl (hs.logical ▸ Nat.not_le.1 hL)⟩
  · refine ⟨_, _, ensureNonceSpace_exhausted hq he, fun _ _ => trivial, nofun, fun _ _ => Or.inr ?_⟩
    have := hs.epochs
    omega

/-! ## Writing blocks -/

theorem opens_blockBytes (hA : A.Correct) (s : Backend) (idx : ℕ) {plain : Bytes} (hlen : plain.length = 4096) :
    Opens A key idx (s.blockBytes A key idx plain) plain := by
  refine ⟨by simp [Backend.blockBytes, hA.length_encrypt, hlen], ?_⟩
  rw [Backend.blockBytes, List.take_left' (length_nonce s), List.drop_left' (length_nonce s)]
  exact hA.decrypt_encrypt _ _ _ _

theorem nextMissing_eq {i : Inner} {k : ℕ} (h : i.physLen = blockPhysOffset k) : nextMissing i = k := by
  have hb : PHYS_BLOCK = 4124 := rfl
  have hh : HEADER_PHYS = 52 := rfl
  rw [nextMissing, h, blockPhysOffset_eq, hb, hh]
  split_ifs with h0 <;> omega

/-- the batch of zero blocks, sealed one after another behind the end of the file `f` -/
theorem gapBatch_holds (hA : A.Correct) {P : Backend → Prop} (hP : ∀ s, P s → P s.sealed) (f : Bytes) (m : ℕ) :
    ∀ (k : ℕ) (batch : Bytes), BlocksAt A key (f ++ batch) k b → (∀ j, k ≤ j → span b (j * 4096) 4096 = zeroBlock) →
      Spec P ((List.range' k m).foldlM (fun batch gap => do
        let sealed ← sealBlock A key gap zeroBlock
        pure (batch ++ sealed)) batch)
        (fun batch' s => P s ∧ BlocksAt A key (f ++ batch') (k + m) b) E (fun _ => True) := by
  induction m with
  | zero =>
    intro k batch hb _
    exact Spec.pure batch (fun s hs => ⟨hs, hb⟩) (fun _ _ => trivial)
  | succ m ih =>
    intro k batch hb hz
    rw [List.range'_succ, List.foldlM_cons]
    refine Spec.bind (R := fun batch' s => P s ∧ BlocksAt A key (f ++ batch') (k + 1) b) ?_ fun batch' => ?_
    · apply Spec.of_apply
      intro s hs
      refine ⟨trivial, _, _, Prog.bind_apply_ok (sealNext_apply _ _ s), fun _ _ => trivial, fun a ha => ?_, nofun⟩
      cases ha
      have hput := @BlocksAt.put _ _ _ _ _ hb _ (Nat.le_refl k) _ zeroBlock (opens_blockBytes hA s k (by simp [zeroBlock]))
        (by simp [zeroBlock])
      rw [pwrite_end (Nat.le_of_eq hb.length), ← hb.length, setLen_self, List.append_assoc, max_eq_right (Nat.le_succ k)]
        at hput
      refine ⟨hP s hs, hput.congr fun j _ => ?_⟩
      rw [← hz k (Nat.le_refl k), overwrite_span fun _ _ => rfl]
    · intro s hs
      have := ih (k + 1) batch' hs.2 (fun j hj => hz j (by omega)) s hs.1
      rwa [show k + (m + 1) = k + 1 + m by omega]

theorem Holds.sealed {s : Backend} (h : Holds A key H b g L n s) : Holds A key H b g L n s.sealed :=
  ⟨⟨h.present⟩, h.logical, h.epochs, h.bounded, fun hH => ⟨(h.persisted hH).1, (h.persisted hH).2⟩⟩

theorem fillGap_holds (hA : A.Correct) (idx : ℕ) :
    Spec (Holds A key H b 0 L n) (fillGap A key idx) (fun _ => Holds A key H b idx L n) E (fun _ => True) := by
  refine Spec.get_bind fun s hs => ?_
  obtain ⟨k, hk, hf, hz⟩ := hs.present
  rw [Nat.max_zero] at hf
  rw [nextMissing_eq hk]
  split_ifs with hlt
  · -- the batch is built over the same file, then appended to it in one write
    refine Spec.bind ((gapBatch_holds hA (P := fun u => u.file = s.file ∧ u.inner.physLen = blockPhysOffset k ∧
      Holds A key H b 0 L n u) (fun u hu => ⟨hu.1, hu.2.1, hu.2.2.sealed⟩) s.file.bytes (idx - k) k []
      (by rwa [List.append_nil]) fun _ => span_zeroBlock hz).conseq ?_ (fun _ _ h => h) (fun _ _ h => h) (fun _ h => h)) fun batch =>
      Spec.modify ?_ (fun _ _ => trivial) (fun _ _ => trivial)
    · rintro u rfl
      exact ⟨rfl, hk, hs⟩
    · rintro u ⟨⟨hu, hk', hs'⟩, hb⟩
      have hbytes : (u.file.writeAllAt batch (blockPhysOffset k)).bytes = s.file.bytes ++ batch := by
        change pwrite u.file.bytes (blockPhysOffset k) batch = _
        rw [hu, ← hf.length, pwrite_end (Nat.le_refl _), setLen_self]
      refine ⟨⟨k, hk', ?_, hz⟩, hs'.logical, hs'.epochs, hs'.bounded, fun hH => ?_⟩
      · rw [hbytes, max_eq_right (Nat.le_of_lt hlt)]
        rwa [Nat.add_sub_cancel' (Nat.le_of_lt hlt)] at hb
      · refine (hs'.persisted hH).keep (take_pwrite (Nat.le_add_right 52 _) ?_) rfl rfl
        rw [hu, hf.length]; exact Nat.le_add_right 52 _
  · refine Spec.pure () ?_ (fun _ _ => trivial)
    rintro u rfl
    exact ⟨⟨k, hk, by rwa [max_eq_left (Nat.not_lt.1 hlt)], hz⟩, hs.logical, hs.epochs, hs.bounded, hs.persisted⟩

theorem storeBlock_holds (hA : A.Correct) (idx : ℕ) {plain : Bytes} (hlen : plain.length = 4096) :
    Spec (Holds A key H b idx L n) (storeBlock A key idx plain)
      (fun _ => Holds A key H (overwrite b (idx * 4096) plain) 0 L n) E (fun _ => True) := by
  apply Spec.of_apply
  intro s hs
  refine ⟨trivial, _, _, storeBlock_apply idx plain s, fun _ _ => trivial, fun _ _ => ?_, nofun⟩
  obtain ⟨k, hk, hf, hz⟩ := hs.present
  have hput := hf.put (Nat.le_max_right k idx) (opens_blockBytes hA s idx hlen) hlen
  refine ⟨⟨max k (idx + 1), ?_, ?_, fun j hj => ?_⟩, hs.logical, hs.epochs, hs.bounded, fun hH => ?_⟩
  · change max s.inner.physLen (blockPhysOffset idx + PHYS_BLOCK) = _
    rw [hk, ← blockPhysOffset_max, blockPhysOffset_succ]
    rfl
  · rw [Nat.max_zero]
    rwa [show max (max k idx) (idx + 1) = max k (idx + 1) by omega] at hput
  · have hk' : k * 4096 ≤ j := (Nat.mul_le_mul_right 4096 (Nat.le_max_left k (idx + 1))).trans hj
    have hidx : (idx + 1) * 4096 ≤ j := (Nat.mul_le_mul_right 4096 (Nat.le_max_right k (idx + 1))).trans hj
    rw [overwrite_of_ge b plain (by rw [hlen, ← Nat.succ_mul]; exact hidx), hz j hk']
  · refine (hs.persisted hH).keep (take_pwrite (Nat.le_add_right 52 _) ?_) rfl rfl
    rw [hf.length]; exact Nat.le_add_right 52 _

theorem writeBlock_holds (hA : A.Correct) (idx : ℕ) {plain : Bytes} (hlen : plain.length = 4096) :
    Spec (Holds A key H b 0 L n) (writeBlock A key idx plain)
      (fun _ => Holds A key H (overwrite b (idx * 4096) plain) 0 L (n + 1)) (Fails L n) (fun _ => True) :=
  Spec.bind (ensureNonceSpace_holds hA) fun _ =>
    Spec.bind (fillGap_holds hA idx) fun _ => storeBlock_holds hA idx hlen

/-! ## Reading and writing bytes -/

theorem block_add (pos : ℕ) : pos / 4096 * 4096 + pos % 4096 = pos := by omega

theorem roundLen_inside (pos left : ℕ) : pos % 4096 + roundLen pos left ≤ 4096 := by
  have : roundLen pos left ≤ 4096 - pos % 4096 := Nat.min_le_left _ _
  omega

theorem readLoop_eq {s : Backend} (h : Sound A key b 0 s) (offset m : ℕ) (out : Bytes) (done : ℕ) :
    readLoop A key s offset m out done = .ok (out ++ span b (offset + done) (m - done)) := by
  fun_induction readLoop A key s offset m out done with
  | case1 out done hlt e he => rw [h.readBlock] at he; cases he
  | case2 out done hlt plain he ih =>
    rw [h.readBlock] at he
    obtain rfl := Except.ok.inj he
    have hle := roundLen_le (offset + done) (m - done)
    rw [ih, slice_span _ _ _ (roundLen_inside _ _), block_add, List.append_assoc, Nat.sub_add_eq, ← Nat.add_assoc,
      ← span_add, Nat.add_sub_cancel' hle]
  | case3 out done hlt => rw [Nat.sub_eq_zero_of_le (Nat.not_lt.1 hlt), span_zero, List.append_nil]

theorem read_eq {s : Backend} (h : Sound A key b 0 s) (offset m : ℕ) : read A key s offset m = .ok (span b offset m) := by
  rw [read, readLoop_eq h, List.nil_append, Nat.add_zero, Nat.sub_zero]

theorem oldBlock_splice {s : Backend} (h : Sound A key b 0 s) {pos : ℕ} {piece : Bytes}
    (hin : pos % 4096 + piece.length ≤ 4096) :
    ∃ plain, oldBlock A key s pos piece.length = .ok plain ∧
      splice plain (pos % 4096) piece = span (overwrite b pos piece) (pos / 4096 * 4096) 4096 := by
  have hspan := span_overwrite_inside b (pos / 4096 * 4096) piece hin
  rw [block_add] at hspan
  unfold oldBlock
  split_ifs with hfull
  · -- a whole block: nothing of the old one is left
    refine ⟨zeroBlock, rfl, ?_⟩
    rw [hspan, hfull.1, hfull.2]
    simp [splice, zeroBlock, hfull.2]
  · exact ⟨_, h.readBlock _, hspan.symm⟩

theorem writeRound_holds (hA : A.Correct) (pos : ℕ) {piece : Bytes} (hin : pos % 4096 + piece.length ≤ 4096) :
    Spec (Holds A key H b 0 L n) (writeRound A key pos piece)
      (fun _ => Holds A key H (overwrite b pos piece) 0 L (n + 1)) (Fails L n) (fun _ => True) := by
  refine Spec.get_bind fun s hs => ?_
  obtain ⟨plain, hold, hsplice⟩ := oldBlock_splice hs.toSound hin
  refine Spec.ofExcept_bind hold ?_
  have hw := @writeBlock_holds A key H b L n hA (pos / 4096) _
    (length_span (overwrite b pos piece) (pos / 4096 * 4096) 4096)
  have hpos := block_add pos
  rw [overwrite_span (c := overwrite b pos piece) fun j hj => hj.elim (fun h => (overwrite_of_lt b piece (by omega)).symm)
    fun h => (overwrite_of_ge b piece (by omega)).symm, ← hsplice] at hw
  exact hw.conseq (fun u hu => hu ▸ hs) (fun _ _ h => h) (fun _ _ h => h) (fun _ h => h)

theorem writeLoop_holds (hA : A.Correct) (offset : ℕ) (data : Bytes) (done : ℕ) (hdone : done ≤ data.length) :
    Spec (Holds A key H (overwrite b offset (data.take done)) 0 L (n + done)) (writeLoop A key offset data done)
      (fun _ => Holds A key H (overwrite b offset data) 0 L (n + data.length)) (Fails L (n + data.length))
      (fun _ => True) := by
  fun_induction writeLoop A key offset data done with
  | case1 done hlt ih =>
    have hpos : 0 < roundLen (offset + done) (data.length - done) := roundLen_pos (by omega)
    have hle := roundLen_le (offset + done) (data.length - done)
    have hin := roundLen_inside (offset + done) (data.length - done)
    generalize hr : roundLen (offset + done) (data.length - done) = r at *
    have hpiece : (slice data done (done + r)).length = r := by rw [length_slice (by omega)]; omega
    have htake : overwrite (overwrite b offset (data.take done)) (offset + done) (slice data done (done + r)) =
        overwrite b offset (data.take (done + r)) := by
      have := overwrite_append b offset (data.take done) (slice data done (done + r))
      rw [List.length_take_of_le hdone] at this
      rw [this, List.take_add, slice, Nat.add_sub_cancel_left]
    have hround := @writeRound_holds A key H (overwrite b offset (data.take done)) L (n + done) hA (offset + done)
      (slice data done (done + r)) (by rw [hpiece]; exact hin)
    rw [htake] at hround
    refine Spec.bind (hround.conseq (fun _ h => h) (fun _ s (h : Holds A key H _ 0 L (n + done + 1) s) =>
      (h.weaken (by omega) id : Holds A key H _ 0 L (n + (done + r)) s)) (fun _ _ h => h.imp_right fun h => ?_) fun _ h => h) fun _ =>
      ih (by omega)
    omega
  | case2 done hlt =>
    obtain rfl := Nat.le_antisymm hdone (Nat.not_lt.1 hlt)
    rw [List.take_length]
    exact Spec.pure () (fun _ h => h) (fun _ _ => trivial)

theorem growTo_holds (hA : A.Correct) (e : ℕ) (hL : L ≤ MAX_U48) :
    Spec (Holds A key True b 0 L n) (growTo A key e) (fun _ s => max L e ≤ MAX_U48 ∧ Holds A key True b 0 (max L e) n s)
      (fun _ _ => MAX_U48 < e) (fun _ => True) := by
  refine Spec.get_bind fun s hs => ?_
  rw [hs.logical]
  split_ifs with hlt
  · rw [max_eq_right (Nat.le_of_lt hlt)]
    refine Spec.bind (R := fun _ => Holds A key False b 0 e n) (Spec.modify ?_ (fun _ _ => trivial) (fun _ _ => trivial))
      fun _ => writeHeader_holds hA
    rintro u rfl
    exact ⟨⟨hs.present⟩, rfl, hs.epochs, hs.bounded, False.elim⟩
  · rw [max_eq_left (Nat.not_lt.1 hlt)]
    refine Spec.pure () ?_ (fun _ _ => trivial)
    rintro u rfl
    exact ⟨hL, hs⟩

/-- `write` is a write of the plain file -/
theorem write_holds (hA : A.Correct) (offset : ℕ) (data : Bytes) (hL : L ≤ MAX_U48) :
    Spec (Holds A key True b 0 L n) (write A key offset data)
      (fun _ s => max L (offset + data.length) ≤ MAX_U48 ∧
        Holds A key True (overwrite b offset data) 0 (max L (offset + data.length)) (n + data.length) s)
      (Fails (offset + data.length) (n + data.length)) (fun _ => True) := by
  have hloop := @writeLoop_holds A key True b L n hA offset data 0 (Nat.zero_le _)
  rw [List.take_zero, overwrite_nil, Nat.add_zero] at hloop
  refine Spec.bind (hloop.conseq (fun _ h => h) (fun _ _ h => h) (fun _ _ h => ?_) fun _ h => h) fun _ =>
    (growTo_holds hA _ hL).conseq (fun _ h => h) (fun _ _ h => h) (fun _ _ h => Or.inl h) fun _ h => h
  exact h.imp_left fun h => absurd hL (Nat.not_le.2 h)

/-! ## Changing the length -/

theorem truncatePhys_holds (m : ℕ) :
    Spec (Holds A key False b 0 L n) (truncatePhys m)
      (fun _ => Holds A key False (cutTo 0 b ((m + 4095) / 4096 * 4096)) 0 L n) E (fun _ => True) := by
  refine Spec.get_bind fun s hs => ?_
  obtain ⟨k, hk, hf, hz⟩ := hs.present
  rw [Nat.max_zero] at hf
  have hneed : neededPhys m = blockPhysOffset ((m + 4095) / 4096) := rfl
  generalize (m + 4095) / 4096 = N at *
  rw [hk, hneed]
  split_ifs with hlt
  · have hN : N ≤ k := by
      by_contra h
      exact absurd (blockPhysOffset_mono (Nat.le_of_not_le h)) (Nat.not_le.2 hlt)
    refine Spec.modify ?_ (fun _ _ => trivial) (fun _ _ => trivial)
    rintro u rfl
    refine ⟨⟨N, rfl, ?_, fun i hi => if_neg (Nat.not_lt.2 hi)⟩, hs.logical, hs.epochs, hs.bounded, False.elim⟩
    rw [Nat.max_zero]
    refine (hf.truncate hN).congr fun j hj => (span_cutTo_before 0 b ?_).symm
    omega
  · have hN : k ≤ N := by
      by_contra h
      have := blockPhysOffset_mono (Nat.succ_le_of_lt (Nat.not_le.1 h))
      rw [blockPhysOffset_succ] at this
      omega
    rw [cutTo_of_zero fun i hi => hz i ((Nat.mul_le_mul_right 4096 hN).trans hi)]
    refine Spec.pure () ?_ (fun _ _ => trivial)
    rintro u rfl
    exact hs

theorem roundUp_eq {m : ℕ} (h : m % 4096 = 0) : (m + 4095) / 4096 * 4096 = m := by omega

theorem roundUp_le (m : ℕ) : (m + 4095) / 4096 * 4096 ≤ m / 4096 * 4096 + 4096 := by omega

theorem zeroTail_holds (hA : A.Correct) (m : ℕ) (hcut : ∀ i, (m + 4095) / 4096 * 4096 ≤ i → b i = 0) :
    Spec (Holds A key False b 0 L n) (zeroTail A key m) (fun _ => Holds A key False (cutTo 0 b m) 0 L (n + 1)) (Fails L n)
      (fun _ => True) := by
  refine Spec.get_bind fun s hs => ?_
  split_ifs with htail
  · refine Spec.ofExcept_bind (hs.readBlock _) ?_
    have hw := @writeBlock_holds A key False b L n hA (m / 4096) _
      (length_span (cutTo 0 b m) (m / 4096 * 4096) 4096)
    have hm := block_add m
    rw [overwrite_span (c := cutTo 0 b m) fun j hj => ?_] at hw
    · have hinside := span_cutTo_inside 0 b (m / 4096 * 4096) (Nat.le_of_lt (Nat.mod_lt m (show 0 < 4096 by norm_num)))
      rw [hm] at hinside
      rw [hinside] at hw
      exact hw.conseq (fun u hu => hu ▸ hs) (fun _ _ h => h) (fun _ _ h => h) (fun _ h => h)
    · rcases hj with hj | hj
      · exact (if_pos (by omega)).symm
      · exact (hcut j ((roundUp_le m).trans hj)).trans (if_neg (by omega)).symm
  · -- nothing of the block with the new end is on disk, or the end is a block's end
    obtain ⟨k, hk, hf, hz⟩ := hs.present
    rw [cutTo_of_zero fun i hi => ?_]
    · refine Spec.pure () ?_ (fun _ _ => trivial)
      rintro u rfl
      exact hs.weaken (Nat.le_succ n) id
    · rcases Nat.eq_zero_or_pos (m % 4096) with hrem | hrem
      · exact hcut i ((roundUp_eq hrem).trans_le hi)
      · refine hz i ?_
        have : s.inner.physLen < blockPhysOffset (m / 4096 + 1) := by
          by_contra h
          exact htail ⟨Nat.pos_iff_ne_zero.1 hrem, Nat.not_lt.1 h⟩
        rw [hk, blockPhysOffset_eq, blockPhysOffset_eq] at this
        omega

/-- `set_len` cuts or extends the plain file -/
theorem setLen_holds (hA : A.Correct) (m : ℕ) :
    Spec (Holds A key True b 0 L n) (setLen A key m)
      (fun _ s => m ≤ MAX_U48 ∧ Holds A key True (cutTo 0 b m) 0 m (n + 1) s) (Fails m n) (fun _ => True) := by
  refine Spec.bind (R := fun _ => Holds A key False b 0 m n) (Spec.modify ?_ (fun _ _ => trivial) (fun _ _ => trivial))
    fun _ => Spec.bind (truncatePhys_holds m) fun _ =>
      Spec.bind (zeroTail_holds hA m fun i hi => if_neg (Nat.not_lt.2 hi)) fun _ => ?_
  · rintro u hu
    exact ⟨⟨hu.present⟩, rfl, hu.epochs, hu.bounded, False.elim⟩
  · rw [cutTo_cutTo 0 b (by omega)]
    exact (writeHeader_holds hA).conseq (fun _ h => h) (fun _ _ h => h) (fun _ _ h => Or.inl h) (fun _ h => h)

/-! ## Opening -/

/-- what an open finds: whole blocks, or nothing yet -/
structure Found (A : Aead Bytes) (key : Bytes) (b : ℕ → UInt8) (s : Backend) : Prop where
  blocks : ∃ k, (BlocksAt A key s.file.bytes k b ∨ s.file.bytes = [] ∧ k = 0) ∧ ∀ i, k * 4096 ≤ i → b i = 0

/-- the first header of an open counts the blocks found -/
theorem Found.headed (hA : A.Correct) {s : Backend} (h : Found A key b s) (hphys : s.inner.physLen = s.file.bytes.length) :
    Sound A key b 0 (s.headed A key false) := by
  obtain ⟨k, hf | ⟨hf, rfl⟩, hz⟩ := h.blocks
  · exact headed_sound hA ⟨k, hphys.trans hf.length, by rwa [Nat.max_zero], hz⟩ false
  · refine ⟨0, ?_, ⟨?_, nofun⟩, hz⟩
    · change max s.inner.physLen HEADER_PHYS = 52
      rw [hphys, hf]
      rfl
    · rw [headed_bytes hA, hf, List.length_append, length_headerBytes hA]
      rfl

theorem reserveEpoch_holds (hA : A.Correct) {e : ℕ} (he : e ≤ n) (hL : L ≤ MAX_U48) :
    Spec (Found A key b) (reserveEpoch A key ⟨L, e, false, false⟩) (fun _ => Holds A key True b 0 L (n + 1)) (Fails L n)
      (fun _ => True) := by
  unfold reserveEpoch
  simp only [Bool.or_self, Bool.false_eq_true, if_false]
  split_ifs with hmax
  · refine Spec.bind (R := fun _ s => Found A key b s ∧ s.inner = ⟨L, s.file.bytes.length, e + 1, 0⟩)
      (Spec.modify (fun s hs => ⟨⟨hs.blocks⟩, rfl⟩) (fun _ _ => trivial) (fun _ _ => trivial)) fun _ =>
      Spec.bind (R := fun _ => Holds A key True b 0 L (n + 1)) ?_ fun _ =>
        Spec.bind syncData_holds fun _ => Spec.pure () (fun _ h => h) (fun _ _ => trivial)
    apply Spec.of_apply
    rintro s ⟨hs, hi⟩
    have hl : s.inner.logicalLen ≤ MAX_U48 := by rw [hi]; exact hL
    have he' : s.inner.epoch ≤ MAX_U48 := by rw [hi]; exact hmax
    refine ⟨trivial, _, _, writeHeader_ok hl false, fun _ _ => trivial, fun _ _ => ?_, nofun⟩
    refine ⟨hs.headed hA (by rw [hi]), ?_, ?_, he', fun _ => headed_persisted hA hl he'⟩
    · change s.inner.logicalLen = L
      rw [hi]
    · change s.inner.epoch ≤ n + 1
      rw [hi]
      exact Nat.succ_le_succ he
  · exact Spec.throw (fun _ _ => Or.inr (by omega)) (fun _ _ => trivial)

/-- opening a new file -/
theorem openFile_fresh (hA : A.Correct) (onForeign : ForeignFile) :
    Spec (fun s => s.file.bytes = []) (openFile A key onForeign) (fun _ => Holds A key True (fun _ => 0) 0 0 1) (Fails 0 0)
      (fun _ => True) := by
  refine Spec.bind (R := fun stored s => stored = StoredHeader.fresh ∧ s.file.bytes = []) ?_ fun stored => ?_
  · apply Spec.of_apply
    intro s hs
    refine ⟨trivial, [], .ok StoredHeader.fresh, ?_, nofun, ?_, nofun⟩
    · rw [readStored, Prog.get_bind_apply, hs]
      rfl
    · rintro _ ⟨⟩
      exact ⟨rfl, hs⟩
  · rintro s ⟨rfl, hs⟩
    exact reserveEpoch_holds hA (Nat.le_refl 0) (Nat.zero_le _) s ⟨0, Or.inr ⟨hs, rfl⟩, fun _ _ => rfl⟩

/-- reopening a file that was closed in order -/
theorem openFile_holds (hA : A.Correct) (onForeign : ForeignFile) (hL : L ≤ MAX_U48) :
    Spec (fun s => ∃ t, s.file = t.file ∧ Holds A key True b 0 L n t) (openFile A key onForeign)
      (fun _ => Holds A key True b 0 L (n + 1)) (Fails L n) (fun _ => True) := by
  refine Spec.bind (R := fun stored s => ∃ e ≤ n, stored = ⟨L, e, false, false⟩ ∧ Found A key b s) ?_ fun stored => ?_
  · apply Spec.of_apply
    rintro s ⟨t, hst, ht⟩
    have hlen : 52 ≤ t.file.bytes.length := readHeader_length (ht.persisted trivial).header
    refine ⟨trivial, [], .ok ⟨L, t.inner.epoch, false, false⟩, ?_, nofun, ?_, nofun⟩
    · rw [readStored, Prog.get_bind_apply, hst, if_neg (by omega), if_pos ⟨by omega, (ht.persisted trivial).magic⟩,
        (ht.persisted trivial).header, ht.logical]
      rfl
    · rintro _ ⟨⟩
      obtain ⟨k, hk, hf, hz⟩ := ht.present
      rw [Nat.max_zero] at hf
      exact ⟨t.inner.epoch, ht.epochs, rfl, ⟨k, Or.inl (by rw [List.getLastD_nil, hst]; exact hf), hz⟩⟩
  · rintro s ⟨e, he, rfl, hs⟩
    exact reserveEpoch_holds hA he hL s hs

end Specs

/-! ## Whole runs -/

/-- the plain file: what a call does to it -/
def reference (f : Bytes) : Call → Bytes
  | .openFile _ => f
  | .write offset data => pwrite f offset data
  | .setLen n => Y2q.setLen f n
  | .syncData => f

/-- the epochs a call may use up -/
def Call.epochs : Call → ℕ
  | .openFile _ => 1
  | .write _ data => data.length
  | .setLen _ => 1
  | .syncData => 0

/-- offsets and lengths below 2^48 -/
def Call.Fits : Call → Prop
  | .write offset data => offset + data.length < 2 ^ 48
  | .setLen n => n < 2 ^ 48
  | _ => True

/-- the machine has the file open and stands for the plain file `f`, after at most `n` epochs -/
structure Refines (A : Aead Bytes) (key : Bytes) (m : Machine) (f : Bytes) (n : ℕ) : Prop where
  live : ∃ i, m.inner = some i ∧ Holds A key True (padded 0 f) 0 f.length n ⟨m.file, i, m.seals⟩
  length : f.length ≤ MAX_U48

/-- from a call's triple to the machine's step -/
theorem exec_of_spec {m : Machine} {c : Call} {s : Backend} {f' : Bytes} {n n' : ℕ} (henter : m.enter c = some s)
    {P : Backend → Prop} (hs : P s)
    (h : Spec P (c.prog A key) (fun _ t => f'.length ≤ MAX_U48 ∧ Holds A key True (padded 0 f') 0 f'.length n' t)
      (fun _ _ => ¬ c.Fits ∨ MAX_U48 ≤ n) (fun _ => True)) :
    (∀ m', m.exec A key c = .ok m' → Refines A key m' f' n') ∧
      ∀ e, m.exec A key c = .error e → ¬ c.Fits ∨ MAX_U48 ≤ n := by
  obtain ⟨-, hok, herr⟩ := h s hs
  cases hr : (c.prog A key).result s with
  | error e =>
    have hexec : m.exec A key c = .error e := by simp only [Machine.exec, henter, hr]
    rw [hexec]
    exact ⟨nofun, fun _ _ => herr e hr⟩
  | ok a =>
    have hexec : m.exec A key c = .ok (Machine.leave ((c.prog A key).final s) c (.ok ())) := by
      simp only [Machine.exec, henter, hr]
    rw [hexec]
    refine ⟨fun m' hm => ?_, nofun⟩
    obtain ⟨hlen, hh⟩ := hok a hr
    obtain rfl := Except.ok.inj hm
    refine ⟨⟨((c.prog A key).final s).inner, ?_, ?_⟩, hlen⟩
    · cases c <;> rfl
    · cases c <;> exact hh

theorem exec_refines (hA : A.Correct) {m : Machine} {f : Bytes} {n : ℕ} (h : Refines A key m f n) (c : Call) :
    (∀ m', m.exec A key c = .ok m' → Refines A key m' (reference f c) (n + c.epochs)) ∧
      ∀ e, m.exec A key c = .error e → ¬ c.Fits ∨ MAX_U48 ≤ n + c.epochs := by
  obtain ⟨i, hi, hh⟩ := h.live
  have henter : m.backend = some ⟨m.file, i, m.seals⟩ := by rw [Machine.backend, hi]; rfl
  cases c with
  | openFile onForeign =>
    refine exec_of_spec (c := .openFile onForeign) rfl ⟨⟨m.file, i, m.seals⟩, rfl, hh⟩ ((openFile_holds hA onForeign h.length).conseq
      (fun _ h => h) (fun _ _ h' => ⟨h.length, h'⟩) (fun _ _ h' => Or.inr ?_) fun _ h => h)
    exact h'.elim (fun h' => absurd h.length (Nat.not_le.2 h')) (fun h' => Nat.le_add_right_of_le h')
  | write offset data =>
    refine exec_of_spec (c := .write offset data) henter hh ((write_holds hA offset data h.length).conseq
      (fun _ h => h) (fun _ _ h' => ?_) (fun _ _ h' => h'.imp_left fun h' => ?_) fun _ h => h)
    · rw [reference, length_pwrite, padded_pwrite]
      exact h'
    · exact Nat.not_lt.2 (Nat.succ_le_of_lt h')
  | setLen k =>
    refine exec_of_spec (c := .setLen k) henter hh ((setLen_holds hA k).conseq
      (fun _ h => h) (fun _ _ h' => ?_) (fun _ _ h' => h'.imp (fun h' => ?_) fun h' => Nat.le_add_right_of_le h') fun _ h => h)
    · rw [reference, length_setLen, padded_setLen]
      exact h'
    · exact Nat.not_lt.2 (Nat.succ_le_of_lt h')
  | syncData =>
    exact exec_of_spec (c := .syncData) henter hh ((syncData_holds (E := fun _ _ => _)).conseq (fun _ h => h)
      (fun _ _ h' => ⟨h.length, h'⟩) (fun _ _ h' => h') fun _ h => h)

theorem exec_fresh (hA : A.Correct) (onForeign : ForeignFile) :
    ∃ m, (Machine.found []).exec A key (.openFile onForeign) = .ok m ∧ Refines A key m [] 1 := by
  have hzero : padded (0 : UInt8) [] = fun _ => 0 := rfl
  have hopen := @exec_of_spec A key (Machine.found []) (.openFile onForeign) _ [] 0 1 rfl
    (fun s => s.file.bytes = []) rfl ((openFile_fresh hA onForeign).conseq (fun _ h => h)
      (fun _ _ h => ⟨Nat.zero_le _, hzero ▸ h⟩) (fun _ _ h => Or.inr (h.resolve_left (Nat.not_lt_zero _))) fun _ h => h)
  cases hr : (Machine.found []).exec A key (.openFile onForeign) with
  | ok m => exact ⟨m, rfl, hopen.1 m hr⟩
  | error e => exact absurd (hopen.2 e hr) (by simp [Call.Fits])

/-- every call keeps the refinement, and only 48 bits running out makes one fail -/
theorem calls_refine (hA : A.Correct) (calls : List Call) : ∀ {m : Machine} {f : Bytes} {n : ℕ}, Refines A key m f n →
    (∀ m', calls.foldlM (Machine.exec A key) m = .ok m' →
      Refines A key m' (calls.foldl reference f) (n + (calls.map Call.epochs).sum)) ∧
    ((∀ c ∈ calls, c.Fits) → n + (calls.map Call.epochs).sum < MAX_U48 →
      ∃ m', calls.foldlM (Machine.exec A key) m = .ok m') := by
  induction calls with
  | nil =>
    intro m f n h
    refine ⟨fun m' hm => ?_, fun _ _ => ⟨m, rfl⟩⟩
    obtain rfl := Except.ok.inj hm
    exact h
  | cons c calls ih =>
    intro m f n h
    obtain ⟨hok, herr⟩ := exec_refines hA h c
    rw [List.foldlM_cons, List.map_cons, List.sum_cons, ← Nat.add_assoc]
    cases hc : m.exec A key c with
    | error e =>
      refine ⟨nofun, fun hfits hn => ?_⟩
      rcases herr e hc with hf | hf
      · exact absurd (hfits c List.mem_cons_self) hf
      · omega
    | ok m₁ =>
      obtain ⟨ih1, ih2⟩ := ih (hok m₁ hc)
      exact ⟨ih1, fun hfits => ih2 fun c' hc' => hfits c' (List.mem_cons_of_mem c hc')⟩

/-- **The backend is a plain growable file.** After any sequence of calls on a new file, reopens included, the length is
    the plain file's and every range inside it reads as the plain file's bytes; and with offsets and lengths below 2^48, the
    sequence goes through as long as the epochs last (one per open and `set_len` and one per byte written are enough). -/
theorem refines_plain_file (hA : A.Correct) (onForeign : ForeignFile) (calls : List Call) :
    (∀ m, (Call.openFile onForeign :: calls).foldlM (Machine.exec A key) (Machine.found []) = .ok m →
      ∃ s, m.backend = some s ∧ len s = (calls.foldl reference []).length ∧
        ∀ offset n, offset + n ≤ (calls.foldl reference []).length →
          read A key s offset n = .ok (slice (calls.foldl reference []) offset (offset + n))) ∧
    ((∀ c ∈ calls, c.Fits) → 1 + (calls.map Call.epochs).sum < MAX_U48 →
      ∃ m, (Call.openFile onForeign :: calls).foldlM (Machine.exec A key) (Machine.found []) = .ok m) := by
  obtain ⟨m₀, h0, hm₀⟩ := @exec_fresh A key hA onForeign
  obtain ⟨h1, h2⟩ := calls_refine hA calls hm₀
  rw [List.foldlM_cons, h0]
  refine ⟨fun m hm => ?_, h2⟩
  obtain ⟨i, hi, hh⟩ := (h1 m hm).live
  refine ⟨⟨m.file, i, m.seals⟩, ?_, hh.logical, fun offset n hn => ?_⟩
  · rw [Machine.backend, hi]
    rfl
  · rw [read_eq hh.toSound, span_padded _ hn]

/-- a shrink and a grow in between read as zeros, also after a reopen -/
theorem refines_plain_file_shrink_grow :
    ∃ m s, [Call.openFile .Reject, .write 1 [7, 8, 9], .setLen 2, .setLen 4, .openFile .Reject].foldlM
        (Machine.exec Aead.tagged [1]) (Machine.found []) = .ok m ∧ m.backend = some s ∧ len s = 4 ∧
      read Aead.tagged [1] s 0 4 = .ok [0, 7, 0, 0] := by
  obtain ⟨h1, h2⟩ := @refines_plain_file _ [1] Aead.tagged_correct .Reject
    [.write 1 [7, 8, 9], .setLen 2, .setLen 4, .openFile .Reject]
  obtain ⟨m, hm⟩ := h2 (by simp [Call.Fits]) (by decide)
  obtain ⟨s, hs, hlen, hread⟩ := h1 m hm
  exact ⟨m, s, hm, hs, hlen, hread 0 4 (by decide)⟩

end Y2q.EncryptedBackend
