/-
Blocks beside a torn one (`storage/encrypted_backend.rs`).

An append that was cut short leaves a last block that is on disk in part only. `read_block` takes it for absent and gives zeros;
`write_block` rounds the length up and takes it for present, so neither the gap fill nor a later block repairs it, and once the file has
grown past it, what is read there is the torn bytes.

- `Put`, `writeBlock_put`: a block written; every other block reads as before, unless a block before it is torn (`Clear`).
- `write_sees`: so with a write that does not begin behind the torn block (`SkipsTorn`), whether it succeeds or not.
- `writes_keep`: from every file that opens, through any number of such writes, a block none of them goes to reads as it did.
Witness `append_poisons`: with one byte of block 0 on disk, a write to block 1 makes block 0 unreadable.
-/
import Mathlib.Tactic
import Y2q.Core.Run
import Y2q.Storage.LegacyReseal

namespace Y2q.EncryptedBackend

open Y2q CrashLogic Run

variable {A : Aead Bytes} {key : Bytes}

/-! ## Torn blocks -/

/-- the file ends within a block -/
def Torn (i : Inner) : Prop := (i.physLen - HEADER_PHYS) % PHYS_BLOCK ≠ 0

/-- that block -/
def tornBlock (i : Inner) : ℕ := (i.physLen - HEADER_PHYS) / PHYS_BLOCK

/-- the length under the lock is the file's, and the header is there -/
structure Measured (s : Backend) : Prop where
  phys : s.inner.physLen = s.file.bytes.length
  header : HEADER_PHYS ≤ s.file.bytes.length

/-! ## What a block reads -/

theorem readBlock_absent {s : Backend} {j : ℕ} (h : s.inner.physLen < blockPhysOffset (j + 1)) : readBlock A key s j = .ok zeroBlock := by
  rw [blockPhysOffset_succ] at h
  rw [readBlock, if_pos (show s.inner.physLen < blockPhysOffset j + PHYS_BLOCK from h)]

theorem readBlock_present {s : Backend} (hs : Measured s) {j : ℕ} (h : blockPhysOffset (j + 1) ≤ s.inner.physLen) :
    readBlock A key s j =
      match A.decrypt key ((blockAt s.file.bytes j).take NONCE_LEN) (beBytes 8 j) ((blockAt s.file.bytes j).drop NONCE_LEN) with
      | none => .error (.invalidData "index block decrypt/auth")
      | some plain => if plain.length ≠ BLOCK_SIZE then .error (.invalidData "index block wrong plaintext length") else .ok plain := by
  rw [blockPhysOffset_succ] at h
  have hbuf : s.file.readExactAt (blockPhysOffset j) PHYS_BLOCK = .ok (blockAt s.file.bytes j) := by
    rw [File.readExactAt, if_pos (hs.phys ▸ h), blockAt, blockPhysOffset_succ]
    rfl
  rw [readBlock, if_neg (show ¬s.inner.physLen < blockPhysOffset j + PHYS_BLOCK from Nat.not_lt.2 h), hbuf]
  rfl

/-- the same bytes read the same -/
theorem readBlock_same {s t : Backend} (hs : Measured s) (ht : Measured t) {j : ℕ} (h : blockPhysOffset (j + 1) ≤ s.inner.physLen)
    (h' : blockPhysOffset (j + 1) ≤ t.inner.physLen) (hbytes : blockAt t.file.bytes j = blockAt s.file.bytes j) :
    readBlock A key t j = readBlock A key s j := by
  rw [readBlock_present hs h, readBlock_present ht h', hbytes]

theorem readBlock_opens {s : Backend} (hs : Measured s) {j : ℕ} {plain : Bytes} (h : blockPhysOffset (j + 1) ≤ s.inner.physLen)
    (hopens : Opens A key j (blockAt s.file.bytes j) plain) (hlen : plain.length = 4096) : readBlock A key s j = .ok plain := by
  rw [readBlock_present hs h, hopens.2]
  exact if_neg (not_not.2 hlen)

/-! ## Writing a block -/

/-- `t` differs from `s` in the header alone -/
structure Beside (s t : Backend) : Prop where
  phys : t.inner.physLen = s.inner.physLen
  length : t.file.bytes.length = s.file.bytes.length
  blocks : ∀ j, blockAt t.file.bytes j = blockAt s.file.bytes j

namespace Beside

theorem refl (s : Backend) : Beside s s := ⟨rfl, rfl, fun _ => rfl⟩

theorem measured {s t : Backend} (h : Beside s t) (hs : Measured s) : Measured t :=
  ⟨by rw [h.phys, hs.phys, h.length], by rw [h.length]; exact hs.header⟩

theorem reads {s t : Backend} (h : Beside s t) (hs : Measured s) (j : ℕ) : readBlock A key t j = readBlock A key s j := by
  rcases Nat.lt_or_ge s.inner.physLen (blockPhysOffset (j + 1)) with hlt | hge
  · rw [readBlock_absent hlt, readBlock_absent (h.phys ▸ hlt)]
  · exact readBlock_same hs (h.measured hs) hge (h.phys ▸ hge) (h.blocks j)

theorem headed (hA : A.Correct) {s : Backend} (hs : Measured s) (r : Bool) : Beside s (s.headed A key r) := by
  have hhd : (s.headerBytes A key r).length = 52 := length_headerBytes hA s r
  refine ⟨max_eq_left (hs.phys ▸ hs.header), ?_, fun j => blockAt_header hhd j⟩
  change (pwrite s.file.bytes 0 (s.headerBytes A key r)).length = _
  rw [length_pwrite, hhd]
  exact max_eq_left hs.header

end Beside

theorem writeHeader_beside (hA : A.Correct) {s : Backend} (hs : Measured s) (r : Bool) :
    Spec (Beside s) (writeHeader A key r) (fun _ => Beside s) (fun _ => Beside s) (fun _ => True) := by
  apply Spec.of_apply
  intro u hu
  refine ⟨trivial, ?_⟩
  by_cases hl : u.inner.logicalLen ≤ MAX_U48
  · refine ⟨_, _, writeHeader_ok hl r, fun _ _ => trivial, fun _ _ => ?_, nofun⟩
    have hhead : Beside u (u.headed A key r) := Beside.headed hA (hu.measured hs) r
    exact ⟨hhead.phys.trans hu.phys, hhead.length.trans hu.length, fun j => (hhead.blocks j).trans (hu.blocks j)⟩
  · exact ⟨_, _, writeHeader_too_long (Nat.not_le.1 hl) r, fun _ _ => trivial, nofun, fun _ _ => hu⟩

theorem syncData_beside {s : Backend} {E : IoError → Backend → Prop} :
    Spec (Beside s) syncData (fun _ => Beside s) E (fun _ => True) :=
  Spec.modify (fun _ h => ⟨h.phys, h.length, h.blocks⟩) (fun _ _ => trivial) (fun _ _ => trivial)

theorem ensureNonceSpace_beside (hA : A.Correct) {s : Backend} (hs : Measured s) :
    Spec (Beside s) (ensureNonceSpace A key) (fun _ => Beside s) (fun _ => Beside s) (fun _ => True) := by
  refine Spec.get_bind fun u hu => ?_
  split_ifs
  · exact Spec.pure () (fun _ h => h ▸ hu) (fun _ _ => trivial)
  · refine Spec.bind (R := fun _ => Beside s) (Spec.modify ?_ (fun _ _ => trivial) (fun _ _ => trivial)) fun _ =>
      Spec.bind (writeHeader_beside hA hs false) fun _ => syncData_beside
    rintro v rfl
    exact ⟨hu.phys, hu.length, hu.blocks⟩
  · exact Spec.throw (fun _ h => h ▸ hu) (fun _ _ => trivial)

/-! ## Filling the gap -/

theorem nextMissing_whole {i : Inner} (hp : HEADER_PHYS ≤ i.physLen) (h : ¬Torn i) : i.physLen = blockPhysOffset (nextMissing i) := by
  have h52 : HEADER_PHYS = 52 := rfl
  have hblock : PHYS_BLOCK = 4124 := rfl
  rw [Torn, not_not, h52, hblock] at h
  rw [h52] at hp
  rw [blockPhysOffset_eq, nextMissing, h52, hblock]
  split_ifs with h0 <;> omega

theorem nextMissing_torn {i : Inner} (hp : HEADER_PHYS ≤ i.physLen) (h : Torn i) : nextMissing i = tornBlock i + 1 := by
  have h52 : HEADER_PHYS = 52 := rfl
  have hblock : PHYS_BLOCK = 4124 := rfl
  rw [Torn, h52, hblock] at h
  rw [h52] at hp
  rw [nextMissing, tornBlock, h52, hblock]
  split_ifs with h0 <;> omega

theorem physLen_le_nextMissing (i : Inner) : i.physLen ≤ blockPhysOffset (nextMissing i) := by
  have h52 : HEADER_PHYS = 52 := rfl
  have hblock : PHYS_BLOCK = 4124 := rfl
  rw [blockPhysOffset_eq, nextMissing, h52, hblock]
  split_ifs with h0 <;> omega

/-- the batch holds zero blocks from `first` on, `n` of them -/
structure ZeroBlocks (A : Aead Bytes) (key : Bytes) (first n : ℕ) (batch : Bytes) : Prop where
  length : batch.length = n * 4124
  opens : ∀ i < n, Opens A key (first + i) (slice batch (i * 4124) ((i + 1) * 4124)) zeroBlock

theorem length_zeroBlock : zeroBlock.length = 4096 := List.length_replicate

theorem ZeroBlocks.snoc (hA : A.Correct) {first n : ℕ} {batch : Bytes} (h : ZeroBlocks A key first n batch) (s : Backend) :
    ZeroBlocks A key first (n + 1) (batch ++ s.blockBytes A key (first + n) zeroBlock) := by
  have hopens : Opens A key (first + n) (s.blockBytes A key (first + n) zeroBlock) zeroBlock := opens_blockBytes hA s _ length_zeroBlock
  refine ⟨by rw [List.length_append, h.length, hopens.1, Nat.succ_mul], fun i hi => ?_⟩
  rcases Nat.lt_succ_iff_lt_or_eq.1 hi with hlt | rfl
  · rw [slice_left (by rw [h.length]; exact Nat.mul_le_mul_right 4124 hlt)]
    exact h.opens i hlt
  · rw [← List.append_nil (batch ++ _), slice_middle h.length (by rw [hopens.1, Nat.succ_mul])]
    exact hopens

theorem gapBatch_zeroBlocks (hA : A.Correct) {P : Backend → Prop} (hP : ∀ s, P s → P s.sealed) {E : IoError → Backend → Prop}
    (first n : ℕ) : Spec P (gapBatch A key first n) (fun batch s => P s ∧ ZeroBlocks A key first n batch) E (fun _ => True) := by
  refine (Spec.foldlM (I := fun done rest batch s => done ++ rest = List.range' first n ∧ P s ∧
    ZeroBlocks A key first done.length batch) (fun _ _ _ _ _ => trivial) (fun done x rest batch => ?_) [] (List.range' first n)
      []).conseq (fun s hs => ⟨rfl, hs, rfl, nofun⟩) (fun batch s h => ?_) (fun _ _ h => h) fun _ h => h
  · apply Spec.of_apply
    rintro s ⟨hrange, hs, hbatch⟩
    have hx : x = first + done.length := by
      have hget := congrArg (fun l => l[done.length]?) hrange
      simp only [List.getElem?_append_right (Nat.le_refl _), Nat.sub_self, List.getElem?_cons_zero] at hget
      obtain ⟨hlt, hget⟩ := List.getElem?_eq_some_iff.1 hget.symm
      rw [List.getElem_range'] at hget
      omega
    refine ⟨trivial, _, _, Prog.bind_apply_ok (sealNext_apply _ _ s), fun _ _ => trivial, fun batch' hbatch' => ?_, nofun⟩
    cases hbatch'
    refine ⟨by rw [List.append_assoc]; exact hrange, hP s hs, ?_⟩
    rw [List.length_append, List.length_singleton, hx]
    exact hbatch.snoc hA s
  · rw [List.nil_append, List.length_range'] at h
    exact h.2

/-- `v` is `u` with the blocks missing before `idx` on disk, but not counted -/
structure Filled (A : Aead Bytes) (key : Bytes) (idx : ℕ) (u v : Backend) : Prop where
  phys : v.inner.physLen = u.inner.physLen
  longer : u.file.bytes.length ≤ v.file.bytes.length
  length : v.file.bytes.length ≤ max u.file.bytes.length (blockPhysOffset idx)
  before : ∀ j, blockPhysOffset (j + 1) ≤ u.inner.physLen → blockAt v.file.bytes j = blockAt u.file.bytes j
  gap : ∀ j, nextMissing u.inner ≤ j → j < idx → Opens A key j (blockAt v.file.bytes j) zeroBlock

theorem fillGap_filled (hA : A.Correct) {u : Backend} (hu : Measured u) (idx : ℕ) {E : IoError → Backend → Prop} :
    Spec (fun v => v = u) (fillGap A key idx) (fun _ => Filled A key idx u) E (fun _ => True) := by
  refine Spec.get_bind fun s hs => ?_
  rw [hs]
  split_ifs with hlt
  · refine Spec.bind (gapBatch_zeroBlocks hA (P := fun v => v.file = u.file ∧ v.inner.physLen = u.inner.physLen) (fun v hv => hv)
      (nextMissing u.inner) (idx - nextMissing u.inner) |>.conseq (fun v hv => by rw [hv]; exact ⟨rfl, rfl⟩) (fun _ _ h => h)
      (fun _ _ h => h) fun _ h => h) fun batch => Spec.modify ?_ (fun _ _ => trivial) (fun _ _ => trivial)
    rintro v ⟨⟨hfile, hphys⟩, hbatch⟩
    have hfirst := physLen_le_nextMissing u.inner
    have hend : blockPhysOffset (nextMissing u.inner) + batch.length = blockPhysOffset idx := by
      rw [hbatch.length, blockPhysOffset_eq, blockPhysOffset_eq, Nat.add_assoc, ← Nat.add_mul, Nat.add_sub_cancel' (Nat.le_of_lt hlt)]
    have hlen : (pwrite v.file.bytes (blockPhysOffset (nextMissing u.inner)) batch).length =
        max u.file.bytes.length (blockPhysOffset idx) := by rw [length_pwrite, hfile, hend]
    refine ⟨hphys, (Nat.le_max_left _ _).trans_eq hlen.symm, Nat.le_of_eq hlen, fun j hj => ?_, fun j hj hidx => ?_⟩
    · change slice (pwrite v.file.bytes _ batch) _ _ = _
      rw [slice_pwrite_before (hj.trans hfirst) (by rw [hfile, ← hu.phys]; exact hj), hfile]
      rfl
    · obtain ⟨i, rfl⟩ := Nat.exists_eq_add_of_le hj
      have hopens := hbatch.opens i (by omega)
      have hslice : ∀ k, blockPhysOffset (nextMissing u.inner + k) = blockPhysOffset (nextMissing u.inner) + k * 4124 := fun k => by
        rw [blockPhysOffset_eq, blockPhysOffset_eq, Nat.add_mul, Nat.add_assoc]
      have hsame := slice_pwrite_same v.file.bytes (blockPhysOffset (nextMissing u.inner)) batch
      rw [← hsame, slice_slice_add (by rw [hbatch.length]; exact Nat.add_le_add_left (Nat.mul_le_mul_right 4124 (by omega)) _),
        ← hslice, ← hslice] at hopens
      exact hopens
  · refine Spec.pure () ?_ (fun _ _ => trivial)
    rintro v rfl
    exact ⟨rfl, Nat.le_refl _, Nat.le_max_left _ _, fun _ _ => rfl, fun j hj hidx => absurd (Nat.lt_of_le_of_lt hj hidx) hlt⟩

/-! ## Writing a block -/

/-- no block in part before `idx` -/
def Clear (i : Inner) (idx : ℕ) : Prop := ¬(Torn i ∧ tornBlock i < idx)

/-- `t` is `s` with the block `idx` written -/
structure Put (A : Aead Bytes) (key : Bytes) (idx : ℕ) (s t : Backend) : Prop where
  measured : Measured t
  phys : t.inner.physLen = max s.inner.physLen (blockPhysOffset (idx + 1))
  others : Clear s.inner idx → ∀ j, j ≠ idx → readBlock A key t j = readBlock A key s j

theorem nextMissing_le_of_clear {i : Inner} (hp : HEADER_PHYS ≤ i.physLen) {idx j : ℕ} (h : Clear i idx) (hj : j < idx)
    (habsent : i.physLen < blockPhysOffset (j + 1)) : nextMissing i ≤ j := by
  by_cases ht : Torn i
  · -- the torn block is `idx` or comes later, so `j` is on disk
    have hidx : idx ≤ tornBlock i := Nat.not_lt.1 fun hlt => h ⟨ht, hlt⟩
    have hle : blockPhysOffset (j + 1) ≤ blockPhysOffset (tornBlock i) := blockPhysOffset_mono (by omega)
    have htorn : blockPhysOffset (tornBlock i) ≤ i.physLen := by
      have h52 : HEADER_PHYS = 52 := rfl
      have hblock : PHYS_BLOCK = 4124 := rfl
      rw [h52] at hp
      rw [blockPhysOffset_eq, tornBlock, h52, hblock]
      omega
    omega
  · rw [nextMissing_whole hp ht] at habsent
    by_contra hlt
    exact absurd (blockPhysOffset_mono (Nat.succ_le_of_lt (Nat.not_le.1 hlt))) (Nat.not_le.2 habsent)

theorem Filled.stored (hA : A.Correct) {u v : Backend} (hu : Measured u) {idx : ℕ} (h : Filled A key idx u v) {plain : Bytes}
    (hlen : plain.length = 4096) : Put A key idx u (v.stored A key idx plain) := by
  have hopens : Opens A key idx (v.blockBytes A key idx plain) plain := opens_blockBytes hA v idx hlen
  have hend : blockPhysOffset idx + (v.blockBytes A key idx plain).length = blockPhysOffset (idx + 1) := by
    rw [hopens.1, blockPhysOffset_succ]
  have hphys : (v.stored A key idx plain).inner.physLen = max u.inner.physLen (blockPhysOffset (idx + 1)) := by
    rw [← h.phys, blockPhysOffset_succ]
    rfl
  have hbytes : (v.stored A key idx plain).file.bytes.length = max u.file.bytes.length (blockPhysOffset (idx + 1)) := by
    change (pwrite v.file.bytes (blockPhysOffset idx) _).length = _
    have hstep : blockPhysOffset idx ≤ blockPhysOffset (idx + 1) := blockPhysOffset_mono (Nat.le_succ idx)
    have hlonger := h.longer
    have hshorter := h.length
    rw [length_pwrite, hend]
    omega
  have hmeasured : Measured (v.stored A key idx plain) := by
    refine ⟨by rw [hphys, hbytes, hu.phys], ?_⟩
    rw [hbytes]
    exact hu.header.trans (Nat.le_max_left _ _)
  refine ⟨hmeasured, hphys, fun hclear j hj => ?_⟩
  rcases Nat.lt_or_gt_of_ne hj with hlt | hgt
  · have hle : blockPhysOffset (j + 1) ≤ blockPhysOffset idx := blockPhysOffset_mono hlt
    have hpresent : blockPhysOffset (j + 1) ≤ (v.stored A key idx plain).inner.physLen := by
      rw [hphys]
      exact (hle.trans (blockPhysOffset_mono (Nat.le_succ idx))).trans (Nat.le_max_right _ _)
    have hkept : blockPhysOffset (j + 1) ≤ v.file.bytes.length →
        blockAt (v.stored A key idx plain).file.bytes j = blockAt v.file.bytes j := slice_pwrite_before hle
    rcases Nat.lt_or_ge u.inner.physLen (blockPhysOffset (j + 1)) with habsent | hge
    · -- a zero block of the gap
      have hgap := h.gap j (nextMissing_le_of_clear (hu.phys ▸ hu.header) hclear hlt habsent) hlt
      have hinside : blockPhysOffset (j + 1) ≤ v.file.bytes.length := by
        have hgaplen := hgap.1
        rw [blockAt, slice, List.length_take, List.length_drop, blockPhysOffset_succ] at hgaplen
        rw [blockPhysOffset_succ]
        omega
      rw [readBlock_absent habsent]
      exact readBlock_opens hmeasured hpresent (by rw [hkept hinside]; exact hgap) length_zeroBlock
    · refine readBlock_same hu hmeasured hge hpresent ((hkept ?_).trans (h.before j hge))
      exact hge.trans (hu.phys ▸ h.longer)
  · have hge : blockPhysOffset (idx + 1) ≤ blockPhysOffset j := blockPhysOffset_mono hgt
    have hkept : blockAt (v.stored A key idx plain).file.bytes j = blockAt v.file.bytes j :=
      slice_pwrite_after (by rw [hend]; exact hge)
    rcases Nat.lt_or_ge u.inner.physLen (blockPhysOffset (j + 1)) with habsent | hge'
    · rw [readBlock_absent habsent, readBlock_absent]
      rw [hphys, blockPhysOffset_succ j]
      rw [blockPhysOffset_succ j] at habsent
      omega
    · exact readBlock_same hu hmeasured hge' (hphys ▸ hge'.trans (Nat.le_max_left _ _)) (hkept.trans (h.before j hge'))

/-- writing a block, or failing to -/
theorem writeBlock_put (hA : A.Correct) {s : Backend} (hs : Measured s) (idx : ℕ) {plain : Bytes} (hlen : plain.length = 4096) :
    Spec (fun t => t = s) (writeBlock A key idx plain) (fun _ => Put A key idx s) (fun _ => Beside s) (fun _ => True) := by
  refine Spec.bind ((ensureNonceSpace_beside hA hs).conseq (fun t ht => ht ▸ Beside.refl s) (fun _ _ h => h) (fun _ _ h => h)
    fun _ h => h) fun _ => Spec.of_states fun u hu => Spec.bind (fillGap_filled hA (hu.measured hs) idx) fun _ => ?_
  apply Spec.of_apply
  intro v hv
  refine ⟨trivial, _, _, storeBlock_apply idx plain v, fun _ _ => trivial, fun _ _ => ?_, nofun⟩
  have hput := hv.stored hA (hu.measured hs) hlen
  refine ⟨hput.measured, by rw [← hu.phys]; exact hput.phys, fun hclear j hj => ?_⟩
  rw [← hu.reads hs j]
  refine hput.others ?_ j hj
  rwa [Clear, Torn, tornBlock, hu.phys]

/-! ## Writing bytes -/

/-- the blocks a write goes to -/
def Touches (offset : ℕ) (data : Bytes) (j : ℕ) : Prop :=
  data ≠ [] ∧ offset / BLOCK_SIZE ≤ j ∧ j ≤ (offset + data.length - 1) / BLOCK_SIZE

/-- the file ends within a block, and the write begins behind that block -/
def SkipsTorn (s : Backend) (offset : ℕ) (data : Bytes) : Prop :=
  data ≠ [] ∧ Torn s.inner ∧ tornBlock s.inner < offset / BLOCK_SIZE

/-- block `j` reads as `r` -/
structure Sees (A : Aead Bytes) (key : Bytes) (j : ℕ) (r : Except IoError Bytes) (t : Backend) : Prop where
  measured : Measured t
  reads : readBlock A key t j = r

/-- and what is torn, if anything, is not before the byte `pos` -/
structure Passing (A : Aead Bytes) (key : Bytes) (j : ℕ) (r : Except IoError Bytes) (pos : ℕ) (t : Backend) : Prop
    extends Sees A key j r t where
  clear : Clear t.inner (pos / 4096)

variable {j : ℕ} {r : Except IoError Bytes}

theorem Beside.sees {s t : Backend} (h : Beside s t) (hs : Sees A key j r s) : Sees A key j r t :=
  ⟨h.measured hs.measured, (h.reads hs.measured j).trans hs.reads⟩

/-- a block written leaves nothing torn up to it -/
theorem Put.clear {idx idx' : ℕ} {s t : Backend} (h : Put A key idx s t) (hidx : idx' ≤ idx + 1) : Clear t.inner idx' := by
  rintro ⟨htorn, hlt⟩
  have hphys := h.phys
  have h52 : HEADER_PHYS = 52 := rfl
  have hblock : PHYS_BLOCK = 4124 := rfl
  rw [Torn, h52, hblock] at htorn
  rw [tornBlock, h52, hblock] at hlt
  rw [blockPhysOffset_eq] at hphys
  omega

theorem Put.passing {idx pos pos' : ℕ} {s t : Backend} (h : Put A key idx s t) (hs : Passing A key j r pos s) (hidx : pos / 4096 = idx)
    (hj : j ≠ idx) (hpos : pos' / 4096 ≤ idx + 1) : Passing A key j r pos' t :=
  ⟨⟨h.measured, (h.others (hidx ▸ hs.clear) j hj).trans hs.reads⟩, h.clear hpos⟩

theorem readBlock_length {s : Backend} {idx : ℕ} {plain : Bytes} (h : readBlock A key s idx = .ok plain) : plain.length = 4096 := by
  unfold readBlock at h
  split_ifs at h with habsent
  · cases h
    exact length_zeroBlock
  · cases hbuf : s.file.readExactAt (blockPhysOffset idx) PHYS_BLOCK with
    | error e =>
      rw [hbuf] at h
      cases h
    | ok buf =>
      rw [hbuf] at h
      simp only [bind, Except.bind] at h
      split at h
      · cases h
      split_ifs at h with hlen
      cases h
      exact not_not.1 hlen

theorem oldBlock_length {s : Backend} {pos n : ℕ} {plain : Bytes} (h : oldBlock A key s pos n = .ok plain) : plain.length = 4096 := by
  unfold oldBlock at h
  split_ifs at h
  · cases h
    exact length_zeroBlock
  · exact readBlock_length h

theorem length_splice {plain piece : Bytes} {within : ℕ} (hlen : plain.length = 4096) (hin : within + piece.length ≤ 4096) :
    (splice plain within piece).length = 4096 := by
  rw [splice, List.length_append, List.length_append, List.length_take, List.length_drop]
  omega

theorem writeRound_passing (hA : A.Correct) {pos pos' : ℕ} {piece : Bytes} (hin : pos % 4096 + piece.length ≤ 4096)
    (hj : j ≠ pos / 4096) (hpos : pos' / 4096 ≤ pos / 4096 + 1) :
    Spec (Passing A key j r pos) (writeRound A key pos piece) (fun _ => Passing A key j r pos') (fun _ => Sees A key j r)
      (fun _ => True) := by
  refine Spec.get_bind fun s hs => Spec.ofExcept_bind_any (fun _ t ht => ht ▸ hs.toSees) (fun _ _ => trivial) fun plain hplain => ?_
  exact (writeBlock_put hA hs.measured (pos / 4096) (length_splice (oldBlock_length hplain) hin)).conseq (fun _ h => h)
    (fun _ _ h => h.passing hs rfl hj hpos) (fun _ _ h => h.sees hs.toSees) fun _ h => h

theorem writeLoop_passing (hA : A.Correct) (offset : ℕ) (data : Bytes) (hj : ¬Touches offset data j) (done : ℕ) :
    Spec (Passing A key j r (offset + done)) (writeLoop A key offset data done) (fun _ => Sees A key j r)
      (fun _ => Sees A key j r) (fun _ => True) := by
  fun_induction writeLoop A key offset data done with
  | case1 done hlt ih =>
    have hle := roundLen_le (offset + done) (data.length - done)
    have hin := roundLen_inside (offset + done) (data.length - done)
    generalize roundLen (offset + done) (data.length - done) = n at *
    have hpiece : (slice data done (done + n)).length = n := by rw [length_slice (by omega)]; omega
    have hne : j ≠ (offset + done) / 4096 := by
      rintro rfl
      refine hj ⟨List.ne_nil_of_length_pos (by omega), Nat.div_le_div_right (Nat.le_add_right _ _), Nat.div_le_div_right ?_⟩
      omega
    exact Spec.bind (writeRound_passing hA (by rw [hpiece]; exact hin) hne (by omega)) fun _ => ih
  | case2 done hlt => exact Spec.pure () (fun _ h => h.toSees) (fun _ _ => trivial)

theorem growTo_sees (hA : A.Correct) (e : ℕ) :
    Spec (Sees A key j r) (growTo A key e) (fun _ => Sees A key j r) (fun _ => Sees A key j r) (fun _ => True) := by
  refine Spec.get_bind fun s hs => ?_
  split_ifs
  · let u : Backend := { s with inner := { s.inner with logicalLen := e } }
    have hu : Beside s u := ⟨rfl, rfl, fun _ => rfl⟩
    refine Spec.bind (R := fun _ t => t = u) (Spec.modify (fun t ht => by rw [ht]) (fun _ _ => trivial) (fun _ _ => trivial)) fun _ => ?_
    exact (writeHeader_beside hA (hu.measured hs.measured) false).conseq (fun t ht => ht ▸ Beside.refl u)
      (fun _ _ h => h.sees (hu.sees hs)) (fun _ _ h => h.sees (hu.sees hs)) fun _ h => h
  · exact Spec.pure () (fun _ h => h ▸ hs) (fun _ _ => trivial)

/-- a write leaves the blocks it does not go to as they read, whether it succeeds or not -/
theorem write_sees (hA : A.Correct) {s : Backend} (hs : Measured s) {offset : ℕ} {data : Bytes} (hskip : ¬SkipsTorn s offset data)
    (hj : ¬Touches offset data j) : Sees A key j (readBlock A key s j) ((write A key offset data).final s) := by
  have hspec : Spec (fun t => t = s) (write A key offset data) (fun _ => Sees A key j (readBlock A key s j))
      (fun _ => Sees A key j (readBlock A key s j)) (fun _ => True) := by
    refine Spec.bind (R := fun _ => Sees A key j (readBlock A key s j)) ?_ fun _ => growTo_sees hA _
    rcases eq_or_ne data [] with rfl | hne
    · rw [writeLoop, if_neg (show ¬0 < ([] : Bytes).length from Nat.not_lt_zero 0)]
      refine Spec.pure () ?_ (fun _ _ => trivial)
      rintro t rfl
      exact ⟨hs, rfl⟩
    · refine (writeLoop_passing hA offset data hj 0).conseq (fun t ht => ?_) (fun _ _ h => h) (fun _ _ h => h) fun _ h => h
      rw [ht]
      exact ⟨⟨hs, rfl⟩, fun ⟨htorn, hlt⟩ => hskip ⟨hne, htorn, hlt⟩⟩
  obtain ⟨-, hok, herr⟩ := hspec s rfl
  cases hr : (write A key offset data).result s with
  | ok a => exact hok a hr
  | error e => exact herr e hr

/-! ## Opening -/

theorem resealLegacyBlocks_measured (hA : A.Correct) {E : IoError → Backend → Prop} (hE : ∀ e t, E e t) :
    Spec Measured (resealLegacyBlocks A key) (fun _ => Measured) E (fun _ => True) := by
  refine Spec.get_bind fun s hs => ?_
  refine Spec.bind (R := fun _ => Measured) ((Spec.foldlM_inv (I := Measured) (fun _ _ => trivial) (fun _ idx => ?_) _ ()).conseq
    (fun t ht => ht ▸ hs) (fun _ _ h => h) (fun _ _ h => h) fun _ h => h) fun _ => ?_
  · refine Spec.get_bind fun t ht => Spec.ofExcept_bind_any (fun e u _ => hE e u) (fun _ _ => trivial) fun plain hplain => ?_
    exact (writeBlock_put hA ht idx (readBlock_length hplain)).conseq (fun _ h => h) (fun _ _ h => h.measured) (fun e u _ => hE e u)
      fun _ h => h
  · refine Spec.of_states fun t ht => Spec.bind ((writeHeader_beside hA ht false).conseq (fun u hu => hu ▸ Beside.refl t)
      (fun _ _ h => h) (fun e u _ => hE e u) fun _ h => h) fun _ => ?_
    exact syncData_beside.conseq (fun _ h => h) (fun _ _ h => h.measured ht) (fun _ _ h => h) fun _ h => h

/-- whatever file is found, an open that succeeds knows its length -/
theorem openFile_measured (hA : A.Correct) (onForeign : ForeignFile) {s : Backend}
    (h : (openFile A key onForeign).result s = .ok ()) : Measured ((openFile A key onForeign).final s) := by
  have hspec : Spec (fun _ => True) (openFile A key onForeign) (fun _ => Measured) (fun _ _ => True) (fun _ => True) := by
    refine Spec.bind (R := fun _ _ => True) (fun _ _ => ⟨fun _ _ => trivial, fun _ _ => trivial, fun _ _ => trivial⟩) fun stored => ?_
    unfold reserveEpoch
    by_cases hmax : stored.nonceEpoch + 1 ≤ MAX_U48
    · rw [if_pos hmax]
      refine Spec.bind (R := fun _ t => t.inner.physLen = t.file.bytes.length)
        (Spec.modify (fun _ _ => rfl) (fun _ _ => trivial) (fun _ _ => trivial)) fun _ => ?_
      refine Spec.bind (R := fun _ => Measured) ?_ fun _ => Spec.bind (R := fun _ => Measured) ?_ fun _ => ?_
      · apply Spec.of_apply
        intro t ht
        refine ⟨trivial, ?_⟩
        by_cases hl : t.inner.logicalLen ≤ MAX_U48
        · refine ⟨_, _, writeHeader_ok hl _, fun _ _ => trivial, fun _ _ => ?_, fun _ _ => trivial⟩
          have hlen : (t.headed A key (stored.legacy || stored.resealPending)).file.bytes.length = max t.file.bytes.length 52 := by
            change (pwrite t.file.bytes 0 _).length = _
            rw [length_pwrite, length_headerBytes hA]
          have hphys : (t.headed A key (stored.legacy || stored.resealPending)).inner.physLen = max t.inner.physLen 52 := rfl
          exact ⟨by rw [List.getLastD_cons, List.getLastD_cons, List.getLastD_nil, hphys, hlen, ht],
            by rw [List.getLastD_cons, List.getLastD_cons, List.getLastD_nil, hlen]; exact Nat.le_max_right _ _⟩
        · exact ⟨_, _, writeHeader_too_long (Nat.not_le.1 hl) _, fun _ _ => trivial, nofun, fun _ _ => trivial⟩
      · exact Spec.of_states fun t ht => syncData_beside.conseq (fun u hu => hu ▸ Beside.refl t) (fun _ _ h => h.measured ht)
          (fun _ _ h => h) fun _ h => h
      · split_ifs
        · exact resealLegacyBlocks_measured hA fun _ _ => trivial
        · exact Spec.pure () (fun _ h => h) (fun _ _ => trivial)
    · rw [if_neg hmax]
      exact Spec.throw (fun _ _ => True.intro) (fun _ _ => True.intro)
  exact (hspec s trivial).2.1 () h

/-! ## Any number of writes -/

/-- a write, which may fail, and the backend it leaves -/
def writeStep (A : Aead Bytes) (key : Bytes) (s : Backend) (w : ℕ × Bytes) : Backend := (write A key w.1 w.2).final s

/-- **A torn append poisons no other block**, as long as no write begins behind the torn one. -/
theorem writes_keep (hA : A.Correct) {onForeign : ForeignFile} {s₀ : Backend} (hopen : (openFile A key onForeign).result s₀ = .ok ())
    {ws : List (ℕ × Bytes)}
    (hws : Along (writeStep A key) (fun s w => ¬SkipsTorn s w.1 w.2) ((openFile A key onForeign).final s₀) ws) {j : ℕ}
    (hj : ∀ w ∈ ws, ¬Touches w.1 w.2 j) {plain : Bytes} (h : readBlock A key ((openFile A key onForeign).final s₀) j = .ok plain) :
    readBlock A key (run (writeStep A key) ((openFile A key onForeign).final s₀) ws) j = .ok plain := by
  have hs := openFile_measured hA onForeign hopen
  generalize (openFile A key onForeign).final s₀ = s at *
  induction ws generalizing s with
  | nil => exact h
  | cons w ws ih =>
    have hsees : Sees A key j (readBlock A key s j) (writeStep A key s w) := write_sees hA hs hws.1 (hj w List.mem_cons_self)
    exact ih (fun x hx => hj x (List.mem_cons_of_mem w hx)) _ hws.2 (hsees.reads.trans h) hsees.measured

/-! ## A torn block that is skipped -/

/-- a new file with the first byte of block 0 -/
def tornFile : Bytes := (⟨⟨[], []⟩, ⟨0, 52, 1, 1⟩, []⟩ : Backend).headerBytes Aead.tagged [1] false ++ [0]

def tornOpened : Backend := (openFile Aead.tagged [1] .Reject).final (Machine.found tornFile).opening

theorem tornOpened_ok : (openFile Aead.tagged [1] .Reject).result (Machine.found tornFile).opening = .ok () := by decide +kernel

theorem tornOpened_inner : tornOpened.inner = ⟨0, 53, 2, 1⟩ := by decide +kernel

theorem tornOpened_drop : tornOpened.file.bytes.drop 52 = [0] := by decide +kernel

/-- what a later block leaves of a torn one: its bytes, and zeros -/
theorem blockAt_torn {f data : Bytes} {j idx : ℕ} (hlen : f.length ≤ blockPhysOffset (j + 1)) (hlow : blockPhysOffset j ≤ f.length)
    (hidx : j < idx) : blockAt (pwrite f (blockPhysOffset idx) data) j =
      f.drop (blockPhysOffset j) ++ List.replicate (blockPhysOffset (j + 1) - f.length) 0 := by
  have hle : blockPhysOffset (j + 1) ≤ blockPhysOffset idx := blockPhysOffset_mono hidx
  have hsplit : Y2q.setLen f (blockPhysOffset idx) =
      Y2q.setLen f (blockPhysOffset (j + 1)) ++ List.replicate (blockPhysOffset idx - blockPhysOffset (j + 1)) 0 := by
    rw [Y2q.setLen, Y2q.setLen, List.take_of_length_le (hlen.trans hle), List.take_of_length_le hlen, List.append_assoc,
      ← List.replicate_add, Nat.add_comm, Nat.sub_add_sub_cancel hle hlen]
  have hslice : blockAt (pwrite f (blockPhysOffset idx) data) j = blockAt (Y2q.setLen f (blockPhysOffset (j + 1))) j := by
    rw [pwrite_eq_setLen, hsplit, List.append_assoc, List.append_assoc]
    exact slice_left (Nat.le_of_eq (length_setLen f _).symm)
  rw [hslice, blockAt, slice, Y2q.setLen, List.take_of_length_le hlen, List.drop_append_of_le_length hlow]
  refine List.take_of_length_le (Nat.le_of_eq ?_)
  rw [List.length_append, List.length_drop, List.length_replicate]
  omega

/-- one byte at the start of the block behind the torn one -/
theorem tornOpened_write : ∃ t, write Aead.tagged [1] 4096 [7] tornOpened = (t, .ok ()) ∧ Measured (t.getLastD tornOpened) ∧
    (t.getLastD tornOpened).inner.physLen = blockPhysOffset 2 ∧
    blockAt (t.getLastD tornOpened).file.bytes 0 = List.replicate 4124 0 := by
  have hi := tornOpened_inner
  have hread : readBlock Aead.tagged [1] tornOpened 1 = .ok zeroBlock := readBlock_absent (by rw [hi]; decide)
  have hgap : fillGap Aead.tagged [1] 1 tornOpened = ([], .ok ()) := by
    rw [fillGap, Prog.get_bind_apply, hi]
    rfl
  have hblock : ∀ plain, writeBlock Aead.tagged [1] 1 plain tornOpened =
      ([tornOpened.sealed, tornOpened.stored Aead.tagged [1] 1 plain], .ok ()) := fun plain => by
    rw [writeBlock, Prog.bind_apply_silent (ensureNonceSpace_pass (by rw [hi]; decide)), Prog.bind_apply_silent hgap, storeBlock_apply]
  have hround : writeRound Aead.tagged [1] 4096 [7] tornOpened =
      ([tornOpened.sealed, tornOpened.stored Aead.tagged [1] 1 (splice zeroBlock 0 [7])], .ok ()) := by
    rw [writeRound, Prog.get_bind_apply, oldBlock, if_neg (by decide), show 4096 / BLOCK_SIZE = 1 from rfl, hread]
    exact hblock _
  have hopened : Measured tornOpened := openFile_measured Aead.tagged_correct .Reject tornOpened_ok
  have hput : Put Aead.tagged [1] 1 tornOpened (tornOpened.stored Aead.tagged [1] 1 (splice zeroBlock 0 [7])) :=
    Filled.stored Aead.tagged_correct hopened ⟨rfl, Nat.le_refl _, Nat.le_max_left _ _, fun _ _ => rfl, fun j hj hlt => by
      rw [hi] at hj
      exact absurd hlt (Nat.not_lt.2 hj)⟩ (length_splice length_zeroBlock (by decide))
  generalize hs : tornOpened.stored Aead.tagged [1] 1 (splice zeroBlock 0 [7]) = s at hround hput
  have hloop : writeLoop Aead.tagged [1] 4096 [7] 0 tornOpened = ([tornOpened.sealed, s], .ok ()) := by
    rw [writeLoop, if_pos (by decide)]
    change (writeRound Aead.tagged [1] 4096 [7] >>= fun _ => writeLoop Aead.tagged [1] 4096 [7] 1) tornOpened = _
    rw [Prog.bind_apply_ok hround, writeLoop, if_neg (by decide)]
    rfl
  have hlogical : s.inner.logicalLen = 0 := by
    rw [← hs]
    exact congrArg Inner.logicalLen hi
  let u : Backend := { s with inner := { s.inner with logicalLen := 4097 } }
  have hgrow : growTo Aead.tagged [1] 4097 s = ([u, u.sealed, u.headed Aead.tagged [1] false], .ok ()) := by
    rw [growTo, Prog.get_bind_apply, if_pos (by rw [hlogical]; decide), Prog.modify_bind_apply,
      writeHeader_ok (s := u) (show 4097 ≤ MAX_U48 by decide) false]
  have hwrite : write Aead.tagged [1] 4096 [7] tornOpened =
      ([tornOpened.sealed, s, u, u.sealed, u.headed Aead.tagged [1] false], .ok ()) := by
    rw [write, Prog.bind_apply_ok hloop]
    change ([tornOpened.sealed, s] ++ (growTo Aead.tagged [1] 4097 s).1, (growTo Aead.tagged [1] 4097 s).2) = _
    rw [hgrow]
    rfl
  have hbeside : Beside s (u.headed Aead.tagged [1] false) := by
    have hu : Beside s u := ⟨rfl, rfl, fun _ => rfl⟩
    have hheaded : Beside u (u.headed Aead.tagged [1] false) := Beside.headed Aead.tagged_correct (hu.measured hput.measured) false
    exact ⟨hheaded.phys.trans hu.phys, hheaded.length.trans hu.length, fun j => (hheaded.blocks j).trans (hu.blocks j)⟩
  refine ⟨_, hwrite, hbeside.measured hput.measured, ?_, ?_⟩
  · change max s.inner.physLen HEADER_PHYS = _
    rw [← hs]
    change max (max tornOpened.inner.physLen _) _ = _
    rw [hi]
    rfl
  · have hdrop : tornOpened.file.bytes.drop 52 = [0] := tornOpened_drop
    change blockAt (pwrite s.file.bytes 0 _) 0 = _
    rw [blockAt_header (length_headerBytes Aead.tagged_correct u false), ← hs]
    have hlen : tornOpened.file.bytes.length = 53 := by decide +kernel
    have htorn := fun data => @blockAt_torn tornOpened.file.bytes data 0 1 (by rw [hlen]; decide) (by rw [hlen]; decide) Nat.one_pos
    refine (htorn _).trans ?_
    rw [hlen, show blockPhysOffset 0 = 52 from rfl, hdrop]
    exact (List.replicate_succ (n := 4123)).symm

/-- the torn block is written, the one behind it is not -/
theorem writes_keep_torn : readBlock Aead.tagged [1] (run (writeStep Aead.tagged [1]) tornOpened [(0, [9])]) 1 = .ok zeroBlock := by
  have halong : Along (writeStep Aead.tagged [1]) (fun s w => ¬SkipsTorn s w.1 w.2) tornOpened [(0, [9])] :=
    ⟨fun h => absurd h.2.2 (Nat.not_lt_zero _), trivial⟩
  refine writes_keep Aead.tagged_correct tornOpened_ok halong (fun w hw h => ?_) (readBlock_absent ?_)
  · obtain rfl := List.mem_singleton.1 hw
    exact absurd h.2.2 (by decide)
  · change tornOpened.inner.physLen < _
    rw [tornOpened_inner]
    decide

/-- a write to block 1 makes block 0 unreadable -/
theorem append_poisons : (openFile Aead.tagged [1] .Reject).result (Machine.found tornFile).opening = .ok () ∧
    readBlock Aead.tagged [1] tornOpened 0 = .ok zeroBlock ∧ ¬Touches 4096 [7] 0 ∧
    (write Aead.tagged [1] 4096 [7]).result tornOpened = .ok () ∧
    readBlock Aead.tagged [1] (writeStep Aead.tagged [1] tornOpened (4096, [7])) 0 =
      .error (.invalidData "index block decrypt/auth") := by
  obtain ⟨t, hwrite, hmeasured, hphys, hblock⟩ := tornOpened_write
  refine ⟨tornOpened_ok, readBlock_absent (by rw [tornOpened_inner]; decide), fun h => absurd h.2.1 (by decide),
    Prog.result_of_apply hwrite, ?_⟩
  have hfinal : writeStep Aead.tagged [1] tornOpened (4096, [7]) = t.getLastD tornOpened := by
    rw [writeStep, Prog.final, hwrite]
  have hct : (List.replicate 4124 (0 : UInt8)).drop NONCE_LEN = List.replicate 4112 0 := List.drop_replicate
  have hclosed : Aead.tagged.decrypt [1] ((List.replicate 4124 0).take NONCE_LEN) (beBytes 8 0) (List.replicate 4112 0) = none := by
    simp only [Aead.tagged, List.headD_cons, List.take_replicate]
    exact if_neg fun h => absurd (List.replicate_right_injective (show (16 : ℕ) ≠ 0 by decide) h) (by decide)
  rw [hfinal, readBlock_present hmeasured (by rw [hphys]; exact blockPhysOffset_mono (by decide)), hblock, hct, hclosed]

end Y2q.EncryptedBackend
