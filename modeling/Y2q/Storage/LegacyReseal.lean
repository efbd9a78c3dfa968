/-
Opening a version-1 file, with crashes (`open_file` and `reseal_legacy_blocks`).

A version-1 file has random nonces. The first open writes a header of version 2 that carries a fresh epoch and a marker, syncs it,
rewrites every block in place under the counter, and writes the header again without the marker. A crash on the way leaves a file whose
next open starts over under the epoch after that. Header and blocks are each written whole.

- `legacyFile`: what the version-1 writer made. `Survives`: what a power loss may leave of the writes since the last sync; what was
  written before a header that is kept is kept as well.
- `Disk`: a file between two opens: whole blocks with the plaintext they always had, and a header that is marked, or else every nonce
  in the file is one of the counter's and there is none twice (`Numbered`).
- `openFile_disk`: the crash triple of an open. `legacy_open_crash_safe`: along any openings, interrupted or not, the next one succeeds.
- `legacy_open_refused`: lengths and epochs are cut to 48 bits.
- `marker_outlives_block`: a header without the marker that is on disk before the last block rewritten.
-/
import Mathlib.Tactic
import Y2q.Storage.EncryptedBackendNonces
import Y2q.Storage.EncryptedBackendRefinement

namespace Y2q.EncryptedBackend

open Y2q CrashLogic Blocks

variable (A : Aead Bytes) (key : Bytes)

/-! ## Files of version 1 -/

/-- the version and the block size as `u32`, the logical length as `u64` -/
def legacyPlaintext (logicalLen : ℕ) : Bytes := beBytes 4 1 ++ beBytes 4 BLOCK_SIZE ++ beBytes 8 logicalLen

def legacyHeader (nonce : Bytes) (logicalLen : ℕ) : Bytes :=
  MAGIC ++ (nonce ++ A.encrypt key nonce MAGIC (legacyPlaintext logicalLen))

def legacyBlock (idx : ℕ) (blk : Bytes × Bytes) : Bytes := blk.1 ++ A.encrypt key blk.1 (beBytes 8 idx) blk.2

/-- header and blocks, each with a nonce of its own -/
def legacyFile (nonce : Bytes) (logicalLen : ℕ) (blocks : List (Bytes × Bytes)) : Bytes :=
  legacyHeader A key nonce logicalLen ++ (blocks.mapIdx (legacyBlock A key)).flatten

/-! ## What a crash leaves -/

def blockAt (f : Bytes) (j : ℕ) : Bytes := slice f (blockPhysOffset j) (blockPhysOffset (j + 1))

/-- header and blocks are written whole: the header of a content since the last sync, and of every block what that content or a later
one has -/
def Survives (f : File) (g : Bytes) : Prop :=
  ∃ newer h older, f.images = newer ++ h :: older ∧ g.length = h.length ∧ g.take HEADER_PHYS = h.take HEADER_PHYS ∧
    ∀ j, ∃ x ∈ h :: newer, blockAt g j = blockAt x j

/-- the backend an open starts from -/
def Machine.opening (m : Machine) : Backend := ⟨m.file, ⟨0, 0, 0, 0⟩, m.seals⟩

/-- `n` opens one after another, each of them returned or interrupted -/
inductive Openings (m₀ : Machine) : ℕ → Machine → Prop where
  | start : Openings m₀ 0 m₀
  | returned {n : ℕ} {m : Machine} (onForeign : ForeignFile) (h : Openings m₀ n m) :
      Openings m₀ (n + 1) (step A key m (.call (.openFile onForeign)))
  | interrupted {n : ℕ} {m : Machine} (onForeign : ForeignFile) (cut : ℕ) {g : Bytes} (h : Openings m₀ n m)
      (hg : Survives ((openFile A key onForeign).cutAt m.opening cut).file g) :
      Openings m₀ (n + 1) ⟨⟨g, []⟩, none, ((openFile A key onForeign).cutAt m.opening cut).seals⟩

/-! ## Nonces in the file -/

def headerNonce (f : Bytes) : Bytes := slice f 8 20

def blockNonce (f : Bytes) (j : ℕ) : Bytes := (blockAt f j).take NONCE_LEN

/-- of the header and of `k` blocks -/
def nonces (k : ℕ) (f : Bytes) : List Bytes := headerNonce f :: (List.range k).map (blockNonce f)

/-- every nonce in the file was issued by the counter, and there is none twice -/
structure Counted (issued : List Bytes) (k : ℕ) (f : Bytes) : Prop where
  issued : ∀ x ∈ nonces k f, x ∈ issued
  nodup : (nonces k f).Nodup

/-- and none is of an epoch after `e` -/
structure Numbered (issued : List Bytes) (k e : ℕ) (f : Bytes) : Prop extends Counted issued k f where
  epochs : ∀ x ∈ nonces k f, ∃ p, x = nonceOf p ∧ p.1 ≤ e ∧ p.2 ≤ MAX_U48

/-- a file between two opens, with `k` blocks and the epoch `e` in its header -/
structure Disk (L k e : ℕ) (b : ℕ → UInt8) (issued : List Bytes) (f : Bytes) : Prop where
  magic : f.take 8 = MAGIC
  blocks : BlocksAt A key f k b
  header : ∃ legacy pending, readHeader A key f = .ok ⟨L, e, legacy, pending⟩ ∧
    ((legacy || pending) = false → Numbered issued k e f)

variable {A key} {L k e : ℕ} {b : ℕ → UInt8} {issued : List Bytes} {f g : Bytes}

theorem take_magic (hhead : g.take 52 = f.take 52) : g.take 8 = f.take 8 := by
  have h8 := congrArg (List.take 8) hhead
  rwa [List.take_take, List.take_take] at h8

theorem nonces_congr (hhead : g.take 52 = f.take 52) (hblocks : ∀ j < k, blockAt g j = blockAt f j) : nonces k g = nonces k f := by
  have hslice : ∀ x : Bytes, headerNonce x = slice (x.take 52) 8 20 := fun x => by
    rw [← slice_zero, slice_slice (by decide), headerNonce]
  rw [nonces, nonces, hslice, hslice, hhead]
  refine congrArg _ (List.map_congr_left fun j hj => ?_)
  rw [blockNonce, blockNonce, hblocks j (List.mem_range.1 hj)]

theorem Numbered.congr (h : Numbered issued k e f) (hn : nonces k g = nonces k f) : Numbered issued k e g :=
  ⟨⟨hn ▸ h.issued, hn ▸ h.nodup⟩, hn ▸ h.epochs⟩

theorem BlocksAt.of_blocks (hlen : g.length = f.length) (hf : BlocksAt A key f k b)
    (hblocks : ∀ j < k, ∃ x, BlocksAt A key x k b ∧ blockAt g j = blockAt x j) : BlocksAt A key g k b := by
  refine ⟨hlen.trans hf.length, fun j hj => ?_⟩
  obtain ⟨x, hx, heq⟩ := hblocks j hj
  rw [show slice g _ _ = _ from heq]
  exact hx.opens j hj

theorem Disk.congr (h : Disk A key L k e b issued f) (hlen : g.length = f.length) (hhead : g.take 52 = f.take 52)
    (hblocks : ∀ j < k, blockAt g j = blockAt f j) : Disk A key L k e b issued g := by
  obtain ⟨legacy, pending, hread, hclean⟩ := h.header
  refine ⟨(take_magic hhead).trans h.magic, .of_blocks hlen h.blocks fun j hj => ⟨f, h.blocks, hblocks j hj⟩, legacy, pending, ?_,
    fun hr => ?_⟩
  · rw [readHeader_congr (readHeader_length hread) hhead, hread]
  · exact (hclean hr).congr (nonces_congr hhead hblocks)

theorem Disk.mono {more : List Bytes} (h : Disk A key L k e b issued f) (hmore : ∀ x ∈ issued, x ∈ more) : Disk A key L k e b more f := by
  obtain ⟨legacy, pending, hread, hclean⟩ := h.header
  exact ⟨h.magic, h.blocks, legacy, pending, hread, fun hr =>
    ⟨⟨fun x hx => hmore x ((hclean hr).issued x hx), (hclean hr).nodup⟩, (hclean hr).epochs⟩⟩

/-! ## Crash states -/

/-- whatever a crash leaves is a file to open, under the epoch found or the next one -/
def Kept (A : Aead Bytes) (key : Bytes) (L k e : ℕ) (b : ℕ → UInt8) (s : Backend) : Prop :=
  ∀ g, Survives s.file g → ∃ e', (e' = e ∨ e' = e + 1) ∧ Disk A key L k e' b s.seals g

/-- nothing was written to the blocks since the last sync -/
theorem Kept.of_same {s : Backend} (hdisk : ∀ x ∈ s.file.images, ∃ e', (e' = e ∨ e' = e + 1) ∧ Disk A key L k e' b s.seals x)
    (hsame : ∀ x ∈ s.file.images, ∀ y ∈ s.file.images, ∀ j < k, blockAt x j = blockAt y j) : Kept A key L k e b s := by
  rintro g ⟨newer, h, older, himages, hlen, hhead, hblocks⟩
  have hmem : h ∈ s.file.images := himages ▸ List.mem_append_right newer List.mem_cons_self
  obtain ⟨e', he', hd⟩ := hdisk h hmem
  refine ⟨e', he', hd.congr hlen hhead fun j hj => ?_⟩
  obtain ⟨x, hx, heq⟩ := hblocks j
  have hx' : x ∈ s.file.images := by
    rw [himages, List.mem_append, List.mem_cons]
    exact (List.mem_cons.1 hx).elim (fun hx => Or.inr (Or.inl hx)) Or.inl
  exact heq.trans (hsame x hx' h hmem j hj)

/-- a content that is marked, with the same plaintext in every block -/
structure Marked (A : Aead Bytes) (key : Bytes) (L k e : ℕ) (b : ℕ → UInt8) (f : Bytes) : Prop where
  magic : f.take 8 = MAGIC
  blocks : BlocksAt A key f k b
  header : readHeader A key f = .ok ⟨L, e, false, true⟩

/-- its header with blocks of any such contents -/
theorem Marked.disk (h : Marked A key L k e b f) (hlen : g.length = f.length) (hhead : g.take 52 = f.take 52)
    (hblocks : ∀ j < k, ∃ x, BlocksAt A key x k b ∧ blockAt g j = blockAt x j) : Disk A key L k e b issued g := by
  refine ⟨(take_magic hhead).trans h.magic, .of_blocks hlen h.blocks hblocks, false, true, ?_, nofun⟩
  rw [readHeader_congr (readHeader_length h.header) hhead, h.header]

/-- rewriting goes on: every content since the last sync is marked -/
theorem Kept.of_marked {s : Backend} (h : ∀ x ∈ s.file.images, Marked A key L k (e + 1) b x) : Kept A key L k e b s := by
  rintro g ⟨newer, x, older, himages, hlen, hhead, hblocks⟩
  have hmem : ∀ y ∈ x :: newer, y ∈ s.file.images := fun y hy => by
    rw [himages, List.mem_append, List.mem_cons]
    exact (List.mem_cons.1 hy).elim (fun hy => Or.inr (Or.inl hy)) Or.inl
  refine ⟨e + 1, Or.inr rfl, (h x (hmem x List.mem_cons_self)).disk hlen hhead fun j _ => ?_⟩
  obtain ⟨y, hy, heq⟩ := hblocks j
  exact ⟨y, (h y (hmem y hy)).blocks, heq⟩

/-- the last header is written: it is kept only with every block before it -/
theorem Kept.of_cleared {s : Backend} (hnow : Disk A key L k (e + 1) b s.seals s.file.bytes)
    (h : ∀ x ∈ s.file.unsynced, Marked A key L k (e + 1) b x) : Kept A key L k e b s := by
  rintro g ⟨newer, x, older, himages, hlen, hhead, hblocks⟩
  cases newer with
  | nil =>
    obtain ⟨rfl, rfl⟩ := List.cons.inj himages
    refine ⟨e + 1, Or.inr rfl, hnow.congr hlen hhead fun j _ => ?_⟩
    obtain ⟨y, hy, heq⟩ := hblocks j
    rw [heq, List.mem_singleton.1 hy]
  | cons y newer =>
    obtain ⟨rfl, hunsynced⟩ := List.cons.inj himages
    have hx := h x (hunsynced ▸ List.mem_append_right newer List.mem_cons_self)
    refine ⟨e + 1, Or.inr rfl, hx.disk hlen hhead fun j _ => ?_⟩
    obtain ⟨y, hy, heq⟩ := hblocks j
    refine ⟨y, ?_, heq⟩
    rcases List.mem_cons.1 hy with rfl | hy
    · exact hx.blocks
    rcases List.mem_cons.1 hy with rfl | hy
    · exact hnow.blocks
    · exact (h y (hunsynced ▸ List.mem_append_left _ hy)).blocks

/-! ## A header -/

theorem blockAt_header {hd : Bytes} (hhd : hd.length = 52) (j : ℕ) : blockAt (pwrite f 0 hd) j = blockAt f j :=
  slice_pwrite_after (by rw [hhd, blockPhysOffset_eq]; omega)

theorem headed_nonces (hA : A.Correct) (s : Backend) (r : Bool) :
    nonces k (s.headed A key r).file.bytes = s.nonce :: (List.range k).map (blockNonce s.file.bytes) := by
  have hhead : headerNonce (s.headed A key r).file.bytes = s.nonce := by
    rw [headed_bytes hA, headerNonce, slice_left (by rw [length_headerBytes hA]; decide), Backend.headerBytes, ← List.append_assoc]
    exact slice_middle rfl (by simp)
  rw [nonces, hhead]
  refine congrArg _ (List.map_congr_left fun j _ => ?_)
  rw [blockNonce, blockNonce]
  exact congrArg _ (blockAt_header (length_headerBytes hA s r) j)

/-- a header written over a file of whole blocks -/
theorem headed_marked (hA : A.Correct) {s : Backend} (hf : BlocksAt A key s.file.bytes k b) (hl : s.inner.logicalLen ≤ MAX_U48)
    (he : s.inner.epoch ≤ MAX_U48) (r : Bool) : (s.headed A key r).file.bytes.take 8 = MAGIC ∧
      BlocksAt A key (s.headed A key r).file.bytes k b ∧
      readHeader A key (s.headed A key r).file.bytes = .ok ⟨s.inner.logicalLen, s.inner.epoch, false, r⟩ := by
  refine ⟨?_, hf.header (length_headerBytes hA s r), ?_⟩
  · rw [headed_bytes hA]
    rfl
  · rw [headed_bytes hA, readHeader_append (length_headerBytes hA s r)]
    exact readHeader_headerBytes hA hl he r

/-! ## Rewriting the blocks -/

theorem span_rewrite (b : ℕ → UInt8) (off n : ℕ) : overwrite b off (span b off n) = b :=
  overwrite_span fun _ _ => rfl

/-- a block that is on disk is rewritten in place -/
theorem writeBlock_present {s : Backend} {idx : ℕ} (plain : Bytes) (hq : s.inner.seq < MAX_U48)
    (hp : s.inner.physLen = blockPhysOffset k) (hidx : idx < k) :
    writeBlock A key idx plain s = ([s.sealed, s.stored A key idx plain], .ok ()) := by
  have hgap : fillGap A key idx s = ([], .ok ()) := by
    rw [fillGap, Prog.get_bind_apply, nextMissing_eq hp, if_neg (Nat.lt_asymm hidx)]
    rfl
  rw [writeBlock, Prog.bind_apply_silent (ensureNonceSpace_pass hq), Prog.bind_apply_silent hgap, storeBlock_apply]

/-- the first `d` of `k` blocks are rewritten under the epoch `e` -/
structure Rewriting (A : Aead Bytes) (key : Bytes) (L k e : ℕ) (b : ℕ → UInt8) (d : ℕ) (s : Backend) : Prop where
  inner : s.inner = ⟨L, blockPhysOffset k, e, d + 1⟩
  marked : ∀ x ∈ s.file.images, Marked A key L k e b x
  rewritten : ∀ j < d, blockNonce s.file.bytes j = nonceOf (e, j + 1) ∧ nonceOf (e, j + 1) ∈ s.seals

theorem Rewriting.sound {d : ℕ} {s : Backend} (h : Rewriting A key L k e b d s) (hz : ∀ i, k * 4096 ≤ i → b i = 0) :
    Sound A key b 0 s := by
  refine ⟨k, by rw [h.inner], ?_, hz⟩
  rw [Nat.max_zero]
  exact (h.marked _ List.mem_cons_self).blocks

theorem Rewriting.step (hA : A.Correct) {d : ℕ} {s : Backend} (h : Rewriting A key L k e b d s) (hd : d < k) :
    Rewriting A key L k e b (d + 1) (s.stored A key d (span b (d * 4096) 4096)) := by
  have hnow := h.marked _ List.mem_cons_self
  have hopens : Opens A key d (s.blockBytes A key d (span b (d * 4096) 4096)) (span b (d * 4096) 4096) :=
    opens_blockBytes hA s d (length_span b (d * 4096) 4096)
  have hend : blockPhysOffset d + (s.blockBytes A key d (span b (d * 4096) 4096)).length = blockPhysOffset (d + 1) := by
    rw [hopens.1, blockPhysOffset_succ]
  have hnonce : s.nonce = nonceOf (e, d + 1) := by
    rw [Backend.nonce, nextNonce, h.inner]
    rfl
  refine ⟨?_, fun x hx => ?_, fun j hj => ?_⟩
  · change Inner.mk s.inner.logicalLen (max s.inner.physLen (blockPhysOffset d + PHYS_BLOCK)) s.inner.epoch (s.inner.seq + 1) = _
    rw [h.inner]
    have hphys : blockPhysOffset d + PHYS_BLOCK ≤ blockPhysOffset k := by
      have := blockPhysOffset_mono (Nat.succ_le_of_lt hd)
      rwa [Nat.succ_eq_add_one, blockPhysOffset_succ] at this
    rw [max_eq_left hphys]
  · rcases List.mem_cons.1 hx with rfl | hx
    · have hput := hnow.blocks.put (Nat.le_of_lt hd) hopens (length_span b (d * 4096) 4096)
      rw [span_rewrite, max_eq_left hd] at hput
      have hhead : (s.stored A key d (span b (d * 4096) 4096)).file.bytes.take 52 = s.file.bytes.take 52 :=
        take_pwrite (Nat.le_add_right 52 (d * 4124)) (readHeader_length hnow.header)
      exact ⟨(take_magic hhead).trans hnow.magic, hput, (readHeader_congr (readHeader_length hnow.header) hhead).trans hnow.header⟩
    · exact h.marked x hx
  · rcases Nat.lt_succ_iff_lt_or_eq.1 hj with hlt | rfl
    · obtain ⟨hblock, hmem⟩ := h.rewritten j hlt
      refine ⟨?_, List.mem_cons_of_mem _ hmem⟩
      rw [← hblock, blockNonce, blockNonce]
      have hle : blockPhysOffset (j + 1) ≤ blockPhysOffset d := blockPhysOffset_mono hlt
      exact congrArg _ (slice_pwrite_before hle (hle.trans (by rw [hnow.blocks.length]; exact blockPhysOffset_mono (Nat.le_of_lt hd))))
    · rw [← hnonce]
      refine ⟨?_, List.mem_cons_self⟩
      rw [blockNonce, blockAt, ← hend]
      change (slice (pwrite s.file.bytes _ _) _ _).take 12 = _
      rw [slice_pwrite_same, Backend.blockBytes]
      exact List.take_left' (length_nonce s)

theorem Rewriting.kept {d : ℕ} {s : Backend} (h : Rewriting A key L k (e + 1) b d s) : Kept A key L k e b s :=
  Kept.of_marked h.marked

/-- the loop over the blocks, from block `d` on -/
theorem resealLoop_rewriting (hA : A.Correct) (hz : ∀ i, k * 4096 ≤ i → b i = 0) {E : IoError → Backend → Prop} (m : ℕ) :
    ∀ d, d + m = k → k < MAX_U48 →
      Spec (Rewriting A key L k (e + 1) b d) ((List.range' d m).foldlM (fun _ idx => do
        let t ← Prog.get
        let plain ← Prog.ofExcept (readBlock A key t idx)
        writeBlock A key idx plain) ()) (fun _ => Rewriting A key L k (e + 1) b k) E (Kept A key L k e b) := by
  induction m with
  | zero =>
    intro d hd _
    rw [Nat.add_zero] at hd
    subst hd
    exact Spec.pure () (fun _ h => h) fun _ h => h.kept
  | succ m ih =>
    intro d hd hk
    rw [List.range'_succ, List.foldlM_cons]
    refine Spec.bind (R := fun _ => Rewriting A key L k (e + 1) b (d + 1)) ?_ fun _ => ih (d + 1) (by omega) hk
    apply Spec.of_apply
    intro s hs
    have hnext := hs.step hA (show d < k by omega)
    have hq : s.inner.seq < MAX_U48 := by
      rw [hs.inner]
      change d + 1 < MAX_U48
      omega
    have hbody : writeBlock A key d (span b (d * 4096) 4096) s = _ :=
      writeBlock_present _ hq (congrArg Inner.physLen hs.inner) (show d < k by omega)
    refine ⟨hs.kept, [s.sealed, s.stored A key d (span b (d * 4096) 4096)], .ok (), ?_, fun t ht => ?_, fun _ _ => hnext, nofun⟩
    · rw [Prog.get_bind_apply, (hs.sound hz).readBlock d]
      exact hbody
    · simp only [List.mem_cons, List.not_mem_nil, or_false] at ht
      rcases ht with rfl | rfl
      · exact Kept.of_marked hs.marked
      · exact hnext.kept

/-! ## One open -/

/-- an open that has returned: the plaintext of the `k` blocks, the length, and a header without the marker -/
structure Opened (A : Aead Bytes) (key : Bytes) (L k e : ℕ) (b : ℕ → UInt8) (s : Backend) : Prop extends Sound A key b 0 s where
  logical : s.inner.logicalLen = L
  synced : s.file.unsynced = []
  magic : s.file.bytes.take 8 = MAGIC
  blocks : BlocksAt A key s.file.bytes k b
  header : readHeader A key s.file.bytes = .ok ⟨L, e, false, false⟩
  numbered : Numbered s.seals k e s.file.bytes

theorem Opened.disk {s : Backend} (h : Opened A key L k e b s) : Disk A key L k e b s.seals s.file.bytes :=
  ⟨h.magic, h.blocks, false, false, h.header, fun _ => h.numbered⟩

/-- a header under a nonce that no block has -/
theorem numbered_headed (hA : A.Correct) {s : Backend} (hq : s.inner.seq ≤ MAX_U48) (he : s.inner.epoch ≤ MAX_U48)
    (hblocks : ∀ j < k, blockNonce s.file.bytes j ∈ s.seals ∧ ∃ p, blockNonce s.file.bytes j = nonceOf p ∧
      (p.1 < s.inner.epoch ∨ p.1 = s.inner.epoch ∧ p.2 < s.inner.seq) ∧ p.2 ≤ MAX_U48)
    (hnodup : ((List.range k).map (blockNonce s.file.bytes)).Nodup) (r : Bool) :
    Numbered (s.headed A key r).seals k s.inner.epoch (s.headed A key r).file.bytes := by
  have hn := @headed_nonces A key k hA s r
  refine ⟨⟨?_, ?_⟩, ?_⟩
  · intro x hx
    rw [hn, List.mem_cons, List.mem_map] at hx
    rcases hx with rfl | ⟨j, hj, rfl⟩
    · exact List.mem_cons_self
    · exact List.mem_cons_of_mem _ (hblocks j (List.mem_range.1 hj)).1
  · rw [hn, List.nodup_cons]
    refine ⟨fun hmem => ?_, hnodup⟩
    obtain ⟨j, hj, heq⟩ := List.mem_map.1 hmem
    obtain ⟨-, p, hp, hlt, hp2⟩ := hblocks j (List.mem_range.1 hj)
    have hp1 : p.1 ≤ s.inner.epoch := hlt.elim Nat.le_of_lt fun h => Nat.le_of_eq h.1
    have hsame := nonceOf_inj ⟨hp1.trans he, hp2⟩ ⟨he, hq⟩ (hp.symm.trans heq : nonceOf p = nonceOf (s.inner.epoch, s.inner.seq))
    rw [hsame] at hlt
    simp only [Nat.lt_irrefl, and_false, or_false] at hlt
  · intro x hx
    rw [hn, List.mem_cons, List.mem_map] at hx
    rcases hx with rfl | ⟨j, hj, rfl⟩
    · exact ⟨(s.inner.epoch, s.inner.seq), rfl, Nat.le_refl _, hq⟩
    · obtain ⟨-, p, hp, hlt, hp2⟩ := hblocks j (List.mem_range.1 hj)
      exact ⟨p, hp, hlt.elim Nat.le_of_lt fun h => Nat.le_of_eq h.1, hp2⟩

/-- the header that clears the marker -/
theorem Rewriting.cleared (hA : A.Correct) (hL : L ≤ MAX_U48) (hk : k < MAX_U48) (he : e ≤ MAX_U48)
    (hz : ∀ i, k * 4096 ≤ i → b i = 0) {s : Backend} (h : Rewriting A key L k e b k s) :
    Opened A key L k e b (s.headed A key false).synced := by
  have hi := h.inner
  have hl : s.inner.logicalLen ≤ MAX_U48 := by rw [hi]; exact hL
  have he' : s.inner.epoch ≤ MAX_U48 := by rw [hi]; exact he
  have hq : s.inner.seq ≤ MAX_U48 := by rw [hi]; exact hk
  obtain ⟨hmagic, hblocks, hread⟩ := headed_marked (A := A) hA (h.marked _ List.mem_cons_self).blocks hl he' false
  have hinj : ∀ i < k, ∀ j < k, nonceOf (e, i + 1) = nonceOf (e, j + 1) → i = j := fun i hi j hj heq => by
    have hpair := nonceOf_inj ⟨he, Nat.succ_le_of_lt (hi.trans hk)⟩ ⟨he, Nat.succ_le_of_lt (hj.trans hk)⟩ heq
    exact Nat.succ.inj (congrArg Prod.snd hpair)
  have hnum : Numbered (s.headed A key false).seals k s.inner.epoch (s.headed A key false).file.bytes := by
    refine numbered_headed hA hq he' (fun j hj => ?_) ?_ false
    · obtain ⟨hnonce, hmem⟩ := h.rewritten j hj
      rw [hnonce, hi]
      exact ⟨hmem, _, rfl, Or.inr ⟨rfl, Nat.succ_lt_succ hj⟩, hj.trans hk⟩
    · refine List.Nodup.map_on (fun i hi j hj heq => ?_) List.nodup_range
      rw [List.mem_range] at hi hj
      rw [(h.rewritten i hi).1, (h.rewritten j hj).1] at heq
      exact hinj i hi j hj heq
  rw [hi] at hread hnum
  refine ⟨⟨(headed_sound hA (h.sound hz) false).present⟩, ?_, rfl, hmagic, hblocks, hread, hnum⟩
  change s.inner.logicalLen = L
  rw [hi]

theorem resealLegacyBlocks_disk (hA : A.Correct) (hL : L ≤ MAX_U48) (hk : k < MAX_U48) (he : e + 1 ≤ MAX_U48)
    (hz : ∀ i, k * 4096 ≤ i → b i = 0) {E : IoError → Backend → Prop} :
    Spec (Rewriting A key L k (e + 1) b 0) (resealLegacyBlocks A key) (fun _ => Opened A key L k (e + 1) b) E (Kept A key L k e b) := by
  refine Spec.get_bind fun s hs => ?_
  have hcount : (s.inner.physLen - HEADER_PHYS) / PHYS_BLOCK = k := by
    rw [hs.inner, show (Inner.mk L (blockPhysOffset k) (e + 1) (0 + 1)).physLen = blockPhysOffset k from rfl, blockPhysOffset,
      Nat.add_sub_cancel_left, Nat.mul_div_cancel _ (by decide)]
  rw [hcount, List.range_eq_range']
  refine Spec.bind ((resealLoop_rewriting hA hz k 0 (Nat.zero_add k) hk).conseq (fun u hu => hu ▸ hs) (fun _ _ h => h)
    (fun _ _ h => h) fun _ h => h) fun _ => ?_
  apply Spec.of_apply
  intro t ht
  have hl : t.inner.logicalLen ≤ MAX_U48 := by rw [ht.inner]; exact hL
  have hopened := ht.cleared hA hL hk he hz
  refine ⟨ht.kept, [t.sealed, t.headed A key false, (t.headed A key false).synced], .ok (), ?_, fun u hu => ?_, fun _ _ => hopened, fun x hx => by cases hx⟩
  · rw [Prog.bind_apply_ok (writeHeader_ok hl false)]
    rfl
  · simp only [List.mem_cons, List.not_mem_nil, or_false] at hu
    rcases hu with rfl | rfl | rfl
    · exact Kept.of_marked ht.marked
    · exact Kept.of_cleared hopened.disk ht.marked
    · exact Kept.of_cleared hopened.disk fun x hx => by cases hx

/-- the first header of an open: the next epoch, and the marker if the blocks are still to be rewritten -/
theorem Disk.headed (hA : A.Correct) (hL : L ≤ MAX_U48) (he : e + 1 ≤ MAX_U48) {u : Backend} {n : ℕ} {legacy pending : Bool}
    (h : Disk A key L k e b u.seals u.file.bytes) (hread : readHeader A key u.file.bytes = .ok ⟨L, e, legacy, pending⟩)
    (hi : u.inner = ⟨L, n, e + 1, 0⟩) : Disk A key L k (e + 1) b (u.headed A key (legacy || pending)).seals
      (u.headed A key (legacy || pending)).file.bytes := by
  have hl : u.inner.logicalLen ≤ MAX_U48 := by rw [hi]; exact hL
  have he' : u.inner.epoch ≤ MAX_U48 := by rw [hi]; exact he
  have hq : u.inner.seq ≤ MAX_U48 := by rw [hi]; exact Nat.zero_le _
  obtain ⟨hmagic, hblocks, hread'⟩ := headed_marked (A := A) hA h.blocks hl he' (legacy || pending)
  rw [hi] at hread'
  refine ⟨hmagic, hblocks, false, legacy || pending, hread', fun hr => ?_⟩
  rw [Bool.false_or] at hr
  obtain ⟨legacy', pending', hsame, hclean⟩ := h.header
  cases hread.symm.trans hsame
  have hnum := hclean hr
  have hcons := hnum.nodup
  rw [nonces, List.nodup_cons] at hcons
  have hmem : ∀ j < k, blockNonce u.file.bytes j ∈ nonces k u.file.bytes := fun j hj =>
    List.mem_cons_of_mem _ (List.mem_map_of_mem (List.mem_range.2 hj))
  have hlast := @numbered_headed A key k hA u hq he' (fun j hj => by
    obtain ⟨p, hp, hle, hp2⟩ := hnum.epochs _ (hmem j hj)
    rw [hi]
    exact ⟨hnum.issued _ (hmem j hj), p, hp, Or.inl (Nat.lt_succ_of_le hle), hp2⟩) hcons.2 (legacy || pending)
  rwa [hi] at hlast

/-- before the header is written, a crash leaves the file as it was -/
theorem Disk.kept (h : Disk A key L k e b issued f) {s : Backend} (hfile : s.file = ⟨f, []⟩) (hseals : ∀ x ∈ issued, x ∈ s.seals) :
    Kept A key L k e b s := by
  have himages : s.file.images = [f] := by rw [hfile, File.images]
  refine Kept.of_same (fun x hx => ?_) fun x hx y hy j _ => ?_
  · rw [himages, List.mem_singleton] at hx
    rw [hx]
    exact ⟨e, Or.inl rfl, h.mono hseals⟩
  · rw [himages, List.mem_singleton] at hx hy
    rw [hx, hy]

/-- after that, with or without the new header -/
theorem Disk.kept_headed (hA : A.Correct) {u : Backend} {r : Bool} (h : Disk A key L k e b u.seals f) (hfile : u.file = ⟨f, []⟩)
    (hheaded : Disk A key L k (e + 1) b (u.headed A key r).seals (u.headed A key r).file.bytes) :
    Kept A key L k e b (u.headed A key r) ∧ Kept A key L k e b (u.headed A key r).synced := by
  have hbytes : u.file.bytes = f := by rw [hfile]
  have himages : (u.headed A key r).file.images = [(u.headed A key r).file.bytes, f] := by
    change _ :: u.file.bytes :: u.file.unsynced = _
    rw [hfile]
  have hblock : ∀ x ∈ (u.headed A key r).file.images, ∀ j, blockAt x j = blockAt f j := by
    intro x hx j
    rw [himages, List.mem_cons, List.mem_singleton] at hx
    rcases hx with rfl | rfl
    · exact (blockAt_header (length_headerBytes hA u r) j).trans (by rw [hbytes])
    · rfl
  refine ⟨Kept.of_same (fun x hx => ?_) fun x hx y hy j _ => (hblock x hx j).trans (hblock y hy j).symm,
    Kept.of_same (fun x hx => ⟨e + 1, Or.inr rfl, List.mem_singleton.1 hx ▸ hheaded⟩) fun x hx y hy j _ => ?_⟩
  · rw [himages, List.mem_cons, List.mem_singleton] at hx
    rcases hx with rfl | rfl
    · exact ⟨e + 1, Or.inr rfl, hheaded⟩
    · exact ⟨e, Or.inl rfl, h.mono fun x hx => List.mem_cons_of_mem _ hx⟩
  · rw [List.mem_singleton.1 hx, List.mem_singleton.1 hy]

/-- with the marker on disk, no block is rewritten yet -/
theorem rewriting_start (hA : A.Correct) (hL : L ≤ MAX_U48) (he : e ≤ MAX_U48) {u : Backend} (hf : BlocksAt A key u.file.bytes k b)
    (hi : u.inner = ⟨L, u.file.bytes.length, e, 0⟩) : Rewriting A key L k e b 0 (u.headed A key true).synced := by
  obtain ⟨hmagic, hblocks, hread⟩ := headed_marked (A := A) hA hf (by rw [hi]; exact hL) (by rw [hi]; exact he) true
  rw [hi] at hread
  refine ⟨?_, fun x hx => ?_, nofun⟩
  · change Inner.mk u.inner.logicalLen (max u.inner.physLen HEADER_PHYS) u.inner.epoch (u.inner.seq + 1) = _
    rw [hi, show (Inner.mk L u.file.bytes.length e 0).physLen = blockPhysOffset k from hf.length]
    exact congrArg (fun p => Inner.mk L p e 1) (max_eq_left (Nat.le_add_right 52 _))
  · rw [List.mem_singleton.1 hx]
    exact ⟨hmagic, hblocks, hread⟩

/-- with the header read -/
theorem reserveEpoch_disk (hA : A.Correct) (hL : L ≤ MAX_U48) (hk : k < MAX_U48) (he : e < MAX_U48)
    (hz : ∀ i, k * 4096 ≤ i → b i = 0) {legacy pending : Bool} :
    Spec (fun s => s.file.unsynced = [] ∧ Disk A key L k e b s.seals s.file.bytes ∧
        readHeader A key s.file.bytes = .ok ⟨L, e, legacy, pending⟩)
      (reserveEpoch A key ⟨L, e, legacy, pending⟩) (fun _ => Opened A key L k (e + 1) b) (fun _ _ => False) (Kept A key L k e b) := by
  refine Spec.of_states fun s hs => ?_
  obtain ⟨hsync, hdisk, hread⟩ := hs
  have hfile : s.file = ⟨s.file.bytes, []⟩ := by rw [← hsync]
  let u : Backend := { s with inner := ⟨L, s.file.bytes.length, e + 1, 0⟩ }
  have hheaded := Disk.headed (u := u) hA hL he hdisk hread rfl
  obtain ⟨hafter, hsynced⟩ := Disk.kept_headed (u := u) hA hdisk hfile hheaded
  rw [reserveEpoch, if_pos (show e + 1 ≤ MAX_U48 from he)]
  refine Spec.bind (R := fun _ t => t = u) (Spec.modify (fun t ht => by rw [ht]) (fun t ht => ht ▸ hdisk.kept hfile fun _ hx => hx)
    fun t ht => by rw [ht]; exact hdisk.kept hfile fun _ hx => hx) fun _ => ?_
  refine Spec.bind (R := fun _ t => t = u.headed A key (legacy || pending)) ?_ fun _ => ?_
  · apply Spec.of_apply
    rintro t rfl
    refine ⟨hdisk.kept hfile fun _ hx => hx, _, _, writeHeader_ok hL _, fun v hv => ?_, fun _ _ => rfl, nofun⟩
    simp only [List.mem_cons, List.not_mem_nil, or_false] at hv
    rcases hv with rfl | rfl
    · exact hdisk.kept hfile fun x hx => List.mem_cons_of_mem _ hx
    · exact hafter
  refine Spec.bind (R := fun _ t => t = (u.headed A key (legacy || pending)).synced) (Spec.modify (fun t ht => by rw [ht])
    (fun t ht => ht ▸ hafter) fun t ht => by rw [ht]; exact hsynced) fun _ => ?_
  have hmax : max u.inner.physLen HEADER_PHYS = blockPhysOffset k := by
    rw [show u.inner.physLen = s.file.bytes.length from rfl, hdisk.blocks.length]
    exact max_eq_left (Nat.le_add_right 52 _)
  obtain ⟨hmagic, hblocks, hread'⟩ := headed_marked (A := A) (s := u) hA hdisk.blocks hL he (legacy || pending)
  cases hr : legacy || pending with
  | false =>
    rw [hr] at hmagic hblocks hread' hheaded hsynced
    refine Spec.pure () ?_ fun t ht => ht ▸ hsynced
    rintro t rfl
    obtain ⟨legacy', pending', hsame, hclean⟩ := hheaded.header
    cases hread'.symm.trans hsame
    refine ⟨⟨k, hmax, ?_, hz⟩, rfl, rfl, hmagic, hblocks, hread', hclean rfl⟩
    rw [Nat.max_zero]
    exact hblocks
  | true =>
    refine (resealLegacyBlocks_disk hA hL hk he hz).conseq ?_ (fun _ _ h => h) (fun _ _ h => h) fun _ h => h
    rintro t rfl
    exact rewriting_start hA hL he hdisk.blocks rfl

theorem readStored_of_header (onForeign : ForeignFile) {s : Backend} {stored : StoredHeader} (hmagic : s.file.bytes.take 8 = MAGIC)
    (hread : readHeader A key s.file.bytes = .ok stored) : readStored A key onForeign s = ([], .ok stored) := by
  have hlen : 52 ≤ s.file.bytes.length := readHeader_length hread
  rw [readStored, Prog.get_bind_apply, if_neg (by omega), if_pos ⟨by omega, hmagic⟩, hread]
  rfl

theorem readStored_disk (onForeign : ForeignFile) {s : Backend} (h : Disk A key L k e b issued s.file.bytes) :
    ∃ legacy pending, readStored A key onForeign s = ([], .ok ⟨L, e, legacy, pending⟩) ∧
      readHeader A key s.file.bytes = .ok ⟨L, e, legacy, pending⟩ := by
  obtain ⟨legacy, pending, hread, -⟩ := h.header
  exact ⟨legacy, pending, readStored_of_header onForeign h.magic hread, hread⟩

/-- **An open, with crashes.** It returns with the plaintext of the file found and a header without the marker, or a crash leaves a file
that the next open finds. -/
theorem openFile_disk (hA : A.Correct) (hL : L ≤ MAX_U48) (hk : k < MAX_U48) (he : e < MAX_U48) (hz : ∀ i, k * 4096 ≤ i → b i = 0)
    (onForeign : ForeignFile) :
    Spec (fun s => s.file.unsynced = [] ∧ Disk A key L k e b s.seals s.file.bytes) (openFile A key onForeign)
      (fun _ => Opened A key L k (e + 1) b) (fun _ _ => False) (Kept A key L k e b) := by
  refine Spec.of_states fun s hs => ?_
  obtain ⟨legacy, pending, hstored, hread⟩ := readStored_disk onForeign hs.2
  have hfile : s.file = ⟨s.file.bytes, []⟩ := by rw [← hs.1]
  refine Spec.bind ((Spec.of_silent hstored (hs.2.kept hfile fun _ hx => hx)).conseq (fun _ h => h) (fun _ _ h => h)
    (fun _ _ h => h.elim) fun _ h => h) fun stored => ?_
  rintro t ⟨rfl, rfl⟩
  exact reserveEpoch_disk hA hL hk he hz t ⟨hs.1, hs.2, hread⟩

/-! ## Any number of opens -/

/-- **However often it was interrupted**, what is left is a file to open, at an epoch for each open at most. -/
theorem Openings.disk (hA : A.Correct) (hL : L ≤ MAX_U48) (hk : k < MAX_U48) (hz : ∀ i, k * 4096 ≤ i → b i = 0) {m₀ m : Machine} {n : ℕ}
    (hrun : Openings A key m₀ n m) (h₀ : m₀.file.unsynced = [] ∧ Disk A key L k 0 b m₀.seals m₀.file.bytes) (hn : n ≤ MAX_U48) :
    m.file.unsynced = [] ∧ ∃ e ≤ n, Disk A key L k e b m.seals m.file.bytes := by
  induction hrun with
  | start => exact ⟨h₀.1, 0, Nat.le_refl 0, h₀.2⟩
  | @returned n m onForeign _ ih =>
    obtain ⟨hsync, e, he, hdisk⟩ := ih (Nat.le_of_succ_le hn)
    obtain ⟨-, hok, herr⟩ := openFile_disk hA hL hk (Nat.lt_of_le_of_lt he hn) hz onForeign m.opening ⟨hsync, hdisk⟩
    cases hres : (openFile A key onForeign).result m.opening with
    | error err => exact (herr err hres).elim
    | ok a =>
      have hopened := hok a hres
      have hstep : step A key m (.call (.openFile onForeign)) = Machine.leave ((openFile A key onForeign).final m.opening)
          (.openFile onForeign) (.ok a) := by
        rw [← hres]
        rfl
      rw [hstep]
      exact ⟨hopened.synced, e + 1, Nat.succ_le_succ he, hopened.disk⟩
  | @interrupted n m onForeign cut g _ hg ih =>
    obtain ⟨hsync, e, he, hdisk⟩ := ih (Nat.le_of_succ_le hn)
    obtain ⟨hcrash, -, -⟩ := openFile_disk hA hL hk (Nat.lt_of_le_of_lt he hn) hz onForeign m.opening ⟨hsync, hdisk⟩
    obtain ⟨e', he', hdisk'⟩ := hcrash _ (Crash.cutAt _ _ cut) g hg
    refine ⟨rfl, e', ?_, hdisk'⟩
    rcases he' with rfl | rfl
    · exact he.trans (Nat.le_succ n)
    · exact Nat.succ_le_succ he

/-! ## Version-1 files are such files -/

variable {nonce : Bytes} {blocks : List (Bytes × Bytes)}

/-- the plaintext of a version-1 file, zeros behind its blocks -/
def contents (blocks : List (Bytes × Bytes)) : ℕ → UInt8 := padded 0 (blocks.map Prod.snd).flatten

/-- nonces of 12 bytes, blocks of 4096 -/
def WellSized (nonce : Bytes) (blocks : List (Bytes × Bytes)) : Prop :=
  nonce.length = NONCE_LEN ∧ ∀ blk ∈ blocks, blk.1.length = NONCE_LEN ∧ blk.2.length = BLOCK_SIZE

theorem length_legacyHeader (hA : A.Correct) (hnonce : nonce.length = 12) (L : ℕ) : (legacyHeader A key nonce L).length = 52 := by
  simp [legacyHeader, legacyPlaintext, hA.length_encrypt, hnonce, MAGIC]

theorem readHeader_legacy (hA : A.Correct) (hnonce : nonce.length = 12) (hL : L < 2 ^ 64) (rest : Bytes) :
    readHeader A key (legacyHeader A key nonce L ++ rest) = .ok ⟨L, 0, true, false⟩ := by
  rw [readHeader_append (length_legacyHeader hA hnonce L)]
  have h1 : slice (legacyHeader A key nonce L) 8 20 = nonce := by
    rw [legacyHeader, ← List.append_assoc]
    exact slice_middle rfl (by rw [hnonce])
  have h2 : slice (legacyHeader A key nonce L) 20 52 = A.encrypt key nonce MAGIC (legacyPlaintext L) := by
    rw [legacyHeader, ← List.append_assoc, ← List.append_nil (MAGIC ++ nonce ++ _)]
    exact slice_middle (by simp [MAGIC, hnonce]) (by simp [hA.length_encrypt, legacyPlaintext])
  have h3 : slice (legacyPlaintext L) 0 4 = beBytes 4 1 := by
    rw [legacyPlaintext, List.append_assoc]
    exact slice_front rfl
  have h4 : slice (legacyPlaintext L) 4 8 = beBytes 4 BLOCK_SIZE := slice_middle rfl rfl
  have h5 : slice (legacyPlaintext L) 8 16 = beBytes 8 L := by
    rw [legacyPlaintext, ← List.append_nil (beBytes 4 1 ++ beBytes 4 BLOCK_SIZE ++ beBytes 8 L)]
    exact slice_middle rfl (by simp)
  have h6 : (legacyPlaintext L).length = 16 := by simp [legacyPlaintext]
  have h7 : (legacyPlaintext L).getD 0 0 = LEGACY_VERSION_TAG := rfl
  have h8 : ¬(legacyHeader A key nonce L).length < HEADER_PHYS := by
    rw [length_legacyHeader hA hnonce]
    exact Nat.lt_irrefl 52
  unfold readHeader
  rw [if_neg h8, h1, h2, hA.decrypt_encrypt]
  simp only [h3, h4, h5, h6, h7, ofBe_beBytes]
  rw [Nat.mod_eq_of_lt (show L < 256 ^ 8 from hL)]
  rfl

theorem opens_legacyBlock (hA : A.Correct) {blk : Bytes × Bytes} (h1 : blk.1.length = 12) (h2 : blk.2.length = 4096) (idx : ℕ) :
    Opens A key idx (legacyBlock A key idx blk) blk.2 := by
  refine ⟨by simp [legacyBlock, hA.length_encrypt, h1, h2], ?_⟩
  rw [legacyBlock, List.take_left' h1, List.drop_left' h1]
  exact hA.decrypt_encrypt _ _ _ _

theorem legacyFile_blocks (hA : A.Correct) (h : WellSized nonce blocks) :
    BlocksAt A key (legacyFile A key nonce L blocks) blocks.length (contents blocks) ∧
      (blocks.map Prod.snd).flatten.length = blocks.length * 4096 := by
  induction blocks using List.reverseRecOn with
  | nil =>
    refine ⟨⟨?_, nofun⟩, rfl⟩
    rw [legacyFile, List.mapIdx_nil, List.flatten_nil, List.append_nil]
    exact length_legacyHeader hA h.1 L
  | append_singleton blocks blk ih =>
    have hblk := h.2 blk (List.mem_append_right _ (List.mem_singleton_self blk))
    obtain ⟨hf, hlen⟩ := ih ⟨h.1, fun x hx => h.2 x (List.mem_append_left _ hx)⟩
    have hput := hf.put (Nat.le_refl _) (opens_legacyBlock hA hblk.1 hblk.2 blocks.length) hblk.2
    rw [max_eq_right (Nat.le_succ _), ← hf.length, pwrite_end (Nat.le_refl _), setLen_self, contents, ← hlen, ← padded_pwrite,
      pwrite_end (Nat.le_refl _), setLen_self] at hput
    have hfile : legacyFile A key nonce L (blocks ++ [blk]) =
        legacyFile A key nonce L blocks ++ legacyBlock A key blocks.length blk := by
      rw [legacyFile, List.mapIdx_concat, List.flatten_append, List.flatten_singleton, ← List.append_assoc]
      rfl
    have hplain : ((blocks ++ [blk]).map Prod.snd).flatten = (blocks.map Prod.snd).flatten ++ blk.2 := by
      rw [List.map_append, List.map_singleton, List.flatten_append, List.flatten_singleton]
    rw [hfile, contents, hplain, List.length_append, List.length_singleton, List.length_append, hlen, hblk.2, Nat.succ_mul]
    exact ⟨hput, rfl⟩

theorem legacyFile_disk (hA : A.Correct) (h : WellSized nonce blocks) (hL : L < 2 ^ 64) :
    Disk A key L blocks.length 0 (contents blocks) [] (legacyFile A key nonce L blocks) :=
  ⟨rfl, (legacyFile_blocks hA h).1, true, false, readHeader_legacy hA h.1 hL _, nofun⟩

theorem contents_of_le (hA : A.Correct) (h : WellSized nonce blocks) {i : ℕ} (hi : blocks.length * 4096 ≤ i) : contents blocks i = 0 :=
  padded_of_le 0 ((@legacyFile_blocks A [] 0 nonce blocks hA h).2 ▸ hi)

/-- **Opening a version-1 file is crash-safe**, within 48 bits. Take any version-1 file with a logical length below 2^48 and less than
2^48 - 1 blocks, and less than 2^48 - 1 opens of it, each of them interrupted anywhere or not. The next open succeeds; the length and the
plaintext are those of the version-1 file; and then the nonces of the header and of every block were issued by the counter, none of
them twice. -/
theorem legacy_open_crash_safe (hA : A.Correct) (hsizes : WellSized nonce blocks) (hL : L ≤ MAX_U48) (hcount : blocks.length < MAX_U48)
    {n : ℕ} {m : Machine} (hrun : Openings A key (Machine.found (legacyFile A key nonce L blocks)) n m) (hn : n < MAX_U48)
    (onForeign : ForeignFile) :
    (openFile A key onForeign).result m.opening = .ok () ∧
    let s := (openFile A key onForeign).final m.opening
    len s = L ∧ (∀ offset count, read A key s offset count = .ok (span (contents blocks) offset count)) ∧
      s.file.bytes.length = blockPhysOffset blocks.length ∧ Counted s.seals blocks.length s.file.bytes := by
  have hz : ∀ i, blocks.length * 4096 ≤ i → contents blocks i = 0 := fun i => contents_of_le hA hsizes
  have hstart := @legacyFile_disk A key L nonce blocks hA hsizes (hL.trans_lt (by norm_num))
  obtain ⟨hsync, e, he, hdisk⟩ := hrun.disk hA hL hcount hz ⟨rfl, hstart⟩ (Nat.le_of_lt hn)
  obtain ⟨-, hok, herr⟩ := openFile_disk hA hL hcount (he.trans_lt hn) hz onForeign m.opening ⟨hsync, hdisk⟩
  cases hres : (openFile A key onForeign).result m.opening with
  | error err => exact (herr err hres).elim
  | ok a =>
    have hopened := hok a hres
    exact ⟨rfl, hopened.logical, read_eq hopened.toSound, hopened.blocks.length, hopened.numbered.toCounted⟩

/-- one byte repeated for each nonce and block -/
def sampleNonce (c : UInt8) : Bytes := List.replicate NONCE_LEN c

def sampleBlock (c d : UInt8) : Bytes × Bytes := (sampleNonce c, List.replicate BLOCK_SIZE d)

theorem sample_sized (c c' d : UInt8) : WellSized (sampleNonce c) [sampleBlock c' d] := by
  refine ⟨List.length_replicate, fun blk hblk => ?_⟩
  rw [List.mem_singleton.1 hblk]
  exact ⟨List.length_replicate, List.length_replicate⟩

theorem survives_now (f : File) : Survives f f.bytes :=
  ⟨[], f.bytes, f.unsynced, rfl, rfl, rfl, fun _ => ⟨f.bytes, List.mem_cons_self, rfl⟩⟩

/-- one block, and an open cut after its sixth effect -/
theorem legacy_open_crash_safe_sample : ∃ m s, Openings Aead.tagged [7]
      (Machine.found (legacyFile Aead.tagged [7] (sampleNonce 9) 4096 [sampleBlock 8 5])) 1 m ∧
    (openFile Aead.tagged [7] .Reject).result m.opening = .ok () ∧ (openFile Aead.tagged [7] .Reject).final m.opening = s ∧
    read Aead.tagged [7] s 4095 2 = .ok [5, 0] ∧ (nonces 1 s.file.bytes).Nodup := by
  have hstart := @Openings.start Aead.tagged [7] (Machine.found (legacyFile Aead.tagged [7] (sampleNonce 9) 4096 [sampleBlock 8 5]))
  have hrun := hstart.interrupted .Reject 6 (survives_now _)
  obtain ⟨hok, -, hread, -, hcounted⟩ := legacy_open_crash_safe Aead.tagged_correct (sample_sized 9 8 5) (by decide) (by decide)
    hrun (by decide) .Reject
  refine ⟨_, _, hrun, hok, rfl, ?_, hcounted.nodup⟩
  rw [hread]
  simp [span, contents, padded, sampleBlock, List.range_succ, List.getD_eq_getElem?_getD, List.getElem?_replicate]

/-! ## Where 48 bits end -/

/-- each open that returns burns an epoch -/
theorem exists_openings (hA : A.Correct) (hL : L ≤ MAX_U48) (hk : k < MAX_U48) (hz : ∀ i, k * 4096 ≤ i → b i = 0) {m₀ : Machine}
    (h₀ : m₀.file.unsynced = [] ∧ Disk A key L k 0 b m₀.seals m₀.file.bytes) {n : ℕ} (hn : n ≤ MAX_U48) :
    ∃ m, Openings A key m₀ n m ∧ m.file.unsynced = [] ∧ Disk A key L k n b m.seals m.file.bytes := by
  induction n with
  | zero => exact ⟨m₀, .start, h₀⟩
  | succ n ih =>
    obtain ⟨m, hrun, hm⟩ := ih (Nat.le_of_succ_le hn)
    obtain ⟨-, hok, herr⟩ := openFile_disk hA hL hk hn hz .Reject m.opening hm
    cases hres : (openFile A key .Reject).result m.opening with
    | error err => exact (herr err hres).elim
    | ok a =>
      have hopened := hok a hres
      have hstep : step A key m (.call (.openFile .Reject)) = Machine.leave ((openFile A key .Reject).final m.opening)
          (.openFile .Reject) (.ok a) := by
        rw [← hres]
        rfl
      exact ⟨_, .returned .Reject hrun, by rw [hstep]; exact hopened.synced, by rw [hstep]; exact hopened.disk⟩

theorem openFile_exhausted {s : Backend} (h : Disk A key L k MAX_U48 b issued s.file.bytes) :
    (openFile A key .Reject).result s = .error epochExhausted := by
  obtain ⟨legacy, pending, hstored, -⟩ := readStored_disk .Reject h
  rw [openFile, Prog.result, Prog.bind_apply_silent hstored, reserveEpoch, if_neg (Nat.not_succ_le_self MAX_U48)]
  rfl

theorem openFile_too_long {s : Backend} (h : Disk A key L k e b issued s.file.bytes) (hL : MAX_U48 < L) (he : e < MAX_U48) :
    (openFile A key .Reject).result s = .error (.invalidData "index logical length exceeds 48-bit field") := by
  obtain ⟨legacy, pending, hstored, -⟩ := readStored_disk .Reject h
  rw [openFile, Prog.result, Prog.bind_apply_silent hstored, reserveEpoch, if_pos (show e + 1 ≤ MAX_U48 from he),
    Prog.modify_bind_apply, Prog.bind_apply_error (writeHeader_too_long (by exact hL) _)]

/-- a length of 2^48 is refused at once, and after 2^48 - 1 opens there is no epoch left -/
theorem legacy_open_refused :
    (openFile Aead.tagged [7] .Reject).result
        (Machine.found (legacyFile Aead.tagged [7] (sampleNonce 9) (2 ^ 48) [sampleBlock 8 5])).opening =
      .error (.invalidData "index logical length exceeds 48-bit field") ∧
    ∃ m, Openings Aead.tagged [7] (Machine.found (legacyFile Aead.tagged [7] (sampleNonce 9) 4096 [sampleBlock 8 5])) MAX_U48 m ∧
      (openFile Aead.tagged [7] .Reject).result m.opening = .error epochExhausted := by
  have hdisk : ∀ L < 2 ^ 64, Disk Aead.tagged [7] L 1 0 (contents [sampleBlock 8 5]) []
      (legacyFile Aead.tagged [7] (sampleNonce 9) L [sampleBlock 8 5]) := fun L hL =>
    legacyFile_disk Aead.tagged_correct (sample_sized 9 8 5) hL
  refine ⟨openFile_too_long (hdisk (2 ^ 48) (by norm_num)) (by norm_num) (by norm_num), ?_⟩
  have hlength : 4096 ≤ MAX_U48 := by norm_num
  have hone : 1 < MAX_U48 := by norm_num
  have hstart := @exists_openings _ [7] 4096 1 _ Aead.tagged_correct hlength hone
    (fun i => contents_of_le Aead.tagged_correct (sample_sized 9 8 5)) (Machine.found _) ⟨rfl, hdisk 4096 (by norm_num)⟩
  obtain ⟨m, hrun, -, hm⟩ := hstart (Nat.le_refl MAX_U48)
  exact ⟨m, hrun, openFile_exhausted hm⟩

/-! ## The marker and the blocks before it -/

/-- the state an open writes its first header from -/
def Backend.reserved (s : Backend) (stored : StoredHeader) : Backend :=
  { s with inner := ⟨stored.logicalLen, s.file.bytes.length, stored.nonceEpoch + 1, 0⟩ }

theorem openFile_apply {onForeign : ForeignFile} {s : Backend} {stored : StoredHeader} {r : Bool}
    (hstored : readStored A key onForeign s = ([], .ok stored)) (hr : (stored.legacy || stored.resealPending) = r)
    (hL : stored.logicalLen ≤ MAX_U48) (he : stored.nonceEpoch + 1 ≤ MAX_U48) {l : List Backend}
    (hrest : (if r then resealLegacyBlocks A key else pure ()) ((s.reserved stored).headed A key r).synced = (l, .ok ())) :
    openFile A key onForeign s =
      ([s.reserved stored, (s.reserved stored).sealed, (s.reserved stored).headed A key r, ((s.reserved stored).headed A key r).synced] ++
        l, .ok ()) := by
  rw [openFile, Prog.bind_apply_silent hstored, reserveEpoch, if_pos he, Prog.modify_bind_apply, hr]
  have hheader : writeHeader A key r (s.reserved stored) = ([(s.reserved stored).sealed, (s.reserved stored).headed A key r], .ok ()) :=
    writeHeader_ok hL r
  have htail : (syncData >>= fun _ => if r then resealLegacyBlocks A key else pure ()) ((s.reserved stored).headed A key r) =
      (((s.reserved stored).headed A key r).synced :: l, .ok ()) := by
    rw [syncData, Prog.modify_bind_apply, hrest]
  rw [show (writeHeader A key r >>= fun _ => syncData >>= fun _ => if r then resealLegacyBlocks A key else pure ())
    { s with inner := ⟨stored.logicalLen, s.file.bytes.length, stored.nonceEpoch + 1, 0⟩ } = _ from Prog.bind_apply_ok hheader]
  change (_ :: ([(s.reserved stored).sealed, (s.reserved stored).headed A key r] ++
    ((syncData >>= fun _ => if r then resealLegacyBlocks A key else pure ()) ((s.reserved stored).headed A key r)).1),
    ((syncData >>= fun _ => if r then resealLegacyBlocks A key else pure ()) ((s.reserved stored).headed A key r)).2) = _
  rw [htail]
  rfl

/-- rewriting the only block -/
theorem resealLegacyBlocks_one (hz : ∀ i, 4096 ≤ i → b i = 0) (hL : L ≤ MAX_U48) {v : Backend} (h : Rewriting A key L 1 e b 0 v) :
    let w := v.stored A key 0 (span b 0 4096)
    resealLegacyBlocks A key v = ([v.sealed, w, w.sealed, w.headed A key false, (w.headed A key false).synced], .ok ()) := by
  intro w
  have hread := (h.sound (by simpa using hz)).readBlock 0
  have hwrite : writeBlock A key 0 (span b 0 4096) v = ([v.sealed, w], .ok ()) :=
    writeBlock_present _ (by rw [h.inner]; exact (by decide : 1 < MAX_U48)) (congrArg Inner.physLen h.inner) Nat.one_pos
  have hl : w.inner.logicalLen ≤ MAX_U48 := by
    change v.inner.logicalLen ≤ MAX_U48
    rw [h.inner]
    exact hL
  have hphys : (v.inner.physLen - HEADER_PHYS) / PHYS_BLOCK = 1 := by
    rw [h.inner]
    simp [blockPhysOffset]
  rw [resealLegacyBlocks, Prog.get_bind_apply, hphys]
  have hloop : ((List.range 1).foldlM (fun _ idx => do
      let t ← Prog.get
      let plain ← Prog.ofExcept (readBlock A key t idx)
      writeBlock A key idx plain) () : Prog Backend IoError Unit) v = ([v.sealed, w], .ok ()) := by
    have hbody : (Prog.get >>= fun t => Prog.ofExcept (readBlock A key t 0) >>= fun plain => writeBlock A key 0 plain) v =
        ([v.sealed, w], .ok ()) := by
      rw [Prog.get_bind_apply, hread]
      exact hwrite
    rw [show List.range 1 = [0] from rfl, List.foldlM_cons, Prog.bind_apply_ok hbody]
    rfl
  rw [Prog.bind_apply_ok hloop]
  change ([v.sealed, w] ++ ((writeHeader A key false >>= fun _ => syncData) w).1, ((writeHeader A key false >>= fun _ => syncData) w).2) = _
  rw [Prog.bind_apply_ok (writeHeader_ok hl false)]
  rfl

/-- the last header of the migration is not held back until the block is on disk: kept without it, the next open succeeds and leaves
the random nonce -/
theorem marker_outlives_block (hA : A.Correct) (hL : L ≤ MAX_U48) (hz : ∀ i, 4096 ≤ i → b i = 0) (hdisk : Disk A key L 1 0 b [] f)
    (hread : readHeader A key f = .ok ⟨L, 0, true, false⟩) (hrandom : ∀ p, p.1 ≤ 2 → blockNonce f 0 ≠ nonceOf p) :
    ∃ cut g, let t := (openFile A key .Reject).cutAt (Machine.found f).opening cut
      (g.take 52 = t.file.bytes.take 52 ∧ ∃ x ∈ t.file.images, blockAt g 0 = blockAt x 0) ∧
      let m : Machine := ⟨⟨g, []⟩, none, t.seals⟩
      (openFile A key .Reject).result m.opening = .ok () ∧
        blockNonce ((openFile A key .Reject).final m.opening).file.bytes 0 ∉ ((openFile A key .Reject).final m.opening).seals := by
  let u := (Machine.found f).opening.reserved ⟨L, 0, true, false⟩
  let v := (u.headed A key true).synced
  let w := v.stored A key 0 (span b 0 4096)
  let x := w.headed A key false
  have hv : Rewriting A key L 1 1 b 0 v := rewriting_start (u := u) hA hL (by decide) hdisk.blocks rfl
  have hopen : openFile A key .Reject (Machine.found f).opening =
      ([u, u.sealed, u.headed A key true, v] ++ [v.sealed, w, w.sealed, x, x.synced], .ok ()) :=
    openFile_apply (readStored_of_header .Reject hdisk.magic hread) rfl hL (show 0 + 1 ≤ MAX_U48 by decide)
      (resealLegacyBlocks_one hz hL hv)
  have hcut : (openFile A key .Reject).cutAt (Machine.found f).opening 8 = x := by
    rw [Prog.cutAt, hopen]
    rfl
  -- the last header, over the block as it was found
  let y : Backend := { w with file := ⟨f, []⟩ }
  have hg : ∀ j, blockAt (y.headed A key false).file.bytes j = blockAt f j := blockAt_header (length_headerBytes hA y false)
  obtain ⟨hmagic, hblocks, hlast⟩ := headed_marked (s := y) hA hdisk.blocks hL (show 1 ≤ MAX_U48 by decide) false
  refine ⟨8, (y.headed A key false).file.bytes, ?_⟩
  rw [hcut]
  refine ⟨⟨?_, v.file.bytes, List.mem_cons_of_mem _ (List.mem_cons_of_mem _ List.mem_cons_self), ?_⟩, ?_⟩
  · rw [headed_bytes hA, headed_bytes hA, List.take_left' (length_headerBytes hA y false), List.take_left' (length_headerBytes hA w false)]
    rfl
  · exact (hg 0).trans (blockAt_header (length_headerBytes hA u true) 0).symm
  · intro m
    have hagain : openFile A key .Reject m.opening = ([m.opening.reserved ⟨L, 1, false, false⟩,
        (m.opening.reserved ⟨L, 1, false, false⟩).sealed, (m.opening.reserved ⟨L, 1, false, false⟩).headed A key false,
        ((m.opening.reserved ⟨L, 1, false, false⟩).headed A key false).synced] ++ [], .ok ()) :=
      openFile_apply (readStored_of_header (s := m.opening) .Reject hmagic hlast) rfl hL (show 1 + 1 ≤ MAX_U48 by decide) rfl
    rw [Prog.result, Prog.final, hagain]
    refine ⟨rfl, fun hmem => ?_⟩
    have hnonce : blockNonce ((m.opening.reserved ⟨L, 1, false, false⟩).headed A key false).synced.file.bytes 0 = blockNonce f 0 :=
      congrArg (List.take 12) ((blockAt_header (length_headerBytes hA _ false) 0).trans (hg 0))
    have hseals : ((m.opening.reserved ⟨L, 1, false, false⟩).headed A key false).synced.seals =
        [nonceOf (2, 0), nonceOf (1, 2), nonceOf (1, 1), nonceOf (1, 0)] := rfl
    change blockNonce ((m.opening.reserved ⟨L, 1, false, false⟩).headed A key false).synced.file.bytes 0 ∈
      ((m.opening.reserved ⟨L, 1, false, false⟩).headed A key false).synced.seals at hmem
    rw [hnonce, hseals] at hmem
    simp only [List.mem_cons, List.not_mem_nil, or_false] at hmem
    rcases hmem with heq | heq | heq | heq
    · exact hrandom _ (by decide) heq
    · exact hrandom _ (by decide) heq
    · exact hrandom _ (by decide) heq
    · exact hrandom _ (by decide) heq

end Y2q.EncryptedBackend
