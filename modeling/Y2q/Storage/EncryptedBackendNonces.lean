/-
Nonces of the encrypted backend over a file's whole life.

A nonce is `epoch | seq`. Within a session the sequence counts up; every open moves past the epoch it finds in the header.
That gives distinct nonces as long as
- the sequence stays within its 48 bits (`Space`). Only `write_block` checks that, and only for the one seal that follows:
  headers and the blocks that fill a gap are sealed unchecked;
- a header that carries a new epoch is on disk before power is lost (`Reserved`). Between its seal and the end of its sync
  the next open may still find the old epoch, and seals its own first header under the same nonce.

- `nonces_distinct`: along every run of opens, calls and power losses whose steps keep to this, no nonce is used twice.
- `nonce_reused`: both ways to leave it repeat the nonce `1 | 0` of the first header.
-/
import Mathlib.Tactic
import Y2q.Core.Run
import Y2q.Storage.EncryptedBackend

namespace Y2q.EncryptedBackend

open Y2q CrashLogic Run

variable {A : Aead Bytes} {key : Bytes}

/-! ## The condition on a step -/

/-- the sequence number the next block write starts from: after a roll, the header has taken 0 -/
def firstSeq (i : Inner) : ℕ := if i.seq < MAX_U48 then i.seq else 1

/-- the zero blocks sealed before block `idx` -/
def gap (i : Inner) (idx : ℕ) : ℕ := idx - nextMissing i

/-- the blocks a write of `n > 0` bytes at `offset` goes through -/
def rounds (offset n : ℕ) : ℕ := (offset % BLOCK_SIZE + n + 4095) / BLOCK_SIZE

/-- the tail block `set_len` rewrites is on disk -/
def TailPresent (i : Inner) (n : ℕ) : Prop := n % BLOCK_SIZE ≠ 0 ∧ blockPhysOffset (n / BLOCK_SIZE + 1) ≤ i.physLen

/-- the gap and the block behind it fit the sequence, and so does the header if the file grows -/
structure WriteSpace (i : Inner) (offset : ℕ) (data : Bytes) : Prop where
  empty : data = [] → i.logicalLen < offset → i.seq ≤ MAX_U48
  block : data ≠ [] → firstSeq i + gap i (offset / BLOCK_SIZE) ≤ MAX_U48
  header : rounds offset data.length = 1 → data ≠ [] → i.logicalLen < offset + data.length →
    firstSeq i + gap i (offset / BLOCK_SIZE) < MAX_U48
  /-- no roll while the length does not fit the header -/
  roll : data ≠ [] →
    i.logicalLen ≤ MAX_U48 ∨ i.seq + gap i (offset / BLOCK_SIZE) + rounds offset data.length ≤ MAX_U48

/-- a header that is not behind a block write fits the sequence -/
structure SetLenSpace (i : Inner) (n : ℕ) : Prop where
  header : ¬ TailPresent i n → n ≤ MAX_U48 → i.seq ≤ MAX_U48
  roll : TailPresent i n → n ≤ MAX_U48 ∨ i.seq < MAX_U48

def Space (i : Inner) : Call → Prop
  | .write offset data => WriteSpace i offset data
  | .setLen n => SetLenSpace i n
  | _ => True

/-- nothing sealed yet in the running epoch, or its header is on disk -/
def Reserved (A : Aead Bytes) (key : Bytes) (s : Backend) : Prop :=
  s.inner.seq = 0 ∨ ∀ f ∈ s.file.images, f.take 8 = MAGIC ∧ ∃ h, readHeader A key f = .ok h ∧ h.nonceEpoch = s.inner.epoch

/-- the step leaves room in the sequence, and power is not lost while an epoch is being reserved -/
def Meets (A : Aead Bytes) (key : Bytes) (m : Machine) : Event → Prop
  | .call c => ∀ s, m.enter c = some s → Space s.inner c
  | .crash c cut _ _ => ∀ s, m.enter c = some s → Space s.inner c ∧ Reserved A key ((c.prog A key).cutAt s cut)

/-! ## What has been sealed -/

def nonceOf (p : ℕ × ℕ) : Bytes := beBytes 6 p.1 ++ beBytes 6 p.2

theorem nonceOf_inj {p q : ℕ × ℕ} (hp : p.1 ≤ MAX_U48 ∧ p.2 ≤ MAX_U48) (hq : q.1 ≤ MAX_U48 ∧ q.2 ≤ MAX_U48)
    (h : nonceOf p = nonceOf q) : p = q := by
  have hlt : ∀ {x : ℕ}, x ≤ MAX_U48 → x < 256 ^ 6 := fun hx => Nat.lt_of_le_of_lt hx (by norm_num)
  obtain ⟨h1, h2⟩ := List.append_inj h (by simp)
  exact Prod.ext (beBytes_inj (hlt hp.1) (hlt hq.1) h1) (beBytes_inj (hlt hp.2) (hlt hq.2) h2)

/-- the seals so far, as counter values: distinct and within 48 bits -/
structure Logged (seals : List Bytes) (ps : List (ℕ × ℕ)) : Prop where
  seals_eq : seals = ps.map nonceOf
  nodup : ps.Nodup
  fits : ∀ p ∈ ps, p.1 ≤ MAX_U48 ∧ p.2 ≤ MAX_U48

theorem Logged.seals_nodup {seals : List Bytes} {ps : List (ℕ × ℕ)} (h : Logged seals ps) : seals.Nodup := by
  rw [h.seals_eq]
  exact h.nodup.map_on fun p hp q hq => nonceOf_inj (h.fits p hp) (h.fits q hq)

/-- an open of `f` moves past epoch `e`, or fails -/
structure Carries (A : Aead Bytes) (key : Bytes) (f : Bytes) (e : ℕ) : Prop where
  length : 52 ≤ f.length
  magic : f.take 8 = MAGIC
  epoch : ∀ h, readHeader A key f = .ok h → e ≤ h.nonceEpoch

/-- it is a matter of the first 52 bytes -/
theorem Carries.congr {f f' : Bytes} {e : ℕ} (h : Carries A key f e) (hf : f'.take 52 = f.take 52) : Carries A key f' e := by
  have hlen : (f.take 52).length = 52 := by simp [h.length]
  have hlen' : 52 ≤ f'.length := by
    rw [← hf, List.length_take] at hlen
    omega
  refine ⟨hlen', ?_, readHeader_congr h.length hf ▸ h.epoch⟩
  have h8 := congrArg (List.take 8) hf
  rw [List.take_take, List.take_take] at h8
  exact h8.trans h.magic

theorem Carries.mono {f : Bytes} {e e' : ℕ} (h : Carries A key f e) (he : e' ≤ e) : Carries A key f e' :=
  ⟨h.length, h.magic, fun hd hr => he.trans (h.epoch hd hr)⟩

/-- whatever a power loss brings back, the next open moves past every epoch sealed in -/
def Covered (A : Aead Bytes) (key : Bytes) (ps : List (ℕ × ℕ)) (f : File) : Prop :=
  ∀ p ∈ ps, ∀ g ∈ f.images, Carries A key g p.1

/-- a session: the counter is past every seal, and its epoch is on disk -/
structure Live (A : Aead Bytes) (key : Bytes) (s : Backend) : Prop where
  logged : ∃ ps, Logged s.seals ps ∧ ∀ p ∈ ps, p.1 < s.inner.epoch ∨ p.1 = s.inner.epoch ∧ p.2 < s.inner.seq
  epoch : s.inner.epoch ≤ MAX_U48
  disk : ∀ f ∈ s.file.images, Carries A key f s.inner.epoch
  phys : 52 ≤ s.inner.physLen

/-- where power may be lost -/
structure Cut (A : Aead Bytes) (key : Bytes) (s : Backend) : Prop where
  logged : ∃ ps, Logged s.seals ps ∧ (Covered A key ps s.file ∨ s.inner.seq ≠ 0 ∧ ∀ p ∈ ps, p.1 ≤ s.inner.epoch)

theorem Live.covered {s : Backend} (h : Live A key s) : ∃ ps, Logged s.seals ps ∧ Covered A key ps s.file := by
  obtain ⟨ps, hl, hlt⟩ := h.logged
  refine ⟨ps, hl, fun p hp g hg => (h.disk g hg).mono ?_⟩
  rcases hlt p hp with h | h
  · exact Nat.le_of_lt h
  · exact Nat.le_of_eq h.1

theorem Live.cut {s : Backend} (h : Live A key s) : Cut A key s := by
  obtain ⟨ps, hl, hc⟩ := h.covered
  exact ⟨ps, hl, Or.inl hc⟩

/-- a power loss outside the reservation of an epoch -/
theorem Cut.covered {s : Backend} (h : Cut A key s) (hr : Reserved A key s) :
    ∃ ps, Logged s.seals ps ∧ Covered A key ps s.file := by
  obtain ⟨ps, hl, hc | ⟨hseq, hle⟩⟩ := h.logged
  · exact ⟨ps, hl, hc⟩
  · refine ⟨ps, hl, fun p hp g hg => ?_⟩
    obtain ⟨hmagic, hd, hread, hepoch⟩ := hr.resolve_left hseq g hg
    refine ⟨readHeader_length hread, hmagic, fun hd' hread' => ?_⟩
    rw [hread] at hread'
    obtain rfl := Except.ok.inj hread'
    exact hepoch ▸ hle p hp

theorem Covered.survive {ps : List (ℕ × ℕ)} {f : File} (h : Covered A key ps f) (age : ℕ) (tail : Bytes) :
    Covered A key ps (f.survive age tail) := by
  intro p hp g hg
  have hmem : f.images.getD age f.bytes ∈ f.images := by
    rw [List.getD_eq_getElem?_getD]
    cases hx : f.images[age]? with
    | none => exact List.mem_cons_self
    | some x => exact List.mem_of_getElem? hx
  have hc := h p hp _ hmem
  have hlen : ((f.images.getD age f.bytes).take 52).length = 52 := List.length_take_of_le hc.length
  obtain rfl : g = (f.images.getD age f.bytes).take 52 ++ tail := by
    rw [List.mem_singleton.1 hg]
    exact if_neg (Nat.not_lt.2 (Nat.le_of_eq hlen.symm))
  exact hc.congr (List.take_left' hlen)

/-! ## Sealing -/

theorem Live.congr {s t : Backend} (h : Live A key s) (hseals : t.seals = s.seals) (hepoch : t.inner.epoch = s.inner.epoch)
    (hseq : t.inner.seq = s.inner.seq) (hdisk : ∀ f ∈ t.file.images, Carries A key f s.inner.epoch)
    (hphys : 52 ≤ t.inner.physLen) : Live A key t :=
  ⟨by rw [hseals, hepoch, hseq]; exact h.logged, hepoch ▸ h.epoch, hepoch ▸ hdisk, hphys⟩

/-- one more counter value, above all others -/
theorem Logged.cons {seals : List Bytes} {ps : List (ℕ × ℕ)} (h : Logged seals ps) {e q : ℕ} (he : e ≤ MAX_U48)
    (hq : q ≤ MAX_U48) (hnew : ∀ p ∈ ps, p.1 < e ∨ p.1 = e ∧ p.2 < q) :
    Logged (nonceOf (e, q) :: seals) ((e, q) :: ps) := by
  refine ⟨by rw [h.seals_eq]; rfl, List.nodup_cons.2 ⟨fun hmem => ?_, h.nodup⟩, fun p hp => ?_⟩
  · have := hnew (e, q) hmem
    simp only [Nat.lt_irrefl, and_false, or_false] at this
  · rcases List.mem_cons.1 hp with rfl | hp
    · exact ⟨he, hq⟩
    · exact h.fits p hp

theorem Live.sealed {s : Backend} (h : Live A key s) (hq : s.inner.seq ≤ MAX_U48) : Live A key s.sealed := by
  obtain ⟨ps, hl, hlt⟩ := h.logged
  refine ⟨⟨_, hl.cons h.epoch hq hlt, fun p hp => ?_⟩, h.epoch, h.disk, h.phys⟩
  rcases List.mem_cons.1 hp with rfl | hp
  · exact Or.inr ⟨rfl, Nat.lt_succ_self _⟩
  · exact (hlt p hp).imp_right fun h' => ⟨h'.1, Nat.lt_succ_of_lt h'.2⟩

/-- a fresh header carries the running epoch -/
theorem carries_headed (hA : A.Correct) {s : Backend} (hl : s.inner.logicalLen ≤ MAX_U48) (he : s.inner.epoch ≤ MAX_U48)
    (r : Bool) : Carries A key (s.headed A key r).file.bytes s.inner.epoch := by
  have hread : readHeader A key (s.headed A key r).file.bytes = .ok ⟨s.inner.logicalLen, s.inner.epoch, false, r⟩ := by
    rw [headed_bytes hA, readHeader_append (length_headerBytes hA s r)]
    exact readHeader_headerBytes hA hl he r
  refine ⟨readHeader_length hread, ?_, fun h hr => ?_⟩
  · rw [headed_bytes hA]
    rfl
  · rw [hread] at hr
    obtain rfl := Except.ok.inj hr
    exact Nat.le_refl _

theorem Live.headed (hA : A.Correct) {s : Backend} (h : Live A key s) (hq : s.inner.seq ≤ MAX_U48)
    (hl : s.inner.logicalLen ≤ MAX_U48) (r : Bool) : Live A key (s.headed A key r) := by
  refine (h.sealed hq).congr rfl rfl rfl (fun f hf => ?_) (Nat.le_max_right _ _)
  rcases List.mem_cons.1 hf with rfl | hf
  · exact carries_headed hA hl h.epoch r
  · exact h.disk f hf

/-- a write behind the header keeps what is at stake -/
theorem Live.writeAllAt {s : Backend} (h : Live A key s) (data : Bytes) {off : ℕ} (hoff : 52 ≤ off) :
    ∀ f ∈ (s.file.writeAllAt data off).images, Carries A key f s.inner.epoch := by
  intro f hf
  have hbytes := h.disk s.file.bytes List.mem_cons_self
  rcases List.mem_cons.1 hf with rfl | hf
  · exact hbytes.congr (take_pwrite hoff hbytes.length)
  · exact h.disk f hf

theorem Live.synced {s : Backend} (h : Live A key s) : Live A key s.synced := by
  refine h.congr rfl rfl rfl (fun f hf => ?_) h.phys
  rw [List.mem_singleton.1 hf]
  exact h.disk _ List.mem_cons_self

/-! ## Every call -/

/-- a session at a known length, physical length and sequence number -/
structure At (A : Aead Bytes) (key : Bytes) (L p q : ℕ) (s : Backend) : Prop extends Live A key s where
  logical : s.inner.logicalLen = L
  physical : s.inner.physLen = p
  seq : s.inner.seq = q

section Specs

variable {L p q : ℕ} {E : IoError → Backend → Prop}

theorem writeHeader_live (hA : A.Correct) (hq : L ≤ MAX_U48 → q ≤ MAX_U48) (r : Bool) :
    Spec (At A key L p q) (writeHeader A key r) (fun _ s => Live A key s ∧ s.inner.seq = q + 1)
      (fun _ s => Live A key s ∧ MAX_U48 < L) (Cut A key) := by
  apply Spec.of_apply
  intro s hs
  refine ⟨hs.toLive.cut, ?_⟩
  by_cases hl : s.inner.logicalLen ≤ MAX_U48
  · have hsq : s.inner.seq ≤ MAX_U48 := hs.seq ▸ hq (hs.logical ▸ hl)
    have hend : Live A key (s.headed A key r) := hs.toLive.headed hA hsq hl r
    refine ⟨_, _, writeHeader_ok hl r, ?_, fun _ _ => ⟨hend, congrArg Nat.succ hs.seq⟩, nofun⟩
    intro t ht
    simp only [List.mem_cons, List.not_mem_nil, or_false] at ht
    rcases ht with rfl | rfl
    · exact (hs.toLive.sealed hsq).cut
    · exact hend.cut
  · exact ⟨_, _, writeHeader_too_long (Nat.not_le.1 hl) r, nofun, nofun,
      fun _ _ => ⟨hs.toLive, hs.logical ▸ Nat.not_le.1 hl⟩⟩

/-- a new epoch: until its header is synced it is used for that header alone -/
theorem newEpoch_live (hA : A.Correct) {t : Backend} {ps : List (ℕ × ℕ)} (hl : Logged t.seals ps)
    (hlt : ∀ p ∈ ps, p.1 < t.inner.epoch) (he : t.inner.epoch ≤ MAX_U48) (hq : t.inner.seq = 0)
    (hlen : t.inner.logicalLen ≤ MAX_U48) (r : Bool) :
    (∀ u ∈ [t.sealed, t.headed A key r], Cut A key u) ∧ Live A key (t.headed A key r).synced := by
  have hseq : t.inner.seq ≤ MAX_U48 := hq.trans_le (Nat.zero_le _)
  have hlog : Logged t.sealed.seals ((t.inner.epoch, t.inner.seq) :: ps) :=
    hl.cons he hseq fun p hp => Or.inl (hlt p hp)
  have hle : ∀ p ∈ (t.inner.epoch, t.inner.seq) :: ps, p.1 ≤ t.inner.epoch := fun p hp => by
    rcases List.mem_cons.1 hp with rfl | hp
    · exact Nat.le_refl _
    · exact Nat.le_of_lt (hlt p hp)
  refine ⟨fun u hu => ?_, ⟨_, hlog, fun p hp => ?_⟩, he, fun f hf => ?_, Nat.le_max_right _ _⟩
  · simp only [List.mem_cons, List.not_mem_nil, or_false] at hu
    rcases hu with rfl | rfl <;> exact ⟨_, hlog, Or.inr ⟨Nat.succ_ne_zero _, hle⟩⟩
  · rcases List.mem_cons.1 hp with rfl | hp
    · exact Or.inr ⟨rfl, Nat.lt_succ_self _⟩
    · exact Or.inl (hlt p hp)
  · rw [List.mem_singleton.1 hf]
    exact carries_headed hA hlen he r

theorem ensureNonceSpace_live (hA : A.Correct) {i : Inner} (hroll : i.logicalLen ≤ MAX_U48 ∨ i.seq < MAX_U48) :
    Spec (fun s => s.inner = i ∧ Live A key s) (ensureNonceSpace A key)
      (fun _ => At A key i.logicalLen i.physLen (firstSeq i)) (fun _ => Live A key) (Cut A key) := by
  apply Spec.of_apply
  rintro s ⟨rfl, hs⟩
  refine ⟨hs.cut, ?_⟩
  by_cases hq : s.inner.seq < MAX_U48
  · exact ⟨_, _, ensureNonceSpace_pass hq, nofun, fun _ _ => ⟨hs, rfl, rfl, (if_pos hq).symm⟩, nofun⟩
  by_cases he : s.inner.epoch + 1 ≤ MAX_U48
  · have hlen := hroll.resolve_right hq
    obtain ⟨ps, hl, hlt⟩ := hs.logged
    have hle : ∀ p ∈ ps, p.1 < s.inner.epoch + 1 := fun p hp => by rcases hlt p hp with h | h <;> omega
    obtain ⟨hcut, hend⟩ := @newEpoch_live A key hA s.rolled _ hl hle he rfl hlen false
    refine ⟨_, _, ensureNonceSpace_roll hq he hlen, ?_, fun _ _ => ⟨hend, rfl, max_eq_left hs.phys, (if_neg hq).symm⟩, nofun⟩
    intro t ht
    simp only [List.mem_cons, List.not_mem_nil, or_false] at ht
    rcases ht with rfl | rfl | rfl | rfl
    · exact ⟨ps, hl, Or.inl fun p hp g hg => (hs.disk g hg).mono (Nat.le_of_lt_succ (hle p hp))⟩
    · exact hcut _ (by simp)
    · exact hcut _ (by simp)
    · exact hend.cut
  · exact ⟨_, _, ensureNonceSpace_exhausted hq he, nofun, nofun, fun _ _ => hs⟩

theorem At.sealed {s : Backend} (h : At A key L p q s) (hq : q ≤ MAX_U48) : At A key L p (q + 1) s.sealed :=
  ⟨h.toLive.sealed (h.seq ▸ hq), h.logical, h.physical, congrArg Nat.succ h.seq⟩

theorem gapBatch_live (m : ℕ) : ∀ (k q : ℕ) (batch : Bytes), q + m ≤ MAX_U48 + 1 →
    Spec (At A key L p q) ((List.range' k m).foldlM (fun batch gap => do
      let sealed ← sealBlock A key gap zeroBlock
      pure (batch ++ sealed)) batch) (fun _ => At A key L p (q + m)) E (Cut A key) := by
  induction m with
  | zero => exact fun k q batch _ => Spec.pure batch (fun _ h => h) fun _ h => h.toLive.cut
  | succ m ih =>
    intro k q batch hq
    rw [List.range'_succ, List.foldlM_cons]
    refine Spec.bind (R := fun _ => At A key L p (q + 1)) ?_ fun batch' => ?_
    · apply Spec.of_apply
      intro s hs
      have hseal := hs.sealed (show q ≤ MAX_U48 by omega)
      refine ⟨hs.toLive.cut, _, _, Prog.bind_apply_ok (sealNext_apply _ _ s), fun t ht => ?_, fun a ha => hseal, nofun⟩
      rw [List.mem_singleton.1 ht]
      exact hseal.toLive.cut
    · rw [show q + (m + 1) = q + 1 + m by omega]
      exact ih (k + 1) (q + 1) batch' (by omega)

theorem fillGap_live {i : Inner} {idx : ℕ} (hq : q + gap i idx ≤ MAX_U48 + 1) :
    Spec (At A key L i.physLen q) (fillGap A key idx) (fun _ => At A key L i.physLen (q + gap i idx)) E (Cut A key) := by
  refine Spec.get_bind fun s hs => ?_
  have hnext : nextMissing s.inner = nextMissing i := by rw [nextMissing, hs.physical, nextMissing]
  rw [hnext]
  split_ifs with hlt
  · refine Spec.bind ((gapBatch_live (idx - nextMissing i) (nextMissing i) q [] hq).conseq (fun u hu => hu ▸ hs)
      (fun _ _ h => h) (fun _ _ h => h) fun _ h => h) fun batch => ?_
    have hwrite : ∀ u, At A key L i.physLen (q + gap i idx) u → At A key L i.physLen (q + gap i idx)
        { u with file := u.file.writeAllAt batch (blockPhysOffset (nextMissing i)) } := fun u hu =>
      ⟨hu.toLive.congr rfl rfl rfl (hu.toLive.writeAllAt batch (Nat.le_add_right 52 _)) hu.phys, hu.logical, hu.physical,
        hu.seq⟩
    exact Spec.modify hwrite (fun u hu => hu.toLive.cut) fun u hu => (hwrite u hu).toLive.cut
  · refine Spec.pure () ?_ ?_
    · rintro u rfl
      rwa [gap, Nat.sub_eq_zero_of_le (Nat.not_lt.1 hlt), Nat.add_zero]
    · rintro u rfl
      exact hs.toLive.cut

theorem storeBlock_live (idx : ℕ) (plain : Bytes) (hq : q ≤ MAX_U48) :
    Spec (At A key L p q) (storeBlock A key idx plain) (fun _ => At A key L (max p (blockPhysOffset (idx + 1))) (q + 1)) E
      (Cut A key) := by
  apply Spec.of_apply
  intro s hs
  have hseal := hs.sealed hq
  have hend : At A key L (max p (blockPhysOffset (idx + 1))) (q + 1) (s.stored A key idx plain) := by
    refine ⟨hseal.toLive.congr rfl rfl rfl (hs.toLive.writeAllAt _ (Nat.le_add_right 52 _))
      (hs.phys.trans (Nat.le_max_left _ _)), hs.logical, ?_, hseal.seq⟩
    change max s.inner.physLen (blockPhysOffset idx + PHYS_BLOCK) = _
    rw [hs.physical, blockPhysOffset_succ]
    rfl
  refine ⟨hs.toLive.cut, _, _, storeBlock_apply idx plain s, fun t ht => ?_, fun _ _ => hend, nofun⟩
  simp only [List.mem_cons, List.not_mem_nil, or_false] at ht
  rcases ht with rfl | rfl
  · exact hseal.toLive.cut
  · exact hend.toLive.cut

theorem writeBlock_live (hA : A.Correct) {i : Inner} {idx : ℕ} (hroll : i.logicalLen ≤ MAX_U48 ∨ i.seq < MAX_U48)
    (hroom : firstSeq i + gap i idx ≤ MAX_U48) (plain : Bytes) :
    Spec (fun s => s.inner = i ∧ Live A key s) (writeBlock A key idx plain)
      (fun _ => At A key i.logicalLen (max i.physLen (blockPhysOffset (idx + 1))) (firstSeq i + gap i idx + 1))
      (fun _ => Live A key) (Cut A key) :=
  Spec.bind (ensureNonceSpace_live hA hroll) fun _ =>
    Spec.bind (fillGap_live (Nat.le_succ_of_le hroom)) fun _ => storeBlock_live idx plain hroom

/-! a block that is on disk has no gap before it -/

theorem gap_eq_zero {i : Inner} {idx : ℕ} (h : blockPhysOffset idx ≤ i.physLen) : gap i idx = 0 := by
  have hb : PHYS_BLOCK = 4124 := rfl
  have hh : HEADER_PHYS = 52 := rfl
  rw [blockPhysOffset_eq] at h
  rw [gap, nextMissing, hb, hh]
  split_ifs <;> omega

theorem firstSeq_lt (i : Inner) : firstSeq i < MAX_U48 := by
  unfold firstSeq
  split_ifs with h
  · exact h
  · decide

theorem writeRound_live (hA : A.Correct) {i : Inner} (hroll : i.logicalLen ≤ MAX_U48 ∨ i.seq < MAX_U48) {pos : ℕ}
    (hroom : firstSeq i + gap i (pos / 4096) ≤ MAX_U48) (piece : Bytes) :
    Spec (fun s => s.inner = i ∧ Live A key s) (writeRound A key pos piece)
      (fun _ => At A key i.logicalLen (max i.physLen (blockPhysOffset (pos / 4096 + 1))) (firstSeq i + gap i (pos / 4096) + 1))
      (fun _ => Live A key) (Cut A key) := by
  refine Spec.get_bind fun s hs => ?_
  refine Spec.ofExcept_bind_any (fun _ u hu => hu ▸ hs.2) (fun u hu => hu ▸ hs.2.cut) fun plain _ => ?_
  exact (writeBlock_live hA hroll hroom _).conseq (fun u hu => hu ▸ hs) (fun _ _ h => h) (fun _ _ h => h) fun _ h => h

/-- a round that is not the last ends at a block boundary -/
theorem rounds_next {pos left : ℕ} (h : roundLen pos left < left) :
    (pos + roundLen pos left) / 4096 = pos / 4096 + 1 ∧
      rounds pos left = rounds (pos + roundLen pos left) (left - roundLen pos left) + 1 := by
  have hb : BLOCK_SIZE = 4096 := rfl
  have hr : roundLen pos left = 4096 - pos % 4096 := by
    unfold roundLen at h ⊢
    rw [hb] at h ⊢
    omega
  rw [hr] at h ⊢
  unfold rounds
  rw [hb]
  omega

theorem rounds_last {pos left : ℕ} (h0 : 0 < left) (h : ¬ roundLen pos left < left) : rounds pos left = 1 := by
  have hb : BLOCK_SIZE = 4096 := rfl
  unfold roundLen at h
  unfold rounds
  rw [hb] at h ⊢
  omega

theorem rounds_pos {pos left : ℕ} (h : 0 < left) : 0 < rounds pos left := by
  have hb : BLOCK_SIZE = 4096 := rfl
  unfold rounds
  rw [hb]
  omega

/-- the sequence number a loop of block writes ends at -/
structure LoopSeq (i : Inner) (pos left q : ℕ) : Prop where
  none : left = 0 → q = i.seq
  one : 0 < left → rounds pos left = 1 → q = firstSeq i + gap i (pos / 4096) + 1
  more : 0 < left → 1 < rounds pos left → q ≤ MAX_U48

/-- one round more before a loop -/
theorem LoopSeq.step {i j : Inner} {pos left q : ℕ} (hleft : 0 < left) (hseq : j.seq = firstSeq i + gap i (pos / 4096) + 1)
    (hgap : roundLen pos left < left → gap j ((pos + roundLen pos left) / 4096) = 0)
    (h : LoopSeq j (pos + roundLen pos left) (left - roundLen pos left) q) : LoopSeq i pos left q := by
  have hle := roundLen_le pos left
  by_cases hmore : roundLen pos left < left
  · have hnext := (rounds_next hmore).2
    have hleft' : 0 < left - roundLen pos left := Nat.sub_pos_of_lt hmore
    have hpos : 0 < rounds (pos + roundLen pos left) (left - roundLen pos left) := rounds_pos hleft'
    refine ⟨fun h0 => by omega, fun _ h1 => by omega, fun _ _ => ?_⟩
    rcases Nat.lt_or_ge 1 (rounds (pos + roundLen pos left) (left - roundLen pos left)) with h' | h'
    · exact h.more hleft' h'
    · rw [h.one hleft' (Nat.le_antisymm h' hpos), hgap hmore]
      exact firstSeq_lt j
  · have hlast := rounds_last hleft hmore
    refine ⟨fun h0 => by omega, fun _ _ => ?_, fun _ h1 => by omega⟩
    rw [h.none (by omega), hseq]

theorem writeLoop_live (hA : A.Correct) (offset : ℕ) (data : Bytes) (done : ℕ) : ∀ (i : Inner),
    (done < data.length → firstSeq i + gap i ((offset + done) / 4096) ≤ MAX_U48) →
    (done < data.length → i.logicalLen ≤ MAX_U48 ∨
      i.seq + gap i ((offset + done) / 4096) + rounds (offset + done) (data.length - done) ≤ MAX_U48) →
    Spec (fun s => s.inner = i ∧ Live A key s) (writeLoop A key offset data done)
      (fun _ s => Live A key s ∧ s.inner.logicalLen = i.logicalLen ∧
        LoopSeq i (offset + done) (data.length - done) s.inner.seq)
      (fun _ => Live A key) (Cut A key) := by
  fun_induction writeLoop A key offset data done with
  | case1 done hlt ih =>
    intro i hroom hroll
    have hleft : 0 < data.length - done := Nat.sub_pos_of_lt hlt
    have hone : 0 < rounds (offset + done) (data.length - done) := rounds_pos hleft
    have hroll1 : i.logicalLen ≤ MAX_U48 ∨ i.seq < MAX_U48 := (hroll hlt).imp_right fun h => by omega
    refine Spec.bind (writeRound_live hA hroll1 (hroom hlt) _) fun _ => Spec.of_states fun s hs => ?_
    -- if another block follows, the one just written is right before it and there is no gap
    have hgap (hmore : roundLen (offset + done) (data.length - done) < data.length - done) :
        gap s.inner ((offset + done + roundLen (offset + done) (data.length - done)) / 4096) = 0 := by
      rw [(rounds_next hmore).1]
      exact gap_eq_zero (by rw [hs.physical]; exact Nat.le_max_right _ _)
    rw [← Nat.add_assoc, ← Nat.sub_sub] at ih
    refine (ih s.inner (fun h => ?_) (fun h => ?_)).conseq (fun u hu => ⟨congrArg _ hu, hu ▸ hs.toLive⟩)
      (fun _ t ht => ⟨ht.1, ht.2.1.trans hs.logical, ht.2.2.step hleft hs.seq hgap⟩) (fun _ _ h => h) (fun _ h => h)
    · rw [hgap (by omega)]
      exact Nat.le_of_lt (firstSeq_lt s.inner)
    · have hmore : roundLen (offset + done) (data.length - done) < data.length - done := by omega
      rw [hgap hmore, hs.seq, hs.logical]
      refine (hroll hlt).imp_right fun h' => ?_
      have hfirst : firstSeq i = i.seq := if_pos (by omega)
      have hnext := (rounds_next hmore).2
      omega
  | case2 done hlt =>
    intro i _ _
    refine Spec.pure () ?_ fun s hs => hs.2.cut
    rintro s ⟨rfl, hs⟩
    have hzero : data.length - done = 0 := Nat.sub_eq_zero_of_le (Nat.not_lt.1 hlt)
    exact ⟨hs, rfl, fun _ => rfl, fun h => by omega, fun h => by omega⟩

theorem growTo_live (hA : A.Correct) {i : Inner} {e : ℕ} (hq : i.logicalLen < e → i.seq ≤ MAX_U48) :
    Spec (fun s => s.inner = i ∧ Live A key s) (growTo A key e) (fun _ => Live A key) (fun _ => Live A key) (Cut A key) := by
  refine Spec.get_bind fun s hs => ?_
  obtain ⟨rfl, hs⟩ := hs
  split_ifs with hlt
  · have hset : At A key e s.inner.physLen s.inner.seq { s with inner := { s.inner with logicalLen := e } } :=
      ⟨hs.congr rfl rfl rfl hs.disk hs.phys, rfl, rfl, rfl⟩
    refine Spec.bind (R := fun _ => At A key e s.inner.physLen s.inner.seq) (Spec.modify (fun u hu => by rw [hu]; exact hset)
      (fun u hu => hu ▸ hs.cut) fun u hu => by rw [hu]; exact hset.toLive.cut) fun _ => ?_
    exact (writeHeader_live hA (fun _ => hq hlt) false).conseq (fun _ h => h) (fun _ _ h => h.1) (fun _ _ h => h.1) fun _ h => h
  · exact Spec.pure () (fun u hu => hu ▸ hs) fun u hu => hu ▸ hs.cut

theorem write_live (hA : A.Correct) {i : Inner} {offset : ℕ} {data : Bytes} (h : WriteSpace i offset data) :
    Spec (fun s => s.inner = i ∧ Live A key s) (write A key offset data) (fun _ => Live A key) (fun _ => Live A key)
      (Cut A key) := by
  have hne (hlt : 0 < data.length) : data ≠ [] := List.ne_nil_of_length_pos hlt
  refine Spec.bind (writeLoop_live hA offset data 0 i (fun hlt => h.block (hne hlt)) fun hlt => h.roll (hne hlt)) fun _ =>
    Spec.of_states fun s ⟨hs, hlen, hseq⟩ => ?_
  refine (growTo_live (i := s.inner) hA fun hgrow => ?_).conseq (fun u hu => ⟨congrArg _ hu, hu ▸ hs⟩) (fun _ _ h => h)
    (fun _ _ h => h) fun _ h => h
  rw [hlen] at hgrow
  rcases Nat.eq_zero_or_pos data.length with h0 | h0
  · rw [hseq.none (by omega)]
    exact h.empty (List.length_eq_zero_iff.1 h0) (by omega)
  · rcases Nat.lt_or_ge 1 (rounds offset data.length) with h1 | h1
    · exact hseq.more h0 h1
    · have hone : rounds offset data.length = 1 := Nat.le_antisymm h1 (rounds_pos h0)
      rw [hseq.one h0 hone]
      exact h.header hone (hne h0) hgrow

theorem truncatePhys_live (n : ℕ) :
    Spec (At A key L p q) (truncatePhys n) (fun _ => At A key L (min p (neededPhys n)) q) E (Cut A key) := by
  refine Spec.get_bind fun s hs => ?_
  have hneed : 52 ≤ neededPhys n := Nat.le_add_right 52 _
  rw [hs.physical]
  split_ifs with hlt
  · have hbytes := hs.disk s.file.bytes List.mem_cons_self
    have hcut : At A key L (min p (neededPhys n)) q
        { s with file := s.file.setLen (neededPhys n), inner := { s.inner with physLen := neededPhys n } } := by
      refine ⟨hs.toLive.congr rfl rfl rfl (fun f hf => ?_) hneed, hs.logical, (min_eq_right (Nat.le_of_lt hlt)).symm, hs.seq⟩
      rcases List.mem_cons.1 hf with rfl | hf
      · exact hbytes.congr (take_setLen hneed hbytes.length)
      · exact hs.disk f hf
    exact Spec.modify (fun u hu => hu ▸ hcut) (fun u hu => hu ▸ hs.toLive.cut) fun u hu => hu ▸ hcut.toLive.cut
  · rw [min_eq_left (Nat.not_lt.1 hlt)]
    exact Spec.pure () (fun u hu => hu ▸ hs) fun u hu => hu ▸ hs.toLive.cut

/-- the tail block's own end is where `set_len` cuts -/
theorem tail_le_needed {n : ℕ} (h : n % 4096 ≠ 0) : blockPhysOffset (n / 4096 + 1) = neededPhys n := by
  have hdiv : (n + 4095) / 4096 = n / 4096 + 1 := by omega
  rw [neededPhys, blockPhysOffset]
  change _ = HEADER_PHYS + (n + 4095) / 4096 * PHYS_BLOCK
  rw [hdiv]

theorem zeroTail_live (hA : A.Correct) {i : Inner} {n : ℕ} (h : SetLenSpace i n) :
    Spec (At A key n (min i.physLen (neededPhys n)) i.seq) (zeroTail A key n)
      (fun _ s => Live A key s ∧ s.inner.logicalLen = n ∧ (n ≤ MAX_U48 → s.inner.seq ≤ MAX_U48)) (fun _ => Live A key)
      (Cut A key) := by
  refine Spec.get_bind fun s hs => ?_
  rw [hs.physical]
  split_ifs with htail
  · have hpresent : TailPresent i n := ⟨htail.1, htail.2.trans (Nat.min_le_left _ _)⟩
    have hgap : gap s.inner (n / 4096) = 0 := by
      refine gap_eq_zero ((blockPhysOffset_mono (Nat.le_succ _)).trans ?_)
      rw [hs.physical]
      exact htail.2
    have hfirst := firstSeq_lt s.inner
    refine Spec.ofExcept_bind_any (fun _ u hu => hu ▸ hs.toLive) (fun u hu => hu ▸ hs.toLive.cut) fun plain _ => ?_
    refine (writeBlock_live (i := s.inner) hA ?_ ?_ _).conseq (fun u hu => ⟨congrArg _ hu, hu ▸ hs.toLive⟩)
      (fun _ t ht => ⟨ht.toLive, ht.logical.trans hs.logical, fun _ => ?_⟩) (fun _ _ h => h) fun _ h => h
    · rw [hs.logical, hs.seq]
      exact h.roll hpresent
    · rw [hgap]
      exact Nat.le_of_lt hfirst
    · rw [ht.seq, hgap]
      exact hfirst
  · have habsent : ¬ TailPresent i n := fun ht => htail ⟨ht.1, le_min ht.2 (Nat.le_of_eq (tail_le_needed ht.1))⟩
    exact Spec.pure () (fun u hu => hu ▸ ⟨hs.toLive, hs.logical, fun hn => hs.seq ▸ h.header habsent hn⟩)
      fun u hu => hu ▸ hs.toLive.cut

theorem setLen_live (hA : A.Correct) {i : Inner} {n : ℕ} (h : SetLenSpace i n) :
    Spec (fun s => s.inner = i ∧ Live A key s) (setLen A key n) (fun _ => Live A key) (fun _ => Live A key) (Cut A key) := by
  have hset : ∀ s, s.inner = i ∧ Live A key s →
      At A key n i.physLen i.seq { s with inner := { s.inner with logicalLen := n } } := by
    rintro s ⟨rfl, hs⟩
    exact ⟨hs.congr rfl rfl rfl hs.disk hs.phys, rfl, rfl, rfl⟩
  refine Spec.bind (Spec.modify hset (fun s hs => hs.2.cut) fun s hs => (hset s hs).toLive.cut) fun _ =>
    Spec.bind (truncatePhys_live n) fun _ => Spec.bind (zeroTail_live hA h) fun _ => Spec.of_states fun s ⟨hs, hlen, hseq⟩ => ?_
  exact (writeHeader_live (L := n) (p := s.inner.physLen) hA hseq false).conseq
    (fun u hu => by rw [hu]; exact ⟨hs, hlen, rfl, rfl⟩) (fun _ _ h => h.1) (fun _ _ h => h.1) fun _ h => h

/-- a re-seal in progress: every block still to come is on disk -/
structure Resealing (A : Aead Bytes) (key : Bytes) (blocks : ℕ) (rest : List ℕ) (s : Backend) : Prop
    extends Live A key s where
  logical : s.inner.logicalLen ≤ MAX_U48
  seq : s.inner.seq ≤ MAX_U48
  present : blockPhysOffset blocks ≤ s.inner.physLen
  bound : ∀ idx ∈ rest, idx < blocks

theorem resealRound_live (hA : A.Correct) {blocks idx : ℕ} {rest : List ℕ} :
    Spec (Resealing A key blocks (idx :: rest)) (Prog.get >>= fun t => Prog.ofExcept (readBlock A key t idx) >>= fun plain =>
      writeBlock A key idx plain) (fun _ => Resealing A key blocks rest) (fun _ => Live A key) (Cut A key) := by
  refine Spec.get_bind fun s hs => ?_
  refine Spec.ofExcept_bind_any (fun _ u hu => hu ▸ hs.toLive) (fun u hu => hu ▸ hs.toLive.cut) fun plain _ => ?_
  have hidx : idx < blocks := hs.bound idx List.mem_cons_self
  have hgap : gap s.inner idx = 0 := gap_eq_zero ((blockPhysOffset_mono (Nat.le_of_lt hidx)).trans hs.present)
  have hfirst := firstSeq_lt s.inner
  refine (writeBlock_live (i := s.inner) hA (Or.inl hs.logical) (by rw [hgap]; exact Nat.le_of_lt hfirst) plain).conseq
    (fun u hu => ⟨congrArg _ hu, hu ▸ hs.toLive⟩) (fun _ t ht => ?_) (fun _ _ h => h) fun _ h => h
  refine ⟨ht.toLive, ht.logical ▸ hs.logical, ?_, ?_, fun j hj => hs.bound j (List.mem_cons_of_mem idx hj)⟩
  · rw [ht.seq, hgap]
    exact hfirst
  · rw [ht.physical]
    exact hs.present.trans (Nat.le_max_left _ _)

theorem resealLegacyBlocks_live (hA : A.Correct) :
    Spec (fun s => Live A key s ∧ s.inner.logicalLen ≤ MAX_U48 ∧ s.inner.seq ≤ MAX_U48) (resealLegacyBlocks A key)
      (fun _ => Live A key) (fun _ => Live A key) (Cut A key) := by
  refine Spec.get_bind fun s ⟨hs, hlen, hseq⟩ => ?_
  have hb : PHYS_BLOCK = 4124 := rfl
  have hh : HEADER_PHYS = 52 := rfl
  generalize hblocks : (s.inner.physLen - HEADER_PHYS) / PHYS_BLOCK = blocks
  have hstart : Resealing A key blocks (List.range blocks) s := by
    refine ⟨hs, hlen, hseq, ?_, fun idx hidx => List.mem_range.1 hidx⟩
    have := hs.phys
    rw [hb, hh] at hblocks
    rw [blockPhysOffset_eq]
    omega
  refine Spec.bind ((Spec.foldlM (I := fun _ rest (_ : Unit) => Resealing A key blocks rest) (fun _ _ _ _ h => h.toLive.cut)
    (fun _ _ _ _ => resealRound_live hA) [] (List.range blocks) ()).conseq (fun u hu => hu ▸ hstart) (fun _ _ h => h)
    (fun _ _ h => h) fun _ h => h) fun _ => Spec.of_states fun t ht => ?_
  refine Spec.bind ((writeHeader_live (L := t.inner.logicalLen) (p := t.inner.physLen) hA (fun _ => ht.seq) false).conseq
    (fun u hu => by rw [hu]; exact ⟨ht.toLive, rfl, rfl, rfl⟩) (fun _ _ h => h.1) (fun _ _ h => h.1) fun _ h => h) fun _ => ?_
  exact Spec.modify (fun _ h => h.synced) (fun _ h => h.cut) fun _ h => h.synced.cut

/-! ## Opening -/

/-- no backend has the file open: the seals so far, and what an open must move past -/
def AtRest (A : Aead Bytes) (key : Bytes) (seals : List Bytes) (f : File) : Prop :=
  ∃ ps, Logged seals ps ∧ Covered A key ps f

theorem AtRest.cut {s : Backend} (h : AtRest A key s.seals s.file) : Cut A key s := by
  obtain ⟨ps, hl, hc⟩ := h
  exact ⟨ps, hl, Or.inl hc⟩

/-- the epoch found is at least every epoch sealed in; a file without a header has never been sealed in -/
theorem readStored_live (onForeign : ForeignFile) :
    Spec (fun s => AtRest A key s.seals s.file) (readStored A key onForeign)
      (fun stored s => ∃ ps, Logged s.seals ps ∧ Covered A key ps s.file ∧ ∀ p ∈ ps, p.1 ≤ stored.nonceEpoch)
      (fun _ s => AtRest A key s.seals s.file) (Cut A key) := by
  refine Spec.get_bind fun s hs => ?_
  obtain ⟨ps, hl, hc⟩ := hs
  have hrest : AtRest A key s.seals s.file := ⟨ps, hl, hc⟩
  have hcut : Cut A key s := hrest.cut
  split_ifs with hempty hmagic hreject
  · refine Spec.pure _ (fun u hu => ⟨ps, hu ▸ hl, hu ▸ hc, fun p hp => ?_⟩) fun u hu => hu ▸ hcut
    have := (hc p hp s.file.bytes List.mem_cons_self).length
    omega
  · cases hread : readHeader A key s.file.bytes with
    | error e => exact Spec.throw (fun u hu => hu ▸ hrest) fun u hu => hu ▸ hcut
    | ok stored =>
      refine Spec.pure _ (fun u hu => ⟨ps, hu ▸ hl, hu ▸ hc, fun p hp => ?_⟩) fun u hu => hu ▸ hcut
      exact (hc p hp s.file.bytes List.mem_cons_self).epoch stored hread
  · exact Spec.throw (fun u hu => hu ▸ hrest) fun u hu => hu ▸ hcut
  · -- a foreign file: nothing was ever sealed in it
    have hnil : ps = [] := by
      cases ps with
      | nil => rfl
      | cons p ps =>
        have h := hc p List.mem_cons_self s.file.bytes List.mem_cons_self
        exact absurd ⟨by have := h.length; omega, h.magic⟩ hmagic
    subst hnil
    refine Spec.bind (R := fun _ s => Logged s.seals []) (Spec.modify (fun u hu => by rw [hu]; exact hl)
      (fun u hu => hu ▸ hcut) fun u hu => ⟨[], by rw [hu]; exact hl, Or.inl nofun⟩) fun _ =>
      Spec.pure _ (fun u hu => ⟨[], hu, nofun, nofun⟩) fun u hu => ⟨[], hu, Or.inl nofun⟩

theorem Live.atRest {s : Backend} (h : Live A key s) : AtRest A key s.seals s.file := h.covered

theorem reserveEpoch_live (hA : A.Correct) (stored : StoredHeader) :
    Spec (fun s => ∃ ps, Logged s.seals ps ∧ Covered A key ps s.file ∧ ∀ p ∈ ps, p.1 ≤ stored.nonceEpoch)
      (reserveEpoch A key stored) (fun _ => Live A key) (fun _ s => AtRest A key s.seals s.file) (Cut A key) := by
  refine Spec.of_states fun s ⟨ps, hl, hc, hle⟩ => ?_
  have hrest : AtRest A key s.seals s.file := ⟨ps, hl, hc⟩
  unfold reserveEpoch
  generalize hr : (stored.legacy || stored.resealPending) = r
  by_cases hmax : stored.nonceEpoch + 1 ≤ MAX_U48
  · rw [if_pos hmax]
    refine Spec.bind (R := fun _ u => u = ⟨s.file, ⟨stored.logicalLen, s.file.bytes.length, stored.nonceEpoch + 1, 0⟩, s.seals⟩)
      (Spec.modify (fun u hu => by rw [hu]) (fun u hu => hu ▸ hrest.cut)
      fun u hu => by rw [hu]; exact ⟨ps, hl, Or.inl hc⟩) fun _ => ?_
    refine Spec.bind (R := fun _ u => Cut A key u ∧ Live A key u.synced ∧ u.inner.logicalLen ≤ MAX_U48 ∧ u.inner.seq = 1)
      (Spec.of_apply ?_) fun _ => Spec.bind (R := fun _ u => Live A key u ∧ u.inner.logicalLen ≤ MAX_U48 ∧ u.inner.seq ≤ MAX_U48)
      (Spec.modify (fun u hu => ⟨hu.2.1, hu.2.2.1, hu.2.2.2.trans_le (by norm_num)⟩) (fun u hu => hu.1) fun u hu => hu.2.1.cut)
      fun _ => ?_
    · rintro t rfl
      refine ⟨⟨ps, hl, Or.inl hc⟩, ?_⟩
      by_cases hlen : stored.logicalLen ≤ MAX_U48
      · obtain ⟨hcut, hend⟩ := @newEpoch_live A key hA
          ⟨s.file, ⟨stored.logicalLen, s.file.bytes.length, stored.nonceEpoch + 1, 0⟩, s.seals⟩ _ hl
          (fun p hp => Nat.lt_succ_of_le (hle p hp)) hmax rfl hlen r
        exact ⟨_, _, writeHeader_ok hlen r, hcut, fun _ _ => ⟨hcut _ (by simp), hend, hlen, rfl⟩, nofun⟩
      · exact ⟨_, _, writeHeader_too_long (Nat.not_le.1 hlen) r, nofun, nofun, fun _ _ => hrest⟩
    · split_ifs
      · exact (resealLegacyBlocks_live hA).conseq (fun _ h => h) (fun _ _ h => h) (fun _ _ h => h.atRest) fun _ h => h
      · exact Spec.pure () (fun u hu => hu.1) fun u hu => hu.1.cut
  · rw [if_neg hmax]
    exact Spec.throw (fun u hu => hu ▸ hrest) fun u hu => hu ▸ hrest.cut

theorem openFile_live (hA : A.Correct) (onForeign : ForeignFile) :
    Spec (fun s => AtRest A key s.seals s.file) (openFile A key onForeign) (fun _ => Live A key)
      (fun _ s => AtRest A key s.seals s.file) (Cut A key) :=
  Spec.bind (readStored_live onForeign) fun stored => reserveEpoch_live hA stored

end Specs

/-! ## Every run -/

/-- between two events: an open would find what it needs, and an open backend is a session -/
structure Inv (A : Aead Bytes) (key : Bytes) (m : Machine) : Prop where
  rest : AtRest A key m.seals m.file
  live : ∀ s, m.backend = some s → Live A key s

theorem Inv.of_live {s : Backend} (h : Live A key s) : Inv A key ⟨s.file, some s.inner, s.seals⟩ :=
  ⟨h.atRest, fun _ ht => Option.some.inj ht ▸ h⟩

theorem Inv.of_rest {seals : List Bytes} {f : File} (h : AtRest A key seals f) : Inv A key ⟨f, none, seals⟩ := ⟨h, nofun⟩

/-- a method on an open backend, from its triple -/
theorem method_inv {c : Call} {s : Backend} {i : Inner} (hc : ∀ r, Machine.leave ((c.prog A key).final s) c r =
      ⟨((c.prog A key).final s).file, some ((c.prog A key).final s).inner, ((c.prog A key).final s).seals⟩)
    (h : Spec (fun s => s.inner = i ∧ Live A key s) (c.prog A key) (fun _ => Live A key) (fun _ => Live A key) (Cut A key))
    (hi : s.inner = i) (hs : Live A key s) :
    Inv A key (Machine.leave ((c.prog A key).final s) c ((c.prog A key).result s)) ∧
      ∀ t, Crash (c.prog A key) s t → Cut A key t := by
  obtain ⟨hcut, hok, herr⟩ := h s ⟨hi, hs⟩
  refine ⟨?_, hcut⟩
  rw [hc]
  cases hr : (c.prog A key).result s with
  | ok a => exact Inv.of_live (hok a hr)
  | error e => exact Inv.of_live (herr e hr)

theorem call_inv (hA : A.Correct) {m : Machine} (h : Inv A key m) {c : Call} {s : Backend} (hs : m.enter c = some s)
    (hspace : Space s.inner c) :
    Inv A key (Machine.leave ((c.prog A key).final s) c ((c.prog A key).result s)) ∧
      ∀ t, Crash (c.prog A key) s t → Cut A key t := by
  cases c with
  | openFile onForeign =>
    obtain rfl := Option.some.inj hs
    obtain ⟨hcut, hok, herr⟩ := openFile_live hA onForeign ⟨m.file, ⟨0, 0, 0, 0⟩, m.seals⟩ h.rest
    refine ⟨?_, hcut⟩
    cases hr : ((Call.openFile onForeign).prog A key).result ⟨m.file, ⟨0, 0, 0, 0⟩, m.seals⟩ with
    | ok a => exact Inv.of_live (hok a hr)
    | error e => exact Inv.of_rest (herr e hr)
  | write offset data => exact method_inv (fun _ => rfl) (write_live hA hspace) rfl (h.live s hs)
  | setLen n => exact method_inv (fun _ => rfl) (setLen_live hA hspace) rfl (h.live s hs)
  | syncData =>
    exact method_inv (i := s.inner) (fun _ => rfl) (Spec.modify (fun _ h => h.2.synced) (fun _ h => h.2.cut)
      fun _ h => h.2.synced.cut) rfl (h.live s hs)

theorem step_inv (hA : A.Correct) (m : Machine) (e : Event) (h : Inv A key m) (he : Meets A key m e) :
    Inv A key (step A key m e) := by
  cases e with
  | call c =>
    cases hs : m.enter c with
    | none => simpa only [step, hs] using h
    | some s => simpa only [step, hs] using (call_inv hA h hs (he s hs)).1
  | crash c cut age tail =>
    cases hs : m.enter c with
    | none =>
      obtain ⟨ps, hl, hc⟩ := h.rest
      simpa only [step, hs] using Inv.of_rest ⟨ps, hl, hc.survive age tail⟩
    | some s =>
      obtain ⟨hspace, hres⟩ := he s hs
      obtain ⟨ps, hl, hc⟩ := ((call_inv hA h hs hspace).2 _ (Crash.cutAt _ s cut)).covered hres
      simpa only [step, hs] using Inv.of_rest ⟨ps, hl, hc.survive age tail⟩

/-- **No nonce twice.** In every run of opens, writes, length changes, syncs and power losses on one file, whatever the
    file held before, no two seals share a nonce, provided each step leaves room in the 48-bit sequence and no power loss
    falls between the seal of a new epoch's header and the end of its sync. -/
theorem nonces_distinct (hA : A.Correct) (f : Bytes) (events : List Event)
    (h : Along (step A key) (Meets A key) (Machine.found f) events) :
    (run (step A key) (Machine.found f) events).seals.Nodup := by
  have hstart : Inv A key (Machine.found f) := Inv.of_rest ⟨[], ⟨rfl, List.nodup_nil, nofun⟩, nofun⟩
  obtain ⟨ps, hl, -⟩ := (Along.inv (fun m e => step_inv hA m e) hstart h).rest
  exact hl.seals_nodup

/-- open, set the length, lose power in the middle of the next call, open again -/
def sampleLife : List Event :=
  [.call (.openFile .Reject), .call (.setLen 5), .crash (.setLen 3) 2 1 [], .call (.openFile .Reject)]

theorem nonces_distinct_after_crash :
    (run (step Aead.tagged [1]) (Machine.found []) sampleLife).seals.Nodup := by
  refine nonces_distinct Aead.tagged_correct [] sampleLife ⟨fun _ _ => trivial, fun s hs => ?_, fun s hs => ?_,
    fun _ _ => trivial, trivial⟩
  · obtain rfl := Option.some.inj hs
    exact ⟨fun _ _ => by decide, fun _ => Or.inl (by decide)⟩
  · obtain rfl := Option.some.inj hs
    refine ⟨⟨fun _ _ => by decide, fun _ => Or.inl (by decide)⟩, Or.inr ?_⟩
    exact List.forall_mem_cons.2 ⟨⟨rfl, ⟨5, 1, false, false⟩, rfl, rfl⟩,
      List.forall_mem_cons.2 ⟨⟨rfl, ⟨0, 1, false, false⟩, rfl, rfl⟩, nofun⟩⟩

/-- a `set_len` on a file without blocks seals a header, and does not look at the counter -/
theorem step_setLen_zero {m : Machine} {L e q : ℕ} (h : m.inner = some ⟨L, 52, e, q⟩) :
    (step A key m (.call (.setLen 0))).inner = some ⟨0, 52, e, q + 1⟩ ∧
      (step A key m (.call (.setLen 0))).seals = nonceOf (e, q) :: m.seals := by
  have hs : m.enter (.setLen 0) = some ⟨m.file, ⟨L, 52, e, q⟩, m.seals⟩ := by
    rw [Machine.enter, Machine.backend, h]
    · rfl
    · nofun
  simp only [step, hs]
  exact ⟨rfl, rfl⟩

theorem run_setLen_zero {m : Machine} {L e q : ℕ} (h : m.inner = some ⟨L, 52, e, q⟩) (n : ℕ) :
    (∃ L', (run (step A key) m (List.replicate n (.call (.setLen 0)))).inner = some ⟨L', 52, e, q + n⟩) ∧
      m.seals ⊆ (run (step A key) m (List.replicate n (.call (.setLen 0)))).seals := by
  induction n with
  | zero => exact ⟨⟨L, h⟩, fun _ h => h⟩
  | succ n ih =>
    obtain ⟨⟨L', hinner⟩, hsub⟩ := ih
    obtain ⟨hinner', hseals⟩ := @step_setLen_zero A key _ _ _ _ hinner
    rw [run_replicate_succ]
    exact ⟨⟨0, hinner'⟩, fun x hx => hseals ▸ List.mem_cons_of_mem _ (hsub hx)⟩

/-- the sequence is written with its low 48 bits alone, so 2^48 headers later its nonce is back -/
theorem setLen_wraps {m : Machine} {L e : ℕ} (h : m.inner = some ⟨L, 52, e, 1⟩) (hfirst : nonceOf (e, 0) ∈ m.seals) :
    ¬ (run (step A key) m (List.replicate (2 ^ 48 - 1 + 1) (.call (.setLen 0)))).seals.Nodup := by
  obtain ⟨⟨L', hinner⟩, hsub⟩ := @run_setLen_zero A key _ _ _ _ h (2 ^ 48 - 1)
  have hwrap : nonceOf (e, 1 + (2 ^ 48 - 1)) = nonceOf (e, 0) :=
    congrArg (beBytes 6 e ++ ·) (show beBytes 6 (1 + (2 ^ 48 - 1)) = beBytes 6 0 by decide)
  rw [run_replicate_succ, (step_setLen_zero hinner).2, hwrap]
  exact fun hnodup => (List.nodup_cons.1 hnodup).1 (hsub hfirst)

/-- both ways: power lost before the first header is written, and 2^48 headers in one session -/
theorem nonce_reused :
    ¬ (run (step Aead.tagged [1]) (Machine.found []) [.crash (.openFile .Reject) 2 0 [], .call (.openFile .Reject)]).seals.Nodup ∧
    ¬ (run (step Aead.tagged [1]) (Machine.found [])
      (.call (.openFile .Reject) :: List.replicate (2 ^ 48 - 1 + 1) (.call (.setLen 0)))).seals.Nodup := by
  refine ⟨by decide +kernel, ?_⟩
  rw [run_cons]
  exact setLen_wraps (L := 0) (e := 1) rfl List.mem_cons_self

end Y2q.EncryptedBackend
