/-
The upgrade of version-1 containers (`upgrade_container_headers` of `storage/rotation.rs`), as a program with crashes.

An object whose header already decodes under the container header key is skipped. Of any other object the header and the
trailer are rewritten, 64 bytes each, and the file is synced. A crash before the sync keeps either write without the other.

- `Stage`: which of the two 64-byte records of an object are rewritten. `upgradeOne_stage`: what one visit does to each stage.
- `upgrade_settles`: a run that returns leaves every object with both records rewritten, except one whose header alone was
  rewritten when the run started: that one is skipped.
- `upgrade_resumable_iff`: interrupted runs and one that returns upgrade every object exactly if no interruption left an object
  with its header alone rewritten.
-/
import Mathlib.Tactic
import Y2q.Core.Run
import Y2q.Storage.Rotation

namespace Y2q.Upgrade

open CrashLogic Format Run
open Rotation (Error inDir)

/-! ## Model -/

/-- what one run is given by its surroundings -/
structure Surroundings where
  /-- `read_dir`: every entry once, in any order -/
  readDir : List ShardFile → List ShardFile
  readDir_perm : ∀ l, (readDir l).Perm l
  /-- which of the two writes of a file reaches the disk first -/
  trailerFirst : ShardFile → Bool

variable (P : Primitives)

def refused (bucket message : String) : Error := ⟨bucket, "", "upgrade-container-headers", message⟩

/-- a version-1 header: the same fields, the CRC only -/
def decodeV1Header (buf : Bytes) : Option Header :=
  let rawDataOffset := UInt32.ofNat (ofLe (slice buf 20 24))
  let dataOffset := if rawDataOffset = 0 then Header.MIN_DATA_OFFSET else rawDataOffset
  if slice buf 0 4 ≠ MAGIC then none
  else if UInt16.ofNat (ofLe (slice buf 4 6)) ≠ 1 then none
  else if ofLe (slice buf 60 64) ≠ (P.crc32 (slice buf 0 60)).toNat then none
  else if dataOffset < Header.MIN_DATA_OFFSET then none
  else some
    { dataLen := UInt64.ofNat (ofLe (slice buf 8 16))
      metaLen := UInt32.ofNat (ofLe (slice buf 16 20))
      dataOffset := dataOffset
      flags := UInt16.ofNat (ofLe (slice buf 6 8))
      version := VERSION }

/-- the header to write again, or why the file cannot be upgraded -/
def headerToUpgrade (bucket : String) (path : ShardFile) (bytes : Bytes) : Except Error Header :=
  match decodeV1Header P (slice bytes 0 HEADER_SIZE) with
  | none => .error (refused bucket s!"{path.xx}/{path.yy}/{path.stem}.{path.ext}: unrecognized header")
  | some h =>
    match h.checkTotalLen bytes.length with
    | .error e => .error (refused bucket e.message)
    | .ok () => .ok h

/-- one `write_all` in place -/
def writeAt (path : ShardFile) (off : ℕ) (piece : Bytes) (d : BucketDir) : BucketDir :=
  match d.files.lookup path with
  | none => d
  | some bytes => { d with files := d.files.insert path (pwrite bytes off piece) }

/-- header, trailer, sync: both writes are on the disk at the end, in the order the system chose -/
def rewriteRecords (W : Surroundings) (path : ShardFile) (h : Header) (encoded : Bytes) : Prog BucketDir Error Unit :=
  if W.trailerFirst path then do
    Prog.modify (writeAt path h.trailerOffset encoded)
    Prog.modify (writeAt path 0 encoded)
  else do
    Prog.modify (writeAt path 0 encoded)
    Prog.modify (writeAt path h.trailerOffset encoded)

/-- `false` if the file was already upgraded -/
def upgradeOneContainerHeader (W : Surroundings) (chk : Bytes) (bucket : String) (path : ShardFile) :
    Prog BucketDir Error Bool := do
  let d ← Prog.get
  match d.files.lookup path with
  | none => Prog.throw (refused bucket "No such file or directory (os error 2)")
  | some bytes =>
    if bytes.length < HEADER_SIZE then Prog.throw (refused bucket "early eof")
    else if (Header.decode P (slice bytes 0 HEADER_SIZE) chk path.stem).isOk then pure false
    else do
      let h ← Prog.ofExcept (headerToUpgrade P bucket path bytes)
      rewriteRecords W path h (h.encode P chk path.stem)
      pure true

def upgradeNext (W : Surroundings) (chk : Bytes) (bucket : String) (upgraded : ℕ) (path : ShardFile) : Prog BucketDir Error ℕ := do
  let fresh ← upgradeOneContainerHeader P W chk bucket path
  pure (if fresh then upgraded + 1 else upgraded)

def upgradeBucketDir (W : Surroundings) (chk : Bytes) (bucket : String) (upgraded : ℕ) : Prog BucketDir Error ℕ := do
  let d ← Prog.get
  (W.readDir d.objFiles).foldlM (upgradeNext P W chk bucket) upgraded

def upgradeBucket (W : Surroundings) (pathKey chk : Bytes) (upgraded : ℕ) (bucket : String) : Prog Tree Error ℕ := do
  let t ← Prog.get
  let dir := encodeBucketDir P pathKey bucket
  if dir ∉ t then pure upgraded
  else inDir dir (upgradeBucketDir P W chk bucket upgraded)

def upgradeContainerHeaders (W : Surroundings) (buckets : List String) (pathKey chk : Bytes) : Prog Tree Error ℕ :=
  buckets.foldlM (upgradeBucket P W pathKey chk) 0

/-! ## Version-1 objects -/

/-- a version-1 container: its header decodes, declares its length, and is mirrored by its trailer -/
structure V1 (x : Bytes) (h : Header) : Prop where
  decodes : decodeV1Header P (slice x 0 HEADER_SIZE) = some h
  total : h.checkTotalLen x.length = .ok ()
  mirror : slice x h.trailerOffset (h.trailerOffset + HEADER_SIZE) = slice x 0 HEADER_SIZE

/-- `y` is the container `x` upgraded -/
structure Upgraded (chk : Bytes) (id : String) (x : Bytes) (h : Header) (y : Bytes) : Prop where
  decodes : Header.decode P (slice y 0 HEADER_SIZE) chk id = .ok h
  total : h.checkTotalLen y.length = .ok ()
  trailer : slice y h.trailerOffset (h.trailerOffset + HEADER_SIZE) = slice y 0 HEADER_SIZE
  data : slice y h.dataOffset.toNat h.metaOffset = slice x h.dataOffset.toNat h.metaOffset
  metadata : slice y h.metaOffset h.trailerOffset = slice x h.metaOffset h.trailerOffset

variable {P} {chk pathKey x y : Bytes} {id : String} {h : Header}

theorem decodeV1Header_some {buf : Bytes} (hd : decodeV1Header P buf = some h) :
    h.Wf ∧ UInt16.ofNat (ofLe (slice buf 4 6)) = 1 := by
  unfold decodeV1Header at hd
  simp only at hd
  split_ifs at hd with h1 h2 h3 h4 h5 h5
  all_goals
    cases hd
    refine ⟨⟨rfl, ?_⟩, not_not.1 h2⟩
  · simp [Header.MIN_DATA_OFFSET]
  · rw [UInt32.lt_iff_toNat_lt] at h5
    simpa [Header.MIN_DATA_OFFSET] using h5

namespace V1

theorem wf (hv : V1 P x h) : h.Wf := (decodeV1Header_some hv.decodes).1

theorem metaOffset (hv : V1 P x h) : h.metaOffset = h.dataOffset.toNat + h.dataLen.toNat := by
  obtain ⟨htotal, hlt⟩ := Header.checkTotalLen_ok.1 hv.total
  exact Nat.mod_eq_of_lt (by omega)

theorem trailerOffset (hv : V1 P x h) : h.trailerOffset = h.dataOffset.toNat + h.dataLen.toNat + h.metaLen.toNat := by
  obtain ⟨htotal, hlt⟩ := Header.checkTotalLen_ok.1 hv.total
  rw [Header.trailerOffset, hv.metaOffset]
  exact Nat.mod_eq_of_lt (by omega)

theorem length (hv : V1 P x h) : x.length = h.trailerOffset + 64 := by
  obtain ⟨htotal, -⟩ := Header.checkTotalLen_ok.1 hv.total
  rw [hv.trailerOffset, htotal]

theorem le_trailerOffset (hv : V1 P x h) : 64 ≤ h.trailerOffset := by
  have hoff := hv.wf.dataOffset
  rw [hv.trailerOffset]
  omega

end V1

/-! ## Stages -/

/-- which of the two records are rewritten -/
structure Stage where
  header : Bool
  trailer : Bool
deriving DecidableEq

/-- the container `x` at a stage, `enc` being the record that is written -/
def Stage.of (x enc : Bytes) (off : ℕ) (s : Stage) : Bytes :=
  (if s.header then enc else slice x 0 64) ++ slice x 64 off ++ (if s.trailer then enc else slice x off (off + 64))

/-- the stage a visit leaves: a file whose header decodes is skipped -/
def Stage.settled (s : Stage) : Stage := if s.header then s else ⟨true, true⟩

/-- the header alone is rewritten -/
def Stage.torn : Stage := ⟨true, false⟩

theorem settled_settled (s : Stage) : s.settled.settled = s.settled := by
  cases s with
  | mk header trailer => cases header <;> rfl

/-- the state is at a stage that can come of this one -/
def Later {σ : Type} (A : Stage → σ → Prop) (s : Stage) (t : σ) : Prop := ∃ s', A s' t ∧ (s.header = true → s' = s)

theorem later_same {σ : Type} {A : Stage → σ → Prop} {s : Stage} {t : σ} (h : A s t) : Later A s t := ⟨s, h, fun _ => rfl⟩

theorem later_of_settled {σ : Type} {A : Stage → σ → Prop} {s : Stage} {t : σ} (h : Later A s.settled t) : Later A s t := by
  obtain ⟨s', hs', heq⟩ := h
  refine ⟨s', hs', fun hheader => ?_⟩
  have hsettled : s.settled = s := if_pos hheader
  rw [hsettled] at heq
  exact heq hheader

section Bytes

variable {enc : Bytes} {s : Stage}

theorem length_head (hv : V1 P x h) (henc : enc.length = 64) (b : Bool) : (if b then enc else slice x 0 64).length = 64 := by
  have hlen := hv.length
  cases b
  · exact length_slice (by omega)
  · exact henc

theorem length_middle (hv : V1 P x h) : (slice x 64 h.trailerOffset).length = h.trailerOffset - 64 := by
  have hlen := hv.length
  exact length_slice (by omega)

theorem length_tail (hv : V1 P x h) (henc : enc.length = 64) (b : Bool) :
    (if b then enc else slice x h.trailerOffset (h.trailerOffset + 64)).length = 64 := by
  have hlen := hv.length
  cases b
  · exact (length_slice (by omega)).trans (by omega)
  · exact henc

theorem length_of (hv : V1 P x h) (henc : enc.length = 64) : (s.of x enc h.trailerOffset).length = x.length := by
  have hle := hv.le_trailerOffset
  rw [Stage.of, List.length_append, List.length_append, length_head hv henc, length_middle hv, length_tail hv henc, hv.length]
  omega

theorem of_old (hv : V1 P x h) : Stage.of x enc h.trailerOffset ⟨false, false⟩ = x := by
  have hle := hv.le_trailerOffset
  have hlen := hv.length
  simp only [Stage.of, Bool.false_eq_true, if_false]
  rw [slice_append_slice (by omega) (by omega), slice_append_slice (by omega) (by omega), slice_zero]
  exact List.take_of_length_le (by omega)

theorem pwrite_header (hv : V1 P x h) (henc : enc.length = 64) :
    pwrite (s.of x enc h.trailerOffset) 0 enc = Stage.of x enc h.trailerOffset ⟨true, s.trailer⟩ := by
  have hwrite := @pwrite_middle [] (if s.header then enc else slice x 0 64)
    (slice x 64 h.trailerOffset ++ (if s.trailer then enc else slice x h.trailerOffset (h.trailerOffset + 64))) enc 0 rfl
    ((length_head hv henc _).trans henc.symm)
  simpa only [Stage.of, List.nil_append, List.append_assoc, if_true] using hwrite

theorem pwrite_trailer (hv : V1 P x h) (henc : enc.length = 64) :
    pwrite (s.of x enc h.trailerOffset) h.trailerOffset enc = Stage.of x enc h.trailerOffset ⟨s.header, true⟩ := by
  have hle := hv.le_trailerOffset
  have hwrite := @pwrite_middle ((if s.header then enc else slice x 0 64) ++ slice x 64 h.trailerOffset)
    (if s.trailer then enc else slice x h.trailerOffset (h.trailerOffset + 64)) [] enc h.trailerOffset
    (by rw [List.length_append, length_head hv henc, length_middle hv]; omega) ((length_tail hv henc _).trans henc.symm)
  simpa only [Stage.of, List.append_nil, if_true] using hwrite

theorem slice_header (hv : V1 P x h) (henc : enc.length = 64) :
    slice (s.of x enc h.trailerOffset) 0 64 = if s.header then enc else slice x 0 64 := by
  rw [Stage.of, List.append_assoc]
  exact slice_front (length_head hv henc _)

theorem slice_trailer (hv : V1 P x h) (henc : enc.length = 64) :
    slice (s.of x enc h.trailerOffset) h.trailerOffset (h.trailerOffset + 64) =
      if s.trailer then enc else slice x h.trailerOffset (h.trailerOffset + 64) := by
  have hle := hv.le_trailerOffset
  have hpre : ((if s.header then enc else slice x 0 64) ++ slice x 64 h.trailerOffset).length = h.trailerOffset := by
    rw [List.length_append, length_head hv henc, length_middle hv]
    omega
  have hmid := @slice_middle ((if s.header then enc else slice x 0 64) ++ slice x 64 h.trailerOffset)
    (if s.trailer then enc else slice x h.trailerOffset (h.trailerOffset + 64)) [] _ _ hpre rfl
  rwa [length_tail hv henc, List.append_nil] at hmid

/-- what lies between the records is as it was -/
theorem slice_between (hv : V1 P x h) (henc : enc.length = 64) {i j : ℕ} (hi : 64 ≤ i) (hj : j ≤ h.trailerOffset) :
    slice (s.of x enc h.trailerOffset) i j = slice x i j := by
  have hle := hv.le_trailerOffset
  have hlen := hv.length
  have hfront : slice (s.of x enc h.trailerOffset) 64 h.trailerOffset = slice x 64 h.trailerOffset := by
    rw [Stage.of]
    refine slice_middle (length_head hv henc _) ?_
    rw [length_middle hv]
    omega
  have hboth : ∀ b : Bytes, slice b i j = slice (slice b 64 h.trailerOffset) (i - 64) (j - 64) := by
    intro b
    by_cases hij : i ≤ j
    · rw [slice_slice_add (by omega), show 64 + (i - 64) = i by omega, show 64 + (j - 64) = j by omega]
    · simp [slice, show j - i = 0 by omega, show j - 64 - (i - 64) = 0 by omega]
  rw [hboth, hfront, ← hboth]

end Bytes

/-- a version-1 header is not a current one -/
theorem decode_v1 {buf : Bytes} (hd : decodeV1Header P buf = some h) : ∃ e, Header.decode P buf chk id = .error e := by
  have hversion := (decodeV1Header_some hd).2
  have hne : UInt16.ofNat (ofLe (slice buf 4 6)) ≠ VERSION := by
    rw [hversion]
    decide
  unfold Header.decode
  simp only
  split_ifs with hmagic
  · exact ⟨_, rfl⟩
  · exact ⟨_, rfl⟩

theorem upgraded_iff (hv : V1 P x h) (s : Stage) :
    Upgraded P chk id x h (s.of x (h.encode P chk id) h.trailerOffset) ↔ s = ⟨true, true⟩ := by
  have henc := Header.length_encode P h chk id
  have hheader := slice_header (s := s) hv henc
  have htrailer := slice_trailer (s := s) hv henc
  constructor
  · intro hu
    have hdecodes := hu.decodes
    have hmirror := hu.trailer
    rw [hheader] at hdecodes hmirror
    rw [htrailer] at hmirror
    cases s with
    | mk header trailer =>
      cases header with
      | false =>
        obtain ⟨e, he⟩ := @decode_v1 P chk id _ _ hv.decodes
        simp only [Bool.false_eq_true, if_false] at hdecodes
        rw [he] at hdecodes
        cases hdecodes
      | true =>
        cases trailer with
        | true => rfl
        | false =>
          -- the old trailer is the old header
          simp only [Bool.false_eq_true, if_false, if_true] at hmirror hdecodes
          obtain ⟨e, he⟩ := @decode_v1 P chk id _ _ hv.decodes
          rw [← hmirror, hv.mirror, he] at hdecodes
          cases hdecodes
  · rintro rfl
    have hle := hv.le_trailerOffset
    have hmeta : h.metaOffset ≤ h.trailerOffset := by
      rw [hv.metaOffset, hv.trailerOffset]
      omega
    refine ⟨?_, ?_, ?_, ?_, ?_⟩
    · rw [hheader]
      exact Header.decode_encode P hv.wf chk id
    · rw [length_of hv henc]
      exact hv.total
    · rw [hheader]
      exact htrailer
    · exact slice_between hv henc hv.wf.dataOffset hmeta
    · refine slice_between hv henc ?_ le_rfl
      have := hv.wf.dataOffset
      rw [hv.metaOffset]
      omega

/-! ## One visit -/

section Visit

variable {W : Surroundings} {bucket : String} {p q : ShardFile} {s : Stage} {d : BucketDir} {off : ℕ} {piece b : Bytes}

theorem writeAt_self (hd : d.files.lookup p = some b) : (writeAt p off piece d).files.lookup p = some (pwrite b off piece) := by
  unfold writeAt
  rw [hd]
  exact AList.lookup_insert _

theorem writeAt_other (hne : q ≠ p) : (writeAt q off piece d).files.lookup p = d.files.lookup p := by
  unfold writeAt
  split
  · rfl
  · exact AList.lookup_insert_ne hne.symm

/-- the object is at this stage -/
def Holds (P : Primitives) (chk : Bytes) (p : ShardFile) (x : Bytes) (h : Header) (s : Stage) (d : BucketDir) : Prop :=
  d.files.lookup p = some (s.of x (h.encode P chk p.stem) h.trailerOffset)

theorem Holds.writeHeader (hv : V1 P x h) (hd : Holds P chk p x h s d) :
    Holds P chk p x h ⟨true, s.trailer⟩ (writeAt p 0 (h.encode P chk p.stem) d) := by
  rw [Holds, writeAt_self hd, pwrite_header hv (Header.length_encode P h chk p.stem)]

theorem Holds.writeTrailer (hv : V1 P x h) (hd : Holds P chk p x h s d) :
    Holds P chk p x h ⟨s.header, true⟩ (writeAt p h.trailerOffset (h.encode P chk p.stem) d) := by
  rw [Holds, writeAt_self hd, pwrite_trailer hv (Header.length_encode P h chk p.stem)]

theorem rewriteRecords_stage {E : Error → BucketDir → Prop} (hv : V1 P x h) (hs : s.header = false) :
    Spec (Holds P chk p x h s) (rewriteRecords W p h (h.encode P chk p.stem)) (fun _ => Holds P chk p x h ⟨true, true⟩) E
      (Later (Holds P chk p x h) s) := by
  have hany : ∀ s' d, Holds P chk p x h s' d → Later (Holds P chk p x h) s d := fun s' _ hd => ⟨s', hd, fun h => by rw [hs] at h; cases h⟩
  unfold rewriteRecords
  split_ifs
  · refine Spec.bind (R := fun _ => Holds P chk p x h ⟨s.header, true⟩) (Spec.modify (fun d hd => hd.writeTrailer hv) (hany _)
      fun d hd => hany _ _ (hd.writeTrailer hv)) fun _ => ?_
    exact Spec.modify (fun d hd => hd.writeHeader hv) (hany _) fun d hd => hany _ _ (hd.writeHeader hv)
  · refine Spec.bind (R := fun _ => Holds P chk p x h ⟨true, s.trailer⟩) (Spec.modify (fun d hd => hd.writeHeader hv) (hany _)
      fun d hd => hany _ _ (hd.writeHeader hv)) fun _ => ?_
    exact Spec.modify (fun d hd => hd.writeTrailer hv) (hany _) fun d hd => hany _ _ (hd.writeTrailer hv)

/-- **One visit of the object**: both records are written, unless its header decodes already. -/
theorem upgradeOne_stage {E : Error → BucketDir → Prop} (hv : V1 P x h) :
    Spec (Holds P chk p x h s) (upgradeOneContainerHeader P W chk bucket p) (fun _ => Holds P chk p x h s.settled) E
      (Later (Holds P chk p x h) s) := by
  have henc := Header.length_encode P h chk p.stem
  refine Spec.get_bind fun d hd => ?_
  have hlen := length_of (s := s) hv henc
  have hheader := slice_header (s := s) hv henc
  rw [hd]
  simp only
  rw [if_neg (by rw [hlen, hv.length]; simp)]
  cases hs : s.header with
  | true =>
    rw [hs, if_pos rfl] at hheader
    rw [hheader, Header.decode_encode P hv.wf]
    have hsettled : s.settled = s := if_pos hs
    rw [hsettled]
    exact Spec.pure _ (fun _ he => he ▸ hd) fun _ he => he ▸ later_same hd
  | false =>
    rw [hs, if_neg (by decide)] at hheader
    obtain ⟨e, he⟩ := @decode_v1 P chk p.stem _ _ hv.decodes
    have hsettled : s.settled = ⟨true, true⟩ := if_neg (by rw [hs]; decide)
    have hupgrade : headerToUpgrade P bucket p (s.of x (h.encode P chk p.stem) h.trailerOffset) = .ok h := by
      unfold headerToUpgrade
      rw [hheader, hv.decodes]
      simp only [hlen, hv.total]
    rw [hupgrade, hheader, he, hsettled]
    refine Spec.ofExcept_bind rfl ?_
    refine Spec.bind ((rewriteRecords_stage hv hs).conseq (fun _ he => he ▸ hd) (fun _ _ hq => hq) (fun _ _ he => he)
      fun _ hc => hc) fun _ => Spec.pure _ (fun _ hq => hq) fun d' hq => ?_
    exact ⟨⟨true, true⟩, hq, fun h => by rw [hs] at h; cases h⟩

/-- a visit of another file -/
theorem upgradeOne_other (hne : q ≠ p) :
    Spec (Holds P chk p x h s) (upgradeOneContainerHeader P W chk bucket q) (fun _ => Holds P chk p x h s)
      (fun _ => Holds P chk p x h s) (Holds P chk p x h s) := by
  have hwrite : ∀ off piece d, Holds P chk p x h s d → Holds P chk p x h s (writeAt q off piece d) :=
    fun off piece d hd => (writeAt_other hne).trans hd
  have hmodify : ∀ off piece, Spec (Holds P chk p x h s) (Prog.modify (writeAt q off piece) : Prog BucketDir Error Unit)
      (fun _ => Holds P chk p x h s) (fun _ => Holds P chk p x h s) (Holds P chk p x h s) :=
    fun off piece => Spec.modify (hwrite off piece) (fun _ hd => hd) (hwrite off piece)
  refine Spec.get_bind fun d hd => ?_
  have hsame : ∀ d', d' = d → Holds P chk p x h s d' := fun _ he => he ▸ hd
  split
  · exact Spec.throw hsame hsame
  · split_ifs
    · exact Spec.throw hsame hsame
    · exact Spec.pure _ hsame hsame
    · refine Spec.ofExcept_bind_any (fun _ => hsame) hsame fun h' _ => ?_
      refine Spec.bind (R := fun _ => Holds P chk p x h s) ?_ fun _ => Spec.pure _ (fun _ hq => hq) fun _ hq => hq
      refine Spec.conseq ?_ hsame (fun _ _ hq => hq) (fun _ _ he => he) fun _ hc => hc
      unfold rewriteRecords
      split_ifs
      · exact Spec.bind (hmodify _ _) fun _ => hmodify _ _
      · exact Spec.bind (hmodify _ _) fun _ => hmodify _ _

end Visit

/-! ## Runs -/

/-- a loop that settles the object at each element that hits it -/
theorem foldlM_settles {σ α : Type} {f : ℕ → α → Prog σ Error ℕ} {A : Stage → σ → Prop} (hit : α → Prop) [DecidablePred hit]
    (hf : ∀ s n a, Spec (A s) (f n a) (fun _ => A (if hit a then s.settled else s)) (fun _ => Later A s) (Later A s)) (l : List α) :
    ∀ s n, Spec (A s) (l.foldlM f n) (fun _ => A (if ∃ a ∈ l, hit a then s.settled else s)) (fun _ => Later A s) (Later A s) := by
  induction l with
  | nil =>
    intro s n
    simp only [List.foldlM_nil, List.not_mem_nil, false_and, exists_false, if_false]
    exact Spec.pure _ (fun _ h => h) fun _ h => later_same h
  | cons a l ih =>
    intro s n
    rw [List.foldlM_cons]
    refine Spec.bind (hf s n a) fun n' => ?_
    simp only [List.mem_cons, exists_eq_or_imp]
    by_cases ha : hit a
    · simp only [ha, true_or, if_true]
      refine (ih s.settled n').conseq (fun _ h => h) (fun _ t h => ?_) (fun _ t h => later_of_settled h) fun t h => later_of_settled h
      rw [settled_settled, ite_self] at h
      exact h
    · simp only [ha, false_or]
      exact ih s n'

def fileAt (t : Tree) (dir : String) (p : ShardFile) : Option Bytes := (t.lookup dir).bind fun d => d.files.lookup p

section Run

variable {W : Surroundings} {bucket dir : String} {p : ShardFile} {s : Stage} {d : BucketDir} {t T : Tree} {buckets : List String}

theorem upgradeBucketDir_stage (hv : V1 P x h) (hext : p.ext = "obj") (n : ℕ) :
    Spec (Holds P chk p x h s) (upgradeBucketDir P W chk bucket n) (fun _ => Holds P chk p x h s.settled)
      (fun _ => Later (Holds P chk p x h) s) (Later (Holds P chk p x h) s) := by
  have hnext : ∀ s n q, Spec (Holds P chk p x h s) (upgradeNext P W chk bucket n q)
      (fun _ => Holds P chk p x h (if q = p then s.settled else s)) (fun _ => Later (Holds P chk p x h) s) (Later (Holds P chk p x h) s) := by
    intro s n q
    split_ifs with hq
    · rw [hq]
      exact Spec.bind (upgradeOne_stage hv) fun _ => Spec.pure _ (fun _ h => h) fun _ h => later_of_settled (later_same h)
    · exact Spec.bind ((upgradeOne_other hq).conseq (fun _ h => h) (fun _ _ h => h) (fun _ _ h => later_same h) fun _ h => later_same h)
        fun _ => Spec.pure _ (fun _ h => h) fun _ h => later_same h
  refine Spec.get_bind fun d hd => ?_
  have hmem : ∃ q ∈ W.readDir d.objFiles, q = p := by
    refine ⟨p, (W.readDir_perm _).mem_iff.2 (BucketDir.mem_objFiles.2 ⟨?_, hext⟩), rfl⟩
    exact AList.lookup_isSome.1 (by rw [hd]; rfl)
  have hloop := foldlM_settles (fun q => q = p) hnext (W.readDir d.objFiles) s n
  rw [if_pos hmem] at hloop
  exact hloop.conseq (fun _ he => he ▸ hd) (fun _ _ h => h) (fun _ _ h => h) fun _ h => h

/-- the object of directory `dir` is at this stage -/
def HoldsAt (P : Primitives) (chk : Bytes) (dir : String) (p : ShardFile) (x : Bytes) (h : Header) (s : Stage) (t : Tree) : Prop :=
  fileAt t dir p = some (s.of x (h.encode P chk p.stem) h.trailerOffset)

theorem fileAt_insert (t : Tree) (d : BucketDir) : fileAt (t.insert dir d) dir p = d.files.lookup p := by
  rw [fileAt, Finmap.lookup_insert, Option.bind_some]

theorem fileAt_insert_ne {dir' : String} (hne : dir' ≠ dir) (t : Tree) (d : BucketDir) :
    fileAt (t.insert dir' d) dir p = fileAt t dir p := by
  rw [fileAt, fileAt, Finmap.lookup_insert_of_ne _ hne.symm]

theorem insert_same {d : BucketDir} (hd : t.lookup dir = some d) : t.insert dir d = t := by
  refine Finmap.ext_lookup fun n => ?_
  by_cases hn : n = dir
  · rw [hn, Finmap.lookup_insert, hd]
  · rw [Finmap.lookup_insert_of_ne _ hn]

theorem upgradeBucket_stage (hv : V1 P x h) (hext : p.ext = "obj") (s : Stage) (n : ℕ) (bucket : String) :
    Spec (HoldsAt P chk dir p x h s) (upgradeBucket P W pathKey chk n bucket)
      (fun _ => HoldsAt P chk dir p x h (if encodeBucketDir P pathKey bucket = dir then s.settled else s))
      (fun _ => Later (HoldsAt P chk dir p x h) s) (Later (HoldsAt P chk dir p x h) s) := by
  refine Spec.get_bind fun t ht => ?_
  by_cases hdir : encodeBucketDir P pathKey bucket = dir
  · rw [hdir, if_pos rfl]
    obtain ⟨d, hd, hfile⟩ := Option.bind_eq_some_iff.1 ht
    have hmem : ¬dir ∉ t := not_not.2 (Finmap.lookup_isSome.1 (by rw [hd]; rfl))
    have hget : ((t.lookup dir).getD ⟨none, none, ∅⟩ : BucketDir) = d := by rw [hd]; rfl
    simp only [if_neg hmem]
    refine Spec.zoom t (by rw [hget, insert_same hd]) (upgradeBucketDir_stage hv hext n) (by rw [hget]; exact hfile)
      (fun _ d' hd' => ?_) (fun _ d' hd' => ?_) fun d' hd' => ?_
    · exact (fileAt_insert t d').trans hd'
    · obtain ⟨s', hs', heq⟩ := hd'
      exact ⟨s', (fileAt_insert t d').trans hs', heq⟩
    · obtain ⟨s', hs', heq⟩ := hd'
      exact ⟨s', (fileAt_insert t d').trans hs', heq⟩
  · rw [if_neg hdir]
    simp only
    split
    · exact Spec.pure _ (fun _ he => he ▸ ht) fun _ he => he ▸ later_same ht
    · next hmem =>
      obtain ⟨d, hd⟩ := Option.isSome_iff_exists.1 (Finmap.lookup_isSome.2 (not_not.1 hmem))
      have hget : ((t.lookup (encodeBucketDir P pathKey bucket)).getD ⟨none, none, ∅⟩ : BucketDir) = d := by rw [hd]; rfl
      have hany : Spec (fun _ => True) (upgradeBucketDir P W chk bucket n) (fun _ _ => True) (fun _ _ => True) fun _ => True :=
        fun _ _ => ⟨fun _ _ => trivial, fun _ _ => trivial, fun _ _ => trivial⟩
      have hkeep : ∀ d', HoldsAt P chk dir p x h s (t.insert (encodeBucketDir P pathKey bucket) d') :=
        fun d' => (fileAt_insert_ne hdir t d').trans ht
      exact Spec.zoom t (by rw [hget, insert_same hd]) hany trivial (fun _ d' _ => hkeep d') (fun _ d' _ => later_same (hkeep d'))
        fun d' _ => later_same (hkeep d')

/-- **What a run does to an object**: cut anywhere it leaves a stage that can come of the one it found; once it returns, the
object of a listed bucket is settled. -/
theorem upgrade_settles (hv : V1 P x h) (hext : p.ext = "obj") (hdir : ∃ b ∈ buckets, encodeBucketDir P pathKey b = dir) :
    Spec (HoldsAt P chk dir p x h s) (upgradeContainerHeaders P W buckets pathKey chk)
      (fun _ => HoldsAt P chk dir p x h s.settled) (fun _ => Later (HoldsAt P chk dir p x h) s) (Later (HoldsAt P chk dir p x h) s) := by
  have hloop := foldlM_settles (fun b => encodeBucketDir P pathKey b = dir)
    (@upgradeBucket_stage P chk pathKey _ _ W _ _ hv hext) buckets s 0
  rw [if_pos hdir] at hloop
  exact hloop

/-! ## Interrupted runs -/

/-- a run cut off after some of its writes -/
def cut (P : Primitives) (buckets : List String) (pathKey chk : Bytes) (S : Tree) (c : Surroundings × ℕ) : Tree :=
  (upgradeContainerHeaders P c.1 buckets pathKey chk).cutAt S c.2

/-- a version-1 object of a listed bucket -/
structure Listed (P : Primitives) (buckets : List String) (pathKey : Bytes) (T : Tree) (dir : String) (p : ShardFile) (x : Bytes)
    (h : Header) : Prop where
  listed : ∃ b ∈ buckets, encodeBucketDir P pathKey b = dir
  file : fileAt T dir p = some x
  ext : p.ext = "obj"
  v1 : V1 P x h

/-- the header of the object is rewritten, its trailer not yet -/
def HeaderAlone (P : Primitives) (chk : Bytes) (S : Tree) (dir : String) (p : ShardFile) (x : Bytes) (h : Header) : Prop :=
  fileAt S dir p = some (pwrite x 0 (h.encode P chk p.stem))

theorem headerAlone_iff (hv : V1 P x h) : HeaderAlone P chk t dir p x h ↔ HoldsAt P chk dir p x h Stage.torn t := by
  have hwrite := pwrite_header (s := ⟨false, false⟩) hv (Header.length_encode P h chk p.stem)
  rw [of_old hv] at hwrite
  rw [HeaderAlone, hwrite]
  rfl

theorem of_injective (hv : V1 P x h) {s s' : Stage} (ht : HoldsAt P chk dir p x h s t) (ht' : HoldsAt P chk dir p x h s' t) :
    s = Stage.torn → s' = Stage.torn := by
  rintro rfl
  have hbytes := Option.some.inj (ht.symm.trans ht')
  have henc := Header.length_encode P h chk p.stem
  have hheader := congrArg (fun b => slice b 0 64) hbytes
  have htrailer := congrArg (fun b => slice b h.trailerOffset (h.trailerOffset + 64)) hbytes
  simp only [slice_header hv henc, slice_trailer hv henc] at hheader htrailer
  have hne : slice x 0 64 ≠ h.encode P chk p.stem := by
    intro heq
    obtain ⟨e, he⟩ := @decode_v1 P chk p.stem _ _ hv.decodes
    rw [HEADER_SIZE, heq, Header.decode_encode P hv.wf] at he
    cases he
  have hmirror := hv.mirror
  cases s' with
  | mk header trailer =>
    cases header with
    | false => exact absurd hheader.symm (by simpa [Stage.torn] using hne)
    | true =>
      cases trailer with
      | false => rfl
      | true =>
        simp only [Stage.torn, Bool.false_eq_true, if_false, if_true] at htrailer
        exact absurd (hmirror.symm.trans htrailer) hne

theorem cut_later (hl : Listed P buckets pathKey T dir p x h) (ht : HoldsAt P chk dir p x h s t) (c : Surroundings × ℕ) :
    Later (HoldsAt P chk dir p x h) s (cut P buckets pathKey chk t c) :=
  (upgrade_settles hl.v1 hl.ext hl.listed t ht).1 _ (Crash.cutAt _ t c.2)

theorem torn_stays (hl : Listed P buckets pathKey T dir p x h) (ht : HoldsAt P chk dir p x h Stage.torn t)
    (cuts : List (Surroundings × ℕ)) : HoldsAt P chk dir p x h Stage.torn (run (cut P buckets pathKey chk) t cuts) := by
  induction cuts generalizing t with
  | nil => exact ht
  | cons c cuts ih =>
    obtain ⟨s', hs', heq⟩ := cut_later hl ht c
    cases heq rfl
    exact ih hs'

/-- after interrupted runs the object is torn exactly if one of them left it so -/
theorem cuts_stage (hl : Listed P buckets pathKey T dir p x h) (ht : HoldsAt P chk dir p x h s t) (hs : s ≠ Stage.torn)
    (cuts : List (Surroundings × ℕ)) : ∃ s', HoldsAt P chk dir p x h s' (run (cut P buckets pathKey chk) t cuts) ∧
      (s' ≠ Stage.torn ↔
        Along (cut P buckets pathKey chk) (fun S c => ¬HeaderAlone P chk (cut P buckets pathKey chk S c) dir p x h) t cuts) := by
  induction cuts generalizing t s with
  | nil => exact ⟨s, ht, iff_of_true hs trivial⟩
  | cons c cuts ih =>
    obtain ⟨s₁, hs₁, -⟩ := cut_later hl ht c
    by_cases htorn : s₁ = Stage.torn
    · rw [htorn] at hs₁
      refine ⟨Stage.torn, torn_stays hl hs₁ cuts, iff_of_false (fun h => h rfl) fun halong => ?_⟩
      exact halong.1 ((headerAlone_iff hl.v1).2 hs₁)
    · obtain ⟨s', hs', hiff⟩ := ih hs₁ htorn
      refine ⟨s', hs', hiff.trans ⟨fun halong => ⟨fun halone => ?_, halong⟩, fun halong => halong.2⟩⟩
      exact htorn (of_injective hl.v1 ((headerAlone_iff hl.v1).1 halone) hs₁ rfl)

/-- **The upgrade is resumable exactly if no interruption fell between the two writes of an object**, the header's first. After
runs cut off anywhere and one that returns, every version-1 object of a listed bucket is upgraded, or else one of the cuts left
an object with its header alone rewritten. -/
theorem upgrade_resumable_iff (P : Primitives) (buckets : List String) (pathKey chk : Bytes) (T : Tree)
    (cuts : List (Surroundings × ℕ)) (W : Surroundings) {n : ℕ}
    (hrun : (upgradeContainerHeaders P W buckets pathKey chk).result (run (cut P buckets pathKey chk) T cuts) = .ok n) :
    (∀ dir p x h, Listed P buckets pathKey T dir p x h →
      ∃ y, fileAt ((upgradeContainerHeaders P W buckets pathKey chk).final (run (cut P buckets pathKey chk) T cuts)) dir p = some y ∧
        Upgraded P chk p.stem x h y) ↔
    Along (cut P buckets pathKey chk) (fun S c => ∀ dir p x h, Listed P buckets pathKey T dir p x h →
      ¬HeaderAlone P chk (cut P buckets pathKey chk S c) dir p x h) T cuts := by
  simp only [along_forall]
  refine forall₄_congr fun dir p x h => forall_congr' fun hl => ?_
  have hstart : HoldsAt P chk dir p x h ⟨false, false⟩ T := by rw [HoldsAt, of_old hl.v1, hl.file]
  obtain ⟨s, hs, hiff⟩ := cuts_stage hl hstart (by decide) cuts
  have hfinal := (upgrade_settles (W := W) hl.v1 hl.ext hl.listed _ hs).2.1 n hrun
  rw [← hiff]
  have hsettled : s.settled = ⟨true, true⟩ ↔ s ≠ Stage.torn := by
    cases s with
    | mk header trailer => cases header <;> cases trailer <;> decide
  rw [← hsettled, ← @upgraded_iff P chk _ p.stem _ hl.v1]
  constructor
  · rintro ⟨y, hy, hupgraded⟩
    rw [hfinal] at hy
    cases hy
    exact hupgraded
  · exact fun hupgraded => ⟨_, hfinal, hupgraded⟩

end Run

namespace Interrupted

def primitives : Primitives where
  aead := Aead.tagged
  hmacSha256 _ _ := List.replicate 32 0
  crc32 _ := 0
  aead_correct := Aead.tagged_correct
  length_hmac := length_zeroDigest

def record : Bytes := MAGIC ++ [1, 0, 0, 0] ++ List.replicate 12 0 ++ [64, 0, 0, 0] ++ List.replicate 40 0

def header : Header := ⟨0, 0, 64, 0, VERSION⟩

def dir : String := encodeBucketDir primitives [] "b"

def path : ShardFile := objFile "0000"

/-- one empty version-1 object -/
def tree : Tree := Finmap.singleton dir ⟨none, none, (∅ : Files).insert path (record ++ record)⟩

/-- the header reaches the disk first, or the trailer does -/
def surroundings (trailerFirst : Bool) : Surroundings := ⟨fun l => l, fun l => List.Perm.refl l, fun _ => trailerFirst⟩

theorem v1 : V1 primitives (record ++ record) header where
  decodes := by decide +kernel
  total := by decide +kernel
  mirror := by decide +kernel

theorem listed : Listed primitives ["b"] [] tree dir path (record ++ record) header where
  listed := ⟨"b", by simp, rfl⟩
  file := by
    rw [fileAt, tree, Finmap.lookup_singleton_eq, Option.bind_some]
    exact AList.lookup_insert _
  ext := rfl
  v1 := v1

theorem ok_of_toOption {ε α : Type} {r : Except ε α} {a : α} (h : r.toOption = some a) : r = .ok a := by
  cases r with
  | error e => cases h
  | ok b =>
    cases h
    rfl

end Interrupted

open Interrupted in
/-- cut after the header, the upgrade leaves the version-1 trailer, and the run that resumes it returns without a look at it -/
theorem cut_after_header_strands : ¬∀ (cuts : List (Surroundings × ℕ)) (W : Surroundings) (n : ℕ),
    (upgradeContainerHeaders primitives W ["b"] [] []).result (run (cut primitives ["b"] [] []) tree cuts) = .ok n →
      ∀ dir p x h, Listed primitives ["b"] [] tree dir p x h → ∃ y,
        fileAt ((upgradeContainerHeaders primitives W ["b"] [] []).final (run (cut primitives ["b"] [] []) tree cuts)) dir p = some y ∧
          Upgraded primitives [] p.stem x h y := by
  intro hclaim
  have hreturns : ((upgradeContainerHeaders primitives (surroundings false) ["b"] [] []).result
      (run (cut primitives ["b"] [] []) tree [(surroundings false, 1)])).toOption = some 0 := by decide +kernel
  have hfile : fileAt ((upgradeContainerHeaders primitives (surroundings false) ["b"] [] []).final
      (run (cut primitives ["b"] [] []) tree [(surroundings false, 1)])) dir path =
        some (header.encode primitives [] path.stem ++ record) := by decide +kernel
  have hok : (upgradeContainerHeaders primitives (surroundings false) ["b"] [] []).result
      (run (cut primitives ["b"] [] []) tree [(surroundings false, 1)]) = .ok 0 := ok_of_toOption hreturns
  obtain ⟨y, hy, hupgraded⟩ := hclaim [(surroundings false, 1)] (surroundings false) 0 hok _ _ _ _ listed
  rw [hfile] at hy
  cases hy
  have hsame : slice (header.encode primitives [] path.stem ++ record) 64 128 =
      slice (header.encode primitives [] path.stem ++ record) 0 64 := hupgraded.trailer
  exact absurd hsame (by decide +kernel)

open Interrupted in
theorem upgrade_resumable_iff_trailer_first :
    (upgradeContainerHeaders primitives (surroundings false) ["b"] [] []).result
      (run (cut primitives ["b"] [] []) tree [(surroundings true, 1)]) = .ok 1 ∧
    ((∀ dir p x h, Listed primitives ["b"] [] tree dir p x h →
      ∃ y, fileAt ((upgradeContainerHeaders primitives (surroundings false) ["b"] [] []).final
        (run (cut primitives ["b"] [] []) tree [(surroundings true, 1)])) dir p = some y ∧ Upgraded primitives [] p.stem x h y) ↔
    Along (cut primitives ["b"] [] []) (fun S c => ∀ dir p x h, Listed primitives ["b"] [] tree dir p x h →
      ¬HeaderAlone primitives [] (cut primitives ["b"] [] [] S c) dir p x h) tree [(surroundings true, 1)]) := by
  have hreturns : ((upgradeContainerHeaders primitives (surroundings false) ["b"] [] []).result
      (run (cut primitives ["b"] [] []) tree [(surroundings true, 1)])).toOption = some 1 := by decide +kernel
  have hok : (upgradeContainerHeaders primitives (surroundings false) ["b"] [] []).result
      (run (cut primitives ["b"] [] []) tree [(surroundings true, 1)]) = .ok 1 := ok_of_toOption hreturns
  exact ⟨hok, upgrade_resumable_iff primitives ["b"] [] [] tree [(surroundings true, 1)] (surroundings false) hok⟩

end Y2q.Upgrade
