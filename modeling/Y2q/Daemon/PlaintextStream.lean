/-
Streaming a plaintext range of an object (`cipher::plaintext_stream`).

The stream reads the preamble first, learns the chunk size from it, and then fetches, opens and trims one chunk per read. A
`StreamState` says which range it wants next (`request`) and goes on with what it gets (`receive`); `collect` polls it to the end.
Every read is a new `get_range`, so what happens to the file in between is for the caller of `collect` to say.

Offsets are those of a file, so that no `u64` sum wraps; an inverted window is the one exception, and it is compared as the wrapped
difference would be.

- `Version`: a plaintext as a file holds it, in an envelope of version 3 (whatever its padding) or 4 (Padmé).
- `collect_version`: polled over an unchanging file, the stream gives the range asked for.
- `receive_sound`: once the stream has a version's preamble it gives that version's chunks, whatever the file has become.
-/
import Mathlib.Tactic
import Y2q.Crypto.EnvelopeChunks
import Y2q.Storage.Objects
import Y2q.Storage.RangeReads

namespace Y2q.PlaintextStream

open Y2q Envelope RangeReads

/-! ## The stream -/

inductive StreamError where
  | storage (e : ReadError)
  | envelopeMalformed (reason : String)
  | unsupportedEnvelopeVersion (version : ℕ)
  | decryptionFailed
  /-- `Bytes::slice` out of bounds -/
  | panic

def ofCryptoError : CryptoError → StreamError
  | .unsupportedVersion v => .unsupportedEnvelopeVersion v
  | .envelope reason => .envelopeMalformed reason
  | _ => .decryptionFailed

structure StreamGeometry where
  preamble : Bytes
  chunkSize : ℕ
  /-- known for version 4, which marks the final chunk -/
  v4TotalChunks : Option ℕ

structure StreamState where
  bucket : String
  key : String
  md : Objects.Metadata
  bucketSk : Bytes
  start : ℕ
  /-- `end`, inclusive -/
  stop : ℕ
  geometry : Option StreamGeometry
  cur : ℕ

variable (S : Suite)

def plaintextStream (bucket key : String) (md : Objects.Metadata) (bucketSk : Bytes) (start stop : ℕ) : StreamState :=
  { bucket, key, md, bucketSk, start, stop, geometry := none, cur := 0 }

namespace StreamState

def cipherStart (s : StreamState) (g : StreamGeometry) : ℕ := g.preamble.length + s.cur * (g.chunkSize + TAG_LEN)

def cipherEnd (s : StreamState) (g : StreamGeometry) : ℕ :=
  let calc' := g.preamble.length + (s.cur + 1) * (g.chunkSize + TAG_LEN) - 1
  match s.md.cipher with
  | some ci => min calc' (ci.cipherSize - 1)
  | none => calc'

/-- the range of the next read, if there is one -/
def request (s : StreamState) : Option (ℕ × ℕ) :=
  match s.geometry with
  | none => some (0, PREAMBLE_LEN - 1)
  | some g => if s.stop / g.chunkSize < s.cur then none else some (s.cipherStart g, s.cipherEnd g)

def readGeometry (s : StreamState) (preamble : Bytes) : Except StreamError StreamGeometry :=
  match s.md.cipher.map (·.envelopeVersion) with
  | some 3 =>
    match parseV3Geometry preamble with
    | .error _ => .error (.envelopeMalformed "bad v3 header")
    | .ok (_, chunkSize, _) => .ok ⟨preamble, chunkSize, none⟩
  | some 4 =>
    match parseV4Geometry preamble with
    | .error _ => .error (.envelopeMalformed "bad v4 header")
    | .ok (_, chunkSize, _) => .ok ⟨preamble, chunkSize, some ((padmeLen s.md.size + (chunkSize - 1)) / chunkSize)⟩
  | other => .error (.unsupportedEnvelopeVersion (other.getD 0))

def openWindow (s : StreamState) (g : StreamGeometry) (window : Bytes) : Except CryptoError Bytes :=
  match g.v4TotalChunks with
  | some totalChunks => decryptV4Chunks S s.bucketSk g.preamble window s.cur totalChunks s.bucket s.key
  | none => decryptV3Chunks S s.bucketSk g.preamble window s.cur s.bucket s.key

/-- the part of the chunk `cur` that is in the range -/
def trim (s : StreamState) (g : StreamGeometry) (chunkPt : Bytes) : Option Bytes :=
  let trimFront := s.start - s.cur * g.chunkSize
  let lastValidIdx := chunkPt.length - 1
  let trimBack := if s.cur = s.stop / g.chunkSize then min (s.stop - s.cur * g.chunkSize) lastValidIdx else lastValidIdx
  if trimFront ≤ trimBack + 1 ∧ trimBack + 1 ≤ chunkPt.length then some (slice chunkPt trimFront (trimBack + 1)) else none

/-- go on with what the read returned -/
def receive (s : StreamState) (window : Bytes) : Except StreamError (Bytes × StreamState) :=
  match s.geometry with
  | none =>
    match s.readGeometry window with
    | .error e => .error e
    | .ok g => .ok ([], { s with geometry := some g, cur := s.start / g.chunkSize })
  | some g =>
    if window.length + s.cipherStart g ≠ s.cipherEnd g + 1 then
      .error (.envelopeMalformed "on-disk object shorter than recorded metadata")
    else
      match s.openWindow S g window with
      | .error e => .error (ofCryptoError e)
      | .ok chunkPt =>
        match s.trim g chunkPt with
        | none => .error .panic
        | some out => .ok (out, { s with cur := s.cur + 1 })

/-- how many reads there are still to make -/
def remaining (s : StreamState) : ℕ :=
  match s.geometry with
  | none => s.stop + 2
  | some g => s.stop / g.chunkSize + 1 - s.cur

theorem remaining_receive {s s' : StreamState} {r : ℕ × ℕ} {window out : Bytes} (hr : s.request = some r)
    (h : s.receive S window = .ok (out, s')) : s'.remaining < s.remaining := by
  unfold receive at h
  cases hg : s.geometry with
  | none =>
    simp only [hg] at h
    cases hread : s.readGeometry window with
    | error e => rw [hread] at h; cases h
    | ok g =>
      rw [hread] at h
      cases h
      have hle := Nat.div_le_self s.stop g.chunkSize
      simp only [remaining, hg]
      exact lt_of_le_of_lt (Nat.sub_le _ _) (by omega)
  | some g =>
    simp only [hg] at h
    simp only [request, hg] at hr
    split_ifs at hr with hdone
    split_ifs at h with hlen
    cases ho : s.openWindow S g window with
    | error e => rw [ho] at h; cases h
    | ok chunkPt =>
      rw [ho] at h
      simp only at h
      cases ht : s.trim g chunkPt with
      | none => rw [ht] at h; cases h
      | some part =>
        rw [ht] at h
        cases h
        simp only [remaining, hg]
        omega

/-- poll to the end; `reads k` answers the `k`-th read -/
def collect (reads : ℕ → ℕ → ℕ → Except ReadError Bytes) (s : StreamState) (k : ℕ) (body : Bytes) : Except StreamError Bytes :=
  match _hr : s.request with
  | none => .ok body
  | some (first, last) =>
    match reads k first last with
    | .error e => .error (.storage e)
    | .ok window =>
      match _h : s.receive S window with
      | .error e => .error e
      | .ok (out, s') => collect reads s' (k + 1) (body ++ out)
termination_by s.remaining
decreasing_by exact remaining_receive S _hr _h

section

variable {S} {reads : ℕ → ℕ → ℕ → Except ReadError Bytes} {s s' : StreamState} {k first last : ℕ} {body window out : Bytes}

theorem collect_done (h : s.request = none) : collect S reads s k body = .ok body := by
  rw [collect]
  split
  · rfl
  · rename_i heq
    rw [h] at heq
    cases heq

theorem collect_next (hr : s.request = some (first, last)) (hw : reads k first last = .ok window)
    (h : s.receive S window = .ok (out, s')) : collect S reads s k body = collect S reads s' (k + 1) (body ++ out) := by
  rw [collect]
  split
  · rename_i heq
    rw [hr] at heq
    cases heq
  · rename_i a b heq
    rw [hr] at heq
    cases heq
    rw [hw]
    simp only
    split
    · rename_i heq
      rw [h] at heq
      cases heq
    · rename_i heq
      rw [h] at heq
      cases heq
      rfl

end

end StreamState

/-! ## Versions -/

/-- a plaintext as a file holds it for the holder of `sk` -/
structure Version (bucket key : String) (sk : Bytes) where
  plaintext : Bytes
  envelopeVersion : ℕ
  keyEpoch : UInt32
  nonceBase : Nonce
  kemCt : Bytes
  chunkSize : ℕ
  /-- what was sealed: the plaintext and its padding -/
  body : Bytes
  length_kemCt : kemCt.length = 1088
  chunkSize_pos : 1 ≤ chunkSize
  chunkSize_lt : chunkSize < 2 ^ 32
  length_body : body.length < 2 ^ 64
  padding : envelopeVersion = FORMAT_VER_V3 ∧ plaintext <+: body ∨
    envelopeVersion = FORMAT_VER_V4 ∧ plaintext.length < 2 ^ 63 ∧ body = padded plaintext

namespace Version

variable {S} {bucket key : String} {sk : Bytes} (v : Version bucket key sk)

variable (S) in
def contentKey : Bytes := deriveContentKey S (S.decapsulate v.kemCt sk) v.kemCt bucket key

def aadBase : Bytes := headerFront v.envelopeVersion v.keyEpoch v.nonceBase.1 ++ beBytes 4 v.chunkSize

variable (S) in
def chunkCts : List Bytes := sealedChunks S v.envelopeVersion (v.contentKey S) v.nonceBase.1 v.aadBase (chunks v.chunkSize v.body)

variable (S) in
/-- the data section of the object -/
def data : Bytes :=
  envelopeOf S v.envelopeVersion (S.decapsulate v.kemCt sk) v.kemCt bucket key v.keyEpoch v.nonceBase.1 v.chunkSize v.body

variable (S) in
/-- what the writer records about it -/
structure Describes (md : Objects.Metadata) (ci : Objects.CipherMetadata) : Prop where
  size : md.size = v.plaintext.length
  cipher : md.cipher = some ci
  envelopeVersion : ci.envelopeVersion = v.envelopeVersion
  cipherSize : ci.cipherSize = (v.data S).length

variable (S) in
/-- its chunks open -/
def Opens : Prop := OpensChunks S v.envelopeVersion (v.contentKey S) v.nonceBase.1 v.aadBase (chunks v.chunkSize v.body)

theorem isPrefix : v.plaintext <+: v.body := by
  rcases v.padding with ⟨-, h⟩ | ⟨-, -, h⟩
  · exact h
  · rw [h]
    exact List.prefix_append _ _

theorem slice_plaintext {i j : ℕ} (hj : j ≤ v.plaintext.length) : slice v.body i j = slice v.plaintext i j := by
  obtain ⟨rest, h⟩ := v.isPrefix
  rw [← h, slice_left hj]

theorem envelopeVersion_lt : v.envelopeVersion < 2 ^ 16 := by
  rcases v.padding with ⟨h, -⟩ | ⟨h, -⟩
  · rw [h]; decide
  · rw [h]; decide

/-- where the chunk `i` lies in the plaintext -/
def chunk (i : ℕ) : Bytes := slice v.body (i * v.chunkSize) (i * v.chunkSize + v.chunkSize)

theorem getElem?_chunks {i : ℕ} (hi : i * v.chunkSize < v.body.length) : (chunks v.chunkSize v.body)[i]? = some (v.chunk i) := by
  rw [Y2q.getElem?_chunks v.chunkSize_pos, if_pos hi, chunk, slice, Nat.add_sub_cancel_left]

theorem length_chunk (i : ℕ) : (v.chunk i).length = min v.chunkSize (v.body.length - i * v.chunkSize) := by
  rw [chunk, slice, List.length_take, List.length_drop, Nat.add_sub_cancel_left]

/-- the run of one chunk -/
theorem run_one {L : List Bytes} {i : ℕ} {x : Bytes} (h : L[i]? = some x) : ((L.drop i).take 1).flatten = x := by
  rw [List.take_one, List.head?_drop, h]
  simp

theorem getElem?_chunkCts {i : ℕ} (hi : i * v.chunkSize < v.body.length) :
    ∃ ct, (v.chunkCts S)[i]? = some ct ∧ ct.length = (v.chunk i).length + 16 := by
  have hget : (v.chunkCts S)[i]? = some (sealed S v.envelopeVersion (v.contentKey S) v.nonceBase.1 v.aadBase
      (chunks v.chunkSize v.body).length i (v.chunk i)) := by
    rw [chunkCts, sealedChunks, List.getElem?_mapIdx, v.getElem?_chunks hi, Option.map_some]
  exact ⟨_, hget, length_sealed _ _ _⟩

/-- the window of the chunk `i` -/
theorem clip_window {i : ℕ} {ct : Bytes} (hct : (v.chunkCts S)[i]? = some ct) :
    clip (v.data S) (PREAMBLE_LEN + i * (v.chunkSize + TAG_LEN))
      (min (PREAMBLE_LEN + (i + 1) * (v.chunkSize + TAG_LEN) - 1) ((v.data S).length - 1)) = .ok ct ∧
    ct.length + (PREAMBLE_LEN + i * (v.chunkSize + TAG_LEN)) =
      min (PREAMBLE_LEN + (i + 1) * (v.chunkSize + TAG_LEN) - 1) ((v.data S).length - 1) + 1 := by
  have hpre : (header v.envelopeVersion v.keyEpoch v.nonceBase.1 v.body.length v.chunkSize ++ v.kemCt).length = PREAMBLE_LEN := by
    rw [List.length_append, length_header _ _ v.nonceBase.2, v.length_kemCt]
  have hdata : v.data S = header v.envelopeVersion v.keyEpoch v.nonceBase.1 v.body.length v.chunkSize ++ v.kemCt ++
      (v.chunkCts S).flatten := rfl
  have hlen : (v.data S).length = PREAMBLE_LEN + (v.chunkCts S).flatten.length := by rw [hdata, List.length_append, hpre]
  have hchunked : Chunked (v.chunkSize + TAG_LEN) (v.chunkCts S) := chunked_sealedChunks (chunked_chunks v.chunkSize_pos _)
  have hpos : 0 < v.chunkSize + TAG_LEN := by have := v.chunkSize_pos; omega
  have hbody := hchunked.take_drop hpos hct
  have hctl : ct.length = min (v.chunkSize + TAG_LEN) ((v.chunkCts S).flatten.length - i * (v.chunkSize + TAG_LEN)) := by
    rw [← hbody, List.length_take, List.length_drop]
  have hctpos : 0 < ct.length := by
    have hseal := hct
    rw [chunkCts, sealedChunks, List.getElem?_mapIdx, Option.map_eq_some_iff] at hseal
    obtain ⟨x, -, rfl⟩ := hseal
    rw [length_sealed]
    omega
  rw [Nat.succ_mul, hlen]
  generalize hoff : i * (v.chunkSize + TAG_LEN) = off at hbody hctl ⊢
  generalize htot : (v.chunkCts S).flatten.length = tot at hctl hlen ⊢
  have hP : PREAMBLE_LEN = 1124 := rfl
  refine ⟨?_, by omega⟩
  rw [clip, hlen, if_neg (by omega), if_neg (by omega), slice, hdata, ← List.drop_drop, List.drop_left' hpre, ← hbody]
  congr 1
  rw [List.take_eq_take_iff, List.length_drop, htot]
  omega

variable {v}

/-- the preamble of a version tells its geometry -/
theorem readGeometry_preamble {md : Objects.Metadata} {ci : Objects.CipherMetadata} (hd : v.Describes S md ci) {s : StreamState}
    (hmd : s.md = md) :
    s.readGeometry (slice (v.data S) 0 PREAMBLE_LEN) = .ok ⟨slice (v.data S) 0 PREAMBLE_LEN, v.chunkSize,
      if v.envelopeVersion = FORMAT_VER_V3 then none else some (chunks v.chunkSize v.body).length⟩ := by
  have hgeo := fun t => parseGeometry_header v.keyEpoch t v.envelopeVersion_lt v.nonceBase.2 v.length_body
    v.chunkSize_pos v.chunkSize_lt v.kemCt
  have hpre : slice (v.data S) 0 PREAMBLE_LEN = header v.envelopeVersion v.keyEpoch v.nonceBase.1 v.body.length v.chunkSize ++ v.kemCt :=
    slice_preamble v.nonceBase.2 v.length_kemCt
  unfold StreamState.readGeometry
  rw [hmd, hd.cipher, Option.map_some, hd.envelopeVersion, hpre]
  rcases v.padding with ⟨hver, -⟩ | ⟨hver, hlt, hbody⟩
  · rw [hver] at hgeo ⊢
    simp only [FORMAT_VER_V3, parseV3Geometry] at hgeo ⊢
    rw [hgeo]
    rfl
  · rw [hver] at hgeo ⊢
    have hcount : (padmeLen md.size + (v.chunkSize - 1)) / v.chunkSize = (chunks v.chunkSize v.body).length := by
      rw [length_chunks v.chunkSize_pos, hbody, length_padded hlt, hd.size]
    simp only [FORMAT_VER_V4, parseV4Geometry] at hgeo ⊢
    rw [hgeo]
    simp only [hcount]
    rfl

variable (S v) in
def geometry : StreamGeometry :=
  ⟨slice (v.data S) 0 PREAMBLE_LEN, v.chunkSize,
    if v.envelopeVersion = FORMAT_VER_V3 then none else some (chunks v.chunkSize v.body).length⟩

variable (S v) in
/-- the stream of a range of the version, at its chunk `cur` -/
def streamAt (md : Objects.Metadata) (start stop cur : ℕ) : StreamState :=
  { bucket, key, md, bucketSk := sk, start, stop, geometry := some (v.geometry S), cur }

/-! ## An unchanging file -/

variable {md : Objects.Metadata} {ci : Objects.CipherMetadata} {start stop cur : ℕ}

/-- a window is opened under what the preamble says and the key at hand -/
theorem openWindow_eq {sk' : Bytes} (hsk : sk'.length = 2400) (hval : S.validSk sk' = true) {s : StreamState} (hkey : s.bucketSk = sk')
    (hb : s.bucket = bucket) (hk : s.key = key) (window : Bytes) :
    s.openWindow S (v.geometry S) window = openChunks S (deriveContentKey S (S.decapsulate v.kemCt sk') v.kemCt bucket key) v.nonceBase.1
      (fun j => chunkAad v.envelopeVersion v.aadBase (j + 1 = (chunks v.chunkSize v.body).length)) v.chunkSize window 0 s.cur [] := by
  have hpre : ∀ truncated t parse aadOf, parse = parseGeometry v.envelopeVersion t →
      decryptChunks S truncated parse aadOf sk' (slice (v.data S) 0 PREAMBLE_LEN) window s.cur bucket key =
        openChunks S (deriveContentKey S (S.decapsulate v.kemCt sk') v.kemCt bucket key) v.nonceBase.1 (aadOf v.aadBase) v.chunkSize
          window 0 s.cur [] := by
    intro truncated t parse aadOf hparse
    exact decryptChunks_preamble v.envelopeVersion_lt v.chunkSize_pos v.chunkSize_lt v.nonceBase.2 v.length_kemCt v.length_body hsk hval
      hparse window s.cur
  rcases v.padding with ⟨hver, -⟩ | ⟨hver, -, -⟩
  · have hg : (v.geometry S).v4TotalChunks = none := by rw [geometry, hver]; rfl
    have haad : (fun j => chunkAad v.envelopeVersion v.aadBase (j + 1 = (chunks v.chunkSize v.body).length)) = fun _ => v.aadBase := by
      rw [hver]
      rfl
    rw [StreamState.openWindow, hg, hkey, hb, hk, haad]
    exact hpre "truncated v3 preamble" "truncated v3 header" parseV3Geometry (fun aad _ => aad) (by rw [hver]; rfl)
  · have hg : (v.geometry S).v4TotalChunks = some (chunks v.chunkSize v.body).length := by rw [geometry, hver]; rfl
    have haad : (fun j => chunkAad v.envelopeVersion v.aadBase (j + 1 = (chunks v.chunkSize v.body).length)) =
        fun j => buildV4Aad v.aadBase (j + 1 = (chunks v.chunkSize v.body).length) := by
      rw [hver]
      rfl
    rw [StreamState.openWindow, hg, hkey, hb, hk, haad]
    exact hpre "truncated v4 preamble" "truncated v4 header" parseV4Geometry _ (by rw [hver]; rfl)

theorem openWindow_chunk (hopens : v.Opens S) (hsk : sk.length = 2400) (hval : S.validSk sk = true)
    (hcur : cur * v.chunkSize < v.body.length) {ct : Bytes} (hct : (v.chunkCts S)[cur]? = some ct) :
    (v.streamAt S md start stop cur).openWindow S (v.geometry S) ct = .ok (v.chunk cur) := by
  have hrun := openChunks_run hopens v.chunkSize_pos cur 1
  rw [← chunkCts, run_one hct, run_one (v.getElem?_chunks hcur)] at hrun
  exact (openWindow_eq (v := v) hsk hval (s := v.streamAt S md start stop cur) rfl rfl rfl ct).trans hrun

variable (S md) in
theorem trim_chunk (hle : start ≤ stop) (hstop : stop < v.body.length) (hfirst : start < cur * v.chunkSize + v.chunkSize)
    (hlast : cur ≤ stop / v.chunkSize) :
    (v.streamAt S md start stop cur).trim (v.geometry S) (v.chunk cur) =
      some (slice v.body (max start (cur * v.chunkSize)) (min (cur * v.chunkSize + v.chunkSize) (stop + 1))) := by
  have hc := v.chunkSize_pos
  have hcur : cur * v.chunkSize ≤ stop := (Nat.le_div_iff_mul_le hc).1 hlast
  have hlen := v.length_chunk cur
  have hg : (v.geometry S).chunkSize = v.chunkSize := rfl
  -- the last chunk is cut at the end of the range, the others are whole
  have hback : (if cur = stop / v.chunkSize then min (stop - cur * v.chunkSize) ((v.chunk cur).length - 1)
      else (v.chunk cur).length - 1) + 1 + cur * v.chunkSize = min (cur * v.chunkSize + v.chunkSize) (stop + 1) := by
    by_cases heq : cur = stop / v.chunkSize
    · have hlt : stop < cur * v.chunkSize + v.chunkSize := by
        rw [heq, ← Nat.succ_mul, Nat.mul_comm]
        exact Nat.lt_mul_div_succ stop hc
      rw [if_pos heq]
      omega
    · have hnext : (cur + 1) * v.chunkSize ≤ stop := (Nat.le_div_iff_mul_le hc).1 (by omega)
      rw [Nat.succ_mul] at hnext
      rw [if_neg heq]
      omega
  unfold StreamState.trim
  simp only [streamAt, hg]
  set back := if cur = stop / v.chunkSize then min (stop - cur * v.chunkSize) ((v.chunk cur).length - 1)
    else (v.chunk cur).length - 1
  generalize hoff : cur * v.chunkSize = off at *
  rw [if_pos (by omega), chunk, hoff, slice_slice_add (by omega)]
  congr 2
  · omega
  · omega

/-- one read of one chunk -/
theorem receive_window (hopens : v.Opens S) (hsk : sk.length = 2400) (hval : S.validSk sk = true) (hd : v.Describes S md ci)
    (hle : start ≤ stop) (hstop : stop < v.plaintext.length) (hfirst : start < cur * v.chunkSize + v.chunkSize)
    (hlast : cur ≤ stop / v.chunkSize) :
    ∃ first last window, (v.streamAt S md start stop cur).request = some (first, last) ∧ clip (v.data S) first last = .ok window ∧
      (v.streamAt S md start stop cur).receive S window =
        .ok (slice v.plaintext (max start (cur * v.chunkSize)) (min (cur * v.chunkSize + v.chunkSize) (stop + 1)),
          v.streamAt S md start stop (cur + 1)) := by
  have hbody := v.isPrefix.length_le
  have hcur : cur * v.chunkSize < v.body.length := by
    have := (Nat.le_div_iff_mul_le v.chunkSize_pos).1 hlast
    omega
  obtain ⟨ct, hct, -⟩ := v.getElem?_chunkCts (S := S) hcur
  obtain ⟨hclip, hlen⟩ := v.clip_window hct
  have hpre : (v.geometry S).preamble.length = PREAMBLE_LEN := by
    rw [geometry, data, slice_preamble v.nonceBase.2 v.length_kemCt, List.length_append, length_header _ _ v.nonceBase.2, v.length_kemCt]
  have hstart : (v.streamAt S md start stop cur).cipherStart (v.geometry S) = PREAMBLE_LEN + cur * (v.chunkSize + TAG_LEN) := by
    rw [StreamState.cipherStart, hpre]
    rfl
  have hend : (v.streamAt S md start stop cur).cipherEnd (v.geometry S) =
      min (PREAMBLE_LEN + (cur + 1) * (v.chunkSize + TAG_LEN) - 1) ((v.data S).length - 1) := by
    rw [StreamState.cipherEnd, hpre]
    simp only [streamAt, hd.cipher, hd.cipherSize]
    rfl
  refine ⟨PREAMBLE_LEN + cur * (v.chunkSize + TAG_LEN),
    min (PREAMBLE_LEN + (cur + 1) * (v.chunkSize + TAG_LEN) - 1) ((v.data S).length - 1), ct, ?_, hclip, ?_⟩
  · rw [← hstart, ← hend]
    exact if_neg (not_lt.2 hlast)
  · rw [StreamState.receive]
    simp only [show (v.streamAt S md start stop cur).geometry = some (v.geometry S) from rfl]
    rw [hstart, hend, if_neg (not_not.2 hlen), openWindow_chunk hopens hsk hval hcur hct]
    simp only [trim_chunk S md hle (show stop < v.body.length by omega) hfirst hlast]
    rw [v.slice_plaintext (by omega)]
    rfl

variable (v) in
/-- the first read gives the preamble -/
theorem clip_preamble : clip (v.data S) 0 (PREAMBLE_LEN - 1) = .ok (slice (v.data S) 0 PREAMBLE_LEN) := by
  have hP : PREAMBLE_LEN = 1124 := rfl
  have hlen : PREAMBLE_LEN ≤ (v.data S).length := by
    rw [data, length_envelopeOf v.chunkSize_pos v.nonceBase.2 v.length_kemCt]
    omega
  rw [clip, if_neg (by omega), if_neg (by omega), show min (PREAMBLE_LEN - 1) ((v.data S).length - 1) + 1 = PREAMBLE_LEN by omega]

variable (start stop) in
theorem receive_preamble (hd : v.Describes S md ci) :
    (plaintextStream bucket key md sk start stop).receive S (slice (v.data S) 0 PREAMBLE_LEN) =
      .ok ([], v.streamAt S md start stop (start / v.chunkSize)) := by
  rw [StreamState.receive]
  simp only [plaintextStream]
  rw [readGeometry_preamble hd rfl]
  rfl

section Arithmetic

variable {c : ℕ}

theorem lt_chunk_end (hc : 0 < c) (hfirst : start / c ≤ cur) : start < cur * c + c := by
  have hlt := Nat.lt_mul_div_succ start hc
  have hmul := Nat.mul_le_mul_right c (Nat.succ_le_succ hfirst)
  rw [Nat.mul_comm] at hlt
  rw [Nat.succ_mul cur] at hmul
  exact lt_of_lt_of_le hlt hmul

theorem stop_lt_end (hc : 0 < c) (hcur : stop / c < cur) : stop + 1 ≤ cur * c :=
  calc stop + 1 ≤ (stop / c + 1) * c := by rw [Nat.mul_comm]; exact Nat.lt_mul_div_succ stop hc
    _ ≤ cur * c := Nat.mul_le_mul_right c hcur

theorem slice_before (stop : ℕ) (P : Bytes) (hcur : cur * c ≤ start) : slice P start (min (cur * c) (stop + 1)) = [] := by
  rw [slice, show min (cur * c) (stop + 1) - start = 0 by omega, List.take_zero]

/-- what is there and what a chunk adds lie side by side -/
theorem slice_join (P : Bytes) (hcur : cur * c ≤ stop) :
    slice P start (min (cur * c) (stop + 1)) ++ slice P (max start (cur * c)) (min (cur * c + c) (stop + 1)) =
      slice P start (min ((cur + 1) * c) (stop + 1)) := by
  rw [Nat.succ_mul]
  by_cases hin : cur * c ≤ start
  · rw [slice_before stop P hin, Nat.max_eq_left hin, List.nil_append]
  · rw [Nat.max_eq_right (by omega), Nat.min_eq_left (by omega), slice_append_slice (by omega) (by omega)]

end Arithmetic

/-- from any chunk on, the stream completes the range -/
theorem collect_streamAt (hopens : v.Opens S) (hsk : sk.length = 2400) (hval : S.validSk sk = true)
    (hd : v.Describes S md ci) (hle : start ≤ stop) (hstop : stop < v.plaintext.length)
    {reads : ℕ → ℕ → ℕ → Except ReadError Bytes} (hreads : ∀ k first last, reads k first last = clip (v.data S) first last)
    (hfirst : start / v.chunkSize ≤ cur) (hlast : cur ≤ stop / v.chunkSize + 1) (k : ℕ) :
    (v.streamAt S md start stop cur).collect S reads k (slice v.plaintext start (min (cur * v.chunkSize) (stop + 1))) =
      .ok (slice v.plaintext start (stop + 1)) := by
  have hc := v.chunkSize_pos
  induction hn : stop / v.chunkSize + 1 - cur generalizing cur k with
  | zero =>
    have hend : stop + 1 ≤ cur * v.chunkSize := stop_lt_end hc (by omega)
    rw [Nat.min_eq_right hend]
    apply StreamState.collect_done
    rw [StreamState.request, streamAt]
    exact if_pos (show stop / v.chunkSize < cur by omega)
  | succ n ih =>
    have hbefore := lt_chunk_end hc hfirst
    have hcur : cur * v.chunkSize ≤ stop := (Nat.le_div_iff_mul_le hc).1 (by omega)
    obtain ⟨first, last, window, hreq, hclip, hrec⟩ := receive_window hopens hsk hval hd hle hstop hbefore (by omega)
    rw [StreamState.collect_next hreq ((hreads _ _ _).trans hclip) hrec]
    rw [slice_join v.plaintext hcur]
    exact ih (by omega) (by omega) (k + 1) (by omega)

/-- **The stream gives the range asked for**, whatever the chunk size and the version, when the file does not change. -/
theorem collect_version (hopens : v.Opens S) (hsk : sk.length = 2400) (hval : S.validSk sk = true)
    (hd : v.Describes S md ci) (hle : start ≤ stop) (hstop : stop < v.plaintext.length)
    {reads : ℕ → ℕ → ℕ → Except ReadError Bytes} (hreads : ∀ k first last, reads k first last = clip (v.data S) first last) :
    (plaintextStream bucket key md sk start stop).collect S reads 0 [] = .ok (slice v.plaintext start (stop + 1)) := by
  have hc := v.chunkSize_pos
  have hreq : (plaintextStream bucket key md sk start stop).request = some (0, PREAMBLE_LEN - 1) := rfl
  have hrec := receive_preamble start stop hd
  have hnone := slice_before stop v.plaintext (Nat.div_mul_le_self start v.chunkSize)
  have hrest := collect_streamAt hopens hsk hval hd hle hstop hreads (le_refl (start / v.chunkSize))
    (Nat.le_succ_of_le (Nat.div_le_div_right hle)) (0 + 1)
  rw [hnone] at hrest
  rw [StreamState.collect_next hreq ((hreads _ _ _).trans v.clip_preamble) hrec]
  exact hrest

/-! ## A file that changes -/

variable (S v) in
/-- what opens under the version's content key is one of its chunks -/
def Only : Prop := ∀ n a ct m, S.aead.decrypt (v.contentKey S) n a ct = some m →
  ∃ i, (chunks v.chunkSize v.body)[i]? = some m ∧ n = chunkNonce v.nonceBase.1 i

theorem length_chunks_le : (chunks v.chunkSize v.body).length ≤ v.body.length := by
  rw [length_chunks v.chunkSize_pos]
  have hc := v.chunkSize_pos
  by_cases h0 : v.body.length = 0
  · rw [h0, Nat.div_eq_of_lt (by omega)]
  · calc (v.body.length + (v.chunkSize - 1)) / v.chunkSize ≤ (v.body.length * v.chunkSize) / v.chunkSize := by
          refine Nat.div_le_div_right ?_
          obtain ⟨k, hk⟩ : ∃ k, v.body.length = k + 1 := ⟨v.body.length - 1, by omega⟩
          obtain ⟨m, hm⟩ : ∃ m, v.chunkSize = m + 1 := ⟨v.chunkSize - 1, by omega⟩
          rw [hk, hm, Nat.add_sub_cancel]
          nlinarith [Nat.zero_le (k * m)]
      _ = v.body.length := Nat.mul_div_cancel _ hc

/-- a read that goes well after the preamble gives the version's chunk -/
theorem receive_sound (honly : v.Only S) (hsk : sk.length = 2400) (hval : S.validSk sk = true) (hd : v.Describes S md ci)
    (hle : start ≤ stop) (hstop : stop < v.plaintext.length) (hfirst : start < cur * v.chunkSize + v.chunkSize)
    (hlast : cur ≤ stop / v.chunkSize) {window out : Bytes} {s' : StreamState}
    (h : (v.streamAt S md start stop cur).receive S window = .ok (out, s')) :
    out = slice v.plaintext (max start (cur * v.chunkSize)) (min (cur * v.chunkSize + v.chunkSize) (stop + 1)) ∧
      s' = v.streamAt S md start stop (cur + 1) := by
  have hbody := v.isPrefix.length_le
  have hlt := v.length_body
  have hc := v.chunkSize_pos
  have hcur : cur * v.chunkSize ≤ stop := (Nat.le_div_iff_mul_le hc).1 hlast
  have hcur64 : cur < 2 ^ 64 := by
    have := Nat.le_mul_of_pos_right cur hc
    omega
  rw [StreamState.receive] at h
  simp only [show (v.streamAt S md start stop cur).geometry = some (v.geometry S) from rfl] at h
  split_ifs at h with hlen
  have hwin : window.length ≤ v.chunkSize + TAG_LEN := by
    have hstart : (v.streamAt S md start stop cur).cipherStart (v.geometry S) =
        (v.geometry S).preamble.length + cur * (v.chunkSize + TAG_LEN) := rfl
    have hend : (v.streamAt S md start stop cur).cipherEnd (v.geometry S) ≤
        (v.geometry S).preamble.length + (cur + 1) * (v.chunkSize + TAG_LEN) - 1 := by
      rw [StreamState.cipherEnd]
      simp only [streamAt, hd.cipher]
      exact Nat.min_le_left _ _
    rw [Nat.succ_mul] at hend
    generalize cur * (v.chunkSize + TAG_LEN) = off at hstart hend
    omega
  cases hopen : (v.streamAt S md start stop cur).openWindow S (v.geometry S) window with
  | error e => rw [hopen] at h; cases h
  | ok chunkPt =>
    rw [hopen] at h
    simp only at h
    rw [openWindow_eq (v := v) hsk hval (s := v.streamAt S md start stop cur) rfl rfl rfl] at hopen
    rcases openChunks_one hwin hopen with ⟨-, rfl⟩ | hdec
    · -- an empty window has nothing to trim
      have hnone : (v.streamAt S md start stop cur).trim (v.geometry S) [] = none := if_neg fun h => absurd h.2 (by simp)
      rw [hnone] at h
      cases h
    · obtain ⟨i, hi, hnonce⟩ := honly _ _ _ _ hdec
      have hilt : i < 2 ^ 64 := by
        have := (List.getElem?_eq_some_iff.1 hi).1
        have := v.length_chunks_le
        omega
      have heq : i = cur := by
        have := chunkNonce_inj v.nonceBase.2 hnonce
        rw [Nat.mod_eq_of_lt hilt] at this
        exact this.symm.trans (Nat.mod_eq_of_lt hcur64)
      rw [heq, v.getElem?_chunks (show cur * v.chunkSize < v.body.length by omega)] at hi
      cases hi
      rw [trim_chunk S md hle (show stop < v.body.length by omega) hfirst hlast] at h
      cases h
      exact ⟨v.slice_plaintext (by omega), rfl⟩

end Version

/-- the first read leaves the preamble that was read -/
theorem StreamState.receive_first {s s' : StreamState} {window out : Bytes} (hg : s.geometry = none)
    (h : s.receive S window = .ok (out, s')) : ∃ g : StreamGeometry, g.preamble = window ∧ out = [] ∧
      s' = { s with geometry := some g, cur := s.start / g.chunkSize } := by
  rw [StreamState.receive] at h
  simp only [hg] at h
  cases hread : s.readGeometry window with
  | error e => rw [hread] at h; cases h
  | ok g =>
    rw [hread] at h
    cases h
    refine ⟨g, ?_, rfl, rfl⟩
    unfold StreamState.readGeometry at hread
    split at hread
    · split at hread
      · cases hread
      · cases hread
        rfl
    · split at hread
      · cases hread
      · cases hread
        rfl
    · cases hread

/-- a stream that read its preamble from an envelope for another key opens nothing any more -/
theorem StreamState.receive_other_key {s : StreamState} {g : StreamGeometry} (hg : s.geometry = some g)
    (hnone : ∀ n a ct, S.aead.decrypt (deriveContentKey S (S.decapsulate (slice g.preamble 36 1124) s.bucketSk) (slice g.preamble 36 1124)
      s.bucket s.key) n a ct = none) (window : Bytes) : ∃ e, s.receive S window = .error e := by
  rw [StreamState.receive]
  simp only [hg]
  split_ifs with hlen
  · exact ⟨_, rfl⟩
  · cases hopen : s.openWindow S g window with
    | error e => exact ⟨_, rfl⟩
    | ok chunkPt =>
      have hnil : chunkPt = [] := by
        unfold StreamState.openWindow at hopen
        cases ht : g.v4TotalChunks with
        | none => rw [ht] at hopen; exact decryptChunks_none hnone hopen
        | some n => rw [ht] at hopen; exact decryptChunks_none hnone hopen
      have hempty : s.trim g chunkPt = none := by
        rw [hnil]
        exact if_neg fun h => absurd h.2 (by simp)
      exact ⟨_, by simp only [hempty]; rfl⟩

end Y2q.PlaintextStream
