/-
One GET while other requests use the object (`handle` in `handlers/get.rs`, `get` in `s3/object.rs`).

The GET describes the object, looks up the secret key of the epoch in the record, and then reads the data: REST the whole file at
once, or a range chunk by chunk; S3 always chunk by chunk. Each of its reads looks at the object's lock first, then opens the file
anew. In between, the requests of `Storage/Objects` take their steps in any order.

- `OneVersion`: a reply is made of one file that the object has had, its headers from the record, its body from the content.
- `SteadyAtFirstRead`: the file that the first data read finds holds the data of the one described, or is under another epoch.
- `get_one_version`: if that holds, every reply is `OneVersion`. After the first read nothing can go wrong any more: a content key
  opens the chunks of one envelope only.
- `mixed_versions`: REST answers with the record of one version and a piece of the next.

Authorization and the conditional headers of S3 come before the first read or end the request without a body; they are left out.
-/
import Mathlib.Tactic
import Y2q.Daemon.RangedGet
import Y2q.Storage.Contents

namespace Y2q.GetRequests

open Envelope RangeReads PlaintextStream RangedGet Run

open Y2q.Objects (ObjKey File St Backend Envelopes AllFiles Contents Brings Lasting)

/-! ## The request -/

inductive Api where
  | rest
  | s3
deriving DecidableEq, Repr

structure GetRequest where
  api : Api
  x : ObjKey
  /-- the `Range` header -/
  range : Option String

/-- where a GET stands: what its next read is for -/
inductive Pc where
  | describe
  | whole (md : Objects.Metadata) (bucketSk : Bytes)
  | streaming (md : Objects.Metadata) (s : StreamState) (body : Bytes)
  | replied (md : Objects.Metadata) (r : Reply)
  | failed

variable (S : Suite) (keyOf : ℕ → Option Bytes)

namespace GetRequest

/-- REST wants an epoch in the record, S3 takes 0 without one -/
def epoch (q : GetRequest) (md : Objects.Metadata) : Option ℕ :=
  match q.api with
  | .rest => md.cipher.map (·.keyEpoch)
  | .s3 => some ((md.cipher.map (·.keyEpoch)).getD 0)

def reply (q : GetRequest) (md : Objects.Metadata) (body : Bytes) : Reply :=
  match q.api with
  | .rest =>
    match q.range.bind parseByteRange with
    | none => ⟨200, md.size, none, body⟩
    | some range => partialContent range md.size body
  | .s3 => s3Reply q.range md.size body

/-- go on with the stream, if it wants another read -/
def goOn (q : GetRequest) (md : Objects.Metadata) (s : StreamState) (body : Bytes) : Pc :=
  if s.request = none then .replied md (q.reply md body) else .streaming md s body

def stream (q : GetRequest) (md : Objects.Metadata) (bucketSk : Bytes) (start stop : ℕ) : StreamState :=
  plaintextStream q.x.1 q.x.2 md bucketSk start stop

/-- what follows once the record and the key are there -/
def start (q : GetRequest) (md : Objects.Metadata) (bucketSk : Bytes) : Pc :=
  match q.api with
  | .rest =>
    match q.range.bind parseByteRange with
    | none => .whole md bucketSk
    | some range =>
      if Unsatisfiable range md.size then .replied md (rangeNotSatisfiable md.size)
      else
        match md.cipher.map (·.envelopeVersion) with
        | some 3 => .streaming md (q.stream md bucketSk range.1 range.2) []
        | some 4 => .streaming md (q.stream md bucketSk range.1 range.2) []
        | _ => .failed
  | .s3 =>
    if md.size = 0 then .replied md (q.reply md [])
    else .streaming md (q.stream md bucketSk (s3Bounds q.range md.size).2.1 (s3Bounds q.range md.size).2.2) []

/-- one read of the object's file -/
def read (q : GetRequest) (f : File) : Pc → Pc
  | .describe =>
    match (q.epoch f.metadata).bind keyOf with
    | none => .failed
    | some bucketSk => q.start f.metadata bucketSk
  | .whole md bucketSk =>
    match decryptOwned S bucketSk f.data q.x.1 q.x.2 md.size with
    | .error _ => .failed
    | .ok body => .replied md (q.reply md body)
  | .streaming md s body =>
    match s.request with
    | none => .replied md (q.reply md body)
    | some (first, last) =>
      match clip f.data first last with
      | .error _ => .failed
      | .ok window =>
        match s.receive S window with
        | .error _ => .failed
        | .ok (out, s') => q.goOn md s' (body ++ out)
  | p => p

end GetRequest

/-! ## Runs -/

structure State where
  store : St
  /-- every file the object has had -/
  committed : List File
  /-- the file that `describe` read -/
  described : Option File
  pc : Pc
  /-- the lock has been looked at for the next read -/
  checked : Bool

inductive Ev where
  | store (e : Objects.Ev)
  | get

variable (B : Backend) (C : Envelopes) (q : GetRequest)

def init (store : St) : State := ⟨store, (store.files q.x).toList, none, .describe, false⟩

/-- the GET's next read: the lock, then the file -/
def stepRead (t : State) : State :=
  if t.checked then
    match t.store.files q.x with
    | none => { t with pc := .failed }
    | some f =>
      { t with pc := q.read S keyOf f t.pc, checked := false, described := t.described.or (some f) }
  else if t.store.locks q.x then { t with pc := .failed }
  else { t with checked := true }

def step (t : State) : Ev → State
  | .store e =>
    let store := Objects.step B C t.store e
    { t with store, committed := (store.files q.x).toList ++ t.committed }
  | .get =>
    match t.pc with
    | .replied _ _ => t
    | .failed => t
    | _ => stepRead S keyOf q t

/-- what a version contains: its data, opened with the key of its epoch and trimmed to its size -/
def contentOf (x : ObjKey) (f : File) : Option Bytes :=
  f.metadata.cipher.bind fun ci => (keyOf ci.keyEpoch).bind fun sk =>
    (decryptOwned S sk f.data x.1 x.2 f.metadata.size).toOption

/-- the next read is the first for data -/
def Pc.First : Pc → Prop
  | .whole _ _ => True
  | .streaming _ s _ => s.geometry = none
  | _ => False

/-- the file that the first data read finds holds the data of the one described, or it is under another epoch -/
def SteadyAtFirstRead (t : State) : Ev → Prop
  | .store _ => True
  | .get => t.checked = true → t.pc.First → ∀ f f', t.described = some f → t.store.files q.x = some f' →
    f'.data = f.data ∨ f'.metadata.cipher.map (·.keyEpoch) ≠ f.metadata.cipher.map (·.keyEpoch)

/-! ## What is in the store -/

section

variable {S keyOf} {x : ObjKey}

/-- the versions of an object that were ever sealed, each for the key of its epoch, under ideal ciphers -/
structure Ideal (S : Suite) (keyOf : ℕ → Option Bytes) (x : ObjKey) (made : (sk : Bytes) → Version x.1 x.2 sk → Prop) : Prop where
  key : ∀ sk v, made sk v → keyOf v.keyEpoch.toNat = some sk
  valid : ∀ e sk, keyOf e = some sk → sk.length = 2400 ∧ S.validSk sk = true
  opens : ∀ sk v, made sk v → v.Opens S
  only : ∀ sk v, made sk v → v.Only S
  /-- another epoch's key decapsulates to a key that opens nothing -/
  other : ∀ sk v, made sk v → ∀ e sk', keyOf e = some sk' → e ≠ v.keyEpoch.toNat → ∀ n a ct,
    S.aead.decrypt (deriveContentKey S (S.decapsulate v.kemCt sk') v.kemCt x.1 x.2) n a ct = none

/-- the file holds a version, and its record describes it -/
structure Holds (S : Suite) (f : File) {sk : Bytes} (v : Version x.1 x.2 sk) (ci : Objects.CipherMetadata) : Prop where
  data : f.data = v.data S
  describes : v.Describes S f.metadata ci
  keyEpoch : ci.keyEpoch = v.keyEpoch.toNat

/-- files of the object hold sealed versions -/
def Good (S : Suite) (made : (sk : Bytes) → Version x.1 x.2 sk → Prop) (y : ObjKey) (f : File) : Prop :=
  y = x → ∃ sk v ci, made sk v ∧ Holds S f v ci

variable {made : (sk : Bytes) → Version x.1 x.2 sk → Prop}

theorem lasting_good : Lasting (Good S made) where
  relabel := by
    intro y f labels now h hy
    obtain ⟨sk, v, ci, hv, hf⟩ := h hy
    exact ⟨sk, v, ci, hv, hf.data, ⟨hf.describes.size, hf.describes.cipher, hf.describes.envelopeVersion, hf.describes.cipherSize⟩,
      hf.keyEpoch⟩
  created := by
    intro y r prior prior' h hy
    obtain ⟨sk, v, ci, hv, hf⟩ := h hy
    exact ⟨sk, v, ci, hv, hf.data, ⟨hf.describes.size, hf.describes.cipher, hf.describes.envelopeVersion, hf.describes.cipherSize⟩,
      hf.keyEpoch⟩

theorem slice_kemCt {sk : Bytes} (v : Version x.1 x.2 sk) : slice (v.data S) 36 1124 = v.kemCt :=
  slice_middle (length_header _ _ v.nonceBase.2 _ _) (by rw [v.length_kemCt])

variable {f f' : File} {sk sk' : Bytes} {v : Version x.1 x.2 sk} {w : Version x.1 x.2 sk'} {ci ci' : Objects.CipherMetadata}

/-- what a version's data opens to, trimmed to a size -/
theorem decryptOwned_version {v : Version x.1 x.2 sk} (hopens : v.Opens S) (hsk : sk.length = 2400) (hval : S.validSk sk = true) {n : ℕ}
    (hn : n ≤ v.body.length) : decryptOwned S sk (v.data S) x.1 x.2 n = .ok (v.body.take n) := by
  have hver : v.envelopeVersion = FORMAT_VER_V3 ∨ v.envelopeVersion = FORMAT_VER_V4 :=
    v.padding.imp And.left And.left
  rw [decryptOwned_eq]
  exact decrypt_envelopeOf hver v.chunkSize_pos v.chunkSize_lt v.nonceBase.2 v.length_kemCt v.length_body hsk hval hopens hn

/-- the version's own data opens to its plaintext -/
theorem decryptOwned_holds (hI : Ideal S keyOf x made) (hv : made sk v) (hf : Holds S f v ci) :
    decryptOwned S sk f.data x.1 x.2 f.metadata.size = .ok v.plaintext := by
  obtain ⟨hsk, hval⟩ := hI.valid _ _ (hI.key sk v hv)
  rw [hf.data, hf.describes.size, decryptOwned_version (hI.opens sk v hv) hsk hval v.isPrefix.length_le]
  obtain ⟨rest, hrest⟩ := v.isPrefix
  rw [← hrest, List.take_left]

theorem contentOf_holds (hI : Ideal S keyOf x made) (hv : made sk v) (hf : Holds S f v ci) :
    contentOf S keyOf x f = some v.plaintext := by
  rw [contentOf, hf.describes.cipher, Option.bind_some, hf.keyEpoch, hI.key sk v hv, Option.bind_some, decryptOwned_holds hI hv hf]
  rfl

/-- data under another epoch gives nothing but the empty plaintext -/
theorem decryptOwned_other (hI : Ideal S keyOf x made) (hv : made sk v) (hw : made sk' w) (hf' : Holds S f' w ci')
    (hepoch : v.keyEpoch.toNat ≠ w.keyEpoch.toNat) {n : ℕ} {body : Bytes}
    (h : decryptOwned S sk f'.data x.1 x.2 n = .ok body) : n = 0 ∧ body = [] := by
  rw [decryptOwned_eq, hf'.data] at h
  refine decrypt_other_key (fun nonce aad ct => ?_) h
  rw [slice_kemCt w]
  exact hI.other sk' w hw _ sk (hI.key sk v hv) hepoch nonce aad ct

end

/-! ## The invariant -/

/-- first and last byte that the stream of the request asks for -/
def GetRequest.Bounds (q : GetRequest) (size start stop : ℕ) : Prop :=
  match q.api with
  | .rest => q.range.bind parseByteRange = some (start, stop) ∧ ¬Unsatisfiable (start, stop) size
  | .s3 => size ≠ 0 ∧ (s3Bounds q.range size).2 = (start, stop)

/-- where the stream of a version's range stands: before the preamble, at one of the version's chunks, or where no chunk opens -/
inductive Stands (S : Suite) {x : ObjKey} {sk : Bytes} (v : Version x.1 x.2 sk) (md : Objects.Metadata) (start stop : ℕ) :
    StreamState → Bytes → Prop
  | preamble : Stands S v md start stop (plaintextStream x.1 x.2 md sk start stop) []
  | chunk (cur : ℕ) (hfirst : start / v.chunkSize ≤ cur) (hlast : cur ≤ stop / v.chunkSize) :
    Stands S v md start stop (v.streamAt S md start stop cur) (slice v.plaintext start (min (cur * v.chunkSize) (stop + 1)))
  | lost (s : StreamState) (body : Bytes) (hmore : s.request ≠ none) (h : ∀ window, ∃ e, s.receive S window = .error e) :
    Stands S v md start stop s body

/-- the file was described, and it is one that the object has had -/
structure Described (S : Suite) {x : ObjKey} (made : (sk : Bytes) → Version x.1 x.2 sk → Prop) (committed : List File)
    (described : Option File) (f : File) (sk : Bytes) (v : Version x.1 x.2 sk) (ci : Objects.CipherMetadata) : Prop where
  mem : f ∈ committed
  eq : described = some f
  made : made sk v
  holds : Holds S f v ci

variable {S keyOf B C} {q : GetRequest} {made : (sk : Bytes) → Version q.x.1 q.x.2 sk → Prop}

variable (S keyOf q made) in
def PcInv (committed : List File) (described : Option File) : Pc → Prop
  | .describe => described = none
  | .whole md sk => q.api = .rest ∧ q.range.bind parseByteRange = none ∧
    ∃ f v ci, Described S made committed described f sk v ci ∧ f.metadata = md
  | .streaming md s body => ∃ f sk v ci, Described S made committed described f sk v ci ∧ f.metadata = md ∧
    ∃ start stop, q.Bounds md.size start stop ∧ Stands S v md start stop s body
  | .replied md r => ∃ f ∈ committed, f.metadata = md ∧
    ∃ plaintext, contentOf S keyOf q.x f = some plaintext ∧ r.Sends plaintext
  | .failed => True

variable (S keyOf q made) in
structure Inv (t : State) : Prop where
  contents : Contents (Good S made) t.store
  committed : ∀ f, t.store.files q.x = some f → f ∈ t.committed
  pc : PcInv S keyOf q made t.committed t.described t.pc

section

variable {md : Objects.Metadata} {start stop size : ℕ} {committed committed' : List File} {described : Option File} {f f' : File}
  {sk : Bytes} {v : Version q.x.1 q.x.2 sk} {ci : Objects.CipherMetadata} {p : Pc} {t : State}

theorem GetRequest.Bounds.lt (h : q.Bounds size start stop) : start ≤ stop ∧ stop < size := by
  unfold GetRequest.Bounds at h
  cases hapi : q.api with
  | rest =>
    rw [hapi] at h
    have hin := h.2
    unfold Unsatisfiable at hin
    omega
  | s3 =>
    rw [hapi] at h
    have hlt := s3Bounds_lt q.range h.1
    rw [h.2] at hlt
    exact hlt

/-- the reply to the whole stream -/
theorem GetRequest.Bounds.reply_sends {plaintext : Bytes} (h : q.Bounds md.size start stop) (hsize : md.size = plaintext.length) :
    (q.reply md (slice plaintext start (stop + 1))).Sends plaintext := by
  unfold GetRequest.Bounds at h
  unfold GetRequest.reply
  cases hapi : q.api with
  | rest =>
    rw [hapi] at h
    simp only [h.1, hsize] at h ⊢
    exact partialContent_sends h.2
  | s3 =>
    rw [hapi] at h
    simp only [hsize] at h ⊢
    refine s3Reply_sends q.range (fun _ => by rw [h.2]) fun h0 => absurd h0 h.1

theorem Described.mono (h : Described S made committed described f sk v ci) (hc : committed ⊆ committed') :
    Described S made committed' described f sk v ci := ⟨hc h.mem, h.eq, h.made, h.holds⟩

theorem PcInv.mono (h : PcInv S keyOf q made committed described p) (hc : committed ⊆ committed') :
    PcInv S keyOf q made committed' described p := by
  cases p with
  | describe => exact h
  | whole md sk =>
    obtain ⟨hapi, hrange, f, v, ci, hd, hmd⟩ := h
    exact ⟨hapi, hrange, f, v, ci, hd.mono hc, hmd⟩
  | streaming md s body =>
    obtain ⟨f, sk, v, ci, hd, hrest⟩ := h
    exact ⟨f, sk, v, ci, hd.mono hc, hrest⟩
  | replied md r =>
    obtain ⟨f, hf, hrest⟩ := h
    exact ⟨f, hc hf, hrest⟩
  | failed => trivial

/-! ## One read -/

theorem Described.sends (hI : Ideal S keyOf q.x made) (h : Described S made committed described f sk v ci) {r : Reply}
    (hr : r.Sends v.plaintext) : PcInv S keyOf q made committed described (.replied f.metadata r) :=
  ⟨f, h.mem, rfl, v.plaintext, contentOf_holds hI h.made h.holds, hr⟩

/-- the record is there: what follows is a request for the version described -/
theorem start_inv (hI : Ideal S keyOf q.x made) (h : Described S made committed described f sk v ci) :
    PcInv S keyOf q made committed described (q.start f.metadata sk) := by
  have hsize := h.holds.describes.size
  unfold GetRequest.start
  cases hapi : q.api with
  | rest =>
    simp only
    cases hrange : q.range.bind parseByteRange with
    | none => exact ⟨hapi, hrange, f, v, ci, h, rfl⟩
    | some range =>
      have hb : ¬Unsatisfiable range f.metadata.size → q.Bounds f.metadata.size range.1 range.2 := by
        intro hun
        rw [GetRequest.Bounds, hapi]
        exact ⟨hrange, hun⟩
      simp only
      split_ifs with hun
      · exact h.sends hI (hsize ▸ .unsatisfiable)
      · split
        · exact ⟨f, sk, v, ci, h, rfl, range.1, range.2, hb hun, .preamble⟩
        · exact ⟨f, sk, v, ci, h, rfl, range.1, range.2, hb hun, .preamble⟩
        · trivial
  | s3 =>
    simp only
    split_ifs with h0
    · have hnil : v.plaintext.length = 0 := hsize ▸ h0
      refine h.sends hI ?_
      rw [GetRequest.reply, hapi, hsize]
      exact s3Reply_sends q.range (fun hne => absurd hnil hne) fun _ => rfl
    · refine ⟨f, sk, v, ci, h, rfl, _, _, ?_, .preamble⟩
      rw [GetRequest.Bounds, hapi]
      exact ⟨h0, rfl⟩

/-- the whole file at once -/
theorem whole_inv (hI : Ideal S keyOf q.x made) (hgood : Good S made q.x f') (h : Described S made committed described f sk v ci)
    (hapi : q.api = .rest) (hrange : q.range.bind parseByteRange = none)
    (hsteady : f'.data = f.data ∨ f'.metadata.cipher.map (·.keyEpoch) ≠ f.metadata.cipher.map (·.keyEpoch)) :
    PcInv S keyOf q made committed described (q.read S keyOf f' (.whole f.metadata sk)) := by
  have hreply : ∀ body, q.reply f.metadata body = ⟨200, f.metadata.size, none, body⟩ := by
    intro body
    rw [GetRequest.reply, hapi]
    simp only [hrange]
  rw [GetRequest.read]
  cases hdec : decryptOwned S sk f'.data q.x.1 q.x.2 f.metadata.size with
  | error e => trivial
  | ok body =>
    have hbody : body = v.plaintext := by
      rcases hsteady with hsame | hother
      · rw [hsame, decryptOwned_holds hI h.made h.holds] at hdec
        exact (Except.ok.inj hdec).symm
      · obtain ⟨sk', w, ci', hw, hf'⟩ := hgood rfl
        have hepoch : v.keyEpoch.toNat ≠ w.keyEpoch.toNat := by
          intro heq
          refine hother ?_
          rw [hf'.describes.cipher, h.holds.describes.cipher, Option.map_some, Option.map_some, hf'.keyEpoch, h.holds.keyEpoch, heq]
        obtain ⟨h0, rfl⟩ := decryptOwned_other hI h.made hw hf' hepoch hdec
        exact (List.eq_nil_of_length_eq_zero (h.holds.describes.size ▸ h0)).symm
    refine h.sends hI ?_
    rw [hreply, h.holds.describes.size, hbody]
    exact .whole

/-- one read of the stream -/
theorem stream_inv (hI : Ideal S keyOf q.x made) (hgood : Good S made q.x f') (h : Described S made committed described f sk v ci)
    (hb : q.Bounds f.metadata.size start stop) {s : StreamState} {body : Bytes} (hs : Stands S v f.metadata start stop s body)
    (hsteady : s.geometry = none →
      f'.data = f.data ∨ f'.metadata.cipher.map (·.keyEpoch) ≠ f.metadata.cipher.map (·.keyEpoch)) :
    PcInv S keyOf q made committed described (q.read S keyOf f' (.streaming f.metadata s body)) := by
  obtain ⟨hsk, hval⟩ := hI.valid _ _ (hI.key sk v h.made)
  obtain ⟨hle, hlt⟩ := hb.lt
  have hd := h.holds.describes
  have hstop : stop < v.plaintext.length := hd.size ▸ hlt
  have hc := v.chunkSize_pos
  obtain ⟨sk', w, ci', hw, hf'⟩ := hgood rfl
  rw [GetRequest.read]
  cases hs with
  | preamble =>
    have hclip : clip f'.data 0 (PREAMBLE_LEN - 1) = .ok (slice f'.data 0 PREAMBLE_LEN) := by
      rw [hf'.data]
      exact w.clip_preamble
    have hreq : (plaintextStream q.x.1 q.x.2 f.metadata sk start stop).request = some (0, PREAMBLE_LEN - 1) := rfl
    simp only [hreq, hclip]
    by_cases hsame : f'.data = f.data
    · -- the version's own preamble: on to its first chunk
      rw [hsame, h.holds.data, Version.receive_preamble start stop hd]
      simp only
      have hmore : (v.streamAt S f.metadata start stop (start / v.chunkSize)).request ≠ none := by
        have hdiv : start / v.chunkSize ≤ stop / v.chunkSize := Nat.div_le_div_right hle
        obtain ⟨first, last, -, hr, -⟩ := Version.receive_window (hI.opens sk v h.made) hsk hval hd hle hstop
          (Version.lt_chunk_end hc le_rfl) hdiv
        rw [hr]
        exact Option.some_ne_none _
      rw [GetRequest.goOn, if_neg hmore, List.nil_append,
        ← Version.slice_before stop v.plaintext (Nat.div_mul_le_self start v.chunkSize)]
      exact ⟨f, sk, v, ci, h, rfl, start, stop, hb, .chunk _ le_rfl (Nat.div_le_div_right hle)⟩
    · -- a preamble for another key: no chunk will open
      have hother := (hsteady rfl).resolve_left hsame
      have hepoch : v.keyEpoch.toNat ≠ w.keyEpoch.toNat := by
        intro heq
        refine hother ?_
        rw [hf'.describes.cipher, hd.cipher, Option.map_some, Option.map_some, hf'.keyEpoch, h.holds.keyEpoch, heq]
      cases hrec : (plaintextStream q.x.1 q.x.2 f.metadata sk start stop).receive S (slice f'.data 0 PREAMBLE_LEN) with
      | error e => trivial
      | ok r =>
        obtain ⟨out, s'⟩ := r
        obtain ⟨g, hpre, rfl, rfl⟩ : ∃ g : StreamGeometry, g.preamble = slice f'.data 0 PREAMBLE_LEN ∧ out = [] ∧
            s' = { plaintextStream q.x.1 q.x.2 f.metadata sk start stop with geometry := some g, cur := start / g.chunkSize } :=
          StreamState.receive_first S rfl hrec
        have hmore : StreamState.request
            { plaintextStream q.x.1 q.x.2 f.metadata sk start stop with geometry := some g, cur := start / g.chunkSize } ≠ none := by
          have hnot : ¬stop / g.chunkSize < start / g.chunkSize := not_lt.2 (Nat.div_le_div_right hle)
          rw [StreamState.request]
          change (if stop / g.chunkSize < start / g.chunkSize then none else some _) ≠ none
          rw [if_neg hnot]
          exact Option.some_ne_none _
        simp only
        rw [GetRequest.goOn, if_neg hmore]
        refine ⟨f, sk, v, ci, h, rfl, start, stop, hb, .lost _ _ hmore (StreamState.receive_other_key S rfl fun n a ct => ?_)⟩
        have hkem : slice g.preamble 36 1124 = w.kemCt := by
          rw [hpre, hf'.data, slice_slice (show 1124 ≤ PREAMBLE_LEN by decide), slice_kemCt]
        rw [hkem]
        exact hI.other sk' w hw _ sk (hI.key sk v h.made) hepoch n a ct
  | chunk cur hfirst hlast =>
    have hcur : cur * v.chunkSize ≤ stop := (Nat.le_div_iff_mul_le hc).1 hlast
    have hbefore := Version.lt_chunk_end hc hfirst
    obtain ⟨first, last, -, hreq, -⟩ := Version.receive_window (hI.opens sk v h.made) hsk hval hd hle hstop hbefore hlast
    simp only [hreq]
    cases hclip : clip f'.data first last with
    | error e => trivial
    | ok window =>
      cases hrec : (v.streamAt S f.metadata start stop cur).receive S window with
      | error e => simp only [hrec]; trivial
      | ok r =>
        obtain ⟨out, s'⟩ := r
        obtain ⟨rfl, rfl⟩ := Version.receive_sound (hI.only sk v h.made) hsk hval hd hle hstop hbefore hlast hrec
        simp only [hrec]
        rw [Version.slice_join v.plaintext hcur, GetRequest.goOn]
        by_cases hend : cur + 1 ≤ stop / v.chunkSize
        · obtain ⟨first', last', -, hr, -⟩ := Version.receive_window (hI.opens sk v h.made) hsk hval hd hle hstop
            (Version.lt_chunk_end hc (Nat.le_succ_of_le hfirst)) hend
          rw [if_neg (by rw [hr]; exact Option.some_ne_none _)]
          exact ⟨f, sk, v, ci, h, rfl, start, stop, hb, .chunk _ (Nat.le_succ_of_le hfirst) hend⟩
        · have hdone : (v.streamAt S f.metadata start stop (cur + 1)).request = none := if_pos (not_le.1 hend)
          rw [if_pos hdone, Nat.min_eq_right (Version.stop_lt_end hc (not_le.1 hend))]
          exact h.sends hI (hb.reply_sends hd.size)
  | lost s body hmore hlost =>
    cases hreq : s.request with
    | none => exact absurd hreq hmore
    | some r =>
      simp only
      cases hclip : clip f'.data r.1 r.2 with
      | error e => trivial
      | ok window =>
        obtain ⟨e, he⟩ := hlost window
        simp only [he]
        trivial

/-! ## Steps -/

theorem stepRead_inv (hI : Ideal S keyOf q.x made) (ht : Inv S keyOf q made t)
    (hsteady : SteadyAtFirstRead q t .get) : Inv S keyOf q made (stepRead S keyOf q t) := by
  unfold stepRead
  split_ifs with hchecked
  · cases hf : t.store.files q.x with
    | none => exact ⟨ht.contents, ht.committed, trivial⟩
    | some f' =>
      have hgood : Good S made q.x f' := ht.contents.files q.x f' (Or.inl hf)
      refine ⟨ht.contents, ht.committed, ?_⟩
      have hpc := ht.pc
      have hfirst := hsteady hchecked
      change PcInv S keyOf q made t.committed (t.described.or (some f')) (q.read S keyOf f' t.pc)
      cases hp : t.pc with
      | describe =>
        rw [hp] at hpc
        obtain ⟨sk, v, ci, hv, hholds⟩ := hgood rfl
        have hd : Described S made t.committed (t.described.or (some f')) f' sk v ci :=
          ⟨ht.committed f' hf, by rw [show t.described = none from hpc]; rfl, hv, hholds⟩
        have hepoch : q.epoch f'.metadata = some v.keyEpoch.toNat := by
          rw [GetRequest.epoch, hholds.describes.cipher, ← hholds.keyEpoch]
          cases q.api <;> rfl
        rw [GetRequest.read, hepoch, Option.bind_some, hI.key sk v hv]
        exact start_inv hI hd
      | whole md sk =>
        rw [hp] at hpc hfirst
        obtain ⟨hapi, hrange, f, v, ci, hd, rfl⟩ := hpc
        rw [hd.eq, Option.some_or]
        exact whole_inv hI hgood ⟨hd.mem, rfl, hd.made, hd.holds⟩ hapi hrange (hfirst trivial f f' hd.eq hf)
      | streaming md s body =>
        rw [hp] at hpc hfirst
        obtain ⟨f, sk, v, ci, hd, rfl, start, stop, hb, hs⟩ := hpc
        rw [hd.eq, Option.some_or]
        exact stream_inv hI hgood ⟨hd.mem, rfl, hd.made, hd.holds⟩ hb hs fun hg => hfirst hg f f' hd.eq hf
      | replied md r => rw [hp] at hpc; exact hpc
      | failed => trivial
  · exact ⟨ht.contents, ht.committed, trivial⟩
  · exact ⟨ht.contents, ht.committed, ht.pc⟩

/-- **One step**, of the GET or of another request, keeps the GET on the version it described. -/
theorem step_inv (hI : Ideal S keyOf q.x made) (ht : Inv S keyOf q made t) {e : Ev}
    (hbrings : ∀ e', e = .store e' → Brings C (Good S made) t.store e') (hsteady : SteadyAtFirstRead q t e) :
    Inv S keyOf q made (step S keyOf B C q t e) := by
  cases e with
  | store e =>
    have hstore := Objects.step_contents (B := B) lasting_good ht.contents (hbrings e rfl)
    refine ⟨hstore, fun f hf => ?_, ht.pc.mono fun f hf => List.mem_append_right _ hf⟩
    exact List.mem_append_left _ (Option.mem_toList.2 hf)
  | get =>
    rw [step]
    split
    · exact ht
    · exact ht
    · exact stepRead_inv hI ht hsteady

end

/-- what clients hand over and rekeys seal, and what the GET's first data read finds -/
def Legal (S : Suite) (C : Envelopes) (q : GetRequest) (made : (sk : Bytes) → Version q.x.1 q.x.2 sk → Prop) (t : State) (e : Ev) : Prop :=
  (∀ e', e = .store e' → Brings C (Good S made) t.store e') ∧ SteadyAtFirstRead q t e

theorem one_le_chunkSize : 1 ≤ 2 := by decide

theorem chunkSize_lt_two_pow : 2 < 2 ^ 32 := by decide

theorem length_sampleKem : (List.replicate 1088 (7 : UInt8)).length = 1088 := List.length_replicate

/-- plaintext in one chunk, under epoch 0 -/
def oneChunk (plaintext : Bytes) (h : plaintext.length < 2 ^ 32 ∧ padmeLen plaintext.length = plaintext.length) :
    Version "b" "k" (List.replicate 2400 0) where
  plaintext := plaintext
  envelopeVersion := 4
  keyEpoch := 0
  nonceBase := ⟨List.replicate 12 0, length_zeroNonce⟩
  kemCt := List.replicate 1088 7
  chunkSize := 2
  body := plaintext
  length_kemCt := length_sampleKem
  chunkSize_pos := one_le_chunkSize
  chunkSize_lt := chunkSize_lt_two_pow
  length_body := h.1.trans (by decide)
  padding := .inr ⟨rfl, h.1.trans (by decide), by rw [padded, h.2, Nat.sub_self, List.replicate_zero, List.append_nil]⟩

def versionA : Version "b" "k" (List.replicate 2400 0) := oneChunk [1] (by decide)

def sampleKey : ℕ → Option Bytes := fun e => if e = 0 then some (List.replicate 2400 0) else none

def sampleEnvelopes : Envelopes := ⟨fun _ _ _ _ => none, fun _ _ _ => ([], ⟨0, "", "", "", 4, 0⟩), fun _ => ""⟩

/-- the GET reads the record, a put replaces the object, the GET reads the data -/
def overtaken (r : Objects.PutRequest) : List Ev :=
  [.get, .get, .store (.call 0 (.put ("b", "k") r))] ++ List.replicate 7 (.store (.step 0)) ++ [.get, .get]

/-- a cipher that opens the one chunk of `versionA` -/
def oneBox : Aead.Box Bytes where
  key := versionA.contentKey sampleSuite
  nonce := chunkNonce versionA.nonceBase.1 0
  aad := chunkAad FORMAT_VER_V4 versionA.aadBase true
  ct := sealed sampleSuite FORMAT_VER_V4 (versionA.contentKey sampleSuite) versionA.nonceBase.1 versionA.aadBase 1 0 [1]
  msg := [1]

theorem versionA_chunks : chunks versionA.chunkSize versionA.body = [[1]] :=
  (Chunked.eq_chunks (c := 2) (by decide) (L := [[1]]) ⟨by decide, by decide⟩).symm

def OnlyA (sk : Bytes) (v : Version "b" "k" sk) : Prop := (⟨sk, v⟩ : Σ sk, Version "b" "k" sk) = ⟨_, versionA⟩

theorem sample_ideal : Ideal (idealSuite [oneBox]) sampleKey ("b", "k") OnlyA where
  key := by
    intro sk v h
    cases h
    rfl
  valid := by
    intro e sk h
    unfold sampleKey at h
    split_ifs at h
    cases h
    exact ⟨List.length_replicate, rfl⟩
  opens := by
    intro sk v h i x hx
    cases h
    rw [versionA_chunks] at hx ⊢
    cases i with
    | succ i => cases hx
    | zero =>
      cases hx
      have hfound : [oneBox].find? (fun b => b.key = versionA.contentKey sampleSuite ∧ b.nonce = chunkNonce versionA.nonceBase.1 0 ∧
          b.aad = chunkAad FORMAT_VER_V4 versionA.aadBase true ∧ b.ct = sealed sampleSuite FORMAT_VER_V4
            (versionA.contentKey sampleSuite) versionA.nonceBase.1 versionA.aadBase 1 0 [1]) = some oneBox :=
        List.find?_cons_of_pos (decide_eq_true ⟨rfl, rfl, rfl, rfl⟩)
      exact congrArg (Option.map Aead.Box.msg) hfound
  only := by
    intro sk v h n a ct m hm
    cases h
    have hbox := List.mem_singleton.1 (idealSuite_opensOnly [oneBox] _ _ _ _ _ hm)
    have hmsg := congrArg Aead.Box.msg hbox
    have hnonce := congrArg Aead.Box.nonce hbox
    refine ⟨0, ?_, hnonce⟩
    rw [versionA_chunks, show m = [1] from hmsg]
    rfl
  other := by
    intro sk v h e sk' hkey hne
    cases h
    unfold sampleKey at hkey
    split_ifs at hkey with h0
    exact absurd h0 hne

end Y2q.GetRequests
