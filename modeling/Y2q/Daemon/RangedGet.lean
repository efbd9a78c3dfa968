/-
Range headers (`parse_range` in `s3/object.rs`, `parse_byte_range` in `handlers/get.rs`) and the replies made from them.

A header value is what `to_str` gives: visible ASCII, blanks and tabs. The S3 gateway ignores a range it cannot use and sends the
whole object; REST refuses a range that does not lie in the object.

- `parseRange_bounds`: what `parse_range` returns lies in the object.
- `ranged_get`: over an unchanging file, the bodies are the slices of the plaintext that the headers announce.
-/
import Mathlib.Tactic
import Y2q.Daemon.PlaintextStream

namespace Y2q.RangedGet

open Y2q Envelope RangeReads PlaintextStream

/-! ## Parsing -/

/-- the digits of a `u64`, after `acc` -/
def parseDigits (acc : ℕ) : List Char → Option ℕ
  | [] => some acc
  | c :: cs => if c.isDigit ∧ acc * 10 + (c.toNat - 48) < 2 ^ 64 then parseDigits (acc * 10 + (c.toNat - 48)) cs else none

/-- `str::parse::<u64>`: a plus sign may stand in front -/
def parseU64 : List Char → Option ℕ
  | [] => none
  | c :: cs => if c = '+' then (if cs = [] then none else parseDigits 0 cs) else parseDigits 0 (c :: cs)

/-- `str::strip_prefix` -/
def stripFront (front s : List Char) : Option (List Char) := if front.isPrefixOf s then some (s.drop front.length) else none

/-- `str::split_once` at a character -/
def splitOnce (sep : Char) : List Char → Option (List Char × List Char)
  | [] => none
  | c :: cs => if c = sep then some ([], cs) else (splitOnce sep cs).map fun p => (c :: p.1, p.2)

/-- `str::trim` on a header value -/
def trim (s : List Char) : List Char :=
  let blank := fun c : Char => c = ' ' || c = '\t'
  ((s.dropWhile blank).reverse.dropWhile blank).reverse

/-- S3: `bytes=N-M`, `bytes=N-` or `bytes=-M` -/
def parseRange (header : Option String) (size : ℕ) : Option (ℕ × ℕ) := do
  let raw ← header
  let spec ← stripFront "bytes=".toList raw.toList
  let (startS, endS) ← splitOnce '-' spec
  if size = 0 then none
  else if startS = [] then do
    let suffixLen ← parseU64 endS
    if suffixLen = 0 then none else some (size - suffixLen, size - 1)
  else do
    let start ← parseU64 startS
    let stop ← if endS = [] then some (size - 1) else parseU64 endS
    if stop < start ∨ size ≤ start then none else some (start, min stop (size - 1))

/-- REST: `bytes=N-M` only -/
def parseByteRange (s : String) : Option (ℕ × ℕ) := do
  let spec ← stripFront "bytes=".toList (trim s.toList)
  let (startS, endS) ← splitOnce '-' spec
  let start ← parseU64 (trim startS)
  let stop ← parseU64 (trim endS)
  some (start, stop)

example : parseRange (some "bytes=-5") 3 = some (0, 2) ∧ parseRange (some "bytes=1-") 3 = some (1, 2) ∧
    parseRange (some "bytes=+1-99") 3 = some (1, 2) ∧ parseRange (some "bytes=3-") 3 = none ∧ parseRange (some "bytes=-0") 3 = none ∧
    parseByteRange " bytes=10- 10 " = some (10, 10) := by decide

/-! ## Replies -/

structure Reply where
  status : ℕ
  contentLength : ℕ
  contentRange : Option String
  body : Bytes
deriving DecidableEq, Repr

def bytesRange (start stop total : ℕ) : String := s!"bytes {start}-{stop}/{total}"

/-- status, first and last byte of an S3 reply -/
def s3Bounds (header : Option String) (size : ℕ) : ℕ × ℕ × ℕ :=
  match parseRange header size with
  | some (start, stop) => (206, start, stop)
  | none => (200, 0, size - 1)

def s3Reply (header : Option String) (size : ℕ) (body : Bytes) : Reply :=
  let (status, start, stop) := s3Bounds header size
  { status
    contentLength := if size = 0 then 0 else stop - start + 1
    contentRange := if status = 206 then some (bytesRange start stop size) else none
    body }

/-- the S3 reply to a `GetObject`, from the record and the stream of a range -/
def s3Get (header : Option String) (size : ℕ) (stream : ℕ → ℕ → Except StreamError Bytes) : Except StreamError Reply :=
  let bounds := (s3Bounds header size).2
  (if size = 0 then .ok [] else stream bounds.1 bounds.2).map (s3Reply header size)

/-- a range that REST refuses -/
def Unsatisfiable (range : ℕ × ℕ) (size : ℕ) : Prop := range.2 < range.1 ∨ size ≤ range.1 ∨ size ≤ range.2

instance (range : ℕ × ℕ) (size : ℕ) : Decidable (Unsatisfiable range size) :=
  inferInstanceAs (Decidable (range.2 < range.1 ∨ size ≤ range.1 ∨ size ≤ range.2))

def rangeNotSatisfiable (size : ℕ) : Reply := ⟨416, 0, some s!"bytes */{size}", []⟩

def partialContent (range : ℕ × ℕ) (size : ℕ) (body : Bytes) : Reply :=
  ⟨206, body.length, some (bytesRange range.1 range.2 size), body⟩

/-- the REST reply to a GET with a range -/
def restGetRange (range : ℕ × ℕ) (size : ℕ) (stream : ℕ → ℕ → Except StreamError Bytes) : Except StreamError Reply :=
  if Unsatisfiable range size then .ok (rangeNotSatisfiable size)
  else (stream range.1 range.2).map (partialContent range size)

/-- a reply that sends what it announces of `plaintext` -/
inductive Reply.Sends (plaintext : Bytes) : Reply → Prop
  | whole : Sends plaintext ⟨200, plaintext.length, none, plaintext⟩
  | part (start stop : ℕ) (hle : start ≤ stop) (hlt : stop < plaintext.length) : Sends plaintext
      ⟨206, stop + 1 - start, some (bytesRange start stop plaintext.length), slice plaintext start (stop + 1)⟩
  | unsatisfiable : Sends plaintext ⟨416, 0, some ("bytes */" ++ toString plaintext.length), []⟩

theorem Reply.Sends.length_eq {plaintext : Bytes} {r : Reply} (h : r.Sends plaintext) : r.contentLength = r.body.length := by
  cases h with
  | whole => rfl
  | part start stop hle hlt => rw [length_slice (show stop + 1 ≤ plaintext.length by omega)]
  | unsatisfiable => rfl

theorem parseDigits_eq {cs : List Char} {acc : ℕ} (hdigits : ∀ c ∈ cs, c.isDigit = true)
    (hlt : Nat.ofDigitChars 10 cs acc < 2 ^ 64) : parseDigits acc cs = some (Nat.ofDigitChars 10 cs acc) := by
  induction cs generalizing acc with
  | nil => rw [parseDigits, Nat.ofDigitChars_nil]
  | cons c cs ih =>
    have hacc : acc * 10 + (c.toNat - 48) = 10 * acc + (c.toNat - '0'.toNat) := by
      rw [mul_comm]
      rfl
    rw [Nat.ofDigitChars_cons, ← hacc] at hlt ⊢
    have hle : acc * 10 + (c.toNat - 48) ≤ Nat.ofDigitChars 10 cs (acc * 10 + (c.toNat - 48)) := by
      rw [Nat.ofDigitChars_eq_ofDigitChars_zero]
      have hpow : 0 < 10 ^ cs.length := by positivity
      exact (Nat.le_mul_of_pos_left _ hpow).trans (Nat.le_add_right _ _)
    rw [parseDigits, if_pos ⟨hdigits c List.mem_cons_self, hle.trans_lt hlt⟩]
    exact ih (fun d hd => hdigits d (List.mem_cons_of_mem c hd)) hlt

/-- a number as it is written can be read again -/
theorem parseU64_toString {n : ℕ} (hn : n < 2 ^ 64) : parseU64 (toString n).toList = some n := by
  have hdigits : ∀ c ∈ (toString n).toList, c.isDigit = true := by
    intro c hc
    rw [Nat.toString_eq_repr, Nat.toList_repr] at hc
    exact Nat.isDigit_of_mem_toDigits (by decide) le_rfl hc
  have hvalue : Nat.ofDigitChars 10 (toString n).toList 0 = n := by
    rw [Nat.toString_eq_repr, Nat.toList_repr, Nat.ofDigitChars_ten_toDigits]
  have hne : (toString n).toList ≠ [] := by
    rw [Nat.toString_eq_repr, Nat.toList_repr]
    exact Nat.toDigits_ne_nil
  have hparse := parseDigits_eq hdigits (hvalue ▸ hn)
  rw [hvalue] at hparse
  obtain ⟨c, cs, hcs⟩ := List.exists_cons_of_ne_nil hne
  rw [hcs] at hparse hdigits ⊢
  have hplus : c ≠ '+' := by
    rintro rfl
    exact absurd (hdigits _ List.mem_cons_self) (by decide)
  rw [parseU64, if_neg hplus]
  exact hparse

/-- a range that `parse_range` returns lies in the object -/
theorem parseRange_bounds {header : Option String} {size start stop : ℕ} (h : parseRange header size = some (start, stop)) :
    start ≤ stop ∧ stop < size := by
  unfold parseRange at h
  simp only [Option.bind_eq_bind, Option.bind_eq_some_iff] at h
  obtain ⟨raw, -, spec, -, ⟨startS, endS⟩, -, h⟩ := h
  simp only at h
  split_ifs at h with h0 hs hend
  · obtain ⟨suffixLen, -, h⟩ := Option.bind_eq_some_iff.1 h
    split_ifs at h with hz
    cases h
    omega
  all_goals
    obtain ⟨first, -, h⟩ := Option.bind_eq_some_iff.1 h
    obtain ⟨last, -, h⟩ := Option.bind_eq_some_iff.1 h
    split_ifs at h with hout
    cases h
    omega

theorem s3Bounds_lt (header : Option String) {size : ℕ} (h0 : size ≠ 0) :
    (s3Bounds header size).2.1 ≤ (s3Bounds header size).2.2 ∧ (s3Bounds header size).2.2 < size := by
  unfold s3Bounds
  cases hr : parseRange header size with
  | none => exact ⟨Nat.zero_le _, by change size - 1 < size; omega⟩
  | some p => exact parseRange_bounds hr

section

variable {plaintext : Bytes} {stream : ℕ → ℕ → Except StreamError Bytes}

/-- an S3 reply sends what it announces if its body is the slice -/
theorem s3Reply_sends (header : Option String) {body : Bytes} (hbody : plaintext.length ≠ 0 →
    body = slice plaintext (s3Bounds header plaintext.length).2.1 ((s3Bounds header plaintext.length).2.2 + 1))
    (hempty : plaintext.length = 0 → body = []) : (s3Reply header plaintext.length body).Sends plaintext := by
  unfold s3Reply s3Bounds
  unfold s3Bounds at hbody
  cases hr : parseRange header plaintext.length with
  | none =>
    rw [hr] at hbody
    simp only at hbody
    have hwhole : body = plaintext := by
      by_cases h0 : plaintext.length = 0
      · rw [hempty h0, List.eq_nil_of_length_eq_zero h0]
      · rw [hbody h0, slice_zero, List.take_of_length_le (by omega)]
    have hlen : (if plaintext.length = 0 then 0 else plaintext.length - 1 - 0 + 1) = plaintext.length := by
      split_ifs <;> omega
    rw [hwhole]
    simp only [hlen]
    exact .whole
  | some p =>
    obtain ⟨hle, hlt⟩ := parseRange_bounds hr
    rw [hr] at hbody
    rw [hbody (by omega)]
    simp only [if_neg (show plaintext.length ≠ 0 by omega), show p.2 - p.1 + 1 = p.2 + 1 - p.1 by omega]
    exact .part p.1 p.2 hle hlt

theorem s3Get_sends (hstream : ∀ start stop, start ≤ stop → stop < plaintext.length →
    stream start stop = .ok (slice plaintext start (stop + 1))) (header : Option String) :
    ∃ r, s3Get header plaintext.length stream = .ok r ∧ r.Sends plaintext := by
  unfold s3Get
  by_cases h0 : plaintext.length = 0
  · exact ⟨_, by simp only [if_pos h0]; rfl, s3Reply_sends header (fun h => absurd h0 h) fun _ => rfl⟩
  · obtain ⟨hle, hlt⟩ := s3Bounds_lt header h0
    exact ⟨_, by simp only [if_neg h0, hstream _ _ hle hlt]; rfl, s3Reply_sends header (fun _ => rfl) fun h => absurd h h0⟩

theorem partialContent_sends {range : ℕ × ℕ} (h : ¬Unsatisfiable range plaintext.length) :
    (partialContent range plaintext.length (slice plaintext range.1 (range.2 + 1))).Sends plaintext := by
  unfold Unsatisfiable at h
  rw [partialContent, length_slice (by omega)]
  exact .part range.1 range.2 (by omega) (by omega)

theorem restGetRange_sends (hstream : ∀ start stop, start ≤ stop → stop < plaintext.length →
    stream start stop = .ok (slice plaintext start (stop + 1))) (range : ℕ × ℕ) :
    ∃ r, restGetRange range plaintext.length stream = .ok r ∧ r.Sends plaintext := by
  unfold restGetRange
  by_cases hout : Unsatisfiable range plaintext.length
  · exact ⟨_, if_pos hout, .unsatisfiable⟩
  · have hin := hout
    unfold Unsatisfiable at hin
    refine ⟨_, ?_, partialContent_sends hout⟩
    rw [if_neg hout, hstream _ _ (by omega) (by omega)]
    rfl

end

/-! ## Over an unchanging file -/

variable {S : Suite} {P : Primitives} {K : StoreKeys} {id bucket key : String} {sk file json : Bytes}

/-- **Ranged reads are slices of the whole.** The object's file opens to an envelope of version 3 or 4 of the plaintext, and its
record describes it. However the storage splits its reads, the stream of a range that lies in the plaintext is the slice;
`parse_range` returns only such ranges; and the replies of both gateways send what their headers announce. -/
theorem ranged_get (hopens : S.aead.OpensSealed) (hsk : sk.length = 2400) (hval : S.validSk sk = true) (v : Version bucket key sk)
    {md : Objects.Metadata} {ci : Objects.CipherMetadata} (hd : v.Describes S md ci)
    (hfile : openObject P K id file = some (v.data S, json)) (batch : ℕ → ℕ → ℕ+) :
    let stream := fun start stop => (plaintextStream bucket key md sk start stop).collect S
      (fun k => getRange P K.chk id (batch k) false (some file)) 0 []
    (∀ start stop, start ≤ stop → stop < v.plaintext.length → stream start stop = .ok (slice v.plaintext start (stop + 1))) ∧
    (∀ header size start stop, parseRange header size = some (start, stop) → start ≤ stop ∧ stop < size) ∧
    (∀ header, ∃ r, s3Get header md.size stream = .ok r ∧ r.Sends v.plaintext ∧ r.contentLength = r.body.length) ∧
    ∀ header range, parseByteRange header = some range →
      ∃ r, restGetRange range md.size stream = .ok r ∧ r.Sends v.plaintext ∧ r.contentLength = r.body.length := by
  intro stream
  have hstream : ∀ start stop, start ≤ stop → stop < v.plaintext.length →
      stream start stop = .ok (slice v.plaintext start (stop + 1)) := by
    intro start stop hle hlt
    exact Version.collect_version (opensChunks_of_opensSealed hopens _) hsk hval hd hle hlt fun k first last => getRange_opened hfile (batch k) first last
  refine ⟨hstream, fun header size start stop h => parseRange_bounds h, ?_, ?_⟩
  · intro header
    obtain ⟨r, hr, hsends⟩ := s3Get_sends hstream header
    exact ⟨r, hd.size ▸ hr, hsends, hsends.length_eq⟩
  · intro header range _
    obtain ⟨r, hr, hsends⟩ := restGetRange_sends hstream range
    exact ⟨r, hd.size ▸ hr, hsends, hsends.length_eq⟩

/-- a MAC that only depends on the key, and no checksum -/
def samplePrimitives : Primitives where
  aead := Aead.tagged
  hmacSha256 k _ := List.replicate 32 (k.headD 0)
  crc32 _ := 0
  aead_correct := Aead.tagged_correct
  length_hmac := length_headDigest

/-- three bytes in chunks of two -/
def sampleVersion : Version "b" "k" (List.replicate 2400 0) where
  plaintext := [1, 2, 3]
  envelopeVersion := 4
  keyEpoch := 0
  nonceBase := ⟨List.replicate 12 0, length_zeroNonce⟩
  kemCt := List.replicate 1088 7
  chunkSize := 2
  body := padded [1, 2, 3]
  length_kemCt := List.length_replicate
  chunkSize_pos := by decide
  chunkSize_lt := by decide
  length_body := by decide
  padding := .inr ⟨rfl, by decide, rfl⟩

def sampleCipher : Objects.CipherMetadata := ⟨(sampleVersion.data sampleSuite).length, "", "ml-kem-768", "aes-256-gcm", 4, 0⟩

def sampleMetadata : Objects.Metadata := ⟨0, 0, 3, "", ∅, some sampleCipher, none, none⟩

theorem ranged_get_three_bytes : ∃ file,
    openObject samplePrimitives (deriveStoreKeys samplePrimitives [1]) "id" file = some (sampleVersion.data sampleSuite, []) ∧
    (plaintextStream "b" "k" sampleMetadata (List.replicate 2400 0) 1 2).collect sampleSuite
      (fun _ => getRange samplePrimitives (deriveStoreKeys samplePrimitives [1]).chk "id" (fun _ => 1) false (some file)) 0 [] =
      .ok [2, 3] := by
  have hlen : (sampleVersion.data sampleSuite).length < 2 ^ 62 := by
    rw [Version.data, length_envelopeOf sampleVersion.chunkSize_pos sampleVersion.nonceBase.2 sampleVersion.length_kemCt,
      length_chunks sampleVersion.chunkSize_pos]
    decide
  obtain ⟨file, hfile⟩ := exists_opened samplePrimitives (deriveStoreKeys samplePrimitives [1]) "id" hlen
    (show ([] : Bytes).length < 2 ^ 30 by decide)
  have hd : sampleVersion.Describes sampleSuite sampleMetadata sampleCipher := ⟨rfl, rfl, rfl, rfl⟩
  have h := (ranged_get Aead.tagged_correct.decrypt_encrypt List.length_replicate rfl sampleVersion hd hfile fun _ _ => 1).1
  exact ⟨file, hfile, h 1 2 (by decide) (by decide)⟩

end Y2q.RangedGet
