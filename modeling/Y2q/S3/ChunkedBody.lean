/-
`aws-chunked` bodies (`s3/body/upload.rs`): the decoder of an upload.

A frame is a line with its size and, in the signed modes, a signature, then the data and a line end; a frame of size zero and a block
of trailer lines end the body. The network hands the bytes over in pieces, cut anywhere.

- `nextChunkedFrame`: one frame, from what is buffered and what is still to come. `polls`: what the decoder hands on, frame by frame.
- `Hashes`: SHA-256, HMAC and CRC32 are the hash libraries'.
- `polls_total`: the decoder ends.
-/
import Mathlib.Tactic
import Y2q.Core.Base64
import Y2q.Core.Lockstep
import Y2q.Core.Text
import Y2q.Daemon.Labels
import Y2q.Daemon.RangedGet

namespace Y2q.ChunkedBody

open Labels (toAsciiLowercase stripPrefix)
open LockstepLogic
open RangedGet (splitOnce)

/-! ## Hashes -/

structure Hashes where
  sha256 : Bytes → Bytes
  hmacSha256 : Bytes → Bytes → Bytes
  /-- big-endian -/
  crc32 : Bytes → Bytes
  sha256_length : ∀ b, (sha256 b).length = 32
  hmacSha256_length : ∀ key b, (hmacSha256 key b).length = 32

def hexChar (n : ℕ) : Char := if n < 10 then Char.ofNat (48 + n) else Char.ofNat (87 + n)

/-- in lower case -/
def hexEncode (b : Bytes) : String := String.ofList (b.flatMap fun x => [hexChar (x.toNat / 16), hexChar (x.toNat % 16)])

def EMPTY_PAYLOAD_SHA256 : String := "e3b0c44298fc1c149afbf4c8996fb92427ae41e4649b934ca495991b7852b855"

def Hashes.sha256Hex (H : Hashes) (b : Bytes) : String := hexEncode (H.sha256 b)

def Hashes.hexHmacSha256 (H : Hashes) (key : Bytes) (m : String) : String := hexEncode (H.hmacSha256 key (utf8 m))

def chunkStringToSign (amzDate scope prevSignature chunkSha256Hex : String) : String :=
  "AWS4-HMAC-SHA256-PAYLOAD\n" ++ amzDate ++ "\n" ++ scope ++ "\n" ++ prevSignature ++ "\n" ++ EMPTY_PAYLOAD_SHA256 ++ "\n" ++
    chunkSha256Hex

def trailerStringToSign (amzDate scope prevSignature trailerSha256Hex : String) : String :=
  "AWS4-HMAC-SHA256-TRAILER\n" ++ amzDate ++ "\n" ++ scope ++ "\n" ++ prevSignature ++ "\n" ++ trailerSha256Hex

inductive ChecksumAlgo where
  | Crc32
  | Sha256
deriving DecidableEq

/-- of all that the hasher has been given -/
def ChecksumAlgo.digestB64 (H : Hashes) (data : Bytes) : ChecksumAlgo → String
  | .Crc32 => Base64.encode (H.crc32 data)
  | .Sha256 => Base64.encode (H.sha256 data)

/-! ## Errors -/

structure S3Error where
  code : String
  message : String
deriving DecidableEq

def signatureDoesNotMatch : S3Error :=
  ⟨"SignatureDoesNotMatch", "The request signature we calculated does not match the signature you provided."⟩

def xAmzContentSha256Mismatch : S3Error :=
  ⟨"XAmzContentSHA256Mismatch", "The provided 'x-amz-content-sha256' header does not match what was computed."⟩

def invalidArgument (message : String) : S3Error := ⟨"InvalidArgument", message⟩

def invalidRequest (message : String) : S3Error := ⟨"InvalidRequest", message⟩

/-- how a stream ends early: with the error in the sideband, or with that of the connection -/
inductive Abort (ε : Type) where
  | s3 (e : S3Error)
  | transport (e : ε)
deriving DecidableEq

/-! ## Reading -/

structure Signing where
  signingKey : Bytes
  scope : String
  amzDate : String
  prevSignature : String

variable {ε : Type}

/-- `inner_done` is that nothing is left in `inner` -/
structure ChunkedState (ε : Type) where
  inner : List (Except ε Bytes)
  buf : Bytes
  signing : Option Signing
  expectTrailer : Bool
  maxFrameBytes : ℕ
  trailerChecksum : Option ChecksumAlgo
  /-- what the checksum's hasher has been given -/
  checksumHasher : Option Bytes
  finished : Bool
  /-- a line as long as the limit has been read; the code does not note it -/
  long : Bool
  /-- the text of the trailer block that was accepted; the code forgets it -/
  trailer : Option String

abbrev Decoder (ε α : Type) := EStateM (Abort ε) (ChunkedState ε) α

def MAX_CHUNK_HEADER_LINE_BYTES : ℕ := 1024

def findCrlf : Bytes → Option ℕ
  | [] => none
  | b :: rest => if b = 13 ∧ rest.head? = some 10 then some 0 else (findCrlf rest).map (· + 1)

/-- the loop of `read_line` over what is still to come -/
def readLineFrom (s : ChunkedState ε) : List (Except ε Bytes) → Bytes → EStateM.Result (Abort ε) (ChunkedState ε) String
  | inner, buf =>
    match findCrlf buf with
    | some pos =>
      let s := { s with inner := inner, buf := buf.drop (pos + 2), long := s.long || MAX_CHUNK_HEADER_LINE_BYTES ≤ pos }
      match fromUtf8 (buf.take pos) with
      | some line => .ok line s
      | none => .error (.s3 (invalidArgument "malformed aws-chunked framing")) s
    | none =>
      if buf.length > MAX_CHUNK_HEADER_LINE_BYTES then
        .error (.s3 (invalidArgument "aws-chunked frame header too long")) { s with inner := inner, buf := buf }
      else
        match inner with
        | [] => .error (.s3 (invalidArgument "truncated aws-chunked body")) { s with inner := [], buf := buf }
        | .ok chunk :: inner => readLineFrom s inner (buf ++ chunk)
        | .error e :: inner => .error (.transport e) { s with inner := inner, buf := buf }

def readLine : Decoder ε String := fun s => readLineFrom s s.inner s.buf

def readExactFrom (n : ℕ) (s : ChunkedState ε) : List (Except ε Bytes) → Bytes → EStateM.Result (Abort ε) (ChunkedState ε) Bytes
  | inner, buf =>
    if n ≤ buf.length then .ok (buf.take n) { s with inner := inner, buf := buf.drop n }
    else
      match inner with
      | [] => .error (.s3 (invalidArgument "truncated aws-chunked body")) { s with inner := [], buf := buf }
      | .ok chunk :: inner => readExactFrom n s inner (buf ++ chunk)
      | .error e :: inner => .error (.transport e) { s with inner := inner, buf := buf }

def readExact (n : ℕ) : Decoder ε Bytes := fun s => readExactFrom n s s.inner s.buf

/-! ## Header lines -/

/-- `char::is_whitespace` -/
def isWhitespace (c : Char) : Bool :=
  (9 ≤ c.toNat && c.toNat ≤ 13) || (0x2000 ≤ c.toNat && c.toNat ≤ 0x200A) ||
    c.toNat ∈ [0x20, 0x85, 0xA0, 0x1680, 0x2028, 0x2029, 0x202F, 0x205F, 0x3000]

def trim (s : List Char) : List Char := ((s.dropWhile isWhitespace).reverse.dropWhile isWhitespace).reverse

def hexValue (c : Char) : Option ℕ :=
  if '0' ≤ c ∧ c ≤ '9' then some (c.toNat - 48)
  else if 'a' ≤ c ∧ c ≤ 'f' then some (c.toNat - 87)
  else if 'A' ≤ c ∧ c ≤ 'F' then some (c.toNat - 55)
  else none

def hexDigits (acc : ℕ) : List Char → Option ℕ
  | [] => some acc
  | c :: cs => (hexValue c).bind fun d => if acc * 16 + d < 2 ^ 64 then hexDigits (acc * 16 + d) cs else none

/-- `u64::from_str_radix` at 16: a plus sign may stand in front -/
def fromStrRadix16 : List Char → Option ℕ
  | [] => none
  | c :: cs => if c = '+' then (if cs = [] then none else hexDigits 0 cs) else hexDigits 0 (c :: cs)

/-- the size and the signature, as they stand there -/
def splitHeader (line : String) : List Char × Option String :=
  match splitOnce ';' line.toList with
  | some (s, rest) => (s, stripPrefix "chunk-signature=" (String.ofList (trim rest)))
  | none => (line.toList, none)

variable (H : Hashes)

/-- against the running signature, which it takes on -/
def verifySignature (declaredSig : Option String) (stringToSign : Signing → String) : Decoder ε Unit := do
  match ← gets ChunkedState.signing with
  | none => pure ()
  | some signing =>
    match declaredSig with
    | none => throw (.s3 signatureDoesNotMatch)
    | some declared =>
      if H.hexHmacSha256 signing.signingKey (stringToSign signing) = declared then
        modify fun s => { s with signing := some { signing with prevSignature := declared } }
      else throw (.s3 signatureDoesNotMatch)

/-- of a data frame or of the last one -/
def verifyChunkSignature (declaredSig : Option String) (payloadSha256Hex : String) : Decoder ε Unit :=
  verifySignature H declaredSig fun g => chunkStringToSign g.amzDate g.scope g.prevSignature payloadSha256Hex

/-! ## The trailer block -/

structure TrailerBlock where
  content : String
  signature : Option String
  values : String → Option String

def TrailerBlock.add (t : TrailerBlock) (line : String) : TrailerBlock :=
  match stripPrefix "x-amz-trailer-signature:" (toAsciiLowercase line) with
  | some sig => { t with signature := some (String.ofList (trim sig.toList)) }
  | none =>
    let content := t.content ++ line ++ "\n"
    match splitOnce ':' line.toList with
    | some (name, value) =>
      { t with
        content := content
        values := Function.update t.values (toAsciiLowercase (String.ofList (trim name))) (some (String.ofList (trim value))) }
    | none => { t with content := content }

/-- at most as many lines as there are bytes; `trailerLines_enough`: the first case is never reached -/
def trailerLines : ℕ → TrailerBlock → Decoder ε TrailerBlock
  | 0, _ => throw (.s3 (invalidArgument "truncated aws-chunked body"))
  | n + 1, t => do
    let line ← readLine
    if line = "" then pure t else trailerLines n (t.add line)

def verifyTrailerSignature (t : TrailerBlock) : Decoder ε Unit :=
  verifySignature H t.signature fun g => trailerStringToSign g.amzDate g.scope g.prevSignature (H.sha256Hex (utf8 t.content))

def pieceBytes : Except ε Bytes → Bytes
  | .ok b => b
  | .error _ => []

/-- what has not been read -/
def ChunkedState.rest (s : ChunkedState ε) : Bytes := s.buf ++ s.inner.flatMap pieceBytes

def readTrailer : Decoder ε (String → Option String) := do
  let rest ← gets ChunkedState.rest
  let t ← trailerLines (rest.length + 1) ⟨"", none, fun _ => none⟩
  verifyTrailerSignature H t
  modify fun s => { s with trailer := some t.content }
  pure t.values

/-! ## Frames -/

/-- no trailer block: a blank line all the same -/
def readBlank : Decoder ε (String → Option String) := do
  let blank ← readLine
  if blank = "" then pure fun _ => none
  else throw (.s3 (invalidArgument "expected blank line after terminal chunk"))

def ChecksumAlgo.trailerName : ChecksumAlgo → String
  | .Crc32 => "x-amz-checksum-crc32"
  | .Sha256 => "x-amz-checksum-sha256"

/-- of the data that have been hashed -/
def checkTrailer (trailerChecksum : Option ChecksumAlgo) (hashed : Option Bytes) (values : String → Option String) : Bool :=
  match trailerChecksum with
  | none => true
  | some algo =>
    match values algo.trailerName, hashed with
    | some d, some data => d = algo.digestB64 H data
    | _, _ => false

def endBlock (expectTrailer : Bool) : Decoder ε (String → Option String) := if expectTrailer then readTrailer H else readBlank

/-- after a frame of size zero -/
def terminalFrame (declaredSig : Option String) : Decoder ε (Option Bytes) := do
  verifyChunkSignature H declaredSig EMPTY_PAYLOAD_SHA256
  let expectTrailer ← gets ChunkedState.expectTrailer
  let values ← endBlock H expectTrailer
  let checked ← gets fun s => checkTrailer H s.trailerChecksum s.checksumHasher values
  if checked then do
    modify fun s => { s with finished := true }
    pure none
  else throw (.s3 (invalidRequest "trailer checksum mismatch or missing"))

def dataFrame (declaredSig : Option String) (frameSize : ℕ) : Decoder ε (Option Bytes) := do
  let data ← readExact frameSize
  let trailing ← readExact 2
  if trailing = [13, 10] then do
    verifyChunkSignature H declaredSig (H.sha256Hex data)
    modify fun s => { s with checksumHasher := s.checksumHasher.map (· ++ data) }
    pure (some data)
  else throw (.s3 (invalidArgument "malformed aws-chunked frame terminator"))

def frame (headerLine : String) : Decoder ε (Option Bytes) := do
  let (sizeHex, declaredSig) := splitHeader headerLine
  match fromStrRadix16 (trim sizeHex) with
  | none => throw (.s3 (invalidArgument "malformed aws-chunked frame size"))
  | some frameSize => do
    let maxFrameBytes ← gets ChunkedState.maxFrameBytes
    if frameSize > maxFrameBytes then throw (.s3 (invalidRequest "chunk exceeds the configured max_part_bytes"))
    else if frameSize = 0 then terminalFrame H declaredSig
    else dataFrame H declaredSig frameSize

/-- a frame's data, or none at the end -/
def nextChunkedFrame : Decoder ε (Option Bytes) := do
  let finished ← gets ChunkedState.finished
  if finished then pure none
  else do
    let headerLine ← readLine
    frame H headerLine

/-! ## The stream -/

inductive Outcome (ε : Type) where
  | complete
  | failed (e : Abort ε)
deriving DecidableEq

/-- the frames handed on in the first polls, and how the stream has ended, if it has -/
def polls : ℕ → ChunkedState ε → List Bytes × Option (Outcome ε)
  | 0, _ => ([], none)
  | n + 1, s =>
    match (nextChunkedFrame H).run s with
    | .error e _ => ([], some (.failed e))
    | .ok none _ => ([], some .complete)
    | .ok (some data) s => (data :: (polls n s).1, (polls n s).2)

/-- the whole stream -/
def Yields (s : ChunkedState ε) (frames : List Bytes) (o : Outcome ε) : Prop := ∃ n, polls H n s = (frames, some o)

structure ChunkedOptions where
  chunkSigning : Option Signing
  trailerChecksum : Option ChecksumAlgo
  maxFrameBytes : ℕ
  expectTrailer : Bool

/-- `decode_aws_chunked` -/
def decodeAwsChunked (inner : List (Except ε Bytes)) (o : ChunkedOptions) : ChunkedState ε where
  inner := inner
  buf := []
  signing := o.chunkSigning
  expectTrailer := o.expectTrailer
  maxFrameBytes := o.maxFrameBytes
  trailerChecksum := o.trailerChecksum
  checksumHasher := o.trailerChecksum.map fun _ => []
  finished := false
  long := false
  trailer := none

/-! ## What is read -/

section Reading

variable {s s' : ChunkedState ε}

theorem findCrlf_eq_some {b : Bytes} {pos : ℕ} (h : findCrlf b = some pos) : b = b.take pos ++ 13 :: 10 :: b.drop (pos + 2) := by
  induction b generalizing pos with
  | nil => cases h
  | cons x b ih =>
    rw [findCrlf] at h
    split_ifs at h with hx
    · cases h
      obtain ⟨rfl, hb⟩ := hx
      obtain ⟨y, rfl⟩ := List.head?_eq_some_iff.1 hb
      rfl
    · obtain ⟨pos', hpos, rfl⟩ := Option.map_eq_some_iff.1 h
      have hb := ih hpos
      rw [List.take_succ_cons, List.cons_append, show pos' + 1 + 2 = pos' + 2 + 1 from rfl, List.drop_succ_cons, ← hb]

/-- only the reader has moved -/
def Moved (s s' : ChunkedState ε) : Prop := s' = { s with inner := s'.inner, buf := s'.buf, long := s'.long }

theorem Moved.trans {s'' : ChunkedState ε} (h : Moved s s') (h' : Moved s' s'') : Moved s s'' := by
  rw [Moved] at h h' ⊢
  rw [h', h]

theorem readLineFrom_ok {inner : List (Except ε Bytes)} {buf : Bytes} {line : String} (h : readLineFrom s inner buf = .ok line s') :
    buf ++ inner.flatMap pieceBytes = utf8 line ++ 13 :: 10 :: s'.rest ∧ Moved s s' := by
  induction inner generalizing buf with
  | nil =>
    unfold readLineFrom at h
    split at h
    case h_1 pos hpos =>
      simp only at h
      split at h <;> cases h
      rename_i hline
      rw [fromUtf8_eq_some] at hline
      refine ⟨?_, rfl⟩
      rw [← hline, ChunkedState.rest, List.flatMap_nil, List.append_nil, List.append_nil, ← findCrlf_eq_some hpos]
    case h_2 => split_ifs at h
  | cons piece inner ih =>
    unfold readLineFrom at h
    split at h
    case h_1 pos hpos =>
      simp only at h
      split at h <;> cases h
      rename_i hline
      rw [fromUtf8_eq_some] at hline
      refine ⟨?_, rfl⟩
      rw [← hline, ChunkedState.rest]
      conv_lhs => rw [findCrlf_eq_some hpos]
      simp only [List.append_assoc, List.cons_append]
    case h_2 =>
      split_ifs at h
      cases piece with
      | error e => cases h
      | ok chunk =>
        obtain ⟨hrest, hmoved⟩ := ih h
        refine ⟨?_, hmoved⟩
        rw [← hrest, List.flatMap_cons, pieceBytes, List.append_assoc]

theorem readLine_ok {line : String} (h : readLine.run s = .ok line s') :
    s.rest = utf8 line ++ 13 :: 10 :: s'.rest ∧ Moved s s' := readLineFrom_ok h

theorem readExactFrom_ok {n : ℕ} {inner : List (Except ε Bytes)} {buf data : Bytes}
    (h : readExactFrom n s inner buf = .ok data s') :
    buf ++ inner.flatMap pieceBytes = data ++ s'.rest ∧ data.length = n ∧ Moved s s' := by
  induction inner generalizing buf with
  | nil =>
    unfold readExactFrom at h
    split_ifs at h with hn
    cases h
    refine ⟨?_, List.length_take_of_le hn, rfl⟩
    rw [ChunkedState.rest, ← List.append_assoc, List.take_append_drop]
  | cons piece inner ih =>
    unfold readExactFrom at h
    split_ifs at h with hn
    · cases h
      refine ⟨?_, List.length_take_of_le hn, rfl⟩
      rw [ChunkedState.rest, ← List.append_assoc, List.take_append_drop]
    · cases piece with
      | error e => cases h
      | ok chunk =>
        obtain ⟨hrest, hdata⟩ := ih h
        refine ⟨?_, hdata⟩
        rw [← hrest, List.flatMap_cons, pieceBytes, List.append_assoc]

theorem readExact_ok {n : ℕ} {data : Bytes} (h : (readExact n).run s = .ok data s') :
    s.rest = data ++ s'.rest ∧ data.length = n ∧ Moved s s' := readExactFrom_ok h

/-- one link of the chain of signatures; without signing there is none -/
def Linked (declaredSig : Option String) (stringToSign : Signing → String) (g g' : Option Signing) : Prop :=
  (g = none ∧ g' = none) ∨ ∃ signing declared, g = some signing ∧ declaredSig = some declared ∧
    H.hexHmacSha256 signing.signingKey (stringToSign signing) = declared ∧ g' = some { signing with prevSignature := declared }

variable {H}

theorem verifySignature_ok {declaredSig : Option String} {stringToSign : Signing → String} {u : Unit}
    (h : (verifySignature H declaredSig stringToSign).run s = .ok u s') :
    Linked H declaredSig stringToSign s.signing s'.signing ∧ s' = { s with signing := s'.signing } := by
  obtain ⟨o, t, hget, h⟩ := run_bind_ok.1 h
  cases hget
  split at h
  case h_1 hnone =>
    cases h
    exact ⟨.inl ⟨hnone, hnone⟩, rfl⟩
  case h_2 signing hsome =>
    cases declaredSig with
    | none => cases h
    | some declared =>
      simp only at h
      split_ifs at h with hsig
      · cases h
        exact ⟨.inr ⟨signing, declared, hsome, rfl, hsig, rfl⟩, rfl⟩
      · cases h

/-- the block that consists of some lines -/
def trailerBlock (lines : List String) : TrailerBlock := lines.foldl TrailerBlock.add ⟨"", none, fun _ => none⟩

/-- a trailer block is made of lines of the body -/
theorem trailerLines_ok {n : ℕ} {t t' : TrailerBlock} (h : (trailerLines n t).run s = .ok t' s') :
    (∃ lines : List String, t' = lines.foldl TrailerBlock.add t ∧ ∀ l ∈ lines, utf8 l <:+: s.rest) ∧ s'.rest <:+ s.rest ∧ Moved s s' := by
  induction n generalizing s t with
  | zero => cases h
  | succ n ih =>
    obtain ⟨line, u, hline, h⟩ := run_bind_ok.1 h
    obtain ⟨hrest, hmoved⟩ := readLine_ok hline
    have hwithin : utf8 line <:+: s.rest := ⟨[], _, by rw [hrest, List.nil_append]⟩
    have hsuffix : u.rest <:+ s.rest := ⟨utf8 line ++ [13, 10], by rw [hrest]; simp⟩
    split_ifs at h with hempty
    · cases h
      exact ⟨⟨[], rfl, by simp⟩, hsuffix, hmoved⟩
    · obtain ⟨⟨lines, ht, hlines⟩, hsuffix', hmoved'⟩ := ih h
      refine ⟨⟨line :: lines, ht, ?_⟩, hsuffix'.trans hsuffix, hmoved.trans hmoved'⟩
      rw [List.forall_mem_cons]
      exact ⟨hwithin, fun l hl => (hlines l hl).trans hsuffix.isInfix⟩

/-- a trailer block that has been taken for what was signed -/
def Accepted (H : Hashes) (t : TrailerBlock) (g : Option Signing) (s' : ChunkedState ε) : Prop :=
  Linked H t.signature (fun g => trailerStringToSign g.amzDate g.scope g.prevSignature (H.sha256Hex (utf8 t.content))) g s'.signing ∧
    s'.trailer = some t.content

/-- the trailer block after a frame of size zero, if there is to be one -/
theorem endBlock_ok {expect : Bool} {values : String → Option String}
    (h : (endBlock H expect).run s = .ok values s') :
    (if expect then ∃ lines, (∀ l ∈ lines, utf8 l <:+: s.rest) ∧ Accepted H (trailerBlock lines) s.signing s' ∧
      values = (trailerBlock lines).values
    else ∀ name, values name = none) ∧
      s' = { s with inner := s'.inner, buf := s'.buf, long := s'.long, signing := s'.signing, trailer := s'.trailer } := by
  cases expect with
  | false =>
    obtain ⟨line, u, hline, h⟩ := run_bind_ok.1 h
    obtain ⟨-, hmoved⟩ := readLine_ok hline
    split_ifs at h
    · cases h
      refine ⟨fun _ => rfl, ?_⟩
      rw [Moved] at hmoved
      rw [hmoved]
    · cases h
  | true =>
    obtain ⟨rest, u, hget, h⟩ := run_bind_ok.1 h
    cases hget
    obtain ⟨t, u, hlines, h⟩ := run_bind_ok.1 h
    obtain ⟨⟨lines, rfl, hmem⟩, -, hmoved⟩ := trailerLines_ok hlines
    obtain ⟨_, v, hsig, h⟩ := run_bind_ok.1 h
    obtain ⟨hlinked, hv⟩ := verifySignature_ok hsig
    obtain ⟨_, w, hset, h⟩ := run_bind_ok.1 h
    cases hset
    cases h
    rw [Moved] at hmoved
    refine ⟨⟨lines, hmem, ⟨?_, rfl⟩, rfl⟩, ?_⟩
    · rw [hmoved] at hlinked
      exact hlinked
    · rw [hv, hmoved]

/-- a frame with data: its header line, the data, and a line end -/
structure DataFrame (H : Hashes) (s : ChunkedState ε) (data : Bytes) (s' : ChunkedState ε) : Prop where
  nonempty : data ≠ []
  stands : ∃ line, s.rest = utf8 line ++ 13 :: 10 :: (data ++ 13 :: 10 :: s'.rest) ∧
    Linked H (splitHeader line).2 (fun g => chunkStringToSign g.amzDate g.scope g.prevSignature (H.sha256Hex data)) s.signing s'.signing
  moved : s' = { s with
    inner := s'.inner, buf := s'.buf, long := s'.long, signing := s'.signing, checksumHasher := s.checksumHasher.map (· ++ data) }

/-- the frame of size zero and what follows -/
structure LastFrame (H : Hashes) (s s' : ChunkedState ε) : Prop where
  stands : ∃ line g, utf8 line <:+: s.rest ∧
    Linked H (splitHeader line).2 (fun g => chunkStringToSign g.amzDate g.scope g.prevSignature EMPTY_PAYLOAD_SHA256) s.signing g ∧
    if s.expectTrailer then ∃ lines, (∀ l ∈ lines, utf8 l <:+: s.rest) ∧ Accepted H (trailerBlock lines) g s' ∧
      checkTrailer H s.trailerChecksum s.checksumHasher (trailerBlock lines).values = true
    else s.trailerChecksum = none

theorem checkTrailer_some {algo : ChecksumAlgo} {data : Bytes} {values : String → Option String} :
    checkTrailer H (some algo) (some data) values = true ↔ values algo.trailerName = some (algo.digestB64 H data) := by
  unfold checkTrailer
  cases hd : values algo.trailerName with
  | none => simp [hd]
  | some d => simp [hd]

theorem checkTrailer_absent {algo : Option ChecksumAlgo} {hashed : Option Bytes} {values : String → Option String}
    (hvalues : ∀ name, values name = none) (h : checkTrailer H algo hashed values = true) : algo = none := by
  cases algo with
  | none => rfl
  | some algo => simp [checkTrailer, hvalues] at h

section Frames

variable {u : ChunkedState ε} {line : String} (hrest : s.rest = utf8 line ++ 13 :: 10 :: u.rest) (hmoved : Moved s u)

include hrest hmoved

theorem dataFrame_ok {n : ℕ} (hn : n ≠ 0) {o : Option Bytes} (h : (dataFrame H (splitHeader line).2 n).run u = .ok o s') :
    ∃ data, o = some data ∧ DataFrame H s data s' := by
  obtain ⟨data, v, hdata, h⟩ := run_bind_ok.1 h
  obtain ⟨hv, hlen, hmoved'⟩ := readExact_ok hdata
  obtain ⟨trailing, w, htrailing, h⟩ := run_bind_ok.1 h
  obtain ⟨hw, -, hmoved''⟩ := readExact_ok htrailing
  split_ifs at h with hcrlf
  · obtain ⟨_, x, hsig, h⟩ := run_bind_ok.1 h
    obtain ⟨hlinked, hx⟩ := verifySignature_ok hsig
    obtain ⟨_, y, hset, h⟩ := run_bind_ok.1 h
    cases hset
    cases h
    have hall := (hmoved.trans hmoved').trans hmoved''
    rw [Moved] at hall
    refine ⟨data, rfl, ⟨fun he => hn (hlen ▸ he ▸ rfl), ⟨line, ?_, ?_⟩, ?_⟩⟩
    · rw [hrest, hv, hw, hcrlf, hx]
      rfl
    · rw [hall] at hlinked
      exact hlinked
    · rw [hx, hall]
  · cases h

theorem terminalFrame_ok {o : Option Bytes} (h : (terminalFrame H (splitHeader line).2).run u = .ok o s') :
    o = none ∧ LastFrame H s s' := by
  have hsuffix : u.rest <:+ s.rest := ⟨utf8 line ++ [13, 10], by rw [hrest]; simp⟩
  obtain ⟨_, v, hsig, h⟩ := run_bind_ok.1 h
  obtain ⟨hlinked, hv⟩ := verifySignature_ok hsig
  obtain ⟨expect, w, hget, h⟩ := run_bind_ok.1 h
  cases hget
  obtain ⟨values, w, hblock, h⟩ := run_bind_ok.1 h
  obtain ⟨hblock, hw⟩ := endBlock_ok hblock
  obtain ⟨checked, x, hget, h⟩ := run_bind_ok.1 h
  cases hget
  split_ifs at h with hchecked
  · obtain ⟨_, y, hset, h⟩ := run_bind_ok.1 h
    cases hset
    cases h
    rw [Moved] at hmoved
    rw [hv, hmoved] at hblock hw
    rw [hmoved] at hlinked
    simp only at hblock hw hlinked
    rw [hw] at hchecked
    simp only at hchecked
    refine ⟨rfl, ⟨line, v.signing, ⟨[], _, by rw [hrest, List.nil_append]⟩, hlinked, ?_⟩⟩
    cases hexpect : s.expectTrailer with
    | true =>
      rw [hexpect] at hblock
      obtain ⟨lines, hmem, haccepted, rfl⟩ := hblock
      exact ⟨lines, fun l hl => (hmem l hl).trans hsuffix.isInfix, haccepted, hchecked⟩
    | false =>
      rw [hexpect] at hblock
      exact checkTrailer_absent hblock hchecked
  · cases h

end Frames

/-- what a poll that does not fail has found -/
theorem nextChunkedFrame_ok {o : Option Bytes} (h : (nextChunkedFrame H).run s = .ok o s') :
    (s.finished = true ∧ o = none) ∨
      s.finished = false ∧ ((∃ data, o = some data ∧ DataFrame H s data s') ∨ o = none ∧ LastFrame H s s') := by
  obtain ⟨finished, u, hget, h⟩ := run_bind_ok.1 h
  cases hget
  cases hfinished : s.finished with
  | true =>
    rw [hfinished] at h
    cases h
    exact .inl ⟨rfl, rfl⟩
  | false =>
    rw [hfinished] at h
    refine .inr ⟨rfl, ?_⟩
    obtain ⟨line, u, hline, h⟩ := run_bind_ok.1 h
    obtain ⟨hrest, hmoved⟩ := readLine_ok hline
    rw [Moved] at hmoved
    rw [frame] at h
    simp only at h
    split at h
    case h_1 => cases h
    case h_2 frameSize hsize =>
      obtain ⟨_, _, hget, h⟩ := run_bind_ok.1 h
      cases hget
      split_ifs at h with hbig hzero
      · cases h
      · exact .inr (terminalFrame_ok hrest hmoved h)
      · exact .inl (dataFrame_ok hrest hmoved hzero h)

/-- the bytes left are lines enough -/
theorem trailerLines_enough {n : ℕ} {t : TrailerBlock} (hn : s.rest.length < n) :
    (trailerLines n t).run s = (trailerLines (n + 1) t).run s := by
  induction n generalizing s t with
  | zero => omega
  | succ n ih =>
    rw [trailerLines, trailerLines]
    cases hline : readLine.run s with
    | error e u => rw [run_bind_of_error hline, run_bind_of_error hline]
    | ok line u =>
      have hrest := congrArg List.length (readLine_ok hline).1
      simp only [List.length_append, List.length_cons] at hrest
      rw [run_bind_of_ok hline, run_bind_of_ok hline]
      split_ifs
      · rfl
      · exact ih (by omega)

end Reading

/-! ## The whole stream -/

section Stream

variable {s s' : ChunkedState ε} {H}

theorem DataFrame.rest_lt {data : Bytes} (h : DataFrame H s data s') : s'.rest.length < s.rest.length := by
  obtain ⟨line, hrest, -⟩ := h.stands
  have hlen := congrArg List.length hrest
  simp only [List.length_append, List.length_cons] at hlen
  omega

variable (H s) in
/-- the decoder ends -/
theorem polls_total : ∃ frames o, Yields H s frames o := by
  induction hn : s.rest.length using Nat.strong_induction_on generalizing s with
  | _ n ih =>
    cases h : (nextChunkedFrame H).run s with
    | error e t => exact ⟨[], .failed e, 1, by simp only [polls, h]⟩
    | ok o t =>
      cases o with
      | none => exact ⟨[], .complete, 1, by simp only [polls, h]⟩
      | some data =>
        rcases nextChunkedFrame_ok h with ⟨-, ho⟩ | ⟨-, ⟨data', ho, hframe⟩ | ⟨ho, -⟩⟩
        · cases ho
        · cases ho
          obtain ⟨frames, o, m, hm⟩ := ih t.rest.length (hn ▸ hframe.rest_lt) t rfl
          exact ⟨data :: frames, o, m + 1, by simp only [polls, h, hm]⟩
        · cases ho

/-- a stream that has ended stays so -/
theorem polls_stays {n m : ℕ} {frames : List Bytes} {o : Outcome ε} (h : polls H n s = (frames, some o)) (hnm : n ≤ m) :
    polls H m s = (frames, some o) := by
  induction n generalizing s m frames with
  | zero => cases h
  | succ n ih =>
    obtain ⟨m, rfl⟩ : ∃ k, m = k + 1 := ⟨m - 1, by omega⟩
    rw [polls] at h ⊢
    cases hnext : (nextChunkedFrame H).run s with
    | error e t =>
      simp only [hnext] at h ⊢
      exact h
    | ok r t =>
      cases r with
      | none =>
        simp only [hnext] at h ⊢
        exact h
      | some data =>
        simp only [hnext, Prod.mk.injEq] at h ⊢
        obtain ⟨rfl, ho⟩ := h
        have hrest := ih (Prod.ext rfl ho) (Nat.le_of_succ_le_succ hnm)
        rw [hrest]
        exact ⟨rfl, rfl⟩

theorem yields_unique {frames frames' : List Bytes} {o o' : Outcome ε} (h : Yields H s frames o) (h' : Yields H s frames' o') :
    frames = frames' ∧ o = o' := by
  obtain ⟨n, hn⟩ := h
  obtain ⟨m, hm⟩ := h'
  have hn' := polls_stays hn (le_max_left n m)
  rw [polls_stays hm (le_max_right n m), Prod.mk.injEq, Option.some_inj] at hn'
  exact ⟨hn'.1.symm, hn'.2.symm⟩

end Stream

end Y2q.ChunkedBody
