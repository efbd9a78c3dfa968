/-
The decoder of `aws-chunked` bodies and the way the network cuts a body into pieces.

`read_line` looks for a line end first and at the length of what it has only then. So a line that is too long is refused if part of it
arrives alone, and taken if it arrives with its end.

- `Slicing`: two states of the decoder between which only the cutting differs. `cut_slicing`, `bytewise_slicing`, `piece_slicing`:
  any cutting, single bytes, and one piece, each beside the whole body at hand.
- `Tame`: no line as long as the limit is read, but in a frame that is refused as malformed.
- `slicing_iff`: the payload and the kind of outcome are the same for all cuttings exactly if all frames are tame.
-/
import Mathlib.Tactic
import Y2q.Core.Lockstep
import Y2q.S3.ChunkedBody

namespace Y2q.ChunkedSlicing

open ChunkedBody LockstepLogic

variable {ε : Type} (H : Hashes)

/-! ## Results -/

inductive Kind where
  | success
  | refused (code : String)
  | broken
deriving DecidableEq

def kind : Outcome ε → Kind
  | .complete => .success
  | .failed (.s3 e) => .refused e.code
  | .failed (.transport _) => .broken

/-- the same payload, and the same kind of outcome -/
def SameResult (s s' : ChunkedState ε) : Prop :=
  ∃ frames frames' o o', Yields H s frames o ∧ Yields H s' frames' o' ∧ frames.flatten = frames'.flatten ∧ kind o = kind o'

/-- the body cut into pieces -/
def sliced (cuts : List Bytes) (o : ChunkedOptions) : ChunkedState ε := decodeAwsChunked (cuts.map .ok) o

/-- the body at hand -/
def whole (w : Bytes) (o : ChunkedOptions) : ChunkedState ε := { decodeAwsChunked [] o with buf := w }

/-- the state after some frames -/
def after : ℕ → ChunkedState ε → Option (ChunkedState ε)
  | 0, s => some s
  | n + 1, s =>
    match (nextChunkedFrame H).run s with
    | .ok (some _) s => after n s
    | _ => none

/-- the next frame is refused as malformed if a line as long as the limit is read in it -/
def Tame (t : ChunkedState ε) : Prop :=
  (final ((nextChunkedFrame H).run t)).long = true → ∃ e t', (nextChunkedFrame H).run t = .error (.s3 e) t' ∧ e.code = "InvalidArgument"

/-! ## Line ends -/

theorem findCrlf_append {a b : Bytes} {pos : ℕ} (h : findCrlf a = some pos) : findCrlf (a ++ b) = some pos := by
  induction a generalizing pos with
  | nil => cases h
  | cons x a ih =>
    rw [findCrlf] at h
    rw [List.cons_append, findCrlf]
    split_ifs at h with hx
    · have hx' : x = 13 ∧ (a ++ b).head? = some 10 := ⟨hx.1, by rw [List.head?_append, hx.2, Option.some_or]⟩
      rw [if_pos hx', h]
    · obtain ⟨pos', hpos, rfl⟩ := Option.map_eq_some_iff.1 h
      have hx' : ¬(x = 13 ∧ (a ++ b).head? = some 10) := by
        rintro ⟨h13, h10⟩
        cases a with
        | nil => cases hpos
        | cons y a => exact hx ⟨h13, h10⟩
      rw [if_neg hx', ih hpos, Option.map_some]

theorem findCrlf_bound {a : Bytes} {pos : ℕ} (h : findCrlf a = some pos) : pos + 2 ≤ a.length := by
  have hlen := congrArg List.length (findCrlf_eq_some h)
  have hpos : (a.take pos).length ≤ pos := List.length_take_le _ _
  have hle : a.length - (pos + 2) = (a.drop (pos + 2)).length := (List.length_drop).symm
  simp only [List.length_append, List.length_cons, ← hle] at hlen
  have htake : (a.take pos).length = min pos a.length := List.length_take
  omega

/-- a line end that is not there yet is not before the end -/
theorem findCrlf_late {a b : Bytes} {pos : ℕ} (ha : findCrlf a = none) (h : findCrlf (a ++ b) = some pos) : a.length ≤ pos + 1 := by
  induction a generalizing pos with
  | nil => exact Nat.zero_le _
  | cons x a ih =>
    rw [findCrlf] at ha
    rw [List.cons_append, findCrlf] at h
    split_ifs at ha with hx
    split_ifs at h with hx'
    · cases h
      cases a with
      | nil => exact le_rfl
      | cons y a => exact absurd hx' hx
    · obtain ⟨pos', hpos, rfl⟩ := Option.map_eq_some_iff.1 h
      have hle := ih (Option.map_eq_none_iff.1 ha) hpos
      simp only [List.length_cons]
      omega

/-! ## A long line is not forgotten -/

def Long (s : ChunkedState ε) : Prop := s.long = true

theorem readLine_long {s : ChunkedState ε} (hs : Long s) : Long (final (readLine.run s)) := by
  have hfrom : ∀ (inner : List (Except ε Bytes)) (buf : Bytes), Long (final (readLineFrom s inner buf)) := by
    intro inner
    induction inner with
    | nil =>
      intro buf
      unfold readLineFrom
      split
      · simp only
        split <;> simp [final, Long, show s.long = true from hs]
      · split_ifs <;> exact hs
    | cons piece inner ih =>
      intro buf
      unfold readLineFrom
      split
      · simp only
        split <;> simp [final, Long, show s.long = true from hs]
      · split_ifs
        · exact hs
        · cases piece with
          | ok chunk => exact ih _
          | error e => exact hs
  exact hfrom s.inner s.buf

theorem readExact_long {n : ℕ} {s : ChunkedState ε} (hs : Long s) : Long (final ((readExact n).run s)) := by
  have hfrom : ∀ (inner : List (Except ε Bytes)) (buf : Bytes), Long (final (readExactFrom n s inner buf)) := by
    intro inner
    induction inner with
    | nil =>
      intro buf
      unfold readExactFrom
      split_ifs <;> exact hs
    | cons piece inner ih =>
      intro buf
      unfold readExactFrom
      split_ifs
      · exact hs
      · cases piece with
        | ok chunk => exact ih _
        | error e => exact hs
  exact hfrom s.inner s.buf

/-! ## Side by side -/

/-- how the bodies of two states are cut, and what the decoder's readers make of it -/
structure Slicing (R : ChunkedState ε → ChunkedState ε → Prop) (keep : ChunkedState ε → Prop) (stop : Abort ε → Prop) : Prop where
  fields : ∀ s t, R s t → s = { t with inner := s.inner, buf := s.buf, long := s.long }
  rest : ∀ s t, R s t → s.rest = t.rest
  kept : ∀ s t, R s t → keep t
  others : ∀ s t signing hashed finished trailer, R s t →
    R { s with signing := signing, checksumHasher := hashed, finished := finished, trailer := trailer }
      { t with signing := signing, checksumHasher := hashed, finished := finished, trailer := trailer }
  readLine : Lockstep R keep Long stop readLine
  readExact : ∀ n, Lockstep R keep Long stop (readExact n)

namespace Slicing

variable {R : ChunkedState ε → ChunkedState ε → Prop} {keep : ChunkedState ε → Prop} {stop : Abort ε → Prop}
  (h : Slicing R keep stop)

include h

theorem verifySignature (sig : Option String) (sts : Signing → String) :
    Lockstep R keep Long stop (verifySignature H sig sts : Decoder ε Unit) := by
  refine Lockstep.bind (Lockstep.gets fun s t hst => by rw [h.fields s t hst]) fun o => ?_
  cases o with
  | none => exact Lockstep.pure _
  | some signing =>
    cases sig with
    | none => exact Lockstep.throw h.kept _
    | some declared =>
      refine Lockstep.ite (Lockstep.modify (fun s t hst => ?_) fun s hs => hs) (Lockstep.throw h.kept _)
      have hf := h.others s t (some { signing with prevSignature := declared }) t.checksumHasher t.finished t.trailer hst
      rw [h.fields s t hst] at hf ⊢
      exact hf

theorem trailerLines (n : ℕ) (t : TrailerBlock) : Lockstep R keep Long stop (trailerLines n t : Decoder ε TrailerBlock) := by
  induction n generalizing t with
  | zero => exact Lockstep.throw h.kept _
  | succ n ih => exact Lockstep.bind h.readLine fun line => Lockstep.ite (Lockstep.pure _) (ih _)

theorem readTrailer : Lockstep R keep Long stop (readTrailer H : Decoder ε (String → Option String)) := by
  refine Lockstep.bind (Lockstep.gets fun s t hst => by rw [h.rest s t hst]) fun rest => ?_
  refine Lockstep.bind (h.trailerLines _ _) fun t => ?_
  refine Lockstep.bind (h.verifySignature H _ _) fun _ => ?_
  refine Lockstep.bind (Lockstep.modify (fun s u hsu => ?_) fun s hs => hs) fun _ => Lockstep.pure _
  have hf := h.others s u u.signing u.checksumHasher u.finished (some t.content) hsu
  rw [h.fields s u hsu] at hf ⊢
  exact hf

theorem endBlock (expect : Bool) : Lockstep R keep Long stop (endBlock H expect : Decoder ε (String → Option String)) := by
  cases expect with
  | true => exact h.readTrailer H
  | false => exact Lockstep.bind h.readLine fun line => Lockstep.ite (Lockstep.pure _) (Lockstep.throw h.kept _)

theorem terminalFrame (sig : Option String) : Lockstep R keep Long stop (terminalFrame H sig : Decoder ε (Option Bytes)) := by
  refine Lockstep.bind (h.verifySignature H _ _) fun _ => ?_
  refine Lockstep.bind (Lockstep.gets fun s t hst => by rw [h.fields s t hst]) fun expect => ?_
  refine Lockstep.bind (h.endBlock H _) fun values => ?_
  refine Lockstep.bind (Lockstep.gets fun s t hst => by rw [h.fields s t hst]) fun checked => ?_
  refine Lockstep.ite ?_ (Lockstep.throw h.kept _)
  refine Lockstep.bind (Lockstep.modify (fun s t hst => ?_) fun s hs => hs) fun _ => Lockstep.pure _
  have hf := h.others s t t.signing t.checksumHasher true t.trailer hst
  rw [h.fields s t hst] at hf ⊢
  exact hf

theorem dataFrame (sig : Option String) (n : ℕ) : Lockstep R keep Long stop (dataFrame H sig n : Decoder ε (Option Bytes)) := by
  refine Lockstep.bind (h.readExact _) fun data => Lockstep.bind (h.readExact _) fun trailing => ?_
  refine Lockstep.ite ?_ (Lockstep.throw h.kept _)
  refine Lockstep.bind (h.verifySignature H _ _) fun _ => ?_
  refine Lockstep.bind (Lockstep.modify (fun s t hst => ?_) fun s hs => hs) fun _ => Lockstep.pure _
  have hf := h.others s t t.signing (t.checksumHasher.map (· ++ data)) t.finished t.trailer hst
  rw [h.fields s t hst] at hf ⊢
  exact hf

theorem frame (line : String) : Lockstep R keep Long stop (frame H line : Decoder ε (Option Bytes)) := by
  rw [ChunkedBody.frame]
  simp only
  split
  · exact Lockstep.throw h.kept _
  · refine Lockstep.bind (Lockstep.gets fun s t hst => by rw [h.fields s t hst]) fun maxFrameBytes => ?_
    exact Lockstep.ite (Lockstep.throw h.kept _) (Lockstep.ite (h.terminalFrame H _) (h.dataFrame H _ _))

theorem nextChunkedFrame : Lockstep R keep Long stop (nextChunkedFrame H : Decoder ε (Option Bytes)) := by
  refine Lockstep.bind (Lockstep.gets fun s t hst => by rw [h.fields s t hst]) fun finished => ?_
  exact Lockstep.ite (Lockstep.pure _) (Lockstep.bind h.readLine fun line => h.frame H line)

end Slicing

/-! ## Cuttings -/

def tooLong : Abort ε := .s3 (invalidArgument "aws-chunked frame header too long")

def truncated : Abort ε := .s3 (invalidArgument "truncated aws-chunked body")

/-- the same decoder; the second one has all of the body at hand -/
structure Beside (s t : ChunkedState ε) : Prop where
  fields : s = { t with inner := s.inner, buf := s.buf, long := s.long }
  whole : t.inner = []

/-- the body, in any pieces -/
structure Cut (s t : ChunkedState ε) : Prop extends Beside s t where
  pieces : ∀ p ∈ s.inner, ∃ b, p = .ok b
  rest : s.rest = t.buf

section Readers

variable {s t : ChunkedState ε}

/-- a line has been taken off the buffer -/
def taken (s : ChunkedState ε) (inner : List (Except ε Bytes)) (buf : Bytes) (pos : ℕ) : ChunkedState ε :=
  { s with inner := inner, buf := buf.drop (pos + 2), long := s.long || MAX_CHUNK_HEADER_LINE_BYTES ≤ pos }

theorem readLineFrom_of_some (s : ChunkedState ε) (inner : List (Except ε Bytes)) {buf : Bytes} {pos : ℕ} (h : findCrlf buf = some pos) :
    (∃ line, fromUtf8 (buf.take pos) = some line ∧ readLineFrom s inner buf = .ok line (taken s inner buf pos)) ∨
      fromUtf8 (buf.take pos) = none ∧
        readLineFrom s inner buf = .error (.s3 (invalidArgument "malformed aws-chunked framing")) (taken s inner buf pos) := by
  unfold readLineFrom
  simp only [h]
  cases fromUtf8 (buf.take pos) with
  | some line => exact .inl ⟨line, rfl, rfl⟩
  | none => exact .inr ⟨rfl, rfl⟩

theorem readLineFrom_of_long (s : ChunkedState ε) (inner : List (Except ε Bytes)) {buf : Bytes} (h : findCrlf buf = none)
    (hlong : buf.length > MAX_CHUNK_HEADER_LINE_BYTES) :
    readLineFrom s inner buf = .error tooLong { s with inner := inner, buf := buf } := by
  unfold readLineFrom
  simp only [h, if_pos hlong]
  rfl

theorem readLineFrom_nil {buf : Bytes} (h : findCrlf buf = none) (hshort : ¬buf.length > MAX_CHUNK_HEADER_LINE_BYTES) :
    readLineFrom s [] buf = .error truncated { s with inner := [], buf := buf } := by
  unfold readLineFrom
  simp only [h, if_neg hshort]
  rfl

theorem readLineFrom_cons {inner : List (Except ε Bytes)} {buf chunk : Bytes} (h : findCrlf buf = none)
    (hshort : ¬buf.length > MAX_CHUNK_HEADER_LINE_BYTES) :
    readLineFrom s (.ok chunk :: inner) buf = readLineFrom s inner (buf ++ chunk) := by
  conv_lhs => unfold readLineFrom
  simp only [h, if_neg hshort]

/-- a line that is too long once it is all there -/
theorem long_of_late {pos : ℕ} (h : findCrlf t.buf = some pos) (hpos : MAX_CHUNK_HEADER_LINE_BYTES ≤ pos) :
    Long (final (readLine.run t)) := by
  have hrun : readLine.run t = readLineFrom t t.inner t.buf := rfl
  rw [hrun]
  rcases readLineFrom_of_some t t.inner h with ⟨line, -, hline⟩ | ⟨-, hline⟩
  · simp [hline, final, Long, taken, hpos]
  · simp [hline, final, Long, taken, hpos]

/-- a line whose end has arrived is the same line for the whole body -/
theorem readLine_taken (hst : Beside s t) {inner : List (Except ε Bytes)} {buf : Bytes}
    (hrest : buf ++ inner.flatMap pieceBytes = t.buf) {pos : ℕ} (h : findCrlf buf = some pos) :
    (∃ line, readLineFrom s inner buf = .ok line (taken s inner buf pos) ∧ readLine.run t = .ok line (taken t [] t.buf pos)) ∨
      ∃ e, readLineFrom s inner buf = .error e (taken s inner buf pos) ∧ readLine.run t = .error e (taken t [] t.buf pos) := by
  have hpos := findCrlf_bound h
  have hwhole : findCrlf t.buf = some pos := hrest ▸ findCrlf_append h
  have hsame : t.buf.take pos = buf.take pos := by rw [← hrest, List.take_append_of_le_length (by omega)]
  have hrun : readLine.run t = readLineFrom t [] t.buf := by
    rw [← hst.whole]
    rfl
  rw [hrun]
  rcases readLineFrom_of_some s inner h with ⟨line, hline, hs⟩ | ⟨hline, hs⟩
  · rcases readLineFrom_of_some t [] hwhole with ⟨line', hline', ht⟩ | ⟨hline', ht⟩
    · rw [hsame, hline, Option.some_inj] at hline'
      subst hline'
      exact .inl ⟨line, hs, ht⟩
    · rw [hsame, hline] at hline'
      cases hline'
  · rcases readLineFrom_of_some t [] hwhole with ⟨line', hline', ht⟩ | ⟨hline', ht⟩
    · rw [hsame, hline] at hline'
      cases hline'
    · exact .inr ⟨_, hs, ht⟩

theorem taken_cut (hst : Beside s t) {inner : List (Except ε Bytes)} {buf : Bytes} (hpieces : ∀ p ∈ inner, ∃ b, p = .ok b)
    (hrest : buf ++ inner.flatMap pieceBytes = t.buf) {pos : ℕ} (h : findCrlf buf = some pos) :
    Cut (taken s inner buf pos) (taken t [] t.buf pos) := by
  refine ⟨⟨?_, rfl⟩, hpieces, ?_⟩
  · have hfields := hst.fields
    rw [taken, taken]
    rw [hfields]
  · rw [ChunkedState.rest, taken, taken, ← hrest, List.drop_append_of_le_length (findCrlf_bound h)]

/-- the body's end, or too much of a line -/
theorem whole_of_none (ht : t.inner = []) (h : findCrlf t.buf = none) :
    ∃ t', readLine.run t = .error (if t.buf.length > MAX_CHUNK_HEADER_LINE_BYTES then tooLong else truncated) t' ∧ t'.long = t.long := by
  have hrun : readLine.run t = readLineFrom t [] t.buf := by
    rw [← ht]
    rfl
  rw [hrun]
  split_ifs with hlen
  · exact ⟨_, readLineFrom_of_long _ _ h hlen, rfl⟩
  · exact ⟨_, readLineFrom_nil h hlen, rfl⟩

/-- what the reader has refused as too long is a long line, or no line at all -/
theorem refused_long (hst : Beside s t) {buf rest : Bytes} (hrest : buf ++ rest = t.buf)
    (h : findCrlf buf = none) (hlong : buf.length > MAX_CHUNK_HEADER_LINE_BYTES) :
    Long (final (readLine.run t)) ∨ ∃ t', readLine.run t = .error tooLong t' ∧ t'.long = t.long := by
  cases hwhole : findCrlf t.buf with
  | some pos =>
    rw [← hrest] at hwhole
    have hlate := findCrlf_late h hwhole
    rw [hrest] at hwhole
    exact .inl (long_of_late hwhole (by omega))
  | none =>
    obtain ⟨t', ht', hsame⟩ := whole_of_none hst.whole hwhole
    have hlen : t.buf.length > MAX_CHUNK_HEADER_LINE_BYTES := by
      rw [← hrest, List.length_append]
      omega
    rw [if_pos hlen] at ht'
    exact .inr ⟨t', ht', hsame⟩

theorem readLine_cut (hst : Beside s t) (inner : List (Except ε Bytes)) (buf : Bytes) (hpieces : ∀ p ∈ inner, ∃ b, p = .ok b)
    (hrest : buf ++ inner.flatMap pieceBytes = t.buf) :
    (∃ e s', readLineFrom s inner buf = .error e s' ∧ e = tooLong ∧ Long (final (readLine.run t))) ∨
      (∃ line s' t', readLineFrom s inner buf = .ok line s' ∧ readLine.run t = .ok line t' ∧ Cut s' t') ∨
      ∃ e s' t', readLineFrom s inner buf = .error e s' ∧ readLine.run t = .error e t' ∧ True := by
  induction inner generalizing buf with
  | nil =>
    cases h : findCrlf buf with
    | some pos =>
      rcases readLine_taken hst hrest h with ⟨line, hs, ht⟩ | ⟨e, hs, ht⟩
      · exact .inr (.inl ⟨line, _, _, hs, ht, taken_cut hst hpieces hrest h⟩)
      · exact .inr (.inr ⟨e, _, _, hs, ht, trivial⟩)
    | none =>
      have hbuf : buf = t.buf := by rw [← hrest, List.flatMap_nil, List.append_nil]
      obtain ⟨t', ht, -⟩ := whole_of_none hst.whole (hbuf ▸ h)
      rw [← hbuf] at ht
      by_cases hlen : buf.length > MAX_CHUNK_HEADER_LINE_BYTES
      · rw [if_pos hlen] at ht
        exact .inr (.inr ⟨_, _, _, readLineFrom_of_long _ _ h hlen, ht, trivial⟩)
      · rw [if_neg hlen] at ht
        exact .inr (.inr ⟨_, _, _, readLineFrom_nil h hlen, ht, trivial⟩)
  | cons piece inner ih =>
    cases h : findCrlf buf with
    | some pos =>
      rcases readLine_taken hst hrest h with ⟨line, hs, ht⟩ | ⟨e, hs, ht⟩
      · exact .inr (.inl ⟨line, _, _, hs, ht, taken_cut hst hpieces hrest h⟩)
      · exact .inr (.inr ⟨e, _, _, hs, ht, trivial⟩)
    | none =>
      by_cases hlen : buf.length > MAX_CHUNK_HEADER_LINE_BYTES
      · have hs := readLineFrom_of_long s (piece :: inner) h hlen
        rcases refused_long hst hrest h hlen with hlate | ⟨t', ht, -⟩
        · exact .inl ⟨_, _, hs, rfl, hlate⟩
        · exact .inr (.inr ⟨_, _, _, hs, ht, trivial⟩)
      · obtain ⟨chunk, rfl⟩ := hpieces piece List.mem_cons_self
        rw [readLineFrom_cons h hlen]
        refine ih (buf ++ chunk) (fun p hp => hpieces p (List.mem_cons_of_mem _ hp)) ?_
        rw [← hrest, List.flatMap_cons, pieceBytes, List.append_assoc]

theorem readExactFrom_of_le {n : ℕ} {inner : List (Except ε Bytes)} {buf : Bytes} (hn : n ≤ buf.length) :
    readExactFrom n s inner buf = .ok (buf.take n) { s with inner := inner, buf := buf.drop n } := by
  unfold readExactFrom
  simp only [if_pos hn]

theorem readExactFrom_nil {n : ℕ} {buf : Bytes} (hn : ¬n ≤ buf.length) :
    readExactFrom n s [] buf = .error truncated { s with inner := [], buf := buf } := by
  unfold readExactFrom
  simp only [if_neg hn]
  rfl

theorem readExactFrom_cons {n : ℕ} {inner : List (Except ε Bytes)} {buf chunk : Bytes} (hn : ¬n ≤ buf.length) :
    readExactFrom n s (.ok chunk :: inner) buf = readExactFrom n s inner (buf ++ chunk) := by
  conv_lhs => unfold readExactFrom
  simp only [if_neg hn]

theorem run_readExact (ht : t.inner = []) (n : ℕ) : (readExact n).run t = readExactFrom n t [] t.buf := by
  rw [← ht]
  rfl

theorem readExact_cut (hst : Beside s t) (n : ℕ) (inner : List (Except ε Bytes)) (buf : Bytes) (hpieces : ∀ p ∈ inner, ∃ b, p = .ok b)
    (hrest : buf ++ inner.flatMap pieceBytes = t.buf) :
    (∃ data s' t', readExactFrom n s inner buf = .ok data s' ∧ (readExact n).run t = .ok data t' ∧ Cut s' t') ∨
      ∃ e s' t', readExactFrom n s inner buf = .error e s' ∧ (readExact n).run t = .error e t' ∧ True := by
  rw [run_readExact hst.whole]
  induction inner generalizing buf with
  | nil =>
    rw [List.flatMap_nil, List.append_nil] at hrest
    rw [hrest]
    by_cases hn : n ≤ t.buf.length
    · rw [readExactFrom_of_le hn, readExactFrom_of_le hn]
      refine .inl ⟨_, _, _, rfl, rfl, ⟨?_, rfl⟩, nofun, by simp [ChunkedState.rest]⟩
      rw [hst.fields]
    · rw [readExactFrom_nil hn, readExactFrom_nil hn]
      exact .inr ⟨_, _, _, rfl, rfl, trivial⟩
  | cons piece inner ih =>
    by_cases hn : n ≤ buf.length
    · have hlen : n ≤ t.buf.length := by
        rw [← hrest, List.length_append]
        omega
      rw [readExactFrom_of_le hn, readExactFrom_of_le hlen, ← hrest, List.take_append_of_le_length hn,
        List.drop_append_of_le_length hn]
      refine .inl ⟨_, _, _, rfl, rfl, ⟨?_, rfl⟩, hpieces, rfl⟩
      rw [hst.fields]
    · obtain ⟨chunk, rfl⟩ := hpieces piece List.mem_cons_self
      rw [readExactFrom_cons hn]
      refine ih (buf ++ chunk) (fun p hp => hpieces p (List.mem_cons_of_mem _ hp)) ?_
      rw [← hrest, List.flatMap_cons, pieceBytes, List.append_assoc]

end Readers

/-- any cutting, beside the whole body at hand -/
theorem cut_slicing : Slicing (Cut (ε := ε)) (fun _ => True) (· = tooLong) where
  fields s t h := h.fields
  rest s t h := by rw [h.rest, ChunkedState.rest, h.whole, List.flatMap_nil, List.append_nil]
  kept _ _ _ := trivial
  others s t signing hashed finished trailer h := by
    refine ⟨⟨?_, h.whole⟩, h.pieces, h.rest⟩
    rw [h.fields]
  readLine := ⟨fun s hs => readLine_long hs, fun s t h => readLine_cut h.toBeside s.inner s.buf h.pieces h.rest⟩
  readExact n := ⟨fun s hs => readExact_long hs, fun s t h => .inr (readExact_cut h.toBeside n s.inner s.buf h.pieces h.rest)⟩

/-! ## Byte by byte -/

/-- nothing is buffered between two reads, and no line as long as the limit has been read -/
structure Bytewise (s t : ChunkedState ε) : Prop extends Beside s t where
  buf : s.buf = []
  bytes : s.inner = t.buf.map fun b => .ok [b]
  short : t.long = false

section Bytes

variable {s t : ChunkedState ε}

theorem pieceBytes_bytes (w : Bytes) : (w.map fun b => (.ok [b] : Except ε Bytes)).flatMap pieceBytes = w := by
  induction w with
  | nil => rfl
  | cons b w ih =>
    rw [List.map_cons, List.flatMap_cons, ih]
    rfl

/-- a line end that a byte completes is at the end -/
theorem findCrlf_snoc {a : Bytes} {b : UInt8} {pos : ℕ} (ha : findCrlf a = none) (h : findCrlf (a ++ [b]) = some pos) :
    pos + 1 = a.length := by
  have hlate := findCrlf_late ha h
  have hbound := findCrlf_bound h
  rw [List.length_append, List.length_singleton] at hbound
  omega

theorem readLine_bytewise (hst : Beside s t) (hshort : t.long = false) (rest buf : Bytes) (hbuf : findCrlf buf = none)
    (hrest : buf ++ rest = t.buf) :
    (∃ e s', readLineFrom s (rest.map fun b => .ok [b]) buf = .error e s' ∧ e = tooLong ∧ Long (final (readLine.run t))) ∨
      (∃ line s' t', readLineFrom s (rest.map fun b => .ok [b]) buf = .ok line s' ∧ readLine.run t = .ok line t' ∧ Bytewise s' t') ∨
      ∃ e s' t', readLineFrom s (rest.map fun b => .ok [b]) buf = .error e s' ∧ readLine.run t = .error e t' ∧ t'.long = false := by
  induction rest generalizing buf with
  | nil =>
    rw [List.append_nil] at hrest
    subst hrest
    obtain ⟨t', ht, hlong⟩ := whole_of_none hst.whole hbuf
    by_cases hlen : t.buf.length > MAX_CHUNK_HEADER_LINE_BYTES
    · rw [if_pos hlen] at ht
      exact .inr (.inr ⟨_, _, _, readLineFrom_of_long _ _ hbuf hlen, ht, hlong.trans hshort⟩)
    · rw [if_neg hlen] at ht
      exact .inr (.inr ⟨_, _, _, readLineFrom_nil hbuf hlen, ht, hlong.trans hshort⟩)
  | cons b rest ih =>
    by_cases hlen : buf.length > MAX_CHUNK_HEADER_LINE_BYTES
    · have hs := readLineFrom_of_long s ((b :: rest).map fun b => .ok [b]) hbuf hlen
      rcases refused_long hst hrest hbuf hlen with hlate | ⟨t', ht, hlong⟩
      · exact .inl ⟨_, _, hs, rfl, hlate⟩
      · exact .inr (.inr ⟨_, _, _, hs, ht, hlong.trans hshort⟩)
    · rw [List.map_cons, readLineFrom_cons hbuf hlen]
      have hnext : buf ++ [b] ++ rest = t.buf := by rw [← hrest, List.append_assoc, List.singleton_append]
      cases h : findCrlf (buf ++ [b]) with
      | none => exact ih (buf ++ [b]) h hnext
      | some pos =>
        have hpos := findCrlf_snoc hbuf h
        have hall : buf ++ [b] ++ (rest.map fun b => (.ok [b] : Except ε Bytes)).flatMap pieceBytes = t.buf := by
          rw [pieceBytes_bytes, hnext]
        have htaken : (taken t [] t.buf pos).long = false := by
          change (t.long || decide (MAX_CHUNK_HEADER_LINE_BYTES ≤ pos)) = false
          rw [hshort, Bool.false_or, decide_eq_false_iff_not]
          omega
        have hdrop : (buf ++ [b]).drop (pos + 2) = [] := by
          rw [List.drop_eq_nil_iff, List.length_append, List.length_singleton]
          omega
        rcases readLine_taken hst hall h with ⟨line, hs, ht⟩ | ⟨e, hs, ht⟩
        · refine .inr (.inl ⟨line, _, _, hs, ht, ⟨?_, rfl⟩, hdrop, ?_, htaken⟩)
          · rw [taken, taken, hst.fields]
          · change (rest.map fun b => (.ok [b] : Except ε Bytes)) = (t.buf.drop (pos + 2)).map fun b => .ok [b]
            rw [← hnext, List.drop_append, hdrop, List.nil_append, show pos + 2 - (buf ++ [b]).length = 0 by
              rw [List.length_append, List.length_singleton]
              omega, List.drop_zero]
        · exact .inr (.inr ⟨e, _, _, hs, ht, htaken⟩)

theorem readExact_bytewise (hst : Beside s t) (hshort : t.long = false) (n : ℕ) (rest buf : Bytes) (hbuf : buf.length ≤ n)
    (hrest : buf ++ rest = t.buf) :
    (∃ data s' t', readExactFrom n s (rest.map fun b => .ok [b]) buf = .ok data s' ∧ (readExact n).run t = .ok data t' ∧
        Bytewise s' t') ∨
      ∃ e s' t', readExactFrom n s (rest.map fun b => .ok [b]) buf = .error e s' ∧ (readExact n).run t = .error e t' ∧
        t'.long = false := by
  rw [run_readExact hst.whole]
  induction rest generalizing buf with
  | nil =>
    rw [List.append_nil] at hrest
    subst hrest
    by_cases hn : n ≤ t.buf.length
    · have hdrop : t.buf.drop n = [] := by rw [List.drop_eq_nil_iff]; omega
      rw [List.map_nil, readExactFrom_of_le hn, readExactFrom_of_le hn, hdrop]
      refine .inl ⟨_, _, _, rfl, rfl, ⟨?_, rfl⟩, rfl, rfl, hshort⟩
      rw [hst.fields]
    · rw [List.map_nil, readExactFrom_nil hn, readExactFrom_nil hn]
      exact .inr ⟨_, _, _, rfl, rfl, hshort⟩
  | cons b rest ih =>
    by_cases hn : n ≤ buf.length
    · have hlen : n ≤ t.buf.length := by
        rw [← hrest, List.length_append]
        omega
      have hdrop : buf.drop n = [] := by rw [List.drop_eq_nil_iff]; omega
      rw [readExactFrom_of_le hn, readExactFrom_of_le hlen, ← hrest, List.take_append_of_le_length hn,
        List.drop_append_of_le_length hn, hdrop]
      refine .inl ⟨_, _, _, rfl, rfl, ⟨?_, rfl⟩, rfl, rfl, hshort⟩
      rw [hst.fields]
    · rw [List.map_cons, readExactFrom_cons hn]
      refine ih (buf ++ [b]) ?_ ?_
      · rw [List.length_append, List.length_singleton]
        omega
      · rw [← hrest, List.append_assoc, List.singleton_append]

end Bytes

/-- single bytes, beside the whole body at hand: a line as long as the limit is always refused -/
theorem bytewise_slicing : Slicing (Bytewise (ε := ε)) (fun t => t.long = false) (· = tooLong) where
  fields s t h := h.fields
  rest s t h := by rw [ChunkedState.rest, ChunkedState.rest, h.buf, h.bytes, h.whole, pieceBytes_bytes, List.nil_append,
    List.flatMap_nil, List.append_nil]
  kept _ _ h := h.short
  others s t signing hashed finished trailer h := by
    refine ⟨⟨?_, h.whole⟩, h.buf, h.bytes, h.short⟩
    rw [h.fields]
  readLine := by
    refine ⟨fun s hs => readLine_long hs, fun s t h => ?_⟩
    have hline := readLine_bytewise h.toBeside h.short t.buf [] rfl (List.nil_append _)
    rwa [← h.bytes, ← h.buf] at hline
  readExact n := by
    refine ⟨fun s hs => readExact_long hs, fun s t h => .inr ?_⟩
    have hdata := readExact_bytewise h.toBeside h.short n t.buf [] (Nat.zero_le n) (List.nil_append _)
    rwa [← h.bytes, ← h.buf] at hdata

/-! ## One piece -/

/-- what is at hand is still to come, in one piece -/
def unread (t : ChunkedState ε) : ChunkedState ε := { t with inner := [.ok t.buf], buf := [] }

def OnePiece (s t : ChunkedState ε) : Prop := s = t ∨ t.inner = [] ∧ s = unread t

section Pieces

variable {s t : ChunkedState ε}

theorem readLine_onePiece (h : OnePiece s t) : readLine.run s = readLine.run t := by
  rcases h with rfl | ⟨ht, rfl⟩
  · rfl
  · have hfill : readLine.run (unread t) = readLineFrom (unread t) [] ([] ++ t.buf) :=
      readLineFrom_cons (show findCrlf [] = none from rfl) (Nat.not_lt_zero _)
    have hwhole : readLine.run t = readLineFrom t [] t.buf := by
      rw [← ht]
      rfl
    rw [hfill, hwhole, List.nil_append]
    unfold readLineFrom
    rfl

theorem readExact_onePiece (h : OnePiece s t) (n : ℕ) : (∃ data s' t', (readExact n).run s = .ok data s' ∧
      (readExact n).run t = .ok data t' ∧ OnePiece s' t') ∨
    ∃ e s' t', (readExact n).run s = .error e s' ∧ (readExact n).run t = .error e t' ∧ True := by
  rcases h with rfl | ⟨ht, rfl⟩
  · cases hs : (readExact n).run s with
    | ok data s' => exact .inl ⟨data, s', s', rfl, rfl, .inl rfl⟩
    | error e s' => exact .inr ⟨e, s', s', rfl, rfl, trivial⟩
  · have hunread : (readExact n).run (unread t) = readExactFrom n (unread t) [.ok t.buf] [] := rfl
    rw [hunread, run_readExact ht]
    by_cases hn : n ≤ ([] : Bytes).length
    · -- no byte is asked for, and none arrives
      obtain rfl := Nat.le_zero.1 hn
      rw [readExactFrom_of_le hn, readExactFrom_of_le (Nat.zero_le _)]
      exact .inl ⟨[], _, _, rfl, rfl, .inr ⟨rfl, rfl⟩⟩
    · rw [readExactFrom_cons hn, List.nil_append]
      by_cases hlen : n ≤ t.buf.length
      · rw [readExactFrom_of_le hlen, readExactFrom_of_le hlen]
        exact .inl ⟨_, _, _, rfl, rfl, .inl rfl⟩
      · rw [readExactFrom_nil hlen, readExactFrom_nil hlen]
        exact .inr ⟨_, _, _, rfl, rfl, trivial⟩

end Pieces

theorem piece_slicing : Slicing (OnePiece (ε := ε)) (fun _ => True) (fun _ => False) where
  fields s t h := by rcases h with rfl | ⟨-, rfl⟩ <;> rfl
  rest s t h := by
    rcases h with rfl | ⟨ht, rfl⟩
    · rfl
    · simp [ChunkedState.rest, unread, pieceBytes, ht]
  kept _ _ _ := trivial
  others s t signing hashed finished trailer h := by
    rcases h with rfl | ⟨ht, rfl⟩
    · exact .inl rfl
    · exact .inr ⟨ht, rfl⟩
  readLine := by
    refine ⟨fun s hs => readLine_long hs, fun s t h => .inr ?_⟩
    rw [readLine_onePiece h]
    cases ht : readLine.run t with
    | ok line t' => exact .inl ⟨line, t', t', rfl, rfl, .inl rfl⟩
    | error e t' => exact .inr ⟨e, t', t', rfl, rfl, trivial⟩
  readExact n := ⟨fun s hs => readExact_long hs, fun s t h => .inr (readExact_onePiece h n)⟩

/-! ## Streams -/

section Streams

variable {H} {s t s' t' : ChunkedState ε} {frames : List Bytes} {o : Outcome ε} {data : Bytes}

theorem yields_error {e : Abort ε} (h : (nextChunkedFrame H).run s = .error e s') : Yields H s [] (.failed e) :=
  ⟨1, by simp only [polls, h]⟩

theorem yields_end (h : (nextChunkedFrame H).run s = .ok none s') : Yields H s [] .complete := ⟨1, by simp only [polls, h]⟩

theorem yields_frame (h : (nextChunkedFrame H).run s = .ok (some data) s') (hrest : Yields H s' frames o) :
    Yields H s (data :: frames) o := by
  obtain ⟨n, hn⟩ := hrest
  exact ⟨n + 1, by simp only [polls, h, hn]⟩

theorem frame_ne_nil (h : (nextChunkedFrame H).run s = .ok (some data) s') : data ≠ [] := by
  rcases nextChunkedFrame_ok h with ⟨-, ho⟩ | ⟨-, ⟨data', ho, hframe⟩ | ⟨ho, -⟩⟩
  · cases ho
  · cases ho
    exact hframe.nonempty
  · cases ho

theorem SameResult.symm (h : SameResult H s t) : SameResult H t s := by
  obtain ⟨frames, frames', o, o', hs, ht, hdata, hkind⟩ := h
  exact ⟨frames', frames, o', o, ht, hs, hdata.symm, hkind.symm⟩

theorem SameResult.trans {u : ChunkedState ε} (h : SameResult H s t) (h' : SameResult H t u) : SameResult H s u := by
  obtain ⟨frames, frames', o, o', hs, ht, hdata, hkind⟩ := h
  obtain ⟨mid, frames'', om, o'', ht', hu, hdata', hkind'⟩ := h'
  obtain ⟨rfl, rfl⟩ := yields_unique ht ht'
  exact ⟨frames, frames'', o, o'', hs, hu, hdata.trans hdata', hkind.trans hkind'⟩

/-- after the same frame, the rests compare as the wholes do -/
theorem sameResult_frame (hs : (nextChunkedFrame H).run s = .ok (some data) s') (ht : (nextChunkedFrame H).run t = .ok (some data) t') :
    SameResult H s t ↔ SameResult H s' t' := by
  constructor
  · rintro ⟨frames, frames', o, o', hys, hyt, hdata, hkind⟩
    obtain ⟨rest, p, hrest⟩ := polls_total H s'
    obtain ⟨rest', p', hrest'⟩ := polls_total H t'
    obtain ⟨rfl, rfl⟩ := yields_unique hys (yields_frame hs hrest)
    obtain ⟨rfl, rfl⟩ := yields_unique hyt (yields_frame ht hrest')
    rw [List.flatten_cons, List.flatten_cons, List.append_cancel_left_eq] at hdata
    exact ⟨rest, rest', _, _, hrest, hrest', hdata, hkind⟩
  · rintro ⟨frames, frames', o, o', hys, hyt, hdata, hkind⟩
    exact ⟨data :: frames, data :: frames', o, o', yields_frame hs hys, yields_frame ht hyt,
      by rw [List.flatten_cons, List.flatten_cons, hdata], hkind⟩

theorem tooLong_kind : kind (.failed tooLong : Outcome ε) = .refused "InvalidArgument" := rfl

/-- beside a body whose frames are tame, whatever stops early stops with the same kind of error -/
theorem same_of_tame {R : ChunkedState ε → ChunkedState ε → Prop} {keep : ChunkedState ε → Prop} {stop : Abort ε → Prop}
    (h : Slicing R keep stop) (hstop : ∀ e, stop e → e = tooLong) (hst : R s t)
    (htame : ∀ e, stop e → ∀ n u, after H n t = some u → Tame H u) : SameResult H s t := by
  obtain ⟨frames, o, n, hn⟩ := polls_total H t
  induction n generalizing s t frames with
  | zero => cases hn
  | succ n ih =>
    rcases (h.nextChunkedFrame H).pair s t hst with ⟨e, s', hs, he, hlong⟩ | ⟨a, s', t', hs, ht, hst'⟩ | ⟨e, s', t', hs, ht, -⟩
    · obtain ⟨e', t', ht, hcode⟩ := htame e he 0 t rfl hlong
      rw [hstop e he] at hs
      refine ⟨[], [], _, _, yields_error hs, yields_error ht, rfl, ?_⟩
      rw [tooLong_kind, kind, hcode]
    · cases a with
      | none => exact ⟨[], [], _, _, yields_end hs, yields_end ht, rfl, rfl⟩
      | some data =>
        rw [sameResult_frame hs ht]
        simp only [polls, ht, Prod.mk.injEq] at hn
        refine ih hst' (fun e he m u hu => htame e he (m + 1) u ?_) _ (Prod.ext rfl hn.2)
        simp only [after, ht, hu]
    · exact ⟨[], [], _, _, yields_error hs, yields_error ht, rfl, rfl⟩

/-- a stream that is refused at once is another one than a stream of a frame that is not tame -/
theorem not_same_of_wild (hs : (nextChunkedFrame H).run s = .error tooLong s') (htame : ¬Tame H t) : ¬SameResult H s t := by
  rintro ⟨frames, frames', o, o', hys, hyt, hdata, hkind⟩
  obtain ⟨rfl, rfl⟩ := yields_unique hys (yields_error hs)
  rw [tooLong_kind] at hkind
  refine htame fun _ => ?_
  cases ht : (nextChunkedFrame H).run t with
  | error e t' =>
    obtain ⟨-, rfl⟩ := yields_unique hyt (yields_error ht)
    cases e with
    | s3 e =>
      rw [kind, Kind.refused.injEq] at hkind
      exact ⟨e, t', rfl, hkind.symm⟩
    | transport e => cases hkind
  | ok a t' =>
    cases a with
    | none =>
      obtain ⟨-, rfl⟩ := yields_unique hyt (yields_end ht)
      cases hkind
    | some data =>
      obtain ⟨rest, p, hrest⟩ := polls_total H t'
      obtain ⟨rfl, -⟩ := yields_unique hyt (yields_frame ht hrest)
      rw [List.flatten_cons, List.flatten_nil] at hdata
      exact absurd (List.append_eq_nil_iff.1 hdata.symm).1 (frame_ne_nil ht)

/-- single bytes tell a frame that is not tame -/
theorem bytewise_not_same (hst : Bytewise s t) {n : ℕ} {u : ChunkedState ε} (hu : after H n t = some u) (hwild : ¬Tame H u) :
    ¬SameResult H s t := by
  induction n generalizing s t with
  | zero =>
    rw [after, Option.some_inj] at hu
    subst hu
    rcases (bytewise_slicing.nextChunkedFrame H).pair s t hst with
      ⟨e, s', hs, rfl, -⟩ | ⟨a, s', t', hs, ht, hst'⟩ | ⟨e, s', t', hs, ht, hkeep⟩
    · exact not_same_of_wild hs hwild
    · refine absurd (fun hlong => ?_) hwild
      rw [ht, LockstepLogic.final, hst'.short] at hlong
      cases hlong
    · refine absurd (fun hlong => ?_) hwild
      rw [ht, LockstepLogic.final, hkeep] at hlong
      cases hlong
  | succ n ih =>
    rw [after] at hu
    split at hu
    case h_1 data t' ht =>
      rcases (bytewise_slicing.nextChunkedFrame H).pair s t hst with
        ⟨e, s', hs, rfl, hlong⟩ | ⟨a, s', t'', hs, ht', hst'⟩ | ⟨e, s', t'', hs, ht', -⟩
      · refine not_same_of_wild hs fun htame => ?_
        obtain ⟨e', t'', ht', -⟩ := htame hlong
        rw [ht] at ht'
        cases ht'
      · rw [ht] at ht'
        cases ht'
        rw [sameResult_frame hs ht]
        exact ih hst' hu
      · rw [ht] at ht'
        cases ht'
    case h_2 => cases hu

end Streams

/-! ## All cuttings -/

section Cuttings

variable (o : ChunkedOptions)

theorem cut_sliced (cuts : List Bytes) : Cut (sliced cuts o : ChunkedState ε) (whole cuts.flatten o) where
  fields := rfl
  whole := rfl
  pieces p hp := by
    obtain ⟨b, -, rfl⟩ := List.mem_map.1 hp
    exact ⟨b, rfl⟩
  rest := by
    change [] ++ (cuts.map (.ok : Bytes → Except ε Bytes)).flatMap pieceBytes = cuts.flatten
    rw [List.nil_append, List.flatMap_map, List.flatten_eq_flatMap]
    rfl

theorem bytewise_sliced (w : Bytes) : Bytewise (sliced (w.map fun b => [b]) o : ChunkedState ε) (whole w o) where
  fields := rfl
  whole := rfl
  buf := rfl
  bytes := List.map_map
  short := rfl

theorem onePiece_sliced (w : Bytes) : OnePiece (sliced [w] o : ChunkedState ε) (whole w o) := .inr ⟨rfl, rfl⟩

variable {H o} {w : Bytes} {n : ℕ} {t : ChunkedState ε}

/-- one piece and single bytes: the two cuttings that a frame that is not tame sets apart -/
theorem not_same_of_not_tame (ht : after H n (whole w o) = some t) (hwild : ¬Tame H t) :
    ¬SameResult H (sliced [w] o : ChunkedState ε) (sliced (w.map fun b => [b]) o) := by
  intro h
  have hpiece : SameResult H (sliced [w] o : ChunkedState ε) (whole w o) :=
    same_of_tame piece_slicing nofun (onePiece_sliced o w) nofun
  exact bytewise_not_same (bytewise_sliced o w) ht hwild (h.symm.trans hpiece)

end Cuttings

theorem slicing_iff (w : Bytes) (o : ChunkedOptions) :
    (∀ cuts cuts' : List Bytes, cuts.flatten = w → cuts'.flatten = w → SameResult H (sliced cuts o : ChunkedState ε) (sliced cuts' o)) ↔
      ∀ n (t : ChunkedState ε), after H n (whole w o) = some t → Tame H t := by
  constructor
  · intro h n t ht
    by_contra hwild
    refine not_same_of_not_tame ht hwild (h _ _ ?_ ?_)
    · exact List.append_nil w
    · rw [← List.flatMap_def, List.flatMap_singleton']
  · rintro htame cuts cuts' rfl hcuts'
    have hcut := same_of_tame cut_slicing (fun e he => he) (cut_sliced o cuts) fun _ _ => htame
    rw [← hcuts'] at htame hcut
    have hcut' := same_of_tame cut_slicing (fun e he => he) (cut_sliced o cuts') fun _ _ => htame
    exact hcut.trans hcut'.symm

/-! ### A padded header -/

def sampleHashes : Hashes where
  sha256 _ := List.replicate 32 0
  hmacSha256 _ _ := List.replicate 32 0
  crc32 _ := List.replicate 4 0
  sha256_length _ := List.length_replicate
  hmacSha256_length := length_zeroDigest

/-- no signature, no trailer -/
def unsigned : ChunkedOptions := ⟨none, none, 16, false⟩

/-- a frame of size zero, and an extension that no one reads -/
def paddedHeader (n : ℕ) : String := String.ofList ('0' :: ';' :: List.replicate n 'a')

def paddedBody (n : ℕ) : Bytes := utf8 (paddedHeader n) ++ [13, 10, 13, 10]

theorem utf8_paddedHeader (n : ℕ) : utf8 (paddedHeader n) = 48 :: 59 :: List.replicate n 97 := by
  rw [paddedHeader, utf8_ofList, List.flatMap_cons, List.flatMap_cons, List.flatMap_replicate]
  change 48 :: 59 :: (List.replicate n [97]).flatten = _
  rw [List.flatten_replicate_singleton]

theorem findCrlf_plain {a : Bytes} (h : (13 : UInt8) ∉ a) (b : Bytes) : findCrlf (a ++ 13 :: 10 :: b) = some a.length := by
  induction a with
  | nil => rfl
  | cons x a ih =>
    rw [List.mem_cons, not_or] at h
    rw [List.cons_append, findCrlf, if_neg (fun hx => h.1 hx.1.symm), ih h.2]
    rfl

section Padded

variable {n : ℕ}

/-- what follows the header line; a long line has been read -/
def afterHeader : ChunkedState ε := { whole [13, 10] unsigned with long := true }

theorem readLine_padded (hn : MAX_CHUNK_HEADER_LINE_BYTES ≤ n) :
    readLine.run (whole (paddedBody n) unsigned : ChunkedState ε) = .ok (paddedHeader n) afterHeader := by
  have hplain : (13 : UInt8) ∉ utf8 (paddedHeader n) := by
    rw [utf8_paddedHeader]
    simp
  have hlen : (utf8 (paddedHeader n)).length = n + 2 := by
    rw [utf8_paddedHeader]
    simp
  have hfind : findCrlf (paddedBody n) = some (n + 2) := hlen ▸ findCrlf_plain hplain [13, 10]
  have htake : (paddedBody n).take (n + 2) = utf8 (paddedHeader n) := by
    rw [paddedBody, ← hlen, List.take_left]
  have hdrop : (paddedBody n).drop (n + 2 + 2) = [13, 10] := by
    rw [paddedBody, ← List.drop_drop, ← hlen, List.drop_left]
    rfl
  have htaken : taken (whole (paddedBody n) unsigned : ChunkedState ε) [] (paddedBody n) (n + 2) = afterHeader := by
    have hlong : (false || decide (MAX_CHUNK_HEADER_LINE_BYTES ≤ n + 2)) = true := decide_eq_true (by omega)
    rw [afterHeader, ← hlong, ← hdrop]
    rfl
  rw [← htaken]
  rcases readLineFrom_of_some (whole (paddedBody n) unsigned : ChunkedState ε) [] hfind with
    ⟨line, hline, h⟩ | ⟨hline, -⟩
  · rw [htake, fromUtf8_utf8] at hline
    cases hline
    exact h
  · rw [htake, fromUtf8_utf8] at hline
    cases hline

theorem readLine_blank : readLine.run (afterHeader : ChunkedState ε) = .ok "" { whole [] unsigned with long := true } := by
  rcases readLineFrom_of_some (afterHeader : ChunkedState ε) []
    (show findCrlf [13, 10] = some 0 from rfl) with ⟨line, hline, h⟩ | ⟨hline, -⟩
  · cases (fromUtf8_utf8 "").symm.trans hline
    exact h
  · cases (fromUtf8_utf8 "").symm.trans hline

theorem frame_padded : (frame sampleHashes (paddedHeader n)).run (afterHeader : ChunkedState ε) =
    .ok none { whole [] unsigned with long := true, finished := true } := by
  rw [frame, splitHeader, paddedHeader, String.toList_ofList]
  refine run_bind_ok.2 ⟨16, _, rfl, run_bind_ok.2 ⟨(), _, rfl, run_bind_ok.2 ⟨false, _, rfl, ?_⟩⟩⟩
  exact run_bind_ok.2 ⟨_, _, run_bind_ok.2 ⟨_, _, readLine_blank, rfl⟩, rfl⟩

theorem paddedBody_not_tame (hn : MAX_CHUNK_HEADER_LINE_BYTES ≤ n) :
    ¬Tame sampleHashes (whole (paddedBody n) unsigned : ChunkedState ε) := by
  have hrun : (nextChunkedFrame sampleHashes).run (whole (paddedBody n) unsigned : ChunkedState ε) =
      .ok none { whole [] unsigned with long := true, finished := true } :=
    run_bind_ok.2 ⟨false, _, rfl, run_bind_ok.2 ⟨_, _, readLine_padded hn, frame_padded⟩⟩
  intro htame
  obtain ⟨e, t', ht', -⟩ := htame (by rw [hrun]; rfl)
  rw [hrun] at ht'
  cases ht'

end Padded

/-- a header of which all but two bytes are padding is refused when its bytes come one by one -/
theorem padded_header_cut : ¬∀ (w : Bytes) (o : ChunkedOptions) (cuts cuts' : List Bytes), cuts.flatten = w → cuts'.flatten = w →
    SameResult sampleHashes (sliced cuts o : ChunkedState Empty) (sliced cuts' o) := by
  intro h
  have hwild : ¬Tame sampleHashes (whole (paddedBody 1024) unsigned : ChunkedState Empty) := paddedBody_not_tame le_rfl
  refine not_same_of_not_tame (n := 0) rfl hwild (h (paddedBody 1024) unsigned _ _ (List.append_nil _) ?_)
  rw [← List.flatMap_def, List.flatMap_singleton']

end Y2q.ChunkedSlicing
