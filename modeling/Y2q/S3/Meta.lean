/-
S3 headers and tags as labels (`s3/meta.rs`, `percent_decode` of `s3/sigv4.rs`).

System headers become `amz-content-type` and the like, `x-amz-meta-<name>` becomes `amz-meta-<name>`, and `amz-mpu-parts` is the number
of parts of an assembled object. Every other label is a tag.

- `labelsFromRequest`: the labels of a write. `labelsForCopy`: those that a copy keeps.
- `replaceTags`: what `PutObjectTagging` makes of an object's labels.
- `labelsFromRequest_ok`, `replaceTags_ok`: which labels these let through. Of tags only the length and the first letters are checked.
-/
import Mathlib.Tactic
import Y2q.Daemon.Labels

namespace Y2q.Meta

open Objects (LabelSet)
open Labels

/-! ## Percent signs -/

/-- a digit of `from_str_radix` -/
def hexDigit (b : UInt8) : Option ℕ :=
  if 48 ≤ b ∧ b ≤ 57 then some (b.toNat - 48)
  else if 97 ≤ b ∧ b ≤ 102 then some (b.toNat - 87)
  else if 65 ≤ b ∧ b ≤ 70 then some (b.toNat - 55)
  else none

/-- two digits; `from_str_radix` takes a plus sign for the first -/
def hexByte (a b : UInt8) : Option UInt8 :=
  if a = 43 then (hexDigit b).map UInt8.ofNat
  else (hexDigit a).bind fun x => (hexDigit b).map fun y => UInt8.ofNat (16 * x + y)

def percentBytes : Bytes → Bytes
  | 37 :: a :: b :: rest =>
    match hexByte a b with
    | some x => x :: percentBytes rest
    | none => 37 :: percentBytes (a :: b :: rest)
  | x :: rest => x :: percentBytes rest
  | [] => []

/-- the bytes that may follow the first byte of a character, up to the second one -/
def secondBytes (b : UInt8) : Option (UInt8 × UInt8 × ℕ) :=
  if 0xC2 ≤ b ∧ b ≤ 0xDF then some (0x80, 0xBF, 0)
  else if b = 0xE0 then some (0xA0, 0xBF, 1)
  else if b = 0xED then some (0x80, 0x9F, 1)
  else if 0xE1 ≤ b ∧ b ≤ 0xEF then some (0x80, 0xBF, 1)
  else if b = 0xF0 then some (0x90, 0xBF, 2)
  else if 0xF1 ≤ b ∧ b ≤ 0xF3 then some (0x80, 0xBF, 2)
  else if b = 0xF4 then some (0x80, 0x8F, 2)
  else none

/-- how many bytes at the front are a character, or as much of one as there is; and whether it is whole -/
def leadingChar : Bytes → ℕ × Bool
  | [] => (0, false)
  | b :: rest =>
    if b < 0x80 then (1, true)
    else
      match secondBytes b with
      | none => (1, false)
      | some (lo, hi, more) =>
        match rest with
        | [] => (1, false)
        | c :: rest =>
          if lo ≤ c ∧ c ≤ hi then
            let tail := (rest.take more).takeWhile fun d => 0x80 ≤ d ∧ d ≤ 0xBF
            (2 + tail.length, tail.length = more)
          else (1, false)

/-- `from_utf8_lossy`: what is no character becomes U+FFFD, piece by piece -/
def lossyBytes : ℕ → Bytes → Bytes
  | 0, _ => []
  | _, [] => []
  | n + 1, b :: rest =>
    match leadingChar (b :: rest) with
    | (len, true) => (b :: rest).take len ++ lossyBytes n ((b :: rest).drop len)
    | (len, false) => [0xEF, 0xBF, 0xBD] ++ lossyBytes n ((b :: rest).drop len)

def fromUtf8Lossy (b : Bytes) : String := (fromUtf8 (lossyBytes b.length b)).getD ""

def percentDecode (s : String) : String := fromUtf8Lossy (percentBytes (utf8 s))

example : percentDecode "a%20b%zz%C3%A4%ff" = "a b%zzä\uFFFD" := by decide +kernel

/-! ## Labels from headers -/

/-- header and label -/
def S3_SYSTEM_HEADERS : List (String × String) :=
  [("content-type", "amz-content-type"), ("content-encoding", "amz-content-encoding"),
    ("content-disposition", "amz-content-disposition"), ("content-language", "amz-content-language"),
    ("cache-control", "amz-cache-control"), ("expires", "amz-expires")]

def MAX_TAGS : ℕ := 10

/-- written by the completion of an upload only -/
def MPU_PARTS_LABEL : String := "amz-mpu-parts"

inductive S3Error where
  | invalidTag (message : String)
  | metadataTooLarge (message : String)

def metadataTooLarge (name : String) : S3Error := .metadataTooLarge ("metadata value too long: " ++ name)

/-- the label is one of the gateway's own -/
def isAmz (name : String) : Bool := "amz-".toList.isPrefixOf name.toList

def validateTagName (name : String) : Except S3Error Unit :=
  if isAmz name ∨ name ∈ RESERVED then .error (.invalidTag ("reserved tag name: " ++ name)) else .ok ()

def checkLen (name value : String) (limits : LabelLimits) (onName onValue : String → S3Error) : Except S3Error Unit :=
  if name.utf8ByteSize > limits.maxLabelNameBytes then .error (onName name)
  else if value.utf8ByteSize > limits.maxLabelValueBytes then .error (onValue name)
  else .ok ()

/-- at the first `=` -/
def splitOnce (s : List Char) : Option (String × String) :=
  match s.dropWhile (· ≠ '=') with
  | [] => none
  | _ :: rest => some (String.ofList (s.takeWhile (· ≠ '=')), String.ofList rest)

def parsePairs : List (List Char) → Except S3Error (List (String × String))
  | [] => .ok []
  | pair :: pairs => do
    if pair = [] then parsePairs pairs
    else
      match splitOnce pair with
      | none => .error (.invalidTag "malformed x-amz-tagging")
      | some (k, v) =>
        let rest ← parsePairs pairs
        .ok ((toAsciiLowercase (percentDecode k), percentDecode v) :: rest)

def parseTaggingHeader (s : String) : Except S3Error (List (String × String)) := parsePairs (s.toList.splitOn '&')

variable (limits : LabelLimits)

def push (out : LabelSet) (name value : String) (oversized : String → S3Error) : Except S3Error LabelSet := do
  checkLen name value limits (fun n => .invalidTag ("label name too long: " ++ n)) oversized
  pure (insert (name, value) out)

/-- the first line of a header, if it can be read -/
def getStr (headers : List Header) (name : String) : Option String :=
  (headers.find? fun h => h.name = name).bind fun h => toStr h.value

def systemLabels (headers : List Header) : List (String × String) → LabelSet → Except S3Error LabelSet
  | [], out => .ok out
  | (header, label) :: rest, out =>
    match getStr headers header with
    | none => systemLabels headers rest out
    | some v => do systemLabels headers rest (← push limits out label v metadataTooLarge)

/-- the label of one header, if it is `x-amz-meta-` -/
def metaLabels : List Header → LabelSet → Except S3Error LabelSet
  | [], out => .ok out
  | h :: headers, out =>
    match stripPrefix "x-amz-meta-" (toAsciiLowercase h.name) with
    | none => metaLabels headers out
    | some name =>
      if name.isEmpty then metaLabels headers out
      else
        match toStr h.value with
        | none => .error (.invalidTag ("invalid value for x-amz-meta-" ++ name))
        | some value => do metaLabels headers (← push limits out ("amz-meta-" ++ name) value metadataTooLarge)

def tagLabels : List (String × String) → LabelSet → Except S3Error LabelSet
  | [], out => .ok out
  | (name, value) :: tags, out => do
    validateTagName name
    tagLabels tags (← push limits out name value fun n => .invalidTag ("tag value too long: " ++ n))

/-- the tags that the header of a write names -/
def taggingLabels (headers : List Header) (out : LabelSet) : Except S3Error LabelSet :=
  match getStr headers "x-amz-tagging" with
  | none => .ok out
  | some tagging => do
    let tags ← parseTaggingHeader tagging
    if tags.length > MAX_TAGS then .error (.invalidTag "too many tags (max 10)") else tagLabels limits tags out

def labelsFromRequest (headers : List Header) : Except S3Error LabelSet := do
  let out ← systemLabels limits headers S3_SYSTEM_HEADERS ∅
  let out ← metaLabels limits headers out
  let out ← taggingLabels limits headers out
  if out.card > limits.maxLabels then .error (.invalidTag "too many labels") else pure out

/-! ## Labels of an object -/

def labelsForCopy (src : LabelSet) : LabelSet := src.filter fun l => l.1 ≠ MPU_PARTS_LABEL

def replaceLoop : List (String × String) → LabelSet → Except S3Error LabelSet
  | [], out => .ok out
  | (name, value) :: tags, out => do
    let name := toAsciiLowercase name
    validateTagName name
    checkLen name value limits (fun n => .invalidTag ("tag name too long: " ++ n)) fun n => .invalidTag ("tag value too long: " ++ n)
    replaceLoop tags (insert (name, value) out)

def replaceTags (labels : LabelSet) (tags : List (String × String)) : Except S3Error LabelSet :=
  if tags.length > MAX_TAGS then .error (.invalidTag "too many tags (max 10)")
  else replaceLoop limits tags (labels.filter fun l => isAmz l.1 = true)

/-! ## What is let through -/

/-- what the tagging header of a write names -/
def requestTags (headers : List Header) : List (String × String) :=
  match getStr headers "x-amz-tagging" with
  | none => []
  | some tagging => (parseTaggingHeader tagging).toOption.getD []

/-- a tag as `PutObjectTagging` stores it -/
def lowered (tag : String × String) : String × String := (toAsciiLowercase tag.1, tag.2)

/-- a label of the gateway's own that a client can send in a header -/
structure System (l : String × String) : Prop where
  amz : isAmz l.1 = true
  own : l.1 ≠ MPU_PARTS_LABEL
  sendable : Sendable l

variable {limits}

theorem free_of_amz {name : String} (h : isAmz name = true) : name ∉ RESERVED := by
  intro hmem
  have hall : ∀ n ∈ RESERVED, ¬isAmz n = true := by decide
  exact hall name hmem h

theorem ne_empty_of_amz {name : String} (h : isAmz name = true) : name ≠ "" := by
  rintro rfl
  exact absurd h (by decide)

theorem kept_of_amz {name : String} (h : isAmz name = true) : name ∉ CONSUMED_BY_HANDLER := by
  intro hmem
  have hall : ∀ n ∈ CONSUMED_BY_HANDLER, ¬isAmz n = true := by decide
  exact hall name hmem h

theorem bind_eq_ok {ε α β : Type} {x : Except ε α} {f : α → Except ε β} {b : β} :
    x >>= f = .ok b ↔ ∃ a, x = .ok a ∧ f a = .ok b := by
  cases x with
  | error e => exact iff_of_false nofun (by simp)
  | ok a => exact ⟨fun h => ⟨a, rfl, h⟩, fun ⟨_, ha, h⟩ => Except.ok.inj ha ▸ h⟩

theorem validateTagName_eq_ok {name : String} {u : Unit} :
    validateTagName name = .ok u ↔ ¬isAmz name = true ∧ name ∉ RESERVED := by
  rw [validateTagName]
  split_ifs with h
  · exact iff_of_false nofun fun hn => h.elim hn.1 hn.2
  · exact iff_of_true rfl (not_or.1 h)

theorem checkLen_eq_ok {name value : String} {onName onValue : String → S3Error} {u : Unit} :
    checkLen name value limits onName onValue = .ok u ↔
      name.utf8ByteSize ≤ limits.maxLabelNameBytes ∧ value.utf8ByteSize ≤ limits.maxLabelValueBytes := by
  rw [checkLen]
  split_ifs with hn hv
  · exact iff_of_false nofun fun h => absurd h.1 (not_le.2 hn)
  · exact iff_of_false nofun fun h => absurd h.2 (not_le.2 hv)
  · exact iff_of_true rfl ⟨not_lt.1 hn, not_lt.1 hv⟩

theorem push_eq_ok {out out' : LabelSet} {name value : String} {oversized : String → S3Error} :
    push limits out name value oversized = .ok out' ↔
      (name.utf8ByteSize ≤ limits.maxLabelNameBytes ∧ value.utf8ByteSize ≤ limits.maxLabelValueBytes) ∧
        insert (name, value) out = out' := by
  simp only [push, bind_eq_ok, checkLen_eq_ok, pure, Except.pure, Except.ok.injEq, exists_const]

/-- a loop that adds labels: what it returns is what there was and what satisfies `P` -/
def Adds (limits : LabelLimits) (P : String × String → Prop) (out out' : LabelSet) : Prop :=
  out ⊆ out' ∧ ∀ l ∈ out', l ∈ out ∨ P l ∧ Bounded limits l

theorem systemLabels_ok {headers : List Header} {table : List (String × String)} {out out' : LabelSet}
    (htable : ∀ e ∈ table, isAmz e.2 = true ∧ e.2 ≠ MPU_PARTS_LABEL ∧ e.2.toList.all tokenChar = true)
    (h : systemLabels limits headers table out = .ok out') : Adds limits System out out' := by
  induction table generalizing out with
  | nil =>
    cases h
    exact ⟨subset_rfl, fun l hl => .inl hl⟩
  | cons e table ih =>
    obtain ⟨header, label⟩ := e
    have hrest := fun e he => htable e (List.mem_cons_of_mem _ he)
    obtain ⟨hamz, hown, htoken⟩ := htable (header, label) List.mem_cons_self
    rw [systemLabels] at h
    cases hstr : getStr headers header with
    | none =>
      simp only [hstr] at h
      exact ih hrest h
    | some v =>
      simp only [hstr, bind_eq_ok, push_eq_ok] at h
      obtain ⟨mid, ⟨hlen, rfl⟩, h⟩ := h
      obtain ⟨hsub, hmem⟩ := ih hrest h
      obtain ⟨g, -, hg⟩ := Option.bind_eq_some_iff.1 hstr
      have hsend : Sendable (label, v) :=
        ⟨htoken, ne_empty_of_amz hamz, kept_of_amz hamz, (toStr_eq_some.1 hg).2⟩
      refine ⟨(Finset.subset_insert _ _).trans hsub, fun l hl => ?_⟩
      rcases hmem l hl with hl | hl
      · rcases Finset.mem_insert.1 hl with rfl | hl
        · exact .inr ⟨⟨hamz, hown, hsend⟩, ⟨free_of_amz hamz, hlen.1, hlen.2⟩⟩
        · exact .inl hl
      · exact .inr hl

theorem isAmz_append (s : String) : isAmz ("amz-" ++ s) = true := by
  rw [isAmz, List.isPrefixOf_iff_prefix, String.toList_append]
  exact List.prefix_append _ _

theorem metaLabels_ok {headers : List Header} {out out' : LabelSet} (h : metaLabels limits headers out = .ok out') :
    Adds limits System out out' := by
  induction headers generalizing out with
  | nil =>
    cases h
    exact ⟨subset_rfl, fun l hl => .inl hl⟩
  | cons g headers ih =>
    have hlegal : g.name.toList.all tokenChar = true := by
      have h := g.legal
      simp only [isHeaderName, Bool.and_eq_true] at h
      exact h.1.2
    rw [metaLabels, toAsciiLowercase_of_token hlegal] at h
    cases hname : stripPrefix "x-amz-meta-" g.name with
    | none =>
      simp only [hname] at h
      exact ih h
    | some name =>
      simp only [hname] at h
      split_ifs at h with hempty
      · exact ih h
      cases hstr : toStr g.value with
      | none =>
        simp only [hstr] at h
        cases h
      | some value =>
        simp only [hstr, bind_eq_ok, push_eq_ok] at h
        obtain ⟨mid, ⟨hlen, rfl⟩, h⟩ := h
        obtain ⟨hsub, hmem⟩ := ih h
        have hamz : isAmz ("amz-meta-" ++ name) = true := by
          have hassoc : "amz-meta-" ++ name = "amz-" ++ ("meta-" ++ name) := by
            rw [← String.append_assoc]
            exact congrArg (· ++ name) (by decide)
          rw [hassoc]
          exact isAmz_append _
        have htoken : name.toList.all tokenChar = true := by
          rw [stripPrefix_eq_some.1 hname, String.toList_append, List.all_append, Bool.and_eq_true] at hlegal
          exact hlegal.2
        have hsend : Sendable ("amz-meta-" ++ name, value) := by
          refine ⟨?_, ne_empty_of_amz hamz, kept_of_amz hamz, (toStr_eq_some.1 hstr).2⟩
          rw [String.toList_append, List.all_append, htoken, Bool.and_true]
          decide
        have hown : "amz-meta-" ++ name ≠ MPU_PARTS_LABEL := by
          intro h
          have hat := congrArg (fun s => s.toList[5]?) h
          rw [String.toList_append] at hat
          exact absurd hat (by simp [MPU_PARTS_LABEL])
        refine ⟨(Finset.subset_insert _ _).trans hsub, fun l hl => ?_⟩
        rcases hmem l hl with hl | hl
        · rcases Finset.mem_insert.1 hl with rfl | hl
          · exact .inr ⟨⟨hamz, hown, hsend⟩, ⟨free_of_amz hamz, hlen.1, hlen.2⟩⟩
          · exact .inl hl
        · exact .inr hl

/-- nothing but the length and the first letters of a tag is checked -/
theorem tagLabels_ok {tags : List (String × String)} {out out' : LabelSet} (h : tagLabels limits tags out = .ok out') :
    out' = out ∪ tags.toFinset ∧ ∀ l ∈ tags, ¬isAmz l.1 = true ∧ Bounded limits l := by
  induction tags generalizing out with
  | nil =>
    cases h
    exact ⟨by simp, by simp⟩
  | cons tag tags ih =>
    obtain ⟨name, value⟩ := tag
    simp only [tagLabels, bind_eq_ok, validateTagName_eq_ok, push_eq_ok] at h
    obtain ⟨-, hname, mid, ⟨hlen, rfl⟩, h⟩ := h
    obtain ⟨rfl, hall⟩ := ih h
    refine ⟨by rw [List.toFinset_cons, Finset.insert_union, Finset.union_insert], ?_⟩
    rw [List.forall_mem_cons]
    exact ⟨⟨hname.1, hname.2, hlen.1, hlen.2⟩, hall⟩

theorem taggingLabels_ok {headers : List Header} {out out' : LabelSet} (h : taggingLabels limits headers out = .ok out') :
    out' = out ∪ (requestTags headers).toFinset ∧ ∀ l ∈ requestTags headers, ¬isAmz l.1 = true ∧ Bounded limits l := by
  rw [taggingLabels] at h
  rw [requestTags]
  cases hstr : getStr headers "x-amz-tagging" with
  | none =>
    simp only [hstr, Except.ok.injEq] at h
    exact ⟨by simp [h], by simp⟩
  | some tagging =>
    simp only [hstr, bind_eq_ok] at h
    obtain ⟨tags, hparse, h⟩ := h
    split_ifs at h
    simp only [hparse]
    exact tagLabels_ok h

/-- the labels of a write are the gateway's own, all within the limits, and the tags that its header names -/
theorem labelsFromRequest_ok {headers : List Header} {labels : LabelSet} (h : labelsFromRequest limits headers = .ok labels) :
    labels.card ≤ limits.maxLabels ∧ (∀ l ∈ labels, Bounded limits l) ∧
      (∀ l ∈ labels, System l ∨ l ∈ requestTags headers) ∧ ∀ l ∈ requestTags headers, l ∈ labels ∧ ¬isAmz l.1 = true := by
  have htable : ∀ e ∈ S3_SYSTEM_HEADERS, isAmz e.2 = true ∧ e.2 ≠ MPU_PARTS_LABEL ∧ e.2.toList.all tokenChar = true := by decide +kernel
  simp only [labelsFromRequest, bind_eq_ok] at h
  obtain ⟨out, hsys, out', hmeta, out'', htags, h⟩ := h
  obtain ⟨-, hsys⟩ := systemLabels_ok htable hsys
  obtain ⟨-, hmeta⟩ := metaLabels_ok hmeta
  have hown : ∀ l ∈ out', System l ∧ Bounded limits l := by
    intro l hl
    rcases hmeta l hl with hl | hl
    · exact (hsys l hl).resolve_left (Finset.notMem_empty l)
    · exact hl
  obtain ⟨rfl, htag⟩ := taggingLabels_ok htags
  split_ifs at h with hcard
  cases h
  refine ⟨not_lt.1 hcard, fun l hl => ?_, fun l hl => ?_, fun l hl => ⟨?_, (htag l hl).1⟩⟩
  · rcases Finset.mem_union.1 hl with hl | hl
    · exact (hown l hl).2
    · exact (htag l (List.mem_toFinset.1 hl)).2
  · rcases Finset.mem_union.1 hl with hl | hl
    · exact .inl (hown l hl).1
    · exact .inr (List.mem_toFinset.1 hl)
  · exact Finset.mem_union_right _ (List.mem_toFinset.2 hl)

theorem replaceLoop_ok {tags : List (String × String)} {out out' : LabelSet} (h : replaceLoop limits tags out = .ok out') :
    out' = out ∪ (tags.map lowered).toFinset ∧ ∀ l ∈ tags.map lowered, ¬isAmz l.1 = true ∧ Bounded limits l := by
  induction tags generalizing out with
  | nil =>
    cases h
    exact ⟨by simp, by simp⟩
  | cons tag tags ih =>
    obtain ⟨name, value⟩ := tag
    simp only [replaceLoop, bind_eq_ok, validateTagName_eq_ok, checkLen_eq_ok] at h
    obtain ⟨-, hname, -, hlen, h⟩ := h
    obtain ⟨rfl, hall⟩ := ih h
    refine ⟨by rw [List.map_cons, List.toFinset_cons, Finset.insert_union, Finset.union_insert, lowered], ?_⟩
    rw [List.map_cons, List.forall_mem_cons]
    exact ⟨⟨hname.1, hname.2, hlen.1, hlen.2⟩, hall⟩

/-- nothing counts the labels of `PutObjectTagging` -/
theorem replaceTags_ok {labels labels' : LabelSet} {tags : List (String × String)} (h : replaceTags limits labels tags = .ok labels') :
    labels' = (labels.filter fun l => isAmz l.1 = true) ∪ (tags.map lowered).toFinset ∧
      ∀ l ∈ tags.map lowered, ¬isAmz l.1 = true ∧ Bounded limits l := by
  rw [replaceTags] at h
  split_ifs at h
  exact replaceLoop_ok h

end Y2q.Meta
