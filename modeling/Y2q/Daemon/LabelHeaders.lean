/-
An object's labels in the headers of HEAD and GET, and back (`insert_object_metadata_headers` of `handlers/head.rs`, `head` and
`put_from_reader` of the client).

The server puts each label into an `X-Y2Q-<name>` line beside lines of its own, the client takes every such line for a label but those
on a list of its own, and a PUT with the labels so found goes through `extract_labels` again. A response with an illegal line is an
error. What the connection does to a value is the HTTP library's (`Transport`): it may take blanks off both ends.

- `objectHeaders`: the lines of a response. `head`: what the client makes of them. `putAgain`: the labels that a PUT of these stores.
- `Carried`: a label that all of this leaves as it is.
- `roundTrip_iff`: an object's labels survive, with its size and times, exactly if each of them is carried and there are not too many.
-/
import Mathlib.Data.List.DropRight
import Mathlib.Tactic
import Y2q.Daemon.Labels
import Y2q.Daemon.RangedGet
import Y2q.S3.Meta
import Y2q.Storage.MetadataIndex

namespace Y2q.LabelHeaders

open Objects (LabelSet)
open Labels Meta
open RangedGet (parseU64 trim parseU64_toString)

/-! ## Lines -/

/-- what the HTTP library takes for a header's value -/
def valueByte (b : UInt8) : Bool := (32 ≤ b && b ≠ 127) || b == 9

/-- a line, if the HTTP library takes it -/
def headerLine (name value : String) : Option Header :=
  if h : isHeaderName (toAsciiLowercase name) = true then
    if (utf8 value).all valueByte then some ⟨toAsciiLowercase name, utf8 value, h⟩ else none
  else none

def headerLines : List (String × String) → Option (List Header)
  | [] => some []
  | l :: lines => do
    let h ← headerLine l.1 l.2
    let headers ← headerLines lines
    some (h :: headers)

/-- what comes out at the other end of a connection for a value -/
structure Transport where
  carry : Bytes → Bytes
  carry_carry : ∀ b, carry (carry b) = carry b
  carry_plain : ∀ b, (∀ x ∈ b, x ≠ 32 ∧ x ≠ 9) → carry b = b

def Transport.deliver (T : Transport) (headers : List Header) : List Header :=
  headers.map fun h => { h with value := T.carry h.value }

/-! ## The server -/

def labelLine (l : String × String) : String × String := ("X-Y2Q-" ++ l.1, l.2)

def optionalLine (name : String) (value : Option String) : List (String × String) := (value.map fun v => (name, v)).toList

def metadataLines (md : MetadataIndex.Metadata) : List (String × String) :=
  [("Content-Length", toString md.size.toNat), ("X-Y2Q-Size", toString md.size.toNat), ("Content-Type", "application/octet-stream"),
    ("X-Y2Q-Created", toString md.created.toNat), ("X-Y2Q-Modified", toString md.modified.toNat),
    ("X-Y2Q-Checksum-GxHash", md.checksumGxhash)] ++
  optionalLine "X-Y2Q-Cipher-Size" (md.cipherSize.map fun v => toString v.toNat) ++
  optionalLine "X-Y2Q-Cipher-Checksum" md.cipherChecksum ++ optionalLine "X-Y2Q-Kem-Alg" md.kemAlg ++
  optionalLine "X-Y2Q-Aead-Alg" md.aeadAlg ++
  optionalLine "X-Y2Q-Envelope-Version" (md.envelopeVersion.map fun v => toString v.toNat)

/-- the headers of HEAD and of a full GET; none: the response is an error -/
def objectHeaders (md : MetadataIndex.Metadata) : Option (List Header) := headerLines (metadataLines md ++ md.labels.map labelLine)

inductive SyncLevel where
  | Durable
  | BestEffort
deriving DecidableEq

/-- `parse_sync_header` -/
def parseSyncHeader (headers : List Header) (default : SyncLevel) : Except LabelError SyncLevel :=
  match headers.find? fun h => h.name = "x-y2q-sync" with
  | none => .ok default
  | some raw =>
    match toStr raw.value with
    | none => .error (.invalidLabelValue "sync")
    | some value =>
      match toAsciiLowercase (String.ofList (trim value.toList)) with
      | "durable" => .ok .Durable
      | "best-effort" | "besteffort" => .ok .BestEffort
      | _ => .error (.invalidLabelValue "sync")

/-- a PUT, as far as its headers go -/
def put (limits : LabelLimits) (default : SyncLevel) (headers : List Header) : Except LabelError (LabelSet × SyncLevel) := do
  let labels ← extractLabels limits headers
  let sync ← parseSyncHeader headers default
  pure (labels, sync)

/-! ## The client -/

/-- `x-y2q-` lines that `head` takes for no labels -/
def SERVER_HEADERS : List String :=
  ["size", "created", "modified", "checksum-gxhash", "cipher-size", "cipher-checksum", "kem-alg", "aead-alg", "envelope-version"]

structure ObjectHead where
  size : ℕ
  created : ℕ
  modified : ℕ
  checksumGxhash : String
  labels : LabelSet
  cipherSize : Option ℕ
  cipherChecksum : Option String
  kemAlg : Option String
  aeadAlg : Option String
  envelopeVersion : Option ℕ

def hdrU64 (headers : List Header) (name : String) : Option ℕ := (getStr headers name).bind fun s => parseU64 s.toList

def hdrU16 (headers : List Header) (name : String) : Option ℕ := (hdrU64 headers name).filter (· < 2 ^ 16)

def labelOf (h : Header) : Option (String × String) :=
  (stripPrefix "x-y2q-" h.name).bind fun label => if label ∈ SERVER_HEADERS then none else (toStr h.value).map fun v => (label, v)

def head (headers : List Header) : ObjectHead where
  size := ((hdrU64 headers "x-y2q-size").or (hdrU64 headers "content-length")).getD 0
  created := (hdrU64 headers "x-y2q-created").getD 0
  modified := (hdrU64 headers "x-y2q-modified").getD 0
  checksumGxhash := (getStr headers "x-y2q-checksum-gxhash").getD ""
  labels := (headers.filterMap labelOf).toFinset
  cipherSize := hdrU64 headers "x-y2q-cipher-size"
  cipherChecksum := getStr headers "x-y2q-cipher-checksum"
  kemAlg := getStr headers "x-y2q-kem-alg"
  aeadAlg := getStr headers "x-y2q-aead-alg"
  envelopeVersion := hdrU16 headers "x-y2q-envelope-version"

/-! ## There and back -/

variable (limits : LabelLimits) (T : Transport) (default : SyncLevel)

/-- the client reads the object's labels, size and times, and a PUT of its labels stores them again -/
def RoundTrip (md : MetadataIndex.Metadata) : Prop :=
  ∃ headers, objectHeaders md = some headers ∧
    (head (T.deliver headers)).labels = md.labels.toFinset ∧ (head (T.deliver headers)).size = md.size.toNat ∧
    (head (T.deliver headers)).created = md.created.toNat ∧ (head (T.deliver headers)).modified = md.modified.toNat ∧
    ∀ labels : List (String × String), labels.toFinset = (head (T.deliver headers)).labels →
      ∃ request sync, headerLines (labels.map labelLine) = some request ∧
        put limits default (T.deliver request) = .ok (md.labels.toFinset, sync)

/-- the HTTP library takes the server's own lines -/
structure Plain (md : MetadataIndex.Metadata) : Prop where
  checksumGxhash : (utf8 md.checksumGxhash).all valueByte = true
  cipherChecksum : ∀ v ∈ md.cipherChecksum, (utf8 v).all valueByte = true
  kemAlg : ∀ v ∈ md.kemAlg, (utf8 v).all valueByte = true
  aeadAlg : ∀ v ∈ md.aeadAlg, (utf8 v).all valueByte = true

structure Carried (l : String × String) : Prop where
  sendable : Sendable l
  bounded : Bounded limits l
  /-- the client takes it for a label -/
  shown : l.1 ∉ SERVER_HEADERS
  /-- short enough for the HTTP library -/
  short : (HEADER_PREFIX ++ l.1).utf8ByteSize ≤ 65535
  value : T.carry (utf8 l.2) = utf8 l.2

/-! ## What survives -/

variable {limits T default}

theorem toLower_toLower (c : Char) : c.toLower.toLower = c.toLower := by
  by_cases h : c.val ≥ 'A'.val ∧ c.val ≤ 'Z'.val
  · have hlower : ∀ n : ℕ, n < 128 → (Char.ofNat n).toLower.toLower = (Char.ofNat n).toLower := by decide
    have hn : c.toNat < 128 := by
      have hz : c.val.toNat ≤ 'Z'.val.toNat := UInt32.le_iff_toNat_le.1 h.2
      exact hz.trans_lt (by decide)
    rw [← Char.ofNat_toNat c]
    exact hlower _ hn
  · have hc : c.toLower = c := dif_neg h
    rw [hc, hc]

theorem toAsciiLowercase_toAsciiLowercase (s : String) : toAsciiLowercase (toAsciiLowercase s) = toAsciiLowercase s := by
  simp only [toAsciiLowercase, String.toList_ofList, List.map_map]
  exact congrArg String.ofList (List.map_congr_left fun c _ => toLower_toLower c)

theorem toAsciiLowercase_append (a b : String) : toAsciiLowercase (a ++ b) = toAsciiLowercase a ++ toAsciiLowercase b := by
  simp only [toAsciiLowercase, String.toList_append, List.map_append, String.ofList_append]

theorem headerLine_eq_some {name value : String} {h : Header} :
    headerLine name value = some h ↔ (utf8 value).all valueByte = true ∧ h.name = toAsciiLowercase name ∧ h.value = utf8 value := by
  rw [headerLine]
  split_ifs with hname hvalue
  · rw [Option.some_inj]
    constructor
    · rintro rfl
      exact ⟨hvalue, rfl, rfl⟩
    · rintro ⟨-, hn, hv⟩
      obtain ⟨n, v, hl⟩ := h
      cases hn
      cases hv
      rfl
  · exact iff_of_false nofun fun h => hvalue h.1
  · refine iff_of_false nofun fun hl => hname ?_
    rw [← hl.2.1]
    exact h.legal

/-- a list of lines is taken if each line is -/
theorem headerLines_eq_some {lines : List (String × String)} {headers : List Header} :
    headerLines lines = some headers ↔ List.Forall₂ (fun l h => headerLine l.1 l.2 = some h) lines headers := by
  induction lines generalizing headers with
  | nil => simp [headerLines, eq_comm]
  | cons l lines ih =>
    simp only [headerLines, Option.bind_eq_bind, Option.bind_eq_some_iff, Option.some_inj, ih, List.forall₂_cons_left_iff]
    constructor
    · rintro ⟨h, hh, rest, hrest, rfl⟩
      exact ⟨h, rest, hh, hrest, rfl⟩
    · rintro ⟨h, rest, hh, hrest, rfl⟩
      exact ⟨h, hh, rest, hrest, rfl⟩

theorem exists_headerLines {lines : List (String × String)} :
    (∃ headers, headerLines lines = some headers) ↔ ∀ l ∈ lines, ∃ h, headerLine l.1 l.2 = some h := by
  simp only [headerLines_eq_some]
  induction lines with
  | nil => simp
  | cons l lines ih =>
    rw [List.forall_mem_cons, ← ih]
    simp only [List.forall₂_cons_left_iff]
    constructor
    · rintro ⟨-, h, rest, hh, hrest, rfl⟩
      exact ⟨⟨h, hh⟩, rest, hrest⟩
    · rintro ⟨⟨h, hh⟩, rest, hrest⟩
      exact ⟨_, h, rest, hh, hrest, rfl⟩

/-- the headers at the other end -/
theorem mem_deliver {lines : List (String × String)} {headers : List Header} (h : headerLines lines = some headers) {name : String}
    {value : Bytes} : (∃ g ∈ T.deliver headers, g.name = name ∧ g.value = value) ↔
      ∃ l ∈ lines, toAsciiLowercase l.1 = name ∧ T.carry (utf8 l.2) = value := by
  rw [headerLines_eq_some] at h
  induction h with
  | nil => simp [Transport.deliver]
  | cons hl _ ih =>
    obtain ⟨-, hn, hv⟩ := headerLine_eq_some.1 hl
    rw [Transport.deliver, List.map_cons, List.exists_mem_cons_iff, List.exists_mem_cons_iff, ← ih]
    simp only [hn, hv]
    rfl

/-- the first line of a name at the other end -/
theorem getStr_deliver {lines : List (String × String)} {headers : List Header} (h : headerLines lines = some headers) (name : String) :
    getStr (T.deliver headers) name =
      (lines.find? fun l => toAsciiLowercase l.1 = name).bind fun l => toStr (T.carry (utf8 l.2)) := by
  rw [headerLines_eq_some] at h
  induction h with
  | nil => rfl
  | cons hl _ ih =>
    obtain ⟨-, hn, hv⟩ := headerLine_eq_some.1 hl
    rw [getStr, Transport.deliver] at ih ⊢
    rw [List.map_cons, List.find?_cons, List.find?_cons]
    simp only [hn]
    split
    · rw [Option.bind_some, Option.bind_some, hv]
    · exact ih

/-! ## What the client reads -/

theorem digit_bytes {n : ℕ} {b : UInt8} (hb : b ∈ utf8 (toString n)) : 48 ≤ b ∧ b ≤ 57 := by
  rw [← String.ofList_toList (s := toString n), utf8_ofList, List.mem_flatMap, Nat.toString_eq_repr, Nat.toList_repr] at hb
  obtain ⟨c, hc, hb⟩ := hb
  have hdigit := Nat.isDigit_of_mem_toDigits (by decide) le_rfl hc
  simp only [Char.isDigit, Bool.and_eq_true, decide_eq_true_eq, UInt32.le_iff_toNat_le, ge_iff_le] at hdigit
  have hone : c.val.toNat ≤ 127 := hdigit.2.trans (by decide)
  rw [String.utf8EncodeChar, if_pos hone, List.mem_singleton] at hb
  subst hb
  simp only [UInt8.le_iff_toNat_le, UInt8.toNat_ofNat']
  have h0 : (48 : ℕ) ≤ c.val.toNat := hdigit.1
  have h9 : c.val.toNat ≤ 57 := hdigit.2
  rw [Nat.mod_eq_of_lt (by omega)]
  exact ⟨h0, h9⟩

/-- a number of the server arrives as it is -/
theorem toStr_number (n : ℕ) : toStr (T.carry (utf8 (toString n))) = some (toString n) := by
  have hplain : T.carry (utf8 (toString n)) = utf8 (toString n) := by
    refine T.carry_plain _ fun b hb => ⟨?_, ?_⟩ <;> rintro rfl <;> exact absurd (digit_bytes hb).1 (by decide)
  refine toStr_eq_some.2 ⟨hplain, List.all_eq_true.2 fun b hb => ?_⟩
  obtain ⟨h48, h57⟩ := digit_bytes hb
  have h32 : 32 ≤ b := le_trans (by decide) h48
  have h127 : b < 127 := lt_of_le_of_lt h57 (by decide)
  simp [visibleByte, h32, h127]

theorem hdrU64_deliver {lines : List (String × String)} {headers : List Header} (h : headerLines lines = some headers)
    {name name' : String} {n : ℕ} (hn : n < 2 ^ 64)
    (hfind : lines.find? (fun l => toAsciiLowercase l.1 = name) = some (name', toString n)) :
    hdrU64 (T.deliver headers) name = some n := by
  rw [hdrU64, getStr_deliver h, hfind, Option.bind_some, toStr_number, Option.bind_some, parseU64_toString hn]

theorem labelOf_eq_some {h : Header} {l : String × String} :
    labelOf h = some l ↔ (h.name = HEADER_PREFIX ++ l.1 ∧ h.value = utf8 l.2) ∧ l.1 ∉ SERVER_HEADERS ∧ (utf8 l.2).all visibleByte = true := by
  obtain ⟨label, value⟩ := l
  rw [labelOf, Option.bind_eq_some_iff]
  constructor
  · rintro ⟨label', hstrip, hl⟩
    split_ifs at hl with hserver
    obtain ⟨value', hstr, hl⟩ := Option.map_eq_some_iff.1 hl
    cases hl
    obtain ⟨hv, hvisible⟩ := toStr_eq_some.1 hstr
    exact ⟨⟨stripPrefix_eq_some.1 hstrip, hv⟩, hserver, hvisible⟩
  · rintro ⟨⟨hn, hv⟩, hserver, hvisible⟩
    refine ⟨label, stripPrefix_eq_some.2 hn, ?_⟩
    rw [if_neg hserver, toStr_eq_some.2 ⟨hv, hvisible⟩, Option.map_some]

/-- the names of the server's own lines -/
def OWN_NAMES : List String :=
  ["Content-Length", "X-Y2Q-Size", "Content-Type", "X-Y2Q-Created", "X-Y2Q-Modified", "X-Y2Q-Checksum-GxHash", "X-Y2Q-Cipher-Size",
    "X-Y2Q-Cipher-Checksum", "X-Y2Q-Kem-Alg", "X-Y2Q-Aead-Alg", "X-Y2Q-Envelope-Version"]

theorem metadataLines_names {md : MetadataIndex.Metadata} {l : String × String} (hl : l ∈ metadataLines md) : l.1 ∈ OWN_NAMES := by
  simp only [metadataLines, optionalLine, List.mem_append, Option.mem_toList, Option.map_eq_some_iff, List.mem_cons, List.not_mem_nil,
    or_false] at hl
  rcases hl with ((((hl | ⟨v, -, rfl⟩) | ⟨v, -, rfl⟩) | ⟨v, -, rfl⟩) | ⟨v, -, rfl⟩) | ⟨v, -, rfl⟩
  · rcases hl with rfl | rfl | rfl | rfl | rfl | rfl <;> simp [OWN_NAMES]
  all_goals simp [OWN_NAMES]

theorem own_not_label {name label : String} (hname : name ∈ OWN_NAMES) (h : toAsciiLowercase name = HEADER_PREFIX ++ label) :
    label ∈ SERVER_HEADERS := by
  have hall : ∀ n ∈ OWN_NAMES, ∀ r ∈ stripPrefix HEADER_PREFIX (toAsciiLowercase n), r ∈ SERVER_HEADERS := by decide
  exact hall name hname label (stripPrefix_eq_some.2 h)

theorem lower_labelLine {l : String × String} {label : String} :
    toAsciiLowercase (labelLine l).1 = HEADER_PREFIX ++ label ↔ toAsciiLowercase l.1 = label := by
  have hprefix : toAsciiLowercase "X-Y2Q-" = HEADER_PREFIX := by decide
  rw [labelLine, toAsciiLowercase_append, hprefix, ← String.toList_inj, String.toList_append, String.toList_append,
    List.append_cancel_left_eq, String.toList_inj]

/-- the client's labels are the object's, as far as the client takes their lines for labels -/
theorem mem_head_labels {md : MetadataIndex.Metadata} {headers : List Header} (h : objectHeaders md = some headers)
    {l : String × String} : l ∈ (head (T.deliver headers)).labels ↔
      (∃ l' ∈ md.labels, toAsciiLowercase l'.1 = l.1 ∧ T.carry (utf8 l'.2) = utf8 l.2) ∧
        l.1 ∉ SERVER_HEADERS ∧ (utf8 l.2).all visibleByte = true := by
  have hlines : l ∈ (head (T.deliver headers)).labels ↔
      (∃ g ∈ T.deliver headers, g.name = HEADER_PREFIX ++ l.1 ∧ g.value = utf8 l.2) ∧
        l.1 ∉ SERVER_HEADERS ∧ (utf8 l.2).all visibleByte = true := by
    simp only [head, List.mem_toFinset, List.mem_filterMap, labelOf_eq_some, ← and_assoc, exists_and_right]
  rw [hlines, mem_deliver h, and_congr_left_iff]
  rintro ⟨hserver, -⟩
  constructor
  · rintro ⟨line, hline, hname, hvalue⟩
    rcases List.mem_append.1 hline with hline | hline
    · exact absurd (own_not_label (metadataLines_names hline) hname) hserver
    · obtain ⟨l', hl', rfl⟩ := List.mem_map.1 hline
      exact ⟨l', hl', lower_labelLine.1 hname, hvalue⟩
  · rintro ⟨l', hl', hname, hvalue⟩
    exact ⟨labelLine l', List.mem_append_right _ (List.mem_map_of_mem hl'), lower_labelLine.2 hname, hvalue⟩

/-- size and times do not depend on the labels: the server's lines come first -/
theorem head_numbers {md : MetadataIndex.Metadata} {headers : List Header} (h : objectHeaders md = some headers) :
    (head (T.deliver headers)).size = md.size.toNat ∧ (head (T.deliver headers)).created = md.created.toNat ∧
      (head (T.deliver headers)).modified = md.modified.toNat := by
  have hfind : ∀ name l, (metadataLines md).find? (fun l => toAsciiLowercase l.1 = name) = some l →
      (metadataLines md ++ md.labels.map labelLine).find? (fun l => toAsciiLowercase l.1 = name) = some l := by
    intro name l hl
    rw [List.find?_append, hl, Option.some_or]
  have hlower : (toAsciiLowercase "Content-Length" = "content-length" ∧ toAsciiLowercase "X-Y2Q-Size" = "x-y2q-size") ∧
      toAsciiLowercase "Content-Type" = "content-type" ∧ toAsciiLowercase "X-Y2Q-Created" = "x-y2q-created" ∧
      toAsciiLowercase "X-Y2Q-Modified" = "x-y2q-modified" := by decide
  have hsize := hdrU64_deliver (T := T) h md.size.toNat_lt
    (hfind "x-y2q-size" ("X-Y2Q-Size", _) (by simp [metadataLines, hlower]))
  have hcreated := hdrU64_deliver (T := T) h md.created.toNat_lt
    (hfind "x-y2q-created" ("X-Y2Q-Created", _) (by simp [metadataLines, hlower]))
  have hmodified := hdrU64_deliver (T := T) h md.modified.toNat_lt
    (hfind "x-y2q-modified" ("X-Y2Q-Modified", _) (by simp [metadataLines, hlower]))
  simp only [head, hsize, hcreated, hmodified, Option.some_or, Option.getD_some, and_self]

/-! ## The lines of a response -/

theorem exists_headerLine {name value : String} :
    (∃ h, headerLine name value = some h) ↔ isHeaderName (toAsciiLowercase name) = true ∧ (utf8 value).all valueByte = true := by
  rw [headerLine]
  split_ifs with hname hvalue
  · exact iff_of_true ⟨_, rfl⟩ ⟨hname, hvalue⟩
  · exact iff_of_false nofun fun h => hvalue h.2
  · exact iff_of_false nofun fun h => hname h.1

theorem valueByte_of_visible {b : UInt8} (h : visibleByte b = true) : valueByte b = true := by
  simp only [visibleByte, valueByte, Bool.or_eq_true, Bool.and_eq_true, decide_eq_true_eq] at h ⊢
  exact h.imp_left fun h => ⟨h.1, h.2.ne⟩

theorem number_taken (n : ℕ) : (utf8 (toString n)).all valueByte = true := by
  refine List.all_eq_true.2 fun b hb => ?_
  obtain ⟨h48, h57⟩ := digit_bytes hb
  have h32 : 32 ≤ b := le_trans (by decide) h48
  have h127 : b ≠ 127 := (lt_of_le_of_lt h57 (by decide)).ne
  simp [valueByte, h32, h127]

theorem own_names_taken {name : String} (h : name ∈ OWN_NAMES) : isHeaderName (toAsciiLowercase name) = true := by
  have hall : ∀ n ∈ OWN_NAMES, isHeaderName (toAsciiLowercase n) = true := by decide
  exact hall name h

theorem metadataLines_taken {md : MetadataIndex.Metadata} :
    (∀ l ∈ metadataLines md, ∃ h, headerLine l.1 l.2 = some h) ↔ Plain md := by
  have hvalues : (∀ l ∈ metadataLines md, ∃ h, headerLine l.1 l.2 = some h) ↔
      ∀ l ∈ metadataLines md, (utf8 l.2).all valueByte = true := by
    refine forall₂_congr fun l hl => ?_
    rw [exists_headerLine, and_iff_right (own_names_taken (metadataLines_names hl))]
  have htype : (utf8 "application/octet-stream").all valueByte = true := by decide
  rw [hvalues]
  constructor
  · intro h
    refine ⟨h ("X-Y2Q-Checksum-GxHash", _) ?_, fun v hv => h ("X-Y2Q-Cipher-Checksum", v) ?_, fun v hv => h ("X-Y2Q-Kem-Alg", v) ?_,
      fun v hv => h ("X-Y2Q-Aead-Alg", v) ?_⟩
    · simp [metadataLines]
    all_goals
      rw [Option.mem_def] at hv
      simp [metadataLines, optionalLine, hv]
  · rintro ⟨hsum, hcipher, hkem, haead⟩ l hl
    simp only [metadataLines, optionalLine, List.mem_append, Option.mem_toList, Option.map_eq_some_iff, List.mem_cons,
      List.not_mem_nil, or_false] at hl
    rcases hl with ((((hl | ⟨v, ⟨n, -, rfl⟩, rfl⟩) | ⟨v, hv, rfl⟩) | ⟨v, hv, rfl⟩) | ⟨v, hv, rfl⟩) | ⟨v, ⟨n, -, rfl⟩, rfl⟩
    · rcases hl with rfl | rfl | rfl | rfl | rfl | rfl
      · exact number_taken _
      · exact number_taken _
      · exact htype
      · exact number_taken _
      · exact number_taken _
      · exact hsum
    · exact number_taken _
    · exact hcipher v hv
    · exact hkem v hv
    · exact haead v hv
    · exact number_taken _

theorem labelLine_taken {l : String × String} : (∃ h, headerLine (labelLine l).1 (labelLine l).2 = some h) ↔
    isHeaderName (HEADER_PREFIX ++ toAsciiLowercase l.1) = true ∧ (utf8 l.2).all valueByte = true := by
  rw [exists_headerLine, lower_labelLine.2 rfl]
  rfl

/-- a response is no error if its lines are legal -/
theorem exists_objectHeaders {md : MetadataIndex.Metadata} : (∃ headers, objectHeaders md = some headers) ↔
    Plain md ∧ ∀ l ∈ md.labels, isHeaderName (HEADER_PREFIX ++ toAsciiLowercase l.1) = true ∧ (utf8 l.2).all valueByte = true := by
  rw [objectHeaders, exists_headerLines, List.forall_mem_append, metadataLines_taken, List.forall_mem_map]
  simp only [labelLine_taken]

/-! ## Carried labels -/

theorem Carried.lower {l : String × String} (h : Carried limits T l) : toAsciiLowercase l.1 = l.1 :=
  toAsciiLowercase_of_token h.sendable.name

theorem Carried.taken {l : String × String} (h : Carried limits T l) :
    isHeaderName (HEADER_PREFIX ++ toAsciiLowercase l.1) = true ∧ (utf8 l.2).all valueByte = true := by
  have hprefix : HEADER_PREFIX.toList.all tokenChar = true := by decide
  have hne : HEADER_PREFIX ++ l.1 ≠ "" := by
    intro he
    have hlist := congrArg String.toList he
    rw [String.toList_append] at hlist
    exact absurd (List.append_eq_nil_iff.1 hlist).1 (by decide)
  refine ⟨?_, List.all_eq_true.2 fun b hb => valueByte_of_visible (List.all_eq_true.1 h.sendable.value b hb)⟩
  rw [h.lower]
  simp only [isHeaderName, Bool.and_eq_true, Bool.not_eq_true', decide_eq_true_eq]
  refine ⟨⟨?_, ?_⟩, h.short⟩
  · rw [Bool.eq_false_iff]
    exact fun he => hne (String.isEmpty_iff.1 he)
  · rw [String.toList_append, List.all_append, hprefix, h.sendable.name, Bool.and_self]

/-- a carried label comes out of the line made of it -/
theorem Carried.extract {l : String × String} (h : Carried limits T l) {g : Header}
    (hname : toAsciiLowercase (labelLine l).1 = g.name) (hvalue : T.carry (utf8 (labelLine l).2) = g.value) :
    extractLabel limits g = .ok (some l) := by
  refine extractLabel_eq_some.2 ⟨?_, ?_, h.sendable, h.bounded⟩
  · rw [← hname]
    exact lower_labelLine.2 h.lower
  · rw [← hvalue]
    exact h.value

/-- a PUT of labels that are carried stores them -/
theorem put_carried {labels : List (String × String)} {request : List Header} (hl : ∀ l ∈ labels, Carried limits T l)
    (hcard : labels.toFinset.card ≤ limits.maxLabels) (hrequest : headerLines (labels.map labelLine) = some request) :
    put limits default (T.deliver request) = .ok (labels.toFinset, default) := by
  have hline : ∀ g ∈ T.deliver request, ∃ l ∈ labels, toAsciiLowercase (labelLine l).1 = g.name ∧
      extractLabel limits g = .ok (some l) := by
    intro g hg
    obtain ⟨line, hline, hname, hvalue⟩ := (mem_deliver hrequest).1 ⟨g, hg, rfl, rfl⟩
    obtain ⟨l, hmem, rfl⟩ := List.mem_map.1 hline
    exact ⟨l, hmem, hname, (hl l hmem).extract hname hvalue⟩
  have hextract : extractLabels limits (T.deliver request) = .ok labels.toFinset := by
    refine extractLabels_eq_ok.2 ⟨fun g hg => ?_, fun l => ?_, hcard⟩
    · obtain ⟨l, -, -, hg⟩ := hline g hg
      exact ⟨_, hg⟩
    · rw [List.mem_toFinset]
      constructor
      · intro hmem
        obtain ⟨g, hg, hname, hvalue⟩ := (mem_deliver hrequest).2 ⟨labelLine l, List.mem_map_of_mem hmem, rfl, rfl⟩
        exact ⟨g, hg, (hl l hmem).extract hname.symm hvalue.symm⟩
      · rintro ⟨g, hg, hl'⟩
        obtain ⟨l', hmem, -, hg'⟩ := hline g hg
        rw [hl'] at hg'
        cases hg'
        exact hmem
  have hsync : parseSyncHeader (T.deliver request) default = .ok default := by
    have hnone : (T.deliver request).find? (fun h => h.name = "x-y2q-sync") = none := by
      refine List.find?_eq_none.2 fun g hg => ?_
      obtain ⟨l, hmem, hname, -⟩ := hline g hg
      rw [decide_eq_true_eq, ← hname]
      intro he
      have hl1 := lower_labelLine.1 (he.trans (by decide : "x-y2q-sync" = HEADER_PREFIX ++ "sync"))
      rw [(hl l hmem).lower] at hl1
      exact (hl l hmem).sendable.kept (hl1 ▸ by decide)
    rw [parseSyncHeader, hnone]
  simp only [put, hextract, hsync]
  rfl

/-- the labels survive exactly if each one does, and there are not too many -/
theorem roundTrip_iff (md : MetadataIndex.Metadata) : RoundTrip limits T default md ↔
    Plain md ∧ md.labels.toFinset.card ≤ limits.maxLabels ∧ ∀ l ∈ md.labels, Carried limits T l := by
  constructor
  · rintro ⟨headers, hheaders, hlabels, -, -, -, hput⟩
    obtain ⟨hplain, htaken⟩ := exists_objectHeaders.1 ⟨headers, hheaders⟩
    obtain ⟨request, sync, -, hput⟩ := hput md.labels hlabels.symm
    obtain ⟨labels, hextract, hput⟩ := bind_eq_ok.1 hput
    obtain ⟨_, -, hput⟩ := bind_eq_ok.1 hput
    cases hput
    obtain ⟨-, hmem, hcard⟩ := extractLabels_eq_ok.1 hextract
    refine ⟨hplain, hcard, fun l hl => ?_⟩
    obtain ⟨g, -, hg⟩ := (hmem l).1 (List.mem_toFinset.2 hl)
    obtain ⟨-, -, hsend, hbounded⟩ := extractLabel_eq_some.1 hg
    have hread := List.mem_toFinset.2 hl
    rw [← hlabels, mem_head_labels hheaders] at hread
    obtain ⟨⟨l', -, -, hvalue⟩, hshown, -⟩ := hread
    refine ⟨hsend, hbounded, hshown, ?_, ?_⟩
    · have hname := (htaken l hl).1
      rw [toAsciiLowercase_of_token hsend.name] at hname
      simp only [isHeaderName, Bool.and_eq_true, decide_eq_true_eq] at hname
      exact hname.2
    · rw [← hvalue, T.carry_carry]
  · rintro ⟨hplain, hcard, hcarried⟩
    obtain ⟨headers, hheaders⟩ := exists_objectHeaders.2 ⟨hplain, fun l hl => (hcarried l hl).taken⟩
    have hlabels : (head (T.deliver headers)).labels = md.labels.toFinset := by
      ext l
      rw [mem_head_labels hheaders, List.mem_toFinset]
      constructor
      · rintro ⟨⟨l', hl', hname, hvalue⟩, -, -⟩
        rw [(hcarried l' hl').lower] at hname
        rw [(hcarried l' hl').value] at hvalue
        rwa [← Prod.ext hname (utf8_inj hvalue)]
      · intro hl
        have h := hcarried l hl
        exact ⟨⟨l, hl, h.lower, h.value⟩, h.shown, h.sendable.value⟩
    obtain ⟨hsize, hcreated, hmodified⟩ := head_numbers (T := T) hheaders
    refine ⟨headers, hheaders, hlabels, hsize, hcreated, hmodified, fun labels hsame => ?_⟩
    rw [hlabels] at hsame
    have hl : ∀ l ∈ labels, Carried limits T l := by
      intro l hl
      exact hcarried l (List.mem_toFinset.1 (hsame ▸ List.mem_toFinset.2 hl))
    have htaken : ∀ l ∈ labels.map labelLine, ∃ h, headerLine l.1 l.2 = some h := by
      rw [List.forall_mem_map]
      exact fun l hmem => labelLine_taken.2 (hl l hmem).taken
    obtain ⟨request, hrequest⟩ := exists_headerLines.2 htaken
    rw [← hsame] at hcard ⊢
    exact ⟨request, default, hrequest, put_carried hl hcard hrequest⟩

/-! ## Labels that do not survive -/

def blankByte (b : UInt8) : Bool := b == 32 || b == 9

/-- HTTP/1.1 takes blanks off both ends of a value -/
def http1 : Transport where
  carry b := (b.dropWhile blankByte).rdropWhile blankByte
  carry_carry b := by
    have hfront : ∀ c : Bytes, ((c.dropWhile blankByte).rdropWhile blankByte).dropWhile blankByte =
        (c.dropWhile blankByte).rdropWhile blankByte := by
      intro c
      rw [List.dropWhile_eq_self_iff]
      intro hpos
      have hhead : (c.dropWhile blankByte).rdropWhile blankByte <+: c.dropWhile blankByte := List.rdropWhile_prefix _ _
      rw [hhead.getElem hpos]
      exact List.dropWhile_get_zero_not blankByte c (hpos.trans_le hhead.length_le)
    rw [hfront, List.rdropWhile_idempotent]
  carry_plain b hb := by
    have hno : ∀ x ∈ b, ¬blankByte x = true := by
      intro x hx
      simp [blankByte, hb x hx]
    have hfront : b.dropWhile blankByte = b := List.dropWhile_eq_self_iff.2 fun hpos => hno _ (List.getElem_mem hpos)
    rw [hfront, List.rdropWhile_eq_self_iff]
    exact fun hne => hno _ (List.getLast_mem hne)

def labelled (labels : List (String × String)) : MetadataIndex.Metadata where
  created := 1
  modified := 2
  size := 3
  checksumGxhash := "AAAAAAAAAAA="
  bucket := "b"
  key := "k"
  diskPath := "/data/b/k"
  urlPath := "b/k"
  labels := labels
  cipherSize := none
  cipherChecksum := none
  kemAlg := none
  aeadAlg := none
  envelopeVersion := none
  version := none
  committedAt := none
  keyEpoch := none

def sizeHeader : Header := ⟨"x-y2q-size", utf8 "7", by decide⟩

/-- a PUT takes a label that the client hides, and `PutObjectTagging` takes a tag that makes HEAD fail -/
theorem accepted_labels_lost :
    ((extractLabels ⟨4, 16, 32⟩ [sizeHeader]).toOption = some {("size", "7")} ∧
      ¬RoundTrip ⟨4, 16, 32⟩ http1 .Durable (labelled [("size", "7")])) ∧
    (replaceTags ⟨4, 16, 32⟩ ∅ [("a b", "1")]).toOption = some {("a b", "1")} ∧
      ¬RoundTrip ⟨4, 16, 32⟩ http1 .Durable (labelled [("a b", "1")]) := by
  refine ⟨⟨by decide, ?_⟩, by decide +kernel, ?_⟩
  · rintro ⟨headers, hheaders, hlabels, -⟩
    have hread : ("size", "7") ∈ (head (http1.deliver headers)).labels := by
      rw [hlabels]
      exact List.mem_toFinset.2 List.mem_cons_self
    exact absurd ((mem_head_labels hheaders).1 hread).2.1 (by decide)
  · rintro ⟨headers, hheaders, -⟩
    have htaken := (exists_objectHeaders.1 ⟨headers, hheaders⟩).2 ("a b", "1") List.mem_cons_self
    exact absurd htaken.1 (by decide)

end Y2q.LabelHeaders
