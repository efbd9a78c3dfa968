/-
Conditional requests of the S3 gateway (`check_conditionals` and `etag` of `s3/object.rs`, `apply_object_headers` of `s3/meta.rs`).

A response advertises an ETag and a Last-Modified of whole seconds. A client may send them back in If-Match, If-None-Match,
If-Unmodified-Since and If-Modified-Since, any of the four together. The ETag of an assembled object holds the text of its
`amz-mpu-parts` label; the ordinary API lets a client write that label too.

- `Agrees`: whatever of the received values a request sends back, the answer is never 412, and it is 304 for If-None-Match, and
  for If-Modified-Since without it.
- `conditionals_agree_iff`: that is so exactly for the objects that were modified on a whole second and whose part count, if there
  is one, is ASCII without a comma.
-/
import Mathlib.Tactic
import Y2q.Core.Pieces
import Y2q.Daemon.LabelHeaders
import Y2q.S3.HttpDate

namespace Y2q.Conditionals

open Labels Meta HttpDate
open LabelHeaders (headerLine headerLines headerLines_eq_some headerLine_eq_some valueByte)

/-! ## What a response advertises -/

def findLabel (md : MetadataIndex.Metadata) (name : String) : Option String := (md.labels.find? fun l => l.1 = name).map Prod.snd

def hexEncode (b : Bytes) : String := String.ofList (b.flatMap fun x => [Nat.digitChar (x.toNat / 16), Nat.digitChar (x.toNat % 16)])

def etagFromChecksumB64 (b64 : String) : String := "\"" ++ hexEncode ((Base64.decode b64).getD []) ++ "\""

def etag (md : MetadataIndex.Metadata) : String :=
  match findLabel md MPU_PARTS_LABEL with
  | some n => "\"" ++ hexEncode ((Base64.decode md.checksumGxhash).getD []) ++ "-" ++ n ++ "\""
  | none => etagFromChecksumB64 md.checksumGxhash

/-- a header that the query overrides, or the label it is kept in -/
def systemLine (md : MetadataIndex.Metadata) (sub : String → Option String) (header label : String) : Option (String × String) :=
  let value := (sub ("response-" ++ header)).orElse fun _ => findLabel md label
  if header = "content-type" then some (header, value.getD "binary/octet-stream") else value.map fun v => (header, v)

def metaLine (l : String × String) : Option (String × String) :=
  (stripPrefix "amz-meta-" l.1).map fun name => ("x-amz-meta-" ++ name, l.2)

def objectLines (md : MetadataIndex.Metadata) (sub : String → Option String) (lastModified : String) : List (String × String) :=
  S3_SYSTEM_HEADERS.filterMap (fun h => systemLine md sub h.1 h.2) ++ md.labels.filterMap metaLine ++
    [("ETag", etag md), ("Last-Modified", lastModified), ("Accept-Ranges", "bytes"), ("x-amz-server-side-encryption", "AES256")]

/-- none: a value is no header value, and the response is an error -/
def applyObjectHeaders (md : MetadataIndex.Metadata) (sub : String → Option String) : Except Fault (Option (List Header)) := do
  let lastModified ← httpDate (md.modified.toNat / 1000000000)
  .ok (headerLines (objectLines md sub lastModified))

/-! ## What a request asks -/

inductive Short where
  | preconditionFailed
  | notModified
  deriving DecidableEq, Repr

/-- one of the tags in a list -/
def tagListed (v current : String) : Bool := (v.toList.splitOn ',').any fun t => ChunkedBody.trim t = current.toList

/-- the test of a date, if there is one that can be read -/
def dateTest (req : List Header) (name : String) (test : ℕ → Bool) : Except Fault Bool :=
  match getStr req name with
  | none => .ok false
  | some v => (parseHttpDate v).map fun t => t.any test

/-- If-Match, or else If-Unmodified-Since, refuses -/
def refused (req : List Header) (md : MetadataIndex.Metadata) : Except Fault Bool :=
  match getStr req "if-match" with
  | some v => .ok (v ≠ "*" && !tagListed v (etag md))
  | none => dateTest req "if-unmodified-since" fun t => t * 1000000000 < md.modified.toNat

/-- by If-None-Match, or else If-Modified-Since, the client has the object -/
def unchanged (req : List Header) (md : MetadataIndex.Metadata) : Except Fault Bool :=
  match getStr req "if-none-match" with
  | some v => .ok (v = "*" || tagListed v (etag md))
  | none => dateTest req "if-modified-since" fun t => md.modified.toNat ≤ t * 1000000000

def checkConditionals (req : List Header) (md : MetadataIndex.Metadata) : Except Fault (Option Short) := do
  if ← refused req md then .ok (some .preconditionFailed)
  else if ← unchanged req md then .ok (some .notModified)
  else .ok none

/-! ## Sending back what was received -/

/-- the conditional headers of a request repeat a value of the response -/
def Echoes (resp req : List Header) : Prop :=
  ∀ h ∈ req,
    (h.name = "if-match" ∨ h.name = "if-none-match" → ∃ g ∈ resp, g.name = "etag" ∧ g.value = h.value) ∧
    (h.name = "if-unmodified-since" ∨ h.name = "if-modified-since" → ∃ g ∈ resp, g.name = "last-modified" ∧ g.value = h.value)

def Sends (req : List Header) (name : String) : Prop := ∃ h ∈ req, h.name = name

def Agrees (md : MetadataIndex.Metadata) (resp : List Header) : Prop :=
  ∀ req, Echoes resp req → ∃ r, checkConditionals req md = .ok r ∧ r ≠ some .preconditionFailed ∧
    (Sends req "if-none-match" → r = some .notModified) ∧
    (Sends req "if-modified-since" → ¬Sends req "if-none-match" → r = some .notModified)

/-- a list of tags that holds this one can be read back -/
def PlainParts (n : String) : Prop := ',' ∉ n.toList ∧ ∀ b ∈ utf8 n, b < 128

/-! ## Header values -/

theorem plainParts_append {a b : String} : PlainParts (a ++ b) ↔ PlainParts a ∧ PlainParts b := by
  simp only [PlainParts, String.toList_append, utf8_append, List.mem_append, not_or, or_imp, forall_and]
  tauto

theorem plainParts_of_all {s : String} (h : s.toList.all (fun c => c.toNat < 128 && c != ',') = true) : PlainParts s := by
  simp only [List.all_eq_true, Bool.and_eq_true, decide_eq_true_eq, bne_iff_ne] at h
  exact ⟨fun hc => (h _ hc).2 rfl, fun x hx => UInt8.lt_iff_toNat_lt.2 (lt_of_mem_utf8_ascii le_rfl (fun c hc => (h c hc).1) x hx)⟩

theorem hex_plain (b : Bytes) : PlainParts (hexEncode b) := by
  have hdigit : ∀ i < 16, (Nat.digitChar i).toNat < 128 ∧ Nat.digitChar i ≠ ',' := by decide
  refine plainParts_of_all (List.all_eq_true.2 fun c hc => ?_)
  rw [hexEncode, String.toList_ofList] at hc
  obtain ⟨y, -, hc⟩ := List.mem_flatMap.1 hc
  have hy := y.toNat_lt
  simp only [List.mem_cons, List.not_mem_nil, or_false] at hc
  simp only [Bool.and_eq_true, decide_eq_true_eq, bne_iff_ne]
  rcases hc with rfl | rfl
  · exact hdigit _ (by omega)
  · exact hdigit _ (Nat.mod_lt _ (by norm_num))

/-- the ETag is a list of one tag, and ASCII, if the part count is plain -/
theorem etag_plain_iff (md : MetadataIndex.Metadata) :
    PlainParts (etag md) ↔ ∀ n, findLabel md MPU_PARTS_LABEL = some n → PlainParts n := by
  have hquote : PlainParts "\"" := plainParts_of_all rfl
  have hdash : PlainParts "-" := plainParts_of_all rfl
  rw [etag]
  cases findLabel md MPU_PARTS_LABEL with
  | none => simp [etagFromChecksumB64, plainParts_append, hquote, hex_plain]
  | some n => simp [plainParts_append, hquote, hdash, hex_plain]

/-- between its quotes there is nothing to trim -/
theorem etag_quoted (md : MetadataIndex.Metadata) : ∃ s, (etag md).toList = '"' :: (s ++ ['"']) := by
  rw [etag]
  cases findLabel md MPU_PARTS_LABEL with
  | none => exact ⟨(hexEncode ((Base64.decode md.checksumGxhash).getD [])).toList, by simp [etagFromChecksumB64]⟩
  | some n => exact ⟨(hexEncode ((Base64.decode md.checksumGxhash).getD [])).toList ++ '-' :: n.toList, by simp⟩

theorem trim_quoted (s : List Char) : ChunkedBody.trim ('"' :: (s ++ ['"'])) = '"' :: (s ++ ['"']) := by
  have hquote : ChunkedBody.isWhitespace '"' = false := rfl
  simp [ChunkedBody.trim, hquote]

theorem trim_subset (s : List Char) : ChunkedBody.trim s ⊆ s := by
  intro c hc
  have h1 := (List.dropWhile_suffix _).subset (List.mem_reverse.1 hc)
  exact (List.dropWhile_suffix _).subset (List.mem_reverse.1 h1)

/-- the tag is in the list that it is itself exactly if it has no comma -/
theorem tagListed_self (md : MetadataIndex.Metadata) : tagListed (etag md) (etag md) = true ↔ ',' ∉ (etag md).toList := by
  obtain ⟨s, hs⟩ := etag_quoted md
  constructor
  · intro h hc
    obtain ⟨t, ht, heq⟩ := List.any_eq_true.1 h
    rw [← of_decide_eq_true heq] at hc
    exact notMem_of_mem_splitOn ht (trim_subset t hc)
  · intro hc
    rw [tagListed, List.splitOn_eq_singleton hc]
    simp [hs, trim_quoted]

theorem etag_ne_star (md : MetadataIndex.Metadata) : etag md ≠ "*" := by
  obtain ⟨s, hs⟩ := etag_quoted md
  intro h
  rw [h] at hs
  exact absurd (List.cons.inj hs).1 (by decide)

/-- a header value of the response can be read in a request, if it is ASCII -/
theorem toStr_iff {s : String} (h : (utf8 s).all valueByte = true) : toStr (utf8 s) = some s ↔ ∀ x ∈ utf8 s, x < 128 := by
  simp only [toStr_eq_some, true_and, List.all_eq_true] at h ⊢
  refine forall₂_congr fun x hx => ?_
  have hx := h x hx
  simp only [valueByte, visibleByte, Bool.or_eq_true, Bool.and_eq_true, decide_eq_true_eq, beq_iff_eq, UInt8.lt_iff_toNat_lt,
    UInt8.le_iff_toNat_le, ← UInt8.toNat_inj, ne_eq] at hx ⊢
  have h32 : (32 : UInt8).toNat = 32 := rfl
  have h127 : (127 : UInt8).toNat = 127 := rfl
  have h128 : (128 : UInt8).toNat = 128 := rfl
  have h9 : (9 : UInt8).toNat = 9 := rfl
  omega

theorem toStr_none {s : String} (h : ¬∀ x ∈ utf8 s, x < 128) : toStr (utf8 s) = none := by
  rw [Option.eq_none_iff_forall_ne_some]
  intro t ht
  obtain ⟨heq, hvisible⟩ := toStr_eq_some.1 ht
  obtain rfl := utf8_inj heq
  refine h fun x hx => ?_
  have hv := List.all_eq_true.1 hvisible x hx
  simp only [visibleByte, Bool.or_eq_true, Bool.and_eq_true, decide_eq_true_eq, beq_iff_eq] at hv
  rcases hv with hv | rfl
  · exact hv.2.trans (by decide)
  · decide

/-! ## What comes back -/

theorem mem_headerLines {lines : List (String × String)} {headers : List Header} (h : headerLines lines = some headers)
    {name : String} {value : Bytes} : (∃ g ∈ headers, g.name = name ∧ g.value = value) ↔
      ∃ l ∈ lines, toAsciiLowercase l.1 = name ∧ utf8 l.2 = value := by
  rw [headerLines_eq_some] at h
  induction h with
  | nil => simp
  | cons hl _ ih =>
    obtain ⟨-, hname, hvalue⟩ := headerLine_eq_some.1 hl
    simp only [List.mem_cons, exists_eq_or_imp, ih, hname, hvalue]

theorem legal_of_mem {lines : List (String × String)} {headers : List Header} (h : headerLines lines = some headers) {l : String × String}
    (hl : l ∈ lines) : (utf8 l.2).all valueByte = true := by
  rw [headerLines_eq_some] at h
  induction h with
  | nil => exact absurd hl List.not_mem_nil
  | cons hline _ ih =>
    rcases List.mem_cons.1 hl with rfl | hl
    · exact (headerLine_eq_some.1 hline).1
    · exact ih hl

variable {md : MetadataIndex.Metadata} {sub : String → Option String} {text : String}

theorem etag_name : toAsciiLowercase "ETag" = "etag" := by decide

theorem lastModified_name : toAsciiLowercase "Last-Modified" = "last-modified" := by decide

/-- the labels bring neither an ETag nor a Last-Modified of their own -/
theorem line_values {l : String × String} (hl : l ∈ objectLines md sub text) :
    (toAsciiLowercase l.1 = "etag" → l.2 = etag md) ∧ (toAsciiLowercase l.1 = "last-modified" → l.2 = text) := by
  simp only [objectLines, List.mem_append, List.mem_cons, List.not_mem_nil, or_false, List.mem_filterMap] at hl
  obtain (⟨h, hh, hline⟩ | ⟨m, -, hline⟩) | rfl | rfl | rfl | rfl := hl
  · have hname : l.1 = h.1 := by
      rw [systemLine] at hline
      split_ifs at hline
      · cases hline
        rfl
      · obtain ⟨v, -, rfl⟩ := Option.map_eq_some_iff.1 hline
        rfl
    rw [hname]
    simp only [S3_SYSTEM_HEADERS, List.mem_cons, List.not_mem_nil, or_false] at hh
    rcases hh with rfl | rfl | rfl | rfl | rfl | rfl <;> exact ⟨fun h => absurd h (by decide), fun h => absurd h (by decide)⟩
  · obtain ⟨name, -, rfl⟩ := Option.map_eq_some_iff.1 hline
    constructor <;>
    · intro h
      have hx := congrArg (fun s : String => s.toList.head?) h
      simp [toAsciiLowercase, String.toList_append] at hx
  · exact ⟨fun _ => rfl, fun h => absurd (etag_name.symm.trans h) (by decide)⟩
  · exact ⟨fun h => absurd (lastModified_name.symm.trans h) (by decide), fun _ => rfl⟩
  · exact ⟨fun h => absurd h (by decide), fun h => absurd h (by decide)⟩
  · exact ⟨fun h => absurd h (by decide), fun h => absurd h (by decide)⟩

theorem received_iff {resp : List Header} (h : headerLines (objectLines md sub text) = some resp) (value : Bytes) :
    ((∃ g ∈ resp, g.name = "etag" ∧ g.value = value) ↔ value = utf8 (etag md)) ∧
      ((∃ g ∈ resp, g.name = "last-modified" ∧ g.value = value) ↔ value = utf8 text) := by
  rw [mem_headerLines h, mem_headerLines h]
  constructor
  · constructor
    · rintro ⟨l, hl, hname, rfl⟩
      rw [(line_values hl).1 hname]
    · rintro rfl
      exact ⟨("ETag", etag md), by simp [objectLines], etag_name, rfl⟩
  · constructor
    · rintro ⟨l, hl, hname, rfl⟩
      rw [(line_values hl).2 hname]
    · rintro rfl
      exact ⟨("Last-Modified", text), by simp [objectLines], lastModified_name, rfl⟩

/-- of a header that is always sent with one value -/
theorem getStr_eq {req : List Header} {name : String} {value : Bytes} (h : ∀ g ∈ req, g.name = name → g.value = value) :
    Sends req name ∧ getStr req name = toStr value ∨ ¬Sends req name ∧ getStr req name = none := by
  rw [getStr]
  cases hfind : req.find? fun g => g.name = name with
  | none =>
    refine .inr ⟨?_, rfl⟩
    rintro ⟨g, hg, hname⟩
    exact absurd hname (by simpa using List.find?_eq_none.1 hfind g hg)
  | some g =>
    have hname : g.name = name := by simpa using List.find?_some hfind
    have hg := List.mem_of_find?_eq_some hfind
    exact .inl ⟨⟨g, hg, hname⟩, by rw [Option.bind_some, h g hg hname]⟩

theorem isDigit_ascii {c : Char} (h : c.isDigit = true) : c.toNat < 128 := by
  simp only [Char.isDigit, Bool.and_eq_true, decide_eq_true_eq, UInt32.le_iff_toNat_le] at h
  exact h.2.trans_lt (by decide)

theorem imfFixdate_ascii {weekday y m d hour minute second : ℕ} (hw : weekday < 7) (hm : m ≤ 12) :
    ∀ x ∈ utf8 (imfFixdate weekday y m d hour minute second), x < 128 := by
  have htwo : ∀ n : ℕ, (twoDigits n).toList.all (fun c => c.toNat < 128) = true := fun n => List.all_eq_true.2 fun c hc =>
    decide_eq_true (isDigit_ascii ((parseDigits_eq_some (parseDigits_twoDigits n)).2 c hc))
  have hyear : (toString (y : ℤ)).toList.all (fun c => c.toNat < 128) = true := List.all_eq_true.2 fun c hc =>
    decide_eq_true (isDigit_ascii ((parseDigits_eq_some (parseDigits_toString y)).2 c hc))
  have hweekday : (WEEKDAYS.getD weekday "").toList.all (fun c => c.toNat < 128) = true := by interval_cases weekday <;> rfl
  have hmonth : (MONTHS.getD m "").toList.all (fun c => c.toNat < 128) = true := by interval_cases m <;> rfl
  have hall : (imfFixdate weekday y m d hour minute second).toList.all (fun c => c.toNat < 128) = true := by
    simp only [imfFixdate, String.toList_append, List.all_append, htwo, hyear, hweekday, hmonth]
    rfl
  intro x hx
  exact UInt8.lt_iff_toNat_lt.2 (lt_of_mem_utf8_ascii le_rfl (fun c hc => of_decide_eq_true (List.all_eq_true.1 hall c hc)) x hx)

/-- the date of a response is ASCII, and read again it is the second in which the object was modified -/
theorem lastModified_spec (md : MetadataIndex.Metadata) : ∃ text, httpDate (md.modified.toNat / 1000000000) = .ok text ∧
    parseHttpDate text = .ok (some (md.modified.toNat / 1000000000)) ∧ ∀ x ∈ utf8 text, x < 128 := by
  have hlt := md.modified.toNat_lt
  obtain ⟨text, htext, hparse⟩ := parseHttpDate_httpDate (t := md.modified.toNat / 1000000000) (by omega)
  refine ⟨text, htext, hparse, ?_⟩
  rw [httpDate_eq (by omega)] at htext
  obtain rfl := Except.ok.inj htext
  obtain ⟨hvalid, -⟩ := Calendar.civil_spec (md.modified.toNat / 1000000000 / 86400 : ℕ)
  obtain ⟨year, hyear⟩ := Int.eq_ofNat_of_zero_le (civil_year_nonneg (md.modified.toNat / 1000000000 / 86400))
  rw [hyear]
  exact imfFixdate_ascii (Nat.mod_lt _ (by norm_num)) hvalid.month_le

theorem getStr_single {h : Header} (name : String) : getStr [h] name = if h.name = name then toStr h.value else none := by
  rw [getStr, List.find?_singleton]
  split_ifs with hd hn hn
  · rfl
  · exact absurd (of_decide_eq_true hd) hn
  · exact absurd (decide_eq_true hn) hd
  · rfl

/-! ## Requests that echo a response -/

section Echo

variable {resp : List Header} (hlines : headerLines (objectLines md sub text) = some resp)
  (hparse : parseHttpDate text = .ok (some (md.modified.toNat / 1000000000))) (hascii : ∀ x ∈ utf8 text, x < 128)

include hlines hascii in
theorem toStr_lastModified : toStr (utf8 text) = some text :=
  (toStr_iff (legal_of_mem hlines (l := ("Last-Modified", text)) (by simp [objectLines]))).2 hascii

include hlines in
theorem toStr_etag (h : ∀ x ∈ utf8 (etag md), x < 128) : toStr (utf8 (etag md)) = some (etag md) :=
  (toStr_iff (legal_of_mem hlines (l := ("ETag", etag md)) (by simp [objectLines]))).2 h

include hlines hascii hparse in
/-- a date that is sent back is tested against the second it names -/
theorem dateTest_echo {req : List Header} {name : String} (hreq : Echoes resp req)
    (hname : name = "if-unmodified-since" ∨ name = "if-modified-since") (test : ℕ → Bool) :
    Sends req name ∧ dateTest req name test = .ok (test (md.modified.toNat / 1000000000)) ∨
      ¬Sends req name ∧ dateTest req name test = .ok false := by
  have hvalue : ∀ g ∈ req, g.name = name → g.value = utf8 text := fun g hg h =>
    ((received_iff hlines g.value).2.1 ((hreq g hg).2 (h ▸ hname)))
  rw [dateTest]
  rcases getStr_eq hvalue with ⟨hsends, hstr⟩ | ⟨hsends, hstr⟩
  · rw [hstr, toStr_lastModified hlines hascii]
    exact .inl ⟨hsends, congrArg (Except.map fun t => t.any test) hparse⟩
  · rw [hstr]
    exact .inr ⟨hsends, rfl⟩

include hlines in
theorem getStr_etag {req : List Header} {name : String} (hreq : Echoes resp req) (hname : name = "if-match" ∨ name = "if-none-match") :
    Sends req name ∧ getStr req name = toStr (utf8 (etag md)) ∨ ¬Sends req name ∧ getStr req name = none :=
  getStr_eq fun g hg h => (received_iff hlines g.value).1.1 ((hreq g hg).1 (h ▸ hname))

include hlines hparse hascii

theorem refused_echo {req : List Header} (hreq : Echoes resp req) (hwhole : md.modified.toNat % 1000000000 = 0)
    (hplain : PlainParts (etag md)) : refused req md = .ok false := by
  rw [refused]
  rcases getStr_etag hlines hreq (.inl rfl) with ⟨-, hstr⟩ | ⟨-, hstr⟩
  · simp [hstr, toStr_etag hlines hplain.2, (tagListed_self md).2 hplain.1]
  · simp only [hstr]
    have htest : decide (md.modified.toNat / 1000000000 * 1000000000 < md.modified.toNat) = false := decide_eq_false (by omega)
    rcases dateTest_echo hlines hparse hascii hreq (.inl rfl) fun t => t * 1000000000 < md.modified.toNat with ⟨-, h⟩ | ⟨-, h⟩
    · rw [h, htest]
    · exact h

theorem unchanged_echo {req : List Header} (hreq : Echoes resp req) (hwhole : md.modified.toNat % 1000000000 = 0)
    (hplain : PlainParts (etag md)) : ∃ b, unchanged req md = .ok b ∧ (Sends req "if-none-match" → b = true) ∧
      (Sends req "if-modified-since" → ¬Sends req "if-none-match" → b = true) := by
  rw [unchanged]
  rcases getStr_etag hlines hreq (.inr rfl) with ⟨hsends, hstr⟩ | ⟨hsends, hstr⟩
  · refine ⟨true, ?_, fun _ => rfl, fun _ _ => rfl⟩
    simp [hstr, toStr_etag hlines hplain.2, (tagListed_self md).2 hplain.1]
  · simp only [hstr]
    have htest : decide (md.modified.toNat ≤ md.modified.toNat / 1000000000 * 1000000000) = true := decide_eq_true (by omega)
    rcases dateTest_echo hlines hparse hascii hreq (.inr rfl) fun t => md.modified.toNat ≤ t * 1000000000 with ⟨-, h⟩ | ⟨hno, h⟩
    · exact ⟨true, h.trans (congrArg Except.ok htest), fun _ => rfl, fun _ _ => rfl⟩
    · exact ⟨false, h, fun hyes => absurd hyes hsends, fun hyes => absurd hyes hno⟩

theorem agrees_of_plain (hwhole : md.modified.toNat % 1000000000 = 0) (hplain : PlainParts (etag md)) : Agrees md resp := by
  intro req hreq
  obtain ⟨b, hb, hnone, hsince⟩ := unchanged_echo hlines hparse hascii hreq hwhole hplain
  refine ⟨if b then some .notModified else none, ?_, ?_, fun h => by rw [hnone h]; rfl, fun h hn => by rw [hsince h hn]; rfl⟩
  · rw [checkConditionals, refused_echo hlines hparse hascii hreq hwhole hplain, hb]
    cases b <;> rfl
  · cases b <;> exact nofun

/-- a fraction of a second is behind the date that was sent -/
theorem whole_of_agrees (h : Agrees md resp) : md.modified.toNat % 1000000000 = 0 := by
  by_contra hfrac
  obtain ⟨g, hname, hvalue⟩ : ∃ g : Header, g.name = "if-unmodified-since" ∧ g.value = utf8 text :=
    ⟨⟨"if-unmodified-since", utf8 text, by decide⟩, rfl, rfl⟩
  have hecho : Echoes resp [g] := by
    intro g' hg
    rw [List.mem_singleton] at hg
    subst hg
    rw [hname]
    exact ⟨fun h => absurd h (by decide), fun _ => (received_iff hlines _).2.2 hvalue⟩
  obtain ⟨r, hr, hne, -⟩ := h _ hecho
  have htest : decide (md.modified.toNat / 1000000000 * 1000000000 < md.modified.toNat) = true := decide_eq_true (by omega)
  have hmatch : getStr [g] "if-match" = none := by rw [getStr_single, hname, if_neg (by decide)]
  have hrefused : refused [g] md = .ok true := by
    rw [refused, hmatch]
    rcases dateTest_echo hlines hparse hascii hecho (.inl rfl) fun t => t * 1000000000 < md.modified.toNat with ⟨-, h⟩ | ⟨hno, -⟩
    · exact h.trans (congrArg Except.ok htest)
    · exact absurd ⟨g, List.mem_singleton_self g, hname⟩ hno
  refine hne (Except.ok.inj (hr.symm.trans ?_))
  rw [checkConditionals, hrefused]
  rfl

omit hparse hascii in
/-- a tag that is not ASCII is not seen, and one with a comma is taken for two -/
theorem plain_of_agrees (h : Agrees md resp) : PlainParts (etag md) := by
  by_contra hplain
  obtain ⟨g, hname, hvalue⟩ : ∃ g : Header, g.name = "if-none-match" ∧ g.value = utf8 (etag md) :=
    ⟨⟨"if-none-match", utf8 (etag md), by decide⟩, rfl, rfl⟩
  have hecho : Echoes resp [g] := by
    intro g' hg
    rw [List.mem_singleton] at hg
    subst hg
    rw [hname]
    exact ⟨fun _ => (received_iff hlines _).1.2 hvalue, fun h => absurd h (by decide)⟩
  obtain ⟨r, hr, -, hnone, -⟩ := h _ hecho
  have hunchanged : unchanged [g] md = .ok false := by
    by_cases hvisible : ∀ x ∈ utf8 (etag md), x < 128
    · have hcomma : ¬tagListed (etag md) (etag md) = true := fun hl => hplain ⟨(tagListed_self md).1 hl, hvisible⟩
      simp [unchanged, getStr_single, hname, hvalue, toStr_etag hlines hvisible, etag_ne_star, hcomma]
    · simp [unchanged, dateTest, getStr_single, hname, hvalue, toStr_none hvisible]
  have hrefused : refused [g] md = .ok false := by simp [refused, dateTest, getStr_single, hname]
  have hno : checkConditionals [g] md = .ok none := by
    rw [checkConditionals, hrefused, hunchanged]
    rfl
  have hyes := hnone ⟨g, List.mem_singleton_self g, hname⟩
  exact nomatch (Except.ok.inj (hr.symm.trans hno)).symm.trans hyes

end Echo

theorem applyObjectHeaders_eq_ok (htext : httpDate (md.modified.toNat / 1000000000) = .ok text) {resp : List Header} :
    applyObjectHeaders md sub = .ok (some resp) ↔ headerLines (objectLines md sub text) = some resp := by
  rw [applyObjectHeaders, htext]
  exact ⟨fun h => Except.ok.inj h, fun h => congrArg Except.ok h⟩

theorem conditionals_agree_iff (md : MetadataIndex.Metadata) (sub : String → Option String) :
    (∀ resp, applyObjectHeaders md sub = .ok (some resp) → Agrees md resp) ↔
      ((∃ resp, applyObjectHeaders md sub = .ok (some resp)) →
        md.modified.toNat % 1000000000 = 0 ∧ ∀ n, findLabel md MPU_PARTS_LABEL = some n → PlainParts n) := by
  obtain ⟨text, htext, hparse, hascii⟩ := lastModified_spec md
  simp only [applyObjectHeaders_eq_ok htext, ← etag_plain_iff]
  constructor
  · rintro h ⟨resp, hresp⟩
    exact ⟨whole_of_agrees hresp hparse hascii (h resp hresp), plain_of_agrees hresp (h resp hresp)⟩
  · intro h resp hresp
    obtain ⟨hwhole, hplain⟩ := h ⟨resp, hresp⟩
    exact agrees_of_plain hresp hparse hascii hwhole hplain

/-- modified a nanosecond after the second -/
def freshObject : MetadataIndex.Metadata where
  created := 1
  modified := 1
  size := 0
  checksumGxhash := ""
  bucket := "b"
  key := "k"
  diskPath := ""
  urlPath := ""
  labels := []
  cipherSize := none
  cipherChecksum := none
  kemAlg := none
  aeadAlg := none
  envelopeVersion := none
  version := none
  committedAt := none
  keyEpoch := none

/-- its own date, sent back at once, is refused -/
theorem freshObject_refused :
    checkConditionals [⟨"if-unmodified-since", utf8 "Thu, 01 Jan 1970 00:00:00 GMT", by decide⟩] freshObject =
      .ok (some .preconditionFailed) ∧
    ¬∀ md sub resp, applyObjectHeaders md sub = .ok (some resp) → Agrees md resp := by
  have hcomputed : checkConditionals [⟨"if-unmodified-since", utf8 "Thu, 01 Jan 1970 00:00:00 GMT", by decide⟩] freshObject =
      .ok (some .preconditionFailed) ∧ (applyObjectHeaders freshObject fun _ => none).toOption.join.isSome = true := by
    decide +kernel
  refine ⟨hcomputed.1, fun hall => ?_⟩
  obtain ⟨resp, hresp⟩ := Option.isSome_iff_exists.1 hcomputed.2
  have happly : applyObjectHeaders freshObject (fun _ => none) = .ok (some resp) := by
    cases h : applyObjectHeaders freshObject fun _ => none with
    | error e => exact nomatch (h ▸ hresp :)
    | ok r => exact congrArg Except.ok (h ▸ hresp :)
  obtain ⟨text, htext, hparse, hascii⟩ := lastModified_spec freshObject
  have hwhole := whole_of_agrees ((applyObjectHeaders_eq_ok htext).1 happly) hparse hascii (hall _ _ _ happly)
  exact absurd hwhole (by decide)

end Y2q.Conditionals
