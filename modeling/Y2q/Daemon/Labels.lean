/-
Labels as the REST interface takes them (`handlers/labels.rs`, `handlers/tags.rs`).

- `extractLabels`: the `X-Y2Q-<label>` headers of a request.
- `LabelMode.resolve`: what a PATCH makes of the labels that an object has.
- `Within`: what `extractLabels` lets through. `extractLabel_eq_some`, `extractLabels_within`: nothing else.
-/
import Mathlib.Tactic
import Y2q.Core.Text
import Y2q.Storage.Objects

namespace Y2q.Labels

open Objects (LabelSet)

/-! ## Headers -/

/-- the characters of a header's name, in lower case -/
def tokenChar (c : Char) : Bool := c.isLower || c.isDigit || c ∈ "!#$%&'*+-.^_`|~".toList

/-- what the HTTP library takes for a header's name, once it is in lower case -/
def isHeaderName (s : String) : Bool := !s.isEmpty && s.toList.all tokenChar && s.utf8ByteSize ≤ 65535

/-- a header line of a request; the HTTP library has put the name in lower case -/
structure Header where
  name : String
  value : Bytes
  legal : isHeaderName name = true

/-- what `to_str` takes: visible ASCII, blanks and tabs -/
def visibleByte (b : UInt8) : Bool := (32 ≤ b && b < 127) || b == 9

/-- `HeaderValue::to_str` -/
def toStr (value : Bytes) : Option String := if value.all visibleByte then fromUtf8 value else none

def toAsciiLowercase (s : String) : String := String.ofList (s.toList.map Char.toLower)

def stripPrefix (pfx s : String) : Option String :=
  if pfx.toList.isPrefixOf s.toList then some (String.ofList (s.toList.drop pfx.toList.length)) else none

/-! ## Labels of a request -/

/-- per request -/
structure LabelLimits where
  maxLabels : ℕ
  maxLabelNameBytes : ℕ
  maxLabelValueBytes : ℕ

inductive LabelError where
  | reservedLabel (name : String)
  | labelNameTooLong (name : String)
  | invalidLabelValue (name : String)
  | labelValueTooLong (name : String)
  | tooManyLabels (count : ℕ)

def HEADER_PREFIX : String := "x-y2q-"

def RESERVED : List String := ["created", "modified", "checksum-gxhash"]

/-- parsed by a handler of its own, and no label -/
def CONSUMED_BY_HANDLER : List String := ["sync"]

variable (limits : LabelLimits)

/-- the label in one header, if it has one -/
def extractLabel (h : Header) : Except LabelError (Option (String × String)) :=
  match stripPrefix HEADER_PREFIX (toAsciiLowercase h.name) with
  | none => .ok none
  | some label =>
    if label.isEmpty then .ok none
    else if label ∈ CONSUMED_BY_HANDLER then .ok none
    else if label ∈ RESERVED then .error (.reservedLabel label)
    else if label.utf8ByteSize > limits.maxLabelNameBytes then .error (.labelNameTooLong label)
    else
      match toStr h.value with
      | none => .error (.invalidLabelValue label)
      | some value =>
        if value.utf8ByteSize > limits.maxLabelValueBytes then .error (.labelValueTooLong label)
        else .ok (some (label, value))

/-- the loop over the headers -/
def extractAll : LabelSet → List Header → Except LabelError LabelSet
  | out, [] => .ok out
  | out, h :: headers =>
    match extractLabel limits h with
    | .error e => .error e
    | .ok none => extractAll out headers
    | .ok (some label) => extractAll (insert label out) headers

def extractLabels (headers : List Header) : Except LabelError LabelSet :=
  match extractAll limits ∅ headers with
  | .error e => .error e
  | .ok out => if out.card > limits.maxLabels then .error (.tooManyLabels out.card) else .ok out

/-! ## Label edits -/

inductive LabelMode where
  | Set
  | Remove
  | Replace
deriving DecidableEq

/-- `?op=` -/
def LabelMode.ofOp (op : Option String) : Except LabelError LabelMode :=
  match op.getD "set" with
  | "set" => .ok .Set
  | "remove" => .ok .Remove
  | "replace" => .ok .Replace
  | other => .error (.invalidLabelValue ("op=" ++ other ++ " (expected set|remove|replace)"))

def LabelMode.resolve (mode : LabelMode) (current incoming : LabelSet) : LabelSet :=
  match mode with
  | .Set => current ∪ incoming
  | .Remove => if incoming = ∅ then ∅ else current.filter fun l => l.1 ∉ incoming.image Prod.fst
  | .Replace => incoming

/-! ## What a PUT lets through -/

/-- a label that a client can send in an `X-Y2Q-` header, whatever its length -/
structure Sendable (l : String × String) : Prop where
  name : l.1.toList.all tokenChar = true
  nonempty : l.1 ≠ ""
  kept : l.1 ∉ CONSUMED_BY_HANDLER
  value : (utf8 l.2).all visibleByte = true

/-- what all ways to a label check -/
structure Bounded (l : String × String) : Prop where
  free : l.1 ∉ RESERVED
  name : l.1.utf8ByteSize ≤ limits.maxLabelNameBytes
  value : l.2.utf8ByteSize ≤ limits.maxLabelValueBytes

/-- the labels of an object are within the limits -/
structure Within (labels : LabelSet) : Prop where
  count : labels.card ≤ limits.maxLabels
  sendable : ∀ l ∈ labels, Sendable l
  bounded : ∀ l ∈ labels, Bounded limits l

variable {limits}

theorem toLower_of_token {c : Char} (h : tokenChar c = true) : c.toLower = c := by
  have hupper : ¬(c.val ≥ 'A'.val ∧ c.val ≤ 'Z'.val) := by
    simp only [tokenChar, Bool.or_eq_true, decide_eq_true_eq] at h
    rcases h with (h | h) | h
    · change (decide (c.val ≥ 'a'.val) && decide (c.val ≤ 'z'.val)) = true at h
      simp only [Bool.and_eq_true, decide_eq_true_eq, UInt32.le_iff_toNat_le, ge_iff_le] at h ⊢
      simp at h ⊢
      omega
    · simp only [Char.isDigit, Bool.and_eq_true, decide_eq_true_eq, UInt32.le_iff_toNat_le, ge_iff_le] at h ⊢
      simp at h ⊢
      omega
    · have hall : "!#$%&'*+-.^_`|~".toList.all (fun d => !(decide (d.val ≥ 'A'.val) && decide (d.val ≤ 'Z'.val))) = true := by decide
      have hc := List.all_eq_true.1 hall c h
      rw [Bool.not_eq_true', Bool.and_eq_false_iff, decide_eq_false_iff_not, decide_eq_false_iff_not] at hc
      exact fun hboth => hc.elim (· hboth.1) (· hboth.2)
  exact dif_neg hupper

theorem toAsciiLowercase_of_token {s : String} (h : s.toList.all tokenChar = true) : toAsciiLowercase s = s := by
  have hmap : s.toList.map Char.toLower = s.toList.map id := by
    refine List.map_congr_left fun c hc => ?_
    exact toLower_of_token (List.all_eq_true.1 h c hc)
  rw [toAsciiLowercase, hmap, List.map_id, String.ofList_toList]

theorem stripPrefix_eq_some {p s r : String} : stripPrefix p s = some r ↔ s = p ++ r := by
  rw [stripPrefix]
  split_ifs with h
  · obtain ⟨t, ht⟩ := List.isPrefixOf_iff_prefix.1 h
    have hs : s = p ++ String.ofList t := by rw [← String.toList_inj, ← ht, String.toList_append, String.toList_ofList]
    have hdrop : s.toList.drop p.toList.length = t := by rw [← ht, List.drop_left]
    rw [Option.some_inj, hdrop, hs, ← String.toList_inj, ← String.toList_inj, String.toList_append, String.toList_append,
      List.append_cancel_left_eq]
  · refine iff_of_false nofun ?_
    rintro rfl
    exact h (List.isPrefixOf_iff_prefix.2 (by simp [String.toList_append]))

theorem toStr_eq_some {value : Bytes} {v : String} : toStr value = some v ↔ value = utf8 v ∧ (utf8 v).all visibleByte = true := by
  rw [toStr]
  split_ifs with h
  · rw [fromUtf8_eq_some]
    exact ⟨fun hv => ⟨hv, hv ▸ h⟩, fun hv => hv.1⟩
  · refine iff_of_false nofun ?_
    rintro ⟨rfl, hv⟩
    exact h hv

/-- one header -/
theorem extractLabel_eq_some {h : Header} {l : String × String} :
    extractLabel limits h = .ok (some l) ↔ h.name = HEADER_PREFIX ++ l.1 ∧ h.value = utf8 l.2 ∧ Sendable l ∧ Bounded limits l := by
  obtain ⟨label, value⟩ := l
  have htoken : h.name.toList.all tokenChar = true := by
    have hlegal := h.legal
    simp only [isHeaderName, Bool.and_eq_true] at hlegal
    exact hlegal.1.2
  rw [extractLabel, toAsciiLowercase_of_token htoken]
  cases hstrip : stripPrefix HEADER_PREFIX h.name with
  | none =>
    refine iff_of_false nofun fun hname => ?_
    rw [stripPrefix_eq_some.2 hname.1] at hstrip
    cases hstrip
  | some label' =>
    have hname := stripPrefix_eq_some.1 hstrip
    have hlabel : label'.toList.all tokenChar = true := by
      rw [hname, String.toList_append, List.all_append, Bool.and_eq_true] at htoken
      exact htoken.2
    have hsame : h.name = HEADER_PREFIX ++ label ↔ label' = label := by
      rw [hname, ← String.toList_inj, String.toList_append, String.toList_append, List.append_cancel_left_eq, String.toList_inj]
    rw [hsame]
    simp only []
    split_ifs with hempty hconsumed hreserved hlong
    · refine iff_of_false nofun ?_
      rintro ⟨rfl, -, hs, -⟩
      exact hs.nonempty (String.isEmpty_iff.1 hempty)
    · refine iff_of_false nofun ?_
      rintro ⟨rfl, -, hs, -⟩
      exact hs.kept hconsumed
    · refine iff_of_false nofun ?_
      rintro ⟨rfl, -, -, hb⟩
      exact hb.free hreserved
    · refine iff_of_false nofun ?_
      rintro ⟨rfl, -, -, hb⟩
      exact absurd hb.name (not_le.2 hlong)
    · cases hstr : toStr h.value with
      | none =>
        refine iff_of_false nofun ?_
        rintro ⟨-, hv, hs, -⟩
        rw [toStr_eq_some.2 ⟨hv, hs.value⟩] at hstr
        cases hstr
      | some value' =>
        obtain ⟨hv, hvisible⟩ := toStr_eq_some.1 hstr
        rw [hv]
        simp only []
        split_ifs with hbig
        · refine iff_of_false nofun ?_
          rintro ⟨-, hvalue, -, hb⟩
          exact absurd hb.value (not_le.2 (utf8_inj hvalue ▸ hbig))
        · rw [Except.ok.injEq, Option.some_inj, Prod.mk.injEq]
          constructor
          · rintro ⟨rfl, rfl⟩
            exact ⟨rfl, rfl, ⟨hlabel, fun h => hempty (String.isEmpty_iff.2 h), hconsumed, hvisible⟩,
              ⟨hreserved, not_lt.1 hlong, not_lt.1 hbig⟩⟩
          · rintro ⟨rfl, hvalue, -, -⟩
            exact ⟨rfl, utf8_inj hvalue⟩

theorem extractAll_eq_ok {headers : List Header} {out labels : LabelSet} :
    extractAll limits out headers = .ok labels ↔ (∀ h ∈ headers, ∃ o, extractLabel limits h = .ok o) ∧
      ∀ l, l ∈ labels ↔ l ∈ out ∨ ∃ h ∈ headers, extractLabel limits h = .ok (some l) := by
  induction headers generalizing out with
  | nil =>
    simp only [extractAll, Except.ok.injEq, List.not_mem_nil, false_and, exists_false, or_false, IsEmpty.forall_iff, implies_true,
      true_and]
    exact ⟨fun h l => h ▸ Iff.rfl, fun h => Finset.ext fun l => (h l).symm⟩
  | cons h headers ih =>
    rw [extractAll]
    cases hlabel : extractLabel limits h with
    | error e =>
      refine iff_of_false nofun fun hall => ?_
      obtain ⟨o, ho⟩ := hall.1 h List.mem_cons_self
      rw [hlabel] at ho
      cases ho
    | ok o =>
      cases o with
      | none =>
        simp only [ih, List.forall_mem_cons, List.exists_mem_cons_iff, hlabel, Except.ok.injEq, reduceCtorEq, false_or]
        simp
      | some l' =>
        simp only [ih, List.forall_mem_cons, List.exists_mem_cons_iff, hlabel, Except.ok.injEq, Option.some_inj, Finset.mem_insert]
        have hiff : ∀ l, (l = l' ∨ l ∈ out) ∨ (∃ x ∈ headers, extractLabel limits x = .ok (some l)) ↔
            l ∈ out ∨ l' = l ∨ ∃ x ∈ headers, extractLabel limits x = .ok (some l) := by
          intro l
          rw [or_comm (a := l = l'), or_assoc, eq_comm]
        simp only [hiff, exists_eq', true_and]

theorem extractLabels_eq_ok {headers : List Header} {labels : LabelSet} :
    extractLabels limits headers = .ok labels ↔ (∀ h ∈ headers, ∃ o, extractLabel limits h = .ok o) ∧
      (∀ l, l ∈ labels ↔ ∃ h ∈ headers, extractLabel limits h = .ok (some l)) ∧ labels.card ≤ limits.maxLabels := by
  have hall : extractAll limits ∅ headers = .ok labels ↔ (∀ h ∈ headers, ∃ o, extractLabel limits h = .ok o) ∧
      ∀ l, l ∈ labels ↔ ∃ h ∈ headers, extractLabel limits h = .ok (some l) := by
    rw [extractAll_eq_ok]
    simp
  rw [← and_assoc, ← hall, extractLabels]
  cases extractAll limits ∅ headers with
  | error e => simp
  | ok out =>
    simp only [Except.ok.injEq]
    split_ifs with hcard
    · refine iff_of_false nofun ?_
      rintro ⟨rfl, h⟩
      exact absurd h (not_le.2 hcard)
    · rw [Except.ok.injEq]
      refine (and_iff_left_of_imp ?_).symm
      rintro rfl
      exact not_lt.1 hcard

/-- the labels of a PUT are within the limits -/
theorem extractLabels_within {headers : List Header} {labels : LabelSet} (h : extractLabels limits headers = .ok labels) :
    Within limits labels := by
  obtain ⟨-, hmem, hcard⟩ := extractLabels_eq_ok.1 h
  refine ⟨hcard, fun l hl => ?_, fun l hl => ?_⟩
  · obtain ⟨g, -, hg⟩ := (hmem l).1 hl
    exact (extractLabel_eq_some.1 hg).2.2.1
  · obtain ⟨g, -, hg⟩ := (hmem l).1 hl
    exact (extractLabel_eq_some.1 hg).2.2.2

end Y2q.Labels
