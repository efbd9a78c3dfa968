/-
The listings of S3 (`s3/bucket.rs`): `ListObjects` (V1) and `ListObjectsV2`.

`list_page` reads the index in windows of 1000 keys, drops the keys of multipart parts, and rolls the keys that have the delimiter
behind the prefix up into common prefixes. It goes on after the last key, or after a common prefix followed by the highest character,
so that the rest of the group is skipped.

- `rollUp`: the common prefix of a key.
- `visit`, `listPage`, `listObjects`: one key, one request's page, the answer. The loop of `list_page` runs on fuel.
- `Follows`: a client that passes the marker or token on until an answer is not truncated.
- `rollUp_of_prefix`: a common prefix rolls up all keys that start with it, so that its keys are neighbours.
-/
import Mathlib.Tactic
import Y2q.Core.Base64
import Y2q.Core.Pages
import Y2q.Storage.Listing
import Y2q.S3.Multipart

namespace Y2q.MetadataIndex.ListObjects

open Y2q.Pages
open Buckets (CharTable)
open Multipart (isReservedKey reservedKeys)

/-! ## A page -/

/-- the first place where `delim` occurs -/
def find (delim : List Char) : List Char → Option ℕ
  | [] => if delim = [] then some 0 else none
  | c :: rest => if delim.isPrefixOf (c :: rest) then some 0 else (find delim rest).map (· + 1)

/-- `strip_prefix`, or else the key itself -/
def stripPrefix (pfx key : String) : List Char :=
  if pfx.toList.isPrefixOf key.toList then key.toList.drop pfx.toList.length else key.toList

/-- the common prefix that a key is rolled up into -/
def rollUp (pfx : String) (delimiter : Option String) (key : String) : Option String :=
  delimiter.bind fun delim =>
    let rest := stripPrefix pfx key
    (find delim.toList rest).map fun idx => pfx ++ String.ofList (rest.take (idx + delim.toList.length))

/-- the highest character -/
def highest : Char := Char.ofNat 0x10FFFF

/-- the cursor that is to skip the rest of a group -/
def skip (cp : String) : String := cp.push highest

/-- the variables of the loop -/
structure Scan where
  results : List Metadata
  common : List String
  after : Option String
  lastEmitted : Option String

/-- what a truncated page goes on with -/
structure Stop where
  scan : Scan
  resumeCursor : Option String
  nextMarker : Option String

def visit (pfx : String) (delimiter : Option String) (maxKeys : ℕ) (s : Scan) (md : Metadata) : Except Stop Scan :=
  if isReservedKey md.key then .ok { s with after := some md.key }
  else
    match rollUp pfx delimiter md.key with
    | some cp =>
      if cp ∉ s.common ∧ maxKeys ≤ s.results.length + s.common.length then
        .error ⟨s, s.after.or (some cp), some cp⟩
      else if cp ∈ s.common then .ok { s with after := some (skip cp) }
      else .ok { s with common := s.common ++ [cp], lastEmitted := some cp, after := some (skip cp) }
    | none =>
      if maxKeys ≤ s.results.length + s.common.length then
        .error ⟨s, s.after.or (some md.key), s.lastEmitted.or (s.after.or (some md.key))⟩
      else .ok { s with results := s.results ++ [md], after := some md.key, lastEmitted := some md.key }

structure S3Page where
  items : List Metadata
  commonPrefixes : List String
  truncated : Bool
  resumeCursor : Option String
  nextMarker : Option String

/-- `common` is a sorted set -/
def sortedSet (l : List String) : List String := l.mergeSort fun a b => decide (utf8 a ≤ utf8 b)

def Scan.page (s : Scan) : S3Page := ⟨s.results, sortedSet s.common, false, none, none⟩

def Stop.page (s : Stop) : S3Page := ⟨s.scan.results, sortedSet s.scan.common, true, s.resumeCursor, s.nextMarker⟩

def LIST_PAGE_SIZE : ℕ := 1000

section Requests

variable (J : Json) (U : CharTable) (t : Tables) (bucket pfx : String) (delimiter : Option String)

/-- the loop; `none` if the fuel runs out -/
def listFrom (maxKeys : ℕ) : ℕ → Scan → Option (Except Error S3Page)
  | 0, _ => none
  | n + 1, s =>
    match listObjects J U t bucket ⟨some pfx, s.after, some LIST_PAGE_SIZE⟩ with
    | .error e => some (.error e)
    | .ok page =>
      if page.items.isEmpty && page.next.isNone then some (.ok s.page)
      else
        match page.items.foldlM (visit pfx delimiter maxKeys) s with
        | .error stop => some (.ok stop.page)
        | .ok s => if page.next.isNone then some (.ok s.page) else listFrom maxKeys n s

def listPage (maxKeys : ℕ) (startAfter : Option String) (n : ℕ) : Option (Except Error S3Page) :=
  listFrom J U t bucket pfx delimiter maxKeys n ⟨[], [], startAfter, none⟩

/-! ## An answer -/

inductive ListDialect where
  | V1
  | V2
deriving DecidableEq

inductive S3Error where
  | invalidArgument (message : String)
  | storage (e : Error)

def encodeCursor (s : String) : String := Base64.encodeUrl (utf8 s)

def decodeCursor (s : String) : Option String := (Base64.decodeUrl s).bind fromUtf8

/-- the number of keys per page; a `max-keys` that does not parse is `none` -/
def pageKeys (maxKeys : Option ℕ) : ℕ := min ((maxKeys.filter fun n => 0 < n).getD 1000) 1000

/-- the parameters that say where a request begins -/
structure Cursors where
  marker : Option String
  continuationToken : Option String
  startAfter : Option String

def ListDialect.startAfter (dialect : ListDialect) (c : Cursors) : Except S3Error (Option String) :=
  match dialect with
  | .V1 => .ok c.marker
  | .V2 =>
    match c.continuationToken with
    | some token =>
      match decodeCursor token with
      | some cursor => .ok (some cursor)
      | none => .error (.invalidArgument "invalid continuation-token")
    | none => .ok c.startAfter

/-- what the answer says; its spelling in XML is left out, and with `encoding-type=url` loses nothing -/
structure ListBucketResult where
  contents : List Metadata
  commonPrefixes : List String
  isTruncated : Bool
  nextMarker : Option String
  nextContinuationToken : Option String

def S3Page.result (page : S3Page) (dialect : ListDialect) : ListBucketResult :=
  ⟨page.items, page.commonPrefixes, page.truncated, if page.truncated ∧ dialect = .V1 then page.nextMarker else none,
    if page.truncated ∧ dialect = .V2 then page.resumeCursor.map encodeCursor else none⟩

/-- the answer to an authorized request -/
def answer (dialect : ListDialect) (maxKeys : Option ℕ) (c : Cursors) (n : ℕ) : Option (Except S3Error ListBucketResult) :=
  match dialect.startAfter c with
  | .error e => some (.error e)
  | .ok startAfter =>
    (listPage J U t bucket pfx delimiter (pageKeys maxKeys) startAfter n).map fun
      | .error e => .error (.storage e)
      | .ok page => .ok (page.result dialect)

/-- how a client asks for the rest -/
def ListBucketResult.next (r : ListBucketResult) : ListDialect → Option Cursors
  | .V1 => r.nextMarker.map fun marker => ⟨some marker, none, none⟩
  | .V2 => r.nextContinuationToken.map fun token => ⟨none, some token, none⟩

/-- how it begins -/
def Cursors.none : Cursors := ⟨.none, .none, .none⟩

/-- a client that goes on until an answer is not truncated: what it gets in all -/
inductive Follows (dialect : ListDialect) (maxKeys : Option ℕ) : Cursors → List Metadata → List String → Prop where
  | last (c : Cursors) (n : ℕ) (r : ListBucketResult) (hr : answer J U t bucket pfx delimiter dialect maxKeys c n = some (.ok r))
      (hlast : r.isTruncated = false) : Follows dialect maxKeys c r.contents r.commonPrefixes
  | more (c c' : Cursors) (n : ℕ) (r : ListBucketResult) (items : List Metadata) (prefixes : List String)
      (hr : answer J U t bucket pfx delimiter dialect maxKeys c n = some (.ok r)) (hmore : r.isTruncated = true)
      (hnext : r.next dialect = some c') (hrest : Follows dialect maxKeys c' items prefixes) :
      Follows dialect maxKeys c (r.contents ++ items) (r.commonPrefixes ++ prefixes)

end Requests

/-! ## Common prefixes -/

theorem find_le {delim l : List Char} {i : ℕ} (h : find delim l = some i) : i + delim.length ≤ l.length := by
  induction l generalizing i with
  | nil =>
    rw [find] at h
    split_ifs at h with hd
    cases h
    simp [hd]
  | cons c rest ih =>
    rw [find] at h
    split_ifs at h with hd
    · cases h
      rw [Nat.zero_add]
      exact (List.isPrefixOf_iff_prefix.1 hd).length_le
    · obtain ⟨i', hi', rfl⟩ := Option.map_eq_some_iff.1 h
      have := ih hi'
      rw [List.length_cons]
      omega

/-- the first occurrence is the same in all that begins alike -/
theorem find_of_prefix {delim l l' : List Char} {i : ℕ} (h : find delim l = some i) (hl : l.take (i + delim.length) <+: l') :
    find delim l' = some i := by
  induction l generalizing i l' with
  | nil =>
    rw [find] at h
    split_ifs at h with hd
    cases h
    cases l' <;> simp [find, hd]
  | cons c rest ih =>
    have hle := find_le h
    rw [find] at h
    split_ifs at h with hd
    · cases h
      have hdelim : delim <+: l' := by
        rw [Nat.zero_add, ← List.prefix_iff_eq_take.1 (List.isPrefixOf_iff_prefix.1 hd)] at hl
        exact hl
      cases l' with
      | nil => simp [find, List.prefix_nil.1 hdelim]
      | cons c' rest' => simp [find, hdelim]
    · obtain ⟨i', hi', rfl⟩ := Option.map_eq_some_iff.1 h
      rw [Nat.add_right_comm, List.take_succ_cons] at hl
      obtain ⟨r, rfl⟩ := hl
      rw [List.cons_append, find, if_neg, ih hi' (List.prefix_append _ _)]
      · rfl
      · -- an occurrence at the start would be one in `l`
        intro hocc
        refine hd (List.isPrefixOf_iff_prefix.2 ?_)
        have hshort : delim <+: c :: rest.take (i' + delim.length) := by
          refine List.prefix_of_prefix_length_le (List.isPrefixOf_iff_prefix.1 hocc) ?_ ?_
          · rw [← List.cons_append]
            exact List.prefix_append _ _
          · rw [List.length_cons] at hle
            rw [List.length_cons, List.length_take]
            omega
        exact hshort.trans ((List.cons_prefix_cons).2 ⟨rfl, List.take_prefix _ _⟩)

variable {pfx key key' cp : String} {delimiter : Option String}

theorem rollUp_eq_some (hkey : pfx.toList <+: key.toList) :
    rollUp pfx delimiter key = some cp ↔ ∃ delim idx, delimiter = some delim ∧
      find delim.toList (key.toList.drop pfx.toList.length) = some idx ∧
        cp.toList = key.toList.take (pfx.toList.length + (idx + delim.toList.length)) := by
  have hstrip : stripPrefix pfx key = key.toList.drop pfx.toList.length := if_pos (List.isPrefixOf_iff_prefix.2 hkey)
  obtain ⟨r, hr⟩ := hkey
  simp only [rollUp, hstrip, Option.bind_eq_some_iff, Option.map_eq_some_iff]
  refine exists_congr fun delim => ?_
  rw [← exists_and_left]
  refine exists_congr fun idx => and_congr_right fun _ => and_congr_right fun _ => ?_
  rw [← String.toList_inj, String.toList_append, String.toList_ofList, ← hr, List.drop_left', List.take_length_add_append]
  · exact eq_comm
  · rfl

theorem prefix_of_rollUp (hkey : pfx.toList <+: key.toList) (h : rollUp pfx delimiter key = some cp) : cp.toList <+: key.toList := by
  obtain ⟨_, _, -, -, hcp⟩ := (rollUp_eq_some hkey).1 h
  exact hcp ▸ List.take_prefix _ _

/-- a common prefix rolls up all keys that start with it -/
theorem rollUp_of_prefix (hkey : pfx.toList <+: key.toList) (hkey' : pfx.toList <+: key'.toList)
    (h : rollUp pfx delimiter key = some cp) (hcp : cp.toList <+: key'.toList) : rollUp pfx delimiter key' = some cp := by
  obtain ⟨delim, idx, hdelim, hfind, hcp'⟩ := (rollUp_eq_some hkey).1 h
  obtain ⟨r, hr⟩ := hkey
  obtain ⟨r', hr'⟩ := hkey'
  rw [← hr, List.drop_left' rfl] at hfind
  rw [← hr, List.take_length_add_append] at hcp'
  have hprefix : r.take (idx + delim.toList.length) <+: r' := by
    rw [hcp', ← hr'] at hcp
    exact (List.prefix_append_right_inj _).1 hcp
  refine (rollUp_eq_some ⟨r', hr'⟩).2 ⟨delim, idx, hdelim, ?_, ?_⟩
  · rw [← hr', List.drop_left' rfl]
    exact find_of_prefix hfind hprefix
  · have hlen : (r.take (idx + delim.toList.length)).length = idx + delim.toList.length := List.length_take_of_le (find_le hfind)
    rw [← hr', List.take_length_add_append, hcp', List.prefix_iff_eq_take.1 hprefix, hlen]

end Y2q.MetadataIndex.ListObjects
