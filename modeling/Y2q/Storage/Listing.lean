/-
Listings of the metadata index, page by page (`storage/index.rs`, `storage/filesystem.rs`, `query/mod.rs`).

`scan_objects` lists one bucket: it reads the rows whose key starts with the bucket's length-prefixed name, sorts them by key and
goes on after the last key of the page before. `search_labels` lists all rows that satisfy a label query, sorted by bucket and key;
its cursor is `bucket NUL key`, compared as text. `bucket_usage_impl` adds up the sizes of a bucket's pages in a `u64`.

- `scanObjects_eq`, `searchLabels_eq`: one page, as a page of the sorted listing.
- `mem_listing`: the rows with the prefix are the rows of the bucket, if no bucket name is too long for its length prefix.
- `cursor_lt`: cursors are in the order of the pairs, since no bucket name has a NUL.
- `listings_complete`: following the cursors gives the matching objects, each once, in order; the usage is the sum of the sizes
  modulo 2^64.
- `listings_incomplete`: a bucket name of more than 4 GiB, and sizes that add up to 2^64.
-/
import Mathlib.Tactic
import Mathlib.Data.Prod.Lex
import Y2q.Core.Pages
import Y2q.Storage.Buckets
import Y2q.Storage.MetadataIndex

namespace Y2q.MetadataIndex

open Y2q.Pages Y2q.Buckets

/-! ## Queries -/

/-- the comparison side of a condition; a compiled regex is the function it computes -/
inductive MatchOp where
  | Eq (v : String)
  | Ne (v : String)
  | Regex (isMatch : String → Bool)
  | Prefix (v : String)
  | Suffix (v : String)

inductive LabelQuery where
  | And (a b : LabelQuery)
  | Or (a b : LabelQuery)
  | Not (inner : LabelQuery)
  | Cond (name : String) (op : MatchOp)

def startsWith (s p : String) : Bool := (utf8 p).isPrefixOf (utf8 s)

def endsWith (s p : String) : Bool := (utf8 p).isSuffixOf (utf8 s)

def LabelQuery.matches (labels : List (String × String)) : LabelQuery → Bool
  | .And a b => a.matches labels && b.matches labels
  | .Or a b => a.matches labels || b.matches labels
  | .Not inner => !inner.matches labels
  | .Cond name op =>
    let values := (labels.filter fun l => l.1 = name).map (·.2)
    match op with
    | .Ne v => !values.any fun x => x = v
    | .Eq v => values.any fun x => x = v
    | .Regex isMatch => values.any isMatch
    | .Prefix v => values.any fun x => startsWith x v
    | .Suffix v => values.any fun x => endsWith x v

/-! ## Pages -/

inductive Error where
  | index (message : String)
  | storage (e : Buckets.Error)

abbrev ListPage := Page Metadata String

variable (J : Json)

/-- the metadata of the rows an iteration visits; the first that does not parse ends it -/
def deserialize (rows : List (Bytes × Bytes)) : Except Error (List Metadata) :=
  rows.mapM fun e =>
    match J.decode e.2 with
    | .ok m => .ok m
    | .error e => .error (.index s!"deserialize metadata: {e}")

/-- `m.key.cmp` -/
def keyLe (a b : Metadata) : Bool := decide (utf8 a.key ≤ utf8 b.key)

def namesLe (a b : Metadata) : Bool := decide (toLex (utf8 a.bucket, utf8 a.key) ≤ toLex (utf8 b.bucket, utf8 b.key))

/-- the cursor of a cross-bucket search -/
def cursor (m : Metadata) : String := m.bucket ++ "\x00" ++ m.key

def scanObjects (t : Tables) (bucket : String) (pfx after : Option String) (limit : ℕ) : Except Error ListPage := do
  let items ← deserialize J (t.objects.withPrefix (encodeBucketPrefix bucket))
  let skip := fun m : Metadata => pfx.any (fun p => !startsWith m.key p) || after.any fun a => decide (utf8 m.key ≤ utf8 a)
  let (page, overflowed) := fill limit skip [] (items.mergeSort keyLe)
  pure ⟨page, if overflowed then page.getLast?.map (·.key) else none⟩

def searchLabels (t : Tables) (query : LabelQuery) (bucket pfx after : Option String) (limit : ℕ) : Except Error ListPage := do
  let items ← deserialize J t.objects.toList
  let matched := items.filter fun m =>
    bucket.all (fun b => m.bucket = b) && pfx.all (fun p => startsWith m.key p) && query.matches m.labels
  let skip := fun m : Metadata => after.any fun a => decide (utf8 (cursor m) ≤ utf8 a)
  let (page, overflowed) := fill limit skip [] (matched.mergeSort namesLe)
  pure ⟨page, if overflowed then page.getLast?.map cursor else none⟩

def DEFAULT_LIST_LIMIT : ℕ := 1000

def MAX_LIST_LIMIT : ℕ := 10000

structure ListOptions where
  pfx : Option String
  after : Option String
  limit : Option ℕ

/-- no limit, and a limit of zero, are the default -/
def ListOptions.pageLimit (o : ListOptions) : ℕ := min ((o.limit.filter fun n => 0 < n).getD DEFAULT_LIST_LIMIT) MAX_LIST_LIMIT

def listObjects (U : CharTable) (t : Tables) (bucket : String) (o : ListOptions) : Except Error ListPage :=
  match validateBucket U bucket with
  | .error e => .error (.storage e)
  | .ok () => scanObjects J t bucket o.pfx o.after o.pageLimit

def searchObjects (U : CharTable) (t : Tables) (query : LabelQuery) (bucket : Option String) (o : ListOptions) : Except Error ListPage :=
  match bucket.elim (.ok ()) (validateBucket U) with
  | .error e => .error (.storage e)
  | .ok () => searchLabels J t query bucket o.pfx o.after o.pageLimit

/-- the loop of `bucket_usage_impl`; `none` if the fuel runs out -/
def addUp (fetch : Option String → Except Error ListPage) : ℕ → UInt64 → Option String → Option (Except Error UInt64)
  | 0, _, _ => none
  | n + 1, total, after =>
    match fetch after with
    | .error e => some (.error e)
    | .ok page =>
      let total := page.items.foldl (fun total item => total + item.size) total
      match page.next with
      | none => some (.ok total)
      | some c => addUp fetch n total (some c)

def bucketUsageImpl (U : CharTable) (t : Tables) (bucket : String) (fuel : ℕ) : Option (Except Error UInt64) :=
  match validateBucket U bucket with
  | .error e => some (.error (.storage e))
  | .ok () => addUp (fun after => scanObjects J t bucket none after 1000) fuel 0 none

/-! ## Contents of the table -/

/-- the row of an object -/
def Row (t : Tables) (m : Metadata) : Prop := ∃ p, t.objects[encodeObjectKey m.bucket m.key]? = some p ∧ J.decode p = .ok m

/-- every row is the metadata of the object it is stored under, and the names are valid -/
def Keyed (U : CharTable) (t : Tables) : Prop :=
  ∀ k p, t.objects[k]? = some p → ∃ m, J.decode p = .ok m ∧ k = encodeObjectKey m.bucket m.key ∧
    validateBucket U m.bucket = .ok () ∧ validateKey m.key = .ok ()

variable {J} {U : CharTable} {t : Tables} {m : Metadata} {bucket : String} {pfx after : Option String} {limit : ℕ}

/-- the metadata in a list of rows -/
def metadataOf (J : Json) (rows : List (Bytes × Bytes)) : List Metadata := rows.filterMap fun e => (J.decode e.2).toOption

theorem mem_metadataOf {rows : List (Bytes × Bytes)} : m ∈ metadataOf J rows ↔ ∃ e ∈ rows, J.decode e.2 = .ok m := by
  rw [metadataOf, List.mem_filterMap]
  refine exists_congr fun e => and_congr_right fun _ => ?_
  cases J.decode e.2 <;> simp [Except.toOption]

theorem deserialize_eq {rows : List (Bytes × Bytes)} (h : ∀ e ∈ rows, ∃ m, J.decode e.2 = .ok m) :
    deserialize J rows = .ok (metadataOf J rows) := by
  induction rows with
  | nil => rfl
  | cons e rows ih =>
    obtain ⟨m, hm⟩ := h e List.mem_cons_self
    have hrest := ih fun e' he' => h e' (List.mem_cons_of_mem e he')
    rw [deserialize] at hrest ⊢
    have hcons : metadataOf J (e :: rows) = m :: metadataOf J rows := List.filterMap_cons_some (by rw [hm]; rfl)
    rw [List.mapM_cons, hrest, hcons, hm]
    rfl

theorem Keyed.decodes (ht : Keyed J U t) {rows : List (Bytes × Bytes)} (hrows : ∀ e ∈ rows, t.objects[e.1]? = some e.2) :
    ∀ e ∈ rows, ∃ m, J.decode e.2 = .ok m := by
  intro e he
  obtain ⟨m, hm, -⟩ := ht e.1 e.2 (hrows e he)
  exact ⟨m, hm⟩

/-- rows that are stored under different keys belong to different objects -/
theorem Keyed.pairwise (ht : Keyed J U t) {rows : List (Bytes × Bytes)} (hrows : ∀ e ∈ rows, t.objects[e.1]? = some e.2)
    (hsorted : rows.Pairwise fun a b => a.1 < b.1) : (metadataOf J rows).Pairwise fun a b => ¬(a.bucket = b.bucket ∧ a.key = b.key) := by
  have hkey : ∀ e ∈ rows, ∀ m, (J.decode e.2).toOption = some m → e.1 = encodeObjectKey m.bucket m.key := by
    intro e he m hm
    obtain ⟨m', hm', hk, -⟩ := ht e.1 e.2 (hrows e he)
    rw [hm'] at hm
    cases hm
    exact hk
  rw [metadataOf, List.pairwise_filterMap]
  refine hsorted.imp_of_mem fun {e e'} he he' hlt m hm m' hm' => ?_
  rintro ⟨hb, hk⟩
  rw [hkey e he m hm, hkey e' he' m' hm', hb, hk] at hlt
  exact lt_irrefl _ hlt

/-! ## Listings of a bucket -/

/-- the sorted rows with the bucket's prefix -/
def listing (J : Json) (t : Tables) (bucket : String) (pfx : Option String) : List Metadata :=
  ((metadataOf J (t.objects.withPrefix (encodeBucketPrefix bucket))).mergeSort keyLe).filter fun m => pfx.all fun p => startsWith m.key p

theorem scanObjects_eq (ht : Keyed J U t) :
    scanObjects J t bucket pfx after limit = .ok (pageAfter utf8 (·.key) limit (listing J t bucket pfx) after) := by
  have hrows : ∀ e ∈ t.objects.withPrefix (encodeBucketPrefix bucket), t.objects[e.1]? = some e.2 :=
    fun e he => (Table.mem_withPrefix.1 he).1
  have hskip : ∀ l : List Metadata,
      (l.filter fun m => !(pfx.any (fun p => !startsWith m.key p) || after.any fun a => decide (utf8 m.key ≤ utf8 a))) =
        (l.filter fun m => pfx.all fun p => startsWith m.key p).filter (Past utf8 (·.key) after) := by
    intro l
    rw [List.filter_filter]
    refine List.filter_congr fun m _ => ?_
    rw [Bool.not_or, not_any_le utf8 (fun m : Metadata => m.key), Bool.and_comm]
    cases pfx <;> simp
  rw [scanObjects, deserialize_eq (ht.decodes hrows)]
  change Except.ok _ = Except.ok _
  rw [fill_eq (Nat.zero_le _), hskip]
  simp [pageAfter, listing]

theorem length_utf8 (s : String) : (utf8 s).length = s.utf8ByteSize := rfl

theorem length_le_of_validateKey {k : String} (h : validateKey k = .ok ()) : (utf8 k).length ≤ 1024 := by
  rw [length_utf8]
  rw [validateKey] at h
  split_ifs at h with h1
  exact Nat.not_lt.1 fun hlen => h1 (Or.inr (Or.inr hlen))

/-- a key that starts with a bucket's prefix is a key of that bucket -/
theorem bucket_eq_of_startsWith {b b' k : String} (hb' : Short b') (hk : (utf8 k).length ≤ 1024)
    (h : encodeBucketPrefix b <+: encodeObjectKey b' k) : b = b' := by
  obtain ⟨s, hs⟩ := h
  by_cases hb : Short b
  · exact (lenPrefixed_append_inj hb hb' hs).1
  · -- the prefix would be longer than the key
    exfalso
    have hlen := congrArg List.length hs
    simp only [encodeBucketPrefix, encodeObjectKey, lenPrefixed, List.length_append, length_beBytes] at hlen
    simp only [encodeBucketPrefix, encodeObjectKey, lenPrefixed, List.append_assoc] at hs
    obtain ⟨hn, -⟩ := List.append_inj hs (by simp)
    have hmod := congrArg ofBe hn
    rw [ofBe_beBytes, ofBe_beBytes, Nat.mod_eq_of_lt (show (utf8 b').length < 256 ^ 4 from hb')] at hmod
    have hb4 : 2 ^ 32 ≤ (utf8 b).length := Nat.not_lt.1 hb
    have hdiv := Nat.div_add_mod (utf8 b).length (256 ^ 4)
    have hpos : 1 ≤ (utf8 b).length / 256 ^ 4 := (Nat.one_le_div_iff (by norm_num)).2 hb4
    norm_num at hdiv hmod hpos
    omega

theorem mem_listing (ht : Keyed J U t) (hshort : ∀ m, Row J t m → Short m.bucket) :
    m ∈ listing J t bucket pfx ↔ Row J t m ∧ m.bucket = bucket ∧ pfx.all (fun p => startsWith m.key p) = true := by
  rw [listing, List.mem_filter, List.mem_mergeSort, mem_metadataOf]
  constructor
  · rintro ⟨⟨⟨k, p⟩, he, hdec⟩, hpfx⟩
    obtain ⟨hk, hprefix⟩ := Table.mem_withPrefix.1 he
    obtain ⟨m', hm', rfl, -, hkey⟩ := ht k p hk
    cases hm'.symm.trans hdec
    have hrow : Row J t m := ⟨p, hk, hdec⟩
    exact ⟨hrow, (bucket_eq_of_startsWith (hshort m hrow) (length_le_of_validateKey hkey) hprefix).symm, hpfx⟩
  · rintro ⟨⟨p, hp, hdec⟩, rfl, hpfx⟩
    exact ⟨⟨(_, p), Table.mem_withPrefix.2 ⟨hp, List.prefix_append _ _⟩, hdec⟩, hpfx⟩

/-- sorting rows of different rank puts them in strict order -/
theorem pairwise_mergeSort_lt {α o : Type} [LinearOrder o] (rank : α → o) {l : List α}
    (hl : l.Pairwise fun a b => rank a ≠ rank b) :
    (l.mergeSort fun a b => decide (rank a ≤ rank b)).Pairwise fun a b => rank a < rank b := by
  have hle : (l.mergeSort fun a b => decide (rank a ≤ rank b)).Pairwise fun a b => decide (rank a ≤ rank b) = true :=
    List.pairwise_mergeSort (fun a b c hab hbc => by simp at *; exact hab.trans hbc) (fun a b => by simp; exact le_total _ _) l
  have hne : (l.mergeSort fun a b => decide (rank a ≤ rank b)).Pairwise fun a b => rank a ≠ rank b :=
    (List.mergeSort_perm l _).symm.pairwise hl fun h => h.symm
  exact (hle.and hne).imp fun h => lt_of_le_of_ne (of_decide_eq_true h.1) h.2

theorem pairwise_listing (ht : Keyed J U t) (hshort : ∀ m, Row J t m → Short m.bucket) :
    (listing J t bucket pfx).Pairwise fun a b => utf8 a.key < utf8 b.key := by
  have hrows : ∀ e ∈ t.objects.withPrefix (encodeBucketPrefix bucket), t.objects[e.1]? = some e.2 :=
    fun e he => (Table.mem_withPrefix.1 he).1
  have hsorted : (t.objects.withPrefix (encodeBucketPrefix bucket)).Pairwise fun a b => a.1 < b.1 :=
    (t.objects.pairwise_range _).sublist (List.takeWhile_sublist _)
  -- all rows are of the bucket, so they differ in their keys
  have hbucket : ∀ m ∈ metadataOf J (t.objects.withPrefix (encodeBucketPrefix bucket)), m.bucket = bucket := by
    intro m hm
    have hmem : m ∈ listing J t bucket none := List.mem_filter.2 ⟨List.mem_mergeSort.2 hm, rfl⟩
    exact ((mem_listing ht hshort).1 hmem).2.1
  refine (pairwise_mergeSort_lt (fun m : Metadata => utf8 m.key) ?_).sublist List.filter_sublist
  refine (ht.pairwise hrows hsorted).imp_of_mem fun ha hb hne heq => hne ⟨?_, utf8_inj heq⟩
  rw [hbucket _ ha, hbucket _ hb]

/-! ## Searches -/

/-- the sorted rows that satisfy a query -/
def matching (J : Json) (t : Tables) (query : LabelQuery) (bucket pfx : Option String) : List Metadata :=
  ((metadataOf J t.objects.toList).filter fun m =>
    bucket.all (fun b => m.bucket = b) && pfx.all (fun p => startsWith m.key p) && query.matches m.labels).mergeSort namesLe

variable {query : LabelQuery} {among : Option String}

theorem searchLabels_eq (ht : Keyed J U t) :
    searchLabels J t query among pfx after limit = .ok (pageAfter utf8 cursor limit (matching J t query among pfx) after) := by
  have hrows : ∀ e ∈ t.objects.toList, t.objects[e.1]? = some e.2 := fun e he => Table.mem_toList.1 he
  rw [searchLabels, deserialize_eq (ht.decodes hrows)]
  change Except.ok _ = Except.ok _
  rw [fill_eq (Nat.zero_le _)]
  simp only [not_any_le utf8 cursor, List.nil_append, List.length_nil, Nat.sub_zero, Nat.zero_add, decide_eq_true_eq]
  rfl

theorem mem_matching (ht : Keyed J U t) :
    m ∈ matching J t query among pfx ↔ Row J t m ∧ among.all (fun b => m.bucket = b) = true ∧
      pfx.all (fun p => startsWith m.key p) = true ∧ query.matches m.labels = true := by
  rw [matching, List.mem_mergeSort, List.mem_filter, mem_metadataOf, Bool.and_eq_true, Bool.and_eq_true, and_assoc]
  refine and_congr_left fun _ => ?_
  constructor
  · rintro ⟨⟨k, p⟩, he, hdec⟩
    have hk : t.objects[k]? = some p := Table.mem_toList.1 he
    obtain ⟨m', hm', rfl, -⟩ := ht k p hk
    cases hm'.symm.trans hdec
    exact ⟨p, hk, hdec⟩
  · rintro ⟨p, hp, hdec⟩
    exact ⟨(_, p), Table.mem_toList.2 hp, hdec⟩

/-- bucket, then key -/
def NamesLt (a b : Metadata) : Prop := utf8 a.bucket < utf8 b.bucket ∨ a.bucket = b.bucket ∧ utf8 a.key < utf8 b.key

theorem namesLt_iff {a b : Metadata} : toLex (utf8 a.bucket, utf8 a.key) < toLex (utf8 b.bucket, utf8 b.key) ↔ NamesLt a b := by
  rw [Prod.Lex.toLex_lt_toLex]
  refine or_congr_right (and_congr_left fun _ => ?_)
  exact ⟨fun h => utf8_inj h, fun h => congrArg utf8 h⟩

theorem pairwise_matching (ht : Keyed J U t) : (matching J t query among pfx).Pairwise NamesLt := by
  have hrows : ∀ e ∈ t.objects.toList, t.objects[e.1]? = some e.2 := fun e he => Table.mem_toList.1 he
  refine (pairwise_mergeSort_lt (fun m : Metadata => toLex (utf8 m.bucket, utf8 m.key)) ?_).imp namesLt_iff.1
  refine ((ht.pairwise hrows t.objects.pairwise_toList).sublist List.filter_sublist).imp fun hne heq => hne ?_
  have heq' := Prod.mk.inj (toLex.injective heq)
  exact ⟨utf8_inj heq'.1, utf8_inj heq'.2⟩

theorem nul_notMem_of_validateBucket {b : String} (h : validateBucket U b = .ok ()) : '\x00' ∉ b.toList := by
  intro hmem
  rw [validateBucket] at h
  split_ifs at h with hbad
  refine hbad (Or.inr (Or.inr (Or.inr (Or.inr (Or.inl fun hall => ?_)))))
  have hc := List.all_eq_true.1 hall _ hmem
  rw [U.ascii '\x00' (by decide)] at hc
  exact absurd hc (by decide)

theorem utf8_cursor (m : Metadata) : utf8 (cursor m) = utf8 m.bucket ++ 0 :: utf8 m.key := by
  rw [cursor, utf8_append, utf8_append, List.append_assoc]
  rfl

/-- cursors are in the order of bucket and key -/
theorem cursor_lt {a b : Metadata} (ha : validateBucket U a.bucket = .ok ()) (hb : validateBucket U b.bucket = .ok ()) :
    utf8 (cursor a) < utf8 (cursor b) ↔ NamesLt a b := by
  have hpos : ∀ {s : String}, validateBucket U s = .ok () → ∀ x ∈ utf8 s, 0 < x := by
    intro s hs x hx
    refine UInt8.pos_iff_ne_zero.2 ?_
    rintro rfl
    exact zero_notMem_utf8 (nul_notMem_of_validateBucket hs) hx
  rw [utf8_cursor, utf8_cursor, joined_lt (hpos ha) (hpos hb)]
  refine or_congr_right (and_congr_left fun _ => ?_)
  exact ⟨fun h => utf8_inj h, fun h => congrArg utf8 h⟩

theorem Row.valid (ht : Keyed J U t) (hm : Row J t m) : validateBucket U m.bucket = .ok () := by
  obtain ⟨p, hp, hdec⟩ := hm
  obtain ⟨m', hm', -, hb, -⟩ := ht _ _ hp
  cases hm'.symm.trans hdec
  exact hb

/-! ## Whole listings -/

/-- the rows with `P`, each once and in the order `R` -/
structure Lists (J : Json) (t : Tables) (P : Metadata → Prop) (R : Metadata → Metadata → Prop) (l : List Metadata) : Prop where
  mem : ∀ m, m ∈ l ↔ Row J t m ∧ P m
  sorted : l.Pairwise R

/-- a sorted listing is determined by what it lists -/
theorem Lists.unique {P : Metadata → Prop} {l l' : List Metadata} (h : Lists J t P NamesLt l) (h' : Lists J t P NamesLt l') : l = l' := by
  have hasymm : ∀ {a b}, NamesLt a b → ¬NamesLt b a := fun hab hba => lt_asymm (namesLt_iff.2 hab) (namesLt_iff.2 hba)
  have hnodup : ∀ {k}, Lists J t P NamesLt k → k.Nodup := by
    intro k hk
    refine hk.sorted.imp ?_
    rintro a b hlt rfl
    exact hasymm hlt hlt
  refine ((List.perm_ext_iff_of_nodup (hnodup h) (hnodup h')).2 fun m => ?_).eq_of_pairwise
    (fun a b _ _ hab hba => (hasymm hab hba).elim) h.sorted h'.sorted
  rw [h.mem, h'.mem]

theorem filter_past_none {α κ o : Type} [LinearOrder o] (rank : κ → o) (key : α → κ) (l : List α) :
    l.filter (Past rank key none) = l := List.filter_eq_self.2 fun _ _ => rfl

theorem follow_scanObjects (ht : Keyed J U t) (hshort : ∀ m, Row J t m → Short m.bucket) (hlimit : 1 ≤ limit) {n : ℕ}
    (hn : (listing J t bucket pfx).length < n) :
    follow (fun after => scanObjects J t bucket pfx after limit) n none = some (.ok (listing J t bucket pfx)) := by
  have hfetch : ∀ after, scanObjects J t bucket pfx after limit = .ok (pageAfter utf8 (·.key) limit (listing J t bucket pfx) after) :=
    fun _ => scanObjects_eq ht
  have h := follow_eq hlimit (pairwise_listing ht hshort) hfetch n none
  rw [filter_past_none] at h
  exact h hn

theorem follow_searchLabels (ht : Keyed J U t) (hlimit : 1 ≤ limit) {n : ℕ} (hn : (matching J t query among pfx).length < n) :
    follow (fun after => searchLabels J t query among pfx after limit) n none = some (.ok (matching J t query among pfx)) := by
  have hsorted : (matching J t query among pfx).Pairwise fun a b => utf8 (cursor a) < utf8 (cursor b) := by
    refine (pairwise_matching ht).imp_of_mem fun ha hb hlt => ?_
    exact (cursor_lt (((mem_matching ht).1 ha).1.valid ht) (((mem_matching ht).1 hb).1.valid ht)).2 hlt
  have hfetch : ∀ after, searchLabels J t query among pfx after limit =
      .ok (pageAfter utf8 cursor limit (matching J t query among pfx) after) := fun _ => searchLabels_eq ht
  have h := follow_eq hlimit hsorted hfetch n none
  rw [filter_past_none] at h
  exact h hn

theorem addUp_eq (fetch : Option String → Except Error ListPage) (n : ℕ) (total : UInt64) (after : Option String) :
    addUp fetch n total after =
      (follow fetch n after).map fun r => r.map fun l => l.foldl (fun total item => total + item.size) total := by
  induction n generalizing total after with
  | zero => rfl
  | succ n ih =>
    rw [addUp, follow]
    cases fetch after with
    | error e => rfl
    | ok page =>
      obtain ⟨items, next⟩ := page
      cases next with
      | none => rfl
      | some c =>
        simp only [ih, Option.map_map]
        refine congrArg (fun f => Option.map f (follow fetch n (some c))) (funext fun r => ?_)
        cases r with
        | error e => rfl
        | ok l => simp [Except.map, List.foldl_append]

theorem foldl_size (l : List Metadata) (total : UInt64) :
    l.foldl (fun total item => total + item.size) total = total + UInt64.ofNat (l.map (·.size.toNat)).sum := by
  induction l generalizing total with
  | nil => simp
  | cons m l ih => rw [List.foldl_cons, ih, List.map_cons, List.sum_cons, UInt64.ofNat_add, UInt64.ofNat_toNat, UInt64.add_assoc]

theorem bucketUsageImpl_eq (ht : Keyed J U t) (hshort : ∀ m, Row J t m → Short m.bucket) (hvalid : validateBucket U bucket = .ok ())
    {n : ℕ} (hn : (listing J t bucket none).length < n) :
    bucketUsageImpl J U t bucket n = some (.ok (UInt64.ofNat ((listing J t bucket none).map (·.size.toNat)).sum)) := by
  simp only [bucketUsageImpl, hvalid]
  rw [addUp_eq, follow_scanObjects ht hshort (by norm_num) hn, Option.map_some]
  simp only [Except.map, foldl_size, UInt64.zero_add]

theorem lists_listing (ht : Keyed J U t) (hshort : ∀ m, Row J t m → Short m.bucket) :
    Lists J t (fun m => m.bucket = bucket ∧ pfx.all (fun p => startsWith m.key p) = true) (fun a b => utf8 a.key < utf8 b.key)
      (listing J t bucket pfx) := ⟨fun _ => mem_listing ht hshort, pairwise_listing ht hshort⟩

/-- **Listings are complete.** Of a table keyed by valid names, with buckets shorter than 4 GiB: following the cursors of
`scan_objects` and `search_labels` gives the matching objects, each once, in order; `bucket_usage_impl` returns the sum of the sizes
in `u64` arithmetic. Fuel beyond the number of objects is always enough. -/
theorem listings_complete {U : CharTable} {J : Json} {t : Tables} (ht : Keyed J U t) (hshort : ∀ m, Row J t m → Short m.bucket) :
    (∀ bucket pfx limit, 1 ≤ limit → ∃ l,
      Lists J t (fun m => m.bucket = bucket ∧ pfx.all (fun p => startsWith m.key p) = true) (fun a b => utf8 a.key < utf8 b.key) l ∧
        ∀ n, l.length < n → follow (fun after => scanObjects J t bucket pfx after limit) n none = some (.ok l)) ∧
    (∀ query bucket pfx limit, 1 ≤ limit → ∃ l,
      Lists J t (fun m => bucket.all (fun b => m.bucket = b) = true ∧ pfx.all (fun p => startsWith m.key p) = true ∧
        LabelQuery.matches m.labels query = true) NamesLt l ∧
        ∀ n, l.length < n → follow (fun after => searchLabels J t query bucket pfx after limit) n none = some (.ok l)) ∧
    ∀ bucket, validateBucket U bucket = .ok () → ∃ l,
      Lists J t (fun m => m.bucket = bucket) (fun a b => utf8 a.key < utf8 b.key) l ∧
        ∀ n, l.length < n → bucketUsageImpl J U t bucket n = some (.ok (UInt64.ofNat (l.map (·.size.toNat)).sum)) := by
  refine ⟨fun bucket pfx limit hlimit => ?_, fun query bucket pfx limit hlimit => ?_, fun bucket hvalid => ?_⟩
  · exact ⟨_, lists_listing ht hshort, fun n hn => follow_scanObjects ht hshort hlimit hn⟩
  · exact ⟨_, ⟨fun m => mem_matching ht, pairwise_matching ht⟩, fun n hn => follow_searchLabels ht hlimit hn⟩
  · refine ⟨_, ⟨fun m => ?_, pairwise_listing ht hshort⟩, fun n hn => bucketUsageImpl_eq ht hshort hvalid hn⟩
    rw [mem_listing ht hshort]
    simp

/-! ## Instances -/

theorem keyed_empty : Keyed J U Tables.empty := by
  intro k p h
  rw [Tables.empty, Std.TreeMap.getElem?_emptyc] at h
  cases h

theorem Keyed.upsert (ht : Keyed J U t) (hb : validateBucket U m.bucket = .ok ()) (hk : validateKey m.key = .ok ()) :
    Keyed J U (upsert J m t) := by
  intro k p h
  rw [MetadataIndex.upsert, Table.getElem?_insert_iff] at h
  split_ifs at h with hkey
  · cases h
    exact ⟨m, J.round_trip m, hkey.symm, hb, hk⟩
  · exact ht k p h

theorem row_upsert {m' : Metadata} :
    Row J (upsert J m t) m' ↔ m' = m ∨ Row J t m' ∧ encodeObjectKey m.bucket m.key ≠ encodeObjectKey m'.bucket m'.key := by
  simp only [Row, MetadataIndex.upsert, Table.getElem?_insert_iff]
  constructor
  · rintro ⟨p, hp, hdec⟩
    split_ifs at hp with hkey
    · cases hp
      rw [J.round_trip] at hdec
      cases hdec
      exact Or.inl rfl
    · exact Or.inr ⟨⟨p, hp, hdec⟩, hkey⟩
  · rintro (rfl | ⟨⟨p, hp, hdec⟩, hkey⟩)
    · exact ⟨J.encode m', by rw [if_pos rfl], J.round_trip m'⟩
    · exact ⟨p, by rw [if_neg hkey]; exact hp, hdec⟩

theorem Row.of_upsert {m' : Metadata} (h : Row J (upsert J m t) m') : m' = m ∨ Row J t m' := (row_upsert.1 h).imp_right And.left

theorem not_row_empty : ¬Row J Tables.empty m := by
  rintro ⟨p, hp, -⟩
  rw [Tables.empty, Std.TreeMap.getElem?_emptyc] at hp
  cases hp

def asciiLetters : CharTable := ⟨Char.isAlphanum, Buckets.isAlphanum_ascii⟩

/-- a bucket name of any length -/
def manyA (n : ℕ) : String := String.ofList (List.replicate n 'a')

theorem utf8_manyA (n : ℕ) : utf8 (manyA n) = List.replicate n 97 := by
  rw [manyA, utf8_ofList]
  induction n with
  | zero => rfl
  | succ n ih =>
    rw [List.replicate_succ, List.flatMap_cons, ih]
    rfl

theorem manyA_inj {n n' : ℕ} (h : manyA n = manyA n') : n = n' := by
  have := congrArg (fun s => (utf8 s).length) h
  simpa only [utf8_manyA, List.length_replicate] using this

theorem valid_manyA {n : ℕ} (hn : 0 < n) : validateBucket asciiLetters (manyA n) = .ok () := by
  have hall : ∀ c ∈ (manyA n).toList, c = 'a' := by
    intro c hc
    rw [manyA, String.toList_ofList] at hc
    exact List.eq_of_mem_replicate hc
  rw [validateBucket, if_neg]
  rintro (hempty | hslash | hback | hdots | hletters | hreserved)
  · have hlen := congrArg (fun s => (utf8 s).length) (String.isEmpty_iff.1 hempty)
    simp only [utf8_manyA, List.length_replicate] at hlen
    exact hn.ne' hlen
  · exact absurd (hall _ hslash) (by decide)
  · exact absurd (hall _ hback) (by decide)
  · exact absurd (hall '.' (hdots.subset List.mem_cons_self)) (by decide)
  · refine hletters (List.all_eq_true.2 fun c hc => ?_)
    rw [hall c hc]
    rfl
  · rw [RESERVED_BUCKETS, List.mem_singleton] at hreserved
    have hlist := congrArg String.toList hreserved
    rw [String.toList_ofList] at hlist
    have hp : 'p' ∈ (manyA n).toList.map Char.toLower := by
      rw [hlist]
      decide
    obtain ⟨c, hc, hcp⟩ := List.mem_map.1 hp
    rw [hall c hc] at hcp
    exact absurd hcp (by decide)

theorem valid_key : validateKey "k" = .ok () ∧ validateKey "l" = .ok () := by
  unfold validateKey
  constructor
  · simp [MAX_KEY_LEN]
    decide
  · simp [MAX_KEY_LEN]
    decide

/-- the one row of a table, if it has the prefix -/
theorem listing_single (h : encodeBucketPrefix bucket <+: encodeObjectKey m.bucket m.key) :
    listing J (upsert J m Tables.empty) bucket none = [m] := by
  have hmem : ∀ e, e ∈ (upsert J m Tables.empty).objects.withPrefix (encodeBucketPrefix bucket) ↔
      e = (encodeObjectKey m.bucket m.key, J.encode m) := by
    rintro ⟨k, p⟩
    rw [Table.mem_withPrefix, upsert, Table.getElem?_insert_iff, Tables.empty, Std.TreeMap.getElem?_emptyc]
    split_ifs with hk
    · subst hk
      rw [Option.some_inj, Prod.mk.injEq]
      exact ⟨fun hp => ⟨rfl, hp.1.symm⟩, fun hp => ⟨hp.2.symm, h⟩⟩
    · refine iff_of_false (fun hp => ?_) fun hp => hk (Prod.mk.inj hp).1.symm
      cases hp.1
  have hnodup : ((upsert J m Tables.empty).objects.withPrefix (encodeBucketPrefix bucket)).Nodup := by
    refine ((Table.pairwise_range _ _).sublist (List.takeWhile_sublist _)).imp ?_
    rintro e e' hlt rfl
    exact lt_irrefl _ hlt
  have hrows : (upsert J m Tables.empty).objects.withPrefix (encodeBucketPrefix bucket) =
      [(encodeObjectKey m.bucket m.key, J.encode m)] := by
    refine List.perm_singleton.1 ((List.perm_ext_iff_of_nodup hnodup (List.nodup_singleton _)).2 fun e => ?_)
    rw [hmem, List.mem_singleton]
  have hone : metadataOf J [(encodeObjectKey m.bucket m.key, J.encode m)] = [m] :=
    List.filterMap_cons_some (by rw [J.round_trip]; rfl)
  rw [listing, hrows, hone, List.mergeSort_singleton]
  rfl

theorem follow_single (ht : Keyed J U t) (hl : listing J t bucket none = [m]) :
    follow (fun after => scanObjects J t bucket none after 1000) 2 none = some (.ok [m]) := by
  rw [follow, scanObjects_eq ht, hl]
  rfl

/-- the length prefix of a name wraps at 4 GiB -/
theorem prefix_manyA {n : ℕ} (k : String) (hn : n % 2 ^ 32 = 1) : encodeBucketPrefix (manyA 1) <+: encodeObjectKey (manyA n) k := by
  have hlen : beBytes 4 n = beBytes 4 1 := by
    rw [← beBytes_mod 4 n, show n % 256 ^ 4 = 1 from hn]
  have hpos : n ≠ 0 := by
    rintro rfl
    cases hn
  obtain ⟨n', rfl⟩ := Nat.exists_eq_succ_of_ne_zero hpos
  refine ⟨List.replicate n' 97 ++ lenPrefixed k, ?_⟩
  simp only [encodeBucketPrefix, encodeObjectKey, lenPrefixed, utf8_manyA, List.length_replicate, hlen, List.append_assoc]
  simp only [List.replicate_succ, List.replicate_zero, List.cons_append, List.nil_append]

theorem short_manyA : Short (manyA 1) := by
  rw [Short, utf8_manyA, List.length_replicate]
  norm_num

theorem listings_complete_single :
    let t := upsert sampleJson (sampleRow (manyA 1) "k" 5 []) Tables.empty
    ∃ l, Lists sampleJson t (fun m => m.bucket = manyA 1 ∧ (none : Option String).all (fun p => startsWith m.key p) = true)
        (fun a b => utf8 a.key < utf8 b.key) l ∧
      ∀ n, l.length < n → follow (fun after => scanObjects sampleJson t (manyA 1) none after 1) n none = some (.ok l) := by
  refine (listings_complete (keyed_empty.upsert (valid_manyA Nat.one_pos) valid_key.1) fun m hm => ?_).1 (manyA 1) none 1 le_rfl
  rcases hm.of_upsert with rfl | hm
  · exact short_manyA
  · exact absurd hm not_row_empty

/-- an object of 2^63 bytes -/
def bigRow (key : String) : Metadata := sampleRow (manyA 1) key 9223372036854775808 []

noncomputable def bigTable : Tables := upsert sampleJson (bigRow "l") (upsert sampleJson (bigRow "k") Tables.empty)

theorem keyed_bigTable : Keyed sampleJson asciiLetters bigTable :=
  (keyed_empty.upsert (valid_manyA Nat.one_pos) valid_key.1).upsert (valid_manyA Nat.one_pos) valid_key.2

theorem row_bigTable (m : Metadata) : Row sampleJson bigTable m ↔ m ∈ [bigRow "k", bigRow "l"] := by
  have hk : Short "k" := show 1 < 2 ^ 32 by norm_num
  have hl : Short "l" := show 1 < 2 ^ 32 by norm_num
  have hkeys : ¬encodeObjectKey (bigRow "l").bucket (bigRow "l").key = encodeObjectKey (bigRow "k").bucket (bigRow "k").key := fun h =>
    absurd (encodeObjectKey_inj short_manyA hl short_manyA hk h).2 (by decide)
  rw [List.mem_pair]
  constructor
  · intro h
    rcases h.of_upsert with rfl | h
    · exact Or.inr rfl
    · rcases h.of_upsert with rfl | h
      · exact Or.inl rfl
      · exact absurd h not_row_empty
  · rintro (rfl | rfl)
    · refine ⟨sampleJson.encode (bigRow "k"), ?_, sampleJson.round_trip _⟩
      rw [bigTable, upsert, Table.getElem?_insert_iff, if_neg hkeys, upsert, Table.getElem?_insert_iff, if_pos rfl]
    · refine ⟨sampleJson.encode (bigRow "l"), ?_, sampleJson.round_trip _⟩
      rw [bigTable, upsert, Table.getElem?_insert_iff, if_pos rfl]

theorem short_bigTable (m : Metadata) (hm : Row sampleJson bigTable m) : Short m.bucket := by
  rcases List.mem_pair.1 ((row_bigTable m).1 hm) with rfl | rfl
  · exact short_manyA
  · exact short_manyA

theorem perm_bigTable : (listing sampleJson bigTable (manyA 1) none).Perm [bigRow "k", bigRow "l"] := by
  refine (List.perm_ext_iff_of_nodup ?_ ?_).2 fun m => ?_
  · refine (pairwise_listing keyed_bigTable short_bigTable).imp ?_
    rintro m m' hlt rfl
    exact lt_irrefl _ hlt
  · refine List.nodup_cons.2 ⟨?_, List.nodup_singleton _⟩
    rw [List.mem_singleton]
    intro h
    exact absurd (congrArg Metadata.key h) (by decide)
  · rw [mem_listing keyed_bigTable short_bigTable, row_bigTable]
    refine and_iff_left_of_imp fun hm => ⟨?_, rfl⟩
    rcases List.mem_pair.1 hm with rfl | rfl
    · rfl
    · rfl

/-- an object in a bucket with a name of 4 GiB and a byte -/
def longRow : Metadata := sampleRow (manyA (2 ^ 32 + 1)) "k" 1 []

noncomputable def longTable : Tables := upsert sampleJson longRow Tables.empty

theorem keyed_longTable : Keyed sampleJson asciiLetters longTable := keyed_empty.upsert (valid_manyA (Nat.succ_pos _)) valid_key.1

theorem longRow_bucket : longRow.bucket ≠ manyA 1 := by
  intro h
  exact absurd (manyA_inj h) (by norm_num)

/-- **Listings outside of these bounds.** A bucket whose name is 4 GiB longer than another's lists its object under the other; two
objects of 2^63 bytes each add up to a usage of 0. -/
theorem listings_incomplete :
    (Keyed sampleJson asciiLetters longTable ∧ longRow.bucket ≠ manyA 1 ∧
      follow (fun after => scanObjects sampleJson longTable (manyA 1) none after 1000) 2 none = some (.ok [longRow])) ∧
    Keyed sampleJson asciiLetters bigTable ∧ (∀ m, Row sampleJson bigTable m ↔ m ∈ [bigRow "k", bigRow "l"]) ∧
      ([bigRow "k", bigRow "l"].map (·.size.toNat)).sum = 2 ^ 64 ∧
      bucketUsageImpl sampleJson asciiLetters bigTable (manyA 1) 3 = some (.ok 0) := by
  have hzero : UInt64.ofNat (2 ^ 64) = 0 := by decide
  have hsum : ([bigRow "k", bigRow "l"].map (·.size.toNat)).sum = 2 ^ 64 := by
    simp only [List.map_cons, List.map_nil, List.sum_cons, List.sum_nil, bigRow, sampleRow]
    decide
  refine ⟨⟨keyed_longTable, longRow_bucket, ?_⟩, keyed_bigTable, row_bigTable, hsum, ?_⟩
  · exact follow_single keyed_longTable (listing_single (prefix_manyA "k" (by norm_num)))
  · have hlen : (listing sampleJson bigTable (manyA 1) none).length < 3 := by
      rw [perm_bigTable.length_eq]
      decide
    rw [bucketUsageImpl_eq keyed_bigTable short_bigTable (valid_manyA Nat.one_pos) hlen, (perm_bigTable.map _).sum_eq, hsum, hzero]

end Y2q.MetadataIndex
