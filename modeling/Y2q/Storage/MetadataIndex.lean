/-
The tables of the metadata index, byte by byte (`storage/index.rs`).

`OBJECTS` maps `bucket, key` to the metadata as JSON, `LABELS` maps `name, value, bucket, key` to nothing; the parts of a key are
length-prefixed. A transaction reads the old row of an object, removes its label rows, and writes the new row and its label rows.
JSON is a parameter that round-trips, and errors of the database are left out.

- `Exact`: every row is the metadata of the object it is stored under, and the label rows are those of the rows' labels.
  `Exact.replace`: kept when the row of one object is replaced or removed and its label rows with it.
- `label_index_exact`: so after any sequence of transactions; and `lookup_by_label` returns every object with the label once.

Names are shorter than 4 GiB, for otherwise the length prefix wraps.
-/
import Mathlib.Tactic
import Mathlib.Data.FinEnum
import Mathlib.Tactic.DeriveCountable
import Y2q.Core.Run
import Y2q.Core.Tables
import Y2q.Core.Text

namespace Y2q.MetadataIndex

open Y2q.Run

/-! ## Model -/

instance countableString : Countable String := Function.Injective.countable (β := List UInt8) fun _ _ h => utf8_inj h

/-- `labels` is a set, here the list of its elements -/
structure Metadata where
  created : UInt64
  modified : UInt64
  size : UInt64
  checksumGxhash : String
  bucket : String
  key : String
  diskPath : String
  urlPath : String
  labels : List (String × String)
  cipherSize : Option UInt64
  cipherChecksum : Option String
  kemAlg : Option String
  aeadAlg : Option String
  envelopeVersion : Option UInt16
  version : Option UInt64
  committedAt : Option UInt64
  keyEpoch : Option UInt32
deriving DecidableEq, Countable

/-- `serde_json`; an error comes with its text -/
structure Json where
  encode : Metadata → Bytes
  decode : Bytes → Except String Metadata
  round_trip : ∀ m, decode (encode m) = .ok m

structure Tables where
  objects : Table Bytes Bytes
  labels : Table Bytes Bytes

def Tables.empty : Tables := ⟨∅, ∅⟩

def encodeObjectKey (bucket key : String) : Bytes := lenPrefixed bucket ++ lenPrefixed key

def encodeBucketPrefix (bucket : String) : Bytes := lenPrefixed bucket

def encodeLabelKey (name value bucket key : String) : Bytes :=
  lenPrefixed name ++ lenPrefixed value ++ lenPrefixed bucket ++ lenPrefixed key

def encodeLabelPrefix (name value : String) : Bytes := lenPrefixed name ++ lenPrefixed value

def readLenPrefixed (buf : Bytes) : Option (String × Bytes) :=
  if buf.length < 4 then none
  else
    let len := ofBe (slice buf 0 4)
    if buf.length < 4 + len then none else (fromUtf8 (slice buf 4 (4 + len))).map fun s => (s, buf.drop (4 + len))

def decodeLabelSuffix (buf : Bytes) : Option (String × String) := do
  let (bucket, rest) ← readLenPrefixed buf
  let (key, _) ← readLenPrefixed rest
  some (bucket, key)

variable (J : Json)

/-- tear down the label rows of the prior row, if any -/
def dropLabels (bucket key : String) (t : Tables) : Table Bytes Bytes :=
  match t.objects[encodeObjectKey bucket key]? with
  | none => t.labels
  | some prev =>
    match J.decode prev with
    | .error _ => t.labels
    | .ok prevMeta => prevMeta.labels.foldl (fun labels l => labels.erase (encodeLabelKey l.1 l.2 bucket key)) t.labels

def upsert (m : Metadata) (t : Tables) : Tables where
  objects := t.objects.insert (encodeObjectKey m.bucket m.key) (J.encode m)
  labels := m.labels.foldl (fun labels l => labels.insert (encodeLabelKey l.1 l.2 m.bucket m.key) []) (dropLabels J m.bucket m.key t)

def remove (bucket key : String) (t : Tables) : Tables where
  objects := t.objects.erase (encodeObjectKey bucket key)
  labels := dropLabels J bucket key t

def lookupByLabel (name value : String) (t : Tables) : List (String × String) :=
  let p := encodeLabelPrefix name value
  t.labels.toList.filterMap fun e => if p.isPrefixOf e.1 then decodeLabelSuffix (e.1.drop p.length) else none

inductive Op where
  | upsert (m : Metadata)
  | remove (bucket key : String)

def step (t : Tables) : Op → Tables
  | .upsert m => upsert J m t
  | .remove bucket key => remove J bucket key t

/-! ## Names -/

/-- short enough for its length prefix -/
def Short (s : String) : Prop := (utf8 s).length < 2 ^ 32

structure Metadata.Short (m : Metadata) : Prop where
  bucket : MetadataIndex.Short m.bucket
  key : MetadataIndex.Short m.key
  labels : ∀ l ∈ m.labels, MetadataIndex.Short l.1 ∧ MetadataIndex.Short l.2

def Op.Short : Op → Prop
  | .upsert m => m.Short
  | .remove bucket key => MetadataIndex.Short bucket ∧ MetadataIndex.Short key

theorem encodeObjectKey_inj {b k b' k' : String} (hb : Short b) (hk : Short k) (hb' : Short b') (hk' : Short k')
    (h : encodeObjectKey b k = encodeObjectKey b' k') : b = b' ∧ k = k' := by
  obtain ⟨hbb, h⟩ := lenPrefixed_append_inj hb hb' h
  have hk : lenPrefixed k ++ [] = lenPrefixed k' ++ [] := by rw [h]
  exact ⟨hbb, (lenPrefixed_append_inj ‹Short k› hk' hk).1⟩

theorem encodeLabelKey_eq (n v b k : String) : encodeLabelKey n v b k = encodeLabelPrefix n v ++ encodeObjectKey b k := by
  simp only [encodeLabelKey, encodeLabelPrefix, encodeObjectKey, List.append_assoc]

/-- a label prefix gives the name and the value away, and leaves the object's key -/
theorem encodeLabelPrefix_append_inj {n v n' v' : String} {x y : Bytes} (hn : Short n) (hv : Short v) (hn' : Short n')
    (hv' : Short v') (h : encodeLabelPrefix n v ++ x = encodeLabelPrefix n' v' ++ y) : n = n' ∧ v = v' ∧ x = y := by
  simp only [encodeLabelPrefix, List.append_assoc] at h
  obtain ⟨hnn, h⟩ := lenPrefixed_append_inj hn hn' h
  obtain ⟨hvv, h⟩ := lenPrefixed_append_inj hv hv' h
  exact ⟨hnn, hvv, h⟩

theorem readLenPrefixed_lenPrefixed {s : String} (hs : Short s) (rest : Bytes) :
    readLenPrefixed (lenPrefixed s ++ rest) = some (s, rest) := by
  have hlen : (beBytes 4 (utf8 s).length).length = 4 := length_beBytes 4 _
  have hofBe : ofBe (slice (lenPrefixed s ++ rest) 0 4) = (utf8 s).length := by
    rw [lenPrefixed, List.append_assoc, slice_front hlen, ofBe_beBytes]
    exact Nat.mod_eq_of_lt hs
  have hslice : slice (lenPrefixed s ++ rest) 4 (4 + (utf8 s).length) = utf8 s := slice_middle hlen rfl
  have hdrop : (lenPrefixed s ++ rest).drop (4 + (utf8 s).length) = rest := by
    refine List.drop_left' ?_
    rw [lenPrefixed, List.length_append, hlen]
  have htotal : (lenPrefixed s ++ rest).length = 4 + (utf8 s).length + rest.length := by
    rw [lenPrefixed, List.length_append, List.length_append, hlen]
  rw [readLenPrefixed, if_neg (by omega)]
  simp only [hofBe, hslice, hdrop]
  rw [if_neg (by omega), fromUtf8_utf8, Option.map_some]

theorem decodeLabelSuffix_encodeObjectKey {b k : String} (hb : Short b) (hk : Short k) :
    decodeLabelSuffix (encodeObjectKey b k) = some (b, k) := by
  have hread : readLenPrefixed (lenPrefixed k) = some (k, []) := by
    have := readLenPrefixed_lenPrefixed hk []
    rwa [List.append_nil] at this
  simp only [decodeLabelSuffix, encodeObjectKey, readLenPrefixed_lenPrefixed hb, hread, Option.bind_eq_bind, Option.bind_some]

theorem Json.encode_inj {m m' : Metadata} (h : J.encode m = J.encode m') : m = m' := by
  have := congrArg J.decode h
  rw [J.round_trip, J.round_trip] at this
  exact Except.ok.inj this

/-! ## The two tables agree -/

/-- the row of an object -/
def Holds (t : Tables) (m : Metadata) : Prop := t.objects[encodeObjectKey m.bucket m.key]? = some (J.encode m)

/-- the label rows of a metadata -/
def LabelRow (m : Metadata) (k : Bytes) : Prop := ∃ l ∈ m.labels, encodeLabelKey l.1 l.2 m.bucket m.key = k

structure Exact (t : Tables) : Prop where
  rows : ∀ k p, t.objects[k]? = some p → ∃ m : Metadata, m.Short ∧ k = encodeObjectKey m.bucket m.key ∧ p = J.encode m
  labels : ∀ k, k ∈ t.labels ↔ ∃ m, Holds J t m ∧ LabelRow m k

variable {J} {t t' : Tables} {m : Metadata} {b k : String}

theorem Exact.short (h : Exact J t) (hm : Holds J t m) : m.Short := by
  obtain ⟨m', hm', -, hp⟩ := h.rows _ _ hm
  rwa [J.encode_inj hp]

theorem LabelRow.same_names {m m' : Metadata} (hm : m.Short) (hm' : m'.Short) {L : Bytes} (h : LabelRow m L) (h' : LabelRow m' L) :
    m.bucket = m'.bucket ∧ m.key = m'.key := by
  obtain ⟨l, hl, rfl⟩ := h
  obtain ⟨l', hl', heq⟩ := h'
  rw [encodeLabelKey_eq, encodeLabelKey_eq] at heq
  obtain ⟨hn, hv⟩ := hm.labels l hl
  obtain ⟨hn', hv'⟩ := hm'.labels l' hl'
  obtain ⟨-, -, hkeys⟩ := encodeLabelPrefix_append_inj hn' hv' hn hv heq
  exact encodeObjectKey_inj hm.bucket hm.key hm'.bucket hm'.key hkeys.symm

/-- what stays in `LABELS` when an object's label rows are torn down -/
theorem Exact.mem_dropLabels (h : Exact J t) (hb : Short b) (hk : Short k) (L : Bytes) :
    L ∈ dropLabels J b k t ↔ ∃ m, Holds J t m ∧ ¬(m.bucket = b ∧ m.key = k) ∧ LabelRow m L := by
  rw [dropLabels]
  cases hprev : t.objects[encodeObjectKey b k]? with
  | none =>
    have hother : ∀ m, Holds J t m → ¬(m.bucket = b ∧ m.key = k) := by
      rintro m hm ⟨rfl, rfl⟩
      rw [Holds, hprev] at hm
      cases hm
    simp only
    rw [h.labels]
    constructor
    · rintro ⟨m, hm, hrow⟩
      exact ⟨m, hm, hother m hm, hrow⟩
    · rintro ⟨m, hm, -, hrow⟩
      exact ⟨m, hm, hrow⟩
  | some prev =>
    obtain ⟨pm, hpm, hkey, rfl⟩ := h.rows _ _ hprev
    obtain ⟨rfl, rfl⟩ := encodeObjectKey_inj hb hk hpm.bucket hpm.key hkey
    simp only [J.round_trip]
    rw [Table.mem_foldl_erase (fun l : String × String => encodeLabelKey l.1 l.2 pm.bucket pm.key), h.labels]
    constructor
    · rintro ⟨⟨m, hm, hrow⟩, hkeep⟩
      refine ⟨m, hm, fun hsame => ?_, hrow⟩
      -- the row would be the prior one, and its label rows are gone
      have hmp : m = pm := by
        rw [Holds, hsame.1, hsame.2, hprev] at hm
        exact J.encode_inj (Option.some.inj hm).symm
      subst hmp
      obtain ⟨l, hl, hL⟩ := hrow
      exact hkeep l hl hL
    · rintro ⟨m, hm, hother, hrow⟩
      refine ⟨⟨m, hm, hrow⟩, fun l hl hL => hother ?_⟩
      exact hrow.same_names (h.short hm) hpm ⟨l, hl, hL⟩

/-- **The row of one object is replaced** by `o`, and its label rows with it. -/
theorem Exact.replace (h : Exact J t) (hb : Short b) (hk : Short k) {o : Option Metadata}
    (ho : ∀ m ∈ o, m.Short ∧ m.bucket = b ∧ m.key = k)
    (hobj : ∀ K, t'.objects[K]? = if encodeObjectKey b k = K then o.map J.encode else t.objects[K]?)
    (hlab : ∀ L, L ∈ t'.labels ↔ L ∈ dropLabels J b k t ∨ ∃ m ∈ o, LabelRow m L) : Exact J t' := by
  -- the other objects keep their rows
  have hother : ∀ m, ¬(m.bucket = b ∧ m.key = k) → (Holds J t m → Holds J t' m) := by
    intro m hne hm
    have hkey : encodeObjectKey b k ≠ encodeObjectKey m.bucket m.key := by
      intro heq
      obtain ⟨h1, h2⟩ := encodeObjectKey_inj hb hk (h.short hm).bucket (h.short hm).key heq
      exact hne ⟨h1.symm, h2.symm⟩
    rw [Holds, hobj, if_neg hkey]
    exact hm
  refine ⟨fun K p hp => ?_, fun L => ?_⟩
  · rw [hobj] at hp
    split_ifs at hp with hK
    · cases ho' : o with
      | none =>
        rw [ho'] at hp
        cases hp
      | some m =>
        obtain ⟨hshort, rfl, rfl⟩ := ho m ho'
        rw [ho', Option.map_some] at hp
        exact ⟨m, hshort, hK.symm, (Option.some.inj hp).symm⟩
    · exact h.rows K p hp
  · rw [hlab, h.mem_dropLabels hb hk]
    constructor
    · rintro (⟨m, hm, hne, hrow⟩ | ⟨m, hm, hrow⟩)
      · exact ⟨m, hother m hne hm, hrow⟩
      · obtain ⟨-, rfl, rfl⟩ := ho m hm
        refine ⟨m, ?_, hrow⟩
        rw [Holds, hobj, if_pos rfl, show o = some m from hm]
        rfl
    · rintro ⟨m, hm, hrow⟩
      by_cases hsame : m.bucket = b ∧ m.key = k
      · obtain ⟨rfl, rfl⟩ := hsame
        rw [Holds, hobj, if_pos rfl] at hm
        obtain ⟨m', hm', heq⟩ := Option.map_eq_some_iff.1 hm
        rw [J.encode_inj heq] at hm'
        exact Or.inr ⟨m, hm', hrow⟩
      · refine Or.inl ⟨m, ?_, hsame, hrow⟩
        rw [Holds, hobj] at hm
        split_ifs at hm with hK
        · -- only the object itself is stored under its key
          obtain ⟨m', hm', heq⟩ := Option.map_eq_some_iff.1 hm
          rw [J.encode_inj heq] at hm'
          exact absurd (ho m hm').2 hsame
        · exact hm

theorem exact_empty : Exact J Tables.empty where
  rows k p h := by
    rw [Tables.empty, Std.TreeMap.getElem?_emptyc] at h
    cases h
  labels L := by
    refine iff_of_false Std.TreeMap.not_mem_emptyc ?_
    rintro ⟨m, hm, -⟩
    rw [Holds, Tables.empty, Std.TreeMap.getElem?_emptyc] at hm
    cases hm

/-- one transaction -/
theorem step_exact (h : Exact J t) {op : Op} (hop : op.Short) : Exact J (step J t op) := by
  cases op with
  | upsert m =>
    refine h.replace (o := some m) hop.bucket hop.key ?_ (fun K => Table.getElem?_insert_iff) fun L => ?_
    · intro m' hm'
      cases hm'
      exact ⟨hop, rfl, rfl⟩
    · simp only [step, upsert, Table.mem_foldl_insert (fun l : String × String => encodeLabelKey l.1 l.2 m.bucket m.key), LabelRow,
        Option.mem_some_iff, exists_eq_left']
  | remove b k =>
    refine h.replace (o := none) hop.1 hop.2 nofun (fun K => Table.getElem?_erase_iff) fun L => ?_
    simp [step, remove]

/-- **After any transactions.** -/
theorem run_exact (J : Json) {ops : List Op} (h : ∀ op ∈ ops, op.Short) : Exact J (run (step J) Tables.empty ops) := by
  suffices hgen : ∀ t, Exact J t → Exact J (run (step J) t ops) from hgen _ exact_empty
  induction ops with
  | nil => exact fun t ht => ht
  | cons op ops ih =>
    intro t ht
    rw [run_cons]
    exact ih (fun op' hop' => h op' (List.mem_cons_of_mem op hop')) _ (step_exact ht (h op List.mem_cons_self))

/-! ## Lookups by label -/

/-- `OBJECTS` holds a row for the object whose metadata carries the label -/
def HasLabel (J : Json) (t : Tables) (bucket key name value : String) : Prop :=
  ∃ p m, t.objects[encodeObjectKey bucket key]? = some p ∧ J.decode p = .ok m ∧ (name, value) ∈ m.labels

variable {n v : String}

theorem Exact.hasLabel_iff (h : Exact J t) (hb : Short b) (hk : Short k) :
    HasLabel J t b k n v ↔ ∃ m, Holds J t m ∧ m.bucket = b ∧ m.key = k ∧ (n, v) ∈ m.labels := by
  constructor
  · rintro ⟨p, m, hp, hdec, hl⟩
    obtain ⟨m', hm', hkey, rfl⟩ := h.rows _ _ hp
    rw [J.round_trip] at hdec
    cases hdec
    obtain ⟨rfl, rfl⟩ := encodeObjectKey_inj hb hk hm'.bucket hm'.key hkey
    exact ⟨m, hp, rfl, rfl, hl⟩
  · rintro ⟨m, hm, rfl, rfl, hl⟩
    exact ⟨J.encode m, m, hm, J.round_trip m, hl⟩

theorem Exact.mem_labels_iff (h : Exact J t) (hn : Short n) (hv : Short v) (hb : Short b) (hk : Short k) :
    encodeLabelKey n v b k ∈ t.labels ↔ HasLabel J t b k n v := by
  rw [h.labels, h.hasLabel_iff hb hk]
  refine exists_congr fun m => and_congr_right fun hm => ?_
  constructor
  · rintro ⟨l, hl, heq⟩
    rw [encodeLabelKey_eq, encodeLabelKey_eq] at heq
    have hm' := h.short hm
    obtain ⟨hln, hlv⟩ := hm'.labels l hl
    obtain ⟨h1, h2, heq⟩ := encodeLabelPrefix_append_inj hln hlv hn hv heq
    obtain ⟨h3, h4⟩ := encodeObjectKey_inj hm'.bucket hm'.key hb hk heq
    rw [← h1, ← h2]
    exact ⟨h3, h4, hl⟩
  · rintro ⟨rfl, rfl, hl⟩
    exact ⟨(n, v), hl, rfl⟩

/-- what a label row gives for a lookup -/
def found (name value : String) (row : Bytes) : Option (String × String) :=
  if (encodeLabelPrefix name value).isPrefixOf row then decodeLabelSuffix (row.drop (encodeLabelPrefix name value).length) else none

/-- a row of the table is found exactly for its own label, and as its own object -/
theorem Exact.found_iff (h : Exact J t) (hn : Short n) (hv : Short v) {row : Bytes} (hrow : row ∈ t.labels) {x : String × String} :
    found n v row = some x ↔ Short x.1 ∧ Short x.2 ∧ row = encodeLabelKey n v x.1 x.2 := by
  obtain ⟨m, hm, l, hl, rfl⟩ := (h.labels row).1 hrow
  have hm' := h.short hm
  obtain ⟨hln, hlv⟩ := hm'.labels l hl
  rw [encodeLabelKey_eq, encodeLabelKey_eq]
  constructor
  · intro hf
    rw [found] at hf
    split_ifs at hf with hp
    obtain ⟨s, hs⟩ := List.isPrefixOf_iff_prefix.1 hp
    obtain ⟨h1, h2, rfl⟩ := encodeLabelPrefix_append_inj hn hv hln hlv hs
    rw [← hs, List.drop_left, decodeLabelSuffix_encodeObjectKey hm'.bucket hm'.key] at hf
    cases hf
    exact ⟨hm'.bucket, hm'.key, by rw [h1, h2]⟩
  · rintro ⟨hb, hk, heq⟩
    rw [heq, found, if_pos (List.isPrefixOf_iff_prefix.2 (List.prefix_append _ _)), List.drop_left]
    exact decodeLabelSuffix_encodeObjectKey hb hk

theorem lookupByLabel_eq (t : Tables) : lookupByLabel n v t = t.labels.toList.filterMap fun e => found n v e.1 := rfl

theorem Exact.mem_lookupByLabel (h : Exact J t) (hn : Short n) (hv : Short v) :
    (b, k) ∈ lookupByLabel n v t ↔ Short b ∧ Short k ∧ HasLabel J t b k n v := by
  rw [lookupByLabel_eq, List.mem_filterMap]
  constructor
  · rintro ⟨⟨row, p⟩, he, hf⟩
    have hrow : row ∈ t.labels := Table.mem_iff_getElem?.2 ⟨p, Table.mem_toList.1 he⟩
    obtain ⟨hb, hk, rfl⟩ := (h.found_iff hn hv hrow).1 hf
    exact ⟨hb, hk, (h.mem_labels_iff hn hv hb hk).1 hrow⟩
  · rintro ⟨hb, hk, hhas⟩
    have hrow := (h.mem_labels_iff hn hv hb hk).2 hhas
    obtain ⟨p, hp⟩ := Table.mem_iff_getElem?.1 hrow
    exact ⟨(_, p), Table.mem_toList.2 hp, (h.found_iff hn hv hrow).2 ⟨hb, hk, rfl⟩⟩

theorem Exact.nodup_lookupByLabel (h : Exact J t) (hn : Short n) (hv : Short v) : (lookupByLabel n v t).Nodup := by
  rw [lookupByLabel_eq, List.Nodup, List.pairwise_filterMap]
  refine t.labels.pairwise_toList.imp_of_mem ?_
  rintro ⟨row, p⟩ ⟨row', p'⟩ he he' hlt x hx y hy rfl
  have hrow : row ∈ t.labels := Table.mem_iff_getElem?.2 ⟨p, Table.mem_toList.1 he⟩
  have hrow' : row' ∈ t.labels := Table.mem_iff_getElem?.2 ⟨p', Table.mem_toList.1 he'⟩
  obtain ⟨-, -, rfl⟩ := (h.found_iff hn hv hrow).1 hx
  obtain ⟨-, -, rfl⟩ := (h.found_iff hn hv hrow').1 hy
  exact lt_irrefl _ hlt

/-- **The label index is exact.** After any sequence of `upsert` and `remove` from the empty index, `LABELS` has the key of a label
and an object exactly if the object's row carries the label, and `lookup_by_label` returns every such object once and no other. -/
theorem label_index_exact (J : Json) {ops : List Op} (hops : ∀ op ∈ ops, op.Short) {n v : String} (hn : Short n) (hv : Short v) :
    let t := run (step J) Tables.empty ops
    (∀ b k, Short b → Short k → (encodeLabelKey n v b k ∈ t.labels ↔ HasLabel J t b k n v)) ∧
      (lookupByLabel n v t).Nodup ∧
      ∀ b k, (b, k) ∈ lookupByLabel n v t ↔ Short b ∧ Short k ∧ HasLabel J t b k n v := by
  have h := run_exact J hops
  exact ⟨fun b k hb hk => h.mem_labels_iff hn hv hb hk, h.nodup_lookupByLabel hn hv, fun b k => h.mem_lookupByLabel hn hv⟩

/-! ## A label dropped by an overwrite -/

open Classical in
/-- a text of its own for every metadata -/
noncomputable def sampleJson : Json :=
  let number := (exists_injective_nat Metadata).choose
  { encode := fun m => List.replicate (number m) 1
    decode := fun b => if h : ∃ m, number m = b.length then .ok h.choose else .error "EOF while parsing a value"
    round_trip := fun m => by
      have h : ∃ m', number m' = (List.replicate (number m) (1 : UInt8)).length := ⟨m, by rw [List.length_replicate]⟩
      have hnumber : number h.choose = number m := by rw [h.choose_spec, List.length_replicate]
      rw [dif_pos h, (exists_injective_nat Metadata).choose_spec hnumber] }

def sampleRow (bucket key : String) (size : UInt64) (labels : List (String × String)) : Metadata :=
  ⟨1, 1, size, "", bucket, key, "", "", labels, none, none, none, none, none, none, none, none⟩

theorem label_index_exact_overwrite :
    let t := run (step sampleJson) Tables.empty
      [.upsert (sampleRow "b" "k" 1 [("env", "prod")]), .upsert (sampleRow "b" "k" 1 [("env", "dev")])]
    (∀ b k, Short b → Short k → (encodeLabelKey "env" "prod" b k ∈ t.labels ↔ HasLabel sampleJson t b k "env" "prod")) ∧
      (lookupByLabel "env" "prod" t).Nodup ∧
      ∀ b k, (b, k) ∈ lookupByLabel "env" "prod" t ↔ Short b ∧ Short k ∧ HasLabel sampleJson t b k "env" "prod" := by
  have hb : Short "b" := show 1 < 2 ^ 32 by norm_num
  have hk : Short "k" := show 1 < 2 ^ 32 by norm_num
  have henv : Short "env" := show 3 < 2 ^ 32 by norm_num
  have hprod : Short "prod" := show 4 < 2 ^ 32 by norm_num
  have hdev : Short "dev" := show 3 < 2 ^ 32 by norm_num
  refine label_index_exact sampleJson ?_ henv hprod
  intro op hop
  simp only [List.mem_cons, List.not_mem_nil, or_false] at hop
  rcases hop with rfl | rfl
  · refine ⟨hb, hk, fun l hl => ?_⟩
    rw [List.mem_singleton.1 hl]
    exact ⟨henv, hprod⟩
  · refine ⟨hb, hk, fun l hl => ?_⟩
    rw [List.mem_singleton.1 hl]
    exact ⟨henv, hdev⟩

end Y2q.MetadataIndex
