/-
The walk over the buckets of the metadata index (`storage/index.rs`, `list_buckets`).

The keys of `OBJECTS` begin with the length and the bytes of the bucket's name. The walk reads the first row, notes its bucket, and goes
on from `next_lex_after` of the bucket's encoded name, until there are no more rows; then it sorts what it has noted. The database is a
sorted table, and its errors are left out.

- `nextLexAfter_spec`: of the rows from one of a bucket's on, those below it are exactly the bucket's.
- `walk_spec`: so from any point on, the walk notes every bucket that has a row there once, in at most one step for each row.
- `list_buckets_complete`: the list has every bucket with a row once, in the order of their names.
-/
import Mathlib.Tactic
import Y2q.Core.Prefixes
import Y2q.Storage.Listing

namespace Y2q.MetadataIndex

/-! ## Model -/

def nextByte (b : UInt8) : Option UInt8 := if b < 0xFF then some (b + 1) else none

def nextLexAfter (p : Bytes) : Option Bytes := scanBack nextByte p

/-- the loop from `start` on, with the buckets noted so far; `none` when the fuel is used up -/
def walk (objects : Table Bytes Bytes) : ℕ → Bytes → List String → Option (Except String (List String))
  | 0, _, _ => none
  | fuel + 1, start, buckets =>
    match (objects.range start).head? with
    | none => some (.ok buckets)
    | some (k, _) =>
      match readLenPrefixed k with
      | none => some (.error "malformed object key in index")
      | some (bucket, _) =>
        match nextLexAfter (encodeBucketPrefix bucket) with
        | none => some (.ok (buckets ++ [bucket]))
        | some next => walk objects fuel next (buckets ++ [bucket])

/-- Encoded keys sort by length first, then bytes; the sort undoes that -/
def listBuckets (objects : Table Bytes Bytes) (fuel : ℕ) : Option (Except String (List String)) :=
  (walk objects fuel [] []).map fun r => r.map fun buckets => buckets.mergeSort fun a b => utf8 a ≤ utf8 b

/-! ## Where the walk jumps to -/

theorem next_nextByte : Next nextByte where
  lt_iff b c h x := by
    rw [nextByte] at h
    split_ifs at h with hb
    cases h
    rw [UInt8.lt_iff_toNat_lt] at hb ⊢
    rw [UInt8.le_iff_toNat_le, UInt8.toNat_add]
    have hmax : (0xFF : UInt8).toNat = 255 := rfl
    have hone : (1 : UInt8).toNat = 1 := rfl
    omega
  top b h x := by
    rw [nextByte] at h
    split_ifs at h with hb
    rw [UInt8.lt_iff_toNat_lt] at hb
    rw [UInt8.le_iff_toNat_le]
    have hmax : (0xFF : UInt8).toNat = 255 := rfl
    have hx := x.toNat_lt
    omega

theorem bucketPrefix_iff {b b' : String} (hb : Short b) (hb' : Short b') (k : String) :
    encodeBucketPrefix b <+: encodeObjectKey b' k ↔ b' = b := by
  constructor
  · intro ⟨rest, h⟩
    exact (lenPrefixed_append_inj hb hb' h).1.symm
  · rintro rfl
    exact List.prefix_append _ _

/-- the rows of one bucket, as the database orders them -/
theorem nextLexAfter_spec {b b' k k' : String} (hb : Short b) (hb' : Short b') (h : encodeObjectKey b k ≤ encodeObjectKey b' k') :
    match nextLexAfter (encodeBucketPrefix b) with
    | none => b' = b
    | some next => encodeObjectKey b' k' < next ↔ b' = b := by
  have hfrom : ¬encodeObjectKey b' k' < encodeBucketPrefix b := fun hlt =>
    prefix_not_lt ((bucketPrefix_iff hb hb k).2 rfl) (h.trans_lt hlt)
  cases hnext : nextLexAfter (encodeBucketPrefix b) with
  | none =>
    rw [nextLexAfter, scanBack_eq] at hnext
    exact (bucketPrefix_iff hb hb' k').1 (prefix_of_not_lt next_nextByte hnext hfrom)
  | some next =>
    rw [nextLexAfter, scanBack_eq] at hnext
    show encodeObjectKey b' k' < next ↔ b' = b
    rw [lt_afterPrefix_iff next_nextByte hnext, or_iff_right hfrom, bucketPrefix_iff hb hb']

/-! ## The walk -/

/-- the keys of the table are those of the rows -/
def Indexes (t : Table Bytes Bytes) (rows : Set (String × String)) : Prop :=
  ∀ K, K ∈ t ↔ ∃ r ∈ rows, K = encodeObjectKey r.1 r.2

variable {t : Table Bytes Bytes} {rows : Set (String × String)} {start K v : Bytes} {b k : String}

theorem Indexes.mem_range (ht : Indexes t rows) (h : (b, k) ∈ rows) (hle : start ≤ encodeObjectKey b k) :
    ∃ v, (encodeObjectKey b k, v) ∈ t.range start := by
  obtain ⟨v, hv⟩ := Table.mem_iff_getElem?.1 ((ht _).2 ⟨(b, k), h, rfl⟩)
  exact ⟨v, Table.mem_range.2 ⟨hv, hle⟩⟩

theorem Indexes.of_mem_range (ht : Indexes t rows) (h : (K, v) ∈ t.range start) :
    ∃ b k, (b, k) ∈ rows ∧ K = encodeObjectKey b k ∧ start ≤ K := by
  obtain ⟨hv, hle⟩ := Table.mem_range.1 h
  obtain ⟨⟨b, k⟩, hr, hK⟩ := (ht K).1 (Table.mem_iff_getElem?.2 ⟨v, hv⟩)
  exact ⟨b, k, hr, hK, hle⟩

/-- from a later point on there are fewer rows -/
theorem length_range_lt {next : Bytes} {rest : List (Bytes × Bytes)} (hrange : t.range start = (K, v) :: rest) (hlt : K < next) :
    (t.range next).length ≤ rest.length := by
  have hK : start ≤ K := (Table.mem_range.1 (hrange ▸ List.mem_cons_self : (K, v) ∈ t.range start)).2
  have hnodup : (t.range next).Nodup := by
    refine List.Pairwise.imp (fun {a b} h heq => ?_) (t.pairwise_range next)
    rw [heq] at h
    exact lt_irrefl _ h
  refine (hnodup.subperm fun e he => ?_).length_le
  obtain ⟨he, hle⟩ := Table.mem_range.1 (show (e.1, e.2) ∈ t.range next from he)
  have hmem : e ∈ t.range start := Table.mem_range.2 ⟨he, hK.trans (hlt.le.trans hle)⟩
  rw [hrange, List.mem_cons] at hmem
  refine hmem.resolve_left fun heq => ?_
  rw [heq] at hle
  exact absurd hlt (not_lt.2 hle)

/-- **From a point on, the walk notes each bucket that has a row there once.** One step for each row is enough. -/
theorem walk_spec (ht : Indexes t rows) (hshort : ∀ r ∈ rows, Short r.1) {n : ℕ} {start : Bytes}
    (hn : (t.range start).length < n) :
    ∃ l, (∀ fuel acc, n ≤ fuel → walk t fuel start acc = some (.ok (acc ++ l))) ∧ l.Nodup ∧
      ∀ b, b ∈ l ↔ ∃ k, (b, k) ∈ rows ∧ start ≤ encodeObjectKey b k := by
  induction n generalizing start with
  | zero => exact absurd hn (Nat.not_lt_zero _)
  | succ n ih =>
    cases hrange : t.range start with
    | nil =>
      refine ⟨[], fun fuel acc hfuel => ?_, List.nodup_nil, fun b => ?_⟩
      · obtain ⟨fuel, rfl⟩ := Nat.exists_eq_add_of_lt hfuel
        simp [walk, hrange]
      refine iff_of_false List.not_mem_nil ?_
      rintro ⟨k, hr, hle⟩
      obtain ⟨v, hv⟩ := ht.mem_range hr hle
      rw [hrange] at hv
      exact List.not_mem_nil hv
    | cons e rest =>
      obtain ⟨K, v⟩ := e
      obtain ⟨b, k, hr, rfl, hstart⟩ := ht.of_mem_range (hrange ▸ List.mem_cons_self : (K, v) ∈ t.range start)
      have hb := hshort _ hr
      have hread : readLenPrefixed (encodeObjectKey b k) = some (b, lenPrefixed k) := readLenPrefixed_lenPrefixed hb _
      -- every row from the start on is at or behind the first one
      have hfirst : ∀ {b' k'}, (b', k') ∈ rows → start ≤ encodeObjectKey b' k' → encodeObjectKey b k ≤ encodeObjectKey b' k' := by
        intro b' k' hr' hle
        obtain ⟨v', hv'⟩ := ht.mem_range hr' hle
        have hsorted := t.pairwise_range start
        rw [hrange, List.pairwise_cons] at hsorted
        rw [hrange, List.mem_cons] at hv'
        rcases hv' with heq | hmem
        · exact (Prod.mk.inj heq).1.ge
        · exact (hsorted.1 _ hmem).le
      have hjump : ∀ {b' k'}, (b', k') ∈ rows → start ≤ encodeObjectKey b' k' → _ := fun hr' hle =>
        nextLexAfter_spec hb (hshort _ hr') (hfirst hr' hle)
      cases hnext : nextLexAfter (encodeBucketPrefix b) with
      | none =>
        refine ⟨[b], fun fuel acc hfuel => ?_, List.nodup_singleton b, fun b' => ?_⟩
        · obtain ⟨fuel, rfl⟩ := Nat.exists_eq_add_of_lt hfuel
          simp [walk, hrange, hread, hnext]
        rw [List.mem_singleton]
        constructor
        · rintro rfl
          exact ⟨k, hr, hstart⟩
        · rintro ⟨k', hr', hle⟩
          have h := hjump hr' hle
          rw [hnext] at h
          exact h
      | some next =>
        have hbelow : ∀ {b' k'}, (b', k') ∈ rows → start ≤ encodeObjectKey b' k' → (encodeObjectKey b' k' < next ↔ b' = b) := by
          intro b' k' hr' hle
          have h := hjump hr' hle
          rw [hnext] at h
          exact h
        have hlt : encodeObjectKey b k < next := (hbelow hr hstart).2 rfl
        have hlater : ∀ {K'}, next ≤ K' → start ≤ K' := fun h => hstart.trans (hlt.le.trans h)
        have hlen := length_range_lt hrange hlt
        rw [hrange, List.length_cons] at hn
        obtain ⟨l, hwalk, hnodup, hmem⟩ := ih (by omega : (t.range next).length < n)
        refine ⟨b :: l, fun fuel acc hfuel => ?_, List.nodup_cons.2 ⟨fun hbl => ?_, hnodup⟩, fun b' => ?_⟩
        · obtain ⟨m, rfl⟩ := Nat.exists_eq_add_of_lt hfuel
          rw [walk]
          simp only [hrange, List.head?_cons, hread, hnext]
          rw [hwalk _ _ (by omega), List.append_assoc, List.singleton_append]
        · obtain ⟨k', hr', hle⟩ := (hmem b).1 hbl
          exact absurd ((hbelow hr' (hlater hle)).2 rfl) (not_lt.2 hle)
        · rw [List.mem_cons, hmem]
          constructor
          · rintro (rfl | ⟨k', hr', hle⟩)
            · exact ⟨k, hr, hstart⟩
            · exact ⟨k', hr', hlater hle⟩
          · rintro ⟨k', hr', hle⟩
            by_cases hn : encodeObjectKey b' k' < next
            · exact Or.inl ((hbelow hr' hle).1 hn)
            · exact Or.inr ⟨k', hr', not_lt.1 hn⟩

/-- **The walk is complete.** For every set of rows whose bucket names are shorter than 4 GiB, the list ends within a step for each row
and has each bucket with a row once, in the order of the names; of the rows from one of a bucket's on, those that the jump passes are
exactly the bucket's. -/
theorem list_buckets_complete (ht : Indexes t rows) (hshort : ∀ r ∈ rows, Short r.1) :
    (∃ l, (∀ fuel, t.toList.length < fuel → listBuckets t fuel = some (.ok l)) ∧ l.Pairwise (fun a b => utf8 a < utf8 b) ∧
      ∀ b, b ∈ l ↔ ∃ k, (b, k) ∈ rows) ∧
    ∀ b k b' k', (b, k) ∈ rows → (b', k') ∈ rows → encodeObjectKey b k ≤ encodeObjectKey b' k' →
      match nextLexAfter (encodeBucketPrefix b) with
      | none => b' = b
      | some next => encodeObjectKey b' k' < next ↔ b' = b := by
  refine ⟨?_, fun b k b' k' hr hr' hle => nextLexAfter_spec (hshort _ hr) (hshort _ hr') hle⟩
  have hall : (t.range []).length ≤ t.toList.length := (List.dropWhile_sublist _).length_le
  obtain ⟨l, hwalk, hnodup, hmem⟩ := walk_spec ht hshort (Nat.lt_succ_of_le hall)
  refine ⟨l.mergeSort fun a b => utf8 a ≤ utf8 b, fun fuel hfuel => ?_, ?_, fun b => ?_⟩
  · rw [listBuckets, hwalk fuel [] hfuel]
    rfl
  · exact pairwise_mergeSort_lt utf8 (hnodup.imp fun hne heq => hne (utf8_inj heq))
  · rw [List.mem_mergeSort, hmem]
    exact exists_congr fun k => and_iff_left (not_lt.1 (List.not_lt_nil _))

/-- two buckets; the later name comes first in the table, since it is shorter -/
def zFirst : Table Bytes Bytes :=
  (((∅ : Table Bytes Bytes).insert (encodeObjectKey "z" "k") []).insert (encodeObjectKey "aa" "k") []).insert (encodeObjectKey "aa" "l") []

theorem indexes_zFirst : Indexes zFirst {r | r = ("z", "k") ∨ r = ("aa", "k") ∨ r = ("aa", "l")} := by
  intro K
  rw [zFirst, Table.mem_insert_iff, Table.mem_insert_iff, Table.mem_insert_iff]
  simp only [Set.mem_ofPred_eq, exists_eq_or_imp, exists_eq_left, Std.TreeMap.not_mem_emptyc, or_false, eq_comm (b := K)]
  tauto

theorem list_buckets_complete_zFirst :
    ∃ l, (∀ fuel, zFirst.toList.length < fuel → listBuckets zFirst fuel = some (.ok l)) ∧ l.Pairwise (fun a b => utf8 a < utf8 b) ∧
      ∀ b, b ∈ l ↔ ∃ k, (b, k) ∈ {r : String × String | r = ("z", "k") ∨ r = ("aa", "k") ∨ r = ("aa", "l")} := by
  refine (list_buckets_complete indexes_zFirst ?_).1
  rintro r (rfl | rfl | rfl)
  all_goals
    unfold Short
    decide

end Y2q.MetadataIndex
