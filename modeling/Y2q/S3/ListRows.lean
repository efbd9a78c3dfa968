/-
The rows behind an S3 listing, and the entries that they are rolled up into (`s3/bucket.rs`).

- `entryOf`: what a row is listed as; `cursorOf`: where a request is after it.
- `Rows.group_of_between`, `Rows.split_group`: the rows of a group are neighbours, but for reserved keys.
- `Rows.reread`, `Rows.skipped`: the rows between a row and the cursor behind it.
- `past_of_not_overrun`, `entries_past_of_overrun`: a cursor behind a group leads on to the next entry, unless the last key of the group
  is larger than the cursor that is to skip it.
- `entries_past_prefix`: what lies past a common prefix.
-/
import Mathlib.Tactic
import Y2q.Core.Groups
import Y2q.S3.ListObjects

namespace Y2q.MetadataIndex.ListObjects

open Y2q.Pages Y2q.Groups
open Multipart (isReservedKey reservedKeys)

/-! ## Rows and entries -/

/-- what a listing is to have: keys that are not rolled up, and common prefixes -/
inductive Entry where
  | item (m : Metadata)
  | group (cp : String)
deriving DecidableEq

def Entry.item? : Entry → Option Metadata
  | .item m => some m
  | .group _ => none

def Entry.group? : Entry → Option String
  | .item _ => none
  | .group cp => some cp

@[simp] theorem Entry.item?_item (m : Metadata) : (Entry.item m).item? = some m := rfl

@[simp] theorem Entry.item?_group (cp : String) : (Entry.group cp).item? = none := rfl

@[simp] theorem Entry.group?_item (m : Metadata) : (Entry.item m).group? = none := rfl

@[simp] theorem Entry.group?_group (cp : String) : (Entry.group cp).group? = some cp := rfl

/-- what a client knows an entry by -/
def Entry.name : Entry → String
  | .item m => m.key
  | .group cp => cp

section Rows

variable (pfx : String) (delimiter : Option String)

def entryOf (m : Metadata) : Option Entry :=
  if isReservedKey m.key then none
  else some ((rollUp pfx delimiter m.key).elim (.item m) .group)

/-- the cursor behind a row -/
def cursorOf (m : Metadata) : String :=
  if isReservedKey m.key then m.key else (rollUp pfx delimiter m.key).elim m.key skip

/-- the sorted rows of a bucket with the prefix -/
structure Rows (l : List Metadata) : Prop where
  sorted : l.Pairwise fun a b => utf8 a.key < utf8 b.key
  starts : ∀ m ∈ l, pfx.toList <+: m.key.toList

/-- the rows past a cursor -/
def past (l : List Metadata) (c : Option String) : List Metadata := l.filter (Past utf8 (·.key) c)

variable {pfx delimiter} {l : List Metadata} {m m' g : Metadata} {cp cp' : String} {e : Entry} {c : String}

theorem past_some : Past utf8 (fun m : Metadata => m.key) (some c) m = true ↔ utf8 c < utf8 m.key := by simp [Past]

theorem mem_past {c : Option String} : m ∈ past l c ↔ m ∈ l ∧ ∀ a, c = some a → utf8 a < utf8 m.key := by
  rw [past, List.mem_filter, and_congr_right_iff]
  intro _
  cases c <;> simp [Past]

theorem entryOf_eq_none : entryOf pfx delimiter m = none ↔ isReservedKey m.key = true := by
  rw [entryOf]
  split_ifs with h <;> simp [h]

theorem entryOf_eq_item : entryOf pfx delimiter m = some (.item m') ↔
    m' = m ∧ isReservedKey m.key = false ∧ rollUp pfx delimiter m.key = none := by
  rw [entryOf]
  split_ifs with h
  · simp [h]
  · cases hroll : rollUp pfx delimiter m.key <;> simp [h, eq_comm]

theorem entryOf_eq_group : entryOf pfx delimiter m = some (.group cp) ↔
    isReservedKey m.key = false ∧ rollUp pfx delimiter m.key = some cp := by
  rw [entryOf]
  split_ifs with h
  · simp [h]
  · cases hroll : rollUp pfx delimiter m.key <;> simp [h]

theorem cursorOf_of_group (h : entryOf pfx delimiter m = some (.group cp)) : cursorOf pfx delimiter m = skip cp := by
  obtain ⟨hres, hroll⟩ := entryOf_eq_group.1 h
  simp [cursorOf, hres, hroll]

theorem cursorOf_of_not_group (h : ∀ cp, entryOf pfx delimiter m ≠ some (.group cp)) : cursorOf pfx delimiter m = m.key := by
  rw [cursorOf]
  split_ifs with hres
  · rfl
  · cases hroll : rollUp pfx delimiter m.key with
    | none => rfl
    | some cp => exact absurd (entryOf_eq_group.2 ⟨by simpa using hres, hroll⟩) (h cp)

/-! ## Groups are neighbours -/

/-- between keys with a prefix there are only keys with it -/
theorem prefix_of_between {p a b c : Bytes} (ha : p <+: a) (hc : p <+: c) (hab : a ≤ b) (hbc : b ≤ c) : p <+: b := by
  by_contra hb
  have hpb : ¬b < p := fun h => prefix_not_lt ha (hab.trans_lt h)
  rcases hbc.eq_or_lt with rfl | hlt
  · exact hb hc
  · exact not_prefix_of_lt hpb hb hlt hc

theorem utf8_skip (cp : String) : utf8 (skip cp) = utf8 cp ++ [0xf4, 0x8f, 0xbf, 0xbf] := by
  rw [skip, String.push_eq_append, utf8_append]
  rfl

theorem prefix_skip (cp : String) : utf8 cp <+: utf8 (skip cp) := by
  rw [utf8_skip]
  exact List.prefix_append _ _

theorem prefix_skip_iff : utf8 cp' <+: utf8 (skip cp) ↔ utf8 cp' <+: utf8 cp ∨ cp' = skip cp := by
  rw [utf8_prefix_iff, utf8_prefix_iff, skip, String.toList_push, List.prefix_concat_iff, ← String.toList_push, String.toList_inj]
  exact or_comm

namespace Rows

variable (hl : Rows pfx l)
include hl

theorem inj (hm : m ∈ l) (hm' : m' ∈ l) (h : m.key = m'.key) : m = m' := by
  have hinj : l.Pairwise fun a b => a.key = b.key → a = b := hl.sorted.imp fun hlt heq => absurd (congrArg utf8 heq) hlt.ne
  exact hinj.forall_of_forall_of_flip (fun _ _ _ => rfl) (hinj.imp fun h heq => (h heq.symm).symm) hm hm' h

theorem prefix_of_group (hm : m ∈ l) (h : entryOf pfx delimiter m = some (.group cp)) : utf8 cp <+: utf8 m.key :=
  utf8_prefix_iff.2 (prefix_of_rollUp (hl.starts m hm) (entryOf_eq_group.1 h).2)

/-- a reserved key in the middle of a group is not behind the cursor that skips it -/
theorem reserved_lt_skip (hg : g ∈ l) (hgroup : entryOf pfx delimiter g = some (.group cp)) (hp : utf8 cp <+: utf8 m.key)
    (hres : isReservedKey m.key = true) : utf8 m.key < utf8 (skip cp) := by
  have hres' : reservedKeys.toList <+: m.key.toList := List.isPrefixOf_iff_prefix.1 hres
  have hnot : ¬reservedKeys.toList <+: cp.toList := by
    intro h
    have hg' := h.trans (prefix_of_rollUp (hl.starts g hg) (entryOf_eq_group.1 hgroup).2)
    rw [← List.isPrefixOf_iff_prefix] at hg'
    have hfalse : isReservedKey g.key = false := (entryOf_eq_group.1 hgroup).1
    rw [isReservedKey, hg'] at hfalse
    cases hfalse
  -- so the common prefix ends before the reserved one does, and an ASCII character follows
  obtain ⟨r, hr⟩ := (List.prefix_or_prefix_of_prefix (utf8_prefix_iff.1 hp) hres').resolve_right hnot
  cases r with
  | nil => exact absurd (by rw [← hr, List.append_nil]) hnot
  | cons c r =>
    obtain ⟨z, hz⟩ := hres'
    have hascii : ∀ d ∈ reservedKeys.toList, ∃ x : UInt8, String.utf8EncodeChar d = [x] ∧ x < 0xf4 := by
      intro d hd
      have hall : reservedKeys.toList.all (fun d => decide (String.utf8EncodeChar d = [(String.utf8EncodeChar d).headD 0]) &&
          decide ((String.utf8EncodeChar d).headD 0 < 0xf4)) = true := by decide +kernel
      have hd' := List.all_eq_true.1 hall d hd
      rw [Bool.and_eq_true, decide_eq_true_eq, decide_eq_true_eq] at hd'
      exact ⟨_, hd'⟩
    obtain ⟨x, hx, hlt⟩ := hascii c (by rw [← hr]; simp)
    have hkey : m.key = cp ++ String.ofList (c :: (r ++ z)) := by
      rw [← String.toList_inj, String.toList_append, String.toList_ofList, ← hz, ← hr]
      simp
    rw [hkey, utf8_append, utf8_skip, utf8_ofList, List.flatMap_cons, hx]
    exact List.append_left_lt (List.cons_lt_cons_iff.2 (Or.inl hlt))

/-- a row whose key starts with a common prefix belongs to the group, or is reserved -/
theorem group_of_prefix (hg : g ∈ l) (hgroup : entryOf pfx delimiter g = some (.group cp)) (hm : m ∈ l) (hp : utf8 cp <+: utf8 m.key)
    (hres : isReservedKey m.key = false) : entryOf pfx delimiter m = some (.group cp) :=
  entryOf_eq_group.2 ⟨hres, rollUp_of_prefix (hl.starts g hg) (hl.starts m hm) (entryOf_eq_group.1 hgroup).2 (utf8_prefix_iff.1 hp)⟩

/-- the rows between two rows of a group -/
theorem group_of_between (hg : g ∈ l) (hg' : m' ∈ l) (hgroup : entryOf pfx delimiter g = some (.group cp))
    (hgroup' : entryOf pfx delimiter m' = some (.group cp)) (hm : m ∈ l) (hgm : utf8 g.key ≤ utf8 m.key) (hmg : utf8 m.key ≤ utf8 m'.key)
    (hres : isReservedKey m.key = false) : entryOf pfx delimiter m = some (.group cp) :=
  hl.group_of_prefix hg hgroup hm (prefix_of_between (hl.prefix_of_group hg hgroup) (hl.prefix_of_group hg' hgroup') hgm hmg) hres

/-! ## Rows past a cursor -/

/-- the rows up to a cursor, and those past it -/
theorem split_past (c : Option String) : ∃ P, l = P ++ past l c ∧ ∀ m ∈ P, ∃ a, c = some a ∧ utf8 m.key ≤ utf8 a := by
  refine ⟨_, split_of_upward (hl.sorted.imp fun hlt ha => ?_), fun m hm => ?_⟩
  · cases c with
    | none => rfl
    | some a => exact past_some.2 ((past_some.1 ha).trans hlt)
  · have hnot := (List.mem_filter.1 hm).2
    cases c with
    | none => cases hnot
    | some a => exact ⟨a, rfl, by simpa [Past] using hnot⟩

/-- what lies past a cursor within a gap of the rows -/
theorem past_eq {A B : List Metadata} {x : Metadata} (hsplit : l = A ++ x :: B) (hA : ∀ m ∈ A, utf8 m.key ≤ utf8 c)
    (hx : utf8 c < utf8 x.key) : past l (some c) = x :: B := by
  have hB := (List.pairwise_cons.1 (List.pairwise_append.1 (hsplit ▸ hl.sorted)).2.1).1
  rw [past, hsplit, List.filter_append, List.filter_eq_nil_iff.2, List.nil_append, List.filter_eq_self]
  · intro m hm
    rcases List.mem_cons.1 hm with rfl | hm
    · exact past_some.2 hx
    · exact past_some.2 (hx.trans (hB m hm))
  · intro m hm
    simpa [Past] using hA m hm

theorem sorted_past (c : Option String) : (past l c).Pairwise fun a b => utf8 a.key < utf8 b.key := hl.sorted.sublist List.filter_sublist

theorem lt_of_split {A B : List Metadata} {x : Metadata} (hsplit : l = A ++ x :: B) : ∀ m ∈ A, utf8 m.key < utf8 x.key :=
  fun m hm => (List.pairwise_append.1 (hsplit ▸ hl.sorted)).2.2 m hm x List.mem_cons_self

theorem past_key {A B : List Metadata} {w : Metadata} (hsplit : l = A ++ w :: B) : past l (some w.key) = B := by
  have hsorted := hsplit ▸ hl.sorted
  rw [past, hsplit]
  exact filter_past_append hsorted

/-- the rows before a common prefix, those that start with it, and those after them -/
theorem split_prefix (cp : String) : ∃ L M R, l = L ++ M ++ R ∧ (∀ m ∈ L, utf8 m.key < utf8 cp ∧ ¬utf8 cp <+: utf8 m.key) ∧
    (∀ m ∈ M, utf8 cp <+: utf8 m.key) ∧ ∀ m ∈ R, utf8 cp ≤ utf8 m.key ∧ ¬utf8 cp <+: utf8 m.key := by
  have hfrom := split_of_upward (p := fun m => decide (utf8 cp ≤ utf8 m.key))
    (hl.sorted.imp fun hlt ha => decide_eq_true ((of_decide_eq_true ha).trans hlt.le))
  set tail := l.filter fun m => decide (utf8 cp ≤ utf8 m.key)
  have hge : ∀ m ∈ tail, utf8 cp ≤ utf8 m.key := fun m hm => of_decide_eq_true (List.mem_filter.1 hm).2
  have hbehind := split_of_upward (p := fun m => decide ¬utf8 cp <+: utf8 m.key) (l := tail) (by
    refine ((hl.sorted.sublist List.filter_sublist).imp_of_mem fun {a b} ha _ hlt hnot => ?_)
    exact decide_eq_true (not_prefix_of_lt (not_lt.2 (hge a ha)) (of_decide_eq_true hnot) hlt))
  refine ⟨l.filter fun m => !decide (utf8 cp ≤ utf8 m.key), tail.filter fun m => !decide ¬utf8 cp <+: utf8 m.key,
    tail.filter fun m => decide ¬utf8 cp <+: utf8 m.key, ?_, fun m hm => ?_, fun m hm => ?_, fun m hm => ?_⟩
  · rw [List.append_assoc, ← hbehind]
    exact hfrom
  · have hlt : utf8 m.key < utf8 cp := by simpa using (List.mem_filter.1 hm).2
    exact ⟨hlt, fun hp => prefix_not_lt hp hlt⟩
  · simpa using (List.mem_filter.1 hm).2
  · exact ⟨hge m (List.mem_of_mem_filter hm), of_decide_eq_true (List.mem_filter.1 hm).2⟩

/-! ## Entries past a cursor -/

/-- an entry in two parts of the rows is a group that spans all between them -/
theorem span {A B : List Metadata} (hsplit : l = A ++ B) {a b : Metadata} (ha : a ∈ A) (hb : b ∈ B)
    (hea : entryOf pfx delimiter a = some e) (heb : entryOf pfx delimiter b = some e) :
    ∃ cp, e = .group cp ∧ ∀ m ∈ l, utf8 a.key ≤ utf8 m.key → utf8 m.key ≤ utf8 b.key → isReservedKey m.key = false →
      entryOf pfx delimiter m = some e := by
  have hal : a ∈ l := hsplit ▸ List.mem_append_left B ha
  have hbl : b ∈ l := hsplit ▸ List.mem_append_right A hb
  cases e with
  | item m =>
    have hlt := (List.pairwise_append.1 (hsplit ▸ hl.sorted)).2.2 a ha b hb
    rw [← (entryOf_eq_item.1 hea).1, ← (entryOf_eq_item.1 heb).1] at hlt
    exact absurd hlt (lt_irrefl _)
  | group cp => exact ⟨cp, rfl, fun m hm hle hle' => hl.group_of_between hal hbl hea heb hm hle hle'⟩

/-- the rows around a group -/
theorem split_group (hcp : Entry.group cp ∈ entries (entryOf pfx delimiter) l) : ∃ L M R, l = L ++ M ++ R ∧
    (∀ m ∈ L, utf8 m.key < utf8 cp) ∧ (∀ m ∈ M, ∀ e, entryOf pfx delimiter m = some e → e = .group cp) ∧
    (∀ m ∈ R, utf8 cp ≤ utf8 m.key ∧ ¬utf8 cp <+: utf8 m.key) ∧ (∀ m ∈ l, entryOf pfx delimiter m = some (.group cp) → m ∈ M) ∧
    entries (entryOf pfx delimiter) l = entries (entryOf pfx delimiter) L ++ .group cp :: entries (entryOf pfx delimiter) R := by
  obtain ⟨g, hg, hgroup⟩ := mem_entries.1 hcp
  obtain ⟨L, M, R, hsplit, hL, hM, hR⟩ := hl.split_prefix cp
  have hmem : ∀ m, m ∈ l ↔ (m ∈ L ∨ m ∈ M) ∨ m ∈ R := fun m => by rw [hsplit, List.mem_append, List.mem_append]
  have hin : ∀ m ∈ l, entryOf pfx delimiter m = some (.group cp) → m ∈ M := by
    intro m hm hmg
    have hpm := hl.prefix_of_group hm hmg
    rcases (hmem m).1 hm with (h | h) | h
    · exact absurd hpm (hL m h).2
    · exact h
    · exact absurd hpm (hR m h).2
  have hconst : ∀ m ∈ M, ∀ e, entryOf pfx delimiter m = some e → e = .group cp := by
    intro m hm e he
    have hres : isReservedKey m.key = false := by
      by_contra hres
      rw [entryOf_eq_none.2 (by simpa using hres)] at he
      cases he
    have hml : m ∈ l := (hmem m).2 (Or.inl (Or.inr hm))
    exact Option.some_inj.1 (he.symm.trans (hl.group_of_prefix hg hgroup hml (hM m hm) hres))
  refine ⟨L, M, R, hsplit, fun m hm => (hL m hm).1, hconst, hR, hin, ?_⟩
  have hgM := hin g hg hgroup
  obtain ⟨hLM, -, hsorted⟩ := List.pairwise_append.1 (hsplit ▸ hl.sorted)
  rw [hsplit, entries_append, entries_append, entries_eq_singleton hconst ⟨g, hgM, hgroup⟩, List.append_assoc]
  · rfl
  · intro m hm e he hmemL
    obtain ⟨a, ha, hea⟩ := mem_entries.1 hmemL
    rw [hconst m hm e he] at hea
    exact (hL a ha).2 (hl.prefix_of_group ((hmem a).2 (Or.inl (Or.inl ha))) hea)
  · -- an entry on both sides would span the group
    intro r hr e her hmemLM
    obtain ⟨a, ha, hea⟩ := mem_entries.1 hmemLM
    have hrl : r ∈ l := (hmem r).2 (Or.inr hr)
    obtain ⟨cp', rfl, hspan⟩ := hl.span hsplit ha hr hea her
    have heq : Entry.group cp' = .group cp := by
      rcases List.mem_append.1 ha with h | h
      · have hag := (List.pairwise_append.1 hLM).2.2 a h g hgM
        have hgr := hsorted g (List.mem_append_right L hgM) r hr
        exact Option.some_inj.1 ((hspan g hg hag.le hgr.le (entryOf_eq_group.1 hgroup).1).symm.trans hgroup)
      · exact hconst a h _ hea
    exact (hR r hr).2 (hl.prefix_of_group hrl (heq ▸ her))

/-- past a cursor within a group -/
theorem entries_past_prefix {l₁ l₂ : List Entry} (hentries : entries (entryOf pfx delimiter) l = l₁ ++ .group cp :: l₂)
    (hp : utf8 cp <+: utf8 c) : entries (entryOf pfx delimiter) (past l (some c)) =
      if ∃ m ∈ l, entryOf pfx delimiter m = some (.group cp) ∧ utf8 c < utf8 m.key then .group cp :: l₂ else l₂ := by
  have hmem : Entry.group cp ∈ entries (entryOf pfx delimiter) l := by simp [hentries]
  obtain ⟨L, M, R, hsplit, hL, hM, hR, hin, hall⟩ := hl.split_group hmem
  have hnodup : (l₁ ++ Entry.group cp :: l₂).Nodup := hentries ▸ nodup_entries
  obtain ⟨-, rfl⟩ := split_unique hnodup (hentries.symm.trans hall)
  have hcp : utf8 cp ≤ utf8 c := not_lt.1 (prefix_not_lt hp)
  have hpast : past l (some c) = past M (some c) ++ R := by
    rw [past, hsplit, List.filter_append, List.filter_append, List.filter_eq_nil_iff.2, List.nil_append]
    · refine congrArg (past M (some c) ++ ·) (List.filter_eq_self.2 fun m hm => past_some.2 ?_)
      by_contra hle
      exact (hR m hm).2 (prefix_of_between (List.prefix_refl _) hp (hR m hm).1 (not_lt.1 hle))
    · intro m hm h
      exact lt_asymm (hL m hm) (hcp.trans_lt (past_some.1 h))
  have hconst : ∀ m ∈ past M (some c), ∀ e, entryOf pfx delimiter m = some e → e = .group cp :=
    fun m hm => hM m (List.mem_of_mem_filter hm)
  have hR' : ∀ r ∈ R, ∀ e, entryOf pfx delimiter r = some e → e ≠ .group cp := by
    rintro r hr e he rfl
    exact (hR r hr).2 (hl.prefix_of_group (by rw [hsplit]; simp [hr]) he)
  rw [hpast, entries_append]
  · split_ifs with hsome
    · obtain ⟨m, hm, hmg, hlt⟩ := hsome
      rw [entries_eq_singleton hconst ⟨m, mem_past.2 ⟨hin m hm hmg, fun a ha => Option.some_inj.1 ha ▸ hlt⟩, hmg⟩]
      rfl
    · have hnil : entries (entryOf pfx delimiter) (past M (some c)) = [] := by
        refine List.eq_nil_iff_forall_not_mem.2 fun e he => hsome ?_
        obtain ⟨m, hm, hme⟩ := mem_entries.1 he
        obtain ⟨hmM, hlt⟩ := mem_past.1 hm
        exact ⟨m, by rw [hsplit]; simp [hmM], hconst m hm e hme ▸ hme, hlt c rfl⟩
      rw [hnil, List.nil_append]
  · intro r hr e he hmem
    obtain ⟨m, hm, hme⟩ := mem_entries.1 hmem
    exact hR' r hr e he (hconst m hm e hme)

/-! ## Where a cursor lands -/

theorem left {A B : List Metadata} (hsplit : l = A ++ B) : Rows pfx A where
  sorted := (List.pairwise_append.1 (hsplit ▸ hl.sorted)).1
  starts := fun m hm => hl.starts m (hsplit ▸ List.mem_append_left B hm)

/-- up to the first row of an entry -/
theorem entries_split {A B : List Metadata} {x : Metadata} (hsplit : l = A ++ x :: B) (hx : entryOf pfx delimiter x = some e)
    (hnew : ∀ a ∈ A, entryOf pfx delimiter a ≠ some e) :
    entries (entryOf pfx delimiter) l = entries (entryOf pfx delimiter) A ++ entries (entryOf pfx delimiter) (x :: B) := by
  have hres : isReservedKey x.key = false := by
    by_contra hres
    rw [entryOf_eq_none.2 (by simpa using hres)] at hx
    cases hx
  rw [hsplit]
  refine entries_append fun r hr e' he' hmem => ?_
  obtain ⟨a, ha, hea⟩ := mem_entries.1 hmem
  obtain ⟨cp, rfl, hspan⟩ := hl.span hsplit ha hr hea he'
  have hsorted := hsplit ▸ hl.sorted
  have hxr : utf8 x.key ≤ utf8 r.key := by
    rcases List.mem_cons.1 hr with rfl | hr
    · exact le_rfl
    · exact ((List.pairwise_cons.1 (List.pairwise_append.1 hsorted).2.1).1 r hr).le
  have hxe := hspan x (by rw [hsplit]; simp) (hl.lt_of_split hsplit a ha).le hxr hres
  rw [hx] at hxe
  exact hnew a ha (hea.trans hxe.symm)

end Rows

/-- the last of the rows before a page's end is behind the cursor that is to skip its group -/
def Overrun (pfx : String) (delimiter : Option String) (A : List Metadata) : Prop :=
  ∃ w cp, A.getLast? = some w ∧ entryOf pfx delimiter w = some (.group cp) ∧ utf8 (skip cp) < utf8 w.key

/-- a cursor behind a row from which the listing goes on with `x :: B` -/
structure Resumes (pfx : String) (delimiter : Option String) (l A : List Metadata) (x : Metadata) (B : List Metadata) (c : String) :
    Prop where
  split : l = A ++ x :: B
  behind : ∃ w ∈ A, c = cursorOf pfx delimiter w ∧ (A.getLast? = some w ∨ past l (some c) = x :: B)

section Landing

variable {A B : List Metadata} {x : Metadata} (hl : Rows pfx l) (h : Resumes pfx delimiter l A x B c)
  (hx : entryOf pfx delimiter x = some e) (hnew : ∀ a ∈ A, entryOf pfx delimiter a ≠ some e)
include hl h hx hnew

theorem past_of_not_overrun (hover : ¬Overrun pfx delimiter A) : past l (some c) = x :: B := by
  obtain ⟨w, hw, rfl, hlast | hpast⟩ := h.behind
  · obtain ⟨A', rfl⟩ := List.getLast?_eq_some_iff.1 hlast
    have hsplit' : l = A' ++ w :: x :: B := by rw [h.split, List.append_assoc]; rfl
    by_cases hgroup : ∃ cp, entryOf pfx delimiter w = some (.group cp)
    · obtain ⟨cp, hgroup⟩ := hgroup
      have hwl : w ∈ l := by rw [hsplit']; simp
      have hxl : x ∈ l := by rw [hsplit']; simp
      have hle : utf8 w.key ≤ utf8 (skip cp) := not_lt.1 fun hlt => hover ⟨w, cp, hlast, hgroup, hlt⟩
      have hwx := hl.lt_of_split h.split w (by simp)
      rw [cursorOf_of_group hgroup]
      refine hl.past_eq h.split (fun m hm => ?_) ?_
      · rcases List.mem_append.1 hm with hm | hm
        · exact (hl.lt_of_split hsplit' m hm).le.trans hle
        · exact List.mem_singleton.1 hm ▸ hle
      · -- otherwise `x` would be in the group
        by_contra hxle
        have hres : isReservedKey x.key = false := by
          by_contra hres
          rw [entryOf_eq_none.2 (by simpa using hres)] at hx
          cases hx
        have hxp := prefix_of_between (hl.prefix_of_group hwl hgroup) (prefix_skip cp) hwx.le (not_lt.1 hxle)
        have hxe := hl.group_of_prefix hwl hgroup hxl hxp hres
        exact hnew w hw (hgroup.trans (hxe.symm.trans hx))
    · rw [cursorOf_of_not_group fun cp hcp => hgroup ⟨cp, hcp⟩]
      exact hl.past_key hsplit'
  · exact hpast

/-- a cursor behind an overrun is in the last group, and repeats it -/
theorem entries_past_of_overrun (hover : Overrun pfx delimiter A) : ∃ l₁ cp, entries (entryOf pfx delimiter) A = l₁ ++ [.group cp] ∧
    c = skip cp ∧ entries (entryOf pfx delimiter) (past l (some c)) = .group cp :: entries (entryOf pfx delimiter) (x :: B) := by
  obtain ⟨w', cp, hlast, hgroup, hlt⟩ := hover
  obtain ⟨A', rfl⟩ := List.getLast?_eq_some_iff.1 hlast
  have hsplit' : l = A' ++ w' :: x :: B := by rw [h.split, List.append_assoc]; rfl
  have hw'l : w' ∈ l := by rw [hsplit']; simp
  -- the cursor is the one behind `w'`
  have hc : c = skip cp := by
    obtain ⟨w, hw, rfl, hw' | hpast⟩ := h.behind
    · rw [hlast, Option.some_inj] at hw'
      rw [← hw', cursorOf_of_group hgroup]
    · exfalso
      have hwl : w ∈ l := by rw [h.split]; exact List.mem_append_left _ hw
      have hle : utf8 w'.key ≤ utf8 (cursorOf pfx delimiter w) := by
        by_contra hlt'
        have hmem : w' ∈ past l (some (cursorOf pfx delimiter w)) :=
          mem_past.2 ⟨hw'l, fun a ha => Option.some_inj.1 ha ▸ not_le.1 hlt'⟩
        rw [hpast] at hmem
        have hnodup := hsplit' ▸ hl.sorted
        rcases List.mem_cons.1 hmem with rfl | hmem
        · exact lt_irrefl _ (hl.lt_of_split h.split w' (by simp))
        · have hx1 := (List.pairwise_cons.1 (List.pairwise_append.1 hnodup).2.1).1 w' (List.mem_cons_of_mem _ hmem)
          exact lt_irrefl _ hx1
      have hww' : utf8 w.key ≤ utf8 w'.key := by
        rcases List.mem_append.1 hw with hw | hw
        · exact (hl.lt_of_split hsplit' w hw).le
        · rw [List.mem_singleton.1 hw]
      by_cases hgw : ∃ cp', entryOf pfx delimiter w = some (.group cp')
      · obtain ⟨cp', hgw⟩ := hgw
        rw [cursorOf_of_group hgw] at hle
        have hp := prefix_of_between (hl.prefix_of_group hwl hgw) (prefix_skip cp') hww' hle
        have hsame := hl.group_of_prefix hwl hgw hw'l hp (entryOf_eq_group.1 hgroup).1
        rw [hgroup] at hsame
        cases hsame
        exact absurd hlt (not_lt.2 hle)
      · rw [cursorOf_of_not_group fun cp' hcp' => hgw ⟨cp', hcp'⟩] at hle
        have heq := hl.inj hwl hw'l (utf8_inj (le_antisymm hww' hle))
        exact hgw ⟨cp, heq ▸ hgroup⟩
  -- and the group is the last entry before `x`
  have hcpA : Entry.group cp ∈ entries (entryOf pfx delimiter) (A' ++ [w']) := mem_entries.2 ⟨w', by simp, hgroup⟩
  obtain ⟨L, M, R, hA, -, -, -, hin, hentries⟩ := (hl.left h.split).split_group hcpA
  have hR : R = [] := by
    refine List.eq_nil_iff_forall_not_mem.2 fun r hr => ?_
    have hw'M := hin w' (by simp) hgroup
    have hlt' := (List.pairwise_append.1 (hA ▸ (hl.left h.split).sorted)).2.2 w' (List.mem_append_right L hw'M) r hr
    have hrA : r ∈ A' ++ [w'] := by rw [hA]; simp [hr]
    rcases List.mem_append.1 hrA with hr' | hr'
    · exact lt_asymm hlt' (hl.lt_of_split hsplit' r hr')
    · exact lt_irrefl _ (List.mem_singleton.1 hr' ▸ hlt')
  rw [hR] at hentries
  refine ⟨_, cp, hentries, hc, ?_⟩
  have hall := hl.entries_split h.split hx hnew
  rw [hentries, List.append_assoc] at hall
  rw [hc, hl.entries_past_prefix hall (prefix_skip cp), if_pos ⟨w', hw'l, hgroup, hlt⟩]
  rfl

end Landing

end Rows

/-! ## Rows that are read again, and rows that are skipped -/

section Skips

variable {pfx : String} {delimiter : Option String} {l : List Metadata} {w x : Metadata} {e : Entry} (hl : Rows pfx l)
include hl

/-- between the cursor that skips a group and a row of it there are only rows of it -/
theorem Rows.reread (hw : w ∈ l) (hx : x ∈ l) (hcx : utf8 (cursorOf pfx delimiter w) < utf8 x.key) (hxw : utf8 x.key ≤ utf8 w.key) :
    ∃ cp, entryOf pfx delimiter w = some (.group cp) ∧ entryOf pfx delimiter x = some (.group cp) := by
  by_cases hgroup : ∃ cp, entryOf pfx delimiter w = some (.group cp)
  · obtain ⟨cp, hgroup⟩ := hgroup
    rw [cursorOf_of_group hgroup] at hcx
    have hp := prefix_of_between (prefix_skip cp) (hl.prefix_of_group hw hgroup) hcx.le hxw
    refine ⟨cp, hgroup, hl.group_of_prefix hw hgroup hx hp ?_⟩
    by_contra hres
    exact lt_asymm hcx (hl.reserved_lt_skip hw hgroup hp (by simpa using hres))
  · rw [cursorOf_of_not_group fun cp h => hgroup ⟨cp, h⟩] at hcx
    exact absurd hcx (not_lt.2 hxw)

/-- a row that the cursor behind another one skips has no other entry -/
theorem Rows.skipped (hw : w ∈ l) (hx : x ∈ l) (hwx : utf8 w.key < utf8 x.key) (hxc : utf8 x.key ≤ utf8 (cursorOf pfx delimiter w))
    (he : entryOf pfx delimiter x = some e) : entryOf pfx delimiter w = some e := by
  by_cases hgroup : ∃ cp, entryOf pfx delimiter w = some (.group cp)
  · obtain ⟨cp, hgroup⟩ := hgroup
    rw [cursorOf_of_group hgroup] at hxc
    have hp := prefix_of_between (hl.prefix_of_group hw hgroup) (prefix_skip cp) hwx.le hxc
    have hres : isReservedKey x.key = false := by
      by_contra hres
      rw [entryOf_eq_none.2 (by simpa using hres)] at he
      cases he
    rw [hgroup, ← he, hl.group_of_prefix hw hgroup hx hp hres]
  · rw [cursorOf_of_not_group fun cp h => hgroup ⟨cp, h⟩] at hxc
    exact absurd hwx (not_lt.2 hxc)

/-- past the cursor behind a row there is as much new as past the row -/
theorem Rows.fresh_past {A Z : List Metadata} (hsplit : l = A ++ w :: Z) {E : List Entry}
    (hseen : ∀ e, entryOf pfx delimiter w = some e → e ∈ E) :
    fresh (entryOf pfx delimiter) E (past l (some (cursorOf pfx delimiter w))) = fresh (entryOf pfx delimiter) E Z := by
  have hw : w ∈ l := by rw [hsplit]; simp
  have hsplit' : l = (A ++ [w]) ++ Z := by rw [hsplit, List.append_assoc]; rfl
  rw [past]
  conv_lhs => rw [hsplit', List.filter_append, fresh_append]
  have hnil : fresh (entryOf pfx delimiter) E ((A ++ [w]).filter (Past utf8 (·.key) (some (cursorOf pfx delimiter w)))) = [] := by
    refine fresh_eq_nil fun x hx e he => ?_
    obtain ⟨hxA, hpast⟩ := List.mem_filter.1 hx
    have hxw : utf8 x.key ≤ utf8 w.key := by
      rcases List.mem_append.1 hxA with h | h
      · exact (hl.lt_of_split hsplit x h).le
      · rw [List.mem_singleton.1 h]
    obtain ⟨cp, hgw, hgx⟩ := hl.reread hw (by rw [hsplit']; exact List.mem_append_left _ hxA) (past_some.1 hpast) hxw
    exact hseen e (hgw.trans (hgx.symm.trans he))
  rw [hnil, List.nil_append, List.append_nil]
  refine fresh_filter fun x hx hpast e he => hseen e ?_
  have hwx := (List.pairwise_cons.1 (List.pairwise_append.1 (hsplit ▸ hl.sorted)).2.1).1 x hx
  refine hl.skipped hw (by rw [hsplit']; exact List.mem_append_right _ hx) hwx ?_ he
  by_contra hlt
  rw [past_some.2 (not_le.1 hlt)] at hpast
  cases hpast

end Skips

end Y2q.MetadataIndex.ListObjects
