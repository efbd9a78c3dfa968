/-
One request of an S3 listing (`s3/bucket.rs`): the loop of `list_page` over the windows of the index.

- `fold_window`: one window, as far as its entries fit on the page.
- `Progress`: how far a request has come. `Progress.window`, `Progress.stop`: a window that fits keeps it; where one does not fit, the
  page ends right before a new entry.
- `listFrom_outcome`: whatever a request returns is what is left, or the next entries with the place where they end.
- `Stuck`, `listFrom_stuck`, `listPage_ends`: a request that comes to a group with a whole window of keys past its cursor reads the
  same window forever; without such a group every request ends.
-/
import Mathlib.Tactic
import Y2q.S3.ListRows

namespace Y2q.MetadataIndex.ListObjects

open Y2q.Pages Y2q.Groups
open Buckets (CharTable)
open Multipart (isReservedKey)

/-! ## One window -/

/-- the loop has listed the entries `E` -/
structure Scanned (s : Scan) (E : List Entry) : Prop where
  results : s.results = E.filterMap Entry.item?
  common : s.common = E.filterMap Entry.group?
  lastEmitted : s.lastEmitted = E.getLast?.map Entry.name

theorem length_items_groups (E : List Entry) : (E.filterMap Entry.item?).length + (E.filterMap Entry.group?).length = E.length := by
  induction E with
  | nil => rfl
  | cons e E ih =>
    cases e with
    | item m =>
      simp only [List.filterMap_cons, Entry.item?_item, Entry.group?_item, List.length_cons]
      omega
    | group cp =>
      simp only [List.filterMap_cons, Entry.item?_group, Entry.group?_group, List.length_cons]
      omega

theorem mem_groups {E : List Entry} {cp : String} : cp ∈ E.filterMap Entry.group? ↔ Entry.group cp ∈ E := by
  rw [List.mem_filterMap]
  constructor
  · rintro ⟨e, he, hcp⟩
    cases e with
    | item m => cases hcp
    | group cp' => exact Option.some_inj.1 hcp ▸ he
  · exact fun h => ⟨_, h, rfl⟩

theorem mem_items {E : List Entry} {m : Metadata} : m ∈ E.filterMap Entry.item? ↔ Entry.item m ∈ E := by
  rw [List.mem_filterMap]
  constructor
  · rintro ⟨e, he, hm⟩
    cases e with
    | item m' => exact Option.some_inj.1 hm ▸ he
    | group cp => cases hm
  · exact fun h => ⟨_, h, rfl⟩

/-- the marker of a page that ends before an entry -/
def markerBefore (E : List Entry) : Entry → Option String
  | .group cp => some cp
  | .item _ => E.getLast?.map Entry.name

section Window

variable {pfx : String} {delimiter : Option String} {maxKeys : ℕ} {s : Scan} {E : List Entry} {x : Metadata} {e : Entry}

theorem Scanned.length (hs : Scanned s E) : s.results.length + s.common.length = E.length := by
  rw [hs.results, hs.common, length_items_groups]

theorem visit_reserved (h : entryOf pfx delimiter x = none) :
    visit pfx delimiter maxKeys s x = .ok { s with after := some (cursorOf pfx delimiter x) } := by
  rw [visit, if_pos (entryOf_eq_none.1 h), cursorOf_of_not_group fun cp hcp => ?_]
  rw [h] at hcp
  cases hcp

theorem visit_seen (hs : Scanned s E) {cp : String} (h : entryOf pfx delimiter x = some (.group cp)) (hseen : Entry.group cp ∈ E) :
    visit pfx delimiter maxKeys s x = .ok { s with after := some (cursorOf pfx delimiter x) } := by
  obtain ⟨hres, hroll⟩ := entryOf_eq_group.1 h
  have hcp : cp ∈ s.common := hs.common ▸ mem_groups.2 hseen
  simp [visit, hres, hroll, hcp, cursorOf_of_group h]

theorem visit_new (hs : Scanned s E) (h : entryOf pfx delimiter x = some e) (hnew : e ∉ E) (hroom : E.length < maxKeys) :
    ∃ s', visit pfx delimiter maxKeys s x = .ok s' ∧ Scanned s' (E ++ [e]) ∧ s'.after = some (cursorOf pfx delimiter x) := by
  have hlen : ¬maxKeys ≤ s.results.length + s.common.length := by rw [hs.length]; exact not_le.2 hroom
  cases e with
  | item m =>
    obtain ⟨rfl, hres, hroll⟩ := entryOf_eq_item.1 h
    refine ⟨{ s with results := s.results ++ [m], after := some m.key, lastEmitted := some m.key },
      by simp [visit, hres, hroll, hlen], ⟨?_, ?_, ?_⟩, ?_⟩
    · simp [hs.results]
    · simp [hs.common]
    · simp [Entry.name]
    · rw [cursorOf_of_not_group fun cp hcp => by rw [h] at hcp; cases hcp]
  | group cp =>
    obtain ⟨hres, hroll⟩ := entryOf_eq_group.1 h
    have hcp : cp ∉ s.common := by rwa [hs.common, mem_groups]
    refine ⟨{ s with common := s.common ++ [cp], lastEmitted := some cp, after := some (skip cp) },
      by simp [visit, hres, hroll, hlen, hcp], ⟨?_, ?_, ?_⟩, ?_⟩
    · simp [hs.results]
    · simp [hs.common]
    · simp [Entry.name]
    · rw [cursorOf_of_group h]

theorem visit_full (hs : Scanned s E) (h : entryOf pfx delimiter x = some e) (hnew : e ∉ E) (hfull : maxKeys ≤ E.length) {c : String}
    (hafter : s.after = some c) (hne : E ≠ []) :
    visit pfx delimiter maxKeys s x = .error ⟨s, some c, markerBefore E e⟩ := by
  have hlen : maxKeys ≤ s.results.length + s.common.length := by rw [hs.length]; exact hfull
  cases e with
  | item m =>
    obtain ⟨rfl, hres, hroll⟩ := entryOf_eq_item.1 h
    simp [visit, hres, hroll, hlen, hafter, hs.lastEmitted, markerBefore, List.getLast?_eq_some_getLast hne]
  | group cp =>
    obtain ⟨hres, hroll⟩ := entryOf_eq_group.1 h
    have hcp : cp ∉ s.common := by rwa [hs.common, mem_groups]
    simp [visit, hres, hroll, hlen, hcp, hafter, markerBefore]

/-- one row that fits: what has been listed after it -/
theorem visit_fits (pfx : String) (delimiter : Option String) (hs : Scanned s E) (hlen : E.length ≤ maxKeys) (hitem : Entry.item x ∉ E) :
    (∃ s' E', visit pfx delimiter maxKeys s x = .ok s' ∧ Scanned s' E' ∧ E'.length ≤ maxKeys ∧ s'.after = some (cursorOf pfx delimiter x) ∧
      (∀ W, E' ++ fresh (entryOf pfx delimiter) E' W = E ++ fresh (entryOf pfx delimiter) E (x :: W)) ∧
      ∀ y, Entry.item y ∈ E' → Entry.item y ∈ E ∨ y = x) ∨
    ∃ e, entryOf pfx delimiter x = some e ∧ e ∉ E ∧ E.length = maxKeys := by
  cases hx : entryOf pfx delimiter x with
  | none =>
    refine Or.inl ⟨_, E, visit_reserved hx, ⟨hs.results, hs.common, hs.lastEmitted⟩, hlen, rfl, fun W => ?_, fun y hy => Or.inl hy⟩
    rw [fresh_cons_none hx]
  | some e =>
    by_cases hseen : e ∈ E
    · cases e with
      | item m => exact absurd ((entryOf_eq_item.1 hx).1 ▸ hseen) hitem
      | group cp =>
        refine Or.inl ⟨_, E, visit_seen hs hx hseen, ⟨hs.results, hs.common, hs.lastEmitted⟩, hlen, rfl, fun W => ?_, fun y hy => Or.inl hy⟩
        rw [fresh_cons_seen hx hseen]
    · by_cases hroom : E.length < maxKeys
      · obtain ⟨s', hvisit, hs', hafter⟩ := visit_new hs hx hseen hroom
        refine Or.inl ⟨s', E ++ [e], hvisit, hs', by simpa using hroom, hafter, fun W => ?_, fun y hy => ?_⟩
        · rw [fresh_cons_new hx hseen, List.append_assoc, List.singleton_append]
        · rcases List.mem_append.1 hy with hy | hy
          · exact Or.inl hy
          · rw [← List.mem_singleton.1 hy] at hx
            exact Or.inr (entryOf_eq_item.1 hx).1
      · exact Or.inr ⟨e, rfl, hseen, le_antisymm hlen (not_lt.1 hroom)⟩

/-- where a request is after a window -/
def afterWindow (pfx : String) (delimiter : Option String) (W : List Metadata) (after : Option String) : Option String :=
  (W.getLast?.map (cursorOf pfx delimiter)).or after

theorem afterWindow_cons {W : List Metadata} {after : Option String} :
    afterWindow pfx delimiter (x :: W) after = afterWindow pfx delimiter W (some (cursorOf pfx delimiter x)) := by
  cases W with
  | nil => rfl
  | cons y W =>
    rw [afterWindow, afterWindow, List.getLast?_cons_cons, List.getLast?_eq_some_getLast (List.cons_ne_nil y W)]
    rfl

/-- a window, as far as its entries fit -/
theorem fold_window (hm : 1 ≤ maxKeys) {W : List Metadata} (hs : Scanned s E) (hlen : E.length ≤ maxKeys)
    (hafter : E ≠ [] → s.after ≠ none) (hitems : ∀ x ∈ W, Entry.item x ∉ E) (hnodup : W.Nodup) :
    (∃ s', W.foldlM (visit pfx delimiter maxKeys) s = .ok s' ∧ Scanned s' (E ++ fresh (entryOf pfx delimiter) E W) ∧
      (E ++ fresh (entryOf pfx delimiter) E W).length ≤ maxKeys ∧ s'.after = afterWindow pfx delimiter W s.after) ∨
    ∃ W₁ x W₂ e s₁ c, W = W₁ ++ x :: W₂ ∧ entryOf pfx delimiter x = some e ∧ e ∉ E ++ fresh (entryOf pfx delimiter) E W₁ ∧
      (E ++ fresh (entryOf pfx delimiter) E W₁).length = maxKeys ∧ Scanned s₁ (E ++ fresh (entryOf pfx delimiter) E W₁) ∧
      afterWindow pfx delimiter W₁ s.after = some c ∧ W.foldlM (visit pfx delimiter maxKeys) s =
        .error ⟨s₁, some c, markerBefore (E ++ fresh (entryOf pfx delimiter) E W₁) e⟩ := by
  induction W generalizing s E with
  | nil =>
    refine Or.inl ⟨s, rfl, ?_, ?_, rfl⟩
    · simpa using hs
    · simpa using hlen
  | cons x W ih =>
    obtain ⟨hxW, hnodup⟩ := List.nodup_cons.1 hnodup
    rcases visit_fits pfx delimiter hs hlen (hitems x List.mem_cons_self) with
      ⟨s', E', hvisit, hs', hlen', hafter', hE', hitem'⟩ | ⟨e, hx, hnew, hfull⟩
    · have hitems' : ∀ y ∈ W, Entry.item y ∉ E' := by
        intro y hy hmem
        rcases hitem' y hmem with h | rfl
        · exact hitems y (List.mem_cons_of_mem x hy) h
        · exact hxW hy
      have hfold : (x :: W).foldlM (visit pfx delimiter maxKeys) s = W.foldlM (visit pfx delimiter maxKeys) s' := by
        rw [List.foldlM_cons, hvisit]
        rfl
      rw [hfold]
      rcases ih hs' hlen' (fun _ => by rw [hafter']; exact Option.some_ne_none _) hitems' hnodup with
        ⟨s'', hok, hs'', hlen'', hafter''⟩ | ⟨W₁, y, W₂, e, s₁, c, rfl, hy, hnew, hfull, hs₁, hc, herr⟩
      · rw [hE'] at hs'' hlen''
        refine Or.inl ⟨s'', hok, hs'', hlen'', ?_⟩
        rw [hafter'', hafter', afterWindow_cons]
      · rw [hE'] at hnew hfull hs₁ herr
        refine Or.inr ⟨x :: W₁, y, W₂, e, s₁, c, rfl, hy, hnew, hfull, hs₁, ?_, herr⟩
        rw [afterWindow_cons, ← hafter', hc]
    · have hne : E ≠ [] := List.ne_nil_of_length_pos (by omega)
      obtain ⟨c, hc⟩ := Option.ne_none_iff_exists'.1 (hafter hne)
      refine Or.inr ⟨[], x, W, e, s, c, rfl, hx, ?_, ?_, ?_, ?_, ?_⟩
      · simpa using hnew
      · simpa using hfull
      · simpa using hs
      · simpa [afterWindow] using hc
      · rw [List.foldlM_cons, visit_full hs hx hnew hfull.ge hc hne]
        simp only [fresh_nil, List.append_nil]
        rfl

end Window

/-! ## One request -/

section Request

variable (pfx : String) (delimiter : Option String) (maxKeys : ℕ) (l : List Metadata) (start : Option String)

/-- `w` is the last row read, and `E` the entries up to it -/
structure Behind (w : Metadata) (E : List Entry) : Prop where
  row : w ∈ past l start
  listed : ∀ e ∈ E, ∃ y ∈ past l start, entryOf pfx delimiter y = some e ∧ utf8 y.key ≤ utf8 w.key
  all : ∀ y ∈ past l start, utf8 y.key ≤ utf8 w.key → ∀ e, entryOf pfx delimiter y = some e → e ∈ E

/-- how far a request has come -/
structure Progress (s : Scan) (E : List Entry) : Prop where
  scanned : Scanned s E
  short : E.length ≤ maxKeys
  rest : entries (entryOf pfx delimiter) (past l start) = E ++ fresh (entryOf pfx delimiter) E (past l s.after)
  cursor : E = [] ∧ s.after = start ∨ ∃ w, s.after = some (cursorOf pfx delimiter w) ∧ Behind pfx delimiter l start w E

variable {pfx delimiter maxKeys l start} {s : Scan} {E : List Entry} {w x : Metadata} (hl : Rows pfx l)

theorem progress_start : Progress pfx delimiter maxKeys l start ⟨[], [], start, none⟩ [] where
  scanned := ⟨rfl, rfl, rfl⟩
  short := Nat.zero_le _
  rest := rfl
  cursor := Or.inl ⟨rfl, rfl⟩

theorem mem_of_past {c : Option String} (h : x ∈ past l c) : x ∈ l := (mem_past.1 h).1

include hl

theorem Progress.items (hp : Progress pfx delimiter maxKeys l start s E) : ∀ x ∈ past l s.after, Entry.item x ∉ E := by
  intro x hx hmem
  rcases hp.cursor with ⟨rfl, -⟩ | ⟨w, hafter, hw⟩
  · cases hmem
  · obtain ⟨y, -, hy, hyw⟩ := hw.listed _ hmem
    obtain ⟨rfl, -⟩ := entryOf_eq_item.1 hy
    obtain ⟨cp, -, hgroup⟩ := hl.reread (mem_of_past hw.row) (mem_of_past hx) ((mem_past.1 hx).2 _ hafter) hyw
    rw [hy] at hgroup
    cases hgroup

/-- the rows up to one past a cursor -/
theorem window_le {c : Option String} {W Z : List Metadata} (hV : past l c = W ++ w :: Z) :
    ∀ y ∈ W ++ [w], y ∈ past l c ∧ utf8 y.key ≤ utf8 w.key := by
  intro y hy
  refine ⟨by rw [hV, ← List.singleton_append, ← List.append_assoc]; exact List.mem_append_left _ hy, ?_⟩
  rcases List.mem_append.1 hy with h | h
  · exact ((List.pairwise_append.1 (hV ▸ hl.sorted_past c)).2.2 y h w List.mem_cons_self).le
  · rw [List.mem_singleton.1 h]

/-- a row that is read again has been listed -/
theorem Behind.reread (hw : Behind pfx delimiter l start w E) (hx : x ∈ l) (hcx : utf8 (cursorOf pfx delimiter w) < utf8 x.key)
    (hxw : utf8 x.key ≤ utf8 w.key) {e : Entry} (he : entryOf pfx delimiter x = some e) : e ∈ E := by
  obtain ⟨cp, hgw, hgx⟩ := hl.reread (mem_of_past hw.row) hx hcx hxw
  rw [Option.some_inj.1 (he.symm.trans hgx)]
  exact hw.all w hw.row le_rfl _ hgw

/-- a window of rows that are read again -/
theorem Behind.fresh_window (hw : Behind pfx delimiter l start w E) {c : Option String} (hc : c = some (cursorOf pfx delimiter w))
    {W Z : List Metadata} {w' : Metadata} (hV : past l c = W ++ w' :: Z) (hle : utf8 w'.key ≤ utf8 w.key) :
    fresh (entryOf pfx delimiter) E (W ++ [w']) = [] := by
  refine fresh_eq_nil fun y hy e he => ?_
  obtain ⟨hyV, hyw⟩ := window_le hl hV y hy
  exact hw.reread hl (mem_of_past hyV) ((mem_past.1 hyV).2 _ hc) (hyw.trans hle) he

/-- a row that is skipped has been listed -/
theorem Behind.skipped (hw : Behind pfx delimiter l start w E) (hx : x ∈ l) (hwx : utf8 w.key < utf8 x.key)
    (hxc : utf8 x.key ≤ utf8 (cursorOf pfx delimiter w)) {e : Entry} (he : entryOf pfx delimiter x = some e) : e ∈ E :=
  hw.all w hw.row le_rfl _ (hl.skipped (mem_of_past hw.row) hx hwx hxc he)

/-- the entries after rows that go on from where a request is -/
theorem Progress.behind (hp : Progress pfx delimiter maxKeys l start s E) {W Z : List Metadata} {w' : Metadata}
    (hV : past l s.after = W ++ w' :: Z) :
    (∃ w, s.after = some (cursorOf pfx delimiter w) ∧ Behind pfx delimiter l start w E ∧ utf8 w'.key ≤ utf8 w.key) ∨
      Behind pfx delimiter l start w' (E ++ fresh (entryOf pfx delimiter) E (W ++ [w'])) := by
  have hwindow := window_le hl hV
  have hw'V := (hwindow w' (by simp)).1
  have hle := fun y hy => (hwindow y hy).2
  have hmemV := fun y hy => (hwindow y hy).1
  have hW : ∀ y ∈ past l s.after, utf8 y.key ≤ utf8 w'.key → y ∈ W ++ [w'] := by
    intro y hy hyw
    rw [hV, ← List.singleton_append, ← List.append_assoc] at hy
    rcases List.mem_append.1 hy with h | h
    · exact h
    · have hsorted := hV ▸ hl.sorted_past s.after
      exact absurd hyw (not_le.2 ((List.pairwise_cons.1 (List.pairwise_append.1 hsorted).2.1).1 y h))
  rcases hp.cursor with ⟨rfl, hafter⟩ | ⟨w, hafter, hw⟩
  · refine Or.inr ⟨hafter ▸ hw'V, fun e he => ?_, fun y hy hyw e he => ?_⟩
    · obtain ⟨-, y, hy, hye⟩ := mem_fresh.1 (by simpa using he)
      exact ⟨y, hafter ▸ hmemV y hy, hye, hle y hy⟩
    · rw [List.nil_append]
      exact mem_fresh.2 ⟨List.not_mem_nil, y, hW y (hafter ▸ hy) hyw, he⟩
  · rcases le_or_gt (utf8 w'.key) (utf8 w.key) with hback | hon
    · exact Or.inl ⟨w, hafter, hw, hback⟩
    · refine Or.inr ⟨?_, fun e he => ?_, fun y hy hyw e he => ?_⟩
      · exact mem_past.2 ⟨mem_of_past hw'V, fun a ha => ((mem_past.1 hw.row).2 a ha).trans hon⟩
      · rcases List.mem_append.1 he with he | he
        · obtain ⟨y, hy, hye, hyw⟩ := hw.listed e he
          exact ⟨y, hy, hye, hyw.trans hon.le⟩
        · obtain ⟨hnew, y, hy, hye⟩ := mem_fresh.1 he
          refine ⟨y, mem_past.2 ⟨mem_of_past (hmemV y hy), fun a ha => ?_⟩, hye, hle y hy⟩
          -- a row up to the start could only be read again
          by_contra hya
          have hyw := (not_lt.1 hya).trans ((mem_past.1 hw.row).2 a ha).le
          exact hnew (hw.reread hl (mem_of_past (hmemV y hy)) ((mem_past.1 (hmemV y hy)).2 _ hafter) hyw hye)
      · by_cases hseen : e ∈ E
        · exact List.mem_append_left _ hseen
        · refine List.mem_append_right _ (mem_fresh.2 ⟨hseen, y, hW y (mem_past.2 ⟨mem_of_past hy, fun a ha => ?_⟩) hyw, he⟩)
          rw [hafter, Option.some_inj] at ha
          by_contra hya
          rcases le_or_gt (utf8 y.key) (utf8 w.key) with hyw' | hyw'
          · exact hseen (hw.all y hy hyw' e he)
          · exact hseen (hw.skipped hl (mem_of_past hy) hyw' (ha ▸ not_lt.1 hya) he)

/-- after a window that fits -/
theorem Progress.window (hp : Progress pfx delimiter maxKeys l start s E) {W Z : List Metadata} {w' : Metadata} {s' : Scan}
    (hV : past l s.after = W ++ w' :: Z) (hs' : Scanned s' (E ++ fresh (entryOf pfx delimiter) E (W ++ [w'])))
    (hlen : (E ++ fresh (entryOf pfx delimiter) E (W ++ [w'])).length ≤ maxKeys) (hafter : s'.after = some (cursorOf pfx delimiter w')) :
    Progress pfx delimiter maxKeys l start s' (E ++ fresh (entryOf pfx delimiter) E (W ++ [w'])) := by
  have hV' : past l s.after = (W ++ [w']) ++ Z := by rw [hV, List.append_assoc]; rfl
  refine ⟨hs', hlen, ?_, Or.inr ?_⟩
  · obtain ⟨P, hP, -⟩ := hl.split_past s.after
    have hsplit : l = (P ++ W) ++ w' :: Z := by rw [List.append_assoc, ← hV, ← hP]
    rw [hafter, hl.fresh_past hsplit, hp.rest, hV', fresh_append, List.append_assoc]
    intro e he
    by_cases hseen : e ∈ E
    · exact List.mem_append_left _ hseen
    · exact List.mem_append_right _ (mem_fresh.2 ⟨hseen, w', by simp, he⟩)
  · rcases hp.behind hl hV with ⟨w, hw, hbehind, hle⟩ | hbehind
    · -- the window was read again: nothing new, and the same cursor
      have hw'V := (window_le hl hV w' (by simp)).1
      obtain ⟨cp, hgw, hgw'⟩ := hl.reread (mem_of_past hbehind.row) (mem_of_past hw'V) ((mem_past.1 hw'V).2 _ hw) hle
      refine ⟨w, ?_, ?_⟩
      · rw [hafter, cursorOf_of_group hgw', cursorOf_of_group hgw]
      · rw [hbehind.fresh_window hl hw hV hle, List.append_nil]
        exact hbehind
    · exact ⟨w', hafter, hbehind⟩

/-- a new entry is nowhere among the rows before it -/
theorem Behind.fresh (hw : Behind pfx delimiter l start w E) (hne : E ≠ []) {A B : List Metadata} (hsplit : l = A ++ x :: B) {e : Entry}
    (hx : entryOf pfx delimiter x = some e) (hnew : e ∉ E) (hwx : utf8 w.key < utf8 x.key)
    (hskip : ∀ a ∈ A, utf8 w.key < utf8 a.key → utf8 a.key ≤ utf8 (cursorOf pfx delimiter w)) : ∀ a ∈ A, entryOf pfx delimiter a ≠ some e := by
  intro a ha hae
  have hal : a ∈ l := by rw [hsplit]; exact List.mem_append_left _ ha
  rcases le_or_gt (utf8 a.key) (utf8 w.key) with haw | haw
  · by_cases hstart : a ∈ past l start
    · exact hnew (hw.all a hstart haw e hae)
    · -- an entry from before the start spans all that was listed
      obtain ⟨e', he'⟩ := List.exists_mem_of_ne_nil E hne
      obtain ⟨y, hy, hye, hyw⟩ := hw.listed e' he'
      have hay : utf8 a.key ≤ utf8 y.key := by
        by_contra hlt
        exact hstart (mem_past.2 ⟨hal, fun b hb => ((mem_past.1 hy).2 b hb).trans (not_le.1 hlt)⟩)
      obtain ⟨cp, -, hspan⟩ := hl.span hsplit ha List.mem_cons_self hae hx
      have hres : isReservedKey y.key = false := by
        by_contra hres
        rw [entryOf_eq_none.2 (by simpa using hres)] at hye
        cases hye
      have hyx := hspan y (mem_of_past hy) hay (hyw.trans hwx.le) hres
      exact hnew (Option.some_inj.1 (hyx.symm.trans hye) ▸ he')
  · exact hnew (hw.skipped hl hal haw (hskip a ha haw) hae)

theorem Behind.before (hw : Behind pfx delimiter l start w E) {A B : List Metadata} (hsplit : l = A ++ x :: B)
    (hwx : utf8 w.key < utf8 x.key) : ∀ e ∈ E, ∃ a ∈ A, entryOf pfx delimiter a = some e := by
  intro e he
  obtain ⟨y, hy, hye, hyw⟩ := hw.listed e he
  have hyl := mem_of_past hy
  rw [hsplit] at hyl
  rcases List.mem_append.1 hyl with h | h
  · exact ⟨y, h, hye⟩
  · have hyx := hyw.trans_lt hwx
    rcases List.mem_cons.1 h with rfl | h
    · exact absurd hyx (lt_irrefl _)
    · exact absurd hyx (lt_asymm ((List.pairwise_cons.1 (List.pairwise_append.1 (hsplit ▸ hl.sorted)).2.1).1 y h))

/-- where a request that does not fit stops -/
theorem Progress.stop (hm : 1 ≤ maxKeys) (hp : Progress pfx delimiter maxKeys l start s E) {W Z : List Metadata} {e : Entry} {c : String}
    (hV : past l s.after = W ++ x :: Z) (hx : entryOf pfx delimiter x = some e) (hnew : e ∉ E ++ fresh (entryOf pfx delimiter) E W)
    (hfull : (E ++ fresh (entryOf pfx delimiter) E W).length = maxKeys) (hc : afterWindow pfx delimiter W s.after = some c) :
    (∃ A, Resumes pfx delimiter l A x Z c ∧ (∀ a ∈ A, entryOf pfx delimiter a ≠ some e) ∧
        ∀ e' ∈ E ++ fresh (entryOf pfx delimiter) E W, ∃ a ∈ A, entryOf pfx delimiter a = some e') ∧
      ∃ rest, entries (entryOf pfx delimiter) (past l start) = E ++ fresh (entryOf pfx delimiter) E W ++ e :: rest := by
  have hrest : entries (entryOf pfx delimiter) (past l start) = E ++ fresh (entryOf pfx delimiter) E W ++
      e :: fresh (entryOf pfx delimiter) (E ++ fresh (entryOf pfx delimiter) E W ++ [e]) Z := by
    rw [hp.rest, hV, fresh_append, fresh_cons_new hx hnew, ← List.append_assoc]
  refine ⟨?_, _, hrest⟩
  obtain ⟨P, hP, hPle⟩ := hl.split_past s.after
  have hsplit : l = (P ++ W) ++ x :: Z := by rw [List.append_assoc, ← hV, ← hP]
  have hne : E ++ fresh (entryOf pfx delimiter) E W ≠ [] := List.ne_nil_of_length_pos (by omega)
  have hxV : x ∈ past l s.after := by rw [hV]; simp
  -- whatever was read last, `x` lies behind it
  have hon : ∀ w, s.after = some (cursorOf pfx delimiter w) → Behind pfx delimiter l start w E → utf8 w.key < utf8 x.key := by
    intro w hafter hw
    by_contra hle
    exact hnew (List.mem_append_left _ (hw.reread hl (mem_of_past hxV) ((mem_past.1 hxV).2 _ hafter) (not_lt.1 hle) hx))
  rcases List.eq_nil_or_concat W with rfl | ⟨W, w', rfl⟩
  · simp only [fresh_nil, List.append_nil] at hnew hne hsplit
    obtain ⟨w, hafter, hw⟩ := hp.cursor.resolve_left fun h => hne h.1
    have hcw : cursorOf pfx delimiter w = c := Option.some_inj.1 (hafter.symm.trans hc)
    have hwx := hon w hafter hw
    have hwP : w ∈ P := by
      have hwl := mem_of_past hw.row
      rw [hsplit] at hwl
      rcases List.mem_append.1 hwl with h | h
      · exact h
      · exfalso
        rcases List.mem_cons.1 h with rfl | h
        · exact lt_irrefl _ hwx
        · exact lt_asymm hwx ((List.pairwise_cons.1 (List.pairwise_append.1 (hsplit ▸ hl.sorted)).2.1).1 w h)
    refine ⟨P, ⟨hsplit, w, hwP, hcw.symm, Or.inr ?_⟩, hw.fresh hl hne hsplit hx hnew hwx fun a ha _ => ?_, ?_⟩
    · rw [← hcw, ← hafter, hV]
      rfl
    · obtain ⟨b, hb, hab⟩ := hPle a ha
      rw [hafter, Option.some_inj] at hb
      exact hb ▸ hab
    · simp only [fresh_nil, List.append_nil]
      exact hw.before hl hsplit hwx
  · rw [List.concat_eq_append] at *
    have hcw : cursorOf pfx delimiter w' = c := by simpa [afterWindow] using hc
    have hV' : past l s.after = W ++ w' :: x :: Z := by rw [hV, List.append_assoc]; rfl
    have hsplit' : l = (P ++ W) ++ w' :: x :: Z := by rw [List.append_assoc, ← hV', ← hP]
    have hw'x := hl.lt_of_split hsplit w' (by simp)
    have hw : Behind pfx delimiter l start w' (E ++ fresh (entryOf pfx delimiter) E (W ++ [w'])) := by
      rcases hp.behind hl hV' with ⟨w, hafter, hw, hle⟩ | hw
      · -- the last row read before lies between `w'` and `x`
        have hwx := hon w hafter hw
        have hww' : w = w' := by
          have hwl := mem_of_past hw.row
          rw [hsplit'] at hwl
          rcases List.mem_append.1 hwl with h | h
          · exact absurd hle (not_le.2 (hl.lt_of_split hsplit' w h))
          · rcases List.mem_cons.1 h with h | h
            · exact h
            · exfalso
              rcases List.mem_cons.1 h with rfl | h
              · exact lt_irrefl _ hwx
              · exact lt_asymm hwx ((List.pairwise_cons.1 (List.pairwise_append.1 (hsplit ▸ hl.sorted)).2.1).1 w h)
        subst hww'
        rw [hw.fresh_window hl hafter hV' le_rfl, List.append_nil]
        exact hw
      · exact hw
    refine ⟨P ++ (W ++ [w']), ⟨hsplit, w', by simp, hcw.symm, Or.inl (by simp [List.getLast?_append])⟩,
      hw.fresh hl hne hsplit hx hnew hw'x fun a ha hlt => absurd hlt (not_lt.2 ?_), hw.before hl hsplit hw'x⟩
    rw [← List.append_assoc] at ha
    rcases List.mem_append.1 ha with h | h
    · exact (hl.lt_of_split hsplit' a h).le
    · rw [List.mem_singleton.1 h]

end Request

/-- the last row of a full window -/
theorem last_of_window {V : List Metadata} (hfull : LIST_PAGE_SIZE < V.length) :
    ∃ W w Z, V = W ++ w :: Z ∧ V.take LIST_PAGE_SIZE = W ++ [w] ∧ V[LIST_PAGE_SIZE - 1]? = some w ∧ W.length = LIST_PAGE_SIZE - 1 := by
  have hlt : LIST_PAGE_SIZE - 1 < V.length := (Nat.sub_le _ _).trans_lt hfull
  refine ⟨V.take (LIST_PAGE_SIZE - 1), V[LIST_PAGE_SIZE - 1], V.drop LIST_PAGE_SIZE, ?_, ?_, List.getElem?_eq_getElem hlt, ?_⟩
  · have hdrop : V.drop (LIST_PAGE_SIZE - 1) = V[LIST_PAGE_SIZE - 1] :: V.drop LIST_PAGE_SIZE := List.drop_eq_getElem_cons hlt
    rw [← hdrop, List.take_append_drop]
  · exact List.take_succ_eq_append_getElem hlt
  · exact List.length_take_of_le hlt.le

section Windows

variable {pfx : String} {delimiter : Option String} {maxKeys : ℕ} {l : List Metadata} {start : Option String} {s s' : Scan} {E : List Entry}
  (hl : Rows pfx l)
include hl

/-- the next window: it fits, or some row of it is the one that does not -/
theorem Progress.next (hm : 1 ≤ maxKeys) (hp : Progress pfx delimiter maxKeys l start s E) {W : List Metadata}
    (hW : W = (past l s.after).take LIST_PAGE_SIZE) :
    (∃ s', W.foldlM (visit pfx delimiter maxKeys) s = .ok s' ∧ Scanned s' (E ++ fresh (entryOf pfx delimiter) E W) ∧
      (E ++ fresh (entryOf pfx delimiter) E W).length ≤ maxKeys ∧ s'.after = afterWindow pfx delimiter W s.after) ∨
    ∃ W₁ x Z e s₁ c, past l s.after = W₁ ++ x :: Z ∧ W₁.length < LIST_PAGE_SIZE ∧ entryOf pfx delimiter x = some e ∧
      e ∉ E ++ fresh (entryOf pfx delimiter) E W₁ ∧ (E ++ fresh (entryOf pfx delimiter) E W₁).length = maxKeys ∧
      Scanned s₁ (E ++ fresh (entryOf pfx delimiter) E W₁) ∧ afterWindow pfx delimiter W₁ s.after = some c ∧
      W.foldlM (visit pfx delimiter maxKeys) s = .error ⟨s₁, some c, markerBefore (E ++ fresh (entryOf pfx delimiter) E W₁) e⟩ := by
  have hV : past l s.after = W ++ (past l s.after).drop LIST_PAGE_SIZE := by rw [hW, List.take_append_drop]
  have hnodup : W.Nodup := by
    rw [hW]
    refine ((hl.sorted_past s.after).sublist (List.take_sublist _ _)).imp ?_
    rintro a b hlt rfl
    exact lt_irrefl _ hlt
  have hafter : E ≠ [] → s.after ≠ none := by
    intro hne
    obtain ⟨w, hw, -⟩ := hp.cursor.resolve_left fun h => hne h.1
    rw [hw]
    exact Option.some_ne_none _
  have hitems : ∀ x ∈ W, Entry.item x ∉ E := fun x hx => hp.items hl x (List.mem_of_mem_take (hW ▸ hx))
  refine (fold_window hm hp.scanned hp.short hafter hitems hnodup).imp_right ?_
  rintro ⟨W₁, x, W₂, e, s₁, c, hsplit, hx, hnew, hfull, hs₁, hc, herr⟩
  refine ⟨W₁, x, W₂ ++ (past l s.after).drop LIST_PAGE_SIZE, e, s₁, c, ?_, ?_, hx, hnew, hfull, hs₁, hc, herr⟩
  · calc past l s.after
      _ = W ++ (past l s.after).drop LIST_PAGE_SIZE := hV
      _ = W₁ ++ x :: (W₂ ++ (past l s.after).drop LIST_PAGE_SIZE) := by rw [hsplit, List.append_assoc]; rfl
  · have hlen := congrArg List.length (hsplit.symm.trans hW)
    rw [List.length_append, List.length_cons, List.length_take] at hlen
    omega

/-- after a full window that fits -/
theorem Progress.full (hp : Progress pfx delimiter maxKeys l start s E) (hfull : LIST_PAGE_SIZE < (past l s.after).length)
    {W : List Metadata} (hW : W = (past l s.after).take LIST_PAGE_SIZE) (hs' : Scanned s' (E ++ fresh (entryOf pfx delimiter) E W))
    (hlen : (E ++ fresh (entryOf pfx delimiter) E W).length ≤ maxKeys) (hafter : s'.after = afterWindow pfx delimiter W s.after) :
    Progress pfx delimiter maxKeys l start s' (E ++ fresh (entryOf pfx delimiter) E W) ∧
      ∃ W' w' Z, past l s.after = W' ++ w' :: Z ∧ W = W' ++ [w'] ∧ W'.length < LIST_PAGE_SIZE ∧
        s'.after = some (cursorOf pfx delimiter w') := by
  obtain ⟨W', w', Z, hV, htake, -, hlen'⟩ := last_of_window hfull
  rw [← hW] at htake
  subst htake
  have hw' : s'.after = some (cursorOf pfx delimiter w') := by
    rw [hafter, afterWindow, List.getLast?_concat]
    rfl
  refine ⟨hp.window hl hV hs' hlen hw', W', w', Z, hV, rfl, ?_, hw'⟩
  rw [hlen']
  decide

end Windows

/-! ## The loop -/

/-- the answer to a request from a cursor: all that is left, or a page that ends before an entry -/
inductive Outcome (pfx : String) (delimiter : Option String) (maxKeys : ℕ) (l : List Metadata) (start : Option String) : S3Page → Prop where
  | whole (hshort : (entries (entryOf pfx delimiter) (past l start)).length ≤ maxKeys) :
    Outcome pfx delimiter maxKeys l start ⟨(entries (entryOf pfx delimiter) (past l start)).filterMap Entry.item?,
      sortedSet ((entries (entryOf pfx delimiter) (past l start)).filterMap Entry.group?), false, none, none⟩
  | cut (E : List Entry) (e : Entry) (rest : List Entry) (A : List Metadata) (x : Metadata) (B : List Metadata) (c : String)
    (hentries : entries (entryOf pfx delimiter) (past l start) = E ++ e :: rest) (hfull : E.length = maxKeys)
    (hresume : Resumes pfx delimiter l A x B c) (hx : entryOf pfx delimiter x = some e)
    (hnew : ∀ a ∈ A, entryOf pfx delimiter a ≠ some e) :
    Outcome pfx delimiter maxKeys l start
      ⟨E.filterMap Entry.item?, sortedSet (E.filterMap Entry.group?), true, some c, markerBefore E e⟩

section Loop

variable {J : Json} {U : CharTable} {t : Tables} {bucket pfx : String} {delimiter : Option String} {maxKeys : ℕ} {l : List Metadata}

/-- the storage hands out the rows in windows -/
def Fetches (J : Json) (U : CharTable) (t : Tables) (bucket pfx : String) (l : List Metadata) : Prop :=
  ∀ after, listObjects J U t bucket ⟨some pfx, after, some LIST_PAGE_SIZE⟩ = .ok (pageAfter utf8 (·.key) LIST_PAGE_SIZE l after)

variable (hfetch : Fetches J U t bucket pfx l)
include hfetch

theorem listFrom_succ (n : ℕ) (s : Scan) :
    listFrom J U t bucket pfx delimiter maxKeys (n + 1) s =
      match ((past l s.after).take LIST_PAGE_SIZE).foldlM (visit pfx delimiter maxKeys) s with
      | .error stop => some (.ok stop.page)
      | .ok s' =>
        if (past l s.after).length ≤ LIST_PAGE_SIZE then some (.ok s'.page) else listFrom J U t bucket pfx delimiter maxKeys n s' := by
  have hnext : (pageAfter utf8 (fun m : Metadata => m.key) LIST_PAGE_SIZE l s.after).next.isNone =
      decide ((past l s.after).length ≤ LIST_PAGE_SIZE) := by
    have h : (pageAfter utf8 (fun m : Metadata => m.key) LIST_PAGE_SIZE l s.after).next.isSome ↔ LIST_PAGE_SIZE < (past l s.after).length :=
      next_pageAfter (by decide) s.after
    rw [Bool.eq_iff_iff, decide_eq_true_eq, ← not_lt, ← h, Option.isNone_iff_eq_none, ← Option.not_isSome_iff_eq_none]
  have hitems : (pageAfter utf8 (fun m : Metadata => m.key) LIST_PAGE_SIZE l s.after).items = (past l s.after).take LIST_PAGE_SIZE := rfl
  rw [listFrom, hfetch]
  simp only [hnext, hitems, Bool.and_eq_true, List.isEmpty_iff, decide_eq_true_eq]
  by_cases hempty : (past l s.after).take LIST_PAGE_SIZE = [] ∧ (past l s.after).length ≤ LIST_PAGE_SIZE
  · -- nothing is left
    have hfold : ((past l s.after).take LIST_PAGE_SIZE).foldlM (visit pfx delimiter maxKeys) s = .ok s :=
      congrArg (List.foldlM (visit pfx delimiter maxKeys) s) hempty.1
    simp only [hfold, if_pos hempty, if_pos hempty.2]
  · refine (if_neg hempty).trans ?_
    cases ((past l s.after).take LIST_PAGE_SIZE).foldlM (visit pfx delimiter maxKeys) s with
    | error stop => rfl
    | ok s' => rfl

variable {n : ℕ} {s : Scan} {E : List Entry} {start : Option String}

/-- whatever the loop returns is the answer -/
theorem listFrom_outcome (hl : Rows pfx l) (hm : 1 ≤ maxKeys) (hp : Progress pfx delimiter maxKeys l start s E)
    {r : Except Error S3Page} (hr : listFrom J U t bucket pfx delimiter maxKeys n s = some r) :
    ∃ page, r = .ok page ∧ Outcome pfx delimiter maxKeys l start page := by
  induction n generalizing s E with
  | zero => cases hr
  | succ n ih =>
    rw [listFrom_succ hfetch] at hr
    rcases hp.next hl hm rfl with ⟨s', hok, hs', hlen, hafter⟩ | ⟨W₁, x, Z, e, s₁, c, hV, -, hx, hnew, hfull, hs₁, hc, herr⟩
    · simp only [hok] at hr
      split_ifs at hr with hlast
      · -- the last window
        cases hr
        rw [List.take_of_length_le hlast, ← hp.rest] at hs' hlen
        refine ⟨_, rfl, ?_⟩
        rw [Scan.page, hs'.results, hs'.common]
        exact .whole hlen
      · exact ih (hp.full hl (not_le.1 hlast) rfl hs' hlen hafter).1 hr
    · simp only [herr] at hr
      cases hr
      obtain ⟨⟨A, hresume, hnewA, -⟩, rest, hentries⟩ := hp.stop hl hm hV hx hnew hfull hc
      refine ⟨_, rfl, ?_⟩
      rw [Stop.page, hs₁.results, hs₁.common]
      exact .cut _ e rest A x _ c hentries hfull hresume hx hnewA

end Loop

/-! ## Requests that never end -/

/-- a whole window past the cursor that skips a group is still in the group, and more follows -/
def Stuck (pfx : String) (delimiter : Option String) (l : List Metadata) (cp : String) : Prop :=
  LIST_PAGE_SIZE < (past l (some (skip cp))).length ∧
    ∃ w, (past l (some (skip cp)))[LIST_PAGE_SIZE - 1]? = some w ∧ entryOf pfx delimiter w = some (.group cp)

section Stuck

variable {J : Json} {U : CharTable} {t : Tables} {bucket pfx : String} {delimiter : Option String} {maxKeys : ℕ} {l : List Metadata}
  (hfetch : Fetches J U t bucket pfx l) (hl : Rows pfx l) {n : ℕ} {s : Scan} {E : List Entry} {start : Option String} {cp : String}
  {w x : Metadata} {s' : Scan}

theorem visit_after (h : visit pfx delimiter maxKeys s x = .ok s') : s'.after = some (cursorOf pfx delimiter x) := by
  rw [visit] at h
  rw [cursorOf]
  by_cases hres : isReservedKey x.key = true
  · rw [if_pos hres] at h ⊢
    cases h
    rfl
  · rw [if_neg hres] at h ⊢
    cases hroll : rollUp pfx delimiter x.key with
    | some cp =>
      simp only [hroll] at h
      split_ifs at h <;> cases h <;> rfl
    | none =>
      simp only [hroll] at h
      split_ifs at h
      cases h
      rfl

theorem foldlM_after {W : List Metadata} (h : W.foldlM (visit pfx delimiter maxKeys) s = .ok s') :
    s'.after = afterWindow pfx delimiter W s.after := by
  induction W generalizing s with
  | nil =>
    cases h
    rfl
  | cons x W ih =>
    rw [List.foldlM_cons] at h
    cases hvisit : visit pfx delimiter maxKeys s x with
    | error stop =>
      rw [hvisit] at h
      cases h
    | ok s₁ =>
      rw [hvisit] at h
      rw [ih h, visit_after hvisit, afterWindow_cons]

include hl

/-- a full window that is not stuck gets on -/
theorem lt_of_not_stuck (hstuck : ∀ cp, ¬Stuck pfx delimiter l cp) (hw : w ∈ l) {w' : Metadata}
    (hfull : LIST_PAGE_SIZE < (past l (some (cursorOf pfx delimiter w))).length)
    (hw' : (past l (some (cursorOf pfx delimiter w)))[LIST_PAGE_SIZE - 1]? = some w') : utf8 w.key < utf8 w'.key := by
  by_contra hle
  obtain ⟨hw'l, hpast⟩ := mem_past.1 (List.mem_of_getElem? hw')
  obtain ⟨cp, hgw, hgw'⟩ := hl.reread hw hw'l (hpast _ rfl) (not_lt.1 hle)
  rw [cursorOf_of_group hgw] at hfull hw'
  exact hstuck cp ⟨hfull, w', hw', hgw'⟩

include hfetch

theorem listFrom_ends (hstuck : ∀ cp, ¬Stuck pfx delimiter l cp) (hw : w ∈ l) (hs : s.after = some (cursorOf pfx delimiter w)) :
    ∃ n r, listFrom J U t bucket pfx delimiter maxKeys n s = some r := by
  obtain ⟨left, hleft⟩ : ∃ left, (l.filter fun m => decide (utf8 w.key < utf8 m.key)).length < left := ⟨_, Nat.lt_succ_self _⟩
  induction left generalizing s w with
  | zero => exact absurd hleft (Nat.not_lt_zero _)
  | succ left ih =>
    cases hfold : ((past l s.after).take LIST_PAGE_SIZE).foldlM (visit pfx delimiter maxKeys) s with
    | error stop => exact ⟨1, _, by rw [listFrom_succ hfetch, hfold]⟩
    | ok s' =>
      by_cases hlast : (past l s.after).length ≤ LIST_PAGE_SIZE
      · exact ⟨1, _, by rw [listFrom_succ hfetch, hfold]; exact if_pos hlast⟩
      · obtain ⟨W, w', Z, hV, hW, hget, -⟩ := last_of_window (not_le.1 hlast)
        have hw'V : w' ∈ past l s.after := List.mem_of_getElem? hget
        have hlt : utf8 w.key < utf8 w'.key := by
          rw [hs] at hlast hget
          exact lt_of_not_stuck hl hstuck hw (not_le.1 hlast) hget
        have hafter : s'.after = some (cursorOf pfx delimiter w') := by
          rw [foldlM_after hfold, hW, afterWindow, List.getLast?_concat]
          rfl
        have hfewer : (l.filter fun m => decide (utf8 w'.key < utf8 m.key)).length < left := by
          refine lt_of_lt_of_le ?_ (Nat.lt_succ_iff.1 hleft)
          have hsub : (l.filter fun m => decide (utf8 w'.key < utf8 m.key)).Sublist (l.filter fun m => decide (utf8 w.key < utf8 m.key)) :=
            List.monotone_filter_right l fun m hm => decide_eq_true (hlt.trans (of_decide_eq_true hm))
          refine lt_of_le_of_ne hsub.length_le fun heq => ?_
          have hmem : w' ∈ l.filter fun m => decide (utf8 w'.key < utf8 m.key) := by
            rw [hsub.eq_of_length heq]
            exact List.mem_filter.2 ⟨mem_of_past hw'V, decide_eq_true hlt⟩
          exact lt_irrefl _ (of_decide_eq_true (List.mem_filter.1 hmem).2)
        obtain ⟨n, r, hr⟩ := ih (mem_of_past hw'V) hafter hfewer
        exact ⟨n + 1, r, by rw [listFrom_succ hfetch, hfold]; exact (if_neg hlast).trans hr⟩

/-- every request ends -/
theorem listPage_ends (hstuck : ∀ cp, ¬Stuck pfx delimiter l cp) (start : Option String) :
    ∃ n r, listPage J U t bucket pfx delimiter maxKeys start n = some r := by
  cases hfold : ((past l start).take LIST_PAGE_SIZE).foldlM (visit pfx delimiter maxKeys) ⟨[], [], start, none⟩ with
  | error stop => exact ⟨1, _, by rw [listPage, listFrom_succ hfetch, hfold]⟩
  | ok s' =>
    by_cases hlast : (past l start).length ≤ LIST_PAGE_SIZE
    · exact ⟨1, _, by rw [listPage, listFrom_succ hfetch, hfold]; exact if_pos hlast⟩
    · obtain ⟨W, w', Z, hV, hW, hget, -⟩ := last_of_window (not_le.1 hlast)
      have hafter : s'.after = some (cursorOf pfx delimiter w') := by
        rw [foldlM_after hfold, hW, afterWindow, List.getLast?_concat]
        rfl
      obtain ⟨n, r, hr⟩ : ∃ n r, listFrom J U t bucket pfx delimiter maxKeys n s' = some r :=
        listFrom_ends hfetch hl hstuck (mem_of_past (List.mem_of_getElem? hget)) hafter
      exact ⟨n + 1, r, by rw [listPage, listFrom_succ hfetch, hfold]; exact (if_neg hlast).trans hr⟩

/-- once it is stuck, the same window comes again and again -/
theorem listFrom_stuck (hstuck : Stuck pfx delimiter l cp) (hs : s.after = some (skip cp)) (hcp : cp ∈ s.common) (n : ℕ) :
    listFrom J U t bucket pfx delimiter maxKeys n s = none := by
  obtain ⟨hfull, g, hg, hgroup⟩ := hstuck
  obtain ⟨W, w, Z, hV, hW, hw, -⟩ := last_of_window hfull
  rw [hw, Option.some_inj] at hg
  subst hg
  have hfix : ∀ x ∈ W ++ [w], visit pfx delimiter maxKeys s x = .ok s := by
    intro x hx
    obtain ⟨hxV, hxw⟩ := window_le hl hV x hx
    have hwl := mem_of_past (List.mem_of_getElem? hw)
    have hskip := (mem_past.1 hxV).2 _ rfl
    obtain ⟨cp', hgw, hgx⟩ := hl.reread hwl (mem_of_past hxV) (by rw [cursorOf_of_group hgroup]; exact hskip) hxw
    rw [hgroup] at hgw
    cases hgw
    obtain ⟨hres, hroll⟩ := entryOf_eq_group.1 hgx
    simp [visit, hres, hroll, hcp, ← hs]
  have hfold : ∀ W' : List Metadata, (∀ x ∈ W', visit pfx delimiter maxKeys s x = .ok s) → W'.foldlM (visit pfx delimiter maxKeys) s = .ok s := by
    intro W' hW'
    induction W' with
    | nil => rfl
    | cons x W' ih =>
      rw [List.foldlM_cons, hW' x List.mem_cons_self]
      exact ih fun y hy => hW' y (List.mem_cons_of_mem x hy)
  induction n with
  | zero => rfl
  | succ n ih =>
    rw [listFrom_succ hfetch, hs, hW, hfold _ hfix]
    exact (if_neg (not_le.2 hfull)).trans ih

omit hfetch

/-- a window from before the cursor of a group does not get past the group's -/
theorem le_of_window (hfull : LIST_PAGE_SIZE < (past l (some (skip cp))).length) {g : Metadata}
    (hg : (past l (some (skip cp)))[LIST_PAGE_SIZE - 1]? = some g) {c : Option String} (hc : ∀ a, c = some a → utf8 a ≤ utf8 (skip cp))
    {W Z : List Metadata} (hV : past l c = W ++ x :: Z) (hlen : W.length < LIST_PAGE_SIZE) : utf8 x.key ≤ utf8 g.key := by
  by_contra hlt
  obtain ⟨G, g', Z', hG, htake, hg', -⟩ := last_of_window hfull
  rw [hg', Option.some_inj] at hg
  subst hg
  -- all of the group's window would come before `x`
  have hsub : (past l (some (skip cp))).take LIST_PAGE_SIZE ⊆ W := by
    intro y hy
    obtain ⟨hyG, hyg⟩ := window_le hl hG y (htake ▸ hy)
    have hyV : y ∈ past l c := mem_past.2 ⟨mem_of_past hyG, fun a ha => (hc a ha).trans_lt ((mem_past.1 hyG).2 _ rfl)⟩
    have hyx := hyg.trans_lt (not_le.1 hlt)
    rw [hV] at hyV
    rcases List.mem_append.1 hyV with h | h
    · exact h
    · rcases List.mem_cons.1 h with rfl | h
      · exact absurd hyx (lt_irrefl _)
      · exact absurd hyx (lt_asymm ((List.pairwise_cons.1 (List.pairwise_append.1 (hV ▸ hl.sorted_past c)).2.1).1 y h))
  have hnodup : ((past l (some (skip cp))).take LIST_PAGE_SIZE).Nodup := by
    refine ((hl.sorted_past (some (skip cp))).sublist (List.take_sublist _ _)).imp ?_
    rintro a b hab rfl
    exact lt_irrefl _ hab
  have hle := (List.subperm_of_subset hnodup hsub).length_le
  rw [List.length_take_of_le hfull.le] at hle
  omega

/-- a row up to the cursor of a group has its own cursor up to there -/
theorem cursorOf_le_skip (hw : w ∈ l) (hx : x ∈ l) (hgroup : entryOf pfx delimiter x = some (.group cp)) (hle : utf8 w.key ≤ utf8 (skip cp)) :
    utf8 (cursorOf pfx delimiter w) ≤ utf8 (skip cp) := by
  by_cases hgw : ∃ cp', entryOf pfx delimiter w = some (.group cp')
  · obtain ⟨cp', hgw⟩ := hgw
    rw [cursorOf_of_group hgw]
    by_contra hlt
    have hp := prefix_of_between (hl.prefix_of_group hw hgw) (prefix_skip cp') hle (not_le.1 hlt).le
    rcases prefix_skip_iff.1 hp with hp | rfl
    · -- the longer group would be in the shorter
      have hxp := hp.trans (hl.prefix_of_group hx hgroup)
      have hsame := hl.group_of_prefix hw hgw hx hxp (entryOf_eq_group.1 hgroup).1
      rw [hgroup] at hsame
      cases hsame
      exact hlt le_rfl
    · have hwp := (prefix_skip cp).trans (hl.prefix_of_group hw hgw)
      have hsame := hl.group_of_prefix hx hgroup hw hwp (entryOf_eq_group.1 hgw).1
      rw [hgw, Option.some_inj, Entry.group.injEq] at hsame
      have hlen := congrArg (fun s => (utf8 s).length) hsame
      simp [utf8_skip] at hlen
  · rw [cursorOf_of_not_group fun cp' h => hgw ⟨cp', h⟩]
    exact hle

include hfetch

/-- a request that comes to a stuck group never returns it -/
theorem listFrom_not_listed (hm : 1 ≤ maxKeys) (hstuck : Stuck pfx delimiter l cp) (hp : Progress pfx delimiter maxKeys l start s E)
    (hafter : ∀ a, s.after = some a → utf8 a ≤ utf8 (skip cp)) {page : S3Page}
    (hpage : listFrom J U t bucket pfx delimiter maxKeys n s = some (.ok page)) : cp ∉ page.commonPrefixes := by
  obtain ⟨hfull, g, hg, hgroup⟩ := hstuck
  have hgl := mem_of_past (List.mem_of_getElem? hg)
  induction n generalizing s E with
  | zero => cases hpage
  | succ n ih =>
    have hmore : LIST_PAGE_SIZE < (past l s.after).length := by
      refine hfull.trans_le (List.Sublist.length_le (List.monotone_filter_right l fun m hm => ?_))
      cases hs : s.after with
      | none => rfl
      | some a => exact past_some.2 ((hafter a hs).trans_lt (past_some.1 hm))
    have hin : ∀ {x}, x ∈ l → utf8 (skip cp) < utf8 x.key → utf8 x.key ≤ utf8 g.key → entryOf pfx delimiter x = some (.group cp) := by
      intro x hx hskip hle
      obtain ⟨cp', hgg, hgx⟩ := hl.reread hgl hx (by rw [cursorOf_of_group hgroup]; exact hskip) hle
      rw [hgx, ← hgg, hgroup]
    rw [listFrom_succ hfetch] at hpage
    rcases hp.next hl hm rfl with ⟨s', hok, hs', hlen, hafter'⟩ | ⟨W₁, x, Z, e, s₁, c, hV, hlt, hx, hnew, hcount, hs₁, hc, herr⟩
    · simp only [hok, if_neg (not_le.2 hmore)] at hpage
      obtain ⟨hp', W', w', Z, hV, hW, hlt, hw'⟩ := hp.full hl hmore rfl hs' hlen hafter'
      have hw'l : w' ∈ l := mem_of_past (by rw [hV]; simp)
      have hle := le_of_window hl hfull hg hafter hV hlt
      by_cases hgw' : entryOf pfx delimiter w' = some (.group cp)
      · -- now it is stuck
        have hseen : Entry.group cp ∈ E ++ fresh (entryOf pfx delimiter) E ((past l s.after).take LIST_PAGE_SIZE) := by
          by_cases hE : Entry.group cp ∈ E
          · exact List.mem_append_left _ hE
          · exact List.mem_append_right _ (mem_fresh.2 ⟨hE, w', by rw [hW]; simp, hgw'⟩)
        have hcp : cp ∈ s'.common := hs'.common ▸ mem_groups.2 hseen
        rw [cursorOf_of_group hgw'] at hw'
        rw [listFrom_stuck hfetch hl ⟨hfull, g, hg, hgroup⟩ hw' hcp] at hpage
        cases hpage
      · have hbefore : utf8 w'.key ≤ utf8 (skip cp) := not_lt.1 fun hskip => hgw' (hin hw'l hskip hle)
        refine ih hp' (fun a ha => ?_) hpage
        rw [hw', Option.some_inj] at ha
        exact ha ▸ cursorOf_le_skip hl hw'l hgl hgroup hbefore
    · simp only [herr] at hpage
      cases hpage
      intro hcp
      rw [Stop.page, hs₁.common] at hcp
      have hcp := mem_groups.1 ((List.mem_mergeSort).1 hcp)
      obtain ⟨⟨A, hresume, -, hlisted⟩, -⟩ := hp.stop hl hm hV hx hnew hcount hc
      obtain ⟨a, ha, hag⟩ := hlisted _ hcp
      have hal : a ∈ l := by rw [hresume.split]; exact List.mem_append_left _ ha
      have hxl : x ∈ l := by rw [hresume.split]; simp
      have hax := hl.lt_of_split hresume.split a ha
      have hres : isReservedKey x.key = false := by
        by_contra hres
        rw [entryOf_eq_none.2 (by simpa using hres)] at hx
        cases hx
      have hxg := hl.group_of_between hal hgl hag hgroup hxl hax.le (le_of_window hl hfull hg hafter hV hlt) hres
      rw [hx, Option.some_inj] at hxg
      exact hnew (hxg ▸ hcp)

end Stuck

end Y2q.MetadataIndex.ListObjects
