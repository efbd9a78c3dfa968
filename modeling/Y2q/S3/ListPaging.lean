/-
When the pages of an S3 listing have every key and every common prefix exactly once (`s3/bucket.rs`).

- `entries_past_name`, `land`: where the next request begins, by position among the entries.
- `Follows.turns`, `follows_of_turns`: a client's requests are the turns of the abstract listing.
- `listObjectsV2_exact_iff`, `listObjects_exact_iff`: the pages are exact exactly if no request gets stuck and every page begins where
  the page before it ended.
- `token_leads_back`, `marker_leads_back`: a token and a marker after a common prefix that lead to it again, for ever.
-/
import Mathlib.Tactic
import Y2q.S3.ListRequests

namespace Y2q.MetadataIndex.ListObjects

open Y2q.Pages Y2q.Groups
open Buckets (CharTable validateBucket)
open Multipart (isReservedKey)

/-! ## The rows of a bucket -/

section Bucket

variable {J : Json} {U : CharTable} {t : Tables} {bucket pfx : String} {delimiter : Option String} {maxKeys : ℕ} {l : List Metadata}

theorem startsWith_iff {s p : String} : startsWith s p = true ↔ p.toList <+: s.toList := by
  rw [startsWith, List.isPrefixOf_iff_prefix, utf8_prefix_iff]

theorem rows_listing (ht : Keyed J U t) (hshort : ∀ m, Row J t m → Short m.bucket) : Rows pfx (listing J t bucket (some pfx)) where
  sorted := pairwise_listing ht hshort
  starts := fun m hm => startsWith_iff.1 (by simpa using ((mem_listing ht hshort).1 hm).2.2)

theorem fetches_listing (ht : Keyed J U t) (hbucket : validateBucket U bucket = .ok ()) :
    Fetches J U t bucket pfx (listing J t bucket (some pfx)) := by
  intro after
  simp only [listObjects, hbucket]
  exact scanObjects_eq ht

end Bucket

/-! ## Items and groups -/

section Entries

variable {pfx : String} {delimiter : Option String} {l : List Metadata} {E E' seen : List Entry}

/-- the items are the rows that are not rolled up, in order -/
theorem items_fresh (hnodup : l.Nodup) (hseen : ∀ m ∈ l, Entry.item m ∉ seen) :
    (fresh (entryOf pfx delimiter) seen l).filterMap Entry.item? = l.filter fun m => entryOf pfx delimiter m = some (.item m) := by
  induction l generalizing seen with
  | nil => rfl
  | cons x l ih =>
    obtain ⟨hx, hrest⟩ := List.nodup_cons.1 hnodup
    have hl := fun m hm => hseen m (List.mem_cons_of_mem x hm)
    cases he : entryOf pfx delimiter x with
    | none => rw [fresh_cons_none he, ih hrest hl, List.filter_cons_of_neg (by simp [he])]
    | some e =>
      cases e with
      | item m =>
        obtain ⟨rfl, -⟩ := entryOf_eq_item.1 he
        rw [fresh_cons_new he (hseen m List.mem_cons_self), List.filterMap_cons_some (Entry.item?_item m), ih hrest,
          List.filter_cons_of_pos (by simp [he])]
        intro m' hm' hmem
        rcases List.mem_append.1 hmem with h | h
        · exact hl m' hm' h
        · cases List.mem_singleton.1 h
          exact hx hm'
      | group cp =>
        have hfilter : (x :: l).filter (fun m => decide (entryOf pfx delimiter m = some (.item m))) =
            l.filter fun m => decide (entryOf pfx delimiter m = some (.item m)) := List.filter_cons_of_neg (by simp [he])
        rw [hfilter]
        by_cases hcp : Entry.group cp ∈ seen
        · rw [fresh_cons_seen he hcp, ih hrest hl]
        · rw [fresh_cons_new he hcp, List.filterMap_cons_none (Entry.item?_group cp), ih hrest]
          intro m' hm' hmem
          rcases List.mem_append.1 hmem with h | h
          · exact hl m' hm' h
          · cases List.mem_singleton.1 h

theorem Rows.nodup (hl : Rows pfx l) : l.Nodup := by
  refine hl.sorted.imp ?_
  rintro a b hlt rfl
  exact lt_irrefl _ hlt

theorem items_entries (hl : Rows pfx l) : (entries (entryOf pfx delimiter) l).filterMap Entry.item? =
    l.filter fun m => entryOf pfx delimiter m = some (.item m) := items_fresh hl.nodup fun _ _ => List.not_mem_nil

theorem nodup_groups (hE : E.Nodup) : (E.filterMap Entry.group?).Nodup := by
  refine hE.filterMap ?_
  intro e e' cp he he'
  cases e <;> cases e' <;> cases he <;> cases he'
  rfl

theorem mem_groups_entries {cp : String} :
    cp ∈ (entries (entryOf pfx delimiter) l).filterMap Entry.group? ↔ ∃ m ∈ l, entryOf pfx delimiter m = some (.group cp) := by
  rw [mem_groups, mem_entries]

/-- a list of entries up to order, from its items and groups -/
theorem perm_parts (E : List Entry) : E.Perm ((E.filterMap Entry.item?).map .item ++ (E.filterMap Entry.group?).map .group) := by
  induction E with
  | nil => exact List.Perm.refl _
  | cons e E ih =>
    cases e with
    | item m =>
      rw [List.filterMap_cons_some (Entry.item?_item m), List.filterMap_cons_none (Entry.group?_item m)]
      exact ih.cons _
    | group cp =>
      rw [List.filterMap_cons_none (Entry.item?_group cp), List.filterMap_cons_some (Entry.group?_group cp), List.map_cons]
      exact (ih.cons _).trans List.perm_middle.symm

theorem perm_of_parts (hitems : (E.filterMap Entry.item?).Perm (E'.filterMap Entry.item?))
    (hgroups : (E.filterMap Entry.group?).Perm (E'.filterMap Entry.group?)) : E.Perm E' :=
  calc E.Perm _ := perm_parts E
    List.Perm _ ((E'.filterMap Entry.item?).map .item ++ (E'.filterMap Entry.group?).map .group) :=
      (hitems.map _).append (hgroups.map _)
    List.Perm _ E' := (perm_parts E').symm

end Entries

/-! ## Where the next request begins -/

section Land

variable (pfx : String) (delimiter : Option String) (l : List Metadata)

/-- the rows before the `k`-th entry -/
def before (k : ℕ) : List Metadata :=
  l.takeWhile fun m => (entryOf pfx delimiter m).all fun e => e ∈ (entries (entryOf pfx delimiter) l).take k

/-- a request from an entry's name as the marker lists it again: a common prefix with a key that is longer than it -/
def Repeats : Entry → Prop
  | .item _ => False
  | .group cp => ∃ m ∈ l, entryOf pfx delimiter m = some (.group cp) ∧ m.key ≠ cp

open Classical in
/-- the entry at which the request after a page that ends before the `k`-th one begins -/
noncomputable def land (dialect : ListDialect) (k : ℕ) : ℕ :=
  match dialect with
  | .V2 => if Overrun pfx delimiter (before pfx delimiter l k) then k - 1 else k
  | .V1 =>
    match (entries (entryOf pfx delimiter) l)[k]? with
    | some (.group cp) => if Repeats pfx delimiter l (.group cp) then k else k + 1
    | _ => if ∃ e, (entries (entryOf pfx delimiter) l)[k - 1]? = some e ∧ Repeats pfx delimiter l e then k - 1 else k

/-- the rows past a request's start are all of their groups, or at least those past the cursors that skip these -/
def Sane (start : Option String) : Prop :=
  ∀ m ∈ past l start, ∀ cp, entryOf pfx delimiter m = some (.group cp) → ∀ a, start = some a → utf8 a ≤ utf8 (skip cp)

variable {pfx delimiter l}

theorem near_land (dialect : ListDialect) : Near (entries (entryOf pfx delimiter) l) (land pfx delimiter l dialect) := by
  intro k _ _
  cases dialect with
  | V2 =>
    simp only [land]
    split_ifs
    · exact Or.inl rfl
    · exact Or.inr (Or.inl rfl)
  | V1 =>
    simp only [land]
    split
    · split_ifs
      · exact Or.inr (Or.inl rfl)
      · exact Or.inr (Or.inr rfl)
    · split_ifs
      · exact Or.inl rfl
      · exact Or.inr (Or.inl rfl)

theorem sane_none : Sane pfx delimiter l none := fun _ _ _ _ _ ha => by cases ha

variable {w : Metadata} {e : Entry} (hl : Rows pfx l)
include hl

theorem sane_cursor (hw : w ∈ l) : Sane pfx delimiter l (some (cursorOf pfx delimiter w)) := by
  intro m hm cp hgroup a ha
  obtain ⟨hml, hpast⟩ := mem_past.1 hm
  cases ha
  rcases le_or_gt (utf8 w.key) (utf8 (skip cp)) with hle | hlt
  · exact cursorOf_le_skip hl hw hml hgroup hle
  · -- a row behind the cursor that skips the group, and before one of the group
    have hgw : entryOf pfx delimiter w = some (.group cp) := by
      rcases le_or_gt (utf8 m.key) (utf8 w.key) with hmw | hwm
      · obtain ⟨cp', hgw, hgm⟩ := hl.reread hw hml (hpast _ rfl) hmw
        rw [hgw, ← hgm, hgroup]
      · obtain ⟨cp', hgm, hgw⟩ := hl.reread hml hw (by rw [cursorOf_of_group hgroup]; exact hlt) hwm.le
        rw [hgw, ← hgm, hgroup]
    rw [cursorOf_of_group hgw]

theorem sane_name (he : e ∈ entries (entryOf pfx delimiter) l) : Sane pfx delimiter l (some e.name) := by
  obtain ⟨w, hw, hwe⟩ := mem_entries.1 he
  cases e with
  | item m =>
    have hcursor : cursorOf pfx delimiter w = w.key := cursorOf_of_not_group fun cp h => by
      rw [hwe] at h
      cases h
    rw [Entry.name, (entryOf_eq_item.1 hwe).1, ← hcursor]
    exact sane_cursor hl hw
  | group cp' =>
    intro m hm cp hgroup a ha
    obtain ⟨hml, hpast⟩ := mem_past.1 hm
    cases ha
    by_contra hlt
    have hp := prefix_of_between (prefix_skip cp) (hl.prefix_of_group hml hgroup) (not_le.1 hlt).le (hpast _ rfl).le
    have hsame := hl.group_of_prefix hml hgroup hw (hp.trans (hl.prefix_of_group hw hwe)) (entryOf_eq_group.1 hwe).1
    rw [hwe, Option.some_inj, Entry.group.injEq] at hsame
    rw [Entry.name, hsame] at hlt
    exact hlt (not_lt.1 (prefix_not_lt (prefix_skip cp)))

open Classical in
/-- past the name of an entry -/
theorem entries_past_name {l₁ l₂ : List Entry} (hentries : entries (entryOf pfx delimiter) l = l₁ ++ e :: l₂) :
    entries (entryOf pfx delimiter) (past l (some e.name)) = if Repeats pfx delimiter l e then e :: l₂ else l₂ := by
  cases e with
  | group cp =>
    rw [Entry.name, hl.entries_past_prefix hentries (List.prefix_refl _)]
    refine if_congr (exists_congr fun m => and_congr_right fun hm => and_congr_right fun hgroup => ?_) rfl rfl
    have hle : utf8 cp ≤ utf8 m.key := not_lt.1 (prefix_not_lt (hl.prefix_of_group hm hgroup))
    rw [lt_iff_le_and_ne, and_iff_right hle]
    exact ⟨fun h heq => h (by rw [heq]), fun h heq => h (utf8_inj heq).symm⟩
  | item m =>
    obtain ⟨w, hw, hwm⟩ := mem_entries.1 (show Entry.item m ∈ entries (entryOf pfx delimiter) l by rw [hentries]; simp)
    obtain ⟨rfl, -⟩ := entryOf_eq_item.1 hwm
    obtain ⟨A, B, hsplit⟩ := List.append_of_mem hw
    have hdiff : ∀ b, b ≠ m → entryOf pfx delimiter b ≠ some (.item m) := fun b hne hb => hne (entryOf_eq_item.1 hb).1.symm
    have hnodup := hsplit ▸ hl.nodup
    have hA : ∀ a ∈ A, a ≠ m := fun a ha heq => (List.nodup_append.1 hnodup).2.2 a ha m List.mem_cons_self heq
    have hB : ∀ b ∈ B, b ≠ m := by
      rintro b hb rfl
      exact (List.nodup_cons.1 (List.nodup_append.1 hnodup).2.1).1 hb
    have hall := hl.entries_split hsplit hwm fun a ha => hdiff a (hA a ha)
    have hcons : entries (entryOf pfx delimiter) (m :: B) = .item m :: entries (entryOf pfx delimiter) B := by
      rw [entries, fresh_cons_new hwm List.not_mem_nil]
      refine congrArg (Entry.item m :: ·) (fresh_eq_entries fun b hb e he hmem => ?_)
      rw [List.nil_append, List.mem_singleton] at hmem
      exact hdiff b (hB b hb) (hmem ▸ he)
    rw [hcons, hentries] at hall
    have hnodup' : (l₁ ++ Entry.item m :: l₂).Nodup := hentries ▸ nodup_entries
    rw [Entry.name, hl.past_key hsplit, ← (split_unique hnodup' hall).2]
    exact (if_neg fun h => h).symm

end Land

/-! ## From page to page -/

section Pages

variable {pfx : String} {delimiter : Option String} {l A B : List Metadata} {x : Metadata} {e : Entry} {c : String} {j m : ℕ}
  {E rest : List Entry} (hl : Rows pfx l)

/-- a page's end, by its position -/
theorem cut_position (hj : entries (entryOf pfx delimiter) l = (entries (entryOf pfx delimiter) l).take j ++ (E ++ e :: rest))
    (hjlen : j ≤ (entries (entryOf pfx delimiter) l).length) (hfull : E.length = m) :
    j + m < (entries (entryOf pfx delimiter) l).length ∧ (entries (entryOf pfx delimiter) l)[j + m]? = some e ∧
      ((entries (entryOf pfx delimiter) l).drop j).take m = E := by
  set L := entries (entryOf pfx delimiter) l with hL
  have hdrop : L.drop j = E ++ e :: rest := by
    have h := List.take_append_drop j L
    conv_rhs at h => rw [hj]
    exact List.append_cancel_left h
  have hlen := congrArg List.length hdrop
  rw [List.length_drop, List.length_append, List.length_cons] at hlen
  refine ⟨by omega, ?_, ?_⟩
  · rw [← List.getElem?_drop, hdrop, ← hfull, List.getElem?_append_right le_rfl, Nat.sub_self]
    rfl
  · rw [hdrop, ← hfull, List.take_left' rfl]

include hl

theorem before_eq (hsplit : l = A ++ x :: B) (hx : entryOf pfx delimiter x = some e) (hnew : ∀ a ∈ A, entryOf pfx delimiter a ≠ some e)
    {k : ℕ} (hk : (entries (entryOf pfx delimiter) l)[k]? = some e) :
    before pfx delimiter l k = A ∧ entries (entryOf pfx delimiter) A = (entries (entryOf pfx delimiter) l).take k ∧
      entries (entryOf pfx delimiter) (x :: B) = (entries (entryOf pfx delimiter) l).drop k := by
  obtain ⟨hlt, hget⟩ := List.getElem?_eq_some_iff.1 hk
  have hall := hl.entries_split hsplit hx hnew
  have hcons : entries (entryOf pfx delimiter) (x :: B) = e :: fresh (entryOf pfx delimiter) [e] B := fresh_cons_new hx List.not_mem_nil
  have hdrop : (entries (entryOf pfx delimiter) l).drop k = e :: (entries (entryOf pfx delimiter) l).drop (k + 1) := by
    rw [List.drop_eq_getElem_cons hlt, hget]
  have hsplit' : entries (entryOf pfx delimiter) l =
      (entries (entryOf pfx delimiter) l).take k ++ e :: (entries (entryOf pfx delimiter) l).drop (k + 1) := by
    rw [← hdrop, List.take_append_drop]
  rw [hcons] at hall
  obtain ⟨hA, hB⟩ := split_unique (hall ▸ nodup_entries) (hall.symm.trans hsplit')
  refine ⟨?_, hA, by rw [hcons, hdrop, hB]⟩
  rw [before]
  conv_lhs => rw [hsplit]
  have hpos : ∀ a ∈ A, ((entryOf pfx delimiter a).all fun e => e ∈ (entries (entryOf pfx delimiter) (A ++ x :: B)).take k) = true := by
    intro a ha
    rw [← hsplit, ← hA, Option.all_eq_true]
    intro e' he'
    exact decide_eq_true (mem_entries.2 ⟨a, ha, he'⟩)
  rw [List.takeWhile_append_of_pos hpos, List.takeWhile_cons_of_neg, List.append_nil]
  rw [← hsplit, ← hA, hx, Option.all_some, decide_eq_true_eq, mem_entries]
  rintro ⟨a, ha, hae⟩
  exact hnew a ha hae

/-- where a token leads -/
theorem entries_past_token (hresume : Resumes pfx delimiter l A x B c) (hx : entryOf pfx delimiter x = some e)
    (hnew : ∀ a ∈ A, entryOf pfx delimiter a ≠ some e) {k : ℕ} (hk : (entries (entryOf pfx delimiter) l)[k]? = some e) :
    entries (entryOf pfx delimiter) (past l (some c)) = (entries (entryOf pfx delimiter) l).drop (land pfx delimiter l .V2 k) := by
  obtain ⟨hbefore, hA, hB⟩ := before_eq hl hresume.split hx hnew hk
  rw [land, hbefore]
  by_cases hover : Overrun pfx delimiter A
  · obtain ⟨l₁, cp, hlast, -, hpast⟩ := entries_past_of_overrun hl hresume hx hnew hover
    have hall := hl.entries_split hresume.split hx hnew
    have hlen := congrArg List.length (hlast.symm.trans hA)
    rw [List.length_append, List.length_singleton, List.length_take_of_le (List.getElem?_eq_some_iff.1 hk).1.le] at hlen
    rw [if_pos hover, hpast, hall, hlast, ← hlen, Nat.add_sub_cancel, List.append_assoc, List.drop_left' rfl]
    rfl
  · rw [if_neg hover, past_of_not_overrun hl hresume hx hnew hover, hB]

/-- where a marker leads -/
theorem entries_past_marker {k : ℕ} (hpos : 0 < k) (hk : (entries (entryOf pfx delimiter) l)[k]? = some e)
    (hlast : E.getLast? = (entries (entryOf pfx delimiter) l)[k - 1]?) {name : String} (hname : markerBefore E e = some name) :
    entries (entryOf pfx delimiter) (past l (some name)) = (entries (entryOf pfx delimiter) l).drop (land pfx delimiter l .V1 k) ∧
      Sane pfx delimiter l (some name) := by
  set L := entries (entryOf pfx delimiter) l with hL
  have hsplit : ∀ {i : ℕ} {a : Entry}, L[i]? = some a → L = L.take i ++ a :: L.drop (i + 1) ∧ L.drop i = a :: L.drop (i + 1) := by
    intro i a ha
    obtain ⟨hlt, hget⟩ := List.getElem?_eq_some_iff.1 ha
    have hdrop : L.drop i = a :: L.drop (i + 1) := by rw [List.drop_eq_getElem_cons hlt, hget]
    exact ⟨by rw [← hdrop, List.take_append_drop], hdrop⟩
  cases e with
  | group cp =>
    obtain rfl := Option.some_inj.1 hname
    refine ⟨?_, sane_name hl (List.mem_of_getElem? hk)⟩
    have hpast := entries_past_name hl (hsplit hk).1
    rw [Entry.name] at hpast
    rw [hpast, land]
    simp only [← hL, hk]
    split_ifs
    · exact (hsplit hk).2.symm
    · rfl
  | item a =>
    obtain ⟨e', he', rfl⟩ := Option.map_eq_some_iff.1 hname
    have hk' := hlast.symm.trans he'
    refine ⟨?_, sane_name hl (List.mem_of_getElem? hk')⟩
    have hback : (∃ e, (entries (entryOf pfx delimiter) l)[k - 1]? = some e ∧ Repeats pfx delimiter l e) ↔ Repeats pfx delimiter l e' := by
      simp [← hL, hk']
    rw [entries_past_name hl (hsplit hk').1, land]
    simp only [← hL, hk]
    by_cases hrepeats : Repeats pfx delimiter l e'
    · rw [if_pos hrepeats, if_pos (hback.2 hrepeats), (hsplit hk').2]
    · rw [if_neg hrepeats, if_neg fun h => hrepeats (hback.1 h), Nat.sub_add_cancel hpos]

end Pages

/-! ## One answer -/

@[simp] theorem decodeCursor_encodeCursor (s : String) : decodeCursor (encodeCursor s) = some s := by
  simp [decodeCursor, encodeCursor, fromUtf8_utf8]

theorem one_le_pageKeys (maxKeys : Option ℕ) : 1 ≤ pageKeys maxKeys := by
  refine le_min ?_ (by norm_num)
  cases hfilter : maxKeys.filter fun n => 0 < n with
  | none => norm_num
  | some n => exact of_decide_eq_true (Option.filter_eq_some_iff.1 hfilter).2

/-- what a request answers that begins at the `j`-th entry -/
inductive Turn (pfx : String) (delimiter : Option String) (l : List Metadata) (dialect : ListDialect) (m j : ℕ) (r : ListBucketResult) : Prop where
  | last (hshort : (entries (entryOf pfx delimiter) l).length ≤ j + m) (hlast : r.isTruncated = false)
    (hitems : r.contents = ((entries (entryOf pfx delimiter) l).drop j).filterMap Entry.item?)
    (hprefixes : r.commonPrefixes = sortedSet (((entries (entryOf pfx delimiter) l).drop j).filterMap Entry.group?))
  | more (hlong : j + m < (entries (entryOf pfx delimiter) l).length) (hmore : r.isTruncated = true)
    (hitems : r.contents = (((entries (entryOf pfx delimiter) l).drop j).take m).filterMap Entry.item?)
    (hprefixes : r.commonPrefixes = sortedSet ((((entries (entryOf pfx delimiter) l).drop j).take m).filterMap Entry.group?))
    (c : Cursors) (start : String) (hnext : r.next dialect = some c) (hstart : dialect.startAfter c = .ok (some start))
    (hpast : entries (entryOf pfx delimiter) (past l (some start)) = (entries (entryOf pfx delimiter) l).drop (land pfx delimiter l dialect (j + m)))
    (hsane : Sane pfx delimiter l (some start))

section Answers

variable {J : Json} {U : CharTable} {t : Tables} {bucket pfx : String} {delimiter : Option String} {dialect : ListDialect}
  {maxKeys : Option ℕ} {l : List Metadata} {c : Cursors} {n j : ℕ} {r : ListBucketResult} {start : Option String} {cp : String}

theorem answer_eq_ok (hstart : dialect.startAfter c = .ok start) :
    answer J U t bucket pfx delimiter dialect maxKeys c n = some (.ok r) ↔ ∃ page,
      listPage J U t bucket pfx delimiter (pageKeys maxKeys) start n = some (.ok page) ∧ r = page.result dialect := by
  simp only [answer, hstart, Option.map_eq_some_iff]
  constructor
  · rintro ⟨page | page, hpage, hr⟩
    · cases hr
    · cases hr
      exact ⟨page, hpage, rfl⟩
  · rintro ⟨page, hpage, rfl⟩
    exact ⟨.ok page, hpage, rfl⟩

variable (hl : Rows pfx l)
include hl

theorem Outcome.turn {page : S3Page} {m : ℕ} (hm : 1 ≤ m) (h : Outcome pfx delimiter m l start page)
    (hj : j ≤ (entries (entryOf pfx delimiter) l).length)
    (hpast : entries (entryOf pfx delimiter) (past l start) = (entries (entryOf pfx delimiter) l).drop j) :
    Turn pfx delimiter l dialect m j (page.result dialect) := by
  cases h with
  | whole hshort =>
    rw [hpast] at hshort ⊢
    rw [List.length_drop] at hshort
    exact .last (by omega) rfl rfl rfl
  | cut E e rest A x B c hentries hfull hresume hx hnew =>
    have hall : entries (entryOf pfx delimiter) l = (entries (entryOf pfx delimiter) l).take j ++ (E ++ e :: rest) := by
      rw [← hentries, hpast, List.take_append_drop]
    obtain ⟨hlong, hk, hE⟩ := cut_position hall hj hfull
    have hx' : x ∈ l := by rw [hresume.split]; simp
    cases dialect with
    | V2 =>
      obtain ⟨w, hw, hc, -⟩ := hresume.behind
      have hwl : w ∈ l := by rw [hresume.split]; exact List.mem_append_left _ hw
      refine .more hlong rfl (by rw [hE]; rfl) (by rw [hE]; rfl)
        ⟨none, some (encodeCursor c), none⟩ c rfl ?_ (entries_past_token hl hresume hx hnew hk) (hc ▸ sane_cursor hl hwl)
      simp [ListDialect.startAfter]
    | V1 =>
      have hpos : 0 < j + m := by omega
      have hne : E ≠ [] := List.ne_nil_of_length_pos (by omega)
      have hlast : E.getLast? = (entries (entryOf pfx delimiter) l)[j + m - 1]? := by
        rw [List.getLast?_eq_getElem?, ← hE, List.getElem?_take_of_lt, List.getElem?_drop]
        · rw [hE, hfull, Nat.add_sub_assoc hm]
        · rw [hE]
          omega
      obtain ⟨name, hname⟩ : ∃ name, markerBefore E e = some name := by
        cases e with
        | group cp => exact ⟨cp, rfl⟩
        | item a => exact ⟨_, by rw [markerBefore, List.getLast?_eq_some_getLast hne]; rfl⟩
      obtain ⟨hpast', hsane⟩ := entries_past_marker hl hpos hk hlast hname
      refine .more hlong rfl (by rw [hE]; rfl) (by rw [hE]; rfl)
        ⟨some name, none, none⟩ name ?_ rfl hpast' hsane
      simp [ListBucketResult.next, S3Page.result, hname]

variable (hfetch : Fetches J U t bucket pfx l)
include hfetch

theorem answer_turn (hstart : dialect.startAfter c = .ok start) (hj : j ≤ (entries (entryOf pfx delimiter) l).length)
    (hpast : entries (entryOf pfx delimiter) (past l start) = (entries (entryOf pfx delimiter) l).drop j)
    (hr : answer J U t bucket pfx delimiter dialect maxKeys c n = some (.ok r)) :
    Turn pfx delimiter l dialect (pageKeys maxKeys) j r := by
  obtain ⟨page, hpage, rfl⟩ := (answer_eq_ok hstart).1 hr
  obtain ⟨page', hok, houtcome⟩ := listFrom_outcome hfetch hl (one_le_pageKeys maxKeys) progress_start hpage
  cases hok
  exact houtcome.turn hl (one_le_pageKeys maxKeys) hj hpast

/-- a stuck group is in no answer -/
theorem answer_not_listed (hstart : dialect.startAfter c = .ok start) (hstuck : Stuck pfx delimiter l cp) (hsane : Sane pfx delimiter l start)
    (hr : answer J U t bucket pfx delimiter dialect maxKeys c n = some (.ok r)) : cp ∉ r.commonPrefixes := by
  obtain ⟨page, hpage, rfl⟩ := (answer_eq_ok hstart).1 hr
  by_cases hgroup : ∃ m ∈ past l start, entryOf pfx delimiter m = some (.group cp)
  · obtain ⟨m, hm, hmg⟩ := hgroup
    exact listFrom_not_listed hfetch hl (one_le_pageKeys maxKeys) hstuck progress_start (hsane m hm cp hmg) hpage
  · -- none of its keys is past the start
    intro hcp
    obtain ⟨page', hok, houtcome⟩ := listFrom_outcome hfetch hl (one_le_pageKeys maxKeys) progress_start hpage
    cases hok
    have hmem : Entry.group cp ∈ entries (entryOf pfx delimiter) (past l start) := by
      cases houtcome with
      | whole hshort => exact mem_groups.1 (List.mem_mergeSort.1 hcp)
      | cut E e rest A x B c hentries hfull hresume hx hnew =>
        rw [hentries]
        exact List.mem_append_left _ (mem_groups.1 (List.mem_mergeSort.1 hcp))
    exact hgroup (mem_entries.1 hmem)

theorem answer_ends (hstuck : ∀ cp, ¬Stuck pfx delimiter l cp) (c : Cursors) :
    ∃ n r, answer J U t bucket pfx delimiter dialect maxKeys c n = some r := by
  cases hstart : dialect.startAfter c with
  | error e => exact ⟨0, _, by rw [answer, hstart]⟩
  | ok start =>
    obtain ⟨n, r, hr⟩ := listPage_ends hfetch hl hstuck start
    exact ⟨n, _, by rw [answer, hstart]; exact congrArg (Option.map _) hr⟩

theorem answer_ok (hstuck : ∀ cp, ¬Stuck pfx delimiter l cp) (hstart : dialect.startAfter c = .ok start) :
    ∃ n r, answer J U t bucket pfx delimiter dialect maxKeys c n = some (.ok r) := by
  obtain ⟨n, r, hr⟩ := listPage_ends hfetch hl hstuck start
  obtain ⟨page, rfl, -⟩ := listFrom_outcome hfetch hl (one_le_pageKeys maxKeys) progress_start hr
  exact ⟨n, _, (answer_eq_ok hstart).2 ⟨page, hr, rfl⟩⟩

end Answers

/-! ## All pages -/

section Follow

variable {J : Json} {U : CharTable} {t : Tables} {bucket pfx : String} {delimiter : Option String} {dialect : ListDialect}
  {maxKeys : Option ℕ} {l : List Metadata} {c : Cursors} {j : ℕ} {start : Option String} {items : List Metadata} {prefixes : List String}
  {out : List Entry} (hl : Rows pfx l) (hfetch : Fetches J U t bucket pfx l)

theorem land_le {k : ℕ} (hpos : 0 < k) (hlt : k < (entries (entryOf pfx delimiter) l).length) :
    land pfx delimiter l dialect k ≤ (entries (entryOf pfx delimiter) l).length := by
  rcases near_land dialect k hpos hlt with h | h | h <;> omega

theorem sortedSet_perm (common : List String) : (sortedSet common).Perm common := List.mergeSort_perm _ _

include hl hfetch

/-- the answers that a client gets are turns, and no group is among them at which a request gets stuck -/
theorem Follows.turns (h : Follows J U t bucket pfx delimiter dialect maxKeys c items prefixes) (hstart : dialect.startAfter c = .ok start)
    (hj : j ≤ (entries (entryOf pfx delimiter) l).length)
    (hpast : entries (entryOf pfx delimiter) (past l start) = (entries (entryOf pfx delimiter) l).drop j)
    (hsane : Sane pfx delimiter l start) :
    (∃ out, Turns (entries (entryOf pfx delimiter) l) (pageKeys maxKeys) (land pfx delimiter l dialect) j out ∧
      items = out.filterMap Entry.item? ∧ prefixes.Perm (out.filterMap Entry.group?)) ∧
      ∀ cp, Stuck pfx delimiter l cp → cp ∉ prefixes := by
  induction h generalizing start j with
  | last c n r hr hlast =>
    refine ⟨?_, fun cp hstuck => answer_not_listed hl hfetch hstart hstuck hsane hr⟩
    cases answer_turn hl hfetch hstart hj hpast hr with
    | last hshort _ hitems hprefixes => exact ⟨_, .last j hshort, hitems, hprefixes ▸ sortedSet_perm _⟩
    | more _ hmore =>
      rw [hlast] at hmore
      cases hmore
  | more c c' n r items prefixes hr hmore hnext hrest ih =>
    cases answer_turn hl hfetch hstart hj hpast hr with
    | last _ hlast =>
      rw [hmore] at hlast
      cases hlast
    | more hlong _ hitems hprefixes c'' start' hnext' hstart' hpast' hsane' =>
      cases hnext.symm.trans hnext'
      have hpos : 0 < j + pageKeys maxKeys := Nat.add_pos_right j (one_le_pageKeys maxKeys)
      obtain ⟨⟨out, hturns, hout, hout'⟩, hstuck⟩ := ih hstart' (land_le hpos hlong) hpast' hsane'
      refine ⟨⟨_, .more j out hlong hturns, ?_, ?_⟩, fun cp hcp hmem => ?_⟩
      · rw [List.filterMap_append, hitems, hout]
      · rw [List.filterMap_append, hprefixes]
        exact (sortedSet_perm _).append hout'
      · rcases List.mem_append.1 hmem with h | h
        · exact answer_not_listed hl hfetch hstart hcp hsane hr h
        · exact hstuck cp hcp h

/-- where no request gets stuck, a client gets the turns -/
theorem follows_of_turns (hstuck : ∀ cp, ¬Stuck pfx delimiter l cp)
    (h : Turns (entries (entryOf pfx delimiter) l) (pageKeys maxKeys) (land pfx delimiter l dialect) j out)
    (hstart : dialect.startAfter c = .ok start) (hj : j ≤ (entries (entryOf pfx delimiter) l).length)
    (hpast : entries (entryOf pfx delimiter) (past l start) = (entries (entryOf pfx delimiter) l).drop j) :
    ∃ prefixes, Follows J U t bucket pfx delimiter dialect maxKeys c (out.filterMap Entry.item?) prefixes ∧
      prefixes.Perm (out.filterMap Entry.group?) := by
  induction h generalizing c start with
  | last j hshort =>
    obtain ⟨n, r, hr⟩ : ∃ n r, answer J U t bucket pfx delimiter dialect maxKeys c n = some (.ok r) := answer_ok hl hfetch hstuck hstart
    cases answer_turn hl hfetch hstart hj hpast hr with
    | last _ hlast hitems hprefixes =>
      refine ⟨r.commonPrefixes, ?_, hprefixes ▸ sortedSet_perm _⟩
      rw [← hitems]
      exact .last c n r hr hlast
    | more hlong => omega
  | more j out hlong _ ih =>
    obtain ⟨n, r, hr⟩ : ∃ n r, answer J U t bucket pfx delimiter dialect maxKeys c n = some (.ok r) := answer_ok hl hfetch hstuck hstart
    cases answer_turn hl hfetch hstart hj hpast hr with
    | last hshort => omega
    | more _ hmore hitems hprefixes c' start' hnext hstart' hpast' _ =>
      have hpos : 0 < j + pageKeys maxKeys := Nat.add_pos_right j (one_le_pageKeys maxKeys)
      obtain ⟨prefixes, hfollows, hperm⟩ := ih hstart' (land_le hpos hlong) hpast'
      refine ⟨r.commonPrefixes ++ prefixes, ?_, ?_⟩
      · rw [List.filterMap_append, ← hitems]
        exact .more c c' n r _ prefixes hr hmore hnext hfollows
      · rw [List.filterMap_append, hprefixes]
        exact (sortedSet_perm _).append hperm

omit hl hfetch in
theorem startAfter_none : dialect.startAfter Cursors.none = .ok none := by cases dialect <;> rfl

omit hl hfetch in
theorem past_none : past l none = l := filter_past_none _ _ _

/-- pages that have every entry once: no request gets stuck, and every page begins where the page before it ended -/
theorem Follows.lands (h : Follows J U t bucket pfx delimiter dialect maxKeys Cursors.none items prefixes)
    (hitems : items.Perm ((entries (entryOf pfx delimiter) l).filterMap Entry.item?))
    (hprefixes : prefixes.Perm ((entries (entryOf pfx delimiter) l).filterMap Entry.group?)) :
    (∀ cp, ¬Stuck pfx delimiter l cp) ∧ ∀ k, 1 ≤ k → k * pageKeys maxKeys < (entries (entryOf pfx delimiter) l).length →
      land pfx delimiter l dialect (k * pageKeys maxKeys) = k * pageKeys maxKeys := by
  obtain ⟨⟨out, hturns, hout, hout'⟩, hstuck⟩ := h.turns hl hfetch startAfter_none (Nat.zero_le _) (by rw [past_none, List.drop_zero]) sane_none
  have hperm : out.Perm (entries (entryOf pfx delimiter) l) := perm_of_parts (hout ▸ hitems) (hout'.symm.trans hprefixes)
  refine ⟨fun cp hcp => hstuck cp hcp (hprefixes.mem_iff.2 ?_), ?_⟩
  · obtain ⟨-, w, hw, hgroup⟩ := id hcp
    exact mem_groups_entries.2 ⟨w, mem_of_past (List.mem_of_getElem? hw), hgroup⟩
  · exact (turns_exact_iff (one_le_pageKeys maxKeys) nodup_entries (near_land dialect)).1 ⟨out, hturns, hperm⟩

/-- and then they have them in order -/
theorem follows_of_lands (hstuck : ∀ cp, ¬Stuck pfx delimiter l cp)
    (h : ∀ k, 1 ≤ k → k * pageKeys maxKeys < (entries (entryOf pfx delimiter) l).length →
      land pfx delimiter l dialect (k * pageKeys maxKeys) = k * pageKeys maxKeys) :
    ∃ prefixes, Follows J U t bucket pfx delimiter dialect maxKeys Cursors.none
      ((entries (entryOf pfx delimiter) l).filterMap Entry.item?) prefixes ∧
        prefixes.Perm ((entries (entryOf pfx delimiter) l).filterMap Entry.group?) := by
  have hturns := turns_of_lands (one_le_pageKeys maxKeys) h 0
  rw [Nat.zero_mul] at hturns
  exact follows_of_turns hl hfetch hstuck hturns startAfter_none (Nat.zero_le _) (by rw [past_none, List.drop_zero])

end Follow

/-! ## Exactly once -/

section Exact

variable (J : Json) (t : Tables) (bucket pfx : String) (delimiter : Option String)

/-- what a listing shows, as a key or in a group -/
def Shown (m : Metadata) : Prop := Row J t m ∧ m.bucket = bucket ∧ startsWith m.key pfx = true ∧ isReservedKey m.key = false

/-- what all pages have to have -/
structure Exact (items : List Metadata) (prefixes : List String) : Prop where
  nodup_items : items.Nodup
  mem_items : ∀ m, m ∈ items ↔ Shown J t bucket pfx m ∧ rollUp pfx delimiter m.key = none
  nodup_prefixes : prefixes.Nodup
  mem_prefixes : ∀ cp, cp ∈ prefixes ↔ ∃ m, Shown J t bucket pfx m ∧ rollUp pfx delimiter m.key = some cp

/-- where pages end if all goes well -/
def PageEnd (maxKeys : Option ℕ) (k : ℕ) : Prop :=
  ∃ i, 1 ≤ i ∧ k = i * pageKeys maxKeys ∧ k < (entries (entryOf pfx delimiter) (listing J t bucket (some pfx))).length

/-- a marker that leads to the `k`-th entry: the common prefix there has a key longer than itself; or there is a key there, and before
it no such common prefix -/
structure Marks (l : List Metadata) (k : ℕ) : Prop where
  group : ∀ cp, (entries (entryOf pfx delimiter) l)[k]? = some (.group cp) → Repeats pfx delimiter l (.group cp)
  item : ∀ m, (entries (entryOf pfx delimiter) l)[k]? = some (.item m) →
    ∀ e, (entries (entryOf pfx delimiter) l)[k - 1]? = some e → ¬Repeats pfx delimiter l e

variable {J t bucket pfx delimiter} {U : CharTable} {maxKeys : Option ℕ} {l : List Metadata} {k : ℕ} {items : List Metadata}
  {prefixes : List String} {dialect : ListDialect}

theorem PageEnd.pos (h : PageEnd J t bucket pfx delimiter maxKeys k) : 0 < k := by
  obtain ⟨i, hi, rfl, -⟩ := h
  exact Nat.mul_pos hi (one_le_pageKeys maxKeys)

theorem land_token (hpos : 0 < k) : land pfx delimiter l .V2 k = k ↔ ¬Overrun pfx delimiter (before pfx delimiter l k) := by
  rw [land]
  split_ifs with h
  · simp only [h, not_true, iff_false]
    omega
  · simp [h]

theorem land_marker (hpos : 0 < k) (hlt : k < (entries (entryOf pfx delimiter) l).length) :
    land pfx delimiter l .V1 k = k ↔ Marks pfx delimiter l k := by
  have hk := List.getElem?_eq_getElem hlt
  rw [land]
  cases he : (entries (entryOf pfx delimiter) l)[k] with
  | group cp =>
    rw [he] at hk
    simp only [hk]
    split_ifs with hrepeats
    · refine iff_of_true rfl ⟨fun cp' h => ?_, fun m h => ?_⟩
      · rw [hk] at h
        cases h
        exact hrepeats
      · rw [hk] at h
        cases h
    · exact iff_of_false (Nat.succ_ne_self k) fun h => hrepeats (h.group cp hk)
  | item m =>
    rw [he] at hk
    simp only [hk]
    split_ifs with hrepeats
    · obtain ⟨e, hprev, hrepeats⟩ := hrepeats
      exact iff_of_false (Nat.sub_lt hpos Nat.one_pos).ne fun h => h.item m hk e hprev hrepeats
    · refine iff_of_true rfl ⟨fun cp h => ?_, fun _ _ e hprev hrep => hrepeats ⟨e, hprev, hrep⟩⟩
      rw [hk] at h
      cases h

theorem exact_iff (ht : Keyed J U t) (hshort : ∀ m, Row J t m → Short m.bucket) :
    Exact J t bucket pfx delimiter items prefixes ↔
      items.Perm ((entries (entryOf pfx delimiter) (listing J t bucket (some pfx))).filterMap Entry.item?) ∧
        prefixes.Perm ((entries (entryOf pfx delimiter) (listing J t bucket (some pfx))).filterMap Entry.group?) := by
  have hl : Rows pfx (listing J t bucket (some pfx)) := rows_listing ht hshort
  have hshown : ∀ m, m ∈ listing J t bucket (some pfx) ∧ isReservedKey m.key = false ↔ Shown J t bucket pfx m := by
    intro m
    rw [mem_listing ht hshort, Shown, Option.all_some, and_assoc, and_assoc]
  have hitem : ∀ m, m ∈ (entries (entryOf pfx delimiter) (listing J t bucket (some pfx))).filterMap Entry.item? ↔
      Shown J t bucket pfx m ∧ rollUp pfx delimiter m.key = none := by
    intro m
    rw [items_entries hl, List.mem_filter, decide_eq_true_eq, entryOf_eq_item, ← hshown]
    tauto
  have hgroup : ∀ cp, cp ∈ (entries (entryOf pfx delimiter) (listing J t bucket (some pfx))).filterMap Entry.group? ↔
      ∃ m, Shown J t bucket pfx m ∧ rollUp pfx delimiter m.key = some cp := by
    intro cp
    rw [mem_groups_entries]
    refine exists_congr fun m => ?_
    rw [entryOf_eq_group, ← hshown]
    tauto
  have hnodup : ((entries (entryOf pfx delimiter) (listing J t bucket (some pfx))).filterMap Entry.item?).Nodup := by
    rw [items_entries hl]
    exact hl.nodup.filter _
  constructor
  · intro h
    refine ⟨(List.perm_ext_iff_of_nodup h.nodup_items hnodup).2 fun m => ?_,
      (List.perm_ext_iff_of_nodup h.nodup_prefixes (nodup_groups nodup_entries)).2 fun cp => ?_⟩
    · rw [h.mem_items, hitem]
    · rw [h.mem_prefixes, hgroup]
  · rintro ⟨hitems, hprefixes⟩
    refine ⟨hitems.nodup_iff.2 hnodup, fun m => ?_, hprefixes.nodup_iff.2 (nodup_groups nodup_entries), fun cp => ?_⟩
    · rw [hitems.mem_iff, hitem]
    · rw [hprefixes.mem_iff, hgroup]

/-- no request gets stuck, and every page begins where the page before it ended -/
structure Fits (J : Json) (t : Tables) (bucket pfx : String) (delimiter : Option String) (dialect : ListDialect) (maxKeys : Option ℕ) :
    Prop where
  moves : ∀ cp, ¬Stuck pfx delimiter (listing J t bucket (some pfx)) cp
  lands : ∀ k, PageEnd J t bucket pfx delimiter maxKeys k → land pfx delimiter (listing J t bucket (some pfx)) dialect k = k

section Complete

variable (ht : Keyed J U t) (hshort : ∀ m, Row J t m → Short m.bucket) (hbucket : validateBucket U bucket = .ok ())
include ht hshort hbucket

theorem Follows.fits (h : Follows J U t bucket pfx delimiter dialect maxKeys Cursors.none items prefixes)
    (hexact : Exact J t bucket pfx delimiter items prefixes) : Fits J t bucket pfx delimiter dialect maxKeys := by
  obtain ⟨hitems, hprefixes⟩ := (exact_iff ht hshort).1 hexact
  obtain ⟨hstuck, hlands⟩ := h.lands (rows_listing ht hshort) (fetches_listing ht hbucket) hitems hprefixes
  refine ⟨hstuck, ?_⟩
  rintro k ⟨i, hi, rfl, hlt⟩
  exact hlands i hi hlt

theorem Fits.follows (h : Fits J t bucket pfx delimiter dialect maxKeys) :
    ∃ items prefixes, Follows J U t bucket pfx delimiter dialect maxKeys Cursors.none items prefixes ∧
      Exact J t bucket pfx delimiter items prefixes ∧ items.Pairwise fun a b => utf8 a.key < utf8 b.key := by
  have hl : Rows pfx (listing J t bucket (some pfx)) := rows_listing ht hshort
  obtain ⟨prefixes, hfollows, hprefixes⟩ := follows_of_lands hl (fetches_listing ht hbucket) h.moves
    fun i hi hlt => h.lands _ ⟨i, hi, rfl, hlt⟩
  refine ⟨_, prefixes, hfollows, (exact_iff ht hshort).2 ⟨List.Perm.refl _, hprefixes⟩, ?_⟩
  rw [items_entries hl]
  exact hl.sorted.sublist List.filter_sublist

/-- **`ListObjectsV2` is exact where the cursors skip whole groups.** Every request ends, and a client that follows the tokens gets
every key that is not rolled up once and in order, every common prefix once, and nothing else, exactly if no group has a window of keys
past the cursor that is to skip it with more rows behind them, and no page ends behind a key of a group that is past this cursor. -/
theorem listObjectsV2_exact_iff (pfx : String) (delimiter : Option String) (maxKeys : Option ℕ) :
    ((∀ c, ∃ n r, answer J U t bucket pfx delimiter .V2 maxKeys c n = some r) ∧
        ∃ items prefixes, Follows J U t bucket pfx delimiter .V2 maxKeys Cursors.none items prefixes ∧
          Exact J t bucket pfx delimiter items prefixes ∧ items.Pairwise fun a b => utf8 a.key < utf8 b.key) ↔
      (∀ cp, ¬Stuck pfx delimiter (listing J t bucket (some pfx)) cp) ∧ ∀ k, PageEnd J t bucket pfx delimiter maxKeys k →
        ¬Overrun pfx delimiter (before pfx delimiter (listing J t bucket (some pfx)) k) := by
  constructor
  · rintro ⟨-, items, prefixes, hfollows, hexact, -⟩
    have hfits := hfollows.fits ht hshort hbucket hexact
    exact ⟨hfits.moves, fun k hk => (land_token hk.pos).1 (hfits.lands k hk)⟩
  · rintro ⟨hmoves, hover⟩
    have hfits : Fits J t bucket pfx delimiter .V2 maxKeys := ⟨hmoves, fun k hk => (land_token hk.pos).2 (hover k hk)⟩
    exact ⟨answer_ends (rows_listing ht hshort) (fetches_listing ht hbucket) hmoves, hfits.follows ht hshort hbucket⟩

/-- **`ListObjects` is exact where the markers lead on.** A client that passes `NextMarker` on comes to an end with every key that is
not rolled up and every common prefix exactly once, exactly if no request gets stuck and, wherever a page ends, its marker leads to the
entry that comes next. -/
theorem listObjects_exact_iff (pfx : String) (delimiter : Option String) (maxKeys : Option ℕ) :
    (∃ items prefixes, Follows J U t bucket pfx delimiter .V1 maxKeys Cursors.none items prefixes ∧
        Exact J t bucket pfx delimiter items prefixes) ↔
      (∀ cp, ¬Stuck pfx delimiter (listing J t bucket (some pfx)) cp) ∧ ∀ k, PageEnd J t bucket pfx delimiter maxKeys k →
        Marks pfx delimiter (listing J t bucket (some pfx)) k := by
  have hlt : ∀ {k}, PageEnd J t bucket pfx delimiter maxKeys k →
      k < (entries (entryOf pfx delimiter) (listing J t bucket (some pfx))).length := by
    rintro k ⟨_, _, _, h⟩
    exact h
  constructor
  · rintro ⟨items, prefixes, hfollows, hexact⟩
    have hfits := hfollows.fits ht hshort hbucket hexact
    exact ⟨hfits.moves, fun k hk => (land_marker hk.pos (hlt hk)).1 (hfits.lands k hk)⟩
  · rintro ⟨hmoves, hmarks⟩
    have hfits : Fits J t bucket pfx delimiter .V1 maxKeys := ⟨hmoves, fun k hk => (land_marker hk.pos (hlt hk)).2 (hmarks k hk)⟩
    obtain ⟨items, prefixes, hfollows, hexact, -⟩ := hfits.follows ht hshort hbucket
    exact ⟨items, prefixes, hfollows, hexact⟩

end Complete

end Exact

/-! ## Pages that go round in circles -/

/-- a bucket with two objects -/
noncomputable def twoKeys (a b : String) : Tables :=
  upsert sampleJson (sampleRow (manyA 1) b 1 []) (upsert sampleJson (sampleRow (manyA 1) a 1 []) Tables.empty)

section TwoKeys

variable {a b : String}

theorem keyed_twoKeys (ha : Buckets.validateKey a = .ok ()) (hb : Buckets.validateKey b = .ok ()) :
    Keyed sampleJson asciiLetters (twoKeys a b) :=
  (keyed_empty.upsert (valid_manyA Nat.one_pos) ha).upsert (valid_manyA Nat.one_pos) hb

theorem short_of_validateKey (ha : Buckets.validateKey a = .ok ()) : Short a :=
  (length_le_of_validateKey ha).trans_lt (by norm_num)

variable (ha : Buckets.validateKey a = .ok ()) (hb : Buckets.validateKey b = .ok ()) (hlt : utf8 a < utf8 b)
include ha hb hlt

theorem row_twoKeys (m : Metadata) :
    Row sampleJson (twoKeys a b) m ↔ m ∈ [sampleRow (manyA 1) a 1 [], sampleRow (manyA 1) b 1 []] := by
  rw [twoKeys, row_upsert, row_upsert, List.mem_pair]
  constructor
  · rintro (rfl | ⟨rfl | ⟨h, -⟩, -⟩)
    · exact Or.inr rfl
    · exact Or.inl rfl
    · exact absurd h not_row_empty
  · rintro (rfl | rfl)
    · refine Or.inr ⟨Or.inl rfl, fun h => hlt.ne ?_⟩
      exact congrArg utf8 (encodeObjectKey_inj short_manyA (short_of_validateKey hb) short_manyA (short_of_validateKey ha) h).2.symm
    · exact Or.inl rfl

theorem short_twoKeys (m : Metadata) (hm : Row sampleJson (twoKeys a b) m) : Short m.bucket := by
  rcases List.mem_pair.1 ((row_twoKeys ha hb hlt m).1 hm) with rfl | rfl
  · exact short_manyA
  · exact short_manyA

theorem listing_twoKeys : listing sampleJson (twoKeys a b) (manyA 1) (some "") =
    [sampleRow (manyA 1) a 1 [], sampleRow (manyA 1) b 1 []] := by
  have hsorted : (listing sampleJson (twoKeys a b) (manyA 1) (some "")).Pairwise fun m m' => utf8 m.key < utf8 m'.key :=
    pairwise_listing (keyed_twoKeys ha hb) (short_twoKeys ha hb hlt)
  have hpair : [sampleRow (manyA 1) a 1 [], sampleRow (manyA 1) b 1 []].Pairwise fun m m' => utf8 m.key < utf8 m'.key :=
    List.pairwise_pair.2 hlt
  have hnodup : ∀ {l : List Metadata}, (l.Pairwise fun m m' => utf8 m.key < utf8 m'.key) → l.Nodup := by
    intro l hl
    refine hl.imp ?_
    rintro m m' h rfl
    exact lt_irrefl _ h
  refine ((List.perm_ext_iff_of_nodup (hnodup hsorted) (hnodup hpair)).2 fun m => ?_).eq_of_pairwise
    (fun m m' _ _ h h' => absurd h' (lt_asymm h)) hsorted hpair
  rw [mem_listing (keyed_twoKeys ha hb) (short_twoKeys ha hb hlt), row_twoKeys ha hb hlt]
  refine and_iff_left_of_imp fun hm => ?_
  rcases List.mem_pair.1 hm with rfl | rfl
  · exact ⟨rfl, startsWith_iff.2 List.nil_prefix⟩
  · exact ⟨rfl, startsWith_iff.2 List.nil_prefix⟩

/-- a group and a key behind it -/
theorem entries_twoKeys {cp : String} (hgroup : rollUp "" (some "/") a = some cp) (hitem : rollUp "" (some "/") b = none)
    (ha' : isReservedKey a = false) (hb' : isReservedKey b = false) :
    entries (entryOf "" (some "/")) (listing sampleJson (twoKeys a b) (manyA 1) (some "")) =
      [.group cp, .item (sampleRow (manyA 1) b 1 [])] := by
  have hentry : entryOf "" (some "/") (sampleRow (manyA 1) a 1 []) = some (.group cp) := entryOf_eq_group.2 ⟨ha', hgroup⟩
  have hentry' : entryOf "" (some "/") (sampleRow (manyA 1) b 1 []) = some (.item (sampleRow (manyA 1) b 1 [])) :=
    entryOf_eq_item.2 ⟨rfl, hb', hitem⟩
  rw [listing_twoKeys ha hb hlt, entries, fresh_cons_new hentry List.not_mem_nil, fresh_cons_new hentry' (by simp), fresh_nil]

theorem rows_twoKeys : Rows "" (listing sampleJson (twoKeys a b) (manyA 1) (some "")) :=
  rows_listing (keyed_twoKeys ha hb) (short_twoKeys ha hb hlt)

theorem fits_twoKeys {dialect : ListDialect} {items : List Metadata} {prefixes : List String}
    (hfollows : Follows sampleJson asciiLetters (twoKeys a b) (manyA 1) "" (some "/") dialect (some 1) Cursors.none items prefixes)
    (hexact : Exact sampleJson (twoKeys a b) (manyA 1) "" (some "/") items prefixes) {e e' : Entry}
    (hentries : entries (entryOf "" (some "/")) (listing sampleJson (twoKeys a b) (manyA 1) (some "")) = [e, e']) :
    land "" (some "/") (listing sampleJson (twoKeys a b) (manyA 1) (some "")) dialect 1 = 1 := by
  have hfits := hfollows.fits (keyed_twoKeys ha hb) (short_twoKeys ha hb hlt) (valid_manyA Nat.one_pos) hexact
  refine hfits.lands 1 ⟨1, le_rfl, rfl, ?_⟩
  rw [hentries]
  exact Nat.one_lt_two

end TwoKeys

theorem k_lt_l : utf8 "k" < utf8 "l" := by decide +kernel

/-- the first key is in the group `a/`, the second is not in a group -/
def Grouped (a b : String) : Prop :=
  Buckets.validateKey a = .ok () ∧ Buckets.validateKey b = .ok () ∧ utf8 a < utf8 b ∧ rollUp "" (some "/") a = some "a/" ∧
    rollUp "" (some "/") b = none ∧ isReservedKey a = false ∧ isReservedKey b = false

/-- a key that is past the cursor that is to skip its group -/
def pastSkip : String := (skip "a/").push 'x'

theorem grouped : (Grouped pastSkip "b" ∧ utf8 (skip "a/") < utf8 pastSkip) ∧ Grouped "a/1" "b" := by
  unfold Grouped
  decide +kernel

theorem listObjectsV2_exact_twoKeys :
    ((∀ c, ∃ n r, answer sampleJson asciiLetters (twoKeys "k" "l") (manyA 1) "" (some "/") .V2 (some 1) c n = some r) ∧
        ∃ items prefixes, Follows sampleJson asciiLetters (twoKeys "k" "l") (manyA 1) "" (some "/") .V2 (some 1) Cursors.none items
            prefixes ∧
          Exact sampleJson (twoKeys "k" "l") (manyA 1) "" (some "/") items prefixes ∧
          items.Pairwise fun a b => utf8 a.key < utf8 b.key) ↔
      (∀ cp, ¬Stuck "" (some "/") (listing sampleJson (twoKeys "k" "l") (manyA 1) (some "")) cp) ∧
        ∀ k, PageEnd sampleJson (twoKeys "k" "l") (manyA 1) "" (some "/") (some 1) k →
          ¬Overrun "" (some "/") (before "" (some "/") (listing sampleJson (twoKeys "k" "l") (manyA 1) (some "")) k) :=
  listObjectsV2_exact_iff (keyed_twoKeys valid_key.1 valid_key.2) (short_twoKeys valid_key.1 valid_key.2 k_lt_l)
    (valid_manyA Nat.one_pos) "" (some "/") (some 1)

/-- **A token that leads back.** With the keys `a/U+10FFFFx` and `b`, one entry per page and the delimiter `/`, the token after the
common prefix `a/` leads to this common prefix again. -/
theorem token_leads_back :
    Keyed sampleJson asciiLetters (twoKeys pastSkip "b") ∧ (∀ m, Row sampleJson (twoKeys pastSkip "b") m → Short m.bucket) ∧
      validateBucket asciiLetters (manyA 1) = .ok () ∧
      ¬((∀ c, ∃ n r, answer sampleJson asciiLetters (twoKeys pastSkip "b") (manyA 1) "" (some "/") .V2 (some 1) c n = some r) ∧
        ∃ items prefixes, Follows sampleJson asciiLetters (twoKeys pastSkip "b") (manyA 1) "" (some "/") .V2 (some 1) Cursors.none items
            prefixes ∧
          Exact sampleJson (twoKeys pastSkip "b") (manyA 1) "" (some "/") items prefixes ∧
          items.Pairwise fun a b => utf8 a.key < utf8 b.key) := by
  obtain ⟨⟨valid_pastSkip, valid_b, pastSkip_lt_b, hroll, rollUp_b, hshown, hshown'⟩, hpast⟩ := grouped.1
  refine ⟨keyed_twoKeys valid_pastSkip valid_b, short_twoKeys valid_pastSkip valid_b pastSkip_lt_b, valid_manyA Nat.one_pos, ?_⟩
  rintro ⟨-, items, prefixes, hfollows, hexact, -⟩
  have hgroup : entryOf "" (some "/") (sampleRow (manyA 1) pastSkip 1 []) = some (.group "a/") := entryOf_eq_group.2 ⟨hshown, hroll⟩
  have hitem : entryOf "" (some "/") (sampleRow (manyA 1) "b" 1 []) = some (.item (sampleRow (manyA 1) "b" 1 [])) :=
    entryOf_eq_item.2 ⟨rfl, hshown', rollUp_b⟩
  have hentries := entries_twoKeys valid_pastSkip valid_b pastSkip_lt_b hroll rollUp_b hshown hshown'
  have hland := fits_twoKeys valid_pastSkip valid_b pastSkip_lt_b hfollows hexact hentries
  have hbefore : before "" (some "/") (listing sampleJson (twoKeys pastSkip "b") (manyA 1) (some "")) 1 =
      [sampleRow (manyA 1) pastSkip 1 []] := by
    refine (before_eq (rows_twoKeys valid_pastSkip valid_b pastSkip_lt_b) (listing_twoKeys valid_pastSkip valid_b pastSkip_lt_b)
      hitem ?_ (by rw [hentries]; rfl)).1
    intro m hm
    rw [List.mem_singleton.1 hm, hgroup]
    simp
  exact (land_token Nat.one_pos).1 hland ⟨_, "a/", by rw [hbefore]; rfl, hgroup, hpast⟩

theorem listObjects_exact_twoKeys :
    (∃ items prefixes, Follows sampleJson asciiLetters (twoKeys "k" "l") (manyA 1) "" (some "/") .V1 (some 1) Cursors.none items
          prefixes ∧ Exact sampleJson (twoKeys "k" "l") (manyA 1) "" (some "/") items prefixes) ↔
      (∀ cp, ¬Stuck "" (some "/") (listing sampleJson (twoKeys "k" "l") (manyA 1) (some "")) cp) ∧
        ∀ k, PageEnd sampleJson (twoKeys "k" "l") (manyA 1) "" (some "/") (some 1) k →
          Marks "" (some "/") (listing sampleJson (twoKeys "k" "l") (manyA 1) (some "")) k :=
  listObjects_exact_iff (keyed_twoKeys valid_key.1 valid_key.2) (short_twoKeys valid_key.1 valid_key.2 k_lt_l)
    (valid_manyA Nat.one_pos) "" (some "/") (some 1)

/-- **A marker that leads back.** With the keys `a/1` and `b`, one entry per page and the delimiter `/`, the marker after the common
prefix `a/` is this common prefix, and the key `a/1` is larger. -/
theorem marker_leads_back :
    Keyed sampleJson asciiLetters (twoKeys "a/1" "b") ∧ (∀ m, Row sampleJson (twoKeys "a/1" "b") m → Short m.bucket) ∧
      validateBucket asciiLetters (manyA 1) = .ok () ∧
      ¬∃ items prefixes, Follows sampleJson asciiLetters (twoKeys "a/1" "b") (manyA 1) "" (some "/") .V1 (some 1) Cursors.none items
          prefixes ∧ Exact sampleJson (twoKeys "a/1" "b") (manyA 1) "" (some "/") items prefixes := by
  obtain ⟨valid_a1, valid_b, a1_lt_b, hroll, rollUp_b, hshown, hshown'⟩ := grouped.2
  refine ⟨keyed_twoKeys valid_a1 valid_b, short_twoKeys valid_a1 valid_b a1_lt_b, valid_manyA Nat.one_pos, ?_⟩
  rintro ⟨items, prefixes, hfollows, hexact⟩
  have hentries := entries_twoKeys valid_a1 valid_b a1_lt_b hroll rollUp_b hshown hshown'
  have hland := fits_twoKeys valid_a1 valid_b a1_lt_b hfollows hexact hentries
  have hmarks := (land_marker Nat.one_pos (by rw [hentries]; exact Nat.one_lt_two)).1 hland
  refine hmarks.item _ (by rw [hentries]; rfl) (.group "a/") (by rw [hentries]; rfl) ⟨sampleRow (manyA 1) "a/1" 1 [], ?_, ?_, ?_⟩
  · rw [listing_twoKeys valid_a1 valid_b a1_lt_b]
    exact List.mem_cons_self
  · exact entryOf_eq_group.2 ⟨hshown, hroll⟩
  · show "a/1" ≠ "a/"
    decide

end Y2q.MetadataIndex.ListObjects
