/-
A sorted listing whose rows are rolled up into groups, handed out in pages of so many entries.

An entry is a single row or a group; some rows have no entry. A page ends where the next entry does not fit any more, and the next page
begins wherever its cursor lands, which may be one entry too early or too late.

- `fresh`, `entries`: the entries of a list of rows, in order of their first rows. `fresh_append`: of two lists in a row.
- `Turns`: the pages, by the positions at which they begin.
- `turns_exact_iff`: the pages have every entry once exactly if every cursor at a page's end lands where the page ended.
-/
import Mathlib.Tactic

namespace Y2q.Groups

/-! ## Entries -/

section Entries

variable {α β : Type} [DecidableEq β] (entry : α → Option β)

/-- the entries that are not among those seen -/
def fresh (seen : List β) : List α → List β
  | [] => []
  | x :: l =>
    match entry x with
    | none => fresh seen l
    | some e => if e ∈ seen then fresh seen l else e :: fresh (seen ++ [e]) l

def entries (l : List α) : List β := fresh entry [] l

variable {entry} {seen : List β} {e : β} {x : α} {l l' : List α}

@[simp] theorem fresh_nil : fresh entry seen [] = [] := rfl

theorem fresh_cons_none (h : entry x = none) : fresh entry seen (x :: l) = fresh entry seen l := by simp [fresh, h]

theorem fresh_cons_seen (h : entry x = some e) (he : e ∈ seen) : fresh entry seen (x :: l) = fresh entry seen l := by
  simp [fresh, h, he]

theorem fresh_cons_new (h : entry x = some e) (he : e ∉ seen) : fresh entry seen (x :: l) = e :: fresh entry (seen ++ [e]) l := by
  simp [fresh, h, he]

theorem fresh_append : fresh entry seen (l ++ l') = fresh entry seen l ++ fresh entry (seen ++ fresh entry seen l) l' := by
  induction l generalizing seen with
  | nil => simp
  | cons x l ih =>
    rw [List.cons_append]
    cases hx : entry x with
    | none => rw [fresh_cons_none hx, fresh_cons_none hx, ih]
    | some e =>
      by_cases he : e ∈ seen
      · rw [fresh_cons_seen hx he, fresh_cons_seen hx he, ih]
      · rw [fresh_cons_new hx he, fresh_cons_new hx he, ih, List.cons_append]
        simp

/-- only which entries were seen counts -/
theorem fresh_congr {seen' : List β} (h : ∀ x ∈ l, ∀ e, entry x = some e → (e ∈ seen ↔ e ∈ seen')) :
    fresh entry seen l = fresh entry seen' l := by
  induction l generalizing seen seen' with
  | nil => rfl
  | cons x l ih =>
    have hl := fun x hx => h x (List.mem_cons_of_mem _ hx)
    cases hx : entry x with
    | none => rw [fresh_cons_none hx, fresh_cons_none hx, ih hl]
    | some e =>
      have hiff := h x List.mem_cons_self e hx
      by_cases he : e ∈ seen
      · rw [fresh_cons_seen hx he, fresh_cons_seen hx (hiff.1 he), ih hl]
      · rw [fresh_cons_new hx he, fresh_cons_new hx fun h' => he (hiff.2 h')]
        refine congrArg (e :: ·) (ih fun y hy e' hy' => ?_)
        rw [List.mem_append, List.mem_append, hl y hy e' hy']

theorem mem_fresh : e ∈ fresh entry seen l ↔ e ∉ seen ∧ ∃ x ∈ l, entry x = some e := by
  induction l generalizing seen with
  | nil => simp
  | cons x l ih =>
    cases hx : entry x with
    | none => simp [fresh_cons_none hx, ih, hx]
    | some e' =>
      by_cases he : e' ∈ seen
      · rw [fresh_cons_seen hx he, ih]
        refine and_congr_right fun hnot => ?_
        have hne : e' ≠ e := fun heq => hnot (heq ▸ he)
        simp [hx, hne]
      · rw [fresh_cons_new hx he, List.mem_cons, ih]
        by_cases heq : e = e'
        · subst heq
          simp [he, hx]
        · simp [heq, hx, Ne.symm heq]

theorem mem_entries : e ∈ entries entry l ↔ ∃ x ∈ l, entry x = some e := by simp [entries, mem_fresh]

theorem nodup_fresh : (fresh entry seen l).Nodup := by
  induction l generalizing seen with
  | nil => exact List.nodup_nil
  | cons x l ih =>
    cases hx : entry x with
    | none => rw [fresh_cons_none hx]; exact ih
    | some e =>
      by_cases he : e ∈ seen
      · rw [fresh_cons_seen hx he]; exact ih
      · rw [fresh_cons_new hx he, List.nodup_cons, mem_fresh]
        exact ⟨fun h => h.1 (List.mem_append_right _ List.mem_cons_self), ih⟩

theorem nodup_entries : (entries entry l).Nodup := nodup_fresh

theorem fresh_eq_nil (h : ∀ x ∈ l, ∀ e, entry x = some e → e ∈ seen) : fresh entry seen l = [] := by
  refine List.eq_nil_iff_forall_not_mem.2 fun e he => ?_
  obtain ⟨hnot, x, hx, hxe⟩ := mem_fresh.1 he
  exact hnot (h x hx e hxe)

/-- rows that add nothing -/
theorem fresh_filter {p : α → Bool} (h : ∀ x ∈ l, p x = false → ∀ e, entry x = some e → e ∈ seen) :
    fresh entry seen (l.filter p) = fresh entry seen l := by
  induction l generalizing seen with
  | nil => rfl
  | cons x l ih =>
    have hl := fun y hy => h y (List.mem_cons_of_mem x hy)
    cases hp : p x with
    | true =>
      rw [List.filter_cons_of_pos hp]
      cases hx : entry x with
      | none => rw [fresh_cons_none hx, fresh_cons_none hx, ih hl]
      | some e =>
        by_cases he : e ∈ seen
        · rw [fresh_cons_seen hx he, fresh_cons_seen hx he, ih hl]
        · rw [fresh_cons_new hx he, fresh_cons_new hx he, ih fun y hy hpy e' hy' => List.mem_append_left _ (hl y hy hpy e' hy')]
    | false =>
      rw [List.filter_cons_of_neg (by simp [hp]), ih hl]
      cases hx : entry x with
      | none => rw [fresh_cons_none hx]
      | some e => rw [fresh_cons_seen hx (h x List.mem_cons_self hp e hx)]

/-- entries that are all new -/
theorem fresh_eq_entries (h : ∀ x ∈ l, ∀ e, entry x = some e → e ∉ seen) : fresh entry seen l = entries entry l :=
  fresh_congr fun x hx e hxe => iff_of_false (h x hx e hxe) List.not_mem_nil

/-- two lists without a common entry -/
theorem entries_append (h : ∀ x ∈ l', ∀ e, entry x = some e → e ∉ entries entry l) :
    entries entry (l ++ l') = entries entry l ++ entries entry l' := by
  rw [entries, fresh_append, List.nil_append]
  exact congrArg _ (fresh_eq_entries h)

/-- rows of one entry -/
theorem entries_eq_singleton (hall : ∀ x ∈ l, ∀ e', entry x = some e' → e' = e) (hx : ∃ x ∈ l, entry x = some e) :
    entries entry l = [e] := by
  have hmem : ∀ e' ∈ entries entry l, e' = e := by
    intro e' he'
    obtain ⟨x, hxl, hxe⟩ := mem_entries.1 he'
    exact hall x hxl e' hxe
  have hlen : (entries entry l).length ≤ 1 := by
    have hsub : entries entry l ⊆ [e] := fun e' he' => List.mem_singleton.2 (hmem e' he')
    exact (List.subperm_of_subset nodup_entries hsub).length_le
  obtain ⟨e', he'⟩ := List.length_eq_one_iff.1 (le_antisymm hlen (List.length_pos_of_mem (mem_entries.2 hx)))
  rw [he', hmem e' (he' ▸ List.mem_singleton_self e')]

omit [DecidableEq β] in
/-- a list without repetitions is split at an element in one way only -/
theorem split_unique {l₁ l₂ m₁ m₂ : List β} (hnodup : (l₁ ++ e :: l₂).Nodup) (h : l₁ ++ e :: l₂ = m₁ ++ e :: m₂) :
    l₁ = m₁ ∧ l₂ = m₂ := by
  have hnot₁ : e ∉ l₁ := fun he => (List.nodup_append.1 hnodup).2.2 e he e List.mem_cons_self rfl
  have hnot₂ : e ∉ l₂ := (List.nodup_cons.1 (List.nodup_append.1 hnodup).2.1).1
  obtain ⟨h₁, -, h₂⟩ := (List.append_cons_inj_of_notMem hnot₁ hnot₂).1 h
  exact ⟨h₁, h₂⟩

/-- a property that, once it holds, holds for the rest of the list -/
theorem split_of_upward {p : α → Bool} (h : l.Pairwise fun a b => p a = true → p b = true) :
    l = l.filter (fun x => !p x) ++ l.filter p := by
  induction l with
  | nil => rfl
  | cons x l ih =>
    obtain ⟨hx, hl⟩ := List.pairwise_cons.1 h
    cases hp : p x with
    | true =>
      have hall : ∀ y ∈ l, p y = true := fun y hy => hx y hy hp
      rw [List.filter_cons_of_neg (by simp [hp]), List.filter_cons_of_pos hp, List.filter_eq_self.2 hall, List.filter_eq_nil_iff.2]
      · rfl
      · intro y hy
        simp [hall y hy]
    | false =>
      rw [List.filter_cons_of_pos (by simp [hp]), List.filter_cons_of_neg (by simp [hp]), List.cons_append, ← ih hl]

end Entries

/-! ## Pages by position -/

section Turns

variable {β : Type} (l : List β) (m : ℕ) (land : ℕ → ℕ)

/-- the pages from a position on: where a page ends at position `j`, the next one begins at `land j` -/
inductive Turns : ℕ → List β → Prop where
  | last (j : ℕ) (h : l.length ≤ j + m) : Turns j (l.drop j)
  | more (j : ℕ) (out : List β) (h : j + m < l.length) (hrest : Turns (land (j + m)) out) : Turns j ((l.drop j).take m ++ out)

variable {l m land}

/-- every cursor lands at most one entry off -/
def Near (l : List β) (land : ℕ → ℕ) : Prop := ∀ j, 0 < j → j < l.length → land j = j - 1 ∨ land j = j ∨ land j = j + 1

theorem Turns.mem {j : ℕ} {out : List β} (h : Turns l m land j out) (hm : 1 ≤ m) {e : β} (he : l[j]? = some e) : e ∈ out := by
  obtain ⟨hlt, hget⟩ := List.getElem?_eq_some_iff.1 he
  have hdrop : l.drop j = e :: l.drop (j + 1) := by rw [List.drop_eq_getElem_cons hlt, hget]
  cases h with
  | last _ h =>
    rw [hdrop]
    exact List.mem_cons_self
  | more _ out h hrest =>
    obtain ⟨m, rfl⟩ := Nat.exists_eq_add_of_le' hm
    rw [hdrop, List.take_succ_cons]
    exact List.mem_append_left _ List.mem_cons_self

theorem Turns.subset {j : ℕ} {out : List β} (h : Turns l m land j out) (hm : 1 ≤ m) (hland : Near l land) : out ⊆ l.drop j := by
  induction h with
  | last j h => exact List.Subset.refl _
  | more j out h hrest ih =>
    refine List.append_subset.2 ⟨List.take_subset _ _, fun e he => ?_⟩
    have hle : j ≤ land (j + m) := by
      rcases hland (j + m) (by omega) h with h | h | h <;> omega
    have hsuffix := List.drop_suffix_drop_left l hle
    exact hsuffix.subset (ih he)

/-- pages with every entry once begin where the pages before them ended -/
theorem Turns.lands {j : ℕ} {out : List β} (h : Turns l m land j out) (hm : 1 ≤ m) (hl : l.Nodup) (hland : Near l land)
    (hout : out.Nodup) (hall : l.drop j ⊆ out) (k : ℕ) (hk : 1 ≤ k) (hlt : j + k * m < l.length) : land (j + k * m) = j + k * m := by
  induction h generalizing k with
  | last j h => exact absurd hlt (Nat.not_lt.2 (h.trans (by nlinarith)))
  | more j out h hrest ih =>
    obtain ⟨-, hout', hdisj⟩ := List.nodup_append.1 hout
    have hget : ∀ i (hi : i < l.length), j ≤ i → i < j + m → l[i] ∈ (l.drop j).take m := by
      intro i hi hji him
      rw [List.mem_take_iff_getElem]
      exact ⟨i - j, by rw [List.length_drop]; omega, by simp [Nat.add_sub_cancel' hji]⟩
    have hfirst : land (j + m) = j + m := by
      rcases hland (j + m) (by omega) h with hback | hright | hahead
      · -- the last entry comes again
        exfalso
        have hi : j + m - 1 < l.length := by omega
        refine hdisj _ (hget _ hi (by omega) (by omega)) _ (hrest.mem hm ?_) rfl
        rw [hback]
        exact List.getElem?_eq_getElem hi
      · exact hright
      · -- the next entry never comes
        exfalso
        have hdrop : l.drop (j + m) = l[j + m] :: l.drop (j + m + 1) := List.drop_eq_getElem_cons h
        have hnot : l[j + m] ∉ l.drop (j + m + 1) := by
          have hnodup := hl.sublist (List.drop_sublist (j + m) l)
          rw [hdrop] at hnodup
          exact (List.nodup_cons.1 hnodup).1
        have hmem : l[j + m] ∈ l.drop j := (List.drop_suffix_drop_left l (Nat.le_add_right j m)).subset (hdrop ▸ List.mem_cons_self)
        rcases List.mem_append.1 (hall hmem) with hin | hin
        · have hsplit : (l.drop j).take m ++ l.drop (j + m) = l.drop j := by
            rw [← List.drop_drop, List.take_append_drop]
          have hnodup := hl.sublist (List.drop_sublist j l)
          rw [← hsplit] at hnodup
          exact (List.nodup_append.1 hnodup).2.2 _ hin _ (hdrop ▸ List.mem_cons_self) rfl
        · have hsub := hrest.subset hm hland hin
          rw [hahead] at hsub
          exact hnot hsub
    obtain rfl | ⟨k, rfl⟩ : k = 1 ∨ ∃ k', k = k' + 1 + 1 := by
      rcases k with _ | _ | k
      · omega
      · exact Or.inl rfl
      · exact Or.inr ⟨k, rfl⟩
    · rw [one_mul]
      exact hfirst
    · have hshift : j + (k + 1 + 1) * m = land (j + m) + (k + 1) * m := by
        rw [hfirst]
        ring
      rw [hshift]
      refine ih hout' ?_ (k + 1) (by omega) (by rwa [← hshift])
      rw [hfirst]
      intro e he
      have hsuffix := List.drop_suffix_drop_left l (Nat.le_add_right j m)
      rcases List.mem_append.1 (hall (hsuffix.subset he)) with hin | hin
      · exfalso
        have hsplit : (l.drop j).take m ++ l.drop (j + m) = l.drop j := by
          rw [← List.drop_drop, List.take_append_drop]
        have hnodup := hl.sublist (List.drop_sublist j l)
        rw [← hsplit] at hnodup
        exact (List.nodup_append.1 hnodup).2.2 _ hin _ he rfl
      · exact hin

theorem turns_of_lands (hm : 1 ≤ m) (h : ∀ k, 1 ≤ k → k * m < l.length → land (k * m) = k * m) (k : ℕ) :
    Turns l m land (k * m) (l.drop (k * m)) := by
  obtain ⟨n, hn⟩ : ∃ n, l.length - k * m ≤ n := ⟨_, le_rfl⟩
  induction n generalizing k with
  | zero => exact .last _ (by omega)
  | succ n ih =>
    by_cases hmore : k * m + m < l.length
    · have hnext : (k + 1) * m = k * m + m := by ring
      have hland := h (k + 1) (by omega) (by rw [hnext]; exact hmore)
      have hrest := ih (k + 1) (by rw [hnext]; omega)
      have hturn : Turns l m land (land (k * m + m)) (l.drop (k * m + m)) →
          Turns l m land (k * m) ((l.drop (k * m)).take m ++ l.drop (k * m + m)) := Turns.more _ _ hmore
      rw [← hnext, hland, hnext, ← List.drop_drop, List.take_append_drop, List.drop_drop, ← hnext] at hturn
      exact hturn hrest
    · exact .last _ (Nat.not_lt.1 hmore)

/-- **Pages have every entry once** exactly if every page begins where the page before it ended. -/
theorem turns_exact_iff (hm : 1 ≤ m) (hl : l.Nodup) (hland : Near l land) :
    (∃ out, Turns l m land 0 out ∧ out.Perm l) ↔ ∀ k, 1 ≤ k → k * m < l.length → land (k * m) = k * m := by
  constructor
  · rintro ⟨out, hturns, hperm⟩ k hk hlt
    have hlands := hturns.lands hm hl hland (hperm.nodup_iff.2 hl) (fun e he => hperm.mem_iff.2 (List.mem_of_mem_drop he)) k hk
    rw [Nat.zero_add] at hlands
    exact hlands hlt
  · intro h
    have hturns := turns_of_lands hm h 0
    rw [Nat.zero_mul] at hturns
    exact ⟨_, hturns, List.Perm.refl _⟩

end Turns

end Y2q.Groups
