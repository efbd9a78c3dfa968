/-
The inode table over whole runs (`y2q-fuse/src/inode.rs`).

A run keeps the tables that it has gone through, so that a number is known to be new when no table before held it. The counter is a `u64`
that wraps; a number that comes round again is that of an older path.

- `Allowed`: what a step must not do. `Run`: runs of such steps.
- `Used`: the numbers that the counter has passed. `Sound`: the invariant; `runs_sound`.
- `table_exact`: the two maps, the root, the numbers and the passes.
-/
import Mathlib.Tactic
import Y2q.Fuse.RenameDirectory

namespace Y2q.Fuse

namespace InodeTable

variable {bucket src dst : String} {t t' : InodeTable} {path target p q : InodePath} {ino : UInt64}

def Op.Moves : Op → Prop
  | .repath _ _ | .renameDirectory _ _ _ _ => True
  | _ => False

/-- The counter has not come round to the number of the root, and no `repath` moves the root or another path onto it. -/
def Allowed (t : InodeTable) : Op → Prop
  | .getOrAssign path => t.byPath path = none → t.nextIno ≠ ROOT_INO
  | .repath path target => t.byPath path = none ∨ path = target ∨ path ≠ .root ∧ target ≠ .root
  | _ => True

/-- a run, with the tables before it and what was done to each, the last one first -/
inductive Run : List (InodeTable × Op) → InodeTable → Prop where
  | new : Run [] new
  | step {past : List (InodeTable × Op)} {t t' : InodeTable} {op : Op} (h : Run past t) (hallowed : Allowed t op) (hstep : Step t op t') :
      Run ((t, op) :: past) t'

/-- `ino` may have been given out before `next` -/
def Used (next ino : UInt64) : Prop := ino = ROOT_INO ∨ ino - 2 < next - 2

variable {past : List (InodeTable × Op)} {op : Op} {next : UInt64}

theorem not_used (h : next ≠ ROOT_INO) : ¬Used next next := fun hused => hused.elim h (lt_irrefl _)

theorem toNat_succ_sub (h : next ≠ ROOT_INO) : (next + 1 - 2).toNat = (next - 2).toNat + 1 := by
  have hne : next.toNat ≠ 1 := fun heq => h (UInt64.toNat_inj.1 heq)
  have hlt := next.toNat_lt
  rw [UInt64.toNat_sub, UInt64.toNat_sub, UInt64.toNat_add]
  have htwo : (2 : UInt64).toNat = 2 := rfl
  have hone : (1 : UInt64).toNat = 1 := rfl
  omega

theorem Used.succ (h : next ≠ ROOT_INO) (hused : Used next ino) : Used (next + 1) ino := by
  refine hused.imp_right fun hlt => ?_
  rw [UInt64.lt_iff_toNat_lt] at hlt ⊢
  rw [toNat_succ_sub h]
  exact Nat.lt_succ_of_lt hlt

theorem used_succ_self (h : next ≠ ROOT_INO) : Used (next + 1) next := by
  refine Or.inr ?_
  rw [UInt64.lt_iff_toNat_lt, toNat_succ_sub h]
  exact Nat.lt_succ_self _

theorem inverse_step (h : Inverse t) (hfree : t.nextIno ≠ ROOT_INO → t.byIno t.nextIno = none) (hallowed : Allowed t op)
    (hstep : Step t op t') : Inverse t' := by
  cases hstep with
  | getOrAssign path => exact inverse_getOrAssign h fun hpath => hfree (hallowed hpath)
  | repath path target => exact inverse_repath h path target
  | remove ino => exact inverse_remove h ino
  | renameDirectory bucket src dst listed hpaths =>
    obtain ⟨moves, known, -, -, -, heq⟩ := renameDirectory_eq h (.renameDirectory bucket src dst listed hpaths)
    rw [heq]
    exact inverse_repathAll (inverse_repathAll h moves) known

theorem live_of_repath (h : Inverse t) (hino : (t.repath p q).byIno ino = some path) : ∃ path₀, t.byIno ino = some path₀ := by
  cases hp : t.byPath p with
  | none =>
    rw [repath_unknown hp] at hino
    exact ⟨path, hino⟩
  | some j =>
    rw [byIno_repath h hp] at hino
    split_ifs at hino with hij
    · exact ⟨p, hij ▸ (h p j).1 hp⟩
    · exact ⟨path, hino⟩

theorem live_of_repathAll (h : Inverse t) {moves : List (InodePath × InodePath)} (hino : (t.repathAll moves).byIno ino = some path) :
    ∃ path₀, t.byIno ino = some path₀ := by
  induction moves generalizing t with
  | nil => exact ⟨path, hino⟩
  | cons m moves ih =>
    obtain ⟨path₁, hpath₁⟩ := ih (inverse_repath h m.1 m.2) hino
    exact live_of_repath h hpath₁

@[simp] theorem nextIno_repathAll (t : InodeTable) (moves : List (InodePath × InodePath)) : (t.repathAll moves).nextIno = t.nextIno := by
  induction moves generalizing t with
  | nil => rfl
  | cons m moves ih => exact (ih _).trans nextIno_repath

/-- the number had the path before, or was moved, or is the next one -/
theorem number_step (h : Inverse t) (hstep : Step t op t') (hino : t'.byIno ino = some path) :
    t.byIno ino = some path ∨ (op.Moves ∧ ∃ path₀, t.byIno ino = some path₀) ∨
      (op = .getOrAssign path ∧ t.byPath path = none ∧ ino = t.nextIno ∧ t'.nextIno = t.nextIno + 1) := by
  cases hstep with
  | getOrAssign p =>
    cases hp : t.byPath p with
    | some j =>
      rw [getOrAssign_known hp] at hino
      exact Or.inl hino
    | none =>
      rw [getOrAssign_fresh hp] at hino ⊢
      rcases eq_or_ne ino t.nextIno with rfl | hne
      · cases (Function.update_self _ _ _).symm.trans hino
        exact Or.inr (Or.inr ⟨rfl, hp, rfl, rfl⟩)
      · exact Or.inl ((Function.update_of_ne hne _ _).symm.trans hino)
  | repath p q => exact Or.inr (Or.inl ⟨trivial, live_of_repath h hino⟩)
  | remove j =>
    rw [byIno_remove] at hino
    split_ifs at hino
    exact Or.inl hino
  | renameDirectory bucket src dst listed hpaths =>
    obtain ⟨moves, known, -, -, -, heq⟩ := renameDirectory_eq h (.renameDirectory bucket src dst listed hpaths)
    rw [heq] at hino
    obtain ⟨path₁, hpath₁⟩ := live_of_repathAll (inverse_repathAll h moves) hino
    exact Or.inr (Or.inl ⟨trivial, live_of_repathAll h hpath₁⟩)

theorem nextIno_step (h : Inverse t) (hstep : Step t op t') :
    t'.nextIno = t.nextIno ∨ ∃ path, op = .getOrAssign path ∧ t.byPath path = none ∧ t'.nextIno = t.nextIno + 1 := by
  cases hstep with
  | getOrAssign p =>
    cases hp : t.byPath p with
    | some j =>
      rw [getOrAssign_known hp]
      exact Or.inl rfl
    | none =>
      rw [getOrAssign_fresh hp]
      exact Or.inr ⟨p, rfl, hp, rfl⟩
  | repath p q => exact Or.inl nextIno_repath
  | remove j => exact Or.inl nextIno_remove
  | renameDirectory bucket src dst listed hpaths =>
    obtain ⟨moves, known, -, -, -, heq⟩ := renameDirectory_eq h (.renameDirectory bucket src dst listed hpaths)
    rw [heq, nextIno_repathAll, nextIno_repathAll]
    exact Or.inl rfl

/-- what every run keeps -/
structure Sound (past : List (InodeTable × Op)) (t : InodeTable) : Prop where
  inverse : Inverse t
  used : ∀ s ∈ t :: past.map Prod.fst, ∀ ino path, s.byIno ino = some path → Used t.nextIno ino

theorem Sound.free (h : Sound past t) (hnext : t.nextIno ≠ ROOT_INO) {s : InodeTable} (hs : s ∈ t :: past.map Prod.fst) :
    s.byIno t.nextIno = none := by
  rw [Option.eq_none_iff_forall_ne_some]
  exact fun path hpath => not_used hnext (h.used s hs _ path hpath)

theorem sound_new : Sound [] new := by
  refine ⟨inverse_new, fun s hs ino path hino => ?_⟩
  cases List.mem_singleton.1 hs
  rw [byIno_new] at hino
  split_ifs at hino with heq
  exact Or.inl heq

theorem Sound.step (h : Sound past t) (hallowed : Allowed t op) (hstep : Step t op t') : Sound ((t, op) :: past) t' := by
  have hused : ∀ s ∈ t :: past.map Prod.fst, ∀ ino path, s.byIno ino = some path → Used t'.nextIno ino := by
    intro s hs ino path hino
    have hold := h.used s hs ino path hino
    rcases nextIno_step h.inverse hstep with heq | ⟨p, rfl, hp, heq⟩
    · rwa [heq]
    · rw [heq]
      exact hold.succ (hallowed hp)
  refine ⟨inverse_step h.inverse (fun hnext => h.free hnext List.mem_cons_self) hallowed hstep, fun s hs ino path hino => ?_⟩
  rcases List.mem_cons.1 hs with rfl | hs
  · rcases number_step h.inverse hstep hino with hold | ⟨-, path₀, hold⟩ | ⟨rfl, hpath, rfl, heq⟩
    · exact hused t List.mem_cons_self ino path hold
    · exact hused t List.mem_cons_self ino path₀ hold
    · rw [heq]
      exact used_succ_self (hallowed hpath)
  · exact hused s hs ino path hino

theorem runs_sound (h : Run past t) : Sound past t := by
  induction h with
  | new => exact sound_new
  | step _ hallowed hstep ih => exact ih.step hallowed hstep

/-! ## The root -/

theorem byPath_repathAll (h : Inverse t) {moves : List (InodePath × InodePath)} (hmoves : ∀ m ∈ moves, m.1 ≠ p ∧ m.2 ≠ p) :
    (t.repathAll moves).byPath p = t.byPath p := by
  induction moves generalizing t with
  | nil => rfl
  | cons m moves ih =>
    obtain ⟨hsource, htarget⟩ := hmoves m List.mem_cons_self
    refine (ih (inverse_repath h m.1 m.2) fun m' hm' => hmoves m' (List.mem_cons_of_mem m hm')).trans ?_
    cases hpath : t.byPath m.1 with
    | none => exact congrArg (byPath · p) (repath_unknown hpath)
    | some ino => rw [byPath_repath h hpath, if_neg htarget.symm, if_neg hsource.symm]

theorem ne_root_of_moved (h : moved bucket src dst p = some q) : p ≠ .root ∧ q ≠ .root := by
  refine ⟨?_, ?_⟩
  · rintro rfl
    cases h
  · rintro rfl
    cases p <;> simp [moved] at h

/-- the root stays where it is exactly when it is not moved and nothing is moved onto it -/
theorem root_repath_iff (h : Inverse t) (hroot : t.byPath .root = some ROOT_INO) :
    (t.repath path target).byPath .root = some ROOT_INO ↔ Allowed t (.repath path target) := by
  cases hpath : t.byPath path with
  | none =>
    rw [repath_unknown hpath]
    exact iff_of_true hroot (Or.inl hpath)
  | some ino =>
    rw [byPath_repath h hpath, Allowed, hpath]
    split_ifs with htarget hsource
    · subst htarget
      refine ⟨fun heq => Or.inr (Or.inl (h.byPath_inj (hpath.trans heq) hroot)), fun hok => ?_⟩
      rcases hok with hnone | rfl | hne
      · cases hnone
      · exact hpath.symm.trans hroot
      · exact absurd rfl hne.2
    · subst hsource
      refine iff_of_false nofun ?_
      rintro (hnone | heq | hne)
      · cases hnone
      · exact htarget heq
      · exact hne.1 rfl
    · exact iff_of_true hroot (Or.inr (Or.inr ⟨Ne.symm hsource, Ne.symm htarget⟩))

theorem root_step (h : Inverse t) (hroot : t.byPath .root = some ROOT_INO) (hallowed : Allowed t op) (hop : op ≠ .remove ROOT_INO)
    (hstep : Step t op t') : t'.byPath .root = some ROOT_INO := by
  cases hstep with
  | getOrAssign p =>
    cases hp : t.byPath p with
    | some j => rwa [getOrAssign_known hp]
    | none =>
      have hne : .root ≠ p := by
        rintro rfl
        rw [hroot] at hp
        cases hp
      rw [getOrAssign_fresh hp]
      exact (Function.update_of_ne hne _ _).trans hroot
  | repath p q => exact (root_repath_iff h hroot).2 hallowed
  | remove j =>
    have hne : ROOT_INO ≠ j := fun heq => hop (congrArg Op.remove heq.symm)
    rw [inverse_remove h j .root ROOT_INO, byIno_remove, if_neg hne]
    exact (h _ _).1 hroot
  | renameDirectory bucket src dst listed hpaths =>
    obtain ⟨moves, known, hmoves, hknown, -, heq⟩ := renameDirectory_eq h (.renameDirectory bucket src dst listed hpaths)
    rw [heq, byPath_repathAll (inverse_repathAll h moves) fun m hm => ne_root_of_moved (hknown m hm),
      byPath_repathAll h fun m hm => ne_root_of_moved (hmoves m hm)]
    exact hroot

theorem runs_root (h : Run past t) (hpast : ∀ s ∈ past, s.2 ≠ .remove ROOT_INO) : t.byPath .root = some ROOT_INO := by
  induction h with
  | new => rw [byPath_new, if_pos rfl]
  | step h hallowed hstep ih =>
    exact root_step (runs_sound h).inverse (ih fun s hs => hpast s (List.mem_cons_of_mem _ hs)) hallowed (hpast _ List.mem_cons_self) hstep

/-! ## The table -/

/-- The maps are inverse to each other, and the root is number 1 until it is removed. A number gets a path only if it has it already, if a
`repath` moves it there, or if no table of the run has held it. A pass moves the whole directory exactly when no path lands in it again. -/
theorem table_exact (h : Run past t) :
    (∀ path ino, t.byPath path = some ino ↔ t.byIno ino = some path) ∧
    ((∀ s ∈ past, s.2 ≠ .remove ROOT_INO) → t.byPath .root = some ROOT_INO) ∧
    (∀ op t', Allowed t op → Step t op t' → ∀ ino path, t'.byIno ino = some path →
      t.byIno ino = some path ∨ (op.Moves ∧ ∃ path₀, t.byIno ino = some path₀) ∨
      (op = .getOrAssign path ∧ ∀ s ∈ t :: past.map Prod.fst, s.byIno ino = none)) ∧
    ∀ bucket src dst listed t', Step t (.renameDirectory bucket src dst listed) t' →
      (Renamed bucket src dst t t' ↔ Clear bucket src dst t) := by
  have hsound := runs_sound h
  refine ⟨hsound.inverse, runs_root h, fun op t' hallowed hstep ino path hino => ?_,
    fun bucket src dst listed t' => renamed_iff hsound.inverse⟩
  rcases number_step hsound.inverse hstep hino with hold | hmoves | ⟨rfl, hpath, rfl, -⟩
  · exact Or.inl hold
  · exact Or.inr (Or.inl hmoves)
  · exact Or.inr (Or.inr ⟨rfl, fun s hs => hsound.free (hallowed hpath) hs⟩)

theorem paths_new : Paths new [(ROOT_INO, .root)] := by
  refine ⟨List.nodup_singleton _, fun ino path => ?_⟩
  rw [List.mem_singleton, Prod.mk.injEq, byIno_new]
  split_ifs with hino
  · rw [Option.some.injEq, and_iff_right hino, eq_comm]
  · exact iff_of_false (fun h => hino h.1) nofun

theorem Paths.getOrAssign {snapshot : List (UInt64 × InodePath)} (h : Paths t snapshot) (hpath : t.byPath path = none)
    (hfree : t.byIno t.nextIno = none) : Paths (t.getOrAssign path).2 ((t.nextIno, path) :: snapshot) := by
  rw [getOrAssign_fresh hpath]
  refine ⟨List.nodup_cons.2 ⟨fun hmem => ?_, h.nodup⟩, fun ino p => ?_⟩
  · rw [h.mem, hfree] at hmem
    cases hmem
  · show _ ↔ Function.update t.byIno t.nextIno (some path) ino = some p
    rw [List.mem_cons, Prod.mk.injEq, h.mem, Function.update_apply]
    split_ifs with hino
    · rw [hino, hfree, Option.some.injEq, and_iff_right rfl, or_iff_left nofun, eq_comm]
    · rw [or_iff_right fun heq => hino heq.1]

/-- a directory in a directory of the same name -/
def nested : InodeTable := ((new.getOrAssign (.virtualDir "x" "a/b")).2.getOrAssign (.virtualDir "x" "a/b/b")).2

def nestedPast : List (InodeTable × Op) :=
  [((new.getOrAssign (.virtualDir "x" "a/b")).2, .getOrAssign (.virtualDir "x" "a/b/b")), (new, .getOrAssign (.virtualDir "x" "a/b"))]

theorem run_nested : Run nestedPast nested :=
  .step (.step .new (fun _ => by decide) (.getOrAssign _)) (fun _ => by decide) (.getOrAssign _)

theorem paths_nested : Paths nested [(3, .virtualDir "x" "a/b/b"), (2, .virtualDir "x" "a/b"), (1, .root)] :=
  (paths_new.getOrAssign (by decide +kernel) (by decide +kernel)).getOrAssign (by decide +kernel) (by decide +kernel)

/-- `a/b` renamed to `c` -/
theorem table_exact_nested :
    nested.byPath .root = some ROOT_INO ∧ Renamed "x" "a/b" "c" nested
      ([.virtualDir "x" "a/b/b", .virtualDir "x" "a/b", .root].foldl (renameKnown "x" "a/b" "c") nested) := by
  obtain ⟨-, hroot, -, hpass⟩ := table_exact run_nested
  refine ⟨hroot fun s hs => ?_, (hpass "x" "a/b" "c" [] _ (.renameDirectory "x" "a/b" "c" [] paths_nested)).2 ⟨?_, by decide +kernel⟩⟩
  · rcases List.mem_pair.1 hs with rfl | rfl <;> exact nofun
  · intro path target hpath hmoved hin
    obtain ⟨ino, hino⟩ := Option.isSome_iff_exists.1 hpath
    have hmem := (paths_nested.mem ino path).2 (((table_exact run_nested).1 path ino).1 hino)
    simp only [List.mem_cons, List.not_mem_nil, or_false, Prod.mk.injEq] at hmem
    have hout : ¬((moved "x" "a/b" "c" target).isSome ∨ target = .object "x" "a/b") := by
      rcases hmem with ⟨-, rfl⟩ | ⟨-, rfl⟩ | ⟨-, rfl⟩
      · have hinner : moved "x" "a/b" "c" (.virtualDir "x" "a/b/b") = some (.virtualDir "x" "c/b") := by decide +kernel
        rw [← Option.some.inj (hinner.symm.trans hmoved)]
        decide +kernel
      · have houter : moved "x" "a/b" "c" (.virtualDir "x" "a/b") = some (.virtualDir "x" "c") := by decide +kernel
        rw [← Option.some.inj (houter.symm.trans hmoved)]
        decide +kernel
      · cases hmoved
    exact hout (atOrBelow_iff.1 hin)

/-- The directory in `a/b` is moved to `a/b` first, and on to `a` afterwards; the number of `a/b` itself is lost. -/
theorem nested_lost :
    Run nestedPast nested ∧
    Step nested (.renameDirectory "x" "a/b" "a" [])
      ([.virtualDir "x" "a/b/b", .virtualDir "x" "a/b", .root].foldl (renameKnown "x" "a/b" "a") nested) ∧
    nested.byIno 2 = some (.virtualDir "x" "a/b") ∧
    ([.virtualDir "x" "a/b/b", .virtualDir "x" "a/b", .root].foldl (renameKnown "x" "a/b" "a") nested).byIno 2 = none ∧
    ¬Renamed "x" "a/b" "a" nested
      ([.virtualDir "x" "a/b/b", .virtualDir "x" "a/b", .root].foldl (renameKnown "x" "a/b" "a") nested) := by
  refine ⟨run_nested, .renameDirectory "x" "a/b" "a" [] paths_nested, by decide +kernel, by decide +kernel, fun h => ?_⟩
  have hthere := h.2 2 (.virtualDir "x" "a/b") (.virtualDir "x" "a") (by decide +kernel) (by decide +kernel)
  exact absurd hthere (by decide +kernel)

end InodeTable

end Y2q.Fuse
