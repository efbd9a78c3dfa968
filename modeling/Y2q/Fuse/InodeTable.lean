/-
The inode numbers of a mounted store (`y2q-fuse/src/inode.rs`).

The table is two hash maps that are updated apart: the entry of a number and the number of a path. A number stands for a path until it is
removed, or until a `repath` of another path onto its own drops it. What an entry caches beside its path is left out.

- `InodeTable`: `getOrAssign`, `repath`, `remove`.
- `Inverse`: the maps are inverse to each other. `byIno_repath`, `byIno_remove`: what a step leaves of a number, on such a table.
- `Used`: the numbers that may have been given out before.
-/
import Mathlib.Tactic
import Mathlib.Logic.Function.Basic
import Y2q.Core.Bytes

namespace Y2q.Fuse

def ROOT_INO : UInt64 := 1

inductive InodePath where
  | root
  | bucket (name : String)
  | virtualDir (bucket pfx : String)
  | object (bucket key : String)
  deriving DecidableEq

structure InodeTable where
  nextIno : UInt64
  byIno : UInt64 → Option InodePath
  byPath : InodePath → Option UInt64

namespace InodeTable

open Function (update)

def new : InodeTable :=
  ⟨2, update (fun _ => none) ROOT_INO (some .root), update (fun _ => none) .root (some ROOT_INO)⟩

/-- The next number is one more, and wraps around. -/
def getOrAssign (t : InodeTable) (path : InodePath) : UInt64 × InodeTable :=
  match t.byPath path with
  | some ino => (ino, t)
  | none => (t.nextIno, ⟨t.nextIno + 1, update t.byIno t.nextIno (some path), update t.byPath path (some t.nextIno)⟩)

/-- the entry that `target` had before goes -/
def repath (t : InodeTable) (path target : InodePath) : InodeTable :=
  match t.byPath path with
  | none => t
  | some ino =>
    let byPath := update t.byPath path none
    let byIno := if (t.byIno ino).isSome then update t.byIno ino (some target) else t.byIno
    match byPath target with
    | some old => ⟨t.nextIno, if old ≠ ino then update byIno old none else byIno, update byPath target (some ino)⟩
    | none => ⟨t.nextIno, byIno, update byPath target (some ino)⟩

def remove (t : InodeTable) (ino : UInt64) : InodeTable :=
  match t.byIno ino with
  | some path => ⟨t.nextIno, update t.byIno ino none, update t.byPath path none⟩
  | none => t

/-! ## Inverse maps -/

def Inverse (t : InodeTable) : Prop := ∀ path ino, t.byPath path = some ino ↔ t.byIno ino = some path

variable {t : InodeTable} {path target : InodePath} {ino i : UInt64}

theorem byIno_new (ino : UInt64) : new.byIno ino = if ino = ROOT_INO then some .root else none := by
  simp only [new, Function.update_apply]

theorem byPath_new (path : InodePath) : new.byPath path = if path = .root then some ROOT_INO else none := by
  simp only [new, Function.update_apply]

theorem inverse_new : Inverse new := by
  intro path ino
  rw [byPath_new, byIno_new]
  split_ifs with hpath hino hino
  · subst hpath hino
    exact ⟨fun _ => rfl, fun _ => rfl⟩
  · exact ⟨fun h => absurd (Option.some.inj h).symm hino, nofun⟩
  · exact ⟨nofun, fun h => absurd (Option.some.inj h).symm hpath⟩
  · exact ⟨nofun, nofun⟩

namespace Inverse

theorem byPath_inj (h : Inverse t) (hpath : t.byPath path = some ino) (hto : t.byPath target = some ino) : path = target :=
  Option.some.inj (((h path ino).1 hpath).symm.trans ((h target ino).1 hto))

theorem byIno_inj (h : Inverse t) (hino : t.byIno ino = some path) (hi : t.byIno i = some path) : ino = i :=
  Option.some.inj (((h path ino).2 hino).symm.trans ((h path i).2 hi))

end Inverse

theorem getOrAssign_known (hpath : t.byPath path = some ino) : t.getOrAssign path = (ino, t) := by rw [getOrAssign, hpath]

theorem getOrAssign_fresh (hpath : t.byPath path = none) :
    t.getOrAssign path = (t.nextIno, ⟨t.nextIno + 1, update t.byIno t.nextIno (some path), update t.byPath path (some t.nextIno)⟩) := by
  rw [getOrAssign, hpath]

theorem inverse_getOrAssign (h : Inverse t) (hfree : t.byPath path = none → t.byIno t.nextIno = none) :
    Inverse (t.getOrAssign path).2 := by
  cases hpath : t.byPath path with
  | some ino =>
    rw [getOrAssign_known hpath]
    exact h
  | none =>
    rw [getOrAssign_fresh hpath]
    intro p i
    simp only [Function.update_apply]
    split_ifs with hp hi hi
    · subst hp hi
      exact ⟨fun _ => rfl, fun _ => rfl⟩
    · subst hp
      rw [← h, hpath]
      exact ⟨fun heq => absurd (Option.some.inj heq).symm hi, nofun⟩
    · subst hi
      rw [h, hfree hpath]
      exact ⟨nofun, fun heq => absurd (Option.some.inj heq).symm hp⟩
    · exact h p i

theorem repath_unknown (hpath : t.byPath path = none) : t.repath path target = t := by rw [repath, hpath]

@[simp] theorem nextIno_repath : (t.repath path target).nextIno = t.nextIno := by
  unfold repath
  split
  · rfl
  · dsimp only
    split <;> rfl

/-- the number of `path` goes on to `target`, and what was at `target` has no path any more -/
theorem byIno_repath (h : Inverse t) (hpath : t.byPath path = some ino) (i : UInt64) :
    (t.repath path target).byIno i = if i = ino then some target else if t.byIno i = some target then none else t.byIno i := by
  have hlive : (t.byIno ino).isSome := by rw [(h path ino).1 hpath]; rfl
  simp only [repath, hpath, hlive, if_true]
  cases hto : update t.byPath path none target with
  | none =>
    simp only [Function.update_apply] at hto ⊢
    split_ifs with hi hit
    · rfl
    · split_ifs at hto with heq
      · subst heq
        exact absurd (h.byIno_inj hit ((h target ino).1 hpath)) hi
      · exact absurd ((h target i).2 hit) (by rw [hto]; nofun)
    · rfl
  | some old =>
    simp only [Function.update_apply] at hto
    split_ifs at hto with heq
    have hold := (h target old).1 hto
    have hne : old ≠ ino := by
      rintro rfl
      exact heq (h.byPath_inj hto hpath)
    have hit : t.byIno i = some target ↔ i = old := ⟨fun hit => h.byIno_inj hit hold, fun hi => hi ▸ hold⟩
    simp only [hne, Ne, not_false_eq_true, if_true, Function.update_apply, hit]
    by_cases hi : i = ino
    · rw [if_neg (hi ▸ hne.symm), if_pos hi, if_pos hi]
    · rw [if_neg hi, if_neg hi]

theorem byPath_repath (h : Inverse t) (hpath : t.byPath path = some ino) (p : InodePath) :
    (t.repath path target).byPath p = if p = target then some ino else if p = path then none else t.byPath p := by
  have hlive : (t.byIno ino).isSome := by rw [(h path ino).1 hpath]; rfl
  simp only [repath, hpath, hlive, if_true]
  cases update t.byPath path none target with
  | none => simp only [Function.update_apply]
  | some old => simp only [Function.update_apply]

theorem inverse_repath (h : Inverse t) (path target : InodePath) : Inverse (t.repath path target) := by
  cases hpath : t.byPath path with
  | none =>
    rw [repath_unknown hpath]
    exact h
  | some ino =>
    intro p i
    rw [byPath_repath h hpath, byIno_repath h hpath]
    split_ifs with hp hi hit hpp hi hit hi hit
    · subst hp hi
      exact ⟨fun _ => rfl, fun _ => rfl⟩
    · exact ⟨fun heq => absurd (Option.some.inj heq).symm hi, nofun⟩
    · exact ⟨fun heq => absurd (Option.some.inj heq).symm hi, fun heq => absurd (hp ▸ heq) hit⟩
    · exact ⟨nofun, fun heq => absurd (Option.some.inj heq).symm hp⟩
    · exact ⟨nofun, nofun⟩
    · subst hpp
      exact ⟨nofun, fun heq => absurd (h.byIno_inj heq ((h p ino).1 hpath)) hi⟩
    · rw [hi]
      exact ⟨fun heq => absurd (h.byPath_inj heq hpath) hpp, fun heq => absurd (Option.some.inj heq).symm hp⟩
    · exact ⟨fun heq => absurd (Option.some.inj ((((h p i).1 heq)).symm.trans hit)) hp, nofun⟩
    · exact h p i

theorem remove_unknown (hino : t.byIno ino = none) : t.remove ino = t := by rw [remove, hino]

@[simp] theorem nextIno_remove : (t.remove ino).nextIno = t.nextIno := by
  unfold remove
  split <;> rfl

theorem byIno_remove (i : UInt64) : (t.remove ino).byIno i = if i = ino then none else t.byIno i := by
  cases hino : t.byIno ino with
  | none =>
    rw [remove_unknown hino]
    split_ifs with hi
    · rw [hi, hino]
    · rfl
  | some path => simp only [remove, hino, Function.update_apply]

theorem inverse_remove (h : Inverse t) (ino : UInt64) : Inverse (t.remove ino) := by
  cases hino : t.byIno ino with
  | none =>
    rw [remove_unknown hino]
    exact h
  | some path =>
    intro p i
    simp only [remove, hino, Function.update_apply]
    split_ifs with hp hi hi
    · exact ⟨nofun, nofun⟩
    · subst hp
      exact ⟨nofun, fun heq => absurd (h.byIno_inj heq hino) hi⟩
    · subst hi
      exact ⟨fun heq => absurd (Option.some.inj (((h p i).1 heq).symm.trans hino)) hp, nofun⟩
    · exact h p i

end InodeTable

end Y2q.Fuse
