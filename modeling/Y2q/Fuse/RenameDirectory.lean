/-
Renaming a directory in the inode table (`y2q-fuse/src/fs.rs`, `rename_directory`).

The keys that the server listed are moved first, then all the paths of a snapshot of the table. The snapshot is in the order of a hash map,
and is taken after the first moves. A pass that an error of the server cuts short is not a whole one.

- `renameListed`, `renameKnown`, `Step`: the two loops, and the steps of a run.
- `moved`: where a path goes. `Moving`: a table in the middle of a pass, when no path lands in the directory that is renamed.
- `renamed_iff`: a pass moves the whole directory exactly when that is so.
-/
import Mathlib.Tactic
import Y2q.Fuse.InodeTable
import Y2q.Daemon.Labels

namespace Y2q.Fuse

open Labels (stripPrefix stripPrefix_eq_some)

/-! ## The pass -/

/-- the key below `src`, below `dst` -/
def renamedKey (src dst key : String) : Option String := (stripPrefix (src ++ "/") key).map fun rest => dst ++ "/" ++ rest

/-- the directory itself, or one below it -/
def renamedDir (src dst pfx : String) : Option String := if pfx = src then some dst else renamedKey src dst pfx

namespace InodeTable

def renameListed (bucket src dst : String) (t : InodeTable) (listed : List String) : InodeTable :=
  listed.foldl (fun t key =>
    match renamedKey src dst key with
    | some newKey => t.repath (.object bucket key) (.object bucket newKey)
    | none => t) t

def renameKnown (bucket src dst : String) (t : InodeTable) : InodePath → InodeTable
  | .virtualDir b pfx =>
    if b = bucket then
      match renamedDir src dst pfx with
      | some np => t.repath (.virtualDir bucket pfx) (.virtualDir bucket np)
      | none => t
    else t
  | .object b key =>
    if b = bucket then
      match renamedKey src dst key with
      | some nk => if key ≠ nk then t.repath (.object bucket key) (.object bucket nk) else t
      | none => t
    else t
  | _ => t

/-- `paths`, in the order of the map -/
structure Paths (t : InodeTable) (snapshot : List (UInt64 × InodePath)) : Prop where
  nodup : snapshot.Nodup
  mem : ∀ ino path, (ino, path) ∈ snapshot ↔ t.byIno ino = some path

inductive Op where
  | getOrAssign (path : InodePath)
  | repath (path target : InodePath)
  | remove (ino : UInt64)
  | renameDirectory (bucket src dst : String) (listed : List String)

inductive Step (t : InodeTable) : Op → InodeTable → Prop where
  | getOrAssign (path : InodePath) : Step t (.getOrAssign path) (t.getOrAssign path).2
  | repath (path target : InodePath) : Step t (.repath path target) (t.repath path target)
  | remove (ino : UInt64) : Step t (.remove ino) (t.remove ino)
  | renameDirectory (bucket src dst : String) (listed : List String) {snapshot : List (UInt64 × InodePath)}
      (h : Paths (t.renameListed bucket src dst listed) snapshot) :
      Step t (.renameDirectory bucket src dst listed)
        ((snapshot.map Prod.snd).foldl (renameKnown bucket src dst) (t.renameListed bucket src dst listed))

/-! ## Where a path goes -/

def moved (bucket src dst : String) : InodePath → Option InodePath
  | .virtualDir b pfx => if b = bucket then (renamedDir src dst pfx).map (.virtualDir bucket) else none
  | .object b key => if b = bucket then (renamedKey src dst key).map (.object bucket) else none
  | _ => none

/-- the bucket and the name in it -/
def nameOf : InodePath → Option (String × String)
  | .virtualDir bucket pfx => some (bucket, pfx)
  | .object bucket key => some (bucket, key)
  | _ => none

def AtOrBelow (bucket src : String) (path : InodePath) : Prop :=
  ∃ name, nameOf path = some (bucket, name) ∧ (name = src ∨ ∃ rest, name = src ++ "/" ++ rest)

variable {bucket src dst : String} {t t₀ t' : InodeTable} {path target p q : InodePath} {ino i : UInt64}

theorem renamedKey_eq_some {key newKey : String} :
    renamedKey src dst key = some newKey ↔ ∃ rest, key = src ++ "/" ++ rest ∧ newKey = dst ++ "/" ++ rest := by
  rw [renamedKey, Option.map_eq_some_iff]
  simp only [stripPrefix_eq_some, eq_comm (b := newKey)]

theorem append_slash_inj {s a b : String} (h : s ++ "/" ++ a = s ++ "/" ++ b) : a = b := by
  rw [← String.toList_inj] at h ⊢
  simp only [String.toList_append] at h
  exact List.append_cancel_left h

theorem ne_append_slash (s a : String) : s ≠ s ++ "/" ++ a := by
  intro h
  have hlength := congrArg (fun s : String => s.toList.length) h
  simp only [String.toList_append, List.length_append] at hlength
  have hslash : "/".toList.length = 1 := rfl
  omega

theorem renamedKey_inj {a b c : String} (ha : renamedKey src dst a = some c) (hb : renamedKey src dst b = some c) : a = b := by
  obtain ⟨r, rfl, rfl⟩ := renamedKey_eq_some.1 ha
  obtain ⟨r', rfl, hr⟩ := renamedKey_eq_some.1 hb
  rw [append_slash_inj hr]

theorem renamedDir_inj {a b c : String} (ha : renamedDir src dst a = some c) (hb : renamedDir src dst b = some c) : a = b := by
  unfold renamedDir at ha hb
  split_ifs at ha hb with hasrc hbsrc hbsrc
  · rw [hasrc, hbsrc]
  · obtain ⟨r, -, hr⟩ := renamedKey_eq_some.1 hb
    exact absurd ((Option.some.inj ha).trans hr) (ne_append_slash _ _)
  · obtain ⟨r, -, hr⟩ := renamedKey_eq_some.1 ha
    exact absurd ((Option.some.inj hb).trans hr) (ne_append_slash _ _)
  · exact renamedKey_inj ha hb

theorem moved_inj (hp : moved bucket src dst p = some target) (hq : moved bucket src dst q = some target) : p = q := by
  cases p <;> cases q <;> simp only [moved, reduceCtorEq, Option.ite_none_right_eq_some, Option.map_eq_some_iff] at hp hq
  next =>
    obtain ⟨rfl, np, hp, rfl⟩ := hp
    obtain ⟨rfl, np', hq, heq⟩ := hq
    cases heq
    rw [renamedDir_inj hp hq]
  next =>
    obtain ⟨rfl, np, hp, rfl⟩ := hp
    obtain ⟨rfl, np', hq, heq⟩ := hq
    cases heq
  next =>
    obtain ⟨rfl, np, hp, rfl⟩ := hp
    obtain ⟨rfl, np', hq, heq⟩ := hq
    cases heq
  next =>
    obtain ⟨rfl, np, hp, rfl⟩ := hp
    obtain ⟨rfl, np', hq, heq⟩ := hq
    cases heq
    rw [renamedKey_inj hp hq]

/-- all that is in the directory goes somewhere; a file in its place does not -/
theorem atOrBelow_iff : AtOrBelow bucket src path ↔ (moved bucket src dst path).isSome ∨ path = .object bucket src := by
  have hkey (name : String) : (renamedKey src dst name).isSome ↔ ∃ rest, name = src ++ "/" ++ rest := by
    rw [Option.isSome_iff_exists]
    simp only [renamedKey_eq_some]
    exact ⟨fun ⟨_, rest, h, _⟩ => ⟨rest, h⟩, fun ⟨rest, h⟩ => ⟨_, rest, h, rfl⟩⟩
  unfold AtOrBelow
  cases path with
  | root => exact ⟨nofun, nofun⟩
  | bucket name => exact ⟨nofun, nofun⟩
  | virtualDir b pfx =>
    by_cases hb : b = bucket
    · subst hb
      simp only [nameOf, moved, if_true, Option.some.injEq, Prod.mk.injEq, true_and, exists_eq_left', Option.isSome_map, reduceCtorEq,
        or_false, renamedDir]
      split_ifs with hsrc
      · exact ⟨fun _ => rfl, fun _ => Or.inl hsrc⟩
      · rw [hkey, or_iff_right hsrc]
    · refine iff_of_false ?_ ?_
      · rintro ⟨name, hname, -⟩
        cases hname
        exact hb rfl
      · rw [moved, if_neg hb]
        exact not_or.2 ⟨Bool.false_ne_true, nofun⟩
  | object b key =>
    by_cases hb : b = bucket
    · subst hb
      simp only [nameOf, moved, if_true, Option.some.injEq, Prod.mk.injEq, true_and, exists_eq_left', Option.isSome_map,
        InodePath.object.injEq, hkey]
      exact or_comm
    · refine iff_of_false ?_ ?_
      · rintro ⟨name, hname, -⟩
        cases hname
        exact hb rfl
      · rw [moved, if_neg hb]
        exact not_or.2 ⟨Bool.false_ne_true, fun heq => hb (InodePath.object.inj heq).1⟩

theorem atOrBelow_of_moved (h : moved bucket src dst path = some target) : AtOrBelow bucket src path :=
  (@atOrBelow_iff bucket src dst path).2 (Or.inl (Option.isSome_iff_exists.2 ⟨target, h⟩))

/-! ## Moves in a row -/

theorem repath_self (h : Inverse t) (path : InodePath) : t.repath path path = t := by
  cases hpath : t.byPath path with
  | none => exact repath_unknown hpath
  | some ino =>
    have hino := (h path ino).1 hpath
    simp only [repath, hpath, hino, Option.isSome_some, if_true, Function.update_self, Function.update_idem]
    rw [Function.update_eq_self_iff.2 hino.symm, Function.update_eq_self_iff.2 hpath.symm]

def repathAll (t : InodeTable) (moves : List (InodePath × InodePath)) : InodeTable := moves.foldl (fun t m => t.repath m.1 m.2) t

theorem inverse_repathAll (h : Inverse t) (moves : List (InodePath × InodePath)) : Inverse (t.repathAll moves) := by
  induction moves generalizing t with
  | nil => exact h
  | cons m moves ih => exact ih (inverse_repath h m.1 m.2)

theorem renameListed_eq (t : InodeTable) (listed : List String) :
    t.renameListed bucket src dst listed = t.repathAll
      (listed.filterMap fun key => (renamedKey src dst key).map fun newKey => (.object bucket key, .object bucket newKey)) := by
  induction listed generalizing t with
  | nil => rfl
  | cons key listed ih =>
    rw [renameListed, List.foldl_cons, ← renameListed, ih]
    cases hkey : renamedKey src dst key with
    | none => rw [List.filterMap_cons_none (by rw [hkey]; rfl)]
    | some newKey =>
      rw [List.filterMap_cons_some (by rw [hkey]; rfl)]
      rfl

theorem renameKnown_eq (h : Inverse t) (path : InodePath) :
    t.renameKnown bucket src dst path = (moved bucket src dst path).elim t fun target => t.repath path target := by
  cases path with
  | root => rfl
  | bucket name => rfl
  | virtualDir b pfx =>
    rw [renameKnown, moved]
    split_ifs with hb
    · subst hb
      cases renamedDir src dst pfx <;> rfl
    · rfl
  | object b key =>
    rw [renameKnown, moved]
    split_ifs with hb
    · subst hb
      cases renamedKey src dst key with
      | none => rfl
      | some nk =>
        show (if key ≠ nk then t.repath (.object b key) (.object b nk) else t) = t.repath (.object b key) (.object b nk)
        split_ifs with hnk
        · rfl
        · rw [not_not.1 hnk, repath_self h]
    · rfl

theorem renameAll_eq (h : Inverse t) (paths : List InodePath) :
    paths.foldl (renameKnown bucket src dst) t =
      t.repathAll (paths.filterMap fun path => (moved bucket src dst path).map fun target => (path, target)) := by
  induction paths generalizing t with
  | nil => rfl
  | cons path paths ih =>
    rw [List.foldl_cons, renameKnown_eq h]
    cases hpath : moved bucket src dst path with
    | none =>
      rw [List.filterMap_cons_none (by rw [hpath]; rfl)]
      exact ih h
    | some target =>
      rw [List.filterMap_cons_some (by rw [hpath]; rfl), repathAll, List.foldl_cons, ← repathAll]
      exact ih (inverse_repath h path target)

/-! ## In the middle of a pass -/

section Moving

variable {f : InodePath → Option InodePath}

/-- no path of the table goes to where others go away from -/
def Apart (f : InodePath → Option InodePath) (t : InodeTable) : Prop :=
  ∀ path target, (t.byPath path).isSome → f path = some target → f target = none

/-- a path that `f` moves is where it was or has been moved, and nothing else is at a new path -/
structure Moving (f : InodePath → Option InodePath) (t₀ t : InodeTable) : Prop where
  inverse : Inverse t
  kept : ∀ ino path target, t₀.byIno ino = some path → f path = some target → t.byIno ino = some path ∨ t.byIno ino = some target
  origin : ∀ ino path, t.byIno ino = some path → t₀.byIno ino = some path ∨ ∃ path₀, t₀.byIno ino = some path₀ ∧ f path₀ = some path

theorem Moving.refl (h : Inverse t) : Moving f t t := ⟨h, fun _ _ _ hino _ => Or.inl hino, fun _ _ => Or.inl⟩

/-- who is still in the directory has not moved yet -/
theorem Moving.origin_of_source (h₀ : Inverse t₀) (hapart : Apart f t₀) (h : Moving f t₀ t) (hf : (f path).isSome)
    (hino : t.byIno ino = some path) : t₀.byIno ino = some path := by
  rcases h.origin ino path hino with hsame | ⟨path₀, hpath₀, hf₀⟩
  · exact hsame
  · rw [hapart path₀ path (by rw [(h₀ path₀ ino).2 hpath₀]; rfl) hf₀] at hf
    exact absurd hf Bool.false_ne_true

/-- one move: all that `f` moves stays as it was, but for what was at `path` -/
theorem Moving.byIno_repath_of_ne (hinj : ∀ p q target, f p = some target → f q = some target → p = q) (h₀ : Inverse t₀)
    (hapart : Apart f t₀) (h : Moving f t₀ t) (hf : f path = some target) {path₀ target₀ : InodePath}
    (hino₀ : t₀.byIno ino = some path₀) (hf₀ : f path₀ = some target₀) (hne : path₀ ≠ path) :
    (t.repath path target).byIno ino = t.byIno ino := by
  cases hpath : t.byPath path with
  | none => rw [repath_unknown hpath]
  | some j =>
    have hj₀ := h.origin_of_source h₀ hapart (by rw [hf]; rfl) ((h.inverse path j).1 hpath)
    have hij : ino ≠ j := by
      rintro rfl
      exact hne (Option.some.inj (hino₀.symm.trans hj₀))
    rw [byIno_repath h.inverse hpath, if_neg hij, if_neg]
    intro htarget
    rcases h.kept ino path₀ target₀ hino₀ hf₀ with hold | hnew
    · rw [Option.some.inj (hold.symm.trans htarget), hapart path target (by rw [(h₀ path j).2 hj₀]; rfl) hf] at hf₀
      cases hf₀
    · exact hne (hinj path₀ path target (by rw [hf₀, ← hnew, htarget]) hf)

theorem Moving.byIno_repath_self (h₀ : Inverse t₀) (hapart : Apart f t₀) (h : Moving f t₀ t) (hf : f path = some target)
    (hino₀ : t₀.byIno ino = some path) : (t.repath path target).byIno ino = some target := by
  cases hpath : t.byPath path with
  | none =>
    rw [repath_unknown hpath]
    refine (h.kept ino path target hino₀ hf).resolve_left fun hino => ?_
    rw [(h.inverse path ino).2 hino] at hpath
    cases hpath
  | some j =>
    have hj₀ := h.origin_of_source h₀ hapart (by rw [hf]; rfl) ((h.inverse path j).1 hpath)
    rw [byIno_repath h.inverse hpath, if_pos (h₀.byIno_inj hino₀ hj₀)]

theorem Moving.repath (hinj : ∀ p q target, f p = some target → f q = some target → p = q) (h₀ : Inverse t₀) (hapart : Apart f t₀)
    (h : Moving f t₀ t) (hf : f path = some target) : Moving f t₀ (t.repath path target) := by
  refine ⟨inverse_repath h.inverse path target, fun ino path₀ target₀ hino₀ hf₀ => ?_, fun ino p hino => ?_⟩
  · by_cases heq : path₀ = path
    · subst heq
      rw [hf] at hf₀
      cases hf₀
      exact Or.inr (h.byIno_repath_self h₀ hapart hf hino₀)
    · rw [h.byIno_repath_of_ne hinj h₀ hapart hf hino₀ hf₀ heq]
      exact h.kept ino path₀ target₀ hino₀ hf₀
  · cases hpath : t.byPath path with
    | none =>
      rw [repath_unknown hpath] at hino
      exact h.origin ino p hino
    | some j =>
      rw [byIno_repath h.inverse hpath] at hino
      split_ifs at hino with hij
      · cases hino
        have hj := (h.inverse path j).1 hpath
        exact Or.inr ⟨path, hij ▸ h.origin_of_source h₀ hapart (by rw [hf]; rfl) hj, hf⟩
      · exact h.origin ino p hino

/-- what is moved in a row, or has been moved before, is where it goes -/
theorem Moving.repathAll (hinj : ∀ p q target, f p = some target → f q = some target → p = q) (h₀ : Inverse t₀) (hapart : Apart f t₀)
    (h : Moving f t₀ t) {moves : List (InodePath × InodePath)} (hmoves : ∀ m ∈ moves, f m.1 = some m.2) :
    Moving f t₀ (t.repathAll moves) ∧ ∀ ino path target, t₀.byIno ino = some path → f path = some target →
      (path, target) ∈ moves ∨ t.byIno ino = some target → (t.repathAll moves).byIno ino = some target := by
  induction moves generalizing t with
  | nil => exact ⟨h, fun ino path target _ _ hdone => hdone.resolve_left List.not_mem_nil⟩
  | cons m moves ih =>
    have hm := hmoves m List.mem_cons_self
    obtain ⟨hmoving, hdone⟩ := ih (h.repath hinj h₀ hapart hm) fun m' hm' => hmoves m' (List.mem_cons_of_mem m hm')
    refine ⟨hmoving, fun ino path target hino₀ hf hwhich => hdone ino path target hino₀ hf ?_⟩
    by_cases heq : path = m.1
    · subst heq
      rw [hm] at hf
      cases hf
      exact Or.inr (h.byIno_repath_self h₀ hapart hm hino₀)
    · rw [h.byIno_repath_of_ne hinj h₀ hapart hm hino₀ hf heq]
      exact hwhich.imp_left fun hmem => (List.mem_cons.1 hmem).resolve_left fun h => heq (congrArg Prod.fst h)

end Moving

/-! ## A whole pass -/

/-- nothing is left at `src` or below, and all that was there is at or below `dst` -/
def Renamed (bucket src dst : String) (t t' : InodeTable) : Prop :=
  (∀ path, AtOrBelow bucket src path → t'.byPath path = none) ∧
  ∀ ino path target, t.byIno ino = some path → moved bucket src dst path = some target → t'.byIno ino = some target

/-- no path of the directory lands in it again, and no file is in its place -/
def Clear (bucket src dst : String) (t : InodeTable) : Prop :=
  (∀ path target, (t.byPath path).isSome → moved bucket src dst path = some target → ¬AtOrBelow bucket src target) ∧
  t.byPath (.object bucket src) = none

theorem Clear.apart (h : Clear bucket src dst t) : Apart (moved bucket src dst) t := by
  intro path target hpath hmoved
  rw [← Option.not_isSome_iff_eq_none]
  exact fun hsome => h.1 path target hpath hmoved (atOrBelow_iff.2 (Or.inl hsome))

theorem moves_of_pairs {paths : List InodePath} {m : InodePath × InodePath}
    (hm : m ∈ paths.filterMap fun path => (moved bucket src dst path).map fun target => (path, target)) :
    moved bucket src dst m.1 = some m.2 := by
  obtain ⟨path, -, hpath⟩ := List.mem_filterMap.1 hm
  obtain ⟨target, htarget, rfl⟩ := Option.map_eq_some_iff.1 hpath
  exact htarget

theorem moves_of_listed {listed : List String} {m : InodePath × InodePath}
    (hm : m ∈ listed.filterMap fun key =>
      (renamedKey src dst key).map fun newKey => (InodePath.object bucket key, InodePath.object bucket newKey)) :
    moved bucket src dst m.1 = some m.2 := by
  obtain ⟨key, -, hkey⟩ := List.mem_filterMap.1 hm
  obtain ⟨newKey, hnew, rfl⟩ := Option.map_eq_some_iff.1 hkey
  rw [moved, if_pos rfl, hnew]
  rfl

/-- a path that goes nowhere stays in the table -/
theorem isSome_byPath_repathAll (h : Inverse t) {moves : List (InodePath × InodePath)} (hmoves : ∀ m ∈ moves, m.1 ≠ p)
    (hp : (t.byPath p).isSome) : ((t.repathAll moves).byPath p).isSome := by
  induction moves generalizing t with
  | nil => exact hp
  | cons m moves ih =>
    refine ih (inverse_repath h m.1 m.2) (fun m' hm' => hmoves m' (List.mem_cons_of_mem m hm')) ?_
    show ((t.repath m.1 m.2).byPath p).isSome
    cases hpath : t.byPath m.1 with
    | none => rwa [repath_unknown hpath]
    | some ino =>
      rw [byPath_repath h hpath]
      split_ifs with htarget hsource
      · rfl
      · exact absurd hsource.symm (hmoves m List.mem_cons_self)
      · exact hp

/-- two loops of moves: the listing's, and then all that is still in the directory -/
theorem renameDirectory_eq (h : Inverse t) {listed : List String} (hstep : Step t (.renameDirectory bucket src dst listed) t') :
    ∃ moves known, (∀ m ∈ moves, moved bucket src dst m.1 = some m.2) ∧ (∀ m ∈ known, moved bucket src dst m.1 = some m.2) ∧
      (∀ ino path target, (t.repathAll moves).byIno ino = some path → moved bucket src dst path = some target → (path, target) ∈ known) ∧
      t' = (t.repathAll moves).repathAll known := by
  cases hstep with
  | @renameDirectory _ _ _ _ snapshot hpaths =>
    rw [renameListed_eq] at hpaths ⊢
    refine ⟨_, _, fun m => moves_of_listed, fun m => moves_of_pairs, fun ino path target hino hmoved => ?_, renameAll_eq (inverse_repathAll h _) _⟩
    refine List.mem_filterMap.2 ⟨path, List.mem_map.2 ⟨(ino, path), (hpaths.mem ino path).2 hino, rfl⟩, ?_⟩
    rw [hmoved]
    rfl

/-- a file in the place of the directory goes nowhere -/
theorem moved_file (bucket src dst : String) : moved bucket src dst (.object bucket src) = none := by
  rw [moved, if_pos rfl, Option.map_eq_none_iff, Option.eq_none_iff_forall_ne_some]
  intro newKey hnew
  obtain ⟨rest, hrest, -⟩ := renamedKey_eq_some.1 hnew
  exact ne_append_slash _ _ hrest

theorem clear_of_renamed (h : Inverse t) {listed : List String} (hstep : Step t (.renameDirectory bucket src dst listed) t')
    (hrenamed : Renamed bucket src dst t t') : Clear bucket src dst t := by
  obtain ⟨moves, known, hmoves, hknown, -, rfl⟩ := renameDirectory_eq h hstep
  have hinverse := inverse_repathAll h moves
  obtain ⟨hnone, hthere⟩ := hrenamed
  refine ⟨fun path target hpath hmoved hin => ?_, ?_⟩
  · obtain ⟨ino, hino⟩ := Option.isSome_iff_exists.1 hpath
    have htarget := (inverse_repathAll hinverse known target ino).2 (hthere ino path target ((h path ino).1 hino) hmoved)
    rw [hnone target hin] at htarget
    cases htarget
  · have hstays {m : InodePath × InodePath} (hm : moved bucket src dst m.1 = some m.2) : m.1 ≠ .object bucket src := by
      intro heq
      rw [heq, moved_file] at hm
      cases hm
    rw [← Option.not_isSome_iff_eq_none]
    intro hsome
    have hafter := isSome_byPath_repathAll hinverse (fun m hm => hstays (hknown m hm))
      (isSome_byPath_repathAll h (fun m hm => hstays (hmoves m hm)) hsome)
    rw [hnone _ ((@atOrBelow_iff bucket src dst _).2 (Or.inr rfl))] at hafter
    exact Bool.false_ne_true hafter

theorem renamed_of_clear (h : Inverse t) {listed : List String} (hstep : Step t (.renameDirectory bucket src dst listed) t')
    (hclear : Clear bucket src dst t) : Renamed bucket src dst t t' := by
  obtain ⟨moves, known, hmoves, hknown, hall, rfl⟩ := renameDirectory_eq h hstep
  have hapart := hclear.apart
  obtain ⟨hmid, -⟩ := (Moving.refl h).repathAll (fun _ _ _ => moved_inj) h hapart hmoves
  obtain ⟨hend, hdone⟩ := hmid.repathAll (fun _ _ _ => moved_inj) h hapart hknown
  have hthere (ino : UInt64) (path target : InodePath) (hino : t.byIno ino = some path) (hmoved : moved bucket src dst path = some target) :
      ((t.repathAll moves).repathAll known).byIno ino = some target :=
    hdone ino path target hino hmoved ((hmid.kept ino path target hino hmoved).imp_left fun hstill => hall ino path target hstill hmoved)
  refine ⟨fun path hin => ?_, hthere⟩
  rw [← Option.not_isSome_iff_eq_none]
  intro hsome
  obtain ⟨ino, hino⟩ := Option.isSome_iff_exists.1 hsome
  replace hino := (hend.inverse path ino).1 hino
  rcases hend.origin ino path hino with hsame | ⟨path₀, hino₀, hmoved⟩
  · have htracked : (t.byPath path).isSome := by rw [(h path ino).2 hsame]; rfl
    rcases (@atOrBelow_iff bucket src dst path).1 hin with hgoes | rfl
    · obtain ⟨target, htarget⟩ := Option.isSome_iff_exists.1 hgoes
      have heq : path = target := Option.some.inj (hino.symm.trans (hthere ino path target hsame htarget))
      exact hclear.1 path target htracked htarget (heq ▸ hin)
    · rw [hclear.2] at htracked
      exact Bool.false_ne_true htracked
  · exact hclear.1 path₀ path (by rw [(h path₀ ino).2 hino₀]; rfl) hmoved hin

theorem renamed_iff (h : Inverse t) {listed : List String} (hstep : Step t (.renameDirectory bucket src dst listed) t') :
    Renamed bucket src dst t t' ↔ Clear bucket src dst t :=
  ⟨clear_of_renamed h hstep, renamed_of_clear h hstep⟩

end InodeTable

end Y2q.Fuse
