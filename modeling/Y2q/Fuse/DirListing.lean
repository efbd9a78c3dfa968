/-
The children of a directory, and the reply to one `readdir` (`y2q-fuse/src/dir.rs`, `readdir` and `lookup` in `fs.rs`).

Each call lists the directory again, into hash containers of its own: their order is an argument of the call. The directories of `mkdir` are
in one set that the calls share. A reply goes on at an offset into the list of its own call, for as many entries as the buffer has room for.

- `classify`, `listed`, `listChildren`: what the server's keys say. `mem_listed_file`, `mem_listed_dir`: in terms of the keys.
- `addChildren`, `addLocals`, `entries`, `readdir`: the entries, with their inode numbers. `lookup`: one name.
- `names`: the kinds and names of the entries. `Known`: an entry has the number that the table has for its path.
-/
import Mathlib.Tactic
import Y2q.Core.Text
import Y2q.Daemon.Labels
import Y2q.Fuse.InodeTable

namespace Y2q.Fuse

open Labels (stripPrefix stripPrefix_eq_some)

/-! ## Names -/

def MAX_NAME_LEN : ℕ := 255

def isSafeChildName (name : String) : Bool :=
  name ≠ "" && name ≠ "." && name ≠ ".." && !name.toList.contains '\x00' && decide ((utf8 name).length ≤ MAX_NAME_LEN)

def isValidEntryName (name : String) : Bool :=
  name ≠ "" && name ≠ "." && name ≠ ".." && !name.toList.contains '/' && !name.toList.contains '\x00'

/-- `split_once('/')` -/
def splitSlash (s : String) : Option (String × String) :=
  match s.toList.dropWhile (· ≠ '/') with
  | [] => none
  | _ :: rest => some (String.ofList (s.toList.takeWhile (· ≠ '/')), String.ofList rest)

theorem splitSlash_eq_none {s : String} (h : '/' ∉ s.toList) : splitSlash s = none := by
  have hall : ∀ c ∈ s.toList, decide (c ≠ '/') = true := fun c hc => decide_eq_true (ne_of_mem_of_not_mem hc h)
  rw [splitSlash, ← List.append_nil s.toList, List.dropWhile_append_of_pos hall, List.dropWhile_nil]

theorem splitSlash_append {a b : String} (h : '/' ∉ a.toList) : splitSlash (a ++ "/" ++ b) = some (a, b) := by
  have hlist : (a ++ "/" ++ b).toList = a.toList ++ '/' :: b.toList := by
    rw [String.toList_append, String.toList_append, List.append_assoc]
    rfl
  have hall : ∀ c ∈ a.toList, decide (c ≠ '/') = true := fun c hc => decide_eq_true (ne_of_mem_of_not_mem hc h)
  have hdrop : (a.toList ++ '/' :: b.toList).dropWhile (fun c => decide (c ≠ '/')) = '/' :: b.toList := by
    rw [List.dropWhile_append_of_pos hall]
    rfl
  have htake : (a.toList ++ '/' :: b.toList).takeWhile (fun c => decide (c ≠ '/')) = a.toList := by
    rw [List.takeWhile_append_of_pos hall, List.takeWhile_cons_of_neg (by decide), List.append_nil]
  rw [splitSlash, hlist, hdrop]
  simp only [htake, String.ofList_toList]

/-- no slash, or a first one -/
theorem slash_cases (s : String) : '/' ∉ s.toList ∨ ∃ a b, s = a ++ "/" ++ b ∧ '/' ∉ a.toList := by
  by_cases h : '/' ∈ s.toList
  · obtain ⟨a, b, hs, ha⟩ := List.eq_append_cons_of_mem h
    refine Or.inr ⟨String.ofList a, String.ofList b, ?_, by rwa [String.toList_ofList]⟩
    rw [← String.toList_inj, hs]
    simp only [String.toList_append, String.toList_ofList, List.append_assoc]
    rfl
  · exact Or.inl h

/-! ## The server's listing -/

inductive FileType where
  | directory
  | regularFile
  deriving DecidableEq

/-- the child that a key of the listing stands for -/
def classify (pfx key : String) : Option (FileType × String) :=
  let remainder := (stripPrefix pfx key).getD key
  if remainder = "" then none
  else
    match splitSlash remainder with
    | none => if isSafeChildName remainder then some (.regularFile, remainder) else none
    | some (dirName, _) => if isSafeChildName dirName then some (.directory, dirName) else none

/-- all pages of `list_objects` -/
def listObjects (keys : List String) (pfx : String) : List String := keys.filter fun key => pfx.toList.isPrefixOf key.toList

def listed (keys : List String) (pfx : String) : List (FileType × String) := (listObjects keys pfx).filterMap (classify pfx)

/-- the order of the map of files and of the set of directories, in one call -/
structure Order (keys : List String) (pfx : String) where
  files : List String
  dirs : List String
  nodup_files : files.Nodup
  nodup_dirs : dirs.Nodup
  mem_files : ∀ name, name ∈ files ↔ (.regularFile, name) ∈ listed keys pfx
  mem_dirs : ∀ name, name ∈ dirs ↔ (.directory, name) ∈ listed keys pfx

/-- a directory with the name of a file gets another name, or is left out -/
def dirEntryName (files : List String) (dirName : String) : Option String :=
  if dirName ∈ files then
    let escaped := dirName ++ "~dir"
    if !isSafeChildName escaped || files.contains escaped then none else some escaped
  else some dirName

def listChildren {keys : List String} {pfx : String} (o : Order keys pfx) : List (FileType × String) :=
  o.files.map (.regularFile, ·) ++ (o.dirs.filterMap (dirEntryName o.files)).map (.directory, ·)

/-! ## Directories -/

/-- a bucket, with no `prefixStr`, or a directory in it -/
structure Directory where
  bucket : String
  prefixStr : String

namespace Directory

def listPrefix (d : Directory) : String := if d.prefixStr = "" then "" else d.prefixStr ++ "/"

def child (d : Directory) (name : String) : String := if d.prefixStr = "" then name else d.prefixStr ++ "/" ++ name

/-- the path of an entry -/
def childPath (d : Directory) (kind : FileType) (name : String) : InodePath :=
  match kind with
  | .directory => .virtualDir d.bucket (d.child name)
  | .regularFile => .object d.bucket (d.child name)

/-- up to the last slash -/
def parentPath (d : Directory) : InodePath :=
  match d.prefixStr.toList.reverse.dropWhile (· ≠ '/') with
  | [] => .bucket d.bucket
  | _ :: rest => .virtualDir d.bucket (String.ofList rest.reverse)

/-- the name of a directory of `mkdir`, if it is a child -/
def localChild (d : Directory) (lpfx : String) : Option String :=
  if d.prefixStr = "" then
    if lpfx.toList.contains '/' then none else some lpfx
  else
    match stripPrefix (d.prefixStr ++ "/") lpfx with
    | none => none
    | some rest => if rest = "" || rest.toList.contains '/' then none else some rest

theorem child_eq (d : Directory) (name : String) : d.child name = d.listPrefix ++ name := by
  rw [child, listPrefix]
  split_ifs
  · rw [String.empty_append]
  · rfl

theorem child_inj {d : Directory} {a b : String} (h : d.child a = d.child b) : a = b := by
  rw [child_eq, child_eq, ← String.toList_inj, String.toList_append, String.toList_append] at h
  exact String.toList_inj.1 (List.append_cancel_left h)

end Directory

/-- the keys of the buckets, and the directories of `mkdir` in the order of their set; `mkdir` takes valid names only -/
structure Mount where
  keys : String → List String
  localDirs : List (String × String)
  nodup : localDirs.Nodup
  valid : ∀ (d : Directory) (name : String), (d.bucket, d.child name) ∈ localDirs → '/' ∉ name.toList → isValidEntryName name

/-! ## One reply -/

structure DirEntry where
  ino : UInt64
  kind : FileType
  name : String

def addChildren (d : Directory) : InodeTable → List (FileType × String) → List DirEntry × InodeTable
  | t, [] => ([], t)
  | t, (kind, name) :: rest =>
    let (cino, t) := t.getOrAssign (d.childPath kind name)
    let (es, t) := addChildren d t rest
    (⟨cino, kind, name⟩ :: es, t)

/-- those of other buckets, those deeper down and those listed already are passed over -/
def addLocals (d : Directory) : InodeTable → List String → List (String × String) → List DirEntry × InodeTable
  | t, _, [] => ([], t)
  | t, seen, (lbucket, lpfx) :: rest =>
    if lbucket ≠ d.bucket then addLocals d t seen rest
    else
      match d.localChild lpfx with
      | none => addLocals d t seen rest
      | some name =>
        if name ∈ seen then addLocals d t seen rest
        else
          let (cino, t) := t.getOrAssign (.virtualDir d.bucket lpfx)
          let (es, t) := addLocals d t (name :: seen) rest
          (⟨cino, .directory, name⟩ :: es, t)

variable (w : Mount) (d : Directory)

/-- the parent of a bucket is the root -/
def parentIno (t : InodeTable) : UInt64 × InodeTable := if d.prefixStr = "" then (ROOT_INO, t) else t.getOrAssign d.parentPath

def entries (t : InodeTable) (ino : UInt64) (o : Order (w.keys d.bucket) d.listPrefix) : List DirEntry × InodeTable :=
  let (parent, t) := parentIno d t
  let (children, t) := addChildren d t (listChildren o)
  let (locals, t) := addLocals d t ((listChildren o).map Prod.snd) w.localDirs
  ([⟨ino, .directory, "."⟩, ⟨parent, .directory, ".."⟩] ++ children ++ locals, t)

/-- the entries with the offsets after them, from `offset` on, as many as there is `room` for -/
def readdir (t : InodeTable) (ino : UInt64) (o : Order (w.keys d.bucket) d.listPrefix) (offset room : ℕ) :
    List (DirEntry × ℕ) × InodeTable :=
  let (es, t) := entries w d t ino o
  (((es.zipIdx 1).drop offset).take room, t)

/-! ## One name -/

inductive Errno where
  | EINVAL
  | ENOENT

local instance lawfulBEqDir : LawfulBEq (String × String) := inferInstance

/-- a key, or a directory of the listing, or one of `mkdir` -/
def lookup (t : InodeTable) (name : String) : Except Errno (UInt64 × FileType) × InodeTable :=
  if !isValidEntryName name then (.error .EINVAL, t)
  else
    let key := d.child name
    if key ∈ w.keys d.bucket then
      let (ino, t) := t.getOrAssign (.object d.bucket key)
      (.ok (ino, .regularFile), t)
    else if listObjects (w.keys d.bucket) (key ++ "/") ≠ [] then
      let (ino, t) := t.getOrAssign (.virtualDir d.bucket key)
      (.ok (ino, .directory), t)
    else if (d.bucket, key) ∈ w.localDirs then
      let (ino, t) := t.getOrAssign (.virtualDir d.bucket key)
      (.ok (ino, .directory), t)
    else (.error .ENOENT, t)

/-! ## What is listed -/

variable {w d} {keys : List String} {pfx name : String} {t t' : InodeTable} {kind : FileType}

theorem mem_listObjects {key : String} : key ∈ listObjects keys pfx ↔ key ∈ keys ∧ ∃ rest, key = pfx ++ rest := by
  rw [listObjects, List.mem_filter, List.isPrefixOf_iff_prefix]
  refine and_congr_right fun _ => ⟨fun ⟨rest, h⟩ => ⟨String.ofList rest, ?_⟩, fun ⟨rest, h⟩ => ⟨rest.toList, ?_⟩⟩
  · rw [← String.toList_inj, String.toList_append, String.toList_ofList, h]
  · rw [h, String.toList_append]

theorem mem_listed {c : FileType × String} : c ∈ listed keys pfx ↔ ∃ rest, pfx ++ rest ∈ keys ∧ classify pfx (pfx ++ rest) = some c := by
  rw [listed, List.mem_filterMap]
  constructor
  · rintro ⟨key, hkey, hc⟩
    obtain ⟨hmem, rest, rfl⟩ := mem_listObjects.1 hkey
    exact ⟨rest, hmem, hc⟩
  · rintro ⟨rest, hmem, hc⟩
    exact ⟨pfx ++ rest, mem_listObjects.2 ⟨hmem, rest, rfl⟩, hc⟩

theorem ne_empty_of_safe (h : isSafeChildName name = true) : name ≠ "" := by
  rintro rfl
  exact absurd h (by decide)

theorem classify_file (h : '/' ∉ name.toList) :
    classify pfx (pfx ++ name) = if isSafeChildName name then some (.regularFile, name) else none := by
  rw [classify, stripPrefix_eq_some.2 rfl, Option.getD_some]
  simp only [splitSlash_eq_none h]
  split_ifs with hempty hsafe
  · exact absurd hempty (ne_empty_of_safe hsafe)
  · rfl
  · rfl
  · rfl

theorem classify_dir {rest : String} (h : '/' ∉ name.toList) :
    classify pfx (pfx ++ (name ++ "/" ++ rest)) = if isSafeChildName name then some (.directory, name) else none := by
  have hne : name ++ "/" ++ rest ≠ "" := by
    intro heq
    have hlength := congrArg (fun s : String => s.toList.length) heq
    simp only [String.toList_append, List.length_append] at hlength
    have hslash : "/".toList.length = 1 := rfl
    have hempty : "".toList.length = 0 := rfl
    omega
  rw [classify, stripPrefix_eq_some.2 rfl, Option.getD_some]
  simp only [if_neg hne, splitSlash_append h]

theorem mem_listed_file :
    (.regularFile, name) ∈ listed keys pfx ↔ isSafeChildName name = true ∧ '/' ∉ name.toList ∧ pfx ++ name ∈ keys := by
  rw [mem_listed]
  constructor
  · rintro ⟨rest, hmem, hc⟩
    rcases slash_cases rest with hno | ⟨a, b, rfl, hno⟩
    · rw [classify_file hno] at hc
      split_ifs at hc with hsafe
      cases hc
      exact ⟨hsafe, hno, hmem⟩
    · rw [classify_dir hno] at hc
      split_ifs at hc
      cases hc
  · rintro ⟨hsafe, hno, hmem⟩
    exact ⟨name, hmem, by rw [classify_file hno, if_pos hsafe]⟩

theorem mem_listed_dir :
    (.directory, name) ∈ listed keys pfx ↔
      isSafeChildName name = true ∧ '/' ∉ name.toList ∧ ∃ rest, pfx ++ (name ++ "/" ++ rest) ∈ keys := by
  rw [mem_listed]
  constructor
  · rintro ⟨rest, hmem, hc⟩
    rcases slash_cases rest with hno | ⟨a, b, rfl, hno⟩
    · rw [classify_file hno] at hc
      split_ifs at hc
      cases hc
    · rw [classify_dir hno] at hc
      split_ifs at hc with hsafe
      cases hc
      exact ⟨hsafe, hno, b, hmem⟩
  · rintro ⟨hsafe, hno, rest, hmem⟩
    exact ⟨_, hmem, by rw [classify_dir hno, if_pos hsafe]⟩

/-- the names that are passed over are those of the listing -/
theorem safe_of_mem_listChildren {o : Order keys pfx} (h : (kind, name) ∈ listChildren o) : isSafeChildName name = true := by
  rcases List.mem_append.1 h with h | h
  · obtain ⟨n, hn, heq⟩ := List.mem_map.1 h
    cases heq
    exact (mem_listed_file.1 ((o.mem_files name).1 hn)).1
  · obtain ⟨n, hn, heq⟩ := List.mem_map.1 h
    cases heq
    obtain ⟨dir, hdir, hentry⟩ := List.mem_filterMap.1 hn
    simp only [dirEntryName] at hentry
    split_ifs at hentry with hshadowed hbad
    · cases hentry
      cases hsafe : isSafeChildName (dir ++ "~dir") with
      | false => exact absurd (by rw [hsafe]; rfl) hbad
      | true => rfl
    · cases hentry
      exact (mem_listed_dir.1 ((o.mem_dirs name).1 hdir)).1

/-! ## Directories of `mkdir` -/

theorem localChild_eq_some {lpfx : String} (h : d.localChild lpfx = some name) : lpfx = d.child name ∧ '/' ∉ name.toList := by
  rw [Directory.localChild] at h
  rw [Directory.child]
  split_ifs at h ⊢ with hroot hslash
  · cases h
    exact ⟨rfl, fun hmem => hslash (List.contains_iff_mem.2 hmem)⟩
  · cases hstrip : stripPrefix (d.prefixStr ++ "/") lpfx with
    | none =>
      rw [hstrip] at h
      cases h
    | some rest =>
      rw [hstrip] at h
      simp only [Option.ite_none_left_eq_some, Bool.or_eq_true, not_or, Option.some.injEq] at h
      obtain ⟨⟨-, hslash⟩, rfl⟩ := h
      exact ⟨stripPrefix_eq_some.1 hstrip, fun hmem => hslash (List.contains_iff_mem.2 hmem)⟩

theorem localChild_child (hno : '/' ∉ name.toList) (hne : name ≠ "") : d.localChild (d.child name) = some name := by
  have hcontains : name.toList.contains '/' = false := by
    rw [← Bool.not_eq_true, List.contains_iff_mem]
    exact hno
  rw [Directory.localChild, Directory.child]
  split_ifs with hroot hslash
  · rw [hcontains] at hslash
    cases hslash
  · rfl
  · rw [stripPrefix_eq_some.2 rfl]
    simp only [hcontains, Bool.or_false, decide_eq_true_eq, if_neg hne]

theorem ne_of_valid (h : isValidEntryName name = true) : name ≠ "" ∧ name ≠ "." ∧ name ≠ ".." ∧ '/' ∉ name.toList := by
  simp only [isValidEntryName, Bool.and_eq_true, decide_eq_true_eq, Bool.not_eq_true', ne_eq] at h
  obtain ⟨⟨⟨⟨hempty, hdot⟩, hdots⟩, hslash⟩, -⟩ := h
  refine ⟨hempty, hdot, hdots, fun hmem => ?_⟩
  rw [List.contains_iff_mem.2 hmem] at hslash
  cases hslash

theorem valid_of_safe (h : isSafeChildName name = true) (hno : '/' ∉ name.toList) : isValidEntryName name = true := by
  have hcontains : name.toList.contains '/' = false := by
    rw [← Bool.not_eq_true, List.contains_iff_mem]
    exact hno
  simp only [isSafeChildName, Bool.and_eq_true] at h
  obtain ⟨⟨⟨⟨hempty, hdot⟩, hdots⟩, hnul⟩, -⟩ := h
  simp only [isValidEntryName, hempty, hdot, hdots, hnul, hcontains, Bool.not_false, Bool.and_self]

def localNames (d : Directory) : List String → List (String × String) → List String
  | _, [] => []
  | seen, (lbucket, lpfx) :: rest =>
    if lbucket ≠ d.bucket then localNames d seen rest
    else
      match d.localChild lpfx with
      | none => localNames d seen rest
      | some name => if name ∈ seen then localNames d seen rest else name :: localNames d (name :: seen) rest

theorem mem_localNames {seen : List String} {locals : List (String × String)} :
    name ∈ localNames d seen locals ↔ name ∉ seen ∧ ∃ lpfx, (d.bucket, lpfx) ∈ locals ∧ d.localChild lpfx = some name := by
  induction locals generalizing seen with
  | nil => simp [localNames]
  | cons l locals ih =>
    obtain ⟨lbucket, lpfx⟩ := l
    rw [localNames]
    split_ifs with hbucket
    · rw [ih]
      refine and_congr_right fun _ => exists_congr fun p => and_congr_left fun _ => ?_
      rw [List.mem_cons, or_iff_right fun heq => hbucket (Prod.mk.inj heq).1.symm]
    · rw [not_not] at hbucket
      subst hbucket
      cases hchild : d.localChild lpfx with
      | none =>
        rw [ih]
        refine and_congr_right fun _ => exists_congr fun p => and_congr_left fun hp => ?_
        rw [List.mem_cons, or_iff_right]
        rintro heq
        cases heq
        rw [hchild] at hp
        cases hp
      | some n =>
        simp only
        split_ifs with hseen
        · rw [ih]
          refine and_congr_right fun hnot => exists_congr fun p => and_congr_left fun hp => ?_
          rw [List.mem_cons, or_iff_right]
          rintro heq
          cases heq
          rw [hchild, Option.some.injEq] at hp
          exact hnot (hp ▸ hseen)
        · rw [List.mem_cons, ih, List.mem_cons, not_or]
          by_cases hn : name = n
          · subst hn
            exact ⟨fun _ => ⟨hseen, lpfx, List.mem_cons_self, hchild⟩, fun _ => Or.inl rfl⟩
          · rw [or_iff_right hn, and_iff_right hn]
            refine and_congr_right fun _ => exists_congr fun p => and_congr_left fun hp => ?_
            rw [List.mem_cons, or_iff_right]
            rintro heq
            cases heq
            rw [hchild, Option.some.injEq] at hp
            exact hn hp.symm

theorem nodup_localNames (seen : List String) (locals : List (String × String)) : (localNames d seen locals).Nodup := by
  induction locals generalizing seen with
  | nil => exact List.nodup_nil
  | cons l locals ih =>
    rw [localNames]
    split_ifs
    · exact ih seen
    · cases d.localChild l.2 with
      | none => exact ih seen
      | some n =>
        simp only
        split_ifs
        · exact ih seen
        · refine List.nodup_cons.2 ⟨fun hmem => (mem_localNames.1 hmem).1 List.mem_cons_self, ih _⟩

/-! ## The entries -/

def DirEntry.label (e : DirEntry) : FileType × String := (e.kind, e.name)

/-- the kinds and names of the entries -/
def labels (w : Mount) (d : Directory) (o : Order (w.keys d.bucket) d.listPrefix) : List (FileType × String) :=
  [(.directory, "."), (.directory, "..")] ++ listChildren o ++
    (localNames d ((listChildren o).map Prod.snd) w.localDirs).map (.directory, ·)

/-- `t'` has the numbers of `t`, and perhaps others -/
def Extends (t t' : InodeTable) : Prop := ∀ path ino, t.byPath path = some ino → t'.byPath path = some ino

theorem Extends.trans {t'' : InodeTable} (h : Extends t t') (h' : Extends t' t'') : Extends t t'' :=
  fun path ino hpath => h' path ino (h path ino hpath)

theorem extends_getOrAssign (t : InodeTable) (path : InodePath) : Extends t (t.getOrAssign path).2 := by
  intro p ino hp
  cases hpath : t.byPath path with
  | some i => rwa [InodeTable.getOrAssign_known hpath]
  | none =>
    have hne : p ≠ path := by
      rintro rfl
      rw [hp] at hpath
      cases hpath
    rw [InodeTable.getOrAssign_fresh hpath]
    exact (Function.update_of_ne hne _ _).trans hp

theorem byPath_getOrAssign (t : InodeTable) (path : InodePath) : (t.getOrAssign path).2.byPath path = some (t.getOrAssign path).1 := by
  cases hpath : t.byPath path with
  | some i => rwa [InodeTable.getOrAssign_known hpath]
  | none =>
    rw [InodeTable.getOrAssign_fresh hpath]
    exact Function.update_self _ _ _

def Known (d : Directory) (t : InodeTable) (e : DirEntry) : Prop := t.byPath (d.childPath e.kind e.name) = some e.ino

theorem Known.of_extends {e : DirEntry} (h : Known d t e) (hext : Extends t t') : Known d t' e := hext _ _ h

theorem addChildren_spec (t : InodeTable) (children : List (FileType × String)) :
    (addChildren d t children).1.map DirEntry.label = children ∧ Extends t (addChildren d t children).2 ∧
      ∀ e ∈ (addChildren d t children).1, Known d (addChildren d t children).2 e := by
  induction children generalizing t with
  | nil => exact ⟨rfl, fun _ _ h => h, nofun⟩
  | cons c children ih =>
    obtain ⟨kind, name⟩ := c
    obtain ⟨hlabels, hext, hknown⟩ := ih (t.getOrAssign (d.childPath kind name)).2
    refine ⟨congrArg ((kind, name) :: ·) hlabels, (extends_getOrAssign t _).trans hext, fun e he => ?_⟩
    rcases List.mem_cons.1 he with rfl | he
    · exact hext _ _ (byPath_getOrAssign t _)
    · exact hknown e he

theorem addLocals_spec (t : InodeTable) (seen : List String) (locals : List (String × String)) :
    (addLocals d t seen locals).1.map DirEntry.label = (localNames d seen locals).map (.directory, ·) ∧
      Extends t (addLocals d t seen locals).2 ∧ ∀ e ∈ (addLocals d t seen locals).1, Known d (addLocals d t seen locals).2 e := by
  induction locals generalizing t seen with
  | nil => exact ⟨rfl, fun _ _ h => h, nofun⟩
  | cons l locals ih =>
    obtain ⟨lbucket, lpfx⟩ := l
    rw [addLocals, localNames]
    split_ifs with hbucket
    · exact ih t seen
    · cases hchild : d.localChild lpfx with
      | none => exact ih t seen
      | some name =>
        simp only
        split_ifs with hseen
        · exact ih t seen
        · obtain ⟨hlabels, hext, hknown⟩ := ih (t.getOrAssign (.virtualDir d.bucket lpfx)).2 (name :: seen)
          refine ⟨congrArg ((FileType.directory, name) :: ·) hlabels, (extends_getOrAssign t _).trans hext, fun e he => ?_⟩
          rcases List.mem_cons.1 he with rfl | he
          · rw [(localChild_eq_some hchild).1] at hext ⊢
            exact hext _ _ (byPath_getOrAssign t _)
          · exact hknown e he

theorem extends_parentIno (d : Directory) (t : InodeTable) : Extends t (parentIno d t).2 := by
  rw [parentIno]
  split_ifs
  · exact fun _ _ h => h
  · exact extends_getOrAssign t _

theorem entries_spec (t : InodeTable) (ino : UInt64) (o : Order (w.keys d.bucket) d.listPrefix) :
    (entries w d t ino o).1.map DirEntry.label = labels w d o ∧ Extends t (entries w d t ino o).2 ∧
      ∀ e ∈ (entries w d t ino o).1, e.name ≠ "." → e.name ≠ ".." → Known d (entries w d t ino o).2 e := by
  obtain ⟨hlabels, hext, hknown⟩ := @addChildren_spec d (parentIno d t).2 (listChildren o)
  obtain ⟨hlabels', hext', hknown'⟩ :=
    @addLocals_spec d (addChildren d (parentIno d t).2 (listChildren o)).2 ((listChildren o).map Prod.snd) w.localDirs
  refine ⟨?_, (extends_parentIno d t).trans (hext.trans hext'), fun e he hdot hdots => ?_⟩
  · simp only [entries, labels, List.map_append, hlabels, hlabels']
    rfl
  · rcases List.mem_append.1 he with he | he
    · rcases List.mem_append.1 he with he | he
      · rcases List.mem_pair.1 he with rfl | rfl
        · exact absurd rfl hdot
        · exact absurd rfl hdots
      · exact (hknown e he).of_extends hext'
    · exact hknown' e he

end Y2q.Fuse
