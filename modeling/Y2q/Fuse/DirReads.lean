/-
Reading a directory call by call (`y2q-fuse/src/fs.rs`, `readdir`).

The reader goes on at the offset after the last entry that it got, and stops at an empty reply. Where the calls list a directory in
different orders, an offset of one call means another entry in the next.

- `Reading`: the calls, for the orders that the hash containers may take; each has room for an entry at least. `labels_of_reading`: with one
  list for all of them the reader gets that list. `exists_split`: with two, the beginning of one and the end of the other.
- `Exact`: no name twice, every safe child once, and `lookup` finds the same. `Unshadowed`: no name is a file's and a directory's.
- `exact_iff`: when each order gives the same list. `read_exact`: for one order of all calls, and for all orders.
-/
import Mathlib.Tactic
import Y2q.Fuse.DirListing

namespace Y2q.Fuse

variable {w : Mount} {d : Directory} {t t' : InodeTable} {ino : UInt64} {offset room : ℕ} {name : String}
  {o o' : Order (w.keys d.bucket) d.listPrefix} {out : List DirEntry}

/-! ## Replies -/

theorem labels_readdir (t : InodeTable) (ino : UInt64) (o : Order (w.keys d.bucket) d.listPrefix) (offset room : ℕ) :
    (readdir w d t ino o offset room).1.map (fun r => r.1.label) = ((labels w d o).drop offset).take room := by
  rw [← (entries_spec t ino o).1, ← List.map_drop, ← List.map_take]
  have hfst := List.zipIdx_map_fst 1 (entries w d t ino o).1
  calc (readdir w d t ino o offset room).1.map (fun r => r.1.label)
      = (((((entries w d t ino o).1.zipIdx 1).map Prod.fst).drop offset).take room).map DirEntry.label := by
        rw [← List.map_drop, ← List.map_take, List.map_map]
        rfl
    _ = _ := by rw [hfst]

theorem last_readdir {e : DirEntry} {next : ℕ} (h : (readdir w d t ino o offset room).1.getLast? = some (e, next)) :
    next = offset + (readdir w d t ino o offset room).1.length := by
  rw [List.getLast?_eq_getElem?] at h
  obtain ⟨hlt, -⟩ := List.getElem?_eq_some_iff.1 h
  have hroom : (readdir w d t ino o offset room).1.length ≤ room := List.length_take_le _ _
  have hreply : (readdir w d t ino o offset room).1[(readdir w d t ino o offset room).1.length - 1]? =
      ((entries w d t ino o).1.zipIdx 1)[offset + ((readdir w d t ino o offset room).1.length - 1)]? := by
    rw [← List.getElem?_drop]
    exact List.getElem?_take_of_lt (by omega)
  rw [hreply, List.getElem?_zipIdx, Option.map_eq_some_iff] at h
  obtain ⟨last, -, heq⟩ := h
  have hnext := (Prod.mk.inj heq).2
  omega

theorem length_readdir (t : InodeTable) (ino : UInt64) (o : Order (w.keys d.bucket) d.listPrefix) (offset room : ℕ) :
    (readdir w d t ino o offset room).1.length = (((labels w d o).drop offset).take room).length := by
  rw [← labels_readdir t ino, List.length_map]

/-! ## Readings -/

inductive Reading (w : Mount) (d : Directory) (ino : UInt64) (P : Order (w.keys d.bucket) d.listPrefix → Prop) :
    InodeTable → ℕ → List DirEntry → InodeTable → Prop where
  | done {t : InodeTable} {offset : ℕ} {o : Order (w.keys d.bucket) d.listPrefix} {room : ℕ} (ho : P o) (hroom : 0 < room)
      (h : (readdir w d t ino o offset room).1 = []) : Reading w d ino P t offset [] (readdir w d t ino o offset room).2
  | more {t t' : InodeTable} {offset : ℕ} {o : Order (w.keys d.bucket) d.listPrefix} {room : ℕ} {last : DirEntry × ℕ} {out : List DirEntry}
      (ho : P o) (hroom : 0 < room) (hlast : (readdir w d t ino o offset room).1.getLast? = some last)
      (rest : Reading w d ino P (readdir w d t ino o offset room).2 last.2 out t') :
      Reading w d ino P t offset ((readdir w d t ino o offset room).1.map Prod.fst ++ out) t'

variable {P : Order (w.keys d.bucket) d.listPrefix → Prop} {L : List (FileType × String)}

theorem take_append_drop_length {α : Type} (l : List α) (n : ℕ) : l.take n ++ l.drop (l.take n).length = l := by
  rcases Nat.le_total n l.length with h | h
  · rw [List.length_take_of_le h, List.take_append_drop]
  · rw [List.take_of_length_le h, List.drop_length, List.append_nil]

/-- one list for all calls -/
theorem labels_of_reading (hP : ∀ o, P o → labels w d o = L) (h : Reading w d ino P t offset out t') :
    out.map DirEntry.label = L.drop offset := by
  induction h with
  | @done t offset o room ho hroom h =>
    have hreply := labels_readdir t ino o offset room
    rw [h, hP o ho] at hreply
    rcases List.take_eq_nil_iff.1 hreply.symm with h0 | hnil
    · omega
    · exact hnil.symm
  | @more t t' offset o room last out ho hroom hlast rest ih =>
    have hreply := labels_readdir t ino o offset room
    rw [hP o ho] at hreply
    rw [List.map_append, List.map_map, ih, last_readdir hlast, length_readdir, hP o ho, ← List.drop_drop]
    exact (congrArg (· ++ _) hreply).trans (take_append_drop_length _ _)

theorem known_of_reading (h : Reading w d ino P t offset out t') :
    Extends t t' ∧ ∀ e ∈ out, e.name ≠ "." → e.name ≠ ".." → Known d t' e := by
  induction h with
  | @done t offset o room ho hroom h => exact ⟨(entries_spec t ino o).2.1, nofun⟩
  | @more t t' offset o room last out ho hroom hlast rest ih =>
    obtain ⟨-, hext, hknown⟩ := entries_spec t ino o
    refine ⟨hext.trans ih.1, fun e he hdot hdots => ?_⟩
    rcases List.mem_append.1 he with he | he
    · obtain ⟨r, hr, rfl⟩ := List.mem_map.1 he
      have hmem : r.1 ∈ (entries w d t ino o).1 := by
        have hzip := List.mem_of_mem_drop (List.mem_of_mem_take hr)
        rw [← List.zipIdx_map_fst 1 (entries w d t ino o).1]
        exact List.mem_map_of_mem hzip
      exact (hknown r.1 hmem hdot hdots).of_extends ih.1
    · exact ih.2 e he hdot hdots

/-- a call that gives something, before a reading of the rest -/
theorem Reading.cons (ho : P o) (t : InodeTable) (ino : UInt64) {L : List (FileType × String)} (hroom : 0 < room)
    (hsome : ((labels w d o).drop offset).take room ≠ [])
    (hrest : ∀ t₁, ∃ out t', Reading w d ino P t₁ (offset + (((labels w d o).drop offset).take room).length) out t' ∧
      out.map DirEntry.label = L) :
    ∃ out t', Reading w d ino P t offset out t' ∧ out.map DirEntry.label = ((labels w d o).drop offset).take room ++ L := by
  have hreply := labels_readdir t ino o offset room
  cases hlast : (readdir w d t ino o offset room).1.getLast? with
  | none =>
    rw [List.getLast?_eq_none_iff] at hlast
    rw [hlast] at hreply
    exact absurd hreply.symm hsome
  | some last =>
    have hnext := last_readdir hlast
    rw [length_readdir] at hnext
    obtain ⟨out, t', hreading, hlabels⟩ := hrest (readdir w d t ino o offset room).2
    rw [← hnext] at hreading
    refine ⟨_, t', .more ho hroom hlast hreading, ?_⟩
    rw [List.map_append, List.map_map, hlabels]
    exact congrArg (· ++ _) hreply

/-- the rest in one call -/
theorem exists_rest (ho : P o) (t : InodeTable) (ino : UInt64) (offset : ℕ) :
    ∃ out t', Reading w d ino P t offset out t' ∧ out.map DirEntry.label = (labels w d o).drop offset := by
  have hdone (t : InodeTable) {offset : ℕ} (hnil : (labels w d o).drop offset = []) :
      ∃ out t', Reading w d ino P t offset out t' ∧ out.map DirEntry.label = [] := by
    refine ⟨[], _, .done ho (Nat.one_pos : 0 < 1) ?_, rfl⟩
    rw [← List.length_eq_zero_iff, length_readdir, hnil]
    rfl
  by_cases hnil : (labels w d o).drop offset = []
  · rw [hnil]
    exact hdone t hnil
  · have hall : ((labels w d o).drop offset).take (labels w d o).length = (labels w d o).drop offset :=
      List.take_of_length_le (by rw [List.length_drop]; exact Nat.sub_le _ _)
    have hroom : 0 < (labels w d o).length := by
      rw [List.length_pos_iff]
      rintro hempty
      rw [hempty, List.drop_nil] at hnil
      exact hnil rfl
    obtain ⟨out, t', hreading, hlabels⟩ := Reading.cons (L := []) ho t ino hroom (hall ▸ hnil) fun t₁ => hdone t₁ (by
      rw [hall, ← List.drop_drop, List.drop_length])
    refine ⟨out, t', hreading, ?_⟩
    rw [hlabels, hall, List.append_nil]

/-- the beginning in one order, the rest in another -/
theorem exists_split (ho : P o) (ho' : P o') (t : InodeTable) (ino : UInt64) {n : ℕ} (hn : 0 < n) (hlen : n ≤ (labels w d o).length) :
    ∃ out t', Reading w d ino P t 0 out t' ∧ out.map DirEntry.label = (labels w d o).take n ++ (labels w d o').drop n := by
  have hlength : ((labels w d o).take n).length = n := List.length_take_of_le hlen
  have hsome : ((labels w d o).drop 0).take n ≠ [] := by
    intro hnil
    rw [List.drop_zero] at hnil
    rw [hnil] at hlength
    exact hn.ne hlength
  refine Reading.cons ho t ino hn hsome fun t₁ => ?_
  rw [List.drop_zero, hlength, Nat.zero_add]
  exact exists_rest ho' t₁ ino n

/-! ## Exact readings -/

/-- a file or a directory below a name that the kernel takes -/
def SafeChild (w : Mount) (d : Directory) (c : FileType × String) : Prop :=
  isSafeChildName c.2 = true ∧ '/' ∉ c.2.toList ∧
    match c.1 with
    | .regularFile => d.child c.2 ∈ w.keys d.bucket
    | .directory => (∃ rest, d.child c.2 ++ "/" ++ rest ∈ w.keys d.bucket) ∨ (d.bucket, d.child c.2) ∈ w.localDirs

/-- what a reader wants; the entries `.` and `..` are not for `lookup` -/
structure Exact (w : Mount) (d : Directory) (out : List DirEntry) (t : InodeTable) : Prop where
  names : (out.map DirEntry.name).Nodup
  children : ∀ c, SafeChild w d c → out.countP (fun e => e.label = c) = 1
  lookups : ∀ e ∈ out, e.name ≠ "." → e.name ≠ ".." → (lookup w d t e.name).1 = .ok (e.ino, e.kind)

/-- no file has the name of a directory -/
def Unshadowed (w : Mount) (d : Directory) : Prop :=
  ∀ name, '/' ∉ name.toList → d.child name ∈ w.keys d.bucket →
    ¬((isSafeChildName name = true ∧ ∃ rest, d.child name ++ "/" ++ rest ∈ w.keys d.bucket) ∨ (d.bucket, d.child name) ∈ w.localDirs)

theorem mem_files : name ∈ o.files ↔ isSafeChildName name = true ∧ '/' ∉ name.toList ∧ d.child name ∈ w.keys d.bucket := by
  rw [o.mem_files, mem_listed_file, Directory.child_eq]

theorem mem_dirs :
    name ∈ o.dirs ↔ isSafeChildName name = true ∧ '/' ∉ name.toList ∧ ∃ rest, d.child name ++ "/" ++ rest ∈ w.keys d.bucket := by
  rw [o.mem_dirs, mem_listed_dir, Directory.child_eq]
  simp only [String.append_assoc]

namespace Unshadowed

theorem dirs_of_files (h : Unshadowed w d) (hname : name ∈ o.dirs) : name ∉ o.files := by
  intro hfile
  obtain ⟨hsafe, hno, hrest⟩ := mem_dirs.1 hname
  exact h name hno (mem_files.1 hfile).2.2 (Or.inl ⟨hsafe, hrest⟩)

theorem listChildren_eq (h : Unshadowed w d) (o : Order (w.keys d.bucket) d.listPrefix) :
    listChildren o = o.files.map (.regularFile, ·) ++ o.dirs.map (.directory, ·) := by
  have hdirs : o.dirs.filterMap (dirEntryName o.files) = o.dirs := by
    rw [List.filterMap_congr (g := some), List.filterMap_some]
    intro name hname
    rw [dirEntryName, if_neg (h.dirs_of_files hname)]
  rw [listChildren, hdirs]

end Unshadowed

theorem mem_locals {seen : List String} :
    name ∈ localNames d seen w.localDirs ↔ name ∉ seen ∧ '/' ∉ name.toList ∧ (d.bucket, d.child name) ∈ w.localDirs := by
  rw [mem_localNames]
  refine and_congr_right fun _ => ⟨?_, fun ⟨hno, hmem⟩ => ?_⟩
  · rintro ⟨lpfx, hmem, hchild⟩
    obtain ⟨rfl, hno⟩ := localChild_eq_some hchild
    exact ⟨hno, hmem⟩
  · exact ⟨_, hmem, localChild_child hno (ne_of_valid (w.valid d name hmem hno)).1⟩

theorem mem_labels {c : FileType × String} :
    c ∈ labels w d o ↔ c = (.directory, ".") ∨ c = (.directory, "..") ∨ c ∈ listChildren o ∨
      (c.1 = .directory ∧ c.2 ∈ localNames d ((listChildren o).map Prod.snd) w.localDirs) := by
  have hlocal : c ∈ (localNames d ((listChildren o).map Prod.snd) w.localDirs).map (FileType.directory, ·) ↔
      c.1 = .directory ∧ c.2 ∈ localNames d ((listChildren o).map Prod.snd) w.localDirs := by
    rw [List.mem_map]
    constructor
    · rintro ⟨n, hn, rfl⟩
      exact ⟨rfl, hn⟩
    · obtain ⟨kind, n⟩ := c
      rintro ⟨rfl, hn⟩
      exact ⟨n, hn, rfl⟩
  rw [labels, List.mem_append, List.mem_append, List.mem_pair, hlocal, or_assoc, or_assoc]

theorem mem_listChildren_file {o : Order (w.keys d.bucket) d.listPrefix} : (.regularFile, name) ∈ listChildren o ↔ name ∈ o.files := by
  simp [listChildren]

/-! ## One name -/

theorem lookup_key (hvalid : isValidEntryName name = true) (hkey : d.child name ∈ w.keys d.bucket) :
    (lookup w d t name).1 = .ok ((t.getOrAssign (d.childPath .regularFile name)).1, .regularFile) := by
  rw [lookup, hvalid]
  simp only [Bool.not_true, Bool.false_eq_true, if_false, if_pos hkey]
  rfl

theorem lookup_file (hvalid : isValidEntryName name = true) (hkey : d.child name ∈ w.keys d.bucket)
    (hknown : t.byPath (d.childPath .regularFile name) = some ino) : (lookup w d t name).1 = .ok (ino, .regularFile) := by
  rw [lookup_key hvalid hkey, InodeTable.getOrAssign_known hknown]

theorem lookup_dir (hvalid : isValidEntryName name = true) (hkey : d.child name ∉ w.keys d.bucket)
    (hdir : (∃ rest, d.child name ++ "/" ++ rest ∈ w.keys d.bucket) ∨ (d.bucket, d.child name) ∈ w.localDirs)
    (hknown : t.byPath (d.childPath .directory name) = some ino) : (lookup w d t name).1 = .ok (ino, .directory) := by
  rw [Directory.childPath] at hknown
  rw [lookup, hvalid]
  simp only [Bool.not_true, Bool.false_eq_true, if_false, if_neg hkey]
  split_ifs with hlist hlocal
  · rw [InodeTable.getOrAssign_known hknown]
  · rw [InodeTable.getOrAssign_known hknown]
  · rcases hdir with ⟨rest, hrest⟩ | hlocal'
    · have hmem : d.child name ++ "/" ++ rest ∈ listObjects (w.keys d.bucket) (d.child name ++ "/") := mem_listObjects.2 ⟨hrest, rest, rfl⟩
      rw [not_not.1 hlist] at hmem
      cases hmem
    · exact absurd hlocal' hlocal

namespace Unshadowed

theorem mem_listChildren_dir (h : Unshadowed w d) : (.directory, name) ∈ listChildren o ↔ name ∈ o.dirs := by
  rw [h.listChildren_eq]
  simp

theorem nodup_names (h : Unshadowed w d) (o : Order (w.keys d.bucket) d.listPrefix) : ((labels w d o).map Prod.snd).Nodup := by
  have hchildren : ((listChildren o).map Prod.snd).Nodup := by
    rw [h.listChildren_eq, List.map_append, List.map_map, List.map_map]
    show (o.files.map id ++ o.dirs.map id).Nodup
    rw [List.map_id, List.map_id]
    refine List.nodup_append.2 ⟨o.nodup_files, o.nodup_dirs, fun a ha b hb heq => ?_⟩
    exact h.dirs_of_files hb (heq ▸ ha)
  have hlocals : (((localNames d ((listChildren o).map Prod.snd) w.localDirs).map (FileType.directory, ·)).map Prod.snd) =
      localNames d ((listChildren o).map Prod.snd) w.localDirs := by
    rw [List.map_map]
    exact List.map_id _
  rw [labels, List.append_assoc, List.map_append, List.map_append, hlocals]
  refine List.nodup_append.2 ⟨by decide, List.nodup_append.2 ⟨hchildren, nodup_localNames _ _, fun a ha b hb heq => ?_⟩,
    fun a ha b hb heq => ?_⟩
  · exact (mem_locals.1 hb).1 (heq ▸ ha)
  · -- the two entries in front have names that nothing else has
    have hdots : a = "." ∨ a = ".." := List.mem_pair.1 ha
    have hne : b ≠ "." ∧ b ≠ ".." := by
      rcases List.mem_append.1 hb with hb | hb
      · obtain ⟨c, hc, rfl⟩ := List.mem_map.1 hb
        have hsafe := safe_of_mem_listChildren hc
        simp only [isSafeChildName, Bool.and_eq_true, decide_eq_true_eq, ne_eq] at hsafe
        exact ⟨hsafe.1.1.1.2, hsafe.1.1.2⟩
      · obtain ⟨-, hno, hmem⟩ := mem_locals.1 hb
        obtain ⟨-, hdot, hdots, -⟩ := ne_of_valid (w.valid d b hmem hno)
        exact ⟨hdot, hdots⟩
    subst heq
    exact hdots.elim hne.1 hne.2

theorem mem_of_safeChild (h : Unshadowed w d) (o : Order (w.keys d.bucket) d.listPrefix) {c : FileType × String} (hc : SafeChild w d c) :
    c ∈ labels w d o := by
  obtain ⟨kind, n⟩ := c
  obtain ⟨hsafe, hno, hkind⟩ := hc
  rw [mem_labels]
  cases kind with
  | regularFile => exact Or.inr (Or.inr (Or.inl (mem_listChildren_file.2 (mem_files.2 ⟨hsafe, hno, hkind⟩))))
  | directory =>
    rcases hkind with hrest | hlocal
    · exact Or.inr (Or.inr (Or.inl (h.mem_listChildren_dir.2 (mem_dirs.2 ⟨hsafe, hno, hrest⟩))))
    · by_cases hseen : n ∈ (listChildren o).map Prod.snd
      · obtain ⟨⟨kind, n'⟩, hmem, rfl⟩ := List.mem_map.1 hseen
        cases kind with
        | directory => exact Or.inr (Or.inr (Or.inl hmem))
        | regularFile => exact absurd (Or.inr hlocal) (h n' hno (mem_files.1 (mem_listChildren_file.1 hmem)).2.2)
      · exact Or.inr (Or.inr (Or.inr ⟨rfl, mem_locals.2 ⟨hseen, hno, hlocal⟩⟩))

theorem lookup_of_mem (h : Unshadowed w d) {e : DirEntry} (hmem : e.label ∈ labels w d o) (hdot : e.name ≠ ".") (hdots : e.name ≠ "..")
    (hknown : Known d t e) : (lookup w d t e.name).1 = .ok (e.ino, e.kind) := by
  obtain ⟨ino, kind, name⟩ := e
  rcases mem_labels.1 hmem with heq | heq | hchild | ⟨hkind, hlocal⟩
  · exact absurd (congrArg Prod.snd heq) hdot
  · exact absurd (congrArg Prod.snd heq) hdots
  · cases kind with
    | regularFile =>
      obtain ⟨hsafe, hno, hkey⟩ := mem_files.1 (mem_listChildren_file.1 hchild)
      exact lookup_file (valid_of_safe hsafe hno) hkey hknown
    | directory =>
      obtain ⟨hsafe, hno, hrest⟩ := mem_dirs.1 (h.mem_listChildren_dir.1 hchild)
      exact lookup_dir (valid_of_safe hsafe hno) (fun hkey => h name hno hkey (Or.inl ⟨hsafe, hrest⟩)) (Or.inl hrest) hknown
  · cases hkind
    obtain ⟨-, hno, hmem'⟩ := mem_locals.1 hlocal
    exact lookup_dir (w.valid d name hmem' hno) (fun hkey => h name hno hkey (Or.inr hmem')) (Or.inr hmem') hknown

end Unshadowed

/-! ## When a reading is exact -/

theorem mem_of_countP {c : FileType × String} (h : out.countP (fun e => e.label = c) = 1) : ∃ e ∈ out, e.label = c := by
  obtain ⟨e, he, hlabel⟩ := List.countP_pos_iff.1 (h ▸ Nat.one_pos)
  exact ⟨e, he, of_decide_eq_true hlabel⟩

theorem unshadowed_of_exact (hlabels : out.map DirEntry.label = labels w d o) (h : Exact w d out t) : Unshadowed w d := by
  intro name hno hkey hdir
  by_cases hsafe : isSafeChildName name = true
  · -- both are children, under one name
    obtain ⟨f, hf, hflabel⟩ := mem_of_countP (h.children (.regularFile, name) ⟨hsafe, hno, hkey⟩)
    obtain ⟨g, hg, hglabel⟩ := mem_of_countP (h.children (.directory, name) ⟨hsafe, hno, hdir.imp_left And.right⟩)
    have heq : f = g := List.inj_on_of_nodup_map h.names hf hg
      ((congrArg Prod.snd hflabel).trans (congrArg Prod.snd hglabel).symm)
    rw [heq, hglabel] at hflabel
    cases hflabel
  · -- the name is too long to be listed, and the directory is one of `mkdir`
    have hlocal := hdir.resolve_left fun hlisted => hsafe hlisted.1
    have hvalid := w.valid d name hlocal hno
    obtain ⟨-, hdot, hdots, -⟩ := ne_of_valid hvalid
    have hseen : name ∉ (listChildren o).map Prod.snd := by
      intro hmem
      obtain ⟨c, hc, rfl⟩ := List.mem_map.1 hmem
      exact hsafe (safe_of_mem_listChildren hc)
    have hmem : (.directory, name) ∈ labels w d o := mem_labels.2 (Or.inr (Or.inr (Or.inr ⟨rfl, mem_locals.2 ⟨hseen, hno, hlocal⟩⟩)))
    rw [← hlabels] at hmem
    obtain ⟨e, he, hlabel⟩ := List.mem_map.1 hmem
    obtain ⟨ino, kind, ename⟩ := e
    cases hlabel
    have hlookup := h.lookups _ he hdot hdots
    rw [lookup_key hvalid hkey] at hlookup
    exact absurd (congrArg Prod.snd (Except.ok.inj hlookup)) nofun

theorem exact_of_unshadowed (hlabels : out.map DirEntry.label = labels w d o)
    (hknown : ∀ e ∈ out, e.name ≠ "." → e.name ≠ ".." → Known d t e) (h : Unshadowed w d) : Exact w d out t := by
  have hnodup := h.nodup_names o
  refine ⟨?_, fun c hc => ?_, fun e he hdot hdots => ?_⟩
  · rwa [← hlabels, List.map_map] at hnodup
  · have hcount : (labels w d o).count c = 1 := List.count_eq_one_of_mem (List.Nodup.of_map _ hnodup) (h.mem_of_safeChild o hc)
    rw [← hlabels, List.count, List.countP_map] at hcount
    rw [← hcount]
    exact List.countP_congr fun e _ => by rw [decide_eq_true_eq, Function.comp_apply, beq_iff_eq]
  · exact h.lookup_of_mem (hlabels ▸ List.mem_map_of_mem he) hdot hdots (hknown e he hdot hdots)

/-! ## Orders -/

/-- some order -/
def Order.some (keys : List String) (pfx : String) : Order keys pfx where
  files := ((listed keys pfx).filterMap fun c => if c.1 = .regularFile then Option.some c.2 else none).dedup
  dirs := ((listed keys pfx).filterMap fun c => if c.1 = .directory then Option.some c.2 else none).dedup
  nodup_files := List.nodup_dedup _
  nodup_dirs := List.nodup_dedup _
  mem_files name := by
    rw [List.mem_dedup, List.mem_filterMap]
    constructor
    · rintro ⟨⟨kind, n⟩, hmem, hc⟩
      simp only [Option.ite_none_right_eq_some, Option.some.injEq] at hc
      obtain ⟨rfl, rfl⟩ := hc
      exact hmem
    · exact fun hmem => ⟨_, hmem, if_pos rfl⟩
  mem_dirs name := by
    rw [List.mem_dedup, List.mem_filterMap]
    constructor
    · rintro ⟨⟨kind, n⟩, hmem, hc⟩
      simp only [Option.ite_none_right_eq_some, Option.some.injEq] at hc
      obtain ⟨rfl, rfl⟩ := hc
      exact hmem
    · exact fun hmem => ⟨_, hmem, if_pos rfl⟩

def Order.withFiles {keys : List String} {pfx : String} (o : Order keys pfx) {files : List String} (h : files.Perm o.files) :
    Order keys pfx :=
  { o with files := files, nodup_files := h.nodup_iff.2 o.nodup_files, mem_files := fun name => h.mem_iff.trans (o.mem_files name) }

def Order.withDirs {keys : List String} {pfx : String} (o : Order keys pfx) {dirs : List String} (h : dirs.Perm o.dirs) : Order keys pfx :=
  { o with dirs := dirs, nodup_dirs := h.nodup_iff.2 o.nodup_dirs, mem_dirs := fun name => h.mem_iff.trans (o.mem_dirs name) }

/-- one file and one directory at most -/
def Single (w : Mount) (d : Directory) : Prop :=
  ∀ kind a b, (kind, a) ∈ listed (w.keys d.bucket) d.listPrefix → (kind, b) ∈ listed (w.keys d.bucket) d.listPrefix → a = b

theorem eq_of_single {α : Type} {l l' : List α} (hl : l.Nodup) (hl' : l'.Nodup) (hmem : ∀ a, a ∈ l ↔ a ∈ l')
    (hone : ∀ a b, a ∈ l → b ∈ l → a = b) : l = l' := by
  have hperm := (List.perm_ext_iff_of_nodup hl hl').2 hmem
  match l with
  | [] => exact (List.perm_nil.1 hperm.symm).symm
  | [a] => exact (List.perm_singleton.1 hperm.symm).symm
  | a :: b :: l =>
    have heq := hone a b List.mem_cons_self (List.mem_cons_of_mem _ List.mem_cons_self)
    exact absurd (heq ▸ List.mem_cons_self) (List.nodup_cons.1 hl).1

/-- then there is one list -/
theorem labels_eq (h : Unshadowed w d) (hsingle : Single w d) (o o' : Order (w.keys d.bucket) d.listPrefix) :
    labels w d o = labels w d o' := by
  have hfiles : o.files = o'.files := eq_of_single o.nodup_files o'.nodup_files (fun a => (o.mem_files a).trans (o'.mem_files a).symm)
    fun a b ha hb => hsingle _ a b ((o.mem_files a).1 ha) ((o.mem_files b).1 hb)
  have hdirs : o.dirs = o'.dirs := eq_of_single o.nodup_dirs o'.nodup_dirs (fun a => (o.mem_dirs a).trans (o'.mem_dirs a).symm)
    fun a b ha hb => hsingle _ a b ((o.mem_dirs a).1 ha) ((o.mem_dirs b).1 hb)
  rw [labels, labels, h.listChildren_eq, h.listChildren_eq, hfiles, hdirs]

/-- an entry in the beginning of one list and in the rest of another -/
theorem not_exact_of_split (t : InodeTable) (ino : UInt64) {n : ℕ} (hn : 0 < n) {c : FileType × String} (hlen : n ≤ (labels w d o).length)
    (hc : c ∈ (labels w d o).take n) (hc' : c ∈ (labels w d o').drop n) :
    ∃ out t', Reading w d ino (fun _ => True) t 0 out t' ∧ ¬Exact w d out t' := by
  obtain ⟨out, t', hreading, hlabels⟩ := exists_split (P := fun _ => True) trivial trivial t ino hn hlen
  refine ⟨out, t', hreading, fun h => ?_⟩
  have hnodup := h.names
  have hnames : out.map DirEntry.name = (out.map DirEntry.label).map Prod.snd := by rw [List.map_map]; rfl
  rw [hnames, hlabels, List.map_append] at hnodup
  exact (List.nodup_append.1 hnodup).2.2 _ (List.mem_map_of_mem hc) _ (List.mem_map_of_mem hc') rfl

/-- two files, each first in an order of its own -/
theorem single_files (t : InodeTable) (ino : UInt64) (h : ∀ out t', Reading w d ino (fun _ => True) t 0 out t' → Exact w d out t')
    {a b : String} (ha : a ∈ o.files) (hb : b ∈ o.files) : a = b := by
  by_contra hne
  have hperm : (a :: o.files.erase a).Perm o.files := (List.perm_cons_erase ha).symm
  have hb' : b ∈ o.files.erase a := (List.mem_erase_of_ne (Ne.symm hne)).2 hb
  have hperm' : (b :: a :: (o.files.erase a).erase b).Perm o.files :=
    (List.Perm.swap a b _).trans (((List.perm_cons_erase hb').symm.cons a).trans hperm)
  obtain ⟨out, t', hreading, hnot⟩ := @not_exact_of_split w d (o.withFiles hperm) (o.withFiles hperm') t ino 3 (Nat.succ_pos _)
    (.regularFile, a) (by simp [labels, listChildren, Order.withFiles])
    (List.mem_cons_of_mem _ (List.mem_cons_of_mem _ List.mem_cons_self)) (by simp [labels, listChildren, Order.withFiles])
  exact hnot (h out t' hreading)

/-- two directories likewise, after the files -/
theorem single_dirs (hunshadowed : Unshadowed w d) (t : InodeTable) (ino : UInt64)
    (h : ∀ out t', Reading w d ino (fun _ => True) t 0 out t' → Exact w d out t') {a b : String} (ha : a ∈ o.dirs) (hb : b ∈ o.dirs) :
    a = b := by
  by_contra hne
  have hperm : (a :: o.dirs.erase a).Perm o.dirs := (List.perm_cons_erase ha).symm
  have hb' : b ∈ o.dirs.erase a := (List.mem_erase_of_ne (Ne.symm hne)).2 hb
  have hperm' : (b :: a :: (o.dirs.erase a).erase b).Perm o.dirs :=
    (List.Perm.swap a b _).trans (((List.perm_cons_erase hb').symm.cons a).trans hperm)
  have hfront (dirs : List String) (hdirs : dirs.Perm o.dirs) : labels w d (o.withDirs hdirs) =
      ([(.directory, "."), (.directory, "..")] ++ o.files.map (.regularFile, ·)) ++ (dirs.map (.directory, ·) ++
        (localNames d ((listChildren (o.withDirs hdirs)).map Prod.snd) w.localDirs).map (.directory, ·)) := by
    rw [labels, hunshadowed.listChildren_eq]
    simp only [Order.withDirs, List.append_assoc]
  obtain ⟨out, t', hreading, hnot⟩ := @not_exact_of_split w d (o.withDirs hperm) (o.withDirs hperm') t ino
    (([(FileType.directory, "."), (FileType.directory, "..")] ++ o.files.map (FileType.regularFile, ·)).length + 1) (Nat.succ_pos _)
    (.directory, a) (by rw [hfront, List.length_append]; simp; omega)
    (by rw [hfront, List.take_length_add_append]; exact List.mem_append_right _ List.mem_cons_self)
    (by rw [hfront, List.drop_length_add_append]; simp)
  exact hnot (h out t' hreading)

/-! ## Directories -/

/-- When all calls take one order, a reading is exact if and only if no file has the name of a directory. For all the orders that the calls
may take, readings are exact if and only if, besides, the server lists one file and one directory at most. -/
theorem read_exact (w : Mount) (d : Directory) (t : InodeTable) (ino : UInt64) :
    (∀ o out t', Reading w d ino (· = o) t 0 out t' → (Exact w d out t' ↔ Unshadowed w d)) ∧
    ((∀ out t', Reading w d ino (fun _ => True) t 0 out t' → Exact w d out t') ↔ Unshadowed w d ∧ Single w d) := by
  refine ⟨fun o out t' hreading => ?_, fun h => ?_, fun ⟨hunshadowed, hsingle⟩ out t' hreading => ?_⟩
  · have hlabels : out.map DirEntry.label = labels w d o := labels_of_reading (fun o' ho' => congrArg (labels w d) ho') hreading
    exact ⟨unshadowed_of_exact hlabels, exact_of_unshadowed hlabels (known_of_reading hreading).2⟩
  · obtain ⟨out, t', hreading, hlabels⟩ :=
      exists_rest (P := fun _ => True) (o := Order.some (w.keys d.bucket) d.listPrefix) trivial t ino 0
    have hunshadowed := unshadowed_of_exact hlabels (h out t' hreading)
    refine ⟨hunshadowed, fun kind a b ha hb => ?_⟩
    set o := Order.some (w.keys d.bucket) d.listPrefix
    cases kind with
    | regularFile => exact single_files t ino h ((o.mem_files a).2 ha) ((o.mem_files b).2 hb)
    | directory => exact single_dirs hunshadowed t ino h ((o.mem_dirs a).2 ha) ((o.mem_dirs b).2 hb)
  · have hlabels : out.map DirEntry.label = labels w d (Order.some (w.keys d.bucket) d.listPrefix) :=
      labels_of_reading (fun o' _ => labels_eq hunshadowed hsingle o' _) hreading
    exact exact_of_unshadowed hlabels (known_of_reading hreading).2 hunshadowed

namespace Sample

/-- the keys of every bucket, and no directory of `mkdir` -/
def mount (keys : List String) : Mount := ⟨fun _ => keys, [], List.nodup_nil, fun _ _ hmem => absurd hmem List.not_mem_nil⟩

def top : Directory := ⟨"x", ""⟩

theorem listed_one : listed ["a"] top.listPrefix = [(.regularFile, "a")] := by decide +kernel

theorem listed_two : listed ["a", "b"] top.listPrefix = [(.regularFile, "a"), (.regularFile, "b")] := by decide +kernel

theorem read_exact_one :
    ∃ out t', Reading (mount ["a"]) top ROOT_INO (fun _ => True) .new 0 out t' ∧ Exact (mount ["a"]) top out t' := by
  have hunshadowed : Unshadowed (mount ["a"]) top := by
    rintro name hno - (⟨hsafe, rest, hrest⟩ | hlocal)
    · have hmem := ((Order.some ["a"] top.listPrefix).mem_dirs name).1
        ((@mem_dirs (mount ["a"]) top name _).2 ⟨hsafe, hno, rest, hrest⟩)
      rw [listed_one] at hmem
      cases List.mem_singleton.1 hmem
    · cases hlocal
  have hsingle : Single (mount ["a"]) top := by
    intro kind a b ha hb
    rw [show (mount ["a"]).keys top.bucket = ["a"] from rfl, listed_one, List.mem_singleton] at ha hb
    exact congrArg Prod.snd (ha.trans hb.symm)
  obtain ⟨out, t', hreading, -⟩ :=
    @exists_rest (mount ["a"]) top (Order.some ["a"] top.listPrefix) (fun _ => True) trivial .new ROOT_INO 0
  exact ⟨out, t', hreading, (read_exact (mount ["a"]) top .new ROOT_INO).2.2 ⟨hunshadowed, hsingle⟩ out t' hreading⟩

/-- two files, in the one order and in the other -/
def order (files : List String) (h : files.Nodup) (hmem : ∀ name, name ∈ files ↔ name ∈ ["a", "b"]) : Order ["a", "b"] top.listPrefix where
  files := files
  dirs := []
  nodup_files := h
  nodup_dirs := List.nodup_nil
  mem_files name := by
    rw [listed_two, hmem]
    simp
  mem_dirs name := by
    rw [listed_two]
    simp

/-- The first call has room for three entries and lists `a` first, the second lists `b` first: `a` comes twice and `b` never. -/
theorem two_orders :
    ∃ out t', Reading (mount ["a", "b"]) top ROOT_INO (fun _ => True) .new 0 out t' ∧
      out.map DirEntry.label = [(.directory, "."), (.directory, ".."), (.regularFile, "a"), (.regularFile, "a")] ∧
      ¬Exact (mount ["a", "b"]) top out t' := by
  obtain ⟨out, t', hreading, hlabels⟩ := @exists_split (mount ["a", "b"]) top (order ["a", "b"] (by decide) fun _ => Iff.rfl)
    (order ["b", "a"] (by decide) fun name => by simp [or_comm]) (fun _ => True) trivial trivial .new ROOT_INO 3 (by decide) (by decide)
  refine ⟨out, t', hreading, hlabels, fun h => ?_⟩
  have hnodup := h.names
  have hnames : out.map DirEntry.name = (out.map DirEntry.label).map Prod.snd := by rw [List.map_map]; rfl
  rw [hnames, hlabels] at hnodup
  exact absurd hnodup (by decide)

end Sample

end Y2q.Fuse
