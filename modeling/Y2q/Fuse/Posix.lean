/-
The files of a mounted store are files.

A `Disk` is what the programs on the mount take it for: each file has one content, whatever handle it is read or written by. `Disk.after`
says what a call does to it, as far as the reply says that the call went through.

- `Legal`: an object has one writable handle at a time, the kernel passes the inode of a handle with it, and the last PUT is not refused.
- `Sim`: the driver and the disk, object by object (`At`). An object of which nothing is unsent is on the server as it is on the disk.
- `Sim.write`, `Sim.flush`, `Sim.release`: the calls on one handle keep it. `release_eq`: to release a handle is to flush and to close it.
-/
import Mathlib.Tactic
import Y2q.Fuse.OpenFiles

namespace Y2q.OpenFiles

open Function (update)
open Fuse (InodePath InodeTable)
open Objects (ObjKey LabelSet)

/-! ## The disk -/

structure Disk where
  files : ObjKey → Option ServerObject
  inodes : UInt64 → Option ObjKey
  /-- the file, and whether the handle is writable -/
  handles : UInt64 → Option (ObjKey × Bool)

namespace Disk

def modify (d : Disk) (x : ObjKey) (f : Content → Option Content) : Disk :=
  { d with files := update d.files x ((d.files x).map fun o => { o with content := (f o.content).getD o.content }) }

/-- what a call does that has got this reply -/
def after (d : Disk) : Call → Reply → Disk
  | .lookup x _, .entry ino _ => { d with inodes := update d.inodes ino (some x) }
  | .openFile ino flags _ _, .opened fh =>
    match d.inodes ino with
    | none => d
    | some x =>
      let plan := openFlagsPlan flags
      let d' := { d with handles := update d.handles fh (some (x, plan.writeBuf)) }
      if plan.writeBuf && !plan.seedFromRemote then d'.modify x fun _ => some .empty else d'
  | .create x, .created ino fh =>
    ⟨update d.files x (some ⟨.empty, ∅⟩), update d.inodes ino (some x), update d.handles fh (some (x, true))⟩
  | .write _ fh offset data, .written _ =>
    match d.handles fh with
    | none => d
    | some (x, _) => d.modify x fun c => c.write offset.toNat data
  | .release _ fh _, _ => { d with handles := update d.handles fh none }
  | .setattr ino fh size _ _ _ _, .attr _ =>
    match ((fh.bind d.handles).map Prod.fst).or (d.inodes ino) with
    | none => d
    | some x => d.modify x fun c => c.setLen size.toNat
  | _, _ => d

end Disk

namespace Y2qFuse

/-! ## Legal calls -/

def Writes (m : Y2qFuse) (fh : UInt64) (x : ObjKey) : Prop := ∃ of, m.openFiles fh = some of ∧ of.key = x ∧ of.writeBuf.isSome = true

/-- no handle of the object still has a PUT to make -/
def Sent (m : Y2qFuse) (x : ObjKey) : Prop := ∀ fh of, m.openFiles fh = some of → of.key = x → of.unsent = false

/-- the inode is that of the handle -/
def Owns (m : Y2qFuse) (ino fh : UInt64) : Prop := ∀ of, m.openFiles fh = some of → m.objectOf ino = some of.key

/-- the counters have not come round, to a handle that is open or an inode that is known -/
def Numbers (m : Y2qFuse) (x : ObjKey) : Prop :=
  m.openFiles m.nextFh = none ∧ (m.inodes.byPath (.object x.1 x.2) = none → m.inodes.byIno m.inodes.nextIno = none)

def Legal (m : Y2qFuse) : Call → Prop
  | .lookup x _ => m.Numbers x
  | .getattr ino fh order _ => (∀ h ∈ fh, m.Owns ino h) ∧ ∀ h, (m.openFiles h).isSome → h ∈ order
  | .expire _ => True
  | .openFile ino flags _ _ =>
    m.openFiles m.nextFh = none ∧ ((openFlagsPlan flags).writeBuf = true → ∀ x fh, m.objectOf ino = some x → ¬m.Writes fh x)
  | .create x => m.Numbers x ∧ m.server x = none ∧ ∀ fh, ¬m.Writes fh x
  | .read ino fh _ _ _ => m.Owns ino fh
  | .write ino fh _ _ => m.Owns ino fh
  | .flush ino fh _ => m.Owns ino fh
  | .release ino fh putFails => m.Owns ino fh ∧ putFails = none
  | .setattr ino fh _ order _ _ _ => (∀ h ∈ fh, m.Owns ino h) ∧ ∀ h, (m.openFiles h).isSome → h ∈ order

/-! ## The driver and the disk -/

/-- what holds of one object -/
structure At (m : Y2qFuse) (d : Disk) (x : ObjKey) : Prop where
  single : ∀ fh fh', m.Writes fh x → m.Writes fh' x → fh = fh'
  buffer : ∀ fh of buf, m.openFiles fh = some of → of.key = x → of.writeBuf = some buf → d.files x = some ⟨buf, of.labels⟩
  stored : m.Sent x → m.server x = d.files x
  labels : ∀ o o', m.server x = some o → d.files x = some o' → o.labels = o'.labels
  named : ∀ ino, d.inodes ino = some x → (d.files x).isSome = true
  known : ∀ ino, d.inodes ino = some x → (m.server x).isSome = true → (m.cachedMeta ino).isSome = true
  cached : ∀ ino cached o, d.inodes ino = some x → m.cachedMeta ino = some cached → d.files x = some o →
    (cached.labels = ∅ ∨ cached.labels = o.labels) ∧ (m.Sent x → cached.size = o.content.length)

structure Sim (m : Y2qFuse) (d : Disk) : Prop where
  inverse : m.inodes.Inverse
  inodes : ∀ ino, m.objectOf ino = d.inodes ino
  handles : ∀ fh, (m.openFiles fh).map (fun of => (of.key, of.writeBuf.isSome)) = d.handles fh
  all : ∀ x, At m d x

variable {m m' : Y2qFuse} {d d' : Disk} {x y : ObjKey} {ino fh : UInt64} {of of' : OpenFile}

theorem byIno_of_objectOf (h : m.objectOf ino = some x) : m.inodes.byIno ino = some (.object x.1 x.2) := by
  rw [objectOf] at h
  split at h
  case h_1 hobj =>
    cases h
    exact hobj
  case h_2 => cases h

theorem Sim.inode_inj (h : Sim m d) {ino' : UInt64} (hx : d.inodes ino = some x) (hx' : d.inodes ino' = some x) : ino = ino' :=
  h.inverse.byIno_inj (byIno_of_objectOf ((h.inodes ino).trans hx)) (byIno_of_objectOf ((h.inodes ino').trans hx'))

/-- an object that is not touched -/
theorem At.frame (h : At m d x) (hfiles : ∀ fh of, of.key = x → (m'.openFiles fh = some of ↔ m.openFiles fh = some of))
    (hserver : m'.server x = m.server x) (hfile : d'.files x = d.files x) (hinodes : ∀ ino, d'.inodes ino = some x ↔ d.inodes ino = some x)
    (hcached : ∀ ino, d.inodes ino = some x → m'.cachedMeta ino = m.cachedMeta ino) : At m' d' x := by
  have hsent : m'.Sent x → m.Sent x := fun hs fh of hof hkey => hs fh of ((hfiles fh of hkey).2 hof) hkey
  have hwrites : ∀ fh, m'.Writes fh x → m.Writes fh x := fun fh ⟨of, hof, hkey, hbuf⟩ => ⟨of, (hfiles fh of hkey).1 hof, hkey, hbuf⟩
  constructor
  · exact fun fh fh' hw hw' => h.single fh fh' (hwrites fh hw) (hwrites fh' hw')
  · intro fh of buf hof hkey hbuf
    rw [hfile]
    exact h.buffer fh of buf ((hfiles fh of hkey).1 hof) hkey hbuf
  · intro hs
    rw [hserver, hfile]
    exact h.stored (hsent hs)
  · rw [hserver, hfile]
    exact h.labels
  · intro ino hino
    rw [hfile]
    exact h.named ino ((hinodes ino).1 hino)
  · intro ino hino
    rw [hserver, hcached ino ((hinodes ino).1 hino)]
    exact h.known ino ((hinodes ino).1 hino)
  · intro ino cached o hino hc ho
    rw [hcached ino ((hinodes ino).1 hino)] at hc
    rw [hfile] at ho
    obtain ⟨hl, hsize⟩ := h.cached ino cached o ((hinodes ino).1 hino) hc ho
    exact ⟨hl, fun hs => hsize (hsent hs)⟩

/-- what the server has is on the disk -/
theorem At.file_of_server (h : At m d x) {o : ServerObject} (ho : m.server x = some o) :
    ∃ o', d.files x = some o' ∧ o'.labels = o.labels := by
  by_cases hs : m.Sent x
  · rw [← h.stored hs]
    exact ⟨o, ho, rfl⟩
  · simp only [Sent, not_forall] at hs
    obtain ⟨fh, of, hof, hkey, hunsent⟩ := hs
    cases hbuf : of.writeBuf with
    | none => simp [OpenFile.unsent, hbuf] at hunsent
    | some buf =>
      have hfile := h.buffer fh of buf hof hkey hbuf
      exact ⟨_, hfile, (h.labels o _ ho hfile).symm⟩

/-! ## One handle -/

theorem not_unsent (h : of.writeBuf = none) : of.unsent = false := by rw [OpenFile.unsent, h]; rfl

theorem update_other {F : UInt64 → Option OpenFile} {new : Option OpenFile} (hold : ∀ of, F fh = some of → of.key ≠ y)
    (hnew : ∀ of, new = some of → of.key ≠ y) (fh' : UInt64) (of : OpenFile) (hkey : of.key = y) :
    update F fh new fh' = some of ↔ F fh' = some of := by
  by_cases hfh : fh' = fh
  · subst hfh
    rw [Function.update_self]
    exact iff_of_false (fun h => hnew of h hkey) fun h => hold of h hkey
  · rw [Function.update_of_ne hfh]

/-- the handle is the one that writes the object -/
theorem At.writer {buf : Content} (hF : m'.openFiles = update m.openFiles fh (some of')) (hkey : of'.key = x)
    (hbuf : of'.writeBuf = some buf) (hall : ∀ fh', m.Writes fh' x → fh' = fh) (hfile : d'.files x = some ⟨buf, of'.labels⟩)
    (hstored : of'.unsent = false → m'.server x = d'.files x) (hlabels : ∀ o, m'.server x = some o → o.labels = of'.labels)
    (hknown : ∀ ino, d'.inodes ino = some x → (m'.server x).isSome = true → (m'.cachedMeta ino).isSome = true)
    (hcached : ∀ ino cached, d'.inodes ino = some x → m'.cachedMeta ino = some cached →
      (cached.labels = ∅ ∨ cached.labels = of'.labels) ∧ (of'.unsent = false → cached.size = buf.length)) : At m' d' x := by
  have hself : m'.openFiles fh = some of' := by rw [hF, Function.update_self]
  have hother : ∀ fh' of, m'.openFiles fh' = some of → of.key = x → fh' ≠ fh → of.writeBuf = none := by
    intro fh' of hof hk hne
    rw [hF, Function.update_of_ne hne] at hof
    by_contra hsome
    exact hne (hall fh' ⟨of, hof, hk, Option.isSome_iff_ne_none.2 hsome⟩)
  have hone : ∀ fh', m'.Writes fh' x → fh' = fh := by
    rintro fh' ⟨of, hof, hk, hsome⟩
    by_contra hne
    rw [hother fh' of hof hk hne] at hsome
    cases hsome
  have hsent : m'.Sent x → of'.unsent = false := fun hs => hs fh of' hself hkey
  constructor
  · exact fun fh' fh'' hw hw' => (hone fh' hw).trans (hone fh'' hw').symm
  · intro fh' of buf' hof hk hb
    obtain rfl := hone fh' ⟨of, hof, hk, by rw [hb]; rfl⟩
    rw [hself] at hof
    cases hof
    rw [hbuf] at hb
    cases hb
    exact hfile
  · exact fun hs => hstored (hsent hs)
  · intro o o' ho ho'
    rw [hfile] at ho'
    cases ho'
    exact hlabels o ho
  · intro ino _
    rw [hfile]
    rfl
  · exact hknown
  · intro ino cached o hino hc ho
    rw [hfile] at ho
    cases ho
    obtain ⟨hl, hsize⟩ := hcached ino cached hino hc
    exact ⟨hl, fun hs => hsize (hsent hs)⟩

/-! ## What is cached -/

section Cached

variable (m) (ino) (cached : CachedMeta) (size : ℕ)

@[simp] theorem updateMeta_server : (m.updateMeta ino cached).server = m.server := by rw [updateMeta]; split <;> rfl

@[simp] theorem updateMeta_inodes : (m.updateMeta ino cached).inodes = m.inodes := by rw [updateMeta]; split <;> rfl

@[simp] theorem updateMeta_openFiles : (m.updateMeta ino cached).openFiles = m.openFiles := by rw [updateMeta]; split <;> rfl

@[simp] theorem setSize_server : (m.setSize ino size).server = m.server := updateMeta_server _ _ _

@[simp] theorem setSize_inodes : (m.setSize ino size).inodes = m.inodes := updateMeta_inodes _ _ _

@[simp] theorem setSize_openFiles : (m.setSize ino size).openFiles = m.openFiles := updateMeta_openFiles _ _ _

theorem shrinkCachedSize_server : (m.shrinkCachedSize ino size).server = m.server := by
  rw [shrinkCachedSize]
  split
  · split_ifs
    · exact setSize_server ..
    · rfl
  · rfl

theorem shrinkCachedSize_inodes : (m.shrinkCachedSize ino size).inodes = m.inodes := by
  rw [shrinkCachedSize]
  split
  · split_ifs
    · exact setSize_inodes ..
    · rfl
  · rfl

theorem shrinkCachedSize_openFiles : (m.shrinkCachedSize ino size).openFiles = m.openFiles := by
  rw [shrinkCachedSize]
  split
  · split_ifs
    · exact setSize_openFiles ..
    · rfl
  · rfl

@[simp] theorem noteWritten_server : (m.noteWritten ino size).server = m.server := setSize_server _ _ _

@[simp] theorem noteWritten_inodes : (m.noteWritten ino size).inodes = m.inodes := setSize_inodes _ _ _

@[simp] theorem noteWritten_openFiles : (m.noteWritten ino size).openFiles = m.openFiles := setSize_openFiles _ _ _

@[simp] theorem noteWritten_cachedMeta : (m.noteWritten ino size).cachedMeta = (m.setSize ino size).cachedMeta := rfl

variable {m ino cached size}

theorem updateMeta_self (cached : CachedMeta) (h : m.objectOf ino = some x) :
    (m.updateMeta ino cached).cachedMeta = update m.cachedMeta ino (some cached) := by
  rw [updateMeta, byIno_of_objectOf h]
  rfl

end Cached

/-- of what is cached only the entry of `ino` changes; its labels are kept, or none are cached -/
structure Recached (m m' : Y2qFuse) (ino : UInt64) : Prop where
  other : ∀ i ≠ ino, m'.cachedMeta i = m.cachedMeta i
  labels : ∀ c', m'.cachedMeta ino = some c' → c'.labels = ∅ ∨ ∃ c, m.cachedMeta ino = some c ∧ c'.labels = c.labels
  kept : (m.cachedMeta ino).isSome = true → (m'.cachedMeta ino).isSome = true

theorem Recached.of_eq (h : m'.cachedMeta = m.cachedMeta) : Recached m m' ino where
  other i _ := by rw [h]
  labels c' hc' := .inr ⟨c', h ▸ hc', rfl⟩
  kept := by rw [h]; exact id

theorem setSize_size (h : m.objectOf ino = some x) (size : ℕ) : ∃ c, (m.setSize ino size).cachedMeta ino = some c ∧ c.size = size := by
  rw [setSize, updateMeta_self _ h, Function.update_self]
  cases m.cachedMeta ino with
  | none => exact ⟨_, rfl, rfl⟩
  | some c => exact ⟨_, rfl, rfl⟩

theorem recached_setSize (h : m.objectOf ino = some x) (size : ℕ) : Recached m (m.setSize ino size) ino where
  other i hi := by rw [setSize, updateMeta_self _ h, Function.update_of_ne hi]
  labels c' hc' := by
    rw [setSize, updateMeta_self _ h, Function.update_self] at hc'
    cases hc : m.cachedMeta ino with
    | none =>
      rw [hc] at hc'
      cases hc'
      exact .inl rfl
    | some c =>
      rw [hc] at hc'
      cases hc'
      exact .inr ⟨c, rfl, rfl⟩
  kept _ := by
    obtain ⟨c, hc, -⟩ := setSize_size h size
    rw [hc]
    rfl

theorem recached_shrink (h : m.objectOf ino = some x) (newLen : ℕ) : Recached m (m.shrinkCachedSize ino newLen) ino := by
  rw [shrinkCachedSize]
  split
  · split_ifs
    · exact recached_setSize h newLen
    · exact .of_eq rfl
  · exact .of_eq rfl

/-! ## One object -/

/-- a call that touches one object, its handles, and what is cached of its inode -/
theorem Sim.touch (h : Sim m d) (hinodes : m'.inodes = m.inodes) (hdinodes : d'.inodes = d.inodes)
    (hF : ∀ y ≠ x, ∀ fh of, of.key = y → (m'.openFiles fh = some of ↔ m.openFiles fh = some of))
    (hd : ∀ fh, (m'.openFiles fh).map (fun of => (of.key, of.writeBuf.isSome)) = d'.handles fh)
    (hserver : ∀ y ≠ x, m'.server y = m.server y) (hfiles : ∀ y ≠ x, d'.files y = d.files y)
    (hcached : ∀ i, d.inodes i ≠ some x → m'.cachedMeta i = m.cachedMeta i) (hx : At m' d' x) : Sim m' d' where
  inverse := hinodes ▸ h.inverse
  inodes i := by
    rw [hdinodes, ← h.inodes, objectOf, objectOf, hinodes]
  handles := hd
  all y := by
    by_cases hy : y = x
    · exact hy ▸ hx
    · refine (h.all y).frame (hF y hy) (hserver y hy) (hfiles y hy) (fun i => by rw [hdinodes]) fun i hi => hcached i ?_
      rw [hi]
      exact fun hxy => hy (Option.some.inj hxy)

/-- one handle of the object is put there, or changed, or goes -/
theorem Sim.touchHandle {new : Option OpenFile} (h : Sim m d) (hinodes : m'.inodes = m.inodes)
    (hdinodes : d'.inodes = d.inodes) (hF : m'.openFiles = update m.openFiles fh new) (hold : ∀ of, m.openFiles fh = some of → of.key = x)
    (hnew : ∀ of, new = some of → of.key = x) (hd : d'.handles = update d.handles fh (new.map fun of => (of.key, of.writeBuf.isSome)))
    (hserver : ∀ y ≠ x, m'.server y = m.server y) (hfiles : ∀ y ≠ x, d'.files y = d.files y)
    (hcached : ∀ i, d.inodes i ≠ some x → m'.cachedMeta i = m.cachedMeta i) (hx : At m' d' x) : Sim m' d' := by
  refine h.touch hinodes hdinodes (fun y hy => ?_) (fun i => ?_) hserver hfiles hcached hx
  · rw [hF]
    exact update_other (fun of hof => hold of hof ▸ Ne.symm hy) fun of hof => hnew of hof ▸ Ne.symm hy
  · rw [hF, hd]
    by_cases hi : i = fh
    · subst hi
      rw [Function.update_self, Function.update_self]
    · rw [Function.update_of_ne hi, Function.update_of_ne hi]
      exact h.handles i

/-- the handle that writes the object, with its buffer changed or sent -/
theorem Sim.writer {buf buf' : Content} (h : Sim m d) (hino : m.objectOf ino = some of.key) (hof : m.openFiles fh = some of)
    (hbuf : of.writeBuf = some buf) (hinodes : m'.inodes = m.inodes) (hF : m'.openFiles = update m.openFiles fh (some of'))
    (hkey : of'.key = of.key) (hbuf' : of'.writeBuf = some buf') (hlabels : of'.labels = of.labels)
    (hd : d' = { d with files := update d.files of.key (some ⟨buf', of.labels⟩) }) (hserver : ∀ y ≠ of.key, m'.server y = m.server y)
    (hstored : of'.unsent = false → m'.server of.key = some ⟨buf', of.labels⟩)
    (hslabels : ∀ o, m'.server of.key = some o → o.labels = of.labels) (hcached : Recached m m' ino)
    (hsize : of'.unsent = false → ∀ c, m'.cachedMeta ino = some c → c.size = buf'.length)
    (hknown : (m'.server of.key).isSome = true → (m'.cachedMeta ino).isSome = true) : Sim m' d' := by
  subst hd
  have hx := h.all of.key
  have hfile := hx.buffer fh of buf hof rfl hbuf
  have hone : ∀ i, d.inodes i = some of.key → i = ino := fun i hi => h.inode_inj hi (h.inodes ino ▸ hino)
  refine h.touchHandle hinodes rfl hF (fun of'' hof'' => ?_) (fun of'' hof'' => ?_) ?_ hserver (fun y hy => Function.update_of_ne hy _ _)
    (fun i hi => hcached.other i ?_) ?_
  · rw [hof] at hof''
    cases hof''
    rfl
  · cases hof''
    exact hkey
  · have hfh := h.handles fh
    rw [hof, Option.map_some, hbuf] at hfh
    rw [Option.map_some, hkey, hbuf']
    exact Function.eq_update_iff.2 ⟨hfh.symm, fun _ _ => rfl⟩
  · rintro rfl
    exact hi (h.inodes i ▸ hino)
  · refine At.writer hF hkey hbuf' (fun fh' hw => hx.single fh' fh hw ⟨of, hof, rfl, by rw [hbuf]; rfl⟩) ?_ ?_ ?_ ?_ ?_
    · rw [hlabels]
      exact Function.update_self of.key _ d.files
    · intro hs
      rw [hstored hs]
      exact (Function.update_self of.key _ d.files).symm
    · rw [hlabels]
      exact hslabels
    · intro i hi
      rw [hone i hi]
      exact hknown
    · intro i c hi hc
      rw [hone i hi] at hc
      refine ⟨?_, fun hs => hsize hs c hc⟩
      rcases hcached.labels c hc with hempty | ⟨c₀, hc₀, heq⟩
      · exact .inl hempty
      · rw [heq, hlabels]
        exact (hx.cached ino c₀ _ (h.inodes ino ▸ hino) hc₀ hfile).1

theorem Disk.modify_some {f : Content → Option Content} {c : Content} {labels : LabelSet} (h : d.files x = some ⟨c, labels⟩) :
    d.modify x f = { d with files := update d.files x (some ⟨(f c).getD c, labels⟩) } := by
  rw [Disk.modify, h]
  rfl

theorem Sim.write (h : Sim m d) {offset : UInt64} {data : Bytes} (howns : m.Owns ino fh) :
    Sim (m.write ino fh offset data).2 (d.after (.write ino fh offset data) (m.write ino fh offset data).1) := by
  rw [Y2qFuse.write]
  split_ifs with hro
  · exact h
  · split
    case h_1 => exact h
    case h_2 of hof =>
      split
      case h_1 => exact h
      case h_2 buf hbuf =>
        split
        case h_1 => exact h
        case h_2 buf' hwrite =>
          have hino := howns of hof
          have hx := h.all of.key
          have hfile := hx.buffer fh of buf hof rfl hbuf
          have hhandle : d.handles fh = some (of.key, true) := by
            rw [← h.handles, hof, Option.map_some, hbuf]
            rfl
          let m₁ := m.setHandle fh (some (of.wrote buf'))
          have hino₁ : m₁.objectOf ino = some of.key := hino
          have hrec := recached_setSize hino₁ buf'.length
          obtain ⟨c, hc, -⟩ := setSize_size hino₁ buf'.length
          simp only [Disk.after, hhandle]
          refine h.writer hino hof hbuf (setSize_inodes m₁ _ _) (setSize_openFiles m₁ _ _) rfl rfl rfl ?_ ?_ nofun ?_
            ⟨hrec.other, hrec.labels, hrec.kept⟩ nofun ?_
          · rw [Disk.modify_some hfile, hwrite]
            rfl
          · intro y _
            rw [setSize_server]
            rfl
          · intro o ho
            rw [setSize_server] at ho
            exact hx.labels o _ ho hfile
          · intro _
            rw [hc]
            rfl

/-! ## Sending and closing -/

theorem Sim.invalidate (h : Sim m d) (ino : UInt64) : Sim (m.invalidateMeta ino) d where
  inverse := h.inverse
  inodes := h.inodes
  handles := h.handles
  all x := ⟨(h.all x).single, (h.all x).buffer, (h.all x).stored, (h.all x).labels, (h.all x).named, (h.all x).known, (h.all x).cached⟩

theorem Sim.flush (h : Sim m d) (howns : m.Owns ino fh) (putFails : Option Errno) : Sim (m.flushHandle ino fh putFails).2 d := by
  rw [flushHandle]
  split
  case h_1 => exact h
  case h_2 of hof =>
    split_ifs with hclean
    · exact h
    · split
      case h_1 => exact h
      case h_2 buf hbuf =>
        split
        case h_1 => exact h.invalidate ino
        case h_2 =>
          have hino := howns of hof
          have hfile := (h.all of.key).buffer fh of buf hof rfl hbuf
          let m₁ := (m.setHandle fh (some of.sent)).put of.key buf of.labels
          have hino₁ : m₁.objectOf ino = some of.key := hino
          have hrec := recached_setSize hino₁ buf.length
          obtain ⟨c, hc, hsize⟩ := setSize_size hino₁ buf.length
          have hput : (m₁.noteWritten ino buf.length).server = update m.server of.key (some ⟨buf, of.labels⟩) := noteWritten_server m₁ _ _
          have hself : (m₁.noteWritten ino buf.length).server of.key = some ⟨buf, of.labels⟩ := by rw [hput, Function.update_self]
          refine h.writer hino hof hbuf (noteWritten_inodes m₁ _ _) (noteWritten_openFiles m₁ _ _) rfl hbuf rfl ?_ ?_ (fun _ => hself) ?_
            ⟨hrec.other, hrec.labels, hrec.kept⟩ ?_ ?_
          · rw [← hfile, Function.update_eq_self]
          · intro y hy
            rw [hput, Function.update_of_ne hy]
          · intro o ho
            rw [hself] at ho
            cases ho
            rfl
          · intro _ c' hc'
            rw [noteWritten_cachedMeta, hc] at hc'
            cases hc'
            exact hsize
          · intro _
            rw [noteWritten_cachedMeta, hc]
            rfl

theorem setHandle_openFiles (fh : UInt64) (o : Option OpenFile) : (m.setHandle fh o).openFiles = update m.openFiles fh o := rfl

/-- a handle that had nothing left to send goes, or one that only reads takes its place -/
theorem Sim.idle (h : Sim m d) (fh : UInt64) (new : Option OpenFile) (hsent : ∀ of, m.openFiles fh = some of → of.unsent = false)
    (hnew : ∀ of, new = some of → of.writeBuf = none) :
    Sim (m.setHandle fh new) { d with handles := update d.handles fh (new.map fun of => (of.key, of.writeBuf.isSome)) } := by
  have hof : ∀ fh' of, (m.setHandle fh new).openFiles fh' = some of → m.openFiles fh' = some of ∨ of.writeBuf = none := by
    intro fh' of hof
    by_cases hfh : fh' = fh
    · subst hfh
      rw [setHandle_openFiles, Function.update_self] at hof
      exact .inr (hnew of hof)
    · rw [setHandle_openFiles, Function.update_of_ne hfh] at hof
      exact .inl hof
  refine ⟨h.inverse, h.inodes, fun fh' => ?_, fun x => ?_⟩
  · by_cases hfh : fh' = fh
    · subst hfh
      simp only [setHandle, Function.update_self]
    · simp only [setHandle, Function.update_of_ne hfh]
      exact h.handles fh'
  · have hx := h.all x
    have hopen : ∀ fh', (m.setHandle fh new).Writes fh' x → m.Writes fh' x := by
      rintro fh' ⟨of, hof', hkey, hbuf⟩
      rcases hof fh' of hof' with hold | hnone
      · exact ⟨of, hold, hkey, hbuf⟩
      · rw [hnone] at hbuf
        cases hbuf
    have hs : (m.setHandle fh new).Sent x → m.Sent x := by
      intro hs fh' of hof' hkey
      by_cases hfh : fh' = fh
      · exact hsent of (hfh ▸ hof')
      · exact hs fh' of (by rw [← hof']; exact Function.update_of_ne hfh _ _) hkey
    refine ⟨fun fh' fh'' hw hw' => hx.single fh' fh'' (hopen fh' hw) (hopen fh'' hw'), fun fh' of buf hof' hkey hbuf => ?_,
      fun hs' => hx.stored (hs hs'), hx.labels, hx.named, hx.known,
      fun i c o hi hc ho => ⟨(hx.cached i c o hi hc ho).1, fun hs' => (hx.cached i c o hi hc ho).2 (hs hs')⟩⟩
    rcases hof fh' of hof' with hold | hnone
    · exact hx.buffer fh' of buf hold hkey hbuf
    · rw [hnone] at hbuf
      cases hbuf

theorem setHandle_setHandle (fh : UInt64) (o o' : Option OpenFile) : (m.setHandle fh o).setHandle fh o' = m.setHandle fh o' := by
  simp only [setHandle, Function.update_idem]

theorem setHandle_noteWritten (fh : UInt64) (o : Option OpenFile) (x : ObjKey) (buf : Content) (labels : LabelSet) (ino : UInt64)
    (size : ℕ) :
    ((m.put x buf labels).noteWritten ino size).setHandle fh o = ((m.setHandle fh o).put x buf labels).noteWritten ino size := by
  by_cases h : (m.inodes.byIno ino).isSome = true <;> simp [noteWritten, setSize, updateMeta, invalidateMeta, put, setHandle, h]

/-- to release a handle is to flush it and to close it -/
theorem release_eq (ino fh : UInt64) : m.release ino fh none = (.ok, (m.flushHandle ino fh none).2.setHandle fh none) := by
  cases hof : m.openFiles fh with
  | none =>
    have hgone : m.setHandle fh none = m := by rw [setHandle, ← hof, Function.update_eq_self]
    simp only [release, flushHandle, hof, hgone]
  | some of =>
    cases hbuf : of.writeBuf with
    | none =>
      simp only [release, flushHandle, hof, hbuf]
      split_ifs <;> rfl
    | some buf =>
      have hsent : ((m.setHandle fh (some of.sent)).put of.key buf of.labels).noteWritten ino buf.length =
          ((m.put of.key buf of.labels).noteWritten ino buf.length).setHandle fh (some of.sent) := (setHandle_noteWritten ..).symm
      simp only [release, flushHandle, hof, hbuf]
      cases hd : of.dirty
      · rfl
      · cases hf : of.flushed
        · simp only [Bool.not_false, Bool.and_self, if_true, Bool.not_true, Bool.or_self, Bool.false_eq_true, if_false]
          rw [hsent, setHandle_setHandle, setHandle_noteWritten]
        · rfl

theorem flushHandle_sent (ino fh : UInt64) : ∀ of, (m.flushHandle ino fh none).2.openFiles fh = some of → of.unsent = false := by
  intro of' hof'
  cases hof : m.openFiles fh with
  | none =>
    simp only [flushHandle, hof] at hof'
    cases hof'
  | some of =>
    cases hbuf : of.writeBuf with
    | none =>
      simp only [flushHandle, hof, hbuf, ite_self] at hof'
      cases hof'
      exact not_unsent hbuf
    | some buf =>
      simp only [flushHandle, hof, hbuf] at hof'
      split_ifs at hof' with hclean
      · rw [hof] at hof'
        obtain rfl : of = of' := Option.some.inj hof'
        rw [OpenFile.unsent, hbuf]
        cases hd : of.dirty with
        | false => rfl
        | true =>
          rw [hd] at hclean
          simpa using hclean
      · rw [noteWritten_openFiles] at hof'
        cases (Function.update_self fh _ m.openFiles).symm.trans hof'
        rw [OpenFile.unsent, OpenFile.sent, Bool.not_true, Bool.and_false]

theorem Sim.release (h : Sim m d) (howns : m.Owns ino fh) :
    Sim (m.release ino fh none).2 { d with handles := update d.handles fh none } := by
  rw [release_eq]
  exact (h.flush howns none).idle fh none (flushHandle_sent ino fh) nofun

end Y2qFuse

end Y2q.OpenFiles
