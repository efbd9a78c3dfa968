/-
Open files of a mounted store (`y2q-fuse/src/fs.rs`).

A writable handle has a buffer of its own. It is filled from the server when the file is opened, and goes back in one PUT when the handle is
flushed or released. The size that the kernel sees comes from a buffer, from what is cached beside the inode, or from the server.

- `Y2qFuse`: the server's objects, the inodes with what is cached of them, and the handles.
- `Call`, `Y2qFuse.call`: one call of the kernel, which ends before the next begins. A request that fails changes nothing on the server.
- Names, directories, labels, `rename` and `unlink` are told elsewhere or left out. So are failures of the temporary files, but for a length
  that no file can have.
-/
import Mathlib.Tactic
import Y2q.Core.Bytes
import Y2q.Fuse.InodeTable
import Y2q.Storage.Objects

namespace Y2q.OpenFiles

open Function (update)
open Fuse (InodePath InodeTable)
open Objects (ObjKey LabelSet)

/-! ## Contents -/

/-- the largest `off_t` -/
def FILE_LIMIT : ℕ := 2 ^ 63 - 1

structure Content where
  bytes : Bytes
  fits : bytes.length ≤ FILE_LIMIT

namespace Content

@[ext] theorem ext {c c' : Content} (h : c.bytes = c'.bytes) : c = c' := by
  cases c
  cases c'
  cases h
  rfl

def empty : Content := ⟨[], Nat.zero_le _⟩

def length (c : Content) : ℕ := c.bytes.length

/-- `write_all` at an offset -/
def write (c : Content) (offset : ℕ) (data : Bytes) : Option Content :=
  if h : offset + data.length ≤ FILE_LIMIT then
    some (if data = [] then c else ⟨pwrite c.bytes offset data, by rw [length_pwrite]; exact max_le c.fits h⟩)
  else none

/-- `set_buffer_len` -/
def setLen (c : Content) (n : ℕ) : Option Content :=
  if h : n ≤ FILE_LIMIT then some ⟨Y2q.setLen c.bytes n, (length_setLen c.bytes n).trans_le h⟩ else none

def slice (c : Content) (i j : ℕ) : Bytes := Y2q.slice c.bytes i j

end Content

structure ServerObject where
  content : Content
  labels : LabelSet

/-! ## The driver -/

structure OpenFile where
  key : ObjKey
  /-- present for writable opens -/
  writeBuf : Option Content
  dirty : Bool
  /-- set when the PUT has been tried -/
  flushed : Bool
  labels : LabelSet

/-- of what is cached, the size and the labels -/
structure CachedMeta where
  size : ℕ
  labels : LabelSet

inductive Errno where
  | ENOENT
  | EISDIR
  | EIO
  | EBADF
  | EROFS
  | EACCES
  | EEXIST
  | EINVAL
  | ETIMEDOUT
deriving DecidableEq

inductive ClientError where
  | NotFound
  | Other (e : Errno)

def toErrno : ClientError → Errno
  | .NotFound => .ENOENT
  | .Other e => e

structure Y2qFuse where
  server : ObjKey → Option ServerObject
  inodes : InodeTable
  cachedMeta : UInt64 → Option CachedMeta
  /-- cached less than five seconds ago -/
  fresh : UInt64 → Bool
  openFiles : UInt64 → Option OpenFile
  nextFh : UInt64
  readOnly : Bool

inductive Reply where
  | ok
  | error (e : Errno)
  | entry (ino : UInt64) (size : ℕ)
  | attr (size : ℕ)
  | dirAttr
  | opened (fh : UInt64)
  | created (ino fh : UInt64)
  | data (bytes : Bytes)
  | written (n : ℕ)
deriving DecidableEq

structure OpenPlan where
  writeBuf : Bool
  seedFromRemote : Bool

def O_WRONLY : UInt32 := 1
def O_RDWR : UInt32 := 2
def O_TRUNC : UInt32 := 512

def openFlagsPlan (flags : UInt32) : OpenPlan :=
  let trunc := flags &&& O_TRUNC ≠ 0
  let writeBuf := flags &&& (O_WRONLY ||| O_RDWR) ≠ 0 || trunc
  ⟨writeBuf, writeBuf && !trunc⟩

/-- both ends belong to the range; `u64` arithmetic that saturates -/
def computeReadRange (start : UInt64) (size : UInt32) (cachedSize : Option ℕ) : Option (ℕ × ℕ) :=
  if size = 0 then none
  else
    let rawEnd := min (start.toNat + size.toNat) (2 ^ 64 - 1) - 1
    some (start.toNat, match cachedSize with
      | some fileSize => min rawEnd (fileSize - 1)
      | none => rawEnd)

/-- a range of an object, as the server gives it; `none` for 416 -/
def getRange (c : Content) (first last : ℕ) : Option Bytes :=
  if first ≤ last ∧ first < c.length ∧ last < c.length then some (c.slice first (last + 1)) else none

structure TruncatePlan where
  initiatorWritable : Bool
  putPending : Bool

/-- the handle still has a PUT to make -/
def OpenFile.unsent (of : OpenFile) : Bool := of.writeBuf.isSome && of.dirty && !of.flushed

def OpenFile.wrote (of : OpenFile) (buf : Content) : OpenFile := { of with writeBuf := some buf, dirty := true, flushed := false }

def OpenFile.sent (of : OpenFile) : OpenFile := { of with flushed := true }

namespace Y2qFuse

variable (m : Y2qFuse)

/-! ### Inodes -/

def updateMeta (ino : UInt64) (cached : CachedMeta) : Y2qFuse :=
  if (m.inodes.byIno ino).isSome then
    { m with cachedMeta := update m.cachedMeta ino (some cached), fresh := update m.fresh ino true }
  else m

def invalidateMeta (ino : UInt64) : Y2qFuse := { m with fresh := update m.fresh ino false }

def setSize (ino : UInt64) (size : ℕ) : Y2qFuse :=
  m.updateMeta ino (match m.cachedMeta ino with
    | some cached => { cached with size }
    | none => ⟨size, ∅⟩)

def noteWritten (ino : UInt64) (size : ℕ) : Y2qFuse := (m.setSize ino size).invalidateMeta ino

def shrinkCachedSize (ino : UInt64) (newLen : ℕ) : Y2qFuse :=
  match m.cachedMeta ino with
  | some cached => if newLen < cached.size then m.setSize ino newLen else m
  | none => m

def objectOf (ino : UInt64) : Option ObjKey :=
  match m.inodes.byIno ino with
  | some (.object bucket key) => some (bucket, key)
  | _ => none

/-- nothing is cached of a new number -/
def getOrAssign (x : ObjKey) : UInt64 × Y2qFuse :=
  match m.inodes.byPath (.object x.1 x.2) with
  | some ino => (ino, m)
  | none =>
    let (ino, inodes) := m.inodes.getOrAssign (.object x.1 x.2)
    (ino, { m with inodes, cachedMeta := update m.cachedMeta ino none, fresh := update m.fresh ino false })

/-! ### The server -/

def put (x : ObjKey) (content : Content) (labels : LabelSet) : Y2qFuse :=
  { m with server := update m.server x (some ⟨content, labels⟩) }

/-- the error, if the request does not go through -/
def head (x : ObjKey) : Option Errno → Except ClientError ServerObject
  | some e => .error (.Other e)
  | none =>
    match m.server x with
    | some o => .ok o
    | none => .error .NotFound

/-! ### Opening -/

def setHandle (fh : UInt64) (of : Option OpenFile) : Y2qFuse := { m with openFiles := update m.openFiles fh of }

/-- the next handle -/
def insertHandle (of : OpenFile) : Y2qFuse :=
  { m.setHandle m.nextFh (some of) with nextFh := m.nextFh + 1 }

/-- the length is one that a file can have -/
def truncateOpenBuffer (x : ObjKey) (newLen : ℕ) (initiator : Bool) (of : OpenFile) : OpenFile :=
  if of.key = x then
    match of.writeBuf with
    | none => of
    | some buf =>
      let changed := initiator && (buf.length ≠ newLen || of.dirty)
      { of with
        writeBuf := some ((buf.setLen newLen).getD buf)
        dirty := of.dirty || changed
        flushed := of.flushed && !changed }
  else of

/-- every writable handle of the object; only the initiator is marked for a PUT -/
def truncateOpenBuffers (x : ObjKey) (newLen : ℕ) (initiator : Option UInt64) : Y2qFuse :=
  { m with openFiles := fun fh => (m.openFiles fh).map (truncateOpenBuffer x newLen (initiator = some fh)) }

def openFile (ino : UInt64) (flags : UInt32) (getFails headFails : Option Errno) : Reply × Y2qFuse :=
  match m.inodes.byIno ino with
  | none => (.error .ENOENT, m)
  | some (.object bucket key) =>
    let x := (bucket, key)
    let plan := openFlagsPlan flags
    if plan.writeBuf && m.readOnly then (.error .EROFS, m)
    else
      let cachedLabels : LabelSet := ((m.cachedMeta ino).map CachedMeta.labels).getD ∅
      let seeded : Except Errno Content :=
        if plan.seedFromRemote then
          match m.head x getFails with
          | .ok o => .ok o.content
          | .error .NotFound => .ok .empty
          | .error (.Other e) => .error e
        else .ok .empty
      match seeded with
      | .error e => (.error e, m)
      | .ok seed =>
        let labels : Except Errno LabelSet :=
          if cachedLabels = ∅ ∧ (plan.seedFromRemote || plan.writeBuf) then
            match m.head x headFails with
            | .ok o => .ok o.labels
            | .error .NotFound => .ok ∅
            | .error (.Other e) => if plan.writeBuf then .error e else .ok ∅
          else .ok cachedLabels
        match labels with
        | .error e => (.error e, m)
        | .ok labels =>
          let truncating := plan.writeBuf && !plan.seedFromRemote
          let of : OpenFile := ⟨x, if plan.writeBuf then some seed else none, truncating, false, labels⟩
          let fh := m.nextFh
          if truncating then
            (.opened fh, (((m.truncateOpenBuffers x 0 (some fh)).insertHandle of).setSize ino 0))
          else (.opened fh, m.insertHandle of)
  | some _ => (.error .EISDIR, m)

/-- of a name that the kernel has looked up in vain -/
def create (x : ObjKey) : Reply × Y2qFuse :=
  if m.readOnly then (.error .EROFS, m)
  else
    let (ino, m) := m.getOrAssign x
    (.created ino m.nextFh, m.insertHandle ⟨x, some .empty, true, false, ∅⟩)

/-- of the name of a file -/
def lookup (x : ObjKey) (headFails : Option Errno) : Reply × Y2qFuse :=
  match m.head x headFails with
  | .error e => (.error (toErrno e), m)
  | .ok o =>
    let (ino, m) := m.getOrAssign x
    (.entry ino o.content.length, m.updateMeta ino ⟨o.content.length, o.labels⟩)

/-! ### Reading and writing -/

/-- the length of a buffer of the object: the first one in the order of the map, or the first of those that are to be sent -/
def bestSize (files : List OpenFile) : Option ℕ :=
  ((files.find? OpenFile.unsent).or files.head?).bind fun of => of.writeBuf.map Content.length

/-- `order` is how the map gives its handles -/
def getattr (ino : UInt64) (fh : Option UInt64) (order : List UInt64) (headFails : Option Errno) : Reply × Y2qFuse :=
  match m.inodes.byIno ino with
  | none => (.error .ENOENT, m)
  | some (.object bucket key) =>
    let x := (bucket, key)
    let writable (of : OpenFile) : Bool := of.key = x && of.writeBuf.isSome
    let fromFh := ((fh.bind m.openFiles).filter writable).bind fun of => of.writeBuf.map Content.length
    match fromFh.or (bestSize ((order.filterMap m.openFiles).filter writable)) with
    | some size => (.attr size, m)
    | none =>
      match m.cachedMeta ino, m.fresh ino with
      | some cached, true => (.attr cached.size, m)
      | _, _ =>
        match m.head x headFails with
        | .ok o => (.attr o.content.length, m.updateMeta ino ⟨o.content.length, o.labels⟩)
        | .error e => (.error (toErrno e), m)
  | some _ => (.dirAttr, m)

def read (ino fh offset : UInt64) (size : UInt32) (getFails : Option Errno) : Reply :=
  match (m.openFiles fh).bind OpenFile.writeBuf with
  | some buf =>
    if size = 0 ∨ buf.length ≤ offset.toNat then .data []
    else
      match computeReadRange offset size (some buf.length) with
      | some (first, last) => .data (buf.slice first (last + 1))
      | none => .data []
  | none =>
    match ((m.openFiles fh).map OpenFile.key).or (m.objectOf ino) with
    | none => .error .EBADF
    | some x =>
      let cachedSize := (m.cachedMeta ino).map CachedMeta.size
      if size = 0 ∨ ∃ s ∈ cachedSize, s ≤ offset.toNat then .data []
      else
        match computeReadRange offset size cachedSize with
        | none => .data []
        | some (first, last) =>
          match m.head x getFails with
          | .error e => .error (toErrno e)
          | .ok o => .data ((getRange o.content first last).getD [])

def write (ino fh offset : UInt64) (data : Bytes) : Reply × Y2qFuse :=
  if m.readOnly then (.error .EROFS, m)
  else
    match m.openFiles fh with
    | none => (.error .EBADF, m)
    | some of =>
      match of.writeBuf with
      | none => (.error .EBADF, m)
      | some buf =>
        match buf.write offset.toNat data with
        | none => (.error Errno.EIO, m)
        | some buf =>
          (.written data.length, (m.setHandle fh (some (of.wrote buf))).setSize ino buf.length)

/-! ### Sending -/

/-- for `flush` and `fsync` -/
def flushHandle (ino fh : UInt64) (putFails : Option Errno) : Reply × Y2qFuse :=
  match m.openFiles fh with
  | none => (.ok, m)
  | some of =>
    if !of.dirty || of.flushed then (.ok, m)
    else
      match of.writeBuf with
      | none => (.ok, m)
      | some buf =>
        match putFails with
        | some e => (.error e, m.invalidateMeta ino)
        | none =>
          (.ok, ((m.setHandle fh (some of.sent)).put of.key buf of.labels).noteWritten ino buf.length)

def release (ino fh : UInt64) (putFails : Option Errno) : Reply × Y2qFuse :=
  match m.openFiles fh with
  | none => (.ok, m)
  | some of =>
    let m := m.setHandle fh none
    match of.writeBuf with
    | none => (.ok, m)
    | some buf =>
      if of.dirty && !of.flushed then
        match putFails with
        | some _ => (.ok, m.invalidateMeta ino)
        | none => (.ok, (m.put of.key buf of.labels).noteWritten ino buf.length)
      else (.ok, m)

/-! ### Truncating -/

def truncatePlan (x : ObjKey) (initiator : Option UInt64) (order : List UInt64) : TruncatePlan where
  initiatorWritable := ((initiator.bind m.openFiles).filter fun of => of.key = x && of.writeBuf.isSome).isSome
  putPending := (order.filterMap m.openFiles).any fun of => of.key = x && of.unsent

def truncateTarget (fh : Option UInt64) (ino : UInt64) : Option ObjKey := ((fh.bind m.openFiles).map OpenFile.key).or (m.objectOf ino)

/-- what is uploaded in place of the object -/
def truncated (x : ObjKey) (newLen : ℕ) (getFails : Option Errno) : Except ClientError Content :=
  if 0 < newLen then
    match m.head x getFails with
    | .error e => .error e
    | .ok o =>
      match o.content.setLen newLen with
      | some content => .ok content
      | none => .error (.Other Errno.EIO)
  else .ok .empty

def truncateRemote (x : ObjKey) (newLen : ℕ) (headFails getFails putFails : Option Errno) : Except ClientError Y2qFuse :=
  match m.head x headFails with
  | .error e => .error e
  | .ok o =>
    if o.content.length = newLen then .ok m
    else
      match m.truncated x newLen getFails, putFails with
      | .error e, _ => .error e
      | .ok _, some e => .error (.Other e)
      | .ok content, none => .ok (m.put x content o.labels)

def truncateObject (ino : UInt64) (fh : Option UInt64) (newLen : ℕ) (order : List UInt64) (headFails getFails putFails : Option Errno) :
    Option Errno × Y2qFuse :=
  match m.truncateTarget fh ino with
  | none => (none, m)
  | some x =>
    let plan := m.truncatePlan x fh order
    if plan.initiatorWritable then
      -- the length is set in the first buffer or in none
      if FILE_LIMIT < newLen then (some Errno.EIO, m) else (none, (m.truncateOpenBuffers x newLen fh).shrinkCachedSize ino newLen)
    else
      match m.truncateRemote x newLen headFails getFails putFails with
      | .ok m => (none, (m.truncateOpenBuffers x newLen none).noteWritten ino newLen)
      | .error .NotFound =>
        if plan.putPending then
          if FILE_LIMIT < newLen then (some Errno.EIO, m) else (none, (m.truncateOpenBuffers x newLen none).shrinkCachedSize ino newLen)
        else (some .ENOENT, m)
      | .error (.Other e) => (some e, m)

/-- of the size -/
def setattr (ino : UInt64) (fh : Option UInt64) (size : UInt64) (order : List UInt64) (headFails getFails putFails : Option Errno) :
    Reply × Y2qFuse :=
  match m.inodes.byIno ino with
  | none => (.error .ENOENT, m)
  | some path =>
    if m.readOnly then (.error .EROFS, m)
    else
      match path with
      | .object _ _ =>
        match m.truncateObject ino fh size.toNat order headFails getFails putFails with
        | (none, m) => (.attr size.toNat, m)
        | (some e, m) => (.error e, m)
      | _ => (.dirAttr, m)

end Y2qFuse

/-! ## Calls -/

/-- with the errors of the requests to the server, and the order in which the map gives its handles -/
inductive Call where
  | lookup (x : ObjKey) (headFails : Option Errno)
  | getattr (ino : UInt64) (fh : Option UInt64) (order : List UInt64) (headFails : Option Errno)
  /-- what is cached of an inode gets old -/
  | expire (ino : UInt64)
  | openFile (ino : UInt64) (flags : UInt32) (getFails headFails : Option Errno)
  | create (x : ObjKey)
  | read (ino fh offset : UInt64) (size : UInt32) (getFails : Option Errno)
  | write (ino fh offset : UInt64) (data : Bytes)
  | flush (ino fh : UInt64) (putFails : Option Errno)
  | release (ino fh : UInt64) (putFails : Option Errno)
  | setattr (ino : UInt64) (fh : Option UInt64) (size : UInt64) (order : List UInt64) (headFails getFails putFails : Option Errno)

def Y2qFuse.call (m : Y2qFuse) : Call → Reply × Y2qFuse
  | .lookup x headFails => m.lookup x headFails
  | .getattr ino fh order headFails => m.getattr ino fh order headFails
  | .expire ino => (.ok, m.invalidateMeta ino)
  | .openFile ino flags getFails headFails => m.openFile ino flags getFails headFails
  | .create x => m.create x
  | .read ino fh offset size getFails => (m.read ino fh offset size getFails, m)
  | .write ino fh offset data => m.write ino fh offset data
  | .flush ino fh putFails => m.flushHandle ino fh putFails
  | .release ino fh putFails => m.release ino fh putFails
  | .setattr ino fh size order headFails getFails putFails => m.setattr ino fh size order headFails getFails putFails

end Y2q.OpenFiles
