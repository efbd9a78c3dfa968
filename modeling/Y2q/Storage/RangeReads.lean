/-
Range reads of an object's file (`Storage::get_range` in `storage/filesystem.rs`; `do_get_range` in `storage/uring/ops.rs` does
the same reads at offsets).

- `readExact`: the operating system gives what it likes of each read, one byte at least; the loop goes on until all are there.
- `getRange`: open, header, total length, then the part of the data section that is in the range.
- `clip`: the same on the data section alone; `getRange_opened` says that they agree on a file that opens.
-/
import Mathlib.Tactic
import Y2q.Storage.Tree

namespace Y2q.RangeReads

open Y2q Format

inductive ReadError where
  | locked
  | notFound
  | internal (message : String)
  /-- the length of an inverted range wraps, and there is no memory for so many bytes -/
  | panic
deriving DecidableEq, Repr

/-- `read_exact` of `n` bytes at `off`; the `k`-th read gives at most `batch k` bytes -/
def readExact (batch : ℕ → ℕ+) (file : Bytes) (off n k : ℕ) : Option Bytes :=
  if _h : n = 0 then some []
  else
    let got := slice file off (off + min n (batch k))
    if _hg : got = [] then none
    else (readExact batch file (off + got.length) (n - got.length) (k + 1)).map (got ++ ·)
termination_by n
decreasing_by exact Nat.sub_lt (Nat.pos_of_ne_zero _h) (List.length_pos_of_ne_nil _hg)

variable (P : Primitives)

def getRange (chk : Bytes) (id : String) (batch : ℕ → ℕ+) (locked : Bool) (file : Option Bytes) (start last : ℕ) :
    Except ReadError Bytes :=
  if locked then .error .locked
  else
    match file with
    | none => .error .notFound
    | some bytes =>
      match readExact batch bytes 0 HEADER_SIZE 0 with
      | none => .error (.internal "read header: early eof")
      | some head =>
        match Header.decode P head chk id with
        | .error e => .error (.internal s!"decode header: {e.message}")
        | .ok h =>
          match h.checkTotalLen bytes.length with
          | .error e => .error (.internal e.message)
          | .ok () =>
            if h.dataLen.toNat = 0 ∨ h.dataLen.toNat ≤ start then .ok []
            else
              let endInclusive := min last (h.dataLen.toNat - 1)
              if endInclusive + 1 < start then .error .panic
              else
                match readExact batch bytes (h.dataOffset.toNat + start) (endInclusive + 1 - start) HEADER_SIZE with
                | none => .error (.internal "read data: early eof")
                | some data => .ok data

/-- what a range read returns of a data section -/
def clip (data : Bytes) (start last : ℕ) : Except ReadError Bytes :=
  if data.length = 0 ∨ data.length ≤ start then .ok []
  else if min last (data.length - 1) + 1 < start then .error .panic
  else .ok (slice data start (min last (data.length - 1) + 1))

theorem readExact_eq (batch : ℕ → ℕ+) (file : Bytes) {off n : ℕ} (h : off + n ≤ file.length) (k : ℕ) :
    readExact batch file off n k = some (slice file off (off + n)) := by
  induction n using Nat.strong_induction_on generalizing off k with
  | _ n ih =>
    rw [readExact]
    by_cases hn : n = 0
    · rw [dif_pos hn, hn, Nat.add_zero, slice_self]
    · have hpos := (batch k).pos
      have hlen : (slice file off (off + min n (batch k))).length = min n (batch k) := by
        rw [length_slice (by omega), Nat.add_sub_cancel_left]
      have hne : slice file off (off + min n (batch k)) ≠ [] := List.ne_nil_of_length_pos (by rw [hlen]; omega)
      rw [dif_neg hn]
      simp only [hlen]
      rw [dif_neg hne, ih _ (by omega) (by omega), Option.map_some, slice_append_slice (by omega) (by omega)]
      congr 2
      omega

variable {P} {K : StoreKeys} {id : String} {bytes data json : Bytes}

/-- **A range read gives the bytes of the data section that are in the range**, however the reads are split. -/
theorem getRange_opened (ho : openObject P K id bytes = some (data, json)) (batch : ℕ → ℕ+) (start last : ℕ) :
    getRange P K.chk id batch false (some bytes) start last = clip data start last := by
  obtain ⟨h, p⟩ := openObject_eq_some.1 ho
  have htotal := p.total
  have hlen := p.length_data
  have hoff := p.wf.dataOffset
  have hz : HEADER_SIZE = 64 := rfl
  have hdata : data = slice bytes h.dataOffset.toNat (h.dataOffset.toNat + h.dataLen.toNat) := by rw [p.data_eq, p.metaOffset]
  rw [getRange, if_neg Bool.false_ne_true]
  simp only [readExact_eq batch bytes (show 0 + HEADER_SIZE ≤ bytes.length by omega) 0, Nat.zero_add, p.decode,
    Header.checkTotalLen_ok.2 ⟨htotal, p.lt⟩]
  rw [clip, hlen]
  by_cases hempty : h.dataLen.toNat = 0 ∨ h.dataLen.toNat ≤ start
  · rw [if_pos hempty, if_pos hempty]
  · rw [if_neg hempty, if_neg hempty]
    by_cases hinv : min last (h.dataLen.toNat - 1) + 1 < start
    · rw [if_pos hinv, if_pos hinv]
    · rw [if_neg hinv, if_neg hinv, readExact_eq batch bytes (by omega)]
      simp only
      rw [hdata, slice_slice_add (by omega)]
      congr 2
      omega

/-- there is a file for every data section -/
theorem exists_opened (P : Primitives) (K : StoreKeys) (id : String) {data json : Bytes} (hdata : data.length < 2 ^ 62)
    (hjson : json.length < 2 ^ 30) : ∃ bytes, openObject P K id bytes = some (data, json) := by
  obtain ⟨sidecar, hs⟩ := @NodeKeys.encryptMeta_ok P K.omk json id 1 ⟨List.replicate 12 0, rfl⟩ (by omega)
  have hlen : sidecar.length = 33 + json.length := by
    rw [NodeKeys.length_encryptMeta hs, NodeKeys.sealedLen, NodeKeys.paddedLen, if_neg (lt_irrefl 1)]
    omega
  have hd : (UInt64.ofNat data.length).toNat = data.length := by
    rw [UInt64.toNat_ofNat']
    exact Nat.mod_eq_of_lt (by omega)
  have hm : (UInt32.ofNat sidecar.length).toNat = sidecar.length := by
    rw [UInt32.toNat_ofNat']
    exact Nat.mod_eq_of_lt (by omega)
  have hp := @parts_container P K id data json sidecar
    ⟨UInt64.ofNat data.length, UInt32.ofNat sidecar.length, 64, 0, VERSION⟩ ⟨rfl, le_rfl⟩ hd.symm hm.symm
    (by rw [hd, hm]; change 64 + _ + _ + _ < _; omega) (NodeKeys.decryptMeta_encryptMeta hs)
  exact ⟨_, openObject_eq_some.2 ⟨_, hp⟩⟩

end Y2q.RangeReads
