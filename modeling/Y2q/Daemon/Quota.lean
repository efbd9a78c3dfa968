/-
Writes into a bucket with a quota (`quota.rs`, the PUT handlers, `stream_encrypt_for_put` in `cipher.rs`).

REST PUT, S3 PutObject, CopyObject, UploadPart and CompleteMultipartUpload write alike: take the bucket's quota mutex, add up the sizes
in the index page by page, read the size of the object to be replaced from disk, refuse or work out how many bytes there may be, write
through `begin_streaming_put` (its steps are those of `Storage/Objects`) while counting the bytes, and give the mutex back when the
commit is through. Deletes take their steps in between without the mutex.

- `Within`: the sizes of the bucket's objects add up to no more than the quota.
- `Timely`: when a delete removes its row, no file is there again.
- `quota_kept`: along `Timely` steps every state is `Within`.
- `late_delete_frees_quota`: a put between a delete's two halves loses its row, and the next put takes its room again.

The quota does not change. The body's chunks and their number are whatever the client sends, its `Content-Length` too.
-/
import Mathlib.Tactic
import Y2q.Storage.Objects

namespace Y2q.Quota

open Run
open Y2q.Objects (St PutRequest Backend Envelopes)

def U64_MAX : ℕ := 2 ^ 64 - 1

/-! ## The code -/

/-- the count of `stream_encrypt_for_put`; `none` if the body is too large -/
def countBody (maxBytes : ℕ) : ℕ → List Bytes → Option ℕ
  | plaintextSize, [] => some plaintextSize
  | plaintextSize, chunk :: stream =>
    let plaintextSize := (plaintextSize + chunk.length) % 2 ^ 64
    if maxBytes < plaintextSize then none else countBody maxBytes plaintextSize stream

/-- the check of `write_budget`: how many bytes there may be, `none` if the quota is exceeded -/
def writeBudget (limit used replaced incoming ceiling : ℕ) : Option ℕ :=
  let effectiveUsed := used - replaced
  if limit < min (effectiveUsed + incoming) U64_MAX then none else some (min ceiling (limit - effectiveUsed))

/-- one write: what it replaces, the declared length (0 without one), and the cap of its route -/
structure Write where
  key : String
  incoming : ℕ
  ceiling : ℕ

/-- where a write stands -/
inductive Pc where
  | waiting (w : Write)
  | scanning (w : Write) (after : Option String) (total : ℕ)
  | scanned (w : Write) (used : ℕ)
  | admitted (key : String) (maxBytes : ℕ)
  /-- from `begin_streaming_put` on; the rest is a thread of the store -/
  | writing (key : String) (maxBytes : ℕ)

structure State where
  store : St
  /-- who holds the quota mutex -/
  permit : Option ℕ
  writes : ℕ → Option Pc

inductive Ev where
  | write (i : ℕ) (w : Write)
  | lock (i : ℕ)
  /-- the next page of `bucket_usage` -/
  | page (i : ℕ) (items : List (String × Objects.Metadata)) (next : Option String)
  | describe (i : ℕ)
  | begin (i : ℕ)
  /-- the body ends: commit, or give up if it was too large -/
  | commit (i : ℕ) (stream : List Bytes) (r : PutRequest)
  | abort (i : ℕ)
  | finish (i : ℕ)
  /-- an error before anything is written -/
  | fail (i : ℕ)
  | delete (j : ℕ) (key : String)
  /-- the next step of a thread of the store -/
  | step (k : ℕ)

variable (B : Backend) (C : Envelopes) (bucket : String) (limit : ℕ)

/-- the size of the object on disk, and in the index -/
def sizeOf (s : St) (key : String) : ℕ := ((s.files (bucket, key)).map (·.metadata.size)).getD 0

def rowSize (s : St) (key : String) : ℕ := ((s.rows (bucket, key)).map (·.size)).getD 0

def State.setWrite (t : State) (i : ℕ) (p : Option Pc) : State := { t with writes := Function.update t.writes i p }

/-- the request ends -/
def State.release (t : State) (i : ℕ) : State :=
  { t.setWrite i none with permit := if t.permit = some i then none else t.permit }

def step (t : State) : Ev → State
  | .write i w => if (t.writes i).isNone ∧ (t.store.threads i).isNone then t.setWrite i (some (.waiting w)) else t
  | .lock i =>
    match t.writes i, t.permit with
    | some (.waiting w), none => { t.setWrite i (some (.scanning w none 0)) with permit := some i }
    | _, _ => t
  | .page i items next =>
    match t.writes i with
    | some (.scanning w _ total) =>
      let total := items.foldl (fun total item => (total + item.2.size) % 2 ^ 64) total
      match next with
      | none => t.setWrite i (some (.scanned w total))
      | some c => t.setWrite i (some (.scanning w (some c) total))
    | _ => t
  | .describe i =>
    match t.writes i with
    | some (.scanned w used) =>
      if t.store.locks (bucket, w.key) then t.release i
      else
        match writeBudget limit used (sizeOf bucket t.store w.key) w.incoming w.ceiling with
        | none => t.release i
        | some maxBytes => t.setWrite i (some (.admitted w.key maxBytes))
    | _ => t
  | .begin i =>
    match t.writes i with
    | some (.admitted key maxBytes) =>
      { t.setWrite i (some (.writing key maxBytes)) with
        store := Objects.step B C t.store (.call i (.beginStreamingPut (bucket, key))) }
    | _ => t
  | .commit i stream r =>
    match t.writes i with
    | some (.writing _ maxBytes) =>
      match countBody maxBytes 0 stream with
      | some size => { t with store := Objects.step B C t.store (.commit i { r with size := size }) }
      | none => { t with store := Objects.step B C t.store (.abort i) }
    | _ => t
  | .abort i =>
    match t.writes i with
    | some (.writing _ _) => { t with store := Objects.step B C t.store (.abort i) }
    | _ => t
  | .finish i =>
    match t.writes i, t.store.threads i with
    | some (.writing _ _), none => t.release i
    | _, _ => t
  | .fail i =>
    match t.writes i with
    | some (.writing _ _) => t
    | _ => t.release i
  | .delete j key =>
    if (t.writes j).isNone then { t with store := Objects.step B C t.store (.call j (.delete (bucket, key))) } else t
  | .step k => { t with store := Objects.step B C t.store (.step k) }

/-! ## Properties of states and steps -/

/-- over any of these keys, the values add up to no more than `n` -/
def AtMost (n : ℕ) (f : String → ℕ) (keys : Set String) : Prop := ∀ s : Finset String, ↑s ⊆ keys → ∑ k ∈ s, f k ≤ n

/-- the quota is not exceeded -/
def Within (t : State) : Prop := AtMost limit (sizeOf bucket t.store) Set.univ

/-- a page holds what the index has behind the cursor, up to its last row -/
def Legal (t : State) : Ev → Prop
  | .page i items next => ∀ w after total, t.writes i = some (.scanning w after total) →
    (items.map Prod.fst).Nodup ∧ (∀ c ∈ next, c ∈ items.map Prod.fst) ∧
    ∀ key m, (key, m) ∈ items ↔ t.store.rows (bucket, key) = some m ∧ (∀ a ∈ after, a < key) ∧ ∀ c ∈ next, key ≤ c
  | _ => True

/-- a delete removes its row while no file is there -/
def Timely (t : State) : Ev → Prop
  | .step k => ∀ x, t.store.threads k = some (.removing x) → t.store.files x = none
  | _ => True

/-! ## Sums over keys -/

section

variable {m n : ℕ} {f g : String → ℕ} {keys keys' : Set String} {k : String}

theorem AtMost.mono (h : AtMost n f keys) (hle : ∀ k ∈ keys', g k ≤ f k) (hsub : keys' ⊆ keys) (hn : n ≤ m) : AtMost m g keys' := by
  intro s hs
  calc ∑ k ∈ s, g k ≤ ∑ k ∈ s, f k := Finset.sum_le_sum fun k hk => hle k (hs hk)
    _ ≤ n := h s (hs.trans hsub)
    _ ≤ m := hn

theorem AtMost.le (h : AtMost n f keys) (hk : k ∈ keys) : f k ≤ n := by
  have := h {k} (by rw [Finset.coe_singleton]; exact Set.singleton_subset_iff.2 hk)
  rwa [Finset.sum_singleton] at this

/-- without one key, its value is off -/
theorem AtMost.without (h : AtMost n f Set.univ) (k : String) : AtMost (n - f k) f {k}ᶜ := by
  intro s hs
  have hk : k ∉ s := fun hk => hs hk rfl
  have hsum := h (insert k s) (Set.subset_univ _)
  rw [Finset.sum_insert hk] at hsum
  omega

/-- with one key more, its value is on top -/
theorem AtMost.with (h : AtMost n f {k}ᶜ) (hk : f k ≤ m) : AtMost (n + m) f Set.univ := by
  intro s _
  have hrest := h (s.erase k) fun x hx => Finset.ne_of_mem_erase hx
  by_cases hmem : k ∈ s
  · rw [← Finset.add_sum_erase s f hmem]
    omega
  · rw [Finset.erase_eq_of_notMem hmem] at hrest
    omega

/-- two sets of keys -/
theorem AtMost.union (h : AtMost n f keys) (h' : AtMost m f keys') : AtMost (n + m) f (keys ∪ keys') := by
  classical
  intro s hs
  have hsplit := Finset.sum_filter_add_sum_filter_not s (· ∈ keys) f
  have hin := h (s.filter (· ∈ keys)) fun x hx => (Finset.mem_filter.1 hx).2
  have hout := h' (s.filter (· ∉ keys)) fun x hx => by
    obtain ⟨hx, hno⟩ := Finset.mem_filter.1 hx
    exact (hs hx).resolve_left hno
  omega

/-- the values of a list of keys, taken off what there may be -/
theorem AtMost.beyond {l : List String} (h : AtMost n f keys) (hl : l.Nodup) (hin : ∀ x ∈ l, x ∈ keys) (hsub : keys' ⊆ keys)
    (hout : ∀ x ∈ l, x ∉ keys') : (l.map f).sum ≤ n ∧ AtMost (n - (l.map f).sum) f keys' := by
  classical
  have hsum : ∑ x ∈ l.toFinset, f x = (l.map f).sum := List.sum_toFinset f hl
  have hlist : ↑l.toFinset ⊆ keys := fun x hx => hin x (List.mem_toFinset.1 hx)
  refine ⟨hsum ▸ h l.toFinset hlist, fun s hs => ?_⟩
  have hdisj : Disjoint l.toFinset s := Finset.disjoint_left.2 fun x hx hxs => hout x (List.mem_toFinset.1 hx) (hs hxs)
  have hboth := h (l.toFinset ∪ s) (by rw [Finset.coe_union]; exact Set.union_subset hlist (hs.trans hsub))
  rw [Finset.sum_union hdisj, hsum] at hboth
  omega

/-- where the list has all the keys with a value -/
theorem AtMost.of_list {l : List String} (hl : l.Nodup) (hall : ∀ x ∈ keys, f x ≠ 0 → x ∈ l) : AtMost (l.map f).sum f keys := by
  classical
  intro s hs
  calc ∑ x ∈ s, f x = ∑ x ∈ s.filter (f · ≠ 0), f x := (Finset.sum_filter_ne_zero s).symm
    _ ≤ ∑ x ∈ l.toFinset, f x := by
      refine Finset.sum_le_sum_of_subset fun x hx => ?_
      obtain ⟨hx, hne⟩ := Finset.mem_filter.1 hx
      exact List.mem_toFinset.2 (hall x (hs hx) hne)
    _ = (l.map f).sum := List.sum_toFinset f hl

end

/-! ## The body and the budget -/

theorem countBody_le {maxBytes : ℕ} {stream : List Bytes} {n size : ℕ} (hn : n ≤ maxBytes) (h : countBody maxBytes n stream = some size) :
    size ≤ maxBytes := by
  induction stream generalizing n with
  | nil =>
    cases h
    exact hn
  | cons chunk stream ih =>
    rw [countBody] at h
    split_ifs at h with hlarge
    exact ih (Nat.not_lt.1 hlarge) h

/-- what is admitted fits beside what is counted as used -/
theorem admit_fits {used replaced incoming ceiling maxBytes : ℕ} (hused : used ≤ limit)
    (h : writeBudget limit used replaced incoming ceiling = some maxBytes) : used - replaced + maxBytes ≤ limit := by
  rw [writeBudget] at h
  split_ifs at h
  cases h
  omega

/-- adding up a page, where nothing overflows -/
theorem foldl_page (items : List (String × Objects.Metadata)) {total : ℕ}
    (h : total + (items.map (·.2.size)).sum < 2 ^ 64) :
    items.foldl (fun total item => (total + item.2.size) % 2 ^ 64) total = total + (items.map (·.2.size)).sum := by
  induction items generalizing total with
  | nil => rfl
  | cons item items ih =>
    rw [List.map_cons, List.sum_cons, ← Nat.add_assoc] at h ⊢
    have hfit : (total + item.2.size) % 2 ^ 64 = total + item.2.size := Nat.mod_eq_of_lt (by omega)
    rw [List.foldl_cons, hfit]
    exact ih h

/-! ## The invariant -/

section

/-- the index knows of every object, and its sizes stay within the quota -/
structure Covered (s : St) : Prop where
  size : ∀ key, sizeOf bucket s key ≤ rowSize bucket s key
  rows : AtMost limit (rowSize bucket s) Set.univ

/-- how far the write of a key has come; its row may be behind until the upsert -/
def Stage (bucket : String) (s : St) (key : String) (maxBytes : ℕ) : Option Objects.Pc → Prop
  | some (.staged x row _ _) => x = (bucket, key) ∧ row.size ≤ maxBytes ∧ (∀ f, s.tmp x = some f → f.metadata.size = row.size) ∧
    sizeOf bucket s key ≤ rowSize bucket s key
  | some (.releasing x row) => x = (bucket, key) ∧ row.size ≤ maxBytes ∧ sizeOf bucket s key ≤ row.size
  | some (.upserting x row _) => x = (bucket, key) ∧ row.size ≤ maxBytes ∧ sizeOf bucket s key ≤ row.size
  | some (.streamNew x r) => x = (bucket, key) ∧ r = none ∧ sizeOf bucket s key ≤ rowSize bucket s key
  | some (.streamDir x r) => x = (bucket, key) ∧ r = none ∧ sizeOf bucket s key ≤ rowSize bucket s key
  | some (.streamRead x r _) => x = (bucket, key) ∧ r = none ∧ sizeOf bucket s key ≤ rowSize bucket s key
  | some (.streamOpen x r _) => x = (bucket, key) ∧ r = none ∧ sizeOf bucket s key ≤ rowSize bucket s key
  | some (.unlocking _) => sizeOf bucket s key ≤ rowSize bucket s key
  | none => sizeOf bucket s key ≤ rowSize bucket s key
  | some _ => False

/-- there is room for so many bytes under the key -/
def Room (bucket : String) (limit : ℕ) (s : St) (key : String) (maxBytes : ℕ) : Prop :=
  ∃ others, others + maxBytes ≤ limit ∧ AtMost others (rowSize bucket s) {key}ᶜ

/-- what holds while a write has the mutex -/
def Phase (bucket : String) (limit : ℕ) (s : St) (thread : Option Objects.Pc) : Pc → Prop
  | .waiting _ => False
  | .scanning _ after total => Covered bucket limit s ∧ total ≤ limit ∧
    AtMost total (rowSize bucket s) {k | ∃ a ∈ after, k ≤ a} ∧ AtMost (limit - total) (rowSize bucket s) {k | ∀ a ∈ after, a < k}
  | .scanned _ used => Covered bucket limit s ∧ used ≤ limit ∧ AtMost used (rowSize bucket s) Set.univ
  | .admitted key maxBytes => Covered bucket limit s ∧ Room bucket limit s key maxBytes
  | .writing key maxBytes => (∀ k ≠ key, sizeOf bucket s k ≤ rowSize bucket s k) ∧ AtMost limit (rowSize bucket s) Set.univ ∧
    Room bucket limit s key maxBytes ∧ Stage bucket s key maxBytes thread

/-- a delete in the bucket -/
def IsDelete (bucket : String) : Objects.Pc → Prop
  | .deleteNew x => x.1 = bucket
  | .deleteChecked x => x.1 = bucket
  | .deleteOpened x => x.1 = bucket
  | .removing x => x.1 = bucket
  | _ => False

structure Inv (t : State) : Prop where
  idle : t.permit = none → Covered bucket limit t.store
  held : ∀ i, t.permit = some i → ∃ p, t.writes i = some p ∧ Phase bucket limit t.store (t.store.threads i) p
  others : ∀ i p, t.writes i = some p → t.permit ≠ some i → ∃ w, p = .waiting w
  threads : ∀ k pc, t.store.threads k = some pc →
    IsDelete bucket pc ∧ t.writes k = none ∨ ∃ key maxBytes, t.writes k = some (.writing key maxBytes)

variable {B C bucket limit} {s s' : St} {t : State} {i k : ℕ} {key : String} {maxBytes : ℕ} {p : Pc} {thread : Option Objects.Pc}

theorem Covered.within (h : Covered bucket limit s) : AtMost limit (sizeOf bucket s) Set.univ :=
  h.rows.mono (fun k _ => h.size k) subset_rfl le_rfl

/-- while a key is written, it has its room -/
theorem Room.within (h : Room bucket limit s key maxBytes) (hothers : ∀ k ≠ key, sizeOf bucket s k ≤ rowSize bucket s k)
    (hkey : sizeOf bucket s key ≤ maxBytes) : AtMost limit (sizeOf bucket s) Set.univ := by
  obtain ⟨others, hfit, hsum⟩ := h
  exact ((hsum.mono hothers subset_rfl le_rfl).with hkey).mono (fun _ _ => le_rfl) subset_rfl hfit

theorem covered_of (hothers : ∀ k ≠ key, sizeOf bucket s k ≤ rowSize bucket s k) (hrows : AtMost limit (rowSize bucket s) Set.univ)
    (hkey : sizeOf bucket s key ≤ rowSize bucket s key) : Covered bucket limit s := by
  refine ⟨fun k => ?_, hrows⟩
  by_cases hk : k = key
  · rw [hk]
    exact hkey
  · exact hothers k hk

theorem Phase.within (h : Phase bucket limit s thread p) : AtMost limit (sizeOf bucket s) Set.univ := by
  cases p with
  | waiting w => exact h.elim
  | scanning w after total => exact h.1.within
  | scanned w used => exact h.1.within
  | admitted key maxBytes => exact h.1.within
  | writing key maxBytes =>
    obtain ⟨hothers, hrows, hroom, hstage⟩ := h
    have hcovered := fun hkey => (covered_of hothers hrows hkey).within
    cases thread with
    | none => exact hcovered hstage
    | some pc =>
      cases pc with
      | staged x row early rekey => exact hcovered hstage.2.2.2
      | releasing x row => exact hroom.within hothers (hstage.2.2.trans hstage.2.1)
      | upserting x row locked => exact hroom.within hothers (hstage.2.2.trans hstage.2.1)
      | streamNew x r | streamDir x r | streamRead x r prior | streamOpen x r prior => exact hcovered hstage.2.2
      | unlocking x => exact hcovered hstage
      | _ => exact hstage.elim

theorem Inv.within (h : Inv bucket limit t) : Within bucket limit t := by
  cases hp : t.permit with
  | none => exact (h.idle hp).within
  | some i =>
    obtain ⟨p, -, hphase⟩ := h.held i hp
    exact hphase.within

/-! ## Less in the store -/

/-- less is stored, and no row goes while its object is there -/
structure Shrinks (bucket : String) (s s' : St) : Prop where
  size : ∀ k, sizeOf bucket s' k ≤ sizeOf bucket s k
  row : ∀ k, rowSize bucket s' k ≤ rowSize bucket s k
  covered : ∀ k, sizeOf bucket s k ≤ rowSize bucket s k → sizeOf bucket s' k ≤ rowSize bucket s' k
  tmp : s'.tmp = s.tmp

theorem Covered.shrink (h : Covered bucket limit s) (hs : Shrinks bucket s s') : Covered bucket limit s' :=
  ⟨fun k => hs.covered k (h.size k), h.rows.mono (fun k _ => hs.row k) subset_rfl le_rfl⟩

theorem Room.shrink (h : Room bucket limit s key maxBytes) (hs : Shrinks bucket s s') : Room bucket limit s' key maxBytes := by
  obtain ⟨others, hfit, hsum⟩ := h
  exact ⟨others, hfit, hsum.mono (fun k _ => hs.row k) subset_rfl le_rfl⟩

theorem Stage.shrink (h : Stage bucket s key maxBytes thread) (hs : Shrinks bucket s s') : Stage bucket s' key maxBytes thread := by
  cases thread with
  | none => exact hs.covered key h
  | some pc =>
    cases pc with
    | staged x row early rekey => exact ⟨h.1, h.2.1, fun f hf => h.2.2.1 f (hs.tmp ▸ hf), hs.covered key h.2.2.2⟩
    | releasing x row => exact ⟨h.1, h.2.1, (hs.size key).trans h.2.2⟩
    | upserting x row locked => exact ⟨h.1, h.2.1, (hs.size key).trans h.2.2⟩
    | streamNew x r | streamDir x r | streamRead x r prior | streamOpen x r prior => exact ⟨h.1, h.2.1, hs.covered key h.2.2⟩
    | unlocking x => exact hs.covered key h
    | _ => exact h.elim

theorem Phase.shrink (h : Phase bucket limit s thread p) (hs : Shrinks bucket s s') : Phase bucket limit s' thread p := by
  have hrow : ∀ {n : ℕ} {keys : Set String}, AtMost n (rowSize bucket s) keys → AtMost n (rowSize bucket s') keys :=
    fun hn => hn.mono (fun k _ => hs.row k) subset_rfl le_rfl
  cases p with
  | waiting w => exact h
  | scanning w after total => exact ⟨h.1.shrink hs, h.2.1, hrow h.2.2.1, hrow h.2.2.2⟩
  | scanned w used => exact ⟨h.1.shrink hs, h.2.1, hrow h.2.2⟩
  | admitted key maxBytes => exact ⟨h.1.shrink hs, h.2.shrink hs⟩
  | writing key maxBytes =>
    exact ⟨fun k hk => hs.covered k (h.1 k hk), hrow h.2.1, h.2.2.1.shrink hs, h.2.2.2.shrink hs⟩

/-! ## Steps of the store -/

theorem shrinks_same (hf : s'.files = s.files) (hr : s'.rows = s.rows) (ht : s'.tmp = s.tmp) : Shrinks bucket s s' := by
  have hsize : ∀ k, sizeOf bucket s' k = sizeOf bucket s k := fun k => by rw [sizeOf, sizeOf, hf]
  have hrow : ∀ k, rowSize bucket s' k = rowSize bucket s k := fun k => by rw [rowSize, rowSize, hr]
  exact ⟨fun k => (hsize k).le, fun k => (hrow k).le, fun k h => by rw [hsize, hrow]; exact h, ht⟩

theorem sizeOf_update {files : Objects.ObjKey → Option Objects.File} {x : Objects.ObjKey} {o : Option Objects.File} (hx : x.1 = bucket)
    (hfiles : s'.files = Function.update files x o) (k : String) : sizeOf bucket s' k =
      if k = x.2 then (o.map (·.metadata.size)).getD 0 else ((files (bucket, k)).map (·.metadata.size)).getD 0 := by
  obtain ⟨b, kx⟩ := x
  cases hx
  rw [sizeOf, hfiles, Function.update_apply]
  by_cases hk : k = kx
  · rw [hk, if_pos rfl, if_pos rfl]
  · rw [if_neg hk, if_neg fun h => hk (Prod.mk.inj h).2]

theorem rowSize_update {rows : Objects.ObjKey → Option Objects.Metadata} {x : Objects.ObjKey} {o : Option Objects.Metadata}
    (hx : x.1 = bucket) (hrows : s'.rows = Function.update rows x o) (k : String) : rowSize bucket s' k =
      if k = x.2 then (o.map (·.size)).getD 0 else ((rows (bucket, k)).map (·.size)).getD 0 := by
  obtain ⟨b, kx⟩ := x
  cases hx
  rw [rowSize, hrows, Function.update_apply]
  by_cases hk : k = kx
  · rw [hk, if_pos rfl, if_pos rfl]
  · rw [if_neg hk, if_neg fun h => hk (Prod.mk.inj h).2]

theorem shrinks_unlink {x : Objects.ObjKey} (hx : x.1 = bucket) : Shrinks bucket s (s.apply (.unlink x)) := by
  have hsize := @sizeOf_update bucket (s.apply (.unlink x)) s.files x none hx rfl
  have hle : ∀ k, sizeOf bucket (s.apply (.unlink x)) k ≤ sizeOf bucket s k := by
    intro k
    rw [hsize]
    split_ifs
    · exact Nat.zero_le _
    · exact le_rfl
  exact ⟨hle, fun k => le_rfl, fun k h => (hle k).trans h, rfl⟩

theorem shrinks_remove {x : Objects.ObjKey} (hx : x.1 = bucket) (hgone : s.files x = none) :
    Shrinks bucket s (s.apply (.remove x)) := by
  have hrow := @rowSize_update bucket (s.apply (.remove x)) s.rows x none hx rfl
  refine ⟨fun k => le_rfl, fun k => ?_, fun k h => ?_, rfl⟩
  · rw [hrow]
    split_ifs
    · exact Nat.zero_le _
    · exact le_rfl
  · rw [hrow]
    split_ifs with hk
    · have hnone : s.files (bucket, k) = none := by
        rw [hk, ← hx]
        exact hgone
      change ((s.files (bucket, k)).map (·.metadata.size)).getD 0 ≤ _
      rw [hnone]
      exact Nat.zero_le _
    · exact h

/-- a step of a delete -/
theorem delete_next {pc : Objects.Pc} (hpc : IsDelete bucket pc) (htimely : ∀ x, pc = .removing x → s.files x = none) :
    Shrinks bucket s (s.apply (Objects.next B C s pc).1) ∧ ∀ pc', (Objects.next B C s pc).2 = some pc' → IsDelete bucket pc' := by
  have hskip : Shrinks bucket s s := shrinks_same rfl rfl rfl
  cases pc with
  | deleteNew x =>
    simp only [Objects.next]
    split_ifs
    · exact ⟨hskip, fun pc' h => by cases h⟩
    · exact ⟨hskip, fun pc' h => by cases h; exact hpc⟩
  | deleteChecked x =>
    simp only [Objects.next]
    split_ifs
    · exact ⟨hskip, fun pc' h => by cases h; exact hpc⟩
    · exact ⟨hskip, fun pc' h => by cases h⟩
  | deleteOpened x =>
    simp only [Objects.next]
    split_ifs
    · exact ⟨shrinks_unlink hpc, fun pc' h => by cases h; exact hpc⟩
    · exact ⟨hskip, fun pc' h => by cases h⟩
  | removing x => exact ⟨shrinks_remove hpc (htimely x rfl), fun pc' h => by cases h⟩
  | _ => exact hpc.elim

/-- a step of the write that has the mutex -/
theorem writing_next {pc : Objects.Pc} (h : Phase bucket limit s (some pc) (.writing key maxBytes)) :
    Phase bucket limit (s.apply (Objects.next B C s pc).1) (Objects.next B C s pc).2 (.writing key maxBytes) := by
  obtain ⟨hothers, hrows, hroom, hstage⟩ := h
  have hsame : ∀ {s' : St} {th : Option Objects.Pc}, s'.files = s.files → s'.rows = s.rows → s'.tmp = s.tmp →
      Stage bucket s key maxBytes th → Phase bucket limit s' th (.writing key maxBytes) :=
    fun hf hr ht hst => Phase.shrink (p := .writing key maxBytes) ⟨hothers, hrows, hroom, hst⟩ (shrinks_same hf hr ht)
  cases pc with
  | streamNew x r => exact hsame rfl rfl rfl hstage
  | streamDir x r => exact hsame rfl rfl rfl hstage
  | streamRead x r prior =>
    simp only [Objects.next]
    split_ifs
    · exact hsame rfl rfl rfl hstage.2.2
    · exact hsame rfl rfl rfl hstage
  | streamOpen x r prior =>
    obtain ⟨hx, rfl, hcov⟩ := hstage
    exact hsame rfl rfl rfl ⟨hx, rfl, hcov⟩
  | staged x row early rekey =>
    obtain ⟨rfl, hsize, htmp, hcov⟩ := hstage
    cases hf : s.tmp (bucket, key) with
    | none =>
      simp only [Objects.next, hf, Objects.failed]
      exact hsame rfl rfl rfl hcov
    | some f =>
      simp only [Objects.next, hf]
      have hnew := @sizeOf_update bucket (s.apply (.install (bucket, key) f)) s.files (bucket, key) (some f) rfl rfl
      have hkey : sizeOf bucket (s.apply (.install (bucket, key) f)) key ≤ row.size := by
        rw [hnew, if_pos rfl]
        exact (htmp f hf).le
      refine ⟨fun k hk => ?_, hrows, hroom, ?_⟩
      · rw [hnew, if_neg hk]
        exact hothers k hk
      · cases early with
        | true => exact ⟨rfl, hsize, hkey⟩
        | false => exact ⟨rfl, hsize, hkey⟩
  | releasing x row => exact hsame rfl rfl rfl hstage
  | upserting x row locked =>
    obtain ⟨rfl, hsize, hcov⟩ := hstage
    have hnew := @rowSize_update bucket (s.apply (.upsert (bucket, key) row)) s.rows (bucket, key) (some row) rfl rfl
    have hrow : rowSize bucket (s.apply (.upsert (bucket, key) row)) key = row.size := by
      rw [hnew, if_pos rfl]
      rfl
    have hother : ∀ k ≠ key, rowSize bucket (s.apply (.upsert (bucket, key) row)) k = rowSize bucket s k := by
      intro k hk
      rw [hnew, if_neg hk]
      rfl
    obtain ⟨others, hfit, hsum⟩ := hroom
    have hsum' : AtMost others (rowSize bucket (s.apply (.upsert (bucket, key) row))) {key}ᶜ :=
      hsum.mono (fun k hk => (hother k hk).le) subset_rfl le_rfl
    refine ⟨fun k hk => ?_, (hsum'.with (hrow.le.trans hsize)).mono (fun _ _ => le_rfl) subset_rfl hfit, ⟨others, hfit, hsum'⟩, ?_⟩
    · exact (hothers k hk).trans_eq (hother k hk).symm
    · have hdone : sizeOf bucket (s.apply (.upsert (bucket, key) row)) key ≤ rowSize bucket (s.apply (.upsert (bucket, key) row)) key := by
        rw [hrow]
        exact hcov
      cases locked with
      | true => exact hdone
      | false => exact hdone
  | unlocking x => exact hsame rfl rfl rfl hstage
  | _ => exact hstage.elim

/-! ## Steps -/

theorem Phase.covered (h : Phase bucket limit s none p) : Covered bucket limit s := by
  cases p with
  | waiting w => exact h.elim
  | scanning w after total => exact h.1
  | scanned w used => exact h.1
  | admitted key maxBytes => exact h.1
  | writing key maxBytes => exact covered_of h.1 h.2.1 h.2.2.2

variable {t' : State}

/-- the write `i` has the mutex now and stands at `p`; the other threads are where they were -/
theorem Inv.advance (ht : Inv bucket limit t) (hfree : ∀ j ≠ i, t.permit ≠ some j) (hpermit : t'.permit = some i)
    (hi : t'.writes i = some p) (hwrites : ∀ j ≠ i, t'.writes j = t.writes j) (hthreads : ∀ j ≠ i, t'.store.threads j = t.store.threads j)
    (hphase : Phase bucket limit t'.store (t'.store.threads i) p)
    (hthread : ∀ pc, t'.store.threads i = some pc → ∃ key maxBytes, p = .writing key maxBytes) : Inv bucket limit t' where
  idle hnone := by
    rw [hpermit] at hnone
    cases hnone
  held j hj := by
    obtain rfl : i = j := Option.some.inj (hpermit.symm.trans hj)
    exact ⟨p, hi, hphase⟩
  others j q hq hne := by
    have hji : j ≠ i := fun hji => hne (hji ▸ hpermit)
    exact ht.others j q (hwrites j hji ▸ hq) (hfree j hji)
  threads j pc hpc := by
    by_cases hji : j = i
    · subst hji
      obtain ⟨key, maxBytes, rfl⟩ := hthread pc hpc
      exact Or.inr ⟨key, maxBytes, hi⟩
    · rw [hthreads j hji] at hpc
      rw [hwrites j hji]
      exact ht.threads j pc hpc

/-- the request ends -/
theorem Inv.release (ht : Inv bucket limit t) (hcovered : t.permit = some i → Covered bucket limit t.store)
    (hthread : ∀ pc, t.store.threads i = some pc → IsDelete bucket pc) : Inv bucket limit (t.release i) where
  idle hnone := by
    by_cases hi : t.permit = some i
    · exact hcovered hi
    · exact ht.idle ((if_neg hi).symm.trans hnone)
  held j hj := by
    have hi : t.permit ≠ some i := by
      intro hi
      cases (if_pos hi).symm.trans hj
    have hj : t.permit = some j := (if_neg hi).symm.trans hj
    obtain ⟨p, hp, hphase⟩ := ht.held j hj
    have hji : j ≠ i := fun hji => hi (hji ▸ hj)
    exact ⟨p, (Function.update_of_ne hji ..).trans hp, hphase⟩
  others j q hq hne := by
    have hji : j ≠ i := by
      rintro rfl
      cases (Function.update_self ..).symm.trans hq
    refine ht.others j q ((Function.update_of_ne hji ..).symm.trans hq) fun hj => hne ?_
    exact (if_neg fun hi => hji (Option.some.inj (hj.symm.trans hi))).trans hj
  threads j pc hpc := by
    by_cases hji : j = i
    · subst hji
      exact Or.inl ⟨hthread pc hpc, Function.update_self ..⟩
    · exact (ht.threads j pc hpc).imp (fun h => ⟨h.1, (Function.update_of_ne hji ..).trans h.2⟩)
        fun ⟨key, maxBytes, h⟩ => ⟨key, maxBytes, (Function.update_of_ne hji ..).trans h⟩

theorem Inv.holds_mutex (ht : Inv bucket limit t) (hi : t.writes i = some p) (hp : ∀ w, p ≠ .waiting w) : t.permit = some i := by
  by_contra hne
  obtain ⟨w, hw⟩ := ht.others i p hi hne
  exact hp w hw

/-- the write that has the mutex has gone so far -/
theorem Inv.phase (ht : Inv bucket limit t) (hi : t.writes i = some p) (hp : ∀ w, p ≠ .waiting w) :
    Phase bucket limit t.store (t.store.threads i) p := by
  obtain ⟨q, hq, hphase⟩ := ht.held i (ht.holds_mutex hi hp)
  rw [hi] at hq
  cases hq
  exact hphase

theorem Inv.only (ht : Inv bucket limit t) (hi : t.writes i = some p) (hp : ∀ w, p ≠ .waiting w) : ∀ j ≠ i, t.permit ≠ some j := by
  intro j hji hj
  rw [ht.holds_mutex hi hp] at hj
  exact hji (Option.some.inj hj).symm

/-- before it writes, a write has no thread in the store -/
theorem Inv.no_thread (ht : Inv bucket limit t) (hi : t.writes i = some p) (hp : ∀ key maxBytes, p ≠ .writing key maxBytes) :
    t.store.threads i = none := by
  cases hth : t.store.threads i with
  | none => rfl
  | some pc =>
    rcases ht.threads i pc hth with ⟨-, hnone⟩ | ⟨key, maxBytes, hw⟩
    · rw [hi] at hnone
      cases hnone
    · rw [hi] at hw
      exact absurd (Option.some.inj hw) (hp key maxBytes)

/-- a thread of the store moves: a delete, or the write that has the mutex -/
theorem store_step_inv (ht : Inv bucket limit t) {k : ℕ} (htimely : Timely t (.step k)) :
    Inv bucket limit { t with store := Objects.step B C t.store (.step k) } := by
  cases hk : t.store.threads k with
  | none =>
    rw [show Objects.step B C t.store (.step k) = t.store by rw [Objects.step, hk]]
    exact ht
  | some pc =>
    have hstep : Objects.step B C t.store (.step k) =
        (t.store.apply (Objects.next B C t.store pc).1).setThread k (Objects.next B C t.store pc).2 := by rw [Objects.step, hk]
    have hself : (Objects.step B C t.store (.step k)).threads k = (Objects.next B C t.store pc).2 := by
      rw [hstep]
      exact Function.update_self ..
    have hother : ∀ j ≠ k, (Objects.step B C t.store (.step k)).threads j = t.store.threads j := by
      intro j hj
      rw [hstep, ← Objects.apply_threads t.store (Objects.next B C t.store pc).1]
      exact Function.update_of_ne hj ..
    rcases ht.threads k pc hk with ⟨hdel, hfree⟩ | ⟨key, maxBytes, hw⟩
    · -- a delete: there is less of everything
      obtain ⟨hshrinks, hnext⟩ := delete_next (B := B) (C := C) hdel fun x hx => htimely x (hx ▸ hk)
      have hs : Shrinks bucket t.store (Objects.step B C t.store (.step k)) := by
        rw [hstep]
        exact ⟨hshrinks.size, hshrinks.row, hshrinks.covered, hshrinks.tmp⟩
      refine ⟨fun hp => (ht.idle hp).shrink hs, fun i hi => ?_, ht.others, fun j pc' hj => ?_⟩
      · obtain ⟨p, hp, hphase⟩ := ht.held i hi
        have hik : i ≠ k := by
          rintro rfl
          rw [hfree] at hp
          cases hp
        refine ⟨p, hp, ?_⟩
        rw [hother i hik]
        exact hphase.shrink hs
      · by_cases hjk : j = k
        · subst hjk
          exact Or.inl ⟨hnext pc' (hself.symm.trans hj), hfree⟩
        · rw [hother j hjk] at hj
          exact ht.threads j pc' hj
    · -- the write that has the mutex
      have hphase := ht.phase hw nofun
      rw [hk] at hphase
      refine ht.advance (ht.only hw nofun) (ht.holds_mutex hw nofun) hw (fun _ _ => rfl) hother ?_ fun _ _ => ⟨key, maxBytes, rfl⟩
      rw [hself]
      exact (writing_next (B := B) (C := C) hphase).shrink (by rw [hstep]; exact shrinks_same rfl rfl rfl)

/-- one page more is added up -/
theorem scanning_page {w : Write} {after next : Option String} {total : ℕ} {items : List (String × Objects.Metadata)}
    (hlimit : limit < 2 ^ 64) (h : Phase bucket limit s thread (.scanning w after total)) (hnodup : (items.map Prod.fst).Nodup)
    (hnext : ∀ c ∈ next, c ∈ items.map Prod.fst)
    (hitems : ∀ key m, (key, m) ∈ items ↔ s.rows (bucket, key) = some m ∧ (∀ a ∈ after, a < key) ∧ ∀ c ∈ next, key ≤ c) :
    ∃ total', items.foldl (fun total item => (total + item.2.size) % 2 ^ 64) total = total' ∧ total' ≤ limit ∧
      AtMost total' (rowSize bucket s) {k | ∀ c ∈ next, k ≤ c} ∧
      AtMost (limit - total') (rowSize bucket s) {k | ∃ c ∈ next, c < k} := by
  obtain ⟨-, htotal, hdone, hrest⟩ := h
  -- the items are the keys with a row behind the cursor
  have hkeys : ∀ k, k ∈ items.map Prod.fst → (∀ a ∈ after, a < k) ∧ ∀ c ∈ next, k ≤ c := by
    intro k hk
    obtain ⟨⟨key, m⟩, hm, rfl⟩ := List.mem_map.1 hk
    exact ((hitems key m).1 hm).2
  have hsizes : items.map (fun item => item.2.size) = (items.map Prod.fst).map (rowSize bucket s) := by
    rw [List.map_map]
    refine List.map_congr_left fun item hitem => ?_
    rw [Function.comp_apply, rowSize, ((hitems item.1 item.2).1 hitem).1]
    rfl
  have hlast : ∀ c ∈ next, ∀ a ∈ after, a < c := fun c hc a ha => (hkeys c (hnext c hc)).1 a ha
  have hbehind : ∀ x ∈ items.map Prod.fst, x ∉ {k | ∃ c ∈ next, c < k} :=
    fun x hx ⟨c, hc, hcx⟩ => absurd ((hkeys x hx).2 c hc) (String.not_le.2 hcx)
  have hsub : {k | ∃ c ∈ next, c < k} ⊆ {k | ∀ a ∈ after, a < k} := fun k ⟨c, hc, hck⟩ a ha =>
    String.lt_trans (hlast c hc a ha) hck
  obtain ⟨hfit, hbeyond⟩ := hrest.beyond hnodup (fun x hx => (hkeys x hx).1) hsub hbehind
  have hpage : AtMost ((items.map Prod.fst).map (rowSize bucket s)).sum (rowSize bucket s)
      {k | (∀ a ∈ after, a < k) ∧ ∀ c ∈ next, k ≤ c} := by
    refine AtMost.of_list hnodup fun x hx hne => ?_
    cases hrow : s.rows (bucket, x) with
    | none =>
      rw [rowSize, hrow] at hne
      exact absurd rfl hne
    | some m => exact List.mem_map.2 ⟨(x, m), (hitems x m).2 ⟨hrow, hx⟩, rfl⟩
  refine ⟨_, foldl_page items ?_, ?_, ?_, ?_⟩
  · rw [hsizes]
    omega
  · rw [hsizes]
    omega
  · rw [hsizes]
    refine (hdone.union hpage).mono (fun _ _ => le_rfl) (fun k hk => ?_) le_rfl
    by_cases hbefore : ∃ a ∈ after, k ≤ a
    · exact Or.inl hbefore
    · exact Or.inr ⟨fun a ha => String.not_le.1 fun hle => hbefore ⟨a, ha, hle⟩, hk⟩
  · rw [hsizes, ← Nat.sub_sub]
    exact hbeyond

/-- the thread of a write moves by an event of its own -/
theorem Inv.drive (ht : Inv bucket limit t) (hw : t.writes i = some (.writing key maxBytes)) {a : Objects.Act} {o : Option Objects.Pc}
    (hphase : Phase bucket limit (t.store.apply a) o (.writing key maxBytes)) :
    Inv bucket limit { t with store := (t.store.apply a).setThread i o } := by
  refine ht.advance (ht.only hw nofun) (ht.holds_mutex hw nofun) hw (fun _ _ => rfl) (fun j hj => ?_) ?_ fun _ _ => ⟨key, maxBytes, rfl⟩
  · rw [← Objects.apply_threads t.store a]
    exact Function.update_of_ne hj ..
  · rw [show ((t.store.apply a).setThread i o).threads i = o from Function.update_self ..]
    exact hphase.shrink (shrinks_same rfl rfl rfl)

theorem commit_inv (ht : Inv bucket limit t) (hw : t.writes i = some (.writing key maxBytes)) {r : PutRequest} (hr : r.size ≤ maxBytes) :
    Inv bucket limit { t with store := Objects.step B C t.store (.commit i r) } := by
  have hphase := ht.phase hw nofun
  simp only [Objects.step]
  split
  · rename_i x prior hth
    rw [hth] at hphase
    obtain ⟨hothers, hrows, hroom, rfl, -, hcov⟩ := hphase
    split_ifs
    · refine ht.drive hw ⟨hothers, hrows, hroom, rfl, hr, fun f hf => ?_, hcov⟩
      have hf : Function.update t.store.tmp (bucket, key) (some ⟨r.data, r.metadata prior⟩) (bucket, key) = some f := hf
      rw [Function.update_self] at hf
      cases hf
      rfl
    · exact ht.drive hw ⟨hothers, hrows, hroom, hcov⟩
  · exact ht

theorem abort_inv (ht : Inv bucket limit t) (hw : t.writes i = some (.writing key maxBytes)) :
    Inv bucket limit { t with store := Objects.step B C t.store (.abort i) } := by
  have hphase := ht.phase hw nofun
  simp only [Objects.step]
  split
  · rename_i x prior hth
    rw [hth] at hphase
    obtain ⟨hothers, hrows, hroom, rfl, -, hcov⟩ := hphase
    refine ht.advance (ht.only hw nofun) (ht.holds_mutex hw nofun) hw (fun _ _ => rfl) (fun j hj => Function.update_of_ne hj ..) ?_
      fun _ _ => ⟨key, maxBytes, rfl⟩
    rw [show (St.setThread _ i none).threads i = none from Function.update_self ..]
    exact ⟨hothers, hrows, hroom, hcov⟩
  · exact ht

theorem begin_inv (ht : Inv bucket limit t) (hw : t.writes i = some (.admitted key maxBytes)) :
    Inv bucket limit { t.setWrite i (some (.writing key maxBytes)) with
      store := Objects.step B C t.store (.call i (.beginStreamingPut (bucket, key))) } := by
  have hphase := ht.phase hw nofun
  have hnone := ht.no_thread hw nofun
  have hstep : Objects.step B C t.store (.call i (.beginStreamingPut (bucket, key))) =
      t.store.setThread i (some (.streamNew (bucket, key) none)) := by
    rw [Objects.step, hnone]
    rfl
  rw [hstep]
  obtain ⟨hcov, hroom⟩ := hphase
  refine ht.advance (ht.only hw nofun) (ht.holds_mutex hw nofun) (Function.update_self ..) (fun j hj => Function.update_of_ne hj ..)
    (fun j hj => Function.update_of_ne hj ..) ?_ fun _ _ => ⟨key, maxBytes, rfl⟩
  rw [show (t.store.setThread i (some (.streamNew (bucket, key) none))).threads i = some (.streamNew (bucket, key) none) from
    Function.update_self ..]
  exact ⟨fun k _ => hcov.size k, hcov.rows, hroom, rfl, rfl, hcov.size key⟩

theorem delete_inv (ht : Inv bucket limit t) (hfree : t.writes i = none) :
    Inv bucket limit { t with store := Objects.step B C t.store (.call i (.delete (bucket, key))) } := by
  simp only [Objects.step]
  split_ifs
  · have hother : ∀ j ≠ i, (t.store.setThread i (some (Objects.Request.delete (bucket, key)).start)).threads j = t.store.threads j :=
      fun j hj => Function.update_of_ne hj ..
    refine ⟨fun hp => (ht.idle hp).shrink (shrinks_same rfl rfl rfl), fun j hj => ?_, ht.others, fun j pc hpc => ?_⟩
    · obtain ⟨p, hp, hphase⟩ := ht.held j hj
      have hji : j ≠ i := by
        rintro rfl
        rw [hfree] at hp
        cases hp
      refine ⟨p, hp, ?_⟩
      rw [hother j hji]
      exact hphase.shrink (shrinks_same rfl rfl rfl)
    · by_cases hji : j = i
      · subst hji
        rw [show (t.store.setThread j (some (Objects.Request.delete (bucket, key)).start)).threads j =
          some (.deleteNew (bucket, key)) from Function.update_self ..] at hpc
        cases hpc
        exact Or.inl ⟨rfl, hfree⟩
      · rw [hother j hji] at hpc
        exact ht.threads j pc hpc
  · exact ht

/-- a write that has no thread in the store goes on -/
theorem Inv.move (ht : Inv bucket limit t) (hw : t.writes i = some p) (hpre : ∀ key maxBytes, p ≠ .writing key maxBytes)
    (hheld : ∀ w, p ≠ .waiting w) {q : Pc} (hphase : Phase bucket limit t.store none q) : Inv bucket limit (t.setWrite i (some q)) := by
  have hnone := ht.no_thread hw hpre
  refine ht.advance (ht.only hw hheld) (ht.holds_mutex hw hheld) (Function.update_self ..) (fun j hj => Function.update_of_ne hj ..)
    (fun _ _ => rfl) ?_ fun pc hpc => ?_
  · rw [show (t.setWrite i (some q)).store.threads i = none from hnone]
    exact hphase
  · cases hnone.symm.trans hpc

/-- **One step**, of a write, of a delete or of a thread of the store, keeps the quota. -/
theorem step_inv (hlimit : limit < 2 ^ 64) (ht : Inv bucket limit t) {e : Ev} (hlegal : Legal bucket t e) (htimely : Timely t e) :
    Inv bucket limit (step B C bucket limit t e) := by
  cases e with
  | write i w =>
    rw [step]
    split_ifs with hfree
    · obtain ⟨hi, hth⟩ := hfree
      rw [Option.isNone_iff_eq_none] at hi hth
      refine ⟨ht.idle, fun j hj => ?_, fun j q hq hne => ?_, fun j pc hpc => ?_⟩
      · obtain ⟨p, hp, hphase⟩ := ht.held j hj
        have hji : j ≠ i := by
          rintro rfl
          rw [hi] at hp
          cases hp
        exact ⟨p, (Function.update_of_ne hji ..).trans hp, hphase⟩
      · by_cases hji : j = i
        · subst hji
          cases (Function.update_self ..).symm.trans hq
          exact ⟨w, rfl⟩
        · exact ht.others j q ((Function.update_of_ne hji ..).symm.trans hq) hne
      · have hji : j ≠ i := by
          rintro rfl
          cases hth.symm.trans hpc
        exact (ht.threads j pc hpc).imp (fun h => ⟨h.1, (Function.update_of_ne hji ..).trans h.2⟩)
          fun hw => hw.imp fun key hw => hw.imp fun maxBytes h => (Function.update_of_ne hji ..).trans h
    · exact ht
  | lock i =>
    rw [step]
    split
    · rename_i w hw hp
      have hnone := ht.no_thread hw (by rintro _ _ ⟨⟩)
      have hcov := ht.idle hp
      refine ht.advance (fun j _ => by rw [hp]; rintro ⟨⟩) rfl (Function.update_self ..) (fun j hj => Function.update_of_ne hj ..)
        (fun _ _ => rfl) ?_ fun pc hpc => ?_
      · refine ⟨hcov, Nat.zero_le _, ?_, hcov.rows.mono (fun _ _ => le_rfl) (Set.subset_univ _) le_rfl⟩
        intro s hs
        have hempty : s = ∅ := Finset.eq_empty_of_forall_notMem fun k hk => by
          obtain ⟨a, ha, -⟩ := hs hk
          cases ha
        rw [hempty, Finset.sum_empty]
      · cases hnone.symm.trans hpc
    · exact ht
  | page i items next =>
    rw [step]
    split
    · rename_i w after total hw
      have hphase := ht.phase hw (by rintro _ ⟨⟩)
      obtain ⟨hnodup, hlast, hitems⟩ := hlegal w after total hw
      obtain ⟨total', htotal, hle, hdone, hrest⟩ := scanning_page hlimit hphase hnodup hlast hitems
      simp only [htotal]
      cases next with
      | none => exact ht.move hw (by rintro _ _ ⟨⟩) (by rintro _ ⟨⟩) ⟨hphase.1, hle, hdone.mono (fun _ _ => le_rfl) (fun k _ c hc => by cases hc) le_rfl⟩
      | some c =>
        refine ht.move hw (by rintro _ _ ⟨⟩) (by rintro _ ⟨⟩) ⟨hphase.1, hle, hdone.mono (fun _ _ => le_rfl) ?_ le_rfl, hrest.mono (fun _ _ => le_rfl) ?_ le_rfl⟩
        · rintro k ⟨a, ha, hk⟩ c' hc'
          cases ha
          cases hc'
          exact hk
        · exact fun k hk => ⟨c, rfl, hk c rfl⟩
    · exact ht
  | describe i =>
    rw [step]
    split
    · rename_i w used hw
      have hphase := ht.phase hw (by rintro _ ⟨⟩)
      obtain ⟨hcov, hused, hsum⟩ := hphase
      have hnone := ht.no_thread hw (by rintro _ _ ⟨⟩)
      have hend : Inv bucket limit (t.release i) := ht.release (fun _ => hcov) fun pc hpc => by cases hnone.symm.trans hpc
      split_ifs
      · exact hend
      · split
        · exact hend
        · rename_i maxBytes hadmit
          refine ht.move hw (by rintro _ _ ⟨⟩) (by rintro _ ⟨⟩) ⟨hcov, _, admit_fits limit hused hadmit, ?_⟩
          exact (hsum.without w.key).mono (fun _ _ => le_rfl) subset_rfl (Nat.sub_le_sub_left (hcov.size w.key) used)
    · exact ht
  | begin i =>
    rw [step]
    split
    · rename_i key maxBytes hw
      exact begin_inv ht hw
    · exact ht
  | commit i stream r =>
    rw [step]
    split
    · rename_i key maxBytes hw
      split
      · rename_i size hsize
        exact commit_inv ht hw (countBody_le (Nat.zero_le _) hsize)
      · exact abort_inv ht hw
    · exact ht
  | abort i =>
    rw [step]
    split
    · rename_i key maxBytes hw
      exact abort_inv ht hw
    · exact ht
  | finish i =>
    rw [step]
    split
    · rename_i key maxBytes hw hth
      have hphase := ht.phase hw (by rintro _ ⟨⟩)
      rw [hth] at hphase
      exact ht.release (fun _ => hphase.covered) fun pc hpc => by cases hth.symm.trans hpc
    · exact ht
  | fail i =>
    rw [step]
    split
    · exact ht
    · rename_i hnot
      refine ht.release (fun hp => ?_) fun pc hpc => ?_
      · obtain ⟨p, hw, hphase⟩ := ht.held i hp
        rw [ht.no_thread hw fun key maxBytes hp => hnot key maxBytes (hp ▸ hw)] at hphase
        exact hphase.covered
      · rcases ht.threads i pc hpc with h | ⟨key, maxBytes, hw⟩
        · exact h.1
        · exact absurd hw (hnot key maxBytes)
  | delete j key =>
    rw [step]
    split_ifs with hfree
    · exact delete_inv ht (Option.isNone_iff_eq_none.1 hfree)
    · exact ht
  | step k => exact store_step_inv ht htimely

end

/-- **The quota is kept**, in any interleaving of writes and deletes in which no delete removes the row of an object that is there
again, from any store whose index knows of every object and stays within the quota. -/
theorem quota_kept (hlimit : limit < 2 ^ 64) {store : St} (hidle : ∀ k, store.threads k = none) (hstore : Covered bucket limit store)
    {evs : List Ev} (h : Along (step B C bucket limit) (fun t e => Legal bucket t e ∧ Timely t e) ⟨store, none, fun _ => none⟩ evs) :
    Within bucket limit (run (step B C bucket limit) ⟨store, none, fun _ => none⟩ evs) := by
  have hinit : Inv bucket limit ⟨store, none, fun _ => none⟩ := by
    refine ⟨fun _ => hstore, nofun, nofun, fun k pc hpc => ?_⟩
    cases (hidle k).symm.trans hpc
  exact (Along.inv (I := Inv bucket limit) (fun t e ht he => step_inv hlimit ht he.1 he.2) hinit h).within

/-! ## Runs on fixed requests -/

def sampleMetadata (size : ℕ) : Objects.Metadata := ⟨0, 0, size, "", ∅, none, none, none⟩

/-- a bucket with one object of five bytes -/
def sampleStore : St where
  files := fun x => if x = ("b", "x") then some ⟨[], sampleMetadata 5⟩ else none
  rows := fun x => if x = ("b", "x") then some (sampleMetadata 5) else none
  tmp _ := none
  labelsTmp _ := none
  locks _ := false
  dirs _ := true
  threads _ := none
  rebuild := .idle

def sampleEnvelopes : Envelopes := ⟨fun _ _ _ _ => none, fun _ _ _ => ([], ⟨0, "", "", "", 4, 0⟩), fun _ => ""⟩

def sampleRun (evs : List Ev) : State := run (step .filesystem sampleEnvelopes "b" 10) ⟨sampleStore, none, fun _ => none⟩ evs

def samplePut : PutRequest := ⟨[], 0, "", ∅, none, none, 0, false⟩

/-- a write of so many bytes, which finds these rows, up to its commit -/
def writeOf (i : ℕ) (key : String) (size : ℕ) (items : List (String × Objects.Metadata)) : List Ev :=
  [.write i ⟨key, size, 100⟩, .lock i, .page i items none, .describe i, .begin i, .step i, .step i, .step i,
    .commit i [List.replicate size 0] samplePut]

/-- `x` is replaced in the middle of its deletion, then `y` is written -/
def lateDelete : List Ev :=
  [.delete 0 "x", .step 0, .step 0, .step 0] ++ writeOf 1 "x" 5 [("x", sampleMetadata 5)] ++ [.step 1, .step 1, .step 1, .finish 1, .step 0] ++
    writeOf 2 "y" 10 [] ++ [.step 2]

/-- one page with all rows -/
theorem legal_first {bucket : String} {t : State} {i total : ℕ} {w : Write} {items : List (String × Objects.Metadata)}
    (hw : t.writes i = some (.scanning w none total)) (hnodup : (items.map Prod.fst).Nodup)
    (hitems : ∀ key m, (key, m) ∈ items ↔ t.store.rows (bucket, key) = some m) : Legal bucket t (.page i items none) := by
  intro w' after total' h
  rw [hw] at h
  cases h
  refine ⟨hnodup, nofun, fun key m => (hitems key m).trans ⟨fun h => ⟨h, nofun, nofun⟩, And.left⟩⟩

theorem mem_sample (key : String) (m : Objects.Metadata) : (key, m) ∈ [("x", sampleMetadata 5)] ↔ sampleStore.rows ("b", key) = some m := by
  have hrow : sampleStore.rows ("b", key) = if key = "x" then some (sampleMetadata 5) else none := by
    by_cases hkey : key = "x"
    · rw [hkey]
      rfl
    · rw [if_neg hkey]
      exact if_neg fun h => hkey (Prod.mk.inj h).2
  rw [hrow, List.mem_singleton, Prod.mk.injEq]
  split_ifs with hkey
  · rw [Option.some.injEq]
    exact ⟨fun h => h.2.symm, fun h => ⟨hkey, h.symm⟩⟩
  · exact ⟨fun h => absurd h.1 hkey, nofun⟩

theorem sample_covered : Covered "b" 10 sampleStore := by
  have hsame : ∀ key, sizeOf "b" sampleStore key = rowSize "b" sampleStore key := by
    intro key
    simp only [sizeOf, rowSize, sampleStore]
    split_ifs
    · rfl
    · rfl
  have hlist : AtMost (["x"].map (rowSize "b" sampleStore)).sum (rowSize "b" sampleStore) Set.univ := by
    refine AtMost.of_list (List.nodup_singleton _) fun key _ hne => ?_
    by_contra hkey
    refine hne ?_
    have hrow : sampleStore.rows ("b", key) = none := if_neg fun h => hkey (List.mem_singleton.2 (Prod.mk.inj h).2)
    rw [rowSize, hrow]
    rfl
  exact ⟨fun key => (hsame key).le, hlist.mono (fun _ _ => le_rfl) subset_rfl (by decide)⟩

/-- **A put between a delete's two halves loses its row**, and the next put gets its room again: 15 bytes under a quota of 10. -/
theorem late_delete_frees_quota :
    Covered "b" 10 sampleStore ∧
    Along (step .filesystem sampleEnvelopes "b" 10) (Legal "b") ⟨sampleStore, none, fun _ => none⟩ lateDelete ∧
    ¬Within "b" 10 (sampleRun lateDelete) := by
  refine ⟨sample_covered, ?_, fun h => ?_⟩
  · refine ⟨trivial, trivial, trivial, trivial, trivial, trivial, legal_first rfl (List.nodup_singleton _) mem_sample, trivial, trivial,
      trivial, trivial, trivial, trivial, trivial, trivial, trivial, trivial, trivial, trivial, trivial,
      legal_first rfl List.nodup_nil fun key m => ?_, trivial, trivial, trivial, trivial, trivial, trivial, trivial, trivial⟩
    -- the row is gone, and the index knows of nothing
    change _ ↔ Function.update (Function.update sampleStore.rows ("b", "x") (some _)) ("b", "x") none ("b", key) = some m
    rw [Function.update_idem, Function.update_apply]
    split_ifs with hkey
    · exact ⟨nofun, nofun⟩
    · rw [show sampleStore.rows ("b", key) = none from if_neg hkey]
      exact ⟨nofun, nofun⟩
  · have hx : sizeOf "b" (sampleRun lateDelete).store "x" = 5 := rfl
    have hy : sizeOf "b" (sampleRun lateDelete).store "y" = 10 := rfl
    have hsum := h {"x", "y"} (Set.subset_univ _)
    rw [Finset.sum_pair (by decide), hx, hy] at hsum
    exact absurd hsum (by decide)

/-- `x` is deleted, then `y` takes its room -/
def doneDelete : List Ev :=
  [.delete 0 "x", .step 0, .step 0, .step 0, .step 0] ++ writeOf 2 "y" 10 [] ++ [.step 2, .step 2, .step 2, .finish 2]

theorem quota_kept_one_by_one : Within "b" 10 (sampleRun doneDelete) := by
  have hpage : ∀ key m, (key, m) ∈ ([] : List (String × Objects.Metadata)) ↔
      Function.update sampleStore.rows ("b", "x") none ("b", key) = some m := by
    intro key m
    rw [Function.update_apply]
    split_ifs with hkey
    · exact ⟨nofun, nofun⟩
    · rw [show sampleStore.rows ("b", key) = none from if_neg hkey]
      exact ⟨nofun, nofun⟩
  refine quota_kept .filesystem sampleEnvelopes "b" 10 (by decide) (fun _ => rfl) sample_covered ⟨⟨trivial, trivial⟩,
    ⟨trivial, nofun⟩, ⟨trivial, nofun⟩, ⟨trivial, nofun⟩, ⟨trivial, ?_⟩, ⟨trivial, trivial⟩, ⟨trivial, trivial⟩,
    ⟨legal_first rfl List.nodup_nil hpage, trivial⟩, ⟨trivial, trivial⟩, ⟨trivial, trivial⟩, ⟨trivial, nofun⟩, ⟨trivial, nofun⟩,
    ⟨trivial, nofun⟩, ⟨trivial, trivial⟩, ⟨trivial, nofun⟩, ⟨trivial, nofun⟩, ⟨trivial, nofun⟩, ⟨trivial, trivial⟩, trivial⟩
  intro x h
  cases h
  rfl

end Y2q.Quota
