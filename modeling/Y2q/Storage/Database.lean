/-
A redb database in an encrypted file: `users.redb` and the metadata index.

`EncryptedFileBackend` seals every block of the file under one key, and redb keeps its tables crash-safe, so a file is what
its key shows of it: the content of its tables. An empty file or, where the caller allows it, a file without the magic is
created anew on open. A file sealed under another key does not open (the header does not authenticate).

- `openDb_spec`: what opening returns and leaves behind, in terms of `opensAs`.
-/
import Mathlib.Tactic
import Y2q.Core.Crash
import Y2q.Storage.EncryptedBackend

namespace Y2q

open CrashLogic EncryptedBackend

variable {α : Type}

inductive DbFile (α : Type) where
  /-- zero bytes -/
  | blank
  /-- some bytes, but not the magic -/
  | foreign
  | sealed (fileKey : Bytes) (content : α)
deriving DecidableEq, Repr

/-- the tables as the holder of `fileKey` would see them, `none` if the file does not open -/
def opensAs (onForeign : ForeignFile) (fileKey : Bytes) (empty : α) : Option (DbFile α) → Option α
  | none => some empty
  | some .blank => some empty
  | some .foreign => if onForeign = .Recreate then some empty else none
  | some (.sealed k content) => if k = fileKey then some content else none

theorem opensAs_sealed (onForeign : ForeignFile) (fileKey k : Bytes) (empty content : α) :
    opensAs onForeign fileKey empty (some (.sealed k content)) = if k = fileKey then some content else none := rfl

/-- create or truncate, then write the header and the empty tables -/
def createDb (fileKey : Bytes) (empty : α) : Prog (Option (DbFile α)) String α := do
  Prog.modify fun _ => some .blank
  Prog.modify fun _ => some (.sealed fileKey empty)
  pure empty

/-- `EncryptedFileBackend::open`, redb's open over it, and the transaction that makes sure of the tables -/
def openDb (onForeign : ForeignFile) (fileKey : Bytes) (empty : α) : Prog (Option (DbFile α)) String α := do
  let file ← Prog.get
  match file with
  | none => createDb fileKey empty
  | some .blank => createDb fileKey empty
  | some .foreign =>
    if onForeign = .Recreate then createDb fileKey empty else Prog.throw "encrypted file has no recognizable magic"
  | some (.sealed k content) =>
    if k = fileKey then pure content else Prog.throw "index header decrypt/auth (wrong key or tampered)"

/-- one committed transaction on an open database -/
def DbFile.update (f : α → α) : Option (DbFile α) → Option (DbFile α)
  | some (.sealed k content) => some (.sealed k (f content))
  | file => file

/-- sealed under the given key -/
def SealedUnder (fileKey : Bytes) (file : Option (DbFile α)) : Prop := ∃ content, file = some (.sealed fileKey content)

/-- what a crash of an open may leave: the file, or it on its way to being created -/
def OpenLeaves (fileKey : Bytes) (empty : α) (file file' : Option (DbFile α)) : Prop :=
  file' = file ∨ file' = some .blank ∨ file' = some (.sealed fileKey empty)

/-- a cut open leaves a file that opens to the same -/
theorem opensAs_cut {onForeign : ForeignFile} {fileKey : Bytes} {empty c : α} {file file' : Option (DbFile α)}
    (h : opensAs onForeign fileKey empty file = some c)
    (hcut : file' = file ∨ ((∀ k c, file ≠ some (.sealed k c)) ∧ OpenLeaves fileKey empty file file')) :
    opensAs onForeign fileKey empty file' = some c := by
  rcases hcut with rfl | ⟨hns, hcut⟩
  · exact h
  · -- only an absent or empty file is created, and it holds nothing
    have hempty : c = empty := by
      match file with
      | none => exact (Option.some.inj h).symm
      | some .blank => exact (Option.some.inj h).symm
      | some .foreign =>
        simp only [opensAs] at h
        split_ifs at h
        exact (Option.some.inj h).symm
      | some (.sealed k c) => exact absurd rfl (hns k c)
    subst hempty
    rcases hcut with rfl | rfl | rfl
    · exact h
    · rfl
    · exact if_pos rfl

theorem createDb_spec (fileKey : Bytes) (empty : α) (file : Option (DbFile α)) :
    Spec (fun f => f = file) (createDb fileKey empty) (fun c f => c = empty ∧ f = some (.sealed fileKey empty))
      (fun _ _ => False) (OpenLeaves fileKey empty file) := by
  refine Spec.of_apply ?_
  rintro f rfl
  refine ⟨Or.inl rfl, [some .blank, some (.sealed fileKey empty)], .ok empty, rfl, ?_, ?_, nofun⟩
  · intro s hs
    rcases List.mem_cons.1 hs with rfl | hs
    · exact Or.inr (Or.inl rfl)
    · rw [List.mem_singleton.1 hs]; exact Or.inr (Or.inr rfl)
  · intro c hc
    cases hc
    exact ⟨rfl, rfl⟩

theorem openDb_spec (onForeign : ForeignFile) (fileKey : Bytes) (empty : α) (file : Option (DbFile α)) :
    Spec (fun f => f = file) (openDb onForeign fileKey empty)
      (fun c f => opensAs onForeign fileKey empty file = some c ∧ f = some (.sealed fileKey c))
      (fun _ f => opensAs onForeign fileKey empty file = none ∧ f = file)
      (fun f => f = file ∨ ((∀ k c, file ≠ some (.sealed k c)) ∧ OpenLeaves fileKey empty file f)) := by
  refine Spec.get_bind ?_
  rintro f rfl
  have hcreate : (∀ k c, f ≠ some (.sealed k c)) → opensAs onForeign fileKey empty f = some empty →
      Spec (fun g => g = f) (createDb fileKey empty)
        (fun c g => opensAs onForeign fileKey empty f = some c ∧ g = some (.sealed fileKey c))
        (fun _ g => opensAs onForeign fileKey empty f = none ∧ g = f)
        (fun g => g = f ∨ ((∀ k c, f ≠ some (.sealed k c)) ∧ OpenLeaves fileKey empty f g)) := by
    intro hns ho
    refine (createDb_spec fileKey empty f).conseq (fun _ h => h) ?_ (fun _ _ h => h.elim) fun g h => Or.inr ⟨hns, h⟩
    rintro c g ⟨rfl, rfl⟩
    exact ⟨ho, rfl⟩
  match f with
  | none => exact hcreate nofun rfl
  | some .blank => exact hcreate nofun rfl
  | some .foreign =>
    simp only
    split_ifs with hf
    · exact hcreate nofun (if_pos hf)
    · exact Spec.throw (fun g hg => ⟨if_neg hf, hg⟩) fun g hg => Or.inl hg
  | some (.sealed k content) =>
    simp only
    split_ifs with hk
    · refine Spec.pure _ (fun g hg => ⟨if_pos hk, ?_⟩) fun g hg => Or.inl hg
      rw [hg, hk]
    · exact Spec.throw (fun g hg => ⟨if_neg hk, hg⟩) fun g hg => Or.inl hg

end Y2q
