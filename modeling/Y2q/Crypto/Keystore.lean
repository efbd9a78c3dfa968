/-
The keystore directory (`crypto/keystore.rs`): the manifest with the node-key verifier, the rotation journal, and the user
store that a node-key rotation re-keys.

A file is absent, not parsed (with the parser's reason), or its content. Replacing a file (temp file, then rename) is one
atomic effect; the temp file of the user store is kept apart, since it is written in several steps.

- `verifyNodeKey_ok_iff`: when a node key passes.
- `rekeyUserStore_spec`: from a user store that opens under the old key, or is already re-keyed, the re-key cannot fail, and
  at every crash point the store opens under one of the two keys with its records.
-/
import Mathlib.Data.Finmap
import Mathlib.Tactic
import Y2q.Crypto.Devices.Unlock
import Y2q.Storage.Database

namespace Y2q.Keystore

open CrashLogic NodeKeys EncryptedBackend

def KEYSTORE_FORMAT_VERSION : UInt16 := 3

structure KeystoreManifest where
  formatVersion : UInt16
  nodeKeyVerifierB64 : String
  createdAt : UInt64
deriving DecidableEq, Repr

structure RotationJournal where
  oldVerifierB64 : String
  newVerifierB64 : String
deriving DecidableEq, Repr

/-- the `users` table: name to serialised record -/
abbrev Users := Finmap fun _ : String => Bytes

structure KeystoreDir where
  /-- the pre-hierarchy `pubkey.json` is there -/
  legacyPubkey : Bool
  /-- `keystore.json` -/
  manifest : Option (Except String KeystoreManifest)
  /-- `users.redb` -/
  users : Option (DbFile Users)
  /-- `users.rekeying` -/
  usersRekeying : Option (DbFile Users)
  /-- `node-key-rotation.json` -/
  journal : Option (Except String RotationJournal)
  devices : Devices.RegistryDisk

variable (P : Primitives)

/-! ## Verifier -/

def verifyNodeKey (nk : Bytes) (ks : KeystoreDir) : Except CryptoError Unit :=
  if ks.legacyPubkey then .error (.legacyKeystore "pubkey.json")
  else
    match ks.manifest with
    | none =>
      if ks.users.isSome then .error (.keystoreCorrupt "keystore.json" "keystore.json missing but users.redb present")
      else .error (.keystoreMissing "keystore.json")
    | some (.error e) => .error (.keystoreCorrupt "keystore.json" s!"parse: {e}")
    | some (.ok m) =>
      if m.formatVersion ≠ KEYSTORE_FORMAT_VERSION then
        .error (.keystoreCorrupt "keystore.json" s!"unsupported format_version {m.formatVersion} (expected 3)")
      else
        match Base64.decode m.nodeKeyVerifierB64 with
        | none => .error (.keystoreCorrupt "keystore.json" "verifier base64 decode")
        | some v => if v = deriveNodeKeyVerifier P nk then .ok () else .error .nodeKeyMismatch

def rewriteVerifier (newNk : Bytes) : Prog KeystoreDir CryptoError Unit := do
  let ks ← Prog.get
  match ks.manifest with
  | none => Prog.throw (.keystoreIo "read keystore.json: No such file or directory (os error 2)")
  | some (.error e) => Prog.throw (.keystoreCorrupt "keystore.json" s!"parse: {e}")
  | some (.ok m) =>
    Prog.modify fun ks => { ks with
      manifest := some (.ok { m with nodeKeyVerifierB64 := Base64.encode (deriveNodeKeyVerifier P newNk) }) }

/-! ## Journal -/

def journalOf (oldNk newNk : Bytes) : RotationJournal :=
  ⟨Base64.encode (deriveNodeKeyVerifier P oldNk), Base64.encode (deriveNodeKeyVerifier P newNk)⟩

def writeRotationJournal (oldNk newNk : Bytes) : Prog KeystoreDir CryptoError Unit := do
  let ks ← Prog.get
  if ks.journal.isSome then Prog.throw (.keystoreIo "create node-key-rotation.json: File exists (os error 17)")
  else Prog.modify fun ks => { ks with journal := some (.ok (journalOf P oldNk newNk)) }

def readRotationJournal (ks : KeystoreDir) : Except CryptoError (Option RotationJournal) :=
  match ks.journal with
  | none => .ok none
  | some (.error e) => .error (.keystoreCorrupt "node-key-rotation.json" s!"parse rotation journal: {e}")
  | some (.ok j) => .ok (some j)

def deleteRotationJournal : Prog KeystoreDir CryptoError Unit := Prog.modify fun ks => { ks with journal := none }

/-! ## User store -/

/-- `UserStore::open` on `users.redb` -/
def openUsers (nk : Bytes) : Prog KeystoreDir CryptoError Users :=
  Prog.mapError (fun e => .userStore s!"open users.redb: {e}")
    (Prog.zoom (·.users) (fun f ks => { ks with users := f }) (openDb .Reject (deriveUserStoreFileKey P nk) ∅))

/-- the same on `users.rekeying` -/
def openRekeying (nk : Bytes) : Prog KeystoreDir CryptoError Users :=
  Prog.mapError (fun e => .userStore s!"open users.rekeying: {e}")
    (Prog.zoom (·.usersRekeying) (fun f ks => { ks with usersRekeying := f })
      (openDb .Reject (deriveUserStoreFileKey P nk) ∅))

/-- write the records to a fresh temp file and rename it over the store -/
def replaceUsers (newNk : Bytes) (records : Users) : Prog KeystoreDir CryptoError Unit := do
  let _ ← openRekeying P newNk
  Prog.modify fun ks => { ks with usersRekeying := DbFile.update (records ∪ ·) ks.usersRekeying }
  Prog.modify fun ks => { ks with users := ks.usersRekeying, usersRekeying := none }

def rekeyUserStore (oldNk newNk : Bytes) : Prog KeystoreDir CryptoError Unit := do
  -- a partial temp from an interrupted earlier attempt is worthless
  Prog.modify fun ks => { ks with usersRekeying := none }
  match ← Prog.attempt (openUsers P oldNk) with
  | .ok records => replaceUsers P newNk records
  | .error oldErr =>
    match ← Prog.attempt (openUsers P newNk) with
    | .ok _ => pure ()
    | .error _ => Prog.throw oldErr

/-! ## Facts -/

variable {P} {ks ks₀ : KeystoreDir} {oldNk newNk nk : Bytes} {R : Users}

/-- a manifest this build reads -/
def ManifestFit (ks : KeystoreDir) : Prop :=
  ks.legacyPubkey = false ∧ ∃ m v, ks.manifest = some (.ok m) ∧ m.formatVersion = KEYSTORE_FORMAT_VERSION ∧
    Base64.decode m.nodeKeyVerifierB64 = some v

/-- the manifest carries the verifier of `nk` -/
def Verifies (P : Primitives) (nk : Bytes) (ks : KeystoreDir) : Prop :=
  ∃ m, ks.manifest = some (.ok m) ∧ Base64.decode m.nodeKeyVerifierB64 = some (deriveNodeKeyVerifier P nk)

theorem verifyNodeKey_ok_iff (h : ManifestFit ks) : verifyNodeKey P nk ks = .ok () ↔ Verifies P nk ks := by
  obtain ⟨hpub, m, v, hm, hver, hdec⟩ := h
  have hrun : verifyNodeKey P nk ks = if v = deriveNodeKeyVerifier P nk then .ok () else .error .nodeKeyMismatch := by
    unfold verifyNodeKey
    rw [hpub, hm]
    simp only [Bool.false_eq_true, if_false, hver, ne_eq, not_true_eq_false, hdec]
  rw [hrun]
  constructor
  · intro hok
    split_ifs at hok with hv
    exact ⟨m, hm, by rw [hdec, hv]⟩
  · rintro ⟨m', hm', hdec'⟩
    rw [hm] at hm'
    cases hm'
    rw [hdec] at hdec'
    rw [if_pos (Option.some.inj hdec')]

/-- the same files, the user store and its temp file apart -/
structure SameButUsers (ks₀ ks : KeystoreDir) : Prop where
  legacyPubkey : ks.legacyPubkey = ks₀.legacyPubkey
  manifest : ks.manifest = ks₀.manifest
  journal : ks.journal = ks₀.journal
  devices : ks.devices = ks₀.devices

/-- the user store opens under the old key to `R`, or is re-keyed with `R` in it -/
def UsersHold (P : Primitives) (oldNk newNk : Bytes) (R : Users) (f : Option (DbFile Users)) : Prop :=
  opensAs .Reject (deriveUserStoreFileKey P oldNk) ∅ f = some R ∨ f = some (.sealed (deriveUserStoreFileKey P newNk) R)

theorem openUsers_spec (nk : Bytes) (ks : KeystoreDir) :
    Spec (fun u => u = ks) (openUsers P nk)
      (fun c u => opensAs .Reject (deriveUserStoreFileKey P nk) ∅ ks.users = some c ∧
        u = { ks with users := some (.sealed (deriveUserStoreFileKey P nk) c) })
      (fun _ u => opensAs .Reject (deriveUserStoreFileKey P nk) ∅ ks.users = none ∧ u = ks)
      (fun u => ∃ g, u = { ks with users := g } ∧ (g = ks.users ∨
        ((∀ k c, ks.users ≠ some (.sealed k c)) ∧ OpenLeaves (deriveUserStoreFileKey P nk) ∅ ks.users g))) := by
  refine Spec.mapError (Spec.zoom ks rfl (openDb_spec .Reject _ ∅ ks.users) rfl ?_ ?_ ?_) fun _ _ h => h
  · rintro c f ⟨h, rfl⟩; exact ⟨h, rfl⟩
  · rintro e f ⟨h, rfl⟩; exact ⟨h, rfl⟩
  · exact fun g hg => ⟨g, rfl, hg⟩

/-- the temp file is gone when it is opened, so this creates it -/
theorem openRekeying_spec (nk : Bytes) (ks : KeystoreDir) (h : ks.usersRekeying = none) :
    Spec (fun u => u = ks) (openRekeying P nk)
      (fun _ u => u = { ks with usersRekeying := some (.sealed (deriveUserStoreFileKey P nk) ∅) }) (fun _ _ => False)
      (fun u => ∃ g, u = { ks with usersRekeying := g }) := by
  refine Spec.mapError (Spec.zoom ks rfl (openDb_spec .Reject _ ∅ ks.usersRekeying) rfl ?_ ?_ ?_) fun _ _ h => h
  · rintro c f ⟨ho, rfl⟩
    rw [h] at ho
    cases ho
    rfl
  · rintro e f ⟨ho, -⟩
    rw [h] at ho
    cases ho
  · exact fun g _ => ⟨g, rfl⟩

theorem replaceUsers_spec (newNk : Bytes) (R : Users) (ks : KeystoreDir) (h : ks.usersRekeying = none) :
    Spec (fun u => u = ks) (replaceUsers P newNk R)
      (fun _ u => u = { ks with users := some (.sealed (deriveUserStoreFileKey P newNk) R), usersRekeying := none })
      (fun _ _ => False)
      (fun u => (∃ g, u = { ks with usersRekeying := g }) ∨
        u = { ks with users := some (.sealed (deriveUserStoreFileKey P newNk) R), usersRekeying := none }) := by
  refine Spec.bind ((openRekeying_spec newNk ks h).conseq (fun _ hu => hu) (fun _ _ hu => hu) (fun _ _ hu => hu)
    fun _ hu => Or.inl hu) fun _ => ?_
  refine Spec.bind (R := fun _ u => u = { ks with usersRekeying := some (.sealed (deriveUserStoreFileKey P newNk) R) })
    (Spec.modify ?_ ?_ ?_) fun _ => Spec.modify ?_ ?_ ?_
  · rintro u rfl; simp [DbFile.update]
  · rintro u rfl; exact Or.inl ⟨_, rfl⟩
  · rintro u rfl; exact Or.inl ⟨_, rfl⟩
  · rintro u rfl; rfl
  · rintro u rfl; exact Or.inl ⟨_, rfl⟩
  · rintro u rfl; exact Or.inr rfl

/-- what every state of a re-key satisfies -/
def Rekeying (P : Primitives) (ks₀ : KeystoreDir) (oldNk newNk : Bytes) (R : Users) (ks : KeystoreDir) : Prop :=
  SameButUsers ks₀ ks ∧ UsersHold P oldNk newNk R ks.users

theorem Rekeying.set (h : Rekeying P ks₀ oldNk newNk R ks) {f : Option (DbFile Users)} (hf : UsersHold P oldNk newNk R f)
    (g : Option (DbFile Users)) : Rekeying P ks₀ oldNk newNk R { ks with users := f, usersRekeying := g } :=
  ⟨⟨h.1.1, h.1.2, h.1.3, h.1.4⟩, hf⟩

theorem usersHold_old (R : Users) : UsersHold P oldNk newNk R (some (.sealed (deriveUserStoreFileKey P oldNk) R)) :=
  Or.inl (if_pos rfl)

theorem usersHold_new (R : Users) : UsersHold P oldNk newNk R (some (.sealed (deriveUserStoreFileKey P newNk) R)) :=
  Or.inr rfl

/-- opening the store under either key changes nothing that matters -/
theorem openUsers_rekeying (h : Rekeying P ks₀ oldNk newNk R ks) (hnk : nk = oldNk ∨ (∃ k c, ks.users = some (.sealed k c))) :
    Spec (fun u => u = ks) (openUsers P nk)
      (fun c u => opensAs .Reject (deriveUserStoreFileKey P nk) ∅ ks.users = some c ∧
        u = { ks with users := some (.sealed (deriveUserStoreFileKey P nk) c) })
      (fun _ u => opensAs .Reject (deriveUserStoreFileKey P nk) ∅ ks.users = none ∧ u = ks)
      (Rekeying P ks₀ oldNk newNk R) := by
  refine (openUsers_spec nk ks).conseq (fun _ hu => hu) (fun _ _ hu => hu) (fun _ _ hu => hu) ?_
  rintro u ⟨g, rfl, hg⟩
  refine h.set ?_ ks.usersRekeying
  rcases hnk with rfl | ⟨k, c, hsealed⟩
  · rcases h.2 with ho | hnew
    · exact Or.inl (opensAs_cut ho hg)
    · rcases hg with rfl | ⟨hns, -⟩
      · exact h.2
      · exact absurd hnew (hns _ _)
  · rcases hg with rfl | ⟨hns, -⟩
    · exact h.2
    · exact absurd hsealed (hns _ _)

/-- **The re-key is resumable.** -/
theorem rekeyUserStore_spec (ks₀ : KeystoreDir) (oldNk newNk : Bytes) (R : Users) :
    Spec (Rekeying P ks₀ oldNk newNk R) (rekeyUserStore P oldNk newNk)
      (fun _ ks => SameButUsers ks₀ ks ∧ ks.users = some (.sealed (deriveUserStoreFileKey P newNk) R)) (fun _ _ => False)
      (Rekeying P ks₀ oldNk newNk R) := by
  refine Spec.bind (R := fun _ ks => Rekeying P ks₀ oldNk newNk R ks ∧ ks.usersRekeying = none)
    (Spec.modify (fun ks h => ⟨h.set h.2 none, rfl⟩) (fun _ h => h) fun ks h => h.set h.2 none) fun _ => Spec.of_states ?_
  rintro ks ⟨h, htmp⟩
  by_cases ho : opensAs .Reject (deriveUserStoreFileKey P oldNk) ∅ ks.users = some R
  · -- the store opens under the old key: copy it and put the copy in its place
    refine Spec.bind (Spec.attempt (openUsers_rekeying h (Or.inl rfl)) (B := fun o u => o = .ok R ∧
      u = { ks with users := some (.sealed (deriveUserStoreFileKey P oldNk) R) }) ?_ ?_) fun o => Spec.of_states ?_
    · rintro c u ⟨hc, rfl⟩
      rw [ho] at hc
      cases hc
      exact ⟨rfl, rfl⟩
    · rintro e u ⟨hnone, -⟩
      rw [ho] at hnone
      cases hnone
    · rintro u ⟨rfl, hu⟩
      refine (replaceUsers_spec newNk R u (by rw [hu]; exact htmp)).conseq (fun _ h => h) ?_ (fun _ _ h => h) ?_
      · rintro _ v rfl
        rw [hu]
        exact ⟨(h.set (usersHold_new R) none).1, rfl⟩
      · rintro v (⟨g, rfl⟩ | rfl)
        · rw [hu]; exact h.set (usersHold_old R) g
        · rw [hu]; exact h.set (usersHold_new R) none
  · -- it does not: an earlier run has re-keyed it
    have hnew := h.2.resolve_left ho
    refine Spec.bind (Spec.attempt (@openUsers_rekeying _ _ _ _ _ oldNk _ h (Or.inl rfl))
      (B := fun o u => (∃ e, o = .error e) ∧ u = ks) ?_ fun e u hu => ⟨⟨e, rfl⟩, hu.2⟩) fun o => Spec.of_states ?_
    · rintro c u ⟨hc, -⟩
      rw [hnew] at hc ho
      rw [opensAs_sealed] at hc ho
      split_ifs at hc with hk
      exact absurd (if_pos hk) ho
    rintro u ⟨⟨e, rfl⟩, rfl⟩
    refine Spec.bind (Spec.attempt (@openUsers_rekeying _ _ _ _ _ newNk _ h (Or.inr ⟨_, _, hnew⟩))
      (B := fun o v => (∃ c, o = .ok c) ∧ v = u) ?_ ?_) fun o => Spec.of_states ?_
    · rintro c v ⟨hc, rfl⟩
      rw [hnew] at hc
      cases (if_pos rfl).symm.trans hc
      refine ⟨⟨_, rfl⟩, ?_⟩
      rw [← hnew]
    · rintro e v ⟨hnone, -⟩
      rw [hnew] at hnone
      cases (if_pos rfl).symm.trans hnone
    · rintro v ⟨⟨c, rfl⟩, rfl⟩
      exact Spec.pure _ (fun w hw => by rw [hw]; exact ⟨h.1, hnew⟩) fun w hw => by rw [hw]; exact h

end Y2q.Keystore
