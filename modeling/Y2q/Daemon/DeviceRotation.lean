/-
Device-mode rotation (`run_with`) over any number of crashes: the key the data needs is never lost.

The old key survives only in the registry's `nk_wrap`, which the rotation itself overwrites, after everything else that was
under the old key has moved. A run picks its branch by the key it recovers and the journal.

- `OnOld`: `nk_wrap` holds the old key; the tree, the index and the user store are anywhere between the two keys.
- `OnNew`: `nk_wrap` holds the new key; everything else is on it but perhaps the verifier and the journal.
- `runWith_spec`: every crash state of a run, and every state a refused run leaves, is one of the two.
- `never_loses_the_key`: what can be read in every such state, and that a further run whose unlock is granted completes the
  rotation, or finds it complete and refuses.
-/
import Mathlib.Tactic
import Y2q.Crypto.Devices.Erasure
import Y2q.Daemon.RotationCoverage

namespace Y2q.NodeKeyRotation

open CrashLogic NodeKeys Keystore Index EncryptedBackend

/-! ## Items -/

/-- what must stay readable in the tree -/
inductive Item where
  | object (data json : Bytes)
  | config (bucket : String) (plain : Bytes)

/-- some file of the tree opens to the item under the keys of `nk` -/
def HeldUnder (P : Primitives) (nk : Bytes) (t : Tree) : Item → Prop
  | .object data json => ∃ dir d p bytes, t.lookup dir = some d ∧ d.files.lookup p = some bytes ∧
      openObject P (deriveStoreKeys P nk) p.stem bytes = some (data, json)
  | .config bucket plain => ∃ dir d bytes, t.lookup dir = some d ∧ d.config = some bytes ∧
      decryptMeta P (deriveBucketConfigKey P nk) bytes (encodeBucketDir P (derivePathKey P nk) bucket) = .ok plain

/-- the registry's `nk_wrap` opens to `nk` -/
def WrapHolds (P : Primitives) (nk : Bytes) (s : Node) : Prop :=
  ∃ r, s.keystore.devices = some (.ok r) ∧ Devices.NkWrapOpens P r nk

/-- the user store opens under `nk` with these records -/
def UsersOpen (P : Primitives) (nk : Bytes) (R : Users) (s : Node) : Prop :=
  opensAs .Reject (deriveUserStoreFileKey P nk) ∅ s.keystore.users = some R

/-! ## States of a rotation -/

/-- what the rotation relies on of the key derivation and the sealing of `nk_wrap` -/
structure KeysApart (P : Primitives) (oldNk newNk : Bytes) : Prop where
  wraps : Devices.WrapKeysSeparate P
  verifiers : deriveNodeKeyVerifier P oldNk ≠ deriveNodeKeyVerifier P newNk
  indexes : deriveIndexFileKey P oldNk ≠ deriveIndexFileKey P newNk
  length : newNk.length = 32

section Rotation

variable (E : Env) (bs : List String) (T₀ : Tree) (W D : Tree → Prop) (oldNk newNk : Bytes) (R : Users)

/-- not begun, or interrupted before `nk_wrap` was rewritten -/
structure OnOld (s : Node) : Prop where
  registry : WrapHolds E.toPrimitives oldNk s
  manifest : ManifestFit s.keystore
  verifier : Verifies E.toPrimitives oldNk s.keystore
  phase : Phase E.toPrimitives oldNk newNk (fun l => l = bs) (fun l => l = []) W D s
  users : UsersHold E.toPrimitives oldNk newNk R s.keystore.users
  /-- nothing is moved before the journal is there -/
  journal : s.keystore.journal = some (.ok (journalOf E.toPrimitives oldNk newNk)) ∨
    s.keystore.journal = none ∧ s.tree = T₀ ∧ UsersOpen E.toPrimitives oldNk R s

/-- interrupted after that, or complete -/
structure OnNew (s : Node) : Prop where
  registry : WrapHolds E.toPrimitives newNk s
  manifest : ManifestFit s.keystore
  tree : D s.tree
  users : s.keystore.users = some (.sealed (deriveUserStoreFileKey E.toPrimitives newNk) R)
  journal : s.keystore.journal = some (.ok (journalOf E.toPrimitives oldNk newNk)) ∨
    s.keystore.journal = none ∧ Verifies E.toPrimitives newNk s.keystore

/-- any state of the rotation -/
def Between (s : Node) : Prop := OnOld E bs T₀ W D oldNk newNk R s ∨ OnNew E D oldNk newNk R s

/-- a complete rotation -/
structure Complete (s : Node) : Prop where
  registry : WrapHolds E.toPrimitives newNk s
  finished : Finished E.toPrimitives newNk s
  tree : D s.tree

end Rotation

variable {E : Env} {H : Devices.Hashes} {walk : Walk} {S : Surroundings} {bs : List String} {T₀ : Tree} {W D : Tree → Prop}
variable {oldNk newNk : Bytes} {R : Users} {s t : Node}

/-- an unlock's bookkeeping changes the registry but not its seal -/
theorem WrapHolds.keeps {r : Devices.DeviceRegistryFile} {nk : Bytes} (hr : Devices.NkWrapOpens E.toPrimitives r nk)
    (hk : Devices.Keeps r t.keystore.devices) : WrapHolds E.toPrimitives nk t := by
  obtain ⟨r', hr', hsame⟩ := hk
  exact ⟨r', hr', hsame.opens hr⟩

/-- the registry apart, nothing has changed -/
structure SameButRegistry (s t : Node) : Prop where
  tree : t.tree = s.tree
  index : t.index = s.index
  keystore : ∃ d, t.keystore = { s.keystore with devices := d }

theorem OnOld.of_registry (h : OnOld E bs T₀ W D oldNk newNk R s) (hs : SameButRegistry s t)
    (hr : WrapHolds E.toPrimitives oldNk t) : OnOld E bs T₀ W D oldNk newNk R t := by
  obtain ⟨htree, hindex, d, hks⟩ := hs
  have hj := h.journal
  refine ⟨hr, ?_, ?_, h.phase.congr (by rw [hindex]) (fun _ => by rw [hindex]) htree, by rw [hks]; exact h.users, ?_⟩
  · rw [hks]; exact h.manifest
  · rw [hks]; exact h.verifier
  · unfold UsersOpen at hj ⊢
    rw [hks, htree]
    exact hj

theorem OnNew.of_registry (h : OnNew E D oldNk newNk R s) (hs : SameButRegistry s t)
    (hr : WrapHolds E.toPrimitives newNk t) : OnNew E D oldNk newNk R t := by
  obtain ⟨htree, -, d, hks⟩ := hs
  refine ⟨hr, by rw [hks]; exact h.manifest, by rw [htree]; exact h.tree, by rw [hks]; exact h.users, ?_⟩
  rw [hks]
  exact h.journal

/-! ## The unlock -/

theorem unlockRegistry_spec {r : Devices.DeviceRegistryFile} (hr : s.keystore.devices = some (.ok r)) :
    Spec (fun u => u = s) (unlockRegistry E H S)
      (fun out u => SameButRegistry s u ∧ Devices.Keeps r u.keystore.devices ∧ Devices.OutcomeOf E.toPrimitives r out)
      (fun _ u => SameButRegistry s u ∧ Devices.Keeps r u.keystore.devices)
      (fun u => SameButRegistry s u ∧ Devices.Keeps r u.keystore.devices) := by
  have hdisk : Spec (fun ks => ks = s.keystore)
      (Prog.zoom (·.devices) (fun d ks => { ks with devices := d }) (Devices.unlock E.toPrimitives H S.devices))
      (fun out ks => (∃ d, ks = { s.keystore with devices := d } ∧ Devices.Keeps r d) ∧ Devices.OutcomeOf E.toPrimitives r out)
      (fun _ ks => ∃ d, ks = { s.keystore with devices := d } ∧ Devices.Keeps r d)
      (fun ks => ∃ d, ks = { s.keystore with devices := d } ∧ Devices.Keeps r d) :=
    Spec.zoom s.keystore rfl Devices.unlock_spec hr (fun out d h => ⟨⟨d, rfl, h.1⟩, h.2⟩) (fun _ d h => ⟨d, rfl, h⟩)
      fun d h => ⟨d, rfl, h⟩
  have hkeep : ∀ ks, (∃ d, ks = { s.keystore with devices := d } ∧ Devices.Keeps r d) →
      SameButRegistry s { s with keystore := ks } ∧ Devices.Keeps r ks.devices := by
    rintro ks ⟨d, rfl, hd⟩
    exact ⟨⟨rfl, rfl, d, rfl⟩, hd⟩
  refine Spec.bind (R := fun out u => SameButRegistry s u ∧ Devices.Keeps r u.keystore.devices ∧
    Devices.OutcomeOf E.toPrimitives r out) (Spec.mapError (Spec.zoom (F := fun _ u => SameButRegistry s u ∧
      Devices.Keeps r u.keystore.devices) s rfl hdisk rfl (fun out ks h => ?_) (fun _ ks h => hkeep ks h) fun ks h => hkeep ks h)
      fun _ _ h => h) fun out => ?_
  · obtain ⟨h1, h2⟩ := hkeep ks h.1
    exact ⟨h1, h2, h.2⟩
  · split_ifs
    · exact Spec.pure _ (fun _ h => h) fun _ h => ⟨h.1, h.2.1⟩
    · exact Spec.throw (fun _ h => ⟨h.1, h.2.1⟩) fun _ h => ⟨h.1, h.2.1⟩

/-! ## The migration and the seal -/

/-- `OnOld` at every crash point of the migration -/
theorem OnOld.of_migration (h : OnOld E bs T₀ W D oldNk newNk R s)
    (hp : Phase E.toPrimitives oldNk newNk (fun l => l = bs) (fun l => l = []) W D t)
    (hk : SameButUsers { s.keystore with journal := some (.ok (journalOf E.toPrimitives oldNk newNk)) } t.keystore)
    (hu : UsersHold E.toPrimitives oldNk newNk R t.keystore.users) : OnOld E bs T₀ W D oldNk newNk R t := by
  obtain ⟨r, hr, hopens⟩ := h.registry
  refine ⟨⟨r, by rw [hk.devices]; exact hr, hopens⟩, ?_, ?_, hp, hu, Or.inl hk.journal⟩
  · unfold ManifestFit
    rw [hk.legacyPubkey, hk.manifest]
    exact h.manifest
  · unfold Verifies
    rw [hk.manifest]
    exact h.verifier

/-- sealing the new key: one effect -/
theorem rewriteRegistry_apply {out : Devices.UnlockOutcome} (hvalid : Devices.validate out.registry = .ok ()) (u : Node) :
    rewriteRegistry E H S out newNk u = ([{ u with keystore := { u.keystore with devices := some (.ok
      (Devices.resealed E.toPrimitives H S.devices out.registry out.registryMasterKey newNk)) } }], .ok ()) := by
  unfold rewriteRegistry
  rw [Devices.rewriteNkWrap_eq hvalid]
  rfl

/-- what a run that had to migrate leaves in the registry -/
def Resealed (E : Env) (H : Devices.Hashes) (S : Surroundings) (out : Devices.UnlockOutcome) (newNk : Bytes) (s : Node) : Prop :=
  s.keystore.devices =
    some (.ok (Devices.resealed E.toPrimitives H S.devices out.registry out.registryMasterKey newNk))

theorem rotateFrom_spec (hw : Resumable walk (fun l => l = bs) (fun l => l = []) W D) (hk : KeysApart E.toPrimitives oldNk newNk)
    {out : Devices.UnlockOutcome} (hout : out.nodeKey = oldNk) (hvalid : Devices.validate out.registry = .ok ())
    (hs : OnOld E bs T₀ W D oldNk newNk R s)
    (hj : s.keystore.journal = some (.ok (journalOf E.toPrimitives oldNk newNk))) :
    Spec (fun u => u = s) (rotateFrom E H walk S out newNk)
      (fun _ u => (OnNew E D oldNk newNk R u ∧ u.keystore.journal = some (.ok (journalOf E.toPrimitives oldNk newNk))) ∧
        Resealed E H S out newNk u)
      (fun _ _ => False) (Between E bs T₀ W D oldNk newNk R) := by
  have hks : { s.keystore with journal := some (.ok (journalOf E.toPrimitives oldNk newNk)) } = s.keystore := by rw [← hj]
  unfold rotateFrom
  rw [hout]
  refine Spec.bind ((migrate_spec hw rfl (fun h => absurd h.symm hk.indexes) S s.keystore R).conseq ?_ (fun _ _ h => h)
    (fun _ _ h => h) ?_) fun _ => Spec.of_states ?_
  · rintro u rfl
    exact ⟨hs.phase, ⟨rfl, rfl, rfl, rfl⟩, hs.users⟩
  · rintro u ⟨hp, hsame, hu⟩
    exact Or.inl (hs.of_migration hp (by rw [hks]; exact hsame) hu)
  · rintro u ⟨hp, hD, hsame, husers⟩
    have hu := hs.of_migration hp (by rw [hks]; exact hsame) (by rw [husers]; exact usersHold_new R)
    have hJ : u.keystore.journal = some (.ok (journalOf E.toPrimitives oldNk newNk)) := by rw [← hj]; exact hsame.journal
    have hnew : OnNew E D oldNk newNk R { u with keystore := { u.keystore with devices := some (.ok
        (Devices.resealed E.toPrimitives H S.devices out.registry out.registryMasterKey newNk)) } } :=
      ⟨⟨_, rfl, _, Devices.openNk_resealed hk.length⟩, hu.manifest, hD, husers, Or.inl hJ⟩
    refine Spec.of_apply ?_
    rintro v rfl
    refine ⟨Or.inl hu, _, _, rewriteRegistry_apply hvalid v, ?_, ?_, ?_⟩
    · intro w hw'
      rw [List.mem_singleton.1 hw']
      exact Or.inr hnew
    · intro _ _
      exact ⟨⟨hnew, hJ⟩, rfl⟩
    · intro e he
      cases he

/-- the end of a run, once `nk_wrap` holds the new key -/
theorem finish_complete (hs : OnNew E D oldNk newNk R s)
    (hj : s.keystore.journal = some (.ok (journalOf E.toPrimitives oldNk newNk))) :
    Spec (fun u => u = s) (finish E newNk)
      (fun _ u => Complete E D newNk u ∧ u.keystore.devices = s.keystore.devices) (fun _ _ => False)
      (Between E bs T₀ W D oldNk newNk R) := by
  obtain ⟨hpub, m, v, hm, hver, -⟩ := id hs.manifest
  have hfit : ∀ j, ManifestFit { flipped E.toPrimitives newNk m s.keystore with journal := j } :=
    fun j => ⟨hpub, _, _, rfl, hver, Base64.decode_encode _⟩
  have hverifies := flipped_verifies E.toPrimitives newNk m s.keystore
  refine Spec.of_apply ?_
  rintro u rfl
  refine ⟨Or.inr hs, _, _, finish_apply hm, ?_, ?_, ?_⟩
  · intro w hw
    rcases List.mem_cons.1 hw with rfl | hw
    · exact Or.inr ⟨hs.registry, hfit u.keystore.journal, hs.tree, hs.users, Or.inl hj⟩
    · rw [List.mem_singleton.1 hw]
      exact Or.inr ⟨hs.registry, hfit none, hs.tree, hs.users, Or.inr ⟨rfl, hverifies⟩⟩
  · intro _ _
    exact ⟨⟨hs.registry, ⟨rfl, hverifies, R, hs.users⟩, hs.tree⟩, rfl⟩
  · intro e he
    cases he

/-! ## Runs -/

/-- a run from its unlock on -/
def afterUnlock (E : Env) (H : Devices.Hashes) (walk : Walk) (S : Surroundings) (newNk : Bytes) (j : Option RotationJournal)
    (out : Devices.UnlockOutcome) : Prog Node String Unit := do
  resume E H walk S j out newNk
  finish E newNk

theorem runWith_eq : runWith E H walk S (.ok newNk) =
    readJournal >>= fun j => unlockRegistry E H S >>= fun out => afterUnlock E H walk S newNk j out := rfl

/-- with the old key recovered: the rotation is begun or resumed, and completed -/
theorem afterUnlock_old (hw : Resumable walk (fun l => l = bs) (fun l => l = []) W D) (hk : KeysApart E.toPrimitives oldNk newNk)
    {out : Devices.UnlockOutcome} (hout : out.nodeKey = oldNk) (hvalid : Devices.validate out.registry = .ok ())
    (hs : OnOld E bs T₀ W D oldNk newNk R s) {j : Option RotationJournal} (hj : readRotationJournal s.keystore = .ok j) :
    Spec (fun u => u = s) (afterUnlock E H walk S newNk j out)
      (fun _ u => Complete E D newNk u ∧ Resealed E H S out newNk u) (fun _ _ => False)
      (Between E bs T₀ W D oldNk newNk R) := by
  refine Spec.bind (R := fun _ u => (OnNew E D oldNk newNk R u ∧
    u.keystore.journal = some (.ok (journalOf E.toPrimitives oldNk newNk))) ∧ Resealed E H S out newNk u) ?_ fun _ =>
      Spec.of_states fun u hu => (finish_complete hu.1.1 hu.1.2).conseq (fun _ h => h)
        (fun _ v hv => ⟨hv.1, hv.2.trans hu.2⟩) (fun _ _ h => h) fun _ h => h
  have hguard : Spec (fun u => u = s) (verifyOld E oldNk) (fun _ u => u = s) (fun _ _ => False)
      (Between E bs T₀ W D oldNk newNk R) :=
    (Spec.of_silent (verifyOld_apply hs.manifest hs.verifier) (Or.inl hs)).conseq (fun _ h => h) (fun _ _ h => h.2)
      (fun _ _ h => h) fun _ h => h
  rcases hs.journal with hJ | ⟨hJ, htree, hopen⟩
  · -- the journal is there: this run resumes the interrupted one
    have hread : j = some (journalOf E.toPrimitives oldNk newNk) := by
      unfold readRotationJournal at hj
      rw [hJ] at hj
      exact (Except.ok.inj hj).symm
    have hres : resume E H walk S j out newNk = verifyOld E oldNk >>= fun _ => rotateFrom E H walk S out newNk := by
      unfold resume
      rw [hread]
      simp only [journalOf, hout, ne_eq, not_true_eq_false, if_false, if_true]
    rw [hres]
    exact Spec.bind hguard fun _ => rotateFrom_spec hw hk hout hvalid hs hJ
  · -- a new rotation
    have hread : j = none := by
      unfold readRotationJournal at hj
      rw [hJ] at hj
      exact (Except.ok.inj hj).symm
    have hne : Base64.encode (deriveNodeKeyVerifier E.toPrimitives oldNk) ≠
        Base64.encode (deriveNodeKeyVerifier E.toPrimitives newNk) := fun h => hk.verifiers (Base64.encode_injective h)
    have hres : resume E H walk S j out newNk = verifyOld E oldNk >>= fun _ => writeJournal E oldNk newNk >>= fun _ =>
        rotateFrom E H walk S out newNk := by
      unfold resume
      rw [hread]
      simp only [hout, if_neg hne]
    rw [hres]
    have hwrite : writeJournal E oldNk newNk s =
        ([{ s with keystore := { s.keystore with journal := some (.ok (journalOf E.toPrimitives oldNk newNk)) } }], .ok ()) := by
      have hks : writeRotationJournal E.toPrimitives oldNk newNk s.keystore =
          ([{ s.keystore with journal := some (.ok (journalOf E.toPrimitives oldNk newNk)) }], .ok ()) := by
        unfold writeRotationJournal
        rw [Prog.get_bind_apply, hJ]
        rfl
      simp only [writeJournal, context, onKeystore, Prog.mapError, Prog.zoom, hks]
      rfl
    have hbegun : OnOld E bs T₀ W D oldNk newNk R
        { s with keystore := { s.keystore with journal := some (.ok (journalOf E.toPrimitives oldNk newNk)) } } :=
      hs.of_migration (hs.phase.congr rfl (fun _ => rfl) rfl) ⟨rfl, rfl, rfl, rfl⟩ hs.users
    refine Spec.bind hguard fun _ => Spec.bind (R := fun _ u =>
      u = { s with keystore := { s.keystore with journal := some (.ok (journalOf E.toPrimitives oldNk newNk)) } })
      (Spec.of_apply ?_) fun _ => rotateFrom_spec hw hk hout hvalid hbegun rfl
    rintro u rfl
    refine ⟨Or.inl hs, _, _, hwrite, ?_, ?_, ?_⟩
    · intro v hv
      rw [List.mem_singleton.1 hv]
      exact Or.inl hbegun
    · intro _ _
      rfl
    · intro e he
      cases he

/-- with the new key recovered and the journal there: only the end is left -/
theorem afterUnlock_new (hk : KeysApart E.toPrimitives oldNk newNk) {out : Devices.UnlockOutcome} (hout : out.nodeKey = newNk)
    (hs : OnNew E D oldNk newNk R s) (hJ : s.keystore.journal = some (.ok (journalOf E.toPrimitives oldNk newNk))) :
    Spec (fun u => u = s) (afterUnlock E H walk S newNk (some (journalOf E.toPrimitives oldNk newNk)) out)
      (fun _ u => Complete E D newNk u) (fun _ _ => False) (Between E bs T₀ W D oldNk newNk R) := by
  have hne : Base64.encode (deriveNodeKeyVerifier E.toPrimitives newNk) ≠
      Base64.encode (deriveNodeKeyVerifier E.toPrimitives oldNk) := fun h => hk.verifiers (Base64.encode_injective h).symm
  have hres : resume E H walk S (some (journalOf E.toPrimitives oldNk newNk)) out newNk = pure () := by
    unfold resume
    simp only [journalOf, hout, ne_eq, not_true_eq_false, if_false, if_neg hne]
  unfold afterUnlock
  rw [hres]
  exact Spec.bind (R := fun _ u => u = s) (Spec.pure _ (fun _ h => h) fun u hu => by rw [hu]; exact Or.inr hs)
    fun _ => (finish_complete hs hJ).conseq (fun _ h => h) (fun _ _ h => h.1) (fun _ _ h => h) fun _ h => h

/-- a complete rotation is not run again -/
theorem afterUnlock_complete {out : Devices.UnlockOutcome} (hout : out.nodeKey = newNk) (u : Node) :
    afterUnlock E H walk S newNk none out u = ([], .error SAME_KEY_MESSAGE) := by
  have hres : resume E H walk S none out newNk = Prog.throw SAME_KEY_MESSAGE := by
    unfold resume
    simp only [hout, if_true]
  unfold afterUnlock
  rw [hres]
  rfl

theorem Between.registry (h : Between E bs T₀ W D oldNk newNk R s) : ∃ r, s.keystore.devices = some (.ok r) := by
  rcases h with h | h
  · obtain ⟨r, hr, -⟩ := h.registry
    exact ⟨r, hr⟩
  · obtain ⟨r, hr, -⟩ := h.registry
    exact ⟨r, hr⟩

/-- the journal can be read in every state of the rotation -/
theorem Between.readJournal (h : Between E bs T₀ W D oldNk newNk R s) :
    ∃ j, readRotationJournal s.keystore = .ok j ∧ NodeKeyRotation.readJournal s = ([], .ok j) := by
  have hread : ∃ j, readRotationJournal s.keystore = .ok j := by
    unfold readRotationJournal
    rcases h with h | h
    · rcases h.journal with hj | ⟨hj, -⟩
      · exact ⟨_, by rw [hj]⟩
      · exact ⟨_, by rw [hj]⟩
    · rcases h.journal with hj | ⟨hj, -⟩
      · exact ⟨_, by rw [hj]⟩
      · exact ⟨_, by rw [hj]⟩
  obtain ⟨j, hj⟩ := hread
  refine ⟨j, hj, ?_⟩
  unfold NodeKeyRotation.readJournal
  rw [Prog.get_bind_apply, hj]
  rfl

/-- an unlock, refused, granted or cut short, leaves the rotation where it is -/
theorem Between.unlocked {r : Devices.DeviceRegistryFile} (h : Between E bs T₀ W D oldNk newNk R s)
    (hr : s.keystore.devices = some (.ok r)) (hs : SameButRegistry s t) (hk : Devices.Keeps r t.keystore.devices) :
    Between E bs T₀ W D oldNk newNk R t := by
  rcases h with h | h
  · obtain ⟨r', hr', hopens⟩ := h.registry
    cases hr.symm.trans hr'
    exact Or.inl (h.of_registry hs (.keeps hopens hk))
  · obtain ⟨r', hr', hopens⟩ := h.registry
    cases hr.symm.trans hr'
    exact Or.inr (h.of_registry hs (.keeps hopens hk))

/-- what is left of a run once its unlock is granted -/
theorem afterUnlock_spec (hw : Resumable walk (fun l => l = bs) (fun l => l = []) W D) (hk : KeysApart E.toPrimitives oldNk newNk)
    (h : Between E bs T₀ W D oldNk newNk R s) {r : Devices.DeviceRegistryFile} (hr : s.keystore.devices = some (.ok r))
    {j : Option RotationJournal} (hj : readRotationJournal s.keystore = .ok j) {out : Devices.UnlockOutcome}
    (hout : Devices.OutcomeOf E.toPrimitives r out) (hs : SameButRegistry s t) (hkeep : Devices.Keeps r t.keystore.devices) :
    Spec (fun u => u = t) (afterUnlock E H walk S newNk j out) (fun _ u => Complete E D newNk u)
      (fun e u => e = SAME_KEY_MESSAGE ∧ u = t ∧ WrapHolds E.toPrimitives newNk s ∧ s.keystore.journal = none)
      (Between E bs T₀ W D oldNk newNk R) := by
  have ht := h.unlocked hr hs hkeep
  have hjt : readRotationJournal t.keystore = .ok j := by
    obtain ⟨-, -, d, hd⟩ := hs
    rw [hd]
    exact hj
  rcases h with h | h
  · obtain ⟨r', hr', hopens⟩ := h.registry
    cases hr.symm.trans hr'
    exact (afterUnlock_old hw hk (Devices.openNk_unique hk.wraps hout.key hopens) hout.valid
      (h.of_registry hs (.keeps hopens hkeep)) hjt).conseq (fun _ h => h) (fun _ _ h => h.1) (fun _ _ h => h.elim) fun _ h => h
  · obtain ⟨r', hr', hopens⟩ := h.registry
    cases hr.symm.trans hr'
    have hnew := Devices.openNk_unique hk.wraps hout.key hopens
    have htnew := h.of_registry hs (.keeps hopens hkeep)
    rcases h.journal with hJ | ⟨hJ, -⟩
    · have hread : j = some (journalOf E.toPrimitives oldNk newNk) := by
        unfold readRotationJournal at hj
        rw [hJ] at hj
        exact (Except.ok.inj hj).symm
      have hJt : t.keystore.journal = some (.ok (journalOf E.toPrimitives oldNk newNk)) := by
        obtain ⟨-, -, d, hd⟩ := hs
        rw [hd]
        exact hJ
      rw [hread]
      exact (afterUnlock_new hk hnew htnew hJt).conseq (fun _ h => h) (fun _ _ h => h) (fun _ _ h => h.elim) fun _ h => h
    · have hread : j = none := by
        unfold readRotationJournal at hj
        rw [hJ] at hj
        exact (Except.ok.inj hj).symm
      rw [hread]
      refine Spec.of_apply ?_
      rintro u rfl
      refine ⟨ht, [], _, afterUnlock_complete hnew u, ?_, ?_, ?_⟩
      · intro v hv
        cases hv
      · intro a ha
        cases ha
      · intro e he
        cases he
        exact ⟨rfl, rfl, h.registry, hJ⟩

/-- **Every state of a run, and every state it leaves, is one of the rotation.** -/
theorem runWith_spec (hw : Resumable walk (fun l => l = bs) (fun l => l = []) W D) (hk : KeysApart E.toPrimitives oldNk newNk)
    (S : Surroundings) :
    Spec (Between E bs T₀ W D oldNk newNk R) (runWith E H walk S (.ok newNk)) (fun _ _ => True) (fun _ _ => True)
      (Between E bs T₀ W D oldNk newNk R) := by
  refine Spec.of_states fun s hs => ?_
  obtain ⟨r, hr⟩ := hs.registry
  obtain ⟨j, hj, hread⟩ := hs.readJournal
  rw [runWith_eq]
  refine Spec.bind (R := fun j' u => j' = j ∧ u = s) ((Spec.of_silent hread hs).conseq (fun _ h => h) (fun _ _ h => h)
    (fun _ _ h => h.elim) fun _ h => h) fun j' => Spec.of_states ?_
  rintro u ⟨rfl, rfl⟩
  refine Spec.bind ((unlockRegistry_spec hr).conseq (fun _ h => h) (fun _ _ h => h) (fun _ _ _ => trivial)
    fun v hv => hs.unlocked hr hv.1 hv.2) fun out => Spec.of_states ?_
  rintro v ⟨hsame, hkeep, hout⟩
  exact (afterUnlock_spec hw hk hs hr hj hout hsame hkeep).conseq (fun _ h => h) (fun _ _ _ => trivial)
    (fun _ _ _ => trivial) fun _ h => h

/-- a run whose unlock is granted completes the rotation, or finds it complete -/
theorem runWith_granted (hw : Resumable walk (fun l => l = bs) (fun l => l = []) W D) (hk : KeysApart E.toPrimitives oldNk newNk)
    (hs : Between E bs T₀ W D oldNk newNk R s) {out : Devices.UnlockOutcome} (hout : (unlockRegistry E H S).result s = .ok out) :
    ((runWith E H walk S (.ok newNk)).result s = .ok () ∧ Complete E D newNk ((runWith E H walk S (.ok newNk)).final s)) ∨
      (WrapHolds E.toPrimitives newNk s ∧ s.keystore.journal = none ∧
        (runWith E H walk S (.ok newNk)).result s = .error SAME_KEY_MESSAGE ∧
        SameButRegistry s ((runWith E H walk S (.ok newNk)).final s)) := by
  obtain ⟨r, hr⟩ := hs.registry
  obtain ⟨j, hj, hread⟩ := hs.readJournal
  have hres : NodeKeyRotation.readJournal.result s = .ok j := by
    unfold Prog.result
    rw [hread]
  have hfin : NodeKeyRotation.readJournal.final s = s := by
    unfold Prog.final
    rw [hread]
    rfl
  obtain ⟨hsame, hkeep, hopened⟩ := (unlockRegistry_spec hr s rfl).2.1 out hout
  obtain ⟨-, hok, herr⟩ := afterUnlock_spec (H := H) (S := S) hw hk hs hr hj hopened hsame hkeep _ rfl
  have hresult : (runWith E H walk S (.ok newNk)).result s =
      (afterUnlock E H walk S newNk j out).result ((unlockRegistry E H S).final s) := by
    rw [runWith_eq, Prog.result_bind_ok hres, hfin, Prog.result_bind_ok hout]
  have hfinal : (runWith E H walk S (.ok newNk)).final s =
      (afterUnlock E H walk S newNk j out).final ((unlockRegistry E H S).final s) := by
    rw [runWith_eq, Prog.final_bind_ok hres, hfin, Prog.final_bind_ok hout]
  rw [hresult, hfinal]
  cases hr' : (afterUnlock E H walk S newNk j out).result ((unlockRegistry E H S).final s) with
  | ok a => exact Or.inl ⟨rfl, hok a hr'⟩
  | error e =>
    obtain ⟨rfl, hu, hwrap, hjn⟩ := herr e hr'
    refine Or.inr ⟨hwrap, hjn, rfl, ?_⟩
    rw [hu]
    exact hsame

/-- **The key the data needs is never lost.** In every state that interrupted runs with one new key can leave: each item and
the user store open under the key in `nk_wrap`, or under the new key with the journal there; `nk_wrap` holds the old key as
long as anything does not open under the new one; and a further run whose unlock is granted completes the rotation, or finds
it complete and refuses, leaving all but the unlock's own bookkeeping as it was. -/
theorem never_loses_the_key (hw : Resumable walk (fun l => l = bs) (fun l => l = []) W D)
    (hk : KeysApart E.toPrimitives oldNk newNk) {items : Item → Prop}
    (hW : ∀ t, W t → ∀ i, items i → HeldUnder E.toPrimitives oldNk t i ∨ HeldUnder E.toPrimitives newNk t i)
    (hD : ∀ t, D t → ∀ i, items i → HeldUnder E.toPrimitives newNk t i)
    (h₀ : ∀ i, items i → HeldUnder E.toPrimitives oldNk T₀ i) {s₀ : Node} (hs₀ : Between E bs T₀ W D oldNk newNk R s₀)
    (h : Crashes (fun S => runWith E H walk S (.ok newNk)) s₀ s) :
    (∃ nk, WrapHolds E.toPrimitives nk s ∧
      (∀ i, items i → HeldUnder E.toPrimitives nk s.tree i ∨
        HeldUnder E.toPrimitives newNk s.tree i ∧ s.keystore.journal ≠ none) ∧
      (UsersOpen E.toPrimitives nk R s ∨ UsersOpen E.toPrimitives newNk R s ∧ s.keystore.journal ≠ none)) ∧
    ((∃ i, items i ∧ ¬ HeldUnder E.toPrimitives newNk s.tree i) ∨ ¬ UsersOpen E.toPrimitives newNk R s →
      WrapHolds E.toPrimitives oldNk s) ∧
    ∀ S out, (unlockRegistry E H S).result s = .ok out →
      ((runWith E H walk S (.ok newNk)).result s = .ok () ∧ Complete E D newNk ((runWith E H walk S (.ok newNk)).final s)) ∨
      (WrapHolds E.toPrimitives newNk s ∧ s.keystore.journal = none ∧
        (runWith E H walk S (.ok newNk)).result s = .error SAME_KEY_MESSAGE ∧
        SameButRegistry s ((runWith E H walk S (.ok newNk)).final s)) := by
  have hs : Between E bs T₀ W D oldNk newNk R s :=
    Crashes.inv (fun S t t' ht hc => (runWith_spec hw hk S t ht).1 t' hc) hs₀ h
  refine ⟨?_, ?_, fun S out hout => runWith_granted hw hk hs hout⟩
  · rcases hs with hs | hs
    · refine ⟨oldNk, hs.registry, ?_⟩
      rcases hs.journal with hJ | ⟨hJ, htree, hopen⟩
      · have hsome : s.keystore.journal ≠ none := by rw [hJ]; exact Option.some_ne_none _
        have htree : W s.tree := by
          rcases hs.phase with ⟨-, -, -, hW⟩ | ⟨-, -, hD⟩
          · exact hW
          · exact hw.le _ hD
        refine ⟨fun i hi => (hW _ htree i hi).imp_right fun h => ⟨h, hsome⟩, hs.users.imp_right fun h => ⟨?_, hsome⟩⟩
        unfold UsersOpen
        rw [h]
        exact if_pos rfl
      · rw [htree]
        exact ⟨fun i hi => Or.inl (h₀ i hi), Or.inl hopen⟩
    · refine ⟨newNk, hs.registry, fun i hi => Or.inl (hD _ hs.tree i hi), Or.inl ?_⟩
      unfold UsersOpen
      rw [hs.users]
      exact if_pos rfl
  · intro hold
    rcases hs with hs | hs
    · exact hs.registry
    · rcases hold with ⟨i, hi, hn⟩ | hn
      · exact absurd (hD _ hs.tree i hi) hn
      · refine absurd ?_ hn
        unfold UsersOpen
        rw [hs.users]
        exact if_pos rfl

/-! ## The real walk on configs -/

section Configs

open Rotation

variable {T t : Tree} {b : String} {d₀ : BucketDir} {c plain : Bytes}

theorem heldUnder_moved {dir : String} {d : BucketDir} (hd : t.lookup dir = some d)
    (hm : ConfigMoved E (rotationKeys E.toPrimitives oldNk newNk) b (some c) d.config)
    (hdec : decryptMeta E.toPrimitives (deriveBucketConfigKey E.toPrimitives oldNk) c
      (encodeBucketDir E.toPrimitives (derivePathKey E.toPrimitives oldNk) b) = .ok plain) :
    HeldUnder E.toPrimitives newNk t (.config b plain) := by
  rcases hm with ⟨hnone, -⟩ | ⟨old, plain', n, new, hold, hnew, hdec', henc⟩
  · cases hnone
  · cases hold
    have hplain : plain' = plain := Except.ok.inj (hdec'.symm.trans hdec)
    rw [hplain] at henc
    exact ⟨dir, d, new, hd, hnew, decryptMeta_encryptMeta henc⟩

/-- a config of the start tree stays readable under one of the two keys -/
theorem config_held (hi : TreeInv E (rotationKeys E.toPrimitives oldNk newNk) bs T t) (hb : b ∈ bs)
    (hd₀ : T.lookup (oldDir E (rotationKeys E.toPrimitives oldNk newNk) b) = some d₀) (hc : d₀.config = some c)
    (hdec : decryptMeta E.toPrimitives (deriveBucketConfigKey E.toPrimitives oldNk) c
      (encodeBucketDir E.toPrimitives (derivePathKey E.toPrimitives oldNk) b) = .ok plain) :
    HeldUnder E.toPrimitives oldNk t (.config b plain) ∨ HeldUnder E.toPrimitives newNk t (.config b plain) := by
  rcases hi.bucket b hb with ⟨-, ⟨hnone, -⟩ | ⟨d₀', d, hd₀', hd, hdone⟩⟩ | ⟨d₀', d, hd₀', hd, -, hinv⟩
  · rw [hd₀] at hnone
    cases hnone
  · cases hd₀.symm.trans hd₀'
    have hm := hdone.sealed
    rw [hc] at hm
    exact Or.inr (heldUnder_moved hd hm hdec)
  · cases hd₀.symm.trans hd₀'
    rcases hinv.config with hsame | hm
    · exact Or.inl ⟨_, d, c, hd, by rw [hsame, hc], hdec⟩
    · rw [hc] at hm
      exact Or.inr (heldUnder_moved hd hm hdec)

/-- and under the new one once its bucket is done -/
theorem config_held_done (hb : BucketDone E (rotationKeys E.toPrimitives oldNk newNk) T t b)
    (hd₀ : T.lookup (oldDir E (rotationKeys E.toPrimitives oldNk newNk) b) = some d₀) (hc : d₀.config = some c)
    (hdec : decryptMeta E.toPrimitives (deriveBucketConfigKey E.toPrimitives oldNk) c
      (encodeBucketDir E.toPrimitives (derivePathKey E.toPrimitives oldNk) b) = .ok plain) :
    HeldUnder E.toPrimitives newNk t (.config b plain) := by
  obtain ⟨-, ⟨hnone, -⟩ | ⟨d₀', d, hd₀', hd, hdone⟩⟩ := hb
  · rw [hd₀] at hnone
    cases hnone
  · cases hd₀.symm.trans hd₀'
    have hm := hdone.sealed
    rw [hc] at hm
    exact heldUnder_moved hd hm hdec

end Configs

/-! ## An instance -/

section Instance

open Rotation Devices

def oldKey : Bytes := List.replicate 32 1
def newKey : Bytes := List.replicate 32 2
def sampleRmk : Bytes := List.replicate 32 9
def sampleEsc : Bytes := List.replicate 32 0
def zeroNonce : Nonce := ⟨List.replicate 12 0, length_zeroNonce⟩

/-- a home device without a second factor -/
def homeRecord (wrap : Option Wrap) : DeviceRecord :=
  ⟨"00000000000000000000000000000000", "h", .tpm2, 0, wrap, none, some ⟨"", "", [], ""⟩, none, none, none, none⟩

def homeWrap : Wrap :=
  wrapSecret sampleEnv.toPrimitives (deriveDeviceKek sampleEnv.toPrimitives (List.replicate 32 5) (homeRecord none).idBytes)
    sampleRmk (recordWrapAad (homeRecord none) sampleEsc) zeroNonce

/-- one home device, every emergency code used up; the seal and the MAC are to be filled in -/
def blankRegistry : DeviceRegistryFile :=
  ⟨DEVICES_FORMAT_VERSION, Base64.encode sampleEsc, 60, false, ⟨"", ""⟩, Base64.encode sampleEsc, [homeRecord (some homeWrap)],
    (List.range 10).map fun i => ⟨UInt8.ofNat i, none, some 0⟩⟩

def sampleRegistry (nk : Bytes) : DeviceRegistryFile :=
  authenticate sampleEnv.toPrimitives sampleHashes (deriveStateKey sampleEnv.toPrimitives sampleRmk) { blankRegistry with
    nkWrap := wrapSecret sampleEnv.toPrimitives (nkWrapKey sampleEnv.toPrimitives sampleRmk) nk (nkWrapAad sampleEsc 60)
      zeroNonce }

/-- the TPM gives its secret; there is no emergency code and no attested time -/
noncomputable def homeSurroundings : Surroundings :=
  { sampleSurroundings with
    devices := ⟨.ok none, fun _ => .ok (List.replicate 32 5), fun _ => .error (.keystoreIo "no terminal"),
      fun _ _ => .error (.keystoreIo "no device"), .error (.keystoreIo "no time"), 0, fun _ => zeroNonce, zeroNonce⟩ }

theorem sampleRegistry_esc (nk : Bytes) : (sampleRegistry nk).esc = sampleEsc := by
  unfold DeviceRegistryFile.esc
  rw [show (sampleRegistry nk).escB64 = Base64.encode sampleEsc from rfl, Base64.decode_encode]
  rfl

theorem decodes32_encode {b : Bytes} (h : b.length = 32) : decodes32 (Base64.encode b) = true := by
  simp [decodes32, h]

theorem blankRegistry_checks : check blankRegistry = .ok () := by
  rw [check_ok_iff]
  exact List.all_eq_true.1 (show (checks blankRegistry).all (fun c => c.1) = true by decide +kernel)

theorem blankRegistry_valid : Valid blankRegistry where
  filled := by
    unfold fillDerived
    rw [show decodes32 blankRegistry.escB64 = true from decodes32_encode rfl]
    rfl
  checked := blankRegistry_checks

theorem sampleRegistry_valid (nk : Bytes) : validate (sampleRegistry nk) = .ok () := validate_sealed blankRegistry_valid _ _

theorem sampleRegistry_opens {nk : Bytes} (hnk : nk.length = 32) :
    openNk sampleEnv.toPrimitives (sampleRegistry nk) sampleRmk = .ok nk := by
  rw [openNk_eq_ok, sampleRegistry_esc]
  exact unwrapSecret_wrapSecret _ _ hnk

/-- the outcome of an unlock by the home device -/
def sampleOutcome (nk : Bytes) : UnlockOutcome :=
  finishOutcome sampleEnv.toPrimitives (sampleRegistry nk) ⟨nk, sampleRmk, 0, 0⟩
    (.home "00000000000000000000000000000000" "h")

theorem sampleOutcome_registry (nk : Bytes) : (sampleOutcome nk).registry = sampleRegistry nk := rfl

theorem sampleOutcome_masterKey (nk : Bytes) : (sampleOutcome nk).registryMasterKey = sampleRmk := rfl

theorem sample_unlock {nk : Bytes} (hnk : nk.length = 32) :
    unlock sampleEnv.toPrimitives sampleHashes homeSurroundings.devices (some (.ok (sampleRegistry nk))) =
      ([], .ok (sampleOutcome nk)) := by
  have hrmk : rmkFromPermanent sampleEnv.toPrimitives (sampleRegistry nk) (homeRecord (some homeWrap))
      (deriveDeviceKek sampleEnv.toPrimitives (List.replicate 32 5) (homeRecord (some homeWrap)).idBytes) = .ok sampleRmk := by
    unfold rmkFromPermanent
    rw [sampleRegistry_esc]
    exact unwrapSecret_wrapSecret _ _ rfl
  have hmac : verifyStateMac sampleEnv.toPrimitives sampleHashes (deriveStateKey sampleEnv.toPrimitives sampleRmk)
      (sampleRegistry nk) = .ok () := verify_authenticate _ _
  exact unlock_of_home rfl (sampleRegistry_valid nk) rfl rfl rfl
    (openHome_ok rfl rfl rfl rfl hrmk hmac (sampleRegistry_opens hnk)) rfl

/-- sealing a key into a registry with a seal and a MAC: both are replaced -/
theorem resealed_authenticate {P : Primitives} {H : Hashes} {W : Devices.Surroundings} (k : Bytes) (reg : DeviceRegistryFile)
    (w : Wrap) (rmk nk : Bytes) : resealed P H W (authenticate P H k { reg with nkWrap := w }) rmk nk =
      authenticate P H (deriveStateKey P rmk) { reg with
        nkWrap := wrapSecret P (nkWrapKey P rmk) nk (nkWrapAad reg.esc reg.awayGrantSeconds) W.nkNonce } := rfl

theorem sampleRegistry_resealed (nk nk' : Bytes) :
    resealed sampleEnv.toPrimitives sampleHashes homeSurroundings.devices (sampleRegistry nk) sampleRmk nk' = sampleRegistry nk' := by
  have hesc : blankRegistry.esc = sampleEsc := by
    unfold DeviceRegistryFile.esc
    rw [show blankRegistry.escB64 = Base64.encode sampleEsc from rfl, Base64.decode_encode]
    rfl
  unfold sampleRegistry
  rw [resealed_authenticate, hesc]
  rfl

/-- the home device is granted the key in the registry, and may rotate -/
theorem sample_granted {nk : Bytes} (hnk : nk.length = 32) {u : Node} (hu : u.keystore.devices = some (.ok (sampleRegistry nk))) :
    unlockRegistry sampleEnv sampleHashes homeSurroundings u = ([], .ok (sampleOutcome nk)) := by
  have hctx : context "device unlock: " (onDevices (unlock sampleEnv.toPrimitives sampleHashes homeSurroundings.devices)) u =
      ([], .ok (sampleOutcome nk)) := by
    simp only [context, onDevices, onKeystore, Prog.mapError, Prog.zoom, hu, sample_unlock hnk]
    rfl
  unfold unlockRegistry
  rw [Prog.bind_apply_ok hctx]
  rfl

theorem readJournal_none {u : Node} (h : u.keystore.journal = none) : NodeKeyRotation.readJournal u = ([], .ok none) := by
  have hj : readRotationJournal u.keystore = .ok none := by
    unfold readRotationJournal
    rw [h]
  unfold NodeKeyRotation.readJournal
  rw [Prog.get_bind_apply, hj]
  rfl

/-- a node on the old key with one bucket config and this registry -/
def deviceNode : Node :=
  { configNode with keystore := { configNode.keystore with devices := some (.ok (sampleRegistry oldKey)) } }

theorem sample_apart : KeysApart sampleEnv.toPrimitives oldKey newKey where
  wraps := by
    intro rmk rmk' h
    apply Aead.tagged_separates
    intro hh
    exact h (congrArg (List.replicate 32) hh)
  verifiers := by decide
  indexes := by decide
  length := rfl

theorem sample_resumable : Resumable (rotateTree sampleEnv oldKey newKey) (fun l => l = ["b"]) (fun l => l = [])
    (TreeInv sampleEnv sampleKeys ["b"] configTree)
    (fun t => TreeInv sampleEnv sampleKeys ["b"] configTree t ∧ ∀ b ∈ ["b"], BucketDone sampleEnv sampleKeys configTree t b) :=
  @rotateTree_resumable sampleEnv oldKey newKey _ _ sample_separate configTree_sound fun _ hb _ hd => configTree_bare hb hd

theorem deviceNode_onOld : OnOld sampleEnv ["b"] configTree (TreeInv sampleEnv sampleKeys ["b"] configTree)
    (fun t => TreeInv sampleEnv sampleKeys ["b"] configTree t ∧ ∀ b ∈ ["b"], BucketDone sampleEnv sampleKeys configTree t b)
    oldKey newKey ∅ deviceNode where
  registry := ⟨_, rfl, sampleRmk, sampleRegistry_opens rfl⟩
  manifest := sampleNode_rotating.manifest
  verifier := sampleNode_verifies
  phase := Or.inl ⟨⟨[], ["b"]⟩, indexAs_sealed _ _ _, listed_configNode, configTree_sound.inv⟩
  users := usersHold_old ∅
  journal := by
    refine Or.inr ⟨rfl, rfl, ?_⟩
    change opensAs .Reject _ ∅ (some (.sealed (deriveUserStoreFileKey sampleEnv.toPrimitives oldKey) ∅)) = some ∅
    unfold opensAs
    exact if_pos rfl

/-- the unlock of an undisturbed first run -/
theorem deviceNode_unlocks :
    unlockRegistry sampleEnv sampleHashes homeSurroundings deviceNode = ([], .ok (sampleOutcome oldKey)) :=
  sample_granted rfl rfl

theorem rotationKeys_sample : rotationKeys sampleEnv.toPrimitives oldKey newKey = sampleKeys := rfl

theorem configTree_dir : configTree.lookup (oldDir sampleEnv sampleKeys "b") = some ⟨some sampleConfig, none, ∅⟩ :=
  Finmap.lookup_singleton_eq

theorem sample_held {t : Tree} (ht : TreeInv sampleEnv sampleKeys ["b"] configTree t) :
    HeldUnder sampleEnv.toPrimitives oldKey t (.config "b" [7]) ∨ HeldUnder sampleEnv.toPrimitives newKey t (.config "b" [7]) := by
  have hdir := configTree_dir
  rw [← rotationKeys_sample] at ht hdir
  exact config_held ht List.mem_cons_self hdir rfl sampleConfig_opens

theorem sample_held_done {t : Tree} (ht : BucketDone sampleEnv sampleKeys configTree t "b") :
    HeldUnder sampleEnv.toPrimitives newKey t (.config "b" [7]) := by
  have hdir := configTree_dir
  rw [← rotationKeys_sample] at ht hdir
  exact config_held_done ht hdir rfl sampleConfig_opens

/-- one bucket config: a first run by the home device completes the rotation -/
theorem home_device_completes :
    (runWith sampleEnv sampleHashes (rotateTree sampleEnv oldKey newKey) homeSurroundings (.ok newKey)).result deviceNode = .ok () := by
  obtain ⟨-, -, hrun⟩ := @never_loses_the_key sampleEnv sampleHashes _ _ _ _ _ _ _ _ deviceNode sample_resumable sample_apart
    (fun i => i = .config "b" [7])
    (by rintro t ht i rfl; exact sample_held ht)
    (by rintro t ht i rfl; exact sample_held_done (ht.2 "b" List.mem_cons_self))
    (by rintro i rfl; exact ⟨_, _, _, configTree_dir, rfl, sampleConfig_opens⟩)
    _ (Or.inl deviceNode_onOld) (Crashes.refl _)
  have hout : (unlockRegistry sampleEnv sampleHashes homeSurroundings).result deviceNode = .ok (sampleOutcome oldKey) :=
    Prog.result_of_apply deviceNode_unlocks
  rcases hrun homeSurroundings _ hout with ⟨hok, -⟩ | ⟨⟨r, hr, hopens⟩, -⟩
  · exact hok
  · cases hr
    have hkeys := openNk_unique sample_apart.wraps (@sampleRegistry_opens oldKey rfl) hopens
    cases hkeys

/-- **A complete rotation is refused.** A crash after the last effect of a run leaves a state from which a further run with the
same key, unlocked by the same device, does not return `Ok`. -/
theorem complete_rotation_refused :
    ∃ s out, Crashes (fun S => runWith sampleEnv sampleHashes (rotateTree sampleEnv oldKey newKey) S (.ok newKey)) deviceNode s ∧
      (unlockRegistry sampleEnv sampleHashes homeSurroundings).result s = .ok out ∧
      (runWith sampleEnv sampleHashes (rotateTree sampleEnv oldKey newKey) homeSurroundings (.ok newKey)).result s =
        .error SAME_KEY_MESSAGE := by
  obtain ⟨-, hok, herr⟩ := @afterUnlock_old sampleEnv sampleHashes _ homeSurroundings _ _ _ _ _ _ _ _
    sample_resumable sample_apart (sampleOutcome oldKey) rfl (sampleRegistry_valid oldKey) deviceNode_onOld none rfl deviceNode rfl
  set rest := afterUnlock sampleEnv sampleHashes (rotateTree sampleEnv oldKey newKey) homeSurroundings newKey none
    (sampleOutcome oldKey) with hrest
  have hfinal : (runWith sampleEnv sampleHashes (rotateTree sampleEnv oldKey newKey) homeSurroundings (.ok newKey)).final
      deviceNode = rest.final deviceNode := by
    have hread : NodeKeyRotation.readJournal deviceNode = ([], .ok none) := readJournal_none rfl
    refine Prog.final_congr (congrArg Prod.fst ?_)
    rw [runWith_eq, Prog.bind_apply_silent hread, Prog.bind_apply_silent deviceNode_unlocks]
  obtain ⟨hdone, hsealed⟩ : Complete sampleEnv _ newKey (rest.final deviceNode) ∧ _ := by
    cases hr : rest.result deviceNode with
    | ok a => exact hok a hr
    | error e => exact (herr e hr).elim
  have hregistry : (rest.final deviceNode).keystore.devices = some (.ok (sampleRegistry newKey)) := by
    rw [hsealed, sampleOutcome_registry, sampleOutcome_masterKey, sampleRegistry_resealed]
  have hgranted := @sample_granted newKey rfl _ hregistry
  have hread := readJournal_none hdone.finished.journal
  refine ⟨rest.final deviceNode, sampleOutcome newKey, ?_, ?_, ?_⟩
  · rw [← hfinal]
    exact .tail homeSurroundings (.refl _) (Crash.final _ _)
  · exact Prog.result_of_apply hgranted
  · refine Prog.result_of_apply (t := []) ?_
    rw [runWith_eq, Prog.bind_apply_silent hread, Prog.bind_apply_silent hgranted]
    exact @afterUnlock_complete _ _ _ _ newKey _ rfl _

end Instance

end Y2q.NodeKeyRotation
