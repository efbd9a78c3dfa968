/-
Operator-mode rotation (`run` without a device registry) over any number of crashes.

The entry guard compares the operator's old key with the keystore verifier, and `finish` flips that verifier before it
deletes the journal. So a run can be resumed from every crash point but one: with the verifier flipped and the journal still
there every further run is refused at the guard, and the daemon does not boot while the journal exists.

- `run_resumes`: from every other crash state a run cannot fail and finishes the rotation.
- `run_refused`: at that one it fails before its first effect.
- `resumes_iff_old_key_verifies`: which of the two it is, for every state any number of interrupted runs can leave.
-/
import Mathlib.Tactic
import Y2q.Daemon.Migration

namespace Y2q.NodeKeyRotation

open CrashLogic NodeKeys Keystore Index EncryptedBackend

variable {E : Env} {H : Devices.Hashes} {walk : Walk} {oldNk newNk : Bytes} {s : Node} {W : Tree → Prop}
variable {A B : List String → Prop} {D : Tree → Prop}

/-- a rotation that is done -/
structure Finished (P : Primitives) (newNk : Bytes) (s : Node) : Prop where
  journal : s.keystore.journal = none
  verifier : Verifies P newNk s.keystore
  users : SealedUnder (deriveUserStoreFileKey P newNk) s.keystore.users

/-- the walk is resumable from every tree in `W`, whatever list it is given -/
def Restartable (walk : Walk) (W : Tree → Prop) : Prop :=
  ∀ S bs, Spec W (walk S bs) (fun _ => W) (fun _ _ => False) W

theorem Restartable.resumable (h : Restartable walk W) : Resumable walk (fun _ => True) (fun _ => True) W W :=
  ⟨fun S bs _ => h S bs, fun S bs _ => h S bs, fun _ ht => ht⟩

/-- a node without a registry whose rotation from `oldNk` to `newNk` has not begun or was interrupted anywhere -/
structure Rotating (E : Env) (A B : List String → Prop) (W D : Tree → Prop) (oldNk newNk : Bytes) (s : Node) : Prop where
  operator : s.keystore.devices = none
  manifest : ManifestFit s.keystore
  journal : s.keystore.journal = none ∨ s.keystore.journal = some (.ok (journalOf E.toPrimitives oldNk newNk))
  users : ∃ R, UsersHold E.toPrimitives oldNk newNk R s.keystore.users
  phase : Phase E.toPrimitives oldNk newNk A B W D s
  /-- the verifier is flipped after everything else but the journal -/
  verifier : Verifies E.toPrimitives oldNk s.keystore ∨
    (Verifies E.toPrimitives newNk s.keystore ∧ SealedUnder (deriveUserStoreFileKey E.toPrimitives newNk) s.keystore.users)

/-- a change of the journal and the users alone -/
theorem Rotating.of_same {ks : KeystoreDir} {t : Node} (hs : Rotating E A B W D oldNk newNk s)
    (hv : Verifies E.toPrimitives oldNk s.keystore) (hk : SameButUsers ks t.keystore)
    (hks : ks.legacyPubkey = s.keystore.legacyPubkey ∧ ks.manifest = s.keystore.manifest ∧ ks.devices = s.keystore.devices)
    (hj : ks.journal = none ∨ ks.journal = some (.ok (journalOf E.toPrimitives oldNk newNk)))
    (hu : ∃ R, UsersHold E.toPrimitives oldNk newNk R t.keystore.users)
    (hp : Phase E.toPrimitives oldNk newNk A B W D t) :
    Rotating E A B W D oldNk newNk t := by
  obtain ⟨hl, hm, hd⟩ := hks
  have hverifies : Verifies E.toPrimitives oldNk t.keystore := by
    unfold Verifies
    rw [hk.manifest, hm]
    exact hv
  refine ⟨by rw [hk.devices, hd, hs.operator], ?_, by rw [hk.journal]; exact hj, hu, hp, Or.inl hverifies⟩
  unfold ManifestFit
  rw [hk.legacyPubkey, hl, hk.manifest, hm]
  exact hs.manifest

theorem verifyOld_apply (h : ManifestFit s.keystore) (hv : Verifies E.toPrimitives oldNk s.keystore) :
    verifyOld E oldNk s = ([], .ok ()) := by
  unfold verifyOld
  rw [Prog.get_bind_apply, (verifyNodeKey_ok_iff h).2 hv]
  rfl

/-- a missing journal is written, one of the same keys is kept -/
theorem enterJournal_spec (s : Node) (hj : s.keystore.journal = none ∨
    s.keystore.journal = some (.ok (journalOf E.toPrimitives oldNk newNk))) :
    Spec (fun u => u = s) (enterJournal E oldNk newNk)
      (fun _ u => u = { s with keystore := { s.keystore with journal := some (.ok (journalOf E.toPrimitives oldNk newNk)) } })
      (fun _ _ => False)
      (fun u => u = s ∨
        u = { s with keystore := { s.keystore with journal := some (.ok (journalOf E.toPrimitives oldNk newNk)) } }) := by
  have hread : ∀ j, readRotationJournal s.keystore = .ok j → readJournal s = ([], .ok j) := by
    intro j hr
    unfold readJournal
    rw [Prog.get_bind_apply, hr]
    rfl
  refine Spec.of_apply ?_
  rintro u rfl
  refine ⟨Or.inl rfl, ?_⟩
  rcases hj with hj | hj
  · have hnone : readRotationJournal u.keystore = .ok none := by unfold readRotationJournal; rw [hj]
    have hwrite : writeRotationJournal E.toPrimitives oldNk newNk u.keystore =
        ([{ u.keystore with journal := some (.ok (journalOf E.toPrimitives oldNk newNk)) }], .ok ()) := by
      unfold writeRotationJournal
      rw [Prog.get_bind_apply, hj]
      rfl
    refine ⟨[{ u with keystore := { u.keystore with journal := some (.ok (journalOf E.toPrimitives oldNk newNk)) } }], .ok (),
      ?_, ?_, ?_, ?_⟩
    · unfold enterJournal
      rw [Prog.bind_apply_ok (hread none hnone)]
      simp only [writeJournal, context, onKeystore, Prog.mapError, Prog.zoom, List.getLastD_nil, hwrite]
      rfl
    · intro v hv
      exact Or.inr (List.mem_singleton.1 hv)
    · intro _ _
      rfl
    · intro e he
      cases he
  · have hsome : readRotationJournal u.keystore = .ok (some (journalOf E.toPrimitives oldNk newNk)) := by
      unfold readRotationJournal; rw [hj]
    refine ⟨[], .ok (), ?_, ?_, ?_, ?_⟩
    · unfold enterJournal
      rw [Prog.bind_apply_ok (hread _ hsome)]
      simp only [if_true]
      rfl
    · intro v hv
      cases hv
    · intro _ _
      rw [← hj]
      rfl
    · intro e he
      cases he

/-- the verifier of the new key in the manifest -/
def flipped (P : Primitives) (newNk : Bytes) (m : KeystoreManifest) (ks : KeystoreDir) : KeystoreDir :=
  { ks with manifest := some (.ok { m with nodeKeyVerifierB64 := Base64.encode (deriveNodeKeyVerifier P newNk) }) }

theorem flipped_verifies (P : Primitives) (newNk : Bytes) (m : KeystoreManifest) (ks : KeystoreDir) :
    Verifies P newNk (flipped P newNk m ks) := ⟨_, rfl, Base64.decode_encode _⟩

/-- the last two effects: the verifier, then the journal -/
theorem finish_apply {m : KeystoreManifest} (hm : s.keystore.manifest = some (.ok m)) :
    finish E newNk s = ([{ s with keystore := flipped E.toPrimitives newNk m s.keystore },
      { s with keystore := { flipped E.toPrimitives newNk m s.keystore with journal := none } }], .ok ()) := by
  have hrewrite : rewriteVerifier E.toPrimitives newNk s.keystore =
      ([flipped E.toPrimitives newNk m s.keystore], .ok ()) := by
    unfold rewriteVerifier
    rw [Prog.get_bind_apply, hm]
    rfl
  have hfirst : context "rewrite keystore verifier: " (onKeystore (rewriteVerifier E.toPrimitives newNk)) s =
      ([{ s with keystore := flipped E.toPrimitives newNk m s.keystore }], .ok ()) := by
    simp only [context, onKeystore, Prog.mapError, Prog.zoom, hrewrite]
    rfl
  unfold finish
  rw [Prog.bind_apply_ok hfirst]
  rfl

/-! ## Runs -/

theorem run_operator (h : s.keystore.devices = none) (S : Surroundings) (oldKey newKey : Except CryptoError Bytes) :
    run E H walk S oldKey newKey s = runOperator E walk S oldKey newKey s := by
  unfold run
  rw [Prog.get_bind_apply, h]
  rfl

/-- a run up to its last two effects -/
def beforeFinish (E : Env) (walk : Walk) (S : Surroundings) (oldNk newNk : Bytes) : Prog Node String Unit := do
  verifyOld E oldNk
  enterJournal E oldNk newNk
  migrate E walk S oldNk newNk

theorem runOperator_eq (hne : oldNk ≠ newNk) (S : Surroundings) : runOperator E walk S (.ok oldNk) (.ok newNk) =
    beforeFinish E walk S oldNk newNk >>= fun _ => finish E newNk := by
  have h : runOperator E walk S (.ok oldNk) (.ok newNk) = if oldNk = newNk then Prog.throw SAME_KEY_MESSAGE else
      verifyOld E oldNk >>= fun _ => enterJournal E oldNk newNk >>= fun _ => migrate E walk S oldNk newNk >>= fun _ =>
        finish E newNk := rfl
  rw [h, if_neg hne]
  unfold beforeFinish
  rw [Prog.bind_bind]
  congr 1
  funext _
  rw [Prog.bind_bind]

/-- everything is on the new key but the verifier -/
structure Migrated (E : Env) (A B : List String → Prop) (W D : Tree → Prop) (oldNk newNk : Bytes) (s : Node) : Prop extends
    Rotating E A B W D oldNk newNk s where
  rotating : s.keystore.journal = some (.ok (journalOf E.toPrimitives oldNk newNk))
  migrated : SealedUnder (deriveUserStoreFileKey E.toPrimitives newNk) s.keystore.users

theorem beforeFinish_spec (hw : Resumable walk A B W D) (hB : B [])
    (hfresh : deriveIndexFileKey E.toPrimitives newNk = deriveIndexFileKey E.toPrimitives oldNk → ∀ bs, B bs) (S : Surroundings) :
    Spec (fun s => Rotating E A B W D oldNk newNk s ∧ Verifies E.toPrimitives oldNk s.keystore) (beforeFinish E walk S oldNk newNk)
      (fun _ s => Migrated E A B W D oldNk newNk s) (fun _ _ => False) (Rotating E A B W D oldNk newNk) := by
  refine Spec.of_states ?_
  rintro s ⟨hs, hv⟩
  -- the guard
  refine Spec.bind ((Spec.of_silent (verifyOld_apply hs.manifest hv) hs).conseq (fun _ h => h) (fun _ _ h => h.2)
    (fun _ _ h => h) fun _ h => h) fun _ => ?_
  -- the journal
  obtain ⟨R, hR⟩ := hs.users
  set ks := { s.keystore with journal := some (.ok (journalOf E.toPrimitives oldNk newNk)) } with hks
  have hbegun := hs.of_same (t := { s with keystore := ks }) hv ⟨rfl, rfl, rfl, rfl⟩ ⟨rfl, rfl, rfl⟩ (Or.inr rfl) ⟨R, hR⟩
    (hs.phase.congr rfl (fun _ => rfl) rfl)
  refine Spec.bind ((enterJournal_spec s hs.journal).conseq (fun _ h => h) (fun _ _ h => h) (fun _ _ h => h) ?_) fun _ => ?_
  · rintro u (rfl | rfl)
    · exact hs
    · exact hbegun
  -- the migration
  refine (migrate_spec hw hB hfresh S ks R).conseq ?_ ?_ (fun _ _ h => h) ?_
  · rintro u rfl
    exact ⟨hbegun.phase, ⟨rfl, rfl, rfl, rfl⟩, hR⟩
  · rintro _ u ⟨hp, -, hsame, husers⟩
    have hu := hs.of_same hv hsame ⟨rfl, rfl, rfl⟩ (Or.inr rfl) ⟨R, by rw [husers]; exact usersHold_new R⟩ hp
    exact ⟨hu, hsame.journal, R, husers⟩
  · rintro u ⟨hp, hsame, hu⟩
    exact hs.of_same hv hsame ⟨rfl, rfl, rfl⟩ (Or.inr rfl) ⟨R, hu⟩ hp

/-- after the verifier is flipped, with the journal or without it -/
theorem Migrated.flipped {m : KeystoreManifest} (hs : Migrated E A B W D oldNk newNk s) (hm : s.keystore.manifest = some (.ok m))
    {j : Option (Except String RotationJournal)} (hj : j = none ∨ j = some (.ok (journalOf E.toPrimitives oldNk newNk))) :
    Rotating E A B W D oldNk newNk { s with keystore := { flipped E.toPrimitives newNk m s.keystore with journal := j } } := by
  obtain ⟨hpub, m', v, hm', hver, -⟩ := hs.manifest
  rw [hm] at hm'
  cases hm'
  exact ⟨hs.operator, ⟨hpub, _, _, rfl, hver, Base64.decode_encode _⟩, hj, hs.users, hs.phase.congr rfl (fun _ => rfl) rfl,
    Or.inr ⟨flipped_verifies _ newNk m s.keystore, hs.migrated⟩⟩

theorem finish_spec (E : Env) (A B : List String → Prop) (W D : Tree → Prop) (oldNk newNk : Bytes) :
    Spec (Migrated E A B W D oldNk newNk) (finish E newNk) (fun _ s => Finished E.toPrimitives newNk s) (fun _ _ => False)
      (Rotating E A B W D oldNk newNk) := by
  refine Spec.of_apply fun s hs => ⟨hs.toRotating, ?_⟩
  obtain ⟨-, m, v, hm, -⟩ := hs.manifest
  refine ⟨_, _, finish_apply hm, ?_, ?_, ?_⟩
  · intro v hv
    rcases List.mem_cons.1 hv with rfl | hv
    · exact hs.flipped hm (Or.inr hs.rotating)
    · rw [List.mem_singleton.1 hv]
      exact hs.flipped hm (Or.inl rfl)
  · intro _ _
    exact ⟨rfl, flipped_verifies _ newNk m s.keystore, hs.migrated⟩
  · intro e he
    cases he

/-- **A run that passes the guard finishes.** It cannot fail, and each of its crash states is again one of a rotation. -/
theorem run_resumes (hw : Resumable walk A B W D) (hB : B [])
    (hfresh : deriveIndexFileKey E.toPrimitives newNk = deriveIndexFileKey E.toPrimitives oldNk → ∀ bs, B bs) (hne : oldNk ≠ newNk)
    (S : Surroundings) :
    Spec (fun s => Rotating E A B W D oldNk newNk s ∧ Verifies E.toPrimitives oldNk s.keystore)
      (run E H walk S (.ok oldNk) (.ok newNk)) (fun _ s => Finished E.toPrimitives newNk s) (fun _ _ => False)
      (Rotating E A B W D oldNk newNk) :=
  Spec.congr (Spec.bind (beforeFinish_spec hw hB hfresh S) fun _ => finish_spec E A B W D oldNk newNk) fun s hs => by
    rw [run_operator hs.1.operator, runOperator_eq hne]

/-- a run whose old key does not verify changes nothing -/
theorem run_refused (hs : Rotating E A B W D oldNk newNk s) (hne : oldNk ≠ newNk) (hv : ¬ Verifies E.toPrimitives oldNk s.keystore)
    (S : Surroundings) : ∃ e, run E H walk S (.ok oldNk) (.ok newNk) s = ([], .error e) := by
  cases hver : verifyNodeKey E.toPrimitives oldNk s.keystore with
  | ok _ => exact absurd ((verifyNodeKey_ok_iff hs.manifest).1 hver) hv
  | error e =>
    have hguard : verifyOld E oldNk s = ([], .error s!"verify old node key against keystore: {e.message}") := by
      unfold verifyOld
      rw [Prog.get_bind_apply, hver]
      rfl
    have hbefore : beforeFinish E walk S oldNk newNk s = ([], .error s!"verify old node key against keystore: {e.message}") :=
      Prog.bind_apply_error hguard
    refine ⟨s!"verify old node key against keystore: {e.message}", ?_⟩
    rw [run_operator hs.operator, runOperator_eq hne, Prog.bind_apply_error hbefore]

/-- with a walk that may be restarted on any list -/
abbrev Interrupted (E : Env) (W : Tree → Prop) : Bytes → Bytes → Node → Prop := Rotating E (fun _ => True) (fun _ => True) W W

/-- every state that any number of interrupted runs can leave -/
theorem crashes_rotating (hw : Restartable walk W) (hne : oldNk ≠ newNk) {s₀ : Node} (h0 : Interrupted E W oldNk newNk s₀)
    (h : Crashes (fun S => run E H walk S (.ok oldNk) (.ok newNk)) s₀ s) : Interrupted E W oldNk newNk s := by
  refine Crashes.inv (fun S t t' ht hc => ?_) h0 h
  by_cases hv : Verifies E.toPrimitives oldNk t.keystore
  · exact (run_resumes hw.resumable trivial (fun _ _ => trivial) hne S t ⟨ht, hv⟩).1 t' hc
  · obtain ⟨e, he⟩ := @run_refused E H walk _ _ _ _ _ _ _ ht hne hv S
    rcases hc with rfl | hc
    · exact ht
    · rw [he] at hc
      cases hc

/-- **When a rotation can be resumed.** In every state that interrupted runs with the same two keys can leave, the rotation
is done or the next undisturbed run returns and leaves it done, exactly when the old key still verifies against the keystore
or no journal is left. -/
theorem resumes_iff_old_key_verifies (hw : Restartable walk W) (hne : oldNk ≠ newNk) {s₀ : Node}
    (h0 : Interrupted E W oldNk newNk s₀) (h : Crashes (fun S => run E H walk S (.ok oldNk) (.ok newNk)) s₀ s) (S : Surroundings) :
    (Finished E.toPrimitives newNk s ∨ (run E H walk S (.ok oldNk) (.ok newNk)).result s = .ok () ∧
        Finished E.toPrimitives newNk ((run E H walk S (.ok oldNk) (.ok newNk)).final s)) ↔
      (Verifies E.toPrimitives oldNk s.keystore ∨ s.keystore.journal = none) := by
  have hs := crashes_rotating hw hne h0 h
  have hrerun : Verifies E.toPrimitives oldNk s.keystore → (run E H walk S (.ok oldNk) (.ok newNk)).result s = .ok () ∧
      Finished E.toPrimitives newNk ((run E H walk S (.ok oldNk) (.ok newNk)).final s) := by
    intro hv
    obtain ⟨-, hok, herr⟩ := run_resumes (H := H) hw.resumable trivial (fun _ _ => trivial) hne S s ⟨hs, hv⟩
    cases hr : (run E H walk S (.ok oldNk) (.ok newNk)).result s with
    | ok a => exact ⟨rfl, hok a hr⟩
    | error e => exact (herr e hr).elim
  constructor
  · rintro (hfin | ⟨hok, -⟩)
    · exact Or.inr hfin.journal
    · left
      by_contra hv
      obtain ⟨e, he⟩ := @run_refused E H walk _ _ _ _ _ _ _ hs hne hv S
      unfold Prog.result at hok
      rw [he] at hok
      cases hok
  · rintro (hv | hj)
    · exact Or.inr (hrerun hv)
    · rcases hs.verifier with hv | ⟨hv, hu⟩
      · exact Or.inr (hrerun hv)
      · exact Or.inl ⟨hj, hv, hu⟩

/-- every undisturbed run passes through a state with the journal in which no further run does anything -/
theorem stuck_after_flip (hw : Restartable walk W) (hne : oldNk ≠ newNk)
    (hver : deriveNodeKeyVerifier E.toPrimitives oldNk ≠ deriveNodeKeyVerifier E.toPrimitives newNk) {s₀ : Node}
    (h0 : Interrupted E W oldNk newNk s₀) (hv : Verifies E.toPrimitives oldNk s₀.keystore) (S : Surroundings) :
    ∃ s, Crash (run E H walk S (.ok oldNk) (.ok newNk)) s₀ s ∧ s.keystore.journal ≠ none ∧
      ∀ S', ∃ e, run E H walk S' (.ok oldNk) (.ok newNk) s = ([], .error e) := by
  obtain ⟨-, hok, herr⟩ := beforeFinish_spec hw.resumable trivial (fun _ _ => trivial) S s₀ ⟨h0, hv⟩
  cases hr : (beforeFinish E walk S oldNk newNk).result s₀ with
  | error e => exact (herr e hr).elim
  | ok a =>
    have hu := hok a hr
    obtain ⟨-, m, v, hm, -⟩ := hu.manifest
    refine ⟨_, ?_, ?_, run_refused (hu.flipped hm (Or.inr hu.rotating)) hne ?_⟩
    · unfold Crash
      rw [run_operator h0.operator, runOperator_eq hne]
      refine Crash.bind_right hr ?_
      rw [finish_apply hm]
      exact List.mem_cons_self
    · exact fun hj => Option.some_ne_none _ (hu.rotating.symm.trans hj)
    · rintro ⟨m', hm', hdec⟩
      cases hm'
      rw [Base64.decode_encode] at hdec
      exact hver (Option.some.inj hdec).symm

/-! ## The real walk -/

/-- no bucket has a config or an object -/
def BareBuckets (t : Tree) : Prop := ∀ n d, t.lookup n = some d → d.config = none ∧ d.objFiles = []

theorem migrateBucketDir_bare {d : BucketDir} (h : d.config = none ∧ d.objFiles = []) (O : Rotation.Oracle)
    (K : Rotation.RotationKeys) (b : String) (stats : Rotation.RotationStats) :
    Rotation.migrateBucketDir E O K b stats d = ([], .ok stats) := by
  have hnil : O.readDir [] = [] := List.perm_nil.1 (O.readDir_perm [])
  unfold Rotation.migrateBucketDir
  rw [Prog.get_bind_apply, h.2, hnil, List.foldlM_nil, Prog.pure_bind_apply]
  unfold Rotation.migrateBucketConfig
  rw [Prog.bind_bind, Prog.get_bind_apply, h.1]
  rfl

theorem BareBuckets.rename {t : Tree} (h : BareBuckets t) (src dst : String) : BareBuckets (Rotation.renameDir src dst t) := by
  unfold Rotation.renameDir
  cases hd : t.lookup src with
  | none => exact h
  | some d =>
    intro n d' hn
    by_cases hnd : n = dst
    · rw [hnd, Finmap.lookup_insert] at hn
      cases hn
      exact h src d hd
    · rw [Finmap.lookup_insert_of_ne _ hnd] at hn
      by_cases hns : n = src
      · rw [hns, Finmap.lookup_erase] at hn
        cases hn
      · rw [Finmap.lookup_erase_ne hns] at hn
        exact h n d' hn

/-- the real walk over bare buckets only renames their directories -/
theorem rotateTree_restartable (E : Env) (oldNk newNk : Bytes) : Restartable (rotateTree E oldNk newNk) BareBuckets := by
  intro S bs
  refine Spec.foldlM_inv (fun _ h => h) (fun stats b => ?_) bs _
  refine Spec.get_bind fun t ht => ?_
  have hkeep : ∀ u : Tree, u = t → BareBuckets u := fun u hu => by rw [hu]; exact ht
  simp only
  split_ifs with hnew hold
  · exact Spec.pure _ hkeep hkeep
  · obtain ⟨d, hd⟩ := Finmap.mem_iff.1 hold
    refine Spec.bind (R := fun _ u => u = t) ?_ fun stats' => ?_
    · refine (Spec.of_silent (a := stats) ?_ ht).conseq (fun _ h => h) (fun _ _ h => h.2) (fun _ _ h => h) fun _ h => h
      simp only [Rotation.inDir, Prog.zoom, hd, Option.getD_some, migrateBucketDir_bare (ht _ d hd)]
      rfl
    · refine Spec.bind (R := fun _ => BareBuckets) (Spec.modify ?_ hkeep ?_) fun _ => Spec.pure _ (fun _ h => h) fun _ h => h
      · exact fun u hu => (hkeep u hu).rename _ _
      · exact fun u hu => (hkeep u hu).rename _ _
  · exact Spec.pure _ hkeep hkeep

/-! ## An instance -/

open Rotation (sampleEnv)

/-- a node on the key `[1]` with one empty, registered bucket -/
def sampleNode : Node where
  keystore := ⟨false, some (.ok ⟨KEYSTORE_FORMAT_VERSION, Base64.encode (deriveNodeKeyVerifier sampleEnv.toPrimitives [1]), 0⟩),
    some (.sealed (deriveUserStoreFileKey sampleEnv.toPrimitives [1]) ∅), none, none, none⟩
  tree := Finmap.singleton (encodeBucketDir sampleEnv.toPrimitives (derivePathKey sampleEnv.toPrimitives [1]) "b") ⟨none, none, ∅⟩
  index := some (.sealed (deriveIndexFileKey sampleEnv.toPrimitives [1]) ⟨[], ["b"]⟩)

theorem sampleNode_bare : BareBuckets sampleNode.tree := by
  intro n d h
  by_cases hn : n = encodeBucketDir sampleEnv.toPrimitives (derivePathKey sampleEnv.toPrimitives [1]) "b"
  · rw [hn] at h
    cases h.symm.trans (Finmap.lookup_singleton_eq)
    exact ⟨rfl, rfl⟩
  · exact absurd (Finmap.mem_singleton _ _ _ |>.1 (Finmap.mem_of_lookup_eq_some h)) hn

theorem sampleNode_verifies : Verifies sampleEnv.toPrimitives [1] sampleNode.keystore := ⟨_, rfl, Base64.decode_encode _⟩

theorem sampleNode_rotating : Interrupted sampleEnv BareBuckets [1] [2] sampleNode :=
  ⟨rfl, ⟨rfl, _, _, rfl, rfl, Base64.decode_encode _⟩, Or.inl rfl, ⟨∅, usersHold_old ∅⟩,
    Or.inl ⟨⟨[], ["b"]⟩, indexAs_sealed _ _ _, trivial, sampleNode_bare⟩, Or.inl sampleNode_verifies⟩

/-- no hash is evaluated without a device registry -/
def sampleHashes : Devices.Hashes := ⟨fun _ => [], fun _ _ _ _ _ => .error "unused"⟩

/-- **A rotation that can never be finished.** After a crash between the verifier and the journal, the journal stays and every
further run with the same keys fails without an effect. -/
theorem rotation_stuck_after_verifier :
    ∃ s, Crash (run sampleEnv sampleHashes (rotateTree sampleEnv [1] [2]) sampleSurroundings (.ok [1]) (.ok [2])) sampleNode s ∧
      s.keystore.journal ≠ none ∧
      ∀ S, ∃ e, run sampleEnv sampleHashes (rotateTree sampleEnv [1] [2]) S (.ok [1]) (.ok [2]) s = ([], .error e) :=
  stuck_after_flip (rotateTree_restartable sampleEnv [1] [2]) (by decide) (by decide) sampleNode_rotating sampleNode_verifies
    sampleSurroundings

/-- an undisturbed run of the sample node -/
theorem resumes_one_empty_bucket :
    (run sampleEnv sampleHashes (rotateTree sampleEnv [1] [2]) sampleSurroundings (.ok [1]) (.ok [2])).result sampleNode = .ok () := by
  rcases (resumes_iff_old_key_verifies (H := sampleHashes) (rotateTree_restartable sampleEnv [1] [2]) (by decide)
    sampleNode_rotating (.refl sampleNode) sampleSurroundings).2 (Or.inl sampleNode_verifies) with hfin | ⟨hok, -⟩
  · obtain ⟨m, hm, hdec⟩ := hfin.verifier
    cases hm
    rw [Base64.decode_encode] at hdec
    exact absurd (Option.some.inj hdec) (by decide)
  · exact hok

end Y2q.NodeKeyRotation
