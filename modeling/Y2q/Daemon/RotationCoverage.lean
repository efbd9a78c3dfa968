/-
What a rotation that returned has done to the tree and to the bucket list.

The buckets to walk come from the metadata index alone, and the index is rebuilt from the object sidecars alone. So a bucket
whose name the index has lost is not walked, and a bucket without an object is not listed afterwards.

- `run_walked`: after a run that returned, the tree is what the walk over the listed buckets left, and the index is rebuilt from it.
- `covers_iff_listed`: every object and every config is readable under the new key exactly if every bucket that holds one was
  listed (and the sidecars fit, see `Rotation.kept_iff`).
-/
import Mathlib.Tactic
import Y2q.Daemon.OperatorRotation

namespace Y2q.NodeKeyRotation

open CrashLogic NodeKeys Keystore Index EncryptedBackend Rotation

variable {E : Env} {H : Devices.Hashes} {S : Surroundings} {oldNk newNk : Bytes} {s t : Node}

/-! ## The walk of a run that returned -/

/-- the derived keys of a rotation -/
def rotationKeys (P : Primitives) (oldNk newNk : Bytes) : RotationKeys := ⟨deriveStoreKeys P oldNk, deriveStoreKeys P newNk⟩

/-- the buckets the index lists under the old key, none if it does not open -/
def listed (P : Primitives) (oldNk : Bytes) (f : IndexFile) : List String :=
  match indexAs P oldNk f with
  | some db => db.listBuckets
  | none => []

/-- the walk a run makes from `s` -/
def walkOf (E : Env) (S : Surroundings) (oldNk newNk : Bytes) (s : Node) : Prog Tree Rotation.Error RotationStats :=
  rotateStorageTree E S.oracle (listed E.toPrimitives oldNk s.index) (rotationKeys E.toPrimitives oldNk newNk)

/-- `t` has the tree that the walk leaves, and an index rebuilt from it -/
structure Walked (E : Env) (S : Surroundings) (oldNk newNk : Bytes) (s t : Node) : Prop where
  ok : ∃ stats, (walkOf E S oldNk newNk s).result s.tree = .ok stats
  tree : t.tree = (walkOf E S oldNk newNk s).final s.tree
  index : ∃ db, t.index = some (.sealed (deriveIndexFileKey E.toPrimitives newNk) db) ∧ Rebuilt E S newNk t.tree db

/-- the parts the keystore steps leave alone -/
def SameStorage (s t : Node) : Prop := t.tree = s.tree ∧ t.index = s.index

theorem Walked.of_same {u v : Node} (h : Walked E S oldNk newNk s t) (hs : SameStorage u s) (ht : SameStorage t v) :
    Walked E S oldNk newNk u v := by
  obtain ⟨hok, htree, db, hdb, hre⟩ := h
  have hwalk : walkOf E S oldNk newNk s = walkOf E S oldNk newNk u := by unfold walkOf; rw [hs.2]
  rw [hwalk, hs.1] at hok htree
  exact ⟨hok, by rw [ht.1, htree], db, by rw [ht.2, hdb], by rw [ht.1]; exact hre⟩

/-- a program about whose results nothing is said -/
theorem spec_any {σ ε α : Type} (p : Prog σ ε α) : Spec (fun _ => True) p (fun _ _ => True) (fun _ _ => True) fun _ => True :=
  fun _ _ => ⟨fun _ _ => trivial, fun _ _ => trivial, fun _ _ => trivial⟩

/-- whatever a run does to the keystore leaves the storage alone -/
theorem onKeystore_same {α : Type} (p : Prog KeystoreDir CryptoError α) (what : String) (s : Node) :
    Spec (SameStorage s) (context what (onKeystore p)) (fun _ => SameStorage s) (fun _ _ => True) (fun _ => True) :=
  Spec.of_states fun u hu => Spec.mapError (Spec.zoom (F := fun _ _ => True) u rfl (spec_any p) trivial (fun _ _ _ => hu) (fun _ _ _ => trivial)
    fun _ _ => trivial) fun _ _ _ => trivial

theorem migrate_walked (s : Node) : Spec (fun u => u = s) (migrate E (rotateTree E oldNk newNk) S oldNk newNk)
    (fun _ u => Walked E S oldNk newNk s u) (fun _ _ => True) (fun _ => True) := by
  -- after the walk, which an index that does not open skips
  have hwalk : Spec (fun u => u = s) (bucketsNeedingWalk E oldNk newNk >>= walkTree (rotateTree E oldNk newNk) S)
      (fun _ u => (∃ stats, (walkOf E S oldNk newNk s).result s.tree = .ok stats) ∧
        u.tree = (walkOf E S oldNk newNk s).final s.tree) (fun _ _ => True) (fun _ => True) := by
    refine Spec.bind ((bucketsNeedingWalk_spec oldNk newNk s).conseq (fun _ h => h) (fun _ _ h => h) (fun _ _ _ => trivial)
      fun _ _ => trivial) fun o => Spec.of_states ?_
    rintro u (⟨db, hdb, rfl, rfl⟩ | ⟨hnone, rfl, rfl⟩)
    · have hlist : walkOf E S oldNk newNk s = rotateTree E oldNk newNk S db.listBuckets := by
        unfold walkOf listed
        rw [hdb]
        rfl
      have htree : Spec (fun t => t = s.tree) (rotateTree E oldNk newNk S db.listBuckets)
          (fun stats t => (walkOf E S oldNk newNk s).result s.tree = .ok stats ∧
            t = (walkOf E S oldNk newNk s).final s.tree) (fun _ _ => True) (fun _ => True) := by
        rintro t rfl
        refine ⟨fun _ _ => trivial, fun stats hr => ?_, fun _ _ => trivial⟩
        rw [hlist]
        exact ⟨hr, rfl⟩
      refine Spec.bind (Spec.mapError (Spec.zoom (F := fun _ _ => True) _ rfl htree rfl (fun stats t ht => ?_) (fun _ _ _ => trivial)
        fun _ _ => trivial) fun _ _ _ => trivial) fun _ => Spec.pure _ (fun _ h => h) fun _ _ => trivial
      exact ⟨⟨stats, ht.1⟩, ht.2⟩
    · have hlist : walkOf E S oldNk newNk u = pure ⟨0, 0, 0⟩ := by
        unfold walkOf listed
        rw [hnone]
        rfl
      refine Spec.pure _ ?_ fun _ _ => trivial
      rintro v rfl
      rw [hlist]
      exact ⟨⟨_, rfl⟩, rfl⟩
  rw [migrate_eq]
  refine Spec.bind hwalk fun _ => Spec.of_states ?_
  rintro u ⟨hok, htree⟩
  refine Spec.bind ((rebuildIndex_spec S newNk u).conseq (fun _ h => h) (fun _ _ h => h) (fun _ _ _ => trivial)
    fun _ _ => trivial) fun _ => Spec.of_states ?_
  rintro v ⟨db, hv, hdb⟩
  refine (onKeystore_same _ _ v).conseq ?_ ?_ (fun _ _ h => h) fun _ h => h
  · rintro w rfl
    exact ⟨rfl, rfl⟩
  · rintro _ w ⟨hw1, hw2⟩
    rw [hv] at hw1 hw2
    exact ⟨hok, by rw [hw1]; exact htree, db, hw2, by rw [hw1]; exact hdb⟩

/-! ## Runs -/

/-- the key a run rotates from: the operator's, or the one in the registry's `nk_wrap` -/
def RotatesFrom (P : Primitives) (oldKey : Except CryptoError Bytes) (oldNk newNk : Bytes) (s : Node) : Prop :=
  (s.keystore.devices = none ∧ oldKey = .ok oldNk) ∨
    ∃ r, s.keystore.devices = some (.ok r) ∧ (∀ rmk nk, Devices.openNk P r rmk = .ok nk → nk = oldNk) ∧
      deriveNodeKeyVerifier P oldNk ≠ deriveNodeKeyVerifier P newNk

theorem finish_same (s : Node) (newNk : Bytes) :
    Spec (SameStorage s) (finish E newNk) (fun _ => SameStorage s) (fun _ _ => True) (fun _ => True) :=
  Spec.bind (onKeystore_same _ _ s) fun _ => onKeystore_same _ _ s

theorem verifyOld_same (s : Node) (nk : Bytes) :
    Spec (SameStorage s) (verifyOld E nk) (fun _ => SameStorage s) (fun _ _ => True) (fun _ => True) := by
  refine Spec.get_bind fun u hu => ?_
  cases verifyNodeKey E.toPrimitives nk u.keystore with
  | ok a => exact Spec.pure _ (fun v hv => by rw [hv]; exact hu) fun _ _ => trivial
  | error e => exact Spec.throw (fun _ _ => trivial) fun _ _ => trivial

theorem readJournal_same (s : Node) :
    Spec (SameStorage s) readJournal (fun _ => SameStorage s) (fun _ _ => True) (fun _ => True) := by
  refine Spec.get_bind fun u hu => ?_
  cases readRotationJournal u.keystore with
  | ok a => exact Spec.pure _ (fun v hv => by rw [hv]; exact hu) fun _ _ => trivial
  | error e => exact Spec.throw (fun _ _ => trivial) fun _ _ => trivial

/-- a migration and what follows it -/
theorem migrate_then {p : Prog Node String Unit}
    (hp : ∀ u, Spec (SameStorage u) p (fun _ => SameStorage u) (fun _ _ => True) (fun _ => True)) :
    Spec (SameStorage s) (migrate E (rotateTree E oldNk newNk) S oldNk newNk >>= fun _ => p)
      (fun _ u => Walked E S oldNk newNk s u) (fun _ _ => True) (fun _ => True) := by
  refine Spec.of_states fun u hu => Spec.bind (migrate_walked u) fun _ => Spec.of_states fun v hv => ?_
  exact (hp v).conseq (fun w hw => by rw [hw]; exact ⟨rfl, rfl⟩) (fun _ w hw => hv.of_same hu hw) (fun _ _ h => h) fun _ h => h

theorem runOperator_walked (s : Node) : Spec (SameStorage s) (runOperator E (rotateTree E oldNk newNk) S (.ok oldNk) (.ok newNk))
    (fun _ u => Walked E S oldNk newNk s u) (fun _ _ => True) (fun _ => True) := by
  by_cases hne : oldNk = newNk
  · have hthrow : runOperator E (rotateTree E oldNk newNk) S (.ok oldNk) (.ok newNk) = Prog.throw SAME_KEY_MESSAGE :=
      if_pos hne
    rw [hthrow]
    exact Spec.throw (fun _ _ => trivial) fun _ _ => trivial
  · rw [runOperator_eq hne]
    unfold beforeFinish
    rw [Prog.bind_bind]
    refine Spec.bind (verifyOld_same s oldNk) fun _ => ?_
    rw [Prog.bind_bind]
    refine Spec.bind ?_ fun _ => migrate_then fun u => finish_same u newNk
    refine Spec.bind (readJournal_same s) fun j => ?_
    cases j with
    | none => exact onKeystore_same _ _ s
    | some j =>
      simp only
      split_ifs
      · exact Spec.pure _ (fun _ h => h) fun _ _ => trivial
      · exact Spec.throw (fun _ _ => trivial) fun _ _ => trivial

/-- an unlock leaves the storage alone and returns the key in the registry -/
theorem unlockRegistry_same {r : Devices.DeviceRegistryFile} (hr : s.keystore.devices = some (.ok r)) :
    Spec (fun u => u = s) (unlockRegistry E H S)
      (fun out u => SameStorage s u ∧ ∃ rmk, Devices.openNk E.toPrimitives r rmk = .ok out.nodeKey) (fun _ _ => True)
      (fun _ => True) := by
  refine Spec.bind (R := fun out u => SameStorage s u ∧ ∃ rmk, Devices.openNk E.toPrimitives r rmk = .ok out.nodeKey)
    (Spec.mapError (Spec.zoom (F := fun _ _ => True) s rfl (Spec.zoom (F := fun _ _ => True)
      (B := fun out _ => Devices.OutcomeOf E.toPrimitives r out) (D := fun _ => True) s.keystore rfl Devices.unlock_spec hr
      (fun out _ h => h.2) (fun _ _ _ => trivial) fun _ _ => trivial) rfl (fun out _ h => ?_) (fun _ _ _ => trivial)
      fun _ _ => trivial) fun _ _ _ => trivial) fun out => ?_
  · exact ⟨⟨rfl, rfl⟩, _, h.key⟩
  · split_ifs
    · exact Spec.pure _ (fun _ h => h) fun _ _ => trivial
    · exact Spec.throw (fun _ _ => trivial) fun _ _ => trivial

/-- with the old key recovered every branch migrates before it returns -/
theorem resume_walked {out : Devices.UnlockOutcome} (hout : out.nodeKey = oldNk)
    (hver : deriveNodeKeyVerifier E.toPrimitives oldNk ≠ deriveNodeKeyVerifier E.toPrimitives newNk)
    (j : Option RotationJournal) (s : Node) :
    Spec (SameStorage s) (resume E H (rotateTree E oldNk newNk) S j out newNk)
      (fun _ u => Walked E S oldNk newNk s u) (fun _ _ => True) (fun _ => True) := by
  have hrotate : Spec (SameStorage s) (rotateFrom E H (rotateTree E oldNk newNk) S out newNk)
      (fun _ u => Walked E S oldNk newNk s u) (fun _ _ => True) (fun _ => True) := by
    unfold rotateFrom
    rw [hout]
    refine migrate_then fun u => Spec.bind (onKeystore_same _ _ u) fun _ => Spec.pure _ (fun _ h => h) fun _ _ => trivial
  have hne : Base64.encode (deriveNodeKeyVerifier E.toPrimitives out.nodeKey) ≠
      Base64.encode (deriveNodeKeyVerifier E.toPrimitives newNk) := by
    rw [hout]
    exact fun h => hver (Base64.encode_injective h)
  unfold resume
  cases j with
  | some j =>
    simp only
    split_ifs with h1 h2 h3
    · exact Spec.throw (fun _ _ => trivial) fun _ _ => trivial
    · exact Spec.bind (verifyOld_same s _) fun _ => hrotate
    · exact Spec.throw (fun _ _ => trivial) fun _ _ => trivial
    · exact absurd ((not_not.1 h3).trans (not_not.1 h1)) hne
  | none =>
    simp only
    rw [if_neg hne]
    exact Spec.bind (verifyOld_same s _) fun _ => Spec.bind (onKeystore_same _ _ s) fun _ => hrotate

/-- **What a run that returned has walked.** -/
theorem run_walked {oldKey : Except CryptoError Bytes} (hfrom : RotatesFrom E.toPrimitives oldKey oldNk newNk s)
    (hok : (run E H (rotateTree E oldNk newNk) S oldKey (.ok newNk)).result s = .ok ()) :
    Walked E S oldNk newNk s ((run E H (rotateTree E oldNk newNk) S oldKey (.ok newNk)).final s) := by
  have hrun : Spec (fun u => u = s) (run E H (rotateTree E oldNk newNk) S oldKey (.ok newNk))
      (fun _ u => Walked E S oldNk newNk s u) (fun _ _ => True) (fun _ => True) := by
    refine Spec.get_bind ?_
    rintro u rfl
    rcases hfrom with ⟨hdev, rfl⟩ | ⟨r, hr, honly, hver⟩
    · rw [hdev]
      exact (runOperator_walked u).conseq (fun v hv => by rw [hv]; exact ⟨rfl, rfl⟩) (fun _ _ h => h) (fun _ _ h => h) fun _ h => h
    · rw [hr]
      have hread : Spec (fun v => v = u) readJournal (fun _ v => v = u) (fun _ _ => True) (fun _ => True) := by
        refine Spec.get_bind ?_
        rintro v rfl
        cases readRotationJournal v.keystore with
        | ok j => exact Spec.pure _ (fun _ h => h) fun _ _ => trivial
        | error e => exact Spec.throw (fun _ _ => trivial) fun _ _ => trivial
      refine Spec.bind hread fun j => Spec.bind (unlockRegistry_same hr) fun out => Spec.of_states ?_
      rintro v ⟨hv, rmk, hkey⟩
      refine Spec.ofExcept_bind rfl ?_
      refine Spec.bind (R := fun _ w => Walked E S oldNk newNk u w) ?_ fun _ => Spec.of_states fun w hw => ?_
      · exact (resume_walked (honly rmk _ hkey) hver j u).conseq (fun w hw => by rw [hw]; exact hv) (fun _ _ h => h)
          (fun _ _ h => h) fun _ h => h
      · exact (finish_same w newNk).conseq (fun x hx => by rw [hx]; exact ⟨rfl, rfl⟩)
          (fun _ x hx => hw.of_same ⟨rfl, rfl⟩ hx) (fun _ _ h => h) fun _ h => h
  exact (hrun s rfl).2.1 () hok

/-! ## What is readable afterwards -/

/-- every config of a listed bucket of `T` opens under the new keys in the bucket's new directory of `T'`, to the same bytes -/
def ConfigsKept (E : Env) (K : RotationKeys) (bs : List String) (T T' : Tree) : Prop :=
  ∀ b ∈ bs, ∀ d₀ ∈ T.lookup (oldDir E K b), ∀ bytes ∈ d₀.config, ∀ plain,
    decryptMeta E.toPrimitives K.old.bck bytes (oldDir E K b) = .ok plain →
      ∃ d bytes', T'.lookup (newDir E K b) = some d ∧ d.config = some bytes' ∧
        decryptMeta E.toPrimitives K.new.bck bytes' (newDir E K b) = .ok plain

/-- the bucket's directory holds an object or a config -/
def HoldsData (E : Env) (K : RotationKeys) (T : Tree) (b : String) : Prop :=
  ∃ d ∈ T.lookup (oldDir E K b), (∃ p o, Stored E K d p o) ∨ d.config ≠ none

variable {K : RotationKeys} {all bs : List String} {T T' : Tree} {b : String}

theorem soundTree_mono (h : SoundTree E K all T) (hsub : ∀ b ∈ bs, b ∈ all) : SoundTree E K bs T :=
  ⟨fun b hb => h.dirs b (hsub b hb), fun b hb => h.fresh b (hsub b hb), fun b hb b' hb' => h.ne b (hsub b hb) b' (hsub b' hb'),
    fun b hb b' hb' => h.oldInj b (hsub b hb) b' (hsub b' hb'), fun b hb b' hb' => h.newInj b (hsub b hb) b' (hsub b' hb')⟩

/-- a bucket that was not walked has no directory under its new name -/
theorem unlisted_absent (hs : SoundTree E K all T) (hsub : ∀ b ∈ bs, b ∈ all) (hi : TreeInv E K bs T T') (hb : b ∈ all)
    (hn : b ∉ bs) : T'.lookup (newDir E K b) = none := by
  rw [hi.other (newDir E K b) ?_]
  · exact Finmap.lookup_eq_none.2 (hs.fresh b hb)
  · intro b' hb'
    refine ⟨(hs.ne b' (hsub b' hb') b hb).symm, fun he => hn ?_⟩
    rw [hs.newInj b hb b' (hsub b' hb') he]
    exact hb'

/-- a completed bucket keeps its config -/
theorem configsKept_of_done (hd : ∀ b ∈ bs, BucketDone E K T T' b) : ConfigsKept E K bs T T' := by
  intro b hb d₀ hd₀ bytes hbytes plain hdec
  obtain ⟨-, ⟨hnone, -⟩ | ⟨d₀', d, hd₀', hd, hdone⟩⟩ := hd b hb
  · rw [hnone] at hd₀
    cases hd₀
  · cases (Option.mem_unique hd₀ hd₀' : d₀ = d₀')
    rcases hdone.sealed with ⟨hnone, -⟩ | ⟨old, plain', n, new, hold, hnew, hdec', henc⟩
    · rw [hnone] at hbytes
      cases hbytes
    · cases (Option.mem_unique hbytes hold : bytes = old)
      rw [show oldDir E K b = encodeBucketDir E.toPrimitives K.old.pathKey b from rfl, hdec'] at hdec
      cases hdec
      exact ⟨d, new, hd, hnew, decryptMeta_encryptMeta henc⟩

/-- what a walk over `bs` keeps of all buckets -/
theorem kept_all_iff (hs : SoundTree E K all T) (hsub : ∀ b ∈ bs, b ∈ all) (hi : TreeInv E K bs T T')
    (hd : ∀ b ∈ bs, BucketDone E K T T' b) :
    (Kept E K all T T' ∧ ConfigsKept E K all T T') ↔
      ((∀ b ∈ all, HoldsData E K T b → b ∈ bs) ∧ SidecarsFit E K all T) := by
  constructor
  · rintro ⟨hk, hc⟩
    have hlist : ∀ b ∈ all, HoldsData E K T b → b ∈ bs := by
      rintro b hb ⟨d, hdir, hdata⟩
      by_contra hn
      have habsent := unlisted_absent hs hsub hi hb hn
      rcases hdata with ⟨p, o, ho⟩ | hconf
      · obtain ⟨d', hd', -⟩ := hk b hb d hdir p o ho
        rw [habsent] at hd'
        cases hd'
      · obtain ⟨bytes, hbytes⟩ := Option.ne_none_iff_exists'.1 hconf
        obtain ⟨plain, -, hdec⟩ := (hs.dirs b hb d hdir).config bytes hbytes
        obtain ⟨d', -, hd', -⟩ := hc b hb d hdir bytes hbytes plain hdec
        rw [habsent] at hd'
        cases hd'
    refine ⟨hlist, fun b hb d hdir p o ho => ?_⟩
    have hfit := (kept_iff hd).1 fun b hb => hk b (hsub b hb)
    exact hfit b (hlist b hb ⟨d, hdir, Or.inl ⟨p, o, ho⟩⟩) d hdir p o ho
  · rintro ⟨hlist, hfit⟩
    have hk := (kept_iff hd).2 fun b hb => hfit b (hsub b hb)
    refine ⟨fun b hb d hdir p o ho => ?_, fun b hb d hdir bytes hbytes => ?_⟩
    · exact hk b (hlist b hb ⟨d, hdir, Or.inl ⟨p, o, ho⟩⟩) d hdir p o ho
    · refine configsKept_of_done hd b (hlist b hb ⟨d, hdir, Or.inr ?_⟩) d hdir bytes hbytes
      rw [show d.config = some bytes from hbytes]
      exact Option.some_ne_none bytes

/-- **No object is left behind exactly if every bucket that holds one is listed.** For a tree whose buckets `all` are readable
under the old key, whatever the index holds: after a run that returned, every object and every config opens under the new key
at its new path iff the index, opened under the old key, lists every bucket that holds one, and the sidecars fit. -/
theorem covers_iff_listed {oldKey : Except CryptoError Bytes} (hsep : Separate E (rotationKeys E.toPrimitives oldNk newNk))
    (hs : SoundTree E (rotationKeys E.toPrimitives oldNk newNk) all s.tree)
    (hsub : ∀ b ∈ listed E.toPrimitives oldNk s.index, b ∈ all) (hfrom : RotatesFrom E.toPrimitives oldKey oldNk newNk s)
    (hok : (run E H (rotateTree E oldNk newNk) S oldKey (.ok newNk)).result s = .ok ()) :
    (Kept E (rotationKeys E.toPrimitives oldNk newNk) all s.tree
        ((run E H (rotateTree E oldNk newNk) S oldKey (.ok newNk)).final s).tree ∧
      ConfigsKept E (rotationKeys E.toPrimitives oldNk newNk) all s.tree
        ((run E H (rotateTree E oldNk newNk) S oldKey (.ok newNk)).final s).tree) ↔
      ((∀ b ∈ all, HoldsData E (rotationKeys E.toPrimitives oldNk newNk) s.tree b →
          b ∈ listed E.toPrimitives oldNk s.index) ∧
        SidecarsFit E (rotationKeys E.toPrimitives oldNk newNk) all s.tree) := by
  have hwalked := run_walked hfrom hok
  have hs' := soundTree_mono hs hsub
  rw [hwalked.tree]
  exact kept_all_iff hs hsub (crash_inv hsep hs' hs'.inv (Crash.final _ _)) (run_done hsep hs' hs'.inv hs'.clean)

/-! ## The real walk on buckets without objects -/

/-- without objects no interrupted walk is unclean, so the real walk is resumable -/
theorem rotateTree_resumable (hsep : Separate E (rotationKeys E.toPrimitives oldNk newNk))
    (hs : SoundTree E (rotationKeys E.toPrimitives oldNk newNk) bs T)
    (hnone : ∀ b ∈ bs, ∀ d ∈ T.lookup (oldDir E (rotationKeys E.toPrimitives oldNk newNk) b), d.objFiles = []) :
    Resumable (rotateTree E oldNk newNk) (fun l => l = bs) (fun l => l = [])
      (TreeInv E (rotationKeys E.toPrimitives oldNk newNk) bs T)
      (fun t => TreeInv E (rotationKeys E.toPrimitives oldNk newNk) bs T t ∧
        ∀ b ∈ bs, BucketDone E (rotationKeys E.toPrimitives oldNk newNk) T t b) := by
  have hclean : ∀ t, TreeClean E (rotationKeys E.toPrimitives oldNk newNk) bs T t := by
    intro t b hb d₀ hd₀ d _ p o ho
    have hmem := BucketDir.mem_objFiles.2 ⟨ho.mem, ho.ext⟩
    rw [hnone b hb d₀ hd₀] at hmem
    cases hmem
  refine ⟨?_, ?_, fun _ h => h.1⟩
  · rintro S l rfl t ht
    obtain ⟨hc, hq, he⟩ := run_clean (O := S.oracle) hsep hs t ⟨ht, hclean t⟩
    exact ⟨hc, fun a ha => ⟨hc _ (Crash.final _ t), hq a ha⟩, he⟩
  · rintro S l rfl
    exact Spec.pure _ (fun _ h => h) fun _ h => h

/-! ## Instances -/

/-- a config as `encrypt_meta` seals it -/
def sampleConfig : Bytes :=
  VERSION_BYTE_PADDED :: (List.replicate 12 0 ++ sampleEnv.aead.encrypt sampleKeys.old.bck (List.replicate 12 0)
    (utf8 (oldDir sampleEnv sampleKeys "b")) (metaPlain [7] BUCKET_CONFIG_PAD_BLOCK))

theorem sampleConfig_opens :
    decryptMeta sampleEnv.toPrimitives sampleKeys.old.bck sampleConfig (oldDir sampleEnv sampleKeys "b") = .ok [7] :=
  decryptMeta_encryptMeta (show encryptMeta sampleEnv.toPrimitives sampleKeys.old.bck [7] (oldDir sampleEnv sampleKeys "b")
    BUCKET_CONFIG_PAD_BLOCK ⟨List.replicate 12 0, rfl⟩ = .ok sampleConfig from rfl)

/-- one bucket with a config and no object -/
def configTree : Tree := Finmap.singleton (oldDir sampleEnv sampleKeys "b") ⟨some sampleConfig, none, ∅⟩

theorem configTree_lookup {b : String} (hb : b ∈ ["b"]) {d : BucketDir}
    (hd : d ∈ configTree.lookup (oldDir sampleEnv sampleKeys b)) : d = ⟨some sampleConfig, none, ∅⟩ := by
  rw [List.mem_singleton.1 hb, configTree, Finmap.lookup_singleton_eq, Option.mem_some_iff] at hd
  exact hd.symm

theorem configTree_bare {b : String} (hb : b ∈ ["b"]) {d : BucketDir}
    (hd : d ∈ configTree.lookup (oldDir sampleEnv sampleKeys b)) : d.objFiles = [] := by
  rw [configTree_lookup hb hd]
  rfl

theorem configTree_sound : SoundTree sampleEnv sampleKeys ["b"] configTree := by
  have hb : ∀ b, b ∈ ["b"] → b = "b" := fun b hb => List.mem_singleton.1 hb
  have hstored : ∀ p o, ¬ Stored sampleEnv sampleKeys ⟨some sampleConfig, none, ∅⟩ p o := by
    intro p o h
    cases h.file
  refine ⟨fun b hb' d hd => ?_, fun b hb' => ?_, fun b hb' b' hb'' => ?_, fun b hb' b' hb'' _ => ?_, fun b hb' b' hb'' _ => ?_⟩
  · rw [configTree_lookup hb' hd]
    refine ⟨fun p hp => ?_, fun c hc => ?_, fun p o h => absurd h (hstored p o), fun p o p' o' h => absurd h (hstored p o)⟩
    · cases hp
    · cases hc
      rw [hb b hb']
      exact ⟨[7], by decide, sampleConfig_opens⟩
  · rw [hb b hb', configTree, Finmap.mem_singleton]
    exact sample_names
  · rw [hb b hb', hb b' hb'']
    exact sample_names.symm
  · rw [hb b hb', hb b' hb'']
  · rw [hb b hb', hb b' hb'']

/-- the sample node with this bucket in its tree -/
def configNode : Node := { sampleNode with tree := configTree }

theorem listed_configNode : listed sampleEnv.toPrimitives [1] configNode.index = ["b"] := by
  change (IndexDb.listBuckets ⟨[], ["b"]⟩) = ["b"]
  simp [IndexDb.listBuckets]

theorem sample_indexKeys :
    deriveIndexFileKey sampleEnv.toPrimitives [2] = deriveIndexFileKey sampleEnv.toPrimitives [1] → ∀ bs : List String, bs = [] :=
  fun h => absurd h (by decide)

/-- a node like the sample, in an operator-mode rotation with the real walk -/
theorem sample_returns {tree : Tree} {index : IndexFile} {A : List String → Prop} {W D : Tree → Prop}
    (hw : Resumable (rotateTree sampleEnv [1] [2]) A (fun l => l = []) W D) {db : IndexDb}
    (hdb : indexAs sampleEnv.toPrimitives [1] index = some db) (hA : A db.listBuckets) (hW : W tree) :
    (run sampleEnv sampleHashes (rotateTree sampleEnv [1] [2]) sampleSurroundings (.ok [1]) (.ok [2])).result
      { sampleNode with tree := tree, index := index } = .ok () := by
  have hrot : Rotating sampleEnv A (fun l => l = []) W D [1] [2] { sampleNode with tree := tree, index := index } :=
    ⟨rfl, sampleNode_rotating.manifest, Or.inl rfl, ⟨∅, usersHold_old ∅⟩, Or.inl ⟨db, hdb, hA, hW⟩, Or.inl sampleNode_verifies⟩
  obtain ⟨-, -, herr⟩ := run_resumes (H := sampleHashes) hw rfl sample_indexKeys (by decide) sampleSurroundings
    { sampleNode with tree := tree, index := index } ⟨hrot, sampleNode_verifies⟩
  cases hr : (run sampleEnv sampleHashes (rotateTree sampleEnv [1] [2]) sampleSurroundings (.ok [1]) (.ok [2])).result
      { sampleNode with tree := tree, index := index } with
  | ok a => rfl
  | error e => exact (herr e hr).elim

theorem configNode_returns :
    (run sampleEnv sampleHashes (rotateTree sampleEnv [1] [2]) sampleSurroundings (.ok [1]) (.ok [2])).result configNode = .ok () :=
  sample_returns (rotateTree_resumable sample_separate configTree_sound fun _ hb _ hd => configTree_bare hb hd)
    (indexAs_sealed _ _ _) listed_configNode configTree_sound.inv

/-- one bucket with a config, listed: its config opens under the new key afterwards -/
theorem covers_one_config :
    (run sampleEnv sampleHashes (rotateTree sampleEnv [1] [2]) sampleSurroundings (.ok [1]) (.ok [2])).result configNode = .ok () ∧
    ConfigsKept sampleEnv sampleKeys ["b"] configTree
      ((run sampleEnv sampleHashes (rotateTree sampleEnv [1] [2]) sampleSurroundings (.ok [1]) (.ok [2])).final configNode).tree := by
  have hlisted : ∀ b ∈ listed sampleEnv.toPrimitives [1] configNode.index, b ∈ ["b"] := fun b hb => by
    rw [listed_configNode] at hb
    exact hb
  refine ⟨configNode_returns, ((covers_iff_listed (s := configNode) sample_separate configTree_sound hlisted (Or.inl ⟨rfl, rfl⟩)
    configNode_returns).2 ⟨fun b hb _ => ?_, fun b hb d hd p o ho => ?_⟩).2⟩
  · rw [listed_configNode]
    exact hb
  · have hmem := BucketDir.mem_objFiles.2 ⟨ho.mem, ho.ext⟩
    rw [configTree_bare hb hd] at hmem
    cases hmem

/-- the sample node with one object in its bucket and the index file gone -/
def unindexedNode : Node := { sampleNode with tree := sampleTree paddedSidecar, index := none }

/-- **An object left behind.** With the index absent the walk list is empty: the run returns, the verifier is the new key's, and
the object is not readable under it. -/
theorem object_left_behind :
    (run sampleEnv sampleHashes (rotateTree sampleEnv [1] [2]) sampleSurroundings (.ok [1]) (.ok [2])).result unindexedNode = .ok () ∧
    SoundTree sampleEnv sampleKeys ["b"] unindexedNode.tree ∧ SidecarsFit sampleEnv sampleKeys ["b"] unindexedNode.tree ∧
    ¬ Kept sampleEnv sampleKeys ["b"] unindexedNode.tree
      ((run sampleEnv sampleHashes (rotateTree sampleEnv [1] [2]) sampleSurroundings (.ok [1]) (.ok [2])).final unindexedNode).tree := by
  have hw : Resumable (rotateTree sampleEnv [1] [2]) (fun l => l = []) (fun l => l = []) (fun t => t = sampleTree paddedSidecar)
      (fun t => t = sampleTree paddedSidecar) := by
    refine ⟨?_, ?_, fun _ h => h⟩
    · rintro S l rfl
      exact Spec.pure _ (fun _ h => h) fun _ h => h
    · rintro S l rfl
      exact Spec.pure _ (fun _ h => h) fun _ h => h
  have hok : (run sampleEnv sampleHashes (rotateTree sampleEnv [1] [2]) sampleSurroundings (.ok [1]) (.ok [2])).result
      unindexedNode = .ok () := @sample_returns _ none _ _ _ hw _ rfl listBuckets_emptyDb rfl
  refine ⟨hok, padded_sound, padded_fit, fun hk => ?_⟩
  have hstored := sample_stored (by rw [padded_length]; decide) (decryptMeta_encryptMeta padded_sealed)
  obtain ⟨d, hd, -⟩ := hk "b" List.mem_cons_self (sampleDir paddedSidecar) Finmap.lookup_singleton_eq _ _ hstored
  have htree : ((run sampleEnv sampleHashes (rotateTree sampleEnv [1] [2]) sampleSurroundings (.ok [1]) (.ok [2])).final
      unindexedNode).tree = sampleTree paddedSidecar := by
    have hwalk : walkOf sampleEnv sampleSurroundings [1] [2] unindexedNode = pure ⟨0, 0, 0⟩ := by
      unfold walkOf
      rw [show listed sampleEnv.toPrimitives [1] unindexedNode.index = [] from listBuckets_emptyDb]
      rfl
    rw [(run_walked (Or.inl ⟨rfl, rfl⟩) hok).tree, hwalk]
    rfl
  rw [htree] at hd
  exact padded_sound.fresh "b" List.mem_cons_self (Finmap.mem_of_lookup_eq_some hd)

end Y2q.NodeKeyRotation
