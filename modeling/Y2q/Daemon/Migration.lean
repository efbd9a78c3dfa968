/-
What `migrate` (`node_key_rotation.rs`) does at each crash point, given what the tree walk does.

The index decides whether the tree is walked. While it opens under the old key it lists the buckets to walk; once the walk
has returned it is deleted and rebuilt under the new key, so that a later run skips the walk. A crash just after the
deletion leaves a state that opens, empty, under the old key again: the next run walks an empty list.

- `Resumable walk A B W D`: from a tree in `W` a walk over a list in `A` cannot fail and ends in `D`; a walk over a list in
  `B` keeps `D`.
- `Phase`: before the walk has returned (`A` and `W`) or after (`B` and `D`), by what the index shows under the old key.
- `migrate_spec`: a migration cannot fail, keeps `Phase` at every crash point and ends with tree, index and user store on the
  new key. `migrate_tree` says where the tree ends for any walk.
-/
import Mathlib.Tactic
import Y2q.Daemon.NodeKeyRotation
import Y2q.Storage.RotationResume

namespace Y2q.NodeKeyRotation

open CrashLogic NodeKeys Keystore Index EncryptedBackend

variable {E : Env} {walk : Walk} {S : Surroundings} {oldNk newNk : Bytes} {s t : Node}
variable {A B : List String → Prop} {W D : Tree → Prop} {ks₀ : KeystoreDir} {R : Users}

/-! ## The index -/

/-- the index as the holder of a node key would see it -/
def indexAs (P : Primitives) (nk : Bytes) (f : IndexFile) : Option IndexDb :=
  opensAs .Recreate (deriveIndexFileKey P nk) emptyDb f

/-- only a file sealed under another key does not open -/
theorem indexAs_eq_none {P : Primitives} {nk : Bytes} {f : IndexFile} (h : indexAs P nk f = none) :
    ∃ k c, f = some (.sealed k c) ∧ k ≠ deriveIndexFileKey P nk := by
  match f with
  | none => cases h
  | some .blank => cases h
  | some .foreign => cases h
  | some (.sealed k c) =>
    refine ⟨k, c, rfl, fun hk => ?_⟩
    rw [indexAs, opensAs_sealed, if_pos hk] at h
    cases h

theorem openIndex_spec (nk : Bytes) (s : Node) :
    Spec (fun u => u = s) (onIndex (openIndex E.toPrimitives nk))
      (fun db u => indexAs E.toPrimitives nk s.index = some db ∧
        u = { s with index := some (.sealed (deriveIndexFileKey E.toPrimitives nk) db) })
      (fun _ u => indexAs E.toPrimitives nk s.index = none ∧ u = s)
      (fun u => ∃ f, u = { s with index := f } ∧ (f = s.index ∨ ((∀ k c, s.index ≠ some (.sealed k c)) ∧
        OpenLeaves (deriveIndexFileKey E.toPrimitives nk) emptyDb s.index f))) := by
  refine Spec.zoom s rfl (openDb_spec .Recreate _ emptyDb s.index) rfl ?_ ?_ ?_
  · rintro db f ⟨h, rfl⟩
    exact ⟨h, rfl⟩
  · rintro e f ⟨h, rfl⟩
    exact ⟨h, rfl⟩
  · intro f hf
    exact ⟨f, rfl, hf⟩

/-- opening creates nothing but the empty tables, so a crash of it shows the same -/
theorem indexAs_leaves {P : Primitives} {nk : Bytes} {f g : IndexFile} (hg : g = f ∨ ((∀ k c, f ≠ some (.sealed k c)) ∧
    OpenLeaves (deriveIndexFileKey P nk) emptyDb f g)) : indexAs P nk g = indexAs P nk f := by
  rcases hg with rfl | ⟨hns, hg⟩
  · rfl
  · have hf : indexAs P nk f = some emptyDb := by
      match f with
      | none => rfl
      | some .blank => rfl
      | some .foreign => rfl
      | some (.sealed k c) => exact absurd rfl (hns k c)
    rcases hg with rfl | rfl | rfl
    · rfl
    · rw [hf]; rfl
    · rw [hf]; exact if_pos rfl

theorem indexAs_sealed (P : Primitives) (nk : Bytes) (db : IndexDb) :
    indexAs P nk (some (.sealed (deriveIndexFileKey P nk) db)) = some db := if_pos rfl

theorem bucketsNeedingWalk_spec (oldNk newNk : Bytes) (s : Node) :
    Spec (fun u => u = s) (bucketsNeedingWalk E oldNk newNk)
      (fun o u => (∃ db, indexAs E.toPrimitives oldNk s.index = some db ∧ o = some db.listBuckets ∧
          u = { s with index := some (.sealed (deriveIndexFileKey E.toPrimitives oldNk) db) }) ∨
        (indexAs E.toPrimitives oldNk s.index = none ∧ o = none ∧ u = s))
      (fun _ _ => indexAs E.toPrimitives oldNk s.index = none ∧ indexAs E.toPrimitives newNk s.index = none)
      (fun u => ∃ f, u = { s with index := f } ∧
        indexAs E.toPrimitives oldNk f = indexAs E.toPrimitives oldNk s.index ∧ (f = s.index ∨
          indexAs E.toPrimitives oldNk s.index ≠ none)) := by
  refine Spec.bind (Spec.attempt ((openIndex_spec oldNk s).conseq (fun _ h => h) (fun _ _ h => h) (fun _ _ h => h) ?_)
    (B := fun o u => (∃ db, indexAs E.toPrimitives oldNk s.index = some db ∧ o = .ok db ∧
        u = { s with index := some (.sealed (deriveIndexFileKey E.toPrimitives oldNk) db) }) ∨
      (∃ e, o = .error e ∧ indexAs E.toPrimitives oldNk s.index = none ∧ u = s)) ?_ ?_) fun o => Spec.of_states ?_
  · rintro u ⟨f, rfl, hf⟩
    refine ⟨f, rfl, indexAs_leaves hf, hf.imp_right fun h hn => ?_⟩
    obtain ⟨k, c, hk, -⟩ := indexAs_eq_none hn
    exact h.1 k c hk
  · rintro db u ⟨h, rfl⟩
    exact Or.inl ⟨db, h, rfl, rfl⟩
  · rintro e u ⟨h, rfl⟩
    exact Or.inr ⟨e, rfl, h, rfl⟩
  · rintro u (⟨db, hdb, rfl, rfl⟩ | ⟨e, rfl, hnone, rfl⟩)
    · refine Spec.pure _ ?_ ?_
      · rintro u rfl
        exact Or.inl ⟨db, hdb, rfl, rfl⟩
      · rintro u rfl
        refine ⟨_, rfl, ?_, Or.inr (by rw [hdb]; exact Option.some_ne_none db)⟩
        rw [indexAs_sealed, hdb]
    · -- the file is sealed under another key than the old one; opening it changes nothing
      obtain ⟨k, c, hk, -⟩ := indexAs_eq_none hnone
      refine Spec.bind (Spec.attempt ((openIndex_spec newNk u).conseq (fun _ h => h) (fun _ _ h => h) (fun _ _ h => h) ?_)
        (B := fun o v => v = u ∧ ((∃ db, o = .ok db) ∨ (∃ e, o = .error e) ∧
          indexAs E.toPrimitives newNk u.index = none)) ?_ ?_) fun o => Spec.of_states ?_
      · rintro v ⟨f, rfl, rfl | ⟨hns, -⟩⟩
        · exact ⟨u.index, rfl, rfl, Or.inl rfl⟩
        · exact absurd hk (hns k c)
      · rintro db v ⟨h, rfl⟩
        refine ⟨?_, Or.inl ⟨db, rfl⟩⟩
        rw [indexAs, hk, opensAs_sealed] at h
        split_ifs at h with hkey
        cases h
        rw [← hkey, ← hk]
      · rintro e v ⟨h, rfl⟩
        exact ⟨rfl, Or.inr ⟨⟨e, rfl⟩, h⟩⟩
      · have hcrash : ∀ v : Node, v = u → ∃ f, v = { u with index := f } ∧
            indexAs E.toPrimitives oldNk f = indexAs E.toPrimitives oldNk u.index ∧ (f = u.index ∨
              indexAs E.toPrimitives oldNk u.index ≠ none) := by
          rintro v rfl
          exact ⟨v.index, rfl, rfl, Or.inl rfl⟩
        rintro v ⟨rfl, ⟨db, rfl⟩ | ⟨⟨e, rfl⟩, hnew⟩⟩
        · exact Spec.pure _ (fun w hw => Or.inr ⟨hnone, rfl, hw⟩) hcrash
        · refine Spec.get_bind ?_
          rintro w rfl
          have hsome : w.index.isSome = true := by rw [hk]; rfl
          simp only [hsome, if_true]
          exact Spec.throw (fun _ _ => ⟨hnone, hnew⟩) hcrash

/-! ## The rebuild -/

/-- what a crash of the rebuild may leave of the index -/
def Rebuilding (P : Primitives) (newNk : Bytes) (f₀ f : IndexFile) : Prop :=
  f = f₀ ∨ f = none ∨ f = some .blank ∨ SealedUnder (deriveIndexFileKey P newNk) f

/-- the buckets of a rebuilt index: those of the readable object files -/
def Rebuilt (E : Env) (S : Surroundings) (newNk : Bytes) (t : Tree) (db : IndexDb) : Prop :=
  ∀ b, b ∈ db.listBuckets ↔
    ∃ f ∈ S.objFiles t, ∃ m, readObjMetadata E (deriveStoreKeys E.toPrimitives newNk) t f.1 f.2 = some m ∧ m.bucket = b

theorem rebuildIndex_spec (S : Surroundings) (newNk : Bytes) (s : Node) :
    Spec (fun u => u = s) (rebuildIndex E S newNk)
      (fun _ u => ∃ db, u = { s with index := some (.sealed (deriveIndexFileKey E.toPrimitives newNk) db) } ∧
        Rebuilt E S newNk s.tree db)
      (fun _ _ => False) (fun u => ∃ f, u = { s with index := f } ∧ Rebuilding E.toPrimitives newNk s.index f) := by
  refine Spec.bind (R := fun _ u => u = { s with index := none }) (Spec.modify ?_ ?_ ?_) fun _ => ?_
  · rintro u rfl; rfl
  · rintro u rfl; exact ⟨u.index, rfl, Or.inl rfl⟩
  · rintro u rfl; exact ⟨none, rfl, Or.inr (Or.inl rfl)⟩
  -- the file is gone when it is opened, so this creates it
  refine Spec.bind (R := fun _ u => u = { s with index := some (.sealed (deriveIndexFileKey E.toPrimitives newNk) emptyDb) })
    ((openIndex_spec newNk { s with index := none }).conseq (fun _ h => h) ?_ ?_ ?_) fun _ => Spec.get_bind ?_
  · rintro db u ⟨hdb, rfl⟩
    cases hdb
    rfl
  · rintro e u ⟨hnone, -⟩
    cases hnone
  · rintro u ⟨f, rfl, hf⟩
    refine ⟨f, rfl, ?_⟩
    rcases hf with rfl | ⟨-, rfl | rfl | rfl⟩
    · exact Or.inr (Or.inl rfl)
    · exact Or.inr (Or.inl rfl)
    · exact Or.inr (Or.inr (Or.inl rfl))
    · exact Or.inr (Or.inr (Or.inr ⟨_, rfl⟩))
  · rintro u rfl
    refine Spec.mapError (Spec.zoom _ rfl (runRebuild_fresh E _ _ _ _) rfl ?_ ?_ ?_) fun _ _ h => h
    · rintro _ f ⟨db, rfl, hdb⟩
      refine ⟨db, rfl, fun b => ?_⟩
      rw [hdb b]
      simp only [List.mem_map]
      constructor
      · rintro ⟨m, ⟨f, hf, hm⟩, hb⟩
        exact ⟨f, hf, m, hm, hb⟩
      · rintro ⟨f, hf, m, hm, hb⟩
        exact ⟨m, ⟨f, hf, hm⟩, hb⟩
    · exact fun _ _ h => h
    · intro f hf
      exact ⟨f, rfl, Or.inr (Or.inr (Or.inr hf))⟩

/-! ## The migration -/

/-- the walk with its list, then the index, then the users -/
theorem migrate_eq (walk : Walk) (S : Surroundings) (oldNk newNk : Bytes) :
    migrate E walk S oldNk newNk =
      (bucketsNeedingWalk E oldNk newNk >>= walkTree walk S) >>= fun _ => rebuildIndex E S newNk >>= fun _ =>
        context "re-key user store: " (onKeystore (rekeyUserStore E.toPrimitives oldNk newNk)) := by
  rw [Prog.bind_bind]
  rfl

/-- what the migration relies on of the walk: it cannot fail, and its interruptions are harmless -/
structure Resumable (walk : Walk) (A B : List String → Prop) (W D : Tree → Prop) : Prop where
  /-- a walk of the tree in progress completes it -/
  walks : ∀ S bs, A bs → Spec W (walk S bs) (fun _ => D) (fun _ _ => False) W
  /-- a walk of a completed tree keeps it -/
  rewalks : ∀ S bs, B bs → Spec D (walk S bs) (fun _ => D) (fun _ _ => False) D
  le : ∀ t, D t → W t

/-- where a rotation is, by what the index shows: the tree is being walked, or the walk is behind -/
def Phase (P : Primitives) (oldNk newNk : Bytes) (A B : List String → Prop) (W D : Tree → Prop) (s : Node) : Prop :=
  (∃ db, indexAs P oldNk s.index = some db ∧ A db.listBuckets ∧ W s.tree) ∨
    ((∀ db, indexAs P oldNk s.index = some db → B db.listBuckets) ∧
      (indexAs P oldNk s.index = none → indexAs P newNk s.index ≠ none) ∧ D s.tree)

/-- the phase depends on what the index shows under the two keys alone -/
theorem Phase.congr {P : Primitives} (h : Phase P oldNk newNk A B W D s)
    (hi : indexAs P oldNk t.index = indexAs P oldNk s.index)
    (hn : indexAs P oldNk s.index = none → indexAs P newNk t.index = indexAs P newNk s.index) (ht : t.tree = s.tree) :
    Phase P oldNk newNk A B W D t := by
  unfold Phase
  rw [hi, ht]
  rcases h with h | ⟨h1, h2, h3⟩
  · exact Or.inl h
  · exact Or.inr ⟨h1, fun hnone => by rw [hn hnone]; exact h2 hnone, h3⟩

/-- at every crash point of a rebuild after the walk -/
theorem Phase.rebuilding {P : Primitives} (hB : B []) (hfresh : deriveIndexFileKey P newNk = deriveIndexFileKey P oldNk → ∀ bs, B bs)
    (h : Phase P oldNk newNk A B W D s) (hD : D s.tree) {f : IndexFile} (hf : Rebuilding P newNk s.index f) :
    Phase P oldNk newNk A B W D { s with index := f } := by
  -- an absent or empty file shows the empty tables under the old key
  have hempty : ∀ g : IndexFile, indexAs P oldNk g = some emptyDb → Phase P oldNk newNk A B W D { s with index := g } := by
    intro g hg
    refine Or.inr ⟨fun db hdb => ?_, fun hn => ?_, hD⟩
    · rw [hg] at hdb
      cases hdb
      rw [listBuckets_emptyDb]
      exact hB
    · rw [hg] at hn
      cases hn
  rcases hf with rfl | rfl | rfl | ⟨db, rfl⟩
  · exact h
  · exact hempty none rfl
  · exact hempty (some .blank) rfl
  · refine Or.inr ⟨fun db' hdb' => ?_, fun _ => ?_, hD⟩
    · rw [indexAs, opensAs_sealed] at hdb'
      split_ifs at hdb' with hkey
      exact hfresh hkey _
    · rw [indexAs_sealed]
      exact Option.some_ne_none db

/-- the walk, where the index lists the buckets -/
theorem onTree_walk_spec (hw : Resumable walk A B W D) {db : IndexDb} (hs : indexAs E.toPrimitives oldNk s.index = some db)
    (h : Phase E.toPrimitives oldNk newNk A B W D s) :
    Spec (fun u => u = s) (onTree (walk S db.listBuckets))
      (fun _ u => Phase E.toPrimitives oldNk newNk A B W D u ∧ D u.tree ∧ u.keystore = s.keystore) (fun _ _ => False)
      (fun u => Phase E.toPrimitives oldNk newNk A B W D u ∧ u.keystore = s.keystore) := by
  rcases h with ⟨db', hdb', hA, hW⟩ | ⟨hB, hN, hD⟩
  · obtain rfl : db = db' := Option.some.inj (hs.symm.trans hdb')
    refine Spec.zoom s rfl (hw.walks S _ hA) hW (fun _ t ht => ?_) (fun _ _ h => h) fun t ht => ?_
    · exact ⟨Or.inl ⟨db, hs, hA, hw.le t ht⟩, ht, rfl⟩
    · exact ⟨Or.inl ⟨db, hs, hA, ht⟩, rfl⟩
  · refine Spec.zoom s rfl (hw.rewalks S _ (hB db hs)) hD (fun _ t ht => ?_) (fun _ _ h => h) fun t ht => ?_
    · exact ⟨Or.inr ⟨hB, hN, ht⟩, ht, rfl⟩
    · exact ⟨Or.inr ⟨hB, hN, ht⟩, rfl⟩

/-- the walk, or the knowledge that it is behind -/
theorem walkTree_spec (hw : Resumable walk A B W D) (S : Surroundings) (h : Phase E.toPrimitives oldNk newNk A B W D s) :
    Spec (fun u => u = s) (bucketsNeedingWalk E oldNk newNk >>= walkTree walk S)
      (fun _ u => Phase E.toPrimitives oldNk newNk A B W D u ∧ D u.tree ∧ u.keystore = s.keystore) (fun _ _ => False)
      (fun u => Phase E.toPrimitives oldNk newNk A B W D u ∧ u.keystore = s.keystore) := by
  refine Spec.bind ((bucketsNeedingWalk_spec oldNk newNk s).conseq (fun _ h => h) (fun _ _ h => h) ?_ ?_)
    fun o => Spec.of_states ?_
  · rintro e u ⟨hold, hnew⟩
    rcases h with ⟨db, hdb, -⟩ | ⟨-, h2, -⟩
    · rw [hold] at hdb
      cases hdb
    · exact h2 hold hnew
  · rintro u ⟨f, rfl, hf, hsame⟩
    refine ⟨h.congr hf (fun hn => ?_) rfl, rfl⟩
    rw [hsame.resolve_right (not_not.2 hn)]
  · rintro u (⟨db, hdb, rfl, rfl⟩ | ⟨hnone, rfl, rfl⟩)
    · have hu := h.congr (t := { s with index := some (.sealed (deriveIndexFileKey E.toPrimitives oldNk) db) })
        (by rw [indexAs_sealed, hdb]) (fun hn => by rw [hdb] at hn; cases hn) rfl
      refine Spec.bind (Spec.mapError (onTree_walk_spec hw (indexAs_sealed _ _ db) hu) fun _ _ h => h) fun _ => ?_
      exact Spec.pure _ (fun _ h => h) fun _ h => ⟨h.1, h.2.2⟩
    · rcases id h with ⟨db, hdb, -⟩ | ⟨-, -, hD⟩
      · rw [hnone] at hdb
        cases hdb
      · exact Spec.pure _ (fun v hv => by rw [hv]; exact ⟨h, hD, rfl⟩) fun v hv => by rw [hv]; exact ⟨h, rfl⟩

/-- **The migration is resumable.** It cannot fail from any of its own crash states, and ends on the new key. -/
theorem migrate_spec (hw : Resumable walk A B W D) (hB : B [])
    (hfresh : deriveIndexFileKey E.toPrimitives newNk = deriveIndexFileKey E.toPrimitives oldNk → ∀ bs, B bs)
    (S : Surroundings) (ks₀ : KeystoreDir) (R : Users) :
    Spec (fun s => Phase E.toPrimitives oldNk newNk A B W D s ∧ Rekeying E.toPrimitives ks₀ oldNk newNk R s.keystore)
      (migrate E walk S oldNk newNk)
      (fun _ s => Phase E.toPrimitives oldNk newNk A B W D s ∧ D s.tree ∧ SameButUsers ks₀ s.keystore ∧
        s.keystore.users = some (.sealed (deriveUserStoreFileKey E.toPrimitives newNk) R))
      (fun _ _ => False)
      (fun s => Phase E.toPrimitives oldNk newNk A B W D s ∧ Rekeying E.toPrimitives ks₀ oldNk newNk R s.keystore) := by
  refine Spec.of_states fun s hs => ?_
  obtain ⟨hph, hre⟩ := hs
  have hcut : ∀ u : Node, Phase E.toPrimitives oldNk newNk A B W D u ∧ u.keystore = s.keystore →
      Phase E.toPrimitives oldNk newNk A B W D u ∧ Rekeying E.toPrimitives ks₀ oldNk newNk R u.keystore :=
    fun u hu => ⟨hu.1, by rw [hu.2]; exact hre⟩
  rw [migrate_eq]
  refine Spec.bind ((walkTree_spec hw S hph).conseq (fun _ h => h) (fun _ _ h => h) (fun _ _ h => h) hcut)
    fun _ => Spec.of_states ?_
  rintro u ⟨hphu, hDu, hksu⟩
  -- the index
  refine Spec.bind (R := fun _ v => Phase E.toPrimitives oldNk newNk A B W D v ∧ D v.tree ∧
    Rekeying E.toPrimitives ks₀ oldNk newNk R v.keystore)
    ((rebuildIndex_spec S newNk u).conseq (fun _ h => h) ?_ (fun _ _ h => h) ?_) fun _ => Spec.of_states ?_
  · rintro _ v ⟨db, rfl, -⟩
    obtain ⟨h1, h2⟩ := hcut _ ⟨hphu.rebuilding hB hfresh hDu (Or.inr (Or.inr (Or.inr ⟨db, rfl⟩))), hksu⟩
    exact ⟨h1, hDu, h2⟩
  · rintro v ⟨f, rfl, hf⟩
    exact hcut _ ⟨hphu.rebuilding hB hfresh hDu hf, hksu⟩
  · -- the user store
    rintro v ⟨hphv, hDv, hrev⟩
    refine Spec.mapError (Spec.zoom v rfl (rekeyUserStore_spec ks₀ oldNk newNk R) hrev ?_ (fun _ _ h => h) ?_) fun _ _ h => h
    · rintro _ ks ⟨hsame, husers⟩
      exact ⟨hphv.congr rfl (fun _ => rfl) rfl, hDv, hsame, husers⟩
    · intro ks hks
      exact ⟨hphv.congr rfl (fun _ => rfl) rfl, hks⟩

/-! ## Sample surroundings -/

/-- the object files of a directory -/
def dirFiles (t : Tree) (dir : String) : Finset (String × ShardFile) :=
  match t.lookup dir with
  | none => ∅
  | some d => d.objFiles.toFinset.image fun p => (dir, p)

theorem mem_dirFiles {t : Tree} {dir n : String} {p : ShardFile} :
    (n, p) ∈ dirFiles t dir ↔ n = dir ∧ ∃ d, t.lookup dir = some d ∧ p ∈ d.objFiles := by
  unfold dirFiles
  cases h : t.lookup dir with
  | none => simp
  | some d =>
    simp only [Finset.mem_image, List.mem_toFinset, Prod.mk.injEq]
    constructor
    · rintro ⟨q, hq, rfl, rfl⟩
      exact ⟨rfl, d, rfl, hq⟩
    · rintro ⟨rfl, d', hd', hp⟩
      cases hd'
      exact ⟨p, hp, rfl, rfl⟩

/-- some order of the object files, no device at hand -/
noncomputable def sampleSurroundings : Surroundings where
  oracle := Rotation.sampleOracle
  objFiles t := (t.keys.biUnion (dirFiles t)).toList
  mem_objFiles := by
    intro t dir p
    simp only [Finset.mem_toList, Finset.mem_biUnion, mem_dirFiles]
    constructor
    · rintro ⟨n, -, rfl, h⟩
      exact h
    · rintro ⟨d, hd, hp⟩
      exact ⟨dir, Finmap.mem_keys.2 (Finmap.mem_of_lookup_eq_some hd), rfl, d, hd, hp⟩
  nodup_objFiles t := Finset.nodup_toList _
  devices := ⟨.ok none, fun _ => .error (.keystoreIo "no TPM"), fun _ => .error (.keystoreIo "no terminal"),
    fun _ _ => .error (.keystoreIo "no device"), .ok 0, 0, fun _ => ⟨List.replicate 12 0, length_zeroNonce⟩, ⟨List.replicate 12 0, length_zeroNonce⟩⟩

end Y2q.NodeKeyRotation
