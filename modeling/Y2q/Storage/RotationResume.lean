/-
Rotation of the whole tree: interrupted runs, re-runs, and what they keep.

`SoundTree` is a tree whose listed buckets are all readable under the old keys and whose names do not collide. `TreeInv T S`
holds of every state `S` that interrupted runs on `T` leave: a listed bucket is still under its old name with `DirInv`, or
under its new name and complete.

- `run_clean` / `run_dirty`: a re-run finishes every bucket if no still old-named directory holds a migrated object, and ends in
  an error if one does.
- `Done.kept_iff`: once every bucket is complete, the objects read back unchanged under the new keys exactly if every
  sidecar has the length `encrypt_meta` gives it now; the header is copied with the old length in it.
- `resume_iff_clean`, `preserves_iff_sidecars_fit`: the two together, for a re-run after a crash and for an undisturbed run.
-/
import Mathlib.Tactic
import Y2q.Storage.RotationDir

namespace Y2q.Rotation

open Y2q CrashLogic Format NodeKeys

section Tree

variable (E : Env) (K : RotationKeys) (bs : List String)

def oldDir (b : String) : String := encodeBucketDir E.toPrimitives K.old.pathKey b

def newDir (b : String) : String := encodeBucketDir E.toPrimitives K.new.pathKey b

/-- every listed bucket is readable under the old keys; no two directory names collide -/
structure SoundTree (T : Tree) : Prop where
  dirs : ∀ b ∈ bs, ∀ d ∈ T.lookup (oldDir E K b), SoundDir E K b d
  fresh : ∀ b ∈ bs, newDir E K b ∉ T
  ne : ∀ b ∈ bs, ∀ b' ∈ bs, oldDir E K b ≠ newDir E K b'
  oldInj : ∀ b ∈ bs, ∀ b' ∈ bs, oldDir E K b = oldDir E K b' → b = b'
  newInj : ∀ b ∈ bs, ∀ b' ∈ bs, newDir E K b = newDir E K b' → b = b'

/-- the bucket is complete: it never had a directory, or the directory has its new name and is done -/
def BucketDone (T S : Tree) (b : String) : Prop :=
  S.lookup (oldDir E K b) = none ∧
    ((T.lookup (oldDir E K b) = none ∧ S.lookup (newDir E K b) = none) ∨
      ∃ d₀ d, T.lookup (oldDir E K b) = some d₀ ∧ S.lookup (newDir E K b) = some d ∧ DirDone E K b d₀ d)

/-- the bucket's directory still has its old name -/
def BucketPending (T S : Tree) (b : String) (d₀ d : BucketDir) : Prop :=
  T.lookup (oldDir E K b) = some d₀ ∧ S.lookup (oldDir E K b) = some d ∧ S.lookup (newDir E K b) = none ∧
    DirInv E K b d₀ d

structure TreeInv (T S : Tree) : Prop where
  bucket : ∀ b ∈ bs, BucketDone E K T S b ∨ ∃ d₀ d, BucketPending E K T S b d₀ d
  other : ∀ n, (∀ b ∈ bs, n ≠ oldDir E K b ∧ n ≠ newDir E K b) → S.lookup n = T.lookup n

/-- no still old-named directory of `S` holds a migrated object -/
def TreeClean (T S : Tree) : Prop :=
  ∀ b ∈ bs, ∀ d₀ ∈ T.lookup (oldDir E K b), ∀ d ∈ S.lookup (oldDir E K b), Clean E K d₀ d

/-- every object of a listed bucket of `T` opens under the new keys at its new path in `T'`, to the same data and JSON -/
def Kept (T T' : Tree) : Prop :=
  ∀ b ∈ bs, ∀ d₀ ∈ T.lookup (oldDir E K b), ∀ p o, Stored E K d₀ p o →
    ∃ d, T'.lookup (newDir E K b) = some d ∧
      (d.files.lookup (newFile E K o)).bind (openObject E.toPrimitives K.new (newId E K o)) = some (o.data, o.json)

/-- every sidecar is as long as `encrypt_meta` would make it -/
def SidecarsFit (T : Tree) : Prop :=
  ∀ b ∈ bs, ∀ d₀ ∈ T.lookup (oldDir E K b), ∀ p o, Stored E K d₀ p o →
    o.header.metaLen.toNat = sealedLen o.json.length META_PAD_BLOCK

variable {E K bs} {O : Oracle} {T S t : Tree} {b b' : String} {d₀ d : BucketDir}

/-! ## One bucket -/

theorem SoundTree.inv (hs : SoundTree E K bs T) : TreeInv E K bs T T := by
  refine ⟨fun b hb => ?_, fun _ _ => rfl⟩
  have hnew := Finmap.lookup_eq_none.2 (hs.fresh b hb)
  cases hd : T.lookup (oldDir E K b) with
  | none => exact Or.inl ⟨hd, Or.inl ⟨hd, hnew⟩⟩
  | some d => exact Or.inr ⟨d, d, hd, hd, hnew, DirInv.refl (hs.dirs b hb d hd)⟩

/-- a listed directory that still has its old name is a pending bucket's -/
theorem TreeInv.pending (hi : TreeInv E K bs T S) (hb : b ∈ bs) (hd₀ : d₀ ∈ T.lookup (oldDir E K b))
    (hd : d ∈ S.lookup (oldDir E K b)) : BucketPending E K T S b d₀ d := by
  rcases hi.bucket b hb with ⟨hnone, -⟩ | ⟨d₀', d', hp⟩
  · rw [hnone] at hd; cases hd
  · cases (Option.mem_unique hd₀ hp.1 : d₀ = d₀')
    cases (Option.mem_unique hd hp.2.1 : d = d')
    exact hp

theorem SoundTree.clean (hs : SoundTree E K bs T) : TreeClean E K bs T T := by
  intro b hb d₀ hd₀ d hd
  cases (Option.mem_unique hd₀ hd : d₀ = d)
  exact (hs.dirs b hb d₀ hd₀).fresh

/-- `t` differs from `S` in one bucket's directories at most -/
def Near (E : Env) (K : RotationKeys) (b : String) (S t : Tree) : Prop :=
  ∀ n, n ≠ oldDir E K b → n ≠ newDir E K b → t.lookup n = S.lookup n

theorem Near.dirs (hn : Near E K b S t) (hs : SoundTree E K bs T) (hb : b ∈ bs) (hb' : b' ∈ bs) (hne : b' ≠ b) :
    t.lookup (oldDir E K b') = S.lookup (oldDir E K b') ∧ t.lookup (newDir E K b') = S.lookup (newDir E K b') :=
  ⟨hn _ (fun e => hne (hs.oldInj b' hb' b hb e)) (hs.ne b' hb' b hb),
    hn _ (hs.ne b hb b' hb').symm fun e => hne (hs.newInj b' hb' b hb e)⟩

/-- a step on one bucket keeps the invariant if it keeps it there -/
theorem TreeInv.near (hs : SoundTree E K bs T) (hi : TreeInv E K bs T S) (hb : b ∈ bs) (hn : Near E K b S t)
    (h : BucketDone E K T t b ∨ ∃ d₀ d, BucketPending E K T t b d₀ d) : TreeInv E K bs T t := by
  refine ⟨fun b' hb' => ?_, fun n hn' => ?_⟩
  · by_cases he : b' = b
    · rw [he]; exact h
    · obtain ⟨h1, h2⟩ := hn.dirs hs hb hb' he
      have := hi.bucket b' hb'
      unfold BucketDone BucketPending at this ⊢
      rwa [h1, h2]
  · rw [hn n (hn' b hb).1 (hn' b hb).2]
    exact hi.other n hn'

/-- a completed or absent bucket is skipped -/
theorem rotateBucket_done (h : BucketDone E K T S b) (stats : RotationStats) :
    rotateBucket E O K stats b S = ([], .ok stats) := by
  obtain ⟨hold, hnew⟩ := h
  have hold' : oldDir E K b ∉ S := Finmap.lookup_eq_none.1 hold
  unfold rotateBucket
  rw [Prog.get_bind_apply]
  by_cases hm : newDir E K b ∈ S
  · exact congrFun (if_pos hm) S
  · exact (congrFun (if_neg hm) S).trans (congrFun (if_pos hold') S)

theorem lookup_renameDir {src dst : String} (hne : src ≠ dst) (hd : t.lookup src = some d) :
    (renameDir src dst t).lookup src = none ∧ (renameDir src dst t).lookup dst = some d ∧
      ∀ n, n ≠ src → n ≠ dst → (renameDir src dst t).lookup n = t.lookup n := by
  have hr : renameDir src dst t = (t.erase src).insert dst d := by unfold renameDir; rw [hd]
  rw [hr]
  refine ⟨?_, Finmap.lookup_insert _, fun n h1 h2 => ?_⟩
  · rw [Finmap.lookup_insert_of_ne _ hne, Finmap.lookup_erase]
  · rw [Finmap.lookup_insert_of_ne _ h2, Finmap.lookup_erase_ne h1]

/-- the directory of a pending bucket may change as long as it keeps its own invariant -/
theorem TreeInv.put (hs : SoundTree E K bs T) (hi : TreeInv E K bs T S) (hb : b ∈ bs)
    (hp : BucketPending E K T S b d₀ d) {x : BucketDir} (hx : DirInv E K b d₀ x) :
    TreeInv E K bs T (S.insert (oldDir E K b) x) := by
  refine hi.near hs hb (fun n h1 _ => Finmap.lookup_insert_of_ne _ h1)
    (Or.inr ⟨d₀, x, hp.1, Finmap.lookup_insert _, ?_, hx⟩)
  rw [Finmap.lookup_insert_of_ne _ (hs.ne b hb b hb).symm, hp.2.2.1]

theorem insert_same {n : String} (hd : S.lookup n = some d) : S.insert n d = S := by
  refine Finmap.ext_lookup fun m => ?_
  by_cases hm : m = n
  · rw [hm, Finmap.lookup_insert, hd]
  · rw [Finmap.lookup_insert_of_ne _ hm]

/-- running inside the directory of a pending bucket -/
theorem inDir_spec {α : Type} {p : Prog BucketDir Error α} {Q : α → BucketDir → Prop} {Er : Error → BucketDir → Prop}
    (hs : SoundTree E K bs T) (hi : TreeInv E K bs T S) (hb : b ∈ bs) (hp : BucketPending E K T S b d₀ d)
    (hspec : Spec (fun x => x = d) p Q Er (DirInv E K b d₀)) :
    Spec (fun t => t = S) (inDir (oldDir E K b) p)
      (fun a t => ∃ x, Q a x ∧ DirInv E K b d₀ x ∧ t = S.insert (oldDir E K b) x)
      (fun e t => ∃ x, Er e x ∧ t = S.insert (oldDir E K b) x) (TreeInv E K bs T) := by
  have hget : ((S.lookup (oldDir E K b)).getD ⟨none, none, ∅⟩ : BucketDir) = d := by rw [hp.2.1]; rfl
  have hset := insert_same hp.2.1
  -- the directory at the end of the run also satisfies the crash condition
  have hboth : Spec (fun x => x = d) p (fun a x => Q a x ∧ DirInv E K b d₀ x) Er (DirInv E K b d₀) := by
    intro x hx
    obtain ⟨hc, hq, he⟩ := hspec x hx
    exact ⟨hc, fun a ha => ⟨hq a ha, hc _ (Crash.final p x)⟩, he⟩
  refine Spec.zoom S (by rw [hget, hset]) hboth hget (fun a x hx => ?_) (fun e x hx => ?_)
    fun x hx => hi.put hs hb hp hx
  · exact ⟨x, hx.1, hx.2, rfl⟩
  · exact ⟨x, hx, rfl⟩

theorem rotateBucket_pending (hp : BucketPending E K T S b d₀ d) (stats : RotationStats) :
    ∀ t, t = S → rotateBucket E O K stats b t =
      (do let stats ← inDir (oldDir E K b) (migrateBucketDir E O K b stats)
          Prog.modify (renameDir (oldDir E K b) (newDir E K b))
          pure { stats with bucketsMigrated := stats.bucketsMigrated + 1 } : Prog Tree Error RotationStats) t := by
  rintro t rfl
  obtain ⟨-, hd, hnew, -⟩ := hp
  have hn : newDir E K b ∉ t := Finmap.lookup_eq_none.1 hnew
  have ho : ¬ oldDir E K b ∉ t := not_not.2 (Finmap.lookup_isSome.1 (by rw [hd]; rfl))
  unfold rotateBucket
  rw [Prog.get_bind_apply]
  exact (congrFun (if_neg hn) t).trans (congrFun (if_neg ho) t)

/-- **One clean bucket.** The step cannot fail, completes the bucket and leaves the others alone. -/
theorem rotateBucket_clean (hsep : Separate E K) (hs : SoundTree E K bs T) (hi : TreeInv E K bs T S) (hb : b ∈ bs)
    (hcl : ∀ d₀ ∈ T.lookup (oldDir E K b), ∀ d ∈ S.lookup (oldDir E K b), Clean E K d₀ d) (stats : RotationStats) :
    Spec (fun t => t = S) (rotateBucket E O K stats b)
      (fun _ t => TreeInv E K bs T t ∧ Near E K b S t ∧ BucketDone E K T t b) (fun _ _ => False) (TreeInv E K bs T) := by
  rcases hi.bucket b hb with hdone | ⟨d₀, d, hp⟩
  · refine Spec.of_apply ?_
    rintro t rfl
    refine ⟨hi, [], _, rotateBucket_done hdone stats, ?_, fun _ _ => ⟨hi, fun _ _ _ => rfl, hdone⟩, ?_⟩
    · intro t' ht'; cases ht'
    · intro e he; cases he
  · have hdir := hs.dirs b hb d₀ hp.1
    have hdirSpec := (migrateBucketDir_clean (O := O) hsep hdir stats).conseq (A := fun x => x = d)
      (by rintro x rfl; exact ⟨hp.2.2.2, hcl d₀ hp.1 x hp.2.1⟩) (fun _ _ h => h) (fun _ _ h => h) fun _ h => h
    have hmid := inDir_spec hs hi hb hp hdirSpec
    -- the rename completes the bucket
    have hren : ∀ x, DirDone E K b d₀ x → TreeInv E K bs T (renameDir (oldDir E K b) (newDir E K b)
        (S.insert (oldDir E K b) x)) ∧ Near E K b S (renameDir (oldDir E K b) (newDir E K b) (S.insert (oldDir E K b) x)) ∧
        BucketDone E K T (renameDir (oldDir E K b) (newDir E K b) (S.insert (oldDir E K b) x)) b := by
      intro x hx
      obtain ⟨h1, h2, h3⟩ := lookup_renameDir (hs.ne b hb b hb) (Finmap.lookup_insert (a := oldDir E K b) (b := x) S)
      have hnear : Near E K b S (renameDir (oldDir E K b) (newDir E K b) (S.insert (oldDir E K b) x)) := by
        intro n hn1 hn2
        rw [h3 n hn1 hn2, Finmap.lookup_insert_of_ne _ hn1]
      have hdone : BucketDone E K T (renameDir (oldDir E K b) (newDir E K b) (S.insert (oldDir E K b) x)) b :=
        ⟨h1, Or.inr ⟨d₀, x, hp.1, h2, hx⟩⟩
      exact ⟨hi.near hs hb hnear (Or.inl hdone), hnear, hdone⟩
    refine Spec.congr ?_ (rotateBucket_pending hp stats)
    refine Spec.bind (hmid.conseq (fun _ h => h) (fun _ _ h => h) (fun _ _ h => h.elim fun _ h => h.1) fun _ h => h)
      fun stats' => ?_
    refine Spec.bind (R := fun _ t => TreeInv E K bs T t ∧ Near E K b S t ∧ BucketDone E K T t b)
      (Spec.modify ?_ ?_ ?_) fun _ => Spec.pure _ (fun _ h => h) fun _ h => h.1
    · rintro t ⟨x, hx, -, rfl⟩; exact hren x hx
    · rintro t ⟨x, -, hx, rfl⟩; exact hi.put hs hb hp hx
    · rintro t ⟨x, hx, -, rfl⟩; exact (hren x hx).1

/-- **One bucket with a migrated object in its old-named directory.** The step fails. -/
theorem rotateBucket_dirty (hsep : Separate E K) (hs : SoundTree E K bs T) (hi : TreeInv E K bs T S) (hb : b ∈ bs)
    (hp : BucketPending E K T S b d₀ d) (hcl : ¬ Clean E K d₀ d) (stats : RotationStats) :
    Spec (fun t => t = S) (rotateBucket E O K stats b) (fun _ _ => False) (fun _ _ => True) (TreeInv E K bs T) := by
  have hdirSpec := (migrateBucketDir_dirty (O := O) hsep (hs.dirs b hb d₀ hp.1) stats).conseq (A := fun x => x = d)
    (by rintro x rfl; exact ⟨hp.2.2.2, hcl⟩) (fun _ _ h => h) (fun _ _ h => h) fun _ h => h
  refine Spec.congr ?_ (rotateBucket_pending hp stats)
  refine Spec.bind (R := fun _ _ => False) ((inDir_spec hs hi hb hp hdirSpec).conseq (fun _ h => h) ?_
    (fun _ _ _ => trivial) fun _ h => h) fun stats' t h => h.elim
  rintro _ _ ⟨x, h, -⟩
  exact h

/-! ## The whole tree -/

/-- on a clean tree the run cannot fail and completes every bucket -/
theorem run_clean (hsep : Separate E K) (hs : SoundTree E K bs T) :
    Spec (fun S => TreeInv E K bs T S ∧ TreeClean E K bs T S) (rotateStorageTree E O bs K)
      (fun _ S => ∀ b ∈ bs, BucketDone E K T S b) (fun _ _ => False) (TreeInv E K bs T) := by
  have hloop := Spec.foldlM (f := rotateBucket E O K) (E := fun _ _ => False) (C := TreeInv E K bs T)
    (I := fun done rest _ S => TreeInv E K bs T S ∧ TreeClean E K bs T S ∧ (∀ b ∈ rest, b ∈ bs) ∧
      ∀ b ∈ done, b ∈ bs ∧ BucketDone E K T S b) (fun _ _ _ _ h => h.1) ?_ [] bs ⟨0, 0, 0⟩
  · refine hloop.conseq (fun S h => ⟨h.1, h.2, fun _ hb => hb, ?_⟩) (fun _ S h b hb => (h.2.2.2 b hb).2) (fun _ _ h => h)
      fun _ h => h
    intro b hb; cases hb
  · intro done b rest stats S hS
    obtain ⟨hi, hcl, hrest, hdone⟩ := hS
    have hb := hrest b List.mem_cons_self
    obtain ⟨hc, hq, he⟩ := rotateBucket_clean (O := O) hsep hs hi hb (hcl b hb) stats S rfl
    refine ⟨hc, fun a ha => ?_, he⟩
    obtain ⟨hi', hnear, hdone'⟩ := hq a ha
    refine ⟨hi', fun b' hb' d₀ hd₀ d hd => ?_, fun b' hb' => hrest b' (List.mem_cons_of_mem _ hb'), fun b' hb' => ?_⟩
    · by_cases hne : b' = b
      · rw [hne, hdone'.1] at hd; cases hd
      · rw [(hnear.dirs hs hb hb' hne).1] at hd
        exact hcl b' hb' d₀ hd₀ d hd
    · rcases List.mem_append.1 hb' with hb' | hb'
      · obtain ⟨hmem, hd⟩ := hdone b' hb'
        by_cases hne : b' = b
        · rw [hne]; exact ⟨hb, hdone'⟩
        · unfold BucketDone at hd ⊢
          rw [(hnear.dirs hs hb hmem hne).1, (hnear.dirs hs hb hmem hne).2]
          exact ⟨hmem, hd⟩
      · rw [List.mem_singleton.1 hb']; exact ⟨hb, hdone'⟩

/-- on a tree that is not clean the run fails -/
theorem run_dirty (hsep : Separate E K) (hs : SoundTree E K bs T) :
    Spec (fun S => TreeInv E K bs T S ∧ ¬ TreeClean E K bs T S) (rotateStorageTree E O bs K) (fun _ _ => False)
      (fun _ _ => True) (TreeInv E K bs T) := by
  have hloop := Spec.foldlM (f := rotateBucket E O K) (E := fun _ _ => True) (C := TreeInv E K bs T)
    (I := fun _ rest _ S => TreeInv E K bs T S ∧ (∀ b ∈ rest, b ∈ bs) ∧
      ∃ b ∈ rest, ∃ d₀ d, BucketPending E K T S b d₀ d ∧ ¬ Clean E K d₀ d) (fun _ _ _ _ h => h.1) ?_ [] bs ⟨0, 0, 0⟩
  · refine hloop.conseq (fun S h => ⟨h.1, fun _ hb => hb, ?_⟩) (fun _ S h => ?_) (fun _ _ h => h) fun _ h => h
    · obtain ⟨hi, hcl⟩ := h
      simp only [TreeClean, not_forall] at hcl
      obtain ⟨b, hb, d₀, hd₀, d, hd, hcl⟩ := hcl
      exact ⟨b, hb, d₀, d, hi.pending hb hd₀ hd, hcl⟩
    · obtain ⟨-, -, b, hb, -⟩ := h
      exact List.not_mem_nil hb
  · rintro done x rest stats S ⟨hi, hrest, b, hb, d₀, d, hp, hcl⟩
    have hx := hrest x List.mem_cons_self
    by_cases hdirty : ∃ d₀ d, BucketPending E K T S x d₀ d ∧ ¬ Clean E K d₀ d
    · obtain ⟨d₁, d₁', hp₁, hcl₁⟩ := hdirty
      obtain ⟨hc, hq, he⟩ := rotateBucket_dirty (O := O) hsep hs hi hx hp₁ hcl₁ stats S rfl
      exact ⟨hc, fun a ha => (hq a ha).elim, he⟩
    · have hlocal : ∀ d₀ ∈ T.lookup (oldDir E K x), ∀ d ∈ S.lookup (oldDir E K x), Clean E K d₀ d := by
        intro d₁ hd₁ d₁' hd₁'
        by_contra hc
        exact hdirty ⟨d₁, d₁', hi.pending hx hd₁ hd₁', hc⟩
      obtain ⟨hc, hq, he⟩ := rotateBucket_clean (O := O) hsep hs hi hx hlocal stats S rfl
      refine ⟨hc, fun a ha => ?_, fun e he' => (he e he').elim⟩
      obtain ⟨hi', hnear, -⟩ := hq a ha
      -- the bad bucket is another one, and still there
      have hne : b ≠ x := by rintro rfl; exact hdirty ⟨d₀, d, hp, hcl⟩
      obtain ⟨h1, h2⟩ := hnear.dirs hs hx (hrest b hb) hne
      refine ⟨hi', fun b' hb' => hrest b' (List.mem_cons_of_mem _ hb'), b, (List.mem_cons.1 hb).resolve_left hne, d₀, d, ?_, hcl⟩
      unfold BucketPending at hp ⊢
      rwa [h1, h2]

/-- the invariant at every crash of every run -/
theorem crash_inv (hsep : Separate E K) (hs : SoundTree E K bs T) (hi : TreeInv E K bs T S)
    (hc : Crash (rotateStorageTree E O bs K) S t) : TreeInv E K bs T t := by
  by_cases hcl : TreeClean E K bs T S
  · exact (run_clean hsep hs S ⟨hi, hcl⟩).1 t hc
  · exact (run_dirty hsep hs S ⟨hi, hcl⟩).1 t hc

/-- when a run succeeds -/
theorem run_ok_iff (hsep : Separate E K) (hs : SoundTree E K bs T) (hi : TreeInv E K bs T S) :
    (∃ stats, (rotateStorageTree E O bs K).result S = .ok stats) ↔ TreeClean E K bs T S := by
  constructor
  · rintro ⟨stats, hok⟩
    by_contra hcl
    exact (run_dirty hsep hs S ⟨hi, hcl⟩).2.1 stats hok
  · intro hcl
    cases h : (rotateStorageTree E O bs K).result S with
    | ok stats => exact ⟨stats, rfl⟩
    | error e => exact ((run_clean hsep hs S ⟨hi, hcl⟩).2.2 e h).elim

theorem run_done (hsep : Separate E K) (hs : SoundTree E K bs T) (hi : TreeInv E K bs T S)
    (hcl : TreeClean E K bs T S) : ∀ b ∈ bs, BucketDone E K T ((rotateStorageTree E O bs K).final S) b := by
  obtain ⟨stats, hok⟩ := (run_ok_iff (O := O) hsep hs hi).2 hcl
  exact (run_clean hsep hs S ⟨hi, hcl⟩).2.1 stats hok

/-! ## What is kept -/

/-- **Complete buckets keep their objects exactly if the sidecars fit.** -/
theorem kept_iff (hd : ∀ b ∈ bs, BucketDone E K T S b) : Kept E K bs T S ↔ SidecarsFit E K bs T := by
  have hopen : ∀ b ∈ bs, ∀ d₀ ∈ T.lookup (oldDir E K b), ∀ p o, Stored E K d₀ p o →
      ∃ d, S.lookup (newDir E K b) = some d ∧
        (d.files.lookup (newFile E K o)).bind (openObject E.toPrimitives K.new (newId E K o)) =
          if o.header.metaLen.toNat = sealedLen o.json.length META_PAD_BLOCK then some (o.data, o.json) else none := by
    intro b hb d₀ hd₀ p o h
    obtain ⟨-, ⟨hnone, -⟩ | ⟨d₀', d, hd₀', hd, hdone⟩⟩ := hd b hb
    · rw [hnone] at hd₀; cases hd₀
    · cases (Option.mem_unique hd₀ hd₀' : d₀ = d₀')
      obtain ⟨n, newMeta, henc, hx⟩ := hdone.moved h
      refine ⟨d, hd, ?_⟩
      rw [hx, Option.bind_some, open_assemble h.parts henc]
  constructor
  · intro hk b hb d₀ hd₀ p o h
    obtain ⟨d, hd, hopen⟩ := hopen b hb d₀ hd₀ p o h
    obtain ⟨d', hd', hk⟩ := hk b hb d₀ hd₀ p o h
    cases (Option.mem_unique hd hd' : d = d')
    by_contra hne
    rw [hk, if_neg hne] at hopen
    cases hopen
  · intro hf b hb d₀ hd₀ p o h
    obtain ⟨d, hd, hopen⟩ := hopen b hb d₀ hd₀ p o h
    rw [if_pos (hf b hb d₀ hd₀ p o h)] at hopen
    exact ⟨d, hd, hopen⟩

/-- **A re-run after a crash, exactly.** It succeeds and keeps every object if and only if the crash left no migrated
object in a directory that still has its old name, and every sidecar has the length `encrypt_meta` gives it. -/
theorem resume_iff_clean (hsep : Separate E K) (hs : SoundTree E K bs T) (O' : Oracle)
    (hc : Crash (rotateStorageTree E O bs K) T S) :
    ((∃ stats, (rotateStorageTree E O' bs K).result S = .ok stats) ∧
      Kept E K bs T ((rotateStorageTree E O' bs K).final S)) ↔
    TreeClean E K bs T S ∧ SidecarsFit E K bs T := by
  have hi := crash_inv hsep hs hs.inv hc
  rw [run_ok_iff hsep hs hi]
  refine and_congr_right fun hcl => ?_
  exact kept_iff (run_done hsep hs hi hcl)

/-- **An undisturbed run, exactly.** It keeps every object if and only if every sidecar has the length `encrypt_meta` gives it. -/
theorem preserves_iff_sidecars_fit (hsep : Separate E K) (hs : SoundTree E K bs T) (O : Oracle) :
    (∀ stats, (rotateStorageTree E O bs K).result T = .ok stats → Kept E K bs T ((rotateStorageTree E O bs K).final T)) ↔
    SidecarsFit E K bs T := by
  obtain ⟨stats, hok⟩ := (run_ok_iff (O := O) hsep hs hs.inv).2 hs.clean
  rw [← kept_iff (run_done (O := O) hsep hs hs.inv hs.clean)]
  exact ⟨fun h => h stats hok, fun h _ _ => h⟩

end Tree

/-! ## One bucket with one object -/

section Single

/-- the first object visited may be the last thing an interrupted run of one bucket did -/
theorem crash_first {E : Env} {K : RotationKeys} {O : Oracle} {T : Tree} {b : String} {d x : BucketDir} {p : ShardFile}
    {l : List ShardFile} (hp : BucketPending E K T T b d d) (hl : O.readDir d.objFiles = p :: l)
    (hx : Crash (migrateObjectFile E O K b p) d x) :
    Crash (rotateStorageTree E O [b] K) T (T.insert (oldDir E K b) x) := by
  have hloop : ∀ stats, Crash ((O.readDir d.objFiles).foldlM (migrateOne E O K b) stats) d x := by
    intro stats
    rw [hl, List.foldlM_cons]
    exact (hx.bind _).bind _
  have hdir : ∀ stats, Crash (migrateBucketDir E O K b stats) d x := fun stats => (hloop stats).bind _
  have hget : ((T.lookup (oldDir E K b)).getD ⟨none, none, ∅⟩ : BucketDir) = d := by rw [hp.1]; rfl
  have hin : ∀ stats, Crash (inDir (oldDir E K b) (migrateBucketDir E O K b stats)) T (T.insert (oldDir E K b) x) := by
    intro stats
    refine Crash.zoom (f := fun d t => Finmap.insert (oldDir E K b) d t) ?_ ?_
    · rw [hget]; exact insert_same hp.1
    · rw [hget]; exact hdir stats
  unfold rotateStorageTree
  rw [List.foldlM_cons]
  refine Crash.bind ?_ _
  unfold Crash
  rw [rotateBucket_pending hp _ T rfl]
  exact (hin _).bind _

def sampleEnv : Env where
  aead := Aead.tagged
  hmacSha256 k _ := List.replicate 32 (k.headD 0)
  crc32 _ := 0
  aead_correct := Aead.tagged_correct
  length_hmac := length_headDigest
  parseMetadata _ := .ok ⟨"b", "k"⟩

def sampleKeys : RotationKeys := ⟨deriveStoreKeys sampleEnv.toPrimitives [1], deriveStoreKeys sampleEnv.toPrimitives [2]⟩

def sampleOracle : Oracle where
  readDir l := l
  readDir_perm l := List.Perm.refl l
  nonce _ _ := ⟨List.replicate 12 0, length_zeroNonce⟩
  configNonce _ := ⟨List.replicate 12 0, length_zeroNonce⟩

/-- the object's id under the old key -/
def sampleId : String := encodeObjectId sampleEnv.toPrimitives sampleKeys.old.pathKey "b" "k"

def sampleHeader (sidecar : Bytes) : Header := ⟨3, UInt32.ofNat sidecar.length, 64, 0, VERSION⟩

/-- one object of three bytes with the given sidecar -/
def sampleDir (sidecar : Bytes) : BucketDir :=
  ⟨none, none, (∅ : Files).insert (objFile sampleId)
    (container sampleEnv.toPrimitives sampleKeys.old sampleId (sampleHeader sidecar) [1, 2, 3] sidecar)⟩

def sampleTree (sidecar : Bytes) : Tree := Finmap.singleton (oldDir sampleEnv sampleKeys "b") (sampleDir sidecar)

theorem sample_separate : Separate sampleEnv sampleKeys where
  omk := Aead.tagged_separates (by decide)
  bck := Aead.tagged_separates (by decide)
  chk := fun _ _ h => absurd (show List.replicate 32 (2 : UInt8) = List.replicate 32 1 from h) (by decide)

theorem sample_hex : toHex (List.replicate 32 2) ≠ toHex (List.replicate 32 1) := by
  intro h
  have := congrArg String.toList h
  simp only [toHex, String.toList_ofList] at this
  exact absurd this (by decide)

theorem sample_names : newDir sampleEnv sampleKeys "b" ≠ oldDir sampleEnv sampleKeys "b" := sample_hex

variable {sidecar json : Bytes}

def sampleObj (sidecar json : Bytes) : Obj :=
  ⟨container sampleEnv.toPrimitives sampleKeys.old sampleId (sampleHeader sidecar) [1, 2, 3] sidecar, sampleHeader sidecar, [1, 2, 3], json,
    ⟨"b", "k"⟩⟩

/-- the three-byte object, readable if its sidecar opens -/
theorem sample_stored (hlen : sidecar.length < 2 ^ 32)
    (hs : decryptMeta sampleEnv.toPrimitives sampleKeys.old.omk sidecar sampleId = .ok json) :
    Stored sampleEnv sampleKeys (sampleDir sidecar) (objFile sampleId) (sampleObj sidecar json) := by
  have hm : (sampleHeader sidecar).metaLen.toNat = sidecar.length := by
    simp only [sampleHeader, UInt32.toNat_ofNat']
    exact Nat.mod_eq_of_lt hlen
  refine ⟨AList.lookup_insert _, rfl, parts_container ⟨rfl, le_rfl⟩ rfl hm.symm ?_ hs, rfl⟩
  rw [hm]
  change 64 + 3 + sidecar.length + 64 < _
  omega

theorem sample_only {p : ShardFile} (h : p ∈ (sampleDir sidecar).files) : p = objFile sampleId := by
  rcases (AList.mem_insert _).1 h with h | h
  · exact h
  · exact absurd h (AList.notMem_empty p)

theorem sample_sound (hlen : sidecar.length < 2 ^ 32)
    (hs : decryptMeta sampleEnv.toPrimitives sampleKeys.old.omk sidecar sampleId = .ok json) :
    SoundTree sampleEnv sampleKeys ["b"] (sampleTree sidecar) := by
  have hb : ∀ b, b ∈ ["b"] → b = "b" := fun b hb => List.mem_singleton.1 hb
  refine ⟨fun b hb' d hd => ?_, fun b hb' => ?_, fun b hb' b' hb'' => ?_, fun b hb' b' hb'' _ => ?_, fun b hb' b' hb'' _ => ?_⟩
  · cases hb b hb'
    rw [sampleTree, Finmap.lookup_singleton_eq, Option.mem_some_iff] at hd
    subst hd
    refine ⟨fun p hp => ?_, fun c hc => ?_, fun p o _ hn => ?_, fun p o p' o' h h' _ => ?_⟩
    · rw [sample_only (BucketDir.mem_objFiles.1 hp).1]
      exact ⟨_, sample_stored hlen hs⟩
    · cases hc
    · exact sample_hex (congrArg ShardFile.stem (sample_only hn))
    · rw [sample_only h.mem, sample_only h'.mem]
  · cases hb b hb'
    rw [sampleTree, Finmap.mem_singleton]
    exact sample_names
  · cases hb b hb'; cases hb b' hb''; exact sample_names.symm
  · rw [hb b hb', hb b' hb'']
  · rw [hb b hb', hb b' hb'']

/-- a sidecar as `encrypt_meta` seals it -/
def paddedSidecar : Bytes :=
  VERSION_BYTE_PADDED :: (List.replicate 12 0 ++ sampleEnv.aead.encrypt sampleKeys.old.omk (List.replicate 12 0) (utf8 sampleId)
    (metaPlain [7] META_PAD_BLOCK))

/-- the same JSON in the older, unpadded format -/
def unpaddedSidecar : Bytes :=
  VERSION_BYTE :: (List.replicate 12 0 ++ sampleEnv.aead.encrypt sampleKeys.old.omk (List.replicate 12 0) (utf8 sampleId) [7])

theorem padded_sealed : encryptMeta sampleEnv.toPrimitives sampleKeys.old.omk [7] sampleId META_PAD_BLOCK ⟨List.replicate 12 0, length_zeroNonce⟩ =
    .ok paddedSidecar := rfl

theorem padded_length : paddedSidecar.length = 4125 := length_encryptMeta padded_sealed

theorem padded_sound : SoundTree sampleEnv sampleKeys ["b"] (sampleTree paddedSidecar) :=
  sample_sound (by rw [padded_length]; decide) (decryptMeta_encryptMeta padded_sealed)

theorem unpadded_opens : decryptMeta sampleEnv.toPrimitives sampleKeys.old.omk unpaddedSidecar sampleId = .ok [7] := by
  rfl

theorem unpadded_sound : SoundTree sampleEnv sampleKeys ["b"] (sampleTree unpaddedSidecar) :=
  sample_sound (by decide) unpadded_opens

theorem sample_pending (hlen : sidecar.length < 2 ^ 32)
    (hs : decryptMeta sampleEnv.toPrimitives sampleKeys.old.omk sidecar sampleId = .ok json) :
    BucketPending sampleEnv sampleKeys (sampleTree sidecar) (sampleTree sidecar) "b" (sampleDir sidecar) (sampleDir sidecar) := by
  have hs' := sample_sound hlen hs
  have hd : (sampleTree sidecar).lookup (oldDir sampleEnv sampleKeys "b") = some (sampleDir sidecar) := Finmap.lookup_singleton_eq
  exact hs'.inv.pending List.mem_cons_self hd hd

theorem sample_obj (hlen : sidecar.length < 2 ^ 32)
    (hs : decryptMeta sampleEnv.toPrimitives sampleKeys.old.omk sidecar sampleId = .ok json) {b : String} {d : BucketDir}
    {p : ShardFile} {o : Obj} (hb : b ∈ ["b"]) (hd : d ∈ (sampleTree sidecar).lookup (oldDir sampleEnv sampleKeys b))
    (h : Stored sampleEnv sampleKeys d p o) : d = sampleDir sidecar ∧ p = objFile sampleId ∧ o = sampleObj sidecar json := by
  cases List.mem_singleton.1 hb
  rw [sampleTree, Finmap.lookup_singleton_eq, Option.mem_some_iff] at hd
  subst hd
  have hp := sample_only h.mem
  subst hp
  exact ⟨rfl, rfl, h.unique (sample_stored hlen hs)⟩

theorem padded_fit : SidecarsFit sampleEnv sampleKeys ["b"] (sampleTree paddedSidecar) := by
  intro b hb d hd p o h
  obtain ⟨-, -, rfl⟩ := sample_obj (by rw [padded_length]; decide) (decryptMeta_encryptMeta padded_sealed) hb hd h
  change (UInt32.ofNat paddedSidecar.length).toNat = _
  rw [padded_length]
  rfl

/-- the object's file under the new key -/
def sampleMigrated : Bytes :=
  assemble sampleEnv sampleKeys (newId sampleEnv sampleKeys (sampleObj paddedSidecar [7])) (sampleHeader paddedSidecar) [1, 2, 3]
    (VERSION_BYTE_PADDED :: (List.replicate 12 0 ++ sampleEnv.aead.encrypt sampleKeys.new.omk (List.replicate 12 0)
      (utf8 (newId sampleEnv sampleKeys (sampleObj paddedSidecar [7]))) (metaPlain [7] META_PAD_BLOCK)))

/-- the directory after the rename to the new id, before the old file is unlinked -/
def sampleRenamed : BucketDir :=
  let dst := newFile sampleEnv sampleKeys (sampleObj paddedSidecar [7])
  { sampleDir paddedSidecar with files := Files.rename ((sampleDir paddedSidecar).files.insert dst.tmp sampleMigrated) dst.tmp dst }

theorem sample_crash : Crash (rotateStorageTree sampleEnv sampleOracle ["b"] sampleKeys) (sampleTree paddedSidecar)
    ((sampleTree paddedSidecar).insert (oldDir sampleEnv sampleKeys "b") sampleRenamed) := by
  have hlen : paddedSidecar.length < 2 ^ 32 := by rw [padded_length]; decide
  have hs := decryptMeta_encryptMeta padded_sealed
  have hst := sample_stored hlen hs
  refine crash_first (p := objFile sampleId) (l := []) (sample_pending hlen hs) rfl (Or.inr ?_)
  obtain ⟨newMeta, d₁, d₂, d₃, henc, h1, h2, -, hrun⟩ := visit_old_fresh (O := sampleOracle) (b := "b") sample_separate hst
    (fun e => sample_hex (congrArg ShardFile.stem e)) hst.file fun hn => sample_hex (congrArg ShardFile.stem (sample_only hn))
  have hmeta : newMeta = VERSION_BYTE_PADDED :: (List.replicate 12 0 ++ sampleEnv.aead.encrypt sampleKeys.new.omk
      (List.replicate 12 0) (utf8 (newId sampleEnv sampleKeys (sampleObj paddedSidecar [7]))) (metaPlain [7] META_PAD_BLOCK)) :=
    (Except.ok.inj henc).symm
  have hd₂ : sampleRenamed = d₂ := by rw [h2, h1, hmeta]; rfl
  rw [hrun, hd₂]
  simp

theorem renamed_dirty : ¬ TreeClean sampleEnv sampleKeys ["b"] (sampleTree paddedSidecar)
    ((sampleTree paddedSidecar).insert (oldDir sampleEnv sampleKeys "b") sampleRenamed) := by
  intro hcl
  have hst := sample_stored (by rw [padded_length]; decide) (decryptMeta_encryptMeta padded_sealed)
  refine hcl "b" List.mem_cons_self _ Finmap.lookup_singleton_eq _ (Finmap.lookup_insert _) _ _ hst ?_
  rw [← AList.lookup_isSome]
  exact Option.isSome_iff_exists.2 ⟨_, (lookup_rename_insert _ _).1⟩

/-- **A crash between the rename and the unlink is not resumable.** One bucket, one object with a fitting sidecar: every
re-run, whatever order and nonces it gets, fails on the migrated file. -/
theorem rerun_fails_after_rename :
    Separate sampleEnv sampleKeys ∧ SoundTree sampleEnv sampleKeys ["b"] (sampleTree paddedSidecar) ∧
    SidecarsFit sampleEnv sampleKeys ["b"] (sampleTree paddedSidecar) ∧
    Crash (rotateStorageTree sampleEnv sampleOracle ["b"] sampleKeys) (sampleTree paddedSidecar)
      ((sampleTree paddedSidecar).insert (oldDir sampleEnv sampleKeys "b") sampleRenamed) ∧
    ∀ O : Oracle, ¬ ∃ stats, (rotateStorageTree sampleEnv O ["b"] sampleKeys).result
      ((sampleTree paddedSidecar).insert (oldDir sampleEnv sampleKeys "b") sampleRenamed) = .ok stats := by
  refine ⟨sample_separate, padded_sound, padded_fit, sample_crash, fun O => ?_⟩
  rw [run_ok_iff sample_separate padded_sound (crash_inv sample_separate padded_sound padded_sound.inv sample_crash)]
  exact renamed_dirty

theorem resume_iff_clean_one_object :
    ((∃ stats, (rotateStorageTree sampleEnv sampleOracle ["b"] sampleKeys).result (sampleTree paddedSidecar) = .ok stats) ∧
      Kept sampleEnv sampleKeys ["b"] (sampleTree paddedSidecar)
        ((rotateStorageTree sampleEnv sampleOracle ["b"] sampleKeys).final (sampleTree paddedSidecar))) ∧
    ¬ ((∃ stats, (rotateStorageTree sampleEnv sampleOracle ["b"] sampleKeys).result
        ((sampleTree paddedSidecar).insert (oldDir sampleEnv sampleKeys "b") sampleRenamed) = .ok stats) ∧
      Kept sampleEnv sampleKeys ["b"] (sampleTree paddedSidecar) ((rotateStorageTree sampleEnv sampleOracle ["b"] sampleKeys).final
        ((sampleTree paddedSidecar).insert (oldDir sampleEnv sampleKeys "b") sampleRenamed))) := by
  constructor
  · exact (resume_iff_clean sample_separate padded_sound sampleOracle (Crash.start (rotateStorageTree sampleEnv sampleOracle ["b"] sampleKeys) _)).2
      ⟨padded_sound.clean, padded_fit⟩
  · rw [resume_iff_clean sample_separate padded_sound sampleOracle sample_crash]
    exact fun h => renamed_dirty h.1

theorem unpadded_unfit : ¬ SidecarsFit sampleEnv sampleKeys ["b"] (sampleTree unpaddedSidecar) := by
  intro hf
  have := hf "b" List.mem_cons_self _ Finmap.lookup_singleton_eq _ _ (sample_stored (by decide) unpadded_opens)
  exact absurd this (by decide)

/-- **An unpadded sidecar is lost by an undisturbed rotation.** It is re-sealed padded, and the copied header declares the
unpadded length. -/
theorem unpadded_sidecar_lost :
    Separate sampleEnv sampleKeys ∧ SoundTree sampleEnv sampleKeys ["b"] (sampleTree unpaddedSidecar) ∧
    (∃ stats, (rotateStorageTree sampleEnv sampleOracle ["b"] sampleKeys).result (sampleTree unpaddedSidecar) = .ok stats) ∧
    ¬ Kept sampleEnv sampleKeys ["b"] (sampleTree unpaddedSidecar)
      ((rotateStorageTree sampleEnv sampleOracle ["b"] sampleKeys).final (sampleTree unpaddedSidecar)) := by
  have hs := unpadded_sound
  refine ⟨sample_separate, hs, (run_ok_iff sample_separate hs hs.inv).2 hs.clean, ?_⟩
  rw [kept_iff (run_done sample_separate hs hs.inv hs.clean)]
  exact unpadded_unfit

theorem preserves_iff_sidecars_fit_one_object :
    (∀ stats, (rotateStorageTree sampleEnv sampleOracle ["b"] sampleKeys).result (sampleTree paddedSidecar) = .ok stats →
      Kept sampleEnv sampleKeys ["b"] (sampleTree paddedSidecar)
        ((rotateStorageTree sampleEnv sampleOracle ["b"] sampleKeys).final (sampleTree paddedSidecar))) ∧
    ¬ ∀ stats, (rotateStorageTree sampleEnv sampleOracle ["b"] sampleKeys).result (sampleTree unpaddedSidecar) = .ok stats →
      Kept sampleEnv sampleKeys ["b"] (sampleTree unpaddedSidecar)
        ((rotateStorageTree sampleEnv sampleOracle ["b"] sampleKeys).final (sampleTree unpaddedSidecar)) :=
  ⟨(preserves_iff_sidecars_fit sample_separate padded_sound sampleOracle).2 padded_fit,
    fun h => unpadded_unfit ((preserves_iff_sidecars_fit sample_separate unpadded_sound sampleOracle).1 h)⟩

end Single

end Y2q.Rotation
