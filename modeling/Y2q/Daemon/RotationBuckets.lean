/-
What a rotation does to the list of buckets.

The old index is deleted and a new one is rebuilt from the object sidecars, so a bucket is listed afterwards exactly if one of
its objects can be read under the new key. A registration is not carried over. A directory whose bucket the old index did not
list is not renamed, and `create_bucket` no longer finds it.

- `mem_listed_after`: the buckets listed after a run that returned.
- `keeps_buckets_iff_occupied`: the list, and what `create_bucket` reports, are the same before and after exactly if every bucket
  with a directory holds an object with a fitting sidecar.
-/
import Mathlib.Tactic
import Y2q.Daemon.RotationCoverage
import Y2q.Storage.Buckets

namespace Y2q.NodeKeyRotation

open CrashLogic NodeKeys Keystore Index EncryptedBackend Rotation Buckets

variable {E : Env} {U : CharTable} {H : Devices.Hashes} {S : Surroundings} {oldNk newNk : Bytes} {s : Node} {st : Store}
variable {all keys bs : List String} {K : RotationKeys} {T T' : Tree} {b : String}

/-! ## Occupied buckets -/

/-- the bucket holds an object whose sidecar is as long as `encrypt_meta` makes it -/
def Occupied (E : Env) (K : RotationKeys) (T : Tree) (b : String) : Prop :=
  ∃ d ∈ T.lookup (oldDir E K b), ∃ p o, Stored E K d p o ∧ o.header.metaLen.toNat = sealedLen o.json.length META_PAD_BLOCK

/-- an occupied bucket is listed -/
theorem Occupied.listed (hs : SoundStore E K all keys U st) (hb : b ∈ all) (h : Occupied E K st.tree b) :
    b ∈ st.db.listBuckets := by
  obtain ⟨d, hd, p, o, ho, -⟩ := h
  obtain ⟨k, hk, hp, -⟩ := (hs.placed b hb d hd).objects p (BucketDir.mem_objFiles.2 ⟨ho.mem, ho.ext⟩)
  have hmem : oldPath E K b k ∈ d.files := by rw [← hp]; exact ho.mem
  exact IndexDb.mem_listBuckets.2 (Or.inl ⟨⟨b, k⟩, (hs.row hb k).2 ⟨hk, d, hd, hmem⟩, rfl⟩)

/-- a listed bucket is in play and has a directory -/
theorem listed_dir (hs : SoundStore E K all keys U st) (h : b ∈ st.db.listBuckets) : b ∈ all ∧ oldDir E K b ∈ st.tree := by
  rcases IndexDb.mem_listBuckets.1 h with ⟨m, hm, rfl⟩ | h
  · obtain ⟨hb, -, d, hd, -⟩ := (hs.rows m).1 hm
    exact ⟨hb, Finmap.mem_of_lookup_eq_some hd⟩
  · exact hs.registered b h

/-- a file of a directory whose bucket is not listed cannot be an object -/
theorem unlisted_empty (hs : SoundStore E K all keys U st) (hb : b ∈ all) (hn : b ∉ st.db.listBuckets) {d : BucketDir}
    (hd : st.tree.lookup (oldDir E K b) = some d) : d.objFiles = [] := by
  refine List.eq_nil_iff_forall_not_mem.2 fun p hp => hn ?_
  obtain ⟨k, hk, rfl, -⟩ := (hs.placed b hb d hd).objects p hp
  exact IndexDb.mem_listBuckets.2 (Or.inl ⟨⟨b, k⟩, (hs.row hb k).2 ⟨hk, d, hd, (BucketDir.mem_objFiles.1 hp).1⟩, rfl⟩)

/-! ## After the walk -/

/-- the metadata that can be read in a completed directory: the sidecars that fit -/
theorem readObjMetadata_done {d₀ d : BucketDir} {dir : String} (hdir : T'.lookup dir = some d) (hd : DirDone E K b d₀ d)
    {q : ShardFile} {m : Metadata} (hq : q ∈ d.objFiles) (hm : readObjMetadata E K.new T' dir q = some m) :
    ∃ p o, Stored E K d₀ p o ∧ o.header.metaLen.toNat = sealedLen o.json.length META_PAD_BLOCK ∧ o.md = m := by
  obtain ⟨p, o, ho, rfl | rfl⟩ := hd.only q hq
  · -- the old file is gone
    have hgone := hd.gone q o ho
    have hmem := (BucketDir.mem_objFiles.1 hq).1
    rw [← AList.lookup_isSome, hgone] at hmem
    cases hmem
  · obtain ⟨n, newMeta, henc, hfile⟩ := hd.moved ho
    refine ⟨p, o, ho, ?_⟩
    simp only [readObjMetadata, hdir, hfile, Option.bind_some] at hm
    rw [show (newFile E K o).stem = newId E K o from rfl, open_assemble ho.parts henc] at hm
    split_ifs at hm with hfit
    · simp only [Option.bind_some, ho.parse] at hm
      cases hm
      exact ⟨hfit, rfl⟩
    · cases hm

theorem readObjMetadata_fit {d₀ d : BucketDir} {dir : String} (hdir : T'.lookup dir = some d) (hd : DirDone E K b d₀ d)
    {p : ShardFile} {o : Obj} (ho : Stored E K d₀ p o) (hfit : o.header.metaLen.toNat = sealedLen o.json.length META_PAD_BLOCK) :
    newFile E K o ∈ d.objFiles ∧ readObjMetadata E K.new T' dir (newFile E K o) = some o.md := by
  obtain ⟨n, newMeta, henc, hfile⟩ := hd.moved ho
  refine ⟨BucketDir.mem_objFiles.2 ⟨?_, rfl⟩, ?_⟩
  · rw [← AList.lookup_isSome, hfile]
    rfl
  · simp only [readObjMetadata, hdir, hfile, Option.bind_some]
    rw [show (newFile E K o).stem = newId E K o from rfl, open_assemble ho.parts henc, if_pos hfit]
    simp only [Option.bind_some, ho.parse]
    rfl

/-- the metadata a rebuild finds after a complete walk over the listed buckets -/
theorem mem_rebuilt (hs : SoundStore E K all keys U st)
    (hi : TreeInv E K st.db.listBuckets st.tree T') (hd : ∀ b ∈ st.db.listBuckets, BucketDone E K st.tree T' b) :
    (∃ f ∈ S.objFiles T', ∃ m, readObjMetadata E K.new T' f.1 f.2 = some m ∧ m.bucket = b) ↔
      b ∈ all ∧ Occupied E K st.tree b := by
  constructor
  · rintro ⟨⟨dir, q⟩, hf, m, hm, rfl⟩
    obtain ⟨d, hdir, hq⟩ := (S.mem_objFiles T' dir q).1 hf
    by_cases hknown : ∃ b ∈ st.db.listBuckets, dir = oldDir E K b ∨ dir = newDir E K b
    · obtain ⟨b, hb, rfl | rfl⟩ := hknown
      · rw [(hd b hb).1] at hdir
        cases hdir
      · obtain ⟨-, ⟨-, hnone⟩ | ⟨d₀, d', hd₀, hd', hdone⟩⟩ := hd b hb
        · rw [hnone] at hdir
          cases hdir
        · cases (Option.mem_unique hdir hd' : d = d')
          obtain ⟨p, o, ho, hfit, rfl⟩ := readObjMetadata_done hd' hdone hq hm
          have hball := (listed_dir hs hb).1
          obtain ⟨k, -, -, o', ho', hmd⟩ := (hs.placed b hball d₀ hd₀).objects p (BucketDir.mem_objFiles.2 ⟨ho.mem, ho.ext⟩)
          cases ho.unique ho'
          rw [hmd]
          exact ⟨hball, d₀, hd₀, p, o, ho, hfit⟩
    · -- a directory the walk did not touch: its bucket was not listed
      have hsame := hi.other dir fun b hb => ⟨fun he => hknown ⟨b, hb, Or.inl he⟩, fun he => hknown ⟨b, hb, Or.inr he⟩⟩
      rw [hsame] at hdir
      obtain ⟨b, hb, rfl⟩ := hs.dirs dir (Finmap.mem_of_lookup_eq_some hdir)
      rw [unlisted_empty hs hb (fun h => hknown ⟨b, h, Or.inl rfl⟩) hdir] at hq
      cases hq
  · rintro ⟨hb, hocc⟩
    have hlisted := hocc.listed hs hb
    obtain ⟨d₀, hd₀, p, o, ho, hfit⟩ := hocc
    obtain ⟨-, ⟨hnone, -⟩ | ⟨d₀', d, hd₀', hdir, hdone⟩⟩ := hd b hlisted
    · rw [hnone] at hd₀
      cases hd₀
    · cases (Option.mem_unique hd₀ hd₀' : d₀ = d₀')
      obtain ⟨hmem, hread⟩ := readObjMetadata_fit hdir hdone ho hfit
      refine ⟨(newDir E K b, newFile E K o), (S.mem_objFiles _ _ _).2 ⟨d, hdir, hmem⟩, o.md, hread, ?_⟩
      obtain ⟨k, -, -, o', ho', hmd⟩ := (hs.placed b hb d₀ hd₀).objects p (BucketDir.mem_objFiles.2 ⟨ho.mem, ho.ext⟩)
      cases ho.unique ho'
      rw [hmd]

/-- a bucket has a directory under its new name exactly if it had one and was listed -/
theorem mem_newDir (hs : SoundTree E K all T) (hsub : ∀ b ∈ bs, b ∈ all) (hi : TreeInv E K bs T T')
    (hd : ∀ b ∈ bs, BucketDone E K T T' b) (hb : b ∈ all) : newDir E K b ∈ T' ↔ b ∈ bs ∧ oldDir E K b ∈ T := by
  by_cases hmem : b ∈ bs
  · obtain ⟨-, ⟨hold, hnew⟩ | ⟨d₀, d, hold, hnew, -⟩⟩ := hd b hmem
    · exact iff_of_false (Finmap.lookup_eq_none.1 hnew) fun h => Finmap.lookup_eq_none.1 hold h.2
    · exact iff_of_true (Finmap.mem_of_lookup_eq_some hnew) ⟨hmem, Finmap.mem_of_lookup_eq_some hold⟩
  · exact iff_of_false (Finmap.lookup_eq_none.1 (unlisted_absent hs hsub hi hb hmem)) fun h => hmem h.1

/-! ## Runs -/

/-- the store a node serves when its index is opened under `nk` -/
def storeOf (P : Primitives) (nk : Bytes) (s : Node) : Store := ⟨s.tree, (indexAs P nk s.index).getD emptyDb⟩

/-- `create_bucket` on a valid name reports whether the directory is there -/
theorem createBucket_reports {K : StoreKeys} (hvalid : validateBucket U b = .ok ()) (st : Store) :
    (createBucket E U K b st).1 = .ok (decide (encodeBucketDir E.toPrimitives K.pathKey b ∉ st.tree)) := by
  unfold createBucket
  rw [hvalid]
  simp only
  split_ifs with h
  · rw [decide_eq_false (not_not.2 h)]
  · rw [decide_eq_true h]

theorem createBucket_same {K K' : StoreKeys} {st st' : Store} :
    (createBucket E U K b st).1 = (createBucket E U K' b st').1 ↔ (validateBucket U b = .ok () →
      (encodeBucketDir E.toPrimitives K.pathKey b ∈ st.tree ↔ encodeBucketDir E.toPrimitives K'.pathKey b ∈ st'.tree)) := by
  cases hvalid : validateBucket U b with
  | error e =>
    refine iff_of_true ?_ fun h => ?_
    · unfold createBucket
      rw [hvalid]
    · cases h
  | ok _ =>
    rw [createBucket_reports hvalid, createBucket_reports hvalid]
    simp only [Except.ok.injEq, decide_eq_decide, forall_const]
    exact not_iff_not

/-- **The buckets after a run that returned**: those with a readable object are listed, and those that were listed have their
directory under its new name. -/
theorem listed_after {oldKey : Except CryptoError Bytes} (hsep : Separate E (rotationKeys E.toPrimitives oldNk newNk))
    (hn : NamesApart E (rotationKeys E.toPrimitives oldNk newNk) all keys)
    (hs : SoundStore E (rotationKeys E.toPrimitives oldNk newNk) all keys U (storeOf E.toPrimitives oldNk s))
    (hindex : SealedUnder (deriveIndexFileKey E.toPrimitives oldNk) s.index)
    (hfrom : RotatesFrom E.toPrimitives oldKey oldNk newNk s)
    (hok : (run E H (rotateTree E oldNk newNk) S oldKey (.ok newNk)).result s = .ok ()) :
    (∀ b, b ∈ (storeOf E.toPrimitives newNk
        ((run E H (rotateTree E oldNk newNk) S oldKey (.ok newNk)).final s)).db.listBuckets ↔
      b ∈ all ∧ Occupied E (rotationKeys E.toPrimitives oldNk newNk) s.tree b) ∧
    ∀ b ∈ all, (newDir E (rotationKeys E.toPrimitives oldNk newNk) b ∈
        ((run E H (rotateTree E oldNk newNk) S oldKey (.ok newNk)).final s).tree ↔
      b ∈ (storeOf E.toPrimitives oldNk s).db.listBuckets ∧ oldDir E (rotationKeys E.toPrimitives oldNk newNk) b ∈ s.tree) := by
  set K := rotationKeys E.toPrimitives oldNk newNk with hK
  set final := (run E H (rotateTree E oldNk newNk) S oldKey (.ok newNk)).final s with hfinal
  have hstore : ∀ (nk : Bytes) (u : Node) (db : IndexDb), u.index = some (.sealed (deriveIndexFileKey E.toPrimitives nk) db) →
      (storeOf E.toPrimitives nk u).db = db := by
    intro nk u db hdb
    unfold storeOf
    rw [hdb, indexAs_sealed]
    rfl
  obtain ⟨db, hdb⟩ := hindex
  have hlisted : listed E.toPrimitives oldNk s.index = (storeOf E.toPrimitives oldNk s).db.listBuckets := by
    unfold listed
    rw [hdb, indexAs_sealed, hstore oldNk s db hdb]
  have hsound := hs.soundTree hn
  have hsub : ∀ b ∈ (storeOf E.toPrimitives oldNk s).db.listBuckets, b ∈ all := fun b hb => (listed_dir hs hb).1
  have hwalk := run_walked hfrom hok
  obtain ⟨db', hdb', hrebuilt⟩ := hwalk.index
  have htree : final.tree = (rotateStorageTree E S.oracle (storeOf E.toPrimitives oldNk s).db.listBuckets K).final s.tree := by
    rw [hwalk.tree, ← hlisted]
    rfl
  have hs' := soundTree_mono hsound hsub
  have hi : TreeInv E K (storeOf E.toPrimitives oldNk s).db.listBuckets s.tree final.tree := by
    rw [htree]
    exact crash_inv hsep hs' hs'.inv (Crash.final _ _)
  have hd : ∀ b ∈ (storeOf E.toPrimitives oldNk s).db.listBuckets, BucketDone E K s.tree final.tree b := by
    rw [htree]
    exact run_done hsep hs' hs'.inv hs'.clean
  refine ⟨fun b => ?_, fun b hb => mem_newDir hsound hsub hi hd hb⟩
  have hmem := mem_rebuilt (S := S) (b := b) hs hi hd
  rw [hstore newNk final db' hdb', hrebuilt b]
  exact hmem

/-- **The bucket list survives a rotation exactly if every bucket directory holds an object.** After any sequence of requests on
a sound store and a run that returned: the list is the list before, and `create_bucket` reports every bucket as before, iff every
bucket that has a directory holds an object with a fitting sidecar. -/
theorem keeps_buckets_iff_occupied {oldKey : Except CryptoError Bytes} {ops : List (Op E)}
    (hsep : Separate E (rotationKeys E.toPrimitives oldNk newNk))
    (hn : NamesApart E (rotationKeys E.toPrimitives oldNk newNk) all keys)
    (hst : SoundStore E (rotationKeys E.toPrimitives oldNk newNk) all keys U st) (hops : ∀ op ∈ ops, op.InPlay E all keys)
    (hnode : storeOf E.toPrimitives oldNk s = Run.run (step E U (deriveStoreKeys E.toPrimitives oldNk)) st ops)
    (hindex : SealedUnder (deriveIndexFileKey E.toPrimitives oldNk) s.index)
    (hfrom : RotatesFrom E.toPrimitives oldKey oldNk newNk s)
    (hok : (run E H (rotateTree E oldNk newNk) S oldKey (.ok newNk)).result s = .ok ()) :
    ((storeOf E.toPrimitives newNk ((run E H (rotateTree E oldNk newNk) S oldKey (.ok newNk)).final s)).db.listBuckets =
        (storeOf E.toPrimitives oldNk s).db.listBuckets ∧
      ∀ b ∈ all,
        (createBucket E U (deriveStoreKeys E.toPrimitives newNk) b
          (storeOf E.toPrimitives newNk ((run E H (rotateTree E oldNk newNk) S oldKey (.ok newNk)).final s))).1 =
        (createBucket E U (deriveStoreKeys E.toPrimitives oldNk) b (storeOf E.toPrimitives oldNk s)).1) ↔
      ∀ b ∈ all, oldDir E (rotationKeys E.toPrimitives oldNk newNk) b ∈ s.tree →
        Occupied E (rotationKeys E.toPrimitives oldNk newNk) s.tree b := by
  have hs : SoundStore E (rotationKeys E.toPrimitives oldNk newNk) all keys U (storeOf E.toPrimitives oldNk s) := by
    rw [hnode]
    exact run_sound hn hops hst
  obtain ⟨hafter, hdirs⟩ := listed_after hsep hn hs hindex hfrom hok
  constructor
  · rintro ⟨hlist, hreports⟩ b hb hdir
    have hsame := createBucket_same.1 (hreports b hb) (hs.valid b hb hdir)
    have hmem := ((hdirs b hb).1 (hsame.2 hdir)).1
    rw [← hlist] at hmem
    exact ((hafter b).1 hmem).2
  · intro hall
    refine ⟨IndexDb.listBuckets_ext fun b => ?_, fun b hb => createBucket_same.2 fun _ => ?_⟩
    · rw [hafter]
      constructor
      · rintro ⟨hb, hocc⟩
        exact hocc.listed hs hb
      · intro hmem
        obtain ⟨hb, hdir⟩ := listed_dir hs hmem
        exact ⟨hb, hall b hb hdir⟩
    · refine (hdirs b hb).trans ?_
      exact and_iff_right_of_imp fun hdir => (hall b hb hdir).listed hs hb

/-! ## An instance -/

def asciiTable : CharTable := ⟨Char.isAlphanum, Buckets.isAlphanum_ascii⟩

theorem sample_valid : validateBucket asciiTable "b" = .ok () := by
  unfold validateBucket
  rw [if_neg]
  simp only [asciiTable, RESERVED_BUCKETS, List.mem_singleton]
  simp
  decide

theorem sample_names_apart : NamesApart sampleEnv (rotationKeys sampleEnv.toPrimitives [1] [2]) ["b"] [] := by
  have hb : ∀ b, b ∈ ["b"] → b = "b" := fun b hb => List.mem_singleton.1 hb
  refine ⟨fun b hb' b' hb'' => ?_, fun b hb' b' hb'' _ => ?_, fun b hb' b' hb'' _ => ?_, fun b _ k hk => ?_, fun b _ k hk => ?_,
    fun b _ k hk => ?_⟩
  · rw [hb b hb', hb b' hb'']
    exact sample_names.symm
  · rw [hb b hb', hb b' hb'']
  · rw [hb b hb', hb b' hb'']
  · cases hk
  · cases hk
  · cases hk

theorem fresh_sound : SoundStore sampleEnv (rotationKeys sampleEnv.toPrimitives [1] [2]) ["b"] [] asciiTable ⟨∅, emptyDb⟩ := by
  refine ⟨fun n hn => ?_, fun b _ d hd => ?_, fun m => ?_, fun b hb => ?_, fun b _ hd => ?_⟩
  · exact absurd hn Finmap.notMem_empty
  · cases (Finmap.lookup_empty _).symm.trans hd
  · refine iff_of_false (fun h => ?_) fun h => ?_
    · cases h
    · cases h.2.1
  · cases hb
  · exact absurd hd Finmap.notMem_empty

/-- the sample node is what `create_bucket` leaves of a fresh store -/
theorem sampleNode_created : storeOf sampleEnv.toPrimitives [1] sampleNode =
    Run.run (step sampleEnv asciiTable (deriveStoreKeys sampleEnv.toPrimitives [1])) ⟨∅, emptyDb⟩ [.createBucket "b"] := by
  have hcreate : createBucket sampleEnv asciiTable (deriveStoreKeys sampleEnv.toPrimitives [1]) "b" ⟨∅, emptyDb⟩ =
      (.ok true, storeOf sampleEnv.toPrimitives [1] sampleNode) := by
    unfold createBucket
    rw [sample_valid]
    simp only [if_neg Finmap.notMem_empty]
    congr 1
  rw [Run.run_cons]
  exact (congrArg Prod.snd hcreate).symm

theorem sampleNode_sound : SoundStore sampleEnv (rotationKeys sampleEnv.toPrimitives [1] [2]) ["b"] [] asciiTable
    (storeOf sampleEnv.toPrimitives [1] sampleNode) := by
  rw [sampleNode_created]
  refine run_sound sample_names_apart (fun op hop => ?_) fresh_sound
  rw [List.mem_singleton.1 hop]
  exact List.mem_singleton.2 rfl

theorem sampleNode_listed : (storeOf sampleEnv.toPrimitives [1] sampleNode).db.listBuckets = ["b"] := listed_configNode

theorem sampleNode_returns :
    (run sampleEnv sampleHashes (rotateTree sampleEnv [1] [2]) sampleSurroundings (.ok [1]) (.ok [2])).result sampleNode = .ok () := by
  have hsound := sampleNode_sound.soundTree sample_names_apart
  exact sample_returns (rotateTree_resumable sample_separate hsound fun b _ d hd => (sampleNode_bare _ d hd).2)
    (indexAs_sealed _ _ _) sampleNode_listed hsound.inv

/-- no object, so not occupied -/
theorem sampleNode_vacant : ¬ Occupied sampleEnv (rotationKeys sampleEnv.toPrimitives [1] [2]) sampleNode.tree "b" := by
  rintro ⟨d, hd, p, o, ho, -⟩
  have hmem := BucketDir.mem_objFiles.2 ⟨ho.mem, ho.ext⟩
  rw [(sampleNode_bare _ d hd).2] at hmem
  cases hmem

/-- **An empty bucket disappears.** It was created and registered; after the rotation nothing is listed, although its directory is
still there. -/
theorem empty_bucket_unlisted :
    storeOf sampleEnv.toPrimitives [1] sampleNode =
      Run.run (step sampleEnv asciiTable (deriveStoreKeys sampleEnv.toPrimitives [1])) ⟨∅, emptyDb⟩ [.createBucket "b"] ∧
    (run sampleEnv sampleHashes (rotateTree sampleEnv [1] [2]) sampleSurroundings (.ok [1]) (.ok [2])).result sampleNode = .ok () ∧
    (storeOf sampleEnv.toPrimitives [1] sampleNode).db.listBuckets = ["b"] ∧
    (storeOf sampleEnv.toPrimitives [2] ((run sampleEnv sampleHashes (rotateTree sampleEnv [1] [2]) sampleSurroundings
      (.ok [1]) (.ok [2])).final sampleNode)).db.listBuckets = [] := by
  obtain ⟨hafter, -⟩ := @listed_after _ _ sampleHashes _ _ _ _ _ _ (.ok [1]) sample_separate sample_names_apart sampleNode_sound
    ⟨_, rfl⟩ (Or.inl ⟨rfl, rfl⟩) sampleNode_returns
  refine ⟨sampleNode_created, sampleNode_returns, sampleNode_listed, List.eq_nil_iff_forall_not_mem.2 fun b hb => ?_⟩
  obtain ⟨hb, hocc⟩ := (hafter b).1 hb
  rw [List.mem_singleton.1 hb] at hocc
  exact sampleNode_vacant hocc

theorem keeps_buckets_iff_occupied_one_empty_bucket :
    ¬ ((storeOf sampleEnv.toPrimitives [2] ((run sampleEnv sampleHashes (rotateTree sampleEnv [1] [2]) sampleSurroundings
        (.ok [1]) (.ok [2])).final sampleNode)).db.listBuckets = (storeOf sampleEnv.toPrimitives [1] sampleNode).db.listBuckets ∧
      ∀ b ∈ ["b"],
        (createBucket sampleEnv asciiTable (deriveStoreKeys sampleEnv.toPrimitives [2]) b
          (storeOf sampleEnv.toPrimitives [2] ((run sampleEnv sampleHashes (rotateTree sampleEnv [1] [2]) sampleSurroundings
            (.ok [1]) (.ok [2])).final sampleNode))).1 =
        (createBucket sampleEnv asciiTable (deriveStoreKeys sampleEnv.toPrimitives [1]) b
          (storeOf sampleEnv.toPrimitives [1] sampleNode)).1) := by
  have hops : ∀ op ∈ [Op.createBucket (E := sampleEnv) "b"], op.InPlay sampleEnv ["b"] [] := by
    intro op hop
    rw [List.mem_singleton.1 hop]
    exact List.mem_singleton.2 rfl
  rw [@keeps_buckets_iff_occupied _ _ sampleHashes _ _ _ _ _ _ _ (.ok [1]) _ sample_separate sample_names_apart fresh_sound hops
    sampleNode_created ⟨_, rfl⟩ (Or.inl ⟨rfl, rfl⟩) sampleNode_returns]
  intro h
  exact sampleNode_vacant (h "b" (List.mem_singleton.2 rfl) ((Finmap.mem_singleton _ _ _).2 rfl))

end Y2q.NodeKeyRotation
