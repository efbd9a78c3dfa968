/-
What rotation does inside one bucket directory.

A directory is `SoundDir` if each of its `.obj` files is readable under the old keys. `DirInv d₀ d` is what holds of a
directory `d` at every point of every (interrupted or repeated) migration of `d₀`: each object is there as its old file, as
both files, or as its new file only.

- `visit_old_fresh`, `visit_old_moved`, `visit_new`: what `migrate_object_file` does on the three kinds of file it can
  meet. On an already migrated file it fails: the header is checked under the old key only.
- `migrateBucketDir_clean` / `migrateBucketDir_dirty`: from a directory without a migrated object the whole migration succeeds
  and leaves new files only; from one with a migrated object it ends in an error. Both keep `DirInv` at every crash.
-/
import Mathlib.Tactic
import Y2q.Storage.Rotation

namespace Y2q.Rotation

open Y2q CrashLogic Format NodeKeys

/-! ## Assembled files -/

/-- the ideal primitives: nothing sealed or MAC'd under an old key passes under the new one -/
structure Separate (E : Env) (K : RotationKeys) : Prop where
  omk : E.aead.KeySeparates K.old.omk K.new.omk
  bck : E.aead.KeySeparates K.old.bck K.new.bck
  chk : ∀ d d', E.hmacSha256 K.new.chk d ≠ E.hmacSha256 K.old.chk d'

section Assemble

variable {E : Env} {K : RotationKeys} {id newId : String} {bytes data json newMeta : Bytes} {h : Header} {n : Nonce}

/-- **The rewritten file opens under the new keys exactly if the sidecar kept its length**, and then to the same data and
JSON: the header still declares the old sidecar's length. -/
theorem open_assemble (p : Parts E.toPrimitives K.old id bytes h data json)
    (he : encryptMeta E.toPrimitives K.new.omk json newId META_PAD_BLOCK n = .ok newMeta) :
    openObject E.toPrimitives K.new newId (assemble E K newId h data newMeta) =
      if h.metaLen.toNat = sealedLen json.length META_PAD_BLOCK then some (data, json) else none := by
  have hlen := length_encryptMeta he
  have hdata := p.length_data
  have htot : (assemble E K newId h data newMeta).length = h.dataOffset.toNat + data.length + newMeta.length + 64 :=
    length_container p.wf data newMeta
  by_cases hm : h.metaLen.toNat = sealedLen json.length META_PAD_BLOCK
  · rw [if_pos hm, openObject_eq_some]
    refine ⟨h, parts_container p.wf hdata (by rw [hlen, hm]) ?_ (decryptMeta_encryptMeta he)⟩
    rw [p.total]
    exact p.lt
  · rw [if_neg hm]
    refine Option.eq_none_iff_forall_ne_some.2 fun ⟨data', json'⟩ ho => ?_
    obtain ⟨h', hp⟩ := openObject_eq_some.1 ho
    have hh : h = h' := by
      have := (@decode_container _ _ newId _ p.wf data newMeta).symm.trans hp.decode
      cases this; rfl
    have := hp.total
    rw [htot, hdata, hlen, ← hh] at this
    omega

end Assemble

/-! ## One directory -/

/-- an object file, taken apart -/
structure Obj where
  bytes : Bytes
  header : Header
  data : Bytes
  json : Bytes
  md : Metadata

section Dir

variable (E : Env) (K : RotationKeys) (b : String)

/-- the `.obj` file `p` is in the directory, and readable under the old keys -/
structure Stored (d : BucketDir) (p : ShardFile) (o : Obj) : Prop where
  file : d.files.lookup p = some o.bytes
  ext : p.ext = "obj"
  parts : Parts E.toPrimitives K.old p.stem o.bytes o.header o.data o.json
  parse : E.parseMetadata o.json = .ok o.md

def newId (o : Obj) : String := encodeObjectId E.toPrimitives K.new.pathKey o.md.bucket o.md.key

def newFile (o : Obj) : ShardFile := objFile (newId E K o)

/-- every `.obj` file and the config are readable, and the ids under the new key are fresh and distinct -/
structure SoundDir (d : BucketDir) : Prop where
  objects : ∀ p ∈ d.objFiles, ∃ o, Stored E K d p o
  -- a config was sealed by `encrypt_meta`, which refuses a longer one
  config : ∀ c ∈ d.config, ∃ plain, plain.length < 2 ^ 32 ∧
    decryptMeta E.toPrimitives K.old.bck c (encodeBucketDir E.toPrimitives K.old.pathKey b) = .ok plain
  fresh : ∀ p o, Stored E K d p o → newFile E K o ∉ d.files
  inj : ∀ p o p' o', Stored E K d p o → Stored E K d p' o' → newFile E K o = newFile E K o' → p = p'

/-- `x` is the object's rewritten file -/
def Moved (o : Obj) (x : Option Bytes) : Prop :=
  ∃ n newMeta, encryptMeta E.toPrimitives K.new.omk o.json (newId E K o) META_PAD_BLOCK n = .ok newMeta ∧
    x = some (assemble E K (newId E K o) o.header o.data newMeta)

/-- where an object can be at any point: its old file, both files, its new file -/
def Status (d : BucketDir) (p : ShardFile) (o : Obj) : Prop :=
  (d.files.lookup p = some o.bytes ∧ d.files.lookup (newFile E K o) = none) ∨
  (d.files.lookup p = some o.bytes ∧ Moved E K o (d.files.lookup (newFile E K o))) ∨
  (d.files.lookup p = none ∧ Moved E K o (d.files.lookup (newFile E K o)))

/-- `c` is the config `c₀` re-sealed under the new key -/
def ConfigMoved (c₀ c : Option Bytes) : Prop :=
  (c₀ = none ∧ c = none) ∨
  ∃ old plain n new, c₀ = some old ∧ c = some new ∧
    decryptMeta E.toPrimitives K.old.bck old (encodeBucketDir E.toPrimitives K.old.pathKey b) = .ok plain ∧
    encryptMeta E.toPrimitives K.new.bck plain (encodeBucketDir E.toPrimitives K.new.pathKey b) BUCKET_CONFIG_PAD_BLOCK n =
      .ok new

structure DirInv (d₀ d : BucketDir) : Prop where
  status : ∀ p o, Stored E K d₀ p o → Status E K d p o
  only : ∀ q ∈ d.objFiles, ∃ p o, Stored E K d₀ p o ∧ (q = p ∨ q = newFile E K o)
  config : d.config = d₀.config ∨ ConfigMoved E K b d₀.config d.config

/-- no object has been migrated -/
def Clean (d₀ d : BucketDir) : Prop := ∀ p o, Stored E K d₀ p o → newFile E K o ∉ d.files

/-- the migration is complete: new files only, and the re-sealed config -/
structure DirDone (d₀ d : BucketDir) : Prop extends DirInv E K b d₀ d where
  gone : ∀ p o, Stored E K d₀ p o → d.files.lookup p = none
  sealed : ConfigMoved E K b d₀.config d.config

variable {E K b} {O : Oracle} {d₀ d d' : BucketDir} {p p' q : ShardFile} {o o' : Obj}

theorem Stored.unique (h : Stored E K d p o) (h' : Stored E K d p o') : o = o' := by
  have hb : o.bytes = o'.bytes := Option.some.inj (h.file.symm.trans h'.file)
  have hp := h'.parts
  rw [← hb] at hp
  obtain ⟨hh, hd, hj⟩ := h.parts.unique hp
  have hm := h.parse
  rw [hj, h'.parse] at hm
  cases o; cases o'
  simp only at hb hh hd hj
  cases hm
  simp [hb, hh, hd, hj]

theorem Stored.mem (h : Stored E K d p o) : p ∈ d.files := AList.lookup_isSome.1 (by rw [h.file]; rfl)

/-- a new id never names an old file -/
theorem SoundDir.ne (hs : SoundDir E K b d) (h : Stored E K d p o) (h' : Stored E K d p' o') : newFile E K o ≠ p' :=
  fun e => hs.fresh p o h (e ▸ h'.mem)

theorem newFile_ext (o : Obj) : (newFile E K o).ext = "obj" := rfl

theorem DirInv.refl (hs : SoundDir E K b d) : DirInv E K b d d := by
  refine ⟨fun p o h => Or.inl ⟨h.file, AList.lookup_eq_none.2 (hs.fresh p o h)⟩, fun q hq => ?_, Or.inl rfl⟩
  obtain ⟨o, ho⟩ := hs.objects q hq
  exact ⟨q, o, ho, Or.inl rfl⟩

theorem DirDone.moved (hd : DirDone E K b d₀ d) (h : Stored E K d₀ p o) :
    Moved E K o (d.files.lookup (newFile E K o)) := by
  have hgone := hd.gone p o h
  rcases hd.status p o h with ⟨hc, -⟩ | ⟨hc, -⟩ | ⟨-, hm⟩
  · rw [hgone] at hc; cases hc
  · rw [hgone] at hc; cases hc
  · exact hm

/-- two directories with the same `.obj` files, those of one object apart, and the same config -/
structure Frame (p : ShardFile) (o : Obj) (d d' : BucketDir) : Prop where
  files : ∀ q, q.ext = "obj" → q ≠ p → q ≠ newFile E K o → d'.files.lookup q = d.files.lookup q
  config : d'.config = d.config

/-- an object's own two files may change as long as they stay in one of the three states -/
theorem DirInv.frame (hs : SoundDir E K b d₀) (hi : DirInv E K b d₀ d) (h : Stored E K d₀ p o)
    (hf : Frame (E := E) (K := K) p o d d') (hst : Status E K d' p o) : DirInv E K b d₀ d' := by
  refine ⟨fun p' o' h' => ?_, fun q hq => ?_, by rw [hf.config]; exact hi.config⟩
  · by_cases hp : p' = p
    · subst hp; rw [h'.unique h]; exact hst
    · have hold := hf.files p' h'.ext hp (hs.ne h h').symm
      have hnew := hf.files (newFile E K o') (newFile_ext o') (hs.ne h' h) fun e => hp (hs.inj _ _ _ _ h' h e)
      have := hi.status p' o' h'
      unfold Status at this ⊢
      rwa [hold, hnew]
  · obtain ⟨hq, hext⟩ := BucketDir.mem_objFiles.1 hq
    by_cases h1 : q = p
    · exact ⟨p, o, h, Or.inl h1⟩
    · by_cases h2 : q = newFile E K o
      · exact ⟨p, o, h, Or.inr h2⟩
      · apply hi.only
        rw [BucketDir.mem_objFiles, ← AList.lookup_isSome, ← hf.files q hext h1 h2, AList.lookup_isSome]
        exact ⟨hq, hext⟩

/-! ## One visit -/

theorem readSections_stored (hf : d.files.lookup p = some o.bytes)
    (hp : Parts E.toPrimitives K.old p.stem o.bytes o.header o.data o.json) :
    readSections E K.old.chk b p d = .ok (o.header, o.data,
      slice o.bytes o.header.metaOffset (o.header.metaOffset + o.header.metaLen.toNat)) := by
  have hlen : ¬ o.bytes.length < HEADER_SIZE := by rw [← hp.total]; exact not_lt.2 (Nat.le_add_left _ _)
  unfold readSections
  simp only [hf, if_neg hlen, hp.decode, Header.checkTotalLen_ok.2 ⟨hp.total, hp.lt⟩, ← hp.data_eq]

/-- **An already migrated file stops the run.** Its header was encoded under the new key, and only the old one is tried. -/
theorem visit_new (hsep : Separate E K) (hm : Moved E K o (d.files.lookup q)) :
    ∃ e, migrateObjectFile E O K b q d = ([], .error e) := by
  obtain ⟨n, newMeta, -, hq⟩ := hm
  obtain ⟨e, he⟩ := Header.decode_other_key E.toPrimitives o.header (newId E K o) q.stem hsep.chk
  have hr : ∃ e', readSections E K.old.chk b q d = .error e' := by
    unfold readSections
    have hhead : slice (assemble E K (newId E K o) o.header o.data newMeta) 0 HEADER_SIZE = _ := head_container _ _ _
    simp only [hq, hhead, he]
    split_ifs
    · exact ⟨_, rfl⟩
    · exact ⟨_, rfl⟩
  obtain ⟨e', he'⟩ := hr
  refine ⟨e', ?_⟩
  simp only [migrateObjectFile, Prog.get_bind_apply, he', Prog.ofExcept_error, Prog.throw_bind_apply]

/-- what remains of the function once the sidecar has been opened under the old key -/
theorem migrateObjectFile_stored (hsep : Separate E K) (h : Stored E K d₀ p o) (hf : d.files.lookup p = some o.bytes) :
    migrateObjectFile E O K b p d =
      (if newFile E K o ∈ d.files then do
        if newFile E K o ≠ p then Prog.modify fun d => { d with files := d.files.erase p }
        pure false
      else
        match encryptMeta E.toPrimitives K.new.omk o.json (newId E K o) META_PAD_BLOCK (O.nonce d p) with
        | .error e => Prog.throw (internal b s!"re-encrypt metadata: {e.message}")
        | .ok newMeta => do
          Prog.modify fun d => { d with
            files := d.files.insert (newFile E K o).tmp (assemble E K (newId E K o) o.header o.data newMeta) }
          Prog.modify fun d => { d with files := d.files.rename (newFile E K o).tmp (newFile E K o) }
          if newFile E K o ≠ p then Prog.modify fun d => { d with files := d.files.erase p }
          pure true : Prog BucketDir Error Bool) d := by
  have hnew : (decryptMeta E.toPrimitives K.new.omk
      (slice o.bytes o.header.metaOffset (o.header.metaOffset + o.header.metaLen.toNat)) p.stem).isOk = false := by
    rw [decryptMeta_other_key hsep.omk h.parts.sidecar]; rfl
  have hside : openSidecar E K b p (slice o.bytes o.header.metaOffset (o.header.metaOffset + o.header.metaLen.toNat)) =
      .ok (o.json, o.md) := by
    unfold openSidecar; simp only [h.parts.sidecar, h.parse]
  simp only [migrateObjectFile, Prog.get_bind_apply, readSections_stored hf h.parts, Prog.ofExcept_ok,
    Prog.pure_bind_apply, hnew, hside, Bool.false_eq_true, if_false]
  rfl

/-- both copies are there: the old one is unlinked -/
theorem visit_old_moved (hsep : Separate E K) (h : Stored E K d₀ p o) (hne : newFile E K o ≠ p)
    (hf : d.files.lookup p = some o.bytes) (hn : newFile E K o ∈ d.files) :
    migrateObjectFile E O K b p d = ([{ d with files := d.files.erase p }], .ok false) := by
  rw [migrateObjectFile_stored hsep h hf, if_pos hn, if_pos hne]
  rfl

/-- only the old copy is there: the new one is written and renamed into place, then the old one is unlinked -/
theorem visit_old_fresh (hsep : Separate E K) (h : Stored E K d₀ p o) (hne : newFile E K o ≠ p)
    (hf : d.files.lookup p = some o.bytes) (hn : newFile E K o ∉ d.files) :
    ∃ newMeta d₁ d₂ d₃,
      encryptMeta E.toPrimitives K.new.omk o.json (newId E K o) META_PAD_BLOCK (O.nonce d p) = .ok newMeta ∧
      d₁ = { d with files := d.files.insert (newFile E K o).tmp (assemble E K (newId E K o) o.header o.data newMeta) } ∧
      d₂ = { d₁ with files := d₁.files.rename (newFile E K o).tmp (newFile E K o) } ∧
      d₃ = { d₂ with files := d₂.files.erase p } ∧
      migrateObjectFile E O K b p d = ([d₁, d₂, d₃], .ok true) := by
  obtain ⟨newMeta, he⟩ := @encryptMeta_ok E.toPrimitives K.new.omk _ (newId E K o) META_PAD_BLOCK (O.nonce d p)
    h.parts.length_json
  refine ⟨newMeta, _, _, _, he, rfl, rfl, rfl, ?_⟩
  rw [migrateObjectFile_stored hsep h hf, if_neg hn, he]
  simp only [if_pos hne]
  rfl

/-- looking up a rename's target and the other files -/
theorem lookup_rename_insert (f : Files) {src dst : ShardFile} (x : Bytes) :
    (Files.rename (f.insert src x) src dst).lookup dst = some x ∧
      ∀ q, q ≠ src → q ≠ dst → (Files.rename (f.insert src x) src dst).lookup q = f.lookup q := by
  have hr : Files.rename (f.insert src x) src dst = ((f.insert src x).erase src).insert dst x := by
    unfold Files.rename; rw [AList.lookup_insert]
  rw [hr]
  refine ⟨AList.lookup_insert _, fun q hs hd => ?_⟩
  rw [AList.lookup_insert_ne hd, AList.lookup_erase_ne hs, AList.lookup_insert_ne hs]

theorem ne_tmp {q r : ShardFile} (h : q.ext = "obj") : q ≠ r.tmp := by
  rintro rfl
  exact absurd (show "tmp" = "obj" from h) (by decide)

/-- what a visit of an old file leaves: the object's new file only, every other object's files alone, and at each effect
on the way one of the three states -/
theorem visit_old (hsep : Separate E K) (hs : SoundDir E K b d₀) (hi : DirInv E K b d₀ d) (h : Stored E K d₀ p o)
    (hp : p ∈ d.files) :
    ∃ ds r, migrateObjectFile E O K b p d = (ds, .ok r) ∧
      (∀ d' ∈ ds, Frame (E := E) (K := K) p o d d' ∧ Status E K d' p o) ∧
      (ds.getLastD d) ∈ ds ∧ (ds.getLastD d).files.lookup p = none := by
  have hne : newFile E K o ≠ p := hs.ne h h
  have hsome := AList.lookup_isSome.2 hp
  rcases hi.status p o h with ⟨hf, hn⟩ | ⟨hf, hm⟩ | ⟨hf, -⟩
  · obtain ⟨newMeta, d₁, d₂, d₃, he, h1, h2, h3, hrun⟩ := visit_old_fresh (O := O) (b := b) hsep h hne hf
      (AList.lookup_eq_none.1 hn)
    have hmoved : ∀ x, x = some (assemble E K (newId E K o) o.header o.data newMeta) → Moved E K o x :=
      fun x hx => ⟨_, newMeta, he, hx⟩
    -- the lookups after each of the three effects
    obtain ⟨hr1, hr2⟩ := @lookup_rename_insert d.files (newFile E K o).tmp (newFile E K o)
      (assemble E K (newId E K o) o.header o.data newMeta)
    have e1 : d₁.files = d.files.insert (newFile E K o).tmp (assemble E K (newId E K o) o.header o.data newMeta) := by
      rw [h1]
    have e2 : d₂.files = Files.rename d₁.files (newFile E K o).tmp (newFile E K o) := by rw [h2]
    have e3 : d₃.files = d₂.files.erase p := by rw [h3]
    have f1 : ∀ q, q.ext = "obj" → d₁.files.lookup q = d.files.lookup q := by
      intro q hq; rw [e1, AList.lookup_insert_ne (ne_tmp hq)]
    have f2 : ∀ q, q.ext = "obj" → q ≠ newFile E K o → d₂.files.lookup q = d.files.lookup q := by
      intro q hq hqn; rw [e2, e1, hr2 q (ne_tmp hq) hqn]
    have f2n : d₂.files.lookup (newFile E K o) = some (assemble E K (newId E K o) o.header o.data newMeta) := by
      rw [e2, e1, hr1]
    have f3 : ∀ q, q ≠ p → d₃.files.lookup q = d₂.files.lookup q := by
      intro q hqp; rw [e3, AList.lookup_erase_ne hqp]
    have f3p : d₃.files.lookup p = none := by rw [e3, AList.lookup_erase]
    have c1 : d₁.config = d.config := by rw [h1]
    have c2 : d₂.config = d.config := by rw [h2, c1]
    have c3 : d₃.config = d.config := by rw [h3, c2]
    refine ⟨[d₁, d₂, d₃], true, hrun, ?_, by simp, f3p⟩
    intro d' hd'
    simp only [List.mem_cons, List.not_mem_nil, or_false] at hd'
    rcases hd' with rfl | rfl | rfl
    · refine ⟨⟨fun q hq _ _ => f1 q hq, c1⟩, Or.inl ⟨?_, ?_⟩⟩
      · rw [f1 p h.ext, hf]
      · rw [f1 _ (newFile_ext o), hn]
    · refine ⟨⟨fun q hq _ hqn => f2 q hq hqn, c2⟩, Or.inr (Or.inl ⟨?_, hmoved _ f2n⟩)⟩
      rw [f2 p h.ext hne.symm, hf]
    · refine ⟨⟨fun q hq hqp hqn => by rw [f3 q hqp, f2 q hq hqn], c3⟩, Or.inr (Or.inr ⟨f3p, hmoved _ ?_⟩)⟩
      rw [f3 _ hne, f2n]
  · have hn : newFile E K o ∈ d.files := by
      obtain ⟨n, newMeta, -, hx⟩ := hm
      exact AList.lookup_isSome.1 (by rw [hx]; rfl)
    refine ⟨_, false, visit_old_moved hsep h hne hf hn, ?_, by simp, AList.lookup_erase _ _⟩
    intro d' hd'
    rw [List.mem_singleton.1 hd']
    refine ⟨⟨fun q _ hqp _ => AList.lookup_erase_ne hqp, rfl⟩, Or.inr (Or.inr ⟨AList.lookup_erase _ _, ?_⟩)⟩
    rw [AList.lookup_erase_ne hne]
    exact hm
  · rw [hf] at hsome; cases hsome

/-! ## The loop over a directory -/

variable (E K b) in
/-- between two rounds: the invariant, and the files still to visit are all there -/
structure Round (d₀ : BucketDir) (rest : List ShardFile) (d : BucketDir) : Prop where
  inv : DirInv E K b d₀ d
  nodup : rest.Nodup
  listed : ∀ q ∈ rest, q ∈ d.objFiles

/-- **One round.** The file is an already migrated one and the visit fails, or it is an old one, and the visit leaves its
object migrated, all the other files alone and the invariant at each effect. -/
theorem Round.visit (hsep : Separate E K) (hs : SoundDir E K b d₀) {rest : List ShardFile}
    (hr : Round E K b d₀ (q :: rest) d) (stats : RotationStats) :
    (∃ p o e, Stored E K d₀ p o ∧ q = newFile E K o ∧ migrateOne E O K b stats q d = ([], .error e)) ∨
    (∃ o ds stats', Stored E K d₀ q o ∧ migrateOne E O K b stats q d = (ds, .ok stats') ∧
      (∀ d' ∈ ds, DirInv E K b d₀ d') ∧ Round E K b d₀ rest (ds.getLastD d) ∧
      Frame (E := E) (K := K) q o d (ds.getLastD d) ∧ (ds.getLastD d).files.lookup q = none) := by
  have hq := hr.listed q List.mem_cons_self
  have hqf := (BucketDir.mem_objFiles.1 hq).1
  obtain ⟨p, o, h, rfl | rfl⟩ := hr.inv.only q hq
  · right
    obtain ⟨ds, r, hrun, hds, hlast, hgone⟩ := visit_old (O := O) hsep hs hr.inv h hqf
    obtain ⟨hframe, hstat⟩ := hds _ hlast
    refine ⟨o, ds, if r then { stats with objectsMigrated := stats.objectsMigrated + 1 }
      else { stats with objectsAlreadyDone := stats.objectsAlreadyDone + 1 }, h, ?_, ?_, ?_, hframe, hgone⟩
    · unfold migrateOne
      rw [Prog.bind_apply_ok hrun]
      cases r <;> simp
    · intro d' hd'
      exact hr.inv.frame hs h (hds d' hd').1 (hds d' hd').2
    · refine ⟨hr.inv.frame hs h hframe hstat, (List.nodup_cons.1 hr.nodup).2, fun q' hq' => ?_⟩
      have hne : q' ≠ q := by rintro rfl; exact (List.nodup_cons.1 hr.nodup).1 hq'
      obtain ⟨hm, hext⟩ := BucketDir.mem_objFiles.1 (hr.listed q' (List.mem_cons_of_mem _ hq'))
      refine BucketDir.mem_objFiles.2 ⟨AList.lookup_isSome.1 ?_, hext⟩
      by_cases hn : q' = newFile E K o
      · -- its own new file, listed because an earlier run wrote it, is still there
        rcases hstat with ⟨hc, -⟩ | ⟨hc, -⟩ | ⟨-, n, newMeta, -, hx⟩
        · rw [hgone] at hc; cases hc
        · rw [hgone] at hc; cases hc
        · rw [hn, hx]; rfl
      · rw [hframe.files q' hext hne hn, AList.lookup_isSome]
        exact hm
  · left
    have hmoved : Moved E K o (d.files.lookup (newFile E K o)) := by
      rcases hr.inv.status p o h with ⟨-, hn⟩ | ⟨-, hm⟩ | ⟨-, hm⟩
      · exact absurd hqf (AList.lookup_eq_none.1 hn)
      · exact hm
      · exact hm
    obtain ⟨e, he⟩ := visit_new (O := O) (b := b) hsep hmoved
    refine ⟨p, o, e, h, rfl, ?_⟩
    unfold migrateOne
    rw [Prog.bind_apply_error he]

variable (E K b) in
/-- in a clean run: what is still to visit has no new file yet, what has been visited has only that -/
structure CleanRound (d₀ : BucketDir) (rest : List ShardFile) (d : BucketDir) : Prop extends Round E K b d₀ rest d where
  todo : ∀ p o, Stored E K d₀ p o → p ∈ rest → newFile E K o ∉ d.files
  done : ∀ p o, Stored E K d₀ p o → p ∉ rest → d.files.lookup p = none
  old : ∀ p o, Stored E K d₀ p o → newFile E K o ∉ rest

theorem loop_clean (hsep : Separate E K) (hs : SoundDir E K b d₀) (l : List ShardFile) (stats : RotationStats) :
    Spec (CleanRound E K b d₀ l) (l.foldlM (migrateOne E O K b) stats) (fun _ => CleanRound E K b d₀ [])
      (fun _ _ => False) (DirInv E K b d₀) := by
  refine Spec.foldlM (I := fun _ rest _ d => CleanRound E K b d₀ rest d) (fun _ _ _ _ h => h.inv) ?_ [] l stats
  intro done q rest stats
  refine Spec.of_apply fun d hr => ⟨hr.inv, ?_⟩
  rcases hr.toRound.visit (O := O) hsep hs stats with ⟨p, o, e, h, hq, -⟩ | ⟨o, ds, stats', h, hrun, hds, hnext, hf, hgone⟩
  · exact absurd (hq ▸ List.mem_cons_self) (hr.old p o h)
  · refine ⟨ds, _, hrun, hds, fun _ _ => ⟨hnext, fun p' o' h' hp' => ?_, fun p' o' h' hp' => ?_, fun p' o' h' hp' => ?_⟩,
      fun _ hc => nomatch hc⟩
    · have hne : p' ≠ q := by rintro rfl; exact (List.nodup_cons.1 hr.nodup).1 hp'
      rw [← AList.lookup_isSome, hf.files _ (newFile_ext o') (hs.ne h' h) fun e => hne (hs.inj _ _ _ _ h' h e),
        AList.lookup_isSome]
      exact hr.todo p' o' h' (List.mem_cons_of_mem _ hp')
    · by_cases hne : p' = q
      · rw [hne]; exact hgone
      · rw [hf.files p' h'.ext hne (hs.ne h h').symm]
        exact hr.done p' o' h' fun hc => (List.mem_cons.1 hc).elim hne hp'
    · exact hr.old p' o' h' (List.mem_cons_of_mem _ hp')

theorem loop_dirty (hsep : Separate E K) (hs : SoundDir E K b d₀) (l : List ShardFile) (stats : RotationStats) :
    Spec (fun d => Round E K b d₀ l d ∧ ∃ p o, Stored E K d₀ p o ∧ newFile E K o ∈ l)
      (l.foldlM (migrateOne E O K b) stats) (fun _ _ => False) (fun _ _ => True) (DirInv E K b d₀) := by
  have hloop := Spec.foldlM (C := DirInv E K b d₀) (E := fun _ _ => True) (f := migrateOne E O K b)
    (I := fun _ rest _ d => Round E K b d₀ rest d ∧ ∃ p o, Stored E K d₀ p o ∧ newFile E K o ∈ rest)
    (fun _ _ _ _ h => h.1.inv) ?_ [] l stats
  · refine hloop.conseq (fun _ h => h) (fun _ _ h => ?_) (fun _ _ h => h) fun _ h => h
    obtain ⟨-, p, o, -, hc⟩ := h
    exact List.not_mem_nil hc
  · rintro done q rest stats
    refine Spec.of_apply fun d hr => ⟨hr.1.inv, ?_⟩
    obtain ⟨hr, p, o, h, hn⟩ := hr
    rcases hr.visit (O := O) hsep hs stats with ⟨_, _, e, -, -, hrun⟩ | ⟨o', ds, stats', h', hrun, hds, hnext, -, -⟩
    · refine ⟨[], _, hrun, ?_, ?_, fun _ _ => trivial⟩
      · intro d' hd'; cases hd'
      · intro a ha; cases ha
    · refine ⟨ds, _, hrun, hds, fun _ _ => ⟨hnext, p, o, h, ?_⟩, fun _ hc => nomatch hc⟩
      exact (List.mem_cons.1 hn).resolve_left (hs.ne h h')

/-! ## The config, and the whole directory -/

theorem migrateBucketConfig_old {old new plain : Bytes} (hsep : Separate E K) (hc : d.config = some old)
    (hdec : decryptMeta E.toPrimitives K.old.bck old (encodeBucketDir E.toPrimitives K.old.pathKey b) = .ok plain)
    (henc : encryptMeta E.toPrimitives K.new.bck plain (encodeBucketDir E.toPrimitives K.new.pathKey b)
      BUCKET_CONFIG_PAD_BLOCK (O.configNonce d) = .ok new) :
    migrateBucketConfig E O K b d =
      ([{ d with configTmp := some new }, { d with config := some new, configTmp := none }], .ok ()) := by
  have hnew := @decryptMeta_other_key _ _ _ _ _ _ (encodeBucketDir E.toPrimitives K.new.pathKey b) hsep.bck hdec
  obtain ⟨config, configTmp, files⟩ := d
  cases hc
  simp only [migrateBucketConfig, Prog.get_bind_apply, hnew, hdec, henc]
  rfl

theorem migrateBucketConfig_done (hc : ConfigMoved E K b d₀.config d.config) :
    migrateBucketConfig E O K b d = ([], .ok ()) := by
  rcases hc with ⟨-, hc⟩ | ⟨old, plain, n, new, -, hc, -, henc⟩
  · simp only [migrateBucketConfig, Prog.get_bind_apply, hc, Prog.pure_apply]
  · simp only [migrateBucketConfig, Prog.get_bind_apply, hc, decryptMeta_encryptMeta henc]
    rfl

/-- the config is re-sealed, or had been; nothing else changes -/
theorem migrateBucketConfig_spec (hsep : Separate E K) (hs : SoundDir E K b d₀) :
    Spec (CleanRound E K b d₀ []) (migrateBucketConfig E O K b) (fun _ => DirDone E K b d₀) (fun _ _ => False)
      (DirInv E K b d₀) := by
  refine Spec.of_apply fun d hr => ⟨hr.inv, ?_⟩
  have hgone : ∀ p o, Stored E K d₀ p o → d.files.lookup p = none := fun p o h => hr.done p o h List.not_mem_nil
  by_cases hc : ConfigMoved E K b d₀.config d.config
  · refine ⟨[], _, migrateBucketConfig_done hc, ?_, fun _ _ => ⟨hr.inv, hgone, hc⟩, ?_⟩
    · intro d' hd'; cases hd'
    · intro e he; cases he
  · -- so the config is the old one, and there is one
    have hcfg := hr.inv.config.resolve_right hc
    obtain ⟨old, hold⟩ : ∃ old, d.config = some old := by
      apply Option.ne_none_iff_exists'.1
      intro hn
      exact hc (Or.inl ⟨by rw [← hcfg, hn], hn⟩)
    have hc₀ : d₀.config = some old := by rw [← hcfg, hold]
    obtain ⟨plain, hlen, hdec⟩ := hs.config old hc₀
    obtain ⟨new, henc⟩ := @encryptMeta_ok E.toPrimitives K.new.bck _ (encodeBucketDir E.toPrimitives K.new.pathKey b)
      BUCKET_CONFIG_PAD_BLOCK (O.configNonce d) hlen
    have hmoved : ConfigMoved E K b d₀.config (some new) := Or.inr ⟨old, plain, _, new, hc₀, rfl, hdec, henc⟩
    have hinv : DirInv E K b d₀ { d with config := some new, configTmp := none } :=
      ⟨hr.inv.status, hr.inv.only, Or.inr hmoved⟩
    refine ⟨_, _, migrateBucketConfig_old hsep hold hdec henc, ?_, fun _ _ => ⟨hinv, hgone, hmoved⟩, ?_⟩
    · intro d' hd'
      simp only [List.mem_cons, List.not_mem_nil, or_false] at hd'
      rcases hd' with rfl | rfl
      · exact ⟨hr.inv.status, hr.inv.only, hr.inv.config⟩
      · exact hinv
    · intro e he; cases he

/-- the files a directory lists at the start of its migration -/
theorem DirInv.round (hi : DirInv E K b d₀ d) (O : Oracle) : Round E K b d₀ (O.readDir d.objFiles) d :=
  ⟨hi, (O.readDir_perm _).nodup_iff.2 d.nodup_objFiles, fun _ hq => (O.readDir_perm _).mem_iff.1 hq⟩

/-- **A clean directory migrates.** The run cannot fail and leaves every object as its new file only. -/
theorem migrateBucketDir_clean (hsep : Separate E K) (hs : SoundDir E K b d₀) (stats : RotationStats) :
    Spec (fun d => DirInv E K b d₀ d ∧ Clean E K d₀ d) (migrateBucketDir E O K b stats) (fun _ => DirDone E K b d₀)
      (fun _ _ => False) (DirInv E K b d₀) := by
  refine Spec.bind (R := fun l d => CleanRound E K b d₀ (O.readDir l.objFiles) d) (Spec.get ?_ fun d h => h.1) fun l => ?_
  · rintro d ⟨hi, hcl⟩
    have hmem : ∀ q, q ∈ O.readDir d.objFiles ↔ q ∈ d.objFiles := fun q => (O.readDir_perm _).mem_iff
    refine ⟨hi.round O, fun p o h _ => hcl p o h, fun p o h hp => ?_, fun p o h hn => ?_⟩
    · rw [hmem, BucketDir.mem_objFiles, not_and_or] at hp
      exact AList.lookup_eq_none.2 (hp.resolve_right fun hc => hc h.ext)
    · exact hcl p o h (BucketDir.mem_objFiles.1 ((hmem _).1 hn)).1
  · refine Spec.bind (loop_clean hsep hs _ stats) fun stats' => ?_
    refine Spec.bind (migrateBucketConfig_spec hsep hs) fun _ => ?_
    exact Spec.pure stats' (fun _ h => h) fun d h => h.toDirInv

/-- **A directory with a migrated object does not.** Every run fails. -/
theorem migrateBucketDir_dirty (hsep : Separate E K) (hs : SoundDir E K b d₀) (stats : RotationStats) :
    Spec (fun d => DirInv E K b d₀ d ∧ ¬ Clean E K d₀ d) (migrateBucketDir E O K b stats) (fun _ _ => False)
      (fun _ _ => True) (DirInv E K b d₀) := by
  refine Spec.bind (R := fun l d => Round E K b d₀ (O.readDir l.objFiles) d ∧
    ∃ p o, Stored E K d₀ p o ∧ newFile E K o ∈ O.readDir l.objFiles) (Spec.get ?_ fun d h => h.1) fun l => ?_
  · rintro d ⟨hi, hcl⟩
    simp only [Clean, not_forall, not_not] at hcl
    obtain ⟨p, o, h, hn⟩ := hcl
    exact ⟨hi.round O, p, o, h, (O.readDir_perm _).mem_iff.2 (BucketDir.mem_objFiles.2 ⟨hn, newFile_ext o⟩)⟩
  · refine Spec.bind (loop_dirty hsep hs _ stats) fun stats' => ?_
    exact fun _ h => h.elim

end Dir

end Y2q.Rotation
