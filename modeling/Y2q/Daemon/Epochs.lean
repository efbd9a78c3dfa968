/-
The order of a bucket's key epochs, over any sequence of requests on the bucket (`set_config` included).

`current_key` is the last key version of the list, and `rotate_key` appends one whose epoch is one more, as `u32`. So the list stays
ascending, and an epoch is used for one key pair only, as long as no rotation starts from the greatest `u32`.

- `Change`: what a request makes of the list of key versions. `serve_change`.
- `Below`: the request does not rotate the greatest epoch there is.
- `epochs_ordered`: along runs of such requests; `epochs_wrap`: 2^32 rotations later the newest epoch is 0 again.
-/
import Mathlib.Tactic
import Y2q.Core.Run
import Y2q.Daemon.Grants

namespace Y2q.BucketKeys

open Run (Along)

variable {S : Sealing}

inductive Request where
  | grant (op : Op)
  | setConfig (body : BucketConfigBody)

def serve (isWhitespace : Char → Bool) (users : Users) (bucket : String) (st : State S) : Request → State S
  | .grant op => step isWhitespace users bucket st op
  -- `set_bucket_config` makes the directory if it is missing
  | .setConfig body => { st with created := true, cfg := setConfig body st.cfg }

def MAX_EPOCH : UInt32 := 0xffffffff

/-- the request does not rotate the greatest epoch -/
def Below (st : State S) : Request → Prop
  | .grant (.rotate ..) => ∀ newest, currentKey st.cfg = some newest → newest.epoch ≠ MAX_EPOCH
  | _ => True

/-! ## One request -/

inductive Change : List (BucketKeyVersion S) → List (BucketKeyVersion S) → Prop
  | same {keys keys' : List (BucketKeyVersion S)} (h : SameKeys keys keys') : Change keys keys'
  | first (kv : BucketKeyVersion S) : Change [] [kv]
  | next {keys : List (BucketKeyVersion S)} {newest kv : BucketKeyVersion S} (hlast : keys.getLast? = some newest)
      (hlen : keys.length < MAX_RETAINED_EPOCHS) (hmax : newest.epoch ≠ MAX_EPOCH) (hepoch : kv.epoch = newest.epoch + 1) :
      Change keys (keys ++ [kv])
  | prune {keys : List (BucketKeyVersion S)} {newest : BucketKeyVersion S} (hlast : keys.getLast? = some newest) :
      Change keys (keys.filter fun k => k.epoch = newest.epoch)

variable {isWhitespace : Char → Bool} {users : Users} {bucket : String} {st : State S} {keys keys₀ keys' : List (BucketKeyVersion S)}
  {newest kv : BucketKeyVersion S}

structure Ordered (st : State S) : Prop where
  ascending : (epochs st.cfg.keys).Pairwise (· < ·)
  length : st.cfg.keys.length ≤ MAX_RETAINED_EPOCHS
  empty : st.created = false → st.cfg.keys = []

theorem nodup_of_ascending (h : (epochs keys).Pairwise (· < ·)) : (epochs keys).Nodup := h.imp ne_of_lt

theorem stepExisting_change (hnodup : (epochs st.cfg.keys).Nodup) {op : Op} (hbelow : Below st (.grant op)) :
    Change st.cfg.keys (stepExisting isWhitespace users bucket st op).cfg.keys := by
  cases op with
  | claim => exact .same (SameKeys.refl _)
  | setAcl session body draws =>
    simp only [stepExisting]
    split
    · exact .same (SameKeys.refl _)
    · rename_i cfg h
      exact .same (setAcl_sameKeys hnodup h)
  | rotate session fresh draws =>
    simp only [stepExisting]
    split
    · exact .same (SameKeys.refl _)
    · rename_i cfg h
      obtain ⟨newest, kv, hnewest, hlen, hkv, rfl⟩ := rotateKey_ok h
      obtain ⟨-, hepoch, -⟩ := newBucketKeyVersion_ok hkv
      exact .next hnewest hlen (hbelow newest hnewest) hepoch
  | rekey session =>
    simp only [stepExisting]
    split
    · rename_i newest _ hnewest
      exact .prune hnewest
    · exact .same (SameKeys.refl _)
  | share session target authorizeTarget allowed draws =>
    simp only [stepExisting]
    split
    · rename_i cfg changed r h hr
      obtain ⟨r', -, hloop⟩ := shareOrRevoke_ok h
      exact .same (shareLoop_same _ hloop).1
    · exact .same (SameKeys.refl _)

theorem serve_change (hst : Ordered st) {r : Request} (hbelow : Below st r) :
    Change st.cfg.keys (serve isWhitespace users bucket st r).cfg.keys := by
  cases r with
  | setConfig body => exact .same (SameKeys.refl _)
  | grant op =>
    cases hcreated : st.created with
    | true =>
      simp only [serve, step, hcreated, if_true]
      exact stepExisting_change (nodup_of_ascending hst.ascending) hbelow
    | false =>
      simp only [serve, step, hcreated, Bool.false_eq_true, if_false]
      cases op with
      | claim session fresh draws =>
        simp only
        split
        · rename_i cfg h
          rw [claimOwnership] at h
          split_ifs at h
          · obtain ⟨kv, -, h⟩ := bind_ok h
            cases h
            rw [hst.empty hcreated]
            exact .first kv
          · cases h
        · exact .same (SameKeys.refl _)
      | _ => exact .same (SameKeys.refl _)

theorem serve_created {r : Request} (h : (serve isWhitespace users bucket st r).created = false) :
    st.created = false ∧ (serve isWhitespace users bucket st r).cfg = st.cfg := by
  cases r with
  | setConfig body => cases h
  | grant op =>
    cases hcreated : st.created with
    | true =>
      simp only [serve, step, hcreated, if_true] at h
      cases op with
      | claim => exact absurd h (by simp [stepExisting, hcreated])
      | _ =>
        simp only [stepExisting] at h
        split at h
        all_goals simp [hcreated] at h
    | false =>
      refine ⟨rfl, ?_⟩
      simp only [serve, step, hcreated, Bool.false_eq_true, if_false] at h ⊢
      cases op with
      | claim session fresh draws =>
        simp only at h
        split at h
        all_goals cases h
      | _ => rfl

/-! ## Ascending, and one key pair an epoch -/

theorem lt_succ_of_ne_max {e : UInt32} (h : e ≠ MAX_EPOCH) : e < e + 1 := by
  have hne : e.toNat ≠ 4294967295 := fun heq => h (UInt32.toNat_inj.1 heq)
  have hlt := e.toNat_lt
  rw [UInt32.lt_iff_toNat_lt, UInt32.toNat_add]
  simp only [UInt32.toNat_one]
  omega

theorem le_getLast (h : (epochs keys).Pairwise (· < ·)) (hlast : keys.getLast? = some newest) : ∀ k ∈ keys, k.epoch ≤ newest.epoch := by
  intro k hk
  obtain ⟨init, rfl⟩ := List.getLast?_eq_some_iff.1 hlast
  rcases List.mem_append.1 hk with hmem | hmem
  · rw [epochs, List.map_append, List.map_singleton, List.pairwise_append] at h
    exact (h.2.2 _ (List.mem_map_of_mem hmem) _ (List.mem_singleton_self _)).le
  · rw [List.mem_singleton.1 hmem]

theorem Change.ascending (h : Change keys keys') (hkeys : (epochs keys).Pairwise (· < ·)) : (epochs keys').Pairwise (· < ·) := by
  cases h with
  | same h =>
    rw [h.epochs]
    exact hkeys
  | first kv => exact List.pairwise_singleton _ _
  | next hlast hlen hmax hepoch =>
    rw [epochs, List.map_append, List.map_singleton, List.pairwise_append]
    refine ⟨hkeys, List.pairwise_singleton _ _, fun e he e' he' => ?_⟩
    obtain ⟨k, hk, rfl⟩ := List.mem_map.1 he
    rw [List.mem_singleton.1 he', hepoch]
    exact (le_getLast hkeys hlast k hk).trans_lt (lt_succ_of_ne_max hmax)
  | prune hlast => exact hkeys.sublist (List.filter_sublist.map _)

theorem Change.length (h : Change keys keys') (hkeys : keys.length ≤ MAX_RETAINED_EPOCHS) : keys'.length ≤ MAX_RETAINED_EPOCHS := by
  cases h with
  | same h =>
    rw [← List.Forall₂.length_eq h]
    exact hkeys
  | first kv => simp [MAX_RETAINED_EPOCHS]
  | next hlast hlen hmax hepoch =>
    rw [List.length_append, List.length_singleton]
    exact hlen
  | prune hlast => exact (List.length_filter_le _ _).trans hkeys

theorem serve_ordered (hst : Ordered st) {r : Request} (hbelow : Below st r) : Ordered (serve isWhitespace users bucket st r) := by
  have hchange : Change st.cfg.keys (serve isWhitespace users bucket st r).cfg.keys := serve_change hst hbelow
  refine ⟨hchange.ascending hst.ascending, hchange.length hst.length, fun hcreated => ?_⟩
  obtain ⟨hcreated, hcfg⟩ := serve_created hcreated
  rw [hcfg]
  exact hst.empty hcreated

/-- the key versions since `keys₀`: those, and newer ones -/
structure Since (keys₀ keys : List (BucketKeyVersion S)) : Prop where
  key : ∀ kv ∈ keys, (∃ kv₀ ∈ keys₀, SameKey kv₀ kv) ∨ ∀ kv₀ ∈ keys₀, kv₀.epoch < kv.epoch
  newest : ∀ newest₀, keys₀.getLast? = some newest₀ → ∃ newest, keys.getLast? = some newest ∧ newest₀.epoch ≤ newest.epoch

theorem Since.refl (keys : List (BucketKeyVersion S)) : Since keys keys :=
  ⟨fun kv hkv => Or.inl ⟨kv, hkv, rfl, rfl, rfl⟩, fun newest hnewest => ⟨newest, hnewest, le_refl _⟩⟩

theorem SameKeys.mem (h : SameKeys keys keys') {k' : BucketKeyVersion S} (hk' : k' ∈ keys') : ∃ k ∈ keys, SameKey k k' := by
  induction h with
  | nil => cases hk'
  | cons hk _ ih =>
    rcases List.mem_cons.1 hk' with rfl | hmem
    · exact ⟨_, List.mem_cons_self, hk⟩
    · obtain ⟨k, hk, hsame⟩ := ih hmem
      exact ⟨k, List.mem_cons_of_mem _ hk, hsame⟩

theorem Since.old {k k' : BucketKeyVersion S} (h : Since keys₀ keys) (hk : k ∈ keys) (hsame : SameKey k k') :
    (∃ kv₀ ∈ keys₀, SameKey kv₀ k') ∨ ∀ kv₀ ∈ keys₀, kv₀.epoch < k'.epoch := by
  rcases h.key k hk with ⟨kv₀, hkv₀, hsame₀⟩ | hnew
  · exact Or.inl ⟨kv₀, hkv₀, hsame₀.trans hsame⟩
  · rw [hsame.1]
    exact Or.inr hnew

theorem Since.change (h : Since keys₀ keys) (hkeys₀ : (epochs keys₀).Pairwise (· < ·)) (hkeys : (epochs keys).Pairwise (· < ·))
    (hchange : Change keys keys') : Since keys₀ keys' := by
  cases hchange with
  | same hsame =>
    refine ⟨fun k' hk' => ?_, fun newest₀ hnewest₀ => ?_⟩
    · obtain ⟨k, hk, hkk'⟩ := hsame.mem hk'
      exact h.old hk hkk'
    · obtain ⟨newest, hnewest, hle⟩ := h.newest newest₀ hnewest₀
      have hlast : (epochs keys').getLast? = some newest.epoch := by
        rw [hsame.epochs, epochs, List.getLast?_map, hnewest]
        rfl
      rw [epochs, List.getLast?_map] at hlast
      obtain ⟨newest', hnewest', heq⟩ := Option.map_eq_some_iff.1 hlast
      exact ⟨newest', hnewest', heq ▸ hle⟩
  | first kv =>
    have hnil : keys₀ = [] := by
      rw [← List.getLast?_eq_none_iff]
      by_contra hne
      obtain ⟨newest₀, hnewest₀⟩ := Option.ne_none_iff_exists'.1 hne
      obtain ⟨newest, hnewest, -⟩ := h.newest newest₀ hnewest₀
      cases hnewest
    rw [hnil]
    exact ⟨fun _ _ => Or.inr fun kv₀ hkv₀ => (by cases hkv₀), fun newest₀ hnewest₀ => (by cases hnewest₀)⟩
  | next hlast hlen hmax hepoch =>
    rename_i newest kv
    have hlt := lt_succ_of_ne_max hmax
    refine ⟨fun k hk => ?_, fun newest₀ hnewest₀ => ?_⟩
    · rcases List.mem_append.1 hk with hmem | hmem
      · exact h.key k hmem
      · rw [List.mem_singleton.1 hmem]
        refine Or.inr fun kv₀ hkv₀ => ?_
        -- the newest of before is at most the newest now
        obtain ⟨last₀, hlast₀⟩ : ∃ last₀, keys₀.getLast? = some last₀ :=
          ⟨_, List.getLast?_eq_some_getLast (List.ne_nil_of_mem hkv₀)⟩
        obtain ⟨newest', hnewest', hle⟩ := h.newest last₀ hlast₀
        cases hlast.symm.trans hnewest'
        rw [hepoch]
        exact ((le_getLast hkeys₀ hlast₀ kv₀ hkv₀).trans hle).trans_lt hlt
    · obtain ⟨newest', hnewest', hle⟩ := h.newest newest₀ hnewest₀
      cases hlast.symm.trans hnewest'
      refine ⟨kv, List.getLast?_concat, ?_⟩
      rw [hepoch]
      exact hle.trans hlt.le
  | prune hlast =>
    rename_i newest
    have hmem := List.mem_of_getLast? hlast
    have hfilter := filter_epoch (nodup_of_ascending hkeys) hmem
    rw [hfilter]
    refine ⟨fun k hk => ?_, fun newest₀ hnewest₀ => ?_⟩
    · rw [List.mem_singleton.1 hk]
      exact h.key newest hmem
    · obtain ⟨newest', hnewest', hle⟩ := h.newest newest₀ hnewest₀
      cases hlast.symm.trans hnewest'
      exact ⟨newest, rfl, hle⟩

theorem Since.sameKey (h : Since keys₀ keys) (hkeys₀ : (epochs keys₀).Pairwise (· < ·)) {kv₀ : BucketKeyVersion S} (hkv₀ : kv₀ ∈ keys₀)
    (hkv : kv ∈ keys) (hepoch : kv.epoch = kv₀.epoch) : SameKey kv₀ kv := by
  rcases h.key kv hkv with ⟨kv₁, hkv₁, hsame⟩ | hnew
  · rw [List.inj_on_of_nodup_map (nodup_of_ascending hkeys₀) hkv₀ hkv₁ (hepoch.symm.trans hsame.1)]
    exact hsame
  · exact absurd hepoch (hnew kv₀ hkv₀).ne'

/-! ## Runs -/

theorem ordered_init : Ordered (State.init : State S) := ⟨List.Pairwise.nil, Nat.zero_le _, fun _ => rfl⟩

/-- **Epochs are ordered.** If no request rotates the greatest epoch: in every state reached the key versions are strictly ascending in
epoch and at most eight, and `current_key` is the greatest; and between two states of a run the greatest epoch does not decrease and
an epoch keeps its key pair. -/
theorem epochs_ordered (isWhitespace : Char → Bool) (users : Users) (bucket : String) (requests later : List Request)
    (h : Along (serve isWhitespace users bucket) Below (State.init : State S) (requests ++ later)) :
    let st₀ := Run.run (serve isWhitespace users bucket) (State.init : State S) requests
    let st := Run.run (serve isWhitespace users bucket) st₀ later
    (epochs st.cfg.keys).Pairwise (· < ·) ∧ st.cfg.keys.length ≤ 8 ∧
      (∀ newest, currentKey st.cfg = some newest → ∀ kv ∈ st.cfg.keys, kv.epoch ≤ newest.epoch) ∧
      (∀ newest₀, currentKey st₀.cfg = some newest₀ → ∃ newest, currentKey st.cfg = some newest ∧ newest₀.epoch ≤ newest.epoch) ∧
      ∀ kv₀ ∈ st₀.cfg.keys, ∀ kv ∈ st.cfg.keys, kv.epoch = kv₀.epoch → kv.publicKeyB64 = kv₀.publicKeyB64 ∧ kv.skBlob = kv₀.skBlob := by
  intro st₀ st
  obtain ⟨hbefore, hafter⟩ := h.split
  have hst₀ : Ordered st₀ := hbefore.inv (I := Ordered) (fun _ _ hs hr => serve_ordered hs hr) ordered_init
  have hst : Ordered st ∧ Since st₀.cfg.keys st.cfg.keys := by
    refine Along.inv (I := fun s => Ordered s ∧ Since st₀.cfg.keys s.cfg.keys) ?_ ⟨hst₀, Since.refl _⟩ hafter
    intro s r hs hr
    exact ⟨serve_ordered hs.1 hr, hs.2.change hst₀.ascending hs.1.ascending (serve_change hs.1 hr)⟩
  refine ⟨hst.1.ascending, hst.1.length, fun newest hnewest => le_getLast hst.1.ascending hnewest, hst.2.newest, ?_⟩
  intro kv₀ hkv₀ kv hkv hepoch
  exact (hst.2.sameKey hst₀.ascending hkv₀ hkv hepoch).2

/-! ## 2^32 rotations -/

/-- the one user's key version of an epoch -/
def soloKey (e : UInt32) : BucketKeyVersion symbolic where
  epoch := e
  publicKeyB64 := soloFresh.publicKeyB64
  skBlob := symbolic.wrapWithKey soloFresh.secretKey soloFresh.bwk (bucketSkWrapAad "b" e) soloFresh.seed
  grants := Std.TreeMap.insert ∅ "alice" ((List.range 4).map fun slot =>
    ([UInt8.ofNat slot], (slotPayload soloFresh.bwk (soloDraws 0) slot (slot = 0)).1, bucketGrantAad "b" e "alice" slot))

def soloConfig (keys : List (BucketKeyVersion symbolic)) : BucketConfig symbolic := ⟨none, none, none, some "alice", ∅, keys, 0⟩

def soloSlots : GranteeSlots := ⟨[Base64.encode [0], Base64.encode [1], Base64.encode [2], Base64.encode [3]], onlySlot 0⟩

theorem solo_newKey (e : UInt32) :
    newBucketKeyVersion e "b" [("alice", soloSlots)] soloFresh soloDraws = .ok (soloKey e) := by
  simp [newBucketKeyVersion, soloSlots, soloKey, sealAll, sealGrantSlots, sealFrom, sealSlot, symbolic, bind, Except.bind, pure, Except.pure, onlySlot,
    CREDENTIAL_SLOTS, List.range_succ]

theorem solo_open {keys : List (BucketKeyVersion symbolic)} {e : UInt32} (hnodup : (epochs keys).Nodup) (he : soloKey e ∈ keys) :
    ∃ x, openWith (soloConfig keys) "b" e "alice" 0 [0] = .ok x := by
  have hknown : Known solo [("alice", soloSlots)] := by
    intro g hg
    rw [List.mem_singleton.1 hg]
    exact ⟨_, if_pos rfl, rfl⟩
  have hepoch := newBucketKeyVersion_epoch hknown (solo_newKey e)
  refine (hepoch.openWith_iff (findEpoch_of_mem hnodup he)).2 ⟨⟨_, Base64.encode [0], if_pos rfl, rfl, Base64.decode_encode [0]⟩, ?_⟩
  exact ⟨_, EpochBook.put_self, rfl⟩

theorem solo_grantees {keys : List (BucketKeyVersion symbolic)} :
    currentGrantees solo (soloConfig keys) soloSession.username soloSession.persona = [("alice", soloSlots)] := by
  have hread : readImplyingGrantees (∅ : Table String BucketPermission) = [] := by
    rw [List.eq_nil_iff_forall_not_mem]
    intro u hu
    obtain ⟨level, hlevel, -⟩ := mem_readImplyingGrantees.1 hu
    rw [Std.TreeMap.getElem?_emptyc] at hlevel
    cases hlevel
  simp [currentGrantees, rotationUsers, hread, soloConfig, soloSession, solo, soloSlots]

theorem solo_rotate (e : UInt32) : rotateKey solo "b" soloSession soloFresh soloDraws (soloConfig [soloKey e]) =
    .ok (soloConfig [soloKey e, soloKey (e + 1)]) := by
  obtain ⟨x, hx⟩ := @solo_open [soloKey e] e (List.nodup_singleton _) List.mem_cons_self
  have hopen : openVerifiedBwk (soloConfig [soloKey e]) "b" (soloKey e).epoch soloSession.username soloSession.persona
      soloSession.identitySk = .ok x.1 := by
    change (openWith (soloConfig [soloKey e]) "b" e "alice" 0 [0]).map Prod.fst = _
    rw [hx]
    rfl
  have hkv : newBucketKeyVersion ((soloKey e).epoch + 1) "b"
      (currentGrantees solo (soloConfig [soloKey e]) soloSession.username soloSession.persona) soloFresh soloDraws =
        .ok (soloKey (e + 1)) := by
    rw [solo_grantees]
    exact solo_newKey (e + 1)
  exact @rotateKey_of_open symbolic solo "b" soloSession (soloConfig [soloKey e]) _ soloFresh soloDraws _ _ rfl
    (by simp [soloConfig, MAX_RETAINED_EPOCHS]) hopen hkv

theorem solo_rekey {e : UInt32} (he : e ≠ MAX_EPOCH) :
    ∃ sks, startRekey "b" soloSession (soloConfig [soloKey e, soloKey (e + 1)]) = .ok sks := by
  have hnodup : (epochs [soloKey e, soloKey (e + 1)]).Nodup := by simp [epochs, soloKey, (lt_succ_of_ne_max he).ne]
  refine @startRekey_of_open symbolic "b" soloSession (soloConfig [soloKey e, soloKey (e + 1)]) (soloKey (e + 1)) rfl fun k hk => ?_
  rcases List.mem_cons.1 hk with rfl | hk
  · exact solo_open hnodup List.mem_cons_self
  · rw [List.mem_singleton.1 hk]
    exact solo_open hnodup (List.mem_cons_of_mem _ List.mem_cons_self)

/-- the requests of one round: a rotation and a rekey -/
def soloRound : List Request := [.grant (.rotate soloSession soloFresh soloDraws), .grant (.rekey soloSession)]

def soloRounds (n : ℕ) : List Request := .grant (.claim soloSession soloFresh soloDraws) :: (List.replicate n soloRound).flatten

def soloServe : State symbolic → Request → State symbolic := serve (fun _ => false) solo "b"

theorem solo_round {st : State symbolic} {e : UInt32} (he : e ≠ MAX_EPOCH) (hcreated : st.created = true)
    (hcfg : st.cfg = soloConfig [soloKey e]) :
    (Run.run soloServe st soloRound).created = true ∧ (Run.run soloServe st soloRound).cfg = soloConfig [soloKey (e + 1)] := by
  obtain ⟨sks, hsks⟩ := solo_rekey he
  have hlt := lt_succ_of_ne_max he
  simp only [soloRound, soloServe, Run.run, List.foldl, serve, step, hcreated, if_true, stepExisting, hcfg, solo_rotate, hsks]
  refine ⟨rfl, ?_⟩
  change pruneTo (e + 1) (soloConfig [soloKey e, soloKey (e + 1)]) = _
  simp [pruneTo, soloConfig, soloKey, hlt.ne]

theorem solo_claim : claimOwnership true solo "b" soloSession soloFresh soloDraws (BucketConfig.default symbolic) =
    .ok (some (soloConfig [soloKey 0])) := by
  have hkey : newOwnerKey solo "b" soloSession.username soloSession.persona soloFresh soloDraws = .ok (soloKey 0) := solo_newKey 0
  simp only [claimOwnership, BucketConfig.default, and_self, if_true, hkey]
  rfl

/-- after `n` rounds the only epoch is `n` -/
theorem solo_rounds {n : ℕ} (hn : n < 2 ^ 32) : (Run.run soloServe State.init (soloRounds n)).created = true ∧
    (Run.run soloServe State.init (soloRounds n)).cfg = soloConfig [soloKey (UInt32.ofNat n)] := by
  induction n with
  | zero =>
    have hstep : Run.run soloServe State.init (soloRounds 0) =
        { (State.init : State symbolic) with
          created := true
          cfg := soloConfig [soloKey 0]
          history := claimEvents solo soloSession soloFresh soloDraws } := by
      simp only [soloRounds, List.replicate_zero, List.flatten_nil, Run.run, List.foldl, soloServe, serve, step, State.init, solo_claim]
      rfl
    rw [hstep]
    exact ⟨rfl, rfl⟩
  | succ n ih =>
    obtain ⟨hcreated, hcfg⟩ := ih (by omega)
    have he : UInt32.ofNat n ≠ MAX_EPOCH := by
      intro heq
      have hnat := congrArg UInt32.toNat heq
      rw [UInt32.toNat_ofNat_of_lt' (by simp only [UInt32.size]; omega)] at hnat
      have hmax : MAX_EPOCH.toNat = 4294967295 := rfl
      omega
    have hround : soloRounds (n + 1) = soloRounds n ++ soloRound := by
      simp [soloRounds, List.replicate_succ']
    have hstep := solo_round he hcreated hcfg
    rw [hround, Run.run_append, UInt32.ofNat_add]
    exact hstep

/-- the first round is such a run -/
theorem epochs_ordered_first_round : Along soloServe Below State.init (soloRounds 0 ++ soloRound) ∧
    (epochs (Run.run soloServe (Run.run soloServe State.init (soloRounds 0)) soloRound).cfg.keys).Pairwise (· < ·) := by
  obtain ⟨-, hcfg⟩ := solo_rounds (show 0 < 2 ^ 32 by norm_num)
  have hround : Along soloServe Below (Run.run soloServe State.init (soloRounds 0)) soloRound := by
    refine ⟨fun newest hnewest => ?_, trivial, trivial⟩
    rw [hcfg] at hnewest
    cases hnewest
    decide
  have halong : Along soloServe Below State.init (soloRounds 0 ++ soloRound) := Along.append ⟨trivial, trivial⟩ hround
  exact ⟨halong, (epochs_ordered (fun _ => false) solo "b" (soloRounds 0) soloRound halong).1⟩

theorem solo_rotated {n : ℕ} (hn : n < 2 ^ 32) :
    epochs (Run.run soloServe State.init (soloRounds n ++ [.grant (.rotate soloSession soloFresh soloDraws)])).cfg.keys =
      [UInt32.ofNat n, UInt32.ofNat n + 1] := by
  obtain ⟨hcreated, hcfg⟩ := solo_rounds hn
  rw [Run.run_append]
  generalize Run.run soloServe State.init (soloRounds n) = st at hcreated hcfg
  simp only [Run.run, List.foldl, soloServe, serve, step, hcreated, if_true, stepExisting, hcfg, solo_rotate]
  rfl

/-- claimed, rotated and rekeyed 2^32 - 1 times, and rotated once more: the epochs are 2^32 - 1 and 0 -/
theorem epochs_wrap : ¬(epochs (Run.run soloServe State.init
    (soloRounds 4294967295 ++ [.grant (.rotate soloSession soloFresh soloDraws)])).cfg.keys).Pairwise (· < ·) := by
  rw [solo_rotated (show 4294967295 < 2 ^ 32 by norm_num)]
  decide

end Y2q.BucketKeys
