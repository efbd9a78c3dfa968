/-
The updates of a bucket's config as one kind of request, and what a log of them makes of the config.

An `Update` computes, from the config and the user records it has read, that it fails, that there is nothing to write, or the config
to write. `exec` is such a request served alone, or a change of the user store; a log is replayed with `Run.replay`.

- `Update.apply_write`: what an update may change. `apply_congr`: it depends only on the records it looks up.
- `replay_acl`, `replay_settings`, `replay_rotate`, `replay_share`, `replay_deleted`: what a log leaves in the config.
-/
import Mathlib.Tactic
import Y2q.Core.Run
import Y2q.Daemon.BucketHandlers

namespace Y2q.BucketKeys

open Run (replay)

variable {S : Sealing}

/-! ## Requests -/

inductive Update where
  | setAcl (session : Session) (body : AclBody) (draws : ℕ → ℕ → Draw)
  | setConfig (body : BucketConfigBody)
  | rotate (session : Session) (fresh : Fresh) (draws : ℕ → ℕ → Draw)
  | share (session : Session) (target : ℕ) (authorizeTarget : Bool) (allowed : ℕ → Bool) (draws : ℕ → ℕ → Draw)
  /-- of `scrub_user_grants`, this bucket's round -/
  | scrubGrants (username : String)
  /-- of `scrub_deleted_user_acl_entries`, this bucket's round -/
  | scrubAcl (username : String)

inductive Outcome (S : Sealing) where
  | failed
  | nothing
  | write (cfg : BucketConfig S)

def Outcome.ofExcept : Except Error (Option (BucketConfig S)) → Outcome S
  | .error _ => .failed
  | .ok none => .nothing
  | .ok (some cfg) => .write cfg

/-- what `char::is_whitespace` is, and the bucket's name -/
structure Env where
  isWhitespace : Char → Bool
  bucket : String

variable (E : Env)

def Update.apply (users : Users) (cfg : BucketConfig S) : Update → Outcome S
  | .setAcl session body draws => .ofExcept ((BucketKeys.setAcl E.isWhitespace users E.bucket session body draws cfg).map some)
  | .setConfig body => .write (BucketKeys.setConfig body cfg)
  | .rotate session fresh draws => .ofExcept ((rotateKey users E.bucket session fresh draws cfg).map some)
  | .share session target authorizeTarget allowed draws =>
    .ofExcept ((shareOrRevoke users E.bucket session target authorizeTarget allowed draws cfg).map fun res => res.map Prod.fst)
  | .scrubGrants username => .ofExcept (.ok (scrubUserGrants username cfg))
  | .scrubAcl username => .ofExcept (.ok (scrubDeletedUserAclEntries username cfg))

/-- the records that the update may look up -/
def Update.looksUp (cfg : BucketConfig S) : Update → List String
  | .setAcl _ body _ => body.owner.toList ++ cfg.owner.toList ++ readImplyingGrantees cfg.acl ++ readImplyingGrantees body.grants
  | .rotate session _ _ => rotationUsers cfg session.username
  | .share session _ _ _ _ => [session.username]
  | .setConfig _ | .scrubGrants _ | .scrubAcl _ => []

inductive Entry where
  | done (r : Update)
  /-- a user's record is written, or deleted -/
  | account (u : String) (record : Option UserRecord)

/-- one entry, served alone -/
def exec : Entry → BucketConfig S × Users → Option (BucketConfig S × Users)
  | .done r, (cfg, users) =>
    match r.apply E users cfg with
    | .failed => none
    | .nothing => some (cfg, users)
    | .write cfg' => some (cfg', users)
  | .account u record, (cfg, users) => some (cfg, Function.update users u record)

variable {E} {users users' : Users} {cfg cfg' : BucketConfig S} {r : Update} {u : String}

/-! ## What an update changes -/

theorem setConfig_apply {body : BucketConfigBody} :
    (Update.setConfig body).apply E users cfg = .write (BucketKeys.setConfig body cfg) := rfl

theorem ofExcept_write {res : Except Error (Option (BucketConfig S))} (h : Outcome.ofExcept res = .write cfg) : res = .ok (some cfg) := by
  match res, h with
  | .ok (some c), h =>
    cases h
    rfl

theorem ofExcept_map_some {res : Except Error (BucketConfig S)} : Outcome.ofExcept (res.map some) ≠ .nothing := by
  cases res with
  | error e => exact nofun
  | ok c => exact nofun

theorem map_some_ok {α : Type} {res : Except Error α} {a : α} (h : res.map some = .ok (some a)) : res = .ok a := by
  cases res with
  | error e => cases h
  | ok b =>
    cases h
    rfl

theorem share_write {session : Session} {target : ℕ} {authorizeTarget : Bool} {allowed : ℕ → Bool} {draws : ℕ → ℕ → Draw}
    (h : (Update.share session target authorizeTarget allowed draws).apply E users cfg = .write cfg') :
    ∃ changed, shareOrRevoke users E.bucket session target authorizeTarget allowed draws cfg = .ok (some (cfg', changed)) := by
  have hmap := ofExcept_write h
  cases hres : shareOrRevoke users E.bucket session target authorizeTarget allowed draws cfg with
  | error e =>
    rw [hres] at hmap
    cases hmap
  | ok res =>
    rw [hres] at hmap
    obtain ⟨⟨c, changed⟩, hc, heq⟩ := Option.map_eq_some_iff.1 (Except.ok.inj hmap)
    cases heq
    exact ⟨changed, by rw [hc]⟩

theorem scrubUserGrants_some {v : String} (h : scrubUserGrants v cfg = some cfg') :
    cfg' = { cfg with keys := cfg.keys.map fun kv => { kv with grants := kv.grants.erase v } } := by
  rw [scrubUserGrants] at h
  split_ifs at h
  exact (Option.some.inj h).symm

theorem scrubUserGrants_none {v : String} (h : scrubUserGrants v cfg = none) : ∀ kv ∈ cfg.keys, kv.grants[v]? = none := by
  rw [scrubUserGrants] at h
  split_ifs at h with hany
  intro kv hkv
  refine Std.TreeMap.getElem?_eq_none fun hmem => ?_
  exact hany (List.any_eq_true.2 ⟨kv, hkv, Std.TreeMap.contains_iff_mem.2 hmem⟩)

theorem scrubDeletedUserAclEntries_some {v : String} (h : scrubDeletedUserAclEntries v cfg = some cfg') :
    cfg' = { cfg with acl := cfg.acl.erase v } := by
  rw [scrubDeletedUserAclEntries] at h
  split_ifs at h
  exact (Option.some.inj h).symm

theorem scrubDeletedUserAclEntries_none {v : String} (h : scrubDeletedUserAclEntries v cfg = none) : cfg.acl[v]? = none := by
  rw [scrubDeletedUserAclEntries] at h
  split_ifs at h with hmem
  exact Std.TreeMap.getElem?_eq_none fun hin => hmem (Std.TreeMap.contains_iff_mem.2 hin)

/-- everything an update may write -/
def Update.Wrote (E : Env) (users : Users) (cfg cfg' : BucketConfig S) : Update → Prop
  | .setAcl session body draws => BucketKeys.setAcl E.isWhitespace users E.bucket session body draws cfg = .ok cfg'
  | .setConfig body => cfg' = BucketKeys.setConfig body cfg
  | .rotate session fresh draws => rotateKey users E.bucket session fresh draws cfg = .ok cfg'
  | .share session target authorizeTarget allowed draws => ∃ r changed, users session.username = some r ∧
      shareLoop r E.bucket session target authorizeTarget allowed draws (List.range cfg.keys.length) cfg [] = .ok (cfg', changed)
  | .scrubGrants v => cfg' = { cfg with keys := cfg.keys.map fun kv => { kv with grants := kv.grants.erase v } }
  | .scrubAcl v => cfg' = { cfg with acl := cfg.acl.erase v }

theorem Update.apply_write (h : r.apply E users cfg = .write cfg') : r.Wrote E users cfg cfg' := by
  cases r with
  | setAcl session body draws => exact map_some_ok (ofExcept_write h)
  | setConfig body =>
    cases h
    rfl
  | rotate session fresh draws => exact map_some_ok (ofExcept_write h)
  | share session target authorizeTarget allowed draws =>
    obtain ⟨changed, hshare⟩ := share_write h
    obtain ⟨r, hr, hloop⟩ := shareOrRevoke_ok hshare
    exact ⟨r, changed, hr, hloop⟩
  | scrubGrants v => exact scrubUserGrants_some (Except.ok.inj (ofExcept_write h))
  | scrubAcl v => exact scrubDeletedUserAclEntries_some (Except.ok.inj (ofExcept_write h))

/-- the owner, the ACL and its generation -/
def Update.AclAfter (cfg cfg' : BucketConfig S) : Update → Prop
  | .setAcl _ body _ => cfg'.acl = body.grants ∧ cfg'.owner = body.owner.or cfg.owner ∧ body.generation = cfg.aclGeneration ∧
      cfg'.aclGeneration = cfg.aclGeneration + 1
  | .scrubAcl v => cfg'.acl = cfg.acl.erase v ∧ cfg'.owner = cfg.owner ∧ cfg'.aclGeneration = cfg.aclGeneration
  | _ => cfg'.acl = cfg.acl ∧ cfg'.owner = cfg.owner ∧ cfg'.aclGeneration = cfg.aclGeneration

theorem Update.apply_acl (h : r.apply E users cfg = .write cfg') : r.AclAfter cfg cfg' := by
  have hw := Update.apply_write h
  cases r with
  | setAcl session body draws =>
    obtain ⟨hgen, howner, hcfg', -⟩ := setAcl_ok hw
    rw [hcfg']
    refine ⟨rfl, ?_, hgen, rfl⟩
    rw [nextOwner] at howner
    split at howner
    · rename_i hnone
      rw [hnone, ← Except.ok.inj howner]
      rfl
    · rename_i newOwner hsome
      split_ifs at howner
      rw [hsome, ← Except.ok.inj howner]
      rfl
  | setConfig body =>
    rw [hw]
    exact ⟨rfl, rfl, rfl⟩
  | rotate session fresh draws =>
    obtain ⟨newest, kv, -, -, -, rfl⟩ := rotateKey_ok hw
    exact ⟨rfl, rfl, rfl⟩
  | share session target authorizeTarget allowed draws =>
    obtain ⟨_, _, -, hloop⟩ := hw
    rw [(shareLoop_same _ hloop).2]
    exact ⟨rfl, rfl, rfl⟩
  | scrubGrants v =>
    rw [hw]
    exact ⟨rfl, rfl, rfl⟩
  | scrubAcl v =>
    rw [hw]
    exact ⟨rfl, rfl, rfl⟩

def settings (cfg : BucketConfig S) : BucketConfigBody := ⟨cfg.quotaBytes, cfg.defaultSse, cfg.corsAllowOrigin⟩

def Update.SettingsAfter (cfg cfg' : BucketConfig S) : Update → Prop
  | .setConfig body => settings cfg' = body
  | _ => settings cfg' = settings cfg

theorem Update.apply_settings (h : r.apply E users cfg = .write cfg') : r.SettingsAfter cfg cfg' := by
  have hw := Update.apply_write h
  cases r with
  | setAcl session body draws =>
    obtain ⟨-, -, hcfg', -⟩ := setAcl_ok hw
    rw [hcfg']
    rfl
  | setConfig body =>
    rw [hw]
    rfl
  | rotate session fresh draws =>
    obtain ⟨newest, kv, -, -, -, rfl⟩ := rotateKey_ok hw
    rfl
  | share session target authorizeTarget allowed draws =>
    obtain ⟨_, _, -, hloop⟩ := hw
    rw [(shareLoop_same _ hloop).2]
    rfl
  | scrubGrants v =>
    rw [hw]
    rfl
  | scrubAcl v =>
    rw [hw]
    rfl

/-- the key versions: the same ones, or one more -/
def Update.KeysAfter (cfg cfg' : BucketConfig S) : Update → Prop
  | .rotate _ fresh _ => ∃ newest kv, currentKey cfg = some newest ∧ cfg.keys.length < MAX_RETAINED_EPOCHS ∧
      kv.epoch = newest.epoch + 1 ∧ kv.publicKeyB64 = fresh.publicKeyB64 ∧ cfg'.keys = cfg.keys ++ [kv]
  | _ => SameKeys cfg.keys cfg'.keys

theorem Update.apply_keys (hnodup : (epochs cfg.keys).Nodup) (h : r.apply E users cfg = .write cfg') : r.KeysAfter cfg cfg' := by
  have hw := Update.apply_write h
  cases r with
  | setAcl session body draws => exact setAcl_sameKeys hnodup hw
  | setConfig body =>
    rw [hw]
    exact SameKeys.refl _
  | rotate session fresh draws =>
    obtain ⟨newest, kv, hnewest, hlen, hkv, rfl⟩ := rotateKey_ok hw
    obtain ⟨-, hepoch, hpk, -⟩ := newBucketKeyVersion_ok hkv
    exact ⟨newest, kv, hnewest, hlen, hepoch, hpk, rfl⟩
  | share session target authorizeTarget allowed draws =>
    obtain ⟨_, _, -, hloop⟩ := hw
    exact (shareLoop_same _ hloop).1
  | scrubGrants v =>
    rw [hw]
    exact sameKeys_map fun _ => ⟨rfl, rfl, rfl⟩
  | scrubAcl v =>
    rw [hw]
    exact SameKeys.refl _

/-- the epochs a config may have -/
def Valid (cfg : BucketConfig S) : Prop := Consecutive (epochs cfg.keys) ∧ cfg.keys.length ≤ MAX_RETAINED_EPOCHS

theorem Valid.nodup (h : Valid cfg) : (epochs cfg.keys).Nodup := nodup_epochs h.1 h.2

theorem SameKeys.length {keys keys' : List (BucketKeyVersion S)} (h : SameKeys keys keys') : keys'.length = keys.length :=
  (List.Forall₂.length_eq h).symm

theorem Valid.sameKeys (hv : Valid cfg) (h : SameKeys cfg.keys cfg'.keys) : Valid cfg' := by
  rw [Valid, h.epochs, h.length]
  exact hv

theorem Valid.snoc {newest kv : BucketKeyVersion S} (hv : Valid cfg) (hnewest : currentKey cfg = some newest)
    (hlen : cfg.keys.length < MAX_RETAINED_EPOCHS) (hepoch : kv.epoch = newest.epoch + 1) (hkeys : cfg'.keys = cfg.keys ++ [kv]) :
    Valid cfg' := by
  rw [Valid, hkeys, epochs, List.map_append, List.map_singleton, List.length_append, List.length_singleton, hepoch]
  refine ⟨hv.1.snoc ?_, hlen⟩
  rw [epochs_getLast?, hnewest]
  rfl

theorem Update.apply_valid (hv : Valid cfg) (h : r.apply E users cfg = .write cfg') : Valid cfg' := by
  have hkeys := Update.apply_keys hv.nodup h
  cases r with
  | rotate session fresh draws =>
    obtain ⟨newest, kv, hnewest, hlen, hepoch, -, hkeys⟩ := hkeys
    exact hv.snoc hnewest hlen hepoch hkeys
  | _ => exact hv.sameKeys hkeys

/-- no epoch is lost -/
theorem Update.apply_ids (hv : Valid cfg) (h : r.apply E users cfg = .write cfg') {id : UInt32 × String} (hid : id ∈ ids cfg.keys) :
    id ∈ ids cfg'.keys := by
  have hkeys := Update.apply_keys hv.nodup h
  cases r with
  | rotate session fresh draws =>
    obtain ⟨newest, kv, -, -, -, -, hkeys⟩ := hkeys
    rw [hkeys, ids, List.map_append]
    exact List.mem_append_left _ hid
  | _ =>
    rw [SameKeys.ids hkeys]
    exact hid

/-! ## Rows -/

/-- `u` has no row in any epoch -/
def NoRow (u : String) (cfg : BucketConfig S) : Prop := ∀ kv ∈ cfg.keys, kv.grants[u]? = none

/-- the rows of `u` are still there -/
def RowKept (u : String) (cfg cfg' : BucketConfig S) : Prop :=
  ∀ kv ∈ cfg.keys, ∃ kv' ∈ cfg'.keys, kv'.epoch = kv.epoch ∧ kv'.grants[u]? = kv.grants[u]?

theorem putGrantSlot_row {kv kv' : BucketKeyVersion S} {bucket v : String} {slots : GranteeSlots} {bwk : Key32} {draws : ℕ → Draw}
    (hne : v ≠ u) (h : putGrantSlot kv bucket v slots bwk draws = .ok kv') : kv'.grants[u]? = kv.grants[u]? := by
  obtain ⟨row, -, rfl⟩ := putGrantSlot_ok h
  rw [Table.getElem?_insert_iff, if_neg hne]

theorem resealAll_row {kv kv' : BucketKeyVersion S} {bucket : String} {bwk : Key32} {draws : ℕ → ℕ → Draw} {n : ℕ}
    {reseals : List (String × Bool)} (hu : users u = none) (h : resealAll users bucket bwk draws n reseals kv = .ok kv') :
    kv'.grants[u]? = kv.grants[u]? := by
  induction reseals generalizing n kv with
  | nil =>
    cases h
    rfl
  | cons e rest ih =>
    obtain ⟨mid, hmid, h⟩ := bind_ok h
    rw [ih h]
    rw [resealGrantee] at hmid
    split at hmid
    · cases hmid
      rfl
    · rename_i r hr
      refine putGrantSlot_row (fun heq => ?_) hmid
      rw [heq, hu] at hr
      cases hr

theorem sealAll_row {bucket : String} {epoch : UInt32} {bwk : Key32} {draws : ℕ → ℕ → Draw} {n : ℕ}
    {grantees : List (String × GranteeSlots)} {grants grants' : Table String (List S.SealedKey)} (hu : ∀ g ∈ grantees, g.1 ≠ u)
    (h : sealAll bucket epoch bwk draws n grantees grants = .ok grants') : grants'[u]? = grants[u]? := by
  induction grantees generalizing n grants with
  | nil =>
    cases h
    rfl
  | cons g rest ih =>
    obtain ⟨row, -, h⟩ := bind_ok h
    rw [ih (fun g' hg' => hu g' (List.mem_cons_of_mem g hg')) h, Table.getElem?_insert_iff, if_neg (hu g List.mem_cons_self)]

theorem currentGrantees_ne {caller : String} {persona : ℕ} (hu : users u = none) :
    ∀ g ∈ currentGrantees users cfg caller persona, g.1 ≠ u := by
  intro g hg heq
  obtain ⟨v, -, hv⟩ := List.mem_filterMap.1 hg
  obtain ⟨r, hr, rfl⟩ := Option.map_eq_some_iff.1 hv
  rw [show v = u from heq, hu] at hr
  cases hr

theorem mem_replaceEpoch_or {kv k : BucketKeyVersion S} {keys : List (BucketKeyVersion S)} (h : k ∈ replaceEpoch kv keys) :
    k = kv ∨ k ∈ keys := by
  induction keys with
  | nil => cases h
  | cons k' keys ih =>
    rw [replaceEpoch] at h
    split_ifs at h
    · exact (List.mem_cons.1 h).imp_right (List.mem_cons_of_mem k')
    · rcases List.mem_cons.1 h with rfl | hmem
      · exact Or.inr List.mem_cons_self
      · exact (ih hmem).imp_right (List.mem_cons_of_mem k')

/-- the row of `u` is the same -/
def SameRow (u : String) (kv kv' : BucketKeyVersion S) : Prop := kv'.epoch = kv.epoch ∧ kv'.grants[u]? = kv.grants[u]?

theorem SameRow.trans (kv kv' kv'' : BucketKeyVersion S) (h : SameRow u kv kv') (h' : SameRow u kv' kv'') : SameRow u kv kv'' :=
  ⟨h'.1.trans h.1, h'.2.trans h.2⟩

theorem shareLoop_row {rec : UserRecord} {bucket : String} {session : Session} {target : ℕ} {authorizeTarget : Bool}
    {allowed : ℕ → Bool} {draws : ℕ → ℕ → Draw} (is : List ℕ) {changed changed' : List ℕ} (hne : session.username ≠ u)
    (h : shareLoop rec bucket session target authorizeTarget allowed draws is cfg changed = .ok (cfg', changed')) :
    List.Forall₂ (SameRow u) cfg.keys cfg'.keys := by
  induction is generalizing cfg changed with
  | nil =>
    cases h
    exact List.forall₂_same.2 fun _ _ => ⟨rfl, rfl⟩
  | cons i rest ih =>
    obtain ⟨res, hres, h⟩ := bind_ok h
    cases res with
    | none => exact ih h
    | some mid =>
      obtain ⟨kv, bwk, kv', hkv, -, hput, rfl⟩ := shareEpoch_ok hres
      have hset := forall₂_set (R := SameRow u) (fun _ => ⟨rfl, rfl⟩) hkv ⟨(putGrantSlot_same hput).1, putGrantSlot_row hne hput⟩
      exact forall₂_trans SameRow.trans hset (ih h)

theorem rowKept_of_forall₂ (h : List.Forall₂ (SameRow u) cfg.keys cfg'.keys) : RowKept u cfg cfg' := by
  intro kv hkv
  obtain ⟨i, hi, rfl⟩ := List.mem_iff_getElem.1 hkv
  have hi' : i < cfg'.keys.length := h.length_eq ▸ hi
  exact ⟨cfg'.keys[i], List.getElem_mem hi', h.get hi hi'⟩

theorem noRow_of_forall₂ (h : List.Forall₂ (SameRow u) cfg.keys cfg'.keys) (hrow : NoRow u cfg) : NoRow u cfg' := by
  intro kv hkv
  obtain ⟨i, hi, rfl⟩ := List.mem_iff_getElem.1 hkv
  have hi' : i < cfg.keys.length := h.length_eq ▸ hi
  exact (h.get hi' hi).2.trans (hrow _ (List.getElem_mem hi'))

/-- a user without a record gets no row -/
theorem Update.apply_noRow (hu : users u = none) (hrow : NoRow u cfg) (h : r.apply E users cfg = .write cfg') : NoRow u cfg' := by
  have hw := Update.apply_write h
  cases r with
  | setAcl session body draws =>
    obtain ⟨-, -, -, ⟨-, hkeys⟩ | hkeys⟩ := setAcl_ok hw
    · rw [NoRow, hkeys]
      exact hrow
    · cases hkv : currentKey cfg with
      | none =>
        simp only [resealKeys, hkv] at hkeys
        rw [NoRow, ← Except.ok.inj hkeys]
        exact hrow
      | some kv =>
        obtain ⟨bwk, kv', -, hreseal, hreplace⟩ := resealKeys_ok hkv hkeys
        intro k hk
        rw [hreplace] at hk
        rcases mem_replaceEpoch_or hk with rfl | hmem
        · rw [resealAll_row hu hreseal]
          exact hrow kv (currentKey_mem hkv)
        · exact hrow k hmem
  | setConfig body =>
    rw [hw]
    exact hrow
  | rotate session fresh draws =>
    obtain ⟨newest, kv, -, -, hkv, rfl⟩ := rotateKey_ok hw
    obtain ⟨hgrants, -⟩ := newBucketKeyVersion_ok hkv
    intro k hk
    rcases List.mem_append.1 hk with hmem | hmem
    · exact hrow k hmem
    · rw [List.mem_singleton.1 hmem, sealAll_row (currentGrantees_ne hu) hgrants]
      exact Std.TreeMap.getElem?_emptyc
  | share session target authorizeTarget allowed draws =>
    obtain ⟨rec, _, hrec, hloop⟩ := hw
    refine noRow_of_forall₂ (shareLoop_row _ (fun heq => ?_) hloop) hrow
    rw [heq, hu] at hrec
    cases hrec
  | scrubGrants v =>
    rw [hw]
    intro k hk
    obtain ⟨kv, hkv, rfl⟩ := List.mem_map.1 hk
    rw [Table.getElem?_erase_iff, hrow kv hkv, ite_self]
  | scrubAcl v =>
    rw [hw]
    exact hrow

/-- the updates that leave the rows of `u` alone -/
def Update.LeavesRow (u : String) : Update → Prop
  | .setAcl .. => False
  | .share session .. => session.username ≠ u
  | .scrubGrants v => v ≠ u
  | .setConfig _ | .rotate .. | .scrubAcl _ => True

theorem Update.apply_rowKept (hleaves : r.LeavesRow u) (h : r.apply E users cfg = .write cfg') : RowKept u cfg cfg' := by
  have hw := Update.apply_write h
  cases r with
  | setAcl session body draws => exact hleaves.elim
  | setConfig body =>
    rw [hw]
    exact fun kv hkv => ⟨kv, hkv, rfl, rfl⟩
  | rotate session fresh draws =>
    obtain ⟨newest, kv, -, -, -, rfl⟩ := rotateKey_ok hw
    exact fun k hk => ⟨k, List.mem_append_left _ hk, rfl, rfl⟩
  | share session target authorizeTarget allowed draws =>
    obtain ⟨rec, _, -, hloop⟩ := hw
    exact rowKept_of_forall₂ (shareLoop_row _ hleaves hloop)
  | scrubGrants v =>
    rw [hw]
    intro kv hkv
    refine ⟨_, List.mem_map_of_mem hkv, rfl, ?_⟩
    rw [Table.getElem?_erase_iff, if_neg hleaves]
  | scrubAcl v =>
    rw [hw]
    exact fun kv hkv => ⟨kv, hkv, rfl, rfl⟩

/-! ## Only the records looked up matter -/

theorem aclReseals_users {previousOwner owner : Option String} {old new : List String} {v : String} {a : Bool}
    (h : (v, a) ∈ aclReseals previousOwner owner old new) : v ∈ old ∨ v ∈ new ∨ owner = some v ∨ previousOwner = some v := by
  rcases List.mem_append.1 h with hmem | hmem
  · split_ifs at hmem
    · rcases List.mem_append.1 hmem with hmem | hmem
      · obtain ⟨w, hw, heq⟩ := List.mem_map.1 hmem
        cases heq
        exact Or.inr (Or.inl (List.mem_filter.1 hw).1)
      · obtain ⟨w, hw, heq⟩ := List.mem_map.1 hmem
        cases heq
        exact Or.inl (List.mem_filter.1 hw).1
    · cases hmem
  · split_ifs at hmem
    · split at hmem
      · cases hmem
      · rcases List.mem_cons.1 hmem with heq | hmem
        · cases heq
          exact Or.inr (Or.inr (Or.inl rfl))
        · obtain ⟨w, hw, heq⟩ := List.mem_map.1 hmem
          cases heq
          exact Or.inr (Or.inr (Or.inr (Option.mem_toList.1 (List.mem_filter.1 hw).1)))
    · cases hmem

theorem resealAll_congr {kv : BucketKeyVersion S} {bucket : String} {bwk : Key32} {draws : ℕ → ℕ → Draw} {n : ℕ}
    {reseals : List (String × Bool)} (h : ∀ e ∈ reseals, users e.1 = users' e.1) :
    resealAll users bucket bwk draws n reseals kv = resealAll users' bucket bwk draws n reseals kv := by
  induction reseals generalizing n kv with
  | nil => rfl
  | cons e rest ih =>
    obtain ⟨v, a⟩ := e
    have hv : users v = users' v := h (v, a) List.mem_cons_self
    simp only [resealAll, resealGrantee, hv]
    exact congrArg _ (funext fun kv' => ih fun e he => h e (List.mem_cons_of_mem _ he))

theorem currentGrantees_congr {caller : String} {persona : ℕ} (h : ∀ v ∈ rotationUsers cfg caller, users v = users' v) :
    currentGrantees users cfg caller persona = currentGrantees users' cfg caller persona :=
  List.filterMap_congr fun v hv => by rw [h v hv]

theorem nextOwner_congr {bucket : String} {session : Session} {body : AclBody} {previousOwner : Option String}
    (h : ∀ v ∈ body.owner, users v = users' v) :
    nextOwner users bucket session body previousOwner = nextOwner users' bucket session body previousOwner := by
  rw [nextOwner, nextOwner]
  cases howner : body.owner with
  | none => rfl
  | some v =>
    simp only
    rw [h v (Option.mem_def.2 howner)]

theorem nextOwner_mem {bucket : String} {session : Session} {body : AclBody} {previousOwner owner : Option String}
    (h : nextOwner users bucket session body previousOwner = .ok owner) : owner = body.owner ∨ owner = previousOwner := by
  rw [nextOwner] at h
  cases howner : body.owner with
  | none =>
    rw [howner] at h
    exact Or.inr (Except.ok.inj h).symm
  | some v =>
    simp only [howner] at h
    split_ifs at h
    exact Or.inl (Except.ok.inj h).symm

theorem bind_congr_ok {ε α β : Type} {x : Except ε α} {f g : α → Except ε β} (h : ∀ a, x = .ok a → f a = g a) : x >>= f = x >>= g := by
  cases x with
  | error e => rfl
  | ok a => exact h a rfl

theorem setAcl_congr {isWhitespace : Char → Bool} {bucket : String} {session : Session} {body : AclBody} {draws : ℕ → ℕ → Draw}
    (h : ∀ v ∈ (Update.setAcl session body draws).looksUp cfg, users v = users' v) :
    BucketKeys.setAcl isWhitespace users bucket session body draws cfg =
      BucketKeys.setAcl isWhitespace users' bucket session body draws cfg := by
  simp only [Update.looksUp, List.mem_append, Option.mem_toList] at h
  rw [BucketKeys.setAcl, BucketKeys.setAcl]
  split_ifs
  · rfl
  have hnext : nextOwner users bucket session body cfg.owner = nextOwner users' bucket session body cfg.owner :=
    nextOwner_congr fun v hv => h v (Or.inl (Or.inl (Or.inl hv)))
  rw [hnext]
  refine bind_congr_ok fun owner howner => ?_
  refine bind_congr_ok fun _ _ => ?_
  have hkeys : resealKeys users bucket session cfg (aclReseals cfg.owner owner (readImplyingGrantees cfg.acl)
      (readImplyingGrantees body.grants)) draws = resealKeys users' bucket session cfg (aclReseals cfg.owner owner
        (readImplyingGrantees cfg.acl) (readImplyingGrantees body.grants)) draws := by
    rw [resealKeys, resealKeys]
    split
    · rfl
    · refine bind_congr_ok fun bwk _ => ?_
      refine congrArg (fun x => x >>= _) (resealAll_congr fun e he => ?_)
      rcases aclReseals_users he with hold | hnew | hown | hprev
      · exact h e.1 (Or.inl (Or.inr hold))
      · exact h e.1 (Or.inr hnew)
      · rcases nextOwner_mem howner with heq | heq
        · exact h e.1 (Or.inl (Or.inl (Or.inl (heq ▸ hown))))
        · exact h e.1 (Or.inl (Or.inl (Or.inr (heq ▸ hown))))
      · exact h e.1 (Or.inl (Or.inl (Or.inr hprev)))
  simp only [hkeys]

theorem Update.apply_congr (h : ∀ v ∈ r.looksUp cfg, users v = users' v) : r.apply E users cfg = r.apply E users' cfg := by
  cases r with
  | setAcl session body draws => exact congrArg (fun res => Outcome.ofExcept (Except.map some res)) (setAcl_congr h)
  | rotate session fresh draws =>
    have hgrantees : currentGrantees users cfg session.username session.persona =
        currentGrantees users' cfg session.username session.persona := currentGrantees_congr h
    simp only [Update.apply, rotateKey, hgrantees]
  | share session target authorizeTarget allowed draws =>
    have hrec := h session.username List.mem_cons_self
    simp only [Update.apply, shareOrRevoke, hrec]
  | _ => rfl

/-! ## What a log leaves -/

variable {log log' : List Entry} {s s' : BucketConfig S × Users}

/-- an entry that succeeds: nothing changes, an update writes, or a record changes -/
theorem exec_some {x : Entry} (h : exec E x s = some s') :
    (∃ r, x = .done r ∧ r.apply E s.2 s.1 = .nothing ∧ s' = s) ∨
    (∃ r cfg', x = .done r ∧ r.apply E s.2 s.1 = .write cfg' ∧ s' = (cfg', s.2)) ∨
    ∃ u record, x = .account u record ∧ s' = (s.1, Function.update s.2 u record) := by
  obtain ⟨cfg, users⟩ := s
  cases x with
  | done r =>
    rw [exec] at h
    split at h
    · cases h
    · rename_i hr
      exact Or.inl ⟨r, rfl, hr, (Option.some.inj h).symm⟩
    · rename_i cfg' hr
      exact Or.inr (Or.inl ⟨r, cfg', rfl, hr, (Option.some.inj h).symm⟩)
  | account u record => exact Or.inr (Or.inr ⟨u, record, rfl, (Option.some.inj h).symm⟩)

theorem exec_valid {x : Entry} (hv : Valid s.1) (h : exec E x s = some s') : Valid s'.1 := by
  rcases exec_some h with ⟨r, rfl, -, rfl⟩ | ⟨r, cfg', rfl, hr, rfl⟩ | ⟨u, record, rfl, rfl⟩
  · exact hv
  · exact Update.apply_valid hv hr
  · exact hv

theorem replay_valid (hv : Valid s.1) (h : replay (exec E) s log = some s') : Valid s'.1 :=
  Run.replay_inv (I := fun s => Valid s.1) (fun _ _ _ _ hv h => exec_valid hv h) hv h

/-- no `set_acl` -/
def Entry.NotSetAcl : Entry → Prop
  | .done (.setAcl ..) => False
  | _ => True

/-- the user whose ACL entry is scrubbed -/
def Entry.scrubs : Entry → Option String
  | .done (.scrubAcl u) => some u
  | _ => none

theorem exec_acl {x : Entry} (hx : x.NotSetAcl) (h : exec E x s = some s') :
    s'.1.owner = s.1.owner ∧ ∀ u, s'.1.acl[u]? = if x.scrubs = some u then none else s.1.acl[u]? := by
  rcases exec_some h with ⟨r, rfl, hr, rfl⟩ | ⟨r, cfg', rfl, hr, rfl⟩ | ⟨v, record, rfl, rfl⟩
  · refine ⟨rfl, fun u => ?_⟩
    cases r with
    | scrubAcl v =>
      simp only [Entry.scrubs, Option.some_inj]
      by_cases huv : v = u
      · subst huv
        rw [if_pos rfl]
        cases hscrub : scrubDeletedUserAclEntries v s'.1 with
        | none => exact scrubDeletedUserAclEntries_none hscrub
        | some c =>
          rw [Update.apply, hscrub] at hr
          cases hr
      · rw [if_neg huv]
    | _ => rfl
  · have hacl := Update.apply_acl hr
    cases r with
    | setAcl => exact hx.elim
    | scrubAcl v =>
      refine ⟨hacl.2.1, fun u => ?_⟩
      rw [hacl.1, Table.getElem?_erase_iff]
      exact if_congr Option.some_inj.symm rfl rfl
    | _ => exact ⟨hacl.2.1, fun u => congrArg (fun t => t[u]?) hacl.1⟩
  · exact ⟨rfl, fun u => rfl⟩

theorem replay_scrubs (hlog : ∀ x ∈ log, x.NotSetAcl) (h : replay (exec E) s log = some s') :
    s'.1.owner = s.1.owner ∧ ∀ u, s'.1.acl[u]? = if some u ∈ log.map Entry.scrubs then none else s.1.acl[u]? := by
  induction log generalizing s with
  | nil =>
    cases h
    exact ⟨rfl, fun u => rfl⟩
  | cons x rest ih =>
    obtain ⟨mid, hmid, h⟩ := Option.bind_eq_some_iff.1 h
    obtain ⟨howner, hacl⟩ := exec_acl (hlog x List.mem_cons_self) hmid
    obtain ⟨howner', hacl'⟩ := ih (fun y hy => hlog y (List.mem_cons_of_mem x hy)) h
    refine ⟨howner'.trans howner, fun u => ?_⟩
    rw [hacl' u, hacl u]
    by_cases hx : x.scrubs = some u
    · simp [hx]
    · simp [hx, Ne.symm hx]

/-- **The owner and the ACL are those of the last `set_acl`**, less the users scrubbed since. -/
theorem replay_acl {session : Session} {body : AclBody} {draws : ℕ → ℕ → Draw} (hlast : ∀ x ∈ log', x.NotSetAcl)
    (h : replay (exec E) s (log ++ .done (.setAcl session body draws) :: log') = some s') :
    (∃ before, replay (exec E) s log = some before ∧ s'.1.owner = body.owner.or before.1.owner) ∧
      ∀ u, s'.1.acl[u]? = if some u ∈ log'.map Entry.scrubs then none else body.grants[u]? := by
  obtain ⟨before, after, hbefore, hafter, hrest⟩ := Run.replay_split h
  have hset : after.1.acl = body.grants ∧ after.1.owner = body.owner.or before.1.owner := by
    rcases exec_some hafter with ⟨r, heq, hr, rfl⟩ | ⟨r, cfg', heq, hr, rfl⟩ | ⟨v, record, heq, rfl⟩
    · cases heq
      exact absurd hr ofExcept_map_some
    · cases heq
      have hacl := Update.apply_acl hr
      exact ⟨hacl.1, hacl.2.1⟩
    · cases heq
  obtain ⟨howner, hacl⟩ := replay_scrubs hlast hrest
  rw [hset.1] at hacl
  exact ⟨⟨before, hbefore, howner.trans hset.2⟩, hacl⟩

/-- no `set_config` -/
def Entry.NotSetConfig : Entry → Prop
  | .done (.setConfig _) => False
  | _ => True

/-- **The settings are those of the last `set_config`.** -/
theorem replay_settings {body : BucketConfigBody} (hlast : ∀ x ∈ log', x.NotSetConfig)
    (h : replay (exec E) s (log ++ .done (.setConfig body) :: log') = some s') : settings s'.1 = body := by
  obtain ⟨before, after, -, hafter, hrest⟩ := Run.replay_split h
  have hset : settings after.1 = body := by
    cases hafter
    rfl
  refine Run.replay_inv (I := fun t => settings t.1 = body) (fun x hx t t' ht hexec => ?_) hset hrest
  rcases exec_some hexec with ⟨r, rfl, hr, rfl⟩ | ⟨r, cfg', rfl, hr, rfl⟩ | ⟨v, record, rfl, rfl⟩
  · exact ht
  · have hsettings := Update.apply_settings hr
    have hx := hlast _ hx
    cases r with
    | setConfig => exact hx.elim
    | _ => exact hsettings.trans ht
  · exact ht

/-- **Every epoch added by `rotate_key` is there.** -/
theorem replay_rotate {session : Session} {fresh : Fresh} {draws : ℕ → ℕ → Draw} (hv : Valid s.1)
    (h : replay (exec E) s (log ++ .done (.rotate session fresh draws) :: log') = some s') :
    ∃ before newest, replay (exec E) s log = some before ∧ currentKey before.1 = some newest ∧
      (newest.epoch + 1, fresh.publicKeyB64) ∈ ids s'.1.keys := by
  obtain ⟨before, after, hbefore, hafter, hrest⟩ := Run.replay_split h
  have hvbefore := replay_valid hv hbefore
  rcases exec_some hafter with ⟨r, heq, hr, rfl⟩ | ⟨r, cfg', heq, hr, rfl⟩ | ⟨v, record, heq, rfl⟩
  · cases heq
    exact absurd hr ofExcept_map_some
  · cases heq
    obtain ⟨newest, kv, hnewest, -, hepoch, hpk, hkeys⟩ := Update.apply_keys hvbefore.nodup hr
    refine ⟨before, newest, hbefore, hnewest, ?_⟩
    have hin : (newest.epoch + 1, fresh.publicKeyB64) ∈ ids cfg'.keys := by
      rw [hkeys, ids, List.map_append, ← hepoch, ← hpk]
      exact List.mem_append_right _ (List.mem_singleton_self _)
    refine (Run.replay_inv (I := fun t => Valid t.1 ∧ (newest.epoch + 1, fresh.publicKeyB64) ∈ ids t.1.keys)
      (fun x _ t t' ht hexec => ?_) ⟨Update.apply_valid hvbefore hr, hin⟩ hrest).2
    rcases exec_some hexec with ⟨r, rfl, hr, rfl⟩ | ⟨r, cfg'', rfl, hr, rfl⟩ | ⟨v, record, rfl, rfl⟩
    · exact ht
    · exact ⟨Update.apply_valid ht.1 hr, Update.apply_ids ht.1 hr ht.2⟩
    · exact ht
  · cases heq

/-- the entries that leave the rows of `u` alone -/
def Entry.LeavesRow (u : String) : Entry → Prop
  | .done r => r.LeavesRow u
  | .account .. => True

/-- **The rows of a share are there**, unless they were sealed again or scrubbed since. -/
theorem replay_share {session : Session} {target : ℕ} {authorizeTarget : Bool} {allowed : ℕ → Bool} {draws : ℕ → ℕ → Draw}
    (hlast : ∀ x ∈ log', x.LeavesRow session.username)
    (h : replay (exec E) s (log ++ .done (.share session target authorizeTarget allowed draws) :: log') = some s') :
    ∃ before after, replay (exec E) s log = some before ∧
      exec E (.done (.share session target authorizeTarget allowed draws)) before = some after ∧
      RowKept session.username after.1 s'.1 := by
  obtain ⟨before, after, hbefore, hafter, hrest⟩ := Run.replay_split h
  refine ⟨before, after, hbefore, hafter, ?_⟩
  refine Run.replay_inv (I := fun t => RowKept session.username after.1 t.1) (fun x hx t t' ht hexec => ?_)
    (fun kv hkv => ⟨kv, hkv, rfl, rfl⟩) hrest
  rcases exec_some hexec with ⟨r, rfl, hr, rfl⟩ | ⟨r, cfg', rfl, hr, rfl⟩ | ⟨v, record, rfl, rfl⟩
  · exact ht
  · intro kv hkv
    obtain ⟨kv', hkv', hepoch, hrow⟩ := ht kv hkv
    obtain ⟨kv'', hkv'', hepoch', hrow'⟩ := Update.apply_rowKept (hlast _ hx) hr kv' hkv'
    exact ⟨kv'', hkv'', hepoch'.trans hepoch, hrow'.trans hrow⟩
  · exact ht

/-- the entries that do not bring a user back -/
def Entry.NotAdded (u : String) : Entry → Prop
  | .account v record => v = u → record = none
  | .done _ => True

/-- the entries that do not name the user in an ACL -/
def Entry.NotNamed (u : String) : Entry → Prop
  | .done (.setAcl _ body _) => u ∉ body.grants
  | _ => True

theorem exec_deleted {x : Entry} (hx : x.NotAdded u) (hs : s.2 u = none) (h : exec E x s = some s') : s'.2 u = none := by
  rcases exec_some h with ⟨r, rfl, -, rfl⟩ | ⟨r, cfg', rfl, -, rfl⟩ | ⟨v, record, rfl, rfl⟩
  · exact hs
  · exact hs
  · by_cases hv : u = v
    · subst hv
      simp only [Function.update_self]
      exact hx rfl
    · simp only [Function.update_of_ne hv]
      exact hs

theorem exec_noRow {x : Entry} (hs : s.2 u = none) (hrow : NoRow u s.1) (h : exec E x s = some s') : NoRow u s'.1 := by
  rcases exec_some h with ⟨r, rfl, -, rfl⟩ | ⟨r, cfg', rfl, hr, rfl⟩ | ⟨v, record, rfl, rfl⟩
  · exact hrow
  · exact Update.apply_noRow hs hrow hr
  · exact hrow

theorem exec_scrubGrants (h : exec E (.done (.scrubGrants u)) s = some s') : NoRow u s'.1 := by
  rcases exec_some h with ⟨r, heq, hr, rfl⟩ | ⟨r, cfg', heq, hr, rfl⟩ | ⟨v, record, heq, rfl⟩
  · cases heq
    cases hscrub : scrubUserGrants u s'.1 with
    | none => exact scrubUserGrants_none hscrub
    | some c =>
      rw [Update.apply, hscrub] at hr
      cases hr
  · cases heq
    have hw := Update.apply_write hr
    rw [hw]
    intro k hk
    obtain ⟨kv, hkv, rfl⟩ := List.mem_map.1 hk
    rw [Table.getElem?_erase_iff, if_pos rfl]
  · cases heq

theorem exec_notNamed {x : Entry} (hx : x.NotNamed u) (hs : s.1.acl[u]? = none) (h : exec E x s = some s') : s'.1.acl[u]? = none := by
  rcases exec_some h with ⟨r, rfl, -, rfl⟩ | ⟨r, cfg', rfl, hr, rfl⟩ | ⟨v, record, rfl, rfl⟩
  · exact hs
  · have hacl := Update.apply_acl hr
    cases r with
    | setAcl session body draws =>
      rw [hacl.1]
      exact Std.TreeMap.getElem?_eq_none hx
    | scrubAcl v =>
      rw [hacl.1, Table.getElem?_erase_iff, hs, ite_self]
    | _ =>
      rw [hacl.1]
      exact hs
  · exact hs

/-- **A deleted user leaves no trace**: the record goes, then the rows are scrubbed, then the ACL entry, and the user neither comes back
nor is named in an ACL again. -/
theorem replay_deleted {l₁ l₂ l₃ : List Entry} (hadded : ∀ x ∈ l₁ ++ l₂ ++ l₃, x.NotAdded u) (hnamed : ∀ x ∈ l₃, x.NotNamed u)
    (h : replay (exec E) s
      (log ++ .account u none :: (l₁ ++ .done (.scrubGrants u) :: (l₂ ++ .done (.scrubAcl u) :: l₃))) = some s') :
    NoRow u s'.1 ∧ s'.1.acl[u]? = none := by
  obtain ⟨_, a, _, ha, h⟩ := Run.replay_split h
  obtain ⟨b, c, hb, hc, h⟩ := Run.replay_split h
  obtain ⟨d, e, hd, he, h⟩ := Run.replay_split h
  have hgone : a.2 u = none := by
    rw [← Option.some.inj ha]
    exact Function.update_self ..
  have hgoneb : b.2 u = none := Run.replay_inv (I := fun t => t.2 u = none)
    (fun x hx _ _ ht => exec_deleted (hadded x (by simp [hx])) ht) hgone hb
  have hscrubbed : c.2 u = none ∧ NoRow u c.1 := ⟨exec_deleted (x := .done (.scrubGrants u)) trivial hgoneb hc, exec_scrubGrants hc⟩
  have hscrubbedd : d.2 u = none ∧ NoRow u d.1 := Run.replay_inv (I := fun t => t.2 u = none ∧ NoRow u t.1)
    (fun x hx _ _ ht hexec => ⟨exec_deleted (hadded x (by simp [hx])) ht.1 hexec, exec_noRow ht.1 ht.2 hexec⟩) hscrubbed hd
  have hclean : e.2 u = none ∧ NoRow u e.1 ∧ e.1.acl[u]? = none := by
    refine ⟨exec_deleted (x := .done (.scrubAcl u)) trivial hscrubbedd.1 he, exec_noRow hscrubbedd.1 hscrubbedd.2 he, ?_⟩
    rw [(exec_acl (x := .done (.scrubAcl u)) trivial he).2 u]
    exact if_pos rfl
  exact (Run.replay_inv (I := fun t => t.2 u = none ∧ NoRow u t.1 ∧ t.1.acl[u]? = none)
    (fun x hx _ _ ht hexec => ⟨exec_deleted (hadded x (by simp [hx])) ht.1 hexec, exec_noRow ht.1 ht.2.1 hexec,
      exec_notNamed (hnamed x hx) ht.2.2 hexec⟩) hclean h).2

end Y2q.BucketKeys
