/-
What the handlers make of a bucket's config (`handlers/{acl,keys,buckets,personas}.rs`, `authz.rs`, `auth/handlers.rs`).

Every handler reads the whole config, computes a new one, and writes it back whole. Here is what each computes from the config it has
read, the user records it has looked up, and its random draws; when the reads and writes happen is left to the modules that use this.
The bucket exists and its caller is authorized (`authorize_bucket` reads the config for itself). Slots in user records are in range.

- `setAcl`, `setConfig`, `rotateKey`, `pruneTo` (the end of `run_rekey`), `shareOrRevoke`, `scrubUserGrants`,
  `scrubDeletedUserAclEntries`, `claimOwnership`.
- `ids`: the epochs with their public keys. One lemma a handler says what becomes of them.
-/
import Mathlib.Tactic
import Y2q.Daemon.BucketKeys

namespace Y2q.BucketKeys

variable {S : Sealing}

/-- the caller of a handler -/
structure Session where
  username : String
  persona : ℕ
  identitySk : Bytes
  isAdmin : Bool

/-! ## `set_acl` -/

structure AclBody where
  owner : Option String
  grants : Table String BucketPermission
  generation : UInt64

/-- the owner after the request: only the owner or a global admin may name one -/
def nextOwner (users : Users) (bucket : String) (session : Session) (body : AclBody) (previousOwner : Option String) :
    Except Error (Option String) :=
  match body.owner with
  | none => .ok previousOwner
  | some newOwner =>
    if session.isAdmin ∨ previousOwner = some session.username then
      if (users newOwner).isSome then .ok (some newOwner) else .error (.invalidAcl s!"unknown user `{newOwner}`")
    else .error (.forbidden bucket)

/-- `isWhitespace` is `char::is_whitespace` -/
def checkGrants (isWhitespace : Char → Bool) (owner : Option String) : List String → Except Error Unit
  | [] => .ok ()
  | user :: rest =>
    if user.toList.all isWhitespace then .error (.invalidAcl "grant username must not be empty")
    else if owner = some user then .error (.invalidAcl s!"user `{user}` is the bucket owner and already has full access")
    else checkGrants isWhitespace owner rest

/-- whose rows are sealed again, with or without access, in this order -/
def aclReseals (previousOwner owner : Option String) (old new : List String) : List (String × Bool) :=
  (if old ≠ new then (new.filter (· ∉ old)).map (·, true) ++ (old.filter (· ∉ new)).map (·, false) else []) ++
    if owner ≠ previousOwner then
      match owner with
      | none => []
      | some newOwner =>
        (newOwner, true) :: (previousOwner.toList.filter fun prev => prev ≠ newOwner ∧ prev ∉ new).map (·, false)
    else []

def resealFlags (r : UserRecord) (authorized : Bool) : List Bool := if authorized then onlySlot r.primarySlot else noSlot

/-- unknown users are skipped -/
def resealGrantee (users : Users) (bucket : String) (kv : BucketKeyVersion S) (user : String) (bwk : Key32) (authorized : Bool)
    (draws : ℕ → Draw) : Except Error (BucketKeyVersion S) :=
  match users user with
  | none => .ok kv
  | some r => putGrantSlot kv bucket user ⟨r.slots, resealFlags r authorized⟩ bwk draws

def resealAll (users : Users) (bucket : String) (bwk : Key32) (draws : ℕ → ℕ → Draw) :
    ℕ → List (String × Bool) → BucketKeyVersion S → Except Error (BucketKeyVersion S)
  | _, [], kv => .ok kv
  | n, (user, authorized) :: rest, kv => do
    let kv ← resealGrantee users bucket kv user bwk authorized (draws n)
    resealAll users bucket bwk draws (n + 1) rest kv

/-- replace the first key version of the epoch -/
def replaceEpoch (kv : BucketKeyVersion S) : List (BucketKeyVersion S) → List (BucketKeyVersion S)
  | [] => []
  | k :: keys => if k.epoch = kv.epoch then kv :: keys else k :: replaceEpoch kv keys

/-- the keys after an ACL change -/
def resealKeys (users : Users) (bucket : String) (session : Session) (cfg : BucketConfig S) (reseals : List (String × Bool))
    (draws : ℕ → ℕ → Draw) : Except Error (List (BucketKeyVersion S)) :=
  match currentKey cfg with
  | none => .ok cfg.keys
  | some kv => do
    let bwk ← openVerifiedBwk cfg bucket kv.epoch session.username session.persona session.identitySk
    let kv ← resealAll users bucket bwk draws 0 reseals kv
    pure (replaceEpoch kv cfg.keys)

def setAcl (isWhitespace : Char → Bool) (users : Users) (bucket : String) (session : Session) (body : AclBody)
    (draws : ℕ → ℕ → Draw) (cfg : BucketConfig S) : Except Error (BucketConfig S) :=
  if body.generation ≠ cfg.aclGeneration then
    .error (.aclConflict
      s!"generation mismatch: client sent {body.generation}, server has {cfg.aclGeneration}; re-fetch the ACL and retry")
  else do
    let owner ← nextOwner users bucket session body cfg.owner
    checkGrants isWhitespace owner body.grants.keys
    let old := readImplyingGrantees cfg.acl
    let new := readImplyingGrantees body.grants
    let keys ←
      if old ≠ new ∨ owner ≠ cfg.owner then resealKeys users bucket session cfg (aclReseals cfg.owner owner old new) draws
      else pure cfg.keys
    pure { cfg with owner := owner, acl := body.grants, keys := keys, aclGeneration := cfg.aclGeneration + 1 }

/-! ## The others -/

structure BucketConfigBody where
  quotaBytes : Option UInt64
  defaultSse : Option String
  corsAllowOrigin : Option String

def setConfig (body : BucketConfigBody) (cfg : BucketConfig S) : BucketConfig S :=
  { cfg with quotaBytes := body.quotaBytes, defaultSse := body.defaultSse, corsAllowOrigin := body.corsAllowOrigin }

def rotateKey (users : Users) (bucket : String) (session : Session) (fresh : Fresh) (draws : ℕ → ℕ → Draw) (cfg : BucketConfig S) :
    Except Error (BucketConfig S) :=
  match currentKey cfg with
  | none => .error (.internalError bucket "rotate_key" "bucket has no key material yet")
  | some newest =>
    if cfg.keys.length ≥ MAX_RETAINED_EPOCHS then
      .error (.tooManyBucketKeyEpochs bucket cfg.keys.length MAX_RETAINED_EPOCHS)
    else do
      let _ ← openVerifiedBwk cfg bucket newest.epoch session.username session.persona session.identitySk
      let kv ← newBucketKeyVersion (newest.epoch + 1) bucket (currentGrantees users cfg session.username session.persona) fresh draws
      pure { cfg with keys := cfg.keys ++ [kv] }

/-- the end of `run_rekey`: keep the epoch that was the newest when it began -/
def pruneTo (epoch : UInt32) (cfg : BucketConfig S) : BucketConfig S := { cfg with keys := cfg.keys.filter fun k => k.epoch = epoch }

/-- what `start_rekey` checks; it keeps the secret keys of the epochs below the newest -/
def startRekey (bucket : String) (session : Session) (cfg : BucketConfig S) : Except Error (List (UInt32 × Bytes)) :=
  match currentKey cfg with
  | none => .error (.internalError bucket "rekey" "bucket has no key material yet")
  | some newest => do
    let _ ← openVerifiedBwk cfg bucket newest.epoch session.username session.persona session.identitySk
    (cfg.keys.filter fun kv => kv.epoch < newest.epoch).mapM fun kv => do
      let sk ← readKey cfg bucket kv.epoch session.username session.persona session.identitySk
      pure (kv.epoch, sk)

/-- the caller's own persona and the target -/
def shareFlags (persona target : ℕ) (authorizeTarget : Bool) : List Bool :=
  (List.range CREDENTIAL_SLOTS).map fun i => if i = target then authorizeTarget else i = persona

/-- one retained epoch of `share_or_revoke`; `allowed` is the answer of `authorize_bucket`. Without a real grant it is skipped -/
def shareEpoch (r : UserRecord) (bucket : String) (session : Session) (target : ℕ) (authorizeTarget allowed : Bool)
    (draws : ℕ → Draw) (i : ℕ) (cfg : BucketConfig S) : Except Error (Option (BucketConfig S)) :=
  match cfg.keys[i]? with
  | none => .ok none
  | some kv =>
    if allowed then
      match openVerifiedBwk cfg bucket kv.epoch session.username session.persona session.identitySk with
      | .error _ => .ok none
      | .ok bwk => do
        let kv ← putGrantSlot kv bucket session.username ⟨r.slots, shareFlags session.persona target authorizeTarget⟩ bwk draws
        pure (some { cfg with keys := cfg.keys.set i kv })
    else .ok none

/-- the loop over the epochs, with the indices of those changed -/
def shareLoop (r : UserRecord) (bucket : String) (session : Session) (target : ℕ) (authorizeTarget : Bool) (allowed : ℕ → Bool)
    (draws : ℕ → ℕ → Draw) : List ℕ → BucketConfig S → List ℕ → Except Error (BucketConfig S × List ℕ)
  | [], cfg, changed => .ok (cfg, changed)
  | i :: rest, cfg, changed => do
    match ← shareEpoch r bucket session target authorizeTarget (allowed i) (draws i) i cfg with
    | none => shareLoop r bucket session target authorizeTarget allowed draws rest cfg changed
    | some cfg => shareLoop r bucket session target authorizeTarget allowed draws rest cfg (changed ++ [i])

/-- `none`: there is nothing to write -/
def shareOrRevoke (users : Users) (bucket : String) (session : Session) (target : ℕ) (authorizeTarget : Bool) (allowed : ℕ → Bool)
    (draws : ℕ → ℕ → Draw) (cfg : BucketConfig S) : Except Error (Option (BucketConfig S × List ℕ)) :=
  if target ≥ CREDENTIAL_SLOTS then
    .error (.invalidPersonaRequest s!"invalid persona slot {target}: must be 0..{CREDENTIAL_SLOTS}")
  else if target = session.persona then
    .error (.invalidPersonaRequest "cannot target the caller's own currently-authenticated slot")
  else
    match users session.username with
    | none => .error (.invalidPersonaRequest "caller's own record is missing")
    | some r => do
      let (cfg, changed) ← shareLoop r bucket session target authorizeTarget allowed draws (List.range cfg.keys.length) cfg []
      pure (if changed = [] then none else some (cfg, changed))

def scrubUserGrants (username : String) (cfg : BucketConfig S) : Option (BucketConfig S) :=
  if cfg.keys.any fun kv => kv.grants.contains username then
    some { cfg with keys := cfg.keys.map fun kv => { kv with grants := kv.grants.erase username } }
  else none

def scrubDeletedUserAclEntries (username : String) (cfg : BucketConfig S) : Option (BucketConfig S) :=
  if cfg.acl.contains username then some { cfg with acl := cfg.acl.erase username } else none

/-- `created`: this call made the bucket's directory -/
def claimOwnership (created : Bool) (users : Users) (bucket : String) (session : Session) (fresh : Fresh) (draws : ℕ → ℕ → Draw)
    (cfg : BucketConfig S) : Except Error (Option (BucketConfig S)) :=
  if created ∧ cfg.owner = none then do
    let key ← newOwnerKey users bucket session.username session.persona fresh draws
    pure (some { cfg with owner := some session.username, keys := cfg.keys ++ [key] })
  else pure none

/-! ## What becomes of the epochs -/

def epochs (keys : List (BucketKeyVersion S)) : List UInt32 := keys.map (·.epoch)

@[simp] theorem length_epochs (keys : List (BucketKeyVersion S)) : (epochs keys).length = keys.length := List.length_map _

/-- the epochs with their public keys -/
def ids (keys : List (BucketKeyVersion S)) : List (UInt32 × String) := keys.map fun k => (k.epoch, k.publicKeyB64)

/-- each epoch is one more than the one before it, as `u32` -/
def Consecutive (es : List UInt32) : Prop := ∃ first, ∀ i e, es[i]? = some e → e = first + UInt32.ofNat i

theorem Consecutive.nodup {es : List UInt32} (h : Consecutive es) (hlen : es.length ≤ MAX_RETAINED_EPOCHS) : es.Nodup := by
  obtain ⟨first, h⟩ := h
  rw [List.nodup_iff_getElem?_ne_getElem?]
  intro i j hij hj heq
  have hi := h i _ (List.getElem?_eq_getElem (hij.trans hj))
  have hj' := h j _ (List.getElem?_eq_getElem hj)
  rw [List.getElem?_eq_getElem (hij.trans hj), List.getElem?_eq_getElem hj, Option.some_inj, hi, hj', UInt32.add_right_inj] at heq
  have hnat := congrArg UInt32.toNat heq
  have hmax : MAX_RETAINED_EPOCHS = 8 := rfl
  rw [UInt32.toNat_ofNat_of_lt' (by simp only [UInt32.size]; omega), UInt32.toNat_ofNat_of_lt' (by simp only [UInt32.size]; omega)] at hnat
  exact hij.ne hnat

theorem nodup_epochs {keys : List (BucketKeyVersion S)} (h : Consecutive (epochs keys)) (hlen : keys.length ≤ MAX_RETAINED_EPOCHS) :
    (epochs keys).Nodup := h.nodup ((length_epochs keys).trans_le hlen)

theorem Consecutive.snoc {es : List UInt32} {e : UInt32} (h : Consecutive es) (hlast : es.getLast? = some e) :
    Consecutive (es ++ [e + 1]) := by
  obtain ⟨first, h⟩ := h
  refine ⟨first, fun i e' hi => ?_⟩
  rcases lt_trichotomy i es.length with hlt | heq | hgt
  · rw [List.getElem?_append_left hlt] at hi
    exact h i e' hi
  · subst heq
    rw [List.getElem?_concat_length, Option.some_inj] at hi
    rw [List.getLast?_eq_getElem?] at hlast
    have hpos : 0 < es.length := List.length_pos_iff.2 fun hnil => by simp [hnil] at hlast
    have hsucc : es.length = es.length - 1 + 1 := (Nat.sub_add_cancel hpos).symm
    rw [← hi, h _ e hlast, hsucc, UInt32.ofNat_add, Nat.add_sub_cancel, UInt32.add_assoc]
    rfl
  · rw [List.getElem?_eq_none (by simp; omega)] at hi
    cases hi

theorem Consecutive.single (e : UInt32) : Consecutive [e] := by
  refine ⟨e, fun i e' hi => ?_⟩
  cases i with
  | zero =>
    cases hi
    exact (UInt32.add_zero e).symm
  | succ i => cases hi

theorem Consecutive.nil : Consecutive [] := ⟨0, nofun⟩

theorem findEpoch_of_mem {cfg : BucketConfig S} {kv : BucketKeyVersion S} (h : (epochs cfg.keys).Nodup) (hk : kv ∈ cfg.keys) :
    findEpoch cfg kv.epoch = some kv := by
  rw [findEpoch]
  cases hfind : cfg.keys.find? fun k => k.epoch = kv.epoch with
  | none => simpa using List.find?_eq_none.1 hfind kv hk
  | some k =>
    have hke : k.epoch = kv.epoch := by simpa using List.find?_some hfind
    rw [List.inj_on_of_nodup_map h (List.mem_of_find?_eq_some hfind) hk hke]

/-- only the grants differ -/
def SameKey (kv kv' : BucketKeyVersion S) : Prop :=
  kv'.epoch = kv.epoch ∧ kv'.publicKeyB64 = kv.publicKeyB64 ∧ kv'.skBlob = kv.skBlob

variable {users : Users} {bucket : String} {session : Session} {bwk : Key32} {cfg cfg' : BucketConfig S} {kv kv' : BucketKeyVersion S}
  {keys : List (BucketKeyVersion S)}

theorem SameKey.trans {kv'' : BucketKeyVersion S} (h : SameKey kv kv') (h' : SameKey kv' kv'') : SameKey kv kv'' :=
  ⟨h'.1.trans h.1, h'.2.1.trans h.2.1, h'.2.2.trans h.2.2⟩

theorem putGrantSlot_ok {username : String} {slots : GranteeSlots} {draws : ℕ → Draw}
    (h : putGrantSlot kv bucket username slots bwk draws = .ok kv') :
    ∃ row, sealGrantSlots S bucket kv.epoch username slots bwk draws = .ok row ∧
      kv' = { kv with grants := kv.grants.insert username row } := by
  obtain ⟨row, hrow, h⟩ := bind_ok h
  cases h
  exact ⟨row, hrow, rfl⟩

theorem resealAll_same {draws : ℕ → ℕ → Draw} {n : ℕ} (reseals : List (String × Bool))
    (h : resealAll users bucket bwk draws n reseals kv = .ok kv') : SameKey kv kv' := by
  induction reseals generalizing n kv with
  | nil =>
    cases h
    exact ⟨rfl, rfl, rfl⟩
  | cons e rest ih =>
    obtain ⟨mid, hmid, h⟩ := bind_ok h
    refine SameKey.trans ?_ (ih h)
    rw [resealGrantee] at hmid
    split at hmid
    · cases hmid
      exact ⟨rfl, rfl, rfl⟩
    · obtain ⟨row, -, rfl⟩ := putGrantSlot_ok hmid
      exact ⟨rfl, rfl, rfl⟩

theorem epochs_replaceEpoch : epochs (replaceEpoch kv keys) = epochs keys := by
  induction keys with
  | nil => rfl
  | cons k keys ih =>
    rw [replaceEpoch]
    split_ifs with hk
    · simp only [epochs, List.map_cons, hk]
    · simp only [epochs, List.map_cons] at ih ⊢
      rw [ih]

theorem nodup_epochs_cons {k : BucketKeyVersion S} (h : (epochs (k :: keys)).Nodup) :
    (∀ k' ∈ keys, k'.epoch ≠ k.epoch) ∧ (epochs keys).Nodup := by
  obtain ⟨hnot, hnodup⟩ := List.nodup_cons.1 h
  exact ⟨fun k' hk' heq => hnot (List.mem_map.2 ⟨k', hk', heq⟩), hnodup⟩

theorem mem_replaceEpoch (hnodup : (epochs keys).Nodup) {k : BucketKeyVersion S} (h : k ∈ replaceEpoch kv keys) :
    k = kv ∨ k ∈ keys ∧ k.epoch ≠ kv.epoch := by
  induction keys with
  | nil => cases h
  | cons k' keys ih =>
    obtain ⟨hne, hnodup⟩ := nodup_epochs_cons hnodup
    rw [replaceEpoch] at h
    split_ifs at h with hk'
    · rcases List.mem_cons.1 h with rfl | hmem
      · exact Or.inl rfl
      · exact Or.inr ⟨List.mem_cons_of_mem k' hmem, fun heq => hne k hmem (heq.trans hk'.symm)⟩
    · rcases List.mem_cons.1 h with rfl | hmem
      · exact Or.inr ⟨List.mem_cons_self, hk'⟩
      · rcases ih hnodup hmem with rfl | ⟨hmem, hne⟩
        · exact Or.inl rfl
        · exact Or.inr ⟨List.mem_cons_of_mem k' hmem, hne⟩

/-- with distinct epochs, to replace by position is to replace by epoch -/
theorem set_eq_replaceEpoch (hnodup : (epochs keys).Nodup) {i : ℕ} (hi : keys[i]? = some kv) (he : kv'.epoch = kv.epoch) :
    keys.set i kv' = replaceEpoch kv' keys := by
  induction keys generalizing i with
  | nil => cases hi
  | cons k keys ih =>
    obtain ⟨hne, hnodup⟩ := nodup_epochs_cons hnodup
    rw [replaceEpoch, he]
    cases i with
    | zero =>
      cases hi
      rw [if_pos rfl]
      rfl
    | succ i =>
      rw [List.getElem?_cons_succ] at hi
      rw [if_neg, List.set_cons_succ, ih hnodup hi]
      exact (hne kv (List.mem_of_getElem? hi)).symm

theorem currentKey_mem (h : currentKey cfg = some kv) : kv ∈ cfg.keys := List.mem_of_getLast? h

theorem epochs_getLast? : (epochs cfg.keys).getLast? = (currentKey cfg).map (·.epoch) := List.getLast?_map

/-! ## What each handler does when it succeeds -/

theorem resealKeys_ok {reseals : List (String × Bool)} {draws : ℕ → ℕ → Draw} (hkv : currentKey cfg = some kv)
    (h : resealKeys users bucket session cfg reseals draws = .ok keys) :
    ∃ bwk kv', openVerifiedBwk cfg bucket kv.epoch session.username session.persona session.identitySk = .ok bwk ∧
      resealAll users bucket bwk draws 0 reseals kv = .ok kv' ∧ keys = replaceEpoch kv' cfg.keys := by
  simp only [resealKeys, hkv] at h
  obtain ⟨bwk, hbwk, h⟩ := bind_ok h
  obtain ⟨kv', hkv', h⟩ := bind_ok h
  cases h
  exact ⟨bwk, kv', hbwk, hkv', rfl⟩

theorem setAcl_ok {isWhitespace : Char → Bool} {body : AclBody} {draws : ℕ → ℕ → Draw}
    (h : setAcl isWhitespace users bucket session body draws cfg = .ok cfg') :
    body.generation = cfg.aclGeneration ∧ nextOwner users bucket session body cfg.owner = .ok cfg'.owner ∧
      cfg' = { cfg with owner := cfg'.owner, acl := body.grants, keys := cfg'.keys, aclGeneration := cfg.aclGeneration + 1 } ∧
      ((readImplyingGrantees cfg.acl = readImplyingGrantees body.grants ∧ cfg'.owner = cfg.owner) ∧ cfg'.keys = cfg.keys ∨
        resealKeys users bucket session cfg
          (aclReseals cfg.owner cfg'.owner (readImplyingGrantees cfg.acl) (readImplyingGrantees body.grants)) draws = .ok cfg'.keys) := by
  rw [setAcl] at h
  split_ifs at h with hgen
  rw [not_not] at hgen
  obtain ⟨owner, howner, h⟩ := bind_ok h
  obtain ⟨-, -, h⟩ := bind_ok h
  simp only at h
  split_ifs at h with hchange
  · obtain ⟨keys, hkeys, h⟩ := bind_ok h
    cases h
    exact ⟨hgen, howner, rfl, Or.inr hkeys⟩
  · cases h
    rw [not_or, not_not, not_not] at hchange
    exact ⟨hgen, howner, rfl, Or.inl ⟨hchange, rfl⟩⟩

theorem rotateKey_ok {fresh : Fresh} {draws : ℕ → ℕ → Draw} (h : rotateKey users bucket session fresh draws cfg = .ok cfg') :
    ∃ newest kv, currentKey cfg = some newest ∧ cfg.keys.length < MAX_RETAINED_EPOCHS ∧
      newBucketKeyVersion (newest.epoch + 1) bucket (currentGrantees users cfg session.username session.persona) fresh draws = .ok kv ∧
      cfg' = { cfg with keys := cfg.keys ++ [kv] } := by
  rw [rotateKey] at h
  cases hnewest : currentKey cfg with
  | none =>
    rw [hnewest] at h
    cases h
  | some newest =>
    rw [hnewest] at h
    simp only at h
    split_ifs at h with hlen
    obtain ⟨-, -, h⟩ := bind_ok h
    obtain ⟨kv, hkv, h⟩ := bind_ok h
    cases h
    exact ⟨newest, kv, rfl, not_le.1 hlen, hkv, rfl⟩

theorem rotateKey_of_open {fresh : Fresh} {draws : ℕ → ℕ → Draw} {newest : BucketKeyVersion S} {k : Key32}
    (hnewest : currentKey cfg = some newest) (hlen : cfg.keys.length < MAX_RETAINED_EPOCHS)
    (hopen : openVerifiedBwk cfg bucket newest.epoch session.username session.persona session.identitySk = .ok k)
    (hkv : newBucketKeyVersion (newest.epoch + 1) bucket (currentGrantees users cfg session.username session.persona) fresh draws =
      .ok kv) : rotateKey users bucket session fresh draws cfg = .ok { cfg with keys := cfg.keys ++ [kv] } := by
  simp only [rotateKey, hnewest, if_neg (not_le.2 hlen), hopen, hkv]
  rfl

theorem mapM_ok {ε α β : Type} {f : α → Except ε β} {l : List α} (h : ∀ a ∈ l, ∃ b, f a = .ok b) : ∃ bs, l.mapM f = .ok bs := by
  induction l with
  | nil => exact ⟨[], rfl⟩
  | cons a l ih =>
    obtain ⟨b, hb⟩ := h a List.mem_cons_self
    obtain ⟨bs, hbs⟩ := ih fun a' ha' => h a' (List.mem_cons_of_mem a ha')
    refine ⟨b :: bs, ?_⟩
    rw [List.mapM_cons, hb, hbs]
    rfl

theorem startRekey_of_open {newest : BucketKeyVersion S} (hnewest : currentKey cfg = some newest)
    (hopen : ∀ k ∈ cfg.keys, ∃ x, openWith cfg bucket k.epoch session.username session.persona session.identitySk = .ok x) :
    ∃ sks, startRekey bucket session cfg = .ok sks := by
  obtain ⟨x, hx⟩ := hopen newest (currentKey_mem hnewest)
  simp only [startRekey, hnewest, openVerifiedBwk, hx]
  refine mapM_ok fun k hk => ?_
  obtain ⟨y, hy⟩ := hopen k (List.mem_filter.1 hk).1
  refine ⟨(k.epoch, y.2), ?_⟩
  rw [readKey, hy]
  rfl

theorem newBucketKeyVersion_ok {epoch : UInt32} {grantees : List (String × GranteeSlots)} {fresh : Fresh} {draws : ℕ → ℕ → Draw}
    (h : newBucketKeyVersion epoch bucket grantees fresh draws = .ok kv) :
    sealAll bucket epoch fresh.bwk draws 0 grantees ∅ = .ok kv.grants ∧ kv.epoch = epoch ∧ kv.publicKeyB64 = fresh.publicKeyB64 ∧
      kv.skBlob = S.wrapWithKey fresh.secretKey fresh.bwk (bucketSkWrapAad bucket epoch) fresh.seed := by
  obtain ⟨grants, hgrants, h⟩ := bind_ok h
  cases h
  exact ⟨hgrants, rfl, rfl, rfl⟩

/-- one round of the loop: nothing, or a row of the caller in an epoch where the caller has the BWK -/
theorem shareEpoch_ok {r : UserRecord} {target i : ℕ} {authorizeTarget allowed : Bool} {draws : ℕ → Draw}
    (h : shareEpoch r bucket session target authorizeTarget allowed draws i cfg = .ok (some cfg')) :
    ∃ kv bwk kv', cfg.keys[i]? = some kv ∧
      openVerifiedBwk cfg bucket kv.epoch session.username session.persona session.identitySk = .ok bwk ∧
      putGrantSlot kv bucket session.username ⟨r.slots, shareFlags session.persona target authorizeTarget⟩ bwk draws = .ok kv' ∧
      cfg' = { cfg with keys := cfg.keys.set i kv' } := by
  rw [shareEpoch] at h
  split at h
  · cases h
  · rename_i kv hkv
    split_ifs at h
    · split at h
      · cases h
      · rename_i bwk hbwk
        obtain ⟨kv', hkv', h⟩ := bind_ok h
        cases h
        exact ⟨kv, bwk, kv', hkv, hbwk, hkv', rfl⟩
    · cases h

/-! ## Rows sealed again, keys unchanged -/

/-- the same key versions, with other grants -/
def SameKeys (keys keys' : List (BucketKeyVersion S)) : Prop := List.Forall₂ SameKey keys keys'

theorem SameKeys.refl (keys : List (BucketKeyVersion S)) : SameKeys keys keys :=
  List.forall₂_same.2 fun _ _ => ⟨rfl, rfl, rfl⟩

theorem forall₂_trans {α : Type} {R : α → α → Prop} (htrans : ∀ a b c, R a b → R b c → R a c) {l l' l'' : List α}
    (h : List.Forall₂ R l l') (h' : List.Forall₂ R l' l'') : List.Forall₂ R l l'' := by
  induction h generalizing l'' with
  | nil => exact h'
  | cons hk _ ih =>
    cases h' with
    | cons hk' hrest => exact .cons (htrans _ _ _ hk hk') (ih hrest)

theorem forall₂_set {α : Type} {R : α → α → Prop} (hrefl : ∀ a, R a a) {l : List α} {i : ℕ} {a b : α} (hi : l[i]? = some a) (h : R a b) :
    List.Forall₂ R l (l.set i b) := by
  induction l generalizing i with
  | nil => cases hi
  | cons k l ih =>
    cases i with
    | zero =>
      cases hi
      exact .cons h (List.forall₂_same.2 fun x _ => hrefl x)
    | succ i => exact .cons (hrefl k) (ih hi)

theorem SameKeys.trans {keys' keys'' : List (BucketKeyVersion S)} (h : SameKeys keys keys') (h' : SameKeys keys' keys'') :
    SameKeys keys keys'' := forall₂_trans (R := SameKey) (fun _ _ _ => SameKey.trans) h h'

theorem SameKeys.ids {keys' : List (BucketKeyVersion S)} (h : SameKeys keys keys') : ids keys' = ids keys := by
  induction h with
  | nil => rfl
  | cons hk _ ih =>
    simp only [BucketKeys.ids, List.map_cons, hk.1, hk.2.1] at ih ⊢
    rw [ih]

theorem SameKeys.epochs {keys' : List (BucketKeyVersion S)} (h : SameKeys keys keys') : epochs keys' = epochs keys := by
  induction h with
  | nil => rfl
  | cons hk _ ih =>
    simp only [BucketKeys.epochs, List.map_cons, hk.1] at ih ⊢
    rw [ih]

theorem sameKeys_replaceEpoch (h : ∀ k ∈ keys, k.epoch = kv'.epoch → SameKey k kv') : SameKeys keys (replaceEpoch kv' keys) := by
  induction keys with
  | nil => exact .nil
  | cons k keys ih =>
    rw [replaceEpoch]
    split_ifs with hk
    · exact .cons (h k List.mem_cons_self hk) (SameKeys.refl keys)
    · exact .cons ⟨rfl, rfl, rfl⟩ (ih fun k' hk' => h k' (List.mem_cons_of_mem k hk'))

theorem setAcl_sameKeys {isWhitespace : Char → Bool} {body : AclBody} {draws : ℕ → ℕ → Draw} (hnodup : (epochs cfg.keys).Nodup)
    (h : setAcl isWhitespace users bucket session body draws cfg = .ok cfg') : SameKeys cfg.keys cfg'.keys := by
  obtain ⟨-, -, -, ⟨-, hkeys⟩ | hkeys⟩ := setAcl_ok h
  · rw [hkeys]
    exact SameKeys.refl cfg.keys
  · cases hkv : currentKey cfg with
    | none =>
      simp only [resealKeys, hkv] at hkeys
      rw [← Except.ok.inj hkeys]
      exact SameKeys.refl cfg.keys
    | some kv =>
      obtain ⟨bwk, kv', -, hreseal, hreplace⟩ := resealKeys_ok hkv hkeys
      have hsame := resealAll_same _ hreseal
      rw [hreplace]
      refine sameKeys_replaceEpoch fun k hk heq => ?_
      rw [List.inj_on_of_nodup_map hnodup hk (currentKey_mem hkv) (heq.trans hsame.1)]
      exact hsame

theorem putGrantSlot_same {username : String} {slots : GranteeSlots} {draws : ℕ → Draw}
    (h : putGrantSlot kv bucket username slots bwk draws = .ok kv') : SameKey kv kv' := by
  obtain ⟨row, -, rfl⟩ := putGrantSlot_ok h
  exact ⟨rfl, rfl, rfl⟩

theorem shareLoop_same {r : UserRecord} {target : ℕ} {authorizeTarget : Bool} {allowed : ℕ → Bool} {draws : ℕ → ℕ → Draw}
    (is : List ℕ) {changed changed' : List ℕ}
    (h : shareLoop r bucket session target authorizeTarget allowed draws is cfg changed = .ok (cfg', changed')) :
    SameKeys cfg.keys cfg'.keys ∧ cfg' = { cfg with keys := cfg'.keys } := by
  induction is generalizing cfg changed with
  | nil =>
    cases h
    exact ⟨SameKeys.refl _, rfl⟩
  | cons i rest ih =>
    obtain ⟨res, hres, h⟩ := bind_ok h
    cases res with
    | none => exact ih h
    | some mid =>
      obtain ⟨kv, bwk, kv', hkv, -, hput, rfl⟩ := shareEpoch_ok hres
      obtain ⟨hsame, hcfg⟩ := ih h
      refine ⟨SameKeys.trans (forall₂_set (fun _ => ⟨rfl, rfl, rfl⟩) hkv (putGrantSlot_same hput)) hsame, ?_⟩
      rw [hcfg]

theorem shareOrRevoke_ok {target : ℕ} {authorizeTarget : Bool} {allowed : ℕ → Bool} {draws : ℕ → ℕ → Draw} {changed : List ℕ}
    (h : shareOrRevoke users bucket session target authorizeTarget allowed draws cfg = .ok (some (cfg', changed))) :
    ∃ r, users session.username = some r ∧
      shareLoop r bucket session target authorizeTarget allowed draws (List.range cfg.keys.length) cfg [] = .ok (cfg', changed) := by
  rw [shareOrRevoke] at h
  split_ifs at h
  cases hr : users session.username with
  | none =>
    rw [hr] at h
    cases h
  | some r =>
    simp only [hr] at h
    obtain ⟨⟨cfg₁, changed₁⟩, hloop, h⟩ := bind_ok h
    simp only at h
    split_ifs at h
    · cases h
    · cases h
      exact ⟨r, rfl, hloop⟩

theorem sameKeys_map {f : BucketKeyVersion S → BucketKeyVersion S} (h : ∀ k, SameKey k (f k)) : SameKeys keys (keys.map f) := by
  induction keys with
  | nil => exact .nil
  | cons k keys ih => exact .cons (h k) ih

end Y2q.BucketKeys
