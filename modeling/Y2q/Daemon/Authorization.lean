/-
Who may do what to a bucket (`authz.rs`).

What a caller may do is the intersection of the caller's role and of the caller's relationship to the bucket, behind the grant that the
caller's persona can open. A bucket without such a grant is to look like one that does not exist, except to a `WriteOnly` grantee.

- `effectiveCaps`, `authorizeBucket`: the capabilities with whether the bucket is visible, and the answer.
- `Masked`: hidden buckets answer like absent ones, visible ones never do.
- `authorize_masks_iff`: a request is `Masked` exactly if the role does not fall short of the relationship, and the session's cache does
  not stand in for a grant that is gone.
-/
import Mathlib.Tactic
import Y2q.Auth.Users
import Y2q.Daemon.BucketKeys
import Y2q.Daemon.Grants
import Y2q.Daemon.KeyCache

namespace Y2q.BucketKeys

open Auth (Role Caps roleCaps roleIsGlobal)

variable {S : Sealing}

/-! ## Capabilities -/

def Caps.allows (c : Caps) : BucketPermission → Bool
  | .Read => c.read
  | .Write | .WriteOnly => c.write
  | .Admin => c.admin

def Caps.intersect (c d : Caps) : Caps := ⟨c.read && d.read, c.write && d.write, c.admin && d.admin⟩

def grantCaps : BucketPermission → Caps
  | .Read => { Caps.NONE with read := true }
  | .Write => ⟨true, true, false⟩
  | .WriteOnly => { Caps.NONE with write := true }
  | .Admin => Caps.FULL

/-- `none`: neither the owner nor in the ACL -/
def bucketGrantCaps (cfg : BucketConfig S) (username : String) : Option Caps :=
  match cfg.owner with
  | some owner => if owner = username then some Caps.FULL else cfg.acl[username]?.map grantCaps
  | none => none

def isWriteOnlyRelationship (cfg : BucketConfig S) (username : String) : Bool :=
  match cfg.owner with
  | some owner => owner ≠ username && cfg.acl[username]? = some .WriteOnly
  | none => false

inductive Decision where
  | allowed
  | claimOwnership
deriving DecidableEq, Repr

structure Authenticated where
  session : SessionInfo
  authzEnforced : Bool

/-- the capabilities, and whether the bucket is visible -/
def effectiveCaps (auth : Authenticated) (cfg : BucketConfig S) (bucket : String) : (Caps × Bool) × SessionInfo :=
  let rc := roleCaps auth.session.role
  let (realGrant, session) := isVisible auth.session cfg bucket
  if realGrant && roleIsGlobal auth.session.role then ((rc, true), session)
  else
    match bucketGrantCaps cfg auth.session.username with
    | some bc =>
      if realGrant then ((Caps.intersect rc bc, true), session)
      else if isWriteOnlyRelationship cfg auth.session.username then ((Caps.intersect rc bc, true), session)
      else ((Caps.NONE, false), session)
    | none => ((Caps.NONE, false), session)

/-- the clause that makes some refusals `NotFound` -/
def deniedOnlyByMissingCryptoGrant (auth : Authenticated) (cfg : BucketConfig S) (required : BucketPermission) : Bool :=
  !roleIsGlobal auth.session.role &&
    match bucketGrantCaps cfg auth.session.username with
    | none => false
    | some bc =>
      match required with
      | .Read => bc.read
      | .Admin => bc.admin
      | _ => false

/-- `config` and `exists` are the answers of the storage, where they are asked for -/
def authorizeBucket (auth : Authenticated) (config : Except Error (BucketConfig S)) (bucketExists : Except Error Bool) (bucket : String)
    (required : BucketPermission) : Except Error Decision × SessionInfo :=
  if !auth.authzEnforced then
    (if required = .Write then bucketExists.map fun there => if there then .allowed else .claimOwnership else .ok .allowed, auth.session)
  else
    match config with
    | .error e => (.error e, auth.session)
    | .ok cfg =>
      let ((eff, visible), session) := effectiveCaps auth cfg bucket
      if Caps.allows eff required then
        (if cfg.owner = none ∧ required = .Write then bucketExists.map fun there => if there then .allowed else .claimOwnership
          else .ok .allowed, session)
      else if visible && !deniedOnlyByMissingCryptoGrant auth cfg required then (.error (.forbidden bucket), session)
      else if cfg.owner = none ∧ required = .Write ∧ (roleCaps auth.session.role).write = true then
        (match bucketExists with
          | .error e => .error e
          | .ok true => .error (.notFound bucket)
          | .ok false => .ok .claimOwnership, session)
      else (.error (.notFound bucket), session)

/-! ## Hidden and visible -/

section Request

variable (auth : Authenticated) (cfg : BucketConfig S) (there : Bool) (bucket : String) (required : BucketPermission)

/-- the persona can open its grant on the newest epoch -/
def RealGrant : Prop := ∃ kv key, currentKey cfg = some kv ∧ auth.session.openKey cfg bucket kv.epoch = .ok key

/-- the answer of a bucket that does not exist -/
def absentAnswer : Except Error Decision :=
  if required = .Write ∧ (roleCaps auth.session.role).write = true then .ok .claimOwnership else .error (.notFound bucket)

def answer : Except Error Decision := (authorizeBucket auth (.ok cfg) (.ok there) bucket required).1

structure Masked : Prop where
  absent : answer auth (.default S) false bucket required = absentAnswer auth bucket required
  hidden : ¬RealGrant auth cfg bucket → isWriteOnlyRelationship cfg auth.session.username = false →
    answer auth cfg there bucket required =
      if there = false ∧ cfg.owner = none then absentAnswer auth bucket required else .error (.notFound bucket)
  visible : (effectiveCaps auth cfg bucket).1.2 = true → Caps.allows (effectiveCaps auth cfg bucket).1.1 required = false →
    answer auth cfg there bucket required = .error (.forbidden bucket)

/-- a limited role that does not have the verb, on a bucket whose key the session has and where the relationship has it -/
def RoleFallsShort : Prop :=
  (isVisible auth.session cfg bucket).1 = true ∧ Caps.allows (roleCaps auth.session.role) required = false ∧
    deniedOnlyByMissingCryptoGrant auth cfg required = true

/-- the cache answers for a grant that is gone, where it counts -/
def StaleGrant : Prop :=
  (isVisible auth.session cfg bucket).1 = true ∧ ¬RealGrant auth cfg bucket ∧
    isWriteOnlyRelationship cfg auth.session.username = false ∧
    if roleIsGlobal auth.session.role then
      ¬(there = false ∧ cfg.owner = none ∧ required = .Write ∧ (roleCaps auth.session.role).write = true)
    else bucketGrantCaps cfg auth.session.username ≠ none

end Request

variable {auth : Authenticated} {cfg : BucketConfig S} {there : Bool} {bucket : String} {required : BucketPermission}

theorem allows_none (required : BucketPermission) : Caps.allows Caps.NONE required = false := by
  cases required <;> rfl

theorem allows_intersect {c d : Caps} : Caps.allows (Caps.intersect c d) required = (Caps.allows c required && Caps.allows d required) := by
  cases required <;> rfl

theorem isVisible_of_realGrant (h : RealGrant auth cfg bucket) : (isVisible auth.session cfg bucket).1 = true := by
  obtain ⟨kv, key, hkv, hkey⟩ := h
  rw [isVisible_some hkv]
  cases hc : auth.session.bucketKeys.get bucket kv.epoch with
  | some cached =>
    unfold resolveReadKey
    rw [hc]
    rfl
  | none =>
    rw [resolveReadKey_uncached hc, hkey]
    rfl

/-! ## The three ways to see a bucket -/

theorem effectiveCaps_global (h : (isVisible auth.session cfg bucket).1 = true) (hglobal : roleIsGlobal auth.session.role = true) :
    (effectiveCaps auth cfg bucket).1 = (roleCaps auth.session.role, true) := by
  unfold effectiveCaps
  simp only [h, hglobal, Bool.and_self, if_true]

theorem effectiveCaps_related {bc : Caps} (hrel : bucketGrantCaps cfg auth.session.username = some bc)
    (hlimited : roleIsGlobal auth.session.role = false ∨ (isVisible auth.session cfg bucket).1 = false)
    (hseen : (isVisible auth.session cfg bucket).1 = true ∨ isWriteOnlyRelationship cfg auth.session.username = true) :
    (effectiveCaps auth cfg bucket).1 = (Caps.intersect (roleCaps auth.session.role) bc, true) := by
  have hand : ((isVisible auth.session cfg bucket).1 && roleIsGlobal auth.session.role) = false := by
    rcases hlimited with h | h <;> simp [h]
  unfold effectiveCaps
  simp only [hand, hrel, Bool.false_eq_true, if_false]
  rcases hseen with h | h
  · simp only [h, if_true]
  · split
    · rfl
    · simp only [h, if_true]

theorem effectiveCaps_hidden (hglobal : roleIsGlobal auth.session.role = false ∨ (isVisible auth.session cfg bucket).1 = false)
    (h : bucketGrantCaps cfg auth.session.username = none ∨
      (isVisible auth.session cfg bucket).1 = false ∧ isWriteOnlyRelationship cfg auth.session.username = false) :
    (effectiveCaps auth cfg bucket).1 = (Caps.NONE, false) := by
  have hand : ((isVisible auth.session cfg bucket).1 && roleIsGlobal auth.session.role) = false := by
    rcases hglobal with h | h <;> simp [h]
  unfold effectiveCaps
  simp only [hand, Bool.false_eq_true, if_false]
  rcases h with h | ⟨hv, hwo⟩
  · simp only [h]
  · split
    · simp only [hv, hwo, Bool.false_eq_true, if_false]
    · rfl

/-- where the bucket is not visible, only a claim is not refused -/
theorem answer_hidden (henf : auth.authzEnforced = true) (h : (effectiveCaps auth cfg bucket).1 = (Caps.NONE, false)) :
    answer auth cfg there bucket required =
      if there = false ∧ cfg.owner = none then absentAnswer auth bucket required else .error (.notFound bucket) := by
  unfold answer authorizeBucket absentAnswer
  simp only [henf, h, allows_none, Bool.not_true, Bool.false_eq_true, Bool.false_and, if_false]
  by_cases howner : cfg.owner = none
  · by_cases hwrites : required = .Write ∧ (roleCaps auth.session.role).write = true
    · rw [if_pos ⟨howner, hwrites⟩]
      cases there <;> simp [howner, hwrites]
    · rw [if_neg fun hand => hwrites hand.2, if_neg hwrites, ite_self]
  · rw [if_neg fun hand => howner hand.1, if_neg fun hand => howner hand.2]

theorem effectiveCaps_absent (auth : Authenticated) (bucket : String) :
    (effectiveCaps auth (.default S) bucket).1 = (Caps.NONE, false) :=
  effectiveCaps_hidden (Or.inr (by rw [isVisible_none rfl])) (Or.inl rfl)

/-- where it is, and the verb is not covered -/
theorem answer_denied (henf : auth.authzEnforced = true) (hvisible : (effectiveCaps auth cfg bucket).1.2 = true)
    (hdenied : Caps.allows (effectiveCaps auth cfg bucket).1.1 required = false)
    (hmissing : deniedOnlyByMissingCryptoGrant auth cfg required = false) :
    answer auth cfg there bucket required = .error (.forbidden bucket) := by
  unfold answer authorizeBucket
  simp only [henf, hvisible, hdenied, hmissing, Bool.not_true, Bool.not_false, Bool.false_eq_true, Bool.and_self, if_false, if_true]

theorem owner_of_relationship (h : bucketGrantCaps cfg auth.session.username ≠ none) : cfg.owner ≠ none := by
  intro hnone
  rw [bucketGrantCaps, hnone] at h
  exact h rfl

theorem related_of_missing (h : deniedOnlyByMissingCryptoGrant auth cfg required = true) :
    roleIsGlobal auth.session.role = false ∧ ∃ bc, bucketGrantCaps cfg auth.session.username = some bc ∧ Caps.allows bc required = true := by
  obtain ⟨hglobal, hrel⟩ := Bool.and_eq_true_iff.1 h
  refine ⟨by simpa using hglobal, ?_⟩
  cases hbc : bucketGrantCaps cfg auth.session.username with
  | none =>
    rw [hbc] at hrel
    exact absurd hrel Bool.false_ne_true
  | some bc =>
    rw [hbc] at hrel
    refine ⟨bc, rfl, ?_⟩
    cases required with
    | Read => exact hrel
    | Admin => exact hrel
    | Write => exact absurd hrel Bool.false_ne_true
    | WriteOnly => exact absurd hrel Bool.false_ne_true

/-- a drop box grants neither reading nor administration -/
theorem not_missing_of_writeOnly (h : isWriteOnlyRelationship cfg auth.session.username = true) :
    deniedOnlyByMissingCryptoGrant auth cfg required = false := by
  have hrel : bucketGrantCaps cfg auth.session.username = some (grantCaps .WriteOnly) := by
    unfold isWriteOnlyRelationship at h
    unfold bucketGrantCaps
    split at h
    next owner howner =>
      obtain ⟨hne, hacl⟩ := Bool.and_eq_true_iff.1 h
      simp only [howner, if_neg (of_decide_eq_true hne), of_decide_eq_true hacl]
      rfl
    next => exact absurd h Bool.false_ne_true
  unfold deniedOnlyByMissingCryptoGrant
  rw [hrel]
  cases required <;> exact Bool.and_false _

/-- the clause answers `NotFound` -/
theorem answer_missing (henf : auth.authzEnforced = true) (hdenied : Caps.allows (effectiveCaps auth cfg bucket).1.1 required = false)
    (hmissing : deniedOnlyByMissingCryptoGrant auth cfg required = true) :
    answer auth cfg there bucket required = .error (.notFound bucket) := by
  obtain ⟨-, bc, hbc, -⟩ := related_of_missing hmissing
  have howner := owner_of_relationship (hbc ▸ Option.some_ne_none bc)
  unfold answer authorizeBucket
  simp only [henf, hdenied, hmissing, Bool.not_true, Bool.and_false, Bool.false_eq_true, if_false]
  rw [if_neg fun hand => howner hand.1]

theorem answer_allowed (henf : auth.authzEnforced = true) (hallows : Caps.allows (effectiveCaps auth cfg bucket).1.1 required = true) :
    answer auth cfg there bucket required =
      if there = false ∧ cfg.owner = none ∧ required = .Write then .ok .claimOwnership else .ok .allowed := by
  unfold answer authorizeBucket
  simp only [henf, hallows, Bool.not_true, Bool.false_eq_true, if_false, if_true]
  by_cases hclaim : cfg.owner = none ∧ required = .Write
  · rw [if_pos hclaim]
    cases there <;> simp [Except.map, hclaim]
  · rw [if_neg hclaim, if_neg fun hand => hclaim hand.2]

theorem absentAnswer_ne_forbidden : absentAnswer auth bucket required ≠ .error (.forbidden bucket) := by
  unfold absentAnswer
  split <;> nofun

theorem absentAnswer_ne_allowed : absentAnswer auth bucket required ≠ .ok .allowed := by
  unfold absentAnswer
  split <;> nofun

/-! ## The answer -/

/-- a role that falls short of the relationship shows -/
theorem Masked.not_short (h : Masked auth cfg there bucket required) (henf : auth.authzEnforced = true) :
    ¬RoleFallsShort auth cfg bucket required := by
  intro ⟨hv, hrole, hmissing⟩
  obtain ⟨hlimited, bc, hbc, -⟩ := related_of_missing hmissing
  have heff := effectiveCaps_related hbc (Or.inl hlimited) (Or.inl hv)
  have hdenied : Caps.allows (effectiveCaps auth cfg bucket).1.1 required = false := by
    rw [heff, allows_intersect, hrole]
    rfl
  have hforbidden := h.visible (by rw [heff]) hdenied
  rw [answer_missing henf hdenied hmissing] at hforbidden
  exact absurd hforbidden nofun

/-- and so does a stale key -/
theorem Masked.not_stale (h : Masked auth cfg there bucket required) (henf : auth.authzEnforced = true) :
    ¬StaleGrant auth cfg there bucket required := by
  intro ⟨hv, hreal, hwo, hcounts⟩
  have hhidden := h.hidden hreal hwo
  have hvisible : (effectiveCaps auth cfg bucket).1.2 = true := by
    split at hcounts
    next hglobal => rw [effectiveCaps_global hv hglobal]
    next hlimited =>
      obtain ⟨bc, hbc⟩ := Option.ne_none_iff_exists'.1 hcounts
      rw [effectiveCaps_related hbc (Or.inl (Bool.eq_false_iff.2 hlimited)) (Or.inl hv)]
  cases hallows : Caps.allows (effectiveCaps auth cfg bucket).1.1 required with
  | false =>
    rw [h.visible hvisible hallows] at hhidden
    split at hhidden
    · exact absentAnswer_ne_forbidden hhidden.symm
    · exact absurd hhidden nofun
  | true =>
    rw [answer_allowed henf hallows] at hhidden
    by_cases hclaim : there = false ∧ cfg.owner = none ∧ required = .Write
    · split at hcounts
      next hglobal =>
        obtain ⟨hthere, howner, hwrite⟩ := hclaim
        rw [effectiveCaps_global hv hglobal, hwrite] at hallows
        exact hcounts ⟨hthere, howner, hwrite, hallows⟩
      next => exact owner_of_relationship hcounts hclaim.2.1
    · rw [if_neg hclaim] at hhidden
      split at hhidden
      · exact absentAnswer_ne_allowed hhidden.symm
      · exact absurd hhidden nofun

theorem masked_of (henf : auth.authzEnforced = true) (hstale : ¬StaleGrant auth cfg there bucket required)
    (hshort : ¬RoleFallsShort auth cfg bucket required) : Masked auth cfg there bucket required where
  absent := by
    rw [answer_hidden henf (effectiveCaps_absent auth bucket)]
    exact if_pos ⟨rfl, rfl⟩
  hidden hreal hwo := by
    cases hv : (isVisible auth.session cfg bucket).1 with
    | false => exact answer_hidden henf (effectiveCaps_hidden (Or.inr hv) (Or.inr ⟨hv, hwo⟩))
    | true =>
      have hcounts := fun hcounts => hstale ⟨hv, hreal, hwo, hcounts⟩
      cases hglobal : roleIsGlobal auth.session.role with
      | false =>
        rw [if_neg (Bool.eq_false_iff.1 hglobal)] at hcounts
        exact answer_hidden henf (effectiveCaps_hidden (Or.inl hglobal) (Or.inl (not_not.1 hcounts)))
      | true =>
        rw [if_pos hglobal] at hcounts
        obtain ⟨hthere, howner, hwrite, hrole⟩ := not_not.1 hcounts
        have hallows : Caps.allows (effectiveCaps auth cfg bucket).1.1 required = true := by
          rw [effectiveCaps_global hv hglobal, hwrite]
          exact hrole
        rw [answer_allowed henf hallows, if_pos ⟨hthere, howner, hwrite⟩, if_pos ⟨hthere, howner⟩]
        exact (if_pos ⟨hwrite, hrole⟩).symm
  visible hvisible hdenied := by
    cases hmissing : deniedOnlyByMissingCryptoGrant auth cfg required with
    | false => exact answer_denied henf hvisible hdenied hmissing
    | true =>
      obtain ⟨hlimited, bc, hbc, hcovers⟩ := related_of_missing hmissing
      have hv : (isVisible auth.session cfg bucket).1 = true := by
        by_contra hnot
        have hv := Bool.eq_false_iff.2 hnot
        cases hwo : isWriteOnlyRelationship cfg auth.session.username with
        | true => exact absurd ((not_missing_of_writeOnly hwo).symm.trans hmissing) Bool.false_ne_true
        | false =>
          rw [effectiveCaps_hidden (Or.inr hv) (Or.inr ⟨hv, hwo⟩)] at hvisible
          exact absurd hvisible Bool.false_ne_true
      rw [effectiveCaps_related hbc (Or.inl hlimited) (Or.inl hv), allows_intersect, hcovers, Bool.and_true] at hdenied
      exact absurd ⟨hv, hdenied, hmissing⟩ hshort

/-- **Hidden buckets look absent, visible ones do not.** For every caller, config and verb: without a grant that opens and without a
drop-box relationship the answer is the one for an absent bucket, and with a bucket that is visible but a verb that is not covered it is
`Forbidden`, exactly if the caller's role does not fall short of the relationship and no stale key of the session stands in for a grant. -/
theorem authorize_masks_iff (auth : Authenticated) (henf : auth.authzEnforced = true) (cfg : BucketConfig S) (there : Bool)
    (bucket : String) (required : BucketPermission) :
    Masked auth cfg there bucket required ↔
      ¬RoleFallsShort auth cfg bucket required ∧ ¬StaleGrant auth cfg there bucket required := by
  constructor
  · intro h
    exact ⟨h.not_short henf, h.not_stale henf⟩
  · intro ⟨hshort, hstale⟩
    exact masked_of henf hstale hshort

/-- alice's bucket, open to her slot 0 -/
def aliceRow : List symbolic.SealedKey :=
  [([0], soloFresh.bwk.1, bucketGrantAad "b" 0 "alice" 0), ([1], [], bucketGrantAad "b" 0 "alice" 1),
    ([2], [], bucketGrantAad "b" 0 "alice" 2), ([3], [], bucketGrantAad "b" 0 "alice" 3)]

def aliceEpoch : BucketKeyVersion symbolic :=
  ⟨0, "", ([7], soloFresh.bwk, bucketSkWrapAad "b" 0), (∅ : Table String (List symbolic.SealedKey)).insert "alice" aliceRow⟩

def aliceConfig : BucketConfig symbolic := { BucketConfig.default symbolic with owner := some "alice", keys := [aliceEpoch] }

theorem aliceConfig_row (u : String) : aliceEpoch.grants[u]? = if "alice" = u then some aliceRow else none := by
  rw [aliceEpoch, Table.getElem?_insert_iff, Std.TreeMap.getElem?_emptyc]

theorem aliceConfig_opens : readKey aliceConfig "b" 0 "alice" 0 [0] = .ok [7] := by
  have hfind : findEpoch aliceConfig 0 = some aliceEpoch := rfl
  have hbwk : openBwk aliceConfig "b" 0 "alice" 0 [0] = .ok soloFresh.bwk := by
    unfold openBwk
    simp only [hfind, aliceConfig_row, if_true]
    rfl
  unfold readKey openWith
  simp only [hfind, hbwk]
  rfl

def sessionOf (u : String) (role : Role) : SessionInfo := ⟨u, role, 0, [0], .empty⟩

theorem isVisible_alice (role : Role) : (isVisible (sessionOf "alice" role) aliceConfig "b").1 = true := by
  apply @isVisible_of_realGrant _ ⟨sessionOf "alice" role, true⟩
  exact ⟨aliceEpoch, [7], rfl, aliceConfig_opens⟩

theorem not_visible_bob (role : Role) : (isVisible (sessionOf "bob" role) aliceConfig "b").1 = false := by
  have hopen : (sessionOf "bob" role).openKey aliceConfig "b" 0 = .error (.forbidden "b") := by
    have hfind : findEpoch aliceConfig 0 = some aliceEpoch := rfl
    have hbwk : openBwk aliceConfig "b" 0 "bob" 0 [0] = .error (.forbidden "b") := by
      unfold openBwk
      simp only [hfind, aliceConfig_row]
      rfl
    unfold SessionInfo.openKey readKey openWith
    simp only [hfind, sessionOf, hbwk]
    rfl
  rw [@isVisible_some symbolic _ _ _ aliceEpoch rfl, resolveReadKey_uncached rfl]
  exact congrArg Except.isOk hopen

theorem authorize_masks_stranger : Masked ⟨sessionOf "bob" .User, true⟩ aliceConfig true "b" .Write :=
  (authorize_masks_iff ⟨sessionOf "bob" .User, true⟩ rfl aliceConfig true "b" .Write).2
    ⟨fun h => absurd ((not_visible_bob .User).symm.trans h.1) Bool.false_ne_true,
      fun h => absurd ((not_visible_bob .User).symm.trans h.1) Bool.false_ne_true⟩

/-- an owner whose role only writes reads a bucket that she sees -/
theorem write_only_owner_told_absent : ¬Masked ⟨sessionOf "alice" .WriteOnly, true⟩ aliceConfig true "b" .Read :=
  fun h => h.not_short rfl ⟨isVisible_alice .WriteOnly, rfl, rfl⟩

end Y2q.BucketKeys
