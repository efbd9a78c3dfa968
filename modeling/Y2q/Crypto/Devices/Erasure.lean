/-
Registries whose grants were swept: what the structural check and the state MAC see of them.

- `Lighter d d'`: `d'` is `d` with its grant perhaps erased and its signature counter perhaps moved. `check_lighter`: the
  check passes a registry of lighter records if it passes the registry.
- `erasedBy ts reg`: the registry swept at each of the times `ts`. `sweepGrants_erasedBy`: one more sweep is one more time.
- `stateBytes_erasedBy`: the MAC covers which grants are stored, so a sweep that erases any changes its input.
-/
import Mathlib.Tactic
import Y2q.Crypto.Devices.Unlock

namespace Y2q.Devices

open CrashLogic

/-! ## Lighter records -/

/-- the same device: what names it and how it is reached -/
structure SameFace (d d' : DeviceRecord) : Prop where
  id : d'.id = d.id
  label : d'.label = d.label
  kind : d'.kind = d.kind
  tpm2 : d'.tpm2 = d.tpm2
  fido2 : d'.fido2 = d.fido2

/-- the same device with its grant perhaps erased and its signature counter perhaps moved -/
structure Lighter (d d' : DeviceRecord) : Prop extends SameFace d d' where
  wrap : d'.wrap = d.wrap
  kekWrap : d'.kekWrap = d.kekWrap
  homeFactor : d'.homeFactor = d.homeFactor
  grant : d'.grant = d.grant ∨ d'.grant = none
  counted : d'.signCountLast.isSome = d.signCountLast.isSome

variable {ds ds' bs bs' : List DeviceRecord} {d d' : DeviceRecord} {reg : DeviceRegistryFile}

theorem SameFace.refl (d : DeviceRecord) : SameFace d d := ⟨rfl, rfl, rfl, rfl, rfl⟩

theorem Lighter.refl (d : DeviceRecord) : Lighter d d := ⟨SameFace.refl d, rfl, rfl, rfl, Or.inl rfl, rfl⟩

theorem faces (h : List.Forall₂ Lighter ds ds') : List.Forall₂ SameFace ds ds' := h.imp fun _ _ h => h.toSameFace

theorem Lighter.grant_none (h : Lighter d d') (hd : d.grant.isSome = false) : d'.grant.isSome = false := by
  rcases h.grant with hg | hg
  · rw [hg, hd]
  · rw [hg, Option.isSome_none]

theorem exists_of_mem_lighter (h : List.Forall₂ Lighter ds ds') (hd : d' ∈ ds') : ∃ d ∈ ds, Lighter d d' := by
  induction h with
  | nil => cases hd
  | cons hr _ ih =>
    rcases List.mem_cons.1 hd with rfl | hd
    · exact ⟨_, List.mem_cons_self, hr⟩
    · obtain ⟨d, hd, hl⟩ := ih hd
      exact ⟨d, List.mem_cons_of_mem _ hd, hl⟩

theorem homes_face (h : List.Forall₂ SameFace ds ds') :
    (ds'.filter fun d => d.kind = .tpm2).length = (ds.filter fun d => d.kind = .tpm2).length := by
  induction h with
  | nil => rfl
  | cons hd _ ih =>
    simp only [List.filter_cons, hd.kind]
    split <;> simp [ih]

theorem any_face {p : DeviceRecord → Bool} (hp : ∀ d d', SameFace d d' → p d' = p d) (h : List.Forall₂ SameFace ds ds') :
    ds'.any p = ds.any p := by
  induction h with
  | nil => rfl
  | cons hd _ ih => simp only [List.any_cons, hp _ _ hd, ih]

theorem recordsChecks_face (hb : List.Forall₂ SameFace bs bs') (h : List.Forall₂ SameFace ds ds') :
    recordsChecks bs' ds' = recordsChecks bs ds := by
  induction h generalizing bs bs' with
  | nil => rfl
  | @cons d d' ds ds' hd _ ih =>
    have hlabel := any_face (p := fun e => e.label.toLower = d.label.toLower) (fun _ _ h => by simp only [h.label]) hb
    have hid := any_face (p := fun e => e.id = d.id) (fun _ _ h => by simp only [h.id]) hb
    have hone : recordChecks bs' d' = recordChecks bs d := by
      simp only [recordChecks, DeviceRecord.kindOk, hd.id, hd.label, hd.kind, hd.tpm2, hd.fido2, hlabel, hid]
    rw [recordsChecks, recordsChecks, hone, ih (List.rel_append hb (.cons hd .nil))]

theorem checkHomeFactor_face (h : List.Forall₂ SameFace ds ds') (hd : SameFace d d') (f : HomeFactor) :
    checkHomeFactor ds' d' f = checkHomeFactor ds d f := by
  cases f with
  | passcode salt m t p => rfl
  | fido2 deviceId =>
    have hfind : (ds'.find? fun r => r.id = deviceId).map (·.kind) = (ds.find? fun r => r.id = deviceId).map (·.kind) := by
      induction h with
      | nil => rfl
      | cons hr _ ih =>
        simp only [List.find?_cons, hr.id]
        split
        · simp only [Option.map_some, hr.kind]
        · exact ih
    unfold checkHomeFactor
    cases hr : ds.find? (fun r => r.id = deviceId) with
    | none =>
      rw [hr, Option.map_none, Option.map_eq_none_iff] at hfind
      simp only [hfind, hr, hd.id]
    | some r =>
      rw [hr, Option.map_some, Option.map_eq_some_iff] at hfind
      obtain ⟨r', hr', hkind⟩ := hfind
      simp only [hr', hr, hkind, hd.id]

theorem wrapChecks_lighter {permanentAway : Bool} {homes : ℕ} (hds : List.Forall₂ SameFace ds ds') (hd : Lighter d d')
    (h : ∀ c ∈ wrapChecks ds permanentAway homes d, c.1 = true) :
    ∀ c ∈ wrapChecks ds' permanentAway homes d', c.1 = true := by
  unfold wrapChecks at h ⊢
  rw [hd.kind]
  cases hk : d.kind with
  | tpm2 =>
    simp only [hk, List.cons_append, List.nil_append, List.mem_cons, forall_eq_or_imp, Bool.not_eq_true',
      Bool.or_eq_false_iff] at h ⊢
    obtain ⟨hwrap, ⟨⟨hnone, hcounted⟩, hkek⟩, hfactor⟩ := h
    refine ⟨by rw [hd.wrap, hwrap], ⟨⟨hd.grant_none hnone, by rw [hd.counted, hcounted]⟩, by rw [hd.kekWrap, hkek]⟩, ?_⟩
    rw [hd.homeFactor]
    simpa only [checkHomeFactor_face hds hd.toSameFace] using hfactor
  | fido2 =>
    have hcountNone : d'.signCountLast.isNone = d.signCountLast.isNone := by
      rw [← Option.not_isSome, ← Option.not_isSome, hd.counted]
    simp only [hk, List.mem_cons, List.not_mem_nil, or_false, forall_eq_or_imp, forall_eq, Bool.not_eq_true',
      Bool.and_eq_false_iff] at h ⊢
    obtain ⟨hfactor, hpair, hboth, hperm, hhome⟩ := h
    exact ⟨by rw [hd.homeFactor, hfactor], by rw [hcountNone, hd.kekWrap, hpair],
      hboth.imp (fun hw => by rw [hd.wrap, hw]) hd.grant_none, hperm.imp (fun hw => by rw [hd.wrap, hw]) id,
      hhome.imp hd.grant_none id⟩

theorem wraps_checked (h : check reg = .ok ()) (hd : d ∈ reg.devices) :
    ∀ c ∈ wrapChecks reg.devices reg.permanentAway (homeCount reg) d, c.1 = true := by
  intro c hc
  refine check_ok_iff.1 h c ?_
  unfold checks
  simp only [List.mem_append, List.mem_flatMap]
  exact Or.inl (Or.inr ⟨d, hd, hc⟩)

/-- the check passes a registry of lighter records if it passes the registry -/
theorem check_lighter (hds : List.Forall₂ Lighter reg.devices ds') (h : check reg = .ok ()) :
    check { reg with devices := ds' } = .ok () := by
  have hface := faces hds
  have hhomes : homeCount { reg with devices := ds' } = homeCount reg := homes_face hface
  have hempty : ds'.isEmpty = reg.devices.isEmpty := by
    rw [Bool.eq_iff_iff, List.isEmpty_iff, List.isEmpty_iff, ← List.length_eq_zero_iff, ← List.length_eq_zero_iff,
      hds.length_eq]
  rw [check_ok_iff] at h ⊢
  simp only [checks, List.cons_append, List.nil_append, List.append_assoc, List.mem_cons, List.mem_append, List.not_mem_nil,
    or_false, or_imp, forall_and, forall_eq] at h ⊢
  obtain ⟨hesc, hmac, hperiod, hslots, hslot, hmax, hrecords, hwraps, hperm, haway⟩ := h
  refine ⟨hesc, hmac, hperiod, hslots, hslot, ?_, ?_, ?_, ?_, ?_⟩
  · rwa [← hds.length_eq]
  · rwa [recordsChecks_face .nil hface]
  · rw [hhomes]
    intro c hc
    obtain ⟨d', hd', hc⟩ := List.mem_flatMap.1 hc
    obtain ⟨d, hd, hl⟩ := exists_of_mem_lighter hds hd'
    exact wrapChecks_lighter hface hl (fun c hc => hwraps c (List.mem_flatMap.2 ⟨d, hd, hc⟩)) c hc
  · rwa [hhomes, hempty]
  · simp only [Bool.not_eq_true', Bool.and_eq_false_iff] at haway ⊢
    refine haway.imp id fun hany => ?_
    rw [List.any_eq_false] at hany ⊢
    intro d' hd'
    obtain ⟨d, hd, hl⟩ := exists_of_mem_lighter hds hd'
    have hgone := hany d hd
    simp only [Bool.and_eq_true, decide_eq_true_eq, Bool.or_eq_true, not_and, not_or, Bool.not_eq_true] at hgone ⊢
    intro hkind
    obtain ⟨hwrap, hgrant⟩ := hgone (hl.kind.symm.trans hkind)
    exact ⟨by rw [hl.wrap, hwrap], hl.grant_none hgrant⟩

/-! ## Swept registries -/

/-- the record after sweeps at these times -/
def DeviceRecord.erased (ts : List UInt64) (d : DeviceRecord) : DeviceRecord :=
  if ts.any fun t => d.expired t then { d with grant := none } else d

/-- the registry in memory after sweeps at these times, with the MAC stored last -/
def DeviceRegistryFile.erasedBy (reg : DeviceRegistryFile) (ts : List UInt64) (mac : String) : DeviceRegistryFile :=
  { reg with devices := reg.devices.map fun d => d.erased ts, stateMacB64 := mac }

variable {ts : List UInt64} {mac mac' : String} {now : UInt64}

theorem erased_nil (d : DeviceRecord) : d.erased [] = d := rfl

theorem erased_of_expired (h : ts.any fun t => d.expired t) : d.erased ts = { d with grant := none } := if_pos h

theorem erased_of_kept (h : (ts.any fun t => d.expired t) = false) : d.erased ts = d :=
  if_neg (by rw [h]; exact Bool.false_ne_true)

@[simp] theorem erased_id (d : DeviceRecord) : (d.erased ts).id = d.id := by unfold DeviceRecord.erased; split <;> rfl
@[simp] theorem erased_label (d : DeviceRecord) : (d.erased ts).label = d.label := by unfold DeviceRecord.erased; split <;> rfl
@[simp] theorem erased_kind (d : DeviceRecord) : (d.erased ts).kind = d.kind := by unfold DeviceRecord.erased; split <;> rfl
@[simp] theorem erased_wrap (d : DeviceRecord) : (d.erased ts).wrap = d.wrap := by unfold DeviceRecord.erased; split <;> rfl
@[simp] theorem erased_tpm2 (d : DeviceRecord) : (d.erased ts).tpm2 = d.tpm2 := by unfold DeviceRecord.erased; split <;> rfl
@[simp] theorem erased_fido2 (d : DeviceRecord) : (d.erased ts).fido2 = d.fido2 := by unfold DeviceRecord.erased; split <;> rfl
@[simp] theorem erased_kekWrap (d : DeviceRecord) : (d.erased ts).kekWrap = d.kekWrap := by
  unfold DeviceRecord.erased; split <;> rfl
@[simp] theorem erased_homeFactor (d : DeviceRecord) : (d.erased ts).homeFactor = d.homeFactor := by
  unfold DeviceRecord.erased; split <;> rfl
@[simp] theorem erased_signCountLast (d : DeviceRecord) : (d.erased ts).signCountLast = d.signCountLast := by
  unfold DeviceRecord.erased; split <;> rfl

theorem erased_grant (d : DeviceRecord) : (d.erased ts).grant = d.grant ∨ (d.erased ts).grant = none := by
  unfold DeviceRecord.erased
  split
  · exact Or.inr rfl
  · exact Or.inl rfl

theorem expired_erased : (d.erased ts).expired now = (d.expired now && !ts.any fun t => d.expired t) := by
  unfold DeviceRecord.erased
  cases h : ts.any fun t => d.expired t with
  | true => simp [DeviceRecord.expired]
  | false => simp

theorem erased_cons : (if (d.erased ts).expired now then { d.erased ts with grant := none } else d.erased ts) =
    d.erased (now :: ts) := by
  rw [expired_erased]
  cases h : ts.any fun t => d.expired t with
  | true =>
    rw [erased_of_expired h, erased_of_expired (by rw [List.any_cons, h, Bool.or_true])]
    simp
  | false =>
    rw [erased_of_kept h]
    unfold DeviceRecord.erased
    simp [h]

theorem lighter_erased (d : DeviceRecord) : Lighter d (d.erased ts) := by
  refine ⟨⟨?_, ?_, ?_, ?_, ?_⟩, ?_, ?_, ?_, erased_grant d, ?_⟩ <;> simp

theorem forall₂_lighter_erased (ds : List DeviceRecord) : List.Forall₂ Lighter ds (ds.map fun d => d.erased ts) := by
  rw [List.forall₂_map_right_iff]
  exact List.forall₂_same.2 fun d _ => lighter_erased d

/-- one more sweep is one more time -/
theorem sweepGrants_erasedBy (now : UInt64) : (sweepGrants (reg.erasedBy ts mac) now).1 = reg.erasedBy (now :: ts) mac := by
  simp only [sweepGrants, DeviceRegistryFile.erasedBy, List.map_map]
  congr 2
  exact funext fun d => erased_cons

theorem erasedBy_nil (reg : DeviceRegistryFile) : reg.erasedBy [] reg.stateMacB64 = reg := by
  unfold DeviceRegistryFile.erasedBy
  rw [show (fun d : DeviceRecord => d.erased []) = id from rfl, List.map_id]

theorem forall₂_lighter_sweepGrants (reg : DeviceRegistryFile) (now : UInt64) :
    List.Forall₂ Lighter reg.devices (sweepGrants reg now).1.devices := by
  have h := @sweepGrants_erasedBy reg [] reg.stateMacB64 now
  rw [erasedBy_nil] at h
  rw [h]
  exact forall₂_lighter_erased reg.devices

theorem check_erasedBy (h : check reg = .ok ()) (hmac : decodes32 mac = true) : check (reg.erasedBy ts mac) = .ok () :=
  check_congr (check_lighter (forall₂_lighter_erased reg.devices) h) reg.nkWrap hmac

theorem fillDerived_lighter (hds : List.Forall₂ Lighter reg.devices ds') (h : fillDerived reg = .ok ()) :
    fillDerived { reg with devices := ds' } = .ok () := by
  unfold fillDerived at h ⊢
  split_ifs at h ⊢ with hesc
  have hnone : (reg.devices.find? fun d => (decodeHexId d.id).isNone) = none := by
    by_contra hne
    obtain ⟨d, hd⟩ := Option.ne_none_iff_exists'.1 hne
    rw [hd] at h
    cases h
  have hnone' : (ds'.find? fun d => (decodeHexId d.id).isNone) = none := by
    rw [List.find?_eq_none] at hnone ⊢
    intro d' hd'
    obtain ⟨d, hd, hl⟩ := exists_of_mem_lighter hds hd'
    rw [hl.id]
    exact hnone d hd
  simp only [hnone']

/-! ## The state MAC -/

variable {P : Primitives} {H : Hashes}

/-- equal concatenations of pieces of equal lengths are equal piece by piece -/
theorem eq_of_flatMap_eq {α β : Type} {f g : α → List β} {l : List α} (hlen : ∀ x ∈ l, (f x).length = (g x).length)
    (h : l.flatMap f = l.flatMap g) : ∀ x ∈ l, f x = g x := by
  induction l with
  | nil => simp
  | cons x l ih =>
    rw [List.flatMap_cons, List.flatMap_cons] at h
    obtain ⟨hx, hl⟩ := List.append_inj h (hlen x List.mem_cons_self)
    simp only [List.mem_cons, forall_eq_or_imp]
    exact ⟨hx, ih (fun y hy => hlen y (List.mem_cons_of_mem x hy)) hl⟩

theorem length_deviceBytes_erased (d : DeviceRecord) : (deviceBytes H (d.erased ts)).length = (deviceBytes H d).length := by
  simp [deviceBytes, kindBytes, DeviceRecord.idBytes, DeviceRecord.uv]

/-- a record's bytes show whether it has a grant -/
theorem grant_of_deviceBytes {ts ts' : List UInt64} (h : deviceBytes H (d.erased ts) = deviceBytes H (d.erased ts')) :
    (d.erased ts).grant.isSome = (d.erased ts').grant.isSome := by
  have hid : (d.erased ts).idBytes = (d.erased ts').idBytes := by simp [DeviceRecord.idBytes]
  unfold deviceBytes at h
  simp only [hid, List.append_assoc, List.append_cancel_left_eq, List.cons_append, List.cons.injEq] at h
  have hbyte := h.2.2.1
  revert hbyte
  cases (d.erased ts).grant.isSome <;> cases (d.erased ts').grant.isSome <;> simp [boolByte]

theorem grants_of_stateBytes {ts ts' : List UInt64}
    (h : stateBytes H (reg.erasedBy ts mac) = stateBytes H (reg.erasedBy ts' mac')) :
    ∀ d ∈ reg.devices, (d.erased ts).grant.isSome = (d.erased ts').grant.isSome := by
  simp only [stateBytes, DeviceRegistryFile.erasedBy, List.length_map, List.append_assoc, List.append_cancel_left_eq] at h
  rw [List.flatMap_map, List.flatMap_map] at h
  have hpieces := eq_of_flatMap_eq (fun d _ => (length_deviceBytes_erased d).trans (length_deviceBytes_erased d).symm)
    (List.append_cancel_right h)
  exact fun d hd => grant_of_deviceBytes (hpieces d hd)

/-- the MAC covers which grants are stored -/
theorem stateBytes_erasedBy (h : stateBytes H (reg.erasedBy (now :: ts) mac) = stateBytes H (reg.erasedBy ts mac')) :
    ∀ d ∈ reg.devices, (d.erased ts).expired now = false := by
  intro d hd
  have hgrant := grants_of_stateBytes h d hd
  by_contra hexp
  rw [Bool.not_eq_false] at hexp
  rw [← erased_cons, if_pos hexp] at hgrant
  unfold DeviceRecord.expired at hexp
  cases hg : (d.erased ts).grant with
  | none => simp [hg] at hexp
  | some g => simp [hg] at hgrant

theorem sweepGrants_pos : 0 < (sweepGrants (reg.erasedBy ts mac) now).2 ↔
    ∃ d ∈ reg.devices, (d.erased ts).expired now = true := by
  simp [sweepGrants, DeviceRegistryFile.erasedBy, List.length_pos_iff_exists_mem]

/-! ## Registries that pass the check -/

/-- a registry that passes the check -/
structure Valid (r : DeviceRegistryFile) : Prop where
  filled : fillDerived r = .ok ()
  checked : check r = .ok ()

theorem decodes32_mac (stateKey : Bytes) (r : DeviceRegistryFile) : decodes32 (Base64.encode (stateMac P H stateKey r)) = true := by
  simp [decodes32, stateMac, P.length_hmac]

theorem Valid.authenticate {r : DeviceRegistryFile} (h : Valid r) (stateKey : Bytes) : Valid (authenticate P H stateKey r) :=
  ⟨h.filled, check_congr h.checked r.nkWrap (decodes32_mac stateKey r)⟩

theorem Valid.lighter {r : DeviceRegistryFile} {ds : List DeviceRecord} (h : Valid r) (hds : List.Forall₂ Lighter r.devices ds) :
    Valid { r with devices := ds } := ⟨fillDerived_lighter hds h.filled, check_lighter hds h.checked⟩

theorem persist_result {r : DeviceRegistryFile} (h : Valid r) (stateKey : Bytes) (disk : RegistryDisk) :
    (persist P H stateKey r).result disk = .ok (authenticate P H stateKey r) := by
  unfold persist
  rw [h.filled, (h.authenticate stateKey).checked]
  rfl

/-- sealing a key into a valid registry -/
theorem validate_sealed {r : DeviceRegistryFile} (h : Valid r) (stateKey : Bytes) (w : Wrap) :
    validate (authenticate P H stateKey { r with nkWrap := w }) = .ok () := by
  have hfill : fillDerived (authenticate P H stateKey { r with nkWrap := w }) = .ok () := h.filled
  unfold validate
  rw [hfill]
  exact check_congr h.checked w (decodes32_mac stateKey _)

theorem verify_authenticate (stateKey : Bytes) (r : DeviceRegistryFile) :
    verifyStateMac P H stateKey (authenticate P H stateKey r) = .ok () := by
  have hmac : (authenticate P H stateKey r).stateMacB64 = Base64.encode (stateMac P H stateKey r) := rfl
  unfold verifyStateMac
  rw [hmac, decodes32_mac, Base64.decode_encode]
  exact (if_neg (by simp)).trans (if_pos rfl)

theorem verify_ok_iff {stateKey : Bytes} {r : DeviceRegistryFile} :
    verifyStateMac P H stateKey r = .ok () ↔ Base64.decode r.stateMacB64 = some (stateMac P H stateKey r) := by
  unfold verifyStateMac
  constructor
  · intro h
    split_ifs at h with hdec hmac
    exact hmac
  · intro h
    have hdec : decodes32 r.stateMacB64 = true := by simp [decodes32, h, stateMac, P.length_hmac]
    rw [hdec, if_pos h]
    rfl

theorem valid_of_validate (h : validate reg = .ok ()) : Valid reg := by
  obtain ⟨⟨⟩, hfill, hcheck⟩ := except_bind_ok (x := fillDerived reg) (f := fun _ => check reg) h
  exact ⟨hfill, hcheck⟩

end Y2q.Devices
