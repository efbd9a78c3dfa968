/-
Repairing a registry whose state MAC does not verify (`repair_state_entry` of `crypto/devices/registry.rs`): the only way around
the MAC.

The master key comes from the permanent wrap of a home record, from that of an away record if there is no home device and the
operator allows it, or from an emergency code, whose slot is burned in memory. The key must open `nk_wrap`, and the MAC of the
registry as it was loaded must fail under it. All grants go, and the rest is signed as it was found.

- `Repairs`, `Repaired`: who may give the master key, and what a repair has checked when it writes.
- `Repairs.same`: what the registry that is signed has of the one that was loaded.
- `repair_repairs`: a repair writes once or not at all, what it writes verifies and has no grants.
-/
import Mathlib.Tactic
import Y2q.Crypto.Devices.Erasure
import Y2q.Crypto.Devices.Mutations

namespace Y2q.Devices

open CrashLogic NodeKeys

/-! ## Model -/

inductive RepairError where
  | deviceRepairNotAccepted
  | deviceStateIntact
  | crypto (e : CryptoError)

/-- the surroundings of a repair -/
structure RepairBench extends Surroundings where
  /-- `Y2QD_EMERGENCY_KEY`, if it is set, as `take_env_secret` reads it -/
  envCode : Option (Except CryptoError String)
  /-- `verify_node_key`, if there is a keystore that no rotation is under way in -/
  verifyNodeKey : Option (Bytes → Except CryptoError Unit)

structure RepairFlags where
  allowAwayRepair : Bool
  acceptInventory : Bool

variable (P : Primitives) (H : Hashes) (B : RepairBench)

def unlockForRepair (reg : DeviceRegistryFile) (d : DeviceRecord) (secret : Bytes) : Except CryptoError Bytes := do
  secret32 d.label secret
  rmkFromPermanent P reg d (deriveDeviceKek P secret d.idBytes)

def repairHome (reg : DeviceRegistryFile) (d : DeviceRecord) : Except CryptoError Bytes := do
  let params ← tpmParams d
  let tpmSecret ← B.tpmUnseal params
  let secret ← homeDeviceSecret P H B.toSurroundings reg d tpmSecret
  unlockForRepair P reg d secret

def repairAway (reg : DeviceRegistryFile) (d : DeviceRecord) : Except CryptoError Bytes :=
  match d.fido2 with
  | none => .error (corrupt s!"fido2 device {d.id} has no fido2 parameters")
  | some params => do
    let (secret, _) ← B.hmacSecret params d.label
    unlockForRepair P reg d secret

def mayRepair (reg : DeviceRegistryFile) (allowAwayRepair : Bool) (d : DeviceRecord) : Bool :=
  d.wrap.isSome && homeCount reg == 0 && allowAwayRepair

/-- an error that ends the repair -/
def endsRepair : CryptoError → Bool
  | .deviceRegistryCorrupt _ _ => true
  | _ => false

/-- the master key of the first record that opens, or the reasons and the first away record that was passed over -/
def tryRepair (reg : DeviceRegistryFile) (allowAwayRepair : Bool) : List DeviceRecord → List String → Option String →
    Except CryptoError ((Bytes × Authority) ⊕ (List String × Option String))
  | [], reasons, refused => .ok (.inr (reasons, refused))
  | d :: rest, reasons, refused =>
    let found : Option (Except CryptoError Bytes × Authority) := match d.kind with
      | .tpm2 => some (repairHome P H B reg d, .home d.id d.label)
      | .fido2 => if mayRepair reg allowAwayRepair d then some (repairAway P B reg d, .away d.id d.label none) else none
    match found with
    | none => tryRepair reg allowAwayRepair rest reasons (refused.or (some d.label))
    | some (.ok rmk, authority) => .ok (.inl (rmk, authority))
    | some (.error e, _) =>
      if endsRepair e then .error e
      else tryRepair reg allowAwayRepair rest (reasons ++ [s!"{d.label}: {e.message}"]) refused

/-- `unlock_for_repair` of `emergency.rs`: the master key and the slot, and the registry with the slot burned -/
def emergencyForRepair (reg : DeviceRegistryFile) (code : Except CryptoError String) :
    Except CryptoError (Bytes × UInt8 × DeviceRegistryFile) := do
  let text ← code
  let code ← decodeCode (trim text)
  let (rmk, pos) ← openSlot P reg code
  pure (rmk, (reg.emergencySlots[pos]?.map (·.index)).getD 0,
    { reg with emergencySlots := reg.emergencySlots.modify pos (burn B.nowHost) })

def repairRefused (reasons : List String) (refused : Option String) : CryptoError :=
  match refused with
  | some label => .deviceAuthorityInsufficient "repair-state" "a home device or an emergency code" s!"away device '{label}'"
  | none =>
    if reasons = [] then
      .deviceAuthorityInsufficient "repair-state" "a home device or an emergency code" "no device record holding a permanent wrap"
    else .deviceUnlockUnavailable ("; ".intercalate reasons)

/-- the master key, who opened it, and the registry, in which an emergency slot may be burned -/
def repairKey (reg : DeviceRegistryFile) (allowAwayRepair : Bool) :
    Except CryptoError (Bytes × Authority × DeviceRegistryFile) := do
  match ← tryRepair P H B reg allowAwayRepair reg.devices [] none with
  | .inl (rmk, authority) => pure (rmk, authority, reg)
  | .inr (reasons, refused) =>
    match B.envCode with
    | none => .error (repairRefused reasons refused)
    | some code =>
      match emergencyForRepair P B reg code with
      | .ok (rmk, slot, reg) => pure (rmk, .emergency slot, reg)
      | .error e => .error (repairRefused (reasons ++ [s!"emergency code: {e.message}"]) refused)

/-- the master key must open `nk_wrap`, to the node key of the keystore if that is at rest -/
def checkRepairKey (reg : DeviceRegistryFile) (rmk : Bytes) : Except CryptoError Unit := do
  let nk ← openNk P reg rmk
  match B.verifyNodeKey with
  | some verify => verify nk
  | none => pure ()

def repairStateEntry (flags : RepairFlags) : Prog RegistryDisk RepairError Authority :=
  if flags.acceptInventory = false then Prog.throw .deviceRepairNotAccepted
  else do
    let pristine ← Prog.mapError .crypto load
    let (rmk, authority, reg) ← Prog.mapError .crypto (Prog.ofExcept (repairKey P H B pristine flags.allowAwayRepair))
    Prog.mapError .crypto (Prog.ofExcept (checkRepairKey P B reg rmk))
    match verifyStateMac P H (deriveStateKey P rmk) pristine with
    | .ok () => Prog.throw .deviceStateIntact
    | .error _ => do
      let _ ← Prog.mapError .crypto (persist P H (deriveStateKey P rmk) (withoutGrants reg))
      pure authority

/-! ## What a repair has checked -/

/-- who gave the master key: a home record; an away record with a permanent wrap where there is no home device and the operator
allows it; an emergency code, whose slot is burned -/
inductive Repairs (reg : DeviceRegistryFile) (allowAwayRepair : Bool) : Bytes → Authority → DeviceRegistryFile → Prop where
  | home {d : DeviceRecord} {rmk : Bytes} (hd : d ∈ reg.devices) (hkind : d.kind = .tpm2) (hopen : repairHome P H B reg d = .ok rmk) :
    Repairs reg allowAwayRepair rmk (.home d.id d.label) reg
  | away {d : DeviceRecord} {rmk : Bytes} (hd : d ∈ reg.devices) (hkind : d.kind = .fido2) (hwrap : d.wrap.isSome = true)
    (hnohome : homeCount reg = 0) (hallowed : allowAwayRepair = true) (hopen : repairAway P B reg d = .ok rmk) :
    Repairs reg allowAwayRepair rmk (.away d.id d.label none) reg
  | emergency {text : String} {code rmk : Bytes} {pos : ℕ} {slot : UInt8} (henv : B.envCode = some (.ok text))
    (hcode : decodeCode (trim text) = .ok code) (hopen : openSlot P reg code = .ok (rmk, pos)) :
    Repairs reg allowAwayRepair rmk (.emergency slot)
      { reg with emergencySlots := reg.emergencySlots.modify pos (burn B.nowHost) }

variable {P H B} {reg reg' : DeviceRegistryFile} {allowAwayRepair : Bool} {rmk : Bytes} {authority : Authority}

theorem tryRepair_found {ds : List DeviceRecord} (hds : ∀ d ∈ ds, d ∈ reg.devices) {reasons : List String} {refused : Option String}
    (h : tryRepair P H B reg allowAwayRepair ds reasons refused = .ok (.inl (rmk, authority))) :
    Repairs P H B reg allowAwayRepair rmk authority reg := by
  induction ds generalizing reasons refused with
  | nil => cases h
  | cons d ds ih =>
    rw [List.forall_mem_cons] at hds
    unfold tryRepair at h
    simp only at h
    split at h
    · exact ih hds.2 h
    · next rmk' authority' hfound =>
      cases h
      split at hfound
      · next hkind =>
        simp only [Option.some.injEq, Prod.mk.injEq] at hfound
        obtain ⟨hopen, rfl⟩ := hfound
        exact .home hds.1 hkind hopen
      · next hkind =>
        split_ifs at hfound with hmay
        simp only [Option.some.injEq, Prod.mk.injEq] at hfound
        obtain ⟨hopen, rfl⟩ := hfound
        unfold mayRepair at hmay
        rw [Bool.and_eq_true, Bool.and_eq_true, beq_iff_eq] at hmay
        exact .away hds.1 hkind hmay.1.1 hmay.1.2 hmay.2 hopen
    · split_ifs at h
      exact ih hds.2 h

theorem repairKey_ok (h : repairKey P H B reg allowAwayRepair = .ok (rmk, authority, reg')) :
    Repairs P H B reg allowAwayRepair rmk authority reg' := by
  obtain ⟨found, hfound, h⟩ := except_bind_ok h
  cases found with
  | inl x =>
    cases h
    exact tryRepair_found (fun _ hd => hd) hfound
  | inr x =>
    simp only at h
    split at h
    · cases h
    · next code henv =>
      split at h
      · next hemergency =>
        cases h
        obtain ⟨text, htext, hemergency⟩ := except_bind_ok hemergency
        obtain ⟨raw, hraw, hemergency⟩ := except_bind_ok hemergency
        obtain ⟨⟨rmk', pos⟩, hslot, hemergency⟩ := except_bind_ok hemergency
        cases hemergency
        exact .emergency (htext ▸ henv) hraw hslot
      · cases h

/-- the registry a repair writes: that of `reg'` without grants, signed -/
def repaired (P : Primitives) (H : Hashes) (rmk : Bytes) (reg' : DeviceRegistryFile) : DeviceRegistryFile :=
  authenticate P H (deriveStateKey P rmk) (withoutGrants reg')

/-- what a repair that returns has found out -/
structure Repaired (P : Primitives) (H : Hashes) (B : RepairBench) (flags : RepairFlags) (reg : DeviceRegistryFile) (rmk : Bytes)
    (authority : Authority) (reg' : DeviceRegistryFile) : Prop where
  accepted : flags.acceptInventory = true
  repairs : Repairs P H B reg flags.allowAwayRepair rmk authority reg'
  key : ∃ nk, openNk P reg' rmk = .ok nk ∧ ∀ verify, B.verifyNodeKey = some verify → verify nk = .ok ()
  broken : verifyStateMac P H (deriveStateKey P rmk) reg ≠ .ok ()
  valid : Valid (repaired P H rmk reg')

theorem checkRepairKey_ok (h : checkRepairKey P B reg rmk = .ok ()) :
    ∃ nk, openNk P reg rmk = .ok nk ∧ ∀ verify, B.verifyNodeKey = some verify → verify nk = .ok () := by
  obtain ⟨nk, hnk, h⟩ := except_bind_ok h
  refine ⟨nk, hnk, fun verify hverify => ?_⟩
  rw [hverify] at h
  exact h

/-! ## What a repair leaves -/

/-- the registry on this disk, and the one that the repair writes -/
def RepairsTo (P : Primitives) (H : Hashes) (B : RepairBench) (flags : RepairFlags) (disk : RegistryDisk) (authority : Authority)
    (u : RegistryDisk) : Prop :=
  ∃ reg rmk reg', disk = some (.ok reg) ∧ Repaired P H B flags reg rmk authority reg' ∧ u = some (.ok (repaired P H rmk reg'))

variable {disk : RegistryDisk} {flags : RepairFlags}

theorem load_keeps : Spec (fun u => u = disk) load (fun reg u => u = disk ∧ disk = some (.ok reg)) (fun _ u => u = disk)
    fun u => u = disk := by
  refine Spec.get_bind ?_
  rintro _ rfl
  split
  · exact Spec.throw (fun _ h => h) fun _ h => h
  · exact Spec.throw (fun _ h => h) fun _ h => h
  · split_ifs
    · exact Spec.throw (fun _ h => h) fun _ h => h
    · exact Spec.ofExcept_bind_any (fun _ _ h => h) (fun _ h => h) fun _ _ => Spec.pure _ (fun _ h => ⟨h, rfl⟩) fun _ h => h

theorem ofExcept_crypto {α : Type} (x : Except CryptoError α) :
    Spec (fun u => u = disk) (Prog.mapError RepairError.crypto (Prog.ofExcept x)) (fun a u => u = disk ∧ x = .ok a)
      (fun _ u => u = disk) fun u => u = disk := by
  refine Spec.mapError (E := fun _ u => u = disk) ?_ fun _ _ h => h
  cases x with
  | ok a => exact Spec.pure _ (fun _ h => ⟨h, rfl⟩) fun _ h => h
  | error e => exact Spec.throw (fun _ h => h) fun _ h => h

/-- the only write of a repair -/
theorem persist_repaired (hdone : RepairsTo P H B flags disk authority (some (.ok (repaired P H rmk reg'))) ∨
      ¬ Valid (repaired P H rmk reg')) :
    Spec (fun u => u = disk) (persist P H (deriveStateKey P rmk) (withoutGrants reg'))
      (fun _ u => RepairsTo P H B flags disk authority u) (fun _ u => u = disk)
      fun u => u = disk ∨ RepairsTo P H B flags disk authority u := by
  refine Spec.ofExcept_bind_any (fun _ _ h => h) (fun _ h => Or.inl h) fun _ hfill => ?_
  refine Spec.ofExcept_bind_any (fun _ _ h => h) (fun _ h => Or.inl h) fun _ hcheck => ?_
  have hwrites := hdone.resolve_right (not_not.2 ⟨hfill, hcheck⟩)
  exact Spec.bind (R := fun _ u => RepairsTo P H B flags disk authority u)
    (Spec.modify (fun _ _ => hwrites) (fun _ h => Or.inl h) fun _ _ => Or.inr hwrites) fun _ =>
      Spec.pure _ (fun _ h => h) fun _ h => Or.inr h

/-- a repair writes once, and only what it has checked -/
theorem repair_spec (P : Primitives) (H : Hashes) (B : RepairBench) (flags : RepairFlags) (disk : RegistryDisk) :
    Spec (fun u => u = disk) (repairStateEntry P H B flags) (fun authority u => RepairsTo P H B flags disk authority u)
      (fun _ u => u = disk) fun u => u = disk ∨ ∃ authority, RepairsTo P H B flags disk authority u := by
  have hsame : ∀ u, u = disk → u = disk ∨ ∃ authority, RepairsTo P H B flags disk authority u := fun _ h => Or.inl h
  unfold repairStateEntry
  split_ifs with haccept
  · exact Spec.throw (fun _ h => h) hsame
  · refine Spec.bind ((Spec.mapError (F := fun _ u => u = disk) load_keeps fun _ _ h => h).conseq (fun _ h => h)
      (fun _ _ h => h) (fun _ _ h => h) hsame) fun reg => ?_
    refine Spec.of_states fun u hu => ?_
    obtain ⟨rfl, hreg⟩ := hu
    refine Spec.bind ((ofExcept_crypto _).conseq (fun _ h => h) (fun _ _ h => h) (fun _ _ h => h) hsame) fun x => ?_
    obtain ⟨rmk, authority, reg'⟩ := x
    refine Spec.of_states fun u' hu' => ?_
    obtain ⟨rfl, hkey⟩ := hu'
    refine Spec.bind ((ofExcept_crypto _).conseq (fun _ h => h) (fun _ _ h => h) (fun _ _ h => h) hsame) fun _ => ?_
    refine Spec.of_states fun u'' hu'' => ?_
    obtain ⟨rfl, hopens⟩ := hu''
    split
    · exact Spec.throw (fun _ h => h) hsame
    · next hbroken =>
      have hdone : RepairsTo P H B flags u'' authority (some (.ok (repaired P H rmk reg'))) ∨ ¬ Valid (repaired P H rmk reg') := by
        by_cases hvalid : Valid (repaired P H rmk reg')
        · refine Or.inl ⟨reg, rmk, reg', hreg, ⟨?_, repairKey_ok hkey, checkRepairKey_ok hopens, ?_, hvalid⟩, rfl⟩
          · rwa [Bool.not_eq_false] at haccept
          · rw [hbroken]
            exact nofun
        · exact Or.inr hvalid
      refine Spec.bind ((Spec.mapError (F := fun _ u => u = u'') (persist_repaired hdone) fun _ _ h => h).conseq
        (fun _ h => h) (fun _ _ h => h) (fun _ _ h => h) fun u h => h.imp id fun h => ⟨authority, h⟩) fun _ => ?_
      exact Spec.pure _ (fun _ h => h) fun _ h => Or.inr ⟨authority, h⟩

/-- what changes: grants, the MAC, and one emergency slot if a code was the key -/
theorem Repairs.same (h : Repairs P H B reg allowAwayRepair rmk authority reg') :
    reg'.devices = reg.devices ∧ SameSeal reg reg' ∧ (reg'.emergencySlots = reg.emergencySlots ∨
      ∃ slot pos, authority = .emergency slot ∧ reg'.emergencySlots = reg.emergencySlots.modify pos (burn B.nowHost)) := by
  cases h with
  | home => exact ⟨rfl, SameSeal.refl _, Or.inl rfl⟩
  | away => exact ⟨rfl, SameSeal.refl _, Or.inl rfl⟩
  | emergency => exact ⟨rfl, ⟨rfl, rfl, rfl⟩, Or.inr ⟨_, _, rfl, rfl⟩⟩

theorem repaired_grant {d : DeviceRecord} (hd : d ∈ (repaired P H rmk reg').devices) : d.grant = none := by
  obtain ⟨d₀, -, rfl⟩ := List.mem_map.1 hd
  rfl

end Y2q.Devices
