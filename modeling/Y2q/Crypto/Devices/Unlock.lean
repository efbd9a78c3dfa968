/-
Opening the device registry (`crypto/devices/mod.rs`, the unlock paths of `registry.rs` and `emergency.rs`).

`unlock` tries an emergency code, then each home record, then each away record. The first that opens wins; it has already
persisted its own bookkeeping (a burned slot, swept and minted grants, a signature counter). What the TPM, the
authenticator, the operator and the attested clock answer, and the random nonces, are `Surroundings` of the run.

- `unlock_spec`: whatever the surroundings answer and wherever the run is cut, the registry on disk has the `nk_wrap`, the
  commitment and the grant period it had; on success the node key returned is the one `nk_wrap` opens to.
- `rewriteNkWrap_eq`: the rewrite of `nk_wrap` that ends a node-key rotation cannot fail on a registry that opened, and
  the registry then opens to the new key.
-/
import Mathlib.Tactic
import Y2q.Crypto.Devices.Registry

namespace Y2q.Devices

open CrashLogic NodeKeys

/-! ## Model -/

/-- what one run is given by its surroundings -/
structure Surroundings where
  /-- `PinProvider::emergency_code` -/
  emergencyCode : Except CryptoError (Option String)
  /-- `tpm2::unseal` -/
  tpmUnseal : Tpm2Params → Except CryptoError Bytes
  /-- `PinProvider::passcode` -/
  passcode : String → Except CryptoError String
  /-- `fido2::hmac_secret`: the secret and the signature counter -/
  hmacSecret : Fido2Params → String → Except CryptoError (Bytes × UInt32)
  /-- `TimeSource::attested_now` -/
  attestedNow : Except CryptoError UInt64
  nowHost : UInt64
  grantNonce : ℕ → Nonce
  nkNonce : Nonce

inductive Authority where
  | home (id label : String)
  | away (id label : String) (notAfterUnix : Option UInt64)
  | emergency (index : UInt8)
deriving DecidableEq, Repr

def Authority.describe : Authority → String
  | .home _ _ => "a home device"
  | .away _ label _ => s!"away device '{label}'"
  | .emergency _ => "an emergency code"

structure Unlock where
  nk : Bytes
  rmk : Bytes
  grantsIssued : ℕ
  grantsErased : ℕ

structure UnlockOutcome where
  nodeKey : Bytes
  registryMasterKey : Bytes
  registryStateKey : Bytes
  registry : DeviceRegistryFile
  authority : Authority
  grantsIssued : ℕ
  grantsErased : ℕ
  emergencySlotsUnused : ℕ

variable (P : Primitives) (H : Hashes) (W : Surroundings)

/-- an error the orchestrator keeps going past -/
def isContinueClass : CryptoError → Bool
  | .tpmPcrMismatch | .tpmUnavailable _ | .tpm _ | .deviceBackend _ | .deviceSecretLength _ _ | .deviceUnwrapFailed
  | .deviceGrantAbsent _ | .deviceGrantExpired _ _ _ | .deviceSignCountRollback _ _ _ | .attestedTimeUnavailable _
  | .attestedTimeInconsistent _ _ | .roughtimeNotConfigured => true
  | _ => false

def finishOutcome (reg : DeviceRegistryFile) (u : Unlock) (authority : Authority) : UnlockOutcome :=
  ⟨u.nk, u.rmk, deriveStateKey P u.rmk, reg, authority, u.grantsIssued, u.grantsErased,
    (reg.emergencySlots.filter fun s => s.wrap.isSome).length⟩

def secret32 (label : String) (secret : Bytes) : Except CryptoError Unit :=
  if secret.length = 32 then .ok () else .error (.deviceSecretLength label secret.length)

/-! ### Emergency codes -/

/-- `char::is_whitespace` -/
def isWhitespace (c : Char) : Bool :=
  (9 ≤ c.toNat && c.toNat ≤ 13) || (0x2000 ≤ c.toNat && c.toNat ≤ 0x200a) ||
    [0x20, 0x85, 0xa0, 0x1680, 0x2028, 0x2029, 0x202f, 0x205f, 0x3000].contains c.toNat

/-- `str::trim` -/
def trim (s : String) : String :=
  String.ofList (((s.toList.dropWhile isWhitespace).reverse.dropWhile isWhitespace).reverse)

def decodeCode (text : String) : Except CryptoError Bytes :=
  let malformed := CryptoError.emergencyCodeMalformed
    "expected 32 bytes of standard base64 — paste the exact string printed at registry init"
  match (Base64.decode text).orElse fun _ => Base64.decodeNoPad text with
  | none => .error malformed
  | some raw => if raw.length = 32 then .ok raw else .error malformed

/-- the first unburned slot the code opens: RMK and its position -/
def openSlot (reg : DeviceRegistryFile) (code : Bytes) : Except CryptoError (Bytes × ℕ) :=
  if reg.emergencySlots.all fun s => s.wrap.isNone then .error .emergencyCodesExhausted
  else go reg.emergencySlots.zipIdx
where
  go : List (EmergencySlot × ℕ) → Except CryptoError (Bytes × ℕ)
    | [] => .error .emergencyCodeRejected
    | (s, pos) :: rest =>
      match s.wrap with
      | none => go rest
      | some wrap =>
        match unwrapSecret P (deriveEmergencyKek P code s.index) wrap (emergencyWrapAad s.index reg.esc) with
        | .ok rmk => .ok (rmk, pos)
        | .error .deviceUnwrapFailed => go rest
        | .error e => .error e

/-- RMK from the code, the position of its slot, and the node key: everything that can fail before the burn -/
def openEmergency (reg : DeviceRegistryFile) (text : String) : Except CryptoError (Bytes × ℕ × Bytes) := do
  let code ← decodeCode (trim text)
  let (rmk, pos) ← openSlot P reg code
  verifyStateMac P H (deriveStateKey P rmk) reg
  let nk ← openNk P reg rmk
  pure (rmk, pos, nk)

def burn (now : UInt64) (s : EmergencySlot) : EmergencySlot := { s with wrap := none, burnedAtUnix := some now }

/-- burn before serve: the slot is gone from the disk before the key is returned -/
def emergencyUnlock (reg : DeviceRegistryFile) (code : Option String) :
    Prog RegistryDisk CryptoError (Option (DeviceRegistryFile × Unlock × UInt8)) :=
  match code with
  | none => pure none
  | some text => do
    let (rmk, pos, nk) ← Prog.ofExcept (openEmergency P H reg text)
    let index := (reg.emergencySlots[pos]?.map (·.index)).getD 0
    let burned := { reg with emergencySlots := reg.emergencySlots.modify pos (burn W.nowHost) }
    let reg ← persist P H (deriveStateKey P rmk) burned
    pure (some (reg, ⟨nk, rmk, 0, 0⟩, index))

/-! ### Grants -/

def DeviceRecord.expired (now : UInt64) (d : DeviceRecord) : Bool := d.grant.any fun g => g.notAfterUnix < now

/-- erase the expired grants; how many were erased -/
def sweepGrants (reg : DeviceRegistryFile) (now : UInt64) : DeviceRegistryFile × ℕ :=
  ({ reg with devices := reg.devices.map fun d => if d.expired now then { d with grant := none } else d },
    (reg.devices.filter fun d => d.expired now).length)

/-- the fresh grant of an away record, if it gets one -/
def mintGrant (reg : DeviceRegistryFile) (rmk : Bytes) (now : UInt64) (nonce : Nonce) (d : DeviceRecord) : Option Grant :=
  if reg.permanentAway || d.kind != .fido2 || d.wrap.isSome then none
  else
    match d.kekWrap with
    | none => none
    | some kekWrap =>
      match unwrapSecret P (kekCacheKey P rmk) kekWrap (kekCacheAad d.idBytes reg.esc) with
      | .error _ => none
      | .ok kek =>
        -- the deadline saturates at `u64::MAX`
        let notAfter := UInt64.ofNat (min (now.toNat + reg.awayGrantSeconds.toNat) (2 ^ 64 - 1))
        some ⟨notAfter, now, wrapSecret P kek rmk (grantAad d.idBytes d.uv notAfter reg.awayGrantSeconds reg.esc) nonce⟩

/-- the fresh grants, record by record -/
def mintedGrants (reg : DeviceRegistryFile) (rmk : Bytes) (now : UInt64) : List (DeviceRecord × Option Grant) :=
  reg.devices.zipIdx.map fun (d, i) => (d, mintGrant P reg rmk now (W.grantNonce i) d)

def mintGrants (reg : DeviceRegistryFile) (rmk : Bytes) (now : UInt64) : DeviceRegistryFile × ℕ :=
  ({ reg with devices := (mintedGrants P W reg rmk now).map fun (d, g) =>
      match g with
      | none => d
      | some g => { d with grant := some g } },
    ((mintedGrants P W reg rmk now).filter fun x => x.2.isSome).length)

/-! ### Home records -/

def passcodeFactorSecret (saltB64 : String) (m t p : UInt32) (passcode : String) : Except CryptoError Bytes := do
  validatePasscodeParams saltB64 m t p
  match H.argon2id (utf8 passcode) ((Base64.decode saltB64).getD []) m.toNat t.toNat p.toNat with
  | .ok out => .ok out
  | .error e => .error (.kdf s!"passcode derivation: {e}")

def factorSecret (reg : DeviceRegistryFile) (d : DeviceRecord) : HomeFactor → Except CryptoError Bytes
  | .passcode saltB64 m t p => do
    let passcode ← W.passcode d.label
    passcodeFactorSecret H saltB64 m t p passcode
  | .fido2 deviceId =>
    match reg.devices.find? fun r => r.id = deviceId ∧ r.kind = .fido2 with
    | none => .error (.deviceFactorInvalid
        s!"home device {d.label} names {deviceId} as its factor, which is not a registered away device")
    | some away =>
      match away.fido2 with
      | none => .error (corrupt s!"away device {away.id} has no fido2 parameters")
      | some params => (W.hmacSecret params away.label).map (·.1)

def homeDeviceSecret (reg : DeviceRegistryFile) (d : DeviceRecord) (tpmSecret : Bytes) : Except CryptoError Bytes :=
  match d.homeFactor with
  | none => .ok tpmSecret
  | some f => do
    secret32 d.label tpmSecret
    let factor ← factorSecret H W reg d f
    pure (hkdf32 P (tpmSecret ++ factor) (utf8 "y2q/v1/home-factor") d.idBytes)

def rmkFromPermanent (reg : DeviceRegistryFile) (d : DeviceRecord) (kek : Bytes) : Except CryptoError Bytes :=
  match d.wrap with
  | none => .error (corrupt s!"device {d.id} has no permanent wrap")
  | some wrap => unwrapSecret P kek wrap (recordWrapAad d reg.esc)

def tpmParams (d : DeviceRecord) : Except CryptoError Tpm2Params :=
  match d.tpm2 with
  | none => .error (corrupt s!"tpm2 device {d.id} has no tpm2 parameters")
  | some params => .ok params

/-- RMK and the node key from a home record -/
def openHome (reg : DeviceRegistryFile) (d : DeviceRecord) : Except CryptoError (Bytes × Bytes) := do
  let params ← tpmParams d
  let tpmSecret ← W.tpmUnseal params
  let secret ← homeDeviceSecret P H W reg d tpmSecret
  secret32 d.label secret
  let rmk ← rmkFromPermanent P reg d (deriveDeviceKek P secret d.idBytes)
  verifyStateMac P H (deriveStateKey P rmk) reg
  let nk ← openNk P reg rmk
  pure (rmk, nk)

/-- sweep and mint on attested time, if there is one; persist if anything changed -/
def unlockWithHome (reg : DeviceRegistryFile) (d : DeviceRecord) :
    Prog RegistryDisk CryptoError (DeviceRegistryFile × Unlock) := do
  let (rmk, nk) ← Prog.ofExcept (openHome P H W reg d)
  match W.attestedNow with
  | .error _ => pure (reg, ⟨nk, rmk, 0, 0⟩)
  | .ok now =>
    let swept := sweepGrants reg now
    let minted := mintGrants P W swept.1 rmk now
    if minted.2 > 0 ∨ swept.2 > 0 then do
      let reg ← persist P H (deriveStateKey P rmk) minted.1
      pure (reg, ⟨nk, rmk, minted.2, swept.2⟩)
    else pure (reg, ⟨nk, rmk, minted.2, swept.2⟩)

/-- the first home record that opens, or the reasons why none does -/
def tryHomeRecords (reg : DeviceRegistryFile) : List DeviceRecord → List String →
    Prog RegistryDisk CryptoError (Except (List String) (DeviceRegistryFile × Unlock × Authority))
  | [], reasons => pure (.error reasons)
  | d :: rest, reasons =>
    if d.kind ≠ .tpm2 then tryHomeRecords reg rest reasons
    else do
      match ← Prog.attempt (unlockWithHome P H W reg d) with
      | .ok (reg', u) => pure (.ok (reg', u, .home d.id d.label))
      | .error e =>
        if isContinueClass e then tryHomeRecords reg rest (reasons ++ [s!"{d.label}: {e.message}"]) else Prog.throw e

/-! ### Away records -/

/-- RMK from the permanent wrap of an away record or from its grant -/
def rmkFromAway (reg : DeviceRegistryFile) (d : DeviceRecord) (kek : Bytes) : Except CryptoError Bytes :=
  match d.wrap, d.grant with
  | some _, _ => rmkFromPermanent P reg d kek
  | none, some g => unwrapSecret P kek g.wrap (grantAad d.idBytes d.uv g.notAfterUnix reg.awayGrantSeconds reg.esc)
  | none, none => .error (.deviceGrantAbsent d.label)

def openAway (reg : DeviceRegistryFile) (d : DeviceRecord) (secret : Bytes) : Except CryptoError Bytes := do
  secret32 d.label secret
  let rmk ← rmkFromAway P reg d (deriveDeviceKek P secret d.idBytes)
  verifyStateMac P H (deriveStateKey P rmk) reg
  pure rmk

/-- a grant is used on attested time only, and an expired one is erased from the disk; the registry in memory afterwards -/
def sweepForAway (stateKey : Bytes) (reg : DeviceRegistryFile) (d : DeviceRecord) :
    Prog RegistryDisk CryptoError (DeviceRegistryFile × Except CryptoError ℕ) :=
  match d.wrap, d.grant with
  | none, some g =>
    match W.attestedNow with
    | .error e => pure (reg, .error e)
    | .ok now => do
      let swept := sweepGrants reg now
      if g.notAfterUnix < now then do
        let reg ← persist P H stateKey swept.1
        pure (reg, .error (.deviceGrantExpired d.label g.notAfterUnix.toNat now.toNat))
      else pure (swept.1, .ok swept.2)
  | _, _ => pure (reg, .ok 0)

/-- the signature counter must have advanced; the node key is opened before the counter is stored -/
def acceptSignCount (reg : DeviceRegistryFile) (d : DeviceRecord) (rmk : Bytes) (asserted : UInt32) :
    Except CryptoError Bytes :=
  match d.signCountLast with
  | none => .error (corrupt s!"away device {d.label} has no sign_count_last")
  | some last =>
    if asserted ≤ last then .error (.deviceSignCountRollback d.label asserted.toNat last.toNat) else openNk P reg rmk

/-- the registry in memory afterwards, and the key or the error -/
def unlockWithAway (reg : DeviceRegistryFile) (i : ℕ) (d : DeviceRecord) (secret : Bytes) (asserted : UInt32) :
    Prog RegistryDisk CryptoError (DeviceRegistryFile × Except CryptoError Unlock) :=
  match openAway P H reg d secret with
  | .error e => pure (reg, .error e)
  | .ok rmk => do
    let (reg, erased) ← sweepForAway P H W (deriveStateKey P rmk) reg d
    match erased with
    | .error e => pure (reg, .error e)
    | .ok erased =>
      match acceptSignCount P reg d rmk asserted with
      | .error e => pure (reg, .error e)
      | .ok nk => do
        let counted := { reg with devices := reg.devices.modify i fun d => { d with signCountLast := some asserted } }
        let reg ← persist P H (deriveStateKey P rmk) counted
        pure (reg, .ok ⟨nk, rmk, 0, erased⟩)

def awayAttempt (reg : DeviceRegistryFile) (i : ℕ) (d : DeviceRecord) :
    Prog RegistryDisk CryptoError (DeviceRegistryFile × Except CryptoError Unlock) :=
  match d.fido2 with
  | none => pure (reg, .error (corrupt s!"fido2 device {d.id} has no fido2 parameters"))
  | some params =>
    match W.hmacSecret params d.label with
    | .error e => pure (reg, .error e)
    | .ok (secret, asserted) => unlockWithAway P H W reg i d secret asserted

/-- the away records, by position: an attempt may sweep the registry that the next one sees -/
def tryAwayRecords (reg : DeviceRegistryFile) : List ℕ → List String → Prog RegistryDisk CryptoError UnlockOutcome
  | [], reasons =>
    Prog.throw (.deviceUnlockUnavailable (if reasons = [] then "no devices registered" else "; ".intercalate reasons))
  | i :: rest, reasons =>
    match reg.devices[i]? with
    | none => tryAwayRecords reg rest reasons
    | some d =>
      if d.kind ≠ .fido2 then tryAwayRecords reg rest reasons
      else if d.wrap.isNone ∧ d.grant.isNone then
        tryAwayRecords reg rest (reasons ++ [s!"{d.label}: {(CryptoError.deviceGrantAbsent d.label).message}"])
      else do
        let (reg, r) ← awayAttempt P H W reg i d
        match r with
        | .ok u =>
          pure (finishOutcome P reg u
            (.away d.id d.label (if d.wrap.isSome then none else d.grant.map (·.notAfterUnix))))
        | .error e =>
          if isContinueClass e then tryAwayRecords reg rest (reasons ++ [s!"{d.label}: {e.message}"]) else Prog.throw e

/-! ### The orchestrator -/

def unlockDevices (reg : DeviceRegistryFile) : Prog RegistryDisk CryptoError UnlockOutcome := do
  match ← tryHomeRecords P H W reg reg.devices [] with
  | .ok (reg, u, authority) => pure (finishOutcome P reg u authority)
  | .error reasons => tryAwayRecords P H W reg (List.range reg.devices.length) reasons

def unlock : Prog RegistryDisk CryptoError UnlockOutcome := do
  let reg ← load
  let code ← Prog.ofExcept W.emergencyCode
  match ← Prog.attempt (emergencyUnlock P H W reg code) with
  | .ok (some (reg, u, slot)) => pure (finishOutcome P reg u (.emergency slot))
  | .ok none => unlockDevices P H W reg
  | .error .emergencyCodesExhausted => unlockDevices P H W reg
  | .error .emergencyCodeRejected => unlockDevices P H W reg
  | .error e => Prog.throw e

/-- seal a new node key under the same RMK and persist -/
def rewriteNkWrap (reg : DeviceRegistryFile) (rmk newNk : Bytes) : Prog RegistryDisk CryptoError DeviceRegistryFile :=
  persist P H (deriveStateKey P rmk) { reg with
    nkWrap := wrapSecret P (nkWrapKey P rmk) newNk (nkWrapAad reg.esc reg.awayGrantSeconds) W.nkNonce }

/-! ## What an unlock leaves -/

/-- `nk_wrap` and what it is bound to are the same -/
structure SameSeal (r r' : DeviceRegistryFile) : Prop where
  nkWrap : r'.nkWrap = r.nkWrap
  esc : r'.escB64 = r.escB64
  period : r'.awayGrantSeconds = r.awayGrantSeconds

/-- the disk holds a registry with the seal of `r` -/
def Keeps (r : DeviceRegistryFile) (disk : RegistryDisk) : Prop := ∃ r', disk = some (.ok r') ∧ SameSeal r r'

/-- a registry in memory that opened: it has the seal of `r`, it passes the check, and its key is the one in the seal -/
structure Opened (r reg : DeviceRegistryFile) (nk rmk : Bytes) : Prop where
  same : SameSeal r reg
  valid : validate reg = .ok ()
  key : openNk P r rmk = .ok nk

variable {P H W} {r reg : DeviceRegistryFile}

theorem SameSeal.refl (r : DeviceRegistryFile) : SameSeal r r := ⟨rfl, rfl, rfl⟩

theorem SameSeal.openNk (h : SameSeal r reg) (rmk : Bytes) : openNk P reg rmk = openNk P r rmk := by
  unfold Devices.openNk DeviceRegistryFile.esc
  rw [h.nkWrap, h.esc, h.period]

theorem persist_spec (h : SameSeal r reg) (stateKey : Bytes) :
    Spec (Keeps r) (persist P H stateKey reg) (fun reg' d => SameSeal r reg' ∧ validate reg' = .ok () ∧ Keeps r d)
      (fun _ => Keeps r) (Keeps r) := by
  have hsame : SameSeal r (authenticate P H stateKey reg) := ⟨h.nkWrap, h.esc, h.period⟩
  refine Spec.ofExcept_bind_any (fun _ _ hd => hd) (fun _ hd => hd) fun _ hfill => ?_
  refine Spec.ofExcept_bind_any (fun _ _ hd => hd) (fun _ hd => hd) fun _ hcheck => ?_
  have hvalid : validate (authenticate P H stateKey reg) = .ok () := by
    have hfill' : fillDerived (authenticate P H stateKey reg) = .ok () := hfill
    unfold validate
    rw [hfill']
    exact hcheck
  refine Spec.bind (R := fun _ => Keeps r) (Spec.modify ?_ (fun _ hd => hd) ?_) fun _ => Spec.pure _ ?_ fun _ hd => hd
  · exact fun _ _ => ⟨_, rfl, hsame⟩
  · exact fun _ _ => ⟨_, rfl, hsame⟩
  · exact fun _ hd => ⟨hsame, hvalid, hd⟩

/-- the last bind of a chain of fallible steps -/
theorem except_bind_ok {ε α β : Type} {x : Except ε α} {f : α → Except ε β} {b : β} (h : (x >>= f) = .ok b) :
    ∃ a, x = .ok a ∧ f a = .ok b := by
  cases x with
  | error e => cases h
  | ok a => exact ⟨a, rfl, h⟩

theorem openEmergency_key {text : String} {rmk nk : Bytes} {pos : ℕ} (h : openEmergency P H reg text = .ok (rmk, pos, nk)) :
    openNk P reg rmk = .ok nk := by
  obtain ⟨code, -, h⟩ := except_bind_ok h
  obtain ⟨⟨rmk', pos'⟩, -, h⟩ := except_bind_ok h
  obtain ⟨-, -, h⟩ := except_bind_ok h
  obtain ⟨nk', hnk, h⟩ := except_bind_ok h
  cases h
  exact hnk

theorem openHome_key {d : DeviceRecord} {rmk nk : Bytes} (h : openHome P H W reg d = .ok (rmk, nk)) :
    openNk P reg rmk = .ok nk := by
  obtain ⟨params, -, h⟩ := except_bind_ok h
  obtain ⟨tpmSecret, -, h⟩ := except_bind_ok h
  obtain ⟨secret, -, h⟩ := except_bind_ok h
  obtain ⟨-, -, h⟩ := except_bind_ok h
  obtain ⟨rmk', -, h⟩ := except_bind_ok h
  obtain ⟨-, -, h⟩ := except_bind_ok h
  obtain ⟨nk', hnk, h⟩ := except_bind_ok h
  cases h
  exact hnk

theorem acceptSignCount_key {d : DeviceRecord} {rmk nk : Bytes} {asserted : UInt32}
    (h : acceptSignCount P reg d rmk asserted = .ok nk) : openNk P reg rmk = .ok nk := by
  unfold acceptSignCount at h
  split at h
  · cases h
  · split_ifs at h
    exact h

theorem emergencyUnlock_spec (h : SameSeal r reg) (code : Option String) :
    Spec (Keeps r) (emergencyUnlock P H W reg code)
      (fun o d => Keeps r d ∧ ∀ x, o = some x → Opened P r x.1 x.2.1.nk x.2.1.rmk) (fun _ => Keeps r) (Keeps r) := by
  unfold emergencyUnlock
  cases code with
  | none => exact Spec.pure _ (fun _ hd => ⟨hd, nofun⟩) fun _ hd => hd
  | some text =>
    refine Spec.ofExcept_bind_any (fun _ _ hd => hd) (fun _ hd => hd) ?_
    rintro ⟨rmk, pos, nk⟩ hopen
    have hkey := openEmergency_key hopen
    rw [h.openNk] at hkey
    have hburned : SameSeal r { reg with emergencySlots := reg.emergencySlots.modify pos (burn W.nowHost) } :=
      ⟨h.nkWrap, h.esc, h.period⟩
    refine Spec.bind (persist_spec hburned _) fun reg' => Spec.pure _ ?_ fun _ hd => hd.2.2
    rintro d ⟨hsame, hvalid, hd⟩
    refine ⟨hd, fun x hx => ?_⟩
    cases hx
    exact ⟨hsame, hvalid, hkey⟩

theorem unlockWithHome_spec (h : SameSeal r reg) (hvalid : validate reg = .ok ()) (d : DeviceRecord) :
    Spec (Keeps r) (unlockWithHome P H W reg d) (fun x disk => Keeps r disk ∧ Opened P r x.1 x.2.nk x.2.rmk)
      (fun _ => Keeps r) (Keeps r) := by
  refine Spec.ofExcept_bind_any (fun _ _ hd => hd) (fun _ hd => hd) ?_
  rintro ⟨rmk, nk⟩ hopen
  have hkey := openHome_key hopen
  rw [h.openNk] at hkey
  have hkeep : ∀ issued erased, Spec (Keeps r)
      (pure (reg, Unlock.mk nk rmk issued erased) : Prog RegistryDisk CryptoError (DeviceRegistryFile × Unlock))
      (fun x disk => Keeps r disk ∧ Opened P r x.1 x.2.nk x.2.rmk) (fun _ => Keeps r) (Keeps r) :=
    fun _ _ => Spec.pure _ (fun _ hd => ⟨hd, h, hvalid, hkey⟩) fun _ hd => hd
  have hminted : ∀ now, SameSeal r (mintGrants P W (sweepGrants reg now).1 rmk now).1 :=
    fun _ => ⟨h.nkWrap, h.esc, h.period⟩
  cases hnow : W.attestedNow with
  | error e => exact hkeep 0 0
  | ok now =>
    simp only
    split_ifs
    · refine Spec.bind (persist_spec (hminted now) _) fun reg' => Spec.pure _ ?_ fun _ hd => hd.2.2
      rintro disk ⟨hsame, hvalid', hd⟩
      exact ⟨hd, hsame, hvalid', hkey⟩
    · exact hkeep _ _

theorem tryHomeRecords_spec (h : SameSeal r reg) (hvalid : validate reg = .ok ()) (ds : List DeviceRecord)
    (reasons : List String) : Spec (Keeps r) (tryHomeRecords P H W reg ds reasons)
      (fun o disk => Keeps r disk ∧ ∀ x, o = .ok x → Opened P r x.1 x.2.1.nk x.2.1.rmk) (fun _ => Keeps r) (Keeps r) := by
  induction ds generalizing reasons with
  | nil => exact Spec.pure _ (fun _ hd => ⟨hd, nofun⟩) fun _ hd => hd
  | cons d ds ih =>
    unfold tryHomeRecords
    split_ifs
    · exact ih reasons
    · refine Spec.bind (Spec.attempt (unlockWithHome_spec h hvalid d) (fun _ _ hq => hq)
        (B := fun o disk => match o with
          | .ok x => Keeps r disk ∧ Opened P r x.1 x.2.nk x.2.rmk
          | .error _ => Keeps r disk) fun _ _ he => he) fun o => ?_
      cases o with
      | ok x =>
        refine Spec.pure _ (fun disk hd => ⟨hd.1, fun y hy => ?_⟩) fun _ hd => hd.1
        cases hy
        exact hd.2
      | error e =>
        simp only
        split_ifs
        · exact ih _
        · exact Spec.throw (fun _ hd => hd) fun _ hd => hd

theorem sweepForAway_spec (h : SameSeal r reg) (stateKey : Bytes) (d : DeviceRecord) :
    Spec (Keeps r) (sweepForAway P H W stateKey reg d) (fun x disk => Keeps r disk ∧ SameSeal r x.1) (fun _ => Keeps r)
      (Keeps r) := by
  have hsame : ∀ e : Except CryptoError ℕ, Spec (Keeps r) (pure (reg, e) : Prog RegistryDisk CryptoError _)
      (fun x disk => Keeps r disk ∧ SameSeal r x.1) (fun _ => Keeps r) (Keeps r) :=
    fun _ => Spec.pure _ (fun _ hd => ⟨hd, h⟩) fun _ hd => hd
  have hswept : ∀ now, SameSeal r (sweepGrants reg now).1 := fun _ => ⟨h.nkWrap, h.esc, h.period⟩
  unfold sweepForAway
  split
  · cases hnow : W.attestedNow with
    | error e => exact hsame _
    | ok now =>
      simp only
      split_ifs
      · refine Spec.bind (persist_spec (hswept now) _) fun reg' => Spec.pure _ ?_ fun _ hd => hd.2.2
        exact fun disk hd => ⟨hd.2.2, hd.1⟩
      · exact Spec.pure _ (fun _ hd => ⟨hd, hswept now⟩) fun _ hd => hd
  · exact hsame _

theorem unlockWithAway_spec (h : SameSeal r reg) (i : ℕ) (d : DeviceRecord) (secret : Bytes) (asserted : UInt32) :
    Spec (Keeps r) (unlockWithAway P H W reg i d secret asserted)
      (fun x disk => Keeps r disk ∧ SameSeal r x.1 ∧ ∀ u, x.2 = .ok u → Opened P r x.1 u.nk u.rmk) (fun _ => Keeps r)
      (Keeps r) := by
  have hfail : ∀ (reg : DeviceRegistryFile) (e : CryptoError), Spec (fun disk => Keeps r disk ∧ SameSeal r reg)
      (pure (reg, .error e) : Prog RegistryDisk CryptoError (DeviceRegistryFile × Except CryptoError Unlock))
      (fun x disk => Keeps r disk ∧ SameSeal r x.1 ∧ ∀ u, x.2 = .ok u → Opened P r x.1 u.nk u.rmk) (fun _ => Keeps r)
      (Keeps r) := fun _ _ => Spec.pure _ (fun _ hd => ⟨hd.1, hd.2, nofun⟩) fun _ hd => hd.1
  unfold unlockWithAway
  cases openAway P H reg d secret with
  | error e => exact (hfail reg e).conseq (fun _ hd => ⟨hd, h⟩) (fun _ _ hq => hq) (fun _ _ he => he) fun _ hc => hc
  | ok rmk =>
    refine Spec.bind (sweepForAway_spec h _ d) ?_
    rintro ⟨reg', erased⟩
    cases erased with
    | error e => exact hfail reg' e
    | ok erased =>
      simp only
      cases haccept : acceptSignCount P reg' d rmk asserted with
      | error e => exact hfail reg' e
      | ok nk =>
        refine Spec.of_states fun disk hd => ?_
        have hkey := acceptSignCount_key haccept
        rw [hd.2.openNk] at hkey
        have hcounted : SameSeal r { reg' with
            devices := reg'.devices.modify i fun d => { d with signCountLast := some asserted } } :=
          ⟨hd.2.nkWrap, hd.2.esc, hd.2.period⟩
        refine Spec.bind ((persist_spec hcounted _).conseq (by rintro _ rfl; exact hd.1) (fun _ _ hq => hq)
          (fun _ _ he => he) fun _ hc => hc) fun reg'' => Spec.pure _ ?_ fun _ hd => hd.2.2
        rintro disk' ⟨hsame, hvalid, hd'⟩
        refine ⟨hd', hsame, fun u hu => ?_⟩
        cases hu
        exact ⟨hsame, hvalid, hkey⟩

theorem awayAttempt_spec (h : SameSeal r reg) (i : ℕ) (d : DeviceRecord) :
    Spec (Keeps r) (awayAttempt P H W reg i d)
      (fun x disk => Keeps r disk ∧ SameSeal r x.1 ∧ ∀ u, x.2 = .ok u → Opened P r x.1 u.nk u.rmk) (fun _ => Keeps r)
      (Keeps r) := by
  unfold awayAttempt
  split
  · exact Spec.pure _ (fun _ hd => ⟨hd, h, nofun⟩) fun _ hd => hd
  · split
    · exact Spec.pure _ (fun _ hd => ⟨hd, h, nofun⟩) fun _ hd => hd
    · exact unlockWithAway_spec h i d _ _

/-- the outcome of a successful unlock -/
def OutcomeOf (P : Primitives) (r : DeviceRegistryFile) (out : UnlockOutcome) : Prop :=
  Opened P r out.registry out.nodeKey out.registryMasterKey

theorem tryAwayRecords_spec (h : SameSeal r reg) (is : List ℕ) (reasons : List String) :
    Spec (Keeps r) (tryAwayRecords P H W reg is reasons) (fun out disk => Keeps r disk ∧ OutcomeOf P r out)
      (fun _ => Keeps r) (Keeps r) := by
  induction is generalizing reg reasons with
  | nil => exact Spec.throw (fun _ hd => hd) fun _ hd => hd
  | cons i is ih =>
    unfold tryAwayRecords
    split
    · exact ih h _
    · split
      · exact ih h _
      · split
        · exact ih h _
        · refine Spec.bind (awayAttempt_spec h i _) ?_
          rintro ⟨reg', o⟩
          cases o with
          | ok u => exact Spec.pure _ (fun disk hd => ⟨hd.1, hd.2.2 u rfl⟩) fun _ hd => hd.1
          | error e =>
            simp only
            split_ifs
            · refine Spec.of_states fun disk hd => ?_
              refine (ih hd.2.1 _).conseq ?_ (fun _ _ hq => hq) (fun _ _ he => he) fun _ hc => hc
              rintro _ rfl
              exact hd.1
            · exact Spec.throw (fun _ hd => hd.1) fun _ hd => hd.1

theorem unlockDevices_spec (h : SameSeal r reg) (hvalid : validate reg = .ok ()) :
    Spec (Keeps r) (unlockDevices P H W reg) (fun out disk => Keeps r disk ∧ OutcomeOf P r out) (fun _ => Keeps r)
      (Keeps r) := by
  refine Spec.bind (tryHomeRecords_spec h hvalid reg.devices []) fun o => ?_
  cases o with
  | ok x => exact Spec.pure _ (fun disk hd => ⟨hd.1, hd.2 x rfl⟩) fun _ hd => hd.1
  | error reasons =>
    exact (tryAwayRecords_spec h _ reasons).conseq (fun _ hd => hd.1) (fun _ _ hq => hq) (fun _ _ he => he) fun _ hc => hc

/-- **An unlock keeps the seal.** Cut anywhere, refused or granted, it leaves `nk_wrap` as it was, and the key it grants is
the one in it. -/
theorem unlock_spec : Spec (fun disk => disk = some (.ok r)) (unlock P H W)
    (fun out disk => Keeps r disk ∧ OutcomeOf P r out) (fun _ => Keeps r) (Keeps r) := by
  have hstart : ∀ disk, disk = some (.ok r) → Keeps r disk := fun _ h => ⟨r, h, SameSeal.refl r⟩
  have hload : Spec (fun disk => disk = some (.ok r)) load
      (fun reg disk => Keeps r disk ∧ SameSeal r reg ∧ validate reg = .ok ()) (fun _ => Keeps r) (Keeps r) := by
    refine Spec.get_bind ?_
    rintro _ rfl
    simp only
    split_ifs
    · exact Spec.throw hstart hstart
    · refine Spec.ofExcept_bind_any (fun _ => hstart) hstart fun _ hv => Spec.pure _ (fun disk hd => ?_) hstart
      exact ⟨hstart disk hd, SameSeal.refl r, hv⟩
  refine Spec.bind hload fun reg => Spec.of_states fun disk hd => ?_
  obtain ⟨hdisk, hsame, hvalid⟩ := hd
  have hk : ∀ u, u = disk → Keeps r u := by rintro u rfl; exact hdisk
  refine Spec.ofExcept_bind_any (fun _ => hk) hk fun code _ => ?_
  refine Spec.bind (Spec.attempt ((emergencyUnlock_spec hsame code).conseq hk (fun _ _ hq => hq) (fun _ _ he => he)
    fun _ hc => hc) (B := fun o disk => Keeps r disk ∧ ∀ x, o = .ok (some x) → Opened P r x.1 x.2.1.nk x.2.1.rmk)
    (fun o _ hq => ⟨hq.1, fun x hx => hq.2 x (Except.ok.inj hx)⟩) fun _ _ he => ⟨he, nofun⟩) fun o => ?_
  have hdev : Spec (fun disk => Keeps r disk ∧ ∀ x, o = .ok (some x) → Opened P r x.1 x.2.1.nk x.2.1.rmk)
      (unlockDevices P H W reg) (fun out disk => Keeps r disk ∧ OutcomeOf P r out) (fun _ => Keeps r) (Keeps r) :=
    (unlockDevices_spec hsame hvalid).conseq (fun _ hd => hd.1) (fun _ _ hq => hq) (fun _ _ he => he) fun _ hc => hc
  split
  · exact Spec.pure _ (fun disk hd => ⟨hd.1, hd.2 _ rfl⟩) fun _ hd => hd.1
  · exact hdev
  · exact hdev
  · exact hdev
  · exact Spec.throw (fun _ hd => hd.1) fun _ hd => hd.1

/-! ## The key in the seal -/

theorem openNk_eq_ok {rmk nk : Bytes} : openNk P r rmk = .ok nk ↔
    unwrapSecret P (nkWrapKey P rmk) r.nkWrap (nkWrapAad r.esc r.awayGrantSeconds) = .ok nk := by
  unfold openNk
  split
  · next h => simp [h]
  · rfl

theorem unwrapSecret_ok {kek aad secret : Bytes} {wrap : Wrap} (h : unwrapSecret P kek wrap aad = .ok secret) :
    ∃ nonce ct, Base64.decode wrap.nonceB64 = some nonce ∧ Base64.decode wrap.ctB64 = some ct ∧
      P.aead.decrypt kek nonce aad ct = some secret := by
  unfold unwrapSecret at h
  split at h
  · cases h
  · cases h
  · next nonce ct hn hc =>
    split_ifs at h
    split at h
    · cases h
    · next plain hp =>
      split_ifs at h
      cases h
      exact ⟨nonce, ct, hn, hc, hp⟩

theorem unwrapSecret_wrapSecret {kek secret : Bytes} (aad : Bytes) (nonce : Nonce) (h : secret.length = 32) :
    unwrapSecret P kek (wrapSecret P kek secret aad nonce) aad = .ok secret := by
  have hct : (P.aead.encrypt kek nonce.1 aad secret).length = WRAP_CT_LEN := by rw [P.aead_correct.length_encrypt, h]
  have hopen := P.aead_correct.decrypt_encrypt kek nonce.1 aad secret
  unfold unwrapSecret wrapSecret
  simp only [Base64.decode_encode, nonce.2, NONCE_LEN, ne_eq, not_true_eq_false, if_false, hct, hopen, h, if_true]

/-- different wrap keys do not open one another's wraps -/
def WrapKeysSeparate (P : Primitives) : Prop :=
  ∀ rmk rmk', nkWrapKey P rmk ≠ nkWrapKey P rmk' → P.aead.KeySeparates (nkWrapKey P rmk) (nkWrapKey P rmk')

/-- `nk_wrap` opens to `nk` under some master key -/
def NkWrapOpens (P : Primitives) (r : DeviceRegistryFile) (nk : Bytes) : Prop := ∃ rmk, openNk P r rmk = .ok nk

theorem SameSeal.opens {r' : DeviceRegistryFile} {nk : Bytes} (h : SameSeal r r') (hr : NkWrapOpens P r nk) :
    NkWrapOpens P r' nk := by
  obtain ⟨rmk, hk⟩ := hr
  exact ⟨rmk, by rw [h.openNk]; exact hk⟩

/-- `nk_wrap` holds one key -/
theorem openNk_unique (hsep : WrapKeysSeparate P) {rmk nk nk' : Bytes} (h : openNk P r rmk = .ok nk)
    (h' : NkWrapOpens P r nk') : nk = nk' := by
  obtain ⟨rmk', h'⟩ := h'
  rw [openNk_eq_ok] at h h'
  by_cases hk : nkWrapKey P rmk = nkWrapKey P rmk'
  · rw [hk, h'] at h
    cases h
    rfl
  · obtain ⟨n, ct, hn, hc, hd⟩ := unwrapSecret_ok h
    obtain ⟨n', ct', hn', hc', hd'⟩ := unwrapSecret_ok h'
    rw [hc] at hc'
    cases hc'
    rw [hsep rmk rmk' hk _ _ n' _ _ _ hd] at hd'
    cases hd'

/-- the registry with the new node key in its seal -/
def resealed (P : Primitives) (H : Hashes) (W : Surroundings) (reg : DeviceRegistryFile) (rmk newNk : Bytes) : DeviceRegistryFile :=
  authenticate P H (deriveStateKey P rmk) { reg with
    nkWrap := wrapSecret P (nkWrapKey P rmk) newNk (nkWrapAad reg.esc reg.awayGrantSeconds) W.nkNonce }

theorem openNk_resealed {rmk newNk : Bytes} (hnew : newNk.length = 32) :
    openNk P (resealed P H W reg rmk newNk) rmk = .ok newNk := openNk_eq_ok.2 (unwrapSecret_wrapSecret _ _ hnew)

/-- **The seal is rewritten** in one atomic effect. -/
theorem rewriteNkWrap_eq {rmk newNk : Bytes} (hvalid : validate reg = .ok ()) :
    rewriteNkWrap P H W reg rmk newNk =
      (do Prog.modify fun _ => some (.ok (resealed P H W reg rmk newNk)); pure (resealed P H W reg rmk newNk)) := by
  set sealed := { reg with
    nkWrap := wrapSecret P (nkWrapKey P rmk) newNk (nkWrapAad reg.esc reg.awayGrantSeconds) W.nkNonce } with hsealed
  obtain ⟨⟨⟩, hfill, hcheck⟩ := except_bind_ok (x := fillDerived reg) (f := fun _ => check reg) hvalid
  have hmac : decodes32 (Base64.encode (stateMac P H (deriveStateKey P rmk) sealed)) = true := by
    simp [decodes32, stateMac, P.length_hmac]
  have hcheck' : check (authenticate P H (deriveStateKey P rmk) sealed) = .ok () := check_congr hcheck _ hmac
  have hfill' : fillDerived sealed = .ok () := hfill
  unfold rewriteNkWrap persist
  rw [← hsealed, hfill', hcheck']
  rfl

/-! ## A granted unlock -/

theorem openHome_ok {d : DeviceRecord} {params : Tpm2Params} {tpmSecret secret rmk nk : Bytes} (hparams : d.tpm2 = some params)
    (htpm : W.tpmUnseal params = .ok tpmSecret) (hsecret : homeDeviceSecret P H W reg d tpmSecret = .ok secret)
    (hlen : secret.length = 32) (hrmk : rmkFromPermanent P reg d (deriveDeviceKek P secret d.idBytes) = .ok rmk)
    (hmac : verifyStateMac P H (deriveStateKey P rmk) reg = .ok ()) (hnk : openNk P reg rmk = .ok nk) :
    openHome P H W reg d = .ok (rmk, nk) := by
  unfold openHome tpmParams
  simp only [hparams, bind, Except.bind, htpm, hsecret, secret32, if_pos hlen, hrmk, hmac, hnk]
  rfl

/-- a home device that opens, with no emergency code given and no attested time: the key is granted and the disk untouched -/
theorem unlock_of_home {d : DeviceRecord} {rest : List DeviceRecord} {rmk nk : Bytes} {e : CryptoError}
    (hver : reg.formatVersion = DEVICES_FORMAT_VERSION) (hvalid : validate reg = .ok ()) (hcode : W.emergencyCode = .ok none)
    (hdev : reg.devices = d :: rest) (hkind : d.kind = .tpm2) (hopen : openHome P H W reg d = .ok (rmk, nk))
    (htime : W.attestedNow = .error e) :
    unlock P H W (some (.ok reg)) = ([], .ok (finishOutcome P reg ⟨nk, rmk, 0, 0⟩ (.home d.id d.label))) := by
  have hload : load (some (.ok reg)) = ([], .ok reg) := by
    unfold load
    rw [Prog.get_bind_apply]
    simp only [hver, ne_eq, not_true_eq_false, if_false, hvalid]
    rfl
  have hhome : unlockWithHome P H W reg d (some (.ok reg)) = ([], .ok (reg, ⟨nk, rmk, 0, 0⟩)) := by
    unfold unlockWithHome
    rw [hopen, htime]
    rfl
  have hrecords : tryHomeRecords P H W reg reg.devices [] (some (.ok reg)) =
      ([], .ok (.ok (reg, ⟨nk, rmk, 0, 0⟩, .home d.id d.label))) := by
    rw [hdev]
    unfold tryHomeRecords
    rw [if_neg (not_not.2 hkind)]
    have hatt : (Prog.attempt (unlockWithHome P H W reg d) : Prog RegistryDisk CryptoError _) (some (.ok reg)) =
        ([], .ok (.ok (reg, ⟨nk, rmk, 0, 0⟩))) := by
      unfold Prog.attempt
      rw [hhome]
    rw [Prog.bind_apply_ok hatt]
    rfl
  unfold unlock
  rw [Prog.bind_apply_ok hload, hcode]
  have hdevices : unlockDevices P H W reg (some (.ok reg)) =
      ([], .ok (finishOutcome P reg ⟨nk, rmk, 0, 0⟩ (.home d.id d.label))) := by
    unfold unlockDevices
    rw [Prog.bind_apply_ok hrecords]
    rfl
  exact hdevices

end Y2q.Devices
