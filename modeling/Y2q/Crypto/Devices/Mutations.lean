/-
Changing the device registry (`crypto/devices/registry.rs`, `crypto/devices/emergency.rs`): its initialisation, the mutations
of the CLI (enroll, remove, second factor, reseal, grant period, refresh) and the daemon's grant sweep.

A mutation changes the registry in memory; the command that makes it persists afterwards. What the hardware answers and the
random draws are the `Bench` of the mutation.

- `initRegistry`, `sweepNow`: programs on `devices.json`.
- `Mutation.apply`: a mutation, by the authority of the unlock before it.
-/
import Mathlib.Tactic
import Y2q.Crypto.Devices.Unlock

namespace Y2q.Devices

open CrashLogic NodeKeys

/-! ## What a mutation is given -/

abbrev Key32 := {b : Bytes // b.length = 32}

structure NewDevice where
  label : String
  kind : DeviceKind
  tpm2 : Option Tpm2Params
  fido2 : Option Fido2Params
  secret : Bytes
  signCount : UInt32

structure NewHomeFactor where
  factor : HomeFactor
  secret : Bytes

/-- the surroundings of a mutation, with its random draws -/
structure Bench extends Surroundings where
  idDraw : ℕ → {b : Bytes // b.length = 16}
  wrapNonce : Nonce
  kekNonce : Nonce
  /-- `tpm2::reseal`: the parameters and the secret newly sealed -/
  tpmReseal : Tpm2Params → Except CryptoError (Tpm2Params × Bytes)

variable (P : Primitives) (H : Hashes)

def deviceWrapAadRaw (deviceId : Bytes) (kind : DeviceKind) (selector : UInt8) (esc : Bytes) : Bytes :=
  utf8 "y2q/v1/device-wrap" ++ [0] ++ deviceId ++ [kindByte kind, selector] ++ esc

def deviceWrapAad (deviceId : Bytes) (kind : DeviceKind) (uv : Bool) (esc : Bytes) : Bytes :=
  deviceWrapAadRaw deviceId kind (boolByte uv) esc

def insufficient (operation required : String) (attemptedBy : Authority) : CryptoError :=
  .deviceAuthorityInsufficient operation required attemptedBy.describe

def Authority.isHome : Authority → Bool
  | .home _ _ => true
  | _ => false

def Authority.isEmergency : Authority → Bool
  | .emergency _ => true
  | _ => false

/-! ## Enrollment -/

/-- the record of a new device, with its wraps -/
def newRecord (new : NewDevice) (idBytes esc rmk : Bytes) (addedAtUnix : UInt64) (permanent : Bool) (wrapNonce kekNonce : Nonce) :
    Except CryptoError DeviceRecord :=
  let kek := deriveDeviceKek P new.secret idBytes
  let bare : DeviceRecord :=
    ⟨toHex idBytes, new.label, new.kind, addedAtUnix, none, none, none, none, none, none, none⟩
  match new.kind with
  | .tpm2 =>
    match new.tpm2 with
    | none => .error (.deviceBackend "enrollment result carries no tpm2 parameters")
    | some params =>
      .ok { bare with
        tpm2 := some params
        wrap := some (wrapSecret P kek rmk (deviceWrapAad idBytes .tpm2 false esc) wrapNonce) }
  | .fido2 =>
    match new.fido2 with
    | none => .error (.deviceBackend "enrollment result carries no fido2 parameters")
    | some params =>
      .ok { bare with
        fido2 := some params
        signCountLast := some new.signCount
        kekWrap := some (wrapSecret P (kekCacheKey P rmk) kek (kekCacheAad idBytes esc) kekNonce)
        wrap := if permanent then some (wrapSecret P kek rmk (deviceWrapAad idBytes .fido2 params.uvRequired esc) wrapNonce)
          else none }

/-- an id that no record has, out of eight draws -/
def freshId (B : Bench) (reg : DeviceRegistryFile) : Except CryptoError Bytes :=
  match ((List.range 8).map fun i => (B.idDraw i).1).find? fun b => !reg.devices.any fun d => d.id = toHex b with
  | some b => .ok b
  | none => .error (corrupt "could not generate a unique device id")

def mayEnroll (homes : ℕ) : Authority → Bool
  | .home _ _ => true
  | .away _ _ _ => homes == 0
  | .emergency _ => false

def enrollOperation : DeviceKind → String
  | .tpm2 => "add-tpm"
  | .fido2 => "add-fido2"

def withRecord (reg : DeviceRegistryFile) (d : DeviceRecord) : DeviceRegistryFile :=
  let reg := { reg with devices := reg.devices ++ [d] }
  { reg with permanentAway := homeCount reg == 0 && !reg.devices.isEmpty }

/-- no away record has a permanent wrap -/
def stripped (reg : DeviceRegistryFile) : DeviceRegistryFile :=
  { reg with devices := reg.devices.map fun d => if d.kind = .fido2 then { d with wrap := none } else d }

/-- what is refused before anything is drawn -/
def enrollRefused (reg : DeviceRegistryFile) (new : NewDevice) (attemptedBy : Authority) : Except CryptoError Unit :=
  if mayEnroll (homeCount reg) attemptedBy = false then
    .error (insufficient (enrollOperation new.kind) "a home device, or an away device with no home devices" attemptedBy)
  else
    match validLabel new.label with
    | .error e => .error (.deviceLabelInvalid e)
    | .ok () =>
      if reg.devices.any fun d => d.label.toLower = new.label.toLower then .error (.deviceLabelInUse new.label)
      else secret32 new.label new.secret

def firstHomeOverAway (reg : DeviceRegistryFile) (new : NewDevice) : Bool :=
  decide (new.kind = .tpm2) && homeCount reg == 0 && reg.devices.any fun d => d.kind = .fido2

def enrollDevice (B : Bench) (reg : DeviceRegistryFile) (new : NewDevice) (rmk : Bytes) (attemptedBy : Authority) :
    Except CryptoError DeviceRegistryFile := do
  enrollRefused reg new attemptedBy
  let idBytes ← freshId B reg
  let d ← newRecord P new idBytes reg.esc rmk B.nowHost (homeCount reg == 0) B.wrapNonce B.kekNonce
  if firstHomeOverAway reg new then
    -- every permanent away wrap goes; grants are minted when time can be attested
    match B.attestedNow with
    | .ok now => .ok (mintGrants P B.toSurroundings (stripped (withRecord reg d)) rmk now).1
    | .error _ => .ok (stripped (withRecord reg d))
  else .ok (withRecord reg d)

/-! ## The other mutations -/

/-- the position of the record with this id, or else of the only one with this label -/
def resolveSelector (reg : DeviceRegistryFile) (selector : String) : Except CryptoError ℕ :=
  match reg.devices.findIdx? fun d => d.id = selector with
  | some i => .ok i
  | none =>
    match (reg.devices.zipIdx.filter fun x => x.1.label.toLower = selector.toLower).map (·.2) with
    | [i] => .ok i
    | _ => .error (.deviceNotFound selector)

/-- the record that a selector names, with its position -/
def selectRecord (reg : DeviceRegistryFile) (selector : String) : Except CryptoError (ℕ × DeviceRecord) := do
  let i ← resolveSelector reg selector
  match reg.devices[i]? with
  | some d => pure (i, d)
  | none => .error (.deviceNotFound selector)

def HomeFactor.names (id : String) : HomeFactor → Bool
  | .fido2 deviceId => deviceId = id
  | .passcode .. => false

def removeRefused (reg : DeviceRegistryFile) (d : DeviceRecord) (attemptedBy : Authority) : Except CryptoError Unit :=
  if ¬(attemptedBy.isHome || attemptedBy.isEmergency) then
    .error (insufficient "remove" "a home device or an emergency code" attemptedBy)
  else if reg.devices.length = 1 then .error .deviceRegistryLastDevice
  else if d.kind = .tpm2 ∧ homeCount reg = 1 then .error (.deviceLastHomeRemovalRefused d.label)
  else if d.kind = .fido2 ∧ (reg.devices.any fun h => h.homeFactor.any fun f => f.names d.id) = true then
    .error (.deviceFactorInUse d.label)
  else .ok ()

def removeDevice (reg : DeviceRegistryFile) (selector : String) (attemptedBy : Authority) :
    Except CryptoError DeviceRegistryFile := do
  let (i, d) ← selectRecord reg selector
  removeRefused reg d attemptedBy
  let reg := { reg with devices := reg.devices.eraseIdx i }
  pure { reg with permanentAway := homeCount reg == 0 && !reg.devices.isEmpty }

def refreshGrants (B : Bench) (reg : DeviceRegistryFile) (rmk : Bytes) (attemptedBy : Authority) :
    Except CryptoError DeviceRegistryFile :=
  if ¬attemptedBy.isHome then .error (insufficient "refresh" "a home device" attemptedBy)
  else do
    let now ← B.attestedNow
    pure (mintGrants P B.toSurroundings (sweepGrants reg now).1 rmk now).1

def withoutGrants (reg : DeviceRegistryFile) : DeviceRegistryFile :=
  { reg with devices := reg.devices.map fun d => { d with grant := none } }

/-- whether an authority may set this period -/
def mayShorten (reg : DeviceRegistryFile) (seconds : UInt32) (attemptedBy : Authority) : Except CryptoError Unit :=
  match attemptedBy with
  | .home _ _ => .ok ()
  | .emergency _ =>
    if reg.awayGrantSeconds ≤ seconds then
      .error (insufficient "set-grant-period" "a home device, or an emergency code with a strictly shorter period" attemptedBy)
    else .ok ()
  | .away _ _ _ => .error (insufficient "set-grant-period" "a home device or an emergency code" attemptedBy)

/-- the registry with another period, its `nk_wrap` sealed again under it -/
def withPeriod (B : Bench) (reg : DeviceRegistryFile) (seconds : UInt32) (nk rmk : Bytes) : DeviceRegistryFile :=
  withoutGrants { reg with
    awayGrantSeconds := seconds
    nkWrap := wrapSecret P (nkWrapKey P rmk) nk (nkWrapAad reg.esc seconds) B.nkNonce }

def setGrantPeriod (B : Bench) (reg : DeviceRegistryFile) (seconds : UInt32) (nk rmk : Bytes) (attemptedBy : Authority) :
    Except CryptoError DeviceRegistryFile :=
  if ¬(MIN_AWAY_GRANT_SECONDS ≤ seconds.toNat ∧ seconds.toNat ≤ MAX_AWAY_GRANT_SECONDS) then
    .error (.deviceGrantPeriodInvalid seconds.toNat)
  else do
    mayShorten reg seconds attemptedBy
    if attemptedBy.isHome then
      match B.attestedNow with
      | .ok now => .ok (mintGrants P B.toSurroundings (withPeriod P B reg seconds nk rmk) rmk now).1
      | .error _ => .ok (withPeriod P B reg seconds nk rmk)
    else .ok (withPeriod P B reg seconds nk rmk)

def authorized (operation : String) (attemptedBy : Authority) : Except CryptoError Unit :=
  if attemptedBy.isHome || attemptedBy.isEmergency then .ok ()
  else .error (insufficient operation "a home device or an emergency code" attemptedBy)

/-- the TPM is contacted first; the secret that the new wrap is sealed under comes with the parameters -/
def resealedSecret (B : Bench) (reg : DeviceRegistryFile) (id : String) (attemptedBy : Authority) :
    Except CryptoError (ℕ × DeviceRecord × Tpm2Params × Bytes) := do
  authorized "reseal-tpm" attemptedBy
  let (i, d) ← selectRecord reg id
  match d.kind, d.tpm2 with
    | .tpm2, some params => do
      let (newParams, newSecret) ← B.tpmReseal params
      secret32 d.label newSecret
      let deviceSecret ← homeDeviceSecret P H B.toSurroundings reg d newSecret
      pure (i, d, newParams, deviceSecret)
    | _, _ => .error (.deviceNotFound id)

def resealDevice (B : Bench) (reg : DeviceRegistryFile) (id : String) (rmk : Bytes) (attemptedBy : Authority) :
    Except CryptoError DeviceRegistryFile := do
  let (i, d, params, secret) ← resealedSecret P H B reg id attemptedBy
  let wrap := wrapSecret P (deriveDeviceKek P secret d.idBytes) rmk (recordWrapAad d reg.esc) B.wrapNonce
  pure { reg with devices := reg.devices.set i { d with tpm2 := some params, wrap := some wrap } }

/-- `HKDF-SHA256(tpm_secret || factor_secret)` -/
def combineHomeSecret (tpmSecret factorSecret deviceId : Bytes) : Bytes :=
  hkdf32 P (tpmSecret ++ factorSecret) (utf8 "y2q/v1/home-factor") deviceId

/-- the secret of a home device with this factor -/
def secretWith (reg : DeviceRegistryFile) (d : DeviceRecord) (factor : Option NewHomeFactor) (tpmSecret : Bytes) :
    Except CryptoError Bytes :=
  match factor with
  | none => .ok tpmSecret
  | some nf => do
    checkHomeFactor reg.devices d nf.factor
    pure (combineHomeSecret P tpmSecret nf.secret d.idBytes)

/-- the record to change, and the secret that its new wrap is sealed under -/
def factoredSecret (reg : DeviceRegistryFile) (selector : String) (factor : Option NewHomeFactor) (tpmSecret : Bytes)
    (attemptedBy : Authority) : Except CryptoError (ℕ × DeviceRecord × Bytes) := do
  authorized "set-home-factor" attemptedBy
  let (i, d) ← selectRecord reg selector
  if d.kind ≠ .tpm2 then
    .error (.deviceFactorInvalid s!"device '{d.label}' is not a home device; only home devices carry a second factor")
  else do
    secret32 d.label tpmSecret
    let secret ← secretWith P reg d factor tpmSecret
    pure (i, d, secret)

def setHomeFactor (B : Bench) (reg : DeviceRegistryFile) (selector : String) (factor : Option NewHomeFactor) (tpmSecret rmk : Bytes)
    (attemptedBy : Authority) : Except CryptoError DeviceRegistryFile := do
  let (i, d, secret) ← factoredSecret P reg selector factor tpmSecret attemptedBy
  let aad := deviceWrapAadRaw d.idBytes .tpm2 (factorByte (factor.map (·.factor))) reg.esc
  let wrap := wrapSecret P (deriveDeviceKek P secret d.idBytes) rmk aad B.wrapNonce
  pure { reg with devices := reg.devices.set i { d with wrap := some wrap, homeFactor := factor.map (·.factor) } }

/-! ## Mutations -/

inductive Mutation where
  | enroll (new : NewDevice)
  | remove (selector : String)
  | refresh
  | setPeriod (seconds : UInt32)
  | reseal (id : String)
  | setFactor (selector : String) (factor : Option NewHomeFactor) (tpmSecret : Bytes)

/-- the mutation, with the keys and the authority of the unlock before it -/
def Mutation.apply (B : Bench) (reg : DeviceRegistryFile) (nk rmk : Bytes) (attemptedBy : Authority) :
    Mutation → Except CryptoError DeviceRegistryFile
  | .enroll new => enrollDevice P B reg new rmk attemptedBy
  | .remove selector => removeDevice reg selector attemptedBy
  | .refresh => refreshGrants P B reg rmk attemptedBy
  | .setPeriod seconds => setGrantPeriod P B reg seconds nk rmk attemptedBy
  | .reseal id => resealDevice P H B reg id rmk attemptedBy
  | .setFactor selector factor tpmSecret => setHomeFactor P B reg selector factor tpmSecret rmk attemptedBy

/-! ## Initialisation -/

/-- the random draws of an initialisation, and what is around it -/
structure InitBench where
  rmk : Key32
  root : Key32
  code : Fin 10 → Key32
  id : {b : Bytes // b.length = 16}
  nkNonce : Nonce
  wrapNonce : Nonce
  kekNonce : Nonce
  slotNonce : Fin 10 → Nonce
  /-- `verify_node_key`, if there is a keystore to verify an adopted key against -/
  verifyNodeKey : Bytes → Except CryptoError Unit
  /-- printing the code sheet -/
  print : Except CryptoError Unit

/-- the commitment to the emergency codes -/
def emergencySet (code : Fin 10 → Key32) : Bytes :=
  H.sha256 (utf8 "y2q/v1/emergency-set" ++ (List.finRange 10).flatMap fun i => H.sha256 (code i).1)

/-- the node key: the adopted one, or a fresh one bound to the emergency set -/
def initialNodeKey (I : InitBench) (adopt : Option Key32) : Bytes :=
  match adopt with
  | some nk => nk.1
  | none => P.hmacSha256 (utf8 "y2q/v4/node-key-root") (I.root.1 ++ emergencySet H I.code)

def emergencySlotsOf (I : InitBench) (esc : Bytes) : List EmergencySlot :=
  (List.finRange 10).map fun i =>
    let index := UInt8.ofNat i.val
    ⟨index, some (wrapSecret P (deriveEmergencyKek P (I.code i).1 index) I.rmk.1 (emergencyWrapAad index esc) (I.slotNonce i)), none⟩

def kindName : DeviceKind → String
  | .tpm2 => "Tpm2"
  | .fido2 => "Fido2"

def initRefused (first : NewDevice) (awayGrantSeconds : UInt32) (permanentAway : Bool) : Except CryptoError Unit :=
  if permanentAway ≠ decide (first.kind = .fido2) then .error (.devicePermanentAwayMismatch (kindName first.kind))
  else if ¬(MIN_AWAY_GRANT_SECONDS ≤ awayGrantSeconds.toNat ∧ awayGrantSeconds.toNat ≤ MAX_AWAY_GRANT_SECONDS) then
    .error (.deviceGrantPeriodInvalid awayGrantSeconds.toNat)
  else
    match validLabel first.label with
    | .error e => .error (.deviceLabelInvalid e)
    | .ok () => secret32 first.label first.secret

/-- the registry of one device, checked -/
def initialRegistry (I : InitBench) (first : NewDevice) (awayGrantSeconds : UInt32) (permanentAway : Bool) (now : UInt64)
    (adopt : Option Key32) : Except CryptoError DeviceRegistryFile := do
  let esc := emergencySet H I.code
  let d ← newRecord P first I.id.1 esc I.rmk.1 now true I.wrapNonce I.kekNonce
  let reg := authenticate P H (deriveStateKey P I.rmk.1)
    ⟨DEVICES_FORMAT_VERSION, Base64.encode esc, awayGrantSeconds, permanentAway,
      wrapSecret P (nkWrapKey P I.rmk.1) (initialNodeKey P H I adopt) (nkWrapAad esc awayGrantSeconds) I.nkNonce, "", [d],
      emergencySlotsOf P I esc⟩
  check reg
  pure reg

/-- the codes are printed before the registry is written; a registry that is there stays -/
def initRegistry (I : InitBench) (first : NewDevice) (awayGrantSeconds : UInt32) (permanentAway : Bool) (now : UInt64)
    (adopt : Option Key32) : Prog RegistryDisk CryptoError (Bytes × DeviceRegistryFile) := do
  let disk ← Prog.get
  if disk.isSome then Prog.throw (.deviceRegistryExists "devices.json")
  else do
    Prog.ofExcept (initRefused first awayGrantSeconds permanentAway)
    match adopt with
      | some nk => Prog.ofExcept (I.verifyNodeKey nk.1)
      | none => pure ()
    let reg ← Prog.ofExcept (initialRegistry P H I first awayGrantSeconds permanentAway now adopt)
    Prog.ofExcept I.print
    Prog.modify fun _ => some (.ok reg)
    pure (initialNodeKey P H I adopt, reg)

/-! ## The daemon's sweep -/

/-- the sweep has something to do -/
def sweepDue (reg : DeviceRegistryFile) (rmk : Option Bytes) : Bool :=
  (reg.devices.any fun d => d.grant.isSome) ||
    (rmk.isSome && !reg.permanentAway && reg.devices.any fun d => d.kind = .fido2)

/-- `sweep_now`; `busy` is whether another process holds the registry lock -/
def sweepNow (W : Surroundings) (busy : Bool) (stateKey : Bytes) (rmk : Option Bytes) :
    Prog RegistryDisk CryptoError (ℕ × ℕ) :=
  if busy then pure (0, 0)
  else do
    let reg ← load
    match verifyStateMac P H stateKey reg with
    | .error _ => pure (0, 0)
    | .ok () =>
      if ¬sweepDue reg rmk then pure (0, 0)
      else
        match W.attestedNow with
        | .error _ => pure (0, 0)
        | .ok now => do
          let swept := sweepGrants reg now
          let minted := match rmk with
            | some rmk => mintGrants P W swept.1 rmk now
            | none => (swept.1, 0)
          if minted.2 > 0 ∨ swept.2 > 0 then do
            let _ ← persist P H stateKey minted.1
            pure (minted.2, swept.2)
          else pure (minted.2, swept.2)

end Y2q.Devices
