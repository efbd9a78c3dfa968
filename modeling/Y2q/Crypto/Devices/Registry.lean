/-
The device registry `devices.json` (`crypto/devices/types.rs`, `crypto/devices/registry.rs`): its records, the wraps in it,
the state MAC, the structural check, and reading and writing the file.

Home wraps, away grants and emergency wraps all seal the registry master key (RMK); `nk_wrap` seals the node key under a key
derived from RMK. The caches `esc` and `id_bytes`, which serde skips and `fill_derived` refills, are computed from the text
they cache. HKDF is written out (one block of output). SHA-256 and Argon2id are third-party. The reason a third-party parser
gives is left out of a message, except that of the JSON parser.

- `persist`: recompute the MAC, check, replace the file (one atomic effect).
- `check_congr`: the check reads neither `nk_wrap` nor the value of the MAC.
-/
import Mathlib.Tactic
import Y2q.Core.Base64
import Y2q.Core.Crash
import Y2q.Crypto.NodeKeys
import Y2q.Storage.Tree

namespace Y2q.Devices

open CrashLogic NodeKeys

/-! ## Records -/

inductive DeviceKind where
  | tpm2
  | fido2
deriving DecidableEq, Repr

/-- an AES-256-GCM ciphertext of a 32-byte secret -/
structure Wrap where
  nonceB64 : String
  ctB64 : String
deriving DecidableEq, Repr

structure Grant where
  notAfterUnix : UInt64
  issuedAtUnix : UInt64
  wrap : Wrap
deriving DecidableEq, Repr

structure Tpm2Params where
  privateB64 : String
  publicB64 : String
  pcrSlots : Bytes
  pcrBank : String
deriving DecidableEq, Repr

structure Fido2Params where
  rpId : String
  credentialIdB64 : String
  hmacSaltB64 : String
  uvRequired : Bool
deriving DecidableEq, Repr

inductive HomeFactor where
  | passcode (saltB64 : String) (mCostKib tCost pCost : UInt32)
  | fido2 (deviceId : String)
deriving DecidableEq, Repr

structure DeviceRecord where
  id : String
  label : String
  kind : DeviceKind
  addedAtUnix : UInt64
  wrap : Option Wrap
  grant : Option Grant
  tpm2 : Option Tpm2Params
  fido2 : Option Fido2Params
  signCountLast : Option UInt32
  kekWrap : Option Wrap
  homeFactor : Option HomeFactor
deriving DecidableEq, Repr

structure EmergencySlot where
  index : UInt8
  wrap : Option Wrap
  burnedAtUnix : Option UInt64
deriving DecidableEq, Repr

structure DeviceRegistryFile where
  formatVersion : UInt16
  escB64 : String
  awayGrantSeconds : UInt32
  permanentAway : Bool
  nkWrap : Wrap
  stateMacB64 : String
  devices : List DeviceRecord
  emergencySlots : List EmergencySlot
deriving DecidableEq, Repr

def DEVICES_FORMAT_VERSION : UInt16 := 1
abbrev EMERGENCY_SLOTS : ℕ := 10
abbrev MAX_LABEL_LEN : ℕ := 64
abbrev MIN_AWAY_GRANT_SECONDS : ℕ := 60
abbrev MAX_AWAY_GRANT_SECONDS : ℕ := 2592000
abbrev MAX_DEVICES : ℕ := 4096
abbrev PASSCODE_SALT_LEN : ℕ := 16
abbrev WRAP_CT_LEN : ℕ := 48

def corrupt (reason : String) : CryptoError := .deviceRegistryCorrupt "devices.json" reason

/-- the digit of a lowercase hex character -/
def hexValue (c : Char) : Option ℕ :=
  if '0' ≤ c ∧ c ≤ '9' then some (c.toNat - '0'.toNat)
  else if 'a' ≤ c ∧ c ≤ 'f' then some (c.toNat - 'a'.toNat + 10)
  else none

def hexPairs : List Char → Option Bytes
  | [] => some []
  | a :: b :: rest => do
    let hi ← hexValue a
    let lo ← hexValue b
    let bytes ← hexPairs rest
    some (UInt8.ofNat (hi * 16 + lo) :: bytes)
  | _ => none

/-- 16 bytes from 32 lowercase hex characters -/
def decodeHexId (id : String) : Option Bytes := if id.toList.length = 32 then hexPairs id.toList else none

/-- the cached raw bytes of `id` -/
def DeviceRecord.idBytes (d : DeviceRecord) : Bytes := (decodeHexId d.id).getD []

/-- the cached decoded commitment -/
def DeviceRegistryFile.esc (reg : DeviceRegistryFile) : Bytes := (Base64.decode reg.escB64).getD []

def homeCount (reg : DeviceRegistryFile) : ℕ := (reg.devices.filter fun d => d.kind = .tpm2).length

/-! ## Keys and associated data -/

variable (P : Primitives)

/-- `HKDF-SHA256` with 32 bytes of output -/
def hkdf32 (ikm salt info : Bytes) : Bytes := P.hmacSha256 (P.hmacSha256 salt ikm) (info ++ [1])

def deriveDeviceKek (secret deviceId : Bytes) : Bytes := hkdf32 P secret (utf8 "y2q/v1/device-kek") deviceId
def deriveEmergencyKek (code : Bytes) (index : UInt8) : Bytes := hkdf32 P code (utf8 "y2q/v1/emergency-kek") [index]
def nkWrapKey (rmk : Bytes) : Bytes := hkdf32 P rmk (utf8 "y2q/v1/nk-wrap-key") []
def kekCacheKey (rmk : Bytes) : Bytes := hkdf32 P rmk (utf8 "y2q/v1/kek-cache-key") []
def deriveStateKey (rmk : Bytes) : Bytes := hkdf32 P rmk (utf8 "y2q/v1/registry-state-key") []

def kindByte : DeviceKind → UInt8
  | .tpm2 => 1
  | .fido2 => 2

def factorByte : Option HomeFactor → UInt8
  | none => 0
  | some (.passcode ..) => 1
  | some (.fido2 _) => 2

def boolByte (b : Bool) : UInt8 := if b then 1 else 0

/-- whether the authenticator asks for a PIN -/
def DeviceRecord.uv (d : DeviceRecord) : Bool := d.fido2.any (·.uvRequired)

/-- the factor byte of a home record, the PIN byte of an away record -/
def DeviceRecord.selector (d : DeviceRecord) : UInt8 :=
  match d.kind with
  | .tpm2 => factorByte d.homeFactor
  | .fido2 => boolByte d.uv

def recordWrapAad (d : DeviceRecord) (esc : Bytes) : Bytes :=
  utf8 "y2q/v1/device-wrap" ++ [0] ++ d.idBytes ++ [kindByte d.kind, d.selector] ++ esc

def grantAad (deviceId : Bytes) (uv : Bool) (notAfterUnix : UInt64) (awayGrantSeconds : UInt32) (esc : Bytes) : Bytes :=
  utf8 "y2q/v1/away-grant" ++ [0] ++ deviceId ++ [boolByte uv] ++ leBytes 8 notAfterUnix.toNat ++
    leBytes 4 awayGrantSeconds.toNat ++ esc

def emergencyWrapAad (index : UInt8) (esc : Bytes) : Bytes := utf8 "y2q/v1/emergency-wrap" ++ [0, index] ++ esc

def nkWrapAad (esc : Bytes) (awayGrantSeconds : UInt32) : Bytes :=
  utf8 "y2q/v1/nk-wrap" ++ [0] ++ esc ++ leBytes 4 awayGrantSeconds.toNat

def kekCacheAad (deviceId esc : Bytes) : Bytes := utf8 "y2q/v1/kek-cache" ++ [0] ++ deviceId ++ esc

def wrapSecret (kek secret aad : Bytes) (nonce : Nonce) : Wrap :=
  ⟨Base64.encode nonce.1, Base64.encode (P.aead.encrypt kek nonce.1 aad secret)⟩

def unwrapSecret (kek : Bytes) (wrap : Wrap) (aad : Bytes) : Except CryptoError Bytes :=
  match Base64.decode wrap.nonceB64, Base64.decode wrap.ctB64 with
  | none, _ => .error (corrupt "wrap nonce base64")
  | some _, none => .error (corrupt "wrap ciphertext base64")
  | some nonce, some ct =>
    if nonce.length ≠ NONCE_LEN then .error (corrupt s!"wrap nonce is {nonce.length} bytes, expected 12")
    else if ct.length ≠ WRAP_CT_LEN then .error (corrupt s!"wrap ciphertext is {ct.length} bytes, expected 48")
    else
      match P.aead.decrypt kek nonce aad ct with
      | none => .error .deviceUnwrapFailed
      | some plain =>
        if plain.length = 32 then .ok plain else .error (corrupt s!"wrap plaintext is {plain.length} bytes, expected 32")

/-- the node key in `nk_wrap` -/
def openNk (reg : DeviceRegistryFile) (rmk : Bytes) : Except CryptoError Bytes :=
  match unwrapSecret P (nkWrapKey P rmk) reg.nkWrap (nkWrapAad reg.esc reg.awayGrantSeconds) with
  | .error .deviceUnwrapFailed =>
    .error (corrupt "nk_wrap does not open under this registry's master key and grant policy")
  | r => r

/-! ## State MAC -/

/-- the third-party hash and password-stretching functions -/
structure Hashes where
  sha256 : Bytes → Bytes
  argon2id : (passcode salt : Bytes) → (mCostKib tCost pCost : ℕ) → Except String Bytes

variable (H : Hashes)

def sha256Wrap (w : Wrap) : Bytes := H.sha256 (utf8 w.nonceB64 ++ [0] ++ utf8 w.ctB64)

/-- `u8::try_from(n).unwrap_or(u8::MAX)` -/
def lenByte (n : ℕ) : UInt8 := UInt8.ofNat (min n 255)

def encodeHomeFactor : HomeFactor → Bytes
  | .passcode saltB64 m t p =>
    [0x81] ++ leBytes 2 (min (utf8 saltB64).length 65535) ++ utf8 saltB64 ++ leBytes 4 m.toNat ++ leBytes 4 t.toNat ++
      leBytes 4 p.toNat
  | .fido2 deviceId => [0x82] ++ (decodeHexId deviceId).getD (List.replicate 16 0)

/-- the part of the MAC input that depends on the kind of a record -/
def kindBytes (d : DeviceRecord) : Bytes :=
  match d.kind with
  | .tpm2 =>
    (match d.tpm2 with
      | none => []
      | some t => [lenByte (utf8 t.pcrBank).length] ++ utf8 t.pcrBank ++ [lenByte t.pcrSlots.length] ++ t.pcrSlots) ++
    (match d.homeFactor with
      | none => []
      | some f => encodeHomeFactor f)
  | .fido2 =>
    [boolByte d.uv] ++
    (match d.kekWrap with
      | none => List.replicate 32 0
      | some w => sha256Wrap H w)

def deviceBytes (d : DeviceRecord) : Bytes :=
  d.idBytes ++ [kindByte d.kind, boolByte d.wrap.isSome, boolByte d.grant.isSome, boolByte d.kekWrap.isSome] ++
    leBytes 8 (d.grant.map (·.notAfterUnix.toNat) |>.getD 0) ++ leBytes 8 (d.grant.map (·.issuedAtUnix.toNat) |>.getD 0) ++
    leBytes 4 (d.signCountLast.map (·.toNat) |>.getD 0) ++ leBytes 8 d.addedAtUnix.toNat ++
    [boolByte d.tpm2.isSome, boolByte d.fido2.isSome] ++ kindBytes H d ++ [lenByte (utf8 d.label).length] ++ utf8 d.label

def slotBytes (s : EmergencySlot) : Bytes :=
  [boolByte s.wrap.isSome] ++ leBytes 8 (s.burnedAtUnix.map (·.toNat) |>.getD 0)

def stateBytes (reg : DeviceRegistryFile) : Bytes :=
  utf8 "y2q/v1/registry-state-bytes" ++ [0] ++ leBytes 2 reg.formatVersion.toNat ++ leBytes 4 reg.awayGrantSeconds.toNat ++
    [boolByte reg.permanentAway] ++ sha256Wrap H reg.nkWrap ++ leBytes 2 (min reg.devices.length 65535) ++
    reg.devices.flatMap (deviceBytes H) ++ [lenByte reg.emergencySlots.length] ++ reg.emergencySlots.flatMap slotBytes

def stateMac (stateKey : Bytes) (reg : DeviceRegistryFile) : Bytes := P.hmacSha256 stateKey (stateBytes H reg)

/-- a text that decodes to 32 bytes -/
def decodes32 (b64 : String) : Bool := (Base64.decode b64).any fun v => v.length = 32

def verifyStateMac (stateKey : Bytes) (reg : DeviceRegistryFile) : Except CryptoError Unit :=
  if ¬ decodes32 reg.stateMacB64 then .error (corrupt "state_mac_b64 must decode to 32 bytes")
  else if Base64.decode reg.stateMacB64 = some (stateMac P H stateKey reg) then .ok ()
  else .error .deviceStateTampered

/-! ## Check -/

/-- a condition on the registry and the error if it fails -/
abbrev Check := Bool × CryptoError

def validLabel (label : String) : Except String Unit :=
  if label = "" then .error "label must not be empty"
  else if MAX_LABEL_LEN < (utf8 label).length then .error "label is longer than 64 bytes"
  else
    match (utf8 label).find? fun b => !decide (0x20 ≤ b ∧ b ≤ 0x7e) with
    | some b => .error s!"label contains byte 0x{toHex [b]}; only 0x20..=0x7e are allowed"
    | none => .ok ()

def slotChecks (slots : List EmergencySlot) : List Check :=
  slots.zipIdx.flatMap fun (s, i) =>
    [(decide (s.index.toNat = i), corrupt s!"emergency slot at position {i} has index {s.index}"),
      (s.wrap.isSome != s.burnedAtUnix.isSome,
        corrupt s!"emergency slot {i} must have exactly one of wrap / burned_at_unix")]

/-- the complaint about a label, if there is one -/
def labelError (label : String) : String :=
  match validLabel label with
  | .error e => e
  | .ok () => ""

/-- the parameter block is the one of the record's kind -/
def DeviceRecord.kindOk (d : DeviceRecord) : Bool :=
  match d.kind with
  | .tpm2 => d.tpm2.isSome && d.fido2.isNone
  | .fido2 => d.fido2.isSome && d.tpm2.isNone

/-- ids, labels and parameter blocks; `before` are the records already passed -/
def recordChecks (before : List DeviceRecord) (d : DeviceRecord) : List Check :=
  [((decodeHexId d.id).isSome, corrupt s!"device id '{d.id}' must be 32 lowercase hex chars"),
    ((validLabel d.label).isOk, corrupt s!"device {d.id}: {labelError d.label}"),
    (!before.any fun e => e.label.toLower = d.label.toLower, corrupt s!"duplicate device label '{d.label}'"),
    (!before.any fun e => e.id = d.id, corrupt s!"duplicate device id {d.id}"),
    (d.kindOk, corrupt s!"device {d.id} parameter block does not match its kind")]

def validatePasscodeParams (saltB64 : String) (m t p : UInt32) : Except CryptoError Unit :=
  if ¬ (Base64.decode saltB64).any fun s => s.length = PASSCODE_SALT_LEN then
    .error (.deviceFactorInvalid "passcode salt must be 16 bytes of standard base64")
  else if ¬ (8 ≤ m.toNat ∧ m.toNat ≤ 1048576) then
    .error (.deviceFactorInvalid s!"passcode memory cost {m} KiB is outside 8..=1048576")
  else if ¬ (1 ≤ t.toNat ∧ t.toNat ≤ 16) then .error (.deviceFactorInvalid s!"passcode time cost {t} is outside 1..=16")
  else if ¬ (1 ≤ p.toNat ∧ p.toNat ≤ 16) then .error (.deviceFactorInvalid s!"passcode parallelism {p} is outside 1..=16")
  else if m.toNat < 8 * p.toNat then
    .error (.deviceFactorInvalid
      s!"passcode memory cost {m} KiB is below the 8 KiB per lane Argon2 minimum for parallelism {p}")
  else .ok ()

def checkHomeFactor (devices : List DeviceRecord) (home : DeviceRecord) : HomeFactor → Except CryptoError Unit
  | .passcode saltB64 m t p => validatePasscodeParams saltB64 m t p
  | .fido2 deviceId =>
    match devices.find? fun r => r.id = deviceId with
    | none => .error (.deviceFactorInvalid s!"home device {home.id} names {deviceId} as its factor, which is not registered")
    | some r =>
      if r.kind = .fido2 then .ok ()
      else .error (.deviceFactorInvalid s!"home device {home.id} names {deviceId} as its factor, which is not an away device")

/-- what the wraps of a record may be, by its kind -/
def wrapChecks (devices : List DeviceRecord) (permanentAway : Bool) (homes : ℕ) (d : DeviceRecord) : List Check :=
  match d.kind with
  | .tpm2 =>
    [(d.wrap.isSome, corrupt s!"home device {d.id} has no wrap"),
      (!(d.grant.isSome || d.signCountLast.isSome || d.kekWrap.isSome),
        corrupt s!"home device {d.id} carries away-only fields")] ++
    match d.homeFactor with
    | none => []
    | some f =>
      match checkHomeFactor devices d f with
      | .ok () => []
      | .error e => [(false, e)]
  | .fido2 =>
    [(d.homeFactor.isNone,
        .deviceFactorInvalid s!"away device {d.id} carries a home factor; only home devices may"),
      (!(d.signCountLast.isNone || d.kekWrap.isNone), corrupt s!"away device {d.id} is missing kek_wrap or sign_count_last"),
      (!(d.wrap.isSome && d.grant.isSome), corrupt s!"away device {d.id} has both a permanent wrap and a grant"),
      (!(d.wrap.isSome && !permanentAway),
        corrupt s!"away device {d.id} holds a permanent wrap in a registry that is not permanent_away"),
      (!(d.grant.isSome && homes == 0), corrupt s!"away device {d.id} holds a grant but no home device is registered")]

/-- `recordChecks` of each record after those before it -/
def recordsChecks : List DeviceRecord → List DeviceRecord → List Check
  | _, [] => []
  | before, d :: rest => recordChecks before d ++ recordsChecks (before ++ [d]) rest

/-- the checks of `check`, in its order; the cached ids are never out of sync here -/
def checks (reg : DeviceRegistryFile) : List Check :=
  [(decodes32 reg.escB64, corrupt "esc_b64 must decode to 32 bytes"),
    (decodes32 reg.stateMacB64, corrupt "state_mac_b64 must decode to 32 bytes"),
    (decide (MIN_AWAY_GRANT_SECONDS ≤ reg.awayGrantSeconds.toNat ∧ reg.awayGrantSeconds.toNat ≤ MAX_AWAY_GRANT_SECONDS),
      .deviceGrantPeriodInvalid reg.awayGrantSeconds.toNat),
    (decide (reg.emergencySlots.length = EMERGENCY_SLOTS),
      corrupt s!"expected 10 emergency slots, found {reg.emergencySlots.length}")] ++
  slotChecks reg.emergencySlots ++
  [(decide (reg.devices.length ≤ MAX_DEVICES), corrupt "too many device records")] ++
  recordsChecks [] reg.devices ++
  reg.devices.flatMap (wrapChecks reg.devices reg.permanentAway (homeCount reg)) ++
  [(reg.permanentAway == (!reg.devices.isEmpty && homeCount reg == 0),
      corrupt "permanent_away does not match the home-device count"),
    (!(reg.permanentAway && reg.devices.any fun d => d.kind = .fido2 && (d.wrap.isNone || d.grant.isSome)),
      corrupt "permanent_away registry has an away device without a permanent wrap")]

def check (reg : DeviceRegistryFile) : Except CryptoError Unit :=
  match (checks reg).find? fun c => !c.1 with
  | some c => .error c.2
  | none => .ok ()

theorem check_ok_iff {reg : DeviceRegistryFile} : check reg = .ok () ↔ ∀ c ∈ checks reg, c.1 = true := by
  unfold check
  cases h : (checks reg).find? fun c => !c.1 with
  | none =>
    simp only [true_iff]
    intro c hc
    simpa using List.find?_eq_none.1 h c hc
  | some c =>
    simp only [reduceCtorEq, false_iff, not_forall]
    refine ⟨c, List.mem_of_find?_eq_some h, ?_⟩
    simpa using List.find?_some h

/-- the check reads neither `nk_wrap` nor the MAC's value -/
theorem check_congr {reg : DeviceRegistryFile} (h : check reg = .ok ()) (wrap : Wrap) {mac : String}
    (hmac : decodes32 mac = true) : check { reg with nkWrap := wrap, stateMacB64 := mac } = .ok () := by
  rw [check_ok_iff] at h ⊢
  intro c hc
  -- the lists differ in the condition on the MAC's text alone
  simp only [checks, List.cons_append, List.nil_append, List.mem_cons] at hc
  rcases hc with rfl | rfl | hc
  · exact h _ List.mem_cons_self
  · exact hmac
  · refine h c ?_
    simp only [checks, List.cons_append, List.nil_append, List.mem_cons]
    exact Or.inr (Or.inr hc)

/-! ## The file -/

/-- `devices.json`: absent, not parsed (with the parser's reason), or a registry -/
abbrev RegistryDisk := Option (Except String DeviceRegistryFile)

/-- refill the caches: only the texts they come from can be wrong -/
def fillDerived (reg : DeviceRegistryFile) : Except CryptoError Unit :=
  if ¬ decodes32 reg.escB64 then .error (corrupt "esc_b64 must decode to 32 bytes")
  else
    match reg.devices.find? fun d => (decodeHexId d.id).isNone with
    | some d => .error (corrupt s!"device id '{d.id}' must be 32 lowercase hex chars")
    | none => .ok ()

/-- a checked registry of this version: what `load` returns -/
def validate (reg : DeviceRegistryFile) : Except CryptoError Unit := do
  fillDerived reg
  check reg

def load : Prog RegistryDisk CryptoError DeviceRegistryFile := do
  let disk ← Prog.get
  match disk with
  | none => Prog.throw (.deviceRegistryMissing "devices.json")
  | some (.error e) => Prog.throw (corrupt s!"parse: {e}")
  | some (.ok reg) =>
    if reg.formatVersion ≠ DEVICES_FORMAT_VERSION then
      Prog.throw (.deviceRegistryVersion "devices.json" reg.formatVersion.toNat DEVICES_FORMAT_VERSION.toNat)
    else do
      Prog.ofExcept (validate reg)
      pure reg

/-- with a fresh MAC -/
def authenticate (stateKey : Bytes) (reg : DeviceRegistryFile) : DeviceRegistryFile :=
  { reg with stateMacB64 := Base64.encode (stateMac P H stateKey reg) }

def persist (stateKey : Bytes) (reg : DeviceRegistryFile) : Prog RegistryDisk CryptoError DeviceRegistryFile := do
  Prog.ofExcept (fillDerived reg)
  Prog.ofExcept (check (authenticate P H stateKey reg))
  Prog.modify fun _ => some (.ok (authenticate P H stateKey reg))
  pure (authenticate P H stateKey reg)

end Y2q.Devices
