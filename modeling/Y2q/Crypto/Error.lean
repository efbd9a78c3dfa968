/-
`CryptoError` (`crypto/mod.rs`): the variants the modelled functions return, with the messages they display. The keystore
directory in front of a displayed path is left out.
-/
import Mathlib.Tactic

namespace Y2q

inductive CryptoError where
  | aead (what : String)
  | kdf (what : String)
  | kemDecode (what : String)
  | envelope (what : String)
  | unsupportedVersion (v : ℕ)
  | authFailed
  | keystoreIo (what : String)
  | keystoreMissing (path : String)
  | keystoreCorrupt (path reason : String)
  | userStore (what : String)
  | nodeKeyMismatch
  | legacyKeystore (path : String)
  | deviceRegistryMissing (path : String)
  | deviceRegistryExists (path : String)
  | deviceRegistryCorrupt (path reason : String)
  | deviceRegistryVersion (path : String) (found expected : ℕ)
  | deviceRegistryLastDevice
  | deviceLastHomeRemovalRefused (label : String)
  | devicePermanentAwayMismatch (kind : String)
  | deviceStateTampered
  | deviceAuthorityInsufficient (operation required attemptedBy : String)
  | deviceUnwrapFailed
  | deviceGrantExpired (label : String) (notAfterUnix attestedNow : ℕ)
  | deviceGrantAbsent (label : String)
  | deviceGrantPeriodInvalid (seconds : ℕ)
  | deviceSignCountRollback (label : String) (asserted last : ℕ)
  | attestedTimeUnavailable (what : String)
  | attestedTimeInconsistent (low high : ℕ)
  | roughtimeNotConfigured
  | deviceSecretLength (label : String) (len : ℕ)
  | deviceNotFound (selector : String)
  | deviceLabelInUse (label : String)
  | deviceLabelInvalid (what : String)
  | deviceFactorInUse (label : String)
  | deviceFactorInvalid (what : String)
  | deviceUnlockUnavailable (reasons : String)
  | deviceBackend (what : String)
  | tpmUnavailable (what : String)
  | tpm (what : String)
  | tpmPcrMismatch
  | emergencyCodeMalformed (what : String)
  | emergencyCodeRejected
  | emergencyCodesExhausted
deriving DecidableEq, Repr

def CryptoError.message : CryptoError → String
  | .aead what => s!"aead failure: {what}"
  | .kdf what => s!"kdf failure: {what}"
  | .kemDecode what => s!"kem decode: {what}"
  | .envelope what => s!"malformed envelope: {what}"
  | .unsupportedVersion v => s!"unsupported envelope version: {v}"
  | .authFailed => "authentication failed"
  | .keystoreIo what => s!"keystore io: {what}"
  | .keystoreMissing path => s!"keystore not found at {path}"
  | .keystoreCorrupt path reason => s!"keystore corrupt at {path}: {reason}"
  | .userStore what => s!"user store: {what}"
  | .nodeKeyMismatch => "node key does not match this keystore (wrong key, or keystore from another deployment)"
  | .legacyKeystore path =>
    s!"keystore at {path} predates the per-bucket key hierarchy; re-initialize the deployment (this build cannot read it)"
  | .deviceRegistryMissing path => s!"device registry not found at {path}"
  | .deviceRegistryExists path =>
    s!"device registry already exists at {path}; the emergency codes are printed once at init and there is no regeneration command — a new set requires a new registry (new RMK), and over an existing dataset only with --adopt-existing-node-key and the raw node key in hand"
  | .deviceRegistryCorrupt path reason => s!"device registry corrupt at {path}: {reason}"
  | .deviceRegistryVersion path found expected =>
    s!"device registry at {path} has format_version {found}, this build understands {expected}"
  | .deviceRegistryLastDevice =>
    "refusing to remove the last registered device: at least one device must remain able to unlock this node; add another device first"
  | .deviceLastHomeRemovalRefused label =>
    s!"refusing to remove the last home device '{label}' while FIDO2 devices remain; add another home device first (this needs a home unlock)"
  | .devicePermanentAwayMismatch kind =>
    s!"--permanent-away must be given exactly when the first device is FIDO2; the first device here is {kind}"
  | .deviceStateTampered =>
    "device registry state does not authenticate: grants, signature counters, burn records, or the grant period were modified outside y2q"
  | .deviceAuthorityInsufficient operation required attemptedBy =>
    s!"operation '{operation}' requires {required}; attempted by {attemptedBy}"
  | .deviceUnwrapFailed =>
    "device wrap did not open: wrong device secret, a tampered registry, or a registry from another deployment"
  | .deviceGrantExpired label notAfterUnix attestedNow =>
    s!"away device '{label}' had access until {notAfterUnix}; attested time is {attestedNow}, so the grant has been erased — unlock on a home device to issue a new one (an emergency code does not issue grants); the authenticator stays registered"
  | .deviceGrantAbsent label => s!"away device '{label}' has no live grant; unlock on a home device to issue one"
  | .deviceGrantPeriodInvalid seconds => s!"away grant period {seconds}s is outside the allowed range 60 .. 2592000"
  | .deviceSignCountRollback label asserted last =>
    s!"away device '{label}' reported signature counter {asserted}, not above the last recorded {last}; replay, clone, or a rolled-back authenticator"
  | .attestedTimeUnavailable what =>
    s!"could not attest the current time from any configured Roughtime server: {what}; an away device cannot unlock without attested time (a home device or an emergency code still works)"
  | .attestedTimeInconsistent low high =>
    s!"configured Roughtime servers disagree: the highest lower bound {low} exceeds the lowest upper bound {high}; at least one server is lying or badly skewed, refusing to pick a winner"
  | .roughtimeNotConfigured =>
    "no Roughtime servers are configured; set [crypto.devices.roughtime] servers (or pass --roughtime-server) — away-device unlock has no host-clock fallback by design"
  | .deviceSecretLength label len => s!"device '{label}' produced a {len}-byte secret; expected exactly 32"
  | .deviceNotFound selector => s!"no registered device with id or label '{selector}'"
  | .deviceLabelInUse label => s!"a device labelled '{label}' is already registered; labels must be unique"
  | .deviceLabelInvalid what => s!"device label invalid: {what}"
  | .deviceFactorInUse label =>
    s!"device '{label}' is the second factor of a home device; change the home device's factor before removing it"
  | .deviceFactorInvalid what => s!"home device factor invalid: {what}"
  | .deviceUnlockUnavailable reasons =>
    s!"no registered device could unlock the node key: {reasons}; set Y2QD_EMERGENCY_KEY to one of the ten codes printed at `y2q admin device init`"
  | .deviceBackend what => s!"device backend: {what}"
  | .tpmUnavailable what => s!"tpm unavailable: {what}"
  | .tpm what => s!"tpm error: {what}"
  | .tpmPcrMismatch =>
    "tpm policy check failed: PCR values changed (kernel, firmware, or Secure Boot update); re-seal with: y2q admin device reseal-tpm <id>"
  | .emergencyCodeMalformed what => s!"emergency code malformed: {what}"
  | .emergencyCodeRejected =>
    "emergency code rejected: no unused emergency slot opens with it (already used, or not from this registry)"
  | .emergencyCodesExhausted =>
    "all 10 emergency codes have been used; emergency access is permanently exhausted for this registry"

end Y2q
