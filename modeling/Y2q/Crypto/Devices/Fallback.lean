/-
Falling through the records of a device registry (`unlock` of `crypto/devices/mod.rs`).

All records are tried in turn on one registry in memory. An attempt at an away record sweeps it, and one that then ends in a
signature-counter rollback neither stores nor re-authenticates what it swept: the stale MAC is taken for tampering by every
later attempt that opens the master key.

Each record meets its own surroundings here: the clock, the TPM and the token may answer every attempt differently.

- `unlockAt_const`: with the same surroundings at every record this is `unlock`.
- `passAway_cases`: what an attempt that fails in a continue-class error leaves in memory.
- `succeeds_iff`: an unlock succeeds exactly if a record is reached that opens alone and that no earlier attempt spoiled.
- `fallback_iff`: exactly when a device that cannot unlock never blocks one that can.
- `rollback_blocks`: a rolled-back token, an expired grant of another one, and a good token that is not let in.
-/
import Mathlib.Tactic
import Mathlib.Data.UInt
import Y2q.Crypto.Devices.Erasure

namespace Y2q.Devices

open CrashLogic NodeKeys

/-! ## Model -/

variable (P : Primitives) (H : Hashes) (W : ℕ → Surroundings)

/-- `try_home_records`, each record in its own surroundings -/
def tryHomesAt (reg : DeviceRegistryFile) : List (DeviceRecord × ℕ) → List String →
    Prog RegistryDisk CryptoError (Except (List String) (DeviceRegistryFile × Unlock × Authority))
  | [], reasons => pure (.error reasons)
  | (d, i) :: rest, reasons =>
    if d.kind ≠ .tpm2 then tryHomesAt reg rest reasons
    else do
      match ← Prog.attempt (unlockWithHome P H (W i) reg d) with
      | .ok (reg', u) => pure (.ok (reg', u, .home d.id d.label))
      | .error e =>
        if isContinueClass e then tryHomesAt reg rest (reasons ++ [s!"{d.label}: {e.message}"]) else Prog.throw e

/-- the away records, each in its own surroundings -/
def tryAwaysAt (reg : DeviceRegistryFile) : List ℕ → List String → Prog RegistryDisk CryptoError UnlockOutcome
  | [], reasons =>
    Prog.throw (.deviceUnlockUnavailable (if reasons = [] then "no devices registered" else "; ".intercalate reasons))
  | i :: rest, reasons =>
    match reg.devices[i]? with
    | none => tryAwaysAt reg rest reasons
    | some d =>
      if d.kind ≠ .fido2 then tryAwaysAt reg rest reasons
      else if d.wrap.isNone ∧ d.grant.isNone then
        tryAwaysAt reg rest (reasons ++ [s!"{d.label}: {(CryptoError.deviceGrantAbsent d.label).message}"])
      else do
        let (reg, r) ← awayAttempt P H (W i) reg i d
        match r with
        | .ok u =>
          pure (finishOutcome P reg u
            (.away d.id d.label (if d.wrap.isSome then none else d.grant.map (·.notAfterUnix))))
        | .error e =>
          if isContinueClass e then tryAwaysAt reg rest (reasons ++ [s!"{d.label}: {e.message}"]) else Prog.throw e

def unlockDevicesAt (reg : DeviceRegistryFile) : Prog RegistryDisk CryptoError UnlockOutcome := do
  match ← tryHomesAt P H W reg reg.devices.zipIdx [] with
  | .ok (reg, u, authority) => pure (finishOutcome P reg u authority)
  | .error reasons => tryAwaysAt P H W reg (List.range reg.devices.length) reasons

/-- `unlock`; `E` are the surroundings of the emergency code -/
def unlockAt (E : Surroundings) : Prog RegistryDisk CryptoError UnlockOutcome := do
  let reg ← load
  let code ← Prog.ofExcept E.emergencyCode
  match ← Prog.attempt (emergencyUnlock P H E reg code) with
  | .ok (some (reg, u, slot)) => pure (finishOutcome P reg u (.emergency slot))
  | .ok none => unlockDevicesAt P H W reg
  | .error .emergencyCodesExhausted => unlockDevicesAt P H W reg
  | .error .emergencyCodeRejected => unlockDevicesAt P H W reg
  | .error e => Prog.throw e

theorem tryHomesAt_const (V : Surroundings) (reg : DeviceRegistryFile) (ds : List DeviceRecord) (n : ℕ) (reasons : List String) :
    tryHomesAt P H (fun _ => V) reg (ds.zipIdx n) reasons = tryHomeRecords P H V reg ds reasons := by
  induction ds generalizing n reasons with
  | nil => rfl
  | cons d ds ih =>
    rw [List.zipIdx_cons, tryHomesAt, tryHomeRecords]
    simp only [ih] <;> rfl

theorem tryAwaysAt_const (V : Surroundings) (reg : DeviceRegistryFile) (is : List ℕ) (reasons : List String) :
    tryAwaysAt P H (fun _ => V) reg is reasons = tryAwayRecords P H V reg is reasons := by
  induction is generalizing reg reasons with
  | nil => rfl
  | cons i is ih =>
    rw [tryAwaysAt, tryAwayRecords]
    simp only [ih] <;> rfl

theorem unlockAt_const (V : Surroundings) : unlockAt P H (fun _ => V) V = unlock P H V := by
  have hdevices : ∀ reg, unlockDevicesAt P H (fun _ => V) reg = unlockDevices P H V reg := by
    intro reg
    unfold unlockDevicesAt unlockDevices
    simp only [tryHomesAt_const, tryAwaysAt_const] <;> rfl
  unfold unlockAt unlock
  simp only [hdevices] <;> rfl

/-! ### One attempt -/

variable (reg : DeviceRegistryFile)

/-- the registry in memory after an attempt at the away record at a position; nothing if the attempt ends the unlock -/
def passAway (r : DeviceRegistryFile) (i : ℕ) : Option DeviceRegistryFile :=
  match r.devices[i]? with
  | none => some r
  | some d =>
    if d.kind ≠ .fido2 ∨ (d.wrap.isNone ∧ d.grant.isNone) then some r
    else
      match (awayAttempt P H (W i) r i d).result none with
      | .ok (r', .error e) => if isContinueClass e then some r' else none
      | _ => none

/-- the registry in memory when the away record at position `n` is tried -/
def passed : ℕ → Option DeviceRegistryFile
  | 0 => some reg
  | n + 1 => (passed n).bind fun r => passAway P H W r n

/-- the master key that the secret of an away record opens, and the counter its token asserts -/
def opensTo (r : DeviceRegistryFile) (i : ℕ) (d : DeviceRecord) : Option (Bytes × UInt32) :=
  match d.fido2 with
  | none => none
  | some params =>
    match (W i).hmacSecret params d.label with
    | .error _ => none
    | .ok (secret, asserted) =>
      if secret.length = 32 then
        match rmkFromAway P r d (deriveDeviceKek P secret d.idBytes) with
        | .ok rmk => some (rmk, asserted)
        | .error _ => none
      else none

/-- the attested time at which an attempt at an away record sweeps -/
def sweepTime (r : DeviceRegistryFile) (i : ℕ) (d : DeviceRecord) : Option UInt64 :=
  if d.wrap.isSome ∨ d.grant.isNone then none
  else
    match opensTo P W r i d, (W i).attestedNow with
    | some _, .ok now => some now
    | _, _ => none

/-- whether none of these sweeps erased the record's grant -/
def DeviceRecord.kept (ts : List UInt64) (d : DeviceRecord) : Bool := !ts.any fun t => d.expired t

/-- the times of the sweeps by the attempts before position `n` -/
def sweeps : ℕ → List UInt64
  | 0 => []
  | n + 1 =>
    match reg.devices[n]? with
    | none => sweeps n
    | some d => if d.kind = .fido2 ∧ d.kept (sweeps n) then (sweepTime P W reg n d).toList ++ sweeps n else sweeps n

/-- the attempt at this position erases a grant in memory and then ends in a signature-counter rollback -/
def straysAt (n : ℕ) : Bool :=
  match reg.devices[n]? with
  | none => false
  | some d =>
    match sweepTime P W reg n d, opensTo P W reg n d with
    | some now, some (_, asserted) =>
      decide (d.kind = .fido2) && d.kept (sweeps P W reg n) && !d.expired now && d.signCountLast.any (asserted ≤ ·) &&
        reg.devices.any fun e => (e.erased (sweeps P W reg n)).expired now
    | _, _ => false

/-! ### What the records do -/

/-- the record alone, in a freshly loaded registry, unlocks -/
def OpensAlone (k : ℕ) : Prop :=
  ∃ d, reg.devices[k]? = some d ∧
    match d.kind with
    | .tpm2 => ∃ x, (unlockWithHome P H (W k) reg d).result (some (.ok reg)) = .ok x
    | .fido2 => ∃ r u, (awayAttempt P H (W k) reg k d).result (some (.ok reg)) = .ok (r, .ok u)

/-- the home records before position `n` fail in continue-class errors -/
def HomesPass (n : ℕ) : Prop :=
  ∀ i < n, ∀ d, reg.devices[i]? = some d → d.kind = .tpm2 →
    ∃ e, (unlockWithHome P H (W i) reg d).result (some (.ok reg)) = .error e ∧ isContinueClass e = true

/-- every record tried before this one fails in a continue-class error; the home records are tried first -/
def Reached (k : ℕ) : Prop :=
  ∀ d, reg.devices[k]? = some d →
    match d.kind with
    | .tpm2 => HomesPass P H W reg k
    | .fido2 => HomesPass P H W reg reg.devices.length ∧ (passed P H W reg k).isSome

/-- no attempt before this record left a stale MAC in memory or erased the record's own grant -/
def Unspoiled (k : ℕ) : Prop :=
  ∀ d, reg.devices[k]? = some d → d.kind = .fido2 → (∀ j < k, straysAt P W reg j = false) ∧ d.kept (sweeps P W reg k) = true

/-- the emergency code is not given, not accepted, or there is none left -/
def EmergencyPasses (E : Surroundings) : Prop :=
  E.emergencyCode = .ok none ∨ ∃ text, E.emergencyCode = .ok (some text) ∧
    (openEmergency P H reg text = .error .emergencyCodesExhausted ∨ openEmergency P H reg text = .error .emergencyCodeRejected)

def Succeeds (E : Surroundings) : Prop := ∃ out, (unlockAt P H W E).result (some (.ok reg)) = .ok out

/-! ## Attempts do not read the disk -/

variable {P H W reg}

theorem blind_persist (stateKey : Bytes) (r : DeviceRegistryFile) : Prog.Blind (persist P H stateKey r) :=
  (Prog.blind_ofExcept _).bind fun _ => (Prog.blind_ofExcept _).bind fun _ => (Prog.blind_modify _).bind fun _ =>
    Prog.blind_pure _

theorem blind_unlockWithHome (V : Surroundings) (r : DeviceRegistryFile) (d : DeviceRecord) :
    Prog.Blind (unlockWithHome P H V r d) := by
  refine (Prog.blind_ofExcept _).bind fun x => ?_
  cases V.attestedNow with
  | error e => exact Prog.blind_pure _
  | ok now =>
    simp only
    split_ifs
    · exact (blind_persist _ _).bind fun _ => Prog.blind_pure _
    · exact Prog.blind_pure _

theorem blind_sweepForAway (V : Surroundings) (stateKey : Bytes) (r : DeviceRegistryFile) (d : DeviceRecord) :
    Prog.Blind (sweepForAway P H V stateKey r d) := by
  unfold sweepForAway
  split
  · cases V.attestedNow with
    | error e => exact Prog.blind_pure _
    | ok now =>
      simp only
      split_ifs
      · exact (blind_persist _ _).bind fun _ => Prog.blind_pure _
      · exact Prog.blind_pure _
  · exact Prog.blind_pure _

theorem blind_awayAttempt (V : Surroundings) (r : DeviceRegistryFile) (i : ℕ) (d : DeviceRecord) :
    Prog.Blind (awayAttempt P H V r i d) := by
  unfold awayAttempt
  split
  · exact Prog.blind_pure _
  · split
    · exact Prog.blind_pure _
    · unfold unlockWithAway
      split
      · exact Prog.blind_pure _
      · refine (blind_sweepForAway V _ r d).bind fun x => ?_
        obtain ⟨r', erased⟩ := x
        cases erased with
        | error e => exact Prog.blind_pure _
        | ok n =>
          simp only
          split
          · exact Prog.blind_pure _
          · exact (blind_persist _ _).bind fun _ => Prog.blind_pure _

/-! ## One attempt -/

/-- the end of an attempt at an away record: the counter is accepted and stored -/
def countAway (P : Primitives) (H : Hashes) (r : DeviceRegistryFile) (i : ℕ) (d : DeviceRecord) (rmk : Bytes) (asserted : UInt32)
    (erased : ℕ) : Prog RegistryDisk CryptoError (DeviceRegistryFile × Except CryptoError Unlock) :=
  match acceptSignCount P r d rmk asserted with
  | .error e => pure (r, .error e)
  | .ok nk => do
    let counted := { r with devices := r.devices.modify i fun d => { d with signCountLast := some asserted } }
    let r ← persist P H (deriveStateKey P rmk) counted
    pure (r, .ok ⟨nk, rmk, 0, erased⟩)

/-- what is left of an attempt once the secret has opened the master key and the MAC has been verified -/
def openedAway (P : Primitives) (H : Hashes) (V : Surroundings) (r : DeviceRegistryFile) (i : ℕ) (d : DeviceRecord)
    (rmk : Bytes) (asserted : UInt32) : Prog RegistryDisk CryptoError (DeviceRegistryFile × Except CryptoError Unlock) := do
  let (r, erased) ← sweepForAway P H V (deriveStateKey P rmk) r d
  match erased with
  | .error e => pure (r, .error e)
  | .ok erased => countAway P H r i d rmk asserted erased

variable {r r' : DeviceRegistryFile} {i : ℕ} {d : DeviceRecord} {rmk : Bytes} {asserted : UInt32}

/-- an away record that opens nothing leaves the registry as it is -/
theorem awayAttempt_closed (h : opensTo P W r i d = none) :
    ∃ e, awayAttempt P H (W i) r i d = pure (r, .error e) := by
  unfold opensTo at h
  unfold awayAttempt
  cases hp : d.fido2 with
  | none => exact ⟨_, rfl⟩
  | some params =>
    cases hs : (W i).hmacSecret params d.label with
    | error e =>
      simp only [hs]
      exact ⟨e, rfl⟩
    | ok x =>
      obtain ⟨secret, asserted⟩ := x
      simp only [hp, hs] at h ⊢
      have hopen : ∃ e, openAway P H r d secret = .error e := by
        unfold openAway secret32
        split_ifs at h ⊢ with hlen
        · cases hr : rmkFromAway P r d (deriveDeviceKek P secret d.idBytes) with
          | error e => exact ⟨e, rfl⟩
          | ok rmk => simp [hr] at h
        · exact ⟨_, rfl⟩
      obtain ⟨e, he⟩ := hopen
      refine ⟨e, ?_⟩
      unfold unlockWithAway
      rw [he]

/-- one that opens the master key goes by the MAC first -/
theorem awayAttempt_opened (h : opensTo P W r i d = some (rmk, asserted)) :
    awayAttempt P H (W i) r i d = match verifyStateMac P H (deriveStateKey P rmk) r with
      | .error e => pure (r, .error e)
      | .ok () => openedAway P H (W i) r i d rmk asserted := by
  unfold opensTo at h
  unfold awayAttempt
  cases hp : d.fido2 with
  | none => simp [hp] at h
  | some params =>
    cases hs : (W i).hmacSecret params d.label with
    | error e => simp [hp, hs] at h
    | ok x =>
      obtain ⟨secret, asserted'⟩ := x
      simp only [hp, hs] at h ⊢
      split_ifs at h with hlen
      cases hr : rmkFromAway P r d (deriveDeviceKek P secret d.idBytes) with
      | error e => simp [hr] at h
      | ok rmk' =>
        simp only [hr, Option.some.injEq, Prod.mk.injEq] at h
        obtain ⟨rfl, rfl⟩ := h
        have hopen : openAway P H r d secret = (verifyStateMac P H (deriveStateKey P rmk') r).map fun _ => rmk' := by
          unfold openAway secret32
          rw [if_pos hlen, hr]
          simp only [bind, Except.bind]
          cases verifyStateMac P H (deriveStateKey P rmk') r <;> rfl
        unfold unlockWithAway
        rw [hopen]
        cases verifyStateMac P H (deriveStateKey P rmk') r <;> rfl

/-- an away record that opens the master key has a permanent wrap or a grant -/
theorem grant_of_opensTo (h : opensTo P W r i d = some (rmk, asserted)) (hwrap : d.wrap = none) : ∃ g, d.grant = some g := by
  unfold opensTo rmkFromAway at h
  rw [hwrap] at h
  cases hg : d.grant with
  | some g => exact ⟨g, rfl⟩
  | none =>
    rw [hg] at h
    split at h
    · cases h
    · split at h
      · cases h
      · split_ifs at h

theorem unwrapSecret_error {kek aad : Bytes} {w : Wrap} {e : CryptoError} (h : unwrapSecret P kek w aad = .error e) :
    e = .deviceUnwrapFailed ∨ ∃ reason, e = corrupt reason := by
  unfold unwrapSecret at h
  split at h
  · cases h; exact Or.inr ⟨_, rfl⟩
  · cases h; exact Or.inr ⟨_, rfl⟩
  · split_ifs at h
    · cases h; exact Or.inr ⟨_, rfl⟩
    · cases h; exact Or.inr ⟨_, rfl⟩
    · split at h
      · cases h; exact Or.inl rfl
      · split_ifs at h
        cases h; exact Or.inr ⟨_, rfl⟩

theorem openNk_fatal {e : CryptoError} (h : openNk P r rmk = .error e) : isContinueClass e = false := by
  have hcorrupt : ∀ reason, isContinueClass (corrupt reason) = false := fun _ => rfl
  unfold openNk at h
  split at h
  · cases h
    exact hcorrupt _
  · next hne =>
    rcases unwrapSecret_error h with rfl | ⟨reason, rfl⟩
    · exact absurd h hne
    · exact hcorrupt reason

theorem acceptSignCount_pass {e : CryptoError} (h : acceptSignCount P r d rmk asserted = .error e)
    (he : isContinueClass e = true) : d.signCountLast.any (asserted ≤ ·) = true := by
  unfold acceptSignCount at h
  split at h
  · cases h
    cases he
  · next last hlast =>
    split_ifs at h with hle
    · rw [hlast]
      exact decide_eq_true hle
    · rw [openNk_fatal h] at he
      cases he

theorem openNk_sweep (now : UInt64) : openNk P (sweepGrants r now).1 rmk = openNk P r rmk := rfl

theorem acceptSignCount_ok {nk : Bytes} : acceptSignCount P r d rmk asserted = .ok nk ↔
    ∃ last, d.signCountLast = some last ∧ last < asserted ∧ openNk P r rmk = .ok nk := by
  unfold acceptSignCount
  cases d.signCountLast with
  | none => simp
  | some last =>
    simp only [Option.some.injEq, exists_eq_left']
    split_ifs with hle
    · simp [UInt32.not_lt.2 hle]
    · simp [UInt32.not_le.1 hle]

/-- the grant of the record is used in its time, or it needs none -/
def InTime (V : Surroundings) (d : DeviceRecord) : Prop := d.wrap.isSome ∨ ∃ now, V.attestedNow = .ok now ∧ d.expired now = false

theorem Valid.counted (h : Valid r) (hd : r.devices[i]? = some d) (hcount : d.signCountLast.isSome = true) :
    Valid { r with devices := r.devices.modify i fun d => { d with signCountLast := some asserted } } := by
  refine h.lighter ?_
  rw [List.forall₂_iff_get]
  refine ⟨by simp, fun j hj hj' => ?_⟩
  simp only [List.get_eq_getElem, List.getElem_modify]
  split_ifs with hij
  · subst hij
    rw [List.getElem?_eq_getElem hj, Option.some.injEq] at hd
    refine ⟨⟨rfl, rfl, rfl, rfl, rfl⟩, rfl, rfl, rfl, Or.inl rfl, ?_⟩
    rw [hd, hcount]
    rfl
  · exact Lighter.refl _

theorem Valid.swept (h : Valid r) (now : UInt64) : Valid (sweepGrants r now).1 := h.lighter (forall₂_lighter_sweepGrants r now)

theorem sweepTime_of_opens {now : UInt64} (h : opensTo P W r i d = some (rmk, asserted)) (hwrap : d.wrap = none)
    (hnow : (W i).attestedNow = .ok now) : sweepTime P W r i d = some now := by
  obtain ⟨g, hg⟩ := grant_of_opensTo h hwrap
  unfold sweepTime
  rw [if_neg (by simp [hwrap, hg]), h, hnow]

theorem of_sweepTime {now : UInt64} (h : sweepTime P W r i d = some now) :
    d.wrap = none ∧ (W i).attestedNow = .ok now ∧ ∃ rmk asserted, opensTo P W r i d = some (rmk, asserted) := by
  unfold sweepTime at h
  split_ifs at h with hwrap
  rw [not_or] at hwrap
  cases ho : opensTo P W r i d with
  | none => simp [ho] at h
  | some x =>
    cases hn : (W i).attestedNow with
    | error e => simp [ho, hn] at h
    | ok t =>
      simp only [ho, hn, Option.some.injEq] at h
      subst h
      exact ⟨by simpa using hwrap.1, rfl, x.1, x.2, rfl⟩

theorem countAway_error {e : CryptoError} (h : acceptSignCount P r d rmk asserted = .error e) (n : ℕ) :
    countAway P H r i d rmk asserted n = pure (r, .error e) := by
  unfold countAway
  rw [h]

theorem countAway_ok {nk : Bytes} {d' : DeviceRecord} (hvalid : Valid r) (hd : r.devices[i]? = some d')
    (hcount : d'.signCountLast = d.signCountLast) (h : acceptSignCount P r d rmk asserted = .ok nk) (n : ℕ)
    (disk : RegistryDisk) : ∃ r' u, (countAway P H r i d rmk asserted n).result disk = .ok (r', .ok u) := by
  obtain ⟨last, hlast, -, -⟩ := acceptSignCount_ok.1 h
  have hcounted : Valid { r with devices := r.devices.modify i fun d => { d with signCountLast := some asserted } } :=
    hvalid.counted hd (by rw [hcount, hlast]; rfl)
  obtain ⟨r', hr'⟩ : ∃ r', (persist P H (deriveStateKey P rmk) _).result disk = .ok r' :=
    ⟨_, persist_result hcounted (deriveStateKey P rmk) disk⟩
  refine ⟨r', ⟨nk, rmk, 0, n⟩, ?_⟩
  unfold countAway
  rw [h]
  exact Prog.result_bind_ok hr'

theorem countAway_ok_iff {d' : DeviceRecord} (hvalid : Valid r) (hd : r.devices[i]? = some d')
    (hcount : d'.signCountLast = d.signCountLast) (n : ℕ) (disk : RegistryDisk) :
    (∃ r' u, (countAway P H r i d rmk asserted n).result disk = .ok (r', .ok u)) ↔
      ∃ nk, acceptSignCount P r d rmk asserted = .ok nk := by
  constructor
  · rintro ⟨r', u, h⟩
    cases ha : acceptSignCount P r d rmk asserted with
    | ok nk => exact ⟨nk, rfl⟩
    | error e =>
      rw [countAway_error ha] at h
      cases h
  · rintro ⟨nk, hnk⟩
    exact countAway_ok hvalid hd hcount hnk n disk

theorem devices_sweep (now : UInt64) (hd : r.devices[i]? = some d) :
    ∃ d', (sweepGrants r now).1.devices[i]? = some d' ∧ d'.signCountLast = d.signCountLast := by
  refine ⟨if d.expired now then { d with grant := none } else d, by simp [sweepGrants, hd], ?_⟩
  split <;> rfl

/-- a permanent wrap needs no time -/
theorem openedAway_permanent {V : Surroundings} (hwrap : d.wrap.isSome = true) :
    openedAway P H V r i d rmk asserted = countAway P H r i d rmk asserted 0 := by
  obtain ⟨w, hw⟩ := Option.isSome_iff_exists.1 hwrap
  have hsweep : sweepForAway P H V (deriveStateKey P rmk) r d = pure (r, .ok 0) := by
    unfold sweepForAway
    rw [hw]
  unfold openedAway
  rw [hsweep]
  rfl

theorem openedAway_timeless {V : Surroundings} {e : CryptoError} {g : Grant} (hwrap : d.wrap = none) (hg : d.grant = some g)
    (hnow : V.attestedNow = .error e) : openedAway P H V r i d rmk asserted = pure (r, .error e) := by
  have hsweep : sweepForAway P H V (deriveStateKey P rmk) r d = pure (r, .error e) := by
    unfold sweepForAway
    rw [hwrap, hg, hnow]
  unfold openedAway
  rw [hsweep]
  rfl

theorem openedAway_inTime {V : Surroundings} {now : UInt64} {g : Grant} (hwrap : d.wrap = none) (hg : d.grant = some g)
    (hnow : V.attestedNow = .ok now) (hexp : d.expired now = false) :
    openedAway P H V r i d rmk asserted =
      countAway P H (sweepGrants r now).1 i d rmk asserted (sweepGrants r now).2 := by
  have htime : ¬g.notAfterUnix < now := by simpa [DeviceRecord.expired, hg] using hexp
  have hsweep : sweepForAway P H V (deriveStateKey P rmk) r d = pure ((sweepGrants r now).1, .ok (sweepGrants r now).2) := by
    unfold sweepForAway
    simp only [hwrap, hg, hnow, if_neg htime]
  unfold openedAway
  rw [hsweep]
  rfl

/-- an expired grant: the sweep is stored, with a fresh MAC -/
theorem openedAway_late {V : Surroundings} {now : UInt64} {g : Grant} (hvalid : Valid r) (hwrap : d.wrap = none)
    (hg : d.grant = some g) (hnow : V.attestedNow = .ok now) (hexp : d.expired now = true) (disk : RegistryDisk) : ∃ e,
    (openedAway P H V r i d rmk asserted).result disk =
      .ok (authenticate P H (deriveStateKey P rmk) (sweepGrants r now).1, .error e) := by
  have hlate : g.notAfterUnix < now := by simpa [DeviceRecord.expired, hg] using hexp
  have hsweep : (sweepForAway P H V (deriveStateKey P rmk) r d).result disk =
      .ok (authenticate P H (deriveStateKey P rmk) (sweepGrants r now).1,
        .error (.deviceGrantExpired d.label g.notAfterUnix.toNat now.toNat)) := by
    unfold sweepForAway
    simp only [hwrap, hg, hnow, if_pos hlate]
    exact Prog.result_bind_ok (persist_result (hvalid.swept now) (deriveStateKey P rmk) disk)
  refine ⟨.deviceGrantExpired d.label g.notAfterUnix.toNat now.toNat, ?_⟩
  exact Prog.result_bind_ok hsweep

/-- **When an away record opens**: its secret opens the master key, the MAC verifies under it, the grant is in its time, the
counter has moved and the seal opens. -/
theorem awayAttempt_ok_iff (hvalid : Valid r) (hd : r.devices[i]? = some d) (disk : RegistryDisk) :
    (∃ r' u, (awayAttempt P H (W i) r i d).result disk = .ok (r', .ok u)) ↔
      ∃ rmk asserted, opensTo P W r i d = some (rmk, asserted) ∧ verifyStateMac P H (deriveStateKey P rmk) r = .ok () ∧
        InTime (W i) d ∧ ∃ nk, acceptSignCount P r d rmk asserted = .ok nk := by
  cases ho : opensTo P W r i d with
  | none =>
    obtain ⟨e, he⟩ := awayAttempt_closed (P := P) (H := H) (W := W) ho
    simp [he]
  | some x =>
    obtain ⟨rmk, asserted⟩ := x
    simp only [Option.some.injEq, Prod.mk.injEq, exists_and_left, exists_eq_left', awayAttempt_opened ho, and_assoc]
    cases hmac : verifyStateMac P H (deriveStateKey P rmk) r with
    | error e => simp
    | ok x =>
      simp only [true_and]
      by_cases hwrap : d.wrap.isSome = true
      · rw [openedAway_permanent hwrap, countAway_ok_iff hvalid hd rfl]
        exact ⟨fun h => ⟨Or.inl hwrap, h⟩, fun h => h.2⟩
      · rw [Option.not_isSome_iff_eq_none] at hwrap
        obtain ⟨g, hg⟩ := grant_of_opensTo ho hwrap
        unfold InTime
        cases hnow : (W i).attestedNow with
        | error e => simp [openedAway_timeless hwrap hg hnow, hwrap]
        | ok now =>
          cases hexp : d.expired now with
          | true =>
            obtain ⟨e, he⟩ : ∃ e, (openedAway P H (W i) r i d rmk asserted).result disk =
                .ok (authenticate P H (deriveStateKey P rmk) (sweepGrants r now).1, .error e) :=
              openedAway_late hvalid hwrap hg hnow hexp disk
            simp [he, hwrap, hexp]
          | false =>
            obtain ⟨d', hd', hcount⟩ := devices_sweep now hd
            rw [openedAway_inTime hwrap hg hnow hexp, countAway_ok_iff (hvalid.swept now) hd' hcount]
            simp [hwrap, hexp, acceptSignCount, openNk_sweep]

theorem verify_fatal {stateKey : Bytes} {e : CryptoError} (h : verifyStateMac P H stateKey r = .error e) :
    isContinueClass e = false := by
  unfold verifyStateMac at h
  split_ifs at h <;> cases h <;> rfl

theorem passed_succ {n : ℕ} (h : passed P H W reg n = some r) : passed P H W reg (n + 1) = passAway P H W r n := by
  rw [passed, h]
  rfl

theorem passAway_skip (hd : r.devices[i]? = some d) (hskip : d.kind ≠ .fido2 ∨ (d.wrap.isNone ∧ d.grant.isNone)) :
    passAway P H W r i = some r := by
  unfold passAway
  rw [hd]
  exact if_pos hskip

theorem passAway_pure {e : CryptoError} (hd : r.devices[i]? = some d) (hkind : d.kind = .fido2) (hgrant : d.grant.isNone = false)
    (hattempt : awayAttempt P H (W i) r i d = pure (r', .error e)) (he : isContinueClass e = true) : passAway P H W r i = some r' := by
  unfold passAway
  rw [hd]
  simp only [hkind, hgrant, hattempt, ne_eq, not_true_eq_false, Bool.false_eq_true, and_false, or_self, if_false, Prog.result_pure, he,
    if_true]

theorem passAway_of_result {e : CryptoError} (hd : r.devices[i]? = some d) (hkind : d.kind = .fido2)
    (hskip : ¬(d.wrap.isNone ∧ d.grant.isNone)) {r₀ : DeviceRegistryFile}
    (hresult : (awayAttempt P H (W i) r i d).result none = .ok (r₀, .error e)) (h : passAway P H W r i = some r') :
    isContinueClass e = true ∧ r' = r₀ := by
  unfold passAway at h
  rw [hd] at h
  simp only [hkind, ne_eq, not_true_eq_false, false_or, if_neg hskip, hresult] at h
  split_ifs at h with he
  cases h
  exact ⟨he, rfl⟩

/-- past the sweep only a rolled-back counter lets the unlock go on -/
theorem passAway_counted {r₀ : DeviceRegistryFile} {d' : DeviceRecord} {n : ℕ} (hd : r.devices[i]? = some d)
    (hkind : d.kind = .fido2) (hskip : ¬(d.wrap.isNone ∧ d.grant.isNone)) (hvalid : Valid r₀) (hd' : r₀.devices[i]? = some d')
    (hcount : d'.signCountLast = d.signCountLast)
    (hattempt : awayAttempt P H (W i) r i d = countAway P H r₀ i d rmk asserted n) (h : passAway P H W r i = some r') :
    d.signCountLast.any (asserted ≤ ·) = true ∧ r' = r₀ := by
  cases ha : acceptSignCount P r₀ d rmk asserted with
  | error e =>
    rw [countAway_error ha] at hattempt
    obtain ⟨he, hr⟩ := passAway_of_result hd hkind hskip (by rw [hattempt]; rfl) h
    exact ⟨acceptSignCount_pass ha he, hr⟩
  | ok nk =>
    obtain ⟨r'', u, hok⟩ := countAway_ok (H := H) hvalid hd' hcount ha n none
    rw [← hattempt] at hok
    unfold passAway at h
    rw [hd] at h
    simp only [hkind, ne_eq, not_true_eq_false, false_or, if_neg hskip, hok] at h
    cases h

theorem sweepTime_of_permanent (h : d.wrap.isSome = true) : sweepTime P W r i d = none := if_pos (Or.inl h)

theorem sweepTime_of_closed (h : opensTo P W r i d = none) : sweepTime P W r i d = none := by
  cases hs : sweepTime P W r i d with
  | none => rfl
  | some now =>
    obtain ⟨-, -, rmk, asserted, ho⟩ := of_sweepTime hs
    cases h.symm.trans ho

/-- **What a failed attempt leaves in memory.** Nothing changes unless it gets as far as the sweep. An expired grant has the
sweep stored and authenticated; a rolled-back counter has it neither stored nor authenticated. -/
theorem passAway_cases (hvalid : Valid r) (hd : r.devices[i]? = some d) (hkind : d.kind = .fido2)
    (h : passAway P H W r i = some r') :
    (sweepTime P W r i d = none ∧ r' = r) ∨
      ∃ now rmk asserted, sweepTime P W r i d = some now ∧ opensTo P W r i d = some (rmk, asserted) ∧
        verifyStateMac P H (deriveStateKey P rmk) r = .ok () ∧
        ((d.expired now = true ∧ r' = authenticate P H (deriveStateKey P rmk) (sweepGrants r now).1) ∨
          (d.expired now = false ∧ d.signCountLast.any (asserted ≤ ·) = true ∧ r' = (sweepGrants r now).1)) := by
  by_cases hskip : d.wrap.isNone ∧ d.grant.isNone
  · left
    refine ⟨if_pos (Or.inr hskip.2), ?_⟩
    unfold passAway at h
    rw [hd] at h
    simp only [hkind, ne_eq, not_true_eq_false, false_or, if_pos hskip, Option.some.injEq] at h
    exact h.symm
  cases ho : opensTo P W r i d with
  | none =>
    obtain ⟨e, he⟩ := awayAttempt_closed (P := P) (H := H) (W := W) ho
    exact Or.inl ⟨sweepTime_of_closed ho, (passAway_of_result hd hkind hskip (by rw [he]; rfl) h).2⟩
  | some x =>
    obtain ⟨rmk, asserted⟩ := x
    have hattempt := awayAttempt_opened (P := P) (H := H) (W := W) ho
    cases hmac : verifyStateMac P H (deriveStateKey P rmk) r with
    | error e =>
      rw [hmac] at hattempt
      have hcont := (passAway_of_result hd hkind hskip (by rw [hattempt]; rfl) h).1
      rw [verify_fatal hmac] at hcont
      cases hcont
    | ok x =>
      rw [hmac] at hattempt
      by_cases hwrap : d.wrap.isSome = true
      · rw [openedAway_permanent hwrap] at hattempt
        exact Or.inl ⟨sweepTime_of_permanent hwrap, (passAway_counted hd hkind hskip hvalid hd rfl hattempt h).2⟩
      · rw [Option.not_isSome_iff_eq_none] at hwrap
        obtain ⟨g, hg⟩ := grant_of_opensTo ho hwrap
        cases hnow : (W i).attestedNow with
        | error e =>
          rw [openedAway_timeless hwrap hg hnow] at hattempt
          refine Or.inl ⟨?_, (passAway_of_result hd hkind hskip (by rw [hattempt]; rfl) h).2⟩
          unfold sweepTime
          rw [if_neg (by simp [hwrap, hg]), ho, hnow]
        | ok now =>
          refine Or.inr ⟨now, rmk, asserted, sweepTime_of_opens ho hwrap hnow, rfl, hmac, ?_⟩
          cases hexp : d.expired now with
          | true =>
            obtain ⟨e, he⟩ : ∃ e, (openedAway P H (W i) r i d rmk asserted).result none =
                .ok (authenticate P H (deriveStateKey P rmk) (sweepGrants r now).1, .error e) :=
              openedAway_late hvalid hwrap hg hnow hexp none
            exact Or.inl ⟨rfl, (passAway_of_result hd hkind hskip (by rw [hattempt]; exact he) h).2⟩
          | false =>
            rw [openedAway_inTime hwrap hg hnow hexp] at hattempt
            obtain ⟨d', hd', hcount⟩ := devices_sweep now hd
            exact Or.inr ⟨rfl, passAway_counted hd hkind hskip (hvalid.swept now) hd' hcount hattempt h⟩

/-! ## Memory along the attempts -/

theorem kept_iff {ts : List UInt64} : d.kept ts = true ↔ (ts.any fun t => d.expired t) = false := by
  simp [DeviceRecord.kept]

theorem erased_of_kept' {ts : List UInt64} (h : d.kept ts = true) : d.erased ts = d := erased_of_kept (kept_iff.1 h)

theorem grant_of_not_kept {ts : List UInt64} (h : d.kept ts ≠ true) : (d.erased ts).grant = none := by
  rw [erased_of_expired (by simpa [DeviceRecord.kept] using h)]

theorem opensTo_of_erased {ts : List UInt64} {mac : String} {x : Bytes × UInt32}
    (h : opensTo P W (reg.erasedBy ts mac) i (d.erased ts) = some x) : opensTo P W reg i d = some x := by
  by_cases hk : d.kept ts = true
  · rw [erased_of_kept' hk] at h
    exact h
  · obtain ⟨rmk, asserted⟩ := x
    have hgrant := grant_of_not_kept hk
    cases hw : d.wrap with
    | none =>
      obtain ⟨g, hg⟩ := grant_of_opensTo h (by rw [erased_wrap, hw])
      rw [hgrant] at hg
      cases hg
    | some w =>
      rw [erased_of_expired (by simpa [DeviceRecord.kept] using hk)] at h
      simp only [opensTo, rmkFromAway, rmkFromPermanent, hw] at h ⊢
      exact h

theorem sweepTime_erased {ts : List UInt64} {mac : String} :
    sweepTime P W (reg.erasedBy ts mac) i (d.erased ts) = if d.kept ts = true then sweepTime P W reg i d else none := by
  split_ifs with hk
  · rw [erased_of_kept' hk]
    rfl
  · exact if_pos (Or.inr (by rw [grant_of_not_kept hk]; rfl))

variable (P H W reg) in
/-- HMAC tells the swept forms of the registry apart, under the keys that its own devices open -/
def MacsApart (rmk : Bytes) : Prop :=
  ∀ i d rmk' asserted, reg.devices[i]? = some d → opensTo P W reg i d = some (rmk', asserted) → ∀ ts ts',
    stateMac P H (deriveStateKey P rmk') (reg.erasedBy ts "") = stateMac P H (deriveStateKey P rmk) (reg.erasedBy ts' "") →
      deriveStateKey P rmk' = deriveStateKey P rmk ∧
        stateBytes H (reg.erasedBy ts "") = stateBytes H (reg.erasedBy ts' "")

variable {rmk₀ : Bytes} {ts : List UInt64} {n : ℕ}

variable (P H reg) in
/-- swept at these times and authenticated -/
def Fresh (rmk₀ : Bytes) (ts : List UInt64) (r : DeviceRegistryFile) : Prop :=
  ∃ mac, r = reg.erasedBy ts mac ∧ Base64.decode mac = some (stateMac P H (deriveStateKey P rmk₀) r)

variable (P H reg) in
/-- swept, but with the MAC of another form of the registry -/
def Stale (rmk₀ : Bytes) (r : DeviceRegistryFile) : Prop :=
  ∃ ts ts' mac, r = reg.erasedBy ts mac ∧
    Base64.decode mac = some (stateMac P H (deriveStateKey P rmk₀) (reg.erasedBy ts' "")) ∧
    stateBytes H (reg.erasedBy ts "") ≠ stateBytes H (reg.erasedBy ts' "")

theorem devices_erasedBy {mac : String} (n : ℕ) :
    (reg.erasedBy ts mac).devices[n]? = (reg.devices[n]?).map fun d => d.erased ts := by
  simp [DeviceRegistryFile.erasedBy]

theorem Valid.erasedBy (h : Valid reg) {mac : String} (hmac : decodes32 mac = true) : Valid (reg.erasedBy ts mac) :=
  ⟨fillDerived_lighter (forall₂_lighter_erased reg.devices) h.filled, check_erasedBy h.checked hmac⟩

theorem decodes32_of_mac {mac : String} {stateKey : Bytes} (h : Base64.decode mac = some (stateMac P H stateKey r)) :
    decodes32 mac = true := by
  simp [decodes32, h, stateMac, P.length_hmac]

theorem Fresh.valid (hreg : Valid reg) (h : Fresh P H reg rmk₀ ts r) : Valid r := by
  obtain ⟨mac, rfl, hmac⟩ := h
  exact hreg.erasedBy (decodes32_of_mac hmac)

theorem Stale.valid (hreg : Valid reg) (h : Stale P H reg rmk₀ r) : Valid r := by
  obtain ⟨ts, ts', mac, rfl, hmac, -⟩ := h
  exact hreg.erasedBy (decodes32_of_mac hmac)

/-- nothing that opens the master key gets past a stale MAC -/
theorem Stale.refuses (hmacs : MacsApart P H W reg rmk₀) (h : Stale P H reg rmk₀ r) (hd : r.devices[i]? = some d)
    (ho : opensTo P W r i d = some (rmk, asserted)) : verifyStateMac P H (deriveStateKey P rmk) r ≠ .ok () := by
  obtain ⟨ts, ts', mac, rfl, hmac, hne⟩ := h
  rw [devices_erasedBy, Option.map_eq_some_iff] at hd
  obtain ⟨d₀, hd₀, rfl⟩ := hd
  intro hok
  rw [verify_ok_iff] at hok
  have hsame : stateMac P H (deriveStateKey P rmk) (reg.erasedBy ts "") =
      stateMac P H (deriveStateKey P rmk₀) (reg.erasedBy ts' "") := Option.some.inj (hok.symm.trans hmac)
  exact hne (hmacs i d₀ rmk asserted hd₀ (opensTo_of_erased ho) ts ts' hsame).2

/-- **A stale MAC stays.** No later attempt unlocks, and none mends it. -/
theorem Stale.pass (hmacs : MacsApart P H W reg rmk₀) (hreg : Valid reg) (h : Stale P H reg rmk₀ r)
    (hpass : passAway P H W r i = some r') : Stale P H reg rmk₀ r' := by
  cases hd : r.devices[i]? with
  | none =>
    simp only [passAway, hd, Option.some.injEq] at hpass
    rwa [← hpass]
  | some d =>
    by_cases hkind : d.kind = .fido2
    · rcases passAway_cases (h.valid hreg) hd hkind hpass with ⟨-, rfl⟩ | ⟨now, rmk, asserted, -, ho, hok, -⟩
      · exact h
      · exact absurd hok (h.refuses hmacs hd ho)
    · simp only [passAway, hd, ne_eq, hkind, not_false_eq_true, true_or, if_true, Option.some.injEq] at hpass
      rwa [← hpass]

theorem Fresh.key (hmacs : MacsApart P H W reg rmk₀) (h : Fresh P H reg rmk₀ ts r) (hd : r.devices[i]? = some d)
    (ho : opensTo P W r i d = some (rmk, asserted)) (hok : verifyStateMac P H (deriveStateKey P rmk) r = .ok ()) :
    deriveStateKey P rmk = deriveStateKey P rmk₀ := by
  obtain ⟨mac, rfl, hmac⟩ := h
  rw [devices_erasedBy, Option.map_eq_some_iff] at hd
  obtain ⟨d₀, hd₀, rfl⟩ := hd
  rw [verify_ok_iff] at hok
  exact (hmacs i d₀ rmk asserted hd₀ (opensTo_of_erased ho) ts ts (Option.some.inj (hok.symm.trans hmac))).1

/-- a sweep of an authenticated form is stale exactly if it erased a grant -/
theorem Fresh.sweep {now : UInt64} (h : Fresh P H reg rmk₀ ts r) :
    (∃ e ∈ reg.devices, (e.erased ts).expired now = true) ∧ Stale P H reg rmk₀ (sweepGrants r now).1 ∨
      (∀ e ∈ reg.devices, (e.erased ts).expired now = false) ∧ Fresh P H reg rmk₀ (now :: ts) (sweepGrants r now).1 := by
  obtain ⟨mac, rfl, hmac⟩ := h
  rw [sweepGrants_erasedBy]
  by_cases hany : ∃ e ∈ reg.devices, (e.erased ts).expired now = true
  · refine Or.inl ⟨hany, now :: ts, ts, mac, rfl, hmac, fun hsame => ?_⟩
    obtain ⟨e, he, hexp⟩ := hany
    rw [stateBytes_erasedBy hsame e he] at hexp
    cases hexp
  · simp only [not_exists, not_and, Bool.not_eq_true] at hany
    have hdevices : (reg.devices.map fun d => d.erased (now :: ts)) = reg.devices.map fun d => d.erased ts := by
      refine List.map_congr_left fun e he => ?_
      rw [← erased_cons, hany e he]
      rfl
    have hsame : reg.erasedBy (now :: ts) mac = reg.erasedBy ts mac := by
      unfold DeviceRegistryFile.erasedBy
      rw [hdevices]
    exact Or.inr ⟨hany, mac, rfl, by rw [hsame]; exact hmac⟩

theorem sweeps_succ (hd : reg.devices[n]? = some d) (hkind : d.kind = .fido2) :
    sweeps P W reg (n + 1) = if d.kept (sweeps P W reg n) = true then (sweepTime P W reg n d).toList ++ sweeps P W reg n
      else sweeps P W reg n := by
  rw [sweeps, hd]
  simp only [hkind, true_and]

theorem Fresh.authenticate {now : UInt64} (h : Fresh P H reg rmk₀ ts r) :
    Fresh P H reg rmk₀ (now :: ts) (authenticate P H (deriveStateKey P rmk₀) (sweepGrants r now).1) := by
  obtain ⟨mac, rfl, -⟩ := h
  rw [sweepGrants_erasedBy]
  exact ⟨_, rfl, Base64.decode_encode _⟩

theorem Fresh.sweepTime_eq (h : Fresh P H reg rmk₀ ts r) :
    sweepTime P W r i (d.erased ts) = if d.kept ts = true then sweepTime P W reg i d else none := by
  obtain ⟨mac, rfl, -⟩ := h
  exact sweepTime_erased

theorem Fresh.opensTo_eq (h : Fresh P H reg rmk₀ ts r) (d : DeviceRecord) : opensTo P W r i d = opensTo P W reg i d := by
  obtain ⟨mac, rfl, -⟩ := h
  rfl

theorem straysAt_of_closed (hd : reg.devices[n]? = some d) (h : d.kept (sweeps P W reg n) = true → sweepTime P W reg n d = none) :
    straysAt P W reg n = false := by
  simp only [straysAt, hd]
  split
  · next hs _ =>
    have hk : d.kept (sweeps P W reg n) = false := by
      by_contra hk
      rw [h (by simpa using hk)] at hs
      cases hs
    simp only [hk, Bool.and_false, Bool.false_and]
  · rfl

/-- **One attempt on an authenticated form.** It stays authenticated unless the attempt strays. -/
theorem Fresh.pass (hmacs : MacsApart P H W reg rmk₀) (hreg : Valid reg) (h : Fresh P H reg rmk₀ (sweeps P W reg n) r)
    (hpass : passAway P H W r n = some r') :
    straysAt P W reg n = true ∧ Stale P H reg rmk₀ r' ∨
      straysAt P W reg n = false ∧ Fresh P H reg rmk₀ (sweeps P W reg (n + 1)) r' := by
  have hvalid := h.valid hreg
  have hdev : r.devices[n]? = (reg.devices[n]?).map fun d => d.erased (sweeps P W reg n) := by
    obtain ⟨mac, rfl, -⟩ := h
    exact devices_erasedBy n
  cases hd : reg.devices[n]? with
  | none =>
    rw [hd, Option.map_none] at hdev
    simp only [passAway, hdev, Option.some.injEq] at hpass
    refine Or.inr ⟨by simp only [straysAt, hd], ?_⟩
    rw [sweeps, hd, ← hpass]
    exact h
  | some d =>
    rw [hd, Option.map_some] at hdev
    by_cases hkind : d.kind = .fido2
    · rcases passAway_cases hvalid hdev (by rw [erased_kind, hkind]) hpass with
        ⟨hnone, rfl⟩ | ⟨now, rmk, asserted, htime, ho, hok, hcase⟩
      · -- the attempt did not get as far as the sweep
        rw [h.sweepTime_eq] at hnone
        have hclosed : d.kept (sweeps P W reg n) = true → sweepTime P W reg n d = none := fun hk => by rwa [if_pos hk] at hnone
        refine Or.inr ⟨straysAt_of_closed hd hclosed, ?_⟩
        rw [sweeps_succ hd hkind]
        split_ifs with hk
        · rw [hclosed hk]
          exact h
        · exact h
      · have hkept : d.kept (sweeps P W reg n) = true := by
          by_contra hk
          rw [h.sweepTime_eq, if_neg hk] at htime
          cases htime
        rw [h.key hmacs hdev ho hok] at hcase
        rw [h.sweepTime_eq, if_pos hkept] at htime
        rw [erased_of_kept' hkept] at ho hcase
        rw [h.opensTo_eq] at ho
        rw [sweeps_succ hd hkind, if_pos hkept, htime]
        have hstray : straysAt P W reg n = (!d.expired now && d.signCountLast.any (asserted ≤ ·) &&
            reg.devices.any fun e => (e.erased (sweeps P W reg n)).expired now) := by
          simp only [straysAt, hd, htime, ho, hkind, hkept, decide_true, Bool.true_and]
        rcases hcase with ⟨hexp, rfl⟩ | ⟨hexp, hcount, rfl⟩
        · exact Or.inr ⟨by rw [hstray, hexp]; rfl, h.authenticate⟩
        · rw [hexp, hcount] at hstray
          rcases @Fresh.sweep P H reg r rmk₀ _ now h with ⟨⟨e, he, hany⟩, hstale⟩ | ⟨hnone, hfresh⟩
          · exact Or.inl ⟨hstray.trans (List.any_eq_true.2 ⟨e, he, hany⟩), hstale⟩
          · refine Or.inr ⟨hstray.trans (List.any_eq_false.2 fun e he => ?_), hfresh⟩
            simp [hnone e he]
    · simp only [passAway, hdev, erased_kind, ne_eq, hkind, not_false_eq_true, true_or, if_true, Option.some.injEq] at hpass
      refine Or.inr ⟨?_, ?_⟩
      · simp only [straysAt, hd]
        split
        · simp only [hkind, decide_false, Bool.false_and]
        · rfl
      · rw [sweeps, hd, ← hpass]
        simp only [hkind, false_and, if_false]
        exact h

theorem fresh_self (hmac : verifyStateMac P H (deriveStateKey P rmk₀) reg = .ok ()) : Fresh P H reg rmk₀ [] reg :=
  ⟨reg.stateMacB64, (erasedBy_nil reg).symm, verify_ok_iff.1 hmac⟩

/-- **Memory when a record is tried.** -/
theorem passed_cases (hmacs : MacsApart P H W reg rmk₀) (hreg : Valid reg)
    (hmac : verifyStateMac P H (deriveStateKey P rmk₀) reg = .ok ()) (h : passed P H W reg n = some r) :
    (∃ j < n, straysAt P W reg j = true) ∧ Stale P H reg rmk₀ r ∨
      (∀ j < n, straysAt P W reg j = false) ∧ Fresh P H reg rmk₀ (sweeps P W reg n) r := by
  induction n generalizing r with
  | zero =>
    cases h
    exact Or.inr ⟨nofun, fresh_self hmac⟩
  | succ n ih =>
    obtain ⟨r₀, hr₀, hpass⟩ := Option.bind_eq_some_iff.1 h
    rcases ih hr₀ with ⟨⟨j, hj, hstray⟩, hstale⟩ | ⟨hclear, hfresh⟩
    · exact Or.inl ⟨⟨j, hj.trans (Nat.lt_succ_self n), hstray⟩, hstale.pass hmacs hreg hpass⟩
    · rcases hfresh.pass hmacs hreg hpass with ⟨hstray, hstale⟩ | ⟨hstray, hfresh'⟩
      · exact Or.inl ⟨⟨n, Nat.lt_succ_self n, hstray⟩, hstale⟩
      · refine Or.inr ⟨fun j hj => ?_, hfresh'⟩
        rcases Nat.lt_succ_iff_lt_or_eq.1 hj with hj | rfl
        · exact hclear j hj
        · exact hstray

/-- an away record with a permanent wrap has no grant -/
theorem away_not_both (hreg : Valid reg) (hd : d ∈ reg.devices) (hkind : d.kind = .fido2) (hwrap : d.wrap.isSome = true) :
    d.grant = none := by
  have h := wraps_checked hreg.checked hd
  simp only [wrapChecks, hkind, List.mem_cons, List.not_mem_nil, or_false, forall_eq_or_imp, forall_eq] at h
  simpa [hwrap] using h.2.2.1

theorem kept_of_permanent (hreg : Valid reg) (hd : d ∈ reg.devices) (hkind : d.kind = .fido2) (hwrap : d.wrap.isSome = true)
    (ts : List UInt64) : d.kept ts = true := by
  rw [kept_iff, List.any_eq_false]
  intro t _
  simp [DeviceRecord.expired, away_not_both hreg hd hkind hwrap]

variable (P H W) in
/-- the attempt at the away record at this position unlocks -/
def AwayWins (r : DeviceRegistryFile) (k : ℕ) : Prop :=
  ∃ d, r.devices[k]? = some d ∧ d.kind = .fido2 ∧ ∃ r' u, (awayAttempt P H (W k) r k d).result none = .ok (r', .ok u)

theorem Fresh.wins_iff (hmacs : MacsApart P H W reg rmk₀) (hreg : Valid reg)
    (hmac : verifyStateMac P H (deriveStateKey P rmk₀) reg = .ok ()) (h : Fresh P H reg rmk₀ ts r)
    (hd : reg.devices[n]? = some d) (hkind : d.kind = .fido2) :
    AwayWins P H W r n ↔ d.kept ts = true ∧ AwayWins P H W reg n := by
  have hdev : r.devices[n]? = some (d.erased ts) := by
    obtain ⟨mac, rfl, -⟩ := h
    rw [devices_erasedBy, hd, Option.map_some]
  have hverify : verifyStateMac P H (deriveStateKey P rmk₀) r = .ok () := by
    obtain ⟨mac, rfl, hmac⟩ := h
    exact verify_ok_iff.2 hmac
  have haccept : ∀ d rmk asserted, acceptSignCount P r d rmk asserted = acceptSignCount P reg d rmk asserted := by
    obtain ⟨mac, rfl, -⟩ := h
    exact fun _ _ _ => rfl
  have hr : AwayWins P H W r n ↔ ∃ r' u, (awayAttempt P H (W n) r n (d.erased ts)).result none = .ok (r', .ok u) := by
    simp [AwayWins, hdev, hkind]
  have hreg' : AwayWins P H W reg n ↔ ∃ r' u, (awayAttempt P H (W n) reg n d).result none = .ok (r', .ok u) := by
    simp [AwayWins, hd, hkind]
  rw [hr, hreg', awayAttempt_ok_iff (h.valid hreg) hdev, awayAttempt_ok_iff hreg hd]
  constructor
  · rintro ⟨rmk, asserted, ho, hok, htime, hcount⟩
    have hkept : d.kept ts = true := by
      cases hw : d.wrap with
      | some w => exact kept_of_permanent hreg (List.mem_of_getElem? hd) hkind (by rw [hw]; rfl) ts
      | none =>
        by_contra hk
        obtain ⟨g, hg⟩ := grant_of_opensTo ho (by rw [erased_wrap, hw])
        rw [grant_of_not_kept hk] at hg
        cases hg
    have hkey := h.key hmacs hdev ho hok
    rw [erased_of_kept' hkept] at ho htime hcount
    rw [h.opensTo_eq] at ho
    rw [haccept] at hcount
    exact ⟨hkept, rmk, asserted, ho, by rw [hkey, hmac], htime, hcount⟩
  · rintro ⟨hkept, rmk, asserted, ho, hok, htime, hcount⟩
    have hkey := (fresh_self hmac).key hmacs hd ho hok
    rw [erased_of_kept' hkept]
    exact ⟨rmk, asserted, by rw [h.opensTo_eq, ho], by rw [hkey, hverify], htime, by rwa [haccept]⟩

theorem Stale.loses (hmacs : MacsApart P H W reg rmk₀) (hreg : Valid reg) (h : Stale P H reg rmk₀ r) :
    ¬AwayWins P H W r n := by
  rintro ⟨d, hd, -, hwins⟩
  obtain ⟨rmk, asserted, ho, hok, -⟩ := (awayAttempt_ok_iff (h.valid hreg) hd none).1 hwins
  exact h.refuses hmacs hd ho hok

/-! ## The whole unlock -/

theorem passed_mono {k : ℕ} (hnk : n ≤ k) (h : (passed P H W reg k).isSome = true) : (passed P H W reg n).isSome = true := by
  induction k, hnk using Nat.le_induction with
  | base => exact h
  | succ k _ ih =>
    refine ih ?_
    obtain ⟨r, hr⟩ := Option.isSome_iff_exists.1 h
    obtain ⟨r₀, hr₀, -⟩ := Option.bind_eq_some_iff.1 hr
    rw [hr₀]
    rfl

/-- an away record with neither a wrap nor a grant opens nothing -/
theorem not_wins_of_bare (hvalid : Valid r) (hd : r.devices[n]? = some d) (hbare : d.wrap.isNone ∧ d.grant.isNone) :
    ¬AwayWins P H W r n := by
  rintro ⟨d', hd', -, hwins⟩
  cases hd.symm.trans hd'
  obtain ⟨rmk, asserted, ho, -⟩ := (awayAttempt_ok_iff hvalid hd none).1 hwins
  obtain ⟨g, hg⟩ := grant_of_opensTo ho (Option.isNone_iff_eq_none.1 hbare.1)
  rw [hg] at hbare
  cases hbare.2

variable (P H W reg) in
/-- some away record from position `n` on is reached and unlocks -/
def AwayOpener (n m : ℕ) : Prop := ∃ k, n ≤ k ∧ k < n + m ∧ ∃ r, passed P H W reg k = some r ∧ AwayWins P H W r k

theorem awayOpener_succ {m : ℕ} (hr : passed P H W reg n = some r) (hlose : ¬AwayWins P H W r n) :
    AwayOpener P H W reg n (m + 1) ↔ AwayOpener P H W reg (n + 1) m := by
  constructor
  · rintro ⟨k, hnk, hk, r', hr', hwins⟩
    rcases Nat.eq_or_lt_of_le hnk with rfl | hlt
    · cases hr.symm.trans hr'
      exact absurd hwins hlose
    · exact ⟨k, hlt, by omega, r', hr', hwins⟩
  · rintro ⟨k, hnk, hk, r', hr', hwins⟩
    exact ⟨k, by omega, by omega, r', hr', hwins⟩

/-- an attempt that ends the unlock with an error -/
theorem not_awayOpener_of_fatal {m : ℕ} (hr : passed P H W reg n = some r) (hlose : ¬AwayWins P H W r n)
    (hfatal : passAway P H W r n = none) : ¬AwayOpener P H W reg n m := by
  rintro ⟨k, hnk, hk, r', hr', hwins⟩
  rcases Nat.eq_or_lt_of_le hnk with rfl | hlt
  · cases hr.symm.trans hr'
    exact hlose hwins
  · have hsome := passed_mono (n := n + 1) hlt (by rw [hr']; rfl)
    rw [passed, hr, Option.bind_some, hfatal] at hsome
    cases hsome

theorem tryAways_ok_iff (hvalid : ∀ n r, passed P H W reg n = some r → Valid r) {m : ℕ} (hr : passed P H W reg n = some r)
    (reasons : List String) (disk : RegistryDisk) :
    (∃ out, (tryAwaysAt P H W r (List.range' n m) reasons).result disk = .ok out) ↔ AwayOpener P H W reg n m := by
  induction m generalizing n r reasons disk with
  | zero =>
    constructor
    · rintro ⟨out, h⟩
      cases h
    · rintro ⟨k, hnk, hk, -⟩
      omega
  | succ m ih =>
    have hnext : ∀ r', passAway P H W r n = some r' → passed P H W reg (n + 1) = some r' := by
      intro r' hpass
      rw [passed, hr, Option.bind_some, hpass]
    rw [List.range'_succ, tryAwaysAt]
    cases hd : r.devices[n]? with
    | none =>
      have hlose : ¬AwayWins P H W r n := by
        rintro ⟨d, hd', -⟩
        rw [hd] at hd'
        cases hd'
      rw [awayOpener_succ hr hlose]
      exact ih (hnext r (by simp only [passAway, hd])) reasons disk
    | some d =>
      simp only
      by_cases hkind : d.kind = .fido2
      · rw [if_neg (not_not.2 hkind)]
        by_cases hbare : d.wrap.isNone ∧ d.grant.isNone
        · rw [if_pos hbare, awayOpener_succ hr (not_wins_of_bare (hvalid n r hr) hd hbare)]
          exact ih (hnext r (by simp only [passAway, hd, hbare, and_self, or_true, if_true])) _ disk
        rw [if_neg hbare]
        have hpass : passAway P H W r n = match (awayAttempt P H (W n) r n d).result none with
            | .ok (r', .error e) => if isContinueClass e then some r' else none
            | _ => none := by
          simp only [passAway, hd, hkind, ne_eq, not_true_eq_false, false_or, if_neg hbare]
        have hwins : AwayWins P H W r n ↔ ∃ r' u, (awayAttempt P H (W n) r n d).result none = .ok (r', .ok u) := by
          simp [AwayWins, hd, hkind]
        have hblind := blind_awayAttempt (P := P) (H := H) (W n) r n d disk none
        cases hres : (awayAttempt P H (W n) r n d).result none with
        | error e =>
          rw [hres] at hblind hpass hwins
          have hlose : ¬AwayWins P H W r n := by rw [hwins]; rintro ⟨r', u, h⟩; cases h
          rw [Prog.result_bind_error hblind]
          constructor
          · rintro ⟨out, h⟩
            cases h
          · exact fun h => absurd h (not_awayOpener_of_fatal hr hlose hpass)
        | ok x =>
          obtain ⟨r', o⟩ := x
          rw [hres] at hblind hpass hwins
          rw [Prog.result_bind_ok hblind]
          cases o with
          | ok u =>
            have hwon := hwins.2 ⟨r', u, rfl⟩
            exact ⟨fun _ => ⟨n, le_rfl, by omega, r, hr, hwon⟩, fun _ => ⟨_, rfl⟩⟩
          | error e =>
            have hlose : ¬AwayWins P H W r n := by rw [hwins]; rintro ⟨r'', u, h⟩; cases h
            simp only at hpass ⊢
            split_ifs at hpass ⊢ with he
            · rw [awayOpener_succ hr hlose]
              exact ih (hnext r' hpass) _ _
            · constructor
              · rintro ⟨out, h⟩
                cases h
              · exact fun h => absurd h (not_awayOpener_of_fatal hr hlose hpass)
      · have hlose : ¬AwayWins P H W r n := by
          rintro ⟨d', hd', hkind', -⟩
          cases hd.symm.trans hd'
          exact hkind hkind'
        rw [if_pos hkind, awayOpener_succ hr hlose]
        exact ih (hnext r (by simp only [passAway, hd, ne_eq, hkind, not_false_eq_true, true_or, if_true])) reasons disk

variable (P H W reg) in
/-- the home record at this position unlocks -/
def HomeWins (k : ℕ) : Prop :=
  ∃ d, reg.devices[k]? = some d ∧ d.kind = .tpm2 ∧ ∃ x, (unlockWithHome P H (W k) reg d).result (some (.ok reg)) = .ok x

theorem homesPass_succ (h : HomesPass P H W reg n) (hn : ∀ d, reg.devices[n]? = some d → d.kind = .tpm2 →
    ∃ e, (unlockWithHome P H (W n) reg d).result (some (.ok reg)) = .error e ∧ isContinueClass e = true) :
    HomesPass P H W reg (n + 1) := by
  intro i hi d hd hkind
  rcases Nat.lt_succ_iff_lt_or_eq.1 hi with hi | rfl
  · exact h i hi d hd hkind
  · exact hn d hd hkind

theorem HomesPass.loses {k : ℕ} (h : HomesPass P H W reg n) (hk : k < n) : ¬HomeWins P H W reg k := by
  rintro ⟨d, hd, hkind, x, hx⟩
  obtain ⟨e, he, -⟩ := h k hk d hd hkind
  rw [hx] at he
  cases he

/-- what the home records come to, in order -/
inductive HomesEnd (P : Primitives) (H : Hashes) (W : ℕ → Surroundings) (reg : DeviceRegistryFile)
    (o : Except CryptoError (Except (List String) (DeviceRegistryFile × Unlock × Authority))) : Prop where
  | opened (k : ℕ) (x : DeviceRegistryFile × Unlock × Authority) (h : HomesPass P H W reg k) (hk : HomeWins P H W reg k)
      (ho : o = .ok (.ok x))
  | passed (reasons : List String) (h : HomesPass P H W reg reg.devices.length) (ho : o = .ok (.error reasons))
  | ended (k : ℕ) (e : CryptoError) (hlt : k < reg.devices.length) (h : HomesPass P H W reg k)
      (hlose : ¬HomeWins P H W reg k) (hfatal : ¬HomesPass P H W reg (k + 1)) (ho : o = .error e)

theorem tryHomes_end (ds : List DeviceRecord) (hds : reg.devices.drop n = ds) (h : HomesPass P H W reg n) (reasons : List String)
    (disk : RegistryDisk) : HomesEnd P H W reg ((tryHomesAt P H W reg (ds.zipIdx n) reasons).result disk) := by
  induction ds generalizing n reasons disk with
  | nil =>
    rw [List.drop_eq_nil_iff] at hds
    exact .passed reasons (fun i hi d hd => h i (hi.trans_le hds) d hd) rfl
  | cons d ds ih =>
    have hlt : n < reg.devices.length := by
      by_contra hn
      rw [List.drop_eq_nil_of_le (Nat.not_lt.1 hn)] at hds
      cases hds
    rw [List.drop_eq_getElem_cons hlt, List.cons.injEq] at hds
    have hd : reg.devices[n]? = some d := by rw [List.getElem?_eq_getElem hlt, hds.1]
    rw [List.zipIdx_cons, tryHomesAt]
    by_cases hkind : d.kind = .tpm2
    · rw [if_neg (not_not.2 hkind)]
      have hblind := blind_unlockWithHome (P := P) (H := H) (W n) reg d disk (some (.ok reg))
      cases hres : (unlockWithHome P H (W n) reg d).result (some (.ok reg)) with
      | ok x =>
        rw [hres] at hblind
        have hatt : (Prog.attempt (unlockWithHome P H (W n) reg d) : Prog RegistryDisk CryptoError _).result disk = .ok (.ok x) :=
          congrArg Except.ok hblind
        rw [Prog.result_bind_ok hatt]
        exact .opened n _ h ⟨d, hd, hkind, x, hres⟩ rfl
      | error e =>
        rw [hres] at hblind
        have hatt : (Prog.attempt (unlockWithHome P H (W n) reg d) : Prog RegistryDisk CryptoError _).result disk =
            .ok (.error e) := congrArg Except.ok hblind
        rw [Prog.result_bind_ok hatt]
        simp only
        split_ifs with he
        · refine ih hds.2 (homesPass_succ h fun d' hd' _ => ?_) _ _
          cases hd.symm.trans hd'
          exact ⟨e, hres, he⟩
        · refine .ended n e hlt h ?_ ?_ rfl
          · rintro ⟨d', hd', -, x, hx⟩
            cases hd.symm.trans hd'
            rw [hres] at hx
            cases hx
          · intro hpass
            obtain ⟨e', he', hcont⟩ := hpass n (Nat.lt_succ_self n) d hd hkind
            rw [hres] at he'
            cases he'
            exact he hcont
    · rw [if_pos hkind]
      refine ih hds.2 (homesPass_succ h fun d' hd' hkind' => ?_) _ _
      cases hd.symm.trans hd'
      exact absurd hkind' hkind

theorem HomesPass.mono {k : ℕ} (h : HomesPass P H W reg k) (hnk : n ≤ k) : HomesPass P H W reg n :=
  fun i hi d hd => h i (hi.trans_le hnk) d hd

theorem HomeWins.lt {k : ℕ} (h : HomeWins P H W reg k) : k < reg.devices.length := by
  obtain ⟨d, hd, -⟩ := h
  exact (List.getElem?_eq_some_iff.1 hd).1

theorem unlockDevicesAt_ok_iff (hvalid : ∀ n r, passed P H W reg n = some r → Valid r) (disk : RegistryDisk) :
    (∃ out, (unlockDevicesAt P H W reg).result disk = .ok out) ↔
      (∃ k, HomesPass P H W reg k ∧ HomeWins P H W reg k) ∨
        (HomesPass P H W reg reg.devices.length ∧ AwayOpener P H W reg 0 reg.devices.length) := by
  unfold unlockDevicesAt
  rcases tryHomes_end (P := P) (H := H) (W := W) reg.devices List.drop_zero nofun [] disk with
    ⟨k, x, h, hk, ho⟩ | ⟨reasons, h, ho⟩ | ⟨k, e, hlt, h, hlose, hfatal, ho⟩
  · rw [Prog.result_bind_ok ho]
    exact ⟨fun _ => Or.inl ⟨k, h, hk⟩, fun _ => ⟨_, rfl⟩⟩
  · rw [Prog.result_bind_ok ho]
    simp only
    rw [List.range_eq_range', tryAways_ok_iff (n := 0) hvalid rfl]
    constructor
    · exact fun haway => Or.inr ⟨h, haway⟩
    · rintro (⟨k, -, hk⟩ | ⟨-, haway⟩)
      · exact absurd hk (h.loses hk.lt)
      · exact haway
  · rw [Prog.result_bind_error ho]
    constructor
    · rintro ⟨out, h⟩
      cases h
    · rintro (⟨k', h', hk'⟩ | ⟨h', -⟩)
      · rcases Nat.lt_trichotomy k' k with hlt' | rfl | hgt
        · exact absurd hk' (h.loses hlt')
        · exact absurd hk' hlose
        · exact absurd (h'.mono hgt) hfatal
      · exact absurd (h'.mono hlt) hfatal

/-- past the emergency code, the unlock is that of the devices -/
theorem succeeds_devices {E : Surroundings} (hver : reg.formatVersion = DEVICES_FORMAT_VERSION) (hreg : validate reg = .ok ())
    (hcode : EmergencyPasses P H reg E) :
    Succeeds P H W reg E ↔ ∃ out, (unlockDevicesAt P H W reg).result (some (.ok reg)) = .ok out := by
  have hload : load (some (.ok reg)) = ([], .ok reg) := by
    unfold load
    rw [Prog.get_bind_apply]
    simp only [hver, ne_eq, not_true_eq_false, if_false, hreg]
    rfl
  have hrun : unlockAt P H W E (some (.ok reg)) = unlockDevicesAt P H W reg (some (.ok reg)) := by
    unfold unlockAt
    rw [Prog.bind_apply_silent hload]
    rcases hcode with hnone | ⟨text, hsome, hopen⟩
    · rw [hnone]
      rfl
    · rw [hsome, Prog.ofExcept_ok, Prog.pure_bind_apply]
      have hrefused : ∀ e, openEmergency P H reg text = .error e →
          (Prog.attempt (emergencyUnlock P H E reg (some text)) : Prog RegistryDisk CryptoError _) (some (.ok reg)) =
            ([], .ok (.error e)) := by
        intro e he
        simp only [emergencyUnlock, he]
        rfl
      rcases hopen with he | he
      · rw [Prog.bind_apply_silent (hrefused _ he)]
      · rw [Prog.bind_apply_silent (hrefused _ he)]
  unfold Succeeds Prog.result
  rw [hrun]

theorem awayWins_alone (hd : reg.devices[n]? = some d) (hkind : d.kind = .fido2) :
    AwayWins P H W reg n ↔ ∃ r u, (awayAttempt P H (W n) reg n d).result (some (.ok reg)) = .ok (r, .ok u) := by
  rw [blind_awayAttempt (W n) reg n d (some (.ok reg)) none]
  simp [AwayWins, hd, hkind]

/-- **When an unlock succeeds**: a record is reached that opens alone and that no attempt before it spoiled. -/
theorem succeeds_iff {E : Surroundings} (hver : reg.formatVersion = DEVICES_FORMAT_VERSION) (hreg : validate reg = .ok ())
    (hmac : verifyStateMac P H (deriveStateKey P rmk₀) reg = .ok ()) (hmacs : MacsApart P H W reg rmk₀)
    (hcode : EmergencyPasses P H reg E) :
    Succeeds P H W reg E ↔ ∃ k, OpensAlone P H W reg k ∧ Reached P H W reg k ∧ Unspoiled P W reg k := by
  have hv := valid_of_validate hreg
  have hvalid : ∀ n r, passed P H W reg n = some r → Valid r := by
    intro n r hr
    rcases passed_cases hmacs hv hmac hr with ⟨-, h⟩ | ⟨-, h⟩
    · exact h.valid hv
    · exact h.valid hv
  rw [succeeds_devices hver hreg hcode, unlockDevicesAt_ok_iff hvalid]
  constructor
  · rintro (⟨k, hpass, d, hd, hkind, hx⟩ | ⟨hpass, k, -, -, r, hr, hwins⟩)
    · refine ⟨k, ⟨d, hd, by rw [hkind]; exact hx⟩, fun d' hd' => ?_, fun d' hd' hkind' => ?_⟩
      · cases hd.symm.trans hd'
        rw [hkind]
        exact hpass
      · cases hd.symm.trans hd'
        cases hkind.symm.trans hkind'
    · rcases passed_cases hmacs hv hmac hr with ⟨-, hstale⟩ | ⟨hclear, hfresh⟩
      · exact absurd hwins (hstale.loses hmacs hv)
      · obtain ⟨d, hd, hkind⟩ : ∃ d, reg.devices[k]? = some d ∧ d.kind = .fido2 := by
          obtain ⟨d', hd', hkind, -⟩ := hwins
          obtain ⟨mac, rfl, -⟩ := hfresh
          rw [devices_erasedBy, Option.map_eq_some_iff] at hd'
          obtain ⟨d, hd, rfl⟩ := hd'
          exact ⟨d, hd, by rwa [erased_kind] at hkind⟩
        obtain ⟨hkept, halone⟩ := (hfresh.wins_iff hmacs hv hmac hd hkind).1 hwins
        refine ⟨k, ⟨d, hd, ?_⟩, fun d' hd' => ?_, fun d' hd' _ => ?_⟩
        · rw [hkind]
          exact (awayWins_alone hd hkind).1 halone
        · cases hd.symm.trans hd'
          rw [hkind]
          exact ⟨hpass, by rw [hr]; rfl⟩
        · cases hd.symm.trans hd'
          exact ⟨hclear, hkept⟩
  · rintro ⟨k, ⟨d, hd, halone⟩, hreached, hclear⟩
    have hreached := hreached d hd
    cases hkind : d.kind with
    | tpm2 =>
      rw [hkind] at halone hreached
      exact Or.inl ⟨k, hreached, d, hd, hkind, halone⟩
    | fido2 =>
      rw [hkind] at halone hreached
      obtain ⟨hstray, hkept⟩ := hclear d hd hkind
      obtain ⟨hpass, hsome⟩ := hreached
      obtain ⟨r, hr⟩ := Option.isSome_iff_exists.1 hsome
      refine Or.inr ⟨hpass, k, Nat.zero_le k, by simpa using (List.getElem?_eq_some_iff.1 hd).1, r, hr, ?_⟩
      rcases passed_cases hmacs hv hmac hr with ⟨⟨j, hj, hj'⟩, -⟩ | ⟨-, hfresh⟩
      · rw [hstray j hj] at hj'
        cases hj'
      · exact (hfresh.wins_iff hmacs hv hmac hd hkind).2 ⟨hkept, (awayWins_alone hd hkind).2 halone⟩

/-- **A device that cannot unlock never blocks one that can**, exactly if among the records that open alone and are reached one
is unspoiled. -/
theorem fallback_iff (P : Primitives) (H : Hashes) (W : ℕ → Surroundings) (E : Surroundings) (reg : DeviceRegistryFile)
    (rmk : Bytes) (hver : reg.formatVersion = DEVICES_FORMAT_VERSION) (hreg : validate reg = .ok ())
    (hmac : verifyStateMac P H (deriveStateKey P rmk) reg = .ok ()) (hmacs : MacsApart P H W reg rmk)
    (hcode : EmergencyPasses P H reg E) :
    (∀ k, OpensAlone P H W reg k → Reached P H W reg k → Succeeds P H W reg E) ↔
      ((∃ k, OpensAlone P H W reg k ∧ Reached P H W reg k) →
        ∃ k, OpensAlone P H W reg k ∧ Reached P H W reg k ∧ Unspoiled P W reg k) := by
  rw [succeeds_iff hver hreg hmac hmacs hcode]
  constructor
  · rintro h ⟨k, hopen, hreached⟩
    exact h k hopen hreached
  · exact fun h k hopen hreached => h ⟨k, hopen, hreached⟩

/-! ## A blocked device -/

namespace Blocked

/-- a MAC that adds up the bytes -/
def primitives : Primitives where
  aead := Aead.tagged
  hmacSha256 k m := k.headD 0 :: m.sum :: List.replicate 30 0
  crc32 _ := 0
  aead_correct := Aead.tagged_correct
  length_hmac _ _ := rfl

def hashes : Hashes := ⟨fun b => b, fun _ _ _ _ _ => .error ""⟩

def masterKey : Bytes := List.replicate 32 9
def esc : Bytes := List.replicate 32 0
def secret : Bytes := List.replicate 32 5
def nonce : Nonce := ⟨List.replicate 12 0, length_zeroNonce⟩

def home : DeviceRecord :=
  ⟨"00000000000000000000000000000000", "h", .tpm2, 0, some ⟨"", ""⟩, none, some ⟨"", "", [], ""⟩, none, none, none, none⟩

/-- an away record with a grant to this deadline -/
def away (id label : String) (notAfterUnix : UInt64) : DeviceRecord :=
  let bare : DeviceRecord := ⟨id, label, .fido2, 0, none, none, none, some ⟨"", "", "", false⟩, some 5, some ⟨"", ""⟩, none⟩
  { bare with grant := some ⟨notAfterUnix, 0, wrapSecret primitives (deriveDeviceKek primitives secret bare.idBytes) masterKey
      (grantAad bare.idBytes false notAfterUnix 60 esc) nonce⟩ }

/-- a home device and three away devices; the grant of the second is past its deadline at 75 -/
def registry : DeviceRegistryFile :=
  authenticate primitives hashes (deriveStateKey primitives masterKey)
    ⟨DEVICES_FORMAT_VERSION, Base64.encode esc, 60, false,
      wrapSecret primitives (nkWrapKey primitives masterKey) (List.replicate 32 1) (nkWrapAad esc 60) nonce, "",
      [home, away "00000000000000000000000000000001" "a" 100, away "00000000000000000000000000000002" "b" 50,
        away "00000000000000000000000000000003" "c" 100],
      (List.range 10).map fun i => ⟨UInt8.ofNat i, none, some 0⟩⟩

/-- no TPM; the first token answers with this counter, the second is not there, the third is in order -/
def surroundings (count : UInt32) : Surroundings where
  emergencyCode := .ok none
  tpmUnseal _ := .error (.tpmUnavailable "")
  passcode _ := .error (.deviceBackend "")
  hmacSecret _ label :=
    if label = "a" then .ok (secret, count) else if label = "b" then .error (.deviceBackend "") else .ok (secret, 6)
  attestedNow := .ok 75
  nowHost := 0
  grantNonce _ := nonce
  nkNonce := nonce

/-- the registry with the grants to 100, or the one to 50, erased -/
def form (late early : Bool) : DeviceRegistryFile :=
  let erase (b : Bool) (d : DeviceRecord) : DeviceRecord := if b then { d with grant := none } else d
  { registry with
    devices := [home, erase late (away "00000000000000000000000000000001" "a" 100),
      erase early (away "00000000000000000000000000000002" "b" 50),
      erase late (away "00000000000000000000000000000003" "c" 100)]
    stateMacB64 := "" }

theorem erasedBy_eq (ts : List UInt64) : registry.erasedBy ts "" = form (ts.any fun t => 100 < t) (ts.any fun t => 50 < t) := by
  have hhome : home.erased ts = home := erased_of_kept (List.any_eq_false.2 fun t _ => by simp [DeviceRecord.expired, home])
  unfold DeviceRegistryFile.erasedBy form
  rw [show registry.devices = [home, away "00000000000000000000000000000001" "a" 100,
    away "00000000000000000000000000000002" "b" 50, away "00000000000000000000000000000003" "c" 100] from rfl]
  simp only [List.map_cons, List.map_nil, hhome]
  rfl

theorem early_of_late {ts : List UInt64} (h : (ts.any fun t => 100 < t) = true) : (ts.any fun t => 50 < t) = true := by
  obtain ⟨t, ht, hlt⟩ := List.any_eq_true.1 h
  refine List.any_eq_true.2 ⟨t, ht, ?_⟩
  simp only [decide_eq_true_eq, UInt64.lt_iff_toNat_lt, UInt64.reduceToNat] at hlt ⊢
  omega

theorem form_sums : (stateBytes hashes (form false false)).sum = 87 ∧ (stateBytes hashes (form false true)).sum = 36 ∧
    (stateBytes hashes (form true true)).sum = 90 := by
  decide +kernel

theorem sum_form (late early : Bool) (h : late = true → early = true) :
    (stateBytes hashes (form late early)).sum = if late then 90 else if early then 36 else 87 := by
  cases late with
  | true =>
    rw [h rfl]
    exact form_sums.2.2
  | false =>
    cases early with
    | true => exact form_sums.2.1
    | false => exact form_sums.1

theorem sums_apart : ∀ late early late' early' : Bool, (late = true → early = true) → (late' = true → early' = true) →
    (stateBytes hashes (form late early)).sum = (stateBytes hashes (form late' early')).sum →
      stateBytes hashes (form late early) = stateBytes hashes (form late' early') := by
  intro late early late' early' h h' hsum
  have hsame : ∀ late early late' early' : Bool, (late = true → early = true) → (late' = true → early' = true) →
      (if late then (90 : UInt8) else if early then 36 else 87) = (if late' then 90 else if early' then 36 else 87) →
        late = late' ∧ early = early' := by decide
  rw [sum_form late early h, sum_form late' early' h'] at hsum
  obtain ⟨rfl, rfl⟩ := hsame _ _ _ _ h h' hsum
  rfl

theorem registry_esc : registry.esc = esc := by
  unfold DeviceRegistryFile.esc
  rw [show registry.escB64 = Base64.encode esc from rfl, Base64.decode_encode]
  rfl

/-- a token that is there opens the master key -/
theorem opens (i : ℕ) {id label : String} (t : UInt64) (h : label ≠ "b") :
    opensTo primitives (fun _ => surroundings 5) registry i (away id label t) =
      some (masterKey, if label = "a" then 5 else 6) := by
  have hrmk : rmkFromAway primitives registry (away id label t)
      (deriveDeviceKek primitives secret (away id label t).idBytes) = .ok masterKey := by
    change unwrapSecret _ _ _ (grantAad (away id label t).idBytes false t 60 registry.esc) = _
    rw [registry_esc]
    exact unwrapSecret_wrapSecret _ _ rfl
  have hsecret : (surroundings 5).hmacSecret ⟨"", "", "", false⟩ label = .ok (secret, if label = "a" then 5 else 6) := by
    unfold surroundings
    by_cases ha : label = "a"
    · simp only [if_pos ha]
    · simp only [if_neg ha, if_neg h]
  unfold opensTo
  simp only [show (away id label t).fido2 = some ⟨"", "", "", false⟩ from rfl, show (away id label t).label = label from rfl, hsecret,
    hrmk]
  exact if_pos rfl

/-- the second token is not there -/
theorem absent (i : ℕ) (id : String) (t : UInt64) :
    opensTo primitives (fun _ => surroundings 5) registry i (away id "b" t) = none := rfl

theorem home_opens (i : ℕ) : opensTo primitives (fun _ => surroundings 5) registry i home = none := rfl

theorem macsApart : MacsApart primitives hashes (fun _ => surroundings 5) registry masterKey := by
  intro i d rmk asserted hd ho ts ts' hmac
  have hkey : rmk = masterKey := by
    have hmem : d ∈ registry.devices := List.mem_of_getElem? hd
    rw [show registry.devices = [home, away "00000000000000000000000000000001" "a" 100,
      away "00000000000000000000000000000002" "b" 50, away "00000000000000000000000000000003" "c" 100] from rfl] at hmem
    simp only [List.mem_cons, List.not_mem_nil, or_false] at hmem
    rcases hmem with rfl | rfl | rfl | rfl
    · rw [home_opens] at ho
      cases ho
    · rw [opens i 100 (by decide)] at ho
      exact (Prod.mk.inj (Option.some.inj ho)).1.symm
    · rw [absent] at ho
      cases ho
    · rw [opens i 100 (by decide)] at ho
      exact (Prod.mk.inj (Option.some.inj ho)).1.symm
  subst hkey
  refine ⟨rfl, ?_⟩
  rw [erasedBy_eq, erasedBy_eq] at hmac ⊢
  exact sums_apart _ _ _ _ early_of_late early_of_late (List.cons.inj (List.cons.inj hmac).2).1

/-- the registry before its key is sealed and its MAC made -/
def plain : DeviceRegistryFile :=
  { registry with nkWrap := ⟨"", ""⟩, stateMacB64 := Base64.encode esc }

theorem plain_valid : Valid plain where
  filled := by
    unfold fillDerived
    rw [show decodes32 plain.escB64 = true by simp [decodes32, plain, registry, authenticate, esc]]
    rfl
  checked := by
    rw [check_ok_iff]
    exact List.all_eq_true.1 (show (checks plain).all (fun c => c.1) = true by decide +kernel)

theorem valid : validate registry = .ok () := validate_sealed plain_valid _ _

theorem verified : verifyStateMac primitives hashes (deriveStateKey primitives masterKey) registry = .ok () :=
  verify_authenticate _ _

/-! What each of the records does. -/

theorem second : registry.devices[1]? = some (away "00000000000000000000000000000001" "a" 100) := rfl
theorem third : registry.devices[2]? = some (away "00000000000000000000000000000002" "b" 50) := rfl
theorem fourth : registry.devices[3]? = some (away "00000000000000000000000000000003" "c" 100) := rfl

/-- the counter of the first token is where it was -/
theorem rolled_back (r : DeviceRegistryFile) :
    acceptSignCount primitives r (away "00000000000000000000000000000001" "a" 100) masterKey 5 =
      .error (.deviceSignCountRollback "a" 5 5) := rfl

theorem key_opens : openNk primitives registry masterKey = .ok (List.replicate 32 1) := by
  rw [openNk_eq_ok, registry_esc]
  exact unwrapSecret_wrapSecret _ _ rfl

theorem fourth_opens : OpensAlone primitives hashes (fun _ => surroundings 5) registry 3 := by
  refine ⟨_, fourth, ?_⟩
  have hcount : acceptSignCount primitives registry (away "00000000000000000000000000000003" "c" 100) masterKey 6 =
      .ok (List.replicate 32 1) := acceptSignCount_ok.2 ⟨5, rfl, by decide, key_opens⟩
  exact (awayAttempt_ok_iff (W := fun _ => surroundings 5) (valid_of_validate valid) fourth _).2
    ⟨masterKey, 6, opens 3 100 (by decide), verified, Or.inr ⟨75, rfl, rfl⟩, _, hcount⟩

theorem not_second_opens : ¬OpensAlone primitives hashes (fun _ => surroundings 5) registry 1 := by
  rintro ⟨d, hd, hattempt⟩
  cases second.symm.trans hd
  obtain ⟨rmk, asserted, ho, -, -, nk, hnk⟩ :=
    (awayAttempt_ok_iff (W := fun _ => surroundings 5) (valid_of_validate valid) second _).1 hattempt
  cases (opens 1 100 (by decide)).symm.trans ho
  rw [if_pos rfl, rolled_back] at hnk
  cases hnk

theorem not_third_opens : ¬OpensAlone primitives hashes (fun _ => surroundings 5) registry 2 := by
  rintro ⟨d, hd, hattempt⟩
  cases third.symm.trans hd
  obtain ⟨rmk, asserted, ho, -⟩ :=
    (awayAttempt_ok_iff (W := fun _ => surroundings 5) (valid_of_validate valid) third _).1 hattempt
  cases (absent 2 _ 50).symm.trans ho

theorem homes_pass : HomesPass primitives hashes (fun _ => surroundings 5) registry 4 := by
  intro i hi d hd hkind
  interval_cases i
  · cases hd
    exact ⟨.tpmUnavailable "", rfl, rfl⟩
  all_goals
    cases hd
    exact absurd hkind (by decide)

/-- the attempt with the first token sweeps the grant of the second in memory only -/
theorem second_passes : passAway primitives hashes (fun _ => surroundings 5) registry 1 = some (sweepGrants registry 75).1 := by
  have hattempt : awayAttempt primitives hashes (surroundings 5) registry 1 (away "00000000000000000000000000000001" "a" 100) =
      pure ((sweepGrants registry 75).1, .error (.deviceSignCountRollback "a" 5 5)) := by
    rw [awayAttempt_opened (W := fun _ => surroundings 5) (opens 1 100 (by decide)), verified]
    simp only
    rw [openedAway_inTime rfl rfl rfl rfl]
    exact countAway_error (rolled_back _) _
  exact passAway_pure second rfl (by decide) hattempt rfl

theorem fourth_reached : Reached primitives hashes (fun _ => surroundings 5) registry 3 := by
  intro d hd
  cases fourth.symm.trans hd
  refine ⟨homes_pass, ?_⟩
  have hfirst : passAway primitives hashes (fun _ => surroundings 5) registry 0 = some registry :=
    passAway_skip (d := home) rfl (Or.inl (by decide))
  have hswept : (sweepGrants registry 75).1.devices[2]? =
      some { away "00000000000000000000000000000002" "b" 50 with grant := none } := by
    unfold sweepGrants
    rw [List.getElem?_map, third]
    rfl
  have hthird := passAway_skip (P := primitives) (H := hashes) (W := fun _ => surroundings 5) hswept (Or.inr ⟨rfl, rfl⟩)
  have hpassed := (passed_succ ((passed_succ ((passed_succ rfl).trans hfirst)).trans second_passes)).trans hthird
  exact Option.isSome_iff_exists.2 ⟨_, hpassed⟩

/-- that attempt leaves a stale MAC -/
theorem second_strays : straysAt primitives (fun _ => surroundings 5) registry 1 = true := by
  have hsweeps : sweeps primitives (fun _ => surroundings 5) registry 1 = [] := rfl
  have hsweep : sweepTime primitives (fun _ => surroundings 5) registry 1 (away "00000000000000000000000000000001" "a" 100) =
      some 75 := by
    unfold sweepTime
    rw [opens 1 100 (by decide)]
    rfl
  unfold straysAt
  rw [second]
  simp only [hsweep, opens 1 100 (by decide : "a" ≠ "b"), hsweeps, if_true]
  have hexpired : (registry.devices.any fun e => (e.erased []).expired 75) = true :=
    List.any_eq_true.2 ⟨_, List.mem_of_getElem? third, rfl⟩
  rw [hexpired]
  rfl

end Blocked

open Blocked in
/-- the first token rolls back, and the third, in order, is refused as if the registry had been tampered with -/
theorem rollback_blocks : ¬∀ k, OpensAlone primitives hashes (fun _ => surroundings 5) registry k →
    Reached primitives hashes (fun _ => surroundings 5) registry k →
      Succeeds primitives hashes (fun _ => surroundings 5) registry (surroundings 5) := by
  intro h
  have hsucceeds := h 3 fourth_opens fourth_reached
  rw [succeeds_iff rfl valid verified macsApart (Or.inl rfl)] at hsucceeds
  obtain ⟨k, hopens, hreached, hclear⟩ := hsucceeds
  obtain ⟨d, hd, -⟩ := id hopens
  have hk : k < 4 := (List.getElem?_eq_some_iff.1 hd).1
  interval_cases k
  · -- the home device has no TPM
    obtain ⟨d, hd, hx⟩ := hopens
    cases hd
    obtain ⟨x, hx⟩ : ∃ x, (unlockWithHome primitives hashes (surroundings 5) registry home).result (some (.ok registry)) = .ok x := hx
    cases hx
  · exact not_second_opens hopens
  · exact not_third_opens hopens
  · have hstray := (hclear _ fourth rfl).1 1 (by decide)
    rw [second_strays] at hstray
    cases hstray

open Blocked in
theorem fallback_iff_blocked :
    (∀ k, OpensAlone primitives hashes (fun _ => surroundings 5) registry k →
      Reached primitives hashes (fun _ => surroundings 5) registry k →
        Succeeds primitives hashes (fun _ => surroundings 5) registry (surroundings 5)) ↔
      ((∃ k, OpensAlone primitives hashes (fun _ => surroundings 5) registry k ∧
          Reached primitives hashes (fun _ => surroundings 5) registry k) →
        ∃ k, OpensAlone primitives hashes (fun _ => surroundings 5) registry k ∧
          Reached primitives hashes (fun _ => surroundings 5) registry k ∧
            Unspoiled primitives (fun _ => surroundings 5) registry k) :=
  fallback_iff primitives hashes (fun _ => surroundings 5) (surroundings 5) registry masterKey rfl valid verified macsApart
    (Or.inl rfl)

end Y2q.Devices
