/-
Everything that happens to a device registry from its initialisation on: unlocks, commands of the CLI, rewrites of the node
key's wrap and the sweeps of daemons, in any order. None of them has to succeed.

A `Vault` is the file with what its holders have: the keys in force, the secret last installed for each device, the
emergency codes, and the master keys that running daemons keep from their unlocks.

- `Vault.step_good`: an operation keeps the registry in force, provided no presented key opens what another key sealed.
- `openers_open`: after any sequence of operations the file loads, its state MAC verifies, and every registered opener opens.
-/
import Mathlib.Tactic
import Mathlib.Data.UInt
import Y2q.Core.Run
import Y2q.Crypto.Devices.Openers

namespace Y2q.Devices

open CrashLogic NodeKeys Run

/-! ## Operations -/

structure Vault extends Holders where
  disk : RegistryDisk
  held : List Bytes

inductive Op where
  | unlock (W : Surroundings) (o : Opener)
  /-- a command of the CLI: an unlock, a mutation, the persist -/
  | command (W : Surroundings) (o : Opener) (B : Bench) (m : Mutation)
  | rewrite (W : Surroundings) (o : Opener) (newNk : Key32)
  /-- a sweep by the daemon whose key is the `i`-th that is held -/
  | sweep (W : Surroundings) (i : ℕ) (remint busy : Bool)

variable (P : Primitives) (H : Hashes)

/-- returns the device whose secret was installed, with the secret -/
def command (W : Surroundings) (o : Opener) (B : Bench) (m : Mutation) :
    Prog RegistryDisk CryptoError (Option (String × Bytes)) := do
  let out ← openBy P H W o
  let reg ← Prog.ofExcept (m.apply P H B out.registry out.nodeKey out.registryMasterKey out.authority)
  let _ ← persist P H (deriveStateKey P out.registryMasterKey) reg
  pure (m.installs P H B out.registry out.authority)

def rewrite (W : Surroundings) (o : Opener) (newNk : Key32) : Prog RegistryDisk CryptoError DeviceRegistryFile := do
  let out ← openBy P H W o
  rewriteNkWrap P H W out.registry out.registryMasterKey newNk.1

def Vault.keep (s : Vault) : Except CryptoError UnlockOutcome → List Bytes
  | .ok out => out.registryMasterKey :: s.held
  | .error _ => s.held

def Holders.afterCommand (v : Holders) : Except CryptoError (Option (String × Bytes)) → Holders
  | .ok installed => v.install installed
  | .error _ => v

def Holders.afterRewrite (v : Holders) (newNk : Key32) : Except CryptoError DeviceRegistryFile → Holders
  | .ok _ => { v with nk := newNk.1 }
  | .error _ => v

def Vault.step (s : Vault) : Op → Vault
  | .unlock W o => ⟨s.toHolders, (openBy P H W o).final s.disk, s.keep ((openBy P H W o).result s.disk)⟩
  | .command W o B m =>
    ⟨s.afterCommand ((command P H W o B m).result s.disk), (command P H W o B m).final s.disk, s.held⟩
  | .rewrite W o newNk =>
    ⟨s.afterRewrite newNk ((rewrite P H W o newNk).result s.disk), (rewrite P H W o newNk).final s.disk, s.held⟩
  | .sweep W i remint busy =>
    match s.held[i]? with
    | none => s
    | some rmk => { s with
        disk := (sweepNow P H W busy (deriveStateKey P rmk) (if remint then some rmk else none)).final s.disk }

/-- what the operation is presented opens nothing that another key sealed -/
def Op.Apart (s : Vault) : Op → Prop
  | .unlock W _ => ∀ reg, s.disk = some (.ok reg) → KeysApart P H W s.toHolders reg
  | .command W _ _ _ => ∀ reg, s.disk = some (.ok reg) → KeysApart P H W s.toHolders reg
  | .rewrite W _ _ => ∀ reg, s.disk = some (.ok reg) → KeysApart P H W s.toHolders reg
  | .sweep _ _ _ _ => True

structure Vault.Good (s : Vault) : Prop where
  disk : GoodDisk P H s.toHolders s.disk
  held : ∀ rmk ∈ s.held, rmk = s.rmk

variable {P H} {s : Vault} {v : Holders} {reg : DeviceRegistryFile} {W : Surroundings}

/-! ## Steps -/

/-- what a command leaves: the registry of the holders it found, or of them with the secret it installed -/
theorem command_good {o : Opener} {B : Bench} {m : Mutation} (hgood : Good P H v reg) (hapart : KeysApart P H W v reg) :
    Spec (fun disk => disk = some (.ok reg)) (command P H W o B m) (fun installed disk => GoodDisk P H (v.install installed) disk)
      (fun _ => GoodDisk P H v) fun _ => True := by
  refine Spec.bind ((openBy_returned hgood hapart o).conseq (fun _ h => h) (fun _ _ h => h) (fun _ _ h => h) fun _ _ => trivial) ?_
  intro out
  refine Spec.ofExcept_bind_any (fun _ _ h => h.disk) (fun _ _ => trivial) fun reg' happly => ?_
  refine Spec.of_states fun disk hout => ?_
  have hdisk := hout.disk
  obtain ⟨-, hgood', hnk, hrmk⟩ := hout
  rw [hnk, hrmk] at happly
  rw [hrmk]
  have hnew := Mutation.apply_opens hgood'.rmkLen hgood'.valid.checked hgood'.opens happly
  have hsame := @Holders.install_rmk v (m.installs P H B out.registry out.authority)
  have hlen : (v.install (m.installs P H B out.registry out.authority)).rmk.length = 32 := by rw [hsame, hgood'.rmkLen]
  have hpersist := persist_good (H := H) hlen hnew disk
  rw [hsame] at hpersist
  refine Spec.bind (hpersist.conseq (fun _ h => h) (fun _ _ h => h) (fun _ _ h => h ▸ hdisk) fun _ _ => trivial) fun reg'' => ?_
  exact Spec.pure _ (fun _ h => ⟨reg'', h.1⟩) fun _ _ => trivial

theorem rewrite_good {o : Opener} {newNk : Key32} (hgood : Good P H v reg) (hapart : KeysApart P H W v reg) :
    Spec (fun disk => disk = some (.ok reg)) (rewrite P H W o newNk) (fun _ disk => GoodDisk P H { v with nk := newNk.1 } disk)
      (fun _ => GoodDisk P H v) fun _ => True := by
  refine Spec.bind ((openBy_returned hgood hapart o).conseq (fun _ h => h) (fun _ _ h => h) (fun _ _ h => h) fun _ _ => trivial) ?_
  intro out
  refine Spec.of_states fun disk hout => ?_
  have hdisk := hout.disk
  obtain ⟨-, hgood', -, hrmk⟩ := hout
  rw [hrmk]
  have hlen : ({ v with nk := newNk.1 } : Holders).rmk.length = 32 := hgood'.rmkLen
  have hnew : Opens P { v with nk := newNk.1 } { out.registry with
      nkWrap := wrapSecret P (nkWrapKey P v.rmk) newNk.1 (nkWrapAad out.registry.esc out.registry.awayGrantSeconds) W.nkNonce } :=
    ⟨fun d hd => (hgood'.opens.records d hd).congr rfl rfl, hgood'.opens.slots,
      openNk_eq_ok.2 (unwrapSecret_wrapSecret _ _ newNk.2), hgood'.opens.version⟩
  exact (persist_good (H := H) hlen hnew disk).conseq (fun _ h => h) (fun reg'' _ h => ⟨reg'', h.1⟩) (fun _ _ h => h ▸ hdisk)
    fun _ _ => trivial

theorem sweepNow_good {remint : Option Bytes} {busy : Bool} (hremint : ∀ rmk, remint = some rmk → rmk = v.rmk)
    (hgood : Good P H v reg) :
    Spec (fun disk => disk = some (.ok reg)) (sweepNow P H W busy (deriveStateKey P v.rmk) remint) (fun _ => GoodDisk P H v)
      (fun _ => GoodDisk P H v) (GoodDisk P H v) := by
  have hdisk : ∀ disk, disk = some (.ok reg) → GoodDisk P H v disk := fun _ h => ⟨reg, h, hgood⟩
  have hnothing : ∀ n, Spec (fun disk => disk = some (.ok reg)) (pure n : Prog RegistryDisk CryptoError (ℕ × ℕ))
      (fun _ => GoodDisk P H v) (fun _ => GoodDisk P H v) (GoodDisk P H v) := fun n => Spec.pure n hdisk hdisk
  unfold sweepNow
  split
  · exact hnothing _
  · refine Spec.load_bind hgood ?_
    rw [hgood.verified]
    simp only
    split
    · exact hnothing _
    · cases hnow : W.attestedNow with
      | error e => exact hnothing _
      | ok now =>
        have hswept := hgood.opens.sweep now
        have hend : ∀ minted : DeviceRegistryFile × ℕ, Opens P v minted.1 → Spec (fun disk => disk = some (.ok reg))
            (if minted.2 > 0 ∨ (sweepGrants reg now).2 > 0 then do
              let _ ← persist P H (deriveStateKey P v.rmk) minted.1
              pure (minted.2, (sweepGrants reg now).2)
            else pure (minted.2, (sweepGrants reg now).2)) (fun _ => GoodDisk P H v) (fun _ => GoodDisk P H v)
            (GoodDisk P H v) := by
          intro minted hminted
          split_ifs
          · refine Spec.bind ((persist_granted hgood.rmkLen ⟨reg, rfl, hgood⟩ hminted).conseq (fun _ h => h) (fun _ _ h => h)
              (fun _ disk h => hdisk disk h) fun _ h => h) fun reg'' => Spec.pure _ (fun _ h => ⟨reg'', h.1⟩) fun _ h => ⟨reg'', h.1⟩
          · exact hnothing _
        cases remint with
        | none => exact hend _ hswept
        | some rmk =>
          obtain rfl := hremint rmk rfl
          exact hend _ (hswept.mint hgood.rmkLen now)

/-- **A step keeps the registry in force**, whether its operation succeeds or not. -/
theorem Vault.step_good (s : Vault) (op : Op) (h : Vault.Good P H s) (hapart : op.Apart P H s) : Vault.Good P H (s.step P H op) := by
  obtain ⟨⟨reg, hdisk, hgood⟩, hheld⟩ := h
  cases op with
  | unlock W o =>
    obtain ⟨-, hok, herr⟩ := openBy_returned hgood (hapart reg hdisk) o s.disk hdisk
    simp only [Vault.step, Vault.keep]
    cases hresult : (openBy P H W o).result s.disk with
    | ok out =>
      have hout := hok out hresult
      refine ⟨hout.disk, fun rmk hrmk => ?_⟩
      rcases List.mem_cons.1 hrmk with rfl | hrmk
      · exact hout.2.2.2
      · exact hheld rmk hrmk
    | error e => exact ⟨herr e hresult, hheld⟩
  | command W o B m =>
    obtain ⟨-, hok, herr⟩ := command_good (o := o) (B := B) (m := m) hgood (hapart reg hdisk) s.disk hdisk
    simp only [Vault.step, Holders.afterCommand]
    cases hresult : (command P H W o B m).result s.disk with
    | ok installed =>
      exact ⟨hok installed hresult, fun rmk hrmk => (hheld rmk hrmk).trans (Holders.install_rmk installed).symm⟩
    | error e => exact ⟨herr e hresult, hheld⟩
  | rewrite W o newNk =>
    obtain ⟨-, hok, herr⟩ := @rewrite_good P H _ _ _ o newNk hgood (hapart reg hdisk) s.disk hdisk
    simp only [Vault.step, Holders.afterRewrite]
    cases hresult : (rewrite P H W o newNk).result s.disk with
    | ok out => exact ⟨hok out hresult, hheld⟩
    | error e => exact ⟨herr e hresult, hheld⟩
  | sweep W i remint busy =>
    simp only [Vault.step]
    cases hkey : s.held[i]? with
    | none => exact ⟨⟨reg, hdisk, hgood⟩, hheld⟩
    | some rmk =>
      simp only
      obtain rfl := hheld rmk (List.mem_of_getElem? hkey)
      have hremint : ∀ rmk, (if remint then some s.rmk else none) = some rmk → rmk = s.rmk := by
        intro rmk h
        split at h
        · exact (Option.some.inj h).symm
        · cases h
      obtain ⟨-, hok, herr⟩ := @sweepNow_good P H _ _ W _ busy hremint hgood s.disk hdisk
      refine ⟨?_, hheld⟩
      cases hresult : (sweepNow P H W busy (deriveStateKey P s.rmk) (if remint then some s.rmk else none)).result s.disk with
      | ok n => exact hok n hresult
      | error e => exact herr e hresult

/-! ## Initialisation -/

/-- what the holders have after an initialisation -/
def InitBench.holders (P : Primitives) (H : Hashes) (I : InitBench) (first : NewDevice) (adopt : Option Key32) : Holders where
  rmk := I.rmk.1
  nk := initialNodeKey P H I adopt
  secret _ := first.secret
  code i := if h : i.toNat < 10 then (I.code ⟨i.toNat, h⟩).1 else []

variable {I : InitBench} {first : NewDevice} {seconds : UInt32} {permanentAway : Bool} {now : UInt64} {adopt : Option Key32}

theorem length_initialNodeKey : (initialNodeKey P H I adopt).length = 32 := by
  unfold initialNodeKey
  split
  · next nk => exact nk.2
  · exact P.length_hmac _ _

theorem code_index (i : Fin 10) : (I.holders P H first adopt).code (UInt8.ofNat i.val) = (I.code i).1 := by
  have hi : (UInt8.ofNat i.val).toNat = i.val := UInt8.toNat_ofNat_of_lt' (by simpa using i.isLt.trans (by decide))
  unfold InitBench.holders
  simp only [hi, i.isLt, dif_pos]

theorem initialRegistry_good (h : initialRegistry P H I first seconds permanentAway now adopt = .ok reg) :
    Good P H (I.holders P H first adopt) reg := by
  obtain ⟨d, hd, h⟩ := except_bind_ok h
  obtain ⟨⟨⟩, hcheck, h⟩ := except_bind_ok h
  cases h
  have hrmk : (I.holders P H first adopt).rmk.length = 32 := I.rmk.2
  have hesc : ∀ reg : DeviceRegistryFile, reg.escB64 = Base64.encode (emergencySet H I.code) → reg.esc = emergencySet H I.code := by
    intro reg h
    rw [DeviceRegistryFile.esc, h, Base64.decode_encode, Option.getD_some]
  obtain ⟨hid, hrecord⟩ := @newRecord_opens P (I.holders P H first adopt) _ seconds _ _ _ _ _ _ _ I.id.2 hrmk rfl hd
  have hfill : ∀ reg : DeviceRegistryFile, decodes32 reg.escB64 = true → reg.devices = [d] → fillDerived reg = .ok () := by
    intro reg hdec hdev
    unfold fillDerived
    rw [hdec, hdev, if_neg (by simp)]
    simp only [List.find?_cons, hid, decodeHexId_toHex I.id.2, Option.isNone_some, List.find?_nil]
  refine ⟨⟨hfill _ (check_ok_iff.1 hcheck _ List.mem_cons_self) rfl, hcheck⟩, verify_authenticate _ _, hrmk, Opens.authenticate ?_ _⟩
  refine ⟨fun e he => ?_, fun s hs w hw => ?_, ?_, rfl⟩
  · rw [List.mem_singleton.1 he, hesc _ rfl]
    exact hrecord
  · obtain ⟨i, -, rfl⟩ := List.mem_map.1 hs
    cases hw
    rw [hesc _ rfl, code_index]
    exact unwrapSecret_wrapSecret _ _ hrmk
  · refine openNk_eq_ok.2 ?_
    rw [hesc _ rfl]
    exact unwrapSecret_wrapSecret _ _ length_initialNodeKey

theorem initRegistry_good : Spec (fun disk => disk = none) (initRegistry P H I first seconds permanentAway now adopt)
    (fun _ disk => GoodDisk P H (I.holders P H first adopt) disk) (fun _ _ => True) fun _ => True := by
  refine Spec.get_bind ?_
  rintro _ rfl
  simp only [Option.isSome_none, Bool.false_eq_true, if_false]
  refine Spec.ofExcept_bind_any (fun _ _ _ => trivial) (fun _ _ => trivial) fun _ _ => ?_
  have hwrite : Spec (fun disk => disk = none)
      (do
        let reg ← Prog.ofExcept (initialRegistry P H I first seconds permanentAway now adopt)
        Prog.ofExcept I.print
        Prog.modify fun _ => some (.ok reg)
        pure (initialNodeKey P H I adopt, reg))
      (fun _ disk => GoodDisk P H (I.holders P H first adopt) disk) (fun _ _ => True) fun _ => True := by
    refine Spec.ofExcept_bind_any (fun _ _ _ => trivial) (fun _ _ => trivial) fun reg hreg => ?_
    refine Spec.ofExcept_bind_any (fun _ _ _ => trivial) (fun _ _ => trivial) fun _ _ => ?_
    refine Spec.bind (R := fun _ disk => disk = some (.ok reg)) (Spec.modify (fun _ _ => rfl) (fun _ _ => trivial) fun _ _ =>
      trivial) fun _ => Spec.pure _ (fun disk hdisk => ?_) fun _ _ => trivial
    exact ⟨reg, hdisk, initialRegistry_good hreg⟩
  split
  · exact Spec.ofExcept_bind_any (fun _ _ _ => trivial) (fun _ _ => trivial) fun _ _ => hwrite
  · exact hwrite

/-! ## Runs -/

/-- the vault right after an initialisation that found no registry -/
def Vault.start (P : Primitives) (H : Hashes) (I : InitBench) (first : NewDevice) (seconds : UInt32) (permanentAway : Bool)
    (now : UInt64) (adopt : Option Key32) : Vault :=
  ⟨I.holders P H first adopt, (initRegistry P H I first seconds permanentAway now adopt).final none, []⟩

/-- every registered opener opens -/
structure EveryOpenerOpens (P : Primitives) (v : Holders) (reg : DeviceRegistryFile) : Prop where
  /-- a home record, under the secret last installed for it -/
  home : ∀ d ∈ reg.devices, d.kind = .tpm2 → ∃ w, d.wrap = some w ∧
    unwrapSecret P (deriveDeviceKek P (v.secret d.id) d.idBytes) w (recordWrapAad d reg.esc) = .ok v.rmk
  permanent : ∀ d ∈ reg.devices, d.kind = .fido2 → ∀ w, d.wrap = some w →
    unwrapSecret P (deriveDeviceKek P (v.secret d.id) d.idBytes) w (recordWrapAad d reg.esc) = .ok v.rmk
  grant : ∀ d ∈ reg.devices, ∀ g, d.grant = some g →
    unwrapSecret P (deriveDeviceKek P (v.secret d.id) d.idBytes) g.wrap
      (grantAad d.idBytes d.uv g.notAfterUnix reg.awayGrantSeconds reg.esc) = .ok v.rmk
  kekWrap : ∀ d ∈ reg.devices, d.kind = .fido2 → ∃ w, d.kekWrap = some w ∧
    unwrapSecret P (kekCacheKey P v.rmk) w (kekCacheAad d.idBytes reg.esc) = .ok (deriveDeviceKek P (v.secret d.id) d.idBytes)
  code : ∀ s ∈ reg.emergencySlots, s.burnedAtUnix = none → ∃ w, s.wrap = some w ∧
    unwrapSecret P (deriveEmergencyKek P (v.code s.index) s.index) w (emergencyWrapAad s.index reg.esc) = .ok v.rmk
  nodeKey : openNk P reg v.rmk = .ok v.nk

/-- a checked slot that is not burned has its wrap -/
theorem slot_wrap (hcheck : check reg = .ok ()) {e : EmergencySlot} (he : e ∈ reg.emergencySlots) (hburned : e.burnedAtUnix = none) :
    e.wrap.isSome = true := by
  obtain ⟨i, hi, rfl⟩ := List.mem_iff_getElem.1 he
  have hmem : (reg.emergencySlots[i].wrap.isSome != reg.emergencySlots[i].burnedAtUnix.isSome,
      corrupt s!"emergency slot {i} must have exactly one of wrap / burned_at_unix") ∈ checks reg := by
    have hslot : (reg.emergencySlots[i], i) ∈ reg.emergencySlots.zipIdx := by
      rw [List.mk_mem_zipIdx_iff_getElem?]
      exact List.getElem?_eq_getElem hi
    unfold checks
    simp only [List.mem_append]
    exact Or.inl (Or.inl (Or.inl (Or.inl (Or.inr (List.mem_flatMap.2 ⟨_, hslot, List.mem_cons_of_mem _ List.mem_cons_self⟩)))))
  have hone := check_ok_iff.1 hcheck _ hmem
  rw [hburned] at hone
  simpa using hone

theorem kekWrap_isSome {d : DeviceRecord} (hcheck : check reg = .ok ()) (hd : d ∈ reg.devices) (hkind : d.kind = .fido2) :
    d.kekWrap.isSome = true := by
  have hchecks := wraps_checked hcheck hd
  simp only [wrapChecks, hkind, List.mem_cons, List.not_mem_nil, or_false, forall_eq_or_imp, forall_eq, Bool.not_eq_true',
    Bool.or_eq_false_iff] at hchecks
  rw [← Option.not_isNone, hchecks.2.1.2]
  rfl

theorem Good.everyOpener (h : Good P H v reg) : EveryOpenerOpens P v reg := by
  refine ⟨fun d hd hkind => ?_, fun d hd _ => (h.opens.records d hd).wrap, fun d hd => (h.opens.records d hd).grant,
    fun d hd hkind => ?_, fun e he hburned => ?_, h.opens.nkWrap⟩
  · obtain ⟨w, hw⟩ := Option.isSome_iff_exists.1 (home_bare h.valid.checked hd hkind).1
    exact ⟨w, hw, (h.opens.records d hd).wrap w hw⟩
  · obtain ⟨w, hw⟩ := Option.isSome_iff_exists.1 (kekWrap_isSome h.valid.checked hd hkind)
    exact ⟨w, hw, (h.opens.records d hd).kekWrap w hw⟩
  · obtain ⟨w, hw⟩ := Option.isSome_iff_exists.1 (slot_wrap h.valid.checked he hburned)
    exact ⟨w, hw, h.opens.slots e he w hw⟩

/-- **Every registered opener opens.** After an initialisation that succeeded and any sequence of operations, whether or not
each succeeds, the file loads, its state MAC verifies, and everything in it opens with what belongs to it. -/
theorem openers_open (P : Primitives) (H : Hashes) (I : InitBench) (first : NewDevice) (seconds : UInt32) (permanentAway : Bool)
    (now : UInt64) (adopt : Option Key32) {out : Bytes × DeviceRegistryFile}
    (hinit : (initRegistry P H I first seconds permanentAway now adopt).result none = .ok out) (ops : List Op)
    (hapart : Along (fun s op => s.step P H op) (fun s op => op.Apart P H s)
      (Vault.start P H I first seconds permanentAway now adopt) ops) :
    ∃ reg, load.result (run (fun s op => s.step P H op) (Vault.start P H I first seconds permanentAway now adopt) ops).disk = .ok reg ∧
      verifyStateMac P H (deriveStateKey P
        (run (fun s op => s.step P H op) (Vault.start P H I first seconds permanentAway now adopt) ops).rmk) reg = .ok () ∧
      EveryOpenerOpens P
        (run (fun s op => s.step P H op) (Vault.start P H I first seconds permanentAway now adopt) ops).toHolders reg := by
  have hstart : Vault.Good P H (Vault.start P H I first seconds permanentAway now adopt) :=
    ⟨(initRegistry_good none rfl).2.1 out hinit, nofun⟩
  obtain ⟨⟨reg, hdisk, hgood⟩, -⟩ := Along.inv (fun s op hs hop => s.step_good op hs hop) hstart hapart
  exact ⟨reg, congrArg Prod.snd (load_good hdisk hgood), hgood.verified, hgood.everyOpener⟩

namespace Drill

/-- a MAC that adds up the bytes: the first byte of a derived key is all there is to it -/
def primitives : Primitives where
  aead := Aead.tagged
  hmacSha256 k m := (k.sum + m.sum) :: List.replicate 31 0
  crc32 _ := 0
  aead_correct := Aead.tagged_correct
  length_hmac _ _ := rfl

def hashes : Hashes := ⟨fun b => b.sum :: List.replicate 31 0, fun _ _ _ _ _ => .error ""⟩

def key (x : UInt8) : Key32 := ⟨List.replicate 32 x, by simp⟩
def nonce : Nonce := ⟨List.replicate 12 0, length_zeroNonce⟩

def initBench : InitBench where
  rmk := key 9
  root := key 1
  code i := key (UInt8.ofNat (100 + i.val))
  id := ⟨List.replicate 16 0, rfl⟩
  nkNonce := nonce
  wrapNonce := nonce
  kekNonce := nonce
  slotNonce _ := nonce
  verifyNodeKey _ := .ok ()
  print := .ok ()

def home : NewDevice := ⟨"tpm", .tpm2, some ⟨"", "", [], ""⟩, none, (key 5).1, 0⟩
def token : NewDevice := ⟨"token", .fido2, none, some ⟨"", "", "", false⟩, (key 6).1, 0⟩

/-- the TPM and the token answer with their own secrets, and the time is attested -/
def surroundings : Surroundings where
  emergencyCode := .ok none
  tpmUnseal _ := .ok (key 5).1
  passcode _ := .error (.deviceBackend "")
  hmacSecret _ _ := .ok ((key 6).1, 7)
  attestedNow := .ok 1000
  nowHost := 0
  grantNonce _ := nonce
  nkNonce := nonce

def bench : Bench := { surroundings with
  idDraw i := ⟨UInt8.ofNat (i + 1) :: List.replicate 15 0, rfl⟩
  wrapNonce := nonce
  kekNonce := nonce
  tpmReseal _ := .error (.deviceBackend "") }

/-- a token is enrolled, the period is changed, the node key is rotated, the token unlocks, and a daemon sweeps -/
def ops : List Op :=
  [.command surroundings .any bench (.enroll token), .command surroundings .any bench (.setPeriod 3600),
    .rewrite surroundings .any (key 2), .unlock surroundings (.away 1), .sweep surroundings 0 true false]

theorem apart (W : Surroundings) (v : Holders) (reg : DeviceRegistryFile) : KeysApart primitives hashes W v reg := by
  have hderived : ∀ ikm salt info, hkdf32 primitives ikm salt info =
      (hkdf32 primitives ikm salt info).headD 0 :: List.replicate 31 0 := fun _ _ _ => rfl
  have hpresents : ∀ k, Presents primitives hashes W reg k → k = k.headD 0 :: List.replicate 31 0 := by
    intro k h
    cases h with
    | home => exact hderived _ _ _
    | away => exact hderived _ _ _
    | code => exact hderived _ _ _
  have hholds : ∀ k, v.Holds primitives reg k → k = k.headD 0 :: List.replicate 31 0 := by
    intro k h
    cases h with
    | device => exact hderived _ _ _
    | code => exact hderived _ _ _
  intro k k' hk hk' hne
  refine Aead.tagged_separates fun hhead => hne ?_
  rw [hpresents k hk, hholds k' hk', hhead]

theorem inits : ((initRegistry primitives hashes initBench home 60 false 0 none).result none matches .ok _) = true := by
  decide +kernel

end Drill

open Drill in
theorem openers_open_drill : ∃ out, (initRegistry primitives hashes initBench home 60 false 0 none).result none = .ok out ∧
    ∃ reg, load.result (run (fun s op => s.step primitives hashes op)
        (Vault.start primitives hashes initBench home 60 false 0 none) ops).disk = .ok reg ∧
      verifyStateMac primitives hashes (deriveStateKey primitives (run (fun s op => s.step primitives hashes op)
        (Vault.start primitives hashes initBench home 60 false 0 none) ops).rmk) reg = .ok () ∧
      EveryOpenerOpens primitives (run (fun s op => s.step primitives hashes op)
        (Vault.start primitives hashes initBench home 60 false 0 none) ops).toHolders reg := by
  cases hinit : (initRegistry primitives hashes initBench home 60 false 0 none).result none with
  | error e =>
    have h := inits
    rw [hinit] at h
    cases h
  | ok out =>
    refine ⟨out, rfl, openers_open primitives hashes initBench home 60 false 0 none hinit ops ?_⟩
    exact ⟨fun _ _ => apart _ _ _, fun _ _ => apart _ _ _, fun _ _ => apart _ _ _, fun _ _ => apart _ _ _, trivial, trivial⟩

end Y2q.Devices
