/-
What opens a device registry, over every sequence of operations on it: unlocks, commands of the CLI, the rewrite of the
node key's wrap and the sweeps of the daemon.

A `Vault` is the file with what its holders have: the master key, the node key now in force, the secret last installed for
each device and the emergency codes. Operations need not succeed, and attested time may be there or not at each.

- `RecordOpens`: every wrap of a record opens with what belongs to it. One lemma for each way a record changes.
- `Mutation.apply_opens`: a mutation keeps all of them, with the secret it installs.
- `openBy_spec`: an unlock keeps all of them and returns the keys in force.
- `openers_open`: after any sequence of operations every registered opener opens.
-/
import Mathlib.Tactic
import Y2q.Core.Run
import Y2q.Crypto.Devices.Erasure
import Y2q.Crypto.Devices.Mutations

namespace Y2q.Devices

open CrashLogic NodeKeys Run

/-! ## What the holders have -/

structure Holders where
  rmk : Bytes
  nk : Bytes
  /-- the secret last installed for the device with this id -/
  secret : String → Bytes
  code : UInt8 → Bytes

variable (P : Primitives) (H : Hashes)

def Holders.kek (v : Holders) (d : DeviceRecord) : Bytes := deriveDeviceKek P (v.secret d.id) d.idBytes

/-- every wrap of the record opens with what belongs to it -/
structure RecordOpens (v : Holders) (esc : Bytes) (seconds : UInt32) (d : DeviceRecord) : Prop where
  wrap : ∀ w, d.wrap = some w → unwrapSecret P (v.kek P d) w (recordWrapAad d esc) = .ok v.rmk
  grant : ∀ g, d.grant = some g →
    unwrapSecret P (v.kek P d) g.wrap (grantAad d.idBytes d.uv g.notAfterUnix seconds esc) = .ok v.rmk
  kekWrap : ∀ w, d.kekWrap = some w → unwrapSecret P (kekCacheKey P v.rmk) w (kekCacheAad d.idBytes esc) = .ok (v.kek P d)

/-- a registry of this version in which everything opens with what belongs to it -/
structure Opens (v : Holders) (reg : DeviceRegistryFile) : Prop where
  records : ∀ d ∈ reg.devices, RecordOpens P v reg.esc reg.awayGrantSeconds d
  slots : ∀ s ∈ reg.emergencySlots, ∀ w, s.wrap = some w →
    unwrapSecret P (deriveEmergencyKek P (v.code s.index) s.index) w (emergencyWrapAad s.index reg.esc) = .ok v.rmk
  nkWrap : openNk P reg v.rmk = .ok v.nk
  version : reg.formatVersion = DEVICES_FORMAT_VERSION

/-- a registry in force -/
structure Good (v : Holders) (reg : DeviceRegistryFile) : Prop where
  valid : Valid reg
  verified : verifyStateMac P H (deriveStateKey P v.rmk) reg = .ok ()
  rmkLen : v.rmk.length = 32
  opens : Opens P v reg

def GoodDisk (v : Holders) (disk : RegistryDisk) : Prop := ∃ reg, disk = some (.ok reg) ∧ Good P H v reg

variable {P H} {v : Holders} {reg reg' : DeviceRegistryFile} {esc : Bytes} {seconds : UInt32} {d d' : DeviceRecord}

/-! ## Records -/

theorem unwrapSecret_length {kek aad secret : Bytes} {w : Wrap} (h : unwrapSecret P kek w aad = .ok secret) :
    secret.length = 32 := by
  unfold unwrapSecret at h
  split at h
  · cases h
  · cases h
  · split_ifs at h
    split at h
    · cases h
    · split_ifs at h with hlen
      cases h
      exact hlen

theorem length_hkdf32 (ikm salt info : Bytes) : (hkdf32 P ikm salt info).length = 32 := P.length_hmac _ _

theorem RecordOpens.withoutGrant (h : RecordOpens P v esc seconds d) (seconds' : UInt32) :
    RecordOpens P v esc seconds' { d with grant := none } := ⟨h.wrap, nofun, h.kekWrap⟩

theorem RecordOpens.withoutWrap (h : RecordOpens P v esc seconds d) : RecordOpens P v esc seconds { d with wrap := none } :=
  ⟨nofun, h.grant, h.kekWrap⟩

theorem RecordOpens.counted (h : RecordOpens P v esc seconds d) (count : Option UInt32) :
    RecordOpens P v esc seconds { d with signCountLast := count } := ⟨h.wrap, h.grant, h.kekWrap⟩

/-- a grant minted under the key in the record's own cache opens -/
theorem RecordOpens.minted {B : Surroundings} {now : UInt64} {i : ℕ} {g : Grant} (hrmk : v.rmk.length = 32)
    (h : RecordOpens P v reg.esc reg.awayGrantSeconds d) (hg : mintGrant P reg v.rmk now (B.grantNonce i) d = some g) :
    RecordOpens P v reg.esc reg.awayGrantSeconds { d with grant := some g } := by
  refine ⟨h.wrap, fun g' hg' => ?_, h.kekWrap⟩
  cases hg'
  unfold mintGrant at hg
  split_ifs at hg
  split at hg
  · cases hg
  · next w hw =>
    rw [h.kekWrap w hw] at hg
    cases hg
    exact unwrapSecret_wrapSecret _ _ hrmk

/-- other secrets of other devices do not matter -/
theorem RecordOpens.congr {v' : Holders} (h : RecordOpens P v esc seconds d) (hrmk : v'.rmk = v.rmk)
    (hsecret : v'.secret d.id = v.secret d.id) : RecordOpens P v' esc seconds d := by
  have hkek : v'.kek P d = v.kek P d := by rw [Holders.kek, Holders.kek, hsecret]
  exact ⟨by rw [hkek, hrmk]; exact h.wrap, by rw [hkek, hrmk]; exact h.grant, by rw [hkek, hrmk]; exact h.kekWrap⟩

/-! ## Registries -/

theorem Opens.rmk_length (h : Opens P v reg) {d : DeviceRecord} {w : Wrap} (hd : d ∈ reg.devices) (hw : d.wrap = some w) :
    v.rmk.length = 32 := unwrapSecret_length ((h.records d hd).wrap w hw)

theorem Opens.nk_length (h : Opens P v reg) : v.nk.length = 32 := unwrapSecret_length (openNk_eq_ok.1 h.nkWrap)

/-- the registry with its records changed one by one -/
theorem Opens.records_of {ds : List DeviceRecord} (h : Opens P v reg)
    (hds : ∀ d ∈ ds, RecordOpens P v reg.esc reg.awayGrantSeconds d) : Opens P v { reg with devices := ds } :=
  ⟨hds, h.slots, h.nkWrap, h.version⟩

theorem Opens.sweep (h : Opens P v reg) (now : UInt64) : Opens P v (sweepGrants reg now).1 := by
  refine h.records_of fun d hd => ?_
  obtain ⟨d₀, hd₀, rfl⟩ := List.mem_map.1 hd
  split
  · exact (h.records d₀ hd₀).withoutGrant _
  · exact h.records d₀ hd₀

theorem Opens.mint {B : Surroundings} (hrmk : v.rmk.length = 32) (h : Opens P v reg) (now : UInt64) :
    Opens P v (mintGrants P B reg v.rmk now).1 := by
  refine h.records_of fun d hd => ?_
  obtain ⟨⟨d₀, g⟩, hmem, rfl⟩ := List.mem_map.1 hd
  obtain ⟨⟨d₁, i⟩, hmem₁, heq⟩ := List.mem_map.1 hmem
  rw [Prod.mk.injEq] at heq
  obtain ⟨rfl, hg⟩ := heq
  have hd₁ : d₁ ∈ reg.devices := List.fst_mem_of_mem_zipIdx hmem₁
  cases g with
  | none => exact h.records d₁ hd₁
  | some g => exact (h.records d₁ hd₁).minted hrmk hg

theorem Opens.authenticate (h : Opens P v reg) (stateKey : Bytes) : Opens P v (authenticate P H stateKey reg) :=
  ⟨h.records, h.slots, h.nkWrap, h.version⟩

/-! ## Hex ids -/

theorem hexValue_hexDigit : ∀ n : Fin 16, hexValue (hexDigit n.val) = some n.val := by decide +kernel

theorem hexPairs_flatMap (b : Bytes) :
    hexPairs (b.flatMap fun x => [hexDigit (x.toNat / 16), hexDigit (x.toNat % 16)]) = some b := by
  induction b with
  | nil => rfl
  | cons x b ih =>
    have hx : x.toNat < 256 := x.toNat_lt
    have hhi := hexValue_hexDigit ⟨x.toNat / 16, by omega⟩
    have hlo := hexValue_hexDigit ⟨x.toNat % 16, by omega⟩
    have hbyte : UInt8.ofNat (x.toNat / 16 * 16 + x.toNat % 16) = x := by
      rw [Nat.div_add_mod', UInt8.ofNat_toNat]
    simp only at hhi hlo
    rw [List.flatMap_cons, List.cons_append, List.cons_append, List.nil_append, hexPairs, hhi, hlo, ih]
    simp only [Option.bind_eq_bind, Option.bind_some, hbyte]

theorem decodeHexId_toHex {b : Bytes} (h : b.length = 16) : decodeHexId (toHex b) = some b := by
  have hlen : (toHex b).toList.length = 32 := by
    simp [toHex, List.length_flatMap, h]
  unfold decodeHexId
  rw [if_pos hlen, toHex, String.toList_ofList]
  exact hexPairs_flatMap b

/-! ## Mutations -/

/-- the device whose secret a mutation installs, with that secret -/
def Mutation.installs (P : Primitives) (H : Hashes) (B : Bench) (reg : DeviceRegistryFile) (attemptedBy : Authority) :
    Mutation → Option (String × Bytes)
  | .enroll new => (freshId B reg).toOption.map fun b => (toHex b, new.secret)
  | .reseal id => (resealedSecret P H B reg id attemptedBy).toOption.map fun x => (x.2.1.id, x.2.2.2)
  | .setFactor selector factor tpmSecret =>
    (factoredSecret P reg selector factor tpmSecret attemptedBy).toOption.map fun x => (x.2.1.id, x.2.2)
  | .remove _ => none
  | .refresh => none
  | .setPeriod _ => none

def Holders.install (v : Holders) : Option (String × Bytes) → Holders
  | none => v
  | some (id, secret) => { v with secret := fun i => if i = id then secret else v.secret i }

theorem Holders.install_rmk (o : Option (String × Bytes)) : (v.install o).rmk = v.rmk := by
  cases o <;> rfl

theorem Holders.install_self (id : String) (secret : Bytes) : (v.install (some (id, secret))).secret id = secret := if_pos rfl

theorem Holders.install_other {id i : String} (secret : Bytes) (h : i ≠ id) :
    (v.install (some (id, secret))).secret i = v.secret i := if_neg h

theorem newRecord_opens {new : NewDevice} {b : Bytes} {t : UInt64} {permanent : Bool} {n n' : Nonce} (hb : b.length = 16)
    (hrmk : v.rmk.length = 32) (hsecret : v.secret (toHex b) = new.secret)
    (h : newRecord P new b esc v.rmk t permanent n n' = .ok d) : d.id = toHex b ∧ RecordOpens P v esc seconds d := by
  have hid : ∀ d : DeviceRecord, d.id = toHex b → d.idBytes = b := by
    intro d hd
    rw [DeviceRecord.idBytes, hd, decodeHexId_toHex hb]
    rfl
  have hkek : ∀ d : DeviceRecord, d.id = toHex b → v.kek P d = deriveDeviceKek P new.secret b := by
    intro d hd
    rw [Holders.kek, hid d hd, hd, hsecret]
  unfold newRecord at h
  cases hkind : new.kind with
  | tpm2 =>
    simp only [hkind] at h
    split at h
    · cases h
    · cases h
      refine ⟨rfl, fun w hw => ?_, fun g hg => (by cases hg), fun w hw => (by cases hw)⟩
      cases hw
      rw [hkek _ rfl]
      have haad : ∀ d : DeviceRecord, d.id = toHex b → d.kind = .tpm2 → d.homeFactor = none →
          recordWrapAad d esc = deviceWrapAad b .tpm2 false esc := by
        intro d hd hk hf
        simp only [recordWrapAad, DeviceRecord.selector, hid d hd, hk, hf]
        rfl
      rw [haad _ rfl rfl rfl]
      exact unwrapSecret_wrapSecret _ _ hrmk
  | fido2 =>
    simp only [hkind] at h
    split at h
    · cases h
    · next params _ =>
      cases h
      refine ⟨rfl, fun w hw => ?_, fun g hg => (by cases hg), fun w hw => ?_⟩
      · dsimp only at hw
        split_ifs at hw
        cases hw
        rw [hkek _ rfl]
        have haad : ∀ d : DeviceRecord, d.id = toHex b → d.kind = .fido2 → d.uv = params.uvRequired →
            recordWrapAad d esc = deviceWrapAad b .fido2 params.uvRequired esc := by
          intro d hd hk hu
          simp only [recordWrapAad, DeviceRecord.selector, hid d hd, hk, hu]
          rfl
        rw [haad _ rfl rfl rfl]
        exact unwrapSecret_wrapSecret _ _ hrmk
      · cases hw
        rw [hkek _ rfl, hid _ rfl]
        exact unwrapSecret_wrapSecret _ _ (length_hkdf32 _ _ _)

theorem ids_distinct_of_checks {before ds : List DeviceRecord} (h : ∀ c ∈ recordsChecks before ds, c.1 = true) :
    (∀ e ∈ before, ∀ d ∈ ds, e.id ≠ d.id) ∧ ds.Pairwise fun d e => d.id ≠ e.id := by
  induction ds generalizing before with
  | nil => simp
  | cons d ds ih =>
    rw [recordsChecks, List.forall_mem_append] at h
    obtain ⟨hone, hrest⟩ := h
    obtain ⟨hbefore, hpair⟩ := ih hrest
    simp only [recordChecks, List.mem_cons, List.not_mem_nil, or_false, forall_eq_or_imp, forall_eq, Bool.not_eq_true',
      List.any_eq_false, decide_eq_true_eq] at hone
    have hnew := hone.2.2.2.1
    simp only [List.forall_mem_cons, List.pairwise_cons]
    refine ⟨fun e he => ⟨hnew e he, hbefore e (List.mem_append_left _ he)⟩, fun e he => ?_, hpair⟩
    exact hbefore d (List.mem_append_right _ List.mem_cons_self) e he

/-- no two records of a checked registry have the same id -/
theorem ids_distinct (h : check reg = .ok ()) : reg.devices.Pairwise fun d e => d.id ≠ e.id := by
  have hchecks := check_ok_iff.1 h
  refine (@ids_distinct_of_checks [] reg.devices fun c hc => hchecks c ?_).2
  unfold checks
  simp only [List.mem_append]
  exact Or.inl (Or.inl (Or.inr hc))

theorem Opens.install_fresh {id : String} (h : Opens P v reg) (hid : ∀ d ∈ reg.devices, d.id ≠ id) (secret : Bytes) :
    Opens P (v.install (some (id, secret))) reg :=
  ⟨fun d hd => (h.records d hd).congr rfl (Holders.install_other _ (hid d hd)), h.slots, h.nkWrap, h.version⟩

/-- a record changed, with the secret of its device -/
theorem Opens.set {i : ℕ} {secret : Bytes} (h : Opens P v reg) (hcheck : check reg = .ok ()) (hd : reg.devices[i]? = some d)
    (hnew : RecordOpens P (v.install (some (d.id, secret))) reg.esc reg.awayGrantSeconds d') :
    Opens P (v.install (some (d.id, secret))) { reg with devices := reg.devices.set i d' } := by
  refine ⟨fun e he => ?_, h.slots, h.nkWrap, h.version⟩
  obtain ⟨j, hj, rfl⟩ := List.mem_iff_getElem.1 he
  simp only [List.length_set] at hj
  rw [List.getElem_set]
  split_ifs with hij
  · exact hnew
  · refine (h.records _ (List.getElem_mem hj)).congr rfl (Holders.install_other _ fun heq => ?_)
    obtain ⟨hi, rfl⟩ := List.getElem?_eq_some_iff.1 hd
    have hpair := List.pairwise_iff_getElem.1 (ids_distinct hcheck)
    rcases Nat.lt_or_gt_of_ne hij with hlt | hgt
    · exact hpair i j hi hj hlt heq.symm
    · exact hpair j i hj hi hgt heq

theorem freshId_ok {B : Bench} {b : Bytes} (h : freshId B reg = .ok b) :
    b.length = 16 ∧ ∀ d ∈ reg.devices, d.id ≠ toHex b := by
  unfold freshId at h
  split at h
  · next b' hfind =>
    cases h
    obtain ⟨i, -, hi⟩ := List.mem_map.1 (List.mem_of_find?_eq_some hfind)
    refine ⟨hi ▸ (B.idDraw i).2, fun d hd hid => ?_⟩
    have hnone := List.find?_some hfind
    rw [Bool.not_eq_true', List.any_eq_false] at hnone
    exact hnone d hd (by simpa using hid)
  · cases h

theorem Opens.stripped (h : Opens P v reg) : Opens P v (stripped reg) := by
  refine h.records_of fun d hd => ?_
  obtain ⟨d₀, hd₀, rfl⟩ := List.mem_map.1 hd
  split
  · exact (h.records d₀ hd₀).withoutWrap
  · exact h.records d₀ hd₀

theorem Opens.withRecord (h : Opens P v reg) (hd : RecordOpens P v reg.esc reg.awayGrantSeconds d) :
    Opens P v (withRecord reg d) := by
  refine ⟨fun e he => ?_, h.slots, h.nkWrap, h.version⟩
  rcases List.mem_append.1 he with he | he
  · exact h.records e he
  · rw [List.mem_singleton.1 he]
    exact hd

theorem enrollDevice_opens {B : Bench} {new : NewDevice} {a : Authority} (hrmk : v.rmk.length = 32) (hopens : Opens P v reg)
    (h : enrollDevice P B reg new v.rmk a = .ok reg') :
    Opens P (v.install ((Mutation.enroll new).installs P H B reg a)) reg' := by
  obtain ⟨⟨⟩, -, h⟩ := except_bind_ok h
  obtain ⟨b, hb, h⟩ := except_bind_ok h
  obtain ⟨d, hd, h⟩ := except_bind_ok h
  obtain ⟨hlen, hfresh⟩ := freshId_ok hb
  have hinstalls : (Mutation.enroll new).installs P H B reg a = some (toHex b, new.secret) := by
    simp only [Mutation.installs, hb, Except.toOption, Option.map_some]
  rw [hinstalls]
  have hnew := @newRecord_opens P (v.install (some (toHex b, new.secret))) _ reg.awayGrantSeconds _ _ _ _ _ _ _ hlen hrmk
    (Holders.install_self _ _) hd
  have hwith := (hopens.install_fresh hfresh new.secret).withRecord hnew.2
  have hrmk' : (v.install (some (toHex b, new.secret))).rmk.length = 32 := hrmk
  split_ifs at h
  · split at h
    · cases h
      exact hwith.stripped.mint hrmk' _
    · cases h
      exact hwith.stripped
  · cases h
    exact hwith

theorem removeDevice_opens {selector : String} {a : Authority} (hopens : Opens P v reg)
    (h : removeDevice reg selector a = .ok reg') : Opens P v reg' := by
  obtain ⟨⟨i, d⟩, -, h⟩ := except_bind_ok h
  obtain ⟨⟨⟩, -, h⟩ := except_bind_ok h
  cases h
  exact ⟨fun e he => hopens.records e (List.mem_of_mem_eraseIdx he), hopens.slots, hopens.nkWrap, hopens.version⟩

theorem refreshGrants_opens {B : Bench} {a : Authority} (hrmk : v.rmk.length = 32) (hopens : Opens P v reg)
    (h : refreshGrants P B reg v.rmk a = .ok reg') : Opens P v reg' := by
  unfold refreshGrants at h
  split_ifs at h
  obtain ⟨now, -, h⟩ := except_bind_ok h
  cases h
  exact (hopens.sweep now).mint hrmk now

theorem withPeriod_opens {B : Bench} (hopens : Opens P v reg) (seconds : UInt32) :
    Opens P v (withPeriod P B reg seconds v.nk v.rmk) := by
  refine ⟨fun d hd => ?_, hopens.slots, openNk_eq_ok.2 (unwrapSecret_wrapSecret _ _ hopens.nk_length), hopens.version⟩
  obtain ⟨d₀, hd₀, rfl⟩ := List.mem_map.1 hd
  exact (hopens.records d₀ hd₀).withoutGrant seconds

theorem setGrantPeriod_opens {B : Bench} {seconds : UInt32} {a : Authority} (hrmk : v.rmk.length = 32) (hopens : Opens P v reg)
    (h : setGrantPeriod P B reg seconds v.nk v.rmk a = .ok reg') : Opens P v reg' := by
  have hperiod := withPeriod_opens (B := B) hopens seconds
  unfold setGrantPeriod at h
  split at h
  · cases h
  · obtain ⟨⟨⟩, -, h⟩ := except_bind_ok h
    split_ifs at h
    · split at h
      · cases h
        exact hperiod.mint hrmk _
      · cases h
        exact hperiod
    · cases h
      exact hperiod

theorem selectRecord_ok {selector : String} {i : ℕ} (h : selectRecord reg selector = .ok (i, d)) : reg.devices[i]? = some d := by
  obtain ⟨j, -, h⟩ := except_bind_ok h
  split at h
  · next d' hd' =>
    cases h
    exact hd'
  · cases h

theorem resealedSecret_ok {B : Bench} {id : String} {a : Authority} {i : ℕ} {params : Tpm2Params} {secret : Bytes}
    (h : resealedSecret P H B reg id a = .ok (i, d, params, secret)) : reg.devices[i]? = some d ∧ d.kind = .tpm2 := by
  obtain ⟨⟨⟩, -, h⟩ := except_bind_ok h
  obtain ⟨⟨j, d'⟩, hselect, h⟩ := except_bind_ok h
  simp only at h
  split at h
  · next hkind _ =>
    obtain ⟨⟨newParams, newSecret⟩, -, h⟩ := except_bind_ok h
    obtain ⟨⟨⟩, -, h⟩ := except_bind_ok h
    obtain ⟨deviceSecret, -, h⟩ := except_bind_ok h
    cases h
    exact ⟨selectRecord_ok hselect, hkind⟩
  · cases h

theorem factoredSecret_ok {selector : String} {factor : Option NewHomeFactor} {tpmSecret secret : Bytes} {a : Authority} {i : ℕ}
    (h : factoredSecret P reg selector factor tpmSecret a = .ok (i, d, secret)) :
    reg.devices[i]? = some d ∧ d.kind = .tpm2 := by
  obtain ⟨⟨⟩, -, h⟩ := except_bind_ok h
  obtain ⟨⟨j, d'⟩, hselect, h⟩ := except_bind_ok h
  simp only at h
  split at h
  · cases h
  · next hkind =>
    obtain ⟨⟨⟩, -, h⟩ := except_bind_ok h
    obtain ⟨secret', -, h⟩ := except_bind_ok h
    cases h
    exact ⟨selectRecord_ok hselect, not_not.1 hkind⟩

/-- the record of a home device sealed again under another secret -/
theorem RecordOpens.sealed {secret : Bytes} {nonce : Nonce} (hrmk : v.rmk.length = 32) (hid : d'.id = d.id)
    (hgrant : d'.grant = none) (hkek : d'.kekWrap = none)
    (hwrap : d'.wrap = some (wrapSecret P (deriveDeviceKek P secret d.idBytes) v.rmk (recordWrapAad d' esc) nonce)) :
    RecordOpens P (v.install (some (d.id, secret))) esc seconds d' := by
  refine ⟨fun w hw => ?_, fun g hg => ?_, fun w hw => ?_⟩
  · have hkek' : (v.install (some (d.id, secret))).kek P d' = deriveDeviceKek P secret d.idBytes := by
      rw [Holders.kek, hid, Holders.install_self, DeviceRecord.idBytes, DeviceRecord.idBytes, hid]
    rw [hwrap] at hw
    cases hw
    rw [hkek']
    exact unwrapSecret_wrapSecret _ _ hrmk
  · rw [hgrant] at hg
    cases hg
  · rw [hkek] at hw
    cases hw

/-- a checked home record has none of the fields of an away record -/
theorem home_bare (hcheck : check reg = .ok ()) (hd : d ∈ reg.devices) (hkind : d.kind = .tpm2) :
    d.wrap.isSome = true ∧ d.grant = none ∧ d.kekWrap = none := by
  have hchecks := wraps_checked hcheck hd
  simp only [wrapChecks, hkind, List.cons_append, List.nil_append, List.mem_cons, forall_eq_or_imp, Bool.not_eq_true',
    Bool.or_eq_false_iff, Option.isSome_eq_false_iff, Option.isNone_iff_eq_none] at hchecks
  exact ⟨hchecks.1, hchecks.2.1.1.1, hchecks.2.1.2⟩

theorem resealDevice_opens {B : Bench} {id : String} {a : Authority} (hrmk : v.rmk.length = 32) (hcheck : check reg = .ok ())
    (hopens : Opens P v reg) (h : resealDevice P H B reg id v.rmk a = .ok reg') :
    Opens P (v.install ((Mutation.reseal id).installs P H B reg a)) reg' := by
  obtain ⟨⟨i, d, params, secret⟩, hsecret, h⟩ := except_bind_ok h
  have hinstalls : (Mutation.reseal id).installs P H B reg a = some (d.id, secret) := by
    simp only [Mutation.installs, hsecret, Except.toOption, Option.map_some]
  rw [hinstalls]
  cases h
  obtain ⟨hd, hkind⟩ := resealedSecret_ok hsecret
  obtain ⟨-, hgrant, hkek⟩ := home_bare hcheck (List.mem_of_getElem? hd) hkind
  exact hopens.set hcheck hd (RecordOpens.sealed hrmk rfl hgrant hkek rfl)

theorem setHomeFactor_opens {B : Bench} {selector : String} {factor : Option NewHomeFactor} {tpmSecret : Bytes} {a : Authority}
    (hrmk : v.rmk.length = 32) (hcheck : check reg = .ok ()) (hopens : Opens P v reg)
    (h : setHomeFactor P B reg selector factor tpmSecret v.rmk a = .ok reg') :
    Opens P (v.install ((Mutation.setFactor selector factor tpmSecret).installs P H B reg a)) reg' := by
  obtain ⟨⟨i, d, secret⟩, hsecret, h⟩ := except_bind_ok h
  have hinstalls : (Mutation.setFactor selector factor tpmSecret).installs P H B reg a = some (d.id, secret) := by
    simp only [Mutation.installs, hsecret, Except.toOption, Option.map_some]
  rw [hinstalls]
  cases h
  obtain ⟨hd, hkind⟩ := factoredSecret_ok hsecret
  obtain ⟨-, hgrant, hkek⟩ := home_bare hcheck (List.mem_of_getElem? hd) hkind
  have haad : recordWrapAad { d with homeFactor := factor.map (·.factor) } reg.esc =
      deviceWrapAadRaw d.idBytes .tpm2 (factorByte (factor.map (·.factor))) reg.esc := by
    simp only [recordWrapAad, DeviceRecord.selector, hkind]
    rfl
  refine hopens.set hcheck hd (@RecordOpens.sealed P v _ _ _ _ _ B.wrapNonce hrmk rfl hgrant hkek ?_)
  rw [← haad]
  rfl

/-- **A mutation keeps every opener**, with the secret it installs. -/
theorem Mutation.apply_opens {B : Bench} {m : Mutation} {a : Authority} (hrmk : v.rmk.length = 32) (hcheck : check reg = .ok ())
    (hopens : Opens P v reg) (h : m.apply P H B reg v.nk v.rmk a = .ok reg') :
    Opens P (v.install (m.installs P H B reg a)) reg' := by
  cases m with
  | enroll new => exact enrollDevice_opens hrmk hopens h
  | remove selector => exact removeDevice_opens hopens h
  | refresh => exact refreshGrants_opens hrmk hopens h
  | setPeriod seconds => exact setGrantPeriod_opens hrmk hopens h
  | reseal id => exact resealDevice_opens hrmk hcheck hopens h
  | setFactor selector factor tpmSecret => exact setHomeFactor_opens hrmk hcheck hopens h

/-! ## Unlocks -/

/-- how the registry is opened: by `unlock`, or by one of the ways it tries -/
inductive Opener where
  | any
  | home (i : ℕ)
  | away (i : ℕ)
  | emergency

def openBy (P : Primitives) (H : Hashes) (W : Surroundings) : Opener → Prog RegistryDisk CryptoError UnlockOutcome
  | .any => unlock P H W
  | .home i => do
    let reg ← load
    match reg.devices[i]? with
    | none => Prog.throw (.deviceNotFound "")
    | some d => do
      let (reg, u) ← unlockWithHome P H W reg d
      pure (finishOutcome P reg u (.home d.id d.label))
  | .away i => do
    let reg ← load
    match reg.devices[i]? with
    | none => Prog.throw (.deviceNotFound "")
    | some d => do
      let (reg, r) ← awayAttempt P H W reg i d
      match r with
      | .error e => Prog.throw e
      | .ok u =>
        pure (finishOutcome P reg u (.away d.id d.label (if d.wrap.isSome then none else d.grant.map (·.notAfterUnix))))
  | .emergency => do
    let reg ← load
    let code ← Prog.ofExcept W.emergencyCode
    match ← emergencyUnlock P H W reg code with
    | none => Prog.throw .emergencyCodeRejected
    | some (reg, u, slot) => pure (finishOutcome P reg u (.emergency slot))

/-- a key that the run may derive from what it is presented -/
inductive Presents (P : Primitives) (H : Hashes) (W : Surroundings) (reg : DeviceRegistryFile) : Bytes → Prop where
  | home {d : DeviceRecord} {params : Tpm2Params} {tpmSecret secret : Bytes} :
    d ∈ reg.devices → d.tpm2 = some params → W.tpmUnseal params = .ok tpmSecret →
      homeDeviceSecret P H W reg d tpmSecret = .ok secret → Presents P H W reg (deriveDeviceKek P secret d.idBytes)
  | away {d : DeviceRecord} {params : Fido2Params} {secret : Bytes} {count : UInt32} :
    d ∈ reg.devices → d.fido2 = some params → W.hmacSecret params d.label = .ok (secret, count) →
      Presents P H W reg (deriveDeviceKek P secret d.idBytes)
  | code {text : String} {code : Bytes} {s : EmergencySlot} :
    W.emergencyCode = .ok (some text) → decodeCode (trim text) = .ok code → s ∈ reg.emergencySlots →
      Presents P H W reg (deriveEmergencyKek P code s.index)

/-- a key under which something in the registry is sealed -/
inductive Holders.Holds (P : Primitives) (v : Holders) (reg : DeviceRegistryFile) : Bytes → Prop where
  | device {d : DeviceRecord} : d ∈ reg.devices → v.Holds P reg (v.kek P d)
  | code {s : EmergencySlot} : s ∈ reg.emergencySlots → v.Holds P reg (deriveEmergencyKek P (v.code s.index) s.index)

/-- no presented key opens what is sealed under another key -/
def KeysApart (P : Primitives) (H : Hashes) (W : Surroundings) (v : Holders) (reg : DeviceRegistryFile) : Prop :=
  ∀ k k', Presents P H W reg k → v.Holds P reg k' → k ≠ k' → P.aead.KeySeparates k k'

variable {W : Surroundings} {r : DeviceRegistryFile} {nk rmk : Bytes}

/-- two keys that open one wrap, and are apart if they differ, open it to one secret -/
theorem unwrapSecret_unique {k k' aad secret secret' : Bytes} {w : Wrap} (hapart : k ≠ k' → P.aead.KeySeparates k k')
    (h : unwrapSecret P k w aad = .ok secret) (h' : unwrapSecret P k' w aad = .ok secret') : secret = secret' := by
  by_cases hk : k = k'
  · rw [hk, h'] at h
    cases h
    rfl
  · obtain ⟨n, ct, hn, hct, hd⟩ := unwrapSecret_ok h
    obtain ⟨n', ct', hn', hct', hd'⟩ := unwrapSecret_ok h'
    rw [hct] at hct'
    cases hct'
    rw [hapart hk _ _ n' _ _ _ hd] at hd'
    cases hd'

/-- what an unlock that succeeds leaves and returns -/
def Granted (P : Primitives) (H : Hashes) (v : Holders) (reg : DeviceRegistryFile) (nk rmk : Bytes) (disk : RegistryDisk) : Prop :=
  disk = some (.ok reg) ∧ Good P H v reg ∧ nk = v.nk ∧ rmk = v.rmk

theorem Granted.disk {disk : RegistryDisk} (h : Granted P H v reg nk rmk disk) : GoodDisk P H v disk := ⟨reg, h.1, h.2.1⟩

theorem openHome_keys (hopens : Opens P v reg) (hapart : KeysApart P H W v reg) (hd : d ∈ reg.devices)
    (h : openHome P H W reg d = .ok (rmk, nk)) : nk = v.nk ∧ rmk = v.rmk := by
  obtain ⟨params, hparams, h⟩ := except_bind_ok h
  obtain ⟨tpmSecret, htpm, h⟩ := except_bind_ok h
  obtain ⟨secret, hsecret, h⟩ := except_bind_ok h
  obtain ⟨⟨⟩, -, h⟩ := except_bind_ok h
  obtain ⟨rmk', hrmk, h⟩ := except_bind_ok h
  obtain ⟨⟨⟩, -, h⟩ := except_bind_ok h
  obtain ⟨nk', hnk, h⟩ := except_bind_ok h
  cases h
  have htpm2 : d.tpm2 = some params := by
    unfold tpmParams at hparams
    split at hparams
    · cases hparams
    · cases hparams
      assumption
  have hown : rmk = v.rmk := by
    unfold rmkFromPermanent at hrmk
    split at hrmk
    · cases hrmk
    · next w hw =>
      exact unwrapSecret_unique (hapart _ _ (.home hd htpm2 htpm hsecret) (.device hd)) hrmk ((hopens.records d hd).wrap w hw)
  rw [hown, hopens.nkWrap] at hnk
  cases hnk
  exact ⟨rfl, hown⟩

theorem openAway_key {secret : Bytes} (hopens : Opens P v reg) (hd : d ∈ reg.devices)
    (hapart : deriveDeviceKek P secret d.idBytes ≠ v.kek P d →
      P.aead.KeySeparates (deriveDeviceKek P secret d.idBytes) (v.kek P d))
    (h : openAway P H reg d secret = .ok rmk) : rmk = v.rmk := by
  obtain ⟨⟨⟩, -, h⟩ := except_bind_ok h
  obtain ⟨rmk', hrmk, h⟩ := except_bind_ok h
  obtain ⟨⟨⟩, -, h⟩ := except_bind_ok h
  cases h
  unfold rmkFromAway rmkFromPermanent at hrmk
  cases hw : d.wrap with
  | some w =>
    simp only [hw] at hrmk
    exact unwrapSecret_unique hapart hrmk ((hopens.records d hd).wrap w hw)
  | none =>
    cases hg : d.grant with
    | some g =>
      simp only [hw, hg] at hrmk
      exact unwrapSecret_unique hapart hrmk ((hopens.records d hd).grant g hg)
    | none =>
      simp only [hw, hg] at hrmk
      cases hrmk

theorem openSlot_key {code : Bytes} {pos : ℕ} (hopens : Opens P v reg)
    (hapart : ∀ s ∈ reg.emergencySlots, deriveEmergencyKek P code s.index ≠ deriveEmergencyKek P (v.code s.index) s.index →
      P.aead.KeySeparates (deriveEmergencyKek P code s.index) (deriveEmergencyKek P (v.code s.index) s.index))
    (h : openSlot P reg code = .ok (rmk, pos)) : rmk = v.rmk := by
  have hgo : ∀ slots : List (EmergencySlot × ℕ), (∀ x ∈ slots, x.1 ∈ reg.emergencySlots) →
      openSlot.go P reg code slots = .ok (rmk, pos) → rmk = v.rmk := by
    intro slots hslots hgo
    induction slots with
    | nil => cases hgo
    | cons x slots ih =>
      obtain ⟨s, i⟩ := x
      simp only [List.mem_cons, forall_eq_or_imp] at hslots
      unfold openSlot.go at hgo
      split at hgo
      · exact ih hslots.2 hgo
      · next w hw =>
        split at hgo
        · next hopen =>
          cases hgo
          exact unwrapSecret_unique (hapart s hslots.1) hopen (hopens.slots s hslots.1 w hw)
        · exact ih hslots.2 hgo
        · cases hgo
  unfold openSlot at h
  split_ifs at h
  exact hgo _ (fun x hx => List.fst_mem_of_mem_zipIdx hx) h

theorem openEmergency_keys {text : String} {pos : ℕ} (hopens : Opens P v reg) (hapart : KeysApart P H W v reg)
    (htext : W.emergencyCode = .ok (some text)) (h : openEmergency P H reg text = .ok (rmk, pos, nk)) :
    nk = v.nk ∧ rmk = v.rmk := by
  obtain ⟨code, hcode, h⟩ := except_bind_ok h
  obtain ⟨⟨rmk', pos'⟩, hslot, h⟩ := except_bind_ok h
  obtain ⟨⟨⟩, -, h⟩ := except_bind_ok h
  obtain ⟨nk', hnk, h⟩ := except_bind_ok h
  cases h
  have hown := openSlot_key hopens (fun s hs => hapart _ _ (.code htext hcode hs) (.code hs)) hslot
  rw [hown, hopens.nkWrap] at hnk
  cases hnk
  exact ⟨rfl, hown⟩

theorem persist_good (hrmk : v.rmk.length = 32) (hopens : Opens P v reg) (disk : RegistryDisk) :
    Spec (fun d => d = disk) (persist P H (deriveStateKey P v.rmk) reg)
      (fun reg' d => (d = some (.ok reg') ∧ Good P H v reg') ∧ reg'.devices = reg.devices) (fun _ d => d = disk)
      (fun d => d = disk ∨ GoodDisk P H v d) := by
  refine Spec.ofExcept_bind_any (fun _ _ hd => hd) (fun _ hd => Or.inl hd) fun _ hfill => ?_
  refine Spec.ofExcept_bind_any (fun _ _ hd => hd) (fun _ hd => Or.inl hd) fun _ hcheck => ?_
  have hnew : Good P H v (authenticate P H (deriveStateKey P v.rmk) reg) :=
    ⟨⟨hfill, hcheck⟩, verify_authenticate _ _, hrmk, hopens.authenticate _⟩
  have hdone : ∀ d : RegistryDisk, d = some (.ok (authenticate P H (deriveStateKey P v.rmk) reg)) → d = disk ∨ GoodDisk P H v d :=
    fun _ hd => Or.inr ⟨_, hd, hnew⟩
  exact Spec.bind (R := fun _ d => d = some (.ok (authenticate P H (deriveStateKey P v.rmk) reg)))
    (Spec.modify (fun _ _ => rfl) (fun _ hd => Or.inl hd) fun _ _ => hdone _ rfl) fun _ =>
      Spec.pure _ (fun d hd => ⟨⟨hd, hnew⟩, rfl⟩) hdone

theorem persist_granted {disk : RegistryDisk} (hrmk : v.rmk.length = 32) (hdisk : GoodDisk P H v disk) (hopens : Opens P v reg) :
    Spec (fun d => d = disk) (persist P H (deriveStateKey P v.rmk) reg)
      (fun reg' d => (d = some (.ok reg') ∧ Good P H v reg') ∧ reg'.devices = reg.devices) (fun _ d => d = disk)
      (GoodDisk P H v) := by
  refine (persist_good hrmk hopens disk).conseq (fun _ hd => hd) (fun _ _ hq => hq) (fun _ _ he => he) fun d hd => ?_
  rcases hd with rfl | hd
  · exact hdisk
  · exact hd

theorem unlockWithHome_granted (hgood : Good P H v reg) (hapart : KeysApart P H W v reg) (hd : d ∈ reg.devices) :
    Spec (fun disk => disk = some (.ok reg)) (unlockWithHome P H W reg d)
      (fun x disk => Granted P H v x.1 x.2.nk x.2.rmk disk) (fun _ disk => disk = some (.ok reg)) (GoodDisk P H v) := by
  have hdisk : ∀ disk, disk = some (.ok reg) → GoodDisk P H v disk := fun _ h => ⟨reg, h, hgood⟩
  refine Spec.ofExcept_bind_any (fun _ _ hd => hd) hdisk ?_
  intro ⟨rmk, nk⟩ hopen
  obtain ⟨rfl, rfl⟩ := openHome_keys hgood.opens hapart hd hopen
  have hsame : ∀ issued erased, Spec (fun disk => disk = some (.ok reg))
      (pure (reg, Unlock.mk v.nk v.rmk issued erased) : Prog RegistryDisk CryptoError (DeviceRegistryFile × Unlock))
      (fun x disk => Granted P H v x.1 x.2.nk x.2.rmk disk) (fun _ disk => disk = some (.ok reg)) (GoodDisk P H v) :=
    fun _ _ => Spec.pure _ (fun _ hd => ⟨hd, hgood, rfl, rfl⟩) hdisk
  cases hnow : W.attestedNow with
  | error e => exact hsame 0 0
  | ok now =>
    simp only
    split_ifs
    · have hnew := (hgood.opens.sweep now).mint (B := W) hgood.rmkLen now
      refine Spec.bind (persist_granted hgood.rmkLen ⟨reg, rfl, hgood⟩ hnew) fun reg' => Spec.pure _ ?_ ?_
      · exact fun disk hd => ⟨hd.1.1, hd.1.2, rfl, rfl⟩
      · exact fun disk hd => ⟨reg', hd.1⟩
    · exact hsame _ _

theorem tryHomeRecords_granted (hgood : Good P H v reg) (hapart : KeysApart P H W v reg) (ds : List DeviceRecord)
    (hds : ∀ d ∈ ds, d ∈ reg.devices) (reasons : List String) :
    Spec (fun disk => disk = some (.ok reg)) (tryHomeRecords P H W reg ds reasons)
      (fun o disk => match o with
        | .ok x => Granted P H v x.1 x.2.1.nk x.2.1.rmk disk
        | .error _ => disk = some (.ok reg)) (fun _ => GoodDisk P H v) (GoodDisk P H v) := by
  have hdisk : ∀ disk, disk = some (.ok reg) → GoodDisk P H v disk := fun _ h => ⟨reg, h, hgood⟩
  induction ds generalizing reasons with
  | nil => exact Spec.pure _ (fun _ hd => hd) hdisk
  | cons d ds ih =>
    rw [List.forall_mem_cons] at hds
    unfold tryHomeRecords
    split_ifs
    · exact ih hds.2 reasons
    · refine Spec.bind (Spec.attempt (unlockWithHome_granted hgood hapart hds.1)
        (B := fun o disk => Except.casesOn (motive := fun _ => Prop) o (fun _ => disk = some (.ok reg))
          fun x => Granted P H v x.1 x.2.nk x.2.rmk disk) (fun _ _ hq => hq) fun _ _ he => he) fun o => ?_
      cases o with
      | ok x => exact Spec.pure _ (fun disk hd => hd) fun _ hd => hd.disk
      | error e =>
        simp only
        split_ifs
        · exact ih hds.2 _
        · exact Spec.throw hdisk hdisk

/-- a registry in memory that came from `r` by unlocks that failed -/
structure Like (P : Primitives) (v : Holders) (r reg : DeviceRegistryFile) : Prop where
  opens : Opens P v reg
  faces : ∀ d' ∈ reg.devices, ∃ d ∈ r.devices, SameFace d d'

theorem Like.lighter {ds : List DeviceRecord} (h : Like P v r reg) (hds : List.Forall₂ Lighter reg.devices ds)
    (hopens : Opens P v { reg with devices := ds }) : Like P v r { reg with devices := ds } := by
  refine ⟨hopens, fun d'' hd'' => ?_⟩
  obtain ⟨d', hd', hl⟩ := exists_of_mem_lighter hds hd''
  obtain ⟨d, hd, hf⟩ := h.faces d' hd'
  exact ⟨d, hd, hl.id.trans hf.id, hl.label.trans hf.label, hl.kind.trans hf.kind, hl.tpm2.trans hf.tpm2,
    hl.fido2.trans hf.fido2⟩

theorem Like.sweep (h : Like P v r reg) (now : UInt64) : Like P v r (sweepGrants reg now).1 :=
  h.lighter (forall₂_lighter_sweepGrants reg now) (h.opens.sweep now)

/-- what an authenticator presents is apart from what its record is sealed under -/
theorem Like.apart {params : Fido2Params} {secret : Bytes} {count : UInt32} (h : Like P v r reg) (hapart : KeysApart P H W v r)
    (hd : d ∈ reg.devices) (hparams : d.fido2 = some params) (hsecret : W.hmacSecret params d.label = .ok (secret, count)) :
    deriveDeviceKek P secret d.idBytes ≠ v.kek P d → P.aead.KeySeparates (deriveDeviceKek P secret d.idBytes) (v.kek P d) := by
  obtain ⟨d₀, hd₀, hface⟩ := h.faces d hd
  have hbytes : d.idBytes = d₀.idBytes := by rw [DeviceRecord.idBytes, DeviceRecord.idBytes, hface.id]
  have hkek : v.kek P d = v.kek P d₀ := by rw [Holders.kek, Holders.kek, hbytes, hface.id]
  rw [hface.fido2] at hparams
  rw [hface.label] at hsecret
  rw [hbytes, hkek]
  exact hapart _ _ (.away hd₀ hparams hsecret) (.device hd₀)

/-- the registry in memory after an attempt with an away device, and its key or error -/
def Attempted (P : Primitives) (H : Hashes) (v : Holders) (r : DeviceRegistryFile) (x : DeviceRegistryFile × Except CryptoError Unlock)
    (disk : RegistryDisk) : Prop :=
  match x.2 with
  | .ok u => Granted P H v x.1 u.nk u.rmk disk
  | .error _ => GoodDisk P H v disk ∧ Like P v r x.1

theorem sweepForAway_good (hrmk : v.rmk.length = 32) (hlike : Like P v r reg) :
    Spec (GoodDisk P H v) (sweepForAway P H W (deriveStateKey P v.rmk) reg d)
      (fun x disk => GoodDisk P H v disk ∧ Like P v r x.1) (fun _ => GoodDisk P H v) (GoodDisk P H v) := by
  have hsame : ∀ (reg' : DeviceRegistryFile) (e : Except CryptoError ℕ), Like P v r reg' → Spec (GoodDisk P H v)
      (pure (reg', e) : Prog RegistryDisk CryptoError _) (fun x disk => GoodDisk P H v disk ∧ Like P v r x.1)
      (fun _ => GoodDisk P H v) (GoodDisk P H v) :=
    fun _ _ hl => Spec.pure _ (fun _ hd => ⟨hd, hl⟩) fun _ hd => hd
  unfold sweepForAway
  split
  · cases hnow : W.attestedNow with
    | error e => exact hsame _ _ hlike
    | ok now =>
      simp only
      split_ifs
      · refine Spec.of_states fun disk hdisk => ?_
        have hswept := hlike.sweep now
        refine Spec.bind ((persist_granted hrmk hdisk hswept.opens).conseq (fun _ hd => hd) (fun _ _ hq => hq)
          (fun _ _ he => he ▸ hdisk) fun _ hc => hc) fun reg' => Spec.pure _ (fun _ hd => ?_) fun _ hd => ⟨reg', hd.1⟩
        exact ⟨⟨reg', hd.1⟩, hd.1.2.opens, fun d' hd' => hswept.faces d' (hd.2 ▸ hd')⟩
      · exact hsame _ _ (hlike.sweep now)
  · exact hsame _ _ hlike

theorem Opens.counted (h : Opens P v reg) (i : ℕ) (asserted : UInt32) :
    Opens P v { reg with devices := reg.devices.modify i fun d => { d with signCountLast := some asserted } } := by
  refine h.records_of fun d hd => ?_
  obtain ⟨j, hj, rfl⟩ := List.mem_iff_getElem.1 hd
  rw [List.getElem_modify]
  simp only [List.length_modify] at hj
  split
  · exact (h.records _ (List.getElem_mem hj)).counted _
  · exact h.records _ (List.getElem_mem hj)

theorem unlockWithAway_attempted {secret : Bytes} {asserted : UInt32} {i : ℕ} (hrmk : v.rmk.length = 32) (hlike : Like P v r reg)
    (hd : d ∈ reg.devices) (hapart : deriveDeviceKek P secret d.idBytes ≠ v.kek P d →
      P.aead.KeySeparates (deriveDeviceKek P secret d.idBytes) (v.kek P d)) :
    Spec (GoodDisk P H v) (unlockWithAway P H W reg i d secret asserted) (Attempted P H v r) (fun _ => GoodDisk P H v)
      (GoodDisk P H v) := by
  have hfail : ∀ (reg : DeviceRegistryFile) (e : CryptoError), Spec (fun disk => GoodDisk P H v disk ∧ Like P v r reg)
      (pure (reg, .error e) : Prog RegistryDisk CryptoError (DeviceRegistryFile × Except CryptoError Unlock))
      (Attempted P H v r) (fun _ => GoodDisk P H v) (GoodDisk P H v) :=
    fun _ _ => Spec.pure _ (fun _ hd => hd) fun _ hd => hd.1
  unfold unlockWithAway
  cases hopen : openAway P H reg d secret with
  | error e => exact (hfail reg e).conseq (fun _ hd => ⟨hd, hlike⟩) (fun _ _ hq => hq) (fun _ _ he => he) fun _ hc => hc
  | ok rmk =>
    obtain rfl := openAway_key hlike.opens hd hapart hopen
    refine Spec.bind (sweepForAway_good hrmk hlike) ?_
    intro ⟨reg', erased⟩
    cases erased with
    | error e => exact hfail reg' e
    | ok erased =>
      simp only
      cases haccept : acceptSignCount P reg' d v.rmk asserted with
      | error e => exact hfail reg' e
      | ok nk =>
        refine Spec.of_states fun disk hdisk => ?_
        have hkey := acceptSignCount_key haccept
        rw [hdisk.2.opens.nkWrap] at hkey
        cases hkey
        refine Spec.bind ((persist_granted hrmk hdisk.1 (hdisk.2.opens.counted i asserted)).conseq (fun _ hd => hd)
          (fun _ _ hq => hq) (fun _ _ he => he ▸ hdisk.1) fun _ hc => hc) fun reg'' => Spec.pure _ ?_ ?_
        · exact fun disk' hd => ⟨hd.1.1, hd.1.2, rfl, rfl⟩
        · exact fun disk' hd => ⟨reg'', hd.1⟩

theorem awayAttempt_attempted {i : ℕ} (hrmk : v.rmk.length = 32) (hapart : KeysApart P H W v r) (hlike : Like P v r reg)
    (hd : d ∈ reg.devices) :
    Spec (GoodDisk P H v) (awayAttempt P H W reg i d) (Attempted P H v r) (fun _ => GoodDisk P H v) (GoodDisk P H v) := by
  unfold awayAttempt
  split
  · exact Spec.pure _ (fun _ hdisk => ⟨hdisk, hlike⟩) fun _ hdisk => hdisk
  · next params hparams =>
    split
    · exact Spec.pure _ (fun _ hdisk => ⟨hdisk, hlike⟩) fun _ hdisk => hdisk
    · next secret asserted hsecret => exact unlockWithAway_attempted hrmk hlike hd (hlike.apart hapart hd hparams hsecret)

/-- what an unlock that succeeds returns, with the registry it leaves -/
def Returned (P : Primitives) (H : Hashes) (v : Holders) (out : UnlockOutcome) (disk : RegistryDisk) : Prop :=
  Granted P H v out.registry out.nodeKey out.registryMasterKey disk

theorem tryAwayRecords_returned (hrmk : v.rmk.length = 32) (hapart : KeysApart P H W v r) (hlike : Like P v r reg) (is : List ℕ)
    (reasons : List String) :
    Spec (GoodDisk P H v) (tryAwayRecords P H W reg is reasons) (Returned P H v) (fun _ => GoodDisk P H v) (GoodDisk P H v) := by
  induction is generalizing reg reasons with
  | nil => exact Spec.throw (fun _ hd => hd) fun _ hd => hd
  | cons i is ih =>
    unfold tryAwayRecords
    split
    · exact ih hlike _
    · next d hd =>
      split
      · exact ih hlike _
      · split
        · exact ih hlike _
        · refine Spec.bind (awayAttempt_attempted hrmk hapart hlike (List.mem_of_getElem? hd)) ?_
          intro ⟨reg', o⟩
          cases o with
          | ok u => exact Spec.pure _ (fun disk hd => hd) fun _ hd => hd.disk
          | error e =>
            simp only
            split_ifs
            · refine Spec.of_states fun disk hd => ?_
              exact (ih hd.2 _).conseq (fun _ h => h ▸ hd.1) (fun _ _ hq => hq) (fun _ _ he => he) fun _ hc => hc
            · exact Spec.throw (fun _ hd => hd.1) fun _ hd => hd.1

theorem unlockDevices_returned (hgood : Good P H v reg) (hapart : KeysApart P H W v reg) :
    Spec (fun disk => disk = some (.ok reg)) (unlockDevices P H W reg) (Returned P H v) (fun _ => GoodDisk P H v)
      (GoodDisk P H v) := by
  have hlike : Like P v reg reg := ⟨hgood.opens, fun d hd => ⟨d, hd, SameFace.refl d⟩⟩
  refine Spec.bind (tryHomeRecords_granted hgood hapart reg.devices (fun _ hd => hd) []) fun o => ?_
  cases o with
  | ok x => exact Spec.pure _ (fun disk hd => hd) fun _ hd => hd.disk
  | error reasons =>
    exact (tryAwayRecords_returned hgood.rmkLen hapart hlike _ reasons).conseq (fun _ h => ⟨reg, h, hgood⟩)
      (fun _ _ hq => hq) (fun _ _ he => he) fun _ hc => hc

theorem Opens.burned (h : Opens P v reg) (pos : ℕ) (now : UInt64) :
    Opens P v { reg with emergencySlots := reg.emergencySlots.modify pos (burn now) } := by
  refine ⟨h.records, fun s hs w hw => ?_, h.nkWrap, h.version⟩
  obtain ⟨j, hj, rfl⟩ := List.mem_iff_getElem.1 hs
  simp only [List.length_modify] at hj
  rw [List.getElem_modify] at hw ⊢
  split at hw
  · cases hw
  · next hne =>
    rw [if_neg hne]
    exact h.slots _ (List.getElem_mem hj) w hw

theorem emergencyUnlock_granted {code : Option String} (hgood : Good P H v reg) (hapart : KeysApart P H W v reg)
    (hcode : W.emergencyCode = .ok code) :
    Spec (fun disk => disk = some (.ok reg)) (emergencyUnlock P H W reg code)
      (fun o disk => match o with
        | some x => Granted P H v x.1 x.2.1.nk x.2.1.rmk disk
        | none => disk = some (.ok reg)) (fun _ disk => disk = some (.ok reg)) (GoodDisk P H v) := by
  have hdisk : ∀ disk, disk = some (.ok reg) → GoodDisk P H v disk := fun _ h => ⟨reg, h, hgood⟩
  unfold emergencyUnlock
  cases code with
  | none => exact Spec.pure _ (fun _ hd => hd) hdisk
  | some text =>
    refine Spec.ofExcept_bind_any (fun _ _ hd => hd) hdisk ?_
    intro ⟨rmk, pos, nk⟩ hopen
    obtain ⟨rfl, rfl⟩ := openEmergency_keys hgood.opens hapart hcode hopen
    refine Spec.bind (persist_granted hgood.rmkLen ⟨reg, rfl, hgood⟩ (hgood.opens.burned pos W.nowHost)) fun reg' =>
      Spec.pure _ ?_ ?_
    · exact fun disk hd => ⟨hd.1.1, hd.1.2, rfl, rfl⟩
    · exact fun disk hd => ⟨reg', hd.1⟩

theorem load_good {disk : RegistryDisk} (hdisk : disk = some (.ok reg)) (hgood : Good P H v reg) : load disk = ([], .ok reg) := by
  subst hdisk
  have hvalid : validate reg = .ok () := by
    unfold validate
    rw [hgood.valid.filled]
    exact hgood.valid.checked
  unfold load
  rw [Prog.get_bind_apply]
  simp only [hgood.opens.version, ne_eq, not_true_eq_false, if_false, hvalid]
  rfl

/-- a program that loads a good registry first -/
theorem Spec.load_bind {α : Type} {q : DeviceRegistryFile → Prog RegistryDisk CryptoError α} {Q : α → RegistryDisk → Prop}
    (hgood : Good P H v reg)
    (h : Spec (fun disk => disk = some (.ok reg)) (q reg) Q (fun _ => GoodDisk P H v) (GoodDisk P H v)) :
    Spec (fun disk => disk = some (.ok reg)) (load >>= q) Q (fun _ => GoodDisk P H v) (GoodDisk P H v) := by
  refine h.congr fun disk hdisk => ?_
  rw [Prog.bind_apply_silent (load_good hdisk hgood)]

theorem unlock_returned (hgood : Good P H v reg) (hapart : KeysApart P H W v reg) :
    Spec (fun disk => disk = some (.ok reg)) (unlock P H W) (Returned P H v) (fun _ => GoodDisk P H v) (GoodDisk P H v) := by
  have hdisk : ∀ disk, disk = some (.ok reg) → GoodDisk P H v disk := fun _ h => ⟨reg, h, hgood⟩
  refine Spec.load_bind hgood (Spec.ofExcept_bind_any (fun _ => hdisk) hdisk fun code hcode => ?_)
  refine Spec.bind (Spec.attempt (emergencyUnlock_granted hgood hapart hcode)
    (B := fun o disk => match o with
      | .ok (some x) => Granted P H v x.1 x.2.1.nk x.2.1.rmk disk
      | .ok none => disk = some (.ok reg)
      | .error _ => disk = some (.ok reg)) (fun o _ hq => by cases o <;> exact hq) fun _ _ he => he) fun o => ?_
  have hdevices := unlockDevices_returned hgood hapart
  cases o with
  | ok o =>
    cases o with
    | none => exact hdevices
    | some x => exact Spec.pure _ (fun disk hd => hd) fun _ hd => hd.disk
  | error e =>
    simp only
    split
    · next h => cases h
    · next h => cases h
    · exact hdevices
    · exact hdevices
    · exact Spec.throw hdisk hdisk

/-- **An unlock keeps every opener.** Wherever it is cut, and whether it is refused or granted; the keys it returns are those
in force. -/
theorem openBy_returned (hgood : Good P H v reg) (hapart : KeysApart P H W v reg) (o : Opener) :
    Spec (fun disk => disk = some (.ok reg)) (openBy P H W o) (Returned P H v) (fun _ => GoodDisk P H v)
      (GoodDisk P H v) := by
  have hdisk : ∀ disk, disk = some (.ok reg) → GoodDisk P H v disk := fun _ h => ⟨reg, h, hgood⟩
  cases o with
  | any => exact unlock_returned hgood hapart
  | home i =>
    refine Spec.load_bind hgood ?_
    split
    · exact Spec.throw hdisk hdisk
    · next d hd =>
      refine Spec.bind ((unlockWithHome_granted hgood hapart (List.mem_of_getElem? hd)).conseq (fun _ hd => hd)
        (fun _ _ hq => hq) (fun _ disk he => hdisk disk he) fun _ hc => hc) fun x => Spec.pure _ (fun _ hd => hd) fun _ hd => hd.disk
  | away i =>
    have hlike : Like P v reg reg := ⟨hgood.opens, fun d hd => ⟨d, hd, SameFace.refl d⟩⟩
    refine Spec.load_bind hgood ?_
    split
    · exact Spec.throw hdisk hdisk
    · next d hd =>
      refine Spec.bind ((awayAttempt_attempted hgood.rmkLen hapart hlike (List.mem_of_getElem? hd)).conseq hdisk
        (fun _ _ hq => hq) (fun _ _ he => he) fun _ hc => hc) ?_
      intro ⟨reg', o⟩
      cases o with
      | ok u => exact Spec.pure _ (fun _ hd => hd) fun _ hd => hd.disk
      | error e => exact Spec.throw (fun _ hd => hd.1) fun _ hd => hd.1
  | emergency =>
    refine Spec.load_bind hgood (Spec.ofExcept_bind_any (fun _ => hdisk) hdisk fun code hcode => ?_)
    refine Spec.bind ((emergencyUnlock_granted hgood hapart hcode).conseq (fun _ hd => hd) (fun _ _ hq => hq)
      (fun _ disk he => hdisk disk he) fun _ hc => hc) fun o => ?_
    cases o with
    | none => exact Spec.throw hdisk hdisk
    | some x => exact Spec.pure _ (fun _ hd => hd) fun _ hd => hd.disk

end Y2q.Devices
