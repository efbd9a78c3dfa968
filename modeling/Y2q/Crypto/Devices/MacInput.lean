/-
What the input of the state MAC says of a registry (`state_mac` in `crypto/devices/registry.rs`).

The input has fixed fields, texts after one-byte lengths, and hashes of wraps. A length above 255 is written as 255, and a wrap is hashed
as its nonce, a zero byte and its ciphertext. The check bounds a label and a salt, but not the PCR bank and slots, nor the texts of a wrap.

- `DeviceRecord.state`, `Agree`: what the MAC is to cover. `Told`: the lengths that the input leaves open are no different.
- `Home`, `Away`: what the check says of one record.
- `cut_device`: from two such records the beginning of the input gives the state and the rest. `cut_flatMap`: a list of them.
- `mac_input`: accepted registries with one input agree exactly when they are `Told`.
-/
import Mathlib.Tactic
import Y2q.Core.Text
import Y2q.Crypto.Devices.Erasure

namespace Y2q.Devices

open CrashLogic

/-! ## Texts -/

theorem hexValue_eq_some {c : Char} {n : ℕ} (h : hexValue c = some n) : n < 16 ∧ c.toNat = if n < 10 then 48 + n else 87 + n := by
  unfold hexValue at h
  have hzero : '0'.toNat = 48 := rfl
  have hnine : '9'.toNat = 57 := rfl
  have ha : 'a'.toNat = 97 := rfl
  have hf : 'f'.toNat = 102 := rfl
  simp only [Char.le_def, UInt32.le_iff_toNat_le] at h
  change (if '0'.toNat ≤ c.toNat ∧ c.toNat ≤ '9'.toNat then _ else if 'a'.toNat ≤ c.toNat ∧ c.toNat ≤ 'f'.toNat then _ else _) = _ at h
  rw [hzero, hnine, ha, hf] at h
  split_ifs at h with hdigit hletter
  · cases h
    exact ⟨by omega, by rw [if_pos (by omega)]; omega⟩
  · cases h
    exact ⟨by omega, by rw [if_neg (by omega)]; omega⟩

theorem hexValue_inj {c c' : Char} {n : ℕ} (h : hexValue c = some n) (h' : hexValue c' = some n) : c = c' := by
  rw [← Char.toNat_inj, (hexValue_eq_some h).2, (hexValue_eq_some h').2]

theorem hexPairs_cons {a b : Char} {l : List Char} {v : Bytes} (h : hexPairs (a :: b :: l) = some v) : ∃ hi lo rest,
    hexValue a = some hi ∧ hexValue b = some lo ∧ hexPairs l = some rest ∧ v = UInt8.ofNat (hi * 16 + lo) :: rest := by
  simp only [hexPairs, Option.bind_eq_bind, Option.bind_eq_some_iff, Option.some.injEq] at h
  obtain ⟨hi, hhi, lo, hlo, rest, hrest, rfl⟩ := h
  exact ⟨hi, lo, rest, hhi, hlo, hrest, rfl⟩

theorem length_hexPairs {l : List Char} {v : Bytes} (h : hexPairs l = some v) : l.length = 2 * v.length := by
  induction l using hexPairs.induct generalizing v with
  | case1 => cases h; rfl
  | case2 a b l ih =>
    obtain ⟨hi, lo, rest, -, -, hrest, rfl⟩ := hexPairs_cons h
    simp only [List.length_cons, ih hrest]
    ring
  | case3 l hnil hcons =>
    rw [hexPairs] at h
    · cases h
    · exact hnil
    · exact hcons

/-- the characters are determined by the bytes they stand for -/
theorem hexPairs_inj {l l' : List Char} {v : Bytes} (h : hexPairs l = some v) (h' : hexPairs l' = some v) : l = l' := by
  have hlen := (length_hexPairs h).trans (length_hexPairs h').symm
  induction l using hexPairs.induct generalizing l' v with
  | case1 => exact (List.length_eq_zero_iff.1 hlen.symm).symm
  | case2 a b l ih =>
    match l', hlen with
    | a' :: b' :: l', hlen =>
      obtain ⟨hi, lo, rest, hhi, hlo, hrest, rfl⟩ := hexPairs_cons h
      obtain ⟨hi', lo', rest', hhi', hlo', hrest', hv⟩ := hexPairs_cons h'
      obtain ⟨hbyte, rfl⟩ := List.cons.inj hv
      have hb := congrArg UInt8.toNat hbyte
      have hbounds := And.intro (hexValue_eq_some hhi).1 (hexValue_eq_some hlo).1
      have hbounds' := And.intro (hexValue_eq_some hhi').1 (hexValue_eq_some hlo').1
      rw [UInt8.toNat_ofNat', UInt8.toNat_ofNat', Nat.mod_eq_of_lt (by omega), Nat.mod_eq_of_lt (by omega)] at hb
      obtain rfl : hi = hi' := by omega
      obtain rfl : lo = lo' := by omega
      rw [hexValue_inj hhi hhi', hexValue_inj hlo hlo', ih hrest hrest' (by simpa using hlen)]
  | case3 l hnil hcons =>
    rw [hexPairs] at h
    · cases h
    · exact hnil
    · exact hcons

theorem decodeHexId_eq_some {id : String} {v : Bytes} (h : decodeHexId id = some v) : v.length = 16 ∧ hexPairs id.toList = some v := by
  unfold decodeHexId at h
  split_ifs at h with hlen
  have := length_hexPairs h
  exact ⟨by omega, h⟩

theorem decodeHexId_inj {id id' : String} {v : Bytes} (h : decodeHexId id = some v) (h' : decodeHexId id' = some v) : id = id' :=
  String.toList_inj.1 (hexPairs_inj (decodeHexId_eq_some h).2 (decodeHexId_eq_some h').2)

theorem base64_ascii {c : Char} (h : (Base64.ofChar c).isSome) : c.toNat < 128 := by
  unfold Base64.ofChar at h
  split_ifs at h with hidx
  · have hall : (Base64.alphabet.all fun a => a.toNat < 128) = true := by decide +kernel
    have hmem : c ∈ Base64.alphabet := List.idxOf_lt_length_iff.1 (hidx.trans_le (show 64 ≤ Base64.alphabet.length from le_rfl))
    exact of_decide_eq_true (List.all_eq_true.1 hall c hmem)
  · cases h

theorem decodeOne_ascii {w x : Char} {v : Bytes} (h : Base64.decodeOne w x = some v) :
    v.length = 1 ∧ w.toNat < 128 ∧ x.toNat < 128 := by
  simp only [Base64.decodeOne, Option.bind_eq_bind, Option.bind_eq_some_iff, Option.ite_none_right_eq_some, Option.some.injEq] at h
  obtain ⟨m, hm, n, hn, -, rfl⟩ := h
  exact ⟨rfl, base64_ascii (by rw [hm]; rfl), base64_ascii (by rw [hn]; rfl)⟩

theorem decodeTwo_ascii {w x y : Char} {v : Bytes} (h : Base64.decodeTwo w x y = some v) :
    v.length = 2 ∧ w.toNat < 128 ∧ x.toNat < 128 ∧ y.toNat < 128 := by
  simp only [Base64.decodeTwo, Option.bind_eq_bind, Option.bind_eq_some_iff, Option.ite_none_right_eq_some, Option.some.injEq] at h
  obtain ⟨m, hm, n, hn, k, hk, -, rfl⟩ := h
  exact ⟨rfl, base64_ascii (by rw [hm]; rfl), base64_ascii (by rw [hn]; rfl), base64_ascii (by rw [hk]; rfl)⟩

theorem decodeThree_ascii {w x y z : Char} {v : Bytes} (h : Base64.decodeThree w x y z = some v) :
    v.length = 3 ∧ w.toNat < 128 ∧ x.toNat < 128 ∧ y.toNat < 128 ∧ z.toNat < 128 := by
  simp only [Base64.decodeThree, Option.bind_eq_bind, Option.bind_eq_some_iff, Option.some.injEq] at h
  obtain ⟨m, hm, n, hn, k, hk, j, hj, rfl⟩ := h
  exact ⟨rfl, base64_ascii (by rw [hm]; rfl), base64_ascii (by rw [hn]; rfl), base64_ascii (by rw [hk]; rfl),
    base64_ascii (by rw [hj]; rfl)⟩

/-- a text that decodes is ASCII, and its length follows from that of what it stands for -/
theorem decodeChars_ascii {l : List Char} {v : Bytes} (h : Base64.decodeChars l = some v) :
    l.length = 4 * ((v.length + 2) / 3) ∧ ∀ c ∈ l, c.toNat < 128 := by
  induction l using Base64.decodeChars.induct generalizing v with
  | case1 => cases h; exact ⟨rfl, nofun⟩
  | case2 w x z rest hlast =>
    obtain ⟨rfl, rfl⟩ := hlast
    rw [Base64.decodeChars, if_pos ⟨rfl, rfl⟩, if_pos rfl] at h
    obtain ⟨hlen, hw, hx⟩ := decodeOne_ascii h
    simp [hlen, hw, hx]
  | case3 w x y z rest hlast hy =>
    obtain ⟨rfl, rfl⟩ := hlast
    rw [Base64.decodeChars, if_pos ⟨rfl, rfl⟩, if_neg hy] at h
    obtain ⟨hlen, hw, hx, hy⟩ := decodeTwo_ascii h
    simp [hlen, hw, hx, hy]
  | case4 w x y z rest hlast ih =>
    rw [Base64.decodeChars, if_neg hlast, Option.bind_eq_some_iff] at h
    obtain ⟨g, hg, h⟩ := h
    obtain ⟨v, hv, rfl⟩ := Option.map_eq_some_iff.1 h
    obtain ⟨hlen, hw, hx, hy, hz⟩ := decodeThree_ascii hg
    obtain ⟨hrest, hascii⟩ := ih hv
    refine ⟨?_, ?_⟩
    · simp only [List.length_cons, List.length_append, hlen, hrest]
      omega
    · simp only [List.forall_mem_cons]
      exact ⟨hw, hx, hy, hz, hascii⟩
  | case5 l hnil hcons =>
    rw [Base64.decodeChars] at h
    · cases h
    · exact hnil
    · exact hcons

/-- 16 bytes of base64 are 24 characters -/
theorem length_salt {s : String} (h : (Base64.decode s).any fun v => v.length = PASSCODE_SALT_LEN) : (utf8 s).length = 24 := by
  obtain ⟨v, hv, hlen⟩ := (Option.any_eq_true _ _).1 h
  obtain ⟨hchars, hascii⟩ := decodeChars_ascii hv
  rw [utf8_ascii hascii, List.length_map, hchars, show v.length = 16 from of_decide_eq_true hlen]

/-! ## What the MAC is to cover -/

/-- the parts of a record that the MAC is to cover: of a grant its times, of the TPM's parameters the PCR bank and slots -/
structure DeviceState where
  id : String
  kind : DeviceKind
  label : String
  wrapped : Bool
  grant : Option (UInt64 × UInt64)
  signCountLast : Option UInt32
  addedAtUnix : UInt64
  pcr : Option (String × Bytes)
  homeFactor : Option HomeFactor
  uv : Bool
  kekWrap : Option Wrap
deriving DecidableEq, Repr

def DeviceRecord.state (d : DeviceRecord) : DeviceState where
  id := d.id
  kind := d.kind
  label := d.label
  wrapped := d.wrap.isSome
  grant := d.grant.map fun g => (g.notAfterUnix, g.issuedAtUnix)
  signCountLast := d.signCountLast
  addedAtUnix := d.addedAtUnix
  pcr := d.tpm2.map fun t => (t.pcrBank, t.pcrSlots)
  homeFactor := d.homeFactor
  uv := d.uv
  kekWrap := d.kekWrap

/-- whether a slot has a wrap, and when it was burned -/
def EmergencySlot.state (s : EmergencySlot) : Bool × Option UInt64 := (s.wrap.isSome, s.burnedAtUnix)

/-- two registries in which the MAC is to tell no difference -/
structure Agree (reg reg' : DeviceRegistryFile) : Prop where
  version : reg.formatVersion = reg'.formatVersion
  seconds : reg.awayGrantSeconds = reg'.awayGrantSeconds
  permanent : reg.permanentAway = reg'.permanentAway
  nkWrap : reg.nkWrap = reg'.nkWrap
  devices : reg.devices.map DeviceRecord.state = reg'.devices.map DeviceRecord.state
  slots : reg.emergencySlots.map EmergencySlot.state = reg'.emergencySlots.map EmergencySlot.state

/-- what `load` returns for some file -/
def Accepted (reg : DeviceRegistryFile) : Prop := ∃ disk effects, load disk = (effects, .ok reg)

/-! ## What the input leaves open -/

/-- the text that is hashed for a wrap -/
def Wrap.hashed (w : Wrap) : Bytes := utf8 w.nonceB64 ++ [0] ++ utf8 w.ctB64

/-- the wraps that are hashed -/
def DeviceRegistryFile.hashedWraps (reg : DeviceRegistryFile) : List Wrap := reg.nkWrap :: reg.devices.filterMap (·.kekWrap)

/-- no zero byte but the one that ends the nonce -/
def Wrap.plain (w : Wrap) : Prop := 0 ∉ utf8 w.nonceB64 ∧ 0 ∉ utf8 w.ctB64

/-- two lengths that are not both cut off at 255, or are the same -/
def LengthsTold (m n : ℕ) : Prop := m < 255 ∨ n < 255 ∨ m = n

/-- one of the wraps is plain, or the zero byte is at the same place in both -/
def WrapsTold (w w' : Wrap) : Prop := w.plain ∨ w'.plain ∨ (utf8 w.nonceB64).length = (utf8 w'.nonceB64).length

structure DevicesTold (d d' : DeviceRecord) : Prop where
  bank : ∀ t t', d.tpm2 = some t → d'.tpm2 = some t' → LengthsTold (utf8 t.pcrBank).length (utf8 t'.pcrBank).length
  slots : ∀ t t', d.tpm2 = some t → d'.tpm2 = some t' → LengthsTold t.pcrSlots.length t'.pcrSlots.length
  kekWrap : ∀ w w', d.kekWrap = some w → d'.kekWrap = some w' → WrapsTold w w'

structure Told (reg reg' : DeviceRegistryFile) : Prop where
  nkWrap : WrapsTold reg.nkWrap reg'.nkWrap
  devices : ∀ p ∈ reg.devices.zip reg'.devices, DevicesTold p.1 p.2

/-- SHA-256 has no collision among the wraps of the two registries -/
def NoCollision (H : Hashes) (reg reg' : DeviceRegistryFile) : Prop :=
  ∀ w ∈ reg.hashedWraps, ∀ w' ∈ reg'.hashedWraps, H.sha256 w.hashed = H.sha256 w'.hashed → w.hashed = w'.hashed

variable {H : Hashes} {reg reg' : DeviceRegistryFile} {d d' : DeviceRecord} {r s : Bytes}

/-! ## Cutting a byte string -/

theorem leBytes_inj {w m n : ℕ} (hm : m < 256 ^ w) (hn : n < 256 ^ w) (h : leBytes w m = leBytes w n) : m = n := by
  have := congrArg ofLe h
  rwa [ofLe_leBytes, ofLe_leBytes, Nat.mod_eq_of_lt hm, Nat.mod_eq_of_lt hn] at this

theorem cut_leBytes {w m n : ℕ} (hm : m < 256 ^ w) (hn : n < 256 ^ w) (h : leBytes w m ++ r = leBytes w n ++ s) : m = n ∧ r = s := by
  obtain ⟨hle, hrest⟩ := List.append_inj h (by rw [length_leBytes, length_leBytes])
  exact ⟨leBytes_inj hm hn hle, hrest⟩

theorem cut_u32 {m n : UInt32} (h : leBytes 4 m.toNat ++ r = leBytes 4 n.toNat ++ s) : m = n ∧ r = s :=
  (cut_leBytes m.toNat_lt n.toNat_lt h).imp_left UInt32.toNat.inj

theorem cut_u64 {m n : UInt64} (h : leBytes 8 m.toNat ++ r = leBytes 8 n.toNat ++ s) : m = n ∧ r = s :=
  (cut_leBytes m.toNat_lt n.toNat_lt h).imp_left UInt64.toNat.inj

theorem boolByte_inj {a b : Bool} (h : boolByte a = boolByte b) : a = b := by
  revert h
  cases a <;> cases b <;> simp [boolByte]

theorem toNat_lenByte (n : ℕ) : (lenByte n).toNat = min n 255 := by
  rw [lenByte, UInt8.toNat_ofNat', Nat.mod_eq_of_lt (by omega)]

theorem length_of_lenByte {m n : ℕ} (htold : LengthsTold m n) (h : lenByte m = lenByte n) : m = n := by
  have hmin := congrArg UInt8.toNat h
  rw [toNat_lenByte, toNat_lenByte] at hmin
  unfold LengthsTold at htold
  omega

/-- bytes after their length -/
theorem cut_bytes {x y : Bytes} (htold : LengthsTold x.length y.length)
    (h : lenByte x.length :: (x ++ r) = lenByte y.length :: (y ++ s)) : x = y ∧ r = s := by
  obtain ⟨hlen, hrest⟩ := List.cons.inj h
  exact List.append_inj hrest (length_of_lenByte htold hlen)

theorem cut_text {a b : String} (htold : LengthsTold (utf8 a).length (utf8 b).length)
    (h : lenByte (utf8 a).length :: (utf8 a ++ r) = lenByte (utf8 b).length :: (utf8 b ++ s)) : a = b ∧ r = s :=
  (cut_bytes htold h).imp_left utf8_inj

/-- pieces that can be cut off one by one -/
theorem cut_flatMap {α β γ : Type} {f : α → List β} {g : α → γ} {l l' : List α} {r s : List β} (hlen : l.length = l'.length)
    (hcut : ∀ p ∈ l.zip l', ∀ r s, f p.1 ++ r = f p.2 ++ s → g p.1 = g p.2 ∧ r = s) (h : l.flatMap f ++ r = l'.flatMap f ++ s) :
    l.map g = l'.map g ∧ r = s := by
  induction l generalizing l' with
  | nil =>
    obtain rfl := List.length_eq_zero_iff.1 hlen.symm
    exact ⟨rfl, h⟩
  | cons x l ih =>
    match l', hlen with
    | y :: l', hlen =>
      rw [List.zip_cons_cons, List.forall_mem_cons] at hcut
      rw [List.flatMap_cons, List.flatMap_cons, List.append_assoc, List.append_assoc] at h
      obtain ⟨hg, hrest⟩ := hcut.1 _ _ h
      obtain ⟨hmap, hrs⟩ := ih (Nat.succ.inj hlen) hcut.2 hrest
      exact ⟨by rw [List.map_cons, List.map_cons, hg, hmap], hrs⟩

/-- around the only zero byte of one of them -/
theorem cut_zero {a b x y : Bytes} (hx : 0 ∉ a) (hy : 0 ∉ b) (h : a ++ [0] ++ b = x ++ [0] ++ y) : a = x ∧ b = y := by
  rw [List.append_assoc, List.append_assoc, List.singleton_append, List.singleton_append] at h
  rcases List.append_eq_append_iff.1 h with ⟨e, rfl, he⟩ | ⟨e, rfl, he⟩
  · cases e with
    | nil => exact ⟨(List.append_nil a).symm, by simpa using he⟩
    | cons c e =>
      obtain ⟨-, rfl⟩ := List.cons.inj he
      exact absurd (by simp) hy
  · cases e with
    | nil => exact ⟨List.append_nil x, by simpa using he.symm⟩
    | cons c e =>
      obtain ⟨rfl, -⟩ := List.cons.inj he
      exact absurd (by simp) hx

theorem wrap_of_hashed {w w' : Wrap} (htold : WrapsTold w w') (h : w.hashed = w'.hashed) : w = w' := by
  have hparts : utf8 w.nonceB64 = utf8 w'.nonceB64 ∧ utf8 w.ctB64 = utf8 w'.ctB64 := by
    rcases htold with hplain | hplain | hlen
    · exact cut_zero hplain.1 hplain.2 h
    · exact (cut_zero hplain.1 hplain.2 h.symm).imp Eq.symm Eq.symm
    · obtain ⟨hhead, hct⟩ := List.append_inj h (by simp [hlen])
      exact ⟨List.append_cancel_right hhead, hct⟩
  obtain ⟨nonce, ct⟩ := w
  rw [show nonce = w'.nonceB64 from utf8_inj hparts.1, show ct = w'.ctB64 from utf8_inj hparts.2]

/-! ## What the check says -/

theorem load_eq_ok {disk : RegistryDisk} {effects : List RegistryDisk} (h : load disk = (effects, .ok reg)) :
    disk = some (.ok reg) ∧ reg.formatVersion = DEVICES_FORMAT_VERSION ∧ validate reg = .ok () := by
  unfold load at h
  rw [Prog.get_bind_apply] at h
  match disk with
  | none => cases h
  | some (.error e) => cases h
  | some (.ok reg₀) =>
    by_cases hversion : reg₀.formatVersion = DEVICES_FORMAT_VERSION
    · simp only [hversion, ne_eq, not_true_eq_false, if_false] at h
      cases hvalid : validate reg₀ with
      | error e => rw [hvalid] at h; cases h
      | ok u =>
        rw [hvalid] at h
        cases h
        exact ⟨rfl, hversion, hvalid⟩
    · simp only [hversion, ne_eq, not_false_eq_true, if_true] at h
      cases h

theorem accepted_iff : Accepted reg ↔ reg.formatVersion = DEVICES_FORMAT_VERSION ∧ validate reg = .ok () := by
  constructor
  · rintro ⟨disk, effects, h⟩
    exact (load_eq_ok h).2
  · rintro ⟨hversion, hvalid⟩
    refine ⟨some (.ok reg), [], ?_⟩
    unfold load
    rw [Prog.get_bind_apply]
    simp only [hversion, ne_eq, not_true_eq_false, if_false, hvalid]
    rfl

theorem Accepted.checked (h : Accepted reg) : check reg = .ok () := (valid_of_validate (accepted_iff.1 h).2).checked

/-- what the input relies on in a home factor -/
def FactorOk : HomeFactor → Prop
  | .passcode saltB64 _ _ _ => (utf8 saltB64).length = 24
  | .fido2 deviceId => (decodeHexId deviceId).isSome

/-- a record that passed its checks -/
structure Checked (d : DeviceRecord) : Prop where
  id : (decodeHexId d.id).isSome
  label : (utf8 d.label).length ≤ MAX_LABEL_LEN
  home : d.kind = .tpm2 → d.tpm2.isSome ∧ d.fido2 = none ∧ d.grant = none ∧ d.signCountLast = none ∧ d.kekWrap = none ∧
    ∀ f, d.homeFactor = some f → FactorOk f
  away : d.kind = .fido2 → d.tpm2 = none ∧ d.homeFactor = none ∧ d.signCountLast.isSome ∧ d.kekWrap.isSome

theorem record_checked {before ds : List DeviceRecord} (h : ∀ c ∈ recordsChecks before ds, c.1 = true) (hd : d ∈ ds) :
    (decodeHexId d.id).isSome ∧ (validLabel d.label).isOk ∧ d.kindOk := by
  induction ds generalizing before with
  | nil => cases hd
  | cons e ds ih =>
    rw [recordsChecks, List.forall_mem_append] at h
    obtain ⟨hone, hrest⟩ := h
    rcases List.mem_cons.1 hd with rfl | hd
    · simp only [recordChecks, List.forall_mem_cons] at hone
      exact ⟨hone.1, hone.2.1, hone.2.2.2.2.1⟩
    · exact ih hrest hd

theorem length_of_validLabel {label : String} (h : (validLabel label).isOk) : (utf8 label).length ≤ MAX_LABEL_LEN := by
  unfold validLabel at h
  split_ifs at h with hempty hlong
  · cases h
  · cases h
  · exact Nat.le_of_not_lt hlong

/-- the parts of the check that the input relies on -/
theorem check_parts (h : check reg = .ok ()) : reg.emergencySlots.length = EMERGENCY_SLOTS ∧
    (∀ c ∈ slotChecks reg.emergencySlots, c.1 = true) ∧ reg.devices.length ≤ MAX_DEVICES ∧
    ∀ c ∈ recordsChecks [] reg.devices, c.1 = true := by
  rw [check_ok_iff] at h
  simp only [checks, List.cons_append, List.nil_append, List.append_assoc, List.mem_cons, List.mem_append, or_imp, forall_and,
    forall_eq] at h
  obtain ⟨-, -, -, hslots, hslot, hmax, hrecords, -⟩ := h
  exact ⟨of_decide_eq_true hslots, hslot, of_decide_eq_true hmax, hrecords⟩

theorem device_checked (h : check reg = .ok ()) (hd : d ∈ reg.devices) :
    (decodeHexId d.id).isSome ∧ (validLabel d.label).isOk ∧ d.kindOk := record_checked (check_parts h).2.2.2 hd

/-- a passcode's parameters are in their bounds, and a token that a home device names is registered -/
theorem factorOk {f : HomeFactor} (h : check reg = .ok ()) (hf : checkHomeFactor reg.devices d f = .ok ()) : FactorOk f := by
  cases f with
  | passcode saltB64 m t p =>
    simp only [checkHomeFactor, validatePasscodeParams] at hf
    split_ifs at hf with hsalt
    exact length_salt hsalt
  | fido2 deviceId =>
    simp only [checkHomeFactor] at hf
    split at hf
    · cases hf
    · next r hr =>
      have hid := List.find?_some hr
      rw [decide_eq_true_eq] at hid
      exact hid ▸ (device_checked h (List.mem_of_find?_eq_some hr)).1

theorem checked (h : check reg = .ok ()) (hd : d ∈ reg.devices) : Checked d := by
  obtain ⟨hid, hlabel, hkind⟩ := device_checked h hd
  have hwraps := wraps_checked h hd
  refine ⟨hid, length_of_validLabel hlabel, fun hhome => ?_, fun haway => ?_⟩
  · simp only [wrapChecks, hhome, List.cons_append, List.nil_append, List.forall_mem_cons, Bool.not_eq_true',
      Bool.or_eq_false_iff] at hwraps
    obtain ⟨-, ⟨⟨hgrant, hcount⟩, hkek⟩, hfactor⟩ := hwraps
    simp only [DeviceRecord.kindOk, hhome, Bool.and_eq_true, Option.isNone_iff_eq_none] at hkind
    refine ⟨hkind.1, hkind.2, by simpa using hgrant, by simpa using hcount, by simpa using hkek, fun f hf => ?_⟩
    simp only [hf] at hfactor
    split at hfactor
    · next hok => exact factorOk h hok
    · next e he => cases hfactor _ List.mem_cons_self
  · simp only [wrapChecks, haway, List.forall_mem_cons, Bool.not_eq_true', Bool.or_eq_false_iff] at hwraps
    obtain ⟨hfactor, hpair, -⟩ := hwraps
    simp only [DeviceRecord.kindOk, haway, Bool.and_eq_true, Option.isNone_iff_eq_none] at hkind
    refine ⟨hkind.2, by simpa using hfactor, ?_, ?_⟩
    · rw [← Option.not_isNone, hpair.1]; rfl
    · rw [← Option.not_isNone, hpair.2]; rfl

theorem slot_checked (h : check reg = .ok ()) {slot : EmergencySlot} (hs : slot ∈ reg.emergencySlots) :
    slot.wrap.isSome = !slot.burnedAtUnix.isSome := by
  obtain ⟨i, hi⟩ := List.mem_iff_getElem?.1 hs
  have hall := (check_parts h).2.1
  unfold slotChecks at hall
  rw [List.forall_mem_flatMap] at hall
  have hslot := hall (slot, i) (List.mk_mem_zipIdx_iff_getElem?.2 hi)
  simp only [List.forall_mem_cons, bne_iff_ne, ne_eq] at hslot
  exact Bool.eq_not.2 hslot.2.1

/-! ## Records -/

/-- what the beginning of the input is for any record -/
theorem deviceBytes_append (d : DeviceRecord) (r : Bytes) : deviceBytes H d ++ r =
    d.idBytes ++ kindByte d.kind :: boolByte d.wrap.isSome :: boolByte d.grant.isSome :: boolByte d.kekWrap.isSome ::
      (leBytes 8 (d.grant.map (·.notAfterUnix.toNat) |>.getD 0) ++ (leBytes 8 (d.grant.map (·.issuedAtUnix.toNat) |>.getD 0) ++
        (leBytes 4 (d.signCountLast.map (·.toNat) |>.getD 0) ++ (leBytes 8 d.addedAtUnix.toNat ++
          boolByte d.tpm2.isSome :: boolByte d.fido2.isSome :: (kindBytes H d ++
            lenByte (utf8 d.label).length :: (utf8 d.label ++ r)))))) := by
  unfold deviceBytes
  simp only [List.append_assoc, List.cons_append, List.nil_append]

theorem length_idBytes (h : (decodeHexId d.id).isSome) : d.idBytes.length = 16 := by
  obtain ⟨v, hv⟩ := Option.isSome_iff_exists.1 h
  rw [DeviceRecord.idBytes, hv]
  exact (decodeHexId_eq_some hv).1

theorem id_of_idBytes (h : (decodeHexId d.id).isSome) (h' : (decodeHexId d'.id).isSome) (heq : d.idBytes = d'.idBytes) : d.id = d'.id := by
  obtain ⟨v, hv⟩ := Option.isSome_iff_exists.1 h
  obtain ⟨v', hv'⟩ := Option.isSome_iff_exists.1 h'
  rw [DeviceRecord.idBytes, DeviceRecord.idBytes, hv, hv'] at heq
  obtain rfl : v = v' := heq
  exact decodeHexId_inj hv hv'

theorem kindByte_inj {k k' : DeviceKind} (h : kindByte k = kindByte k') : k = k' := by
  revert h
  cases k <;> cases k' <;> simp [kindByte]

/-- a number that is there, or 0 -/
theorem eq_of_getD {a b : Option ℕ} (hsome : a.isSome = b.isSome) (h : a.getD 0 = b.getD 0) : a = b := by
  cases a <;> cases b <;> simp_all

theorem getD_lt {α : Type} {o : Option α} {f : α → ℕ} {k : ℕ} (hf : ∀ x, f x < k) (hk : 0 < k) : (o.map f).getD 0 < k := by
  cases o with
  | none => exact hk
  | some x => exact hf x

/-- the bytes of a factor, if there is one -/
def factorBytes (f : Option HomeFactor) : Bytes := (f.map encodeHomeFactor).getD []

/-- the marker of a factor is no length of a label -/
theorem factor_ne_label {f : HomeFactor} {n : ℕ} (hn : n ≤ MAX_LABEL_LEN) : encodeHomeFactor f ++ s ≠ lenByte n :: r := by
  have hlen : (lenByte n).toNat ≤ 64 := by
    rw [toNat_lenByte]
    exact (Nat.min_le_left _ _).trans hn
  intro h
  cases f with
  | passcode =>
    rw [← (List.cons.inj h).1] at hlen
    exact absurd hlen (by decide)
  | fido2 =>
    rw [← (List.cons.inj h).1] at hlen
    exact absurd hlen (by decide)

theorem cut_home_factor {f f' : HomeFactor} (hf : FactorOk f) (hf' : FactorOk f')
    (h : encodeHomeFactor f ++ r = encodeHomeFactor f' ++ s) : f = f' ∧ r = s := by
  match f, f' with
  | .passcode .., .fido2 _ => exact absurd (List.cons.inj h).1 (by decide)
  | .fido2 _, .passcode .. => exact absurd (List.cons.inj h).1 (by decide)
  | .passcode salt m t p, .passcode salt' m' t' p' =>
    have hsalt : (utf8 salt).length = 24 := hf
    have hsalt' : (utf8 salt').length = 24 := hf'
    simp only [encodeHomeFactor, List.append_assoc, List.append_cancel_left_eq, hsalt, hsalt'] at h
    obtain ⟨htext, h⟩ := List.append_inj h (hsalt.trans hsalt'.symm)
    obtain ⟨hm, h⟩ := cut_u32 h
    obtain ⟨ht, h⟩ := cut_u32 h
    obtain ⟨hp, h⟩ := cut_u32 h
    exact ⟨by rw [utf8_inj htext, hm, ht, hp], h⟩
  | .fido2 id, .fido2 id' =>
    obtain ⟨v, hv⟩ := Option.isSome_iff_exists.1 hf
    obtain ⟨v', hv'⟩ := Option.isSome_iff_exists.1 hf'
    simp only [encodeHomeFactor, hv, hv', Option.getD_some, List.append_assoc, List.append_cancel_left_eq] at h
    obtain ⟨hid, h⟩ := List.append_inj h ((decodeHexId_eq_some hv).1.trans (decodeHexId_eq_some hv').1.symm)
    exact ⟨by rw [decodeHexId_inj hv (hid ▸ hv')], h⟩

/-- a factor, or none, before the length of a label -/
theorem cut_factor {f f' : Option HomeFactor} {n n' : ℕ} (hf : ∀ x, f = some x → FactorOk x) (hf' : ∀ x, f' = some x → FactorOk x)
    (hn : n ≤ MAX_LABEL_LEN) (hn' : n' ≤ MAX_LABEL_LEN) (h : factorBytes f ++ lenByte n :: r = factorBytes f' ++ lenByte n' :: s) :
    f = f' ∧ lenByte n :: r = lenByte n' :: s := by
  match f, f' with
  | none, none => exact ⟨rfl, h⟩
  | none, some x => exact absurd h.symm (factor_ne_label hn)
  | some x, none => exact absurd h (factor_ne_label hn')
  | some x, some x' =>
    obtain ⟨rfl, hrest⟩ := cut_home_factor (hf x rfl) (hf' x' rfl) h
    exact ⟨rfl, hrest⟩

/-- what follows the fixed fields of a home record, up to its label -/
theorem kindBytes_home {t : Tpm2Params} (hkind : d.kind = .tpm2) (ht : d.tpm2 = some t) (r : Bytes) : kindBytes H d ++ r =
    lenByte (utf8 t.pcrBank).length :: (utf8 t.pcrBank ++ lenByte t.pcrSlots.length ::
      (t.pcrSlots ++ (factorBytes d.homeFactor ++ r))) := by
  unfold kindBytes factorBytes
  rw [hkind, ht]
  cases d.homeFactor <;> simp

theorem kindBytes_away {w : Wrap} (hkind : d.kind = .fido2) (hw : d.kekWrap = some w) (r : Bytes) :
    kindBytes H d ++ r = boolByte d.uv :: (H.sha256 w.hashed ++ r) := by
  unfold kindBytes
  rw [hkind, hw]
  rfl

/-- the parameters of a home record -/
theorem cut_home (hd : Checked d) (hd' : Checked d') (htold : DevicesTold d d') (hkind : d.kind = .tpm2) (hkind' : d'.kind = .tpm2)
    {n n' : ℕ} (hn : n ≤ MAX_LABEL_LEN) (hn' : n' ≤ MAX_LABEL_LEN)
    (h : kindBytes H d ++ lenByte n :: r = kindBytes H d' ++ lenByte n' :: s) :
    d.state.pcr = d'.state.pcr ∧ d.homeFactor = d'.homeFactor ∧ lenByte n :: r = lenByte n' :: s := by
  obtain ⟨htpm, -, -, -, -, hfactor⟩ := hd.home hkind
  obtain ⟨htpm', -, -, -, -, hfactor'⟩ := hd'.home hkind'
  obtain ⟨t, ht⟩ := Option.isSome_iff_exists.1 htpm
  obtain ⟨t', ht'⟩ := Option.isSome_iff_exists.1 htpm'
  rw [kindBytes_home hkind ht, kindBytes_home hkind' ht'] at h
  obtain ⟨hbank, h⟩ := cut_text (htold.bank t t' ht ht') h
  obtain ⟨hslots, h⟩ := cut_bytes (htold.slots t t' ht ht') h
  obtain ⟨hf, h⟩ := cut_factor hfactor hfactor' hn hn' h
  exact ⟨by rw [DeviceRecord.state, DeviceRecord.state, ht, ht', Option.map_some, Option.map_some, hbank, hslots], hf, h⟩

/-- the parameters of an away record -/
theorem cut_away (hlen : ∀ b, (H.sha256 b).length = 32) (hd : Checked d) (hd' : Checked d') (htold : DevicesTold d d')
    (hinj : ∀ w w', d.kekWrap = some w → d'.kekWrap = some w' → H.sha256 w.hashed = H.sha256 w'.hashed → w.hashed = w'.hashed)
    (hkind : d.kind = .fido2) (hkind' : d'.kind = .fido2) (h : kindBytes H d ++ r = kindBytes H d' ++ s) :
    d.uv = d'.uv ∧ d.kekWrap = d'.kekWrap ∧ r = s := by
  obtain ⟨-, -, -, hkek⟩ := hd.away hkind
  obtain ⟨-, -, -, hkek'⟩ := hd'.away hkind'
  obtain ⟨w, hw⟩ := Option.isSome_iff_exists.1 hkek
  obtain ⟨w', hw'⟩ := Option.isSome_iff_exists.1 hkek'
  rw [kindBytes_away hkind hw, kindBytes_away hkind' hw'] at h
  obtain ⟨huv, h⟩ := List.cons.inj h
  obtain ⟨hsha, h⟩ := List.append_inj h ((hlen _).trans (hlen _).symm)
  refine ⟨boolByte_inj huv, ?_, h⟩
  rw [hw, hw', wrap_of_hashed (htold.kekWrap w w' hw hw') (hinj w w' hw hw' hsha)]

/-- the state of a record and the rest, from the beginning of the input -/
theorem cut_device (hlen : ∀ b, (H.sha256 b).length = 32) (hd : Checked d) (hd' : Checked d') (htold : DevicesTold d d')
    (hinj : ∀ w w', d.kekWrap = some w → d'.kekWrap = some w' → H.sha256 w.hashed = H.sha256 w'.hashed → w.hashed = w'.hashed)
    (h : deviceBytes H d ++ r = deviceBytes H d' ++ s) : d.state = d'.state ∧ r = s := by
  have h64 (f : Grant → UInt64) (g : Option Grant) : (g.map fun x => (f x).toNat).getD 0 < 256 ^ 8 :=
    getD_lt (fun x => (f x).toNat_lt) (by norm_num)
  have h32 (c : Option UInt32) : (c.map (·.toNat)).getD 0 < 256 ^ 4 := getD_lt (fun x => x.toNat_lt) (by norm_num)
  rw [deviceBytes_append, deviceBytes_append] at h
  -- the fields of fixed size
  obtain ⟨hid, h⟩ := List.append_inj h ((length_idBytes hd.id).trans (length_idBytes hd'.id).symm)
  obtain ⟨hkind, h⟩ := List.cons.inj h
  obtain ⟨hwrap, h⟩ := List.cons.inj h
  obtain ⟨hgrant, h⟩ := List.cons.inj h
  obtain ⟨-, h⟩ := List.cons.inj h
  obtain ⟨hafter, h⟩ := cut_leBytes (h64 _ _) (h64 _ _) h
  obtain ⟨hissued, h⟩ := cut_leBytes (h64 _ _) (h64 _ _) h
  obtain ⟨hcount, h⟩ := cut_leBytes (h32 _) (h32 _) h
  obtain ⟨hadded, h⟩ := cut_u64 h
  obtain ⟨-, h⟩ := List.cons.inj h
  obtain ⟨-, h⟩ := List.cons.inj h
  have hkind := kindByte_inj hkind
  have hgrants : (d.grant.map fun g => (g.notAfterUnix, g.issuedAtUnix)) = d'.grant.map fun g => (g.notAfterUnix, g.issuedAtUnix) := by
    have hsome := boolByte_inj hgrant
    cases hg : d.grant <;> cases hg' : d'.grant
    · rfl
    · rw [hg, hg'] at hsome; cases hsome
    · rw [hg, hg'] at hsome; cases hsome
    · rw [hg, hg'] at hafter hissued
      simp only [Option.map_some, Option.getD_some, Option.some.injEq, Prod.mk.injEq] at hafter hissued ⊢
      exact ⟨UInt64.toNat.inj hafter, UInt64.toNat.inj hissued⟩
  -- what depends on the kind, and the label
  have hrest : d.signCountLast.isSome = d'.signCountLast.isSome ∧ d.state.pcr = d'.state.pcr ∧ d.homeFactor = d'.homeFactor ∧
      d.uv = d'.uv ∧ d.kekWrap = d'.kekWrap ∧
      lenByte (utf8 d.label).length :: (utf8 d.label ++ r) = lenByte (utf8 d'.label).length :: (utf8 d'.label ++ s) := by
    cases hk : d.kind with
    | tpm2 =>
      obtain ⟨-, hfido, -, hnone, hkek, -⟩ := hd.home hk
      obtain ⟨-, hfido', -, hnone', hkek', -⟩ := hd'.home (hkind ▸ hk)
      obtain ⟨hpcr, hfactor, h⟩ := cut_home hd hd' htold hk (hkind ▸ hk) hd.label hd'.label h
      exact ⟨by rw [hnone, hnone'], hpcr, hfactor, by rw [DeviceRecord.uv, DeviceRecord.uv, hfido, hfido'], by rw [hkek, hkek'], h⟩
    | fido2 =>
      obtain ⟨htpm, hfactor, hcounted, -⟩ := hd.away hk
      obtain ⟨htpm', hfactor', hcounted', -⟩ := hd'.away (hkind ▸ hk)
      obtain ⟨huv, hkek, h⟩ := cut_away hlen hd hd' htold hinj hk (hkind ▸ hk) h
      exact ⟨by rw [hcounted, hcounted'], by rw [DeviceRecord.state, DeviceRecord.state, htpm, htpm'], by rw [hfactor, hfactor'],
        huv, hkek, h⟩
  obtain ⟨hcounted, hpcr, hfactor, huv, hkek, h⟩ := hrest
  have hcounts : d.signCountLast = d'.signCountLast := by
    have := eq_of_getD (by rw [Option.isSome_map, Option.isSome_map, hcounted]) hcount
    exact Option.map_injective (fun _ _ => UInt32.toNat.inj) this
  have hshort : LengthsTold (utf8 d.label).length (utf8 d'.label).length :=
    Or.inl (hd.label.trans_lt (by norm_num))
  obtain ⟨hlabel, h⟩ := cut_text hshort h
  refine ⟨?_, h⟩
  rw [DeviceRecord.state, DeviceRecord.state, DeviceState.mk.injEq]
  exact ⟨id_of_idBytes hd.id hd'.id hid, hkind, hlabel, boolByte_inj hwrap, hgrants, hcounts, hadded, hpcr, hfactor, huv, hkek⟩

/-! ## Registries -/

theorem cut_slot {a b : EmergencySlot} (ha : a.wrap.isSome = !a.burnedAtUnix.isSome) (hb : b.wrap.isSome = !b.burnedAtUnix.isSome)
    (h : slotBytes a ++ r = slotBytes b ++ s) : a.state = b.state ∧ r = s := by
  have h64 (c : Option UInt64) : (c.map (·.toNat)).getD 0 < 256 ^ 8 := getD_lt (fun x => x.toNat_lt) (by norm_num)
  unfold slotBytes at h
  simp only [List.cons_append, List.nil_append] at h
  obtain ⟨hwrap, h⟩ := List.cons.inj h
  obtain ⟨hburned, h⟩ := cut_leBytes (h64 _) (h64 _) h
  have hwrap := boolByte_inj hwrap
  have hsome : a.burnedAtUnix.isSome = b.burnedAtUnix.isSome := by
    rw [ha, hb] at hwrap
    exact Bool.not_inj hwrap
  have := eq_of_getD (by rw [Option.isSome_map, Option.isSome_map, hsome]) hburned
  exact ⟨Prod.ext hwrap (Option.map_injective (fun _ _ => UInt64.toNat.inj) this), h⟩

/-- accepted registries with one input agree, if nothing that the input leaves open differs -/
theorem agree_of_told (hlen : ∀ b, (H.sha256 b).length = 32) (hreg : Accepted reg) (hreg' : Accepted reg')
    (hinj : NoCollision H reg reg') (hbytes : stateBytes H reg = stateBytes H reg') (htold : Told reg reg') : Agree reg reg' := by
  obtain ⟨hten, -, hmax, -⟩ := check_parts hreg.checked
  obtain ⟨hten', -, hmax', -⟩ := check_parts hreg'.checked
  have hversion : reg.formatVersion = reg'.formatVersion := (accepted_iff.1 hreg).1.trans (accepted_iff.1 hreg').1.symm
  unfold stateBytes at hbytes
  simp only [hversion, List.append_assoc, List.append_cancel_left_eq, List.cons_append, List.nil_append, List.cons.injEq,
    true_and] at hbytes
  obtain ⟨hseconds, h⟩ := cut_u32 hbytes
  obtain ⟨hpermanent, h⟩ := List.cons.inj h
  obtain ⟨hnk, h⟩ := List.append_inj h ((hlen _).trans (hlen _).symm)
  obtain ⟨hcount, h⟩ := cut_leBytes (by omega) (by omega) h
  have hnkWrap := wrap_of_hashed htold.nkWrap (hinj _ List.mem_cons_self _ List.mem_cons_self hnk)
  have hcount : reg.devices.length = reg'.devices.length := by
    have hbound : MAX_DEVICES = 4096 := rfl
    omega
  have hcut : ∀ p ∈ reg.devices.zip reg'.devices, ∀ r s, deviceBytes H p.1 ++ r = deviceBytes H p.2 ++ s →
      p.1.state = p.2.state ∧ r = s := by
    intro p hp r s
    obtain ⟨hmem, hmem'⟩ := List.of_mem_zip (show (p.1, p.2) ∈ _ from hp)
    refine cut_device hlen (checked hreg.checked hmem) (checked hreg'.checked hmem') (htold.devices p hp) fun w w' hw hw' => ?_
    exact hinj w (List.mem_cons_of_mem _ (List.mem_filterMap.2 ⟨p.1, hmem, hw⟩)) w'
      (List.mem_cons_of_mem _ (List.mem_filterMap.2 ⟨p.2, hmem', hw'⟩))
  obtain ⟨hdevices, h⟩ := cut_flatMap hcount hcut h
  obtain ⟨-, h⟩ := List.cons.inj h
  have hcutSlot : ∀ p ∈ reg.emergencySlots.zip reg'.emergencySlots, ∀ r s, slotBytes p.1 ++ r = slotBytes p.2 ++ s →
      p.1.state = p.2.state ∧ r = s := by
    intro p hp r s
    obtain ⟨hmem, hmem'⟩ := List.of_mem_zip (show (p.1, p.2) ∈ _ from hp)
    exact cut_slot (slot_checked hreg.checked hmem) (slot_checked hreg'.checked hmem')
  obtain ⟨hslots, -⟩ := cut_flatMap (r := []) (s := []) (hten.trans hten'.symm) hcutSlot (by simpa using h)
  exact ⟨hversion, hseconds, boolByte_inj hpermanent, hnkWrap, hdevices, hslots⟩

theorem state_of_zip {α β : Type} {f : α → β} {l l' : List α} (h : l.map f = l'.map f) : ∀ p ∈ l.zip l', f p.1 = f p.2 := by
  intro p hp
  obtain ⟨i, hi, rfl⟩ := List.mem_iff_getElem.1 hp
  rw [List.length_zip] at hi
  have := congrArg (·[i]?) h
  simp only [List.getElem?_map, List.getElem?_eq_getElem (show i < l.length by omega),
    List.getElem?_eq_getElem (show i < l'.length by omega), Option.map_some, Option.some.injEq] at this
  simpa using this

theorem told_of_agree (h : Agree reg reg') : Told reg reg' := by
  refine ⟨Or.inr (Or.inr (by rw [h.nkWrap])), fun p hp => ?_⟩
  have hstate := state_of_zip h.devices p hp
  have hpcr := congrArg DeviceState.pcr hstate
  have hkek := congrArg DeviceState.kekWrap hstate
  have hparams : ∀ t t', p.1.tpm2 = some t → p.2.tpm2 = some t' → t.pcrBank = t'.pcrBank ∧ t.pcrSlots = t'.pcrSlots := by
    intro t t' ht ht'
    simp only [DeviceRecord.state, ht, ht', Option.map_some, Option.some.injEq, Prod.mk.injEq] at hpcr
    exact hpcr
  refine ⟨fun t t' ht ht' => ?_, fun t t' ht ht' => ?_, fun w w' hw hw' => ?_⟩
  · exact Or.inr (Or.inr (by rw [(hparams t t' ht ht').1]))
  · exact Or.inr (Or.inr (by rw [(hparams t t' ht ht').2]))
  · simp only [DeviceRecord.state, hw, hw', Option.some.injEq] at hkek
    exact Or.inr (Or.inr (by rw [hkek]))

/-- accepted registries with one input agree exactly when nothing that the input leaves open differs -/
theorem mac_input (hlen : ∀ b, (H.sha256 b).length = 32) (hreg : Accepted reg) (hreg' : Accepted reg')
    (hinj : NoCollision H reg reg') (hbytes : stateBytes H reg = stateBytes H reg') : Agree reg reg' ↔ Told reg reg' :=
  ⟨told_of_agree, agree_of_told hlen hreg hreg' hinj hbytes⟩

/-! ## One home device -/

namespace OneHome

/-- not a hash: the first 32 bytes -/
def hashes : Hashes := ⟨fun b => (b ++ List.replicate 32 0).take 32, fun _ _ _ _ _ => .error ""⟩

theorem length_sha256 (b : Bytes) : (hashes.sha256 b).length = 32 := by simp [hashes]

def home (t : Tpm2Params) : DeviceRecord :=
  ⟨"00000000000000000000000000000000", "h", .tpm2, 0, some ⟨"", ""⟩, none, some t, none, none, none, none⟩

/-- one home device with these parameters -/
def registry (t : Tpm2Params) : DeviceRegistryFile :=
  ⟨DEVICES_FORMAT_VERSION, Base64.encode (List.replicate 32 0), 60, false, ⟨"", ""⟩, Base64.encode (List.replicate 32 0), [home t],
    (List.range 10).map fun i => ⟨UInt8.ofNat i, none, some 0⟩⟩

theorem noCollision (t t' : Tpm2Params) : NoCollision hashes (registry t) (registry t') := by
  intro w hw w' hw' _
  simp only [DeviceRegistryFile.hashedWraps, registry, home, List.filterMap_cons, List.filterMap_nil, List.mem_singleton] at hw hw'
  rw [hw, hw']

theorem stateBytes_registry {t t' : Tpm2Params} (h : kindBytes hashes (home t) = kindBytes hashes (home t')) :
    stateBytes hashes (registry t) = stateBytes hashes (registry t') := by
  have hdevice : deviceBytes hashes (home t) = deviceBytes hashes (home t') := by
    unfold deviceBytes
    rw [h]
    rfl
  simp only [stateBytes, registry, List.flatMap_cons, List.flatMap_nil, hdevice, List.length_singleton]

/-- a text of this length -/
def bank (n : ℕ) : String := String.ofList (List.replicate n 'a')

/-- a bank of 255 bytes and the slot 0 -/
def short : Tpm2Params := ⟨"", "", [0], bank 255⟩

/-- a bank one byte longer and no slots -/
def long : Tpm2Params := ⟨"", "", [], bank 255 ++ "\x01"⟩

theorem accepted_of_checks {t : Tpm2Params} (h : (checks (registry t)).all (fun c => c.1) = true) : Accepted (registry t) := by
  refine accepted_iff.2 ⟨rfl, ?_⟩
  have hesc : decodes32 (registry t).escB64 = true := by simp [decodes32, registry]
  have hid : (decodeHexId "00000000000000000000000000000000").isNone = false := by decide +kernel
  have hnone : ((registry t).devices.find? fun d => (decodeHexId d.id).isNone) = none := by simp [registry, home, hid]
  have hfill : fillDerived (registry t) = .ok () := by
    unfold fillDerived
    rw [hesc, hnone]
    rfl
  have hcheck : check (registry t) = .ok () := check_ok_iff.2 (List.all_eq_true.1 h)
  unfold validate
  rw [hfill]
  exact hcheck

theorem length_bank (n : ℕ) : (utf8 (bank n)).length = n := by
  have hascii : ∀ c ∈ (bank n).toList, c.toNat < 128 := by
    intro c hc
    rw [bank, String.toList_ofList] at hc
    rw [List.eq_of_mem_replicate hc]
    decide
  rw [utf8_ascii hascii, List.length_map, bank, String.toList_ofList, List.length_replicate]

theorem kindBytes_short : kindBytes hashes (home short) = kindBytes hashes (home long) := by
  have hone : utf8 "\x01" = [1] := by decide
  have hcut : lenByte 256 = lenByte 255 := rfl
  rw [← List.append_nil (kindBytes hashes (home short)), ← List.append_nil (kindBytes hashes (home long)),
    kindBytes_home rfl rfl, kindBytes_home rfl rfl]
  simp only [short, long, utf8_append, List.length_append, length_bank, hone, List.length_singleton, hcut, List.append_assoc]
  rfl

theorem accepted_short : Accepted (registry short) := accepted_of_checks (by decide +kernel)

theorem accepted_long : Accepted (registry long) := accepted_of_checks (by decide +kernel)

/-- the same parameters but for the private blob -/
def sealed (blob : String) : Tpm2Params := ⟨blob, "", [7], "sha256"⟩

theorem accepted_sealed : Accepted (registry (sealed "p")) ∧ Accepted (registry (sealed "q")) :=
  ⟨accepted_of_checks (by decide +kernel), accepted_of_checks (by decide +kernel)⟩

/-- registries that differ in the private blob of the TPM agree -/
theorem mac_input_sealed : Agree (registry (sealed "p")) (registry (sealed "q")) ↔ Told (registry (sealed "p")) (registry (sealed "q")) :=
  mac_input length_sha256 accepted_sealed.1 accepted_sealed.2 (noCollision _ _) (stateBytes_registry rfl)

/-- a bank of 255 bytes with a slot and one of 256 bytes without have one input -/
theorem long_bank : ∃ (H : Hashes) (reg reg' : DeviceRegistryFile), (∀ b, (H.sha256 b).length = 32) ∧ Accepted reg ∧ Accepted reg' ∧
    NoCollision H reg reg' ∧ stateBytes H reg = stateBytes H reg' ∧ ¬ Agree reg reg' := by
  refine ⟨hashes, registry short, registry long, length_sha256, accepted_short, accepted_long, noCollision _ _,
    stateBytes_registry kindBytes_short, fun h => ?_⟩
  have hdevices := h.devices
  simp only [registry, List.map_cons, List.map_nil, List.cons.injEq, and_true] at hdevices
  have hpcr := congrArg DeviceState.pcr hdevices
  simp [DeviceRecord.state, home, short, long] at hpcr

end OneHome

end Y2q.Devices
