/-
Per-bucket key material (`bucket_keys.rs`, `crypto/seal.rs`).

An epoch of a bucket's key pair is kept with its secret half wrapped under a bucket wrap key (BWK). The BWK is stored nowhere; for
every grantee it is sealed to the identity keys of the grantee's four credential slots: the BWK itself in the slots that may read,
32 random bytes in the others. Sealing and wrapping are parameters with ideal behaviour (`Sealing`): what was sealed opens under the
same key and AAD, and under nothing else. Random draws are arguments.

- `SealedRow`: a row of sealed slots and what was sealed in it. `sealGrantSlots_spec`: it is what `seal_grant_slots` makes.
- `Epoch`: a key version with the rows that a book of sealings says. `Epoch.openWith_iff`: opening works exactly in the slots that
  hold the BWK.
-/
import Mathlib.Tactic
import Mathlib.Data.String.Basic
import Y2q.Core.Base64
import Y2q.Core.Tables
import Y2q.Core.Text
import Y2q.Crypto.Error

namespace Y2q.BucketKeys

/-! ## Data -/

def CREDENTIAL_SLOTS : ℕ := 4

def MAX_RETAINED_EPOCHS : ℕ := 8

inductive BucketPermission where
  | Read
  | Write
  | WriteOnly
  | Admin
deriving DecidableEq, Repr

abbrev Key32 := { b : Bytes // b.length = 32 }

/-- `seal_to`, `open_sealed`, `wrap_with_key` and `unwrap_with_key` -/
structure Sealing where
  SealedKey : Type
  WrappedSk : Type
  /-- the public key of a secret key -/
  publicKey : Bytes → Bytes
  sealTo : (recipientPk plaintext aad seed : Bytes) → Except CryptoError SealedKey
  openSealed : (recipientSk : Bytes) → SealedKey → (aad : Bytes) → Option Bytes
  wrapWithKey : (payload : Bytes) → Key32 → (aad seed : Bytes) → WrappedSk
  unwrapWithKey : WrappedSk → Key32 → (aad : Bytes) → Option Bytes
  open_seal : ∀ pk m aad seed s, sealTo pk m aad seed = .ok s →
    ∀ sk aad', openSealed sk s aad' = if publicKey sk = pk ∧ aad' = aad then some m else none
  unwrap_wrap : ∀ m k aad seed k' aad', unwrapWithKey (wrapWithKey m k aad seed) k' aad' = if k' = k ∧ aad' = aad then some m else none

variable (S : Sealing)

structure BucketKeyVersion where
  epoch : UInt32
  publicKeyB64 : String
  skBlob : S.WrappedSk
  grants : Table String (List S.SealedKey)

structure BucketConfig where
  quotaBytes : Option UInt64
  defaultSse : Option String
  corsAllowOrigin : Option String
  owner : Option String
  acl : Table String BucketPermission
  keys : List (BucketKeyVersion S)
  aclGeneration : UInt64

def BucketConfig.default : BucketConfig S := ⟨none, none, none, none, ∅, [], 0⟩

inductive Error where
  | forbidden (bucket : String)
  | notFound (bucket : String)
  | internalError (bucket operation message : String)
  | tooManyBucketKeyEpochs (bucket : String) (count max : ℕ)
  | aclConflict (reason : String)
  | invalidAcl (reason : String)
  | invalidPersonaRequest (reason : String)
deriving DecidableEq, Repr

/-- what the code here uses of a user's record -/
structure UserRecord where
  /-- `identity_pk_b64` of each credential slot -/
  slots : List String
  primarySlot : ℕ
deriving DecidableEq, Repr

abbrev Users := String → Option UserRecord

structure GranteeSlots where
  identityPksB64 : List String
  authorized : List Bool
deriving DecidableEq, Repr

/-- the random draws for one slot -/
structure Draw where
  decoy : Key32
  seed : Bytes

/-- the random draws for a new epoch -/
structure Fresh where
  publicKeyB64 : String
  secretKey : Bytes
  bwk : Key32
  seed : Bytes

/-! ## Sealing -/

def bucketGrantAad (bucket : String) (epoch : UInt32) (user : String) (slot : ℕ) : Bytes :=
  utf8 "y2q/v3/bucket-grant" ++ lenPrefixed bucket ++ beBytes 4 epoch.toNat ++ lenPrefixed user ++ beBytes 4 slot

def bucketSkWrapAad (bucket : String) (epoch : UInt32) : Bytes :=
  utf8 "y2q/v3/bucket-sk" ++ lenPrefixed bucket ++ beBytes 4 epoch.toNat

def cryptoErr (bucket operation : String) (e : CryptoError) : Error := .internalError bucket operation e.message

def cryptoDecodeErr (bucket what : String) : Error := .internalError bucket "bucket-key-grant" s!"malformed {what}"

/-- what a slot of a grant row holds: the BWK, or a decoy -/
def slotPayload (bwk : Key32) (draws : ℕ → Draw) (slot : ℕ) (authorized : Bool) : Key32 := if authorized then bwk else (draws slot).decoy

def sealSlot (bucket : String) (epoch : UInt32) (username : String) (bwk : Key32) (draws : ℕ → Draw) (slot : ℕ) (pkB64 : String)
    (authorized : Bool) : Except Error S.SealedKey :=
  match Base64.decode pkB64 with
  | none => .error (cryptoDecodeErr bucket "identity public key")
  | some identityPk =>
    match S.sealTo identityPk (slotPayload bwk draws slot authorized).1 (bucketGrantAad bucket epoch username slot) (draws slot).seed with
    | .ok s => .ok s
    | .error e => .error (cryptoErr bucket "seal-grant" e)

def sealFrom (bucket : String) (epoch : UInt32) (username : String) (bwk : Key32) (draws : ℕ → Draw) :
    ℕ → List String → List Bool → Except Error (List S.SealedKey)
  | slot, pkB64 :: pks, authorized :: flags => do
    let s ← sealSlot S bucket epoch username bwk draws slot pkB64 authorized
    let rest ← sealFrom bucket epoch username bwk draws (slot + 1) pks flags
    pure (s :: rest)
  | _, _, _ => pure []

def sealGrantSlots (bucket : String) (epoch : UInt32) (username : String) (slots : GranteeSlots) (bwk : Key32) (draws : ℕ → Draw) :
    Except Error (List S.SealedKey) :=
  if slots.identityPksB64.length ≠ CREDENTIAL_SLOTS ∨ slots.authorized.length ≠ CREDENTIAL_SLOTS then
    .error (.internalError bucket "bucket-key-grant"
      s!"expected {CREDENTIAL_SLOTS} credential slots for {username}, found a mismatched count")
  else sealFrom S bucket epoch username bwk draws 0 slots.identityPksB64 slots.authorized

variable {S}

def putGrantSlot (kv : BucketKeyVersion S) (bucket username : String) (slots : GranteeSlots) (bwk : Key32) (draws : ℕ → Draw) :
    Except Error (BucketKeyVersion S) := do
  let row ← sealGrantSlots S bucket kv.epoch username slots bwk draws
  pure { kv with grants := kv.grants.insert username row }

/-- `draws n` are those of the `n`-th grantee -/
def sealAll (bucket : String) (epoch : UInt32) (bwk : Key32) (draws : ℕ → ℕ → Draw) :
    ℕ → List (String × GranteeSlots) → Table String (List S.SealedKey) → Except Error (Table String (List S.SealedKey))
  | _, [], grants => pure grants
  | n, (username, slots) :: rest, grants => do
    let row ← sealGrantSlots S bucket epoch username slots bwk (draws n)
    sealAll bucket epoch bwk draws (n + 1) rest (grants.insert username row)

def newBucketKeyVersion (epoch : UInt32) (bucket : String) (grantees : List (String × GranteeSlots)) (fresh : Fresh)
    (draws : ℕ → ℕ → Draw) : Except Error (BucketKeyVersion S) := do
  let grants ← sealAll bucket epoch fresh.bwk draws 0 grantees ∅
  pure ⟨epoch, fresh.publicKeyB64, S.wrapWithKey fresh.secretKey fresh.bwk (bucketSkWrapAad bucket epoch) fresh.seed, grants⟩

/-! ## Opening -/

def findEpoch (config : BucketConfig S) (epoch : UInt32) : Option (BucketKeyVersion S) := config.keys.find? fun k => k.epoch = epoch

def openBwk (config : BucketConfig S) (bucket : String) (epoch : UInt32) (username : String) (slot : ℕ) (identitySk : Bytes) :
    Except Error Key32 :=
  match findEpoch config epoch with
  | none => .error (.forbidden bucket)
  | some kv =>
    match kv.grants[username]? with
    | none => .error (.forbidden bucket)
    | some sealedSlots =>
      if sealedSlots.length ≠ CREDENTIAL_SLOTS then
        .error (.internalError bucket "bucket-key-grant"
          s!"expected {CREDENTIAL_SLOTS} credential slots for {username}, found {sealedSlots.length}")
      else
        match sealedSlots[slot]? with
        | none => .error (.forbidden bucket)
        | some s =>
          match S.openSealed identitySk s (bucketGrantAad bucket epoch username slot) with
          | none => .error (.forbidden bucket)
          | some bwk => if h : bwk.length = 32 then .ok ⟨bwk, h⟩ else .error (.forbidden bucket)

/-- open the BWK and check that it unwraps the epoch's secret key -/
def openWith (config : BucketConfig S) (bucket : String) (epoch : UInt32) (username : String) (slot : ℕ) (identitySk : Bytes) :
    Except Error (Key32 × Bytes) :=
  match findEpoch config epoch with
  | none => .error (.forbidden bucket)
  | some kv => do
    let bwk ← openBwk config bucket epoch username slot identitySk
    match S.unwrapWithKey kv.skBlob bwk (bucketSkWrapAad bucket epoch) with
    | none => .error (.forbidden bucket)
    | some sk => .ok (bwk, sk)

def openVerifiedBwk (config : BucketConfig S) (bucket : String) (epoch : UInt32) (username : String) (slot : ℕ) (identitySk : Bytes) :
    Except Error Key32 := (openWith config bucket epoch username slot identitySk).map Prod.fst

def readKey (config : BucketConfig S) (bucket : String) (epoch : UInt32) (username : String) (slot : ℕ) (identitySk : Bytes) :
    Except Error Bytes := (openWith config bucket epoch username slot identitySk).map Prod.snd

def currentKey (config : BucketConfig S) : Option (BucketKeyVersion S) := config.keys.getLast?

/-! ## Grantees -/

/-- `read_implying_grantees` of `handlers/acl.rs`, as the sorted list of its members -/
def readImplyingGrantees (acl : Table String BucketPermission) : List String :=
  (acl.toList.filter fun e => e.2 ≠ .WriteOnly).map (·.1)

/-- real access at one slot only -/
def onlySlot (slot : ℕ) : List Bool := (List.range CREDENTIAL_SLOTS).map fun i => i = slot

/-- access at no slot -/
def noSlot : List Bool := List.replicate CREDENTIAL_SLOTS false

/-- the users of a rotation: a set, here without repetitions -/
def rotationUsers (config : BucketConfig S) (caller : String) : List String :=
  (readImplyingGrantees config.acl ++ config.owner.toList ++ [caller]).dedup

def currentGrantees (users : Users) (config : BucketConfig S) (caller : String) (callerPersona : ℕ) : List (String × GranteeSlots) :=
  (rotationUsers config caller).filterMap fun username =>
    (users username).map fun r =>
      (username, ⟨r.slots, if username = caller then onlySlot callerPersona else onlySlot r.primarySlot⟩)

def newOwnerKey (users : Users) (bucket username : String) (persona : ℕ) (fresh : Fresh) (draws : ℕ → ℕ → Draw) :
    Except Error (BucketKeyVersion S) :=
  match users username with
  | none => .error (.internalError bucket "claim_ownership" "claiming user's record vanished")
  | some r => newBucketKeyVersion 0 bucket [(username, ⟨r.slots, onlySlot persona⟩)] fresh draws

def resolveWriteKey (config : BucketConfig S) (bucket : String) : Except Error (UInt32 × Bytes) :=
  match currentKey config with
  | none => .error (.internalError bucket "resolve_write_key" "bucket has no key material")
  | some kv =>
    match Base64.decode kv.publicKeyB64 with
    | none => .error (cryptoDecodeErr bucket "bucket public key")
    | some pk => .ok (kv.epoch, pk)

/-! ## What a row holds -/

theorem bind_ok {ε α β : Type} {x : Except ε α} {f : α → Except ε β} {b : β} (h : x >>= f = .ok b) : ∃ a, x = .ok a ∧ f a = .ok b := by
  cases x with
  | error e => cases h
  | ok a => exact ⟨a, rfl, h⟩

/-- `s` was made by sealing `payload` for the slot -/
def SealedAs (S : Sealing) (bucket : String) (epoch : UInt32) (username : String) (pks : List String) (slot : ℕ) (payload : Key32)
    (s : S.SealedKey) : Prop :=
  ∃ pkB64 pk seed, pks[slot]? = some pkB64 ∧ Base64.decode pkB64 = some pk ∧
    S.sealTo pk payload.1 (bucketGrantAad bucket epoch username slot) seed = .ok s

/-- what the slots of a row hold, by the flags it was made with -/
def payloads (bwk : Key32) (draws : ℕ → Draw) (flags : List Bool) : List Key32 := flags.mapIdx (slotPayload bwk draws)

/-- the row holds these payloads, each sealed for its slot -/
structure SealedRow (S : Sealing) (bucket : String) (epoch : UInt32) (username : String) (pks : List String) (held : List Key32)
    (row : List S.SealedKey) : Prop where
  length : row.length = CREDENTIAL_SLOTS
  held_length : held.length = CREDENTIAL_SLOTS
  slot : ∀ i s payload, row[i]? = some s → held[i]? = some payload → SealedAs S bucket epoch username pks i payload s

variable {bucket username : String} {epoch : UInt32} {bwk : Key32} {draws : ℕ → Draw} {slots : GranteeSlots}

theorem sealSlot_ok {slot : ℕ} {pkB64 : String} {authorized : Bool} {s : S.SealedKey}
    (h : sealSlot S bucket epoch username bwk draws slot pkB64 authorized = .ok s) :
    ∃ pk, Base64.decode pkB64 = some pk ∧
      S.sealTo pk (slotPayload bwk draws slot authorized).1 (bucketGrantAad bucket epoch username slot) (draws slot).seed =
        .ok s := by
  rw [sealSlot] at h
  cases hpk : Base64.decode pkB64 with
  | none =>
    rw [hpk] at h
    cases h
  | some pk =>
    rw [hpk] at h
    refine ⟨pk, rfl, ?_⟩
    simp only at h
    split at h
    · rename_i s' hs'
      cases h
      exact hs'
    · cases h

/-- slot by slot -/
theorem sealFrom_ok (pks : List String) (flags : List Bool) {n : ℕ} {row : List S.SealedKey}
    (h : sealFrom S bucket epoch username bwk draws n pks flags = .ok row) (hlen : pks.length = flags.length) :
    row.length = pks.length ∧ ∀ i s, row[i]? = some s → ∃ pkB64 authorized, pks[i]? = some pkB64 ∧ flags[i]? = some authorized ∧
      sealSlot S bucket epoch username bwk draws (n + i) pkB64 authorized = .ok s := by
  induction pks generalizing flags n row with
  | nil =>
    cases flags with
    | cons f flags => cases hlen
    | nil =>
      cases h
      exact ⟨rfl, nofun⟩
  | cons pkB64 pks ih =>
    cases flags with
    | nil => cases hlen
    | cons authorized flags =>
      obtain ⟨s, hs, h⟩ := bind_ok h
      obtain ⟨rest, hrest, h⟩ := bind_ok h
      cases h
      obtain ⟨hl, hslots⟩ := ih flags hrest (Nat.succ.inj hlen)
      refine ⟨congrArg Nat.succ hl, fun i s' hi => ?_⟩
      cases i with
      | zero =>
        cases hi
        exact ⟨pkB64, authorized, rfl, rfl, hs⟩
      | succ i =>
        obtain ⟨pk', f', hpk', hf', hseal⟩ := hslots i s' hi
        rw [Nat.add_right_comm] at hseal
        exact ⟨pk', f', hpk', hf', hseal⟩

/-- **What `seal_grant_slots` makes.** -/
theorem sealGrantSlots_spec {row : List S.SealedKey} (h : sealGrantSlots S bucket epoch username slots bwk draws = .ok row) :
    SealedRow S bucket epoch username slots.identityPksB64 (payloads bwk draws slots.authorized) row := by
  rw [sealGrantSlots] at h
  split_ifs at h with hlen
  rw [not_or, not_not, not_not] at hlen
  obtain ⟨hl, hslots⟩ := sealFrom_ok _ _ h (hlen.1.trans hlen.2.symm)
  refine ⟨hl.trans hlen.1, List.length_mapIdx.trans hlen.2, fun i s payload hi hheld => ?_⟩
  obtain ⟨pkB64, authorized, hpk, hf, hseal⟩ := hslots i s hi
  rw [payloads, List.getElem?_mapIdx, hf] at hheld
  cases hheld
  rw [Nat.zero_add] at hseal
  obtain ⟨pk, hdec, hto⟩ := sealSlot_ok hseal
  exact ⟨pkB64, pk, _, hpk, hdec, hto⟩

/-! ## A whole epoch -/

/-- what was sealed for an epoch: its BWK, and for every user with a row the payloads last sealed -/
structure EpochBook where
  bwk : Key32
  rows : String → Option (List Key32)

/-- the user's row has, in this slot, the epoch's BWK -/
def EpochBook.Real (book : EpochBook) (u : String) (slot : ℕ) : Prop := ∃ held, book.rows u = some held ∧ held[slot]? = some book.bwk

def EpochBook.put (book : EpochBook) (u : String) (held : List Key32) : EpochBook :=
  { book with rows := Function.update book.rows u (some held) }

theorem EpochBook.put_self {book : EpochBook} {u : String} {held : List Key32} : (book.put u held).rows u = some held :=
  Function.update_self ..

theorem EpochBook.put_of_ne {book : EpochBook} {u v : String} {held : List Key32} (h : v ≠ u) : (book.put u held).rows v = book.rows v :=
  Function.update_of_ne h ..

/-- the grants are the rows of the book; the grantees' identity keys are those of `users` -/
def Rows (S : Sealing) (users : Users) (bucket : String) (epoch : UInt32) (rows : String → Option (List Key32))
    (grants : Table String (List S.SealedKey)) : Prop :=
  ∀ u, match rows u with
    | none => grants[u]? = none
    | some held => ∃ r row, users u = some r ∧ grants[u]? = some row ∧ SealedRow S bucket epoch u r.slots held row

/-- a key version made and sealed as the book says -/
structure Epoch (S : Sealing) (users : Users) (bucket : String) (book : EpochBook) (kv : BucketKeyVersion S) : Prop where
  blob : ∃ sk seed, kv.skBlob = S.wrapWithKey sk book.bwk (bucketSkWrapAad bucket kv.epoch) seed
  rows : Rows S users bucket kv.epoch book.rows kv.grants

variable {users : Users} {book : EpochBook} {kv : BucketKeyVersion S} {cfg : BucketConfig S} {u : String} {slot : ℕ} {sk : Bytes}

theorem Rows.empty : Rows S users bucket epoch (fun _ => none) ∅ := fun _ => Std.TreeMap.getElem?_emptyc

theorem Rows.insert {rows : String → Option (List Key32)} {grants : Table String (List S.SealedKey)} {r : UserRecord}
    {held : List Key32} {row : List S.SealedKey} (h : Rows S users bucket epoch rows grants) (hr : users username = some r)
    (hrow : SealedRow S bucket epoch username r.slots held row) :
    Rows S users bucket epoch (Function.update rows username (some held)) (grants.insert username row) := by
  intro v
  by_cases hv : v = username
  · subst hv
    rw [Function.update_self]
    exact ⟨r, row, hr, Std.TreeMap.getElem?_insert_self, hrow⟩
  · rw [Function.update_of_ne hv, Table.getElem?_insert_iff, if_neg (Ne.symm hv)]
    exact h v

/-- the secret key of a user's credential slot -/
def Matches (S : Sealing) (users : Users) (u : String) (slot : ℕ) (sk : Bytes) : Prop :=
  ∃ r pkB64, users u = some r ∧ r.slots[slot]? = some pkB64 ∧ Base64.decode pkB64 = some (S.publicKey sk)

theorem SealedAs.open_iff {pks : List String} {payload : Key32} {s : S.SealedKey} (h : SealedAs S bucket epoch u pks slot payload s)
    (sk m : Bytes) : S.openSealed sk s (bucketGrantAad bucket epoch u slot) = some m ↔
      (∃ pkB64, pks[slot]? = some pkB64 ∧ Base64.decode pkB64 = some (S.publicKey sk)) ∧ m = payload.1 := by
  obtain ⟨pkB64, pk, seed, hpk, hdec, hto⟩ := h
  rw [S.open_seal _ _ _ _ _ hto]
  constructor
  · intro hm
    split_ifs at hm with hkey
    cases hm
    exact ⟨⟨pkB64, hpk, by rw [hdec, hkey.1]⟩, rfl⟩
  · rintro ⟨⟨pkB64', hpk', hdec'⟩, rfl⟩
    cases hpk.symm.trans hpk'
    cases hdec.symm.trans hdec'
    exact if_pos ⟨rfl, rfl⟩

/-- what `open_bwk` returns is what was sealed -/
theorem Epoch.openBwk_ok (h : Epoch S users bucket book kv) (hfind : findEpoch cfg kv.epoch = some kv) {k : Key32}
    (hk : openBwk cfg bucket kv.epoch u slot sk = .ok k) :
    Matches S users u slot sk ∧ ∃ held, book.rows u = some held ∧ held[slot]? = some k := by
  simp only [openBwk, hfind] at hk
  have hrow := h.rows u
  cases hbook : book.rows u with
  | none =>
    simp only [hbook] at hrow
    simp only [hrow] at hk
    cases hk
  | some held =>
    simp only [hbook] at hrow
    obtain ⟨r, row, hr, hgrants, hrow⟩ := hrow
    simp only [hgrants, hrow.length, ne_eq, not_true_eq_false, if_false] at hk
    cases hs : row[slot]? with
    | none =>
      simp only [hs] at hk
      cases hk
    | some s =>
      have hslot : slot < held.length := by
        rw [hrow.held_length, ← hrow.length]
        exact (List.getElem?_eq_some_iff.1 hs).1
      have hheld : held[slot]? = some held[slot] := List.getElem?_eq_getElem hslot
      have hsealed := hrow.slot slot s _ hs hheld
      simp only [hs] at hk
      cases hopen : S.openSealed sk s (bucketGrantAad bucket kv.epoch u slot) with
      | none =>
        simp only [hopen] at hk
        cases hk
      | some m =>
        obtain ⟨⟨pkB64, hpk, hdec⟩, rfl⟩ := (hsealed.open_iff sk m).1 hopen
        simp only [hopen, dif_pos held[slot].2] at hk
        cases hk
        exact ⟨⟨r, pkB64, hr, hpk, hdec⟩, held, rfl, hheld⟩

/-- the slot's key opens what was sealed -/
theorem Epoch.openBwk_held (h : Epoch S users bucket book kv) (hfind : findEpoch cfg kv.epoch = some kv)
    (hm : Matches S users u slot sk) {held : List Key32} {k : Key32} (hbook : book.rows u = some held)
    (hk : held[slot]? = some k) : openBwk cfg bucket kv.epoch u slot sk = .ok k := by
  have hrow := h.rows u
  simp only [hbook] at hrow
  obtain ⟨r, row, hr, hgrants, hrow⟩ := hrow
  obtain ⟨r', pkB64, hr', hpk, hdec⟩ := hm
  cases hr.symm.trans hr'
  have hslot : slot < row.length := by
    rw [hrow.length, ← hrow.held_length]
    exact (List.getElem?_eq_some_iff.1 hk).1
  have hs : row[slot]? = some row[slot] := List.getElem?_eq_getElem hslot
  have hopen := ((hrow.slot slot _ _ hs hk).open_iff sk k.1).2 ⟨⟨pkB64, hpk, hdec⟩, rfl⟩
  simp only [openBwk, hfind, hgrants, hrow.length, ne_eq, not_true_eq_false, if_false, hs, hopen, k.2, dif_pos]

/-- **Opening works exactly in the slots that hold the BWK**, with the slot's own secret key. -/
theorem Epoch.openWith_iff (h : Epoch S users bucket book kv) (hfind : findEpoch cfg kv.epoch = some kv) :
    (∃ x, openWith cfg bucket kv.epoch u slot sk = .ok x) ↔ Matches S users u slot sk ∧ book.Real u slot := by
  obtain ⟨secret, seed, hblob⟩ := h.blob
  constructor
  · rintro ⟨x, hx⟩
    simp only [openWith, hfind] at hx
    obtain ⟨k, hk, hx⟩ := bind_ok hx
    obtain ⟨hm, held, hbook, hheld⟩ := h.openBwk_ok hfind hk
    rw [hblob, S.unwrap_wrap] at hx
    split_ifs at hx with hkey
    rw [hkey.1] at hheld
    exact ⟨hm, held, hbook, hheld⟩
  · rintro ⟨hm, held, hbook, hheld⟩
    refine ⟨(book.bwk, secret), ?_⟩
    simp only [openWith, hfind, h.openBwk_held hfind hm hbook hheld]
    change (match S.unwrapWithKey kv.skBlob book.bwk _ with | none => _ | some sk => _) = _
    rw [hblob, S.unwrap_wrap, if_pos ⟨rfl, rfl⟩]

/-- and it gives the BWK -/
theorem Epoch.openWith_bwk (h : Epoch S users bucket book kv) (hfind : findEpoch cfg kv.epoch = some kv) {x : Key32 × Bytes}
    (hx : openWith cfg bucket kv.epoch u slot sk = .ok x) : x.1 = book.bwk := by
  obtain ⟨secret, seed, hblob⟩ := h.blob
  simp only [openWith, hfind] at hx
  obtain ⟨k, hk, hx⟩ := bind_ok hx
  rw [hblob, S.unwrap_wrap] at hx
  split_ifs at hx with hkey
  cases hx
  exact hkey.1

theorem map_ok_iff {ε α β : Type} {x : Except ε α} {f : α → β} : (∃ b, x.map f = .ok b) ↔ ∃ a, x = .ok a := by
  cases x with
  | error e => exact iff_of_false nofun nofun
  | ok a => exact iff_of_true ⟨f a, rfl⟩ ⟨a, rfl⟩

theorem Epoch.openVerifiedBwk_ok (h : Epoch S users bucket book kv) (hfind : findEpoch cfg kv.epoch = some kv) {k : Key32}
    (hk : openVerifiedBwk cfg bucket kv.epoch u slot sk = .ok k) : k = book.bwk ∧ book.Real u slot := by
  cases hx : openWith cfg bucket kv.epoch u slot sk with
  | error e =>
    rw [openVerifiedBwk, hx] at hk
    cases hk
  | ok x =>
    rw [openVerifiedBwk, hx] at hk
    cases hk
    exact ⟨h.openWith_bwk hfind hx, ((h.openWith_iff hfind).1 ⟨x, hx⟩).2⟩

end Y2q.BucketKeys
