/-
User records and their credential slots (`authz.rs`, `crypto/user_store.rs`, `crypto/kdf.rs`).

A record has four slots. In each, a payload (an identity key, the role of the sessions it opens, and the duress flag) is wrapped under a
password, or under random bytes that are discarded, so that nobody can open it. The password hash and the AEAD are a parameter with
ideal behaviour (`SlotWrap`): a slot opens under the password, the parameters and the place it was made for, and under nothing else.

- `rolePermits`: an order on roles.
- `attemptUnwrap`: the first slot that a password opens. `attemptUnwrap_eq_some`: what it takes.
- `UserStore`: the records by name, which each record keeps.
- `admits`: the role check of a login. `admits_admin`: a session with role `Admin` needs the payload and the record to say so.
-/
import Mathlib.Tactic
import Mathlib.Data.String.Basic
import Y2q.Core.Tables
import Y2q.Core.Text

namespace Y2q.Auth

/-! ## Roles -/

inductive Role where
  | Admin
  | User
  | ReadOnly
  | WriteOnly
  | Auditor
  | Disabled
deriving DecidableEq, Repr

structure Caps where
  read : Bool
  write : Bool
  admin : Bool
deriving DecidableEq, Repr

def Caps.NONE : Caps := ⟨false, false, false⟩

def Caps.FULL : Caps := ⟨true, true, true⟩

def roleCaps : Role → Caps
  | .Admin | .User => Caps.FULL
  | .ReadOnly | .Auditor => { Caps.NONE with read := true }
  | .WriteOnly => { Caps.NONE with write := true }
  | .Disabled => Caps.NONE

def roleIsGlobal : Role → Bool
  | .Admin | .Auditor => true
  | _ => false

/-- `candidate` grants nothing that `ceiling` does not -/
def rolePermits (candidate ceiling : Role) : Bool :=
  let c := roleCaps candidate
  let m := roleCaps ceiling
  (!c.read || m.read) && (!c.write || m.write) && (!c.admin || m.admin) && (!roleIsGlobal candidate || roleIsGlobal ceiling)

theorem rolePermits_refl (r : Role) : rolePermits r r = true := by
  cases r <;> rfl

theorem rolePermits_trans {r₁ r₂ r₃ : Role} (h : rolePermits r₁ r₂ = true) (h' : rolePermits r₂ r₃ = true) :
    rolePermits r₁ r₃ = true := by
  revert h h'
  cases r₁ <;> cases r₂ <;> cases r₃ <;> decide

theorem rolePermits_admin {r : Role} : rolePermits .Admin r = true ↔ r = .Admin := by
  cases r <;> decide

/-! ## Slots -/

abbrev CREDENTIAL_SLOTS : ℕ := 4

abbrev Slot := Fin CREDENTIAL_SLOTS

structure Argon2Params where
  mCostKib : UInt32
  tCost : UInt32
  pCost : UInt32
  salt : Bytes
deriving DecidableEq

structure SlotPayload where
  identitySk : Bytes
  role : Role
  revokeOtherSessions : Bool
deriving DecidableEq

/-- what a slot is wrapped under: a password, or random bytes that nobody keeps -/
inductive Secret where
  | password (p : Bytes)
  | discarded (n : ℕ)
deriving DecidableEq

/-- `wrap_slot` and `unwrap_slot`, with the password hash -/
structure SlotWrap where
  Wrapped : Type
  decEq : DecidableEq Wrapped
  wrapSlot : SlotPayload → Secret → Argon2Params → (aad nonce : Bytes) → Wrapped
  unwrapSlot : Wrapped → (password : Bytes) → Argon2Params → (aad : Bytes) → Option SlotPayload
  unwrap_wrap : ∀ m k params aad nonce pw params' aad', unwrapSlot (wrapSlot m k params aad nonce) pw params' aad' =
    if k = .password pw ∧ params' = params ∧ aad' = aad then some m else none
  /-- a slot has one password -/
  unwrap_once : ∀ w pw pw' params aad m m', unwrapSlot w pw params aad = some m → unwrapSlot w pw' params aad = some m' → m' = m

def slotWrapAad (username : String) (slot : Slot) : Bytes :=
  utf8 "y2q/v3/slot-wrap" ++ beBytes 4 slot.1 ++ lenPrefixed username

variable (W : SlotWrap)

instance : DecidableEq W.Wrapped := W.decEq

structure CredentialSlot where
  identityPkB64 : String
  wrapped : W.Wrapped
deriving DecidableEq

/-- the random draws for a slot -/
structure SlotDraw where
  identityPkB64 : String
  identitySk : Bytes
  nonce : Bytes
  discarded : ℕ
deriving DecidableEq

def newSlot (username : String) (slot : Slot) (password : Bytes) (params : Argon2Params) (role : Role) (revokeOtherSessions : Bool)
    (d : SlotDraw) : CredentialSlot W :=
  ⟨d.identityPkB64, W.wrapSlot ⟨d.identitySk, role, revokeOtherSessions⟩ (.password password) params (slotWrapAad username slot) d.nonce⟩

def decoySlot (username : String) (slot : Slot) (params : Argon2Params) (d : SlotDraw) : CredentialSlot W :=
  ⟨d.identityPkB64, W.wrapSlot ⟨d.identitySk, .User, false⟩ (.discarded d.discarded) params (slotWrapAad username slot) d.nonce⟩

/-- the real slot at `realSlot`, decoys elsewhere -/
def newSlotsRandom (username : String) (password : Bytes) (params : Argon2Params) (role : Role) (revokeOtherSessions : Bool)
    (realSlot : Slot) (draws : Slot → SlotDraw) : Slot → CredentialSlot W := fun i =>
  if i = realSlot then newSlot W username i password params role revokeOtherSessions (draws i)
  else decoySlot W username i params (draws i)

theorem unwrap_newSlot {username : String} {slot : Slot} {password pw : Bytes} {params : Argon2Params} {role : Role}
    {revokeOtherSessions : Bool} {d : SlotDraw} :
    W.unwrapSlot (newSlot W username slot password params role revokeOtherSessions d).wrapped pw params (slotWrapAad username slot) =
      if pw = password then some ⟨d.identitySk, role, revokeOtherSessions⟩ else none := by
  rw [newSlot, W.unwrap_wrap]
  simp only [Secret.password.injEq, and_self, and_true, eq_comm]

theorem unwrap_decoySlot {username : String} {slot : Slot} {pw : Bytes} {params params' : Argon2Params} {aad : Bytes} {d : SlotDraw} :
    W.unwrapSlot (decoySlot W username slot params d).wrapped pw params' aad = none := by
  rw [decoySlot, W.unwrap_wrap, if_neg]
  intro h
  exact absurd h.1 nofun

/-! ## Records -/

structure UserRecord where
  username : String
  createdAt : ℕ
  lastLogin : Option ℕ
  kdf : Argon2Params
  slots : Slot → CredentialSlot W
  primarySlot : Slot
  role : Role

variable {W}

def unwrapAt (rec : UserRecord W) (password : Bytes) (slot : Slot) : Option SlotPayload :=
  W.unwrapSlot (rec.slots slot).wrapped password rec.kdf (slotWrapAad rec.username slot)

/-- every slot is tried; the first that opens counts -/
def attemptUnwrap (rec : UserRecord W) (password : Bytes) : Option (Slot × SlotPayload) :=
  (List.finRange CREDENTIAL_SLOTS).findSome? fun i => (unwrapAt rec password i).map (i, ·)

def attemptUnwrapSlot (rec : UserRecord W) (password : Bytes) (slot : ℕ) : Option (Slot × SlotPayload) :=
  if h : slot < CREDENTIAL_SLOTS then (unwrapAt rec password ⟨slot, h⟩).map (⟨slot, h⟩, ·) else none

/-- the role check of a login: the payload's role under the record's -/
def admits (payload : SlotPayload) (rec : UserRecord W) : Bool :=
  payload.role ≠ .Disabled && rec.role ≠ .Disabled && rolePermits payload.role rec.role

theorem admits_permits {payload : SlotPayload} {rec : UserRecord W} (h : admits payload rec = true) :
    rolePermits payload.role rec.role = true := by
  simp only [admits, Bool.and_eq_true] at h
  exact h.2

theorem admits_admin {payload : SlotPayload} {rec : UserRecord W} (hp : payload.role = .Admin) :
    admits payload rec = true ↔ rec.role = .Admin := by
  simp only [admits, hp, Bool.and_eq_true, decide_eq_true_eq, rolePermits_admin]
  constructor
  · intro h
    exact h.2
  · intro h
    exact ⟨⟨nofun, h ▸ nofun⟩, h⟩

/-- the slots before and after one of them, in the order they are tried -/
theorem finRange_split {n : ℕ} {i : Fin n} {before after : List (Fin n)} (h : List.finRange n = before ++ i :: after) (j : Fin n) :
    j ∈ before ↔ j < i := by
  have hsorted := h ▸ List.pairwise_lt_finRange n
  obtain ⟨-, hrest, hacross⟩ := List.pairwise_append.1 hsorted
  constructor
  · intro hj
    exact hacross j hj i List.mem_cons_self
  · intro hj
    have hmem : j ∈ before ++ i :: after := h ▸ List.mem_finRange j
    rcases List.mem_append.1 hmem with hbefore | hafter
    · exact hbefore
    · rcases List.mem_cons.1 hafter with rfl | hafter
      · exact absurd hj (lt_irrefl j)
      · exact absurd hj ((List.pairwise_cons.1 hrest).1 j hafter).not_gt

theorem attemptUnwrap_eq_some {rec : UserRecord W} {password : Bytes} {i : Slot} {payload : SlotPayload} :
    attemptUnwrap rec password = some (i, payload) ↔
      unwrapAt rec password i = some payload ∧ ∀ j < i, unwrapAt rec password j = none := by
  rw [attemptUnwrap, List.findSome?_eq_some_iff]
  constructor
  · intro ⟨before, k, after, hsplit, hk, hbefore⟩
    obtain ⟨p, hp, heq⟩ := Option.map_eq_some_iff.1 hk
    obtain ⟨rfl, rfl⟩ := Prod.mk.inj heq
    refine ⟨hp, fun j hj => ?_⟩
    exact Option.map_eq_none_iff.1 (hbefore j ((finRange_split hsplit j).2 hj))
  · intro ⟨hi, hbefore⟩
    obtain ⟨before, after, hsplit⟩ := List.append_of_mem (List.mem_finRange i)
    refine ⟨before, i, after, hsplit, by rw [hi, Option.map_some], fun j hj => ?_⟩
    rw [hbefore j ((finRange_split hsplit j).1 hj), Option.map_none]

/-! ## The store -/

variable (W)

/-- every record is kept under its own name -/
structure UserStore where
  table : Table String (UserRecord W)
  keyed : ∀ (u : String) (rec : UserRecord W), table[u]? = some rec → rec.username = u

variable {W}

namespace UserStore

def empty : UserStore W := ⟨∅, fun u rec h => by simp at h⟩

def get (s : UserStore W) (username : String) : Option (UserRecord W) := s.table[username]?

def upsert (s : UserStore W) (record : UserRecord W) : UserStore W :=
  ⟨s.table.insert record.username record, fun u rec h => by
    rw [Table.getElem?_insert_iff] at h
    split at h
    next heq =>
      cases h
      exact heq
    next => exact s.keyed u rec h⟩

def delete (s : UserStore W) (username : String) : UserStore W :=
  ⟨s.table.erase username, fun u rec h => by
    rw [Table.getElem?_erase_iff] at h
    split at h
    · exact absurd h nofun
    · exact s.keyed u rec h⟩

/-- one transaction: it never inserts, and changes nothing else of the record -/
def updateLastLogin (s : UserStore W) (username : String) (ts : ℕ) : UserStore W :=
  match s.get username with
  | none => s
  | some rec => s.upsert { rec with lastLogin := some ts }

/-- what the guards look at of the summaries -/
def list (s : UserStore W) : List (String × Role) := s.table.toList.map fun e => (e.1, e.2.role)

variable {s : UserStore W} {u u' : String} {rec : UserRecord W}

theorem username_of_get (h : s.get u = some rec) : rec.username = u := s.keyed u rec h

theorem get_upsert : (s.upsert rec).get u = if rec.username = u then some rec else s.get u := Table.getElem?_insert_iff

theorem get_delete : (s.delete u').get u = if u' = u then none else s.get u := Table.getElem?_erase_iff

theorem get_updateLastLogin {ts : ℕ} :
    (s.updateLastLogin u' ts).get u = if u' = u then (s.get u).map fun rec => { rec with lastLogin := some ts } else s.get u := by
  rw [updateLastLogin]
  split
  next hnone =>
    split
    next heq => rw [← heq, hnone, Option.map_none]
    next => rfl
  next rec hrec =>
    obtain rfl := username_of_get hrec
    rw [get_upsert]
    split
    next heq =>
      change rec.username = u at heq
      rw [← heq, hrec, Option.map_some]
    next => rfl

theorem mem_list {r : Role} : (u, r) ∈ s.list ↔ ∃ rec, s.get u = some rec ∧ rec.role = r := by
  simp only [list, List.mem_map, Prod.exists, Table.mem_toList, Prod.mk.injEq]
  constructor
  · intro ⟨u', rec, hrec, hu, hr⟩
    exact ⟨rec, hu ▸ hrec, hr⟩
  · intro ⟨rec, hrec, hr⟩
    exact ⟨u, rec, hrec, rfl, hr⟩

end UserStore

/-- a wrap that hides nothing -/
def openWrap : SlotWrap where
  Wrapped := SlotPayload × Secret × Argon2Params × Bytes
  decEq := inferInstance
  wrapSlot m k params aad _ := (m, k, params, aad)
  unwrapSlot w pw params aad := if w.2.1 = .password pw ∧ params = w.2.2.1 ∧ aad = w.2.2.2 then some w.1 else none
  unwrap_wrap _ _ _ _ _ _ _ _ := rfl
  unwrap_once w pw pw' params aad m m' h h' := by
    split at h
    · split at h'
      · cases h
        cases h'
        rfl
      · exact absurd h' nofun
    · exact absurd h nofun

def someDraw : SlotDraw := ⟨"", [], [], 0⟩

/-- a user with one slot -/
def userRecord (username : String) (role : Role) (password : Bytes) : UserRecord openWrap :=
  ⟨username, 0, none, ⟨65536, 3, 4, []⟩, newSlotsRandom openWrap username password ⟨65536, 3, 4, []⟩ role false 0 fun _ => someDraw, 0, role⟩

def rootAndBob : UserStore openWrap := (UserStore.empty.upsert (userRecord "root" .Admin [1])).upsert (userRecord "bob" .User [2])

theorem rootAndBob_get (u : String) : rootAndBob.get u =
    if u = "bob" then some (userRecord "bob" .User [2]) else if u = "root" then some (userRecord "root" .Admin [1]) else none := by
  rw [rootAndBob, UserStore.get_upsert, UserStore.get_upsert]
  have hempty : (UserStore.empty : UserStore openWrap).get u = none := Std.TreeMap.getElem?_emptyc
  simp only [userRecord, hempty, eq_comm]

theorem rootAndBob_list : rootAndBob.list = [("bob", .User), ("root", .Admin)] := by
  rfl

end Y2q.Auth
