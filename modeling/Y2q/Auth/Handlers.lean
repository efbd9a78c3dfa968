/-
The account handlers (`auth/handlers.rs`): login and the changes of user records, among each other and with the session store.

One step is one operation of the user store or of the session map; between its steps a handler waits, for a password hash or for its turn.
An update reads the whole record, computes, and stores the whole record it has computed. A login reads the record, tries the slots, reads
it again and compares, touches `last_login`, inserts a session, looks whether the account is still there, and, if the slot has the duress
flag, switches the other sessions. Kept beside the state: a log of what was stored, by which request; the changes that have returned
success; and for every session which record the login was admitted by, as the number of stores that came before.

- `Update.apply`: what an update makes of the record it has read. `roleGuard`, `deleteGuard`: what is refused for the last administrator.
- `Accounts.step`: one step of one handler. `Effect`, `step_effect`: what it does to the records; `Next`, `step_threads`: where the
  threads go.
-/
import Mathlib.Tactic
import Y2q.Auth.Sessions
import Y2q.Auth.Users

namespace Y2q.Auth

/-! ## What the handlers compute -/

inductive AuthError where
  | InvalidCredentials
  | AccountDisabled
  | InvalidBody (reason : String)
  | InvalidPersonaSlot (reason : String)
  | RoleExceedsAccount
  | PasswordReused
  | UserExists (username : String)
  | UserNotFound (username : String)
  | CannotDeleteLastUser
  | CannotDeleteLastAdmin
  | CannotDemoteLastAdmin
deriving DecidableEq, Repr

/-- the requests that change a record; `persona` and `callerRole` are those of the caller's session -/
inductive Update where
  | setRole (newRole : Role)
  | resetIdentity (password : Bytes) (realSlot : Slot) (draws : Slot → SlotDraw)
  | changePassword (persona : ℕ) (tokenHash : Token) (current new nonce : Bytes)
  | createPersona (persona : ℕ) (callerRole : Role) (slot : ℕ) (password : Bytes) (role : Role) (revokeOtherSessions : Bool)
    (draw : SlotDraw)
  | deletePersona (persona : ℕ) (slot : ℕ) (draw : SlotDraw)

variable {W : SlotWrap}

/-- the slot a persona request may write -/
def personaSlot (persona slot : ℕ) : Except AuthError Slot :=
  if h : slot < CREDENTIAL_SLOTS then
    if slot = persona then
      .error (.InvalidPersonaSlot "cannot overwrite the slot this session is currently authenticated through")
    else .ok ⟨slot, h⟩
  else .error (.InvalidPersonaSlot "slot must be in range 0..CREDENTIAL_SLOTS")

def setSlot (rec : UserRecord W) (slot : Slot) (c : CredentialSlot W) : UserRecord W :=
  { rec with slots := Function.update rec.slots slot c }

/-- the slot under a new password -/
def rewrapSlot (rec : UserRecord W) (slot : Slot) (payload : SlotPayload) (new nonce : Bytes) : CredentialSlot W :=
  ⟨(rec.slots slot).identityPkB64, W.wrapSlot payload (.password new) rec.kdf (slotWrapAad rec.username slot) nonce⟩

/-- a password that opens a slot of the record -/
def collides (rec : UserRecord W) (password : Bytes) : Bool :=
  (List.finRange CREDENTIAL_SLOTS).any fun i => (unwrapAt rec password i).isSome

def Update.apply : Update → UserRecord W → Except AuthError (UserRecord W)
  | .setRole newRole, rec => .ok { rec with role := newRole }
  | .resetIdentity password realSlot draws, rec =>
    if password = [] then .error (.InvalidBody "password must not be empty")
    else
      .ok { rec with
        slots := newSlotsRandom W rec.username password rec.kdf rec.role false realSlot draws, primarySlot := realSlot }
  | .changePassword persona _ current new nonce, rec =>
    if new = [] then .error (.InvalidBody "new password must not be empty")
    else
      match attemptUnwrapSlot rec current persona with
      | none => .error .InvalidCredentials
      | some (slot, payload) => .ok (setSlot rec slot (rewrapSlot rec slot payload new nonce))
  | .createPersona persona callerRole slot password role revokeOtherSessions draw, rec =>
    match personaSlot persona slot with
    | .error e => .error e
    | .ok slot =>
      if password = [] then .error (.InvalidBody "password must not be empty")
      else if !rolePermits role rec.role || !rolePermits role callerRole then .error .RoleExceedsAccount
      else if collides rec password then .error .PasswordReused
      else .ok (setSlot rec slot (newSlot W rec.username slot password rec.kdf role revokeOtherSessions draw))
  | .deletePersona persona slot draw, rec =>
    match personaSlot persona slot with
    | .error e => .error e
    | .ok slot => .ok (setSlot rec slot (decoySlot W rec.username slot rec.kdf draw))

/-- what an update makes of a record, when it is not refused -/
inductive Made (rec : UserRecord W) : Update → UserRecord W → Prop where
  | setRole (newRole : Role) : Made rec (.setRole newRole) { rec with role := newRole }
  | resetIdentity {password : Bytes} {realSlot : Slot} {draws : Slot → SlotDraw} (hpassword : password ≠ []) :
    Made rec (.resetIdentity password realSlot draws)
      { rec with slots := newSlotsRandom W rec.username password rec.kdf rec.role false realSlot draws, primarySlot := realSlot }
  | changePassword {slot : Slot} {tokenHash : Token} {current new nonce : Bytes} {payload : SlotPayload} (hnew : new ≠ [])
    (hopen : unwrapAt rec current slot = some payload) :
    Made rec (.changePassword slot tokenHash current new nonce) (setSlot rec slot (rewrapSlot rec slot payload new nonce))
  | createPersona {persona : ℕ} {callerRole role : Role} {slot : Slot} {password : Bytes} {revokeOtherSessions : Bool} {draw : SlotDraw}
    (hslot : slot.1 ≠ persona) (hpassword : password ≠ []) (hrole : rolePermits role rec.role = true)
    (hcaller : rolePermits role callerRole = true) (hfree : ∀ i, unwrapAt rec password i = none) :
    Made rec (.createPersona persona callerRole slot password role revokeOtherSessions draw)
      (setSlot rec slot (newSlot W rec.username slot password rec.kdf role revokeOtherSessions draw))
  | deletePersona {persona : ℕ} {slot : Slot} {draw : SlotDraw} (hslot : slot.1 ≠ persona) :
    Made rec (.deletePersona persona slot draw) (setSlot rec slot (decoySlot W rec.username slot rec.kdf draw))

theorem personaSlot_ok {persona slot : ℕ} {i : Slot} : personaSlot persona slot = .ok i ↔ slot = i.1 ∧ i.1 ≠ persona := by
  rw [personaSlot]
  split
  next h =>
    split
    next heq =>
      refine iff_of_false nofun ?_
      intro ⟨hi, hne⟩
      exact hne (hi ▸ heq)
    next hne =>
      rw [Except.ok.injEq]
      constructor
      · intro hi
        subst hi
        exact ⟨rfl, hne⟩
      · intro ⟨hi, _⟩
        exact Fin.ext hi
  next h =>
    refine iff_of_false nofun ?_
    intro ⟨hi, _⟩
    exact h (hi ▸ i.2)

theorem collides_eq_false {rec : UserRecord W} {password : Bytes} :
    collides rec password = false ↔ ∀ i, unwrapAt rec password i = none := by
  simp [collides]

theorem apply_ok {x : Update} {rec record : UserRecord W} : x.apply rec = .ok record ↔ Made rec x record := by
  constructor
  · intro h
    cases x with
    | setRole newRole =>
      cases h
      exact .setRole newRole
    | resetIdentity password realSlot draws =>
      simp only [Update.apply] at h
      split at h
      · exact absurd h nofun
      next hne =>
        cases h
        exact .resetIdentity hne
    | changePassword persona tokenHash current new nonce =>
      simp only [Update.apply] at h
      split at h
      · exact absurd h nofun
      next hne =>
        split at h
        · exact absurd h nofun
        next slot payload hopen =>
          cases h
          rw [attemptUnwrapSlot] at hopen
          split at hopen
          · obtain ⟨p, hp, heq⟩ := Option.map_eq_some_iff.1 hopen
            obtain ⟨rfl, rfl⟩ := Prod.mk.inj heq
            exact .changePassword hne hp
          · exact absurd hopen nofun
    | createPersona persona callerRole slot password role revokeOtherSessions draw =>
      simp only [Update.apply] at h
      split at h
      · exact absurd h nofun
      next i hi =>
        obtain ⟨rfl, hslot⟩ := personaSlot_ok.1 hi
        split at h
        · exact absurd h nofun
        next hpassword =>
          split at h
          · exact absurd h nofun
          next hroles =>
            split at h
            · exact absurd h nofun
            next hfree =>
              cases h
              simp only [Bool.or_eq_true, Bool.not_eq_true', not_or, Bool.not_eq_false] at hroles
              rw [Bool.not_eq_true] at hfree
              exact .createPersona hslot hpassword hroles.1 hroles.2 (collides_eq_false.1 hfree)
    | deletePersona persona slot draw =>
      simp only [Update.apply] at h
      split at h
      · exact absurd h nofun
      next i hi =>
        obtain ⟨rfl, hslot⟩ := personaSlot_ok.1 hi
        cases h
        exact .deletePersona hslot
  · intro h
    cases h with
    | setRole newRole => rfl
    | resetIdentity hpassword => rw [Update.apply, if_neg hpassword]
    | @changePassword slot tokenHash current new nonce payload hnew hopen =>
      have hunwrap : attemptUnwrapSlot rec current slot = some (slot, payload) := by
        rw [attemptUnwrapSlot, dif_pos slot.2, hopen, Option.map_some]
      rw [Update.apply, if_neg hnew, hunwrap]
    | @createPersona persona callerRole role slot password revokeOtherSessions draw hslot hpassword hrole hcaller hfree =>
      have hok : personaSlot persona slot = .ok slot := personaSlot_ok.2 ⟨rfl, hslot⟩
      rw [Update.apply, hok]
      simp only [hpassword, hrole, hcaller, collides_eq_false.2 hfree, Bool.not_true, Bool.or_self, Bool.false_eq_true, if_false]
    | @deletePersona persona slot draw hslot =>
      have hok : personaSlot persona slot = .ok slot := personaSlot_ok.2 ⟨rfl, hslot⟩
      rw [Update.apply, hok]

section

variable {rec record : UserRecord W} {x : Update} {slot i : Slot} {pw : Bytes}

theorem unwrapAt_setSlot {c : CredentialSlot W} : unwrapAt (setSlot rec slot c) pw i =
    if i = slot then W.unwrapSlot c.wrapped pw rec.kdf (slotWrapAad rec.username slot) else unwrapAt rec pw i := by
  split
  next heq =>
    subst heq
    simp only [unwrapAt, setSlot, Function.update_self]
  next hne => simp only [unwrapAt, setSlot, Function.update_of_ne hne]

theorem unwrapAt_rewrapSlot {payload : SlotPayload} {new nonce : Bytes} :
    unwrapAt (setSlot rec slot (rewrapSlot rec slot payload new nonce)) pw slot = if pw = new then some payload else none := by
  rw [unwrapAt_setSlot, if_pos rfl, rewrapSlot, W.unwrap_wrap]
  simp only [Secret.password.injEq, and_self, and_true, eq_comm]

/-- where `username` and `kdf` are the record's own -/
theorem unwrapAt_newSlotsRandom {password : Bytes} {role : Role} {revokeOtherSessions : Bool} {realSlot : Slot} {draws : Slot → SlotDraw}
    (hslots : rec.slots = newSlotsRandom W rec.username password rec.kdf role revokeOtherSessions realSlot draws) :
    unwrapAt rec pw i =
      if i = realSlot ∧ pw = password then some ⟨(draws i).identitySk, role, revokeOtherSessions⟩ else none := by
  rw [unwrapAt, hslots, newSlotsRandom]
  split
  next heq => simp only [unwrap_newSlot, heq, true_and]
  next hne =>
    rw [unwrap_decoySlot, if_neg]
    intro h
    exact hne h.1

theorem Made.username (h : Made rec x record) : record.username = rec.username := by
  cases h <;> rfl

theorem Made.kdf (h : Made rec x record) : record.kdf = rec.kdf := by
  cases h <;> rfl

def Update.writesRole : Update → Bool
  | .setRole _ => true
  | _ => false

def Update.writesSlot : Update → Slot → Bool
  | .setRole _, _ => false
  | .resetIdentity .., _ => true
  | .changePassword persona .., i => i.1 = persona
  | .createPersona _ _ slot .., i => i.1 = slot
  | .deletePersona _ slot _, i => i.1 = slot

theorem Made.role (h : Made rec x record) (hx : x.writesRole = false) : record.role = rec.role := by
  cases h with
  | setRole newRole => exact absurd hx nofun
  | _ => rfl

theorem Made.unwrapAt (h : Made rec x record) (hx : x.writesSlot i = false) (pw : Bytes) : unwrapAt record pw i = unwrapAt rec pw i := by
  cases h with
  | setRole newRole => rfl
  | resetIdentity hpassword => exact absurd hx nofun
  | changePassword hnew hopen => exact unwrapAt_setSlot.trans (if_neg fun heq => of_decide_eq_false hx (congrArg Fin.val heq))
  | createPersona hslot hpassword hrole hcaller hfree =>
    exact unwrapAt_setSlot.trans (if_neg fun heq => of_decide_eq_false hx (congrArg Fin.val heq))
  | deletePersona hslot => exact unwrapAt_setSlot.trans (if_neg fun heq => of_decide_eq_false hx (congrArg Fin.val heq))

end

/-- the sessions that a change ends -/
structure Scope where
  username : String
  persona : Option ℕ
  keep : Option Token

def Scope.command {ι : Type} (scope : Scope) : Command ι :=
  match scope.persona, scope.keep with
  | none, _ => .revokeUser scope.username
  | some p, none => .revokeUserPersona scope.username p
  | some p, some t => .revokeUserPersonaExcept scope.username p t

def Update.scope (username : String) : Update → Option Scope
  | .setRole _ | .resetIdentity .. => some ⟨username, none, none⟩
  | .changePassword persona tokenHash .. => some ⟨username, some persona, some tokenHash⟩
  | .createPersona .. => none
  | .deletePersona _ slot _ => some ⟨username, some slot, none⟩

def adminCount (listed : List (String × Role)) : ℕ := (listed.filter fun e => e.2 = .Admin).length

def roleGuard (username : String) (newRole : Role) (current : Option Role) (listed : List (String × Role)) : Except AuthError Unit :=
  match current with
  | none => .error (.UserNotFound username)
  | some role =>
    if role = .Admin ∧ newRole ≠ .Admin ∧ adminCount listed ≤ 1 then .error .CannotDemoteLastAdmin else .ok ()

def deleteGuard (username : String) (listed : List (String × Role)) : Except AuthError Unit :=
  if listed.length ≤ 1 then .error .CannotDeleteLastUser
  else if (listed.any fun e => e.1 = username && e.2 = .Admin) && adminCount listed ≤ 1 then .error .CannotDeleteLastAdmin
  else .ok ()

/-! ## Steps -/

/-- the identity key of a session, and how many stores the login that unwrapped it had seen -/
structure Identity where
  sk : Bytes
  readAt : ℕ

/-- a login that has passed its checks -/
structure Admission where
  username : String
  slot : Slot
  payload : SlotPayload
  expiresAt : ℕ
  now : ℕ
  readAt : ℕ

def Admission.identity (a : Admission) : Identity := ⟨a.payload.identitySk, a.readAt⟩

def Admission.session (a : Admission) : SessionInfo Identity :=
  ⟨a.username, a.payload.role, a.now, a.expiresAt, a.slot.1, a.payload.revokeOtherSessions, a.identity, 0⟩

def Admission.target (a : Admission) : Switch Identity :=
  ⟨a.username, a.slot.1, a.payload.role, a.payload.revokeOtherSessions, a.identity⟩

inductive Request where
  | login (username : String) (password : Bytes) (expiresAt now : ℕ)
  | addUser (username : String) (password : Bytes) (role : Role) (params : Argon2Params) (realSlot : Slot) (draws : Slot → SlotDraw)
    (now : ℕ)
  | update (username : String) (x : Update)
  | deleteUser (username : String)

/-- the requests that touch the session map only -/
inductive ClientCall where
  | refresh (tokenHash : Token) (expiresAt : ℕ)
  | logout (tokenHash : Token)
  | authenticate (tokenHash : Token) (now : ℕ)
  | sweep (now : ℕ)
  /-- by `set_acl` -/
  | revokeUser (username : String)

def ClientCall.command {ι : Type} : ClientCall → Command ι
  | .refresh t expiresAt => .reissue t expiresAt
  | .logout t => .revoke t
  | .authenticate t now => .getActive t now
  | .sweep now => .sweep now
  | .revokeUser u => .revokeUser u

variable (W)

/-- a handler between two of its steps -/
inductive Thread where
  | waiting (r : Request)
  /-- `set_role`, after its first read and after the list -/
  | roleRead (username : String) (newRole : Role) (current : Option Role)
  | roleListed (username : String) (newRole : Role) (current : Option Role) (listed : List (String × Role))
  /-- about to store the record -/
  | storing (username : String) (x : Update) (read record : UserRecord W) (listed : List (String × Role))
  | adding (record : UserRecord W)
  | deleting (username : String) (listed : List (String × Role))
  /-- about to revoke, and revoking; `entry` is that of the log -/
  | stored (entry : ℕ) (scope : Scope)
  | revoking (entry : ℕ) (scope : Scope)
  /-- a login: a slot opened; admitted; `last_login` touched; the session inserted -/
  | matched (username : String) (snapshot : UserRecord W) (slot : Slot) (payload : SlotPayload) (expiresAt now : ℕ)
  | admitted (a : Admission)
  | touched (a : Admission)
  | inserted (a : Admission)
  | switching (a : Admission)
  /-- the account is gone: `revoke_user` -/
  | evicting

inductive Entry where
  | update (x : Update)
  | add (record : UserRecord W)
  | delete

/-- what was stored -/
structure Stored where
  username : String
  entry : Entry W
  record : Option (UserRecord W)

structure Accounts where
  users : UserStore W
  sessions : Sessions Identity
  threads : ℕ → Option (Thread W)
  log : List (Stored W)
  /-- the entries of the changes that have returned success after revoking -/
  returned : List (ℕ × Scope)
  /-- the slot of a login's token, and the stores it had seen -/
  opened : Token → Option (Slot × ℕ)

inductive Action where
  | start (i : ℕ) (r : Request)
  /-- `ok`: the identity key is sealed, where the step does so -/
  | step (i : ℕ) (ok : Bool)
  | client (j : ℕ) (c : ClientCall)
  | clientStep (j : ℕ) (ok : Bool)

variable {W}

def Accounts.of (users : UserStore W) : Accounts W := ⟨users, Sessions.new, fun _ => none, [], [], fun _ => none⟩

def addedRecord (username : String) (password : Bytes) (role : Role) (params : Argon2Params) (realSlot : Slot) (draws : Slot → SlotDraw)
    (now : ℕ) : UserRecord W :=
  ⟨username, now, none, params, newSlotsRandom W username password params role false realSlot draws, realSlot, role⟩

namespace Accounts

def setThread (s : Accounts W) (i : ℕ) (th : Option (Thread W)) : Accounts W := { s with threads := Function.update s.threads i th }

def finish (s : Accounts W) (i : ℕ) : Accounts W := s.setThread i none

def upsert (s : Accounts W) (entry : Entry W) (record : UserRecord W) : Accounts W :=
  { s with users := s.users.upsert record, log := s.log ++ [⟨record.username, entry, some record⟩] }

def delete (s : Accounts W) (username : String) : Accounts W :=
  { s with users := s.users.delete username, log := s.log ++ [⟨username, .delete, none⟩] }

/-- the call of the session store that thread `i` makes; the clients have the odd ones -/
def callOf (i : ℕ) : ℕ := 2 * i

def clientOf (j : ℕ) : ℕ := 2 * j + 1

variable (maxRefreshes : ℕ)

def session (s : Accounts W) (e : Event Identity) : Accounts W := { s with sessions := s.sessions.step maxRefreshes e }

/-- a step of a call of the session store; `s'` when it has returned -/
def await (s : Accounts W) (i : ℕ) (ok : Bool) (s' : Accounts W) : Accounts W :=
  match s.sessions.calls (callOf i) with
  | none => s'
  | some _ => s.session maxRefreshes (.step (callOf i) ok)

/-- the first step of a handler -/
def begin (s : Accounts W) (i : ℕ) : Request → Accounts W
  | .login username password expiresAt now =>
    match s.users.get username with
    | none => s.finish i
    | some rec =>
      match attemptUnwrap rec password with
      | none => s.finish i
      | some (slot, payload) => s.setThread i (some (.matched username rec slot payload expiresAt now))
  | .addUser username password role params realSlot draws now =>
    if password = [] then s.finish i
    else
      match s.users.get username with
      | some _ => s.finish i
      | none => s.setThread i (some (.adding (addedRecord username password role params realSlot draws now)))
  | .update username (.setRole newRole) => s.setThread i (some (.roleRead username newRole ((s.users.get username).map (·.role))))
  | .update username x =>
    match s.users.get username with
    | none => s.finish i
    | some rec =>
      match x.apply rec with
      | .error _ => s.finish i
      | .ok record => s.setThread i (some (.storing username x rec record []))
  | .deleteUser username =>
    match deleteGuard username s.users.list with
    | .error _ => s.finish i
    | .ok _ => s.setThread i (some (.deleting username s.users.list))

def stepThread (s : Accounts W) (i : ℕ) (ok : Bool) : Thread W → Accounts W
  | .waiting r => s.begin i r
  | .roleRead username newRole current =>
    match roleGuard username newRole current s.users.list with
    | .error _ => s.finish i
    | .ok _ => s.setThread i (some (.roleListed username newRole current s.users.list))
  | .roleListed username newRole _ listed =>
    match s.users.get username with
    | none => s.finish i
    | some rec => s.setThread i (some (.storing username (.setRole newRole) rec { rec with role := newRole } listed))
  | .storing username x _ record _ =>
    (s.upsert (.update x) record).setThread i ((x.scope username).map (.stored s.log.length))
  | .adding record => (s.upsert (.add record) record).finish i
  | .deleting username _ =>
    match s.users.get username with
    | none => s.finish i
    | some _ => (s.delete username).setThread i (some (.stored s.log.length ⟨username, none, none⟩))
  | .stored entry scope =>
    (s.session maxRefreshes (.start (callOf i) scope.command)).setThread i (some (.revoking entry scope))
  | .revoking entry scope => s.await maxRefreshes i ok { s.finish i with returned := (entry, scope) :: s.returned }
  | .matched username snapshot slot payload expiresAt now =>
    match s.users.get username with
    | none => s.finish i
    | some fresh =>
      if fresh.kdf ≠ snapshot.kdf ∨ fresh.slots ≠ snapshot.slots then s.finish i
      else if !admits payload fresh then s.finish i
      else s.setThread i (some (.admitted ⟨username, slot, payload, expiresAt, now, s.log.length⟩))
  | .admitted a =>
    match s.users.get a.username with
    | none => s.finish i
    | some _ => { s with users := s.users.updateLastLogin a.username a.now }.setThread i (some (.touched a))
  | .touched a =>
    if ok then
      { s.session maxRefreshes (.insert a.session) with
        opened := Function.update s.opened s.sessions.issued.length (some (a.slot, a.readAt)) }.setThread i (some (.inserted a))
    else s.finish i
  | .inserted a =>
    match s.users.get a.username with
    | none => (s.session maxRefreshes (.start (callOf i) (.revokeUser a.username))).setThread i (some .evicting)
    | some _ =>
      if a.payload.revokeOtherSessions then
        (s.session maxRefreshes (.start (callOf i) (.switchUserToPersona a.target))).setThread i (some (.switching a))
      else s.finish i
  | .switching _ => s.await maxRefreshes i ok (s.finish i)
  | .evicting => s.await maxRefreshes i ok (s.finish i)

def step (s : Accounts W) : Action → Accounts W
  | .start i r =>
    match s.threads i with
    | some _ => s
    | none => s.setThread i (some (.waiting r))
  | .step i ok =>
    match s.threads i with
    | none => s
    | some th => s.stepThread maxRefreshes i ok th
  | .client j c => s.session maxRefreshes (.start (clientOf j) c.command)
  | .clientStep j ok => s.session maxRefreshes (.step (clientOf j) ok)

/-! ## What a step does to the records -/

variable {s : Accounts W} {i j : ℕ} {maxRefreshes : ℕ}

/-- the records and the log after a step of a thread -/
inductive Effect (s : Accounts W) : Thread W → UserStore W → List (Stored W) → Prop where
  | nothing (th : Thread W) : Effect s th s.users s.log
  | touch (a : Admission) : Effect s (.admitted a) (s.users.updateLastLogin a.username a.now) s.log
  | store (username : String) (x : Update) (read record : UserRecord W) (listed : List (String × Role)) :
    Effect s (.storing username x read record listed) (s.users.upsert record) (s.log ++ [⟨record.username, .update x, some record⟩])
  | add (record : UserRecord W) :
    Effect s (.adding record) (s.users.upsert record) (s.log ++ [⟨record.username, .add record, some record⟩])
  | delete (username : String) (listed : List (String × Role)) (rec : UserRecord W) (h : s.users.get username = some rec) :
    Effect s (.deleting username listed) (s.users.delete username) (s.log ++ [⟨username, .delete, none⟩])

theorem await_effect {th : Thread W} {ok : Bool} {s' : Accounts W} (h : Effect s th s'.users s'.log) :
    Effect s th (s.await maxRefreshes i ok s').users (s.await maxRefreshes i ok s').log := by
  rw [await]
  split
  · exact h
  · exact .nothing th

theorem begin_users {r : Request} : (s.begin i r).users = s.users ∧ (s.begin i r).log = s.log := by
  cases r with
  | login username password expiresAt now =>
    simp only [begin]
    split
    · exact ⟨rfl, rfl⟩
    · split <;> exact ⟨rfl, rfl⟩
  | addUser username password role params realSlot draws now =>
    simp only [begin]
    split
    · exact ⟨rfl, rfl⟩
    · split <;> exact ⟨rfl, rfl⟩
  | update username x =>
    cases x <;> simp only [begin] <;> (try split) <;> (try split) <;> exact ⟨rfl, rfl⟩
  | deleteUser username =>
    simp only [begin]
    split <;> exact ⟨rfl, rfl⟩

theorem stepThread_effect (ok : Bool) (th : Thread W) :
    Effect s th (s.stepThread maxRefreshes i ok th).users (s.stepThread maxRefreshes i ok th).log := by
  cases th with
  | waiting r =>
    obtain ⟨husers, hlog⟩ := @begin_users W s i r
    simp only [stepThread, husers, hlog]
    exact .nothing _
  | roleRead username newRole current =>
    simp only [stepThread]
    split <;> exact .nothing _
  | roleListed username newRole current listed =>
    simp only [stepThread]
    split <;> exact .nothing _
  | storing username x read record listed => exact .store username x read record listed
  | adding record => exact .add record
  | deleting username listed =>
    simp only [stepThread]
    split
    · exact .nothing _
    next rec hrec => exact .delete username listed rec hrec
  | stored entry scope => exact .nothing _
  | revoking entry scope => exact await_effect (.nothing _)
  | matched username snapshot slot payload expiresAt now =>
    simp only [stepThread]
    split
    · exact .nothing _
    · split
      · exact .nothing _
      · split <;> exact .nothing _
  | admitted a =>
    simp only [stepThread]
    split
    · exact .nothing _
    · exact .touch a
  | touched a =>
    simp only [stepThread]
    split <;> exact .nothing _
  | inserted a =>
    simp only [stepThread]
    split
    · exact .nothing _
    · split <;> exact .nothing _
  | switching a => exact await_effect (.nothing _)
  | evicting => exact await_effect (.nothing _)

/-! ## Where a thread goes -/

inductive Next (s : Accounts W) : Thread W → Thread W → Prop where
  | waits (th : Thread W) : Next s th th
  | login {username : String} {password : Bytes} {expiresAt now : ℕ} {rec : UserRecord W} {slot : Slot} {payload : SlotPayload}
    (hget : s.users.get username = some rec) (hopen : attemptUnwrap rec password = some (slot, payload)) :
    Next s (.waiting (.login username password expiresAt now)) (.matched username rec slot payload expiresAt now)
  | addUser {username : String} {password : Bytes} {role : Role} {params : Argon2Params} {realSlot : Slot} {draws : Slot → SlotDraw}
    {now : ℕ} : Next s (.waiting (.addUser username password role params realSlot draws now))
      (.adding (addedRecord username password role params realSlot draws now))
  | roleRead {username : String} {newRole : Role} :
    Next s (.waiting (.update username (.setRole newRole))) (.roleRead username newRole ((s.users.get username).map (·.role)))
  | update {username : String} {x : Update} {rec record : UserRecord W} (hget : s.users.get username = some rec)
    (happly : x.apply rec = .ok record) (hother : ∀ r, x ≠ .setRole r) :
    Next s (.waiting (.update username x)) (.storing username x rec record [])
  | deleteUser {username : String} (hguard : deleteGuard username s.users.list = .ok ()) :
    Next s (.waiting (.deleteUser username)) (.deleting username s.users.list)
  | roleListed {username : String} {newRole : Role} {current : Option Role}
    (hguard : roleGuard username newRole current s.users.list = .ok ()) :
    Next s (.roleRead username newRole current) (.roleListed username newRole current s.users.list)
  | roleStoring {username : String} {newRole : Role} {current : Option Role} {listed : List (String × Role)} {rec : UserRecord W}
    (hget : s.users.get username = some rec) :
    Next s (.roleListed username newRole current listed) (.storing username (.setRole newRole) rec { rec with role := newRole } listed)
  | stored {username : String} {x : Update} {read record : UserRecord W} {listed : List (String × Role)} {scope : Scope}
    (hscope : x.scope username = some scope) : Next s (.storing username x read record listed) (.stored s.log.length scope)
  | deleted {username : String} {listed : List (String × Role)} :
    Next s (.deleting username listed) (.stored s.log.length ⟨username, none, none⟩)
  | revoking {entry : ℕ} {scope : Scope} : Next s (.stored entry scope) (.revoking entry scope)
  | admitted {username : String} {snapshot fresh : UserRecord W} {slot : Slot} {payload : SlotPayload} {expiresAt now : ℕ}
    (hget : s.users.get username = some fresh) (hkdf : fresh.kdf = snapshot.kdf) (hslots : fresh.slots = snapshot.slots)
    (hadmits : admits payload fresh = true) :
    Next s (.matched username snapshot slot payload expiresAt now) (.admitted ⟨username, slot, payload, expiresAt, now, s.log.length⟩)
  | touched {a : Admission} : Next s (.admitted a) (.touched a)
  | inserted {a : Admission} : Next s (.touched a) (.inserted a)
  | switching {a : Admission} (hduress : a.payload.revokeOtherSessions = true) : Next s (.inserted a) (.switching a)
  | evicting {a : Admission} : Next s (.inserted a) .evicting

theorem setThread_threads {th : Option (Thread W)} : (s.setThread i th).threads j = if j = i then th else s.threads j :=
  Function.update_apply s.threads i th j

theorem setThread_self {th : Option (Thread W)} : (s.setThread i th).threads i = th := by
  rw [setThread_threads, if_pos rfl]

theorem await_next {th th' : Thread W} {ok : Bool} {s' : Accounts W} (hs : s.threads i = some th) (hs' : s'.threads i = none)
    (h : (s.await maxRefreshes i ok s').threads i = some th') : Next s th th' := by
  rw [await] at h
  split at h
  · rw [hs'] at h
    exact absurd h.symm (Option.some_ne_none th')
  · rw [session, hs] at h
    cases h
    exact .waits th

theorem begin_next {r : Request} {th' : Thread W} (h : (s.begin i r).threads i = some th') : Next s (.waiting r) th' := by
  have hidle : ∀ {P : Prop}, (s.finish i).threads i = some th' → P := by
    intro P h
    rw [finish, setThread_self] at h
    exact absurd h.symm (Option.some_ne_none th')
  cases r with
  | login username password expiresAt now =>
    simp only [begin] at h
    split at h
    · exact hidle h
    next rec hget =>
      split at h
      · exact hidle h
      next slot payload hopen =>
        rw [setThread_self] at h
        cases h
        exact .login hget hopen
  | addUser username password role params realSlot draws now =>
    simp only [begin] at h
    split at h
    · exact hidle h
    · split at h
      · exact hidle h
      · rw [setThread_self] at h
        cases h
        exact .addUser
  | update username x =>
    have hupdate : (∀ r, x ≠ .setRole r) →
        (match s.users.get username with
          | none => s.finish i
          | some rec =>
            match x.apply rec with
            | .error _ => s.finish i
            | .ok record => s.setThread i (some (.storing username x rec record []))).threads i = some th' →
        Next s (.waiting (.update username x)) th' := by
      intro hother h
      split at h
      · exact hidle h
      next rec hget =>
        split at h
        · exact hidle h
        next record happly =>
          rw [setThread_self] at h
          cases h
          exact .update hget happly hother
    cases x with
    | setRole newRole =>
      simp only [begin, setThread_self] at h
      cases h
      exact .roleRead
    | resetIdentity password realSlot draws => exact hupdate nofun h
    | changePassword persona tokenHash current new nonce => exact hupdate nofun h
    | createPersona persona callerRole slot password role revokeOtherSessions draw => exact hupdate nofun h
    | deletePersona persona slot draw => exact hupdate nofun h
  | deleteUser username =>
    simp only [begin] at h
    split at h
    · exact hidle h
    next u hguard =>
      rw [setThread_self] at h
      cases h
      exact .deleteUser hguard

theorem stepThread_next {th th' : Thread W} {ok : Bool} (hs : s.threads i = some th)
    (h : (s.stepThread maxRefreshes i ok th).threads i = some th') : Next s th th' := by
  have hidle : ∀ {P : Prop}, (s.finish i).threads i = some th' → P := by
    intro P h
    rw [finish, setThread_self] at h
    exact absurd h.symm (Option.some_ne_none th')
  cases th with
  | waiting r => exact begin_next h
  | roleRead username newRole current =>
    simp only [stepThread] at h
    split at h
    · exact hidle h
    next u hguard =>
      rw [setThread_self] at h
      cases h
      exact .roleListed hguard
  | roleListed username newRole current listed =>
    simp only [stepThread] at h
    split at h
    · exact hidle h
    next rec hget =>
      rw [setThread_self] at h
      cases h
      exact .roleStoring hget
  | storing username x read record listed =>
    simp only [stepThread, setThread_self] at h
    obtain ⟨scope, hscope, rfl⟩ := Option.map_eq_some_iff.1 h
    exact .stored hscope
  | adding record =>
    simp only [stepThread, finish, setThread_self] at h
    exact absurd h.symm (Option.some_ne_none th')
  | deleting username listed =>
    simp only [stepThread] at h
    split at h
    · exact hidle h
    · rw [setThread_self] at h
      cases h
      exact .deleted
  | stored entry scope =>
    simp only [stepThread, setThread_self] at h
    cases h
    exact .revoking
  | revoking entry scope =>
    refine await_next hs ?_ h
    exact @setThread_self W s i none
  | matched username snapshot slot payload expiresAt now =>
    simp only [stepThread] at h
    split at h
    · exact hidle h
    next fresh hget =>
      split at h
      · exact hidle h
      next hsame =>
        split at h
        · exact hidle h
        next hadmits =>
          rw [setThread_self] at h
          cases h
          rw [not_or, not_not, not_not] at hsame
          rw [Bool.not_eq_true', Bool.not_eq_false] at hadmits
          exact .admitted hget hsame.1 hsame.2 hadmits
  | admitted a =>
    simp only [stepThread] at h
    split at h
    · exact hidle h
    · rw [setThread_self] at h
      cases h
      exact .touched
  | touched a =>
    simp only [stepThread] at h
    split at h
    · rw [setThread_self] at h
      cases h
      exact .inserted
    · exact hidle h
  | inserted a =>
    simp only [stepThread] at h
    split at h
    · rw [setThread_self] at h
      cases h
      exact .evicting
    · split at h
      next hduress =>
        rw [setThread_self] at h
        cases h
        exact .switching hduress
      · exact hidle h
  | switching a => exact await_next hs setThread_self h
  | evicting => exact await_next hs setThread_self h

theorem await_other {ok : Bool} {s' : Accounts W} (h : s'.threads j = s.threads j) :
    (s.await maxRefreshes i ok s').threads j = s.threads j := by
  rw [await]
  split
  · exact h
  · rfl

/-- the other threads stay where they are -/
theorem stepThread_other {ok : Bool} (th : Thread W) (hj : j ≠ i) : (s.stepThread maxRefreshes i ok th).threads j = s.threads j := by
  have hset : ∀ (s' : Accounts W) (th' : Option (Thread W)), s'.threads = s.threads → (s'.setThread i th').threads j = s.threads j := by
    intro s' th' h
    rw [setThread_threads, if_neg hj, h]
  cases th with
  | waiting r =>
    cases r with
    | update username x =>
      cases x <;> simp only [stepThread, begin, finish] <;> (try split) <;> (try split) <;> exact hset s _ rfl
    | _ =>
      simp only [stepThread, begin, finish]
      repeat' split
      all_goals exact hset s _ rfl
  | revoking entry scope =>
    refine await_other ?_
    exact hset s none rfl
  | switching a => exact await_other (hset s none rfl)
  | evicting => exact await_other (hset s none rfl)
  | storing username x read record listed => exact hset _ _ rfl
  | adding record => exact hset _ _ rfl
  | stored entry scope => exact hset _ _ rfl
  | _ =>
    simp only [stepThread, finish]
    repeat' split
    all_goals exact hset _ _ rfl

/-- a thread after a step is new, has gone on, or is where it was -/
theorem step_threads {x : Action} {th' : Thread W} (h : (s.step maxRefreshes x).threads j = some th') :
    s.threads j = some th' ∨ (∃ r, th' = .waiting r) ∨ ∃ ok th, x = .step j ok ∧ s.threads j = some th ∧ Next s th th' := by
  cases x with
  | start i r =>
    simp only [step] at h
    split at h
    · exact Or.inl h
    · rw [setThread_threads] at h
      split at h
      · cases h
        exact Or.inr (Or.inl ⟨r, rfl⟩)
      · exact Or.inl h
  | step i ok =>
    simp only [step] at h
    split at h
    · exact Or.inl h
    next th hth =>
      by_cases hj : j = i
      · subst hj
        exact Or.inr (Or.inr ⟨ok, th, rfl, hth, stepThread_next hth h⟩)
      · rw [stepThread_other th hj] at h
        exact Or.inl h
  | client k c => exact Or.inl h
  | clientStep k ok => exact Or.inl h

theorem step_effect (x : Action) :
    ((s.step maxRefreshes x).users = s.users ∧ (s.step maxRefreshes x).log = s.log) ∨
      ∃ i ok th, x = .step i ok ∧ s.threads i = some th ∧ Effect s th (s.step maxRefreshes x).users (s.step maxRefreshes x).log := by
  cases x with
  | start i r =>
    simp only [step]
    split <;> exact Or.inl ⟨rfl, rfl⟩
  | step i ok =>
    simp only [step]
    split
    · exact Or.inl ⟨rfl, rfl⟩
    next th hth => exact Or.inr ⟨i, ok, th, rfl, hth, stepThread_effect ok th⟩
  | client k c => exact Or.inl ⟨rfl, rfl⟩
  | clientStep k ok => exact Or.inl ⟨rfl, rfl⟩

/-! ## What a step does to the sessions -/

def threadEvent (s : Accounts W) (i : ℕ) (ok : Bool) : Thread W → Option (Event Identity)
  | .stored _ scope => some (.start (callOf i) scope.command)
  | .revoking .. | .switching _ | .evicting => some (.step (callOf i) ok)
  | .touched a => if ok then some (.insert a.session) else none
  | .inserted a =>
    match s.users.get a.username with
    | none => some (.start (callOf i) (.revokeUser a.username))
    | some _ => if a.payload.revokeOtherSessions then some (.start (callOf i) (.switchUserToPersona a.target)) else none
  | _ => none

def eventOf (s : Accounts W) : Action → Option (Event Identity)
  | .start .. => none
  | .step i ok => (s.threads i).bind (s.threadEvent i ok)
  | .client j c => some (.start (clientOf j) c.command)
  | .clientStep j ok => some (.step (clientOf j) ok)

theorem await_sessions {ok : Bool} {s' : Accounts W} (h : s'.sessions = s.sessions) :
    (s.await maxRefreshes i ok s').sessions = s.sessions.step maxRefreshes (.step (callOf i) ok) := by
  rw [await]
  split
  next hidle =>
    rw [h]
    simp only [Sessions.step, hidle]
  next => rfl

theorem begin_sessions {r : Request} : (s.begin i r).sessions = s.sessions := by
  cases r with
  | update username x => cases x <;> simp only [begin] <;> (try split) <;> (try split) <;> rfl
  | _ =>
    simp only [begin]
    repeat' split
    all_goals rfl

theorem stepThread_sessions (ok : Bool) (th : Thread W) :
    (s.stepThread maxRefreshes i ok th).sessions = (s.threadEvent i ok th).elim s.sessions (s.sessions.step maxRefreshes) := by
  cases th with
  | waiting r => exact begin_sessions
  | revoking entry scope => exact await_sessions rfl
  | switching a => exact await_sessions rfl
  | evicting => exact await_sessions rfl
  | storing username x read record listed => rfl
  | adding record => rfl
  | stored entry scope => rfl
  | touched a => cases ok <;> rfl
  | inserted a =>
    simp only [stepThread, threadEvent]
    split
    · rfl
    · split <;> rfl
  | _ =>
    simp only [stepThread, threadEvent]
    repeat' split
    all_goals rfl

theorem step_sessions (x : Action) :
    (s.step maxRefreshes x).sessions = (s.eventOf x).elim s.sessions (s.sessions.step maxRefreshes) := by
  cases x with
  | start i r =>
    simp only [step, eventOf]
    split <;> rfl
  | step i ok =>
    simp only [step, eventOf]
    split
    next hidle =>
      rw [hidle]
      rfl
    next th hth =>
      rw [hth]
      exact stepThread_sessions ok th
  | client j c => rfl
  | clientStep j ok => rfl

/-- an invariant of the session store is one of the accounts -/
theorem sessions_step_inv {I : Sessions Identity → Prop} {x : Action} (h : I s.sessions)
    (hstep : ∀ e, s.eventOf x = some e → I (s.sessions.step maxRefreshes e)) : I (s.step maxRefreshes x).sessions := by
  rw [step_sessions]
  cases he : s.eventOf x with
  | none => exact h
  | some e => exact hstep e he

end Accounts

end Y2q.Auth
