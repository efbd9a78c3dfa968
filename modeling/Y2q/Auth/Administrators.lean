/-
The last administrator.

`set_role` and `delete_user` count the records whose role is `Admin`. A login gets the role that is sealed in the slot, and the record's
role is only the ceiling of that. So an account that is promoted counts, and gives no session as an administrator; a persona of an
administrator may write over the slot that does; and the count may be old when it is used.

- `OpensAdmin`: a password that opens a slot of a record as an administrator's. `LogsInAsAdmin`: a login with it.
- `KeepsAdmins`: who is made an administrator has such a slot, no administrator loses the last one, and what a handler has read and
  counted is still so when it stores.
- `administrator_remains`: along such runs, if every record with the role has such a slot at the start, some login still gives a session
  with role `Admin`.
-/
import Mathlib.Tactic
import Y2q.Core.Run
import Y2q.Auth.Handlers
import Y2q.Auth.RecordUpdates

namespace Y2q.Auth

open Run (Along run)

variable {W : SlotWrap}

/-! ## Slots of an administrator -/

def OpensAdmin (rec : UserRecord W) (pw : Bytes) (i : Slot) : Prop :=
  ∃ payload, attemptUnwrap rec pw = some (i, payload) ∧ payload.role = .Admin

/-- the role of the record, and the slot -/
def AdminsOpen (rec : UserRecord W) : Prop := rec.role = .Admin → ∃ pw i, OpensAdmin rec pw i

def LogsInAsAdmin (users : UserStore W) : Prop :=
  ∃ u rec pw i payload, users.get u = some rec ∧ attemptUnwrap rec pw = some (i, payload) ∧ admits payload rec = true ∧
    payload.role = .Admin

variable {rec record : UserRecord W} {pw : Bytes} {i slot : Slot}

/-- only the slots, and what they are wrapped with, count -/
theorem OpensAdmin.congr (h : OpensAdmin rec pw i) (hsame : ∀ j, unwrapAt record pw j = unwrapAt rec pw j) : OpensAdmin record pw i := by
  obtain ⟨payload, hopen, hrole⟩ := h
  obtain ⟨hi, hbefore⟩ := attemptUnwrap_eq_some.1 hopen
  refine ⟨payload, attemptUnwrap_eq_some.2 ⟨(hsame i).trans hi, fun j hj => (hsame j).trans (hbefore j hj)⟩, hrole⟩

theorem OpensAdmin.unwrapAt (h : OpensAdmin rec pw i) : ∃ payload, unwrapAt rec pw i = some payload ∧ payload.role = .Admin := by
  obtain ⟨payload, hopen, hrole⟩ := h
  exact ⟨payload, (attemptUnwrap_eq_some.1 hopen).1, hrole⟩

/-- another slot is written, and does not open under the password -/
theorem OpensAdmin.setSlot {c : CredentialSlot W} (h : OpensAdmin rec pw i) (hne : i ≠ slot)
    (hc : W.unwrapSlot c.wrapped pw rec.kdf (slotWrapAad rec.username slot) = none) : OpensAdmin (setSlot rec slot c) pw i := by
  obtain ⟨payload, hopen, hrole⟩ := h
  obtain ⟨hi, hbefore⟩ := attemptUnwrap_eq_some.1 hopen
  refine ⟨payload, attemptUnwrap_eq_some.2 ⟨?_, fun j hj => ?_⟩, hrole⟩
  · rw [unwrapAt_setSlot, if_neg hne, hi]
  · rw [unwrapAt_setSlot]
    split
    · exact hc
    · exact hbefore j hj

/-- a slot that opens as an administrator's, under a password that opens no other -/
theorem opensAdmin_of_only {payload : SlotPayload} (h : unwrapAt rec pw i = some payload) (hrole : payload.role = .Admin)
    (hother : ∀ j ≠ i, unwrapAt rec pw j = none) : OpensAdmin rec pw i :=
  ⟨payload, attemptUnwrap_eq_some.2 ⟨h, fun j hj => hother j hj.ne⟩, hrole⟩

theorem opensAdmin_newSlots {password : Bytes} {role : Role} {realSlot : Slot} {draws : Slot → SlotDraw} (hrole : role = .Admin)
    (hslots : rec.slots = newSlotsRandom W rec.username password rec.kdf role false realSlot draws) :
    OpensAdmin rec password realSlot := by
  have hopen : unwrapAt rec password realSlot = some ⟨(draws realSlot).identitySk, role, false⟩ := by
    rw [unwrapAt_newSlotsRandom hslots, if_pos ⟨rfl, rfl⟩]
  refine opensAdmin_of_only hopen hrole fun j hj => ?_
  rw [unwrapAt_newSlotsRandom hslots, if_neg fun h => hj h.1]

theorem logsInAsAdmin_iff {users : UserStore W} :
    LogsInAsAdmin users ↔ ∃ u rec pw i, users.get u = some rec ∧ rec.role = .Admin ∧ OpensAdmin rec pw i := by
  constructor
  · intro ⟨u, rec, pw, i, payload, hget, hopen, hadmits, hrole⟩
    exact ⟨u, rec, pw, i, hget, (admits_admin hrole).1 hadmits, payload, hopen, hrole⟩
  · intro ⟨u, rec, pw, i, hget, hrec, payload, hopen, hrole⟩
    exact ⟨u, rec, pw, i, payload, hget, hopen, (admits_admin hrole).2 hrec, hrole⟩

/-! ## The condition -/

/-- an update of an administrator's record leaves a slot -/
def LeavesSlot (rec : UserRecord W) : Update → Prop
  | .setRole newRole => newRole = .Admin → ∃ pw i, OpensAdmin rec pw i
  | .resetIdentity .. => True
  | .changePassword persona _ _ new _ => rec.role = .Admin → ∀ j : Slot, j.1 ≠ persona → unwrapAt rec new j = none
  | .createPersona _ _ slot _ role _ _ => rec.role = .Admin → role = .Admin ∨ ∃ pw i, OpensAdmin rec pw i ∧ i.1 ≠ slot
  | .deletePersona _ slot _ => rec.role = .Admin → ∃ pw i, OpensAdmin rec pw i ∧ i.1 ≠ slot

theorem adminsOpen_of_made {x : Update} (h : Made rec x record) (hrec : AdminsOpen rec) (hleaves : LeavesSlot rec x) : AdminsOpen record := by
  intro hrole
  cases h with
  | setRole newRole =>
    obtain ⟨pw, i, hopens⟩ := hleaves hrole
    exact ⟨pw, i, hopens.congr fun _ => rfl⟩
  | @resetIdentity password realSlot draws hpassword => exact ⟨password, realSlot, opensAdmin_newSlots hrole rfl⟩
  | @changePassword slot tokenHash current new nonce payload hnew hopen =>
    have hfree := hleaves hrole
    have hother : ∀ j ≠ slot, unwrapAt rec new j = none := fun j hj => hfree j fun heq => hj (Fin.ext heq)
    obtain ⟨pw, i, hopens⟩ := hrec hrole
    obtain ⟨p, hp, hadmin⟩ := hopens.unwrapAt
    by_cases hi : i = slot
    · -- the slot itself has a new password
      subst hi
      have heq : payload = p := W.unwrap_once _ pw current _ _ p payload hp hopen
      refine ⟨new, i, opensAdmin_of_only (unwrapAt_rewrapSlot.trans (if_pos rfl)) (heq ▸ hadmin) fun j hj => ?_⟩
      rw [unwrapAt_setSlot, if_neg hj, hother j hj]
    · have hpw : pw ≠ new := by
        intro heq
        rw [heq, hother i hi] at hp
        cases hp
      refine ⟨pw, i, hopens.setSlot hi ?_⟩
      have hnone := @unwrapAt_rewrapSlot W rec slot pw payload new nonce
      rw [unwrapAt_setSlot, if_pos rfl, if_neg hpw] at hnone
      exact hnone
  | @createPersona persona callerRole role slot password revokeOtherSessions draw hslot hpassword hrole' hcaller hfree =>
    rcases hleaves hrole with hadmin | ⟨pw, i, hopens, hi⟩
    · have hopen : unwrapAt (setSlot rec slot (newSlot W rec.username slot password rec.kdf role revokeOtherSessions draw)) password slot =
          some ⟨draw.identitySk, role, revokeOtherSessions⟩ := by
        rw [unwrapAt_setSlot, if_pos rfl, unwrap_newSlot, if_pos rfl]
      refine ⟨password, slot, opensAdmin_of_only hopen hadmin fun j hj => ?_⟩
      rw [unwrapAt_setSlot, if_neg hj, hfree j]
    · have hpw : pw ≠ password := by
        intro heq
        obtain ⟨p, hp, -⟩ := hopens.unwrapAt
        rw [heq, hfree i] at hp
        cases hp
      exact ⟨pw, i, hopens.setSlot (fun heq => hi (congrArg Fin.val heq)) ((unwrap_newSlot W).trans (if_neg hpw))⟩
  | @deletePersona persona slot draw hslot =>
    obtain ⟨pw, i, hopens, hi⟩ := hleaves hrole
    exact ⟨pw, i, hopens.setSlot (fun heq => hi (congrArg Fin.val heq)) (unwrap_decoySlot W)⟩

namespace Accounts

def KeepsAdmins (s : Accounts W) : Action → Prop
  | .step i _ => ∀ th, s.threads i = some th →
    match th with
    | .storing username x read _ listed =>
      (s.users.get username).map (·.core) = some read.core ∧ LeavesSlot read x ∧
        (read.role = .Admin → x.writesRole = true → listed = s.users.list)
    | .adding record => s.users.get record.username = none
    | .deleting _ listed => listed = s.users.list
    | .roleListed username _ current _ => (s.users.get username).map (·.role) = current
    | _ => True
  | _ => True

/-! ## Counting -/

variable {s : Accounts W} {users users' : UserStore W} {u : String}

theorem list_nodup (users : UserStore W) : (users.list.map Prod.fst).Nodup := by
  have hsorted := users.table.pairwise_toList
  rw [UserStore.list, List.map_map]
  refine List.Pairwise.imp (fun hlt => ne_of_lt hlt) ?_
  exact List.pairwise_map.2 hsorted

/-- of two administrators, one is another user -/
theorem exists_other_admin (h : 2 ≤ adminCount users.list) (u : String) : ∃ u' rec, u' ≠ u ∧ users.get u' = some rec ∧ rec.role = .Admin := by
  by_contra hnone
  have hall : ∀ e ∈ users.list.filter fun e => e.2 = .Admin, e.1 = u := by
    intro ⟨u', r⟩ he
    obtain ⟨hmem, hr⟩ := List.mem_filter.1 he
    obtain ⟨rec, hget, hrole⟩ := UserStore.mem_list.1 hmem
    by_contra hne
    exact hnone ⟨u', rec, hne, hget, hrole.trans (of_decide_eq_true hr)⟩
  have hnodup : ((users.list.filter fun e => e.2 = .Admin).map Prod.fst).Nodup :=
    (list_nodup users).sublist (List.filter_sublist.map Prod.fst)
  have hreplicate : (users.list.filter fun e => e.2 = .Admin).map Prod.fst = List.replicate (adminCount users.list) u := by
    refine List.eq_replicate_iff.2 ⟨List.length_map .., fun v hv => ?_⟩
    obtain ⟨e, he, rfl⟩ := List.mem_map.1 hv
    exact hall e he
  rw [hreplicate, List.nodup_replicate] at hnodup
  omega

theorem roleGuard_count {username : String} {newRole : Role} {listed : List (String × Role)}
    (h : roleGuard username newRole (some .Admin) listed = .ok ()) (hne : newRole ≠ .Admin) : 2 ≤ adminCount listed := by
  rw [roleGuard] at h
  simp only [hne, ne_eq, not_false_eq_true, true_and] at h
  split at h
  · exact absurd h nofun
  · omega

theorem deleteGuard_count {username : String} {listed : List (String × Role)} (h : deleteGuard username listed = .ok ())
    (hadmin : (username, .Admin) ∈ listed) : 2 ≤ adminCount listed := by
  have hany : (listed.any fun e => e.1 = username && e.2 = .Admin) = true :=
    List.any_eq_true.2 ⟨(username, .Admin), hadmin, by simp⟩
  rw [deleteGuard] at h
  split at h
  · exact absurd h nofun
  · rw [hany, Bool.true_and] at h
    split at h
    · exact absurd h nofun
    next hcount =>
      rw [decide_eq_true_eq] at hcount
      omega

/-! ## One step -/

/-- what a handler has made sure of -/
def Guarded : Thread W → Prop
  | .storing _ (.setRole newRole) read _ listed => read.role = .Admin → newRole ≠ .Admin → 2 ≤ adminCount listed
  | .roleListed _ newRole current listed => current = some .Admin → newRole ≠ .Admin → 2 ≤ adminCount listed
  | .deleting username listed => (username, .Admin) ∈ listed → 2 ≤ adminCount listed
  | .adding record => AdminsOpen record
  | _ => True

theorem Next.guarded {th th' : Thread W} (h : Next s th th') (hth : Guarded th)
    (hfresh : ∀ username newRole current listed, th = .roleListed username newRole current listed →
      (s.users.get username).map (·.role) = current) : Guarded th' := by
  cases h with
  | waits => exact hth
  | addUser =>
    intro hrole
    exact ⟨_, _, opensAdmin_newSlots hrole rfl⟩
  | @update username x rec record hget happly hother =>
    cases x with
    | setRole newRole => exact absurd rfl (hother newRole)
    | _ => trivial
  | deleteUser hguard => exact fun hmem => deleteGuard_count hguard hmem
  | roleListed hguard =>
    intro hcurrent hne
    subst hcurrent
    exact roleGuard_count hguard hne
  | @roleStoring username newRole current listed rec hget =>
    intro hrole hne
    refine hth ?_ hne
    rw [← hfresh username newRole current listed rfl, hget, Option.map_some, hrole]
  | _ => trivial

structure Administered (users : UserStore W) : Prop where
  exists_admin : ∃ u rec, users.get u = some rec ∧ rec.role = .Admin
  opens : ∀ u rec, users.get u = some rec → AdminsOpen rec

theorem Administered.logsIn (h : Administered users) : LogsInAsAdmin users := by
  obtain ⟨u, rec, hget, hrole⟩ := h.exists_admin
  obtain ⟨pw, i, hopens⟩ := h.opens u rec hget hrole
  exact logsInAsAdmin_iff.2 ⟨u, rec, pw, i, hget, hrole, hopens⟩

/-- another administrator's record is as before -/
theorem Administered.of_other {rec : UserRecord W} {u' : String} (h : Administered users) (hu' : users.get u' = some rec)
    (hrole : rec.role = .Admin) (hne : u' ≠ u) (hsame : ∀ v ≠ u, users'.get v = users.get v)
    (hrec : ∀ rec, users'.get u = some rec → AdminsOpen rec) : Administered users' where
  exists_admin := ⟨u', rec, (hsame u' hne).trans hu', hrole⟩
  opens := fun v rec' hv => by
    by_cases hvu : v = u
    · exact hrec rec' (hvu ▸ hv)
    · exact h.opens v rec' ((hsame v hvu).symm.trans hv)

theorem Administered.upsert {record : UserRecord W} (h : Administered users) (hopens : AdminsOpen record)
    (hother : record.role ≠ .Admin → ∃ u' rec, u' ≠ record.username ∧ users.get u' = some rec ∧ rec.role = .Admin) :
    Administered (users.upsert record) := by
  have hself : (users.upsert record).get record.username = some record := by
    rw [UserStore.get_upsert, if_pos rfl]
  have hsame : ∀ v ≠ record.username, (users.upsert record).get v = users.get v := by
    intro v hv
    rw [UserStore.get_upsert, if_neg hv.symm]
  have hrec : ∀ rec, (users.upsert record).get record.username = some rec → AdminsOpen rec := by
    intro rec hrec
    rw [hself] at hrec
    exact Option.some.inj hrec ▸ hopens
  by_cases hrole : record.role = .Admin
  · refine ⟨⟨record.username, record, hself, hrole⟩, fun v rec hv => ?_⟩
    by_cases hvu : v = record.username
    · exact hrec rec (hvu ▸ hv)
    · exact h.opens v rec ((hsame v hvu).symm.trans hv)
  · obtain ⟨u', rec, hne, hget, hadmin⟩ := hother hrole
    exact h.of_other hget hadmin hne hsame hrec

theorem adminsOpen_core {rec : UserRecord W} : AdminsOpen rec.core ↔ AdminsOpen rec := Iff.rfl

theorem Administered.congr (h : Administered users) (hsame : ∀ v, (users'.get v).map (·.core) = (users.get v).map (·.core)) :
    Administered users' where
  exists_admin := by
    obtain ⟨u, rec, hget, hrole⟩ := h.exists_admin
    have hcore := hsame u
    rw [hget, Option.map_some] at hcore
    obtain ⟨rec', hget', heq⟩ := Option.map_eq_some_iff.1 hcore
    have hrole' : rec'.core.role = rec.core.role := congrArg UserRecord.role heq
    exact ⟨u, rec', hget', hrole'.trans hrole⟩
  opens := fun v rec hv => by
    have hcore := (hsame v).symm
    rw [hv, Option.map_some] at hcore
    obtain ⟨rec', hget', heq⟩ := Option.map_eq_some_iff.1 hcore
    rw [← adminsOpen_core, ← heq, adminsOpen_core]
    exact h.opens v rec' hget'

/-- the administrator there is, if it is not this user -/
theorem Administered.other_of_ne (h : Administered users) (hu : ∀ rec, users.get u = some rec → rec.role ≠ .Admin) :
    ∃ u' rec, u' ≠ u ∧ users.get u' = some rec ∧ rec.role = .Admin := by
  obtain ⟨u', rec, hget, hrole⟩ := h.exists_admin
  refine ⟨u', rec, fun heq => ?_, hget, hrole⟩
  exact hu rec (heq ▸ hget) hrole

theorem Effect.administered {users' : UserStore W} {log' : List (Stored W)} {th : Thread W} (heff : Effect s th users' log')
    (h : Administered s.users) (hcomputed : Computed th) (hguarded : Guarded th) {i : ℕ} {ok : Bool} (hth : s.threads i = some th)
    (hx : s.KeepsAdmins (.step i ok)) : Administered users' := by
  have hcond := hx th hth
  cases heff with
  | nothing => exact h
  | touch a =>
    refine h.congr fun v => ?_
    rw [UserStore.get_updateLastLogin]
    split
    · rw [Option.map_map]
      rfl
    · rfl
  | store username x read record listed =>
    obtain ⟨hfresh, hleaves, hlisted⟩ := hcond
    obtain ⟨hread, happly⟩ := hcomputed
    have hmade := apply_ok.1 happly
    obtain ⟨rec, hget, hcore⟩ := Option.map_eq_some_iff.1 hfresh
    have hopens : AdminsOpen read := by
      rw [← adminsOpen_core, ← hcore, adminsOpen_core]
      exact h.opens username rec hget
    have hrole : rec.core.role = read.core.role := congrArg UserRecord.role hcore
    have hname : record.username = username := hmade.username.trans hread
    refine h.upsert (adminsOpen_of_made hmade hopens hleaves) fun hnot => ?_
    rw [hname]
    by_cases hadmin : read.role = .Admin
    · -- only `set_role` takes the role away, and it has counted
      have hwrites : x.writesRole = true := by
        by_contra hkeeps
        exact hnot ((hmade.role (Bool.not_eq_true _ ▸ hkeeps)).trans hadmin)
      cases hmade with
      | setRole newRole =>
        have hcount := hguarded hadmin hnot
        rw [hlisted hadmin rfl] at hcount
        exact exists_other_admin hcount username
      | _ => cases hwrites
    · refine h.other_of_ne fun rec' hrec' => ?_
      rw [hget] at hrec'
      rw [← Option.some.inj hrec']
      exact fun heq => hadmin (hrole.symm.trans heq)
  | add record =>
    refine h.upsert hguarded fun _ => h.other_of_ne fun rec hrec => ?_
    have hnone : s.users.get record.username = none := hcond
    rw [hnone] at hrec
    cases hrec
  | delete username listed rec hrec =>
    have hlisted : listed = s.users.list := hcond
    have hsame : ∀ v ≠ username, (s.users.delete username).get v = s.users.get v := by
      intro v hv
      rw [UserStore.get_delete, if_neg hv.symm]
    have hother : ∃ u' rec, u' ≠ username ∧ s.users.get u' = some rec ∧ rec.role = .Admin := by
      by_cases hadmin : rec.role = .Admin
      · have hcount := hguarded (hlisted ▸ UserStore.mem_list.2 ⟨rec, hrec, hadmin⟩)
        exact exists_other_admin (hlisted ▸ hcount) username
      · refine h.other_of_ne fun rec' hrec' => ?_
        rw [hrec] at hrec'
        exact Option.some.inj hrec' ▸ hadmin
    obtain ⟨u', rec', hne, hget, hrole⟩ := hother
    refine h.of_other hget hrole hne hsame fun rec'' hrec'' => ?_
    rw [UserStore.get_delete, if_pos rfl] at hrec''
    cases hrec''

structure AdminInv (s : Accounts W) : Prop where
  administered : Administered s.users
  computed : ∀ i th, s.threads i = some th → Computed th
  guarded : ∀ i th, s.threads i = some th → Guarded th

theorem AdminInv.step {maxRefreshes : ℕ} {x : Action} (h : AdminInv s) (hx : s.KeepsAdmins x) : AdminInv (s.step maxRefreshes x) where
  administered := by
    rcases @step_effect W s maxRefreshes x with ⟨husers, -⟩ | ⟨i, ok, th, rfl, hth, heff⟩
    · rw [husers]
      exact h.administered
    · exact heff.administered h.administered (h.computed i th hth) (h.guarded i th hth) hth hx
  computed := fun j th' hj => by
    rcases step_threads hj with hold | ⟨r, rfl⟩ | ⟨ok, th, -, hth, hnext⟩
    · exact h.computed j th' hold
    · trivial
    · exact hnext.computed (h.computed j th hth)
  guarded := fun j th' hj => by
    rcases step_threads hj with hold | ⟨r, rfl⟩ | ⟨ok, th, rfl, hth, hnext⟩
    · exact h.guarded j th' hold
    · trivial
    · refine hnext.guarded (h.guarded j th hth) fun username newRole current listed heq => ?_
      subst heq
      exact hx _ hth

/-! ## Every run -/

/-- **An administrator remains.** From a state in which some user can log in as an administrator, and every record with the role can:
along every run in which who is made an administrator has a slot for it, no administrator's last such slot is written over, and what a
handler has read and counted is still so when it stores, some user can still log in as an administrator. -/
theorem administrator_remains (maxRefreshes : ℕ) (users₀ : UserStore W) (actions : List Action) (hsome : LogsInAsAdmin users₀)
    (hall : ∀ u rec, users₀.get u = some rec → AdminsOpen rec) (h : Along (step maxRefreshes) KeepsAdmins (of users₀) actions) :
    LogsInAsAdmin (run (step maxRefreshes) (of users₀) actions).users := by
  obtain ⟨u, rec, pw, i, hget, hrole, -⟩ := logsInAsAdmin_iff.1 hsome
  have hidle : ∀ i th, (of users₀).threads i = some th → False := fun _ th hth => absurd hth.symm (Option.some_ne_none th)
  have hstart : AdminInv (of users₀) :=
    ⟨⟨⟨u, rec, hget, hrole⟩, hall⟩, fun i th hth => (hidle i th hth).elim, fun i th hth => (hidle i th hth).elim⟩
  exact (h.inv (fun _ _ hs hx => hs.step hx) hstart : AdminInv _).administered.logsIn

theorem userRecord_opens {username : String} {role : Role} {password : Bytes} : AdminsOpen (userRecord username role password) := by
  intro hrole
  exact ⟨password, 0, opensAdmin_newSlots hrole rfl⟩

theorem rootAndBob_logsIn : LogsInAsAdmin rootAndBob := by
  have hget : rootAndBob.get "root" = some (userRecord "root" .Admin [1]) := rfl
  exact logsInAsAdmin_iff.2 ⟨"root", _, [1], 0, hget, rfl, opensAdmin_newSlots rfl rfl⟩

theorem rootAndBob_opens (u : String) (rec : UserRecord openWrap) (h : rootAndBob.get u = some rec) : AdminsOpen rec := by
  rw [rootAndBob_get] at h
  split at h
  · exact Option.some.inj h ▸ userRecord_opens
  · split at h
    · exact Option.some.inj h ▸ userRecord_opens
    · exact absurd h nofun

/-- bob's role is lowered, and then bob is deleted -/
def bobLeaves : List Action :=
  [.start 0 (.update "bob" (.setRole .ReadOnly)), .step 0 true, .step 0 true, .step 0 true, .step 0 true, .start 1 (.deleteUser "bob"),
    .step 1 true, .step 1 true]

theorem administrator_remains_bob_leaves :
    (run (step 3) (of rootAndBob) bobLeaves).users.list = [("root", .Admin)] ∧
      LogsInAsAdmin (run (step 3) (of rootAndBob) bobLeaves).users := by
  refine ⟨rfl, administrator_remains 3 rootAndBob bobLeaves rootAndBob_logsIn rootAndBob_opens ?_⟩
  refine ⟨trivial, ?_, ?_, ?_, ?_, trivial, ?_, ?_, trivial⟩
  all_goals
    intro th hth
    cases hth
  · trivial
  · trivial
  · rfl
  · exact ⟨rfl, nofun, nofun⟩
  · trivial
  · rfl

/-- bob is made an administrator, and then root is deleted -/
def rootLeaves : List Action :=
  [.start 0 (.update "bob" (.setRole .Admin)), .step 0 true, .step 0 true, .step 0 true, .step 0 true, .start 1 (.deleteUser "root"),
    .step 1 true, .step 1 true]

theorem promoted_is_no_administrator :
    LogsInAsAdmin rootAndBob ∧ ¬LogsInAsAdmin (run (step 3) (of rootAndBob) rootLeaves).users := by
  refine ⟨rootAndBob_logsIn, fun h => ?_⟩
  obtain ⟨u, rec, pw, i, hget, -, hopens⟩ := logsInAsAdmin_iff.1 h
  have husers : (run (step 3) (of rootAndBob) rootLeaves).users =
      (rootAndBob.upsert { userRecord "bob" .User [2] with role := .Admin }).delete "root" := rfl
  -- bob is the only user, and his slot opens as a user's
  have hrec : rec = { userRecord "bob" .User [2] with role := .Admin } := by
    rw [husers, UserStore.get_delete, UserStore.get_upsert, rootAndBob_get] at hget
    split at hget
    · cases hget
    · split at hget
      · exact (Option.some.inj hget).symm
      next hroot hbob =>
        change ¬"bob" = u at hbob
        rw [if_neg (Ne.symm hbob), if_neg (Ne.symm hroot)] at hget
        cases hget
  obtain ⟨payload, hopen, hrole⟩ := hopens.unwrapAt
  rw [hrec, unwrapAt_newSlotsRandom (rfl : _ = newSlotsRandom openWrap _ [2] _ .User false 0 fun _ => someDraw)] at hopen
  split at hopen
  · rw [← Option.some.inj hopen] at hrole
    cases hrole
  · cases hopen

end Accounts

end Y2q.Auth
