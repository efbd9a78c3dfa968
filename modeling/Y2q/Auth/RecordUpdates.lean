/-
Concurrent changes of one user's record.

Every update stores the whole record that it made of the one it has read, and compares nothing. The log of the stores is serial when each
of them found what its handler had read (`last_login` apart, which logins touch in a transaction of their own).

- `exec`: one entry of the log, on the record as it is.
- `InTime`: an update stores when the record is the one it has read, and `add_user` when there is none.
- `Shows`: the record has what an update made: the role, or the slot under its password. `shows_apply`, `Shows.kept`: it has it at once,
  and until another change writes the same.
- `record_updates_serial`: along such runs the record is that of the log, a deleted user has none, and every change is shown that no later
  one has overwritten.
-/
import Mathlib.Tactic
import Y2q.Core.Run
import Y2q.Auth.Handlers

namespace Y2q.Auth

open Run (Along run replay)

variable {W : SlotWrap}

/-! ## One after the other -/

/-- the record without `last_login` -/
def UserRecord.core (rec : UserRecord W) : UserRecord W := { rec with lastLogin := none }

def exec : Entry W → Option (UserRecord W) → Option (Option (UserRecord W))
  | .update x, some rec =>
    match x.apply rec with
    | .ok record => some (some record)
    | .error _ => none
  | .add record, none => some (some record.core)
  | .delete, some _ => some none
  | _, _ => none

variable {x y : Update} {rec record : UserRecord W}

theorem exec_update (h : x.apply rec = .ok record) : exec (.update x) (some rec) = some (some record) := by
  rw [exec, h]

/-- `last_login` plays no part -/
theorem apply_core (h : x.apply rec = .ok record) : x.apply rec.core = .ok record.core := by
  refine apply_ok.2 ?_
  cases apply_ok.1 h with
  | setRole newRole => exact .setRole newRole
  | resetIdentity hpassword => exact .resetIdentity hpassword
  | changePassword hnew hopen => exact .changePassword hnew hopen
  | createPersona hslot hpassword hrole hcaller hfree => exact .createPersona hslot hpassword hrole hcaller hfree
  | deletePersona hslot => exact .deletePersona hslot

/-! ## What a record shows -/

/-- what an update was for -/
def Update.Shows : Update → UserRecord W → Prop
  | .setRole newRole, rec => rec.role = newRole
  | .resetIdentity password realSlot draws, rec =>
    (∃ role, unwrapAt rec password realSlot = some ⟨(draws realSlot).identitySk, role, false⟩) ∧
      ∀ i ≠ realSlot, ∀ pw, unwrapAt rec pw i = none
  | .changePassword persona _ _ new _, rec => ∃ i : Slot, i.1 = persona ∧ ∀ pw, unwrapAt rec pw i ≠ none ↔ pw = new
  | .createPersona _ _ slot password role revokeOtherSessions draw, rec =>
    ∃ i : Slot, i.1 = slot ∧ unwrapAt rec password i = some ⟨draw.identitySk, role, revokeOtherSessions⟩
  | .deletePersona _ slot _, rec => ∃ i : Slot, i.1 = slot ∧ ∀ pw, unwrapAt rec pw i = none

/-- the change writes what the update wrote -/
def Entry.Overwrites : Entry W → Update → Prop
  | .update y, x => (y.writesRole = true ∧ x.writesRole = true) ∨ ∃ i, y.writesSlot i = true ∧ x.writesSlot i = true
  | _, _ => True

theorem shows_apply (h : x.apply rec = .ok record) : x.Shows record := by
  cases apply_ok.1 h with
  | setRole newRole => rfl
  | @resetIdentity password realSlot draws hpassword =>
    refine ⟨⟨rec.role, ?_⟩, fun i hi pw => ?_⟩
    · rw [unwrapAt_newSlotsRandom rfl, if_pos ⟨rfl, rfl⟩]
    · rw [unwrapAt_newSlotsRandom rfl, if_neg fun hand => hi hand.1]
  | @changePassword slot tokenHash current new nonce payload hnew hopen =>
    refine ⟨slot, rfl, fun pw => ?_⟩
    rw [unwrapAt_rewrapSlot]
    simp
  | @createPersona persona callerRole role slot password revokeOtherSessions draw hslot hpassword hrole hcaller hfree =>
    refine ⟨slot, rfl, ?_⟩
    rw [unwrapAt_setSlot, if_pos rfl, unwrap_newSlot, if_pos rfl]
  | @deletePersona persona slot draw hslot =>
    refine ⟨slot, rfl, fun pw => ?_⟩
    rw [unwrapAt_setSlot, if_pos rfl, unwrap_decoySlot]

theorem Update.Shows.congr (h : x.Shows rec) (hrole : x.writesRole = true → record.role = rec.role)
    (hslot : ∀ i, x.writesSlot i = true → ∀ pw, unwrapAt record pw i = unwrapAt rec pw i) : x.Shows record := by
  cases x with
  | setRole newRole => exact (hrole rfl).trans h
  | resetIdentity password realSlot draws =>
    obtain ⟨⟨role, hopen⟩, hother⟩ := h
    exact ⟨⟨role, (hslot realSlot rfl password).trans hopen⟩, fun i hi pw => (hslot i rfl pw).trans (hother i hi pw)⟩
  | changePassword persona tokenHash current new nonce =>
    obtain ⟨i, hi, hopen⟩ := h
    refine ⟨i, hi, fun pw => ?_⟩
    rw [hslot i (decide_eq_true hi), hopen]
  | createPersona persona callerRole slot password role revokeOtherSessions draw =>
    obtain ⟨i, hi, hopen⟩ := h
    exact ⟨i, hi, (hslot i (decide_eq_true hi) password).trans hopen⟩
  | deletePersona persona slot draw =>
    obtain ⟨i, hi, hopen⟩ := h
    exact ⟨i, hi, fun pw => (hslot i (decide_eq_true hi) pw).trans (hopen pw)⟩

theorem Update.Shows.kept (h : x.Shows rec) (hy : y.apply rec = .ok record) (hkeep : ¬(Entry.update y : Entry W).Overwrites x) :
    x.Shows record := by
  have hmade := apply_ok.1 hy
  obtain ⟨hroles, hslots⟩ := not_or.1 hkeep
  refine h.congr (fun hx => hmade.role ?_) fun i hx pw => hmade.unwrapAt ?_ pw
  · exact Bool.eq_false_iff.2 fun hw => hroles ⟨hw, hx⟩
  · exact Bool.eq_false_iff.2 fun hw => hslots ⟨i, hw, hx⟩

/-! ## The log -/

namespace Accounts

def entriesOf (log : List (Stored W)) (u : String) : List (Entry W) := (log.filter fun e => e.username = u).map (·.entry)

/-- what the record of `u` is, once everything that was stored is counted -/
structure Serial (users₀ : UserStore W) (s : Accounts W) (u : String) : Prop where
  replayed : replay exec ((users₀.get u).map (·.core)) (entriesOf s.log u) = some ((s.users.get u).map (·.core))
  deleted : ∀ log log', entriesOf s.log u = log ++ .delete :: log' → (∀ y ∈ log', ∀ record, y ≠ .add record) → s.users.get u = none
  shown : ∀ log x log', entriesOf s.log u = log ++ .update x :: log' → (∀ y ∈ log', ¬y.Overwrites x) →
    ∃ rec, s.users.get u = some rec ∧ x.Shows rec

variable {s : Accounts W} {u : String} {r : Option (UserRecord W)}

/-- without a record, only `add_user` makes one -/
theorem replay_deleted {log : List (Entry W)} (hlog : ∀ y ∈ log, ∀ record, y ≠ .add record) (h : replay exec none log = some r) :
    r = none := by
  refine Run.replay_inv (I := (· = none)) (fun y hy r r' hr hexec => ?_) rfl h
  subst hr
  cases y with
  | add record => exact absurd rfl (hlog _ hy record)
  | update x => exact absurd hexec nofun
  | delete => exact absurd hexec nofun

theorem replay_shown {log : List (Entry W)} (hlog : ∀ y ∈ log, ¬y.Overwrites x) (hx : x.Shows rec)
    (h : replay exec (some rec) log = some r) : ∃ rec', r = some rec' ∧ x.Shows rec' := by
  refine Run.replay_inv (I := fun r => ∃ rec', r = some rec' ∧ x.Shows rec') (fun y hy r r' hr hexec => ?_) ⟨rec, rfl, hx⟩ h
  obtain ⟨rec', rfl, hshows⟩ := hr
  cases y with
  | add record => exact absurd trivial (hlog _ hy)
  | delete => exact absurd trivial (hlog _ hy)
  | update y =>
    simp only [exec] at hexec
    split at hexec
    next record happly =>
      cases hexec
      exact ⟨record, rfl, hshows.kept happly (hlog _ hy)⟩
    · exact absurd hexec nofun

theorem serial_of_replay {users₀ : UserStore W}
    (h : replay exec ((users₀.get u).map (·.core)) (entriesOf s.log u) = some ((s.users.get u).map (·.core))) : Serial users₀ s u where
  replayed := h
  deleted := fun log log' hsplit hlog => by
    rw [hsplit] at h
    obtain ⟨before, after, -, hexec, hrest⟩ := Run.replay_split h
    have hafter : after = none := by
      cases before with
      | none => exact absurd hexec nofun
      | some rec =>
        cases hexec
        rfl
    subst hafter
    exact Option.map_eq_none_iff.1 (replay_deleted hlog hrest)
  shown := fun log x log' hsplit hlog => by
    rw [hsplit] at h
    obtain ⟨before, after, -, hexec, hrest⟩ := Run.replay_split h
    cases before with
    | none => exact absurd hexec nofun
    | some rec =>
      simp only [exec] at hexec
      split at hexec
      next record happly =>
        cases hexec
        obtain ⟨rec', hrec', hshows⟩ := replay_shown hlog (shows_apply happly) hrest
        obtain ⟨final, hfinal, rfl⟩ := Option.map_eq_some_iff.1 hrec'
        refine ⟨final, hfinal, ?_⟩
        refine hshows.congr (fun _ => ?_) fun i _ pw => ?_
        · rfl
        · rfl
      · exact absurd hexec nofun

/-! ## Every run -/

/-- what a handler has read is still so when it stores -/
def StoresInTime (s : Accounts W) : Thread W → Prop
  | .storing username _ read _ _ => (s.users.get username).map (·.core) = some read.core
  | .adding record => s.users.get record.username = none
  | _ => True

def InTime (s : Accounts W) : Action → Prop
  | .step i _ => ∀ th, s.threads i = some th → s.StoresInTime th
  | _ => True

/-- an update stores what it has made of the user's record -/
def Computed : Thread W → Prop
  | .storing username x read record _ => read.username = username ∧ x.apply read = .ok record
  | _ => True

theorem Next.computed {th th' : Thread W} (h : Next s th th') (hth : Computed th) : Computed th' := by
  cases h with
  | waits => exact hth
  | update hget happly hother => exact ⟨UserStore.username_of_get hget, happly⟩
  | roleStoring hget => exact ⟨UserStore.username_of_get hget, rfl⟩
  | _ => trivial

structure Inv (users₀ : UserStore W) (s : Accounts W) : Prop where
  replayed : ∀ u, replay exec ((users₀.get u).map (·.core)) (entriesOf s.log u) = some ((s.users.get u).map (·.core))
  threads : ∀ i th, s.threads i = some th → Computed th

theorem entriesOf_append {log : List (Stored W)} {e : Stored W} :
    entriesOf (log ++ [e]) u = entriesOf log u ++ if e.username = u then [e.entry] else [] := by
  by_cases hu : e.username = u <;> simp [entriesOf, hu]

/-- one more entry -/
theorem replay_store {users₀ users' : UserStore W} {e : Stored W}
    (h : replay exec ((users₀.get u).map (·.core)) (entriesOf s.log u) = some ((s.users.get u).map (·.core)))
    (hother : e.username ≠ u → users'.get u = s.users.get u)
    (hexec : e.username = u → exec e.entry ((s.users.get u).map (·.core)) = some ((users'.get u).map (·.core))) :
    replay exec ((users₀.get u).map (·.core)) (entriesOf (s.log ++ [e]) u) = some ((users'.get u).map (·.core)) := by
  rw [entriesOf_append, Run.replay_append, h, Option.bind_some]
  split
  next hu => rw [replay, hexec hu, Option.bind_some, replay]
  next hne => rw [hother hne, replay]

theorem Effect.replayed {users₀ users' : UserStore W} {log' : List (Stored W)} {th : Thread W} (heff : Effect s th users' log')
    (h : ∀ u, replay exec ((users₀.get u).map (·.core)) (entriesOf s.log u) = some ((s.users.get u).map (·.core)))
    (hth : Computed th) (htime : s.StoresInTime th) (u : String) :
    replay exec ((users₀.get u).map (·.core)) (entriesOf log' u) = some ((users'.get u).map (·.core)) := by
  cases heff with
  | nothing => exact h u
  | touch a =>
    rw [h u, UserStore.get_updateLastLogin]
    split
    · rw [Option.map_map]
      rfl
    · rfl
  | store username x read record listed =>
    obtain ⟨hread, happly⟩ := hth
    have hname : record.username = username := (apply_ok.1 happly).username.trans hread
    refine replay_store (h u) (fun hne => ?_) fun heq => ?_
    · rw [UserStore.get_upsert, if_neg hne]
    · change record.username = u at heq
      obtain rfl : username = u := hname.symm.trans heq
      rw [UserStore.get_upsert, if_pos heq, htime]
      exact exec_update (apply_core happly)
  | add record =>
    refine replay_store (h u) (fun hne => ?_) fun heq => ?_
    · rw [UserStore.get_upsert, if_neg hne]
    · change record.username = u at heq
      rw [UserStore.get_upsert, if_pos heq, ← heq, htime]
      rfl
  | delete username listed rec hrec =>
    refine replay_store (h u) (fun hne => ?_) fun heq => ?_
    · rw [UserStore.get_delete, if_neg hne]
    · change username = u at heq
      rw [UserStore.get_delete, if_pos heq, ← heq, hrec]
      rfl

theorem step_inv {users₀ : UserStore W} {maxRefreshes : ℕ} {x : Action} (h : Inv users₀ s) (hx : s.InTime x) :
    Inv users₀ (s.step maxRefreshes x) where
  replayed := fun u => by
    rcases @step_effect W s maxRefreshes x with ⟨husers, hlog⟩ | ⟨i, ok, th, rfl, hth, heff⟩
    · rw [husers, hlog]
      exact h.replayed u
    · exact heff.replayed h.replayed (h.threads i th hth) (hx th hth) u
  threads := fun j th' hj => by
    rcases step_threads hj with hold | ⟨r, rfl⟩ | ⟨ok, th, -, hth, hnext⟩
    · exact h.threads j th' hold
    · trivial
    · exact hnext.computed (h.threads j th hth)

/-- **User records are updated in series.** Along every run in which each update stores while the record is the one it has read, and
`add_user` while there is none: the record of every user is what the successful changes make of it one after the other; a user who was
deleted and not added again has none; and every change is there that no later one has written over. -/
theorem record_updates_serial (maxRefreshes : ℕ) (users₀ : UserStore W) (actions : List Action)
    (h : Along (step maxRefreshes) InTime (of users₀) actions) (u : String) :
    Serial users₀ (run (step maxRefreshes) (of users₀) actions) u := by
  have hstart : Inv users₀ (of users₀) := ⟨fun u => rfl, fun _ th hth => absurd hth.symm (Option.some_ne_none th)⟩
  have hinv := h.inv (fun _ _ hs hx => step_inv hs hx) hstart
  exact serial_of_replay (hinv.replayed u)

def readOnlyBob : Request := .update "bob" (.setRole .ReadOnly)

/-- a change of role, and then a deletion -/
def roleThenDelete : List Action :=
  [.start 0 readOnlyBob, .step 0 true, .step 0 true, .step 0 true, .step 0 true, .start 1 (.deleteUser "bob"), .step 1 true, .step 1 true]

theorem record_updates_serial_one_by_one :
    entriesOf (run (step 3) (of rootAndBob) roleThenDelete).log "bob" = [.update (.setRole .ReadOnly), .delete] ∧
      Serial rootAndBob (run (step 3) (of rootAndBob) roleThenDelete) "bob" := by
  have hlog : (run (step 3) (of rootAndBob) roleThenDelete).log =
      [⟨"bob", .update (.setRole .ReadOnly), some { userRecord "bob" .User [2] with role := .ReadOnly }⟩, ⟨"bob", .delete, none⟩] := rfl
  refine ⟨by simp [entriesOf, hlog], record_updates_serial 3 rootAndBob roleThenDelete ?_ "bob"⟩
  refine ⟨trivial, ?_, ?_, ?_, ?_, trivial, ?_, ?_, trivial⟩
  all_goals
    intro th hth
    cases hth
  case refine_4 => rfl
  all_goals trivial

/-- the deletion comes when the change of role has read the record -/
def deleteMeanwhile : List Action :=
  [.start 0 readOnlyBob, .step 0 true, .step 0 true, .step 0 true, .start 1 (.deleteUser "bob"), .step 1 true, .step 1 true, .step 0 true]

theorem deleted_user_returns : ¬Serial rootAndBob (run (step 3) (of rootAndBob) deleteMeanwhile) "bob" := by
  intro h
  have hlog : (run (step 3) (of rootAndBob) deleteMeanwhile).log =
      [⟨"bob", .delete, none⟩, ⟨"bob", .update (.setRole .ReadOnly), some { userRecord "bob" .User [2] with role := .ReadOnly }⟩] := rfl
  have hentries : entriesOf (run (step 3) (of rootAndBob) deleteMeanwhile).log "bob" = [] ++ .delete :: [.update (.setRole .ReadOnly)] := by
    simp [entriesOf, hlog]
  have hget : (run (step 3) (of rootAndBob) deleteMeanwhile).users.get "bob" = some { userRecord "bob" .User [2] with role := .ReadOnly } :=
    rfl
  have hnone := h.deleted [] _ hentries fun y hy record heq => by
    rw [List.mem_singleton.1 hy] at heq
    exact absurd heq nofun
  rw [hget] at hnone
  exact absurd hnone nofun

end Accounts

end Y2q.Auth
