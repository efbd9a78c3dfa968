/-
One password, one persona.

A login tries the four slots in turn, and the first that opens counts. `create_persona` refuses a password that opens a slot already, and
a new record has one slot that opens; `change_password` wraps its slot under any new password.

- `OnePassword`: no password opens two slots of the record. `onePassword_iff`: so a login lands in the slot whose password it has.
- `made_onePassword`: what an update makes of such a record is such a record, for a change of password if the new one opens no other slot.
- `one_password_iff`: along every run all records stay so exactly if every change of password that is stored is so.
-/
import Mathlib.Tactic
import Y2q.Core.Run
import Y2q.Auth.Handlers
import Y2q.Auth.RecordUpdates

namespace Y2q.Auth

open Run (Along run)

variable {W : SlotWrap}

/-! ## Records -/

def OnePassword (rec : UserRecord W) : Prop :=
  ∀ pw i j p q, unwrapAt rec pw i = some p → unwrapAt rec pw j = some q → i = j

/-- a login lands in the slot that the password was given to -/
def LandsRight (rec : UserRecord W) : Prop :=
  ∀ pw i payload, unwrapAt rec pw i = some payload → attemptUnwrap rec pw = some (i, payload)

/-- what a change of password has to make sure of -/
def Update.KeepsDistinct : Update → UserRecord W → Prop
  | .changePassword persona _ _ new _, rec => ∀ i : Slot, i.1 ≠ persona → unwrapAt rec new i = none
  | _, _ => True

variable {rec record : UserRecord W} {x : Update} {slot : Slot}

theorem onePassword_iff : OnePassword rec ↔ LandsRight rec := by
  constructor
  · intro h pw i payload hi
    refine attemptUnwrap_eq_some.2 ⟨hi, fun j hj => ?_⟩
    by_contra hsome
    obtain ⟨q, hq⟩ := Option.ne_none_iff_exists'.1 hsome
    exact absurd (h pw j i q payload hq hi) hj.ne
  · intro h pw i j p q hi hj
    have heq := (h pw i p hi).symm.trans (h pw j q hj)
    exact congrArg Prod.fst (Option.some.inj heq)

theorem OnePassword.congr (h : OnePassword rec) (hsame : ∀ i pw, unwrapAt record pw i = unwrapAt rec pw i) : OnePassword record := by
  intro pw i j p q hi hj
  rw [hsame] at hi hj
  exact h pw i j p q hi hj

/-- one slot opens -/
theorem onePassword_newSlots {password : Bytes} {role : Role} {revokeOtherSessions : Bool} {draws : Slot → SlotDraw}
    (hslots : rec.slots = newSlotsRandom W rec.username password rec.kdf role revokeOtherSessions slot draws) : OnePassword rec := by
  have honly : ∀ pw i p, unwrapAt rec pw i = some p → i = slot := by
    intro pw i p hi
    rw [unwrapAt_newSlotsRandom hslots] at hi
    by_contra hne
    rw [if_neg fun hand => hne hand.1] at hi
    cases hi
  intro pw i j p q hi hj
  rw [honly pw i p hi, honly pw j q hj]

/-- a slot written under a password that opens no other -/
theorem OnePassword.setSlot {c : CredentialSlot W} (h : OnePassword rec)
    (hfree : ∀ pw p, W.unwrapSlot c.wrapped pw rec.kdf (slotWrapAad rec.username slot) = some p →
      ∀ i ≠ slot, unwrapAt rec pw i = none) : OnePassword (setSlot rec slot c) := by
  have hother : ∀ pw i j p q, unwrapAt (Auth.setSlot rec slot c) pw i = some p → unwrapAt (Auth.setSlot rec slot c) pw j = some q →
      i = slot → j = slot := by
    intro pw i j p q hi hj heq
    by_contra hne
    rw [unwrapAt_setSlot, if_pos heq] at hi
    rw [unwrapAt_setSlot, if_neg hne, hfree pw p hi j hne] at hj
    cases hj
  intro pw i j p q hi hj
  by_cases hislot : i = slot
  · exact hislot.trans (hother pw i j p q hi hj hislot).symm
  · by_cases hjslot : j = slot
    · exact absurd (hother pw j i q p hj hi hjslot) hislot
    · rw [unwrapAt_setSlot, if_neg hislot] at hi
      rw [unwrapAt_setSlot, if_neg hjslot] at hj
      exact h pw i j p q hi hj

theorem made_onePassword (h : Made rec x record) (hrec : OnePassword rec) : OnePassword record ↔ x.KeepsDistinct rec := by
  cases h with
  | setRole newRole => exact iff_of_true (hrec.congr fun _ _ => rfl) trivial
  | resetIdentity hpassword => exact iff_of_true (onePassword_newSlots rfl) trivial
  | @changePassword slot tokenHash current new nonce payload hnew hopen =>
    have hnewOpens := @unwrapAt_rewrapSlot W rec slot new payload new nonce
    rw [if_pos rfl] at hnewOpens
    constructor
    · intro hdistinct i hi
      by_contra hsome
      obtain ⟨q, hq⟩ := Option.ne_none_iff_exists'.1 hsome
      have hne : i ≠ slot := fun heq => hi (congrArg Fin.val heq)
      rw [← (unwrapAt_setSlot (c := rewrapSlot rec slot payload new nonce)).trans (if_neg hne)] at hq
      exact hne (hdistinct new i slot q payload hq hnewOpens)
    · intro hkeeps
      refine hrec.setSlot fun pw p hp i hi => ?_
      rw [rewrapSlot, W.unwrap_wrap] at hp
      split at hp
      next hpw =>
        cases hpw.1
        exact hkeeps i fun heq => hi (Fin.ext heq)
      next => cases hp
  | @createPersona persona callerRole role slot password revokeOtherSessions draw hslot hpassword hrole hcaller hfree =>
    refine iff_of_true (hrec.setSlot fun pw p hp i _ => ?_) trivial
    rw [unwrap_newSlot] at hp
    split at hp
    next heq => exact heq ▸ hfree i
    next => cases hp
  | @deletePersona persona slot draw hslot =>
    refine iff_of_true (hrec.setSlot fun pw p hp i _ => ?_) trivial
    rw [unwrap_decoySlot] at hp
    cases hp

/-! ## Every run -/

namespace Accounts

/-- no password opens two slots of a record, and a login lands in the slot whose password it has -/
def OnePersona (s : Accounts W) : Prop := ∀ u rec, s.users.get u = some rec → OnePassword rec ∧ LandsRight rec

/-- a change of password is stored only if the new one opens no other slot -/
def StoresDistinct (s : Accounts W) : Action → Prop
  | .step i _ => ∀ username x read record listed, s.threads i = some (.storing username x read record listed) → x.KeepsDistinct read
  | _ => True

/-- the records that a handler has in hand -/
def HoldsDistinct : Thread W → Prop
  | .storing _ x read record _ => OnePassword read ∧ Made read x record
  | .adding record => OnePassword record
  | _ => True

structure PersonaInv (s : Accounts W) : Prop where
  users : ∀ u rec, s.users.get u = some rec → OnePassword rec
  threads : ∀ i th, s.threads i = some th → HoldsDistinct th

variable {s : Accounts W} {maxRefreshes : ℕ} {y : Action}

theorem Next.holdsDistinct {th th' : Thread W} (h : Next s th th') (hth : HoldsDistinct th)
    (husers : ∀ u rec, s.users.get u = some rec → OnePassword rec) : HoldsDistinct th' := by
  cases h with
  | waits => exact hth
  | addUser => exact onePassword_newSlots rfl
  | update hget happly hother => exact ⟨husers _ _ hget, apply_ok.1 happly⟩
  | roleStoring hget => exact ⟨husers _ _ hget, .setRole _⟩
  | _ => trivial

/-- the records after a step, where a store is one of what the thread holds -/
theorem Effect.onePassword {users' : UserStore W} {log' : List (Stored W)} {th : Thread W} (heff : Effect s th users' log')
    (husers : ∀ u rec, s.users.get u = some rec → OnePassword rec) (hth : HoldsDistinct th)
    (hkeeps : ∀ username x read record listed, th = .storing username x read record listed → x.KeepsDistinct read) :
    ∀ u rec, users'.get u = some rec → OnePassword rec := by
  have hupsert : ∀ record : UserRecord W, OnePassword record → ∀ u rec, (s.users.upsert record).get u = some rec → OnePassword rec := by
    intro record hrecord u rec hget
    rw [UserStore.get_upsert] at hget
    split at hget
    · exact Option.some.inj hget ▸ hrecord
    · exact husers u rec hget
  cases heff with
  | nothing => exact husers
  | touch a =>
    intro u rec hget
    rw [UserStore.get_updateLastLogin] at hget
    split at hget
    · obtain ⟨rec', hget', rfl⟩ := Option.map_eq_some_iff.1 hget
      exact (husers u rec' hget').congr fun _ _ => rfl
    · exact husers u rec hget
  | store username x read record listed =>
    exact hupsert record ((made_onePassword hth.2 hth.1).2 (hkeeps username x read record listed rfl))
  | add record => exact hupsert record hth
  | delete username listed rec' hrec' =>
    intro u rec hget
    rw [UserStore.get_delete] at hget
    split at hget
    · cases hget
    · exact husers u rec hget

theorem PersonaInv.step (h : PersonaInv s) (hy : s.StoresDistinct y) : PersonaInv (s.step maxRefreshes y) where
  users := by
    rcases @step_effect W s maxRefreshes y with ⟨husers, -⟩ | ⟨i, ok, th, rfl, hth, heff⟩
    · rw [husers]
      exact h.users
    · exact heff.onePassword h.users (h.threads i th hth) fun username x read record listed heq => hy username x read record listed (heq ▸ hth)
  threads := fun j th' hj => by
    rcases step_threads hj with hold | ⟨r, rfl⟩ | ⟨ok, th, -, hth, hnext⟩
    · exact h.threads j th' hold
    · trivial
    · exact hnext.holdsDistinct (h.threads j th hth) h.users

theorem PersonaInv.holds (h : PersonaInv s) : s.OnePersona := fun u rec hget =>
  ⟨h.users u rec hget, onePassword_iff.1 (h.users u rec hget)⟩

/-- a store that does not keep the passwords apart shows in the record -/
theorem PersonaInv.stored (h : PersonaInv s) (hall : (s.step maxRefreshes y).OnePersona) : s.StoresDistinct y := by
  cases y with
  | step i ok =>
    intro username x read record listed hth
    obtain ⟨hread, hmade⟩ := h.threads i _ hth
    have husers : (s.step maxRefreshes (.step i ok)).users = s.users.upsert record := by
      simp only [Accounts.step, hth]
      rfl
    have hget : (s.step maxRefreshes (.step i ok)).users.get record.username = some record := by
      rw [husers, UserStore.get_upsert, if_pos rfl]
    exact (made_onePassword hmade hread).1 (hall record.username record hget).1
  | start i r => trivial
  | client j c => trivial
  | clientStep j ok => trivial

/-- **A password opens at most one persona.** From records of which no password opens two slots: along every run of the handlers that stays
so, and a login lands in the slot whose password it has, exactly if every change of password that is stored has a new password that opens
no other slot of the record it was made from. -/
theorem one_password_iff (maxRefreshes : ℕ) (users₀ : UserStore W) (actions : List Action)
    (hall : ∀ u rec, users₀.get u = some rec → OnePassword rec) :
    Along (step maxRefreshes) (fun s y => (s.step maxRefreshes y).OnePersona) (of users₀) actions ↔
      Along (step maxRefreshes) StoresDistinct (of users₀) actions := by
  have hstart : PersonaInv (of users₀) := ⟨hall, fun _ th hth => absurd hth.symm (Option.some_ne_none th)⟩
  exact Run.along_iff_of (fun _ _ hs hy => hs.step hy) (fun _ hs => hs.holds) (fun _ _ hs hq => hs.stored hq) hstart

theorem userRecord_onePassword (u : String) (rec : UserRecord openWrap) (h : rootAndBob.get u = some rec) : OnePassword rec := by
  rw [rootAndBob_get] at h
  split at h
  · exact Option.some.inj h ▸ onePassword_newSlots rfl
  · split at h
    · exact Option.some.inj h ▸ onePassword_newSlots rfl
    · exact absurd h nofun

/-- bob makes a persona -/
def bobPersona : List Action :=
  [.start 0 (.update "bob" (.createPersona 0 .User 1 [3] .User false someDraw)), .step 0 true, .step 0 true]

theorem one_password_iff_persona :
    Along (step 3) (fun s y => (s.step 3 y).OnePersona) (of rootAndBob) bobPersona := by
  refine (one_password_iff 3 rootAndBob bobPersona userRecord_onePassword).2 ⟨trivial, ?_, ?_, trivial⟩
  all_goals
    intro username x read record listed hth
    cases hth
  trivial

/-- and then changes his own password to the persona's -/
def samePassword : List Action :=
  bobPersona ++ [.start 0 (.update "bob" (.changePassword 0 0 [2] [3] [])), .step 0 true, .step 0 true]

theorem change_password_collides : ¬(run (step 3) (of rootAndBob) samePassword).OnePersona := by
  intro h
  have hget : ∃ rec, (run (step 3) (of rootAndBob) samePassword).users.get "bob" = some rec ∧
      unwrapAt rec [3] 0 = some ⟨[], .User, false⟩ ∧ unwrapAt rec [3] 1 = some ⟨[], .User, false⟩ := ⟨_, rfl, rfl, rfl⟩
  obtain ⟨rec, hrec, hzero, hone⟩ := hget
  exact absurd ((h "bob" rec hrec).1 [3] 0 1 _ _ hzero hone) (by decide)

end Accounts

end Y2q.Auth
