/-
What a session was admitted by.

A login tries the password on the record it reads first; the checks are of the record as it reads it again, which must have the same slots.
Kept with the identity is how many stores came before that second read, so the record that admitted a session can be named ever after.

- `recordAfter`: the record of a user after some of the stores.
- `AdmittedBy`: a password opened the slot in that record, for the session's persona, role and identity, and the record permitted the role.
- `AdmissionInv`: so it is of every session, and of every login and every switch in progress.
-/
import Mathlib.Tactic
import Y2q.Auth.Handlers
import Y2q.Auth.RecordUpdates

namespace Y2q.Auth

variable {W : SlotWrap}

/-- a password opens a slot for the persona, the role and the key, and the record permits the role -/
def Opens (rec : UserRecord W) (persona : ℕ) (role : Role) (sk : Bytes) : Prop :=
  ∃ pw slot payload, attemptUnwrap rec pw = some (slot, payload) ∧ admits payload rec = true ∧ persona = slot.1 ∧ role = payload.role ∧
    sk = payload.identitySk

theorem attemptUnwrap_congr {rec record : UserRecord W} {pw : Bytes} (hname : record.username = rec.username) (hkdf : record.kdf = rec.kdf)
    (hslots : record.slots = rec.slots) : attemptUnwrap record pw = attemptUnwrap rec pw := by
  have hunwrap : ∀ i, unwrapAt record pw i = unwrapAt rec pw i := by
    intro i
    rw [unwrapAt, unwrapAt, hname, hkdf, hslots]
  simp only [attemptUnwrap, hunwrap]

namespace Accounts

/-- the record of `u` after the stores of a log, without `last_login` -/
def recordAfter (users₀ : UserStore W) (u : String) (log : List (Stored W)) : Option (UserRecord W) :=
  log.foldl (fun rec e => if e.username = u then e.record.map (·.core) else rec) ((users₀.get u).map (·.core))

variable {users₀ : UserStore W} {u : String} {log log' : List (Stored W)}

theorem recordAfter_concat (e : Stored W) :
    recordAfter users₀ u (log ++ [e]) = if e.username = u then e.record.map (·.core) else recordAfter users₀ u log := by
  rw [recordAfter, List.foldl_append]
  rfl

theorem recordAfter_others (h : ∀ e ∈ log', e.username ≠ u) : recordAfter users₀ u (log ++ log') = recordAfter users₀ u log := by
  induction log' using List.reverseRecOn with
  | nil => rw [List.append_nil]
  | append_singleton log' e ih =>
    rw [← List.append_assoc, recordAfter_concat, if_neg (h e (List.mem_append_right _ List.mem_cons_self))]
    exact ih fun e' he' => h e' (List.mem_append_left _ he')

/-- admitted by the record after the first `readAt` stores -/
structure AdmittedBy (users₀ : UserStore W) (log : List (Stored W)) (username : String) (persona : ℕ) (role : Role)
    (identity : Identity) : Prop where
  read : identity.readAt ≤ log.length
  opens : ∃ rec, recordAfter users₀ username (log.take identity.readAt) = some rec ∧ Opens rec persona role identity.sk

theorem AdmittedBy.mono {username : String} {persona : ℕ} {role : Role} {identity : Identity}
    (h : AdmittedBy users₀ log username persona role identity) : AdmittedBy users₀ (log ++ log') username persona role identity where
  read := h.read.trans (List.length_append ▸ Nat.le_add_right _ _)
  opens := by
    rw [List.take_append_of_le_length h.read]
    exact h.opens

def ThreadAdmitted (users₀ : UserStore W) (log : List (Stored W)) : Thread W → Prop
  | .matched username snapshot slot payload _ _ => snapshot.username = username ∧ ∃ pw, attemptUnwrap snapshot pw = some (slot, payload)
  | .admitted a | .touched a | .inserted a | .switching a => AdmittedBy users₀ log a.username a.slot.1 a.payload.role a.identity
  | _ => True

def CallAdmitted (users₀ : UserStore W) (log : List (Stored W)) : Call Identity → Prop
  | .switching target .. => AdmittedBy users₀ log target.username target.newPersona target.newRole target.identitySk
  | _ => True

def RowAdmitted (users₀ : UserStore W) (log : List (Stored W)) (_ : Token) (info : SessionInfo Identity) : Prop :=
  AdmittedBy users₀ log info.username info.persona info.role info.identitySk

structure AdmissionInv (maxRefreshes : ℕ) (users₀ : UserStore W) (s : Accounts W) : Prop where
  issued : s.sessions.Issued maxRefreshes
  current : ∀ u, recordAfter users₀ u s.log = (s.users.get u).map (·.core)
  threads : ∀ i th, s.threads i = some th → ThreadAdmitted users₀ s.log th
  calls : ∀ i c, s.sessions.calls i = some c → CallAdmitted users₀ s.log c
  rows : s.sessions.Rows (RowAdmitted users₀ s.log) []

variable {s : Accounts W} {i maxRefreshes : ℕ} {x : Action}

theorem command_revokes (scope : Scope) : (scope.command : Command Identity).revokes = true := by
  unfold Scope.command
  split <;> rfl

/-- the event of a login's session -/
theorem eventOf_insert {new : SessionInfo Identity} (h : s.eventOf x = some (.insert new)) :
    ∃ i a, x = .step i true ∧ s.threads i = some (.touched a) ∧ new = a.session := by
  cases x with
  | start k r => cases h
  | client k c => cases h
  | clientStep k ok => cases h
  | step k ok =>
    obtain ⟨th, hth, hev⟩ := Option.bind_eq_some_iff.1 h
    cases th with
    | touched a =>
      simp only [threadEvent] at hev
      split at hev
      next hok =>
        subst hok
        cases hev
        exact ⟨k, a, rfl, hth, rfl⟩
      · cases hev
    | inserted a =>
      simp only [threadEvent] at hev
      split at hev
      · cases hev
      · split at hev <;> cases hev
    | _ => cases hev

/-- the event of a duress login's switch -/
theorem eventOf_switch {target : Switch Identity} (h : s.eventOf x = some (.start i (.switchUserToPersona target))) :
    ∃ j a, s.threads j = some (.inserted a) ∧ a.payload.revokeOtherSessions = true ∧ target = a.target := by
  cases x with
  | start k r => cases h
  | client k c =>
    cases c <;> cases h
  | clientStep k ok => cases h
  | step k ok =>
    obtain ⟨th, hth, hev⟩ := Option.bind_eq_some_iff.1 h
    cases th with
    | stored entry scope =>
      have hcommand : scope.command = Command.switchUserToPersona target := (Event.start.inj (Option.some.inj hev)).2
      have hrev := command_revokes scope
      rw [hcommand] at hrev
      cases hrev
    | touched a =>
      simp only [threadEvent] at hev
      split at hev <;> cases hev
    | inserted a =>
      simp only [threadEvent] at hev
      split at hev
      · cases hev
      · split at hev
        next hduress =>
          cases hev
          exact ⟨k, a, hth, hduress, rfl⟩
        · cases hev
    | _ => cases hev

/-! ## One step -/

theorem ThreadAdmitted.mono {th : Thread W} (h : ThreadAdmitted users₀ log th) : ThreadAdmitted users₀ (log ++ log') th := by
  cases th with
  | matched username snapshot slot payload expiresAt now => exact h
  | admitted a => exact AdmittedBy.mono h
  | touched a => exact AdmittedBy.mono h
  | inserted a => exact AdmittedBy.mono h
  | switching a => exact AdmittedBy.mono h
  | _ => trivial

theorem CallAdmitted.mono {c : Call Identity} (h : CallAdmitted users₀ log c) : CallAdmitted users₀ (log ++ log') c := by
  cases c with
  | switching target covered victims got => exact AdmittedBy.mono h
  | _ => trivial

theorem Effect.appends {users' : UserStore W} {th : Thread W} (h : Effect s th users' log') : ∃ more, log' = s.log ++ more := by
  cases h with
  | nothing => exact ⟨[], (List.append_nil _).symm⟩
  | touch a => exact ⟨[], (List.append_nil _).symm⟩
  | store username x read record listed => exact ⟨_, rfl⟩
  | add record => exact ⟨_, rfl⟩
  | delete username listed rec hrec => exact ⟨_, rfl⟩

theorem step_log (x : Action) : ∃ more, (s.step maxRefreshes x).log = s.log ++ more := by
  rcases @step_effect W s maxRefreshes x with ⟨-, hlog⟩ | ⟨i, ok, th, -, -, heff⟩
  · exact ⟨[], by rw [hlog, List.append_nil]⟩
  · exact heff.appends

theorem Effect.current {users' : UserStore W} {th : Thread W} (heff : Effect s th users' log')
    (h : ∀ u, recordAfter users₀ u s.log = (s.users.get u).map (·.core)) (u : String) :
    recordAfter users₀ u log' = (users'.get u).map (·.core) := by
  cases heff with
  | nothing => exact h u
  | touch a =>
    rw [h u, UserStore.get_updateLastLogin]
    split
    · rw [Option.map_map]
      rfl
    · rfl
  | store username x read record listed =>
    rw [recordAfter_concat, UserStore.get_upsert, h u]
    split <;> rfl
  | add record =>
    rw [recordAfter_concat, UserStore.get_upsert, h u]
    split <;> rfl
  | delete username listed rec hrec =>
    rw [recordAfter_concat, UserStore.get_delete, h u]
    split <;> rfl

theorem Next.threadAdmitted {th th' : Thread W} (h : Next s th th') (hth : ThreadAdmitted users₀ s.log th)
    (hcurrent : ∀ u, recordAfter users₀ u s.log = (s.users.get u).map (·.core)) : ThreadAdmitted users₀ s.log th' := by
  cases h with
  | waits => exact hth
  | login hget hopen => exact ⟨UserStore.username_of_get hget, _, hopen⟩
  | @admitted username snapshot fresh slot payload expiresAt now hget hkdf hslots hadmits =>
    obtain ⟨hname, pw, hopen⟩ := hth
    refine ⟨le_rfl, fresh.core, ?_, pw, slot, payload, ?_, hadmits, rfl, rfl, rfl⟩
    · change recordAfter users₀ username (s.log.take s.log.length) = some fresh.core
      rw [List.take_length, hcurrent, hget, Option.map_some]
    · rw [← hopen]
      exact attemptUnwrap_congr ((UserStore.username_of_get hget).trans hname.symm) hkdf hslots
  | touched => exact hth
  | inserted => exact hth
  | switching hduress => exact hth
  | _ => trivial

theorem AdmissionInv.of (users₀ : UserStore W) : AdmissionInv maxRefreshes users₀ (of users₀) where
  issued := Sessions.Issued.new
  current := fun u => rfl
  threads := fun i th hth => absurd hth.symm (Option.some_ne_none th)
  calls := fun i c hc => absurd hc.symm (Option.some_ne_none c)
  rows := ⟨fun t info ht => by simp [Accounts.of, Sessions.new] at ht, fun j old info e hj => absurd hj.symm (Option.some_ne_none _)⟩

theorem AdmissionInv.call_step (h : AdmissionInv maxRefreshes users₀ s) {j : ℕ} {c : Call Identity}
    (hc : (s.step maxRefreshes x).sessions.calls j = some c) : CallAdmitted users₀ s.log c := by
  rw [step_sessions] at hc
  cases he : s.eventOf x with
  | none =>
    rw [he] at hc
    exact h.calls j c hc
  | some e =>
    rw [he] at hc
    rcases Sessions.step_calls hc with hold | hgoes
    · exact h.calls j c hold
    · cases hgoes with
      | switch hidle =>
        obtain ⟨k, a, hth, -, rfl⟩ := eventOf_switch he
        exact h.threads k _ hth
      | skipped hcall =>
        have htarget := h.calls j _ hcall
        exact htarget
      | got hcall =>
        have htarget := h.calls j _ hcall
        exact htarget
      | switched hcall =>
        have htarget := h.calls j _ hcall
        exact htarget
      | _ => trivial

theorem AdmissionInv.newRow (h : AdmissionInv maxRefreshes users₀ s) {e : Event Identity} (he : s.eventOf x = some e) {t : Token}
    {info : SessionInfo Identity} (hnew : s.sessions.NewRow e t info) : RowAdmitted users₀ s.log t info := by
  cases hnew with
  | inserted new =>
    obtain ⟨i, a, -, hth, rfl⟩ := eventOf_insert he
    exact h.threads i _ hth
  | @refreshed k old held expiresAt hcall => exact h.rows.held k old held expiresAt hcall
  | @switched k target covered victims t old hcall =>
    obtain ⟨hcov, hsub, hgot⟩ := h.issued.call k _ hcall
    obtain ⟨t', rest, heq, hfits⟩ := hgot old rfl
    obtain ⟨rfl, -⟩ := List.cons.inj heq
    have hname : old.username = target.username :=
      Option.some.inj (hfits.1.symm.trans (hcov _ (hsub List.mem_cons_self)))
    have htarget : AdmittedBy users₀ s.log target.username target.newPersona target.newRole target.identitySk := h.calls k _ hcall
    rw [← hname] at htarget
    exact htarget

theorem AdmissionInv.step (h : AdmissionInv maxRefreshes users₀ s) (x : Action) : AdmissionInv maxRefreshes users₀ (s.step maxRefreshes x) := by
  obtain ⟨log', hlog⟩ := @step_log W s maxRefreshes x
  refine ⟨sessions_step_inv h.issued fun e _ => h.issued.step e, fun u => ?_, fun j th' hj => ?_, fun j c hc => ?_, ?_⟩
  · rcases @step_effect W s maxRefreshes x with ⟨husers, hsame⟩ | ⟨i, ok, th, -, -, heff⟩
    · rw [husers, hsame]
      exact h.current u
    · exact heff.current h.current u
  · rw [hlog]
    rcases step_threads hj with hold | ⟨r, rfl⟩ | ⟨ok, th, -, hth, hnext⟩
    · exact (h.threads j th' hold).mono
    · trivial
    · exact (hnext.threadAdmitted (h.threads j th hth) h.current).mono
  · rw [hlog]
    exact (h.call_step hc).mono
  · rw [hlog, step_sessions]
    have hmono : ∀ t info, RowAdmitted users₀ s.log t info → RowAdmitted users₀ (s.log ++ log') t info := fun t info hrow => AdmittedBy.mono hrow
    cases he : s.eventOf x with
    | none =>
      exact ⟨fun t info ht => (h.rows.live t info ht).imp (hmono t info) id, fun j old info e hj => hmono old info (h.rows.held j old info e hj)⟩
    | some e =>
      exact h.rows.step h.issued (fun t info _ hrow => hmono t info hrow) (fun t info hnew => Or.inl (hmono t info (h.newRow he hnew)))
        (Sessions.readsNone_nil e)

end Accounts

end Y2q.Auth
