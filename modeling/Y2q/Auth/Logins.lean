/-
Changes of an account against concurrent logins.

A change stores the record and then revokes the sessions of its scope. A login is admitted by the record it reads after the password hash,
and inserts its session some steps later; what is inserted or switched once the revocation has collected its victims escapes it. What a
session was admitted by is known from the number of stores that its login had seen.

- `Admitted`: the session has what a password opened in the record as it was then. `Stale`: it is of the scope, and was opened, or has its
  identity, from a login that had not seen the change.
- `BeatsLogins`: once a change has collected, no login that had not seen it inserts, no refresh carries a stale session over and no switch
  writes one; and at the collect no session opened through the slot acts as another persona.
- `change_beats_login`: along such runs no stale session is live once the change has returned.
-/
import Mathlib.Tactic
import Y2q.Core.Run
import Y2q.Auth.Admissions
import Y2q.Auth.Handlers
import Y2q.Auth.RecordUpdates
import Y2q.Auth.Refresh

namespace Y2q.Auth

open Run (Along run)

variable {W : SlotWrap}

/-- the change is for the persona -/
def Scope.Slot (scope : Scope) (persona : ℕ) : Prop := ∀ p, scope.persona = some p → persona = p

namespace Accounts

/-! ## Sessions that have not seen a change -/

/-- a login, or its switch, that had not seen the store `entry` -/
def StaleTarget (entry : ℕ) (scope : Scope) (target : Switch Identity) : Prop :=
  target.username = scope.username ∧ scope.Slot target.newPersona ∧ target.identitySk.readAt ≤ entry

/-- a session of the scope, other than the one that is kept and those refreshed from it -/
def Reaches (s : Accounts W) (scope : Scope) (t : Token) (info : SessionInfo Identity) : Prop :=
  info.username = scope.username ∧ ∀ k, scope.keep = some k → k ∉ s.sessions.line t

/-- its token was opened through the slot by a login that had not seen the store -/
def OldOpening (s : Accounts W) (entry : ℕ) (scope : Scope) (t : Token) : Prop :=
  ∃ o slot n, s.sessions.login t = some o ∧ s.opened o = some (slot, n) ∧ scope.Slot slot.1 ∧ n ≤ entry

/-- it acts with the identity of such a login -/
def OldIdentity (entry : ℕ) (scope : Scope) (info : SessionInfo Identity) : Prop :=
  scope.Slot info.persona ∧ info.identitySk.readAt ≤ entry

def Stale (s : Accounts W) (entry : ℕ) (scope : Scope) (t : Token) (info : SessionInfo Identity) : Prop :=
  s.Reaches scope t info ∧ (OldIdentity entry scope info ∨ s.OldOpening entry scope t)

/-- a change that has collected the sessions to revoke, with those it has yet to reach -/
inductive Collected (s : Accounts W) : ℕ → Scope → List Token → Prop where
  | revoking {i entry : ℕ} {scope : Scope} {covered victims : List Token} (hth : s.threads i = some (.revoking entry scope))
    (hcall : s.sessions.calls (callOf i) = some (.revoking covered victims)) : Collected s entry scope victims
  | revoked {i entry : ℕ} {scope : Scope} (hth : s.threads i = some (.revoking entry scope))
    (hcall : s.sessions.calls (callOf i) = none) : Collected s entry scope []
  | returned {entry : ℕ} {scope : Scope} (h : (entry, scope) ∈ s.returned) : Collected s entry scope []

/-- no session but the pending is stale for a change that has collected -/
def Beaten (s : Accounts W) : Prop := ∀ entry scope pending, s.Collected entry scope pending →
  ∀ t info, s.sessions.inner[t]? = some info → s.Stale entry scope t info → t ∈ pending

/-! ## The condition -/

/-- no change that has collected is one that the login had not seen -/
def InsertsInTime (s : Accounts W) (a : Admission) : Prop := ∀ entry scope pending, s.Collected entry scope pending →
  ¬StaleTarget entry scope a.target

def RefreshesInTime (s : Accounts W) (j : ℕ) : Prop := ∀ old info expiresAt, s.sessions.calls j = some (.reissued old info expiresAt) →
  ∀ entry scope pending, s.Collected entry scope pending → ¬s.Stale entry scope old info

def SwitchesInTime (s : Accounts W) (j : ℕ) : Prop := ∀ target covered k victims old,
  s.sessions.calls j = some (.switching target covered (k :: victims) (some old)) →
    ∀ entry scope pending, s.Collected entry scope pending → k ∉ pending → ¬s.Stale entry scope k (target.switched old)

/-- what was opened through the slot acts as its persona -/
def CollectsAll (s : Accounts W) (entry : ℕ) (scope : Scope) : Prop := ∀ t info, s.sessions.inner[t]? = some info →
  s.Stale entry scope t info → scope.Slot info.persona

def WritesInTime (s : Accounts W) (j : ℕ) : Prop := s.RefreshesInTime j ∧ s.SwitchesInTime j

def BeatsLogins (s : Accounts W) : Action → Prop
  | .step i ok => (ok = true → (∀ a, s.threads i = some (.touched a) → s.InsertsInTime a) ∧ s.WritesInTime (callOf i)) ∧
      ∀ entry scope, s.threads i = some (.stored entry scope) → s.CollectsAll entry scope
  | .clientStep j ok => ok = true → s.WritesInTime (clientOf j)
  | _ => True

/-! ## Threads and their calls -/

/-- the call that a thread waits for -/
def Drives : Thread W → Call Identity → Prop
  | .revoking .., .revoking .. => True
  | .evicting, .revoking .. => True
  | .switching _, .switching .. => True
  | _, _ => False

variable {s : Accounts W} {i j maxRefreshes entry : ℕ} {scope : Scope} {pending : List Token} {x : Action} {e : Event Identity}

theorem callOf_inj (h : callOf i = callOf j) : i = j := by
  simp only [callOf] at h
  omega

theorem clientOf_ne : clientOf i ≠ callOf j := by
  simp only [clientOf, callOf]
  omega

/-- only a thread itself takes a step of its call -/
theorem eventOf_call (h : s.eventOf x = some e) (he : Sessions.callIn e = some (callOf i)) :
    ∃ ok th, x = .step i ok ∧ s.threads i = some th ∧ s.threadEvent i ok th = some e := by
  cases x with
  | start k r => cases h
  | client k c =>
    cases h
    exact absurd (Option.some.inj he) clientOf_ne
  | clientStep k ok =>
    cases h
    exact absurd (Option.some.inj he) clientOf_ne
  | step k ok =>
    obtain ⟨th, hth, hev⟩ := Option.bind_eq_some_iff.1 h
    have hk : k = i := by
      cases th with
      | stored entry scope => cases hev; exact callOf_inj (Option.some.inj he)
      | revoking entry scope => cases hev; exact callOf_inj (Option.some.inj he)
      | switching a => cases hev; exact callOf_inj (Option.some.inj he)
      | evicting => cases hev; exact callOf_inj (Option.some.inj he)
      | touched a =>
        simp only [threadEvent] at hev
        split at hev
        · cases hev
          cases he
        · cases hev
      | inserted a =>
        simp only [threadEvent] at hev
        split at hev
        · cases hev
          exact callOf_inj (Option.some.inj he)
        · split at hev
          · cases hev
            exact callOf_inj (Option.some.inj he)
          · cases hev
      | _ => cases hev
    subst hk
    exact ⟨ok, th, rfl, hth, hev⟩

theorem step_callOf (hx : ∀ ok, x ≠ .step i ok) : (s.step maxRefreshes x).sessions.calls (callOf i) = s.sessions.calls (callOf i) := by
  rw [step_sessions]
  cases he : s.eventOf x with
  | none => rfl
  | some e =>
    refine Sessions.step_other fun hcall => ?_
    obtain ⟨ok, th, hxi, -⟩ := eventOf_call he hcall
    exact hx ok hxi

theorem step_thread {th : Thread W} (hth : s.threads i = some th) (hx : ∀ ok, x ≠ .step i ok) :
    (s.step maxRefreshes x).threads i = some th := by
  cases x with
  | start k r =>
    simp only [step]
    split
    · exact hth
    next hidle =>
      have hne : i ≠ k := by
        intro heq
        rw [← heq, hth] at hidle
        exact absurd hidle (Option.some_ne_none th)
      rw [setThread_threads, if_neg hne, hth]
  | step k ok =>
    have hne : i ≠ k := fun heq => hx ok (heq ▸ rfl)
    simp only [step]
    split
    · exact hth
    next th' _ => rw [stepThread_other th' hne, hth]
  | client k c => exact hth
  | clientStep k ok => exact hth

def Driven (s : Accounts W) : Prop := ∀ i c, s.sessions.calls (callOf i) = some c → ∃ th, s.threads i = some th ∧ Drives th c

/-- a call that goes on is for the same thread -/
theorem drives_goes {th : Thread W} {ok : Bool} {c : Call Identity} (h : s.Driven) (hth : s.threads i = some th)
    (hgoes : s.sessions.Goes maxRefreshes (.step (callOf i) ok) (callOf i) c) : Drives th c := by
  have hold : ∀ d, s.sessions.calls (callOf i) = some d → Drives th d := by
    intro d hd
    obtain ⟨th', hth', hdrives⟩ := h i d hd
    rw [hth] at hth'
    exact Option.some.inj hth' ▸ hdrives
  cases hgoes with
  | refreshed hcall => cases th <;> exact absurd (hold _ hcall) id
  | revoked hcall =>
    have hdrives := hold _ hcall
    cases th <;> trivial
  | expired hcall => cases th <;> exact absurd (hold _ hcall) id
  | skipped hcall =>
    have hdrives := hold _ hcall
    cases th <;> trivial
  | got hcall =>
    have hdrives := hold _ hcall
    cases th <;> trivial
  | switched hcall =>
    have hdrives := hold _ hcall
    cases th <;> trivial

theorem not_expires {c : Command Identity} (hc : c.revokes = true) : c.expires = false := by
  cases c <;> trivial

/-- a revocation that a thread begins -/
theorem goes_start {c : Command Identity} {d : Call Identity} (hc : c.revokes = true)
    (hgoes : s.sessions.Goes maxRefreshes (.start (callOf i) c) (callOf i) d) :
    d = .revoking (s.sessions.collect c.covers) (s.sessions.collect c.covers) := by
  cases hgoes with
  | reissue => exact absurd hc nofun
  | expire hidle hexp => exact absurd (hexp.symm.trans (not_expires hc)) nofun
  | revoke => rfl
  | switch => exact absurd hc nofun

/-- a thread that waits for its call stays until that has returned -/
theorem await_some {ok : Bool} {s' : Accounts W} {c : Call Identity} (hs' : s'.sessions = s.sessions)
    (h : (s.await maxRefreshes i ok s').sessions.calls (callOf i) = some c) :
    (s.await maxRefreshes i ok s').threads = s.threads ∧
      (s.sessions.calls (callOf i) = some c ∨ s.sessions.Goes maxRefreshes (.step (callOf i) ok) (callOf i) c) := by
  have hsessions := @await_sessions W s i maxRefreshes ok s' hs'
  rw [hsessions] at h
  refine ⟨?_, Sessions.step_calls h⟩
  rw [await]
  split
  next hidle =>
    simp only [Sessions.step, hidle] at h
    cases h
  next => rfl

theorem Driven.step (h : s.Driven) : (s.step maxRefreshes x).Driven := by
  intro i c hc
  by_cases hx : ∀ ok, x ≠ .step i ok
  · rw [step_callOf hx] at hc
    obtain ⟨th, hth, hdrives⟩ := h i c hc
    exact ⟨th, step_thread hth hx, hdrives⟩
  · simp only [ne_eq, not_forall, not_not] at hx
    obtain ⟨ok, rfl⟩ := hx
    simp only [Accounts.step] at hc ⊢
    split at hc
    next hidle =>
      obtain ⟨th, hth, -⟩ := h i c hc
      rw [hidle] at hth
      cases hth
    next th hth =>
      have hwaits : ∀ s' : Accounts W, s'.sessions = s.sessions →
          (s.await maxRefreshes i ok s').sessions.calls (callOf i) = some c →
          ∃ th', (s.await maxRefreshes i ok s').threads i = some th' ∧ Drives th' c := by
        intro s' hs' hcall
        obtain ⟨hthreads, hfrom⟩ := await_some hs' hcall
        refine ⟨th, by rw [hthreads, hth], ?_⟩
        rcases hfrom with hsame | hgoes
        · obtain ⟨th', hth', hdrives⟩ := h i c hsame
          rw [hth] at hth'
          exact Option.some.inj hth' ▸ hdrives
        · exact drives_goes h hth hgoes
      -- no other thread has a call in progress
      have hnone : (∀ d, ¬Drives th d) → s.sessions.calls (callOf i) = none := by
        intro hnot
        by_contra hsome
        obtain ⟨d, hd⟩ := Option.ne_none_iff_exists'.1 hsome
        obtain ⟨th', hth', hdrives⟩ := h i d hd
        rw [hth] at hth'
        exact hnot d (Option.some.inj hth' ▸ hdrives)
      have hidle : (∀ d, ¬Drives th d) → ∀ s' : Accounts W, s'.sessions.calls (callOf i) = s.sessions.calls (callOf i) →
          s'.sessions.calls (callOf i) = some c → ∃ th', s'.threads i = some th' ∧ Drives th' c := by
        intro hnot s' hs' hcall
        rw [hs', hnone hnot] at hcall
        cases hcall
      cases th with
      | revoking entry scope => exact hwaits _ rfl hc
      | switching a => exact hwaits _ rfl hc
      | evicting => exact hwaits _ rfl hc
      | stored entry scope =>
        refine ⟨_, setThread_self, ?_⟩
        rcases Sessions.step_calls hc with hold | hgoes
        · rw [hnone fun d hd => hd] at hold
          cases hold
        · rw [goes_start (command_revokes scope) hgoes]
          trivial
      | inserted a =>
        simp only [stepThread] at hc ⊢
        split at hc
        next hgone =>
          refine ⟨_, setThread_self, ?_⟩
          rcases Sessions.step_calls hc with hold | hgoes
          · rw [hnone fun d hd => hd] at hold
            cases hold
          · rw [goes_start rfl hgoes]
            trivial
        next =>
          split at hc
          next hduress =>
            rw [if_pos hduress]
            refine ⟨_, setThread_self, ?_⟩
            rcases Sessions.step_calls hc with hold | hgoes
            · rw [hnone fun d hd => hd] at hold
              cases hold
            · cases hgoes with
              | expire hidle' hexp => cases hexp
              | revoke hidle' hrev => cases hrev
              | switch => trivial
          next =>
            change s.sessions.calls (callOf i) = some c at hc
            rw [hnone fun d hd => hd] at hc
            cases hc
      | touched a =>
        refine hidle (fun d hd => hd) _ ?_ hc
        cases ok <;> rfl
      | waiting r => exact hidle (fun d hd => hd) _ (by rw [stepThread, begin_sessions]) hc
      | storing username x read record listed => exact hidle (fun d hd => hd) _ rfl hc
      | adding record => exact hidle (fun d hd => hd) _ rfl hc
      | _ =>
        refine hidle (fun d hd => hd) _ ?_ hc
        rw [stepThread_sessions]
        rfl

/-! ## What a step leaves stale -/

variable {t : Token} {info : SessionInfo Identity}

/-- a login's token is new -/
theorem stepThread_opened (ok : Bool) (th : Thread W) :
    (s.stepThread maxRefreshes i ok th).opened = s.opened ∨
      ∃ a, th = .touched a ∧ (s.stepThread maxRefreshes i ok th).opened =
        Function.update s.opened s.sessions.issued.length (some (a.slot, a.readAt)) := by
  have hawait : ∀ s' : Accounts W, s'.opened = s.opened → (s.await maxRefreshes i ok s').opened = s.opened := by
    intro s' h
    rw [await]
    split
    · exact h
    · rfl
  cases th with
  | waiting r =>
    refine Or.inl ?_
    cases r with
    | update username x => cases x <;> simp only [stepThread, begin] <;> (try split) <;> (try split) <;> rfl
    | _ =>
      simp only [stepThread, begin]
      repeat' split
      all_goals rfl
  | revoking entry scope => exact Or.inl (hawait _ rfl)
  | switching a => exact Or.inl (hawait _ rfl)
  | evicting => exact Or.inl (hawait _ rfl)
  | touched a =>
    cases ok with
    | true => exact Or.inr ⟨a, rfl, rfl⟩
    | false => exact Or.inl rfl
  | storing username x read record listed => exact Or.inl rfl
  | adding record => exact Or.inl rfl
  | stored entry scope => exact Or.inl rfl
  | _ =>
    refine Or.inl ?_
    simp only [stepThread]
    repeat' split
    all_goals rfl

theorem opened_step (x : Action) (ht : t < s.sessions.issued.length) : (s.step maxRefreshes x).opened t = s.opened t := by
  cases x with
  | start k r =>
    simp only [step]
    split <;> rfl
  | step k ok =>
    simp only [step]
    split
    · rfl
    next th _ =>
      rcases @stepThread_opened W s k maxRefreshes ok th with heq | ⟨a, -, heq⟩
      · rw [heq]
      · rw [heq, Function.update_of_ne ht.ne]
  | client k c => rfl
  | clientStep k ok => rfl

theorem line_step (x : Action) (ht : t < s.sessions.issued.length) : (s.step maxRefreshes x).sessions.line t = s.sessions.line t := by
  rw [step_sessions]
  cases s.eventOf x with
  | none => rfl
  | some e => exact Sessions.line_step e ht

theorem login_lt (hs : s.sessions.Issued maxRefreshes) (ht : t < s.sessions.issued.length) {o : Token}
    (ho : s.sessions.login t = some o) : o < s.sessions.issued.length :=
  ((hs.line t ht).2.2 o (List.mem_of_getLast? ho)).1.trans_lt ht

/-- the tokens there are do not become stale -/
theorem stale_step (hs : s.sessions.Issued maxRefreshes) (ht : t < s.sessions.issued.length)
    (h : (s.step maxRefreshes x).Stale entry scope t info) : s.Stale entry scope t info := by
  obtain ⟨⟨huser, hkeep⟩, hold⟩ := h
  rw [line_step x ht] at hkeep
  refine ⟨⟨huser, hkeep⟩, hold.imp id fun hopening => ?_⟩
  obtain ⟨o, slot, n, hlogin, hopened, hslot, hn⟩ := hopening
  rw [Sessions.login, line_step x ht] at hlogin
  rw [opened_step x (login_lt hs ht hlogin)] at hopened
  exact ⟨o, slot, n, hlogin, hopened, hslot, hn⟩

/-- the session of a login that has seen the store -/
theorem not_stale_insert {a : Admission} (hth : s.threads i = some (.touched a)) (hlate : ¬StaleTarget entry scope a.target) :
    ¬(s.step maxRefreshes (.step i true)).Stale entry scope s.sessions.issued.length a.session := by
  have hsessions : (s.step maxRefreshes (.step i true)).sessions = s.sessions.step maxRefreshes (.insert a.session) := by
    simp only [step, hth]
    rfl
  have hopened : (s.step maxRefreshes (.step i true)).opened s.sessions.issued.length = some (a.slot, a.readAt) := by
    simp only [step, hth]
    exact Function.update_self ..
  intro h
  obtain ⟨⟨huser, -⟩, hold⟩ := h
  rcases hold with ⟨hslot, hread⟩ | ⟨o, slot, n, hlogin, ho, hslot, hn⟩
  · exact hlate ⟨huser, hslot, hread⟩
  · rw [Sessions.login, hsessions, Sessions.line_insert, List.getLast?_singleton, Option.some.injEq] at hlogin
    rw [← hlogin, hopened] at ho
    cases ho
    exact hlate ⟨huser, hslot, hn⟩

/-- a refreshed token is stale if the old one is -/
theorem stale_refreshed {k expiresAt refreshCount : ℕ} {old : Token} (hs : s.sessions.Issued maxRefreshes)
    (he : s.eventOf x = some (.step k true)) (hcall : s.sessions.calls k = some (.reissued old info expiresAt))
    (h : (s.step maxRefreshes x).Stale entry scope s.sessions.issued.length
      { info with expiresAt := expiresAt, refreshCount := refreshCount }) : s.Stale entry scope old info := by
  have hold := (hs.call k _ hcall).1.lt
  have hline : (s.step maxRefreshes x).sessions.line s.sessions.issued.length = s.sessions.issued.length :: s.sessions.line old := by
    rw [step_sessions, he]
    exact @Sessions.line_refreshed Identity s.sessions info k maxRefreshes old expiresAt hcall
  obtain ⟨⟨huser, hkeep⟩, hstale⟩ := h
  refine ⟨⟨huser, fun tok htok hmem => ?_⟩, hstale.imp id fun hopening => ?_⟩
  · refine hkeep tok htok ?_
    rw [hline]
    exact List.mem_cons_of_mem _ hmem
  · obtain ⟨o, slot, n, hlogin, hopened, hslot, hn⟩ := hopening
    rw [Sessions.login, hline, List.getLast?_cons_of_ne_nil (hs.line old hold).1] at hlogin
    rw [opened_step x (login_lt hs hold hlogin)] at hopened
    exact ⟨o, slot, n, hlogin, hopened, hslot, hn⟩

/-! ## What a change has collected -/

theorem stepThread_returned (ok : Bool) (th : Thread W) :
    (s.stepThread maxRefreshes i ok th).returned = s.returned ∨
      ∃ entry scope, th = .revoking entry scope ∧ s.sessions.calls (callOf i) = none ∧
        (s.stepThread maxRefreshes i ok th).returned = (entry, scope) :: s.returned := by
  have hawait : ∀ s' : Accounts W, s'.returned = s.returned → (s.await maxRefreshes i ok s').returned = s.returned := by
    intro s' h
    rw [await]
    split
    · exact h
    · rfl
  cases th with
  | waiting r =>
    refine Or.inl ?_
    cases r with
    | update username x => cases x <;> simp only [stepThread, begin] <;> (try split) <;> (try split) <;> rfl
    | _ =>
      simp only [stepThread, begin]
      repeat' split
      all_goals rfl
  | revoking entry scope =>
    simp only [stepThread, await]
    split
    next hidle => exact Or.inr ⟨entry, scope, rfl, hidle, rfl⟩
    next => exact Or.inl rfl
  | switching a => exact Or.inl (hawait _ rfl)
  | evicting => exact Or.inl (hawait _ rfl)
  | touched a => cases ok <;> exact Or.inl rfl
  | storing username x read record listed => exact Or.inl rfl
  | adding record => exact Or.inl rfl
  | stored entry scope => exact Or.inl rfl
  | _ =>
    refine Or.inl ?_
    simp only [stepThread]
    repeat' split
    all_goals rfl

theorem step_returned (h : (entry, scope) ∈ (s.step maxRefreshes x).returned) :
    (entry, scope) ∈ s.returned ∨ ∃ i, s.threads i = some (.revoking entry scope) ∧ s.sessions.calls (callOf i) = none := by
  cases x with
  | start k r =>
    simp only [step] at h
    split at h <;> exact Or.inl h
  | client k c => exact Or.inl h
  | clientStep k ok => exact Or.inl h
  | step k ok =>
    simp only [step] at h
    split at h
    · exact Or.inl h
    next th hth =>
      rcases @stepThread_returned W s k maxRefreshes ok th with heq | ⟨entry', scope', rfl, hidle, heq⟩
      · exact Or.inl (heq ▸ h)
      · rw [heq] at h
        rcases List.mem_cons.1 h with hnew | hold
        · obtain ⟨rfl, rfl⟩ := Prod.mk.inj hnew
          exact Or.inr ⟨k, hth, hidle⟩
        · exact Or.inl hold

/-- where the pending sessions of a change come from -/
inductive Collects (maxRefreshes : ℕ) (s : Accounts W) (x : Action) (entry : ℕ) (scope : Scope) (pending : List Token) : Prop where
  | collects {i : ℕ} {ok : Bool} (hx : x = .step i ok) (hth : s.threads i = some (.stored entry scope))
    (hpending : pending = s.sessions.collect (scope.command : Command Identity).covers)
  | stays (h : s.Collected entry scope pending)
  | drops {t : Token} (h : s.Collected entry scope (t :: pending)) (hgone : (s.step maxRefreshes x).sessions.inner[t]? = none)

theorem sessions_revoking {ok : Bool} (hth : s.threads i = some (.revoking entry scope)) :
    (s.step maxRefreshes (.step i ok)).sessions = s.sessions.step maxRefreshes (.step (callOf i) ok) := by
  rw [step_sessions, eventOf, hth]
  rfl

theorem sessions_stored {ok : Bool} (hth : s.threads i = some (.stored entry scope)) :
    (s.step maxRefreshes (.step i ok)).sessions = s.sessions.step maxRefreshes (.start (callOf i) scope.command) := by
  rw [step_sessions, eventOf, hth]
  rfl

/-- a revocation takes one victim, or returns -/
theorem revoking_step {ok : Bool} {c : Option (Call Identity)} (h : s.Driven) (hth : s.threads i = some (.revoking entry scope))
    (hcall : (s.step maxRefreshes (.step i ok)).sessions.calls (callOf i) = c) :
    (c = none ∧ s.Collected entry scope []) ∨ ∃ covered victims t, c = some (.revoking covered victims) ∧
      s.Collected entry scope (t :: victims) ∧ (s.step maxRefreshes (.step i ok)).sessions.inner[t]? = none := by
  rw [sessions_revoking hth] at hcall ⊢
  cases hold : s.sessions.calls (callOf i) with
  | none =>
    simp only [Sessions.step, hold] at hcall
    exact Or.inl ⟨hcall.symm, .revoked hth hold⟩
  | some d =>
    obtain ⟨th, hth', hdrives⟩ := h i d hold
    rw [hth] at hth'
    cases hth'
    cases d with
    | revoking covered victims =>
      simp only [Sessions.step, hold] at hcall
      cases victims with
      | nil =>
        rw [Sessions.stepCall, Sessions.setCall_calls, if_pos rfl] at hcall
        exact Or.inl ⟨hcall.symm, .revoking hth hold⟩
      | cons t victims =>
        rw [Sessions.stepCall, Sessions.setCall_calls, if_pos rfl] at hcall
        exact Or.inr ⟨covered, victims, t, hcall.symm, .revoking hth hold, Sessions.step_revoking hold⟩
    | _ => exact absurd hdrives id

theorem stored_step {ok : Bool} (h : s.Driven) (hth : s.threads i = some (.stored entry scope)) :
    ∃ victims, victims = s.sessions.collect (scope.command : Command Identity).covers ∧
      (s.step maxRefreshes (.step i ok)).sessions.calls (callOf i) = some (.revoking victims victims) := by
  have hidle : s.sessions.calls (callOf i) = none := by
    by_contra hsome
    obtain ⟨d, hd⟩ := Option.ne_none_iff_exists'.1 hsome
    obtain ⟨th, hth', hdrives⟩ := h i d hd
    rw [hth] at hth'
    cases hth'
    exact hdrives
  refine ⟨_, rfl, ?_⟩
  have hstart : ∀ c : Command Identity, c.revokes = true →
      (s.sessions.step maxRefreshes (.start (callOf i) c)).calls (callOf i) =
        some (.revoking (s.sessions.collect c.covers) (s.sessions.collect c.covers)) := by
    intro c hc
    simp only [Sessions.step, hidle]
    cases c <;> first | exact absurd hc Bool.false_ne_true | exact Function.update_self ..
  rw [sessions_stored hth]
  exact hstart _ (command_revokes scope)

theorem collected_step (h : s.Driven) (hc : (s.step maxRefreshes x).Collected entry scope pending) :
    Collects maxRefreshes s x entry scope pending := by
  -- a thread that revokes, by itself or not
  have hthread : ∀ i, (s.step maxRefreshes x).threads i = some (.revoking entry scope) → ∀ c,
      (s.step maxRefreshes x).sessions.calls (callOf i) = c → (c = none ∧ pending = [] ∨ ∃ covered, c = some (.revoking covered pending)) →
      Collects maxRefreshes s x entry scope pending := by
    intro i hth' c hcall hpending
    have hstays : s.threads i = some (.revoking entry scope) → Collects maxRefreshes s x entry scope pending := by
      intro hth
      by_cases hx : ∀ ok, x ≠ .step i ok
      · rw [step_callOf hx] at hcall
        rcases hpending with ⟨rfl, rfl⟩ | ⟨covered, rfl⟩
        · exact .stays (.revoked hth hcall)
        · exact .stays (.revoking hth hcall)
      · simp only [ne_eq, not_forall, not_not] at hx
        obtain ⟨ok, rfl⟩ := hx
        rcases revoking_step h hth hcall with ⟨hnone, hcol⟩ | ⟨covered, victims, t, hsome, hcol, hgone⟩
        · rcases hpending with ⟨-, rfl⟩ | ⟨covered', hcovered⟩
          · exact .stays hcol
          · exact absurd (hnone.symm.trans hcovered) nofun
        · rcases hpending with ⟨hnone, -⟩ | ⟨covered', hcovered⟩
          · exact absurd (hsome.symm.trans hnone) nofun
          · cases hsome.symm.trans hcovered
            exact .drops hcol hgone
    rcases step_threads hth' with hold | ⟨r, hr⟩ | ⟨ok, th, rfl, hth, hnext⟩
    · exact hstays hold
    · exact absurd hr nofun
    · cases hnext with
      | waits => exact hstays hth
      | revoking =>
        obtain ⟨victims, hvictims, hsome⟩ := @stored_step W s i maxRefreshes entry scope ok h hth
        rcases hpending with ⟨hnone, -⟩ | ⟨covered, hcovered⟩
        · exact absurd (hsome.symm.trans (hcall.trans hnone)) nofun
        · cases hsome.symm.trans (hcall.trans hcovered)
          exact .collects rfl hth hvictims
  cases hc with
  | revoking hth hcall => exact hthread _ hth _ hcall (Or.inr ⟨_, rfl⟩)
  | revoked hth hcall => exact hthread _ hth _ hcall (Or.inl ⟨rfl, rfl⟩)
  | returned hret =>
    rcases step_returned hret with hold | ⟨i, hth, hidle⟩
    · exact .stays (.returned hold)
    · exact .stays (.revoked hth hidle)

/-! ## No stale session -/

theorem step_row (h : (s.step maxRefreshes x).sessions.inner[t]? = some info) :
    s.sessions.inner[t]? = some info ∨ ∃ e, s.eventOf x = some e ∧ s.sessions.NewRow e t info := by
  rw [step_sessions] at h
  cases he : s.eventOf x with
  | none =>
    rw [he] at h
    exact Or.inl h
  | some e =>
    rw [he] at h
    exact (Sessions.step_row h).imp id fun hnew => ⟨e, rfl, hnew⟩

theorem BeatsLogins.writes {k : ℕ} (h : s.BeatsLogins x) (he : s.eventOf x = some (.step k true)) : s.WritesInTime k := by
  cases x with
  | start i r => cases he
  | client j c => cases he
  | clientStep j ok =>
    cases he
    exact h rfl
  | step i ok =>
    obtain ⟨th, hth, hev⟩ := Option.bind_eq_some_iff.1 he
    have hcall : (∃ entry scope, th = .revoking entry scope) ∨ (∃ a, th = .switching a) ∨ th = .evicting → k = callOf i ∧ ok = true := by
      intro hwaits
      rcases hwaits with ⟨entry, scope, rfl⟩ | ⟨a, rfl⟩ | rfl
      all_goals
        cases hev
        exact ⟨rfl, rfl⟩
    have hwaits : (∃ entry scope, th = .revoking entry scope) ∨ (∃ a, th = .switching a) ∨ th = .evicting := by
      cases th with
      | revoking entry scope => exact Or.inl ⟨entry, scope, rfl⟩
      | switching a => exact Or.inr (Or.inl ⟨a, rfl⟩)
      | evicting => exact Or.inr (Or.inr rfl)
      | touched a =>
        simp only [threadEvent] at hev
        split at hev <;> cases hev
      | inserted a =>
        simp only [threadEvent] at hev
        split at hev
        · cases hev
        · split at hev <;> cases hev
      | _ => cases hev
    obtain ⟨rfl, hok⟩ := hcall hwaits
    exact (h.1 hok).2

theorem command_covers (huser : info.username = scope.username) (hslot : scope.Slot info.persona)
    (hkeep : ∀ k, scope.keep = some k → t ≠ k) : (scope.command : Command Identity).covers t info = true := by
  unfold Scope.command
  split
  next => exact decide_eq_true huser
  next p hp _ => simp only [Command.covers, huser, hslot p hp, decide_true, Bool.and_self]
  next p k hp hk =>
    simp only [Command.covers, huser, hslot p hp, decide_true, Bool.and_self, Bool.true_and]
    exact decide_eq_true (hkeep k hk)

theorem Beaten.step (h : s.Beaten) (hs : s.sessions.Issued maxRefreshes) (hline : ∀ t < s.sessions.issued.length, t ∈ s.sessions.line t)
    (hdriven : s.Driven) (hx : s.BeatsLogins x) : (s.step maxRefreshes x).Beaten := by
  intro entry scope pending hcollected t info hrow hstale
  have hlive : s.sessions.inner[t]? = some info → s.Stale entry scope t info := fun hinfo => stale_step hs (hs.row t info hinfo).lt hstale
  have hold : ∀ victims, s.Collected entry scope victims → t ∈ victims := by
    intro victims hcol
    rcases step_row hrow with hinfo | ⟨e, he, hnew⟩
    · exact h entry scope victims hcol t info hinfo (hlive hinfo)
    · cases hnew with
      | inserted new =>
        obtain ⟨i, a, rfl, hth, rfl⟩ := eventOf_insert he
        exact absurd hstale (not_stale_insert hth ((hx.1 rfl).1 a hth entry scope victims hcol))
      | @refreshed k old held expiresAt hcall =>
        exact absurd (stale_refreshed hs he hcall hstale) ((hx.writes he).1 old held expiresAt hcall entry scope victims hcol)
      | @switched k target covered rest t old hcall =>
        obtain ⟨-, -, hgot⟩ := hs.call k _ hcall
        obtain ⟨t', rest', heq, hfits⟩ := hgot old rfl
        obtain ⟨rfl, -⟩ := List.cons.inj heq
        by_contra hmem
        exact (hx.writes he).2 target covered _ rest old hcall entry scope victims hcol hmem (stale_step hs hfits.lt hstale)
  cases collected_step hdriven hcollected with
  | stays hcol => exact hold pending hcol
  | drops hcol hgone =>
    rcases List.mem_cons.1 (hold _ hcol) with rfl | hmem
    · rw [hgone] at hrow
      cases hrow
    · exact hmem
  | @collects i ok hxi hth hpending =>
    subst hxi
    have hinfo : s.sessions.inner[t]? = some info := by
      rcases step_row hrow with hinfo | ⟨e, he, hnew⟩
      · exact hinfo
      · rw [eventOf, hth] at he
        cases he
        cases hnew
    have hwas := hlive hinfo
    rw [hpending]
    refine Sessions.mem_collect.2 ⟨info, hinfo, command_covers hwas.1.1 (hx.2 entry scope hth t info hinfo hwas) fun k hk heq => ?_⟩
    exact hwas.1.2 k hk (heq ▸ hline t (hs.row t info hinfo).lt)

/-! ## The entry of a change -/

def Logged (log : List (Stored W)) (entry : ℕ) (scope : Scope) : Prop := ∃ e, log[entry]? = some e ∧ e.username = scope.username

theorem Logged.append {log log' : List (Stored W)} (h : Logged log entry scope) : Logged (log ++ log') entry scope := by
  obtain ⟨e, he, hname⟩ := h
  exact ⟨e, by rw [List.getElem?_append_left (List.getElem?_eq_some_iff.1 he).1, he], hname⟩

theorem logged_concat {log : List (Stored W)} {e : Stored W} (h : e.username = scope.username) :
    Logged (log ++ [e]) log.length scope := ⟨e, List.getElem?_concat_length, h⟩

def ThreadLogged (log : List (Stored W)) : Thread W → Prop
  | .stored entry scope | .revoking entry scope => Logged log entry scope
  | _ => True

theorem Update.scope_username {x : Update} {username : String} (h : x.scope username = some scope) : scope.username = username := by
  cases x <;> cases h <;> rfl

structure LogInv (s : Accounts W) : Prop where
  computed : ∀ i th, s.threads i = some th → Computed th
  threads : ∀ i th, s.threads i = some th → ThreadLogged s.log th
  returned : ∀ entry scope, (entry, scope) ∈ s.returned → Logged s.log entry scope

/-- the log is extended, then the change is done -/
theorem LogInv.thread {ok : Bool} {th th' : Thread W} (h : LogInv s) (hth : s.threads i = some th)
    (hth' : (s.step maxRefreshes (.step i ok)).threads i = some th') (hnext : Next s th th') :
    ThreadLogged (s.step maxRefreshes (.step i ok)).log th' := by
  obtain ⟨more, hlog⟩ := @step_log W s maxRefreshes (.step i ok)
  cases hnext with
  | waits =>
    rw [hlog]
    have hold := h.threads i th hth
    cases th with
    | stored entry scope => exact Logged.append hold
    | revoking entry scope => exact Logged.append hold
    | _ => trivial
  | revoking =>
    rw [hlog]
    exact Logged.append (h.threads i _ hth)
  | @stored username x read record listed scope hscope =>
    obtain ⟨hread, happly⟩ := h.computed i _ hth
    have happend : (s.step maxRefreshes (.step i ok)).log = s.log ++ [⟨record.username, .update x, some record⟩] := by
      simp only [step, hth]
      rfl
    rw [happend]
    exact logged_concat (((apply_ok.1 happly).username.trans hread).trans (Update.scope_username hscope).symm)
  | @deleted username listed =>
    simp only [step, hth, stepThread] at hth' ⊢
    split at hth'
    next =>
      rw [finish, setThread_self] at hth'
      exact absurd hth'.symm (Option.some_ne_none _)
    next rec hrec => exact logged_concat rfl
  | _ => trivial

theorem LogInv.step (h : LogInv s) (x : Action) : LogInv (s.step maxRefreshes x) := by
  obtain ⟨more, hlog⟩ := @step_log W s maxRefreshes x
  have hmono : ∀ th : Thread W, ThreadLogged s.log th → ThreadLogged (s.step maxRefreshes x).log th := by
    intro th hth
    rw [hlog]
    cases th with
    | stored entry scope => exact Logged.append hth
    | revoking entry scope => exact Logged.append hth
    | _ => trivial
  refine ⟨fun j th' hj => ?_, fun j th' hj => ?_, fun entry scope hmem => ?_⟩
  · rcases step_threads hj with hold | ⟨r, rfl⟩ | ⟨ok, th, -, hth, hnext⟩
    · exact h.computed j th' hold
    · trivial
    · exact hnext.computed (h.computed j th hth)
  · rcases step_threads hj with hold | ⟨r, rfl⟩ | ⟨ok, th, rfl, hth, hnext⟩
    · exact hmono th' (h.threads j th' hold)
    · trivial
    · exact h.thread hth hj hnext
  · rcases step_returned hmem with hold | ⟨i, hth, -⟩
    · rw [hlog]
      exact (h.returned entry scope hold).append
    · exact hmono _ (h.threads i _ hth)

/-! ## Every run -/

theorem mem_line_step (x : Action) (h : ∀ t < s.sessions.issued.length, t ∈ s.sessions.line t) :
    ∀ t < (s.step maxRefreshes x).sessions.issued.length, t ∈ (s.step maxRefreshes x).sessions.line t := by
  refine @sessions_step_inv W s maxRefreshes (fun ss => ∀ t < ss.issued.length, t ∈ ss.line t) x h fun e _ t ht => ?_
  by_cases hold : t < s.sessions.issued.length
  · rw [Sessions.line_step e hold]
    exact h t hold
  · rcases @Sessions.step_issued Identity s.sessions maxRefreshes e with heq | ⟨info, l, -, heq⟩
    · rw [heq] at ht
      exact absurd ht hold
    · rw [heq, Sessions.length_issue] at ht
      obtain rfl : t = s.sessions.issued.length := le_antisymm (Nat.lt_succ_iff.1 ht) (not_lt.1 hold)
      rw [Sessions.line, heq, Sessions.issued_issue_self]
      exact List.mem_cons_self

structure LoginInv (maxRefreshes : ℕ) (users₀ : UserStore W) (s : Accounts W) : Prop where
  admitted : AdmissionInv maxRefreshes users₀ s
  driven : s.Driven
  line : ∀ t < s.sessions.issued.length, t ∈ s.sessions.line t
  logged : LogInv s
  beaten : s.Beaten

theorem LoginInv.step {users₀ : UserStore W} (h : LoginInv maxRefreshes users₀ s) (hx : s.BeatsLogins x) :
    LoginInv maxRefreshes users₀ (s.step maxRefreshes x) where
  admitted := h.admitted.step x
  driven := h.driven.step
  line := mem_line_step x h.line
  logged := h.logged.step x
  beaten := h.beaten.step h.admitted.issued h.line h.driven hx

theorem LoginInv.of (users₀ : UserStore W) : LoginInv maxRefreshes users₀ (of users₀) where
  admitted := .of users₀
  driven := fun i c hc => absurd hc.symm (Option.some_ne_none c)
  line := fun t ht => absurd ht (Nat.not_lt_zero t)
  logged := ⟨fun i th hth => absurd hth.symm (Option.some_ne_none th), fun i th hth => absurd hth.symm (Option.some_ne_none th),
    fun entry scope h => absurd h List.not_mem_nil⟩
  beaten := fun entry scope pending hcol t info ht => by simp [Accounts.of, Sessions.new] at ht

/-- every session was admitted by a record, and none by one from before a change of its scope that has returned -/
structure ChangesBeat (users₀ : UserStore W) (s : Accounts W) : Prop where
  admitted : ∀ t info, s.sessions.inner[t]? = some info → RowAdmitted users₀ s.log t info
  logged : ∀ entry scope, (entry, scope) ∈ s.returned → Logged s.log entry scope
  beaten : ∀ entry scope, (entry, scope) ∈ s.returned → ∀ t info, s.sessions.inner[t]? = some info → ¬s.Stale entry scope t info
  /-- when it was the last change of the user -/
  last : ∀ entry u, (entry, ⟨u, none, none⟩) ∈ s.returned → (∀ k e, entry < k → s.log[k]? = some e → e.username ≠ u) →
    ∀ (t : Token) (info : SessionInfo Identity), s.sessions.inner[t]? = some info → info.username = u →
      ∃ rec, s.users.get u = some rec ∧ Opens rec info.persona info.role info.identitySk.sk

theorem LoginInv.holds {users₀ : UserStore W} (h : LoginInv maxRefreshes users₀ s) : ChangesBeat users₀ s := by
  have hrows : ∀ t info, s.sessions.inner[t]? = some info → RowAdmitted users₀ s.log t info := fun t info ht =>
    (h.admitted.rows.live t info ht).resolve_right List.not_mem_nil
  have hbeaten : ∀ entry scope, (entry, scope) ∈ s.returned → ∀ t info, s.sessions.inner[t]? = some info → ¬s.Stale entry scope t info :=
    fun entry scope hmem t info ht hstale => List.not_mem_nil (h.beaten entry scope [] (.returned hmem) t info ht hstale)
  refine ⟨hrows, h.logged.returned, hbeaten, fun entry u hmem hlast t info ht hu => ?_⟩
  subst hu
  obtain ⟨hread, rec, hrec, hopens⟩ := hrows t info ht
  have hlate : entry < info.identitySk.readAt := by
    by_contra hle
    exact hbeaten entry _ hmem t info ht ⟨⟨rfl, nofun⟩, Or.inl ⟨nofun, not_lt.1 hle⟩⟩
  -- the stores that it had not seen are of other users
  have hothers : ∀ e ∈ s.log.drop info.identitySk.readAt, e.username ≠ info.username := by
    intro e he
    obtain ⟨k, hk⟩ := List.mem_iff_getElem?.1 he
    rw [List.getElem?_drop] at hk
    exact hlast _ e (hlate.trans_le (Nat.le_add_right _ k)) hk
  have hsame := @recordAfter_others W users₀ info.username (s.log.take info.identitySk.readAt) _ hothers
  rw [List.take_append_drop, hrec, h.admitted.current] at hsame
  obtain ⟨rec', hget, hcore⟩ := Option.map_eq_some_iff.1 hsame
  refine ⟨rec', hget, ?_⟩
  obtain ⟨pw, slot, payload, hopen, hadmits, hfields⟩ := hopens
  rw [← hcore] at hopen hadmits
  exact ⟨pw, slot, payload, hopen, hadmits, hfields⟩

/-- **A change beats the logins.** Along every run in which, once a change has collected the sessions it is to revoke, no login that had not
seen it inserts its session, no refresh carries over and no switch writes a session that is stale, and at the collect every stale session
acts as a persona of the scope: in the state reached every session was admitted by the record that its login had read, no session is live
that was opened or switched by a login which had not seen a change of its scope that has returned, and after the last change of a user
every session of theirs is one that the record admits. -/
theorem change_beats_login (maxRefreshes : ℕ) (users₀ : UserStore W) (actions : List Action)
    (h : Along (step maxRefreshes) BeatsLogins (of users₀) actions) :
    ChangesBeat users₀ (run (step maxRefreshes) (of users₀) actions) :=
  (h.inv (fun _ _ hs hx => hs.step hx) (.of users₀) : LoginInv maxRefreshes users₀ _).holds

/-! ## Changes and logins of bob's -/

variable {actions : List Action}

def starts : Action → Option ℕ
  | .start i _ => some i
  | _ => none

theorem step_alone (hx : starts x ≠ some j) (hj : s.threads j = none) : (s.step maxRefreshes x).threads j = none := by
  cases x with
  | start k r =>
    have hne : j ≠ k := fun heq => hx (congrArg some heq.symm)
    simp only [step]
    split
    · exact hj
    · rw [setThread_threads, if_neg hne, hj]
  | step k ok =>
    simp only [step]
    split
    · exact hj
    next th hth =>
      have hne : j ≠ k := by
        intro heq
        rw [← heq, hj] at hth
        cases hth
      rw [stepThread_other th hne, hj]
  | client k c => exact hj
  | clientStep k ok => exact hj

/-- a run of one thread -/
theorem run_alone (h : ∀ x ∈ actions, starts x = none ∨ starts x = some i) (hj : ∀ j ≠ i, s.threads j = none) :
    ∀ j ≠ i, (run (step maxRefreshes) s actions).threads j = none := by
  induction actions generalizing s with
  | nil => exact hj
  | cons x actions ih =>
    refine ih (fun y hy => h y (List.mem_cons_of_mem x hy)) fun j hne => step_alone ?_ (hj j hne)
    rcases h x List.mem_cons_self with hnone | hsome
    · exact hnone ▸ nofun
    · exact hsome ▸ fun heq => hne (Option.some.inj heq).symm

theorem collected_alone (h : ∀ j ≠ i, s.threads j = none) (hth : ∀ entry scope, s.threads i ≠ some (.revoking entry scope))
    (hc : s.Collected entry scope pending) : (entry, scope) ∈ s.returned := by
  have hnot : ∀ j, s.threads j ≠ some (.revoking entry scope) := by
    intro j hj
    by_cases heq : j = i
    · exact hth entry scope (heq ▸ hj)
    · rw [h j heq] at hj
      exact absurd hj nofun
  cases hc with
  | revoking hj hcall => exact absurd hj (hnot _)
  | revoked hj hcall => exact absurd hj (hnot _)
  | returned hmem => exact hmem

/-- a step that neither inserts nor collects -/
theorem beatsLogins_quiet {ok : Bool} (hcall : ∀ c, s.sessions.calls (callOf i) = some c → ∃ covered victims, c = .revoking covered victims)
    (hth : ∀ a, s.threads i ≠ some (.touched a)) (hth' : ∀ entry scope, s.threads i ≠ some (.stored entry scope)) :
    s.BeatsLogins (.step i ok) := by
  refine ⟨fun _ => ⟨fun a ha => absurd ha (hth a), fun old info e hc => ?_, fun target covered k victims old hc => ?_⟩,
    fun entry scope hs => absurd hs (hth' entry scope)⟩
  · obtain ⟨_, _, heq⟩ := hcall _ hc
    exact absurd heq nofun
  · obtain ⟨_, _, heq⟩ := hcall _ hc
    exact absurd heq nofun

def bobLogin : List Action :=
  [.start 0 (.login "bob" [2] 60 0), .step 0 true, .step 0 true, .step 0 true, .step 0 true, .step 0 true]

def promoteBob : List Action :=
  [.start 0 (.update "bob" (.setRole .Admin)), .step 0 true, .step 0 true, .step 0 true, .step 0 true, .step 0 true, .step 0 true,
    .step 0 true, .step 0 true]

/-- a session of bob's, a change of role, and a session again -/
def loginChangeLogin : List Action := bobLogin ++ (promoteBob ++ bobLogin)

/-- bob's session is inserted -/
theorem bob_in_time {a : Admission} {n : ℕ} (hth : (run (step 3) (of rootAndBob) (loginChangeLogin.take n)).threads 0 = some (.touched a))
    (hread : ∀ e ∈ (run (step 3) (of rootAndBob) (loginChangeLogin.take n)).returned, e.1 < a.readAt)
    (hcall : (run (step 3) (of rootAndBob) (loginChangeLogin.take n)).sessions.calls (callOf 0) = none) :
    (run (step 3) (of rootAndBob) (loginChangeLogin.take n)).BeatsLogins (.step 0 true) := by
  have hall : ∀ x ∈ loginChangeLogin, starts x = none ∨ starts x = some 0 := by decide
  have hone := @run_alone _ (of rootAndBob) 0 3 (loginChangeLogin.take n) (fun x hx => hall x (List.mem_of_mem_take hx)) fun _ _ => rfl
  refine ⟨fun _ => ⟨fun b hb => ?_, fun old info e hc => ?_, fun target covered k victims old hc => ?_⟩, fun entry scope hs => ?_⟩
  · rw [hth] at hb
    cases hb
    intro entry scope pending hcol hstale
    have hmem := collected_alone hone (fun entry scope h => absurd (hth.symm.trans h) nofun) hcol
    exact absurd (hread _ hmem) (not_lt.2 hstale.2.2)
  · exact absurd (hcall.symm.trans hc) nofun
  · exact absurd (hcall.symm.trans hc) nofun
  · exact absurd (hth.symm.trans hs) nofun

theorem change_beats_login_one_by_one :
    (run (step 3) (of rootAndBob) loginChangeLogin).sessions.inner.toList.map (·.1) = [1] ∧
      (run (step 3) (of rootAndBob) loginChangeLogin).returned = [(0, ⟨"bob", none, none⟩)] ∧
      ChangesBeat rootAndBob (run (step 3) (of rootAndBob) loginChangeLogin) := by
  refine ⟨rfl, rfl, change_beats_login 3 rootAndBob loginChangeLogin (Along.append ?_ (Along.append ?_ ?_))⟩
  · refine ⟨trivial, ?_, ?_, ?_, ?_, ?_, trivial⟩
    case refine_4 => exact @bob_in_time _ 4 rfl (fun e he => absurd he List.not_mem_nil) rfl
    all_goals exact beatsLogins_quiet (fun c hc => nomatch hc) (fun a ha => nomatch ha) (fun e sc hs => nomatch hs)
  · refine ⟨trivial, ?_, ?_, ?_, ?_, ?_, ?_, ?_, ?_, trivial⟩
    case refine_5 =>
      refine ⟨fun _ => ⟨fun a ha => (nomatch ha), fun old info e hc => (nomatch hc), fun target covered k victims old hc => (nomatch hc)⟩,
        fun entry scope hs t info ht hstale => ?_⟩
      cases hs
      exact nofun
    case refine_6 | refine_7 =>
      exact beatsLogins_quiet (fun c hc => ⟨_, _, (Option.some.inj hc).symm⟩) (fun a ha => nomatch ha) (fun e sc hs => nomatch hs)
    all_goals exact beatsLogins_quiet (fun c hc => nomatch hc) (fun a ha => nomatch ha) (fun e sc hs => nomatch hs)
  · refine ⟨trivial, ?_, ?_, ?_, ?_, ?_, trivial⟩
    case refine_4 =>
      refine @bob_in_time _ 19 rfl (fun e he => ?_) rfl
      cases List.mem_singleton.1 he
      exact Nat.zero_lt_one
    all_goals exact beatsLogins_quiet (fun c hc => nomatch hc) (fun a ha => nomatch ha) (fun e sc hs => nomatch hs)

/-- the change comes when the login has passed its checks -/
def changeMeanwhile : List Action :=
  bobLogin.take 4 ++ [.start 1 (.update "bob" (.setRole .ReadOnly)), .step 1 true, .step 1 true, .step 1 true, .step 1 true,
    .step 1 true, .step 1 true, .step 1 true, .step 0 true]

theorem login_outlives_change : ¬ChangesBeat rootAndBob (run (step 3) (of rootAndBob) changeMeanwhile) := by
  intro h
  have hreturned : (0, ⟨"bob", none, none⟩) ∈ (run (step 3) (of rootAndBob) changeMeanwhile).returned := List.mem_singleton_self _
  have hrow : (run (step 3) (of rootAndBob) changeMeanwhile).sessions.inner[0]? =
      some ⟨"bob", .User, 0, 60, 0, false, ⟨[], 0⟩, 0⟩ := rfl
  exact h.beaten 0 _ hreturned 0 _ hrow ⟨⟨rfl, nofun⟩, Or.inl ⟨nofun, le_rfl⟩⟩

end Accounts

end Y2q.Auth
