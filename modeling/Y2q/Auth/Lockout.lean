/-
The lockout of an account against requests that guess its password at the same time.

`login` and `change_password` look at the counter, evaluate the guess in a derivation that takes its time, and only then count the
failure: three critical sections, and what is evaluated meanwhile has not been counted.

- `LoginAttempts.checkLockout` / `recordFailure` / `recordSuccess`: the counter of the source. `Guesses.step`: the requests over it, one
  critical section or one derivation at a time.
- `Locks`: an account that has had its failures is locked from the last of them on for the lockout, and no other is.
- `InTurn`: a request is let through only while the failures counted and the guesses not yet counted leave room for it.
- `guesses_bounded`: along such runs a stretch without a success evaluates no more guesses than the limit, or waits for a lockout to pass.
- `guesses_unbounded`: without it there is no bound, whatever the limit.
-/
import Mathlib.Tactic
import Mathlib.Algebra.Order.Ring.Star
import Y2q.Core.Run

namespace Y2q.Auth.Lockout

open Run (Along run)

/-! ## The counter -/

structure Config where
  maxFailedLogins : ℕ
  lockoutSeconds : ℕ
  /-- it is a `u32` -/
  fits : maxFailedLogins < 2 ^ 32

structure AttemptState where
  failedCount : ℕ
  lockedUntil : Option ℕ
deriving DecidableEq, Repr

/-- by username; instants are in nanoseconds -/
abbrev LoginAttempts := String → Option AttemptState

namespace LoginAttempts

/-- the error is the instant until which the account is locked; a lockout that has expired is reset -/
def checkLockout (attempts : LoginAttempts) (now : ℕ) (username : String) : Except ℕ LoginAttempts :=
  match attempts username with
  | some ⟨_, some lockedUntil⟩ =>
    if now < lockedUntil then .error lockedUntil else .ok (Function.update attempts username (some ⟨0, none⟩))
  | _ => .ok attempts

def recordFailure (attempts : LoginAttempts) (now : ℕ) (username : String) (maxFailed lockoutDuration : ℕ) : LoginAttempts :=
  if maxFailed = 0 then attempts
  else
    let s := (attempts username).getD ⟨0, none⟩
    let failedCount := min (s.failedCount + 1) (2 ^ 32 - 1)
    Function.update attempts username
      (some ⟨failedCount, if maxFailed ≤ failedCount then some (now + lockoutDuration) else s.lockedUntil⟩)

def recordSuccess (attempts : LoginAttempts) (username : String) : LoginAttempts :=
  Function.update attempts username ((attempts username).map fun _ => ⟨0, none⟩)

def failedCount (attempts : LoginAttempts) (username : String) : ℕ := ((attempts username).map (·.failedCount)).getD 0

section

variable {attempts attempts' : LoginAttempts} {now t : ℕ} {u v : String}

theorem checkLockout_error (h : attempts.checkLockout now u = .error t) : now < t ∧ ∃ n, attempts u = some ⟨n, some t⟩ := by
  rw [checkLockout] at h
  split at h
  · rename_i n t' hu
    split at h
    · rename_i hnow
      cases h
      exact ⟨hnow, n, hu⟩
    · cases h
  · cases h

/-- a request that passes found the account unlocked, or its lockout expired -/
theorem checkLockout_ok (h : attempts.checkLockout now u = .ok attempts') :
    attempts' = attempts ∨ ∃ n t, attempts u = some ⟨n, some t⟩ ∧ t ≤ now ∧ attempts' = Function.update attempts u (some ⟨0, none⟩) := by
  rw [checkLockout] at h
  split at h
  · rename_i n t hu
    split at h
    · cases h
    · rename_i hnow
      cases h
      exact .inr ⟨n, t, hu, not_lt.1 hnow, rfl⟩
  · cases h
    exact .inl rfl

theorem checkLockout_locked {n : ℕ} (hu : attempts u = some ⟨n, some t⟩) (hnow : now < t) : attempts.checkLockout now u = .error t := by
  simp [checkLockout, hu, hnow]

theorem failedCount_update (a : AttemptState) :
    failedCount (Function.update attempts v (some a)) u = if u = v then a.failedCount else attempts.failedCount u := by
  by_cases h : u = v <;> simp [failedCount, h]

theorem failedCount_recordFailure {maxFailed lockoutDuration : ℕ} (h : maxFailed ≠ 0) :
    (attempts.recordFailure now v maxFailed lockoutDuration).failedCount u =
      if u = v then min (attempts.failedCount v + 1) (2 ^ 32 - 1) else attempts.failedCount u := by
  rw [recordFailure, if_neg h, failedCount_update]
  cases hv : attempts v <;> simp [failedCount, hv]

theorem failedCount_recordSuccess : (attempts.recordSuccess v).failedCount u = if u = v then 0 else attempts.failedCount u := by
  by_cases h : u = v
  · subst h
    cases hu : attempts u <;> simp [recordSuccess, failedCount, hu]
  · simp [recordSuccess, failedCount, h]

end

end LoginAttempts

def Config.lockoutDuration (cfg : Config) : ℕ := cfg.lockoutSeconds * 10 ^ 9

/-! ## The requests -/

inductive Endpoint where
  | login | changePassword
deriving DecidableEq, Repr

/-- where a request stands -/
inductive Guess where
  | checked (endpoint : Endpoint) (username : String)
  /-- the derivation is done, and a slot opened or none did -/
  | unwrapped (username : String) (opened : Bool)
  | returned
deriving DecidableEq, Repr

/-- it may still count a failure of the account -/
def Guess.Pends (u : String) : Guess → Bool
  | .checked _ v => v = u
  | .unwrapped v opened => v = u && !opened
  | .returned => false

/-- its guess was wrong, and is not counted -/
def Guess.Wrong (u : String) : Guess → Bool
  | .unwrapped v opened => v = u && !opened
  | _ => false

@[simp] theorem Guess.pends_returned {u : String} : Guess.Pends u .returned = false := rfl

@[simp] theorem Guess.wrong_returned {u : String} : Guess.Wrong u .returned = false := rfl

structure Guesses where
  now : ℕ
  attempts : LoginAttempts
  requests : List Guess
  /-- when a failure was last counted: ghost -/
  lastFailure : String → Option ℕ

def Guesses.new : Guesses := ⟨0, fun _ => none, [], fun _ => none⟩

inductive Event where
  | wait (d : ℕ)
  | request (endpoint : Endpoint) (username : String)
  | unwrap (i : ℕ) (opened : Bool)
  | recordFailure (i : ℕ)
  | recordSuccess (i : ℕ)
  /-- an error that leaves the counter alone: a bad expiry, a store that fails, an account that is disabled or has changed -/
  | giveUp (i : ℕ)
deriving DecidableEq, Repr

namespace Guesses

def goTo (s : Guesses) (i : ℕ) (g : Guess) : Guesses := { s with requests := s.requests.set i g }

def countFailure (cfg : Config) (s : Guesses) (username : String) : Guesses :=
  { s with attempts := s.attempts.recordFailure s.now username cfg.maxFailedLogins cfg.lockoutDuration,
           lastFailure := Function.update s.lastFailure username (some s.now) }

def step (cfg : Config) (s : Guesses) : Event → Guesses
  | .wait d => { s with now := s.now + d }
  | .request endpoint username =>
    match s.attempts.checkLockout s.now username with
    | .error _ => s
    | .ok attempts => { s with attempts := attempts, requests := s.requests ++ [.checked endpoint username] }
  | .unwrap i opened =>
    match s.requests[i]? with
    | some (.checked _ username) => s.goTo i (.unwrapped username opened)
    | _ => s
  | .recordFailure i =>
    match s.requests[i]? with
    | some (.unwrapped username false) => (s.countFailure cfg username).goTo i .returned
    -- the record is gone or has no such slot: a failure is counted though no guess was evaluated
    | some (.checked .changePassword username) => (s.countFailure cfg username).goTo i .returned
    | _ => s
  | .recordSuccess i =>
    match s.requests[i]? with
    | some (.unwrapped username true) => { s with attempts := s.attempts.recordSuccess username }.goTo i .returned
    | _ => s
  | .giveUp i =>
    match s.requests[i]? with
    | some (.checked _ _) | some (.unwrapped _ true) => s.goTo i .returned
    | _ => s

/-! ## Guesses and successes of an account -/

/-- a guess reaches the slot-unwrap -/
def Evaluates (s : Guesses) (username : String) : Event → Prop
  | .unwrap i _ => ∃ endpoint, s.requests[i]? = some (.checked endpoint username)
  | _ => False

/-- a slot opens, or the success is recorded -/
def Succeeds (s : Guesses) (username : String) : Event → Prop
  | .unwrap i true => ∃ endpoint, s.requests[i]? = some (.checked endpoint username)
  | .recordSuccess i => s.requests[i]? = some (.unwrapped username true)
  | _ => False

instance (s : Guesses) (username : String) : DecidablePred (s.Evaluates username)
  | .unwrap i _ => decidable_of_iff (∃ endpoint ∈ [Endpoint.login, .changePassword], s.requests[i]? = some (.checked endpoint username))
    ⟨fun ⟨endpoint, _, h⟩ => ⟨endpoint, h⟩, fun ⟨endpoint, h⟩ => ⟨endpoint, by cases endpoint <;> decide, h⟩⟩
  | .wait _ | .request _ _ | .recordFailure _ | .recordSuccess _ | .giveUp _ => .isFalse id

/-- how many guesses are evaluated -/
def evaluations (cfg : Config) (username : String) (s : Guesses) : List Event → ℕ
  | [] => 0
  | x :: events => (if s.Evaluates username x then 1 else 0) + evaluations cfg username (s.step cfg x) events

/-- as many failures as the limit were counted, and the lockout has passed since the last of them -/
def LockoutOver (cfg : Config) (s : Guesses) (username : String) : Prop :=
  cfg.maxFailedLogins ≤ s.attempts.failedCount username ∧ ∃ t, s.lastFailure username = some t ∧ t + cfg.lockoutDuration ≤ s.now

/-- a request of the account when its lockout is over -/
def AfterLockout (cfg : Config) (s : Guesses) (username : String) (x : Event) : Prop :=
  (∃ endpoint, x = .request endpoint username) ∧ s.LockoutOver cfg username

structure Bounded (cfg : Config) (username : String) (events : List Event) : Prop where
  /-- a stretch without a success evaluates no more guesses than the limit before a lockout has been waited for -/
  stretch : ∀ before events' after, events = before ++ (events' ++ after) →
    Along (step cfg) (fun s x => ¬s.Succeeds username x) (run (step cfg) new before) events' →
    evaluations cfg username (run (step cfg) new before) events' ≤ cfg.maxFailedLogins ∨
      ∃ a x b, events' = a ++ x :: b ∧ (run (step cfg) new (before ++ a)).AfterLockout cfg username x
  /-- once the failures have reached the limit every request is refused until the lockout has passed since the last of them -/
  refused : ∀ before after, events = before ++ after →
    cfg.maxFailedLogins ≤ (run (step cfg) new before).attempts.failedCount username →
    ∃ t, (run (step cfg) new before).lastFailure username = some t ∧
      ((run (step cfg) new before).now < t + cfg.lockoutDuration →
        (run (step cfg) new before).attempts.checkLockout (run (step cfg) new before).now username = .error (t + cfg.lockoutDuration))


/-! ## When an account is locked -/

variable {cfg : Config} {s : Guesses} {u v : String} {x : Event} {i : ℕ}

/-- an account that has had as many failures as the limit is locked from the last of them on, and no other is -/
def Locks (cfg : Config) (s : Guesses) : Prop :=
  ∀ u a, s.attempts u = some a → (a.failedCount < cfg.maxFailedLogins ∧ a.lockedUntil = none) ∨
    (cfg.maxFailedLogins ≤ a.failedCount ∧ ∃ t, s.lastFailure u = some t ∧ a.lockedUntil = some (t + cfg.lockoutDuration))

theorem locks_update (h : s.Locks cfg) {a : AttemptState} {attempts : LoginAttempts} {lastFailure : String → Option ℕ} {now : ℕ}
    {requests : List Guess} (hattempts : attempts = Function.update s.attempts v (some a)) (hlast : ∀ u ≠ v, lastFailure u = s.lastFailure u)
    (ha : (a.failedCount < cfg.maxFailedLogins ∧ a.lockedUntil = none) ∨
      (cfg.maxFailedLogins ≤ a.failedCount ∧ ∃ t, lastFailure v = some t ∧ a.lockedUntil = some (t + cfg.lockoutDuration))) :
    Locks cfg ⟨now, attempts, requests, lastFailure⟩ := by
  intro u b hb
  simp only [hattempts] at hb
  by_cases huv : u = v
  · subst huv
    simp only [Function.update_self, Option.some.injEq] at hb
    subst hb
    exact ha
  · rw [Function.update_of_ne huv] at hb
    simpa only [hlast u huv] using h u b hb

theorem locks_countFailure (h : s.Locks cfg) (hm : 0 < cfg.maxFailedLogins) : (s.countFailure cfg v).Locks cfg := by
  refine locks_update h (by rw [LoginAttempts.recordFailure, if_neg hm.ne']) (fun u hu => Function.update_of_ne hu _ _) ?_
  rcases Nat.lt_or_ge (min (((s.attempts v).getD ⟨0, none⟩).failedCount + 1) (2 ^ 32 - 1)) cfg.maxFailedLogins with hlt | hge
  · refine .inl ⟨hlt, ?_⟩
    simp only [if_neg (not_le.2 hlt)]
    cases hv : s.attempts v with
    | none => rfl
    | some a =>
      rcases h v a hv with ⟨-, hnone⟩ | ⟨hge, -⟩
      · exact hnone
      · have := cfg.fits
        simp only [hv, Option.getD_some] at hlt
        omega
  · exact .inr ⟨hge, s.now, Function.update_self _ _ _, by simp only [if_pos hge]⟩

theorem Locks.step (h : s.Locks cfg) (hm : 0 < cfg.maxFailedLogins) (x : Event) : (s.step cfg x).Locks cfg := by
  cases x with
  | wait d => exact h
  | request endpoint v =>
    simp only [Guesses.step]
    split
    · exact h
    · rename_i attempts hok
      rcases LoginAttempts.checkLockout_ok hok with rfl | ⟨n, t, -, -, rfl⟩
      · exact h
      · exact locks_update h rfl (fun _ _ => rfl) (.inl ⟨hm, rfl⟩)
  | unwrap i opened =>
    simp only [Guesses.step]
    split <;> exact h
  | recordFailure i =>
    simp only [Guesses.step]
    split
    · exact locks_countFailure h hm
    · exact locks_countFailure h hm
    · exact h
  | recordSuccess i =>
    simp only [Guesses.step]
    split
    · rename_i v hv
      intro u a ha
      by_cases huv : u = v
      · subst huv
        simp only [goTo, LoginAttempts.recordSuccess, Function.update_self, Option.map_eq_some_iff] at ha
        obtain ⟨-, -, rfl⟩ := ha
        exact .inl ⟨hm, rfl⟩
      · simp only [goTo, LoginAttempts.recordSuccess, Function.update_of_ne huv] at ha
        exact h u a ha
    · exact h
  | giveUp i =>
    simp only [Guesses.step]
    split <;> exact h

theorem locks_new : new.Locks cfg := fun _ _ h => by cases h

theorem locks_run (hm : 0 < cfg.maxFailedLogins) (events : List Event) : (run (step cfg) new events).Locks cfg := by
  have hstep : ∀ (s : Guesses), s.Locks cfg → (run (step cfg) s events).Locks cfg := by
    induction events with
    | nil => exact fun s h => h
    | cons x events ih => exact fun s h => ih _ (h.step hm x)
  exact hstep _ locks_new

/-- the account's entry when its failures have reached the limit -/
theorem Locks.entry (h : s.Locks cfg) (hm : 0 < cfg.maxFailedLogins) (hcount : cfg.maxFailedLogins ≤ s.attempts.failedCount u) :
    ∃ n t, s.lastFailure u = some t ∧ s.attempts u = some ⟨n, some (t + cfg.lockoutDuration)⟩ := by
  cases hu : s.attempts u with
  | none =>
    simp only [LoginAttempts.failedCount, hu, Option.map_none, Option.getD_none] at hcount
    omega
  | some a =>
    simp only [LoginAttempts.failedCount, hu, Option.map_some, Option.getD_some] at hcount
    rcases h u a hu with ⟨hlt, -⟩ | ⟨-, t, hlast, hlocked⟩
    · omega
    · exact ⟨a.failedCount, t, hlast, by rw [← hlocked]⟩

/-! ## Guesses that are not yet counted -/

def pending (s : Guesses) (u : String) : ℕ := s.requests.countP (Guess.Pends u)

def wrong (s : Guesses) (u : String) : ℕ := s.requests.countP (Guess.Wrong u)

/-- a request of the account is let through only if the failures counted and the guesses not yet counted leave room for its own -/
def InTurn (cfg : Config) (u : String) (s : Guesses) : Event → Prop
  | .request _ v => v = u → ∀ attempts, s.attempts.checkLockout s.now u = .ok attempts →
    attempts.failedCount u + s.pending u < cfg.maxFailedLogins
  | _ => True

theorem countP_set_add {p : Guess → Bool} {l : List Guess} {g : Guess} (h : l[i]? = some g) (g' : Guess) :
    (l.set i g').countP p + (if p g then 1 else 0) = l.countP p + (if p g' then 1 else 0) := by
  obtain ⟨hi, rfl⟩ := List.getElem?_eq_some_iff.1 h
  have hle : (if p l[i] then 1 else 0) ≤ l.countP p := by
    split
    · exact List.countP_pos_iff.2 ⟨l[i], List.getElem_mem hi, ‹_›⟩
    · exact Nat.zero_le _
  rw [List.countP_set hi]
  omega

theorem wrong_le_pending : s.wrong u ≤ s.pending u := by
  refine List.countP_mono_left fun g _ hg => ?_
  cases g <;> simp_all [Guess.Wrong, Guess.Pends]

theorem pending_goTo {g : Guess} (h : s.requests[i]? = some g) (g' : Guess) :
    (s.goTo i g').pending u + (if g.Pends u then 1 else 0) = s.pending u + (if g'.Pends u then 1 else 0) := countP_set_add h g'

theorem wrong_goTo {g : Guess} (h : s.requests[i]? = some g) (g' : Guess) :
    (s.goTo i g').wrong u + (if g.Wrong u then 1 else 0) = s.wrong u + (if g'.Wrong u then 1 else 0) := countP_set_add h g'

/-! ## A step and a run -/

/-- the failures counted and the guesses not yet counted are within the limit -/
def Room (cfg : Config) (u : String) (s : Guesses) : Prop := s.attempts.failedCount u + s.pending u ≤ cfg.maxFailedLogins

/-- the failures counted and the wrong guesses not yet counted -/
def tally (s : Guesses) (u : String) : ℕ := s.attempts.failedCount u + s.wrong u

theorem failedCount_countFailure (hm : 0 < cfg.maxFailedLogins) : (s.countFailure cfg v).attempts.failedCount u =
    if u = v then min (s.attempts.failedCount v + 1) (2 ^ 32 - 1) else s.attempts.failedCount u :=
  LoginAttempts.failedCount_recordFailure hm.ne'

/-- a guess that is counted leaves no more than it found -/
theorem Room.counted (h : s.Room cfg u) (hm : 0 < cfg.maxFailedLogins) {g : Guess} (hi : s.requests[i]? = some g)
    (hg : ∀ u, g.Pends u = decide (v = u)) : ((s.countFailure cfg v).goTo i .returned).Room cfg u := by
  have hpending : ((s.countFailure cfg v).goTo i .returned).pending u + (if v = u then 1 else 0) = s.pending u := by
    have := pending_goTo (s := s.countFailure cfg v) (u := u) hi .returned
    rw [hg] at this
    simp only [decide_eq_true_eq, Guess.pends_returned, Bool.false_eq_true, if_false, add_zero] at this
    exact this
  have hcount : ((s.countFailure cfg v).goTo i .returned).attempts.failedCount u = _ := failedCount_countFailure hm
  rw [Room, hcount]
  rw [Room] at h
  by_cases huv : u = v
  · rw [if_pos huv]
    rw [if_pos huv.symm] at hpending
    subst huv
    omega
  · rw [if_neg huv]
    rw [if_neg (Ne.symm huv)] at hpending
    omega

theorem Room.left (h : s.Room cfg u) {g : Guess} (hi : s.requests[i]? = some g) : (s.goTo i .returned).Room cfg u := by
  have := pending_goTo (u := u) hi .returned
  simp only [Guess.pends_returned, Bool.false_eq_true, if_false] at this
  simp only [Room, goTo] at h this ⊢
  omega

theorem Room.step (h : s.Room cfg u) (hm : 0 < cfg.maxFailedLogins) (hx : s.InTurn cfg u x) : (s.step cfg x).Room cfg u := by
  cases x with
  | wait d => exact h
  | request endpoint v =>
    simp only [Guesses.step]
    split
    · exact h
    · rename_i attempts hok
      simp only [Room, pending, List.countP_append, List.countP_singleton, Guess.Pends, decide_eq_true_eq] at h ⊢
      by_cases hvu : v = u
      · subst hvu
        have hroom := hx rfl attempts hok
        rw [pending] at hroom
        rw [if_pos rfl]
        omega
      · rw [if_neg hvu]
        rcases LoginAttempts.checkLockout_ok hok with rfl | ⟨n, t, -, -, rfl⟩
        · exact h
        · rw [LoginAttempts.failedCount_update, if_neg (Ne.symm hvu)]
          exact h
  | unwrap i opened =>
    simp only [Guesses.step]
    split
    · rename_i endpoint v hi
      have := pending_goTo (u := u) hi (.unwrapped v opened)
      simp only [Guess.Pends] at this
      simp only [Room, goTo] at h this ⊢
      cases opened <;> simp at this <;> omega
    · exact h
  | recordFailure i =>
    simp only [Guesses.step]
    split
    · exact h.counted hm ‹_› fun u => by simp [Guess.Pends]
    · exact h.counted hm ‹_› fun u => rfl
    · exact h
  | recordSuccess i =>
    simp only [Guesses.step]
    split
    · rename_i v hi
      have hroom : Room cfg u { s with attempts := s.attempts.recordSuccess v } := by
        rw [Room, LoginAttempts.failedCount_recordSuccess]
        split
        · exact le_trans (by simp [pending]) (le_trans (Nat.le_add_left _ _) h)
        · exact h
      exact hroom.left hi
    · exact h
  | giveUp i =>
    simp only [Guesses.step]
    split
    · exact h.left ‹_›
    · exact h.left ‹_›
    · exact h

/-- a failure that is counted is not lost to the tally -/
theorem tally_counted (h : s.Room cfg u) (hm : 0 < cfg.maxFailedLogins) {g : Guess} (hi : s.requests[i]? = some g)
    (hg : g.Pends v = true) (hother : u ≠ v → g.Wrong u = false) : s.tally u ≤ ((s.countFailure cfg v).goTo i .returned).tally u := by
  have hwrong := wrong_goTo (s := s.countFailure cfg v) (u := u) hi .returned
  simp only [Guess.wrong_returned, Bool.false_eq_true, if_false, add_zero] at hwrong
  have hsame : (s.countFailure cfg v).wrong u = s.wrong u := rfl
  have hcount : ((s.countFailure cfg v).goTo i .returned).attempts.failedCount u = _ := failedCount_countFailure hm
  rw [tally, tally, hcount]
  by_cases huv : u = v
  · subst huv
    -- a guess is pending, so that the counter has not reached the limit, which is far from where it saturates
    have hpending : 0 < s.pending u := List.countP_pos_iff.2 ⟨g, List.mem_of_getElem? hi, hg⟩
    have hfits := cfg.fits
    rw [Room] at h
    rw [if_pos rfl]
    split at hwrong <;> omega
  · rw [hother huv] at hwrong
    rw [if_neg huv]
    simp only [Bool.false_eq_true, if_false, add_zero] at hwrong
    omega

/-- without a success, and without a lockout waited for, the tally does not fall -/
theorem tally_step_le (h : s.Room cfg u) (hlocks : s.Locks cfg) (hm : 0 < cfg.maxFailedLogins) (hx : ¬s.Succeeds u x)
    (hwait : ¬s.AfterLockout cfg u x) : s.tally u ≤ (s.step cfg x).tally u := by
  cases x with
  | wait d => exact le_rfl
  | request endpoint v =>
    simp only [Guesses.step]
    split
    · exact le_rfl
    · rename_i attempts hok
      have hwrong : wrong ⟨s.now, attempts, s.requests ++ [.checked endpoint v], s.lastFailure⟩ u = s.wrong u := by
        simp [wrong, Guess.Wrong]
      rw [tally, tally, hwrong]
      rcases LoginAttempts.checkLockout_ok hok with rfl | ⟨n, t, hv, hnow, rfl⟩
      · exact le_rfl
      · by_cases huv : u = v
        · subst huv
          rcases hlocks u _ hv with ⟨-, hnone⟩ | ⟨hlimit, t', hlast, hlocked⟩
          · cases hnone
          · cases hlocked
            exact absurd ⟨⟨endpoint, rfl⟩, by simpa [LoginAttempts.failedCount, hv] using hlimit, t', hlast, hnow⟩ hwait
        · rw [LoginAttempts.failedCount_update, if_neg huv]
  | unwrap i opened =>
    simp only [Guesses.step]
    split
    · rename_i endpoint v hi
      have hwrong := wrong_goTo (u := u) hi (.unwrapped v opened)
      simp only [Guess.Wrong, Bool.false_eq_true, if_false] at hwrong
      simp only [tally, goTo] at hwrong ⊢
      omega
    · exact le_rfl
  | recordFailure i =>
    simp only [Guesses.step]
    split
    · exact tally_counted h hm ‹_› (by simp [Guess.Pends]) fun huv => by simp [Guess.Wrong, huv.symm]
    · exact tally_counted h hm ‹_› (by simp [Guess.Pends]) fun _ => rfl
    · exact le_rfl
  | recordSuccess i =>
    simp only [Guesses.step]
    split
    · rename_i v hi
      have huv : u ≠ v := fun e => hx (e ▸ hi)
      have hwrong := wrong_goTo (s := { s with attempts := s.attempts.recordSuccess v }) (u := u) hi .returned
      simp only [Guess.Wrong, Bool.not_true, Bool.and_false, Bool.false_eq_true, if_false, add_zero] at hwrong
      rw [tally, tally, hwrong]
      simp only [goTo, LoginAttempts.failedCount_recordSuccess, if_neg huv]
      exact le_rfl
    · exact le_rfl
  | giveUp i =>
    simp only [Guesses.step]
    split
    · rename_i hi
      have hwrong := wrong_goTo (u := u) hi .returned
      simp only [Guess.Wrong, Bool.false_eq_true, if_false, add_zero] at hwrong
      rw [tally, tally, hwrong]
      exact le_rfl
    · rename_i hi
      have hwrong := wrong_goTo (u := u) hi .returned
      simp only [Guess.Wrong, Bool.not_true, Bool.and_false, Bool.false_eq_true, if_false, add_zero] at hwrong
      rw [tally, tally, hwrong]
      exact le_rfl
    · exact le_rfl

/-- a guess that is evaluated without success raises it -/
theorem tally_evaluates (hx : ¬s.Succeeds u x) (h : s.Evaluates u x) : s.tally u + 1 ≤ (s.step cfg x).tally u := by
  cases x with
  | unwrap i opened =>
    obtain ⟨endpoint, hi⟩ := h
    cases opened with
    | true => exact absurd ⟨endpoint, hi⟩ hx
    | false =>
      have hwrong := wrong_goTo (u := u) hi (.unwrapped u false)
      simp only [Guess.Wrong, decide_true, Bool.not_false, Bool.and_self, if_true, Bool.false_eq_true, if_false, add_zero] at hwrong
      simp only [Guesses.step, hi, tally, hwrong]
      simp only [goTo]
      omega
  | wait _ | request _ _ | recordFailure _ | recordSuccess _ | giveUp _ => exact h.elim

/-- what holds along the runs in which each request is let through in turn -/
structure TurnInv (cfg : Config) (u : String) (s : Guesses) : Prop where
  room : s.Room cfg u
  locks : s.Locks cfg

theorem TurnInv.step (h : s.TurnInv cfg u) (hm : 0 < cfg.maxFailedLogins) (hx : s.InTurn cfg u x) : (s.step cfg x).TurnInv cfg u :=
  ⟨h.room.step hm hx, h.locks.step hm x⟩

theorem turnInv_new : new.TurnInv cfg u := ⟨Nat.zero_le _, locks_new⟩

theorem TurnInv.evaluations (hm : 0 < cfg.maxFailedLogins) {events : List Event} (h : s.TurnInv cfg u)
    (hturn : Along (Guesses.step cfg) (InTurn cfg u) s events) (hfail : Along (Guesses.step cfg) (fun s x => ¬s.Succeeds u x) s events) :
    s.tally u + evaluations cfg u s events ≤ cfg.maxFailedLogins ∨
      ∃ a x b, events = a ++ x :: b ∧ (run (Guesses.step cfg) s a).AfterLockout cfg u x := by
  induction events generalizing s with
  | nil =>
    refine .inl (le_trans ?_ h.room)
    simpa [evaluations, tally] using wrong_le_pending
  | cons x events ih =>
    by_cases hwait : s.AfterLockout cfg u x
    · exact .inr ⟨[], x, events, rfl, hwait⟩
    rcases ih (h.step hm hturn.1) hturn.2 hfail.2 with hle | ⟨a, y, b, rfl, hy⟩
    · refine .inl (le_trans ?_ hle)
      rw [Guesses.evaluations]
      split
      · rename_i hev
        have := @tally_evaluates cfg _ _ _ hfail.1 hev
        omega
      · have := tally_step_le h.room h.locks hm hfail.1 hwait
        omega
    · exact .inr ⟨x :: a, y, b, rfl, hy⟩

end Guesses

open Guesses

/-- **Guesses that are let through in turn are bounded by the limit.** -/
theorem guesses_bounded (cfg : Config) (hm : 1 ≤ cfg.maxFailedLogins) (username : String) (events : List Event)
    (h : Along (step cfg) (InTurn cfg username) new events) : Bounded cfg username events := by
  constructor
  · intro before events' after hevents hfail
    subst hevents
    obtain ⟨hbefore, hrest⟩ := h.split
    have hinv := hbefore.inv (fun _ _ hi hx => TurnInv.step hi hm hx) (@turnInv_new cfg username)
    rcases hinv.evaluations hm hrest.split.1 hfail with hle | ⟨a, x, b, rfl, hx⟩
    · exact .inl (le_trans (Nat.le_add_left _ _) hle)
    · exact .inr ⟨a, x, b, rfl, by rwa [Run.run_append]⟩
  · intro before after _ hlimit
    obtain ⟨n, t, hlast, hentry⟩ := (locks_run hm before).entry hm hlimit
    exact ⟨t, hlast, LoginAttempts.checkLockout_locked hentry⟩

def defaultConfig : Config := ⟨10, 900, by norm_num⟩

/-- a wrong guess, and a right one of a change of the password that comes while the wrong one is being evaluated -/
theorem guesses_bounded_two : Bounded ⟨2, 900, by norm_num⟩ "alice" [.request .login "alice", .request .changePassword "alice",
    .unwrap 0 false, .recordFailure 0, .unwrap 1 true, .recordSuccess 1, .request .login "alice"] := by
  refine guesses_bounded _ (by decide) _ _ ⟨?_, ?_, trivial, trivial, trivial, trivial, ?_, trivial⟩ <;> intro _ attempts hok <;> cases hok <;> decide

/-! ## Without turns -/

namespace Guesses

variable {cfg : Config} {s : Guesses} {u : String}

/-- checks and derivations, with nothing counted yet -/
def Uncounted : Event → Prop
  | .request _ _ | .unwrap _ _ => True
  | _ => False

theorem uncounted_run {events : List Event} (h : ∀ x ∈ events, Uncounted x) (hs : s.attempts = fun _ => none) :
    (run (step cfg) s events).attempts = fun _ => none := by
  induction events generalizing s with
  | nil => exact hs
  | cons x events ih =>
    refine ih (fun y hy => h y (List.mem_cons_of_mem x hy)) ?_
    cases x with
    | request endpoint v => simp [step, LoginAttempts.checkLockout, hs]
    | unwrap i opened =>
      simp only [step]
      split <;> exact hs
    | wait _ | recordFailure _ | recordSuccess _ | giveUp _ => exact (h _ List.mem_cons_self).elim

theorem evaluations_append (events events' : List Event) : evaluations cfg u s (events ++ events') =
    evaluations cfg u s events + evaluations cfg u (run (step cfg) s events) events' := by
  induction events generalizing s with
  | nil => simp [evaluations, run]
  | cons x events ih =>
    rw [List.cons_append, evaluations, evaluations, ih, Run.run_cons, add_assoc]

/-- the logins that are let through -/
theorem run_requests (n : ℕ) : run (step cfg) new (List.replicate n (.request .login u)) =
    ⟨0, fun _ => none, List.replicate n (.checked .login u), fun _ => none⟩ := by
  induction n with
  | zero => rfl
  | succ n ih =>
    rw [Run.run_replicate_succ, ih, List.replicate_succ']
    rfl

theorem requests_fail (n : ℕ) : Along (step cfg) (fun s x => ¬s.Succeeds u x) s (List.replicate n (.request .login u)) := by
  induction n generalizing s with
  | zero => trivial
  | succ n ih => exact ⟨id, ih⟩

/-- wrong guesses of requests that were let through are evaluated, as many as there are -/
theorem evaluations_unwraps {indices : List ℕ} (hnodup : indices.Nodup)
    (h : ∀ i ∈ indices, s.requests[i]? = some (.checked .login u)) :
    evaluations cfg u s (indices.map fun i => .unwrap i false) = indices.length ∧
      Along (step cfg) (fun s x => ¬s.Succeeds u x) s (indices.map fun i => .unwrap i false) := by
  induction indices generalizing s with
  | nil => exact ⟨rfl, trivial⟩
  | cons i indices ih =>
    obtain ⟨hi, hnodup⟩ := List.nodup_cons.1 hnodup
    have hreq := h i List.mem_cons_self
    have hstep : s.step cfg (.unwrap i false) = s.goTo i (.unwrapped u false) := by simp [step, hreq]
    have hnext : ∀ j ∈ indices, (s.step cfg (.unwrap i false)).requests[j]? = some (.checked .login u) := by
      intro j hj
      have hij : i ≠ j := fun e => hi (e ▸ hj)
      rw [hstep, goTo, List.getElem?_set_ne hij]
      exact h j (List.mem_cons_of_mem i hj)
    obtain ⟨heval, hfail⟩ := ih hnodup hnext
    have hev : s.Evaluates u (.unwrap i false) := ⟨.login, hreq⟩
    refine ⟨?_, id, hfail⟩
    rw [List.map_cons, evaluations, if_pos hev, heval, List.length_cons, add_comm]

end Guesses

/-- logins that are all let through before the first of their wrong guesses is counted -/
def crowd (username : String) (n : ℕ) : List Event :=
  List.replicate n (.request .login username) ++ (List.range n).map fun i => .unwrap i false

theorem guesses_unbounded (cfg : Config) (hm : 1 ≤ cfg.maxFailedLogins) (username : String) (n : ℕ) (hn : cfg.maxFailedLogins < n) :
    ¬Bounded cfg username (crowd username n) := by
  intro h
  have hquiet : ∀ x ∈ crowd username n, Uncounted x := by
    intro x hx
    rcases List.mem_append.1 hx with hx | hx
    · rw [List.eq_of_mem_replicate hx]
      trivial
    · obtain ⟨i, -, rfl⟩ := List.mem_map.1 hx
      trivial
  have hunwraps := @evaluations_unwraps cfg (run (step cfg) new (List.replicate n (.request .login username))) username _
    (List.nodup_range (n := n)) fun i hi => by
      rw [run_requests]
      exact List.getElem?_replicate_of_lt (List.mem_range.1 hi)
  have heval : n ≤ evaluations cfg username new (crowd username n) := by
    rw [crowd, evaluations_append, hunwraps.1, List.length_range]
    exact Nat.le_add_left _ _
  rcases h.stretch [] (crowd username n) [] (by simp) ((requests_fail n).append hunwraps.2) with hle | ⟨a, x, b, hab, -, hlimit, -⟩
  · exact absurd (le_trans heval hle) (not_le.2 hn)
  · have hnone := @uncounted_run cfg new _ (fun y hy => hquiet y (hab ▸ List.mem_append_left _ hy)) rfl
    simp only [List.nil_append, LoginAttempts.failedCount, hnone, Option.map_none, Option.getD_none] at hlimit
    omega

/-- eleven wrong guesses of logins that were all let through before the first of them was counted -/
theorem eleventh_guess : ¬Bounded defaultConfig "alice" (crowd "alice" 11) :=
  guesses_unbounded defaultConfig (by decide) "alice" 11 (by decide)

end Y2q.Auth.Lockout
