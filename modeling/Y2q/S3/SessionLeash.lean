/-
The leash that ties an S3 transfer to its session (`SessionLeash` in `s3/auth.rs`, `leashed_upload` and `LeashedDownload` in `s3/body`).

The leash keeps the row it was built from and compares it with the one in the session store, by allocation, once enough bytes or time
have passed. The transfer runs among the operations of the session store, with both clocks moved freely between its steps. A chunk is
passed on in the step that notes it. The byte count is a `u64` and wraps.

- `Sessions.inner_step_of`: a step of the session store changes only the row that it `puts` or `drops`.
- `Inv`: the row under the token is the leash's, or will never be again. `Bound`: what is passed on once it is not, or has expired.
- `Valid`: the row is there and not expired; kept by steps that neither end the session nor complete a refresh of its token.
- `leash_exact`: fewer than `recheck_bytes` are passed on after the session ends; and without a refresh no valid session is aborted.
- `refresh_aborts`: with one it is.
-/
import Mathlib.Tactic
import Y2q.Core.Run
import Y2q.Auth.Sessions

namespace Y2q.Auth.Sessions

variable {ι : Type} {s : Sessions ι} {t : Token} {maxRefreshes : ℕ}

/-! ## The rows that a step changes -/

/-- the token under which a step puts a new row -/
def puts (s : Sessions ι) : Event ι → Option Token
  | .insert _ => some s.issued.length
  | .start _ _ => none
  | .step i ok =>
    match s.calls i with
    | some (.reissued ..) => if ok then some s.issued.length else none
    | some (.switching _ _ (k :: _) (some _)) => if ok then some k else none
    | _ => none

/-- the token whose row a step removes -/
def drops (s : Sessions ι) : Event ι → Option Token
  | .step i _ =>
    match s.calls i with
    | some (.replaced old) => some old
    | some (.revoking _ (k :: _)) => some k
    | some (.expiring (k :: _)) => some k
    | _ => none
  | _ => none

theorem inner_insert_of {k : Token} {info : SessionInfo ι} (h : k ≠ t) : (s.inner.insert k info)[t]? = s.inner[t]? := by
  rw [Table.getElem?_insert_iff, if_neg h]

theorem inner_erase_of {k : Token} (h : k ≠ t) : (s.inner.erase k)[t]? = s.inner[t]? := by
  rw [Table.getElem?_erase_iff, if_neg h]

/-- a step changes no other row -/
theorem inner_step_of {x : Event ι} (hput : s.puts x ≠ some t) (hdrop : s.drops x ≠ some t) :
    (s.step maxRefreshes x).inner[t]? = s.inner[t]? := by
  cases x with
  | insert info => exact inner_insert_of fun h => hput (congrArg some h)
  | start i c =>
    simp only [step]
    split
    · rfl
    · rw [startCall_inner]
  | step i ok =>
    simp only [step]
    split
    · rfl
    next c hcall =>
      simp only [puts, hcall] at hput
      simp only [drops, hcall] at hdrop
      cases c with
      | reissued old held expiresAt =>
        cases ok with
        | false => rfl
        | true => exact inner_insert_of fun h => hput (congrArg some h)
      | replaced old => exact inner_erase_of fun h => hdrop (congrArg some h)
      | revoking covered victims =>
        cases victims with
        | nil => rfl
        | cons v victims => exact inner_erase_of fun h => hdrop (congrArg some h)
      | expiring victims =>
        cases victims with
        | nil => rfl
        | cons v victims => exact inner_erase_of fun h => hdrop (congrArg some h)
      | switching target covered victims got =>
        cases victims with
        | nil => rfl
        | cons k victims =>
          cases got with
          | none =>
            simp only [stepCall]
            split <;> rfl
          | some old =>
            cases ok with
            | false => rfl
            | true => exact inner_insert_of fun h => hput (congrArg some h)

/-- a step that removes a row puts none -/
theorem puts_of_drops {x : Event ι} (h : s.drops x = some t) : s.puts x = none := by
  cases x with
  | insert info => cases h
  | start i c => rfl
  | step i ok =>
    simp only [drops] at h
    simp only [puts]
    split at h
    next old hcall => rw [hcall]
    next covered k victims hcall => rw [hcall]
    next k victims hcall => rw [hcall]
    next => cases h

/-- what a step removes is gone -/
theorem inner_drops {x : Event ι} (h : s.drops x = some t) : (s.step maxRefreshes x).inner[t]? = none := by
  have hgone : (s.inner.erase t)[t]? = none := by rw [Table.getElem?_erase_iff, if_pos rfl]
  cases x with
  | insert info => cases h
  | start i c => cases h
  | step i ok =>
    simp only [drops] at h
    split at h
    next old hcall =>
      cases h
      simp only [step, hcall]
      exact hgone
    next covered k victims hcall =>
      cases h
      simp only [step, hcall]
      exact hgone
    next k victims hcall =>
      cases h
      simp only [step, hcall]
      exact hgone
    next => cases h

end Y2q.Auth.Sessions

namespace Y2q.Leash

open Auth (Token SessionInfo Sessions Event Command Call)
open Run (Along run)

variable {ι : Type}

/-! ## Model -/

/-- the session store, and under each token which allocation there is: `Arc::ptr_eq` compares these -/
structure Store (ι : Type) where
  sessions : Sessions ι
  arcs : Token → ℕ

/-- the thresholds of the configuration, as it is checked -/
structure S3Config where
  recheckBytes : ℕ
  recheckInterval : ℕ
  bytes_ok : 64 * 1024 ≤ recheckBytes
  interval_ok : 1 ≤ recheckInterval

inductive S3Error where
  | expiredToken (message : String)
deriving DecidableEq, Repr

structure SessionLeash (ι : Type) where
  tokenHash : Token
  /-- the row that the request authenticated against, and its allocation -/
  session : SessionInfo ι
  arc : ℕ
  bytesSinceCheck : ℕ
  lastCheck : ℕ

/-- the adapters that hold a leash; a stream of the first is over after an error -/
inductive Adapter where
  | leashedUpload
  | leashedDownload
deriving DecidableEq, Repr

variable (maxRefreshes : ℕ) (cfg : S3Config)

namespace Store

def new : Store ι := ⟨.new, fun _ => 0⟩

/-- a new row is a new allocation -/
def step (st : Store ι) (x : Event ι) : Store ι where
  sessions := st.sessions.step maxRefreshes x
  arcs :=
    match st.sessions.puts x with
    | none => st.arcs
    | some t => Function.update st.arcs t (st.arcs t + 1)

/-- the row that `get_active` returns -/
def active (st : Store ι) (t : Token) (now : ℕ) : Option (SessionInfo ι × ℕ) :=
  match st.sessions.inner[t]? with
  | none => none
  | some info => if info.isExpired now then none else some (info, st.arcs t)

/-- `get_active`, as call `i`, which has an expired row still to remove -/
def getActive (st : Store ι) (i : ℕ) (t : Token) (now : ℕ) : Store ι × Option (SessionInfo ι × ℕ) :=
  (st.step maxRefreshes (.start i (.getActive t now)), st.active t now)

end Store

namespace SessionLeash

/-- also `checkpoint` -/
def force (l : SessionLeash ι) (st : Store ι) (i wall uptime : ℕ) : Store ι × SessionLeash ι × Except S3Error Unit :=
  match st.getActive maxRefreshes i l.tokenHash wall with
  | (st, none) => (st, l, .error (.expiredToken "session expired during transfer"))
  | (st, some (_, arc)) =>
    if arc ≠ l.arc then (st, l, .error (.expiredToken "session changed during transfer"))
    else (st, { l with lastCheck := uptime }, .ok ())

/-- account for `n` bytes, and check if either threshold is reached -/
def note (l : SessionLeash ι) (st : Store ι) (i wall uptime n : ℕ) : Store ι × SessionLeash ι × Except S3Error Unit :=
  let l := { l with bytesSinceCheck := (l.bytesSinceCheck + n) % 2 ^ 64 }
  if cfg.recheckBytes ≤ l.bytesSinceCheck ∨ cfg.recheckInterval ≤ uptime - l.lastCheck then
    match l.force maxRefreshes st i wall uptime with
    | (st, l, .error e) => (st, l, .error e)
    | (st, l, .ok ()) => (st, { l with bytesSinceCheck := 0 }, .ok ())
  else (st, l, .ok ())

end SessionLeash

/-- a transfer among the operations of the session store -/
structure Transfer (ι : Type) where
  store : Store ι
  /-- `SystemTime::now` and `Instant::now` -/
  wall : ℕ
  uptime : ℕ
  leash : SessionLeash ι
  /-- bytes passed on -/
  passed : ℕ
  /-- the leash has given an error -/
  aborted : Bool

inductive Action (ι : Type) where
  | store (x : Event ι)
  /-- the wall clock is set, and time passes -/
  | clock (wall elapsed : ℕ)
  | chunk (i n : ℕ)
  | checkpoint (i : ℕ)

/-- an operation of the session store reads the clock -/
def readClock (now : ℕ) : Event ι → Event ι
  | .start i (.getActive t _) => .start i (.getActive t now)
  | .start i (.sweep _) => .start i (.sweep now)
  | x => x

namespace Transfer

/-- a request authenticated against the row, with the leash built at `built` -/
def start (st : Store ι) (wall uptime built : ℕ) (t : Token) (row : SessionInfo ι × ℕ) : Transfer ι :=
  ⟨st, wall, uptime, ⟨t, row.1, row.2, 0, built⟩, 0, false⟩

def step (adapter : Adapter) (s : Transfer ι) : Action ι → Transfer ι
  | .store x => { s with store := s.store.step maxRefreshes (readClock s.wall x) }
  | .clock wall elapsed => { s with wall := wall, uptime := s.uptime + elapsed }
  | .chunk i n =>
    if adapter = .leashedUpload ∧ s.aborted then s
    else
      match s.leash.note maxRefreshes cfg s.store i s.wall s.uptime n with
      | (st, l, .ok ()) => { s with store := st, leash := l, passed := s.passed + n }
      | (st, l, .error _) => { s with store := st, leash := l, aborted := true }
  | .checkpoint i =>
    if adapter = .leashedUpload ∧ s.aborted then s
    else
      match s.leash.force maxRefreshes s.store i s.wall s.uptime with
      | (st, l, .ok ()) => { s with store := st, leash := l }
      | (st, l, .error _) => { s with store := st, leash := l, aborted := true }

variable (s : Transfer ι)

/-! ## The session of a transfer -/

/-- the row that the leash holds is no longer in the store: revoked, rewritten for another persona, or refreshed -/
def Gone : Prop := ∀ info, s.store.sessions.inner[s.leash.tokenHash]? = some info → s.store.arcs s.leash.tokenHash ≠ s.leash.arc

def Expired : Prop := s.leash.session.expiresAt ≤ s.wall

def Over : Prop := s.Gone ∨ s.Expired

/-- the steps that end the session -/
inductive Ends (s : Transfer ι) : Action ι → Prop where
  | revoked {i : ℕ} {ok : Bool} {covered victims : List Token}
    (hcall : s.store.sessions.calls i = some (.revoking covered (s.leash.tokenHash :: victims))) : Ends s (.store (.step i ok))
  /-- another call that found it expired -/
  | swept {i : ℕ} {ok : Bool} {victims : List Token}
    (hcall : s.store.sessions.calls i = some (.expiring (s.leash.tokenHash :: victims))) : Ends s (.store (.step i ok))
  | switched {i : ℕ} {target : Auth.Switch ι} {covered victims : List Token} {old : SessionInfo ι}
    (hcall : s.store.sessions.calls i = some (.switching target covered (s.leash.tokenHash :: victims) (some old))) :
    Ends s (.store (.step i true))
  | expired {wall elapsed : ℕ} (hpast : s.leash.session.expiresAt ≤ wall) : Ends s (.clock wall elapsed)

/-- the step with which a refresh of the token removes its row -/
inductive Refreshes (s : Transfer ι) : Action ι → Prop where
  | replaced {i : ℕ} {ok : Bool} (hcall : s.store.sessions.calls i = some (.replaced s.leash.tokenHash)) :
    Refreshes s (.store (.step i ok))

/-- the byte count does not wrap -/
def Counts : Action ι → Prop
  | .chunk _ n => s.leash.bytesSinceCheck + n < 2 ^ 64
  | _ => True

/-- the clock is not set back before the expiry of a row that is still there -/
def StaysOver : Action ι → Prop
  | .clock wall _ => s.Gone ∨ s.leash.session.expiresAt ≤ wall
  | _ => True

/-- what a check finds in order -/
def Passes : Prop := ∃ info, s.store.active s.leash.tokenHash s.wall = some (info, s.leash.arc)

end Transfer

/-! ## The store -/

variable {maxRefreshes : ℕ} {cfg : S3Config}

namespace Store

variable {st : Store ι} {t : Token} {now : ℕ}

theorem active_eq_some {info : SessionInfo ι} {arc : ℕ} (h : st.active t now = some (info, arc)) :
    st.sessions.inner[t]? = some info ∧ now < info.expiresAt ∧ st.arcs t = arc := by
  unfold active at h
  split at h
  · cases h
  next row hrow =>
    split_ifs at h with hexp
    cases h
    exact ⟨hrow, by simpa [SessionInfo.isExpired] using hexp, rfl⟩

theorem active_of {info : SessionInfo ι} (h : st.sessions.inner[t]? = some info) (hnow : now < info.expiresAt) :
    st.active t now = some (info, st.arcs t) := by
  have hexp : info.isExpired now = false := by simpa [SessionInfo.isExpired] using hnow
  simp only [active, h, hexp, Bool.false_eq_true, if_false]

/-- what a step does under one token -/
theorem step_at (st : Store ι) (t : Token) (x : Event ι) :
    (st.sessions.puts x = some t ∧ (st.step maxRefreshes x).arcs t = st.arcs t + 1) ∨
    (st.sessions.drops x = some t ∧ (st.step maxRefreshes x).arcs t = st.arcs t ∧
      (st.step maxRefreshes x).sessions.inner[t]? = none) ∨
    ((st.step maxRefreshes x).arcs t = st.arcs t ∧ (st.step maxRefreshes x).sessions.inner[t]? = st.sessions.inner[t]?) := by
  by_cases hput : st.sessions.puts x = some t
  · refine Or.inl ⟨hput, ?_⟩
    simp only [step, hput, Function.update_self]
  · have harc : (st.step maxRefreshes x).arcs t = st.arcs t := by
      cases hk : st.sessions.puts x with
      | none => simp only [step, hk]
      | some k =>
        simp only [step, hk]
        exact Function.update_of_ne (fun h => hput (hk.trans (congrArg some h.symm))) _ _
    by_cases hdrop : st.sessions.drops x = some t
    · exact Or.inr (Or.inl ⟨hdrop, harc, Sessions.inner_drops hdrop⟩)
    · exact Or.inr (Or.inr ⟨harc, Sessions.inner_step_of hput hdrop⟩)

theorem arcs_le_step (st : Store ι) (t : Token) (x : Event ι) : st.arcs t ≤ (st.step maxRefreshes x).arcs t := by
  rcases @step_at ι maxRefreshes st t x with ⟨-, h⟩ | ⟨-, h, -⟩ | ⟨h, -⟩ <;> omega

end Store

/-! ## Checks -/

namespace SessionLeash

variable {l : SessionLeash ι} {st : Store ι} {i wall uptime n : ℕ}

/-- the row is there, not expired and the leash's own, or the check fails -/
theorem force_cases (l : SessionLeash ι) (st : Store ι) (i wall uptime : ℕ) :
    ((∃ info, st.active l.tokenHash wall = some (info, l.arc)) ∧ l.force maxRefreshes st i wall uptime =
      (st.step maxRefreshes (.start i (.getActive l.tokenHash wall)), { l with lastCheck := uptime }, .ok ())) ∨
    ((¬∃ info, st.active l.tokenHash wall = some (info, l.arc)) ∧ ∃ e, l.force maxRefreshes st i wall uptime =
      (st.step maxRefreshes (.start i (.getActive l.tokenHash wall)), l, .error e)) := by
  simp only [force, Store.getActive]
  cases hactive : st.active l.tokenHash wall with
  | none => exact Or.inr ⟨nofun, _, rfl⟩
  | some row =>
    obtain ⟨info, arc⟩ := row
    by_cases harc : arc = l.arc
    · subst harc
      refine Or.inl ⟨⟨info, rfl⟩, ?_⟩
      simp only [ne_eq, not_true_eq_false, if_false]
    · simp only [ne_eq, harc, not_false_eq_true, if_true]
      refine Or.inr ⟨?_, _, rfl⟩
      rintro ⟨info', hinfo⟩
      cases hinfo
      exact harc rfl

end SessionLeash

namespace Transfer

variable {adapter : Adapter} {s : Transfer ι}

theorem step_chunk (s : Transfer ι) (i n : ℕ) :
    s.step maxRefreshes cfg adapter (.chunk i n) = s ∨
    ((s.leash.bytesSinceCheck + n) % 2 ^ 64 < cfg.recheckBytes ∧ s.step maxRefreshes cfg adapter (.chunk i n) =
      { s with leash := { s.leash with bytesSinceCheck := (s.leash.bytesSinceCheck + n) % 2 ^ 64 }, passed := s.passed + n }) ∨
    (s.Passes ∧ s.step maxRefreshes cfg adapter (.chunk i n) =
      { s with
        store := s.store.step maxRefreshes (.start i (.getActive s.leash.tokenHash s.wall))
        leash := { s.leash with bytesSinceCheck := 0, lastCheck := s.uptime }
        passed := s.passed + n }) ∨
    (¬s.Passes ∧ s.step maxRefreshes cfg adapter (.chunk i n) =
      { s with
        store := s.store.step maxRefreshes (.start i (.getActive s.leash.tokenHash s.wall))
        leash := { s.leash with bytesSinceCheck := (s.leash.bytesSinceCheck + n) % 2 ^ 64 }
        aborted := true }) := by
  simp only [step]
  split_ifs with hover
  · exact Or.inl rfl
  · refine Or.inr ?_
    simp only [SessionLeash.note]
    split_ifs with hdue
    · refine Or.inr ?_
      rcases @SessionLeash.force_cases ι maxRefreshes { s.leash with bytesSinceCheck := (s.leash.bytesSinceCheck + n) % 2 ^ 64 }
        s.store i s.wall s.uptime with ⟨hpass, heq⟩ | ⟨hfail, e, heq⟩
      · rw [heq]
        exact Or.inl ⟨hpass, rfl⟩
      · rw [heq]
        exact Or.inr ⟨hfail, rfl⟩
    · exact Or.inl ⟨by omega, rfl⟩

theorem step_checkpoint (s : Transfer ι) (i : ℕ) :
    s.step maxRefreshes cfg adapter (.checkpoint i) = s ∨
    (s.Passes ∧ s.step maxRefreshes cfg adapter (.checkpoint i) =
      { s with
        store := s.store.step maxRefreshes (.start i (.getActive s.leash.tokenHash s.wall))
        leash := { s.leash with lastCheck := s.uptime } }) ∨
    (¬s.Passes ∧ s.step maxRefreshes cfg adapter (.checkpoint i) =
      { s with store := s.store.step maxRefreshes (.start i (.getActive s.leash.tokenHash s.wall)), aborted := true }) := by
  simp only [step]
  split_ifs with hover
  · exact Or.inl rfl
  · refine Or.inr ?_
    rcases @SessionLeash.force_cases ι maxRefreshes s.leash s.store i s.wall s.uptime with ⟨hpass, heq⟩ | ⟨hfail, e, heq⟩
    · rw [heq]
      exact Or.inl ⟨hpass, rfl⟩
    · rw [heq]
      exact Or.inr ⟨hfail, rfl⟩

theorem step_store (s : Transfer ι) (a : Action ι) : (s.step maxRefreshes cfg adapter a).store = s.store ∨
    ∃ x, (s.step maxRefreshes cfg adapter a).store = s.store.step maxRefreshes x := by
  cases a with
  | store x => exact Or.inr ⟨_, rfl⟩
  | clock wall elapsed => exact Or.inl rfl
  | chunk i n =>
    rcases @step_chunk ι maxRefreshes cfg adapter s i n with h | ⟨-, h⟩ | ⟨-, h⟩ | ⟨-, h⟩
    · exact Or.inl (by rw [h])
    · exact Or.inl (by rw [h])
    · exact Or.inr ⟨_, by rw [h]⟩
    · exact Or.inr ⟨_, by rw [h]⟩
  | checkpoint i =>
    rcases @step_checkpoint ι maxRefreshes cfg adapter s i with h | ⟨-, h⟩ | ⟨-, h⟩
    · exact Or.inl (by rw [h])
    · exact Or.inr ⟨_, by rw [h]⟩
    · exact Or.inr ⟨_, by rw [h]⟩

/-- the leash keeps its row -/
theorem step_leash (s : Transfer ι) (a : Action ι) :
    (s.step maxRefreshes cfg adapter a).leash.tokenHash = s.leash.tokenHash ∧
    (s.step maxRefreshes cfg adapter a).leash.arc = s.leash.arc ∧
    (s.step maxRefreshes cfg adapter a).leash.session = s.leash.session := by
  cases a with
  | store x => exact ⟨rfl, rfl, rfl⟩
  | clock wall elapsed => exact ⟨rfl, rfl, rfl⟩
  | chunk i n => rcases @step_chunk ι maxRefreshes cfg adapter s i n with h | ⟨-, h⟩ | ⟨-, h⟩ | ⟨-, h⟩ <;> rw [h] <;> exact ⟨rfl, rfl, rfl⟩
  | checkpoint i => rcases @step_checkpoint ι maxRefreshes cfg adapter s i with h | ⟨-, h⟩ | ⟨-, h⟩ <;> rw [h] <;> exact ⟨rfl, rfl, rfl⟩

/-! ## Every run -/

/-- the row of the leash was put under its token and has not come back since -/
structure Inv (maxRefreshes : ℕ) (s : Transfer ι) : Prop where
  issued : s.store.sessions.Issued maxRefreshes
  token : s.leash.tokenHash < s.store.sessions.issued.length
  arc : s.leash.arc ≤ s.store.arcs s.leash.tokenHash
  row : ∀ info, s.store.sessions.inner[s.leash.tokenHash]? = some info → s.store.arcs s.leash.tokenHash = s.leash.arc →
    info = s.leash.session

/-- the same for a store that is one step further -/
theorem Inv.store (h : s.Inv maxRefreshes) (x : Event ι) : Inv maxRefreshes { s with store := s.store.step maxRefreshes x } where
  issued := h.issued.step x
  token := h.token.trans_le (Sessions.length_step x)
  arc := h.arc.trans (Store.arcs_le_step _ _ x)
  row := fun info hinfo harc => by
    rcases @Store.step_at ι maxRefreshes s.store s.leash.tokenHash x with ⟨-, hput⟩ | ⟨-, -, hnone⟩ | ⟨hsame, hrow⟩
    · have := h.arc
      simp only [hput] at harc
      omega
    · simp only [hnone] at hinfo
      cases hinfo
    · exact h.row info (hrow ▸ hinfo) (hsame ▸ harc)

theorem Inv.step (h : s.Inv maxRefreshes) (a : Action ι) : (s.step maxRefreshes cfg adapter a).Inv maxRefreshes := by
  obtain ⟨htoken, harc, hsession⟩ := @step_leash ι maxRefreshes cfg adapter s a
  have hstore : ∀ st, (s.step maxRefreshes cfg adapter a).store = st → Inv maxRefreshes { s with store := st } →
      (s.step maxRefreshes cfg adapter a).Inv maxRefreshes := by
    rintro st rfl hst
    exact ⟨hst.issued, htoken ▸ hst.token, by rw [htoken, harc]; exact hst.arc, by rw [htoken, harc, hsession]; exact hst.row⟩
  rcases @step_store ι maxRefreshes cfg adapter s a with hsame | ⟨x, hx⟩
  · exact hstore _ hsame h
  · exact hstore _ hx (h.store x)

theorem Gone.store (h : s.Inv maxRefreshes) (hgone : s.Gone) (x : Event ι) : Gone { s with store := s.store.step maxRefreshes x } := by
  intro info hinfo
  rcases @Store.step_at ι maxRefreshes s.store s.leash.tokenHash x with ⟨-, hput⟩ | ⟨-, -, hnone⟩ | ⟨hsame, hrow⟩
  · have := h.arc
    simp only [hput]
    omega
  · simp only [hnone] at hinfo
    cases hinfo
  · simp only [hsame]
    exact hgone info (hrow ▸ hinfo)

/-- a row that is gone stays gone -/
theorem Gone.step (h : s.Inv maxRefreshes) (hgone : s.Gone) (a : Action ι) : (s.step maxRefreshes cfg adapter a).Gone := by
  obtain ⟨htoken, harc, -⟩ := @step_leash ι maxRefreshes cfg adapter s a
  have hstore : ∀ st, (s.step maxRefreshes cfg adapter a).store = st → Gone { s with store := st } →
      (s.step maxRefreshes cfg adapter a).Gone := by
    rintro st rfl hst
    unfold Gone
    rw [htoken, harc]
    exact hst
  rcases @step_store ι maxRefreshes cfg adapter s a with hsame | ⟨x, hx⟩
  · exact hstore _ hsame hgone
  · exact hstore _ hx (hgone.store h x)

theorem step_wall (s : Transfer ι) (a : Action ι) : (s.step maxRefreshes cfg adapter a).wall = s.wall ∨
    ∃ elapsed, a = .clock (s.step maxRefreshes cfg adapter a).wall elapsed := by
  cases a with
  | store x => exact Or.inl rfl
  | clock wall elapsed => exact Or.inr ⟨elapsed, rfl⟩
  | chunk i n => rcases @step_chunk ι maxRefreshes cfg adapter s i n with h | ⟨-, h⟩ | ⟨-, h⟩ | ⟨-, h⟩ <;> exact Or.inl (by rw [h])
  | checkpoint i => rcases @step_checkpoint ι maxRefreshes cfg adapter s i with h | ⟨-, h⟩ | ⟨-, h⟩ <;> exact Or.inl (by rw [h])

theorem Over.step (h : s.Inv maxRefreshes) (hover : s.Over) {a : Action ι} (ha : s.StaysOver a) :
    (s.step maxRefreshes cfg adapter a).Over := by
  rcases hover with hgone | hexp
  · exact Or.inl (hgone.step h a)
  · obtain ⟨-, -, hsession⟩ := @step_leash ι maxRefreshes cfg adapter s a
    rcases @step_wall ι maxRefreshes cfg adapter s a with hwall | ⟨elapsed, hclock⟩
    · exact Or.inr (by unfold Expired; rw [hsession, hwall]; exact hexp)
    · rw [hclock] at ha
      rcases ha with hgone | hlate
      · exact Or.inl (hgone.step h a)
      · exact Or.inr (by unfold Expired; rw [hsession]; exact hlate)

/-- no check passes once the session is over -/
theorem Over.fails (h : s.Inv maxRefreshes) (hover : s.Over) : ¬s.Passes := by
  rintro ⟨info, hactive⟩
  obtain ⟨hrow, hnow, harc⟩ := Store.active_eq_some hactive
  rcases hover with hgone | hexp
  · exact hgone info hrow harc
  · rw [h.row info hrow harc] at hnow
    exact absurd hexp (not_le.2 hnow)

/-- what has been passed on since `s₁`, against the byte count -/
structure Bound (cfg : S3Config) (maxRefreshes : ℕ) (s s₁ : Transfer ι) : Prop where
  inv : s.Inv maxRefreshes
  ended : s.Over
  counted : s.passed + s₁.leash.bytesSinceCheck ≤ s₁.passed + s.leash.bytesSinceCheck
  bounded : s.passed < s₁.passed + cfg.recheckBytes

theorem Bound.step {s₁ : Transfer ι} {a : Action ι} (h : s.Bound cfg maxRefreshes s₁) (hcount : s.Counts a) (hstays : s.StaysOver a) :
    (s.step maxRefreshes cfg adapter a).Bound cfg maxRefreshes s₁ := by
  have hinv : (s.step maxRefreshes cfg adapter a).Inv maxRefreshes := h.inv.step a
  have hended : (s.step maxRefreshes cfg adapter a).Over := h.ended.step h.inv hstays
  have hfails := h.ended.fails h.inv
  have hcounted := h.counted
  have hbounded := h.bounded
  cases a with
  | store x => exact ⟨hinv, hended, hcounted, hbounded⟩
  | clock wall elapsed => exact ⟨hinv, hended, hcounted, hbounded⟩
  | chunk i n =>
    have hmod : (s.leash.bytesSinceCheck + n) % 2 ^ 64 = s.leash.bytesSinceCheck + n := Nat.mod_eq_of_lt hcount
    rcases @step_chunk ι maxRefreshes cfg adapter s i n with heq | ⟨hlt, heq⟩ | ⟨hpass, -⟩ | ⟨-, heq⟩
    · rw [heq]
      exact h
    · -- below the threshold: what is passed on is counted
      rw [hmod] at hlt
      rw [heq] at hinv hended ⊢
      refine ⟨hinv, hended, ?_, ?_⟩
      · simp only [hmod]
        omega
      · simp only
        omega
    · exact absurd hpass hfails
    · rw [heq] at hinv hended ⊢
      refine ⟨hinv, hended, ?_, hbounded⟩
      simp only [hmod]
      omega
  | checkpoint i =>
    rcases @step_checkpoint ι maxRefreshes cfg adapter s i with heq | ⟨hpass, -⟩ | ⟨-, heq⟩
    · rw [heq]
      exact h
    · exact absurd hpass hfails
    · rw [heq] at hinv hended ⊢
      exact ⟨hinv, hended, hcounted, hbounded⟩

theorem inv_run (h : s.Inv maxRefreshes) (actions : List (Action ι)) :
    (run (step maxRefreshes cfg adapter) s actions).Inv maxRefreshes := by
  induction actions generalizing s with
  | nil => exact h
  | cons a actions ih => exact ih (h.step a)

/-- from a state in which the session is over fewer bytes than the threshold are passed on -/
theorem passed_lt (h : s.Inv maxRefreshes) (hover : s.Over) {actions : List (Action ι)}
    (halong : Along (step maxRefreshes cfg adapter) (fun s a => s.Counts a ∧ s.StaysOver a) s actions) :
    (run (step maxRefreshes cfg adapter) s actions).passed < s.passed + cfg.recheckBytes := by
  have hpos : 0 < cfg.recheckBytes := (by norm_num : 0 < 64 * 1024).trans_le cfg.bytes_ok
  have hstart : s.Bound cfg maxRefreshes s := ⟨h, hover, le_rfl, Nat.lt_add_of_pos_right hpos⟩
  exact (halong.inv (I := fun s' => Bound cfg maxRefreshes s' s) (fun _ _ hb ha => hb.step ha.1 ha.2) hstart).bounded

/-! ## Sessions that stay valid -/

/-- the row of the leash is in the store and has not expired -/
structure Valid (maxRefreshes : ℕ) (s : Transfer ι) : Prop where
  inv : s.Inv maxRefreshes
  live : s.store.sessions.inner[s.leash.tokenHash]? = some s.leash.session
  arc : s.store.arcs s.leash.tokenHash = s.leash.arc
  early : s.wall < s.leash.session.expiresAt
  going : s.aborted = false

theorem Valid.passes (h : s.Valid maxRefreshes) : s.Passes := ⟨s.leash.session, h.arc ▸ Store.active_of h.live h.early⟩

theorem puts_readClock (st : Sessions ι) (now : ℕ) (x : Event ι) : st.puts (readClock now x) = st.puts x := by
  cases x with
  | start i c => cases c <;> rfl
  | _ => rfl

theorem drops_readClock (st : Sessions ι) (now : ℕ) (x : Event ι) : st.drops (readClock now x) = st.drops x := by
  cases x with
  | start i c => cases c <;> rfl
  | _ => rfl

/-- only a switch puts a row under a token that is there -/
theorem ends_of_puts {x : Event ι} (hlt : s.leash.tokenHash < s.store.sessions.issued.length)
    (h : s.store.sessions.puts x = some s.leash.tokenHash) : s.Ends (.store x) := by
  cases x with
  | insert info => exact absurd (Option.some.inj h) hlt.ne'
  | start i c => cases h
  | step i ok =>
    simp only [Sessions.puts] at h
    split at h
    · split_ifs at h
      exact absurd (Option.some.inj h) hlt.ne'
    next target covered k victims old hcall =>
      split_ifs at h with hok
      cases h
      rw [hok]
      exact .switched hcall
    · cases h

theorem ends_of_drops {x : Event ι} (h : s.store.sessions.drops x = some s.leash.tokenHash) :
    s.Ends (.store x) ∨ s.Refreshes (.store x) := by
  cases x with
  | insert info => cases h
  | start i c => cases h
  | step i ok =>
    simp only [Sessions.drops] at h
    split at h
    next old hcall =>
      cases h
      exact Or.inr (.replaced hcall)
    next covered k victims hcall =>
      cases h
      exact Or.inl (.revoked hcall)
    next k victims hcall =>
      cases h
      exact Or.inl (.swept hcall)
    next => cases h

/-- a step that neither ends the session nor completes a refresh leaves the row as it is -/
theorem Valid.store (h : s.Valid maxRefreshes) {x : Event ι} (hput : s.store.sessions.puts x ≠ some s.leash.tokenHash)
    (hdrop : s.store.sessions.drops x ≠ some s.leash.tokenHash) :
    Valid maxRefreshes { s with store := s.store.step maxRefreshes x } := by
  rcases @Store.step_at ι maxRefreshes s.store s.leash.tokenHash x with ⟨hx, -⟩ | ⟨hx, -⟩ | ⟨harc, hrow⟩
  · exact absurd hx hput
  · exact absurd hx hdrop
  · exact ⟨h.inv.store x, hrow.trans h.live, harc.trans h.arc, h.early, h.going⟩

theorem Valid.step (h : s.Valid maxRefreshes) {a : Action ι} (hends : ¬s.Ends a) (hrefresh : ¬s.Refreshes a) :
    (s.step maxRefreshes cfg adapter a).Valid maxRefreshes := by
  have hcheck (i : ℕ) : Valid maxRefreshes
      { s with store := s.store.step maxRefreshes (.start i (.getActive s.leash.tokenHash s.wall)) } := h.store nofun nofun
  cases a with
  | store x =>
    refine h.store (fun hput => hends (ends_of_puts h.inv.token (puts_readClock _ s.wall x ▸ hput))) fun hdrop => ?_
    exact (ends_of_drops (drops_readClock _ s.wall x ▸ hdrop)).elim hends hrefresh
  | clock wall elapsed =>
    exact ⟨⟨h.inv.issued, h.inv.token, h.inv.arc, h.inv.row⟩, h.live, h.arc, not_le.1 fun hpast => hends (.expired hpast), h.going⟩
  | chunk i n =>
    rcases @step_chunk ι maxRefreshes cfg adapter s i n with heq | ⟨-, heq⟩ | ⟨-, heq⟩ | ⟨hfail, -⟩
    · rw [heq]
      exact h
    · rw [heq]
      exact ⟨⟨h.inv.issued, h.inv.token, h.inv.arc, h.inv.row⟩, h.live, h.arc, h.early, h.going⟩
    · rw [heq]
      have hc := hcheck i
      exact ⟨⟨hc.inv.issued, hc.inv.token, hc.inv.arc, hc.inv.row⟩, hc.live, hc.arc, hc.early, hc.going⟩
    · exact absurd h.passes hfail
  | checkpoint i =>
    rcases @step_checkpoint ι maxRefreshes cfg adapter s i with heq | ⟨-, heq⟩ | ⟨hfail, -⟩
    · rw [heq]
      exact h
    · rw [heq]
      have hc := hcheck i
      exact ⟨⟨hc.inv.issued, hc.inv.token, hc.inv.arc, hc.inv.row⟩, hc.live, hc.arc, hc.early, hc.going⟩
    · exact absurd h.passes hfail

/-- after a step that ends the session it is over -/
theorem Ends.ended (h : s.Inv maxRefreshes) {a : Action ι} (hends : s.Ends a) : (s.step maxRefreshes cfg adapter a).Over := by
  have hdropped : ∀ i ok, s.store.sessions.drops (.step i ok) = some s.leash.tokenHash →
      (s.step maxRefreshes cfg adapter (.store (.step i ok))).Over := by
    intro i ok hdrop
    refine Or.inl fun info hinfo => ?_
    have hnone : (s.store.sessions.step maxRefreshes (.step i ok)).inner[s.leash.tokenHash]? = none := Sessions.inner_drops hdrop
    exact absurd (hnone.symm.trans hinfo) nofun
  cases hends with
  | revoked hcall => exact hdropped _ _ (by simp only [Sessions.drops, hcall])
  | swept hcall => exact hdropped _ _ (by simp only [Sessions.drops, hcall])
  | @switched i target covered victims old hcall =>
    have hput : s.store.sessions.puts (.step i true) = some s.leash.tokenHash := by simp only [Sessions.puts, hcall, if_true]
    refine Or.inl fun info _ => ?_
    have harc := h.arc
    change (s.store.step maxRefreshes (.step i true)).arcs s.leash.tokenHash ≠ s.leash.arc
    simp only [Store.step, hput, Function.update_self]
    omega
  | expired hpast => exact Or.inr hpast

/-- the request that begins a transfer -/
theorem valid_start {st : Store ι} {wall uptime built : ℕ} {t : Token} {row : SessionInfo ι × ℕ}
    (hissued : st.sessions.Issued maxRefreshes) (hactive : st.active t wall = some row) :
    (start st wall uptime built t row).Valid maxRefreshes := by
  obtain ⟨hrow, hnow, harc⟩ := Store.active_eq_some hactive
  refine ⟨⟨hissued, (hissued.row t row.1 hrow).lt, harc.ge, fun info hinfo _ => ?_⟩, hrow, harc, hnow, rfl⟩
  exact Option.some.inj (hinfo.symm.trans hrow)

theorem issued_run (events : List (Event ι)) : (run (Store.step maxRefreshes) Store.new events).sessions.Issued maxRefreshes := by
  induction events using List.reverseRecOn with
  | nil => exact Sessions.Issued.new
  | append_singleton events x ih =>
    rw [Run.run_append]
    exact ih.step x

/-- once the session is over fewer than `recheck_bytes` are passed on, if the count does not wrap; and a session that no step ends is not
aborted, if no refresh of its token completes -/
theorem leash_exact (cfg : S3Config) (adapter : Adapter) (events : List (Event ι)) (wall uptime built : ℕ) (t : Token)
    (row : SessionInfo ι × ℕ) (hactive : (run (Store.step maxRefreshes) Store.new events).active t wall = some row) :
    let s₀ := start (run (Store.step maxRefreshes) Store.new events) wall uptime built t row
    let next := step maxRefreshes cfg adapter
    (∀ before a, (run next s₀ before).Ends a → (next (run next s₀ before) a).Over) ∧
    (∀ before after, (run next s₀ before).Over →
      Along next (fun s a => s.Counts a ∧ s.StaysOver a) (run next s₀ before) after →
      (run next (run next s₀ before) after).passed < (run next s₀ before).passed + cfg.recheckBytes) ∧
    ∀ actions, Along next (fun s a => ¬s.Ends a ∧ ¬s.Refreshes a) s₀ actions → (run next s₀ actions).aborted = false := by
  intro s₀ next
  have hvalid : s₀.Valid maxRefreshes := valid_start (issued_run events) hactive
  refine ⟨fun before a hends => ?_, fun before after hover halong => ?_, fun actions halong => ?_⟩
  · exact hends.ended (inv_run hvalid.inv before)
  · exact passed_lt (inv_run hvalid.inv before) hover halong
  · exact (halong.inv (I := Valid maxRefreshes) (fun _ _ hv ha => hv.step ha.1 ha.2) hvalid).going

/-! ## Two transfers -/

/-- 64 KiB, an hour -/
def config : S3Config := ⟨65536, 3600, by norm_num, by norm_num⟩

/-- an upload of alice's, whose session expires at 60 -/
def upload : Transfer Unit :=
  start (run (Store.step 3) Store.new [.insert Sessions.aliceRow]) 10 0 0 0 ({ Sessions.aliceRow with refreshCount := 0 }, 1)

def started : Action Unit := .store (.start 0 (.revoke 0))

def removed : Action Unit := .store (.step 0 true)

/-- the upload after a revocation -/
def revoked : Transfer Unit := run (step 3 config .leashedUpload) upload [started, removed]

theorem counts_revoked : revoked.Counts (.chunk 1 65535) ∧
    (step 3 config .leashedUpload revoked (.chunk 1 65535)).Counts (.chunk 1 1) := by
  have hnone : revoked.leash.bytesSinceCheck = 0 := rfl
  have hfirst : (step 3 config .leashedUpload revoked (.chunk 1 65535)).leash.bytesSinceCheck = 65535 := rfl
  constructor
  · change revoked.leash.bytesSinceCheck + 65535 < 2 ^ 64
    rw [hnone]
    norm_num
  · change (step 3 config .leashedUpload revoked (.chunk 1 65535)).leash.bytesSinceCheck + 1 < 2 ^ 64
    rw [hfirst]
    norm_num

/-- of two chunks the first stays below the threshold -/
theorem leash_exact_revoked :
    (run (step 3 config .leashedUpload) revoked [.chunk 1 65535, .chunk 1 1]).passed < revoked.passed + config.recheckBytes := by
  obtain ⟨hends, hbound, -⟩ := @leash_exact Unit 3 config .leashedUpload [.insert Sessions.aliceRow] 10 0 0 0
    ({ Sessions.aliceRow with refreshCount := 0 }, 1) rfl
  have hover : revoked.Over := hends [started] removed (.revoked rfl)
  exact hbound [started, removed] [.chunk 1 65535, .chunk 1 1] hover ⟨⟨counts_revoked.1, trivial⟩, ⟨counts_revoked.2, trivial⟩, trivial⟩

/-- the token is refreshed, and then a chunk reaches the threshold -/
def refreshed : List (Action Unit) :=
  [.store (.start 0 (.reissue 0 90)), .store (.step 0 true), .store (.step 0 true), .chunk 1 65536]

/-- no step ends the session, which goes on under its new token, but the transfer is aborted -/
theorem refresh_aborts : ∃ (adapter : Adapter) (actions : List (Action Unit)),
    Along (step 3 config adapter) (fun s a => ¬s.Ends a) upload actions ∧
    ((run (step 3 config adapter) upload actions).store.active 1 10).isSome ∧
    (run (step 3 config adapter) upload actions).aborted = true := by
  have hissued : (run (step 3 config .leashedUpload) upload (refreshed.take 1)).store.sessions.calls 0 =
      some (.reissued 0 Sessions.aliceRow 90) := rfl
  have hreplaced : (run (step 3 config .leashedUpload) upload (refreshed.take 2)).store.sessions.calls 0 = some (.replaced 0) := rfl
  refine ⟨.leashedUpload, refreshed, ⟨nofun, fun h => ?_, fun h => ?_, nofun, trivial⟩, rfl, rfl⟩
  · cases h with
    | revoked hcall => exact absurd (hissued.symm.trans hcall) nofun
    | swept hcall => exact absurd (hissued.symm.trans hcall) nofun
    | switched hcall => exact absurd (hissued.symm.trans hcall) nofun
  · cases h with
    | revoked hcall => exact absurd (hreplaced.symm.trans hcall) nofun
    | swept hcall => exact absurd (hreplaced.symm.trans hcall) nofun
    | switched hcall => exact absurd (hreplaced.symm.trans hcall) nofun

end Transfer

end Y2q.Leash
