/-
The role of a live token.

A session has the role that is sealed in the slot its login opened. A refresh carries it over. A duress login writes its own role, and its
own identity key, into every other session of the account, whatever they had.

- `NeverGains`: the role of every live token is permitted by the roles that it, and each token it was refreshed from, was issued with.
- `Modest`: a switch rewrites a row only to a role that these permit.
- `never_gains_iff`: along every run of the handlers, no token ever gains authority exactly if every switch is modest.
-/
import Mathlib.Tactic
import Y2q.Core.Run
import Y2q.Auth.Handlers

namespace Y2q.Auth

open Run (Along run)

/-! ## The session store -/

namespace Sessions

variable {ι : Type} {s : Sessions ι} {t : Token} {info : SessionInfo ι} {maxRefreshes : ℕ} {x : Event ι}

/-- the role is permitted by all that the token descends from -/
def Within (s : Sessions ι) (t : Token) (role : Role) : Prop :=
  ∀ a ∈ s.line t, ∀ e, s.issued[a]? = some e → rolePermits role e.role = true

def NeverGains (s : Sessions ι) : Prop := ∀ t info, s.inner[t]? = some info → s.Within t info.role

def Modest (s : Sessions ι) : Event ι → Prop
  | .step i ok => ok = true → ∀ target covered k victims old,
      s.calls i = some (.switching target covered (k :: victims) (some old)) → s.Within k target.newRole
  | _ => True

structure Bounded (maxRefreshes : ℕ) (s : Sessions ι) : Prop where
  issued : s.Issued maxRefreshes
  rows : s.Rows (fun t info => s.Within t info.role) []

theorem within_step {role : Role} (h : s.Issued maxRefreshes) (ht : t < s.issued.length) :
    (s.step maxRefreshes x).Within t role ↔ s.Within t role := by
  rw [Within, Within, line_step x ht]
  refine forall₂_congr fun a ha => ?_
  rw [issued_step x (((h.line t ht).2.2 a ha).1.trans_lt ht)]

/-- the token of a login -/
theorem within_insert : (s.step maxRefreshes (.insert info)).Within s.issued.length info.role := by
  intro a ha e he
  rw [line_insert, List.mem_singleton] at ha
  subst ha
  rw [step, issued_issue_self] at he
  cases he
  exact rolePermits_refl info.role

theorem Bounded.new : (Sessions.new : Sessions ι).Bounded maxRefreshes where
  issued := Issued.new
  rows := ⟨fun t info ht => by simp [Sessions.new] at ht, fun j old info e hj => absurd hj.symm (Option.some_ne_none _)⟩

theorem Bounded.holds (h : s.Bounded maxRefreshes) : s.NeverGains := fun t info ht =>
  (h.rows.live t info ht).resolve_right List.not_mem_nil

/-- a refresh: the new token, and those the old one descends from -/
theorem Bounded.refreshed {i expiresAt : ℕ} {old : Token} (h : s.Bounded maxRefreshes)
    (hcall : s.calls i = some (.reissued old info expiresAt)) :
    (s.step maxRefreshes (.step i true)).Within s.issued.length info.role := by
  have hlt : old < s.issued.length := (h.issued.call i _ hcall).1.lt
  intro a ha e he
  rw [line_refreshed hcall] at ha
  rcases List.mem_cons.1 ha with rfl | ha
  · simp only [Sessions.step, hcall] at he
    change (s.issue _ (s.line old)).issued[s.issued.length]? = some e at he
    rw [issued_issue_self] at he
    cases he
    exact rolePermits_refl info.role
  · rw [issued_step _ (((h.issued.line old hlt).2.2 a ha).1.trans_lt hlt)] at he
    exact h.rows.held i old info expiresAt hcall a ha e he

theorem Bounded.step (h : s.Bounded maxRefreshes) (hx : s.Modest x) : (s.step maxRefreshes x).Bounded maxRefreshes where
  issued := h.issued.step x
  rows := by
    refine h.rows.step h.issued (fun t info ht hq => (within_step h.issued ht).2 hq) (fun t info hnew => Or.inl ?_) (readsNone_nil x)
    cases hnew with
    | inserted info => exact within_insert
    | @refreshed i old held expiresAt hcall =>
      have hwithin := h.refreshed hcall
      exact hwithin
    | @switched i target covered victims k old hcall =>
      obtain ⟨-, hsub, hgot⟩ := h.issued.call i _ hcall
      obtain ⟨k', rest, heq, hfits⟩ := hgot old rfl
      obtain ⟨rfl, -⟩ := List.cons.inj heq
      exact (within_step h.issued hfits.lt).2 (hx rfl target covered _ victims old hcall)

/-- a switch that is not modest makes a row that gains -/
theorem Bounded.modest (h : s.Bounded maxRefreshes) (hgains : (s.step maxRefreshes x).NeverGains) : s.Modest x := by
  cases x with
  | insert info => trivial
  | start i c => trivial
  | step i ok =>
    intro hok target covered k victims old hcall
    subst hok
    obtain ⟨-, -, hgot⟩ := h.issued.call i _ hcall
    obtain ⟨k', rest, heq, hfits⟩ := hgot old rfl
    obtain ⟨rfl, -⟩ := List.cons.inj heq
    have hrow : (s.step maxRefreshes (.step i true)).inner[k]? = some (target.switched old) := by
      simp only [Sessions.step, hcall]
      change (s.inner.insert k _)[k]? = _
      rw [Table.getElem?_insert_iff, if_pos rfl]
    exact (within_step h.issued hfits.lt).1 (hgains k _ hrow)

end Sessions

/-! ## The handlers -/

namespace Accounts

variable {W : SlotWrap}

/-- when a duress login rewrites a session, its role is within those the token was issued with -/
def SwitchesModestly (s : Accounts W) (x : Action) : Prop := ∀ e, s.eventOf x = some e → s.sessions.Modest e

/-- **A token gains authority only from a duress login.** Along every run of logins, refreshes, revocations and changes of users: in every
state the role of each live token is permitted by the role that it, and every token it was refreshed from, was issued with, exactly if
every switch of a duress login writes only roles that these permit. -/
theorem never_gains_iff (maxRefreshes : ℕ) (users₀ : UserStore W) (actions : List Action) :
    Along (step maxRefreshes) (fun s x => (s.step maxRefreshes x).sessions.NeverGains) (of users₀) actions ↔
      Along (step maxRefreshes) SwitchesModestly (of users₀) actions := by
  have hkeep : ∀ (s : Accounts W) x, s.sessions.Bounded maxRefreshes → s.SwitchesModestly x →
      (s.step maxRefreshes x).sessions.Bounded maxRefreshes := by
    intro s x hs hx
    exact sessions_step_inv hs fun e he => hs.step (hx e he)
  have hneed : ∀ (s : Accounts W) x, s.sessions.Bounded maxRefreshes → (s.step maxRefreshes x).sessions.NeverGains →
      s.SwitchesModestly x := by
    intro s x hs hgains e he
    rw [step_sessions, he] at hgains
    exact hs.modest hgains
  exact @Run.along_iff_of (Accounts W) Action (step maxRefreshes) SwitchesModestly (fun s => s.sessions.Bounded maxRefreshes)
    (fun s => s.sessions.NeverGains) hkeep (fun s hs => hs.holds) hneed (of users₀) actions Sessions.Bounded.new

/-- root makes a persona that may only read and one for duress, and logs in with both -/
def coerced : List Action :=
  let draw : SlotDraw := someDraw
  [.start 0 (.update "root" (.createPersona 0 .Admin 1 [3] .ReadOnly false draw)), .step 0 true, .step 0 true,
    .start 0 (.update "root" (.createPersona 0 .Admin 2 [4] .Admin true draw)), .step 0 true, .step 0 true,
    .start 0 (.login "root" [3] 60 0), .step 0 true, .step 0 true, .step 0 true, .step 0 true, .step 0 true,
    .start 1 (.login "root" [4] 60 0), .step 1 true, .step 1 true, .step 1 true, .step 1 true, .step 1 true, .step 1 true, .step 1 true]

theorem duress_login_raises : ¬(run (step 3) (of rootAndBob) coerced).sessions.NeverGains := by
  intro h
  have hrow : (run (step 3) (of rootAndBob) coerced).sessions.inner[0]?.map (·.role) = some .Admin := rfl
  have hissued : (run (step 3) (of rootAndBob) coerced).sessions.issued[0]? = some ⟨[0], "root", .ReadOnly⟩ := rfl
  obtain ⟨info, hinfo, hrole⟩ := Option.map_eq_some_iff.1 hrow
  have hpermits := h 0 info hinfo 0 (by decide) _ hissued
  rw [hrole] at hpermits
  exact absurd hpermits (by decide)

end Accounts

end Y2q.Auth
