/-
Programs that may fail and keep their state when they do (`EStateM`), and two runs of one program side by side.

- `run_bind_ok`, `run_bind_of_ok`, `run_bind_of_error`: a run of two programs in a row.
- `Lockstep R keep past stop p`: from states related by `R`, two runs of `p` end alike, or the first one has stopped early, with an
  error of its own, and the second one has come past a point. No run loses `past`, not even a failed one. One rule for each way of
  building a program.
-/
import Mathlib.Tactic

namespace Y2q.LockstepLogic

variable {σ ε α β γ : Type}

/-! ## Runs -/

/-- reads a part of the state -/
def gets (g : σ → γ) : EStateM ε σ γ := fun s => .ok (g s) s

/-- also after a failure -/
def final : EStateM.Result ε σ α → σ
  | .ok _ s => s
  | .error _ s => s

theorem run_bind_of_ok {p : EStateM ε σ α} {f : α → EStateM ε σ β} {s s' : σ} {a : α} (h : p.run s = .ok a s') :
    (p >>= f).run s = (f a).run s' := by
  rw [EStateM.run_bind, h]

theorem run_bind_of_error {p : EStateM ε σ α} {f : α → EStateM ε σ β} {s s' : σ} {e : ε} (h : p.run s = .error e s') :
    (p >>= f).run s = .error e s' := by
  rw [EStateM.run_bind, h]

theorem run_bind_ok {p : EStateM ε σ α} {f : α → EStateM ε σ β} {s s'' : σ} {b : β} :
    (p >>= f).run s = .ok b s'' ↔ ∃ a s', p.run s = .ok a s' ∧ (f a).run s' = .ok b s'' := by
  cases h : p.run s with
  | ok a s' =>
    rw [run_bind_of_ok h]
    constructor
    · exact fun hf => ⟨a, s', rfl, hf⟩
    · rintro ⟨_, _, he, hf⟩
      cases he
      exact hf
  | error e s' =>
    rw [run_bind_of_error h]
    exact iff_of_false nofun fun ⟨_, _, he, _⟩ => nomatch he

/-! ## Side by side -/

/-- runs of `p` from related states, and what no run loses -/
structure Lockstep (R : σ → σ → Prop) (keep past : σ → Prop) (stop : ε → Prop) (p : EStateM ε σ α) : Prop where
  sticky : ∀ s, past s → past (final (p.run s))
  pair : ∀ s t, R s t → (∃ e s', p.run s = .error e s' ∧ stop e ∧ past (final (p.run t))) ∨
    (∃ a s' t', p.run s = .ok a s' ∧ p.run t = .ok a t' ∧ R s' t') ∨
    ∃ e s' t', p.run s = .error e s' ∧ p.run t = .error e t' ∧ keep t'

namespace Lockstep

variable {R : σ → σ → Prop} {keep past : σ → Prop} {stop : ε → Prop} {p : EStateM ε σ α}

theorem pure (a : α) : Lockstep R keep past stop (pure a : EStateM ε σ α) where
  sticky _ hs := hs
  pair s t h := .inr (.inl ⟨a, s, t, rfl, rfl, h⟩)

theorem throw (hkeep : ∀ s t, R s t → keep t) (e : ε) : Lockstep R keep past stop (throw e : EStateM ε σ α) where
  sticky _ hs := hs
  pair s t h := .inr (.inr ⟨e, s, t, rfl, rfl, hkeep s t h⟩)

theorem gets {g : σ → γ} (hg : ∀ s t, R s t → g s = g t) : Lockstep R keep past stop (gets g : EStateM ε σ γ) where
  sticky _ hs := hs
  pair s t h := by
    refine .inr (.inl ⟨g s, s, t, rfl, ?_, h⟩)
    rw [hg s t h]
    rfl

theorem modify {f : σ → σ} (hf : ∀ s t, R s t → R (f s) (f t)) (hpast : ∀ s, past s → past (f s)) :
    Lockstep R keep past stop (modify f : EStateM ε σ Unit) where
  sticky s hs := hpast s hs
  pair s t h := .inr (.inl ⟨(), f s, f t, rfl, rfl, hf s t h⟩)

theorem bind {f : α → EStateM ε σ β} (hp : Lockstep R keep past stop p) (hf : ∀ a, Lockstep R keep past stop (f a)) :
    Lockstep R keep past stop (p >>= f) where
  sticky s hs := by
    have hmid := hp.sticky s hs
    cases h : p.run s with
    | ok a s' =>
      rw [run_bind_of_ok h]
      rw [h] at hmid
      exact (hf a).sticky s' hmid
    | error e s' =>
      rw [run_bind_of_error h]
      rwa [h] at hmid
  pair s t hst := by
    rcases hp.pair s t hst with ⟨e, s', hs, hstop, hlate⟩ | ⟨a, s', t', hs, ht, hst'⟩ | ⟨e, s', t', hs, ht, hkeep⟩
    · refine .inl ⟨e, s', run_bind_of_error hs, hstop, ?_⟩
      cases ht : p.run t with
      | ok a t' =>
        rw [run_bind_of_ok ht]
        rw [ht] at hlate
        exact (hf a).sticky t' hlate
      | error e' t' =>
        rw [run_bind_of_error ht]
        rwa [ht] at hlate
    · rw [run_bind_of_ok hs, run_bind_of_ok ht]
      exact (hf a).pair s' t' hst'
    · exact .inr (.inr ⟨e, s', t', run_bind_of_error hs, run_bind_of_error ht, hkeep⟩)

theorem ite {c : Prop} [Decidable c] {q : EStateM ε σ α} (hp : Lockstep R keep past stop p) (hq : Lockstep R keep past stop q) :
    Lockstep R keep past stop (if c then p else q) := by
  split_ifs
  · exact hp
  · exact hq

end Lockstep

end Y2q.LockstepLogic
