/-
Runs of a step function over a list of operations, and properties of the steps along a run.

- `run step s ops`: the state after `ops`.
- `Along step P s ops`: `P` holds of every step of the run, each in the state it is taken from.
- `Along.inv` / `Along.imp`: an invariant that a step keeps when `P` holds of it is kept by every run along `P`, and
  whatever follows from the invariant and `P` at one step holds along the whole run.
- `along_iff`, `along_iff_of`: an invariant that each step keeps exactly if `P` holds of it.
- `replay exec s log`: the operations of `log`, one after the other, each of which may fail. `replay_inv`, `replay_split`.
-/
import Mathlib.Tactic

namespace Y2q.Run

variable {σ o : Type}

def run (step : σ → o → σ) (s : σ) (ops : List o) : σ := ops.foldl step s

theorem run_cons (step : σ → o → σ) (s : σ) (x : o) (ops : List o) : run step s (x :: ops) = run step (step s x) ops := rfl

theorem run_append (step : σ → o → σ) (s : σ) (ops ops' : List o) : run step s (ops ++ ops') = run step (run step s ops) ops' :=
  List.foldl_append

theorem run_replicate_succ (step : σ → o → σ) (s : σ) (x : o) (n : ℕ) :
    run step s (List.replicate (n + 1) x) = step (run step s (List.replicate n x)) x := by
  rw [run, List.replicate_succ', List.foldl_append]
  rfl

/-- `P` holds of every step of the run -/
def Along (step : σ → o → σ) (P : σ → o → Prop) : σ → List o → Prop
  | _, [] => True
  | s, x :: ops => P s x ∧ Along step P (step s x) ops

variable {step : σ → o → σ} {P R : σ → o → Prop} {I : σ → Prop}

instance Along.decidable [∀ s x, Decidable (P s x)] : ∀ s ops, Decidable (Along step P s ops)
  | _, [] => .isTrue trivial
  | s, x :: ops => @instDecidableAnd _ _ inferInstance (Along.decidable (step s x) ops)

theorem along_forall {ι : Sort*} {Q : ι → σ → o → Prop} (s : σ) (ops : List o) :
    Along step (fun s x => ∀ i, Q i s x) s ops ↔ ∀ i, Along step (Q i) s ops := by
  induction ops generalizing s with
  | nil => exact ⟨fun _ _ => trivial, fun _ => trivial⟩
  | cons x ops ih => exact (and_congr_right' (ih (step s x))).trans forall_and.symm

theorem Along.append {s : σ} {ops ops' : List o} (h : Along step P s ops) (h' : Along step P (run step s ops) ops') :
    Along step P s (ops ++ ops') := by
  induction ops generalizing s with
  | nil => exact h'
  | cons x ops ih => exact ⟨h.1, ih h.2 h'⟩

theorem Along.split {s : σ} {ops ops' : List o} (h : Along step P s (ops ++ ops')) :
    Along step P s ops ∧ Along step P (run step s ops) ops' := by
  induction ops generalizing s with
  | nil => exact ⟨trivial, h⟩
  | cons x ops ih =>
    obtain ⟨hops, hops'⟩ := ih h.2
    exact ⟨⟨h.1, hops⟩, hops'⟩

theorem Along.inv (hstep : ∀ s x, I s → P s x → I (step s x)) {s : σ} {ops : List o} (hs : I s)
    (h : Along step P s ops) : I (run step s ops) := by
  induction ops generalizing s with
  | nil => exact hs
  | cons x ops ih => exact ih (hstep s x hs h.1) h.2

theorem Along.imp (hstep : ∀ s x, I s → P s x → I (step s x)) (himp : ∀ s x, I s → P s x → R s x) {s : σ}
    {ops : List o} (hs : I s) (h : Along step P s ops) : Along step R s ops := by
  induction ops generalizing s with
  | nil => trivial
  | cons x ops ih => exact ⟨himp s x hs h.1, ih (hstep s x hs h.1) h.2⟩

/-- a property that an invariant gives, and that a step loses if `P` does not hold of it, holds along a run exactly if `P` does -/
theorem along_iff_of {Q : σ → Prop} (hkeep : ∀ s x, I s → P s x → I (step s x)) (hholds : ∀ s, I s → Q s)
    (hneed : ∀ s x, I s → Q (step s x) → P s x) {s : σ} {ops : List o} (hs : I s) :
    Along step (fun s x => Q (step s x)) s ops ↔ Along step P s ops := by
  induction ops generalizing s with
  | nil => exact Iff.rfl
  | cons x ops ih =>
    constructor
    · intro ⟨hq, hrest⟩
      have hp := hneed s x hs hq
      exact ⟨hp, (ih (hkeep s x hs hp)).1 hrest⟩
    · intro ⟨hp, hrest⟩
      have hi := hkeep s x hs hp
      exact ⟨hholds _ hi, (ih hi).2 hrest⟩

/-! ## Replaying a log -/

variable {exec : o → σ → Option σ}

/-- `none` if an operation of the log fails -/
def replay (exec : o → σ → Option σ) (s : σ) : List o → Option σ
  | [] => some s
  | x :: log => (exec x s).bind fun s' => replay exec s' log

theorem replay_append (s : σ) (log log' : List o) :
    replay exec s (log ++ log') = (replay exec s log).bind fun s' => replay exec s' log' := by
  induction log generalizing s with
  | nil => rfl
  | cons x log ih =>
    simp only [List.cons_append, replay, Option.bind_assoc]
    exact congrArg _ (funext fun s' => ih s')

theorem replay_congr {exec' : o → σ → Option σ} {log : List o} (h : ∀ x ∈ log, exec' x = exec x) (s : σ) :
    replay exec' s log = replay exec s log := by
  induction log generalizing s with
  | nil => rfl
  | cons x log ih =>
    rw [replay, replay, h x List.mem_cons_self]
    exact congrArg _ (funext fun s' => ih (fun y hy => h y (List.mem_cons_of_mem x hy)) s')

theorem replay_split {s s' : σ} {log log' : List o} {x : o} (h : replay exec s (log ++ x :: log') = some s') :
    ∃ before after, replay exec s log = some before ∧ exec x before = some after ∧ replay exec after log' = some s' := by
  rw [replay_append] at h
  obtain ⟨before, hbefore, h⟩ := Option.bind_eq_some_iff.1 h
  obtain ⟨after, hafter, h⟩ := Option.bind_eq_some_iff.1 h
  exact ⟨before, after, hbefore, hafter, h⟩

theorem replay_inv {s s' : σ} {log : List o} (hstep : ∀ x ∈ log, ∀ s s', I s → exec x s = some s' → I s') (hs : I s)
    (h : replay exec s log = some s') : I s' := by
  induction log generalizing s with
  | nil =>
    cases h
    exact hs
  | cons x log ih =>
    obtain ⟨mid, hmid, h⟩ := Option.bind_eq_some_iff.1 h
    exact ih (fun y hy => hstep y (List.mem_cons_of_mem x hy)) (hstep x List.mem_cons_self s mid hs hmid) h

end Y2q.Run
