/-
Programs with crashes. A program runs over a persistent state; each of its effects is one atomic update, and a crash
keeps the effects made so far and loses the rest. Nothing here knows what the state is.

- `Prog σ ε α`: from a state, the states left behind by the successive effects, and the value or error returned.
- `Prog.Blind p`: what `p` returns does not depend on the state it starts in.
- `Crash p s s'`: `s'` is what a crash of `p` started in `s` may leave (the start state, any state in between, the end).
- `Spec P p Q E C`: the crash triple. From `P`, every crash state satisfies `C`, a normal return satisfies `Q`, an error
  return satisfies `E`. One rule for each way of building a program (`Spec.bind`, `Spec.foldlM`, `Spec.zoom`, ...).
- `Crashes p s s'`: any number of interrupted runs of programs of a family, one after another (`Crashes.inv`: an invariant
  of each is an invariant of all).
-/
import Mathlib.Tactic

namespace Y2q.CrashLogic

variable {σ τ ε ε' α β ι : Type}

/-! ## Programs -/

/-- from a state: the states after each effect, in order, and what the program returns -/
def Prog (σ ε α : Type) : Type := σ → List σ × Except ε α

namespace Prog

def pure (a : α) : Prog σ ε α := fun _ => ([], .ok a)

/-- the second program starts in the state the first one ended in; an error ends the whole program -/
def bind (p : Prog σ ε α) (q : α → Prog σ ε β) : Prog σ ε β := fun s =>
  match (p s).2 with
  | .error e => ((p s).1, .error e)
  | .ok a => ((p s).1 ++ (q a ((p s).1.getLastD s)).1, (q a ((p s).1.getLastD s)).2)

instance : Monad (Prog σ ε) where
  pure := Prog.pure
  bind := Prog.bind

/-- read the state; no effect -/
def get : Prog σ ε σ := fun s => ([], .ok s)

/-- one atomic effect -/
def modify (f : σ → σ) : Prog σ ε Unit := fun s => ([f s], .ok ())

def throw (e : ε) : Prog σ ε α := fun _ => ([], .error e)

def ofExcept : Except ε α → Prog σ ε α
  | .ok a => Prog.pure a
  | .error e => throw e

/-- hand the error to the caller as a value; the effects made before it stay -/
def attempt (p : Prog σ ε α) : Prog σ ε' (Except ε α) := fun s => ((p s).1, .ok (p s).2)

def mapError (f : ε → ε') (p : Prog σ ε α) : Prog σ ε' α := fun s => ((p s).1, (p s).2.mapError f)

/-- an error after some of the effects; without a fault, the program itself -/
def failAfter (fault : Option (ℕ × ε)) (p : Prog σ ε α) : Prog σ ε α := fun s =>
  match fault with
  | none => p s
  | some (k, e) => ((p s).1.take k, .error e)

/-- run `p` on one part of a larger state -/
def zoom (get : τ → σ) (set : σ → τ → τ) (p : Prog σ ε α) : Prog τ ε α := fun t =>
  ((p (get t)).1.map fun s => set s t, (p (get t)).2)

/-- the state a program ends in -/
def final (p : Prog σ ε α) (s : σ) : σ := (p s).1.getLastD s

/-- the state `k` effects into a program -/
def cutAt (p : Prog σ ε α) (s : σ) (k : ℕ) : σ := ((p s).1.take k).getLastD s

/-- the value or error it returns -/
def result (p : Prog σ ε α) (s : σ) : Except ε α := (p s).2

@[simp] theorem result_pure (a : α) (s : σ) : (Pure.pure a : Prog σ ε α).result s = .ok a := rfl
@[simp] theorem final_pure (a : α) (s : σ) : (Pure.pure a : Prog σ ε α).final s = s := rfl
@[simp] theorem result_get (s : σ) : (get : Prog σ ε σ).result s = .ok s := rfl
@[simp] theorem final_get (s : σ) : (get : Prog σ ε σ).final s = s := rfl
@[simp] theorem result_modify (f : σ → σ) (s : σ) : (modify f : Prog σ ε Unit).result s = .ok () := rfl
@[simp] theorem final_modify (f : σ → σ) (s : σ) : (modify f : Prog σ ε Unit).final s = f s := rfl
@[simp] theorem result_throw (e : ε) (s : σ) : (throw e : Prog σ ε α).result s = .error e := rfl
@[simp] theorem final_throw (e : ε) (s : σ) : (throw e : Prog σ ε α).final s = s := rfl

/-! symbolic execution: what a program does at a state, effect by effect -/

@[simp] theorem ofExcept_ok (a : α) : (ofExcept (.ok a) : Prog σ ε α) = Pure.pure a := rfl
@[simp] theorem ofExcept_error (e : ε) : (ofExcept (.error e) : Prog σ ε α) = throw e := rfl
@[simp] theorem pure_apply (a : α) (s : σ) : (Pure.pure a : Prog σ ε α) s = ([], .ok a) := rfl
@[simp] theorem throw_apply (e : ε) (s : σ) : (throw e : Prog σ ε α) s = ([], .error e) := rfl
@[simp] theorem modify_apply (f : σ → σ) (s : σ) : (modify f : Prog σ ε Unit) s = ([f s], .ok ()) := rfl
@[simp] theorem pure_bind_apply (a : α) (q : α → Prog σ ε β) (s : σ) : (Pure.pure a >>= q) s = q a s := rfl
@[simp] theorem get_bind_apply (q : σ → Prog σ ε β) (s : σ) : (get >>= q) s = q s s := rfl
@[simp] theorem throw_bind_apply (e : ε) (q : α → Prog σ ε β) (s : σ) : (throw e >>= q) s = ([], .error e) := rfl
@[simp] theorem modify_bind_apply (f : σ → σ) (q : Unit → Prog σ ε β) (s : σ) :
    (modify f >>= q) s = (f s :: (q () (f s)).1, (q () (f s)).2) := rfl

theorem getLastD_append (l l' : List σ) (s : σ) : (l ++ l').getLastD s = l'.getLastD (l.getLastD s) := by
  cases l' with
  | nil => simp
  | cons x xs => simp [List.getLastD_eq_getLast?]

theorem bind_apply_ok {p : Prog σ ε α} {q : α → Prog σ ε β} {s : σ} {l : List σ} {a : α} (h : p s = (l, .ok a)) :
    (p >>= q) s = (l ++ (q a (l.getLastD s)).1, (q a (l.getLastD s)).2) := by
  change Prog.bind p q s = _
  simp only [Prog.bind, h]

/-- a program without effects may be run away -/
theorem bind_apply_silent {p : Prog σ ε α} {q : α → Prog σ ε β} {s : σ} {a : α} (h : p s = ([], .ok a)) :
    (p >>= q) s = q a s := bind_apply_ok h

theorem bind_apply_error {p : Prog σ ε α} {q : α → Prog σ ε β} {s : σ} {l : List σ} {e : ε} (h : p s = (l, .error e)) :
    (p >>= q) s = (l, .error e) := by
  change Prog.bind p q s = _
  simp only [Prog.bind, h]

theorem bind_bind {γ : Type} (p : Prog σ ε α) (q : α → Prog σ ε β) (r : β → Prog σ ε γ) :
    (p >>= q) >>= r = p >>= fun a => q a >>= r := by
  funext s
  rcases hp : p s with ⟨l, e | a⟩
  · rw [bind_apply_error hp, bind_apply_error (bind_apply_error hp)]
  · rcases hq : q a (l.getLastD s) with ⟨l', e | b⟩
    · rw [bind_apply_ok hp, bind_apply_error hq, bind_apply_error (by rw [bind_apply_ok hp, hq])]
    · rw [bind_apply_ok hp, bind_apply_ok hq, bind_apply_ok (by rw [bind_apply_ok hp, hq]), getLastD_append, List.append_assoc]

theorem apply_eq {p : Prog σ ε α} {s : σ} {r : Except ε α} (h : p.result s = r) : p s = ((p s).1, r) := by
  rw [← h]; rfl

theorem result_of_apply {p : Prog σ ε α} {s : σ} {t : List σ} {r : Except ε α} (h : p s = (t, r)) : p.result s = r := by
  unfold result
  rw [h]

theorem final_congr {p : Prog σ ε α} {q : Prog σ ε β} {s : σ} (h : (p s).1 = (q s).1) : p.final s = q.final s := by
  unfold final
  rw [h]

theorem result_bind_ok {p : Prog σ ε α} {q : α → Prog σ ε β} {s : σ} {a : α} (h : p.result s = .ok a) :
    (p >>= q).result s = (q a).result (p.final s) := by
  unfold result final
  rw [bind_apply_ok (apply_eq h)]

theorem final_bind_ok {p : Prog σ ε α} {q : α → Prog σ ε β} {s : σ} {a : α} (h : p.result s = .ok a) :
    (p >>= q).final s = (q a).final (p.final s) := by
  unfold final
  rw [bind_apply_ok (apply_eq h)]
  exact getLastD_append _ _ _

theorem result_bind_error {p : Prog σ ε α} {q : α → Prog σ ε β} {s : σ} {e : ε} (h : p.result s = .error e) :
    (p >>= q).result s = .error e := by
  unfold result
  rw [bind_apply_error (apply_eq h)]

theorem final_bind_error {p : Prog σ ε α} {q : α → Prog σ ε β} {s : σ} {e : ε} (h : p.result s = .error e) :
    (p >>= q).final s = p.final s := by
  unfold final
  rw [bind_apply_error (apply_eq h)]

/-! a program that returns the same in whatever state it starts; its effects may differ -/

def Blind (p : Prog σ ε α) : Prop := ∀ s s', p.result s = p.result s'

theorem blind_pure (a : α) : Blind (Pure.pure a : Prog σ ε α) := fun _ _ => rfl

theorem blind_throw (e : ε) : Blind (throw e : Prog σ ε α) := fun _ _ => rfl

theorem blind_modify (f : σ → σ) : Blind (modify f : Prog σ ε Unit) := fun _ _ => rfl

theorem blind_ofExcept (x : Except ε α) : Blind (ofExcept x : Prog σ ε α) := by
  cases x with
  | ok a => exact blind_pure a
  | error e => exact blind_throw e

theorem Blind.bind {p : Prog σ ε α} {q : α → Prog σ ε β} (hp : Blind p) (hq : ∀ a, Blind (q a)) : Blind (p >>= q) := by
  intro s s'
  have h := hp s s'
  cases hr : p.result s' with
  | error e =>
    rw [hr] at h
    rw [result_bind_error hr, result_bind_error h]
  | ok a =>
    rw [hr] at h
    rw [result_bind_ok hr, result_bind_ok h]
    exact hq a _ _

theorem Blind.attempt {p : Prog σ ε α} (hp : Blind p) : Blind (attempt p : Prog σ ε' (Except ε α)) := fun s s' =>
  congrArg Except.ok (hp s s')

theorem Blind.result_bind {p : Prog σ ε α} {q : α → Prog σ ε β} {s : σ} {a : α} (hp : p.result s = .ok a) (hq : Blind (q a)) :
    (p >>= q).result s = (q a).result s := by
  rw [result_bind_ok hp]
  exact hq _ _

end Prog

/-! ## Crash states -/

/-- `s'` is a state a crash of `p` started in `s` may leave -/
def Crash (p : Prog σ ε α) (s s' : σ) : Prop := s' = s ∨ s' ∈ (p s).1

theorem Crash.start (p : Prog σ ε α) (s : σ) : Crash p s s := Or.inl rfl

theorem Crash.final (p : Prog σ ε α) (s : σ) : Crash p s (p.final s) := by
  unfold Crash Prog.final
  cases h : (p s).1 with
  | nil => exact Or.inl rfl
  | cons x xs =>
    right
    rw [List.getLastD_eq_getLast?, List.getLast?_eq_getLast_of_ne_nil (List.cons_ne_nil x xs)]
    exact List.getLast_mem _

theorem Crash.cutAt (p : Prog σ ε α) (s : σ) (k : ℕ) : Crash p s (p.cutAt s k) := by
  unfold Crash Prog.cutAt
  cases h : ((p s).1.take k) using List.reverseRecOn with
  | nil => exact Or.inl rfl
  | append_singleton l x =>
    right
    have hmem : x ∈ (p s).1.take k := by rw [h]; simp
    simpa using List.mem_of_mem_take hmem

theorem Crash.bind {p : Prog σ ε α} {s s' : σ} (h : Crash p s s') (q : α → Prog σ ε β) : Crash (p >>= q) s s' := by
  refine h.imp_right fun h => ?_
  cases hr : p.result s with
  | ok a => rw [Prog.bind_apply_ok (Prog.apply_eq hr)]; exact List.mem_append_left _ h
  | error e => rw [Prog.bind_apply_error (Prog.apply_eq hr)]; exact h

theorem Crash.bind_right {p : Prog σ ε α} {q : α → Prog σ ε β} {s s' : σ} {a : α} (hp : p.result s = .ok a)
    (h : s' ∈ (q a (p.final s)).1) : Crash (p >>= q) s s' := by
  right
  rw [Prog.bind_apply_ok (Prog.apply_eq hp)]
  exact List.mem_append_right _ h

theorem Crash.get_bind {q : σ → Prog σ ε β} {s s' : σ} (h : Crash (q s) s s') : Crash (Prog.get >>= q) s s' := by
  unfold Crash at h ⊢
  rwa [Prog.get_bind_apply]

theorem Crash.silent_bind {p : Prog σ ε α} {q : α → Prog σ ε β} {s s' : σ} {a : α} (hp : p s = ([], .ok a)) (h : Crash (q a) s s') :
    Crash (p >>= q) s s' := by
  unfold Crash at h ⊢
  rwa [Prog.bind_apply_silent hp]

theorem Crash.mapError {p : Prog σ ε α} {f : ε → ε'} {s s' : σ} (h : Crash p s s') : Crash (Prog.mapError f p) s s' := h

theorem Crash.zoom {p : Prog σ ε α} {get : τ → σ} {f : σ → τ → τ} {t : τ} {s' : σ} (hset : f (get t) t = t)
    (h : Crash p (get t) s') : Crash (Prog.zoom get f p) t (f s' t) := by
  rcases h with rfl | h
  · exact Or.inl hset
  · exact Or.inr (List.mem_map.2 ⟨s', h, rfl⟩)

/-- what a sequence of interrupted runs may leave; each run is one of a family, such as one program with its surroundings -/
inductive Crashes (p : ι → Prog σ ε α) : σ → σ → Prop where
  | refl (s : σ) : Crashes p s s
  | tail {s t u : σ} (i : ι) : Crashes p s t → Crash (p i) t u → Crashes p s u

theorem Crashes.inv {p : ι → Prog σ ε α} {I : σ → Prop} (hstep : ∀ i s s', I s → Crash (p i) s s' → I s') {s s' : σ}
    (hs : I s) (h : Crashes p s s') : I s' := by
  induction h with
  | refl => exact hs
  | tail i _ hc ih => exact hstep i _ _ ih hc

/-! ## Crash triples -/

/-- from `P`: every crash state satisfies `C`, a return satisfies `Q`, an error satisfies `E` -/
def Spec (P : σ → Prop) (p : Prog σ ε α) (Q : α → σ → Prop) (E : ε → σ → Prop) (C : σ → Prop) : Prop :=
  ∀ s, P s → (∀ s', Crash p s s' → C s') ∧
    (∀ a, p.result s = .ok a → Q a (p.final s)) ∧ (∀ e, p.result s = .error e → E e (p.final s))

namespace Spec

variable {P : σ → Prop} {p : Prog σ ε α} {Q : α → σ → Prop} {E : ε → σ → Prop} {C : σ → Prop}

theorem conseq {A : σ → Prop} {B : α → σ → Prop} {F : ε → σ → Prop} {D : σ → Prop} (h : Spec P p Q E C)
    (hP : ∀ s, A s → P s) (hQ : ∀ a s, Q a s → B a s) (hE : ∀ e s, E e s → F e s) (hC : ∀ s, C s → D s) :
    Spec A p B F D := by
  intro s hs
  obtain ⟨hc, hq, he⟩ := h s (hP s hs)
  exact ⟨fun s' h' => hC s' (hc s' h'), fun a h' => hQ a _ (hq a h'), fun e h' => hE e _ (he e h')⟩

theorem congr {q : Prog σ ε α} (h : Spec P p Q E C) (heq : ∀ s, P s → q s = p s) : Spec P q Q E C := by
  intro s hs
  have := h s hs
  unfold Crash Prog.result Prog.final at this ⊢
  rwa [heq s hs]

/-- from what the program does at each state: its effects and its return value or error -/
theorem of_apply (h : ∀ s, P s → C s ∧ ∃ l r, p s = (l, r) ∧ (∀ s' ∈ l, C s') ∧
    (∀ a, r = .ok a → Q a (l.getLastD s)) ∧ ∀ e, r = .error e → E e (l.getLastD s)) : Spec P p Q E C := by
  intro s hs
  obtain ⟨h0, l, r, hp, hl, hq, he⟩ := h s hs
  refine ⟨fun s' h' => ?_, fun a ha => ?_, fun e ha => ?_⟩
  · rcases h' with rfl | h'
    · exact h0
    · rw [hp] at h'; exact hl s' h'
  · unfold Prog.result at ha; unfold Prog.final
    rw [hp] at ha ⊢; exact hq a ha
  · unfold Prog.result at ha; unfold Prog.final
    rw [hp] at ha ⊢; exact he e ha

/-- a program that returns without an effect -/
theorem of_silent {s : σ} {a : α} (h : p s = ([], .ok a)) (hC : C s) :
    Spec (fun u => u = s) p (fun b u => b = a ∧ u = s) (fun _ _ => False) C := by
  refine of_apply ?_
  rintro u rfl
  refine ⟨hC, [], .ok a, h, ?_, ?_, ?_⟩
  · intro s' hs'
    cases hs'
  · intro b hb
    cases hb
    exact ⟨rfl, rfl⟩
  · intro e he
    cases he

theorem pure (a : α) (hQ : ∀ s, P s → Q a s) (hC : ∀ s, P s → C s) : Spec P (Pure.pure a : Prog σ ε α) Q E C := by
  intro s hs
  refine ⟨fun s' h => ?_, fun b h => ?_, fun e h => ?_⟩
  · rcases h with rfl | h
    · exact hC _ hs
    · cases h
  · cases h; exact hQ s hs
  · cases h

theorem get {Q : σ → σ → Prop} (hQ : ∀ s, P s → Q s s) (hC : ∀ s, P s → C s) :
    Spec P (Prog.get : Prog σ ε σ) Q E C := by
  intro s hs
  refine ⟨fun s' h => ?_, fun b h => ?_, fun e h => ?_⟩
  · rcases h with rfl | h
    · exact hC _ hs
    · cases h
  · cases h; exact hQ s hs
  · cases h

theorem throw {e : ε} (hE : ∀ s, P s → E e s) (hC : ∀ s, P s → C s) : Spec P (Prog.throw e : Prog σ ε α) Q E C := by
  intro s hs
  refine ⟨fun s' h => ?_, fun b h => ?_, fun e' h => ?_⟩
  · rcases h with rfl | h
    · exact hC _ hs
    · cases h
  · cases h
  · cases h; exact hE s hs

theorem modify {f : σ → σ} {Q : Unit → σ → Prop} (hQ : ∀ s, P s → Q () (f s)) (hC : ∀ s, P s → C s)
    (hC' : ∀ s, P s → C (f s)) : Spec P (Prog.modify f : Prog σ ε Unit) Q E C := by
  intro s hs
  refine ⟨fun s' h => ?_, fun b h => ?_, fun e h => ?_⟩
  · rcases h with rfl | h
    · exact hC _ hs
    · rw [List.mem_singleton.1 h]; exact hC' s hs
  · cases h; exact hQ s hs
  · cases h

theorem bind {q : α → Prog σ ε β} {R : α → σ → Prop} {Q : β → σ → Prop} (hp : Spec P p R E C)
    (hq : ∀ a, Spec (R a) (q a) Q E C) : Spec P (p >>= q) Q E C := by
  intro s hs
  obtain ⟨hc, hr, he⟩ := hp s hs
  cases h : p.result s with
  | error e =>
    refine ⟨fun s' h' => hc s' ?_, fun b h' => ?_, fun e' h' => ?_⟩
    · rcases h' with rfl | h'
      · exact Or.inl rfl
      · right
        rw [Prog.bind_apply_error (Prog.apply_eq h)] at h'; exact h'
    · rw [Prog.result_bind_error h] at h'; cases h'
    · rw [Prog.result_bind_error h] at h'; cases h'
      rw [Prog.final_bind_error h]; exact he e h
  | ok a =>
    obtain ⟨hc2, hq2, he2⟩ := hq a (p.final s) (hr a h)
    refine ⟨fun s' h' => ?_, fun b h' => ?_, fun e h' => ?_⟩
    · rcases h' with rfl | h'
      · exact hc _ (Crash.start p _)
      · rw [Prog.bind_apply_ok (Prog.apply_eq h), List.mem_append] at h'
        rcases h' with h' | h'
        · exact hc s' (Or.inr h')
        · exact hc2 s' (Or.inr h')
    · rw [Prog.result_bind_ok h] at h'; rw [Prog.final_bind_ok h]; exact hq2 b h'
    · rw [Prog.result_bind_ok h] at h'; rw [Prog.final_bind_ok h]; exact he2 e h'

/-- from each state on its own -/
theorem of_states (h : ∀ s, P s → Spec (fun u => u = s) p Q E C) : Spec P p Q E C := fun s hs => h s hs s rfl

/-- a program that reads the state first, from each state it may read -/
theorem get_bind {q : σ → Prog σ ε β} {Q : β → σ → Prop} (h : ∀ s, P s → Spec (fun u => u = s) (q s) Q E C) :
    Spec P (Prog.get >>= q) Q E C := by
  intro s hs
  exact h s hs s rfl

theorem ofExcept_bind {x : Except ε α} {a : α} (hx : x = .ok a) {q : α → Prog σ ε β} {Q : β → σ → Prop}
    (h : Spec P (q a) Q E C) : Spec P (Prog.ofExcept x >>= q) Q E C := by
  subst hx
  exact h

/-- a result that may be an error, without saying which it is -/
theorem ofExcept_bind_any {x : Except ε α} {q : α → Prog σ ε β} {Q : β → σ → Prop} (hE : ∀ e s, P s → E e s)
    (hC : ∀ s, P s → C s) (h : ∀ a, x = .ok a → Spec P (q a) Q E C) : Spec P (Prog.ofExcept x >>= q) Q E C := by
  cases x with
  | ok a => exact h a rfl
  | error e => exact throw (hE e) hC

/-- a loop over a list: `I done rest acc` is the invariant between two rounds -/
theorem foldlM {f : β → α → Prog σ ε β} {I : List α → List α → β → σ → Prop}
    (hC : ∀ done rest b s, I done rest b s → C s)
    (hf : ∀ done x rest b, Spec (I done (x :: rest) b) (f b x) (fun b' => I (done ++ [x]) rest b') E C) :
    ∀ (done rest : List α) (b : β), Spec (I done rest b) (rest.foldlM f b) (fun b' => I (done ++ rest) [] b') E C := by
  intro done rest
  induction rest generalizing done with
  | nil =>
    intro b
    rw [List.foldlM_nil, List.append_nil]
    exact pure b (fun _ h => h) (fun s h => hC _ _ _ s h)
  | cons x rest ih =>
    intro b
    rw [List.foldlM_cons]
    refine bind (hf done x rest b) fun b' => ?_
    have h := ih (done ++ [x]) b'
    rwa [List.append_assoc] at h

/-- a loop whose body keeps one predicate -/
theorem foldlM_inv {f : β → α → Prog σ ε β} {I : σ → Prop} (hC : ∀ s, I s → C s)
    (hf : ∀ b x, Spec I (f b x) (fun _ => I) E C) (l : List α) (b : β) : Spec I (l.foldlM f b) (fun _ => I) E C :=
  foldlM (I := fun _ _ _ => I) (fun _ _ _ => hC) (fun _ x _ b => hf b x) [] l b

theorem attempt {F : ε' → σ → Prop} {B : Except ε α → σ → Prop} (h : Spec P p Q E C)
    (hok : ∀ a s, Q a s → B (.ok a) s) (herr : ∀ e s, E e s → B (.error e) s) :
    Spec P (Prog.attempt p : Prog σ ε' (Except ε α)) B F C := by
  intro s hs
  obtain ⟨hc, hq, he⟩ := h s hs
  refine ⟨fun s' h' => hc s' h', fun r hr => ?_, nofun⟩
  cases hr
  cases hp : (p s).2 with
  | ok a => exact hok a _ (hq a hp)
  | error e => exact herr e _ (he e hp)

theorem mapError {f : ε → ε'} {F : ε' → σ → Prop} (h : Spec P p Q E C) (hE : ∀ e s, E e s → F (f e) s) :
    Spec P (Prog.mapError f p) Q F C := by
  intro s hs
  obtain ⟨hc, hq, he⟩ := h s hs
  refine ⟨fun s' h' => hc s' h', fun a ha => ?_, fun e' he' => ?_⟩
  · cases hp : (p s).2 with
    | ok b =>
      unfold Prog.result Prog.mapError at ha
      rw [hp] at ha
      cases ha
      exact hq a hp
    | error e => unfold Prog.result Prog.mapError at ha; rw [hp] at ha; cases ha
  · cases hp : (p s).2 with
    | ok b => unfold Prog.result Prog.mapError at he'; rw [hp] at he'; cases he'
    | error e =>
      unfold Prog.result Prog.mapError at he'
      rw [hp] at he'
      cases he'
      exact hE e _ (he e hp)

theorem failAfter {fault : Option (ℕ × ε)} (h : Spec P p Q E C) (hE : ∀ k e, fault = some (k, e) → ∀ s, C s → E e s) :
    Spec P (Prog.failAfter fault p) Q E C := by
  cases fault with
  | none => exact h
  | some f =>
    intro s hs
    obtain ⟨hc, -, -⟩ := h s hs
    refine ⟨fun s' h' => hc s' (h'.imp id List.mem_of_mem_take), nofun, fun e he => ?_⟩
    cases he
    exact hE f.1 f.2 rfl _ (hc _ (Crash.cutAt p s f.1))

/-- a program on one part of the state leaves the rest alone -/
theorem zoom {get : τ → σ} {set : σ → τ → τ} {B : α → τ → Prop} {F : ε → τ → Prop} {D : τ → Prop}
    (t : τ) (hset : set (get t) t = t) (h : Spec P p Q E C) (hP : P (get t))
    (hQ : ∀ a s, Q a s → B a (set s t)) (hE : ∀ e s, E e s → F e (set s t)) (hC : ∀ s, C s → D (set s t)) :
    Spec (fun u => u = t) (Prog.zoom get set p) B F D := by
  rintro u rfl
  obtain ⟨hc, hq, he⟩ := h (get u) hP
  have hfin : (Prog.zoom get set p).final u = set (p.final (get u)) u := by
    simp only [Prog.final, Prog.zoom]
    cases hl : (p (get u)).1 using List.reverseRecOn with
    | nil => simp [hset]
    | append_singleton l x => simp
  refine ⟨fun s' h' => ?_, fun a h' => ?_, fun e h' => ?_⟩
  · rcases h' with rfl | h'
    · have := hC _ (hc _ (Crash.start p _)); rwa [hset] at this
    · obtain ⟨s, hs, rfl⟩ := List.mem_map.1 h'
      exact hC s (hc s (Or.inr hs))
  · rw [hfin]; exact hQ a _ (hq a h')
  · rw [hfin]; exact hE e _ (he e h')

end Spec

end Y2q.CrashLogic
