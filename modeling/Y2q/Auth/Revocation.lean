/-
Revocations and duress switches among concurrent calls of the session store.

A revocation is for the tokens it covers and for all that was or will be refreshed from them; a switch likewise. What a call in progress
and a call that has returned mean for the rows is one notion: `Barred ok covered pending`.

- `InOrder`: a refresh reads no row that a revocation or a switch has yet to reach; none is about to insert the successor of a row when a
  revocation or a switch collects its victims; a switch rewrites only rows that are still there; no two switches of a user overlap.
- `revocation_complete`: along such runs the covered tokens and their successors are dead, the switched ones act as the persona, and
  nothing that was removed comes back.
- `refresh_outlives_revocation`: without, a refresh that has read its row outlives it.
-/
import Mathlib.Tactic
import Y2q.Core.Run
import Y2q.Auth.Sessions

namespace Y2q.Auth.Sessions

open Run (Along run)

variable {ι : Type} {s : Sessions ι} {t : Token} {info : SessionInfo ι} {i j maxRefreshes : ℕ}

/-- the token is one of `covered`, or was refreshed from one -/
def Of (s : Sessions ι) (covered : List Token) (t : Token) : Prop := ∃ a ∈ s.line t, a ∈ covered

/-- the rows of tokens of `covered` are `ok` or pending, and so are those that a refresh is about to insert -/
structure Barred (s : Sessions ι) (ok : SessionInfo ι → Prop) (covered pending : List Token) : Prop where
  live : ∀ t info, s.inner[t]? = some info → s.Of covered t → ok info ∨ t ∈ pending
  held : ∀ j old info expiresAt, s.calls j = some (.reissued old info expiresAt) → s.Of covered old → ok info

/-- the rows acting as the persona of a switch -/
def Acts (target : Switch ι) (info : SessionInfo ι) : Prop := info.persona = target.newPersona

/-- what holds once the calls have returned -/
structure Complete (s : Sessions ι) : Prop where
  revoked : ∀ t info, s.inner[t]? = some info → ¬s.Of s.dead t
  switched : ∀ e ∈ s.settled, ∀ t info, s.inner[t]? = some info → s.Of e.2 t → Acts e.1 info
  buried : ∀ t ∈ s.removed, s.inner[t]? = none

/-! ## The condition -/

/-- no refresh is about to insert the successor of a token for which `bad` holds -/
def NoneHeld (s : Sessions ι) (bad : Token → SessionInfo ι → Prop) : Prop :=
  ∀ j old info expiresAt, s.calls j = some (.reissued old info expiresAt) → ¬bad old info

/-- what a revocation that begins needs -/
def RevokesAll (s : Sessions ι) (covers : Token → SessionInfo ι → Bool) : Prop :=
  (∀ t info, s.inner[t]? = some info → s.Of (s.collect covers) t → t ∈ s.collect covers) ∧
    s.NoneHeld fun old _ => s.Of (s.collect covers) old

def pendingIn : Call ι → List Token
  | .revoking _ victims => victims
  | .switching _ _ victims _ => victims
  | _ => []

def StartsInOrder (s : Sessions ι) : Command ι → Prop
  | .reissue old _ => ∀ j c, s.calls j = some c → old ∉ pendingIn c
  | .getActive .. | .sweep _ => True
  | .switchUserToPersona target =>
    (s.NoneHeld fun _ info => info.username = target.username ∧ ¬Acts target info) ∧
      ∀ j target' covered victims got, s.calls j = some (.switching target' covered victims got) → target'.username ≠ target.username
  | c => s.RevokesAll c.covers

def InOrder (s : Sessions ι) : Event ι → Prop
  | .insert _ => True
  | .start i c => s.calls i = none → s.StartsInOrder c
  | .step i ok => ∀ target covered k victims old, s.calls i = some (.switching target covered (k :: victims) (some old)) →
      ok = true ∧ ∃ info, s.inner[k]? = some info

/-! ## Barriers -/

variable {ok : SessionInfo ι → Prop} {covered pending : List Token}

theorem of_issue {l : List Token} (h : t < s.issued.length) : (s.issue info l).Of covered t ↔ s.Of covered t := by
  rw [Of, Of, line_issue h]

theorem Barred.setCall {c : Option (Call ι)} (h : s.Barred ok covered pending)
    (hc : ∀ old info expiresAt, c = some (.reissued old info expiresAt) → s.Of covered old → ok info) :
    (s.setCall i c).Barred ok covered pending where
  live := h.live
  held := fun j old info expiresAt hcall => by
    rcases setCall_eq_some hcall with heq | hold
    · exact hc old info expiresAt heq
    · exact h.held j old info expiresAt hold

theorem Barred.drop (h : s.Barred ok covered (t :: pending)) : (s.drop t).Barred ok covered pending where
  live := fun k info hk hof => by
    rw [Sessions.drop, Table.getElem?_erase_iff] at hk
    split at hk
    · cases hk
    next hne =>
      rcases h.live k info hk hof with hok | hmem
      · exact Or.inl hok
      · exact Or.inr ((List.mem_cons.1 hmem).resolve_left fun heq => hne heq.symm)
  held := h.held

theorem Barred.mono {pending' : List Token} (h : s.Barred ok covered pending) (hsub : pending ⊆ pending') :
    s.Barred ok covered pending' where
  live := fun t info ht hof => (h.live t info ht hof).imp id fun hmem => hsub hmem
  held := h.held

theorem Barred.drop_other (h : s.Barred ok covered pending) : (s.drop t).Barred ok covered pending :=
  (h.mono (List.subset_cons_self t pending)).drop

/-- a victim that is gone is done with -/
theorem Barred.skip (h : s.Barred ok covered (t :: pending)) (ht : s.inner[t]? = none) : s.Barred ok covered pending where
  live := fun k info hk hof => by
    refine (h.live k info hk hof).imp id fun hmem => (List.mem_cons.1 hmem).resolve_left fun heq => ?_
    rw [heq, ht] at hk
    exact absurd hk nofun
  held := h.held

theorem Barred.replace (h : s.Barred ok covered pending) (ht : s.Of covered t → ok info ∨ t ∈ pending) :
    (s.replace t info).Barred ok covered pending where
  live := fun k info' hk hof => by
    rw [Sessions.replace, Table.getElem?_insert_iff] at hk
    split at hk
    next heq =>
      cases hk
      exact heq ▸ ht (heq ▸ hof)
    next => exact h.live k info' hk hof
  held := h.held

/-- the rewritten victim is `ok` -/
theorem Barred.rewrite (h : s.Barred ok covered (t :: pending)) (hok : ok info) : (s.replace t info).Barred ok covered pending where
  live := fun k info' hk hof => by
    rw [Sessions.replace, Table.getElem?_insert_iff] at hk
    split at hk
    next =>
      cases hk
      exact Or.inl hok
    next hne =>
      refine (h.live k info' hk hof).imp id fun hmem => ?_
      exact (List.mem_cons.1 hmem).resolve_left fun heq => hne heq.symm
  held := h.held

theorem Barred.issue {l : List Token} (h : s.Barred ok covered pending) (hs : s.Issued maxRefreshes)
    (hcov : ∀ a ∈ covered, a < s.issued.length) (hl : (∃ a ∈ l, a ∈ covered) → ok info) :
    (s.issue info l).Barred ok covered pending where
  live := fun k info' hk hof => by
    rw [Sessions.issue, Table.getElem?_insert_iff] at hk
    split at hk
    next heq =>
      cases hk
      subst heq
      rw [Of, line_issue_self] at hof
      obtain ⟨a, ha, hacov⟩ := hof
      rcases List.mem_cons.1 ha with rfl | ha
      · exact absurd (hcov _ hacov) (lt_irrefl _)
      · exact Or.inl (hl ⟨a, ha, hacov⟩)
    next => exact h.live k info' hk ((of_issue (hs.row k info' hk).lt).1 hof)
  held := fun j old held expiresAt hcall hof => by
    have hlt := (hs.call j _ hcall).1.lt
    exact h.held j old held expiresAt hcall ((of_issue hlt).1 hof)

/-! ## All barriers of a state -/

/-- what a call in progress is for -/
inductive Bars : Call ι → (SessionInfo ι → Prop) → List Token → List Token → Prop where
  | revoking (covered victims : List Token) : Bars (.revoking covered victims) (fun _ => False) covered victims
  | switching (target : Switch ι) (covered victims : List Token) (got : Option (SessionInfo ι)) :
    Bars (.switching target covered victims got) (Acts target) covered victims

inductive Barrier (s : Sessions ι) : (SessionInfo ι → Prop) → List Token → List Token → Prop where
  | call {i : ℕ} {c : Call ι} {ok : SessionInfo ι → Prop} {covered pending : List Token} (hcall : s.calls i = some c)
    (hbars : Bars c ok covered pending) : Barrier s ok covered pending
  | dead : Barrier s (fun _ => False) s.dead []
  | settled {e : Switch ι × List Token} (he : e ∈ s.settled) : Barrier s (Acts e.1) e.2 []

/-- a barrier looks at the persona only -/
theorem Barrier.ok_congr {info' : SessionInfo ι} (hb : s.Barrier ok covered pending) (hpersona : info'.persona = info.persona)
    (hok : ok info) : ok info' := by
  cases hb with
  | call hcall hbars =>
    cases hbars with
    | revoking => exact hok
    | switching => exact hpersona.trans hok
  | dead => exact hok
  | settled he => exact hpersona.trans hok

/-- no other switch of the user is in progress, and none has returned -/
def Alone (s : Sessions ι) (i : ℕ) (target : Switch ι) : Prop :=
  (∀ j target' covered victims got, s.calls j = some (.switching target' covered victims got) → target'.username = target.username →
    j = i) ∧ ∀ e ∈ s.settled, e.1.username ≠ target.username

structure Ordered (maxRefreshes : ℕ) (s : Sessions ι) : Prop where
  issued : s.Issued maxRefreshes
  barred : ∀ ok covered pending, s.Barrier ok covered pending → s.Barred ok covered pending
  buried : ∀ t ∈ s.removed, t < s.issued.length ∧ s.inner[t]? = none
  alone : ∀ i target covered victims got, s.calls i = some (.switching target covered victims got) → s.Alone i target

theorem Issued.barrier_lt (h : s.Issued maxRefreshes) (hb : s.Barrier ok covered pending) : ∀ a ∈ covered, a < s.issued.length := by
  intro a ha
  cases hb with
  | call hcall hbars =>
    have hfits := h.call _ _ hcall
    cases hbars with
    | revoking => exact hfits a ha
    | switching => exact lt_of_owner (hfits.1 a ha)
  | dead => exact h.dead a ha
  | settled he => exact lt_of_owner (h.settled _ he a ha)

theorem Issued.owner_of {u : String} (h : s.Issued maxRefreshes) (hlt : t < s.issued.length) (hof : s.Of covered t)
    (hcov : ∀ a ∈ covered, s.owner a = some u) : s.owner t = some u := by
  obtain ⟨a, ha, hacov⟩ := hof
  rw [← ((h.line t hlt).2.2 a ha).2]
  exact hcov a hacov

theorem Ordered.new : (Sessions.new : Sessions ι).Ordered maxRefreshes where
  issued := Issued.new
  barred := fun ok covered pending hb => by
    refine ⟨fun t info ht => ?_, fun j old info e hcall => ?_⟩
    · simp [Sessions.new] at ht
    · cases hcall
  buried := fun t ht => by cases ht
  alone := fun i target covered victims got hcall => by cases hcall

theorem Ordered.setCall {c : Option (Call ι)} (h : s.Ordered maxRefreshes) (hfits : ∀ d, c = some d → s.CallFits maxRefreshes d)
    (hheld : ∀ old info expiresAt, c = some (.reissued old info expiresAt) →
      ∀ ok covered pending, s.Barrier ok covered pending → s.Of covered old → ok info)
    (hbars : ∀ d ok covered pending, c = some d → Bars d ok covered pending → s.Barred ok covered pending)
    (halone : ∀ target covered victims got, c = some (.switching target covered victims got) → s.Alone i target) :
    (s.setCall i c).Ordered maxRefreshes where
  issued := h.issued.setCall hfits
  barred := fun ok covered pending hb => by
    -- the new call is no refresh that has read its row if it bars anything
    have hnew : ∀ d, c = some d → Bars d ok covered pending → (s.setCall i c).Barred ok covered pending := by
      intro d hd hbd
      refine (hbars d ok covered pending hd hbd).setCall fun old info e hc => ?_
      rw [hd] at hc
      cases hc
      exact absurd hbd nofun
    cases hb with
    | call hcall hbd =>
      rcases setCall_eq_some hcall with hc | hold
      · exact hnew _ hc hbd
      · have hb := Barrier.call hold hbd
        exact (h.barred _ _ _ hb).setCall fun old info e hc => hheld old info e hc _ _ _ hb
    | dead => exact (h.barred _ _ _ .dead).setCall fun old info e hc => hheld old info e hc _ _ _ .dead
    | settled he => exact (h.barred _ _ _ (.settled he)).setCall fun old info e hc => hheld old info e hc _ _ _ (.settled he)
  buried := h.buried
  alone := fun k target covered victims got hk => by
    have halone' : s.Alone k target := by
      rw [setCall_calls] at hk
      split at hk
      next heq => exact heq ▸ halone target covered victims got hk
      next => exact h.alone k target covered victims got hk
    refine ⟨fun j target' covered' victims' got' hj huser => ?_, halone'.2⟩
    rw [setCall_calls] at hk hj
    split at hj
    next hji =>
      split at hk
      next hki => rw [hji, hki]
      next hki =>
        have hki' := (halone target' covered' victims' got' hj).1 k target covered victims got hk huser.symm
        exact absurd hki' hki
    next => exact halone'.1 j target' covered' victims' got' hj huser

/-- a call that returns, or goes on as one that is neither a refresh, a revocation nor a switch -/
theorem Ordered.setCall_plain {c : Option (Call ι)} (h : s.Ordered maxRefreshes) (hc : c = none ∨ (∃ v, c = some (.expiring v)) ∨ ∃ t, c = some (.replaced t)) :
    (s.setCall i c).Ordered maxRefreshes := by
  rcases hc with rfl | ⟨v, rfl⟩ | ⟨t, rfl⟩
  · exact h.setCall nofun nofun nofun nofun
  · refine h.setCall (fun d hd => ?_) nofun (fun d _ _ _ hd hb => ?_) nofun <;> cases hd
    · trivial
    · exact absurd hb nofun
  · refine h.setCall (fun d hd => ?_) nofun (fun d _ _ _ hd hb => ?_) nofun <;> cases hd
    · trivial
    · exact absurd hb nofun

theorem Ordered.drop (h : s.Ordered maxRefreshes) (t : Token) : (s.drop t).Ordered maxRefreshes where
  issued := h.issued.drop
  barred := fun ok covered pending hb => by
    have hb' : s.Barrier ok covered pending := by
      cases hb with
      | call hcall hbd => exact .call hcall hbd
      | dead => exact .dead
      | settled he => exact .settled he
    exact (h.barred _ _ _ hb').drop_other
  buried := fun k hk => by
    have hgone : ∀ k : Token, s.inner[k]? = none → (s.drop t).inner[k]? = none := by
      intro k hk
      rw [Sessions.drop, Table.getElem?_erase_iff, hk, ite_self]
    simp only [Sessions.drop] at hk
    split at hk
    next hmem =>
      rcases List.mem_cons.1 hk with rfl | hk
      · obtain ⟨info, hinfo⟩ := Table.mem_iff_getElem?.1 hmem
        refine ⟨(h.issued.row k info hinfo).lt, ?_⟩
        rw [Sessions.drop, Table.getElem?_erase_iff, if_pos rfl]
      · exact ⟨(h.buried k hk).1, hgone k (h.buried k hk).2⟩
    next => exact ⟨(h.buried k hk).1, hgone k (h.buried k hk).2⟩
  alone := h.alone

theorem Ordered.issue {l : List Token} (h : s.Ordered maxRefreshes) (hissued : (s.issue info l).Issued maxRefreshes)
    (hl : ∀ ok covered pending, s.Barrier ok covered pending → (∃ a ∈ l, a ∈ covered) → ok info) :
    (s.issue info l).Ordered maxRefreshes where
  issued := hissued
  barred := fun ok covered pending hb => by
    have hb' : s.Barrier ok covered pending := by
      cases hb with
      | call hcall hbd => exact .call hcall hbd
      | dead => exact .dead
      | settled he => exact .settled he
    exact (h.barred _ _ _ hb').issue h.issued (h.issued.barrier_lt hb') (hl _ _ _ hb')
  buried := fun k hk => by
    obtain ⟨hlt, hnone⟩ := h.buried k hk
    refine ⟨?_, ?_⟩
    · rw [length_issue]
      exact Nat.lt_succ_of_lt hlt
    · rw [Sessions.issue, Table.getElem?_insert_iff, if_neg hlt.ne', hnone]
  alone := h.alone

/-- a switch of `t`'s owner rewrites its row, which is there -/
theorem Ordered.replace {target : Switch ι} {victims : List Token} {got : Option (SessionInfo ι)} {old : SessionInfo ι}
    (h : s.Ordered maxRefreshes) (hcall : s.calls i = some (.switching target covered (t :: victims) got)) (hlive : s.inner[t]? = some old)
    (hfits : s.Fits t info) : (s.replace t info).Ordered maxRefreshes where
  issued := h.issued.replace hfits
  barred := fun ok' covered' pending' hb => by
    have howner : s.owner t = some target.username := by
      obtain ⟨hcov, hsub, -⟩ := h.issued.call i _ hcall
      exact hcov t (hsub List.mem_cons_self)
    -- the row of another user's switch
    have hother : ∀ (target' : Switch ι) (c : List Token), (∀ a ∈ c, s.owner a = some target'.username) → s.Of c t →
        target'.username = target.username := by
      intro target' c hc hof
      have heq := h.issued.owner_of hfits.lt hof hc
      rw [howner] at heq
      exact (Option.some.inj heq).symm
    have hb' : s.Barrier ok' covered' pending' := by
      cases hb with
      | call hcall' hbd => exact .call hcall' hbd
      | dead => exact .dead
      | settled he => exact .settled he
    refine (h.barred _ _ _ hb').replace fun hof => ?_
    cases hb' with
    | @call j c _ _ _ hcall' hbd =>
      cases hbd with
      | revoking => exact (h.barred _ _ _ (.call hcall' (.revoking _ _))).live t old hlive hof
      | switching target' covered' victims' got' =>
        have hji : j = i := by
          refine (h.alone i _ _ _ _ hcall).1 j _ _ _ _ hcall' ?_
          exact hother target' _ (h.issued.call j _ hcall').1 hof
        subst hji
        rw [hcall] at hcall'
        cases hcall'
        exact Or.inr List.mem_cons_self
    | dead => exact (h.barred _ _ _ .dead).live t old hlive hof
    | settled he => exact absurd (hother _ _ (h.issued.settled _ he) hof) ((h.alone i _ _ _ _ hcall).2 _ he)
  buried := fun k hk => by
    obtain ⟨hlt, hnone⟩ := h.buried k hk
    refine ⟨hlt, ?_⟩
    have hne : t ≠ k := by
      intro heq
      rw [heq, hnone] at hlive
      exact absurd hlive nofun
    rw [Sessions.replace, Table.getElem?_insert_iff, if_neg hne, hnone]
  alone := h.alone

/-- a revocation has returned -/
theorem Ordered.retire (h : s.Ordered maxRefreshes) (hcov : ∀ a ∈ covered, a < s.issued.length)
    (hb : s.Barred (fun _ => False) covered []) : Ordered maxRefreshes { s with dead := covered ++ s.dead } where
  issued :=
    { h.issued with
      dead := fun t ht => by
        rcases List.mem_append.1 ht with hmem | hold
        · exact hcov t hmem
        · exact h.issued.dead t hold }
  barred := fun ok' covered' pending' hb' => by
    cases hb' with
    | call hcall hbd => exact ⟨(h.barred _ _ _ (.call hcall hbd)).live, (h.barred _ _ _ (.call hcall hbd)).held⟩
    | settled he => exact ⟨(h.barred _ _ _ (.settled he)).live, (h.barred _ _ _ (.settled he)).held⟩
    | dead =>
      have hsplit : ∀ t, s.Of (covered ++ s.dead) t → s.Of covered t ∨ s.Of s.dead t := by
        intro t ⟨a, ha, hmem⟩
        exact (List.mem_append.1 hmem).imp (fun hm => ⟨a, ha, hm⟩) fun hm => ⟨a, ha, hm⟩
      have hdead := h.barred _ _ _ .dead
      refine ⟨fun t info ht hof => ?_, fun j old info e hcall hof => ?_⟩
      · exact (hsplit t hof).elim (hb.live t info ht) (hdead.live t info ht)
      · exact (hsplit old hof).elim (hb.held j old info e hcall) (hdead.held j old info e hcall)
  buried := h.buried
  alone := h.alone

/-- a switch has returned -/
theorem Ordered.settle {target : Switch ι} (h : s.Ordered maxRefreshes) (hcov : ∀ a ∈ covered, s.owner a = some target.username)
    (hb : s.Barred (Acts target) covered [])
    (hnone : ∀ j target' covered victims got, s.calls j = some (.switching target' covered victims got) →
      target'.username ≠ target.username) : Ordered maxRefreshes { s with settled := (target, covered) :: s.settled } where
  issued :=
    { h.issued with
      settled := fun e he => by
        rcases List.mem_cons.1 he with rfl | hold
        · exact hcov
        · exact h.issued.settled e hold }
  barred := fun ok' covered' pending' hb' => by
    cases hb' with
    | call hcall hbd => exact ⟨(h.barred _ _ _ (.call hcall hbd)).live, (h.barred _ _ _ (.call hcall hbd)).held⟩
    | dead => exact ⟨(h.barred _ _ _ .dead).live, (h.barred _ _ _ .dead).held⟩
    | settled he =>
      rcases List.mem_cons.1 he with rfl | hold
      · exact ⟨hb.live, hb.held⟩
      · exact ⟨(h.barred _ _ _ (.settled hold)).live, (h.barred _ _ _ (.settled hold)).held⟩
  buried := h.buried
  alone := fun k target' covered' victims got hk => by
    obtain ⟨hsingle, hothers⟩ := h.alone k target' covered' victims got hk
    refine ⟨hsingle, fun e he => ?_⟩
    rcases List.mem_cons.1 he with rfl | hold
    · exact (hnone k target' covered' victims got hk).symm
    · exact hothers e hold

/-! ## One step -/

/-- a revocation begins -/
theorem Ordered.revoke {covers : Token → SessionInfo ι → Bool} (h : s.Ordered maxRefreshes) (hc : s.RevokesAll covers) :
    (s.setCall i (some (.revoking (s.collect covers) (s.collect covers)))).Ordered maxRefreshes := by
  obtain ⟨hlive, hheld⟩ := hc
  refine h.setCall (fun d hd => ?_) nofun (fun d ok covered pending hd hb => ?_) nofun
  · cases hd
    exact h.issued.collect
  · cases hd
    cases hb
    exact ⟨fun t info ht hof => Or.inr (hlive t info ht hof), hheld⟩

theorem Ordered.startSwitch {target : Switch ι} (h : s.Ordered maxRefreshes) (hc : s.StartsInOrder (.switchUserToPersona target)) :
    (s.startCall maxRefreshes i (.switchUserToPersona target)).Ordered maxRefreshes := by
  obtain ⟨hheld, hothers⟩ := hc
  have hissued := h.issued.startCall (i := i) (.switchUserToPersona target)
  -- the user's earlier switches are no longer the last
  have hfiltered : Ordered maxRefreshes { s with settled := s.settled.filter fun e => e.1.username ≠ target.username } :=
    { issued := { h.issued with settled := fun e he => h.issued.settled e (List.mem_filter.1 he).1 }
      barred := fun ok covered pending hb => by
        have hb' : s.Barrier ok covered pending := by
          cases hb with
          | call hcall hbd => exact .call hcall hbd
          | dead => exact .dead
          | settled he => exact .settled (List.mem_filter.1 he).1
        exact ⟨(h.barred _ _ _ hb').live, (h.barred _ _ _ hb').held⟩
      buried := h.buried
      alone := fun k target' covered victims got hk => by
        obtain ⟨hsingle, hsettled⟩ := h.alone k target' covered victims got hk
        exact ⟨hsingle, fun e he => hsettled e (List.mem_filter.1 he).1⟩ }
  have howned : ∀ t info, s.Fits t info →
      s.Of (s.collect fun _ info => info.username = target.username) t → info.username = target.username := by
    intro t info hfits hof
    have howner : s.owner t = some target.username := by
      refine h.issued.owner_of hfits.lt hof fun a ha => ?_
      obtain ⟨row, hrow, hu⟩ := mem_collect.1 ha
      rw [← of_decide_eq_true hu]
      exact (h.issued.row a row hrow).1
    rw [hfits.1] at howner
    exact Option.some.inj howner
  refine hfiltered.setCall (fun d hd => ?_) nofun (fun d ok covered pending hd hb => ?_) fun target' covered victims got hd => ?_
  · exact hissued.call i d (by rw [Sessions.startCall, setCall_calls, if_pos rfl, hd])
  · cases hd
    cases hb
    refine ⟨fun t info ht hof => ?_, fun j old info e hcall hof => ?_⟩
    · by_cases hacts : Acts target info
      · exact Or.inl hacts
      · refine Or.inr (mem_collect.2 ⟨info, ht, ?_⟩)
        rw [Bool.and_eq_true]
        exact ⟨decide_eq_true (howned t info (h.issued.row t info ht) hof), decide_eq_true hacts⟩
    · by_contra hacts
      exact hheld j old info e hcall ⟨howned old info (h.issued.call j _ hcall).1 hof, hacts⟩
  · cases hd
    refine ⟨fun j target' covered' victims' got' hj huser => absurd huser (hothers j target' covered' victims' got' hj), fun e he => ?_⟩
    exact of_decide_eq_true (List.mem_filter.1 he).2

/-- a refresh reads its row -/
theorem Ordered.startReissue {old : Token} {expiresAt : ℕ} (h : s.Ordered maxRefreshes) (hc : s.StartsInOrder (.reissue old expiresAt)) :
    (s.startCall maxRefreshes i (.reissue old expiresAt)).Ordered maxRefreshes := by
  simp only [Sessions.startCall]
  split
  · exact h
  next info hinfo =>
    split
    · exact h
    next hmax =>
      refine h.setCall (fun d hd => ?_) (fun old' info' e hd ok covered pending hb hof => ?_) (fun d ok covered pending hd hb => ?_)
        fun target covered victims got hd => by cases hd
      · cases hd
        exact ⟨h.issued.row old info hinfo, not_le.1 hmax⟩
      · cases hd
        refine ((h.barred _ _ _ hb).live old info hinfo hof).resolve_right fun hpending => ?_
        cases hb with
        | @call j c _ _ _ hcall hbd =>
          have hnot := hc j c hcall
          cases hbd with
          | revoking => exact hnot hpending
          | switching => exact hnot hpending
        | dead => exact absurd hpending List.not_mem_nil
        | settled he => exact absurd hpending List.not_mem_nil
      · cases hd
        cases hb

theorem Ordered.startCall {c : Command ι} (h : s.Ordered maxRefreshes) (hc : s.StartsInOrder c) :
    (s.startCall maxRefreshes i c).Ordered maxRefreshes := by
  cases c with
  | reissue old expiresAt => exact h.startReissue hc
  | getActive tok now =>
    simp only [Sessions.startCall]
    split
    · exact h
    · split
      · exact h.setCall_plain (Or.inr (Or.inl ⟨_, rfl⟩))
      · exact h
  | sweep now => exact h.setCall_plain (Or.inr (Or.inl ⟨_, rfl⟩))
  | switchUserToPersona target => exact h.startSwitch hc
  | revoke tok => exact h.revoke hc
  | revokeUser u => exact h.revoke hc
  | revokeUserPersona u p => exact h.revoke hc
  | revokeUserPersonaExcept u p keep => exact h.revoke hc

/-- a refresh inserts the new row -/
theorem Ordered.stepReissued {old : Token} {expiresAt : ℕ} (h : s.Ordered maxRefreshes)
    (hcall : s.calls i = some (.reissued old info expiresAt)) (ok : Bool) :
    (s.stepCall i ok (.reissued old info expiresAt)).Ordered maxRefreshes := by
  obtain ⟨⟨howner, hlen⟩, hmax⟩ := h.issued.call i _ hcall
  simp only [Sessions.stepCall]
  split
  · refine Ordered.setCall_plain (h.issue (h.issued.issue (fun a ha => ?_) hlen hmax) fun ok' covered pending hb hof => ?_)
      (Or.inr (Or.inr ⟨_, rfl⟩))
    · rw [((h.issued.line old (lt_of_owner howner)).2.2 a ha).2, howner]
    · have hok : ok' info := (h.barred _ _ _ hb).held i old info expiresAt hcall hof
      refine hb.ok_congr ?_ hok
      rfl
  · exact h.setCall_plain (Or.inl rfl)

theorem Ordered.stepRevoking {victims : List Token} (h : s.Ordered maxRefreshes) (hcall : s.calls i = some (.revoking covered victims))
    (ok : Bool) : (s.stepCall i ok (.revoking covered victims)).Ordered maxRefreshes := by
  have hfits : ∀ a ∈ covered, a < s.issued.length := h.issued.call i _ hcall
  have hbarred := h.barred _ _ _ (.call hcall (.revoking covered victims))
  cases victims with
  | nil =>
    have hidle : (s.setCall i none).Ordered maxRefreshes := h.setCall_plain (Or.inl rfl)
    exact hidle.retire hfits (hbarred.setCall nofun)
  | cons t victims =>
    refine (h.drop t).setCall (fun d hd => ?_) nofun (fun d ok covered pending hd hb => ?_) nofun
    · cases hd
      exact hfits
    · cases hd
      cases hb
      exact hbarred.drop

/-- a switch goes on with the rest of its victims -/
theorem Ordered.continueSwitch {target : Switch ι} {victims : List Token} {got : Option (SessionInfo ι)} (h : s.Ordered maxRefreshes)
    (hfits : s.CallFits maxRefreshes (.switching target covered victims got)) (halone : s.Alone i target)
    (hbarred : s.Barred (Acts target) covered victims) :
    (s.setCall i (some (.switching target covered victims got))).Ordered maxRefreshes := by
  refine h.setCall (fun d hd => ?_) nofun (fun d ok covered pending hd hb => ?_) fun target' covered' victims' got' hd => ?_
  · cases hd
    exact hfits
  · cases hd
    cases hb
    exact hbarred
  · cases hd
    exact halone

theorem Ordered.stepSwitching {target : Switch ι} {victims : List Token} {got : Option (SessionInfo ι)} {ok : Bool}
    (h : s.Ordered maxRefreshes) (hcall : s.calls i = some (.switching target covered victims got)) (hc : s.InOrder (.step i ok)) :
    (s.stepCall i ok (.switching target covered victims got)).Ordered maxRefreshes := by
  obtain ⟨hcov, hsub, hgot⟩ := h.issued.call i _ hcall
  have hbarred := h.barred _ _ _ (.call hcall (.switching target covered victims got))
  have halone := h.alone i _ _ _ _ hcall
  cases victims with
  | nil =>
    have hidle : (s.setCall i none).Ordered maxRefreshes := h.setCall_plain (Or.inl rfl)
    refine hidle.settle hcov (hbarred.setCall nofun) fun j target' covered' victims' got' hj huser => ?_
    rw [setCall_calls] at hj
    split at hj
    · exact absurd hj nofun
    next hne => exact hne (halone.1 j target' covered' victims' got' hj huser)
  | cons k victims =>
    have hrest : s.CallFits maxRefreshes (.switching target covered victims none) :=
      ⟨hcov, fun t ht => hsub (List.mem_cons_of_mem k ht), nofun⟩
    cases got with
    | none =>
      simp only [Sessions.stepCall]
      split
      next hnone => exact h.continueSwitch hrest halone (hbarred.skip hnone)
      next old hold =>
        refine h.continueSwitch ⟨hcov, hsub, fun info hinfo => ?_⟩ halone hbarred
        cases hinfo
        exact ⟨k, victims, rfl, h.issued.row k old hold⟩
    | some old =>
      obtain ⟨hok, info, hlive⟩ := hc target covered k victims old hcall
      obtain ⟨k', rest, heq, hfit⟩ := hgot old rfl
      obtain ⟨rfl, -⟩ := List.cons.inj heq
      have hreplaced : (s.replace k (target.switched old)).Ordered maxRefreshes := h.replace hcall hlive hfit
      simp only [Sessions.stepCall, hok, if_true]
      exact hreplaced.continueSwitch hrest halone (hbarred.rewrite rfl)

theorem Ordered.step (h : s.Ordered maxRefreshes) {x : Event ι} (hx : s.InOrder x) : (s.step maxRefreshes x).Ordered maxRefreshes := by
  cases x with
  | insert info =>
    refine h.issue (h.issued.issue nofun rfl (Nat.zero_le _)) fun ok covered pending hb hof => ?_
    obtain ⟨a, ha, -⟩ := hof
    exact absurd ha List.not_mem_nil
  | start i c =>
    simp only [Sessions.step]
    split
    · exact h
    next hidle => exact h.startCall (hx hidle)
  | step i ok =>
    simp only [Sessions.step]
    split
    · exact h
    next c hcall =>
      cases c with
      | reissued old info expiresAt => exact h.stepReissued hcall ok
      | replaced old => exact (h.drop old).setCall_plain (Or.inl rfl)
      | revoking covered victims => exact h.stepRevoking hcall ok
      | expiring victims =>
        cases victims with
        | nil => exact h.setCall_plain (Or.inl rfl)
        | cons t victims => exact (h.drop t).setCall_plain (Or.inr (Or.inl ⟨_, rfl⟩))
      | switching target covered victims got => exact h.stepSwitching hcall hx

theorem Ordered.complete (h : s.Ordered maxRefreshes) : s.Complete where
  revoked := fun t info ht hof => by
    rcases (h.barred _ _ _ .dead).live t info ht hof with hfalse | hpending
    · exact hfalse
    · exact absurd hpending List.not_mem_nil
  switched := fun e he t info ht hof => by
    rcases (h.barred _ _ _ (.settled he)).live t info ht hof with hacts | hpending
    · exact hacts
    · exact absurd hpending List.not_mem_nil
  buried := fun t ht => (h.buried t ht).2

/-! ## Every run -/

/-- **Revocations and switches are complete.** Along every run in order: a token that a revocation which has returned had covered, and
every token refreshed from it, is dead; after a switch has returned, the tokens of the user that there were when it began, and those
refreshed from them, act as its persona; and no token that was removed is live again. -/
theorem revocation_complete (maxRefreshes : ℕ) (events : List (Event ι)) (h : Along (step maxRefreshes) InOrder new events) :
    (run (step maxRefreshes) new events).Complete :=
  (h.inv (fun _ _ hs hx => hs.step hx) Ordered.new : Ordered maxRefreshes _).complete

/-- a login, a refresh, and then a revocation -/
def oneByOne : List (Event Unit) :=
  [.insert aliceRow, .start 0 (.reissue 0 90), .step 0 true, .step 0 true, .start 1 (.revokeUser "alice"), .step 1 true, .step 1 true]

theorem revocation_complete_one_by_one :
    (run (step 3) new oneByOne).dead = [1] ∧ (run (step 3) new oneByOne).line 1 = [1, 0] ∧ (run (step 3) new oneByOne).Complete := by
  refine ⟨rfl, rfl, revocation_complete 3 oneByOne ?_⟩
  have hall : (run (step 3) new (oneByOne.take 4)).RevokesAll (Command.revokeUser "alice" : Command Unit).covers := by
    have hrows : (run (step 3) new (oneByOne.take 4)).inner.toList = [(1, { aliceRow with expiresAt := 90, refreshCount := 1 })] := rfl
    refine ⟨fun t info ht _ => mem_collect.2 ⟨info, ht, ?_⟩, fun j old info expiresAt hcall => ?_⟩
    · rw [← Table.mem_toList, hrows, List.mem_singleton, Prod.mk.injEq] at ht
      rw [ht.2]
      rfl
    · match j with
      | 0 => exact absurd hcall nofun
      | j + 1 => exact absurd hcall nofun
  refine ⟨trivial, fun _ j c hc => absurd hc nofun, ?_, ?_, fun _ => hall, ?_, ?_, trivial⟩
  all_goals
    intro target covered k victims old hcall
    exact absurd hcall nofun

/-- the refresh has read its row when the revocation begins -/
def overtaken : List (Event Unit) :=
  [.insert aliceRow, .start 0 (.reissue 0 90), .start 1 (.revokeUser "alice"), .step 1 true, .step 1 true, .step 0 true, .step 0 true]

theorem refresh_outlives_revocation :
    (∀ j, (run (step 3) new overtaken).calls j = none) ∧ ¬(run (step 3) new overtaken).Complete := by
  constructor
  · intro j
    match j with
    | 0 => rfl
    | 1 => rfl
    | j + 2 => rfl
  · intro h
    have hlive : (run (step 3) new overtaken).inner[1]? = some { aliceRow with expiresAt := 90, refreshCount := 1 } := rfl
    have hof : (run (step 3) new overtaken).Of (run (step 3) new overtaken).dead 1 := ⟨0, by decide, by decide⟩
    exact h.revoked 1 _ hlive hof

end Y2q.Auth.Sessions
