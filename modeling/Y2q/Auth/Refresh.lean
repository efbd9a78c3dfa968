/-
Refreshes of the tokens of one login.

`reissue` inserts the new row before it removes the old one, and does not look whether there was one to remove. Two refreshes that have
both read a token's row both insert a successor.

- `Head`: of the tokens of a login, the one that is yet to be refreshed: live or read by a refresh, and not replaced.
- `InTurn`: a refresh reads no row that another refresh in progress has read, and a switch brings back no row.
- `refresh_linear`: along such runs there is one head for each login, so with no refresh in progress at most one live token; and no line
  of refreshes is longer than `max_refreshes`.
-/
import Mathlib.Tactic
import Y2q.Core.Run
import Y2q.Auth.Sessions

namespace Y2q.Auth.Sessions

open Run (Along run)

variable {ι : Type} {s s' : Sessions ι} {t : Token} {info : SessionInfo ι} {i maxRefreshes : ℕ}

/-- the token that a call is refreshing -/
def refreshing : Call ι → Option Token
  | .reissued old _ _ => some old
  | .replaced old => some old
  | _ => none

/-- the token of the login that a token descends from -/
def login (s : Sessions ι) (t : Token) : Option Token := (s.line t).getLast?

structure Linear (maxRefreshes : ℕ) (s : Sessions ι) : Prop where
  one : (∀ j c, s.calls j = some c → refreshing c = none) →
    ∀ t t' info info', s.inner[t]? = some info → s.inner[t']? = some info' → s.login t = s.login t' → t = t'
  short : ∀ t < s.issued.length, (s.line t).length ≤ maxRefreshes + 1

def InTurn (s : Sessions ι) : Event ι → Prop
  | .insert _ => True
  | .start i c => s.calls i = none → ∀ old expiresAt, c = .reissue old expiresAt → ∀ j d, s.calls j = some d → refreshing d ≠ some old
  | .step i ok => ok = true → ∀ target covered k victims old,
      s.calls i = some (.switching target covered (k :: victims) (some old)) → ∃ info, s.inner[k]? = some info

/-! ## Heads -/

def Head (s : Sessions ι) (t : Token) : Prop :=
  ((∃ info, s.inner[t]? = some info) ∨ ∃ j info expiresAt, s.calls j = some (.reissued t info expiresAt)) ∧
    ∀ j, s.calls j ≠ some (.replaced t)

/-- at most one refresh of a token is in progress -/
def Single (s : Sessions ι) : Prop :=
  ∀ i j c d t, s.calls i = some c → s.calls j = some d → refreshing c = some t → refreshing d = some t → i = j

structure OneHead (maxRefreshes : ℕ) (s : Sessions ι) : Prop where
  issued : s.Issued maxRefreshes
  single : s.Single
  head : ∀ t t', s.Head t → s.Head t' → s.login t = s.login t' → t = t'

theorem Issued.head_lt (h : s.Issued maxRefreshes) (ht : s.Head t) : t < s.issued.length := by
  rcases ht.1 with ⟨info, hinfo⟩ | ⟨j, info, expiresAt, hcall⟩
  · exact (h.row t info hinfo).lt
  · exact (h.call j _ hcall).1.lt

theorem OneHead.linear (h : s.OneHead maxRefreshes) : s.Linear maxRefreshes where
  one := fun hidle t t' info info' ht ht' hlogin => by
    have hhead : ∀ t info, s.inner[t]? = some info → s.Head t := by
      intro t info ht
      refine ⟨Or.inl ⟨info, ht⟩, fun j hj => ?_⟩
      exact absurd (hidle j _ hj) nofun
    exact h.head t t' (hhead t info ht) (hhead t' info' ht') hlogin
  short := fun t ht => (h.issued.line t ht).2.1

theorem head_setCall {c : Option (Call ι)} (hi : s.calls i ≠ some (.replaced t)) (ht : (s.setCall i c).Head t) :
    s.Head t ∨ ∃ info expiresAt, c = some (.reissued t info expiresAt) := by
  have hreplaced : ∀ j, s.calls j ≠ some (.replaced t) := by
    intro j hj
    by_cases hji : j = i
    · exact hi (hji ▸ hj)
    · exact ht.2 j (by rw [setCall_calls, if_neg hji, hj])
  rcases ht.1 with hlive | ⟨j, info, expiresAt, hcall⟩
  · exact Or.inl ⟨Or.inl hlive, hreplaced⟩
  · rcases setCall_eq_some hcall with hc | hold
    · exact Or.inr ⟨info, expiresAt, hc⟩
    · exact Or.inl ⟨Or.inr ⟨j, info, expiresAt, hold⟩, hreplaced⟩

theorem head_issue {l : List Token} (ht : (s.issue info l).Head t) : t = s.issued.length ∨ s.Head t := by
  refine or_iff_not_imp_left.2 fun hne => ⟨ht.1.imp (fun hlive => ?_) id, ht.2⟩
  obtain ⟨row, hrow⟩ := hlive
  rw [issue, Table.getElem?_insert_iff, if_neg (Ne.symm hne)] at hrow
  exact ⟨row, hrow⟩

theorem head_drop {k : Token} (ht : (s.drop k).Head t) : s.Head t := by
  refine ⟨ht.1.imp (fun hlive => ?_) id, ht.2⟩
  obtain ⟨row, hrow⟩ := hlive
  rw [drop, Table.getElem?_erase_iff] at hrow
  split at hrow
  · cases hrow
  · exact ⟨row, hrow⟩

theorem head_replace {k : Token} {old : SessionInfo ι} (hk : s.inner[k]? = some old) (ht : (s.replace k info).Head t) : s.Head t := by
  refine ⟨ht.1.imp (fun hlive => ?_) id, ht.2⟩
  obtain ⟨row, hrow⟩ := hlive
  rw [replace, Table.getElem?_insert_iff] at hrow
  split at hrow
  next heq => exact ⟨old, heq ▸ hk⟩
  next => exact ⟨row, hrow⟩

theorem login_issue {l : List Token} (h : t < s.issued.length) : (s.issue info l).login t = s.login t := by
  rw [login, login, line_issue h]

/-- no new head, and nothing issued -/
theorem OneHead.mono (h : s.OneHead maxRefreshes) (hissued : s'.Issued maxRefreshes) (hsame : s'.issued = s.issued)
    (hsingle : s'.Single) (hhead : ∀ t, s'.Head t → s.Head t) : s'.OneHead maxRefreshes where
  issued := hissued
  single := hsingle
  head := fun t t' ht ht' hlogin => by
    refine h.head t t' (hhead t ht) (hhead t' ht') ?_
    rw [login, login, line, line, hsame] at hlogin
    exact hlogin

/-- a call does not take up another refresh -/
theorem Single.setCall {c : Option (Call ι)} (h : s.Single) (hc : ∀ d t, c = some d → refreshing d = some t →
    ∃ d', s.calls i = some d' ∧ refreshing d' = some t) : (s.setCall i c).Single := by
  have hold : ∀ j d t, (s.setCall i c).calls j = some d → refreshing d = some t → ∃ d', s.calls j = some d' ∧ refreshing d' = some t := by
    intro j d t hj hd
    rw [setCall_calls] at hj
    split at hj
    next heq => exact heq ▸ hc d t hj hd
    next => exact ⟨d, hj, hd⟩
  intro j k d e t hj hk hd he
  obtain ⟨d', hj', hd'⟩ := hold j d t hj hd
  obtain ⟨e', hk', he'⟩ := hold k e t hk he
  exact h j k d' e' t hj' hk' hd' he'

/-- a call that is no refresh, before and after -/
theorem OneHead.setCall_plain {c : Option (Call ι)} (h : s.OneHead maxRefreshes) (hissued : (s.setCall i c).Issued maxRefreshes)
    (hd : ∀ d, s.calls i = some d → refreshing d = none) (hc : ∀ d, c = some d → refreshing d = none) :
    (s.setCall i c).OneHead maxRefreshes := by
  refine h.mono hissued rfl (h.single.setCall fun d t hcd ht => ?_) fun t ht => ?_
  · rw [hc d hcd] at ht
    exact absurd ht nofun
  · refine (head_setCall (fun hi => ?_) ht).resolve_right fun ⟨info, expiresAt, heq⟩ => ?_
    · exact absurd (hd _ hi) nofun
    · exact absurd (hc _ heq) nofun

theorem OneHead.drop (h : s.OneHead maxRefreshes) (k : Token) : (s.drop k).OneHead maxRefreshes :=
  h.mono h.issued.drop rfl h.single fun _ => head_drop

/-! ## One step -/

theorem OneHead.new : (Sessions.new : Sessions ι).OneHead maxRefreshes where
  issued := Issued.new
  single := fun _ _ c _ _ hi => absurd hi.symm (Option.some_ne_none c)
  head := fun t t' ht => by
    rcases ht.1 with ⟨info, hinfo⟩ | ⟨j, info, expiresAt, hcall⟩
    · simp [Sessions.new] at hinfo
    · cases hcall

/-- a login -/
theorem OneHead.insert (h : s.OneHead maxRefreshes) (hissued : (s.issue info []).Issued maxRefreshes) :
    (s.issue info []).OneHead maxRefreshes := by
  have hnew : (s.issue info []).login s.issued.length = some s.issued.length := by
    rw [login, line_issue_self]
    rfl
  -- the logins of older tokens are older
  have hold : ∀ t, s.Head t → (s.issue info []).login t = s.login t ∧ s.login t ≠ some s.issued.length := by
    intro t ht
    have hlt := h.issued.head_lt ht
    refine ⟨login_issue hlt, fun heq => ?_⟩
    have hle := ((h.issued.line t hlt).2.2 _ (List.mem_of_getLast? heq)).1
    exact absurd (hle.trans_lt hlt) (lt_irrefl _)
  refine ⟨hissued, h.single, fun t t' ht ht' hlogin => ?_⟩
  rcases head_issue ht with rfl | ht <;> rcases head_issue ht' with rfl | ht'
  · rfl
  · rw [hnew, (hold t' ht').1] at hlogin
    exact absurd hlogin.symm (hold t' ht').2
  · rw [hnew, (hold t ht).1] at hlogin
    exact absurd hlogin (hold t ht).2
  · rw [(hold t ht).1, (hold t' ht').1] at hlogin
    exact h.head t t' ht ht' hlogin

/-- a refresh reads its row -/
theorem OneHead.startReissue {old : Token} {expiresAt : ℕ} (h : s.OneHead maxRefreshes) (hidle : s.calls i = none)
    (hc : ∀ j d, s.calls j = some d → refreshing d ≠ some old) :
    (s.startCall maxRefreshes i (.reissue old expiresAt)).OneHead maxRefreshes := by
  have hissued := h.issued.startCall (i := i) (.reissue old expiresAt)
  simp only [Sessions.startCall] at hissued ⊢
  split at hissued
  · exact h
  next row hrow =>
    split at hissued
    next hmax => exact (if_pos hmax).symm ▸ h
    next hmax =>
      rw [if_neg hmax]
      refine h.mono hissued rfl (fun j k d e t hj hk hd he => ?_) fun t ht => ?_
      · rw [setCall_calls] at hj hk
        split at hj <;> split at hk
        next hji hki => rw [hji, hki]
        next =>
          cases hj
          cases hd
          exact absurd he (hc k e hk)
        next =>
          cases hk
          cases he
          exact absurd hd (hc j d hj)
        next => exact h.single j k d e t hj hk hd he
      · rcases head_setCall (fun hi => by rw [hidle] at hi; cases hi) ht with hold | ⟨info, e, heq⟩
        · exact hold
        · cases heq
          exact ⟨Or.inl ⟨row, hrow⟩, fun j hj => hc j _ hj rfl⟩

/-- a refresh inserts the new row: the head moves on -/
theorem OneHead.stepReissued {old : Token} {expiresAt : ℕ} (h : s.OneHead maxRefreshes)
    (hcall : s.calls i = some (.reissued old info expiresAt)) (ok : Bool) :
    (s.stepCall i ok (.reissued old info expiresAt)).OneHead maxRefreshes := by
  have hissued := h.issued.stepCall hcall ok
  have hlt := (h.issued.call i _ hcall).1.lt
  have hnot : ∀ t, s.calls i ≠ some (.replaced t) := by
    intro t ht
    rw [hcall] at ht
    cases ht
  have hheadOld : s.Head old := by
    refine ⟨Or.inr ⟨i, info, expiresAt, hcall⟩, fun j hj => ?_⟩
    exact hnot old (h.single j i _ _ old hj hcall rfl rfl ▸ hj)
  cases ok with
  | false =>
    refine h.mono hissued rfl (h.single.setCall fun d t hd _ => by cases hd) fun t ht => ?_
    exact (head_setCall (hnot t) ht).resolve_right (by rintro ⟨_, _, ⟨⟩⟩)
  | true =>
    generalize hnew : { info with expiresAt := expiresAt, refreshCount := info.refreshCount + 1 } = new at hissued
    simp only [Sessions.stepCall, if_true, hnew] at hissued ⊢
    -- the new token, or an older head other than the one refreshed
    have hheads : ∀ t, ((s.issue new (s.line old)).setCall i (some (.replaced old))).Head t → t = s.issued.length ∨ s.Head t ∧ t ≠ old := by
      intro t ht
      have hne : t ≠ old := by
        intro heq
        refine ht.2 i ?_
        rw [setCall_calls, if_pos rfl, heq]
      have hissue := @head_setCall ι (s.issue new (s.line old)) t i _ (hnot t) ht
      exact (head_issue (hissue.resolve_right (by rintro ⟨_, _, ⟨⟩⟩))).imp id fun hold => ⟨hold, hne⟩
    have hlogin : (s.issue new (s.line old)).login s.issued.length = s.login old := by
      rw [login, line_issue_self, login]
      exact List.getLast?_cons_of_ne_nil (h.issued.line old hlt).1
    have hother : ∀ t, s.Head t → t ≠ old → (s.issue new (s.line old)).login t ≠ s.login old := by
      intro t ht hne heq
      rw [login_issue (h.issued.head_lt ht)] at heq
      exact hne (h.head t old ht hheadOld heq)
    have hsingle : (s.setCall i (some (.replaced old))).Single := h.single.setCall fun d t hd ht => by
      cases hd
      exact ⟨_, hcall, ht⟩
    refine ⟨hissued, hsingle, fun t t' ht ht' heq => ?_⟩
    change (s.issue new (s.line old)).login t = (s.issue new (s.line old)).login t' at heq
    rcases hheads t ht with rfl | ⟨ht, hne⟩ <;> rcases hheads t' ht' with rfl | ⟨ht', hne'⟩
    · rfl
    · exact absurd (heq.symm.trans hlogin) (hother t' ht' hne')
    · exact absurd (heq.trans hlogin) (hother t ht hne)
    · rw [login_issue (h.issued.head_lt ht), login_issue (h.issued.head_lt ht')] at heq
      exact h.head t t' ht ht' heq

/-- the refresh removes the old row -/
theorem OneHead.stepReplaced {old : Token} (h : s.OneHead maxRefreshes) (hcall : s.calls i = some (.replaced old)) :
    ((s.drop old).setCall i none).OneHead maxRefreshes := by
  have hissued := h.issued.stepCall hcall true
  refine h.mono hissued rfl (h.single.setCall nofun) fun t ht => ?_
  -- the old token is gone, and no other refresh has read it
  have hne : t ≠ old := by
    intro heq
    rcases ht.1 with ⟨info, hinfo⟩ | ⟨j, info, expiresAt, hj⟩
    · change (s.inner.erase old)[t]? = some info at hinfo
      rw [Table.getElem?_erase_iff, if_pos heq.symm] at hinfo
      exact absurd hinfo nofun
    · rcases setCall_eq_some hj with hnone | hold
      · exact absurd hnone nofun
      · have hji := h.single j i _ _ old hold hcall (congrArg some heq) rfl
        change s.calls j = _ at hold
        rw [hji, hcall] at hold
        exact absurd hold nofun
  have hnot : s.calls i ≠ some (.replaced t) := by
    intro hi
    rw [hcall] at hi
    exact hne (Call.replaced.inj (Option.some.inj hi)).symm
  exact head_drop ((@head_setCall ι (s.drop old) t i none hnot ht).resolve_right fun ⟨_, _, heq⟩ => nomatch heq)

theorem OneHead.startCall {c : Command ι} (h : s.OneHead maxRefreshes) (hidle : s.calls i = none) (hc : s.InTurn (.start i c)) :
    (s.startCall maxRefreshes i c).OneHead maxRefreshes := by
  have hissued := h.issued.startCall (i := i) c
  have hd : ∀ d, s.calls i = some d → refreshing d = none := by
    intro d hd
    rw [hidle] at hd
    exact absurd hd.symm (Option.some_ne_none d)
  cases c with
  | reissue old expiresAt => exact h.startReissue hidle (hc hidle old expiresAt rfl)
  | getActive tok now =>
    simp only [Sessions.startCall] at hissued ⊢
    split at hissued
    · exact h
    · split at hissued
      next hexp =>
        rw [if_pos hexp]
        exact h.setCall_plain hissued hd fun d hd => by cases hd; rfl
      next hexp => exact (if_neg hexp).symm ▸ h
  | sweep now => exact h.setCall_plain hissued hd fun d hd => by cases hd; rfl
  | switchUserToPersona target =>
    have hfiltered : OneHead maxRefreshes { s with settled := s.settled.filter fun e => e.1.username ≠ target.username } :=
      ⟨{ h.issued with settled := fun e he => h.issued.settled e (List.mem_filter.1 he).1 }, h.single, h.head⟩
    exact hfiltered.setCall_plain hissued hd fun d hd => by cases hd; rfl
  | revoke tok => exact h.setCall_plain hissued hd fun d hd => by cases hd; rfl
  | revokeUser u => exact h.setCall_plain hissued hd fun d hd => by cases hd; rfl
  | revokeUserPersona u p => exact h.setCall_plain hissued hd fun d hd => by cases hd; rfl
  | revokeUserPersonaExcept u p keep => exact h.setCall_plain hissued hd fun d hd => by cases hd; rfl

theorem OneHead.stepCall {c : Call ι} {ok : Bool} (h : s.OneHead maxRefreshes) (hcall : s.calls i = some c) (hx : s.InTurn (.step i ok)) :
    (s.stepCall i ok c).OneHead maxRefreshes := by
  have hissued := h.issued.stepCall hcall ok
  have hplain : refreshing c = none → ∀ d, s.calls i = some d → refreshing d = none := by
    intro hc d hd
    rw [hcall] at hd
    exact Option.some.inj hd ▸ hc
  cases c with
  | reissued old info expiresAt => exact h.stepReissued hcall ok
  | replaced old => exact h.stepReplaced hcall
  | revoking covered victims =>
    cases victims with
    | nil =>
      have hidle : (s.setCall i none).OneHead maxRefreshes := h.setCall_plain (h.issued.setCall nofun) (hplain rfl) nofun
      exact ⟨hissued, hidle.single, hidle.head⟩
    | cons t victims => exact (h.drop t).setCall_plain hissued (hplain rfl) fun d hd => by cases hd; rfl
  | expiring victims =>
    cases victims with
    | nil => exact h.setCall_plain hissued (hplain rfl) nofun
    | cons t victims => exact (h.drop t).setCall_plain hissued (hplain rfl) fun d hd => by cases hd; rfl
  | switching target covered victims got =>
    cases victims with
    | nil =>
      have hidle : (s.setCall i none).OneHead maxRefreshes := h.setCall_plain (h.issued.setCall nofun) (hplain rfl) nofun
      exact ⟨hissued, hidle.single, hidle.head⟩
    | cons k victims =>
      cases got with
      | none =>
        simp only [Sessions.stepCall] at hissued ⊢
        split at hissued
        · exact h.setCall_plain hissued (hplain rfl) fun d hd => by cases hd; rfl
        · exact h.setCall_plain hissued (hplain rfl) fun d hd => by cases hd; rfl
      | some old =>
        simp only [Sessions.stepCall] at hissued ⊢
        cases ok with
        | false => exact h.setCall_plain hissued (hplain rfl) fun d hd => by cases hd; rfl
        | true =>
          obtain ⟨row, hrow⟩ := hx rfl target covered k victims old hcall
          obtain ⟨k', rest, heq, hfit⟩ := (h.issued.call i _ hcall).2.2 old rfl
          obtain ⟨rfl, -⟩ := List.cons.inj heq
          have hreplaced : (s.replace k (target.switched old)).OneHead maxRefreshes :=
            h.mono (h.issued.replace hfit) rfl h.single fun _ => head_replace hrow
          exact hreplaced.setCall_plain hissued (hplain rfl) fun d hd => by cases hd; rfl

theorem OneHead.step (h : s.OneHead maxRefreshes) {x : Event ι} (hx : s.InTurn x) : (s.step maxRefreshes x).OneHead maxRefreshes := by
  cases x with
  | insert info => exact h.insert (h.issued.step (.insert info))
  | start i c =>
    simp only [Sessions.step]
    split
    · exact h
    next hidle => exact h.startCall hidle hx
  | step i ok =>
    simp only [Sessions.step]
    split
    · exact h
    next c hcall => exact h.stepCall hcall hx

/-! ## Every run -/

/-- **Refresh is linear.** Along every run in which a refresh reads no row that another one in progress has read: whenever no refresh is
in progress, at most one token that descends from a login is live. No line of refreshes has more than `max_refreshes`. -/
theorem refresh_linear (maxRefreshes : ℕ) (events : List (Event ι)) (h : Along (step maxRefreshes) InTurn new events) :
    (run (step maxRefreshes) new events).Linear maxRefreshes :=
  (h.inv (fun _ _ hs hx => hs.step hx) OneHead.new : OneHead maxRefreshes _).linear

/-- a login, and two refreshes one after the other -/
def refreshedTwice : List (Event Unit) :=
  [.insert aliceRow, .start 0 (.reissue 0 90), .step 0 true, .step 0 true, .start 0 (.reissue 1 120), .step 0 true, .step 0 true]

theorem refresh_linear_twice :
    (run (step 2) new refreshedTwice).line 2 = [2, 1, 0] ∧ (run (step 2) new refreshedTwice).inner.keys = [2] ∧
      (run (step 2) new refreshedTwice).Linear 2 := by
  refine ⟨rfl, rfl, refresh_linear 2 refreshedTwice ?_⟩
  have hidle : ∀ j, (run (step 2) new (refreshedTwice.take 4)).calls j = none := by
    intro j
    match j with
    | 0 => rfl
    | j + 1 => rfl
  refine ⟨trivial, fun _ old expiresAt _ j d hd => absurd hd nofun, ?_, ?_, fun _ old expiresAt _ j d hd => ?_, ?_, ?_, trivial⟩
  · exact fun _ target covered k victims old hcall => absurd hcall nofun
  · exact fun _ target covered k victims old hcall => absurd hcall nofun
  · exact absurd ((hidle j).symm.trans hd).symm (Option.some_ne_none d)
  · exact fun _ target covered k victims old hcall => absurd hcall nofun
  · exact fun _ target covered k victims old hcall => absurd hcall nofun

/-- both refreshes have read the row of the login's token -/
def refreshedAtOnce : List (Event Unit) :=
  [.insert aliceRow, .start 0 (.reissue 0 90), .start 1 (.reissue 0 95), .step 0 true, .step 0 true, .step 1 true, .step 1 true]

theorem refreshed_at_once : ¬(run (step 2) new refreshedAtOnce).Linear 2 := by
  intro h
  have hidle : ∀ j, (run (step 2) new refreshedAtOnce).calls j = none := by
    intro j
    match j with
    | 0 => rfl
    | 1 => rfl
    | j + 2 => rfl
  have hlive : (run (step 2) new refreshedAtOnce).inner[1]? = some { aliceRow with expiresAt := 90, refreshCount := 1 } := rfl
  have hlive' : (run (step 2) new refreshedAtOnce).inner[2]? = some { aliceRow with expiresAt := 95, refreshCount := 1 } := rfl
  have heq : (1 : Token) = 2 := by
    refine h.one (fun j c hc => ?_) 1 2 _ _ hlive hlive' rfl
    rw [hidle j] at hc
    exact absurd hc.symm (Option.some_ne_none c)
  exact absurd heq (by decide)

end Y2q.Auth.Sessions
