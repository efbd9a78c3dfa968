/-
The session store (`auth/session.rs`): an in-memory map from token hashes to sessions.

One step is one operation of the map; a call that works through several rows is several steps, and the calls interleave freely. A bulk
call collects the hashes of its victims in its first step and then takes them one at a time. `reissue` reads the old row, inserts the new
one and removes the old; `switch_user_to_persona` reads each victim's row and inserts the rewritten one. Fresh tokens are numbered in the
order they are drawn. Sealing an identity key may fail. Kept beside the map: what each token was issued as and from which, the tokens
that revocations which have returned had covered, all that was removed, and the switches that have returned and have had no successor.

- `Issued`: what holds of every run. A line of refreshes belongs to one user and is as long as the row's count says, so no longer than
  `max_refreshes` allows.
-/
import Mathlib.Tactic
import Y2q.Core.Run
import Y2q.Auth.Users

namespace Y2q.Auth

open Run (Along run)

variable {ι : Type}

/-! ## Data -/

/-- `SHA-256(token)`; two tokens never have the same -/
abbrev Token := ℕ

/-- `ι`: the identity secret keys -/
structure SessionInfo (ι : Type) where
  username : String
  role : Role
  createdAt : ℕ
  expiresAt : ℕ
  persona : ℕ
  revokeOtherSessions : Bool
  identitySk : ι
  refreshCount : ℕ

def SessionInfo.isExpired (info : SessionInfo ι) (now : ℕ) : Bool := info.expiresAt ≤ now

/-- what a token was issued as -/
structure Issue where
  /-- the token, the one it was refreshed from, and so on to that of the login -/
  line : List Token
  username : String
  role : Role

/-- the arguments of `switch_user_to_persona` -/
structure Switch (ι : Type) where
  username : String
  newPersona : ℕ
  newRole : Role
  newRevokeOtherSessions : Bool
  identitySk : ι

/-- the row of a switched session -/
def Switch.switched (target : Switch ι) (old : SessionInfo ι) : SessionInfo ι :=
  { old with
    role := target.newRole, persona := target.newPersona, revokeOtherSessions := target.newRevokeOtherSessions,
    identitySk := target.identitySk }

inductive Command (ι : Type) where
  | reissue (oldHash : Token) (expiresAt : ℕ)
  | getActive (tokenHash : Token) (now : ℕ)
  | revoke (tokenHash : Token)
  | revokeUser (username : String)
  | revokeUserPersona (username : String) (persona : ℕ)
  | revokeUserPersonaExcept (username : String) (persona : ℕ) (keep : Token)
  | switchUserToPersona (target : Switch ι)
  | sweep (now : ℕ)

/-- the rows a revocation is for -/
def Command.covers : Command ι → Token → SessionInfo ι → Bool
  | .revoke h, t, _ => t = h
  | .revokeUser u, _, info => info.username = u
  | .revokeUserPersona u p, _, info => info.username = u && info.persona = p
  | .revokeUserPersonaExcept u p keep, t, info => info.username = u && info.persona = p && t ≠ keep
  | _, _, _ => false

def Command.revokes : Command ι → Bool
  | .revoke _ | .revokeUser _ | .revokeUserPersona .. | .revokeUserPersonaExcept .. => true
  | _ => false

def Command.expires : Command ι → Bool
  | .getActive .. | .sweep _ => true
  | _ => false

/-- a call between two of its steps -/
inductive Call (ι : Type) where
  /-- `reissue`, which has read the old row -/
  | reissued (old : Token) (info : SessionInfo ι) (expiresAt : ℕ)
  /-- `reissue`, which has inserted the new row -/
  | replaced (old : Token)
  | revoking (covered victims : List Token)
  /-- `sweep`, or `get_active` of an expired session -/
  | expiring (victims : List Token)
  /-- with the row of the first victim, if that has been read -/
  | switching (target : Switch ι) (covered victims : List Token) (got : Option (SessionInfo ι))

structure Sessions (ι : Type) where
  inner : Table Token (SessionInfo ι)
  calls : ℕ → Option (Call ι)
  /-- by token -/
  issued : List Issue
  /-- covered by revocations that have returned -/
  dead : List Token
  removed : List Token
  /-- switches that have returned, with the tokens there were when they began; until the user's next switch -/
  settled : List (Switch ι × List Token)

inductive Event (ι : Type) where
  /-- `SessionStore::insert` -/
  | insert (info : SessionInfo ι)
  | start (i : ℕ) (c : Command ι)
  /-- `ok`: the identity key is sealed, where the step does so -/
  | step (i : ℕ) (ok : Bool)

namespace Sessions

def new : Sessions ι := ⟨∅, fun _ => none, [], [], [], []⟩

def line (s : Sessions ι) (t : Token) : List Token := (s.issued[t]?.map Issue.line).getD []

def collect (s : Sessions ι) (p : Token → SessionInfo ι → Bool) : List Token :=
  (s.inner.toList.filter fun e => p e.1 e.2).map Prod.fst

def setCall (s : Sessions ι) (i : ℕ) (c : Option (Call ι)) : Sessions ι := { s with calls := Function.update s.calls i c }

/-- a row under a fresh token, refreshed from those of `line` -/
def issue (s : Sessions ι) (info : SessionInfo ι) (line : List Token) : Sessions ι :=
  { s with
    inner := s.inner.insert s.issued.length info, issued := s.issued ++ [⟨s.issued.length :: line, info.username, info.role⟩] }

def drop (s : Sessions ι) (t : Token) : Sessions ι :=
  { s with inner := s.inner.erase t, removed := if t ∈ s.inner then t :: s.removed else s.removed }

def replace (s : Sessions ι) (t : Token) (info : SessionInfo ι) : Sessions ι := { s with inner := s.inner.insert t info }

/-- the first step of a call -/
def startCall (maxRefreshes : ℕ) (s : Sessions ι) (i : ℕ) : Command ι → Sessions ι
  | .reissue old expiresAt =>
    match s.inner[old]? with
    | none => s
    | some info => if maxRefreshes ≤ info.refreshCount then s else s.setCall i (some (.reissued old info expiresAt))
  | .getActive t now =>
    match s.inner[t]? with
    | none => s
    | some info => if info.isExpired now then s.setCall i (some (.expiring [t])) else s
  | .sweep now => s.setCall i (some (.expiring (s.collect fun _ info => info.isExpired now)))
  | .switchUserToPersona target =>
    { s with settled := s.settled.filter fun e => e.1.username ≠ target.username }.setCall i
      (some (.switching target (s.collect fun _ info => info.username = target.username)
        (s.collect fun _ info => info.username = target.username && info.persona ≠ target.newPersona) none))
  | c => s.setCall i (some (.revoking (s.collect c.covers) (s.collect c.covers)))

/-- a further step of a call -/
def stepCall (s : Sessions ι) (i : ℕ) (ok : Bool) : Call ι → Sessions ι
  | .reissued old info expiresAt =>
    if ok then
      (s.issue { info with expiresAt := expiresAt, refreshCount := info.refreshCount + 1 } (s.line old)).setCall i (some (.replaced old))
    else s.setCall i none
  | .replaced old => (s.drop old).setCall i none
  | .revoking covered (t :: victims) => (s.drop t).setCall i (some (.revoking covered victims))
  | .revoking covered [] => { s with dead := covered ++ s.dead }.setCall i none
  | .expiring (t :: victims) => (s.drop t).setCall i (some (.expiring victims))
  | .expiring [] => s.setCall i none
  | .switching target covered (k :: victims) none =>
    match s.inner[k]? with
    | none => s.setCall i (some (.switching target covered victims none))
    | some old => s.setCall i (some (.switching target covered (k :: victims) (some old)))
  | .switching target covered (k :: victims) (some old) =>
    (if ok then s.replace k (target.switched old) else s).setCall i (some (.switching target covered victims none))
  | .switching target covered [] _ => { s with settled := (target, covered) :: s.settled }.setCall i none

def step (maxRefreshes : ℕ) (s : Sessions ι) : Event ι → Sessions ι
  | .insert info => s.issue { info with refreshCount := 0 } []
  | .start i c =>
    match s.calls i with
    | some _ => s
    | none => s.startCall maxRefreshes i c
  | .step i ok =>
    match s.calls i with
    | none => s
    | some c => s.stepCall i ok c

/-! ## Updates -/

variable {s : Sessions ι} {t : Token} {info : SessionInfo ι} {i j : ℕ}

theorem mem_collect {p : Token → SessionInfo ι → Bool} : t ∈ s.collect p ↔ ∃ info, s.inner[t]? = some info ∧ p t info = true := by
  simp only [collect, List.mem_map, List.mem_filter, Prod.exists, Table.mem_toList]
  constructor
  · intro ⟨t', info, ⟨hinfo, hp⟩, ht⟩
    exact ⟨info, ht ▸ hinfo, ht ▸ hp⟩
  · intro ⟨info, hinfo, hp⟩
    exact ⟨t, info, ⟨hinfo, hp⟩, rfl⟩

theorem setCall_calls {c : Option (Call ι)} : (s.setCall i c).calls j = if j = i then c else s.calls j :=
  Function.update_apply s.calls i c j

theorem setCall_eq_some {c : Option (Call ι)} {d : Call ι} (h : (s.setCall i c).calls j = some d) : c = some d ∨ s.calls j = some d := by
  rw [setCall_calls] at h
  split at h
  · exact Or.inl h
  · exact Or.inr h

/-- the user a token was issued to -/
def owner (s : Sessions ι) (t : Token) : Option String := s.issued[t]?.map Issue.username

theorem issued_issue {e : Issue} {l : List Token} (h : s.issued[t]? = some e) : (s.issue info l).issued[t]? = some e := by
  have hlt := (List.getElem?_eq_some_iff.1 h).1
  rw [issue, List.getElem?_append_left hlt, h]

theorem issued_issue_self {l : List Token} :
    (s.issue info l).issued[s.issued.length]? = some ⟨s.issued.length :: l, info.username, info.role⟩ := by
  rw [issue, List.getElem?_concat_length]

theorem length_issue {l : List Token} : (s.issue info l).issued.length = s.issued.length + 1 := by
  rw [issue, List.length_append, List.length_singleton]

theorem owner_issue {l : List Token} {u : String} (h : s.owner t = some u) : (s.issue info l).owner t = some u := by
  obtain ⟨e, he, hu⟩ := Option.map_eq_some_iff.1 h
  rw [owner, issued_issue he, Option.map_some, hu]

theorem lt_of_owner {u : String} (h : s.owner t = some u) : t < s.issued.length := by
  obtain ⟨e, he, -⟩ := Option.map_eq_some_iff.1 h
  exact (List.getElem?_eq_some_iff.1 he).1

theorem line_of_issued {e : Issue} (h : s.issued[t]? = some e) : s.line t = e.line := by
  rw [line, h]
  rfl

theorem line_issue {l : List Token} (h : t < s.issued.length) : (s.issue info l).line t = s.line t := by
  rw [line, line, issue, List.getElem?_append_left h]

theorem line_issue_self {l : List Token} : (s.issue info l).line s.issued.length = s.issued.length :: l :=
  line_of_issued issued_issue_self

/-! ## Every run -/

/-- the row of a token is of the user it was issued to, and counts its refreshes -/
def Fits (s : Sessions ι) (t : Token) (info : SessionInfo ι) : Prop :=
  s.owner t = some info.username ∧ (s.line t).length = info.refreshCount + 1

theorem Fits.lt (h : s.Fits t info) : t < s.issued.length := lt_of_owner h.1

theorem Fits.issue {l : List Token} {new : SessionInfo ι} (h : s.Fits t info) : (s.issue new l).Fits t info :=
  ⟨owner_issue h.1, (line_issue h.lt).symm ▸ h.2⟩

def CallFits (maxRefreshes : ℕ) (s : Sessions ι) : Call ι → Prop
  | .reissued old info _ => s.Fits old info ∧ info.refreshCount < maxRefreshes
  | .revoking covered _ => ∀ t ∈ covered, t < s.issued.length
  | .switching target covered victims got =>
    (∀ t ∈ covered, s.owner t = some target.username) ∧ victims ⊆ covered ∧
      ∀ info, got = some info → ∃ k rest, victims = k :: rest ∧ s.Fits k info
  | _ => True

structure Issued (maxRefreshes : ℕ) (s : Sessions ι) : Prop where
  line : ∀ t < s.issued.length, s.line t ≠ [] ∧ (s.line t).length ≤ maxRefreshes + 1 ∧ ∀ a ∈ s.line t, a ≤ t ∧ s.owner a = s.owner t
  row : ∀ t info, s.inner[t]? = some info → s.Fits t info
  call : ∀ i c, s.calls i = some c → s.CallFits maxRefreshes c
  dead : ∀ t ∈ s.dead, t < s.issued.length
  settled : ∀ e ∈ s.settled, ∀ t ∈ e.2, s.owner t = some e.1.username

variable {maxRefreshes : ℕ}

theorem CallFits.issue {l : List Token} {c : Call ι} (h : s.CallFits maxRefreshes c) : (s.issue info l).CallFits maxRefreshes c := by
  cases c with
  | reissued old held expiresAt => exact ⟨h.1.issue, h.2⟩
  | revoking covered victims =>
    intro t ht
    rw [length_issue]
    exact Nat.lt_succ_of_lt (h t ht)
  | switching target covered victims got =>
    refine ⟨fun t ht => owner_issue (h.1 t ht), h.2.1, fun held hgot => ?_⟩
    obtain ⟨k, rest, hv, hk⟩ := h.2.2 held hgot
    exact ⟨k, rest, hv, hk.issue⟩
  | replaced old => trivial
  | expiring victims => trivial

theorem Issued.setCall {c : Option (Call ι)} (h : s.Issued maxRefreshes) (hc : ∀ d, c = some d → s.CallFits maxRefreshes d) :
    (s.setCall i c).Issued maxRefreshes :=
  { h with
    call := fun j d hd => by
      rcases setCall_eq_some hd with heq | hold
      · exact hc d heq
      · exact h.call j d hold }

theorem Issued.drop (h : s.Issued maxRefreshes) : (s.drop t).Issued maxRefreshes :=
  { h with
    row := fun k info hk => by
      rw [Sessions.drop, Table.getElem?_erase_iff] at hk
      split at hk
      · exact absurd hk nofun
      · exact h.row k info hk }

theorem Issued.replace (h : s.Issued maxRefreshes) (hfits : s.Fits t info) : (s.replace t info).Issued maxRefreshes :=
  { h with
    row := fun k info' hk => by
      rw [Sessions.replace, Table.getElem?_insert_iff] at hk
      split at hk
      next heq =>
        cases hk
        exact heq ▸ hfits
      next => exact h.row k info' hk }

theorem Issued.issue {l : List Token} (h : s.Issued maxRefreshes) (hl : ∀ a ∈ l, s.owner a = some info.username)
    (hcount : l.length = info.refreshCount) (hmax : info.refreshCount ≤ maxRefreshes) : (s.issue info l).Issued maxRefreshes where
  line := fun t ht => by
    have howner : (s.issue info l).owner s.issued.length = some info.username := by
      rw [owner, issued_issue_self, Option.map_some]
    rw [length_issue] at ht
    rcases Nat.lt_succ_iff_lt_or_eq.1 ht with hlt | rfl
    · obtain ⟨hne, hlen, ha⟩ := h.line t hlt
      rw [line_issue hlt]
      refine ⟨hne, hlen, fun a hmem => ⟨(ha a hmem).1, ?_⟩⟩
      rw [owner, owner, Sessions.issue, List.getElem?_append_left hlt, List.getElem?_append_left ((ha a hmem).1.trans_lt hlt)]
      exact (ha a hmem).2
    · rw [line_issue_self]
      refine ⟨List.cons_ne_nil _ _, by simp only [List.length_cons]; omega, fun a hmem => ?_⟩
      rcases List.mem_cons.1 hmem with rfl | hmem
      · exact ⟨le_rfl, rfl⟩
      · exact ⟨(lt_of_owner (hl a hmem)).le, (owner_issue (hl a hmem)).trans howner.symm⟩
  row := fun t info' ht => by
    rw [Sessions.issue, Table.getElem?_insert_iff] at ht
    split at ht
    next heq =>
      cases ht
      subst heq
      refine ⟨?_, ?_⟩
      · rw [owner, issued_issue_self, Option.map_some]
      · rw [line_issue_self, List.length_cons, hcount]
    next => exact (h.row t info' ht).issue
  call := fun j d hd => (h.call j d hd).issue
  dead := fun t ht => by
    rw [length_issue]
    exact Nat.lt_succ_of_lt (h.dead t ht)
  settled := fun e he t ht => owner_issue (h.settled e he t ht)

theorem Issued.new : (Sessions.new : Sessions ι).Issued maxRefreshes where
  line := nofun
  row := fun t info h => by simp [Sessions.new] at h
  call := nofun
  dead := nofun
  settled := nofun

theorem Issued.collect (h : s.Issued maxRefreshes) {p : Token → SessionInfo ι → Bool} : ∀ t ∈ s.collect p, t < s.issued.length := by
  intro t ht
  obtain ⟨info, hinfo, -⟩ := mem_collect.1 ht
  exact (h.row t info hinfo).lt

theorem Issued.revoke (h : s.Issued maxRefreshes) (p : Token → SessionInfo ι → Bool) :
    (s.setCall i (some (.revoking (s.collect p) (s.collect p)))).Issued maxRefreshes :=
  h.setCall fun d hd => by
    cases hd
    exact h.collect

theorem Issued.startCall (h : s.Issued maxRefreshes) (c : Command ι) : (s.startCall maxRefreshes i c).Issued maxRefreshes := by
  cases c with
  | reissue old expiresAt =>
    simp only [Sessions.startCall]
    split
    · exact h
    next info hinfo =>
      split
      · exact h
      next hmax =>
        refine h.setCall fun d hd => ?_
        cases hd
        exact ⟨h.row old info hinfo, not_le.1 hmax⟩
  | getActive tok now =>
    simp only [Sessions.startCall]
    split
    · exact h
    · split
      · refine h.setCall fun d hd => ?_
        cases hd
        trivial
      · exact h
  | sweep now =>
    refine h.setCall fun d hd => ?_
    cases hd
    trivial
  | switchUserToPersona target =>
    have hfiltered : Issued maxRefreshes { s with settled := s.settled.filter fun e => e.1.username ≠ target.username } :=
      { h with settled := fun e he => h.settled e (List.mem_filter.1 he).1 }
    refine hfiltered.setCall fun d hd => ?_
    cases hd
    refine ⟨fun t ht => ?_, fun t ht => ?_, nofun⟩
    · obtain ⟨info, hinfo, hu⟩ := mem_collect.1 ht
      rw [← of_decide_eq_true hu]
      exact (h.row t info hinfo).1
    · obtain ⟨info, hinfo, hu⟩ := mem_collect.1 ht
      exact mem_collect.2 ⟨info, hinfo, (Bool.and_eq_true _ _ ▸ hu).1⟩
  | revoke tok => exact h.revoke _
  | revokeUser u => exact h.revoke _
  | revokeUserPersona u p => exact h.revoke _
  | revokeUserPersonaExcept u p keep => exact h.revoke _

theorem Issued.stepCall {c : Call ι} (h : s.Issued maxRefreshes) (hc : s.calls i = some c) (ok : Bool) :
    (s.stepCall i ok c).Issued maxRefreshes := by
  have hfits := h.call i c hc
  cases c with
  | reissued old info expiresAt =>
    obtain ⟨⟨howner, hlen⟩, hmax⟩ := hfits
    have hissue : (s.issue { info with expiresAt := expiresAt, refreshCount := info.refreshCount + 1 } (s.line old)).Issued
        maxRefreshes := by
      refine h.issue (fun a ha => ?_) hlen hmax
      rw [((h.line old (lt_of_owner howner)).2.2 a ha).2, howner]
    simp only [Sessions.stepCall]
    split
    · refine hissue.setCall fun d hd => ?_
      cases hd
      trivial
    · exact h.setCall nofun
  | replaced old => exact h.drop.setCall nofun
  | revoking covered victims =>
    cases victims with
    | nil =>
      have hdead : Issued maxRefreshes { s with dead := covered ++ s.dead } :=
        { h with
          dead := fun t ht => by
            rcases List.mem_append.1 ht with hcov | hold
            · exact hfits t hcov
            · exact h.dead t hold }
      exact hdead.setCall nofun
    | cons t victims =>
      refine h.drop.setCall fun d hd => ?_
      cases hd
      exact hfits
  | expiring victims =>
    cases victims with
    | nil => exact h.setCall nofun
    | cons t victims =>
      refine h.drop.setCall fun d hd => ?_
      cases hd
      trivial
  | switching target covered victims got =>
    obtain ⟨hcov, hsub, hgot⟩ := hfits
    cases victims with
    | nil =>
      have hsettled : Issued maxRefreshes { s with settled := (target, covered) :: s.settled } :=
        { h with
          settled := fun e he => by
            rcases List.mem_cons.1 he with rfl | hold
            · exact hcov
            · exact h.settled e hold }
      exact hsettled.setCall nofun
    | cons k victims =>
      have hrest : s.CallFits maxRefreshes (.switching target covered victims none) :=
        ⟨hcov, fun t ht => hsub (List.mem_cons_of_mem k ht), nofun⟩
      cases got with
      | none =>
        simp only [Sessions.stepCall]
        split
        · refine h.setCall fun d hd => ?_
          cases hd
          exact hrest
        next old hold =>
          refine h.setCall fun d hd => ?_
          cases hd
          refine ⟨hcov, hsub, fun info hinfo => ?_⟩
          cases hinfo
          exact ⟨k, victims, rfl, h.row k old hold⟩
      | some old =>
        obtain ⟨k', rest, heq, hfit⟩ := hgot old rfl
        obtain ⟨rfl, -⟩ := List.cons.inj heq
        simp only [Sessions.stepCall]
        split
        · refine (h.replace ?_).setCall fun d hd => ?_
          · exact hfit
          · cases hd
            exact hrest
        · refine h.setCall fun d hd => ?_
          cases hd
          exact hrest

theorem Issued.step (h : s.Issued maxRefreshes) (x : Event ι) : (s.step maxRefreshes x).Issued maxRefreshes := by
  cases x with
  | insert info => exact h.issue nofun rfl (Nat.zero_le _)
  | start i c =>
    simp only [Sessions.step]
    split
    · exact h
    · exact h.startCall c
  | step i ok =>
    simp only [Sessions.step]
    split
    · exact h
    next c hc => exact h.stepCall hc ok

/-! ## What a step does -/

/-- a row that was not there before the step, or was another -/
inductive NewRow (s : Sessions ι) : Event ι → Token → SessionInfo ι → Prop where
  | inserted (info : SessionInfo ι) : NewRow s (.insert info) s.issued.length { info with refreshCount := 0 }
  | refreshed {i : ℕ} {old : Token} {info : SessionInfo ι} {expiresAt : ℕ} (hcall : s.calls i = some (.reissued old info expiresAt)) :
    NewRow s (.step i true) s.issued.length { info with expiresAt := expiresAt, refreshCount := info.refreshCount + 1 }
  | switched {i : ℕ} {target : Switch ι} {covered victims : List Token} {k : Token} {old : SessionInfo ι}
    (hcall : s.calls i = some (.switching target covered (k :: victims) (some old))) : NewRow s (.step i true) k (target.switched old)

/-- what a call has come to by the step -/
inductive Goes (maxRefreshes : ℕ) (s : Sessions ι) : Event ι → ℕ → Call ι → Prop where
  | reissue {i : ℕ} {old : Token} {info : SessionInfo ι} {expiresAt : ℕ} (hidle : s.calls i = none) (hlive : s.inner[old]? = some info)
    (hmax : info.refreshCount < maxRefreshes) : Goes maxRefreshes s (.start i (.reissue old expiresAt)) i (.reissued old info expiresAt)
  | expire {i : ℕ} {c : Command ι} (hidle : s.calls i = none) (hc : c.expires = true) (victims : List Token) :
    Goes maxRefreshes s (.start i c) i (.expiring victims)
  | revoke {i : ℕ} {c : Command ι} (hidle : s.calls i = none) (hc : c.revokes = true) :
    Goes maxRefreshes s (.start i c) i (.revoking (s.collect c.covers) (s.collect c.covers))
  | switch {i : ℕ} {target : Switch ι} (hidle : s.calls i = none) :
    Goes maxRefreshes s (.start i (.switchUserToPersona target)) i
      (.switching target (s.collect fun _ info => info.username = target.username)
        (s.collect fun _ info => info.username = target.username && info.persona ≠ target.newPersona) none)
  | refreshed {i : ℕ} {old : Token} {info : SessionInfo ι} {expiresAt : ℕ} (hcall : s.calls i = some (.reissued old info expiresAt)) :
    Goes maxRefreshes s (.step i true) i (.replaced old)
  | revoked {i : ℕ} {ok : Bool} {covered victims : List Token} {t : Token} (hcall : s.calls i = some (.revoking covered (t :: victims))) :
    Goes maxRefreshes s (.step i ok) i (.revoking covered victims)
  | expired {i : ℕ} {ok : Bool} {victims : List Token} {t : Token} (hcall : s.calls i = some (.expiring (t :: victims))) :
    Goes maxRefreshes s (.step i ok) i (.expiring victims)
  | skipped {i : ℕ} {ok : Bool} {target : Switch ι} {covered victims : List Token} {k : Token}
    (hcall : s.calls i = some (.switching target covered (k :: victims) none)) (hgone : s.inner[k]? = none) :
    Goes maxRefreshes s (.step i ok) i (.switching target covered victims none)
  | got {i : ℕ} {ok : Bool} {target : Switch ι} {covered victims : List Token} {k : Token} {old : SessionInfo ι}
    (hcall : s.calls i = some (.switching target covered (k :: victims) none)) (hlive : s.inner[k]? = some old) :
    Goes maxRefreshes s (.step i ok) i (.switching target covered (k :: victims) (some old))
  | switched {i : ℕ} {ok : Bool} {target : Switch ι} {covered victims : List Token} {k : Token} {old : SessionInfo ι}
    (hcall : s.calls i = some (.switching target covered (k :: victims) (some old))) :
    Goes maxRefreshes s (.step i ok) i (.switching target covered victims none)

theorem drop_row {k : Token} (h : (s.drop k).inner[t]? = some info) : s.inner[t]? = some info := by
  rw [drop, Table.getElem?_erase_iff] at h
  split at h
  · exact absurd h nofun
  · exact h

theorem startCall_inner (c : Command ι) : (s.startCall maxRefreshes i c).inner = s.inner := by
  cases c <;> simp only [startCall] <;> (try split) <;> (try split) <;> rfl

theorem step_row {x : Event ι} (h : (s.step maxRefreshes x).inner[t]? = some info) : s.inner[t]? = some info ∨ s.NewRow x t info := by
  cases x with
  | insert new =>
    rw [step, issue, Table.getElem?_insert_iff] at h
    split at h
    next heq =>
      cases h
      exact Or.inr (heq ▸ .inserted new)
    next => exact Or.inl h
  | start i c =>
    simp only [step] at h
    split at h
    · exact Or.inl h
    · rw [startCall_inner] at h
      exact Or.inl h
  | step i ok =>
    simp only [step] at h
    split at h
    · exact Or.inl h
    next c hcall =>
      cases c with
      | reissued old held expiresAt =>
        cases ok with
        | false => exact Or.inl h
        | true =>
          change (s.inner.insert s.issued.length _)[t]? = some info at h
          rw [Table.getElem?_insert_iff] at h
          split at h
          next heq =>
            cases h
            exact Or.inr (heq ▸ .refreshed hcall)
          next => exact Or.inl h
      | replaced old => exact Or.inl (drop_row h)
      | revoking covered victims =>
        cases victims with
        | nil => exact Or.inl h
        | cons v victims => exact Or.inl (drop_row h)
      | expiring victims =>
        cases victims with
        | nil => exact Or.inl h
        | cons v victims => exact Or.inl (drop_row h)
      | switching target covered victims got =>
        cases victims with
        | nil => exact Or.inl h
        | cons k victims =>
          cases got with
          | none =>
            simp only [stepCall] at h
            split at h <;> exact Or.inl h
          | some old =>
            cases ok with
            | false => exact Or.inl h
            | true =>
              change (s.inner.insert k _)[t]? = some info at h
              rw [Table.getElem?_insert_iff] at h
              split at h
              next heq =>
                cases h
                exact Or.inr (heq ▸ .switched hcall)
              next => exact Or.inl h

theorem startCall_calls {c : Command ι} {d : Call ι} (hidle : s.calls i = none) (h : (s.startCall maxRefreshes i c).calls j = some d) :
    s.calls j = some d ∨ s.Goes maxRefreshes (.start i c) j d := by
  have hnew : ∀ e : Call ι, s.Goes maxRefreshes (.start i c) i e → ∀ s' : Sessions ι, s'.calls = s.calls →
      (s'.setCall i (some e)).calls j = some d → s.calls j = some d ∨ s.Goes maxRefreshes (.start i c) j d := by
    intro e he s' hs' hj
    rw [setCall_calls, hs'] at hj
    split at hj
    next heq =>
      cases hj
      exact Or.inr (heq ▸ he)
    next => exact Or.inl hj
  cases c with
  | reissue old expiresAt =>
    simp only [startCall] at h
    split at h
    · exact Or.inl h
    next row hrow =>
      split at h
      · exact Or.inl h
      next hmax => exact hnew _ (.reissue hidle hrow (not_le.1 hmax)) s rfl h
  | getActive tok now =>
    simp only [startCall] at h
    split at h
    · exact Or.inl h
    · split at h
      · exact hnew _ (.expire hidle rfl _) s rfl h
      · exact Or.inl h
  | sweep now => exact hnew _ (.expire hidle rfl _) s rfl h
  | switchUserToPersona target => exact hnew _ (.switch hidle) _ rfl h
  | revoke tok => exact hnew _ (.revoke hidle rfl) s rfl h
  | revokeUser u => exact hnew _ (.revoke hidle rfl) s rfl h
  | revokeUserPersona u p => exact hnew _ (.revoke hidle rfl) s rfl h
  | revokeUserPersonaExcept u p keep => exact hnew _ (.revoke hidle rfl) s rfl h

theorem step_calls {x : Event ι} {d : Call ι} (h : (s.step maxRefreshes x).calls j = some d) :
    s.calls j = some d ∨ s.Goes maxRefreshes x j d := by
  cases x with
  | insert new => exact Or.inl h
  | start i c =>
    simp only [step] at h
    split at h
    · exact Or.inl h
    next hidle => exact startCall_calls hidle h
  | step i ok =>
    -- the call itself goes on as `e`, or has returned
    have hnew : ∀ (e : Option (Call ι)) (s' : Sessions ι), s'.calls = s.calls → (∀ e', e = some e' → s.Goes maxRefreshes (.step i ok) i e') →
        (s'.setCall i e).calls j = some d → s.calls j = some d ∨ s.Goes maxRefreshes (.step i ok) j d := by
      intro e s' hs' he hj
      rw [setCall_calls, hs'] at hj
      split at hj
      next heq => exact Or.inr (heq ▸ he d hj)
      next => exact Or.inl hj
    simp only [step] at h
    split at h
    · exact Or.inl h
    next c hcall =>
      cases c with
      | reissued old held expiresAt =>
        cases ok with
        | false => exact hnew none s rfl nofun h
        | true => exact hnew _ _ rfl (fun e' he' => Option.some.inj he' ▸ .refreshed hcall) h
      | replaced old => exact hnew none _ rfl nofun h
      | revoking covered victims =>
        cases victims with
        | nil => exact hnew none _ rfl nofun h
        | cons v victims => exact hnew _ _ rfl (fun e' he' => Option.some.inj he' ▸ .revoked hcall) h
      | expiring victims =>
        cases victims with
        | nil => exact hnew none _ rfl nofun h
        | cons v victims => exact hnew _ _ rfl (fun e' he' => Option.some.inj he' ▸ .expired hcall) h
      | switching target covered victims got =>
        cases victims with
        | nil => exact hnew none _ rfl nofun h
        | cons k victims =>
          cases got with
          | none =>
            simp only [stepCall] at h
            split at h
            next hgone => exact hnew _ _ rfl (fun e' he' => Option.some.inj he' ▸ .skipped hcall hgone) h
            next old hlive => exact hnew _ _ rfl (fun e' he' => Option.some.inj he' ▸ .got hcall hlive) h
          | some old =>
            refine hnew _ (if ok then s.replace k (target.switched old) else s) ?_ (fun e' he' => Option.some.inj he' ▸ .switched hcall) h
            split <;> rfl

/-- the call that an event is a step of -/
def callIn : Event ι → Option ℕ
  | .insert _ => none
  | .start i _ => some i
  | .step i _ => some i

theorem startCall_other {c : Command ι} (hj : j ≠ i) : (s.startCall maxRefreshes i c).calls j = s.calls j := by
  have hset : ∀ (s' : Sessions ι) (d : Option (Call ι)), s'.calls = s.calls → (s'.setCall i d).calls j = s.calls j := by
    intro s' d h
    rw [setCall_calls, if_neg hj, h]
  cases c <;> simp only [startCall] <;> (try split) <;> (try split) <;> first | rfl | exact hset _ _ rfl

theorem stepCall_other {c : Call ι} {ok : Bool} (hj : j ≠ i) : (s.stepCall i ok c).calls j = s.calls j := by
  have hset : ∀ (s' : Sessions ι) (d : Option (Call ι)), s'.calls = s.calls → (s'.setCall i d).calls j = s.calls j := by
    intro s' d h
    rw [setCall_calls, if_neg hj, h]
  cases c with
  | reissued old held expiresAt => cases ok <;> exact hset _ _ rfl
  | replaced old => exact hset _ _ rfl
  | revoking covered victims => cases victims <;> exact hset _ _ rfl
  | expiring victims => cases victims <;> exact hset _ _ rfl
  | switching target covered victims got =>
    cases victims with
    | nil => exact hset _ _ rfl
    | cons k victims =>
      cases got with
      | none =>
        simp only [stepCall]
        split <;> exact hset _ _ rfl
      | some old => cases ok <;> exact hset _ _ rfl

/-- the other calls stay where they are -/
theorem step_other {x : Event ι} (hx : callIn x ≠ some j) : (s.step maxRefreshes x).calls j = s.calls j := by
  cases x with
  | insert new => rfl
  | start i c =>
    have hj : j ≠ i := fun heq => hx (congrArg some heq.symm)
    simp only [step]
    split
    · rfl
    · exact startCall_other hj
  | step i ok =>
    have hj : j ≠ i := fun heq => hx (congrArg some heq.symm)
    simp only [step]
    split
    · rfl
    · exact stepCall_other hj

theorem startCall_issued (c : Command ι) : (s.startCall maxRefreshes i c).issued = s.issued := by
  cases c <;> simp only [startCall] <;> (try split) <;> (try split) <;> rfl

/-- what is issued is issued once, to a new row -/
theorem step_issued (x : Event ι) :
    (s.step maxRefreshes x).issued = s.issued ∨
      ∃ info l, s.NewRow x s.issued.length info ∧ (s.step maxRefreshes x).issued = (s.issue info l).issued := by
  cases x with
  | insert new => exact Or.inr ⟨_, [], .inserted new, rfl⟩
  | start i c =>
    simp only [step]
    split
    · exact Or.inl rfl
    · exact Or.inl (startCall_issued c)
  | step i ok =>
    simp only [step]
    split
    · exact Or.inl rfl
    next c hcall =>
      cases c with
      | reissued old held expiresAt =>
        cases ok with
        | false => exact Or.inl rfl
        | true => exact Or.inr ⟨_, s.line old, .refreshed hcall, rfl⟩
      | replaced old => exact Or.inl rfl
      | revoking covered victims => cases victims <;> exact Or.inl rfl
      | expiring victims => cases victims <;> exact Or.inl rfl
      | switching target covered victims got =>
        cases victims with
        | nil => exact Or.inl rfl
        | cons k victims =>
          cases got with
          | none =>
            simp only [stepCall]
            split <;> exact Or.inl rfl
          | some old => cases ok <;> exact Or.inl rfl

theorem issued_step (x : Event ι) (h : t < s.issued.length) : (s.step maxRefreshes x).issued[t]? = s.issued[t]? := by
  rcases @step_issued ι s maxRefreshes x with heq | ⟨info, l, -, heq⟩
  · rw [heq]
  · rw [heq, issue, List.getElem?_append_left h]

theorem line_step (x : Event ι) (h : t < s.issued.length) : (s.step maxRefreshes x).line t = s.line t := by
  rw [line, line, issued_step x h]

theorem owner_step (x : Event ι) (h : t < s.issued.length) : (s.step maxRefreshes x).owner t = s.owner t := by
  rw [owner, owner, issued_step x h]

theorem length_step (x : Event ι) : s.issued.length ≤ (s.step maxRefreshes x).issued.length := by
  rcases @step_issued ι s maxRefreshes x with heq | ⟨info, l, -, heq⟩
  · rw [heq]
  · rw [heq, length_issue]
    exact Nat.le_succ _

theorem line_insert (new : SessionInfo ι) : (s.step maxRefreshes (.insert new)).line s.issued.length = [s.issued.length] := line_issue_self

theorem line_refreshed {old : Token} {expiresAt : ℕ} (hcall : s.calls i = some (.reissued old info expiresAt)) :
    (s.step maxRefreshes (.step i true)).line s.issued.length = s.issued.length :: s.line old := by
  simp only [step, hcall]
  exact line_issue_self

/-! ## Rows that may be there -/

/-- every row satisfies `Q` or is pending, and so does every row that a refresh is about to carry over -/
structure Rows (s : Sessions ι) (Q : Token → SessionInfo ι → Prop) (pending : List Token) : Prop where
  live : ∀ t info, s.inner[t]? = some info → Q t info ∨ t ∈ pending
  held : ∀ j old info expiresAt, s.calls j = some (.reissued old info expiresAt) → Q old info

/-- a refresh does not read a pending row -/
def ReadsNone (pending : List Token) : Event ι → Prop
  | .start _ (.reissue old _) => old ∉ pending
  | _ => True

theorem readsNone_nil (x : Event ι) : ReadsNone [] x := by
  cases x with
  | start i c => cases c <;> first | exact List.not_mem_nil | trivial
  | _ => trivial

theorem Rows.step {Q Q' : Token → SessionInfo ι → Prop} {pending : List Token} {x : Event ι} (h : s.Rows Q pending)
    (hs : s.Issued maxRefreshes) (hold : ∀ t info, t < s.issued.length → Q t info → Q' t info)
    (hnew : ∀ t info, s.NewRow x t info → Q' t info ∨ t ∈ pending) (hread : ReadsNone pending x) :
    (s.step maxRefreshes x).Rows Q' pending where
  live := fun t info ht => by
    rcases step_row ht with hrow | hrow
    · exact (h.live t info hrow).imp (hold t info (hs.row t info hrow).lt) id
    · exact hnew t info hrow
  held := fun j old info expiresAt hcall => by
    rcases step_calls hcall with hheld | hgoes
    · exact hold old info (hs.call j _ hheld).1.lt (h.held j old info expiresAt hheld)
    · cases hgoes with
      | reissue hidle hlive hmax =>
        exact hold old info (hs.row old info hlive).lt ((h.live old info hlive).resolve_right hread)

/-- a pending row that satisfies `Q`, or is gone, is no longer pending -/
theorem Rows.settle {Q : Token → SessionInfo ι → Prop} {k : Token} {pending : List Token} (h : s.Rows Q (k :: pending))
    (hk : ∀ info, s.inner[k]? = some info → Q k info) : s.Rows Q pending where
  live := fun t info ht => by
    rcases h.live t info ht with hq | hmem
    · exact Or.inl hq
    · rcases List.mem_cons.1 hmem with rfl | hmem
      · exact Or.inl (hk info ht)
      · exact Or.inr hmem
  held := h.held

/-- the victim of a revocation is gone -/
theorem step_revoking {covered victims : List Token} {ok : Bool} (hcall : s.calls i = some (.revoking covered (t :: victims))) :
    (s.step maxRefreshes (.step i ok)).inner[t]? = none := by
  simp only [step, hcall]
  change (s.inner.erase t)[t]? = none
  rw [Table.getElem?_erase_iff, if_pos rfl]

def aliceRow : SessionInfo Unit := ⟨"alice", .User, 0, 60, 0, false, (), 0⟩

end Sessions

end Y2q.Auth
