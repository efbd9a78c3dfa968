/-
The store of S3 credentials (`S3CredentialStore` in `s3/state.rs`), one map operation at a time.

A credential belongs to the session whose token hash it carries. `mint` inserts one, then lists the session's credentials and removes
the oldest until `max_per_session` are left. After a token refresh `rekey_session` lists the credentials of the old hash and inserts
each of them again under the new one. `sweep` lists what is expired or without a session, and removes it. Calls take their map
operations in any order; going through the map counts as one operation, in whatever order the map gives its entries.

- `NoReturn`: no credential that was removed is live. `Bounded`: with no `mint` and no `rekey_session` in flight, no session has
  more than `max_per_session`.
- `Steady`: nothing that a `rekey_session` has listed is removed before it is inserted again, and none starts between the
  insertion and the listing of a `mint` for the session.
- `credentials_bounded`: along `Steady` steps both hold in every state.
- `removed_returns`, `refresh_exceeds_bound`: the other runs.
-/
import Mathlib.Tactic
import Y2q.Core.Run

namespace Y2q.S3Credentials

open Run

/-- SHA-256 of a session's bearer token -/
abbrev TokenHash := List UInt8

structure S3Credential where
  accessKeyId : String
  tokenHash : TokenHash
  username : String
  /-- sealed under the session keyring -/
  secret : List UInt8
  createdAt : ℕ
  expiresAt : ℕ
deriving DecidableEq

def S3Credential.isExpired (c : S3Credential) (now : ℕ) : Bool := c.expiresAt ≤ now

/-- the session keyring, as far as S3 secrets go; sealing draws a nonce -/
structure SessionKeyring where
  sealS3Secret : TokenHash → String → List UInt8 → List UInt8 → Option (List UInt8)
  openS3Secret : TokenHash → String → List UInt8 → Option (List UInt8)

/-- where a call stands -/
inductive Call where
  /-- a `mint` that has inserted its credential -/
  | inserted (c : S3Credential)
  /-- a `mint` that has listed the session's credentials, with those it is going to remove -/
  | trimming (todo : List S3Credential)
  | rekeying (old new : TokenHash) (todo : List S3Credential)
  | sweeping (todo : List String)

structure State where
  creds : String → Option S3Credential
  calls : ℕ → Option Call
  /-- the ids that were ever minted, and those that were removed -/
  minted : Set String
  removed : Set String

def init : State := ⟨fun _ => none, fun _ => none, ∅, ∅⟩

namespace State

def insert (s : State) (c : S3Credential) : State :=
  { s with creds := Function.update s.creds c.accessKeyId (some c) }

def remove (s : State) (id : String) : State :=
  { s with
    creds := Function.update s.creds id none
    removed := if (s.creds id).isSome then {id} ∪ s.removed else s.removed }

def setCall (s : State) (i : ℕ) (c : Option Call) : State := { s with calls := Function.update s.calls i c }

end State

/-- what `mint` removes of its sorted list: from the front, while there are too many -/
def trim (maxPerSession : ℕ) : List S3Credential → List S3Credential
  | [] => []
  | oldest :: remaining => if maxPerSession < remaining.length + 1 then oldest :: trim maxPerSession remaining else []

/-- `rekey_session` seals the secret anew -/
def rebind (K : SessionKeyring) (old new : TokenHash) (nonce : List UInt8) (c : S3Credential) : Option S3Credential :=
  (K.openS3Secret old c.accessKeyId c.secret).bind fun opened =>
    (K.sealS3Secret new c.accessKeyId opened nonce).map fun resealed => { c with tokenHash := new, secret := resealed }

inductive Ev where
  | mint (i : ℕ) (tokenHash : TokenHash) (username : String) (requestedExpiresAt sessionExpiresAt : ℕ)
    (accessKeyId : String) (secret nonce : List UInt8) (now : ℕ)
  /-- a `mint` lists the session's credentials -/
  | list (i : ℕ) (remaining : List S3Credential)
  | remove (accessKeyId : String)
  | rekeySession (i : ℕ) (old new : TokenHash) (listed : List S3Credential)
  /-- `active`: the sessions there are -/
  | sweep (i : ℕ) (now : ℕ) (active : TokenHash → Bool) (stale : List String)
  /-- the next operation of a call -/
  | step (i : ℕ) (nonce : List UInt8)

variable (K : SessionKeyring) (maxPerSession : ℕ)

def step (s : State) : Ev → State
  | .mint i tokenHash username requestedExpiresAt sessionExpiresAt accessKeyId secret nonce now =>
    match s.calls i, K.sealS3Secret tokenHash accessKeyId secret nonce with
    | none, some sealed =>
      let c : S3Credential := ⟨accessKeyId, tokenHash, username, sealed, now, min requestedExpiresAt sessionExpiresAt⟩
      { (s.insert c).setCall i (some (.inserted c)) with minted := {accessKeyId} ∪ s.minted }
    | _, _ => s
  | .list i remaining =>
    match s.calls i with
    | some (.inserted _) =>
      s.setCall i (some (.trimming (trim maxPerSession (remaining.mergeSort fun c d => c.createdAt ≤ d.createdAt))))
    | _ => s
  | .remove accessKeyId => s.remove accessKeyId
  | .rekeySession i old new listed => if (s.calls i).isNone then s.setCall i (some (.rekeying old new listed)) else s
  | .sweep i _ _ stale => if (s.calls i).isNone then s.setCall i (some (.sweeping stale)) else s
  | .step i nonce =>
    match s.calls i with
    | some (.trimming (oldest :: todo)) => (s.remove oldest.accessKeyId).setCall i (some (.trimming todo))
    | some (.rekeying old new (c :: todo)) =>
      match rebind K old new nonce c with
      | some rebuilt => (s.insert rebuilt).setCall i (some (.rekeying old new todo))
      | none => (s.remove c.accessKeyId).setCall i (some (.rekeying old new todo))
    | some (.sweeping (id :: todo)) => (s.remove id).setCall i (some (.sweeping todo))
    | some (.trimming []) => s.setCall i none
    | some (.rekeying _ _ []) => s.setCall i none
    | some (.sweeping []) => s.setCall i none
    | _ => s

/-! ## Properties of states and steps -/

namespace State

/-- a `mint` of the session has inserted its credential and not yet listed the others -/
def Unlisted (s : State) (h : TokenHash) : Prop := ∃ i c, s.calls i = some (.inserted c) ∧ c.tokenHash = h

/-- a `mint` is going to remove it -/
def Doomed (s : State) (id : String) : Prop := ∃ i todo, s.calls i = some (.trimming todo) ∧ ∃ c ∈ todo, c.accessKeyId = id

/-- a `rekey_session` is going to put it under the hash -/
def Awaited (s : State) (h : TokenHash) (id : String) : Prop :=
  ∃ i old todo, s.calls i = some (.rekeying old h todo) ∧ ∃ c ∈ todo, c.accessKeyId = id

/-- a `rekey_session` to the hash is in flight -/
def Rekeyed (s : State) (h : TokenHash) : Prop := ∃ i old todo, s.calls i = some (.rekeying old h todo)

/-- the session's credentials -/
def ofSession (s : State) (h : TokenHash) : Set String := {id | ∃ c, s.creds id = some c ∧ c.tokenHash = h}

/-- a credential that was removed is not live again -/
def NoReturn (s : State) : Prop := ∀ id ∈ s.removed, s.creds id = none

/-- neither a `mint` nor a `rekey_session` is in flight -/
def Settled (s : State) : Prop := ∀ i c, s.calls i = some c → ∃ todo, c = .sweeping todo

end State

def Bounded (s : State) : Prop := s.Settled → ∀ h, (s.ofSession h).encard ≤ maxPerSession

/-- what random draws and the map promise: a new access key id was never minted, a listing is of what is there, and a token that was
not handed out yet is nobody's -/
def Legal (s : State) : Ev → Prop
  | .mint _ tokenHash _ _ _ accessKeyId _ _ _ => accessKeyId ∉ s.minted ∧ ¬s.Rekeyed tokenHash
  | .list i remaining => ∀ c, s.calls i = some (.inserted c) →
    ∀ d, d ∈ remaining ↔ s.creds d.accessKeyId = some d ∧ d.tokenHash = c.tokenHash
  | .rekeySession _ old new listed => (∀ d, d ∈ listed ↔ s.creds d.accessKeyId = some d ∧ d.tokenHash = old) ∧
    s.ofSession new = ∅ ∧ ¬s.Rekeyed new ∧ ¬s.Unlisted new
  | .sweep _ now active stale => ∀ id, id ∈ stale ↔ ∃ c, s.creds id = some c ∧ (c.isExpired now ∨ ¬active c.tokenHash)
  | _ => True

/-- no `mint` of the session is between its insertion and its listing when `rekey_session` lists, and what was listed is still
there when it is inserted again -/
def Steady (s : State) : Ev → Prop
  | .rekeySession _ old _ _ => ¬s.Unlisted old
  | .step i _ => ∀ old new c todo, s.calls i = some (.rekeying old new (c :: todo)) → s.creds c.accessKeyId ≠ none
  | _ => True

/-! ## The invariant -/

namespace State

/-- what counts against the session's bound: live, under its hash or soon to be, and not about to be removed by a `mint` -/
def counted (s : State) (h : TokenHash) : Set String :=
  {id | (s.creds id).isSome ∧ (id ∈ s.ofSession h ∨ s.Awaited h id) ∧ ¬s.Doomed id}

end State

structure Inv (s : State) : Prop where
  named : ∀ id c, s.creds id = some c → c.accessKeyId = id
  minted : ∀ id, (s.creds id).isSome → id ∈ s.minted
  removed : s.removed ⊆ s.minted
  awaited : ∀ h id, s.Awaited h id → id ∈ s.minted
  noReturn : s.NoReturn
  apart : ∀ h, s.Unlisted h → ¬s.Rekeyed h
  bounded : ∀ h, ¬s.Unlisted h → (s.counted h).encard ≤ maxPerSession

variable {K maxPerSession} {s : State} {i j : ℕ} {id : String} {c d : S3Credential} {h old new : TokenHash} {call : Option Call}

/-- what `mint` leaves -/
theorem trim_append (l : List S3Credential) : ∃ kept, l = trim maxPerSession l ++ kept ∧ kept.length ≤ maxPerSession := by
  induction l with
  | nil => exact ⟨[], rfl, Nat.zero_le _⟩
  | cons oldest remaining ih =>
    rw [trim]
    split_ifs with hmany
    · obtain ⟨kept, hkept, hlen⟩ := ih
      exact ⟨kept, congrArg (oldest :: ·) hkept, hlen⟩
    · exact ⟨oldest :: remaining, rfl, Nat.not_lt.1 hmany⟩

/-! ## One operation -/

section

/-- a step after which less is there and less is to come -/
structure Shrinks (s s' : State) : Prop where
  creds : ∀ id c, s'.creds id = some c → s.creds id = some c
  minted : s'.minted = s.minted
  removed : ∀ id ∈ s'.removed, id ∈ s.removed ∨ id ∈ s.minted ∧ s'.creds id = none
  unlisted : ∀ h, s'.Unlisted h ↔ s.Unlisted h
  awaited : ∀ h id, s'.Awaited h id → s.Awaited h id
  rekeyed : ∀ h, s'.Rekeyed h → s.Rekeyed h
  doomed : ∀ id, (s'.creds id).isSome → s.Doomed id → s'.Doomed id

variable {s' : State}

theorem isSome_mono (hcreds : ∀ id c, s'.creds id = some c → s.creds id = some c) (hid : (s'.creds id).isSome) :
    (s.creds id).isSome := by
  obtain ⟨c, hc⟩ := Option.isSome_iff_exists.1 hid
  rw [hcreds id c hc]
  rfl

theorem Inv.shrink (hs : Inv maxPerSession s) (h : Shrinks s s') : Inv maxPerSession s' where
  named id c hc := hs.named id c (h.creds id c hc)
  minted id hid := by
    rw [h.minted]
    exact hs.minted id (isSome_mono h.creds hid)
  removed id hid := by
    rw [h.minted]
    exact (h.removed id hid).elim (fun hr => hs.removed hr) And.left
  awaited x id hid := by
    rw [h.minted]
    exact hs.awaited x id (h.awaited x id hid)
  noReturn id hid := by
    rcases h.removed id hid with hold | ⟨-, hgone⟩
    · cases hc : s'.creds id with
      | none => rfl
      | some c => exact absurd (h.creds id c hc) (by rw [hs.noReturn id hold]; nofun)
    · exact hgone
  apart x hx hr := hs.apart x ((h.unlisted x).1 hx) (h.rekeyed x hr)
  bounded x hx := by
    refine le_trans (Set.encard_mono fun id hid => ?_) (hs.bounded x (mt (h.unlisted x).2 hx))
    obtain ⟨hlive, hmine, hkept⟩ := hid
    refine ⟨isSome_mono h.creds hlive, hmine.imp ?_ (h.awaited x id), fun hd => hkept (h.doomed id hlive hd)⟩
    intro ⟨c, hc, hx⟩
    exact ⟨c, h.creds id c hc, hx⟩

/-! ## Calls -/

variable (s i call) in
theorem setCall_calls (j : ℕ) : (s.setCall i call).calls j = if j = i then call else s.calls j := Function.update_apply ..

theorem calls_setCall {x : Call} (hx : (s.setCall i call).calls j = some x) : j = i ∧ call = some x ∨ j ≠ i ∧ s.calls j = some x := by
  rw [setCall_calls] at hx
  split_ifs at hx with hji
  · exact Or.inl ⟨hji, hx⟩
  · exact Or.inr ⟨hji, hx⟩

theorem calls_other {x : Call} (hji : j ≠ i) (hx : s.calls j = some x) : (s.setCall i call).calls j = some x := by
  rw [setCall_calls, if_neg hji, hx]

theorem calls_self : (s.setCall i call).calls i = call := by rw [setCall_calls, if_pos rfl]

/-- no `mint` begins or lists -/
theorem unlisted_setCall (hold : ∀ c, s.calls i ≠ some (.inserted c)) (hnew : ∀ c, call ≠ some (.inserted c)) :
    (s.setCall i call).Unlisted h ↔ s.Unlisted h := by
  constructor
  · intro ⟨j, c, hj, hc⟩
    rcases calls_setCall hj with ⟨-, hcall⟩ | ⟨-, hj⟩
    · exact absurd hcall (hnew c)
    · exact ⟨j, c, hj, hc⟩
  · intro ⟨j, c, hj, hc⟩
    have hji : j ≠ i := by
      intro hji
      exact hold c (hji ▸ hj)
    exact ⟨j, c, calls_other hji hj, hc⟩

/-- the call awaits nothing that it did not await before -/
theorem awaited_setCall (hnew : ∀ old todo, call = some (.rekeying old h todo) →
    ∃ done, s.calls i = some (.rekeying old h (done ++ todo))) (hid : (s.setCall i call).Awaited h id) : s.Awaited h id := by
  obtain ⟨j, old, todo, hj, c, hc, rfl⟩ := hid
  rcases calls_setCall hj with ⟨-, hcall⟩ | ⟨-, hj⟩
  · obtain ⟨done, hi⟩ := hnew old todo hcall
    exact ⟨i, old, _, hi, c, List.mem_append_right done hc, rfl⟩
  · exact ⟨j, old, todo, hj, c, hc, rfl⟩

theorem rekeyed_setCall (hnew : ∀ old todo, call = some (.rekeying old h todo) →
    ∃ done, s.calls i = some (.rekeying old h (done ++ todo))) (hr : (s.setCall i call).Rekeyed h) : s.Rekeyed h := by
  obtain ⟨j, old, todo, hj⟩ := hr
  rcases calls_setCall hj with ⟨-, hcall⟩ | ⟨-, hj⟩
  · obtain ⟨done, hi⟩ := hnew old todo hcall
    exact ⟨i, old, _, hi⟩
  · exact ⟨j, old, todo, hj⟩

/-- another call than a `mint` that trims -/
theorem doomed_other (hold : ∀ todo, s.calls i ≠ some (.trimming todo)) (hid : s.Doomed id) : (s.setCall i call).Doomed id := by
  obtain ⟨j, todo, hj, hd⟩ := hid
  have hji : j ≠ i := by
    intro hji
    exact hold todo (hji ▸ hj)
  exact ⟨j, todo, calls_other hji hj, hd⟩

/-- of what it was going to remove, the call forgets only what is gone -/
theorem doomed_setCall (hold : ∀ todo, s.calls i = some (.trimming todo) →
    todo = [] ∨ ∃ c rest, todo = c :: rest ∧ call = some (.trimming rest) ∧ s.creds c.accessKeyId = none)
    (hlive : (s.creds id).isSome) (hid : s.Doomed id) : (s.setCall i call).Doomed id := by
  obtain ⟨j, todo, hj, c, hc, rfl⟩ := hid
  by_cases hji : j = i
  · subst hji
    rcases hold todo hj with rfl | ⟨d, rest, rfl, hcall, hgone⟩
    · cases hc
    · have hrest : c ∈ rest := by
        rcases List.mem_cons.1 hc with rfl | hrest
        · rw [hgone] at hlive
          cases hlive
        · exact hrest
      exact ⟨j, rest, calls_self.trans hcall, c, hrest, rfl⟩
  · exact ⟨j, todo, calls_other hji hj, c, hc, rfl⟩

theorem shrinks_setCall (hold : ∀ c, s.calls i ≠ some (.inserted c)) (hnew : ∀ c, call ≠ some (.inserted c))
    (hrekey : ∀ h old todo, call = some (.rekeying old h todo) → ∃ done, s.calls i = some (.rekeying old h (done ++ todo)))
    (htrim : ∀ todo, s.calls i = some (.trimming todo) →
      todo = [] ∨ ∃ c rest, todo = c :: rest ∧ call = some (.trimming rest) ∧ s.creds c.accessKeyId = none) :
    Shrinks s (s.setCall i call) where
  creds _ _ hc := hc
  minted := rfl
  removed _ hid := Or.inl hid
  unlisted _ := unlisted_setCall hold hnew
  awaited h _ := awaited_setCall (hrekey h)
  rekeyed h := rekeyed_setCall (hrekey h)
  doomed _ := doomed_setCall htrim

theorem shrinks_remove (hs : Inv maxPerSession s) (id' : String) : Shrinks s (s.remove id') where
  creds id c hc := by
    change Function.update s.creds id' none id = some c at hc
    rw [Function.update_apply] at hc
    split_ifs at hc
    exact hc
  minted := rfl
  removed id hid := by
    change id ∈ (if (s.creds id').isSome then {id'} ∪ s.removed else s.removed) at hid
    split_ifs at hid with hlive
    · rcases hid with rfl | hid
      · exact Or.inr ⟨hs.minted id hlive, Function.update_self ..⟩
      · exact Or.inl hid
    · exact Or.inl hid
  unlisted _ := Iff.rfl
  awaited _ _ hid := hid
  rekeyed _ hr := hr
  doomed _ _ hid := hid

/-- remove the first of the list, and go on -/
theorem remove_inv (hs : Inv maxPerSession s) {id' : String} (hold : ∀ c, s.calls i ≠ some (.inserted c))
    (hnew : ∀ c, call ≠ some (.inserted c))
    (hrekey : ∀ h old todo, call = some (.rekeying old h todo) → ∃ done, s.calls i = some (.rekeying old h (done ++ todo)))
    (htrim : ∀ todo, s.calls i = some (.trimming todo) →
      todo = [] ∨ ∃ c rest, todo = c :: rest ∧ call = some (.trimming rest) ∧ c.accessKeyId = id') :
    Inv maxPerSession ((s.remove id').setCall i call) := by
  refine (hs.shrink (shrinks_remove hs id')).shrink (shrinks_setCall hold hnew hrekey fun todo htodo => ?_)
  refine (htrim todo htodo).imp_right fun ⟨c, rest, htodo, hcall, hc⟩ => ⟨c, rest, htodo, hcall, ?_⟩
  rw [hc]
  exact Function.update_self ..

/-! ## Steps -/

theorem creds_insert (hid : (s.insert d).creds id = some c) : id = d.accessKeyId ∧ c = d ∨ id ≠ d.accessKeyId ∧ s.creds id = some c := by
  change Function.update s.creds d.accessKeyId (some d) id = some c at hid
  rw [Function.update_apply] at hid
  split_ifs at hid with heq
  · exact Or.inl ⟨heq, (Option.some.inj hid).symm⟩
  · exact Or.inr ⟨heq, hid⟩

theorem isSome_insert (hid : ((s.insert d).creds id).isSome) : id = d.accessKeyId ∨ (s.creds id).isSome := by
  obtain ⟨c, hc⟩ := Option.isSome_iff_exists.1 hid
  refine (creds_insert hc).imp And.left fun ⟨_, hold⟩ => ?_
  rw [hold]
  rfl

/-- the new credential counts for no session but its own, and there nothing is promised until the `mint` has listed -/
theorem mint_inv (hs : Inv maxPerSession s) (hi : s.calls i = none) (hfresh : c.accessKeyId ∉ s.minted)
    (hapart : ¬s.Rekeyed c.tokenHash) :
    Inv maxPerSession { (s.insert c).setCall i (some (.inserted c)) with minted := {c.accessKeyId} ∪ s.minted } := by
  have hawaited : ∀ h id, ((s.insert c).setCall i (some (.inserted c))).Awaited h id → s.Awaited h id :=
    fun h id => awaited_setCall (s := s.insert c) nofun
  have hrekeyed : ∀ h, ((s.insert c).setCall i (some (.inserted c))).Rekeyed h → s.Rekeyed h :=
    fun h => rekeyed_setCall (s := s.insert c) nofun
  have hunlisted : ∀ h, s.Unlisted h → ((s.insert c).setCall i (some (.inserted c))).Unlisted h := by
    intro h ⟨j, d, hj, hd⟩
    have hji : j ≠ i := by
      intro hji
      rw [hji, hi] at hj
      cases hj
    exact ⟨j, d, calls_other (s := s.insert c) hji hj, hd⟩
  constructor
  · intro id d hd
    rcases creds_insert hd with ⟨rfl, rfl⟩ | ⟨-, hd⟩
    · rfl
    · exact hs.named id d hd
  · intro id hid
    exact (isSome_insert hid).imp (fun heq => heq) (hs.minted _)
  · exact fun id hid => Or.inr (hs.removed hid)
  · exact fun h id hid => Or.inr (hs.awaited h id (hawaited h id hid))
  · intro id hid
    have hne : id ≠ c.accessKeyId := by
      intro heq
      exact hfresh (heq ▸ hs.removed hid)
    exact (Function.update_of_ne hne ..).trans (hs.noReturn id hid)
  · intro h ⟨j, d, hj, hd⟩ hr
    rcases calls_setCall (s := s.insert c) hj with ⟨-, hcall⟩ | ⟨-, hj⟩
    · cases hcall
      exact hapart (hd ▸ hrekeyed h hr)
    · exact hs.apart h ⟨j, d, hj, hd⟩ (hrekeyed h hr)
  · intro h hx
    have hother : c.tokenHash ≠ h := fun heq => hx ⟨i, c, calls_self (s := s.insert c), heq⟩
    refine le_trans (Set.encard_mono fun id hid => ?_) (hs.bounded h fun hu => hx (hunlisted h hu))
    obtain ⟨hlive, hmine, hkept⟩ := hid
    have hne : id ≠ c.accessKeyId := by
      rintro rfl
      rcases hmine with ⟨d, hd, hdh⟩ | hw
      · rcases creds_insert hd with ⟨-, rfl⟩ | ⟨hne, -⟩
        · exact hother hdh
        · exact hne rfl
      · exact hfresh (hs.awaited h _ (hawaited h _ hw))
    refine ⟨(isSome_insert hlive).resolve_left hne, ?_, fun hd => hkept ?_⟩
    · rcases hmine with ⟨d, hd, hdh⟩ | hw
      · rcases creds_insert hd with ⟨heq, -⟩ | ⟨-, hd⟩
        · exact absurd heq hne
        · exact Or.inl ⟨d, hd, hdh⟩
      · exact Or.inr (hawaited h id hw)
    · exact doomed_other (s := s.insert c) (by change ∀ todo, s.calls i ≠ _; rw [hi]; nofun) hd

/-- of the session's credentials, `mint` leaves no more than the bound -/
theorem list_inv (hs : Inv maxPerSession s) (hi : s.calls i = some (.inserted c)) {remaining : List S3Credential}
    (hall : ∀ d, d ∈ remaining ↔ s.creds d.accessKeyId = some d ∧ d.tokenHash = c.tokenHash) :
    Inv maxPerSession
      (s.setCall i (some (.trimming (trim maxPerSession (remaining.mergeSort fun c d => c.createdAt ≤ d.createdAt))))) := by
  generalize htrimmed : remaining.mergeSort (fun c d => c.createdAt ≤ d.createdAt) = sorted
  have hmem : ∀ d, d ∈ sorted ↔ d ∈ remaining := by
    intro d
    rw [← htrimmed, List.mem_mergeSort]
  have hrekeyed : ∀ h, (s.setCall i (some (.trimming (trim maxPerSession sorted)))).Rekeyed h → s.Rekeyed h :=
    fun h => rekeyed_setCall nofun
  have hawaited : ∀ h id, (s.setCall i (some (.trimming (trim maxPerSession sorted)))).Awaited h id → s.Awaited h id :=
    fun h id => awaited_setCall nofun
  have hdoomed : ∀ id, s.Doomed id → (s.setCall i (some (.trimming (trim maxPerSession sorted)))).Doomed id :=
    fun id => doomed_other (by rw [hi]; nofun)
  refine ⟨hs.named, hs.minted, hs.removed, fun h id hid => hs.awaited h id (hawaited h id hid), hs.noReturn, ?_, ?_⟩
  · intro h ⟨j, d, hj, hd⟩ hr
    rcases calls_setCall hj with ⟨-, hcall⟩ | ⟨-, hj⟩
    · cases hcall
    · exact hs.apart h ⟨j, d, hj, hd⟩ (hrekeyed h hr)
  · intro h hx
    by_cases hmine : c.tokenHash = h
    · -- the credentials that count are those that were kept
      obtain ⟨kept, hkept, hlen⟩ := @trim_append maxPerSession sorted
      have hsub : (s.setCall i (some (.trimming (trim maxPerSession sorted)))).counted h ⊆
          ((kept.map (·.accessKeyId)).toFinset : Set String) := by
        intro id ⟨_, hof, hsurvives⟩
        have hnot := hs.apart h ⟨i, c, hi, hmine⟩
        rcases hof with ⟨d, hd, hdh⟩ | hw
        · have hname := hs.named id d hd
          have hin : d ∈ sorted := (hmem d).2 ((hall d).2 ⟨hname ▸ hd, hdh.trans hmine.symm⟩)
          rw [hkept] at hin
          rcases List.mem_append.1 hin with htrim | hkeep
          · exact absurd ⟨i, _, calls_self, d, htrim, hname⟩ hsurvives
          · rw [List.coe_toFinset]
            exact List.mem_map.2 ⟨d, hkeep, hname⟩
        · obtain ⟨j, old, todo, hj, -⟩ := hawaited h id hw
          exact absurd ⟨j, old, todo, hj⟩ hnot
      calc _ ≤ ((kept.map (·.accessKeyId)).toFinset : Set String).encard := Set.encard_mono hsub
        _ = ((kept.map (·.accessKeyId)).toFinset.card : ℕ∞) := Set.encard_coe_eq_coe_finsetCard _
        _ ≤ (kept.length : ℕ∞) := by
          have := List.toFinset_card_le (kept.map (·.accessKeyId))
          rw [List.length_map] at this
          exact_mod_cast this
        _ ≤ maxPerSession := by exact_mod_cast hlen
    · have hunlisted : ¬s.Unlisted h := by
        intro ⟨j, d, hj, hd⟩
        have hji : j ≠ i := by
          intro hji
          rw [hji, hi] at hj
          cases hj
          exact hmine hd
        exact hx ⟨j, d, calls_other hji hj, hd⟩
      refine le_trans (Set.encard_mono fun id hid => ?_) (hs.bounded h hunlisted)
      obtain ⟨hlive, hof, hkept⟩ := hid
      exact ⟨hlive, hof.imp_right (hawaited h id), fun hd => hkept (hdoomed id hd)⟩

/-- what a `rekey_session` is going to put under the new hash counted under the old one -/
theorem rekeySession_inv (hs : Inv maxPerSession s) (hi : s.calls i = none) {listed : List S3Credential}
    (hall : ∀ d, d ∈ listed ↔ s.creds d.accessKeyId = some d ∧ d.tokenHash = old) (hempty : s.ofSession new = ∅)
    (hrekeyed : ¬s.Rekeyed new) (hunlisted : ¬s.Unlisted new) (hsteady : ¬s.Unlisted old) :
    Inv maxPerSession (s.setCall i (some (.rekeying old new listed))) := by
  have hun : ∀ h, (s.setCall i (some (.rekeying old new listed))).Unlisted h ↔ s.Unlisted h :=
    fun h => unlisted_setCall (by rw [hi]; nofun) nofun
  have hdoomed : ∀ id, s.Doomed id → (s.setCall i (some (.rekeying old new listed))).Doomed id :=
    fun id => doomed_other (by rw [hi]; nofun)
  have hawaited : ∀ h id, (s.setCall i (some (.rekeying old new listed))).Awaited h id →
      h = new ∧ id ∈ s.ofSession old ∨ s.Awaited h id := by
    intro h id ⟨j, o, todo, hj, d, hd, hname⟩
    rcases calls_setCall hj with ⟨-, hcall⟩ | ⟨-, hj⟩
    · cases hcall
      obtain ⟨hlive, hold⟩ := (hall d).1 hd
      exact Or.inl ⟨rfl, d, hname ▸ hlive, hold⟩
    · exact Or.inr ⟨j, o, todo, hj, d, hd, hname⟩
  refine ⟨hs.named, hs.minted, hs.removed, ?_, hs.noReturn, ?_, ?_⟩
  · intro h id hid
    rcases hawaited h id hid with ⟨-, d, hd, -⟩ | hid
    · refine hs.minted id ?_
      rw [hd]
      rfl
    · exact hs.awaited h id hid
  · intro h hx ⟨j, o, todo, hj⟩
    have hu := (hun h).1 hx
    rcases calls_setCall hj with ⟨-, hcall⟩ | ⟨-, hj⟩
    · cases hcall
      exact hunlisted hu
    · exact hs.apart h hu ⟨j, o, todo, hj⟩
  · intro h hx
    by_cases hnew : h = new
    · subst hnew
      refine le_trans (Set.encard_mono fun id hid => ?_) (hs.bounded old hsteady)
      obtain ⟨hlive, hof, hkept⟩ := hid
      refine ⟨hlive, Or.inl ?_, fun hd => hkept (hdoomed id hd)⟩
      rcases hof with hof | hw
      · have hof : id ∈ s.ofSession h := hof
        rw [hempty] at hof
        cases hof
      · rcases hawaited h id hw with ⟨-, hold⟩ | ⟨j, o, todo, hj, -⟩
        · exact hold
        · exact absurd ⟨j, o, todo, hj⟩ hrekeyed
    · refine le_trans (Set.encard_mono fun id hid => ?_) (hs.bounded h (mt (hun h).2 hx))
      obtain ⟨hlive, hof, hkept⟩ := hid
      refine ⟨hlive, hof.imp_right fun hw => ?_, fun hd => hkept (hdoomed id hd)⟩
      exact (hawaited h id hw).resolve_left fun hn => hnew hn.1

/-- a credential that is still there moves to the new hash, where it counted already -/
theorem rebind_inv (hs : Inv maxPerSession s) {todo : List S3Credential} (hi : s.calls i = some (.rekeying old new (c :: todo)))
    (hlive : s.creds c.accessKeyId ≠ none) (hid : d.accessKeyId = c.accessKeyId) (hnew : d.tokenHash = new) :
    Inv maxPerSession ((s.insert d).setCall i (some (.rekeying old new todo))) := by
  have hsome : (s.creds d.accessKeyId).isSome := by
    rw [hid]
    exact Option.isSome_iff_ne_none.2 hlive
  have hun : ∀ h, ((s.insert d).setCall i (some (.rekeying old new todo))).Unlisted h ↔ s.Unlisted h :=
    fun h => unlisted_setCall (s := s.insert d) (by change ∀ c, s.calls i ≠ _; rw [hi]; nofun) nofun
  have hmoved : ∀ h o rest, some (Call.rekeying old new todo) = some (.rekeying o h rest) →
      ∃ done, (s.insert d).calls i = some (.rekeying o h (done ++ rest)) := by
    intro h o rest heq
    cases heq
    exact ⟨[c], hi⟩
  have hawaited : ∀ h id, ((s.insert d).setCall i (some (.rekeying old new todo))).Awaited h id → s.Awaited h id :=
    fun h id => awaited_setCall (s := s.insert d) (hmoved h)
  have hdoomed : ∀ id, s.Doomed id → ((s.insert d).setCall i (some (.rekeying old new todo))).Doomed id :=
    fun id => doomed_other (s := s.insert d) (by change ∀ todo, s.calls i ≠ _; rw [hi]; nofun)
  have hstill : ∀ id, ((s.insert d).creds id).isSome → (s.creds id).isSome := by
    intro id hsome'
    rcases isSome_insert hsome' with rfl | hold
    · exact hsome
    · exact hold
  refine ⟨?_, fun id h => hs.minted id (hstill id h), hs.removed, fun h id hw => hs.awaited h id (hawaited h id hw), ?_, ?_, ?_⟩
  · intro id e he
    rcases creds_insert he with ⟨rfl, rfl⟩ | ⟨-, he⟩
    · rfl
    · exact hs.named id e he
  · intro id hgone
    have hne : id ≠ d.accessKeyId := by
      rintro rfl
      rw [hs.noReturn _ hgone] at hsome
      cases hsome
    exact (Function.update_of_ne hne ..).trans (hs.noReturn id hgone)
  · intro h hx hr
    exact hs.apart h ((hun h).1 hx) (rekeyed_setCall (s := s.insert d) (hmoved h) hr)
  · intro h hx
    refine le_trans (Set.encard_mono fun id hmem => ?_) (hs.bounded h (mt (hun h).2 hx))
    obtain ⟨hlive', hof, hkept⟩ := hmem
    refine ⟨hstill id hlive', ?_, fun hd => hkept (hdoomed id hd)⟩
    rcases hof with ⟨e, he, heh⟩ | hw
    · rcases creds_insert he with ⟨rfl, rfl⟩ | ⟨-, he⟩
      · exact Or.inr ⟨i, old, c :: todo, heh ▸ hnew ▸ hi, c, List.mem_cons_self, hid.symm⟩
      · exact Or.inl ⟨e, he, heh⟩
    · exact Or.inr (hawaited h id hw)

theorem step_inv (hs : Inv maxPerSession s) {e : Ev} (hlegal : Legal s e) (hsteady : Steady s e) :
    Inv maxPerSession (step K maxPerSession s e) := by
  cases e with
  | mint i tokenHash username requestedExpiresAt sessionExpiresAt accessKeyId secret nonce now =>
    simp only [step]
    split
    · rename_i sealed hi _
      exact mint_inv hs hi hlegal.1 hlegal.2
    · exact hs
  | list i remaining =>
    simp only [step]
    split
    · rename_i c hi
      exact list_inv hs hi (hlegal c hi)
    · exact hs
  | remove id => exact hs.shrink (shrinks_remove hs id)
  | rekeySession i old new listed =>
    obtain ⟨hall, hempty, hrekeyed, hunlisted⟩ := hlegal
    simp only [step]
    split_ifs with hi
    · exact rekeySession_inv hs (Option.isNone_iff_eq_none.1 hi) hall hempty hrekeyed hunlisted hsteady
    · exact hs
  | sweep i now active stale =>
    simp only [step]
    split_ifs with hi
    · rw [Option.isNone_iff_eq_none] at hi
      exact hs.shrink (shrinks_setCall (by rw [hi]; nofun) nofun nofun (by rw [hi]; nofun))
    · exact hs
  | step i nonce =>
    simp only [step]
    cases hi : s.calls i with
    | none => exact hs
    | some call =>
      cases call with
      | inserted c => exact hs
      | trimming todo =>
        cases todo with
        | nil => exact hs.shrink (shrinks_setCall (by rw [hi]; nofun) nofun nofun fun todo h => Or.inl (by rw [hi] at h; cases h; rfl))
        | cons oldest todo =>
          refine remove_inv hs (by rw [hi]; nofun) nofun nofun fun rest h => Or.inr ?_
          rw [hi] at h
          cases h
          exact ⟨oldest, todo, rfl, rfl, rfl⟩
      | rekeying old new todo =>
        cases todo with
        | nil => exact hs.shrink (shrinks_setCall (by rw [hi]; nofun) nofun nofun (by rw [hi]; nofun))
        | cons c todo =>
          have hlive := hsteady old new c todo hi
          simp only
          cases hr : rebind K old new nonce c with
          | some d =>
            obtain ⟨opened, -, hd⟩ := Option.bind_eq_some_iff.1 hr
            obtain ⟨resealed, -, rfl⟩ := Option.map_eq_some_iff.1 hd
            exact rebind_inv hs hi hlive rfl rfl
          | none =>
            refine remove_inv hs (by rw [hi]; nofun) nofun (fun h o rest heq => ?_) (by rw [hi]; nofun)
            cases heq
            exact ⟨[c], hi⟩
      | sweeping todo =>
        cases todo with
        | nil => exact hs.shrink (shrinks_setCall (by rw [hi]; nofun) nofun nofun (by rw [hi]; nofun))
        | cons id todo => exact remove_inv hs (by rw [hi]; nofun) nofun nofun (by rw [hi]; nofun)

theorem Inv.holds (hs : Inv maxPerSession s) : Bounded maxPerSession s := by
  intro hsettled h
  have hunlisted : ¬s.Unlisted h := by
    intro ⟨i, c, hi, _⟩
    obtain ⟨todo, heq⟩ := hsettled i _ hi
    cases heq
  refine le_trans (Set.encard_mono fun id hid => ?_) (hs.bounded h hunlisted)
  refine ⟨?_, Or.inl hid, ?_⟩
  · obtain ⟨c, hc, -⟩ := hid
    rw [hc]
    rfl
  · intro ⟨i, todo, hi, _⟩
    obtain ⟨todo, heq⟩ := hsettled i _ hi
    cases heq

theorem init_inv : Inv maxPerSession init where
  named := nofun
  minted := nofun
  removed _ h := h
  awaited := by
    intro h id ⟨i, old, todo, hi, _⟩
    cases hi
  noReturn _ h := h.elim
  apart := by
    intro h ⟨i, c, hi, _⟩
    cases hi
  bounded := by
    intro h _
    have hempty : init.counted h = ∅ := by
      ext id
      constructor
      · intro ⟨hlive, _⟩
        cases hlive
      · exact False.elim
    rw [hempty, Set.encard_empty]
    exact bot_le

end

/-- **No credential returns and no session exceeds its bound**, in any interleaving in which every `rekey_session` finds the
session's mints done and nothing removed under its hands. -/
theorem credentials_bounded {evs : List Ev}
    (h : Along (step K maxPerSession) (fun s e => Legal s e ∧ Steady s e) init evs) :
    (run (step K maxPerSession) init evs).NoReturn ∧ Bounded maxPerSession (run (step K maxPerSession) init evs) := by
  have hinv := Along.inv (I := Inv maxPerSession) (fun s e hs he => step_inv hs he.1 he.2) init_inv h
  exact ⟨hinv.noReturn, hinv.holds⟩

/-! ## Runs on fixed calls -/

def plainKeyring : SessionKeyring := ⟨fun _ _ secret _ => some secret, fun _ _ sealed => some sealed⟩

def sampleMint (id : String) (now : ℕ) : Ev := .mint 0 [0] "alice" 10 10 id [] [] now

def credential (id : String) (now : ℕ) : S3Credential := ⟨id, [0], "alice", [], now, 10⟩

/-- a credential is revoked while the token is refreshed -/
def revokedInRefresh : List Ev :=
  [sampleMint "A" 0, .list 0 [credential "A" 0], .step 0 [], .rekeySession 1 [0] [1] [credential "A" 0], .remove "A", .step 1 []]

theorem revokedInRefresh_run : (run (step plainKeyring 4) init revokedInRefresh).creds "A" = some ⟨"A", [1], "alice", [], 0, 10⟩ ∧
    "A" ∈ (run (step plainKeyring 4) init revokedInRefresh).removed := by
  simp [run, revokedInRefresh, step, sampleMint, init, plainKeyring, State.insert, State.remove, State.setCall, credential, trim, rebind]

theorem listed_one (c d : S3Credential) :
    d = c ↔ (d.accessKeyId = c.accessKeyId ∧ c = d) ∧ d.tokenHash = c.tokenHash := by
  constructor
  · rintro rfl
    exact ⟨⟨rfl, rfl⟩, rfl⟩
  · intro h
    exact h.1.2.symm

theorem removed_returns : Along (step plainKeyring 4) Legal init revokedInRefresh ∧
    ¬(run (step plainKeyring 4) init revokedInRefresh).NoReturn := by
  constructor
  · refine ⟨?_, ?_, trivial, ?_, trivial, trivial, trivial⟩
    · exact ⟨nofun, fun ⟨_, _, _, hi⟩ => nomatch hi⟩
    · simp [Legal, step, sampleMint, init, plainKeyring, State.insert, State.setCall, credential, Function.update_apply]
      exact listed_one (credential "A" 0)
    · simp [Legal, step, sampleMint, init, plainKeyring, State.insert, State.setCall, credential, trim, Function.update_apply,
        State.Rekeyed, State.Unlisted, State.ofSession]
      exact listed_one (credential "A" 0)
  · intro h
    obtain ⟨hlive, hgone⟩ := revokedInRefresh_run
    rw [h "A" hgone] at hlive
    cases hlive

/-- a token is refreshed while a credential is minted -/
def mintedInRefresh : List Ev :=
  [sampleMint "A" 0, .list 0 [credential "A" 0], .step 0 [], sampleMint "B" 1,
    .rekeySession 1 [0] [1] [credential "A" 0, credential "B" 1], .step 1 [], .step 1 [], .step 1 [], .list 0 [], .step 0 []]

theorem refresh_exceeds_bound : Along (step plainKeyring 1) Legal init mintedInRefresh ∧
    ¬Bounded 1 (run (step plainKeyring 1) init mintedInRefresh) := by
  constructor
  · refine ⟨?_, ?_, trivial, ?_, ?_, trivial, trivial, trivial, ?_, trivial, trivial⟩
    · exact ⟨nofun, fun ⟨_, _, _, hi⟩ => nomatch hi⟩
    · simp [Legal, step, sampleMint, init, plainKeyring, State.insert, State.setCall, credential, Function.update_apply]
      exact listed_one (credential "A" 0)
    · simp [Legal, step, sampleMint, init, plainKeyring, State.insert, State.setCall, credential, trim, State.Rekeyed]
    · simp [Legal, step, sampleMint, init, plainKeyring, State.insert, State.setCall, credential, trim, Function.update_apply,
        State.Rekeyed, State.Unlisted, State.ofSession]
      constructor
      · intro d
        constructor
        · rintro (rfl | rfl)
          · simp
          · simp
        · intro ⟨hd, _⟩
          split_ifs at hd
          · exact Or.inr (Option.some.inj hd).symm
          · exact Or.inl (Option.some.inj hd).symm
      · refine Set.eq_empty_iff_forall_notMem.2 fun id ⟨c, hc, hold⟩ => ?_
        split_ifs at hc
        · cases hc
          cases hold
        · cases hc
          cases hold
    · simp [Legal, step, sampleMint, init, plainKeyring, State.insert, State.setCall, credential, trim, rebind, Function.update_apply]
      intro d hd hold
      split_ifs at hd
      · cases hd
        cases hold
      · cases hd
        cases hold
  · intro h
    have hA : (run (step plainKeyring 1) init mintedInRefresh).creds "A" = some ⟨"A", [1], "alice", [], 0, 10⟩ := by
      simp [run, mintedInRefresh, step, sampleMint, init, plainKeyring, State.insert, State.setCall, credential, trim, rebind]
    have hB : (run (step plainKeyring 1) init mintedInRefresh).creds "B" = some ⟨"B", [1], "alice", [], 1, 10⟩ := by
      simp [run, mintedInRefresh, step, sampleMint, init, plainKeyring, State.insert, State.setCall, credential, trim, rebind]
    have hcalls : ∀ i, (run (step plainKeyring 1) init mintedInRefresh).calls i = none := by
      intro i
      simp [run, mintedInRefresh, step, sampleMint, init, plainKeyring, State.insert, State.setCall, credential, trim, rebind,
        Function.update_apply]
      exact fun h _ => h
    have htwo := h (fun i c hi => by rw [hcalls i] at hi; cases hi) [1]
    have hsub : ({"A", "B"} : Set String) ⊆ (run (step plainKeyring 1) init mintedInRefresh).ofSession [1] := by
      rintro id (rfl | rfl)
      · exact ⟨_, hA, rfl⟩
      · exact ⟨_, hB, rfl⟩
    have hle := (Set.encard_mono hsub).trans htwo
    rw [Set.encard_pair (by decide)] at hle
    exact absurd hle (by decide)

/-- **A refresh brings a revoked credential back, or goes past the bound.** -/
theorem refresh_breaks_both : (∃ evs, Along (step plainKeyring 4) Legal init evs ∧ ¬(run (step plainKeyring 4) init evs).NoReturn) ∧
    ∃ evs, Along (step plainKeyring 1) Legal init evs ∧ ¬Bounded 1 (run (step plainKeyring 1) init evs) :=
  ⟨⟨_, removed_returns⟩, ⟨_, refresh_exceeds_bound⟩⟩

/-- one after the other -/
def refreshedAfterMint : List Ev :=
  [sampleMint "A" 0, .list 0 [credential "A" 0], .step 0 [], .rekeySession 1 [0] [1] [credential "A" 0], .step 1 [], .step 1 []]

theorem credentials_bounded_one_by_one : (run (step plainKeyring 1) init refreshedAfterMint).NoReturn ∧
    Bounded 1 (run (step plainKeyring 1) init refreshedAfterMint) := by
  refine credentials_bounded ⟨⟨⟨nofun, fun ⟨_, _, _, hi⟩ => nomatch hi⟩, trivial⟩, ⟨?_, trivial⟩, ⟨trivial, ?_⟩, ⟨?_, ?_⟩, ⟨trivial, ?_⟩,
    ⟨trivial, ?_⟩, trivial⟩
  · simp [Legal, step, sampleMint, init, plainKeyring, State.insert, State.setCall, credential, Function.update_apply]
    exact listed_one (credential "A" 0)
  · simp [Steady, step, sampleMint, init, plainKeyring, State.insert, State.setCall, credential]
  · simp [Legal, step, sampleMint, init, plainKeyring, State.insert, State.setCall, credential, trim, Function.update_apply,
      State.Rekeyed, State.Unlisted, State.ofSession]
    exact listed_one (credential "A" 0)
  · simp [Steady, step, sampleMint, init, plainKeyring, State.insert, State.setCall, credential, trim, State.Unlisted]
  · simp [Steady, step, sampleMint, init, plainKeyring, State.insert, State.setCall, credential, trim]
    rintro _ _ _ _ - - rfl -
    simp
  · simp [Steady, step, sampleMint, init, plainKeyring, State.insert, State.setCall, credential, trim, rebind]

end Y2q.S3Credentials
