/-
Sharing a bucket with one's own personas, and the personas that are not named (`handlers/personas.rs`).

`share_or_revoke` seals the caller's row again as a whole: the caller's own slot with the BWK, the target's as asked, and every other slot
with a decoy. A row does not show which of its slots are real, so a third persona that had access through an earlier share loses it.

- `shareLoop_keys`: what the loop makes of each epoch. `Epoch.opens_put`: what a row sealed again opens.
- `NoThirdPersona`: in no epoch that is sealed again does a slot besides the caller's and the target's open the key.
- `share_touches_only_target_iff`: exactly then the call changes what the target's slot opens and nothing else.
- `second_share_drops_first`: shared with slot 1 and then with slot 2, a bucket is closed to slot 1.
-/
import Mathlib.Tactic
import Y2q.Daemon.Epochs

namespace Y2q.BucketKeys

variable {S : Sealing}

/-- `read_key` succeeds -/
def Opens (cfg : BucketConfig S) (bucket : String) (epoch : UInt32) (u : String) (slot : ℕ) (sk : Bytes) : Prop :=
  ∃ key, readKey cfg bucket epoch u slot sk = .ok key

/-- what `read_key` does is the same before and after, except in the target slot of the user -/
def TouchesOnlyTarget (bucket username : String) (target : ℕ) (cfg cfg' : BucketConfig S) : Prop :=
  ∀ kv ∈ cfg.keys, ∀ u slot sk, ¬(u = username ∧ slot = target) →
    (Opens cfg' bucket kv.epoch u slot sk ↔ Opens cfg bucket kv.epoch u slot sk)

/-- the epoch at the index is sealed again: the caller may read the bucket and opens the BWK -/
def Reseals (cfg : BucketConfig S) (bucket : String) (session : Session) (allowed : ℕ → Bool) (i : ℕ) (kv : BucketKeyVersion S) : Prop :=
  allowed i = true ∧ ∃ bwk, openVerifiedBwk cfg bucket kv.epoch session.username session.persona session.identitySk = .ok bwk

/-- in the epochs sealed again, only the caller's and the target's slot open the key -/
def NoThirdPersona (cfg : BucketConfig S) (bucket : String) (session : Session) (target : ℕ) (allowed : ℕ → Bool) : Prop :=
  ∀ i kv, cfg.keys[i]? = some kv → Reseals cfg bucket session allowed i kv →
    ∀ slot sk, slot ≠ session.persona → slot ≠ target → ¬Opens cfg bucket kv.epoch session.username slot sk

variable {users : Users} {bucket username u : String} {session : Session} {epoch : UInt32} {cfg cfg' : BucketConfig S}
  {kv kv' : BucketKeyVersion S} {book : EpochBook} {slot target : ℕ} {sk : Bytes} {authorizeTarget : Bool} {allowed : ℕ → Bool}

/-! ## One epoch -/

theorem openWith_congr (h : findEpoch cfg' epoch = findEpoch cfg epoch) :
    openWith cfg' bucket epoch u slot sk = openWith cfg bucket epoch u slot sk := by
  simp only [openWith, openBwk, h]

theorem opens_congr (h : findEpoch cfg' epoch = findEpoch cfg epoch) :
    Opens cfg' bucket epoch u slot sk ↔ Opens cfg bucket epoch u slot sk := by
  rw [Opens, Opens, readKey, readKey, openWith_congr h]

theorem openVerifiedBwk_congr (h : findEpoch cfg' epoch = findEpoch cfg epoch) :
    openVerifiedBwk cfg' bucket epoch u slot sk = openVerifiedBwk cfg bucket epoch u slot sk := by
  rw [openVerifiedBwk, openVerifiedBwk, openWith_congr h]

theorem Epoch.opens_iff (h : Epoch S users bucket book kv) (hfind : findEpoch cfg kv.epoch = some kv) :
    Opens cfg bucket kv.epoch u slot sk ↔ Matches S users u slot sk ∧ book.Real u slot :=
  map_ok_iff.trans (h.openWith_iff hfind)

theorem shareFlags_slot {persona : ℕ} : (shareFlags persona target authorizeTarget)[slot]? = some true ↔
    slot < CREDENTIAL_SLOTS ∧ if slot = target then authorizeTarget = true else slot = persona := by
  by_cases hslot : slot < CREDENTIAL_SLOTS
  · rw [shareFlags, List.getElem?_map, List.getElem?_range hslot, Option.map_some, Option.some_inj]
    split_ifs
    · exact ⟨fun h => ⟨hslot, h⟩, fun h => h.2⟩
    · rw [decide_eq_true_eq]
      exact ⟨fun h => ⟨hslot, h⟩, fun h => h.2⟩
  · rw [List.getElem?_eq_none (by simp [shareFlags]; omega)]
    exact iff_of_false nofun fun h => hslot h.1

/-- a row sealed again holds the BWK in the slots with access -/
theorem real_put {draws : ℕ → Draw} {flags : List Bool} (hdecoy : ∀ i, (draws i).decoy ≠ book.bwk) :
    (book.put u (payloads book.bwk draws flags)).Real u slot ↔ flags[slot]? = some true := by
  constructor
  · rintro ⟨held, hrow, hheld⟩
    rw [EpochBook.put_self, Option.some_inj] at hrow
    subst hrow
    exact payloads_bwk hdecoy hheld
  · intro hflag
    refine ⟨_, EpochBook.put_self, ?_⟩
    rw [payloads, List.getElem?_mapIdx, hflag]
    rfl

theorem real_put_of_ne {held : List Key32} (h : u ≠ username) : (book.put username held).Real u slot ↔ book.Real u slot := by
  rw [EpochBook.Real, EpochBook.put_of_ne h]
  exact Iff.rfl

/-- a real slot is one of the row's -/
theorem Epoch.real_lt (h : Epoch S users bucket book kv) (hreal : book.Real u slot) : slot < CREDENTIAL_SLOTS := by
  obtain ⟨held, hbook, hheld⟩ := hreal
  have hrow := h.rows u
  simp only [hbook] at hrow
  obtain ⟨r, row, -, -, hrow⟩ := hrow
  rw [← hrow.held_length]
  exact (List.getElem?_eq_some_iff.1 hheld).1

/-! ## The loop over the epochs -/

/-- what the loop makes of the key version at an index -/
def Shared (cfg : BucketConfig S) (r : UserRecord) (bucket : String) (session : Session) (target : ℕ) (authorizeTarget : Bool)
    (draws : ℕ → Draw) (kv kv' : BucketKeyVersion S) : Prop :=
  ∃ bwk, openVerifiedBwk cfg bucket kv.epoch session.username session.persona session.identitySk = .ok bwk ∧
    putGrantSlot kv bucket session.username ⟨r.slots, shareFlags session.persona target authorizeTarget⟩ bwk draws = .ok kv'

variable {r : UserRecord} {draws : ℕ → ℕ → Draw}

/-- a round that changes nothing: there is no such epoch, or it is not one to seal again -/
theorem shareEpoch_none {i : ℕ} {ds : ℕ → Draw} (h : shareEpoch r bucket session target authorizeTarget (allowed i) ds i cfg = .ok none)
    (hkv : cfg.keys[i]? = some kv) : ¬Reseals cfg bucket session allowed i kv := by
  rintro ⟨hallowed, bwk, hbwk⟩
  simp only [shareEpoch, hkv, hallowed, if_true, hbwk] at h
  obtain ⟨kv', -, h⟩ := bind_ok h
  cases h

theorem shareEpoch_allowed {i : ℕ} {ds : ℕ → Draw} {answer : Bool}
    (h : shareEpoch r bucket session target authorizeTarget answer ds i cfg = .ok (some cfg')) : answer = true := by
  rw [shareEpoch] at h
  split at h
  · cases h
  · split_ifs at h with hanswer
    · exact hanswer
    · cases h

/-- **What the loop makes of each epoch**, all told by the config it starts from. -/
theorem shareLoop_keys (is : List ℕ) {changed changed' : List ℕ} (his : is.Nodup) (hnodup : (epochs cfg.keys).Nodup)
    (h : shareLoop r bucket session target authorizeTarget allowed draws is cfg changed = .ok (cfg', changed')) {i : ℕ}
    (hkv : cfg.keys[i]? = some kv) :
    ∃ kv', cfg'.keys[i]? = some kv' ∧
      ((i ∈ is ∧ Reseals cfg bucket session allowed i kv ∧ Shared cfg r bucket session target authorizeTarget (draws i) kv kv') ∨
        ¬(i ∈ is ∧ Reseals cfg bucket session allowed i kv) ∧ kv' = kv) := by
  induction is generalizing cfg changed kv with
  | nil =>
    cases h
    exact ⟨kv, hkv, Or.inr ⟨fun hmem => List.not_mem_nil hmem.1, rfl⟩⟩
  | cons j rest ih =>
    obtain ⟨hj, hrest⟩ := List.nodup_cons.1 his
    obtain ⟨res, hres, h⟩ := bind_ok h
    cases res with
    | none =>
      obtain ⟨kv', hkv', hcase⟩ := ih hrest hnodup h hkv
      refine ⟨kv', hkv', ?_⟩
      rcases hcase with ⟨hmem, hshared⟩ | ⟨hnot, heq⟩
      · exact Or.inl ⟨List.mem_cons_of_mem j hmem, hshared⟩
      · refine Or.inr ⟨fun hmem => ?_, heq⟩
        rcases List.mem_cons.1 hmem.1 with rfl | hmem'
        · exact shareEpoch_none hres hkv hmem.2
        · exact hnot ⟨hmem', hmem.2⟩
    | some mid =>
      have hallowed := shareEpoch_allowed hres
      obtain ⟨kvj, bwk, kvj', hkvj, hbwk, hput, rfl⟩ := shareEpoch_ok hres
      have hsame := putGrantSlot_same hput
      have hepochs : epochs (cfg.keys.set j kvj') = epochs cfg.keys :=
        SameKeys.epochs (forall₂_set (fun _ => ⟨rfl, rfl, rfl⟩) hkvj hsame)
      have hnodup' : (epochs (cfg.keys.set j kvj')).Nodup := hepochs ▸ hnodup
      by_cases hij : i = j
      · -- this round's epoch: the later rounds leave it alone
        subst hij
        cases hkv.symm.trans hkvj
        have hset : (cfg.keys.set i kvj')[i]? = some kvj' :=
          List.getElem?_set_self (List.getElem?_eq_some_iff.1 hkv).1
        obtain ⟨kv', hkv', hcase⟩ := ih hrest hnodup' h hset
        rcases hcase with ⟨hmem, -⟩ | ⟨-, heq⟩
        · exact absurd hmem hj
        · subst heq
          exact ⟨kv', hkv', Or.inl ⟨List.mem_cons_self, ⟨hallowed, bwk, hbwk⟩, bwk, hbwk, hput⟩⟩
      · -- another epoch: this round does not change what opens it
        have hset : (cfg.keys.set j kvj')[i]? = some kv := by
          rw [List.getElem?_set_ne (Ne.symm hij)]
          exact hkv
        have hfind : findEpoch { cfg with keys := cfg.keys.set j kvj' } kv.epoch = findEpoch cfg kv.epoch := by
          rw [findEpoch_of_mem hnodup (List.mem_of_getElem? hkv)]
          exact findEpoch_of_mem hnodup' (List.mem_of_getElem? hset)
        obtain ⟨kv', hkv', hcase⟩ := ih hrest hnodup' h hset
        refine ⟨kv', hkv', ?_⟩
        rw [Reseals, Shared, openVerifiedBwk_congr hfind] at hcase
        rcases hcase with ⟨hmem, hshared⟩ | ⟨hnot, heq⟩
        · exact Or.inl ⟨List.mem_cons_of_mem j hmem, hshared⟩
        · refine Or.inr ⟨fun hmem => hnot ⟨?_, hmem.2⟩, heq⟩
          exact (List.mem_cons.1 hmem.1).resolve_left hij

theorem shareLoop_changed (is : List ℕ) {changed changed' : List ℕ}
    (h : shareLoop r bucket session target authorizeTarget allowed draws is cfg changed = .ok (cfg', changed')) :
    changed <+: changed' ∧ (changed' = changed → cfg' = cfg) := by
  induction is generalizing cfg changed with
  | nil =>
    cases h
    exact ⟨List.prefix_refl _, fun _ => rfl⟩
  | cons i rest ih =>
    obtain ⟨res, hres, h⟩ := bind_ok h
    cases res with
    | none => exact ih h
    | some mid =>
      obtain ⟨hpre, -⟩ := ih h
      refine ⟨(List.prefix_append changed [i]).trans hpre, fun heq => ?_⟩
      have hlen := hpre.length_le
      rw [heq, List.length_append, List.length_singleton] at hlen
      omega

/-- a request that succeeds, whether it has something to write or not -/
theorem shareOrRevoke_loop {res : Option (BucketConfig S × List ℕ)}
    (h : shareOrRevoke users bucket session target authorizeTarget allowed draws cfg = .ok res) :
    target < CREDENTIAL_SLOTS ∧ target ≠ session.persona ∧ ∃ r changed, users session.username = some r ∧
      shareLoop r bucket session target authorizeTarget allowed draws (List.range cfg.keys.length) cfg [] =
        .ok (res.elim cfg Prod.fst, changed) := by
  rw [shareOrRevoke] at h
  split_ifs at h with hslot hself
  refine ⟨not_le.1 hslot, hself, ?_⟩
  cases hr : users session.username with
  | none =>
    rw [hr] at h
    cases h
  | some r =>
    simp only [hr] at h
    obtain ⟨⟨cfg₁, changed⟩, hloop, h⟩ := bind_ok h
    refine ⟨r, changed, rfl, ?_⟩
    simp only at h
    split_ifs at h with hnone
    · cases h
      rw [hloop, Option.elim_none, (shareLoop_changed _ hloop).2 hnone]
    · cases h
      exact hloop

/-! ## One request -/

variable {real : Key32 → Prop} {b : Ledger} {res : Option (BucketConfig S × List ℕ)}

/-- an epoch sealed again: the caller's row is as asked, the others' are as before -/
structure Redone (users : Users) (bucket : String) (session : Session) (target : ℕ) (authorizeTarget : Bool) (cfg cfg' : BucketConfig S)
    (epoch : UInt32) : Prop where
  persona_lt : session.persona < CREDENTIAL_SLOTS
  before : ∀ sk, Opens cfg bucket epoch session.username session.persona sk ↔ Matches S users session.username session.persona sk
  after : ∀ slot sk, Opens cfg' bucket epoch session.username slot sk ↔ Matches S users session.username slot sk ∧
    slot < CREDENTIAL_SLOTS ∧ if slot = target then authorizeTarget = true else slot = session.persona
  others : ∀ u slot sk, u ≠ session.username → (Opens cfg' bucket epoch u slot sk ↔ Opens cfg bucket epoch u slot sk)

theorem Epoch.redone {ds : ℕ → Draw} (h : Epoch S users bucket book kv) (hr : users session.username = some r)
    (hfind : findEpoch cfg kv.epoch = some kv) (hfind' : findEpoch cfg' kv.epoch = some kv') (hdecoy : ∀ i, (ds i).decoy ≠ book.bwk)
    (hshared : Shared cfg r bucket session target authorizeTarget ds kv kv') :
    Redone users bucket session target authorizeTarget cfg cfg' kv.epoch := by
  obtain ⟨bwk, hbwk, hput⟩ := hshared
  obtain ⟨rfl, hreal⟩ := h.openVerifiedBwk_ok hfind hbwk
  have h' := putGrantSlot_epoch hr h hput
  have he : kv'.epoch = kv.epoch := (putGrantSlot_same hput).1
  rw [← he] at hfind'
  refine ⟨h.real_lt hreal, fun sk => ?_, fun slot sk => ?_, fun u slot sk hu => ?_⟩
  · rw [h.opens_iff hfind]
    exact and_iff_left hreal
  · rw [← he, h'.opens_iff hfind', real_put hdecoy, shareFlags_slot]
  · rw [h.opens_iff hfind, ← he, h'.opens_iff hfind', real_put_of_ne hu]

/-- **A request, epoch by epoch**: sealed again, or left alone. -/
theorem share_epoch (hgood : Good users bucket real b cfg.keys) (hdecoy : ∀ n i, ¬real (draws n i).decoy)
    (h : shareOrRevoke users bucket session target authorizeTarget allowed draws cfg = .ok res) {i : ℕ} (hkv : cfg.keys[i]? = some kv) :
    (Reseals cfg bucket session allowed i kv ∧
        Redone users bucket session target authorizeTarget cfg (res.elim cfg Prod.fst) kv.epoch) ∨
      ¬Reseals cfg bucket session allowed i kv ∧
        ∀ u slot sk, Opens (res.elim cfg Prod.fst) bucket kv.epoch u slot sk ↔ Opens cfg bucket kv.epoch u slot sk := by
  obtain ⟨-, -, r, changed, hr, hloop⟩ := shareOrRevoke_loop h
  have hmem := List.mem_of_getElem? hkv
  have hrange : i ∈ List.range cfg.keys.length := List.mem_range.2 (List.getElem?_eq_some_iff.1 hkv).1
  have hepochs : epochs (res.elim cfg Prod.fst).keys = epochs cfg.keys := (shareLoop_same _ hloop).1.epochs
  have hfind := findEpoch_of_mem hgood.nodup hmem
  obtain ⟨kv', hkv', hcase⟩ := shareLoop_keys _ List.nodup_range hgood.nodup hloop hkv
  have hfind' : findEpoch (res.elim cfg Prod.fst) kv'.epoch = some kv' :=
    findEpoch_of_mem (hepochs ▸ hgood.nodup) (List.mem_of_getElem? hkv')
  rcases hcase with ⟨-, hreseals, hshared⟩ | ⟨hnot, heq⟩
  · obtain ⟨book, -, hreal, hepoch⟩ := hgood.epoch kv hmem
    obtain ⟨bwk, -, hput⟩ := id hshared
    rw [(putGrantSlot_same hput).1] at hfind'
    exact Or.inl ⟨hreseals, hepoch.redone hr hfind hfind' (fun n heq => hdecoy i n (heq ▸ hreal)) hshared⟩
  · rw [heq] at hfind'
    refine Or.inr ⟨fun hreseals => hnot ⟨hrange, hreseals⟩, fun u slot sk => opens_congr ?_⟩
    rw [hfind, hfind']

/-- **What a share or a revoke leaves alone.** In a config whose epochs are as the ledger says, and with decoys that are no BWK, a call
that succeeds changes what `read_key` does in the target slot of the caller's user only, if and only if no third slot of the user opens
an epoch that the call seals again. -/
theorem share_touches_only_target_iff (hgood : Good users bucket real b cfg.keys) (hdecoy : ∀ n i, ¬real (draws n i).decoy)
    (h : shareOrRevoke users bucket session target authorizeTarget allowed draws cfg = .ok res) :
    TouchesOnlyTarget bucket session.username target cfg (res.elim cfg Prod.fst) ↔ NoThirdPersona cfg bucket session target allowed := by
  constructor
  · intro htouches i kv hkv hreseals slot sk hpersona htarget hopens
    rcases share_epoch hgood hdecoy h hkv with ⟨-, hredone⟩ | ⟨hnot, -⟩
    · have hafter := (htouches kv (List.mem_of_getElem? hkv) _ slot sk fun heq => htarget heq.2).2 hopens
      obtain ⟨-, -, hflag⟩ := (hredone.after slot sk).1 hafter
      rw [if_neg htarget] at hflag
      exact hpersona hflag
    · exact hnot hreseals
  · intro hthird kv hmem u slot sk hne
    obtain ⟨i, hkv⟩ := List.getElem?_of_mem hmem
    rcases share_epoch hgood hdecoy h hkv with ⟨hreseals, hredone⟩ | ⟨-, hsame⟩
    · by_cases hu : u = session.username
      · subst hu
        have htarget : slot ≠ target := fun heq => hne ⟨rfl, heq⟩
        rw [hredone.after, if_neg htarget]
        by_cases hpersona : slot = session.persona
        · -- the caller's own slot: real before, real after
          subst hpersona
          rw [hredone.before]
          exact and_iff_left ⟨hredone.persona_lt, rfl⟩
        · exact iff_of_false (fun hafter => hpersona hafter.2.2) (hthird i kv hkv hreseals slot sk hpersona htarget)
      · exact hredone.others u slot sk hu
    · exact hsame u slot sk

/-! ## Three personas of one user -/

/-- the book of `soloKey`: only slot 0 is real -/
def soloBook : EpochBook := EpochBook.put ⟨soloFresh.bwk, fun _ => none⟩ "alice" (payloads soloFresh.bwk (soloDraws 0) (onlySlot 0))

theorem solo_epoch (e : UInt32) : Epoch symbolic solo "b" soloBook (soloKey e) := by
  have hknown : Known solo [("alice", soloSlots)] := by
    intro g hg
    rw [List.mem_singleton.1 hg]
    exact ⟨_, if_pos rfl, rfl⟩
  exact newBucketKeyVersion_epoch hknown (solo_newKey e)

theorem shareEpoch_opened {r : UserRecord} {bucket : String} {session : Session} {authorizeTarget : Bool} {draws : ℕ → Draw} {i : ℕ}
    {cfg : BucketConfig symbolic} {kv : BucketKeyVersion symbolic} {bwk : Key32} (hkv : cfg.keys[i]? = some kv)
    (hopen : openVerifiedBwk cfg bucket kv.epoch session.username session.persona session.identitySk = .ok bwk) :
    shareEpoch r bucket session target authorizeTarget true draws i cfg =
      (putGrantSlot kv bucket session.username ⟨r.slots, shareFlags session.persona target authorizeTarget⟩ bwk draws).bind fun kv =>
        pure (some { cfg with keys := cfg.keys.set i kv }) := by
  simp only [shareEpoch, hkv, hopen, if_true]
  rfl

/-- the user's slot 0 shares the bucket with another slot -/
theorem solo_share {kv : BucketKeyVersion symbolic} (hkv : Epoch symbolic solo "b" book kv) (hreal : book.Real "alice" 0)
    (htarget : target < 4) (hne : target ≠ 0) :
    ∃ kv', shareOrRevoke solo "b" soloSession target true (fun _ => true) soloDraws (soloConfig [kv]) = .ok (some (soloConfig [kv'], [0])) ∧
      kv'.epoch = kv.epoch ∧
      Epoch symbolic solo "b" (book.put "alice" (payloads book.bwk (soloDraws 0) (shareFlags 0 target true))) kv' := by
  have hfind : findEpoch (soloConfig [kv]) kv.epoch = some kv := findEpoch_of_mem (List.nodup_singleton _) List.mem_cons_self
  have hmatches : Matches symbolic solo "alice" 0 [0] := ⟨_, Base64.encode [0], if_pos rfl, rfl, Base64.decode_encode [0]⟩
  obtain ⟨x, hx⟩ := (hkv.openWith_iff hfind).2 ⟨hmatches, hreal⟩
  have hbwk : openVerifiedBwk (soloConfig [kv]) "b" kv.epoch "alice" 0 [0] = .ok book.bwk := by
    rw [openVerifiedBwk, hx, ← hkv.openWith_bwk hfind hx]
    rfl
  have hput : ∃ kv', putGrantSlot kv "b" "alice" ⟨soloSlots.identityPksB64, shareFlags 0 target true⟩ book.bwk (soloDraws 0) = .ok kv' := by
    simp [putGrantSlot, sealGrantSlots, sealFrom, sealSlot, symbolic, soloSlots, shareFlags, CREDENTIAL_SLOTS, List.range_succ, bind,
      Except.bind, pure, Except.pure]
  obtain ⟨kv', hput⟩ := hput
  refine ⟨kv', ?_, (putGrantSlot_same hput).1, putGrantSlot_epoch (if_pos rfl) hkv hput⟩
  have hround : shareEpoch ⟨soloSlots.identityPksB64, 0⟩ "b" soloSession target true true (soloDraws 0) 0 (soloConfig [kv]) =
      .ok (some (soloConfig [kv'])) := by
    rw [shareEpoch_opened rfl hbwk]
    change (putGrantSlot kv "b" "alice" ⟨soloSlots.identityPksB64, shareFlags 0 target true⟩ book.bwk (soloDraws 0)).bind _ = _
    rw [hput]
    rfl
  rw [shareOrRevoke, if_neg (show ¬target ≥ CREDENTIAL_SLOTS from not_le.2 htarget), if_neg (show ¬target = soloSession.persona from hne)]
  change (shareLoop ⟨soloSlots.identityPksB64, 0⟩ "b" soloSession target true (fun _ => true) soloDraws [0] (soloConfig [kv]) []).bind _ = _
  rw [shareLoop, hround]
  rfl

/-- what the user's slots open, by the book -/
theorem solo_opens {kv : BucketKeyVersion symbolic} (hkv : Epoch symbolic solo "b" book kv) {pkB64 : String}
    (hslot : soloSlots.identityPksB64[slot]? = some pkB64) (hpk : Base64.decode pkB64 = some sk) :
    Opens (soloConfig [kv]) "b" kv.epoch "alice" slot sk ↔ book.Real "alice" slot := by
  have hfind : findEpoch (soloConfig [kv]) kv.epoch = some kv := findEpoch_of_mem (List.nodup_singleton _) List.mem_cons_self
  rw [hkv.opens_iff hfind]
  exact and_iff_right ⟨_, pkB64, if_pos rfl, hslot, hpk⟩

/-- the first share of a bucket: no other slot opens it yet, and only the target's changes -/
theorem first_share_touches_only_target : ∃ cfg₁ : BucketConfig symbolic,
    shareOrRevoke solo "b" soloSession 1 true (fun _ => true) soloDraws (soloConfig [soloKey 0]) = .ok (some (cfg₁, [0])) ∧
    TouchesOnlyTarget "b" "alice" 1 (soloConfig [soloKey 0]) cfg₁ := by
  have hgood : Good solo "b" (· = soloFresh.bwk) (Function.update (fun _ => none) 0 (some soloBook)) (soloConfig [soloKey 0]).keys := by
    refine ⟨fun kv hkv => ?_, Consecutive.single 0, by decide⟩
    rw [List.mem_singleton.1 hkv]
    exact ⟨soloBook, Function.update_self .., rfl, solo_epoch 0⟩
  obtain ⟨kv₁, hshare, -, -⟩ := solo_share (solo_epoch 0) ⟨_, EpochBook.put_self, rfl⟩ (by decide : 1 < 4) one_ne_zero
  refine ⟨_, hshare, (share_touches_only_target_iff hgood solo_decoy hshare).2 ?_⟩
  intro i kv hkv hreseals slot sk hpersona htarget hopens
  have hfind := hgood.find (List.mem_of_getElem? hkv)
  cases List.mem_singleton.1 (List.mem_of_getElem? hkv)
  have hreal := (((solo_epoch 0).opens_iff hfind).1 hopens).2
  have hflag := (real_put (solo_decoy 0)).1 hreal
  match slot with
  | 0 => exact hpersona rfl
  | 1 => exact htarget rfl
  | 2 | 3 => cases hflag
  | n + 4 => cases hflag

/-- slot 0 shares with slot 1, and slot 1 opens the bucket; then slot 0 shares with slot 2, and slot 1 does not open it any more -/
theorem second_share_drops_first : ∃ cfg₁ cfg₂ : BucketConfig symbolic,
    shareOrRevoke solo "b" soloSession 1 true (fun _ => true) soloDraws (soloConfig [soloKey 0]) = .ok (some (cfg₁, [0])) ∧
    shareOrRevoke solo "b" soloSession 2 true (fun _ => true) soloDraws cfg₁ = .ok (some (cfg₂, [0])) ∧
    Opens cfg₁ "b" 0 "alice" 1 [1] ∧ ¬Opens cfg₂ "b" 0 "alice" 1 [1] ∧ ¬TouchesOnlyTarget "b" "alice" 2 cfg₁ cfg₂ := by
  have hdecoy : ∀ i, (soloDraws 0 i).decoy ≠ soloBook.bwk := solo_decoy 0
  obtain ⟨kv₁, hshare₁, he₁, hkv₁⟩ := solo_share (solo_epoch 0) ⟨_, EpochBook.put_self, rfl⟩ (by decide : 1 < 4) one_ne_zero
  have hdecoy₁ : ∀ i, (soloDraws 0 i).decoy ≠
      (soloBook.put "alice" (payloads soloBook.bwk (soloDraws 0) (shareFlags 0 1 true))).bwk := hdecoy
  obtain ⟨kv₂, hshare₂, he₂, hkv₂⟩ := solo_share hkv₁ ((real_put hdecoy).2 rfl) (by decide : 2 < 4) two_ne_zero
  have hbefore : Opens (soloConfig [kv₁]) "b" 0 "alice" 1 [1] := by
    rw [← show kv₁.epoch = 0 from he₁, solo_opens hkv₁ rfl (Base64.decode_encode [1])]
    exact (real_put hdecoy).2 rfl
  have hafter : ¬Opens (soloConfig [kv₂]) "b" 0 "alice" 1 [1] := by
    rw [← show kv₂.epoch = 0 from he₂.trans he₁, solo_opens hkv₂ rfl (Base64.decode_encode [1])]
    intro hreal
    cases (real_put hdecoy₁).1 hreal
  refine ⟨_, _, hshare₁, hshare₂, hbefore, hafter, fun htouches => ?_⟩
  have hmem : kv₁ ∈ (soloConfig [kv₁]).keys := List.mem_singleton_self kv₁
  have hiff := htouches kv₁ hmem "alice" 1 [1] fun heq => absurd heq.2 (by decide)
  rw [he₁] at hiff
  exact hafter (hiff.2 hbefore)

end Y2q.BucketKeys
