/-
Who can open a bucket's keys, after any sequence of requests.

The requests are `claim_ownership`, `set_acl`, `rotate_key`, a completed rekey and the sharing of a grant between personas, one after
the other; a failed request leaves the config as it was. The user records do not change. What was sealed is kept as a history beside
the state, and a `ledger` reads off it, for every epoch, the BWK and the payloads last sealed for every user.

- `Op.Fair`: no decoy is a real BWK.
- `Good`: every retained epoch is as the ledger says; the epochs are consecutive, so `find_epoch` finds the right one.
- `Inv`, `step_inv`, `run_inv`; `grants_sound`: a slot opens an epoch exactly when it was last sealed with the epoch's BWK, and on the
  newest epoch it then belongs to the owner, to a user who may read by the ACL, or to the user who rotated last.
-/
import Mathlib.Tactic
import Y2q.Daemon.BucketHandlers

namespace Y2q.BucketKeys

variable {S : Sealing}

/-! ## History -/

inductive Event where
  /-- a new key version, wrapped under `bwk` -/
  | created (epoch : UInt32) (bwk : Key32)
  /-- a user's row, with what its slots hold -/
  | sealed (epoch : UInt32) (user : String) (held : List Key32)

abbrev Ledger := UInt32 → Option EpochBook

def Ledger.note (b : Ledger) : Event → Ledger
  | .created e bwk => Function.update b e (some ⟨bwk, fun _ => none⟩)
  | .sealed e u held => Function.update b e ((b e).map fun x => x.put u held)

def ledger (history : List Event) : Ledger := history.foldl Ledger.note fun _ => none

/-- the user's row of the epoch was last sealed with the epoch's BWK in this slot -/
def LastSealedReal (history : List Event) (epoch : UInt32) (u : String) (slot : ℕ) : Prop :=
  ∃ book, ledger history epoch = some book ∧ book.Real u slot

/-- the rows that `new_bucket_key_version` seals -/
def sealRows (bwk : Key32) (draws : ℕ → ℕ → Draw) : ℕ → List (String × GranteeSlots) → List (String × List Key32)
  | _, [] => []
  | n, (u, slots) :: rest => (u, payloads bwk (draws n) slots.authorized) :: sealRows bwk draws (n + 1) rest

/-- the rows that `set_acl` seals again -/
def resealRows (users : Users) (bwk : Key32) (draws : ℕ → ℕ → Draw) : ℕ → List (String × Bool) → List (String × List Key32)
  | _, [] => []
  | n, (u, authorized) :: rest =>
    match users u with
    | none => resealRows users bwk draws (n + 1) rest
    | some r => (u, payloads bwk (draws n) (resealFlags r authorized)) :: resealRows users bwk draws (n + 1) rest

def rowEvents (epoch : UInt32) (rows : List (String × List Key32)) : List Event := rows.map fun row => .sealed epoch row.1 row.2

def newEpochEvents (epoch : UInt32) (fresh : Fresh) (grantees : List (String × GranteeSlots)) (draws : ℕ → ℕ → Draw) : List Event :=
  .created epoch fresh.bwk :: rowEvents epoch (sealRows fresh.bwk draws 0 grantees)

/-! ## Requests -/

structure State (S : Sealing) where
  /-- the bucket's directory exists -/
  created : Bool
  cfg : BucketConfig S
  history : List Event
  /-- the caller of the last successful `rotate_key` -/
  lastRotator : Option String

def State.init : State S := ⟨false, .default S, [], none⟩

inductive Op where
  | claim (session : Session) (fresh : Fresh) (draws : ℕ → ℕ → Draw)
  | setAcl (session : Session) (body : AclBody) (draws : ℕ → ℕ → Draw)
  | rotate (session : Session) (fresh : Fresh) (draws : ℕ → ℕ → Draw)
  | rekey (session : Session)
  | share (session : Session) (target : ℕ) (authorizeTarget : Bool) (allowed : ℕ → Bool) (draws : ℕ → ℕ → Draw)

section Machine

variable (isWhitespace : Char → Bool) (users : Users) (bucket : String)

def claimEvents (session : Session) (fresh : Fresh) (draws : ℕ → ℕ → Draw) : List Event :=
  match users session.username with
  | none => []
  | some r => newEpochEvents 0 fresh [(session.username, ⟨r.slots, onlySlot session.persona⟩)] draws

/-- of a `set_acl` that turns `cfg` into `cfg'` -/
def aclEvents (session : Session) (draws : ℕ → ℕ → Draw) (cfg cfg' : BucketConfig S) : List Event :=
  match currentKey cfg with
  | none => []
  | some kv =>
    match openVerifiedBwk cfg bucket kv.epoch session.username session.persona session.identitySk with
    | .error _ => []
    | .ok bwk =>
      rowEvents kv.epoch (resealRows users bwk draws 0
        (aclReseals cfg.owner cfg'.owner (readImplyingGrantees cfg.acl) (readImplyingGrantees cfg'.acl)))

def rotateEvents (session : Session) (fresh : Fresh) (draws : ℕ → ℕ → Draw) (cfg : BucketConfig S) : List Event :=
  match currentKey cfg with
  | none => []
  | some newest => newEpochEvents (newest.epoch + 1) fresh (currentGrantees users cfg session.username session.persona) draws

/-- of one round of the loop of `share_or_revoke`, if it changes the epoch -/
def shareEvent (session : Session) (target : ℕ) (authorizeTarget : Bool) (draws : ℕ → Draw) (i : ℕ) (cfg : BucketConfig S) :
    List Event :=
  match cfg.keys[i]? with
  | none => []
  | some kv =>
    match openVerifiedBwk cfg bucket kv.epoch session.username session.persona session.identitySk with
    | .error _ => []
    | .ok bwk => rowEvents kv.epoch [(session.username, payloads bwk draws (shareFlags session.persona target authorizeTarget))]

def shareEvents (r : UserRecord) (session : Session) (target : ℕ) (authorizeTarget : Bool) (allowed : ℕ → Bool)
    (draws : ℕ → ℕ → Draw) : List ℕ → BucketConfig S → List Event
  | [], _ => []
  | i :: rest, cfg =>
    match shareEpoch r bucket session target authorizeTarget (allowed i) (draws i) i cfg with
    | .ok (some cfg') =>
      shareEvent bucket session target authorizeTarget (draws i) i cfg ++
        shareEvents r session target authorizeTarget allowed draws rest cfg'
    | _ => shareEvents r session target authorizeTarget allowed draws rest cfg

/-- a request on a bucket that exists -/
def stepExisting (st : State S) : Op → State S
  | .claim .. => st
  | .setAcl session body draws =>
    match BucketKeys.setAcl isWhitespace users bucket session body draws st.cfg with
    | .error _ => st
    | .ok cfg => { st with cfg := cfg, history := st.history ++ aclEvents users bucket session draws st.cfg cfg }
  | .rotate session fresh draws =>
    match rotateKey users bucket session fresh draws st.cfg with
    | .error _ => st
    | .ok cfg =>
      { st with
        cfg := cfg
        history := st.history ++ rotateEvents users session fresh draws st.cfg
        lastRotator := some session.username }
  | .rekey session =>
    match startRekey bucket session st.cfg, currentKey st.cfg with
    | .ok _, some newest => { st with cfg := pruneTo newest.epoch st.cfg }
    | _, _ => st
  | .share session target authorizeTarget allowed draws =>
    match shareOrRevoke users bucket session target authorizeTarget allowed draws st.cfg, users session.username with
    | .ok (some (cfg, _)), some r =>
      { st with
        cfg := cfg
        history := st.history ++
          shareEvents bucket r session target authorizeTarget allowed draws (List.range st.cfg.keys.length) st.cfg }
    | _, _ => st

def step (st : State S) (op : Op) : State S :=
  if st.created then stepExisting isWhitespace users bucket st op
  else
    match op with
    | .claim session fresh draws =>
      -- `create_bucket` comes first: the directory stays when the rest fails
      match claimOwnership true users bucket session fresh draws st.cfg with
      | .ok (some cfg) => { st with created := true, cfg := cfg, history := st.history ++ claimEvents users session fresh draws }
      | _ => { st with created := true }
    | _ => st

def run (st : State S) (ops : List Op) : State S := ops.foldl (step isWhitespace users bucket) st

end Machine

/-- no decoy of the request is a real BWK, and its own BWK is one -/
def Op.Fair (real : Key32 → Prop) : Op → Prop
  | .claim _ fresh draws | .rotate _ fresh draws => real fresh.bwk ∧ ∀ n i, ¬real (draws n i).decoy
  | .setAcl _ _ draws | .share _ _ _ _ draws => ∀ n i, ¬real (draws n i).decoy
  | .rekey _ => True

/-! ## The ledger -/

def EpochBook.putAll (book : EpochBook) (rows : List (String × List Key32)) : EpochBook := rows.foldl (fun x row => x.put row.1 row.2) book

@[simp] theorem EpochBook.putAll_bwk (book : EpochBook) (rows : List (String × List Key32)) : (book.putAll rows).bwk = book.bwk := by
  induction rows generalizing book with
  | nil => rfl
  | cons row rows ih => exact ih (book.put row.1 row.2)

theorem ledger_append (history events : List Event) : ledger (history ++ events) = events.foldl Ledger.note (ledger history) :=
  List.foldl_append

theorem note_rowEvents (b : Ledger) (epoch : UInt32) (rows : List (String × List Key32)) :
    (rowEvents epoch rows).foldl Ledger.note b = Function.update b epoch ((b epoch).map fun x => x.putAll rows) := by
  induction rows generalizing b with
  | nil =>
    rw [rowEvents, List.map_nil, List.foldl_nil, eq_comm, Function.update_eq_self_iff]
    exact Option.map_id'
  | cons row rows ih =>
    change (rowEvents epoch rows).foldl Ledger.note (b.note (.sealed epoch row.1 row.2)) = _
    rw [ih]
    simp only [Ledger.note, Function.update_self, Function.update_idem, Option.map_map]
    rfl

theorem note_newEpochEvents (b : Ledger) (epoch : UInt32) (fresh : Fresh) (grantees : List (String × GranteeSlots))
    (draws : ℕ → ℕ → Draw) : (newEpochEvents epoch fresh grantees draws).foldl Ledger.note b =
      Function.update b epoch (some (EpochBook.putAll ⟨fresh.bwk, fun _ => none⟩ (sealRows fresh.bwk draws 0 grantees))) := by
  change (rowEvents epoch _).foldl Ledger.note (b.note (.created epoch fresh.bwk)) = _
  rw [note_rowEvents]
  simp only [Ledger.note, Function.update_self, Function.update_idem, Option.map_some]

/-- a slot holds the BWK because it was sealed so now, or because it did before and the row was left alone -/
theorem EpochBook.real_putAll {book : EpochBook} {rows : List (String × List Key32)} {u : String} {slot : ℕ}
    (h : (book.putAll rows).Real u slot) :
    (∃ held, (u, held) ∈ rows ∧ held[slot]? = some book.bwk) ∨ (∀ held, (u, held) ∉ rows) ∧ book.Real u slot := by
  induction rows generalizing book with
  | nil => exact Or.inr ⟨fun _ => List.not_mem_nil, h⟩
  | cons row rows ih =>
    rcases ih h with ⟨held, hmem, hheld⟩ | ⟨hnot, held, hrow, hheld⟩
    · exact Or.inl ⟨held, List.mem_cons_of_mem row hmem, hheld⟩
    · by_cases hu : u = row.1
      · rw [hu, EpochBook.put_self, Option.some_inj] at hrow
        refine Or.inl ⟨held, ?_, hheld⟩
        rw [hu, ← hrow]
        exact List.mem_cons_self
      · rw [EpochBook.put_of_ne hu] at hrow
        refine Or.inr ⟨fun held' hmem => ?_, held, hrow, hheld⟩
        rcases List.mem_cons.1 hmem with heq | hmem
        · exact hu (congrArg Prod.fst heq)
        · exact hnot held' hmem

theorem payloads_bwk {bwk : Key32} {draws : ℕ → Draw} {flags : List Bool} {slot : ℕ} (hdecoy : ∀ i, (draws i).decoy ≠ bwk)
    (h : (payloads bwk draws flags)[slot]? = some bwk) : flags[slot]? = some true := by
  rw [payloads, List.getElem?_mapIdx, Option.map_eq_some_iff] at h
  obtain ⟨authorized, hflag, hpayload⟩ := h
  cases authorized with
  | true => exact hflag
  | false => exact absurd hpayload (hdecoy slot)

variable {users : Users} {bucket : String} {session : Session} {real : Key32 → Prop}

theorem mem_sealRows {bwk : Key32} {draws : ℕ → ℕ → Draw} {n : ℕ} {grantees : List (String × GranteeSlots)} {u : String}
    {held : List Key32} (h : (u, held) ∈ sealRows bwk draws n grantees) : ∃ slots, (u, slots) ∈ grantees := by
  induction grantees generalizing n with
  | nil => cases h
  | cons g rest ih =>
    rcases List.mem_cons.1 h with heq | hmem
    · cases heq
      exact ⟨g.2, List.mem_cons_self⟩
    · obtain ⟨slots, hslots⟩ := ih hmem
      exact ⟨slots, List.mem_cons_of_mem g hslots⟩

/-- a row sealed again with the BWK in it is one of a user who is to have access -/
theorem resealRows_bwk {bwk : Key32} {draws : ℕ → ℕ → Draw} {n : ℕ} {reseals : List (String × Bool)} {u : String} {held : List Key32}
    {slot : ℕ} (hdecoy : ∀ n i, (draws n i).decoy ≠ bwk) (h : (u, held) ∈ resealRows users bwk draws n reseals)
    (hheld : held[slot]? = some bwk) : (u, true) ∈ reseals := by
  induction reseals generalizing n with
  | nil => cases h
  | cons e rest ih =>
    rw [resealRows] at h
    split at h
    · exact List.mem_cons_of_mem e (ih h)
    · rename_i r hr
      rcases List.mem_cons.1 h with heq | hmem
      · rw [Prod.mk.injEq] at heq
        obtain ⟨rfl, rfl⟩ := heq
        have hflag := payloads_bwk (hdecoy n) hheld
        obtain ⟨user, authorized⟩ := e
        cases authorized with
        | true => exact List.mem_cons_self
        | false =>
          have hfalse := List.eq_of_mem_replicate (List.mem_of_getElem? hflag)
          cases hfalse
      · exact List.mem_cons_of_mem e (ih hmem)

theorem mem_resealRows {bwk : Key32} {draws : ℕ → ℕ → Draw} {n : ℕ} {reseals : List (String × Bool)} {u : String} {r : UserRecord}
    {authorized : Bool} (hr : users u = some r) (h : (u, authorized) ∈ reseals) :
    ∃ held, (u, held) ∈ resealRows users bwk draws n reseals := by
  induction reseals generalizing n with
  | nil => cases h
  | cons e rest ih =>
    rw [resealRows]
    rcases List.mem_cons.1 h with heq | hmem
    · subst heq
      simp only [hr]
      exact ⟨_, List.mem_cons_self⟩
    · obtain ⟨held, hheld⟩ := @ih (n + 1) hmem
      split
      · exact ⟨held, hheld⟩
      · exact ⟨held, List.mem_cons_of_mem _ hheld⟩

/-! ## Epochs made and sealed again -/

variable {kv kv' : BucketKeyVersion S} {cfg cfg' : BucketConfig S} {keys : List (BucketKeyVersion S)} {book : EpochBook}

/-- the grantees are users with their own identity keys -/
def Known (users : Users) (grantees : List (String × GranteeSlots)) : Prop :=
  ∀ g ∈ grantees, ∃ r, users g.1 = some r ∧ g.2.identityPksB64 = r.slots

theorem sealAll_rows {epoch : UInt32} {draws : ℕ → ℕ → Draw} {n : ℕ} {grantees : List (String × GranteeSlots)}
    {grants grants' : Table String (List S.SealedKey)} (hknown : Known users grantees) (hrows : Rows S users bucket epoch book.rows grants)
    (h : sealAll bucket epoch book.bwk draws n grantees grants = .ok grants') :
    Rows S users bucket epoch (book.putAll (sealRows book.bwk draws n grantees)).rows grants' := by
  induction grantees generalizing n grants book with
  | nil =>
    cases h
    exact hrows
  | cons g rest ih =>
    obtain ⟨u, slots⟩ := g
    obtain ⟨row, hrow, h⟩ := bind_ok h
    obtain ⟨r, hr, hslots⟩ := hknown (u, slots) List.mem_cons_self
    have hspec := sealGrantSlots_spec hrow
    rw [hslots] at hspec
    exact @ih (book.put u (payloads book.bwk (draws n) slots.authorized)) (n + 1) _ (fun g hg => hknown g (List.mem_cons_of_mem _ hg))
      (hrows.insert hr hspec) h

theorem newBucketKeyVersion_epoch {epoch : UInt32} {grantees : List (String × GranteeSlots)} {fresh : Fresh} {draws : ℕ → ℕ → Draw}
    (hknown : Known users grantees) (h : newBucketKeyVersion epoch bucket grantees fresh draws = .ok kv) :
    Epoch S users bucket (EpochBook.putAll ⟨fresh.bwk, fun _ => none⟩ (sealRows fresh.bwk draws 0 grantees)) kv := by
  obtain ⟨hgrants, rfl, -, hblob⟩ := newBucketKeyVersion_ok h
  refine ⟨⟨fresh.secretKey, fresh.seed, ?_⟩, ?_⟩
  · rw [EpochBook.putAll_bwk, hblob]
  · exact @sealAll_rows S users bucket ⟨fresh.bwk, fun _ => none⟩ kv.epoch draws 0 grantees ∅ kv.grants hknown Rows.empty hgrants

theorem putGrantSlot_epoch {username : String} {r : UserRecord} {flags : List Bool} {draws : ℕ → Draw} (hr : users username = some r)
    (hkv : Epoch S users bucket book kv) (h : putGrantSlot kv bucket username ⟨r.slots, flags⟩ book.bwk draws = .ok kv') :
    Epoch S users bucket (book.put username (payloads book.bwk draws flags)) kv' := by
  obtain ⟨row, hrow, rfl⟩ := putGrantSlot_ok h
  exact ⟨hkv.blob, hkv.rows.insert hr (sealGrantSlots_spec hrow)⟩

theorem resealAll_epoch {draws : ℕ → ℕ → Draw} {n : ℕ} {reseals : List (String × Bool)} (hkv : Epoch S users bucket book kv)
    (h : resealAll users bucket book.bwk draws n reseals kv = .ok kv') :
    Epoch S users bucket (book.putAll (resealRows users book.bwk draws n reseals)) kv' := by
  induction reseals generalizing n kv book with
  | nil =>
    cases h
    exact hkv
  | cons e rest ih =>
    obtain ⟨u, authorized⟩ := e
    obtain ⟨mid, hmid, h⟩ := bind_ok h
    rw [resealRows]
    cases hr : users u with
    | none =>
      simp only [resealGrantee, hr] at hmid
      cases hmid
      exact ih hkv h
    | some r =>
      simp only [resealGrantee, hr] at hmid
      exact @ih _ (book.put u (payloads book.bwk (draws n) (resealFlags r authorized))) (n + 1) (putGrantSlot_epoch hr hkv hmid) h

/-! ## All retained epochs -/

/-- every retained epoch is as the ledger says -/
structure Good (users : Users) (bucket : String) (real : Key32 → Prop) (b : Ledger) (keys : List (BucketKeyVersion S)) : Prop where
  epoch : ∀ kv ∈ keys, ∃ book, b kv.epoch = some book ∧ real book.bwk ∧ Epoch S users bucket book kv
  consecutive : Consecutive (epochs keys)
  length : keys.length ≤ MAX_RETAINED_EPOCHS

variable {b : Ledger}

theorem Good.nil : Good users bucket real b ([] : List (BucketKeyVersion S)) := ⟨nofun, Consecutive.nil, Nat.zero_le _⟩

theorem Good.nodup (h : Good users bucket real b keys) : (epochs keys).Nodup :=
  nodup_epochs h.consecutive h.length

theorem Good.find (h : Good users bucket real b cfg.keys) (hk : kv ∈ cfg.keys) : findEpoch cfg kv.epoch = some kv :=
  findEpoch_of_mem h.nodup hk

/-- an epoch whose rows were sealed again -/
theorem Good.replace {book' : EpochBook} (h : Good users bucket real b keys) (hepoch : kv'.epoch ∈ epochs keys) (hreal : real book'.bwk)
    (hkv' : Epoch S users bucket book' kv') : Good users bucket real (Function.update b kv'.epoch (some book')) (replaceEpoch kv' keys) := by
  have hepochs : epochs (replaceEpoch kv' keys) = epochs keys := epochs_replaceEpoch
  refine ⟨fun k hk => ?_, hepochs ▸ h.consecutive, ?_⟩
  · rcases mem_replaceEpoch h.nodup hk with rfl | ⟨hmem, hne⟩
    · exact ⟨book', Function.update_self .., hreal, hkv'⟩
    · rw [Function.update_of_ne hne]
      exact h.epoch k hmem
  · have hlen := congrArg List.length hepochs
    rw [length_epochs, length_epochs] at hlen
    exact hlen.trans_le h.length

/-- a new epoch after the newest -/
theorem Good.snoc {newest : BucketKeyVersion S} {book' : EpochBook} (h : Good users bucket real b cfg.keys)
    (hnewest : currentKey cfg = some newest) (hlen : cfg.keys.length < MAX_RETAINED_EPOCHS) (hepoch : kv'.epoch = newest.epoch + 1)
    (hreal : real book'.bwk) (hkv' : Epoch S users bucket book' kv') :
    Good users bucket real (Function.update b kv'.epoch (some book')) (cfg.keys ++ [kv']) := by
  have hepochs : epochs (cfg.keys ++ [kv']) = epochs cfg.keys ++ [newest.epoch + 1] := by
    rw [epochs, List.map_append, List.map_singleton, hepoch]
    rfl
  have hconsecutive : Consecutive (epochs (cfg.keys ++ [kv'])) := by
    rw [hepochs]
    exact h.consecutive.snoc (by rw [epochs_getLast?, hnewest]; rfl)
  have hlength : (cfg.keys ++ [kv']).length ≤ MAX_RETAINED_EPOCHS := by
    rw [List.length_append, List.length_singleton]
    exact hlen
  refine ⟨fun k hk => ?_, hconsecutive, hlength⟩
  rcases List.mem_append.1 hk with hmem | hmem
  · -- the epochs are still distinct, so the older ones keep their books
    have hne : k.epoch ≠ kv'.epoch := by
      have hnodup := nodup_epochs hconsecutive hlength
      rw [hepochs, List.nodup_append] at hnodup
      rw [hepoch]
      exact hnodup.2.2 _ (List.mem_map_of_mem hmem) _ (List.mem_singleton_self _)
    rw [Function.update_of_ne hne]
    exact h.epoch k hmem
  · rw [List.mem_singleton.1 hmem]
    exact ⟨book', Function.update_self .., hreal, hkv'⟩

theorem filter_epoch (hnodup : (epochs keys).Nodup) (hkv : kv ∈ keys) : (keys.filter fun k => k.epoch = kv.epoch) = [kv] := by
  induction keys with
  | nil => cases hkv
  | cons k keys ih =>
    obtain ⟨hne, hnodup⟩ := nodup_epochs_cons hnodup
    rcases List.mem_cons.1 hkv with rfl | hmem
    · rw [List.filter_cons_of_pos (by simp), List.filter_eq_nil_iff.2]
      intro k' hk'
      simpa using hne k' hk'
    · rw [List.filter_cons_of_neg (by simpa using (hne kv hmem).symm), ih hnodup hmem]

theorem Good.prune (h : Good users bucket real b cfg.keys) (hkv : kv ∈ cfg.keys) :
    Good users bucket real b (pruneTo kv.epoch cfg).keys := by
  have hkeys : (pruneTo kv.epoch cfg).keys = [kv] := filter_epoch h.nodup hkv
  rw [hkeys]
  refine ⟨fun k hk => ?_, Consecutive.single kv.epoch, by simp [MAX_RETAINED_EPOCHS]⟩
  rw [List.mem_singleton.1 hk]
  exact h.epoch kv hkv

/-- what `open_verified_bwk` returns is the epoch's BWK, and it came out of a slot that holds it -/
theorem Good.openVerifiedBwk_ok (h : Good users bucket real b cfg.keys) (hkv : kv ∈ cfg.keys) {u : String} {slot : ℕ} {sk : Bytes}
    {bwk : Key32} (hbwk : openVerifiedBwk cfg bucket kv.epoch u slot sk = .ok bwk) :
    ∃ book, b kv.epoch = some book ∧ real book.bwk ∧ Epoch S users bucket book kv ∧ bwk = book.bwk ∧ book.Real u slot := by
  obtain ⟨book, hbook, hreal, hepoch⟩ := h.epoch kv hkv
  obtain ⟨rfl, hslot⟩ := hepoch.openVerifiedBwk_ok (h.find hkv) hbwk
  exact ⟨book, hbook, hreal, hepoch, rfl, hslot⟩

/-! ## Sharing between personas -/

/-- the users with a slot that holds the BWK of the epoch -/
def Holders (b : Ledger) (epoch : UInt32) (u : String) : Prop := ∃ book slot, b epoch = some book ∧ book.Real u slot

theorem shareEpoch_good {r : UserRecord} {target i : ℕ} {authorizeTarget allowed : Bool} {draws : ℕ → Draw}
    (hr : users session.username = some r) (hgood : Good users bucket real b cfg.keys)
    (h : shareEpoch r bucket session target authorizeTarget allowed draws i cfg = .ok (some cfg')) :
    let b' := (shareEvent bucket session target authorizeTarget draws i cfg).foldl Ledger.note b
    Good users bucket real b' cfg'.keys ∧ (∀ epoch u, Holders b' epoch u → Holders b epoch u) ∧
      cfg' = { cfg with keys := cfg'.keys } ∧ epochs cfg'.keys = epochs cfg.keys := by
  obtain ⟨kv, bwk, kv', hkv, hbwk, hput, rfl⟩ := shareEpoch_ok h
  have hmem := List.mem_of_getElem? hkv
  obtain ⟨book, hbook, hreal, hepoch, rfl, hslot⟩ := hgood.openVerifiedBwk_ok hmem hbwk
  have hkv' := putGrantSlot_epoch hr hepoch hput
  have he : kv'.epoch = kv.epoch := by
    obtain ⟨row, -, rfl⟩ := putGrantSlot_ok hput
    rfl
  have hset := set_eq_replaceEpoch hgood.nodup hkv he
  intro b'
  have hb' : b' = Function.update b kv'.epoch
      (some (book.put session.username (payloads book.bwk draws (shareFlags session.persona target authorizeTarget)))) := by
    simp only [b', shareEvent, hkv, hbwk, note_rowEvents, hbook, he]
    rfl
  have hin : kv'.epoch ∈ epochs cfg.keys := by
    rw [he]
    exact List.mem_map_of_mem hmem
  refine ⟨?_, ?_, rfl, ?_⟩
  · rw [hb', hset]
    exact hgood.replace hin hreal hkv'
  · -- only the caller's row changes, and the caller holds the BWK
    rintro epoch u ⟨book', slot, hbook', held, hrow, hheld⟩
    rw [hb'] at hbook'
    by_cases hep : epoch = kv'.epoch
    · subst hep
      rw [Function.update_self, Option.some_inj] at hbook'
      subst hbook'
      by_cases hu : u = session.username
      · subst hu
        exact ⟨book, session.persona, he ▸ hbook, hslot⟩
      · rw [EpochBook.put_of_ne hu] at hrow
        exact ⟨book, slot, he ▸ hbook, held, hrow, hheld⟩
    · rw [Function.update_of_ne hep] at hbook'
      exact ⟨book', slot, hbook', held, hrow, hheld⟩
  · rw [hset]
    exact epochs_replaceEpoch

theorem shareLoop_good {r : UserRecord} {target : ℕ} {authorizeTarget : Bool} {allowed : ℕ → Bool} {draws : ℕ → ℕ → Draw}
    (hr : users session.username = some r) (is : List ℕ) {changed changed' : List ℕ} (hgood : Good users bucket real b cfg.keys)
    (h : shareLoop r bucket session target authorizeTarget allowed draws is cfg changed = .ok (cfg', changed')) :
    let b' := (shareEvents bucket r session target authorizeTarget allowed draws is cfg).foldl Ledger.note b
    Good users bucket real b' cfg'.keys ∧ (∀ epoch u, Holders b' epoch u → Holders b epoch u) ∧
      cfg' = { cfg with keys := cfg'.keys } ∧ epochs cfg'.keys = epochs cfg.keys := by
  induction is generalizing cfg changed b with
  | nil =>
    cases h
    exact ⟨hgood, fun _ _ hh => hh, rfl, rfl⟩
  | cons i rest ih =>
    obtain ⟨res, hres, h⟩ := bind_ok h
    rw [shareEvents, hres]
    cases res with
    | none => exact ih hgood h
    | some mid =>
      obtain ⟨hgood', hholders, hcfg, hepochs⟩ := shareEpoch_good hr hgood hres
      obtain ⟨hgood'', hholders', hcfg', hepochs'⟩ := ih hgood' h
      simp only [List.foldl_append]
      refine ⟨hgood'', fun epoch u hh => hholders epoch u (hholders' epoch u hh), ?_, hepochs'.trans hepochs⟩
      rw [hcfg', hcfg]

/-! ## The invariant -/

/-- may open the newest epoch -/
def Entitled (st : State S) (u : String) : Prop :=
  st.cfg.owner = some u ∨ u ∈ readImplyingGrantees st.cfg.acl ∨ st.lastRotator = some u

structure Inv (users : Users) (bucket : String) (real : Key32 → Prop) (st : State S) : Prop where
  fresh : st.created = false → st.cfg = .default S
  good : Good users bucket real (ledger st.history) st.cfg.keys
  newest : ∀ kv, currentKey st.cfg = some kv → ∀ u, Holders (ledger st.history) kv.epoch u → Entitled st u

theorem inv_init : Inv users bucket real (State.init : State S) := ⟨fun _ => rfl, Good.nil, nofun⟩

variable {st : State S}

/-- the newest epoch is still the newest, with the same holders or fewer -/
theorem newest_of_epochs {newest : BucketKeyVersion S} {b' : Ledger} {P : String → Prop}
    (hnewest : currentKey cfg' = some newest) (hepochs : epochs cfg'.keys = epochs cfg.keys)
    (h : ∀ kv, currentKey cfg = some kv → ∀ u, Holders b' kv.epoch u → P u) (u : String) (hu : Holders b' newest.epoch u) : P u := by
  have hlast : (currentKey cfg).map (·.epoch) = some newest.epoch := by
    rw [← epochs_getLast?, ← hepochs, epochs_getLast?, hnewest]
    rfl
  obtain ⟨kv, hkv, hepoch⟩ := Option.map_eq_some_iff.1 hlast
  exact h kv hkv u (hepoch ▸ hu)

theorem mem_readImplyingGrantees {acl : Table String BucketPermission} {u : String} :
    u ∈ readImplyingGrantees acl ↔ ∃ level, acl[u]? = some level ∧ level ≠ .WriteOnly := by
  simp only [readImplyingGrantees, List.mem_map, List.mem_filter, decide_eq_true_eq]
  constructor
  · rintro ⟨⟨v, level⟩, ⟨hmem, hlevel⟩, rfl⟩
    exact ⟨level, Table.mem_toList.1 hmem, hlevel⟩
  · rintro ⟨level, hget, hlevel⟩
    exact ⟨(u, level), ⟨Table.mem_toList.2 hget, hlevel⟩, rfl⟩

/-- a user with a real slot keeps it only by being granted access now, or by having it before and not losing it -/
theorem aclReseals_entitled {previousOwner owner rotator : Option String} {old new : List String} {u : String}
    (htrue : (u, true) ∈ aclReseals previousOwner owner old new ∨
      (u, false) ∉ aclReseals previousOwner owner old new ∧ (previousOwner = some u ∨ u ∈ old ∨ rotator = some u))
    (howner : owner = none → previousOwner = none) : owner = some u ∨ u ∈ new ∨ rotator = some u := by
  by_contra hnone
  rw [not_or, not_or] at hnone
  obtain ⟨hnowner, hnnew, hnrot⟩ := hnone
  rcases htrue with htrue | ⟨hfalse, hprev | hold | hrot⟩
  · rcases List.mem_append.1 htrue with hmem | hmem
    · split_ifs at hmem
      · rcases List.mem_append.1 hmem with hmem | hmem
        · obtain ⟨v, hv, heq⟩ := List.mem_map.1 hmem
          cases heq
          exact hnnew (List.mem_filter.1 hv).1
        · obtain ⟨v, hv, heq⟩ := List.mem_map.1 hmem
          cases heq
      · cases hmem
    · split_ifs at hmem
      · split at hmem
        · cases hmem
        · rename_i newOwner
          rcases List.mem_cons.1 hmem with heq | hmem
          · cases heq
            exact hnowner rfl
          · obtain ⟨v, hv, heq⟩ := List.mem_map.1 hmem
            cases heq
      · cases hmem
  · -- the previous owner loses the row when the bucket is handed on
    apply hfalse
    apply List.mem_append_right
    cases owner with
    | none => rw [howner rfl] at hprev; cases hprev
    | some newOwner =>
      have hne : u ≠ newOwner := fun heq => hnowner (heq ▸ rfl)
      rw [if_pos (by rw [hprev]; exact fun heq => hnowner heq)]
      simp [hprev, hne, hnnew]
  · -- a grantee who may no longer read loses the row
    apply hfalse
    apply List.mem_append_left
    have hne : old ≠ new := fun heq => hnnew (heq ▸ hold)
    rw [if_pos hne]
    apply List.mem_append_right
    exact List.mem_map.2 ⟨u, List.mem_filter.2 ⟨hold, by simpa using hnnew⟩, rfl⟩
  · exact hnrot hrot

theorem nextOwner_none {body : AclBody} {previousOwner owner : Option String}
    (h : nextOwner users bucket session body previousOwner = .ok owner) (hnone : owner = none) : previousOwner = none := by
  subst hnone
  rw [nextOwner] at h
  split at h
  · cases h
    rfl
  · split_ifs at h
    cases h

/-! ## One request -/

variable {isWhitespace : Char → Bool}

theorem setAcl_inv {body : AclBody} {draws : ℕ → ℕ → Draw} (hinv : Inv users bucket real st) (hcreated : st.created = true)
    (hdraws : ∀ n i, ¬real (draws n i).decoy) (h : setAcl isWhitespace users bucket session body draws st.cfg = .ok cfg') :
    Inv users bucket real { st with cfg := cfg', history := st.history ++ aclEvents users bucket session draws st.cfg cfg' } := by
  obtain ⟨-, howner, hcfg', hkeys⟩ := setAcl_ok h
  have hacl : cfg'.acl = body.grants := by rw [hcfg']
  rw [← hacl] at hkeys
  cases hkv : currentKey st.cfg with
  | none =>
    -- no key material yet: nothing is sealed
    have hnil : st.cfg.keys = [] := List.getLast?_eq_none_iff.1 hkv
    have hnil' : cfg'.keys = [] := by
      rcases hkeys with ⟨-, hkeys⟩ | hkeys
      · rw [hkeys, hnil]
      · simp only [resealKeys, hkv, hnil] at hkeys
        exact (Except.ok.inj hkeys).symm
    refine ⟨fun hc => ?_, ?_, fun newest hnewest => ?_⟩
    · rw [hcreated] at hc
      cases hc
    · rw [hnil']
      exact Good.nil
    · rw [currentKey, hnil'] at hnewest
      cases hnewest
  | some kv =>
    have hmem := currentKey_mem hkv
    have hnotnew : st.created = false → cfg' = .default S := fun hc => by
      rw [hcreated] at hc
      cases hc
    rcases hkeys with ⟨⟨hsame, hsameOwner⟩, hkeys⟩ | hkeys
    · -- neither the owner nor the readers change: nothing is sealed
      have hevents : aclEvents users bucket session draws st.cfg cfg' = [] := by
        have hreseals : aclReseals st.cfg.owner cfg'.owner (readImplyingGrantees st.cfg.acl) (readImplyingGrantees cfg'.acl) = [] := by
          rw [hsameOwner, hsame]
          simp [aclReseals]
        rw [aclEvents, hkv]
        simp only [hreseals]
        split
        · rfl
        · rfl
      refine ⟨hnotnew, ?_, fun newest hnewest u hu => ?_⟩
      · simp only [hevents, hkeys, List.append_nil]
        exact hinv.good
      · simp only [hevents, List.append_nil] at hu
        rw [currentKey, hkeys] at hnewest
        have hent := hinv.newest newest hnewest u hu
        rw [Entitled] at hent ⊢
        rw [hsameOwner, ← hsame]
        exact hent
    · obtain ⟨bwk, kv', hbwk, hreseal, hreplace⟩ := resealKeys_ok hkv hkeys
      obtain ⟨book, hbook, hreal, hepoch, rfl, -⟩ := hinv.good.openVerifiedBwk_ok hmem hbwk
      have hdecoy : ∀ n i, (draws n i).decoy ≠ book.bwk := fun n i heq => hdraws n i (heq ▸ hreal)
      have he : kv'.epoch = kv.epoch := (resealAll_same _ hreseal).1
      have hkv' := resealAll_epoch hepoch hreseal
      have hledger : ledger (st.history ++ aclEvents users bucket session draws st.cfg cfg') = Function.update (ledger st.history) kv'.epoch
          (some (book.putAll (resealRows users book.bwk draws 0
            (aclReseals st.cfg.owner cfg'.owner (readImplyingGrantees st.cfg.acl) (readImplyingGrantees cfg'.acl))))) := by
        simp only [ledger_append, aclEvents, hkv, hbwk, note_rowEvents, hbook, he, Option.map_some]
      have hin : kv'.epoch ∈ epochs st.cfg.keys := by
        rw [he]
        exact List.mem_map_of_mem hmem
      refine ⟨hnotnew, ?_, fun newest hnewest => ?_⟩
      · rw [hledger, hreplace]
        exact hinv.good.replace hin (by rw [EpochBook.putAll_bwk]; exact hreal) hkv'
      · have hepochs : epochs cfg'.keys = epochs st.cfg.keys := hreplace ▸ epochs_replaceEpoch
        refine newest_of_epochs hnewest hepochs fun kv₀ hkv₀ u hu => ?_
        cases hkv.symm.trans hkv₀
        obtain ⟨book', slot, hbook', hslot⟩ := hu
        rw [hledger, ← he, Function.update_self, Option.some_inj] at hbook'
        subst hbook'
        suffices hreseals : _ from
          @aclReseals_entitled _ _ _ (readImplyingGrantees st.cfg.acl) _ u hreseals (nextOwner_none howner)
        rcases EpochBook.real_putAll hslot with ⟨held, hrow, hheld⟩ | ⟨hnot, hbefore⟩
        · exact Or.inl (resealRows_bwk hdecoy hrow hheld)
        · -- a user with a row is known, so the row would have been sealed again
          refine Or.inr ⟨fun hfalse => ?_, hinv.newest kv hkv u ⟨book, slot, hbook, hbefore⟩⟩
          obtain ⟨held, hheld, -⟩ := hbefore
          have hrow := hepoch.rows u
          rw [hheld] at hrow
          obtain ⟨r, -, hr, -⟩ := hrow
          obtain ⟨held', hmem'⟩ := mem_resealRows hr hfalse
          exact hnot held' hmem'

theorem known_currentGrantees (caller : String) (persona : ℕ) : Known users (currentGrantees users cfg caller persona) := by
  intro g hg
  obtain ⟨u, -, hu⟩ := List.mem_filterMap.1 hg
  obtain ⟨r, hr, rfl⟩ := Option.map_eq_some_iff.1 hu
  exact ⟨r, hr, rfl⟩

/-- the grantees of a rotation -/
theorem mem_currentGrantees {caller u : String} {persona : ℕ} {slots : GranteeSlots}
    (h : (u, slots) ∈ currentGrantees users cfg caller persona) :
    cfg.owner = some u ∨ u ∈ readImplyingGrantees cfg.acl ∨ caller = u := by
  obtain ⟨v, hv, heq⟩ := List.mem_filterMap.1 h
  obtain ⟨r, -, heq⟩ := Option.map_eq_some_iff.1 heq
  cases heq
  rw [rotationUsers, List.mem_dedup, List.mem_append, List.mem_append, List.mem_singleton, Option.mem_toList] at hv
  rcases hv with (hread | howner) | hcaller
  · exact Or.inr (Or.inl hread)
  · exact Or.inl howner
  · exact Or.inr (Or.inr hcaller.symm)

/-- in a new epoch only its grantees hold the BWK -/
theorem holders_new {epoch : UInt32} {fresh : Fresh} {grantees : List (String × GranteeSlots)} {draws : ℕ → ℕ → Draw} {u : String}
    (h : Holders ((newEpochEvents epoch fresh grantees draws).foldl Ledger.note b) epoch u) : ∃ slots, (u, slots) ∈ grantees := by
  obtain ⟨book, slot, hbook, hslot⟩ := h
  rw [note_newEpochEvents, Function.update_self, Option.some_inj] at hbook
  subst hbook
  rcases EpochBook.real_putAll hslot with ⟨held, hrow, -⟩ | ⟨-, held, hrow, -⟩
  · exact mem_sealRows hrow
  · cases hrow

theorem rotate_inv {fresh : Fresh} {draws : ℕ → ℕ → Draw} (hinv : Inv users bucket real st) (hcreated : st.created = true)
    (hfresh : real fresh.bwk) (h : rotateKey users bucket session fresh draws st.cfg = .ok cfg') :
    Inv users bucket real
      { st with
        cfg := cfg'
        history := st.history ++ rotateEvents users session fresh draws st.cfg
        lastRotator := some session.username } := by
  obtain ⟨newest, kv, hnewest, hlen, hkv, rfl⟩ := rotateKey_ok h
  have hepoch := newBucketKeyVersion_epoch (known_currentGrantees session.username session.persona) hkv
  obtain ⟨-, he, -⟩ := newBucketKeyVersion_ok hkv
  have hevents : rotateEvents users session fresh draws st.cfg =
      newEpochEvents kv.epoch fresh (currentGrantees users st.cfg session.username session.persona) draws := by
    rw [rotateEvents, hnewest, he]
  refine ⟨fun hc => ?_, ?_, fun kv' hkv' u hu => ?_⟩
  · rw [hcreated] at hc
    cases hc
  · rw [ledger_append, hevents, note_newEpochEvents]
    exact hinv.good.snoc hnewest hlen he (by rw [EpochBook.putAll_bwk]; exact hfresh) hepoch
  · rw [currentKey, List.getLast?_concat, Option.some_inj] at hkv'
    subst hkv'
    rw [ledger_append, hevents] at hu
    obtain ⟨slots, hslots⟩ := holders_new hu
    rcases mem_currentGrantees hslots with howner | hread | hcaller
    · exact Or.inl howner
    · exact Or.inr (Or.inl hread)
    · exact Or.inr (Or.inr (congrArg some hcaller))

theorem rekey_inv {newest : BucketKeyVersion S} (hinv : Inv users bucket real st) (hcreated : st.created = true)
    (hnewest : currentKey st.cfg = some newest) : Inv users bucket real { st with cfg := pruneTo newest.epoch st.cfg } := by
  have hmem := currentKey_mem hnewest
  have hkeys : (pruneTo newest.epoch st.cfg).keys = [newest] := filter_epoch hinv.good.nodup hmem
  refine ⟨fun hc => ?_, hinv.good.prune hmem, fun kv hkv u hu => ?_⟩
  · rw [hcreated] at hc
    cases hc
  · rw [currentKey, hkeys] at hkv
    cases hkv
    exact hinv.newest newest hnewest u hu

theorem share_inv {target : ℕ} {authorizeTarget : Bool} {allowed : ℕ → Bool} {draws : ℕ → ℕ → Draw} {r : UserRecord} {changed : List ℕ}
    (hinv : Inv users bucket real st) (hcreated : st.created = true) (hr : users session.username = some r)
    (h : shareOrRevoke users bucket session target authorizeTarget allowed draws st.cfg = .ok (some (cfg', changed))) :
    Inv users bucket real
      { st with
        cfg := cfg'
        history := st.history ++
          shareEvents bucket r session target authorizeTarget allowed draws (List.range st.cfg.keys.length) st.cfg } := by
  obtain ⟨r', hr', hloop⟩ := shareOrRevoke_ok h
  cases hr.symm.trans hr'
  obtain ⟨hgood, hholders, hcfg, hepochs⟩ := shareLoop_good hr _ hinv.good hloop
  refine ⟨fun hc => ?_, ?_, fun newest hnewest => ?_⟩
  · rw [hcreated] at hc
    cases hc
  · rw [ledger_append]
    exact hgood
  · refine newest_of_epochs hnewest hepochs fun kv hkv u hu => ?_
    rw [ledger_append] at hu
    have hent := hinv.newest kv hkv u (hholders kv.epoch u hu)
    rw [Entitled] at hent ⊢
    rw [hcfg]
    exact hent

theorem claim_inv {fresh : Fresh} {draws : ℕ → ℕ → Draw} (hinv : Inv users bucket real st) (hcreated : st.created = false)
    (hfresh : real fresh.bwk) (h : claimOwnership true users bucket session fresh draws st.cfg = .ok (some cfg')) :
    Inv users bucket real
      { st with created := true, cfg := cfg', history := st.history ++ claimEvents users session fresh draws } := by
  rw [claimOwnership, hinv.fresh hcreated] at h
  split_ifs at h with hnone
  · obtain ⟨kv, hkv, h⟩ := bind_ok h
    cases h
    rw [newOwnerKey] at hkv
    cases hr : users session.username with
    | none =>
      rw [hr] at hkv
      cases hkv
    | some r =>
      rw [hr] at hkv
      have hknown : Known users [(session.username, ⟨r.slots, onlySlot session.persona⟩)] := by
        intro g hg
        rw [List.mem_singleton.1 hg]
        exact ⟨r, hr, rfl⟩
      have hepoch := newBucketKeyVersion_epoch hknown hkv
      obtain ⟨-, he, -⟩ := newBucketKeyVersion_ok hkv
      have hevents : claimEvents users session fresh draws =
          newEpochEvents kv.epoch fresh [(session.username, ⟨r.slots, onlySlot session.persona⟩)] draws := by
        rw [claimEvents, hr, he]
      refine ⟨nofun, ?_, fun kv' hkv' u hu => ?_⟩
      · rw [ledger_append, hevents, note_newEpochEvents]
        refine ⟨fun k hk => ?_, Consecutive.single kv.epoch, by simp [MAX_RETAINED_EPOCHS, BucketConfig.default]⟩
        rw [List.mem_singleton.1 hk]
        exact ⟨_, Function.update_self .., by rw [EpochBook.putAll_bwk]; exact hfresh, hepoch⟩
      · cases hkv'
        rw [ledger_append, hevents] at hu
        obtain ⟨slots, hslots⟩ := holders_new hu
        have heq := List.mem_singleton.1 hslots
        exact Or.inl (congrArg some (congrArg Prod.fst heq).symm)
  · cases h

/-- **A request keeps the invariant.** -/
theorem step_inv (hinv : Inv users bucket real st) (op : Op) (hop : op.Fair real) :
    Inv users bucket real (step isWhitespace users bucket st op) := by
  cases hcreated : st.created with
  | true =>
    simp only [step, hcreated, if_true]
    cases op with
    | claim => exact hinv
    | setAcl session body draws =>
      simp only [stepExisting]
      split
      · exact hinv
      · rename_i cfg' h
        exact setAcl_inv hinv hcreated hop h
    | rotate session fresh draws =>
      simp only [stepExisting]
      split
      · exact hinv
      · rename_i cfg' h
        exact rotate_inv hinv hcreated hop.1 h
    | rekey session =>
      simp only [stepExisting]
      split
      · rename_i newest _ hnewest
        exact rekey_inv hinv hcreated hnewest
      · exact hinv
    | share session target authorizeTarget allowed draws =>
      simp only [stepExisting]
      split
      · rename_i cfg' changed r h hr
        exact share_inv hinv hcreated hr h
      · exact hinv
  | false =>
    simp only [step, hcreated, Bool.false_eq_true, if_false]
    cases op with
    | claim session fresh draws =>
      simp only
      split
      · rename_i cfg' h
        exact claim_inv hinv hcreated hop.1 h
      · exact ⟨nofun, hinv.good, hinv.newest⟩
    | _ => exact hinv

theorem run_inv (ops : List Op) (hinv : Inv users bucket real st) (hops : ∀ op ∈ ops, op.Fair real) :
    Inv users bucket real (run isWhitespace users bucket st ops) := by
  induction ops generalizing st with
  | nil => exact hinv
  | cons op ops ih =>
    exact ih (step_inv hinv op (hops op List.mem_cons_self)) fun op' hop' => hops op' (List.mem_cons_of_mem op hop')

/-- **Grants are sound.** After any requests, for every user, slot and retained epoch, `read_key` and `open_verified_bwk` succeed
exactly with the slot's own identity key and if the user's row of the epoch was last sealed with the epoch's BWK in that slot; and
on the newest epoch such a user is the owner, may read by the ACL, or is the caller of the last `rotate_key`. A share adds no one. -/
theorem grants_sound (isWhitespace : Char → Bool) (users : Users) (bucket : String) (real : Key32 → Prop) (ops : List Op)
    (hops : ∀ op ∈ ops, op.Fair real) :
    let st := run isWhitespace users bucket (State.init : State S) ops
    (∀ kv ∈ st.cfg.keys, ∀ u slot sk,
      ((∃ key, readKey st.cfg bucket kv.epoch u slot sk = .ok key) ↔
        Matches S users u slot sk ∧ LastSealedReal st.history kv.epoch u slot) ∧
      ((∃ bwk, openVerifiedBwk st.cfg bucket kv.epoch u slot sk = .ok bwk) ↔
        Matches S users u slot sk ∧ LastSealedReal st.history kv.epoch u slot)) ∧
    ∀ kv, currentKey st.cfg = some kv → ∀ u slot, LastSealedReal st.history kv.epoch u slot →
      st.cfg.owner = some u ∨ (∃ level, st.cfg.acl[u]? = some level ∧ level ≠ .WriteOnly) ∨ st.lastRotator = some u := by
  intro st
  have hinv : Inv users bucket real st := run_inv ops inv_init hops
  constructor
  · intro kv hkv u slot sk
    obtain ⟨book, hbook, -, hepoch⟩ := hinv.good.epoch kv hkv
    have hreal : LastSealedReal st.history kv.epoch u slot ↔ book.Real u slot := by
      constructor
      · rintro ⟨book', hbook', hslot⟩
        cases hbook.symm.trans hbook'
        exact hslot
      · exact fun hslot => ⟨book, hbook, hslot⟩
    rw [hreal, ← hepoch.openWith_iff (hinv.good.find hkv)]
    exact ⟨map_ok_iff, map_ok_iff⟩
  · rintro kv hkv u slot ⟨book, hbook, hslot⟩
    rw [← mem_readImplyingGrantees]
    exact hinv.newest kv hkv u ⟨book, slot, hbook, hslot⟩

/-! ## A bucket of one user -/

/-- sealing and wrapping as terms -/
def symbolic : Sealing where
  SealedKey := Bytes × Bytes × Bytes
  WrappedSk := Bytes × Key32 × Bytes
  publicKey := id
  sealTo pk m aad _ := .ok (pk, m, aad)
  openSealed sk s aad := if sk = s.1 ∧ aad = s.2.2 then some s.2.1 else none
  wrapWithKey m k aad _ := (m, k, aad)
  unwrapWithKey w k aad := if k = w.2.1 ∧ aad = w.2.2 then some w.1 else none
  open_seal := by
    intro pk m aad seed s h sk aad'
    cases h
    rfl
  unwrap_wrap := fun _ _ _ _ _ _ => rfl

/-- one user, with the secret keys `[0]` to `[3]` -/
def solo : Users := fun u =>
  if u = "alice" then some ⟨[Base64.encode [0], Base64.encode [1], Base64.encode [2], Base64.encode [3]], 0⟩ else none

def soloSession : Session := ⟨"alice", 0, [0], false⟩

def soloFresh : Fresh := ⟨"", [], ⟨List.replicate 32 1, rfl⟩, []⟩

def soloDraws : ℕ → ℕ → Draw := fun _ _ => ⟨⟨List.replicate 32 0, rfl⟩, []⟩

def soloRun : State symbolic := run (fun _ => false) solo "b" State.init [.claim soloSession soloFresh soloDraws]

theorem soloRun_keys : (∃ kv, soloRun.cfg.keys = [kv] ∧ kv.epoch = 0) ∧
    soloRun.history = claimEvents solo soloSession soloFresh soloDraws := by
  simp [soloRun, run, step, soloSession, State.init, claimOwnership, BucketConfig.default, newOwnerKey, solo, newBucketKeyVersion, sealAll,
    sealGrantSlots, sealFrom, sealSlot, symbolic, bind, Except.bind, pure, Except.pure, onlySlot, CREDENTIAL_SLOTS, List.range_succ]

theorem solo_decoy (n i : ℕ) : (soloDraws n i).decoy ≠ soloFresh.bwk := by
  have hne : (soloDraws 0 0).decoy.1 ≠ soloFresh.bwk.1 := by decide
  exact fun heq => hne (congrArg Subtype.val heq)

theorem soloRun_sealed {slot : ℕ} : LastSealedReal soloRun.history 0 "alice" slot ↔ slot = 0 := by
  have hledger : ledger soloRun.history 0 = some (EpochBook.put ⟨soloFresh.bwk, fun _ => none⟩ "alice"
      (payloads soloFresh.bwk (soloDraws 0) (onlySlot 0))) := by
    rw [soloRun_keys.2, claimEvents]
    exact (congrFun (note_newEpochEvents _ 0 soloFresh _ soloDraws) 0).trans (Function.update_self ..)
  simp only [LastSealedReal, hledger, Option.some_inj, exists_eq_left', EpochBook.Real, EpochBook.put_self]
  constructor
  · intro hslot
    have hflag := payloads_bwk (solo_decoy 0) hslot
    match slot with
    | 0 => rfl
    | 1 | 2 | 3 => cases hflag
    | n + 4 => cases hflag
  · rintro rfl
    rfl

/-- the user's slot 0 opens the bucket's key and slot 1 does not -/
theorem grants_sound_solo : ∃ kv ∈ soloRun.cfg.keys, (∃ key, readKey soloRun.cfg "b" kv.epoch "alice" 0 [0] = .ok key) ∧
    ∀ key, readKey soloRun.cfg "b" kv.epoch "alice" 1 [1] ≠ .ok key := by
  have hfair : ∀ op ∈ [Op.claim soloSession soloFresh soloDraws], op.Fair (· = soloFresh.bwk) := by
    intro op hop
    rw [List.mem_singleton.1 hop]
    exact ⟨rfl, solo_decoy⟩
  obtain ⟨hopen, -⟩ := @grants_sound symbolic (fun _ => false) solo "b" _ _ hfair
  obtain ⟨kv, hkeys, hepoch⟩ := soloRun_keys.1
  have hmem : kv ∈ soloRun.cfg.keys := hkeys ▸ List.mem_singleton_self kv
  refine ⟨kv, hmem, ?_, fun key hkey => ?_⟩
  · apply (hopen kv hmem "alice" 0 [0]).1.2
    refine ⟨⟨_, Base64.encode [0], if_pos rfl, rfl, Base64.decode_encode [0]⟩, ?_⟩
    rw [hepoch]
    exact soloRun_sealed.2 rfl
  · have hsealed := ((hopen kv hmem "alice" 1 [1]).1.1 ⟨key, hkey⟩).2
    rw [hepoch] at hsealed
    exact absurd (soloRun_sealed.1 hsealed) one_ne_zero

end Y2q.BucketKeys
