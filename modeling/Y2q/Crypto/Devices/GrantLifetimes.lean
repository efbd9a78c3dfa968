/-
How long away access lasts (`crypto/devices/registry.rs`, `y2qd/src/node_unlock.rs`), in true time.

A `Site` is the medium with the registry on it and the daemons that run: each keeps the registry's state key, and its master
key only if a home device booted it. Boots, commands of the CLI, rewrites of the node key's wrap, repairs and the daemons' sweeps
happen in any order, each may be cut at any write, and whoever has the medium may put back any registry file it ever held.

- `Dated`: every grant was issued at a time from a given set and ends at most the registry's period later. One lemma for each
  way a registry changes; none of them needs a key to be secret.
- `openBy_dated`: grants are issued only if a home record opens; an unlock by a grant attests a time before its end.
- `Site.step_dated`: a step keeps this of every file there has been.
- `away_access_lapses`: an away device opens the registry by a grant only within the registry's period and four minutes of a
  moment at which a home device answered, a home device was enrolled, or a daemon booted by one swept.
-/
import Mathlib.Tactic
import Y2q.Core.Run
import Y2q.Crypto.Devices.AttestedTime
import Y2q.Crypto.Devices.Histories
import Y2q.Crypto.Devices.Repair

namespace Y2q.Devices

open CrashLogic NodeKeys Run

/-! ## Registries whose grants are dated -/

/-- every grant was issued at one of these times, and ends at most the registry's period later -/
def Dated (A : UInt64 → Prop) (reg : DeviceRegistryFile) : Prop :=
  ∀ d ∈ reg.devices, ∀ g, d.grant = some g →
    A g.issuedAtUnix ∧ g.notAfterUnix.toNat ≤ g.issuedAtUnix.toNat + reg.awayGrantSeconds.toNat

def DatedDisk (A : UInt64 → Prop) (disk : RegistryDisk) : Prop := ∀ reg, disk = some (.ok reg) → Dated A reg

variable {P : Primitives} {H : Hashes} {W : Surroundings} {A A' B : UInt64 → Prop} {reg reg' : DeviceRegistryFile} {d : DeviceRecord}

theorem Dated.mono (h : Dated A reg) (hA : ∀ t, A t → A' t) : Dated A' reg :=
  fun d hd g hg => ⟨hA _ (h d hd g hg).1, (h d hd g hg).2⟩

theorem DatedDisk.mono {disk : RegistryDisk} (h : DatedDisk A disk) (hA : ∀ t, A t → A' t) : DatedDisk A' disk :=
  fun reg hreg => (h reg hreg).mono hA

theorem datedDisk_some : DatedDisk A (some (.ok reg)) ↔ Dated A reg := by
  constructor
  · intro h
    exact h reg rfl
  · rintro h _ ⟨⟩
    exact h

theorem datedDisk_none : DatedDisk A none := nofun

/-- a registry of the same period whose grants are all from another one -/
theorem Dated.of_grants (h : Dated A reg) (hperiod : reg'.awayGrantSeconds = reg.awayGrantSeconds)
    (hgrants : ∀ d' ∈ reg'.devices, d'.grant.isSome = true → ∃ d ∈ reg.devices, d.grant = d'.grant) : Dated A reg' := by
  intro d' hd' g hg
  obtain ⟨d, hd, heq⟩ := hgrants d' hd' (by rw [hg]; rfl)
  rw [hperiod]
  exact h d hd g (heq.trans hg)

/-- records changed one by one, each with the grant it had or with none -/
theorem Dated.map (h : Dated A reg) {f : DeviceRecord → DeviceRecord}
    (hf : ∀ d, (f d).grant = d.grant ∨ (f d).grant = none) : Dated A { reg with devices := reg.devices.map f } := by
  refine h.of_grants rfl fun d' hd' hsome => ?_
  obtain ⟨d, hd, rfl⟩ := List.mem_map.1 hd'
  rcases hf d with hsame | hnone
  · exact ⟨d, hd, hsame.symm⟩
  · rw [hnone] at hsome
    cases hsome

theorem Dated.sweep (h : Dated A reg) (now : UInt64) : Dated A (sweepGrants reg now).1 := by
  refine h.map fun d => ?_
  split
  · exact Or.inr rfl
  · exact Or.inl rfl

theorem Dated.stripped (h : Dated A reg) : Dated A (stripped reg) := by
  refine h.map fun d => ?_
  split
  · exact Or.inl rfl
  · exact Or.inl rfl

theorem dated_withoutGrants : Dated A (withoutGrants reg) := by
  intro d hd g hg
  obtain ⟨d₀, -, rfl⟩ := List.mem_map.1 hd
  cases hg

/-- one record replaced by one with the grant of a record that is there -/
theorem Dated.set (h : Dated A reg) (i : ℕ) {e : DeviceRecord} (hd : d ∈ reg.devices) (he : e.grant = d.grant) :
    Dated A { reg with devices := reg.devices.set i e } := by
  refine h.of_grants rfl fun d' hd' _ => ?_
  rcases List.mem_or_eq_of_mem_set hd' with hd' | rfl
  · exact ⟨d', hd', rfl⟩
  · exact ⟨d, hd, he.symm⟩

theorem Dated.counted (h : Dated A reg) (i : ℕ) (count : Option UInt32) :
    Dated A { reg with devices := reg.devices.modify i fun d => { d with signCountLast := count } } := by
  refine h.of_grants rfl fun d' hd' _ => ?_
  obtain ⟨j, hj, rfl⟩ := List.mem_iff_getElem.1 hd'
  simp only [List.length_modify] at hj
  rw [List.getElem_modify]
  refine ⟨reg.devices[j], List.getElem_mem hj, ?_⟩
  split <;> rfl

theorem Dated.rewrapped (h : Dated A reg) (w : Wrap) : Dated A { reg with nkWrap := w } := h

theorem mintGrant_dated {rmk : Bytes} {now : UInt64} {nonce : Nonce} {g : Grant}
    (h : mintGrant P reg rmk now nonce d = some g) :
    g.issuedAtUnix = now ∧ g.notAfterUnix.toNat ≤ now.toNat + reg.awayGrantSeconds.toNat := by
  unfold mintGrant at h
  split_ifs at h
  split at h
  · cases h
  · split at h
    · cases h
    · cases h
      refine ⟨rfl, ?_⟩
      simp only
      have hlt : min (now.toNat + reg.awayGrantSeconds.toNat) (2 ^ 64 - 1) < 2 ^ 64 := by omega
      rw [UInt64.toNat_ofNat_of_lt' hlt]
      exact Nat.min_le_left _ _

theorem Dated.mint (h : Dated A reg) (rmk : Bytes) {now : UInt64} (hnow : A now) : Dated A (mintGrants P W reg rmk now).1 := by
  intro d hd g hg
  obtain ⟨⟨d₀, o⟩, hmem, rfl⟩ := List.mem_map.1 hd
  obtain ⟨⟨d₁, i⟩, hmem₁, heq⟩ := List.mem_map.1 hmem
  rw [Prod.mk.injEq] at heq
  obtain ⟨rfl, ho⟩ := heq
  cases o with
  | none => exact h d₁ (List.fst_mem_of_mem_zipIdx hmem₁) g hg
  | some g' =>
    cases hg
    obtain ⟨rfl, hend⟩ := mintGrant_dated ho
    exact ⟨hnow, hend⟩

theorem Dated.withRecord (h : Dated A reg) (hd : d.grant = none) : Dated A (withRecord reg d) := by
  refine h.of_grants rfl fun d' hd' hsome => ?_
  rcases List.mem_append.1 hd' with hd' | hd'
  · exact ⟨d', hd', rfl⟩
  · rw [List.mem_singleton.1 hd', hd] at hsome
    cases hsome

theorem newRecord_grant {new : NewDevice} {idBytes esc rmk : Bytes} {added : UInt64} {permanent : Bool} {n n' : Nonce}
    (h : newRecord P new idBytes esc rmk added permanent n n' = .ok d) : d.grant = none := by
  unfold newRecord at h
  simp only at h
  split at h
  · split at h
    · cases h
    · cases h
      rfl
  · split at h
    · cases h
    · cases h
      rfl

/-! ## Mutations -/

def Mutation.EnrollsHome (m : Mutation) : Prop := ∃ new, m = .enroll new ∧ new.kind = .tpm2

theorem enrollDevice_dated {B : Bench} {new : NewDevice} {rmk : Bytes} {a : Authority} (h : Dated A reg)
    (hB : new.kind = .tpm2 → ∀ now, B.attestedNow = .ok now → A now) (happly : enrollDevice P B reg new rmk a = .ok reg') :
    Dated A reg' := by
  obtain ⟨⟨⟩, -, happly⟩ := except_bind_ok happly
  obtain ⟨b, -, happly⟩ := except_bind_ok happly
  obtain ⟨d, hd, happly⟩ := except_bind_ok happly
  have hwith := h.withRecord (newRecord_grant hd)
  split_ifs at happly with hfirst
  · have hkind : new.kind = .tpm2 := by
      unfold firstHomeOverAway at hfirst
      rw [Bool.and_eq_true, Bool.and_eq_true, decide_eq_true_eq] at hfirst
      exact hfirst.1.1
    split at happly
    · next now hnow =>
      cases happly
      exact hwith.stripped.mint rmk (hB hkind now hnow)
    · cases happly
      exact hwith.stripped
  · cases happly
    exact hwith

theorem setGrantPeriod_dated {B : Bench} {seconds : UInt32} {nk rmk : Bytes} {a : Authority}
    (hB : a.isHome = true → ∀ now, B.attestedNow = .ok now → A now)
    (happly : setGrantPeriod P B reg seconds nk rmk a = .ok reg') : Dated A reg' := by
  unfold setGrantPeriod at happly
  split_ifs at happly with hrange hhome <;> obtain ⟨⟨⟩, -, happly⟩ := except_bind_ok happly
  · split at happly
    · next now hnow =>
      cases happly
      exact Dated.mint dated_withoutGrants rmk (hB hhome now hnow)
    · cases happly
      exact dated_withoutGrants
  · cases happly
    exact dated_withoutGrants

/-- a mutation mints by the attested time of its own if a home device authorises it, or if it enrols one -/
theorem Mutation.apply_dated {B : Bench} {nk rmk : Bytes} {a : Authority} {m : Mutation} (h : Dated A reg)
    (hB : a.isHome = true ∨ m.EnrollsHome → ∀ now, B.attestedNow = .ok now → A now)
    (happly : m.apply P H B reg nk rmk a = .ok reg') : Dated A reg' := by
  cases m with
  | enroll new => exact enrollDevice_dated h (fun hkind => hB (Or.inr ⟨new, rfl, hkind⟩)) happly
  | remove selector =>
    obtain ⟨⟨i, d⟩, -, happly⟩ := except_bind_ok happly
    obtain ⟨⟨⟩, -, happly⟩ := except_bind_ok happly
    cases happly
    exact h.of_grants rfl fun d' hd' _ => ⟨d', List.mem_of_mem_eraseIdx hd', rfl⟩
  | refresh =>
    unfold Mutation.apply refreshGrants at happly
    split_ifs at happly with hhome
    obtain ⟨now, hnow, happly⟩ := except_bind_ok happly
    cases happly
    exact (h.sweep now).mint rmk (hB (Or.inl hhome) now hnow)
  | setPeriod seconds => exact setGrantPeriod_dated (fun hhome => hB (Or.inl hhome)) happly
  | reseal id =>
    obtain ⟨⟨i, d, params, secret⟩, hsealed, happly⟩ := except_bind_ok happly
    cases happly
    exact h.set i (List.mem_of_getElem? (resealedSecret_ok hsealed).1) rfl
  | setFactor selector factor tpmSecret =>
    obtain ⟨⟨i, d, secret⟩, hsealed, happly⟩ := except_bind_ok happly
    cases happly
    exact h.set i (List.mem_of_getElem? (factoredSecret_ok hsealed).1) rfl

/-! ## Programs -/

/-- what `p` leaves at a dated disk is dated, wherever it is cut, and a return satisfies `Q` -/
def Keeping (A : UInt64 → Prop) {α : Type} (p : Prog RegistryDisk CryptoError α) (Q : α → Prop) : Prop :=
  Spec (DatedDisk A) p (fun a disk => DatedDisk A disk ∧ Q a) (fun _ => DatedDisk A) (DatedDisk A)

section Keeping

variable {α β : Type} {p : Prog RegistryDisk CryptoError α} {Q R : α → Prop}

theorem Keeping.pure {a : α} (h : Q a) : Keeping A (pure a) Q := Spec.pure _ (fun _ hd => ⟨hd, h⟩) fun _ hd => hd

theorem Keeping.throw (e : CryptoError) : Keeping A (Prog.throw e) Q := Spec.throw (fun _ hd => hd) fun _ hd => hd

theorem Keeping.imp (h : Keeping A p Q) (hQ : ∀ a, Q a → R a) : Keeping A p R :=
  h.conseq (fun _ hd => hd) (fun a _ hq => ⟨hq.1, hQ a hq.2⟩) (fun _ _ he => he) fun _ hc => hc

theorem Keeping.bind {S : β → Prop} {q : α → Prog RegistryDisk CryptoError β} (hp : Keeping A p Q)
    (hq : ∀ a, Q a → Keeping A (q a) S) : Keeping A (p >>= q) S := by
  refine Spec.bind hp fun a => Spec.of_states fun disk hd => ?_
  exact (hq a hd.2).conseq (fun _ h => h ▸ hd.1) (fun _ _ h => h) (fun _ _ h => h) fun _ h => h

theorem Keeping.ofExcept {x : Except CryptoError α} : Keeping A (Prog.ofExcept x) fun a => x = .ok a := by
  cases x with
  | ok a => exact Keeping.pure rfl
  | error e => exact Keeping.throw e

theorem Keeping.attempt (h : Keeping A p Q) :
    Keeping A (Prog.attempt p : Prog RegistryDisk CryptoError (Except CryptoError α)) fun o => ∀ a, o = .ok a → Q a := by
  refine Spec.attempt h (fun a disk hq => ⟨hq.1, fun b hb => ?_⟩) fun e disk he => ⟨he, nofun⟩
  cases hb
  exact hq.2

theorem Dated.authenticate (h : Dated A reg) (stateKey : Bytes) : Dated A (authenticate P H stateKey reg) := h

theorem persist_dated (h : Dated A reg) (stateKey : Bytes) :
    Keeping A (persist P H stateKey reg) fun reg' => reg' = authenticate P H stateKey reg := by
  have hnew : Dated A (Devices.authenticate P H stateKey reg) := h.authenticate stateKey
  refine Keeping.bind Keeping.ofExcept fun _ _ => Keeping.bind Keeping.ofExcept fun _ _ => ?_
  refine Keeping.bind (Q := fun _ => True) ?_ fun _ _ => Keeping.pure rfl
  exact Spec.modify (fun _ _ => ⟨datedDisk_some.2 hnew, trivial⟩) (fun _ hd => hd) fun _ _ => datedDisk_some.2 hnew

/-- from one disk, with what is known of the registry on it -/
theorem load_bind_dated {disk : RegistryDisk} {q : DeviceRegistryFile → Prog RegistryDisk CryptoError α} (hdisk : DatedDisk A disk)
    (h : ∀ reg, disk = some (.ok reg) → Keeping A (q reg) Q) :
    Spec (fun u => u = disk) (load >>= q) (fun a u => DatedDisk A u ∧ Q a) (fun _ => DatedDisk A) (DatedDisk A) := by
  have hload : Spec (fun u => u = disk) load (fun reg u => u = disk ∧ disk = some (.ok reg)) (fun _ => DatedDisk A) (DatedDisk A) := by
    have hkeep : ∀ u, u = disk → DatedDisk A u := fun _ hu => hu ▸ hdisk
    refine Spec.get_bind ?_
    rintro _ rfl
    split
    · exact Spec.throw hkeep hkeep
    · exact Spec.throw hkeep hkeep
    · split_ifs
      · exact Spec.throw hkeep hkeep
      · exact Spec.ofExcept_bind_any (fun _ => hkeep) hkeep fun _ _ => Spec.pure _ (fun _ hu => ⟨hu, rfl⟩) hkeep
  refine Spec.bind hload fun reg => Spec.of_states fun u hu => ?_
  exact (h reg hu.2).conseq (fun _ h => by rw [h, hu.1]; exact hdisk) (fun _ _ h => h) (fun _ _ h => h) fun _ h => h

end Keeping

/-! ## Unlocks -/

/-- a home record of this registry opens -/
def HomeOpens (P : Primitives) (H : Hashes) (W : Surroundings) (reg : DeviceRegistryFile) : Prop :=
  ∃ d ∈ reg.devices, ∃ x, openHome P H W reg d = .ok x

/-- if a home record opens, the attested time counts -/
def Allows (P : Primitives) (H : Hashes) (W : Surroundings) (A : UInt64 → Prop) (reg : DeviceRegistryFile) : Prop :=
  HomeOpens P H W reg → ∀ now, W.attestedNow = .ok now → A now

theorem unlockWithHome_dated (h : Dated A reg) (hallows : Allows P H W A reg) (hd : d ∈ reg.devices) :
    Keeping A (unlockWithHome P H W reg d) fun x => Dated A x.1 ∧ HomeOpens P H W reg := by
  refine Keeping.bind Keeping.ofExcept fun x hopen => ?_
  obtain ⟨rmk, nk⟩ := x
  have hhome : HomeOpens P H W reg := ⟨d, hd, _, hopen⟩
  simp only
  split
  · exact Keeping.pure ⟨h, hhome⟩
  · next now hnow =>
    split_ifs
    · have hminted := (h.sweep now).mint (P := P) (W := W) rmk (hallows hhome now hnow)
      refine Keeping.bind (persist_dated hminted _) fun reg' hreg' => ?_
      exact Keeping.pure ⟨hreg' ▸ hminted.authenticate _, hhome⟩
    · exact Keeping.pure ⟨h, hhome⟩

theorem tryHomeRecords_dated (h : Dated A reg) (hallows : Allows P H W A reg) (ds : List DeviceRecord)
    (hds : ∀ d ∈ ds, d ∈ reg.devices) (reasons : List String) :
    Keeping A (tryHomeRecords P H W reg ds reasons) fun o => ∀ x, o = .ok x →
      Dated A x.1 ∧ HomeOpens P H W reg ∧ ∀ id label t, x.2.2 ≠ .away id label t := by
  induction ds generalizing reasons with
  | nil => exact Keeping.pure fun x hx => by cases hx
  | cons d ds ih =>
    rw [List.forall_mem_cons] at hds
    unfold tryHomeRecords
    split_ifs
    · exact ih hds.2 reasons
    · refine Keeping.bind (unlockWithHome_dated h hallows hds.1).attempt fun o ho => ?_
      cases o with
      | ok x =>
        refine Keeping.pure fun y hy => ?_
        cases hy
        exact ⟨(ho x rfl).1, (ho x rfl).2, fun id label t haway => by cases haway⟩
      | error e =>
        simp only
        split_ifs
        · exact ih hds.2 _
        · exact Keeping.throw e

/-- the grant of this record, if it is what opens it, has not ended by the attested time -/
def Unexpired (W : Surroundings) (d : DeviceRecord) : Prop :=
  d.wrap = none → ∀ g, d.grant = some g → ∃ now, W.attestedNow = .ok now ∧ now ≤ g.notAfterUnix

theorem sweepForAway_dated (h : Dated B reg) (hBA : ∀ t, B t → A t) (stateKey : Bytes) :
    Keeping A (sweepForAway P H W stateKey reg d) fun x => (Dated B x.1 ∧ x.1.awayGrantSeconds = reg.awayGrantSeconds) ∧
      ∀ n, x.2 = .ok n → Unexpired W d := by
  unfold sweepForAway
  split
  · next g _ hg =>
    split
    · exact Keeping.pure ⟨⟨h, rfl⟩, nofun⟩
    · next now hnow =>
      simp only
      split_ifs with hend
      · refine Keeping.bind (persist_dated ((h.sweep now).mono hBA) stateKey) fun reg' hreg' => ?_
        exact Keeping.pure ⟨⟨hreg' ▸ (h.sweep now).authenticate _, by rw [hreg']; rfl⟩, nofun⟩
      · refine Keeping.pure ⟨⟨h.sweep now, rfl⟩, fun _ _ _ g' hg' => ?_⟩
        cases hg.symm.trans hg'
        exact ⟨now, hnow, UInt64.not_lt.1 hend⟩
  · next hnot => exact Keeping.pure ⟨⟨h, rfl⟩, fun _ _ hw g hg => absurd hg (hnot g hw)⟩

theorem unlockWithAway_dated (h : Dated B reg) (hBA : ∀ t, B t → A t) (i : ℕ) (secret : Bytes) (asserted : UInt32) :
    Keeping A (unlockWithAway P H W reg i d secret asserted) fun x =>
      (Dated B x.1 ∧ x.1.awayGrantSeconds = reg.awayGrantSeconds) ∧ ∀ u, x.2 = .ok u → Unexpired W d := by
  unfold unlockWithAway
  split
  · exact Keeping.pure ⟨⟨h, rfl⟩, nofun⟩
  · next rmk _ =>
    refine Keeping.bind (sweepForAway_dated h hBA _) fun x hx => ?_
    obtain ⟨reg', erased⟩ := x
    obtain ⟨⟨hreg', hperiod⟩, hunexpired⟩ := hx
    simp only at hreg' hperiod hunexpired ⊢
    split
    · exact Keeping.pure ⟨⟨hreg', hperiod⟩, nofun⟩
    · split
      · exact Keeping.pure ⟨⟨hreg', hperiod⟩, nofun⟩
      · have hcounted := hreg'.counted i (some asserted)
        refine Keeping.bind (persist_dated (hcounted.mono hBA) _) fun reg'' hreg'' => ?_
        refine Keeping.pure ⟨⟨hreg'' ▸ hcounted.authenticate _, ?_⟩, fun _ _ => hunexpired _ rfl⟩
        rw [hreg'']
        exact hperiod

theorem awayAttempt_dated (h : Dated B reg) (hBA : ∀ t, B t → A t) (i : ℕ) : Keeping A (awayAttempt P H W reg i d) fun x =>
    (Dated B x.1 ∧ x.1.awayGrantSeconds = reg.awayGrantSeconds) ∧ ∀ u, x.2 = .ok u → Unexpired W d := by
  unfold awayAttempt
  split
  · exact Keeping.pure ⟨⟨h, rfl⟩, nofun⟩
  · split
    · exact Keeping.pure ⟨⟨h, rfl⟩, nofun⟩
    · exact unlockWithAway_dated h hBA i _ _

/-- what an unlock that succeeds says: the registry it leaves is dated, a home authority means that a home record opened, and
the grant that opened an away record was issued before, at most the period before the attested time -/
structure Admitted (P : Primitives) (H : Hashes) (W : Surroundings) (A B : UInt64 → Prop) (reg : DeviceRegistryFile)
    (out : UnlockOutcome) : Prop where
  dated : Dated A out.registry
  home : out.authority.isHome = true → HomeOpens P H W reg
  away : ∀ id label t, out.authority = .away id label (some t) → ∃ now issued, W.attestedNow = .ok now ∧ B issued ∧
    now.toNat ≤ issued.toNat + out.registry.awayGrantSeconds.toNat

/-- an away record that opened -/
theorem admitted_away {u : Unlock} {r : DeviceRegistryFile} (h : Dated B reg) (hBA : ∀ t, B t → A t) (hd : d ∈ reg.devices)
    (hunexpired : Unexpired W d) (hdated : Dated B reg') (hperiod : reg'.awayGrantSeconds = reg.awayGrantSeconds) :
    Admitted P H W A B r (finishOutcome P reg' u
      (.away d.id d.label (if d.wrap.isSome then none else d.grant.map (·.notAfterUnix)))) := by
  refine ⟨hdated.mono hBA, nofun, fun id label t hauth => ?_⟩
  simp only [finishOutcome, Authority.away.injEq] at hauth
  obtain ⟨-, -, ht⟩ := hauth
  split_ifs at ht with hwrap
  obtain ⟨g, hg, rfl⟩ := Option.map_eq_some_iff.1 ht
  obtain ⟨now, hnow, hend⟩ := hunexpired (Option.not_isSome_iff_eq_none.1 hwrap) g hg
  obtain ⟨hissued, hspan⟩ := h d hd g hg
  refine ⟨now, g.issuedAtUnix, hnow, hissued, ?_⟩
  simp only [finishOutcome]
  rw [hperiod]
  exact (UInt64.le_iff_toNat_le.1 hend).trans hspan

theorem tryAwayRecords_dated {r : DeviceRegistryFile} (h : Dated B reg) (hBA : ∀ t, B t → A t) (is : List ℕ)
    (reasons : List String) : Keeping A (tryAwayRecords P H W reg is reasons) (Admitted P H W A B r) := by
  induction is generalizing reg reasons with
  | nil => exact Keeping.throw _
  | cons i is ih =>
    unfold tryAwayRecords
    split
    · exact ih h _
    · next d hd =>
      split
      · exact ih h _
      · split
        · exact ih h _
        · refine Keeping.bind (awayAttempt_dated h hBA i) fun x hx => ?_
          obtain ⟨reg', o⟩ := x
          obtain ⟨⟨hreg', hperiod⟩, hunexpired⟩ := hx
          cases o with
          | ok u => exact Keeping.pure (admitted_away h hBA (List.mem_of_getElem? hd) (hunexpired u rfl) hreg' hperiod)
          | error e =>
            simp only
            split_ifs
            · exact ih hreg' _
            · exact Keeping.throw e

theorem unlockDevices_dated (h : Dated B reg) (hBA : ∀ t, B t → A t) (hallows : Allows P H W A reg) :
    Keeping A (unlockDevices P H W reg) (Admitted P H W A B reg) := by
  refine Keeping.bind (tryHomeRecords_dated (h.mono hBA) hallows reg.devices (fun _ hd => hd) []) fun o ho => ?_
  cases o with
  | ok x =>
    obtain ⟨hdated, hhome, hauth⟩ := ho x rfl
    exact Keeping.pure ⟨hdated, fun _ => hhome, fun id label t h => absurd h (hauth id label _)⟩
  | error reasons => exact tryAwayRecords_dated h hBA _ reasons

theorem emergencyUnlock_dated (h : Dated A reg) (code : Option String) :
    Keeping A (emergencyUnlock P H W reg code) fun o => ∀ x, o = some x → Dated A x.1 := by
  unfold emergencyUnlock
  cases code with
  | none => exact Keeping.pure nofun
  | some text =>
    refine Keeping.bind Keeping.ofExcept fun x _ => ?_
    obtain ⟨rmk, pos, nk⟩ := x
    have hburned : Dated A { reg with emergencySlots := reg.emergencySlots.modify pos (burn W.nowHost) } := h
    refine Keeping.bind (persist_dated hburned _) fun reg' hreg' => Keeping.pure fun y hy => ?_
    cases hy
    exact hreg' ▸ hburned.authenticate _

/-- **An unlock dates every grant**, whichever way the registry is opened and wherever the run is cut. -/
theorem openBy_dated {disk : RegistryDisk} (hdisk : DatedDisk B disk) (hBA : ∀ t, B t → A t)
    (hallows : ∀ reg, disk = some (.ok reg) → Allows P H W A reg) (o : Opener) :
    Spec (fun u => u = disk) (openBy P H W o)
      (fun out u => DatedDisk A u ∧ ∃ reg, disk = some (.ok reg) ∧ Admitted P H W A B reg out) (fun _ => DatedDisk A)
      (DatedDisk A) := by
  have hdiskA := hdisk.mono hBA
  have hemergency : ∀ {reg reg' : DeviceRegistryFile} {u : Unlock} {slot : UInt8}, Dated A reg' →
      Admitted P H W A B reg (finishOutcome P reg' u (.emergency slot)) := fun h => ⟨h, nofun, nofun⟩
  cases o with
  | any =>
    refine load_bind_dated hdiskA fun reg hreg => ?_
    have h := hdisk reg hreg
    have hdevices := (unlockDevices_dated h hBA (hallows reg hreg)).imp (R := fun out => ∃ reg, disk = some (.ok reg) ∧
      Admitted P H W A B reg out) fun out hout => ⟨reg, hreg, hout⟩
    refine Keeping.bind Keeping.ofExcept fun code _ => ?_
    refine Keeping.bind (emergencyUnlock_dated (h.mono hBA) code).attempt fun o ho => ?_
    split
    · next x => exact Keeping.pure ⟨reg, hreg, hemergency (ho _ rfl _ rfl)⟩
    · exact hdevices
    · exact hdevices
    · exact hdevices
    · exact Keeping.throw _
  | home i =>
    refine load_bind_dated hdiskA fun reg hreg => ?_
    split
    · exact Keeping.throw _
    · next d hd =>
      refine Keeping.bind (unlockWithHome_dated (hdiskA reg hreg) (hallows reg hreg) (List.mem_of_getElem? hd)) fun x hx => ?_
      exact Keeping.pure ⟨reg, hreg, hx.1, fun _ => hx.2, nofun⟩
  | away i =>
    refine load_bind_dated hdiskA fun reg hreg => ?_
    split
    · exact Keeping.throw _
    · next d hd =>
      refine Keeping.bind (awayAttempt_dated (hdisk reg hreg) hBA i) fun x hx => ?_
      obtain ⟨reg', o⟩ := x
      obtain ⟨⟨hreg', hperiod⟩, hunexpired⟩ := hx
      cases o with
      | ok u =>
        have hmem := List.mem_of_getElem? hd
        exact Keeping.pure ⟨reg, hreg, admitted_away (hdisk reg hreg) hBA hmem (hunexpired u rfl) hreg' hperiod⟩
      | error e => exact Keeping.throw e
  | emergency =>
    refine load_bind_dated hdiskA fun reg hreg => Keeping.bind Keeping.ofExcept fun code _ => ?_
    refine Keeping.bind (emergencyUnlock_dated (hdiskA reg hreg) code) fun o ho => ?_
    cases o with
    | none => exact Keeping.throw _
    | some x => exact Keeping.pure ⟨reg, hreg, hemergency (ho x rfl)⟩

/-! ## Commands, rewrites, sweeps, initialisation -/

variable {disk : RegistryDisk}

/-- what is left on the disk is dated, wherever the program is cut -/
def LeavesDated (A : UInt64 → Prop) (disk : RegistryDisk) {ε α : Type} (p : Prog RegistryDisk ε α) : Prop :=
  Spec (fun u => u = disk) p (fun _ => DatedDisk A) (fun _ => DatedDisk A) (DatedDisk A)

theorem openBy_leaves (hdisk : DatedDisk A disk) (hallows : ∀ reg, disk = some (.ok reg) → Allows P H W A reg) (o : Opener) :
    LeavesDated A disk (openBy P H W o) :=
  (openBy_dated hdisk (fun _ h => h) hallows o).conseq (fun _ h => h) (fun _ _ h => h.1) (fun _ _ h => h) fun _ h => h

theorem Keeping.leaves {α : Type} {p : Prog RegistryDisk CryptoError α} {Q : α → Prop} (h : Keeping A p Q)
    (hdisk : DatedDisk A disk) : LeavesDated A disk p :=
  h.conseq (fun _ hu => hu ▸ hdisk) (fun _ _ hq => hq.1) (fun _ _ he => he) fun _ hc => hc

/-- a program after an unlock, from the registry that the unlock leaves -/
theorem openBy_then {α : Type} {o : Opener} {q : UnlockOutcome → Prog RegistryDisk CryptoError α} {Q : α → Prop}
    (hdisk : DatedDisk A disk) (hallows : ∀ reg, disk = some (.ok reg) → Allows P H W A reg)
    (hq : ∀ out reg, disk = some (.ok reg) → Admitted P H W A A reg out → Keeping A (q out) Q) :
    LeavesDated A disk (openBy P H W o >>= q) := by
  refine Spec.bind ((openBy_dated hdisk (fun _ h => h) hallows o).conseq (fun _ h => h) (fun _ _ h => h) (fun _ _ h => h) fun _ h => h) ?_
  refine fun out => Spec.of_states fun u hu => ?_
  obtain ⟨hu, reg, hreg, hout⟩ := hu
  exact (hq out reg hreg hout).leaves hu

theorem command_dated {B : Bench} {m : Mutation} (hdisk : DatedDisk A disk) (o : Opener)
    (hallows : ∀ reg, disk = some (.ok reg) → Allows P H W A reg)
    (hB : (∃ reg, disk = some (.ok reg) ∧ HomeOpens P H W reg) ∨ m.EnrollsHome → ∀ now, B.attestedNow = .ok now → A now) :
    LeavesDated A disk (command P H W o B m) := by
  refine openBy_then (Q := fun _ => True) hdisk hallows fun out reg hreg hout => ?_
  refine Keeping.bind Keeping.ofExcept fun reg' happly => ?_
  have hdated : Dated A reg' :=
    Mutation.apply_dated hout.dated (fun h => hB (h.imp (fun hhome => ⟨reg, hreg, hout.home hhome⟩) id)) happly
  exact Keeping.bind (persist_dated hdated _) fun _ _ => Keeping.pure trivial

theorem rewrite_dated {newNk : Key32} (hdisk : DatedDisk A disk) (o : Opener)
    (hallows : ∀ reg, disk = some (.ok reg) → Allows P H W A reg) : LeavesDated A disk (rewrite P H W o newNk) := by
  refine openBy_then (Q := fun _ => True) hdisk hallows fun out _ _ hout => ?_
  exact (persist_dated (hout.dated.rewrapped _) _).imp fun _ _ => trivial

/-- a sweep mints only with a master key -/
theorem sweepNow_dated {busy : Bool} {stateKey : Bytes} {master : Option Bytes} (hdisk : DatedDisk A disk)
    (hmint : master.isSome = true → ∀ now, W.attestedNow = .ok now → A now) :
    LeavesDated A disk (sweepNow P H W busy stateKey master) := by
  unfold sweepNow
  split
  · exact (Keeping.pure (Q := fun _ => True) trivial).leaves hdisk
  · refine (load_bind_dated (Q := fun _ => True) hdisk fun reg hreg => ?_).conseq (fun _ h => h) (fun _ _ h => h.1)
      (fun _ _ h => h) fun _ h => h
    have h := hdisk reg hreg
    have hend : ∀ (now : UInt64) (minted : DeviceRegistryFile × ℕ), Dated A minted.1 → Keeping A
        (if minted.2 > 0 ∨ (sweepGrants reg now).2 > 0 then do
          let _ ← persist P H stateKey minted.1
          pure (minted.2, (sweepGrants reg now).2)
        else pure (minted.2, (sweepGrants reg now).2)) fun _ => True := by
      intro now minted hminted
      split_ifs
      · exact Keeping.bind (persist_dated hminted stateKey) fun _ _ => Keeping.pure trivial
      · exact Keeping.pure trivial
    split
    · exact Keeping.pure trivial
    · split
      · exact Keeping.pure trivial
      · split
        · exact Keeping.pure trivial
        · next now hnow =>
          cases master with
          | none => exact hend now _ (h.sweep now)
          | some rmk => exact hend now _ ((h.sweep now).mint rmk (hmint rfl now hnow))

/-- a repair leaves no grant -/
theorem repairStateEntry_dated {B : RepairBench} {flags : RepairFlags} (hdisk : DatedDisk A disk) :
    LeavesDated A disk (repairStateEntry P H B flags) := by
  have hdone : ∀ {authority : Authority} {u : RegistryDisk}, RepairsTo P H B flags disk authority u → DatedDisk A u := by
    rintro authority _ ⟨reg, rmk, reg', -, -, rfl⟩
    refine datedDisk_some.2 fun d hd g hg => ?_
    rw [repaired_grant hd] at hg
    cases hg
  refine (repair_spec P H B flags disk).conseq (fun _ h => h) (fun _ _ h => hdone h) (fun _ _ h => h ▸ hdisk) fun u h => ?_
  rcases h with rfl | ⟨authority, h⟩
  · exact hdisk
  · exact hdone h

theorem initRegistry_dated {I : InitBench} {first : NewDevice} {seconds : UInt32} {permanentAway : Bool} {now : UInt64}
    {adopt : Option Key32} (hdisk : DatedDisk A disk) :
    LeavesDated A disk (initRegistry P H I first seconds permanentAway now adopt) := by
  have hkeep : ∀ u, u = disk → DatedDisk A u := fun _ hu => hu ▸ hdisk
  have hwrite : LeavesDated A disk (do
      let reg ← Prog.ofExcept (initialRegistry P H I first seconds permanentAway now adopt)
      Prog.ofExcept I.print
      Prog.modify fun _ => some (.ok reg)
      pure (initialNodeKey P H I adopt, reg)) := by
    refine Spec.ofExcept_bind_any (fun _ => hkeep) hkeep fun reg hreg => ?_
    refine Spec.ofExcept_bind_any (fun _ => hkeep) hkeep fun _ _ => ?_
    have hfirst : DatedDisk A (some (.ok reg)) := by
      obtain ⟨d, hd, hreg⟩ := except_bind_ok hreg
      obtain ⟨⟨⟩, -, hreg⟩ := except_bind_ok hreg
      cases hreg
      refine datedDisk_some.2 fun e he g hg => ?_
      rw [List.mem_singleton.1 he, newRecord_grant hd] at hg
      cases hg
    exact Spec.bind (R := fun _ => DatedDisk A) (Spec.modify (fun _ _ => hfirst) hkeep fun _ _ => hfirst) fun _ =>
      Spec.pure _ (fun _ h => h) fun _ h => h
  refine Spec.get_bind ?_
  rintro _ rfl
  split_ifs
  · exact Spec.throw hkeep hkeep
  · refine Spec.ofExcept_bind_any (fun _ => hkeep) hkeep fun _ _ => ?_
    split
    · exact Spec.ofExcept_bind_any (fun _ => hkeep) hkeep fun _ _ => hwrite
    · exact hwrite

/-! ## Sites -/

structure Site where
  disk : RegistryDisk
  /-- every registry file the medium ever held -/
  files : List RegistryDisk
  /-- what the running daemons keep: `registry_state_key` and `registry_master_key` -/
  daemons : List (Bytes × Option Bytes)

inductive Event where
  | init (I : InitBench) (first : NewDevice) (seconds : UInt32) (permanentAway : Bool) (now : UInt64) (adopt : Option Key32)
  /-- `unlock_devices` as a daemon starts -/
  | boot (W : Surroundings)
  /-- `grant_sweep_once` by the `i`-th daemon -/
  | tick (W : Surroundings) (i : ℕ) (busy : Bool)
  | command (W : Surroundings) (o : Opener) (B : Bench) (m : Mutation)
  | rewrite (W : Surroundings) (o : Opener) (newNk : Key32)
  | repair (B : RepairBench) (flags : RepairFlags)
  /-- somebody puts an earlier registry file back -/
  | restore (i : ℕ)

/-- an event, the write before which it is cut if it is, and the true time in which its surroundings answer -/
structure Step where
  event : Event
  cut : Option ℕ
  start : ℕ
  finish : ℕ

def written {ε α : Type} (cut : Option ℕ) (p : Prog RegistryDisk ε α) (disk : RegistryDisk) : List RegistryDisk :=
  match cut with
  | none => (p disk).1
  | some k => (p disk).1.take k

def Site.after {ε α : Type} (s : Site) (cut : Option ℕ) (p : Prog RegistryDisk ε α) : Site :=
  { s with disk := (written cut p s.disk).getLastD s.disk, files := s.files ++ written cut p s.disk }

/-- the master key is kept only after a boot by a home device -/
def Site.booted (s : Site) (cut : Option ℕ) (r : Except CryptoError UnlockOutcome) : Site :=
  match cut, r with
  | none, .ok out => { s with
      daemons := s.daemons ++ [(out.registryStateKey, if out.authority.isHome then some out.registryMasterKey else none)] }
  | _, _ => s

variable (P : Primitives) (H : Hashes)

def Site.step (s : Site) (e : Step) : Site :=
  match e.event with
  | .init I first seconds permanentAway now adopt => s.after e.cut (initRegistry P H I first seconds permanentAway now adopt)
  | .boot W => (s.after e.cut (unlock P H W)).booted e.cut ((unlock P H W).result s.disk)
  | .tick W i busy =>
    match s.daemons[i]? with
    | none => s
    | some (stateKey, master) => s.after e.cut (sweepNow P H W busy stateKey master)
  | .command W o B m => s.after e.cut (Devices.command P H W o B m)
  | .rewrite W o newNk => s.after e.cut (Devices.rewrite P H W o newNk)
  | .repair B flags => s.after e.cut (repairStateEntry P H B flags)
  | .restore i => { s with disk := s.files.getD i s.disk }

/-- a blank medium -/
def Site.blank : Site := ⟨none, [none], []⟩

def Site.runs (steps : List Step) : Site := run (fun s e => s.step P H e) Site.blank steps

/-- the times that are attested during the event -/
def Event.attested : Event → List (Except CryptoError UInt64)
  | .boot W => [W.attestedNow]
  | .tick W _ _ => [W.attestedNow]
  | .command W _ B _ => [W.attestedNow, B.attestedNow]
  | .rewrite W _ _ => [W.attestedNow]
  | .init .. => []
  | .repair _ _ => []
  | .restore _ => []

def Site.HomeOpens (s : Site) (W : Surroundings) : Prop := ∃ reg, s.disk = some (.ok reg) ∧ Devices.HomeOpens P H W reg

/-- a home device answers, or one is enrolled -/
def Site.AtHome (s : Site) : Event → Prop
  | .boot W => s.HomeOpens P H W
  | .command W _ _ m => s.HomeOpens P H W ∨ m.EnrollsHome
  | .rewrite W _ _ => s.HomeOpens P H W
  | _ => False

/-- a daemon that keeps the master key sweeps -/
def Site.Sweeps (s : Site) : Event → Prop
  | .tick _ i _ => ∃ k ∈ s.daemons[i]?, k.2.isSome = true
  | _ => False

def Site.Mints (s : Site) (e : Event) : Prop := s.AtHome P H e ∨ s.Sweeps e

theorem Site.Sweeps.keeps {s : Site} {e : Event} (h : s.Sweeps e) : ∃ k ∈ s.daemons, k.2.isSome = true := by
  cases e with
  | tick W i busy =>
    obtain ⟨k, hk, hsome⟩ := h
    exact ⟨k, List.mem_of_getElem? hk, hsome⟩
  | init => cases h
  | boot => cases h
  | command => cases h
  | rewrite => cases h
  | repair => cases h
  | restore => cases h

/-- every registry file is dated, that on the disk and those that were -/
structure Site.Dated (A : UInt64 → Prop) (s : Site) : Prop where
  disk : DatedDisk A s.disk
  files : ∀ f ∈ s.files, DatedDisk A f

variable {P H} {s : Site}

theorem Site.Dated.mono (h : s.Dated A) (hA : ∀ t, A t → A' t) : s.Dated A' :=
  ⟨h.disk.mono hA, fun f hf => (h.files f hf).mono hA⟩

theorem mem_written {ε α : Type} {cut : Option ℕ} {p : Prog RegistryDisk ε α} {f : RegistryDisk}
    (h : f ∈ written cut p disk) : f ∈ (p disk).1 := by
  cases cut with
  | none => exact h
  | some k => exact List.mem_of_mem_take h

theorem Site.Dated.after {ε α : Type} {p : Prog RegistryDisk ε α} (h : s.Dated A) (cut : Option ℕ)
    (hp : LeavesDated A s.disk p) : (s.after cut p).Dated A := by
  have hwritten : ∀ f ∈ written cut p s.disk, DatedDisk A f := fun f hf => (hp s.disk rfl).1 f (Or.inr (mem_written hf))
  refine ⟨?_, fun f hf => ?_⟩
  · simp only [Site.after, List.getLastD_eq_getLast?]
    cases hlast : (written cut p s.disk).getLast? with
    | none => exact h.disk
    | some f => exact hwritten f (List.mem_of_getLast? hlast)
  · rcases List.mem_append.1 hf with hf | hf
    · exact h.files f hf
    · exact hwritten f hf

theorem Site.Dated.booted (h : s.Dated A) (cut : Option ℕ) (r : Except CryptoError UnlockOutcome) : (s.booted cut r).Dated A := by
  unfold Site.booted
  split
  · exact ⟨h.disk, h.files⟩
  · exact h

/-- **A step dates every file**, if the times attested during it count whenever it mints. -/
theorem Site.step_dated (e : Step) (h : s.Dated A)
    (hmints : s.Mints P H e.event → ∀ t, .ok t ∈ e.event.attested → A t) : (s.step P H e).Dated A := by
  have hallows : ∀ W, (s.HomeOpens P H W → ∀ t, W.attestedNow = .ok t → A t) →
      ∀ reg, s.disk = some (.ok reg) → Allows P H W A reg :=
    fun W hW reg hreg hopens => hW ⟨reg, hreg, hopens⟩
  obtain ⟨event, cut, start, finish⟩ := e
  cases event with
  | init I first seconds permanentAway now adopt => exact h.after cut (initRegistry_dated h.disk)
  | boot W =>
    refine (h.after cut (openBy_leaves (o := .any) h.disk (hallows W fun hopens t ht => ?_))).booted cut _
    exact hmints (Or.inl hopens) t (ht ▸ List.mem_singleton_self _)
  | tick W i busy =>
    simp only [Site.step]
    split
    · exact h
    · next stateKey master hdaemon =>
      refine h.after cut (sweepNow_dated h.disk fun hmaster t ht => ?_)
      exact hmints (Or.inr ⟨_, hdaemon, hmaster⟩) t (ht ▸ List.mem_singleton_self _)
  | command W o B m =>
    refine h.after cut (command_dated h.disk o (hallows W fun hopens t ht => ?_) fun hauth t ht => ?_)
    · exact hmints (Or.inl (Or.inl hopens)) t (ht ▸ List.mem_cons_self)
    · exact hmints (Or.inl hauth) t (ht ▸ List.mem_cons_of_mem _ (List.mem_singleton_self _))
  | rewrite W o newNk =>
    refine h.after cut (rewrite_dated h.disk o (hallows W fun hopens t ht => ?_))
    exact hmints (Or.inl hopens) t (ht ▸ List.mem_singleton_self _)
  | repair B flags => exact h.after cut (repairStateEntry_dated h.disk)
  | restore i =>
    refine ⟨?_, h.files⟩
    simp only [Site.step, List.getD_eq_getElem?_getD]
    cases hfile : s.files[i]? with
    | none => exact h.disk
    | some f => exact h.files f (List.mem_of_getElem? hfile)

/-- the only daemon that is new after a step is the one that was booted, and it keeps a master key only if a home device answered -/
theorem Site.step_daemons (e : Step) (h : s.Dated A) {k : Bytes × Option Bytes} (hk : k ∈ (s.step P H e).daemons) :
    k ∈ s.daemons ∨ (k.2.isSome = true → s.AtHome P H e.event) := by
  obtain ⟨event, cut, start, finish⟩ := e
  cases event with
  | boot W =>
    simp only [Site.step, Site.booted] at hk
    split at hk
    · next out hout =>
      rcases List.mem_append.1 hk with hk | hk
      · exact Or.inl hk
      · refine Or.inr fun hsome => ?_
        rw [List.mem_singleton.1 hk] at hsome
        simp only at hsome
        split_ifs at hsome with hhome
        · have hdisk : DatedDisk (fun _ => True) s.disk := h.disk.mono fun _ _ => trivial
          obtain ⟨-, hok, -⟩ := openBy_dated (W := W) hdisk (fun _ h => h) (fun _ _ _ _ _ => trivial) .any s.disk rfl
          obtain ⟨-, reg, hreg, hadmitted⟩ := hok out hout
          exact ⟨reg, hreg, hadmitted.home hhome⟩
        · cases hsome
    · exact Or.inl hk
  | tick W i busy =>
    simp only [Site.step] at hk
    split at hk
    · exact Or.inl hk
    · exact Or.inl hk
  | init => exact Or.inl hk
  | command => exact Or.inl hk
  | rewrite => exact Or.inl hk
  | repair => exact Or.inl hk
  | restore => exact Or.inl hk

/-! ## Runs -/

variable {steps : List Step}

theorem runs_snoc (e : Step) : Site.runs P H (steps ++ [e]) = (Site.runs P H steps).step P H e := run_append _ _ _ _

/-- a step of the run, with the state it was taken from -/
def Took (P : Primitives) (H : Hashes) (steps : List Step) (Q : Site → Step → Prop) : Prop :=
  ∃ before e after, steps = before ++ e :: after ∧ Q (Site.runs P H before) e

theorem Took.snoc {Q : Site → Step → Prop} (h : Took P H steps Q) (e : Step) : Took P H (steps ++ [e]) Q := by
  obtain ⟨before, e', after, rfl, hQ⟩ := h
  exact ⟨before, e', after ++ [e], by simp, hQ⟩

theorem Took.last {Q : Site → Step → Prop} {e : Step} (h : Q (Site.runs P H steps) e) : Took P H (steps ++ [e]) Q :=
  ⟨steps, e, [], rfl, h⟩

/-- the time was attested during a step that mints -/
def Issued (P : Primitives) (H : Hashes) (steps : List Step) (t : UInt64) : Prop :=
  Took P H steps fun s e => s.Mints P H e.event ∧ .ok t ∈ e.event.attested

theorem runs_dated (P : Primitives) (H : Hashes) (steps : List Step) : (Site.runs P H steps).Dated (Issued P H steps) := by
  induction steps using List.reverseRecOn with
  | nil => exact ⟨datedDisk_none, fun f hf => List.mem_singleton.1 hf ▸ datedDisk_none⟩
  | append_singleton steps e ih =>
    rw [runs_snoc]
    refine Site.step_dated e (ih.mono fun t ht => ht.snoc e) fun hmints t ht => ?_
    exact Took.last ⟨hmints, ht⟩

/-- a daemon keeps a master key only if a home device answered at its boot -/
theorem runs_daemons (P : Primitives) (H : Hashes) (steps : List Step) : ∀ k ∈ (Site.runs P H steps).daemons, k.2.isSome = true →
    Took P H steps fun s e => s.AtHome P H e.event := by
  induction steps using List.reverseRecOn with
  | nil => exact fun k hk => absurd hk List.not_mem_nil
  | append_singleton steps e ih =>
    rw [runs_snoc]
    intro k hk hsome
    rcases Site.step_daemons e (runs_dated P H steps) hk with hk | hboot
    · exact (ih k hk hsome).snoc e
    · exact Took.last (hboot hsome)

/-- an answer of attested time, from servers of which fewer lie than answers are required -/
def Attests (SocketAddr : Type) [DecidableEq SocketAddr] (start finish : ℕ) (x : Except CryptoError UInt64) : Prop :=
  ∃ (N : Roughtime.Network SocketAddr) (cfg : Roughtime.RoughtimeConfig) (bad : Finset SocketAddr),
    x = Roughtime.attestedNow N cfg ∧ bad.card < cfg.minResponses.toNat ∧ ∀ a ∉ bad, N.Honest start finish a

theorem Attests.accurate {SocketAddr : Type} [DecidableEq SocketAddr] {start finish : ℕ} {x : Except CryptoError UInt64} {t : UInt64}
    (h : Attests SocketAddr start finish x) (ht : x = .ok t) : Roughtime.Accurate start finish 120 t := by
  obtain ⟨N, cfg, bad, rfl, hbad, hhonest⟩ := h
  exact Roughtime.accurate_of_quorum hbad hhonest ht

/-- **Away access lapses.** Whatever happened to a medium since it was blank, with any files put back and any step cut: if an
away device opens the registry by its grant, then no longer before than the registry's period and four minutes of true time a
home device answered or was enrolled, or a daemon swept at whose boot one had answered. -/
theorem away_access_lapses {SocketAddr : Type} [DecidableEq SocketAddr] (P : Primitives) (H : Hashes) (steps : List Step)
    (W : Surroundings) (o : Opener) (start finish : ℕ) (hW : Attests SocketAddr start finish W.attestedNow)
    (hsteps : ∀ e ∈ steps, ∀ x ∈ e.event.attested, Attests SocketAddr e.start e.finish x) {out : UnlockOutcome}
    (hout : (openBy P H W o).result (Site.runs P H steps).disk = .ok out) {id label : String} {t : UInt64}
    (hauth : out.authority = .away id label (some t)) :
    ∃ before e after, steps = before ++ e :: after ∧ start ≤ e.finish + out.registry.awayGrantSeconds.toNat + 240 ∧
      ((Site.runs P H before).AtHome P H e.event ∨ (Site.runs P H before).Sweeps e.event ∧
        ∃ before' e' after', before = before' ++ e' :: after' ∧ (Site.runs P H before').AtHome P H e'.event) := by
  -- what a home device that answers now would mint is not what the away device is opened by
  have hallows : ∀ reg, (Site.runs P H steps).disk = some (.ok reg) →
      Allows P H W (fun t => Issued P H steps t ∨ W.attestedNow = .ok t) reg := fun _ _ _ _ hnow => Or.inr hnow
  obtain ⟨-, hok, -⟩ := openBy_dated (runs_dated P H steps).disk (fun _ h => Or.inl h) hallows o _ rfl
  obtain ⟨-, reg, -, hadmitted⟩ := hok out hout
  obtain ⟨now, issued, hnow, ⟨before, e, after, rfl, hmints, hissued⟩, hspan⟩ := hadmitted.away id label t hauth
  have hlate := (hW.accurate hnow).1
  have hearly := ((hsteps e (by simp) _ hissued).accurate rfl).2
  refine ⟨before, e, after, rfl, by omega, ?_⟩
  rcases hmints with hhome | hsweeps
  · exact Or.inl hhome
  · refine Or.inr ⟨hsweeps, ?_⟩
    obtain ⟨k, hk, hsome⟩ := hsweeps.keeps
    exact runs_daemons P H before k hk hsome

namespace Drill

/-- what two servers attest of which one is not to be trusted -/
def attested : Surroundings := { surroundings with attestedNow := .ok 1002 }

def attestedBench : Bench := { bench with toSurroundings := attested }

/-- a token is enrolled, the home device boots a daemon, the token is removed, and the file that has it is put back -/
def past : List Step :=
  [⟨.init initBench home 60 false 0 none, none, 1000, 1000⟩,
    ⟨.command attested (.home 0) attestedBench (.enroll token), none, 1000, 1000⟩,
    ⟨.boot attested, none, 1000, 1000⟩,
    ⟨.command attested (.home 0) attestedBench (.remove "token"), none, 1000, 1000⟩,
    ⟨.restore 3, none, 1000, 1000⟩]

theorem attests : Attests ℕ 1000 1000 attested.attestedNow :=
  ⟨Roughtime.Drill.network, Roughtime.Drill.cfg, {9}, rfl, by decide, Roughtime.Drill.honest⟩

theorem attests_past : ∀ e ∈ past, ∀ x ∈ e.event.attested, Attests ℕ e.start e.finish x := by
  have hcommand : ∀ x ∈ [attested.attestedNow, attestedBench.attestedNow], Attests ℕ 1000 1000 x :=
    List.forall_mem_cons.2 ⟨attests, List.forall_mem_singleton.2 attests⟩
  refine List.forall_mem_cons.2 ⟨nofun, List.forall_mem_cons.2 ⟨hcommand, List.forall_mem_cons.2 ⟨?_, ?_⟩⟩⟩
  · exact List.forall_mem_singleton.2 attests
  · exact List.forall_mem_cons.2 ⟨hcommand, List.forall_mem_singleton.2 nofun⟩

theorem opens : ((openBy primitives hashes attested (.away 1)).result (Site.runs primitives hashes past).disk).toOption.map
    (·.authority) = some (.away "01000000000000000000000000000000" "token" (some 1062)) := by decide +kernel

end Drill

open Drill in
theorem away_access_lapses_restored :
    ∃ out, (openBy primitives hashes attested (.away 1)).result (Site.runs primitives hashes past).disk = .ok out ∧
      ∃ before e after, past = before ++ e :: after ∧ 1000 ≤ e.finish + out.registry.awayGrantSeconds.toNat + 240 ∧
        ((Site.runs primitives hashes before).AtHome primitives hashes e.event ∨
          (Site.runs primitives hashes before).Sweeps e.event ∧ ∃ before' e' after', before = before' ++ e' :: after' ∧
            (Site.runs primitives hashes before').AtHome primitives hashes e'.event) := by
  have hopens := opens
  cases hout : (openBy primitives hashes attested (.away 1)).result (Site.runs primitives hashes past).disk with
  | error e =>
    rw [hout] at hopens
    cases hopens
  | ok out =>
    rw [hout] at hopens
    have hauth := Option.some.inj hopens
    exact ⟨out, rfl, away_access_lapses primitives hashes past attested (.away 1) 1000 1000 attests attests_past hout hauth⟩

end Y2q.Devices
