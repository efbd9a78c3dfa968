/-
No part outlives its upload: what holds of uploads and their parts along every run, and what it takes.

- `Accounted`: every object under `.y2q-mpu/` is a recorded part of an upload in the registry. `NoReturn`: what was removed is not in
  the registry. `Contained`: the second always, and the first when no request is in flight.
- `parts_contained`: both hold in every state of a run whose steps are `Steady`: a part is stored only while its upload is in the
  registry and not being deleted; the numbers to delete are taken when no part of the upload waits to be recorded; a refresh inserts
  only what is still in the registry.
- `part_outlives_upload`: an upload_part that stores its part after an abort leaves it behind.
- `upload_returns`: a refresh that listed an upload before it was aborted inserts it again.

Premises (`Undisturbed`): other requests do not touch the parts, and no storage error ends a request that has stored its part.
-/
import Mathlib.Tactic
import Y2q.S3.Multipart

namespace Y2q.PartLifetimes

open Y2q.Run
open Y2q.Objects (ObjKey)
open Y2q.Multipart (MultipartUpload TokenHash Sealing Call State Ev Turn Moves Named isReservedKey partKey setCall_calls setObject_objects
  calls_setCall pending_setCall)

variable {Obj : Type}

/-- the parts of an upload that a request still has to delete -/
def deletes : Call Obj → Option (MultipartUpload × List ℕ)
  | .deleting u numbers _ => some (u, numbers)
  | _ => none

/-! ## What is to hold -/

/-- no request is in flight -/
def Quiet (t : State Obj) : Prop := ∀ i, t.calls i = none

def Accounted (t : State Obj) : Prop :=
  ∀ bucket key o, isReservedKey key = true → t.objects (bucket, key) = some o →
    ∃ u num, t.registry u.uploadId = some u ∧ u.bucket = bucket ∧ key = partKey u.uploadId num ∧ num ∈ t.parts u.uploadId

def NoReturn (t : State Obj) : Prop := ∀ id ∈ t.removed, t.registry id = none

def Contained (t : State Obj) : Prop := (Quiet t → Accounted t) ∧ NoReturn t

/-! ## Premises and condition -/

def Undisturbed (t : State Obj) : Ev Obj → Prop
  | .put x _ => isReservedKey x.2 = false
  | .delete x => isReservedKey x.2 = false
  | .fail i => ∀ c, t.calls i = some c → c.pending = none
  | _ => True

/-- no request deletes the upload's parts -/
def Undeleted (t : State Obj) (id : String) : Prop := ∀ j c u numbers, t.calls j = some c → deletes c = some (u, numbers) → u.uploadId ≠ id

def Steady (t : State Obj) : Ev Obj → Prop
  | .store i _ _ => ∀ u num, t.calls i = some (.uploading u num) → t.registry u.uploadId ≠ none ∧ Undeleted t u.uploadId
  | .step i =>
    (∀ u more, t.calls i = some (.clearing u more) → ∀ j c num, t.calls j = some c → c.pending ≠ some (u.uploadId, num)) ∧
      ∀ new u todo, t.calls i = some (.rekeying new (u :: todo)) → t.registry u.uploadId ≠ none
  | _ => True

/-! ## Invariant -/

/-- the object of a part has an upload in the registry, and is recorded or waits to be -/
def Owned (t : State Obj) (bucket key : String) : Prop :=
  ∃ u num, t.registry u.uploadId = some u ∧ u.bucket = bucket ∧ key = partKey u.uploadId num ∧ num ≤ 10000 ∧
    (num ∈ t.parts u.uploadId ∨ ∃ i c, t.calls i = some c ∧ c.pending = some (u.uploadId, num))

structure Inv (t : State Obj) : Prop where
  named : Named t
  owned : ∀ bucket key o, isReservedKey key = true → t.objects (bucket, key) = some o → Owned t bucket key
  pending : ∀ i c id num, t.calls i = some c → c.pending = some (id, num) → t.registry id ≠ none ∧ Undeleted t id
  cleared : ∀ i c u numbers, t.calls i = some c → deletes c = some (u, numbers) →
    ∀ num o, num ≤ 10000 → t.objects (u.bucket, partKey u.uploadId num) = some o → num ∈ numbers
  removed : ∀ id ∈ t.removed, t.created id ≠ none ∧ t.registry id = none

theorem Inv.contained {t : State Obj} (h : Inv t) : Contained t := by
  refine ⟨fun hquiet bucket key o hkey hobj => ?_, fun id hid => (h.removed id hid).2⟩
  obtain ⟨u, num, hreg, hbucket, hpart, -, hrec | ⟨i, c, hi, -⟩⟩ := h.owned bucket key o hkey hobj
  · exact ⟨u, num, hreg, hbucket, hpart, hrec⟩
  · rw [hquiet i] at hi
    cases hi

theorem init_inv {objects : ObjKey → Option Obj} (hclean : ∀ bucket key, isReservedKey key = true → objects (bucket, key) = none) :
    Inv (Multipart.init objects) where
  named := Multipart.init_named objects
  owned := by
    intro bucket key o hkey hobj
    have hnone : objects (bucket, key) = some o := hobj
    rw [hclean bucket key hkey] at hnone
    cases hnone
  pending := nofun
  cleared := nofun
  removed := nofun

/-! ## Requests one at a time -/

variable {S : Sealing Obj} {maxPerSession : ℕ} {t : State Obj} {e : Ev Obj} {i : ℕ}

theorem turn_pending {c : Option (Call Obj)} {d : Call Obj} {p : String × ℕ} (h : Turn S t e i c (some d)) (hd : d.pending = some p) :
    ∃ c₀, c = some c₀ ∧ c₀.pending = some p := by
  cases h with
  | describe _ u num body o _ => exact ⟨_, rfl, hd⟩
  | _ => cases hd

theorem turn_deletes {c : Option (Call Obj)} {d : Call Obj} {u : MultipartUpload} {numbers : List ℕ} (h : Turn S t e i c (some d))
    (hd : deletes d = some (u, numbers)) :
    e = .step i ∧ (∃ more, c = some (.clearing u more)) ∧ numbers = (t.parts u.uploadId).toList.map Prod.fst := by
  cases h with
  | snapshot _ v more =>
    cases hd
    exact ⟨rfl, ⟨more, rfl⟩, rfl⟩
  | _ => cases hd

/-- a stored part waits on, unless it is gone -/
theorem turn_keeps {c₀ : Call Obj} {c : Option (Call Obj)} {id : String} {num : ℕ} (h : Turn S t e i (some c₀) c)
    (hi : t.calls i = some c₀) (hcalm : Undisturbed t e) (hc₀ : c₀.pending = some (id, num)) :
    (∃ d, c = some d ∧ d.pending = some (id, num)) ∨
      ∃ u ∈ c₀.uploads, u.uploadId = id ∧ t.objects (u.bucket, partKey id num) = none := by
  cases h with
  | describe _ u n body o _ => exact Or.inl ⟨_, rfl, hc₀⟩
  | lost _ u n body hobj =>
    cases hc₀
    exact Or.inr ⟨u, List.mem_cons_self, rfl, hobj⟩
  | fail _ _ =>
    rw [hcalm c₀ hi] at hc₀
    cases hc₀
  | _ => cases hc₀

theorem undeleted_setCall {c : Option (Call Obj)} {id : String} (h : Undeleted t id)
    (hafter : ∀ d u numbers, c = some d → deletes d = some (u, numbers) → u.uploadId ≠ id) : Undeleted (t.setCall i c) id := by
  intro k f u numbers hk hf
  rcases calls_setCall hk with ⟨-, hc⟩ | ⟨-, hk⟩
  · exact hafter f u numbers hc hf
  · exact h k f u numbers hk hf

/-- one bucket and key for an upload id -/
theorem same_bucket (h : Named t) {u v : MultipartUpload} {c : Call Obj} (hreg : t.registry u.uploadId = some u)
    (hi : t.calls i = some c) (hv : v ∈ c.uploads) (hid : v.uploadId = u.uploadId) : v.bucket = u.bucket := by
  have hu := h.listed hreg
  rw [← hid, h.calls i c hi v hv] at hu
  exact congrArg Prod.fst (Option.some.inj hu)

theorem turn_inv {c : Option (Call Obj)} (h : Inv t) (hnamed : Named (t.setCall i c)) (hcalm : Undisturbed t e) (hsteady : Steady t e)
    (hturn : Turn S t e i (t.calls i) c) : Inv (t.setCall i c) where
  named := hnamed
  owned := by
    intro bucket key o hkey hobj
    obtain ⟨u, num, hreg, hbucket, hpart, hle, hrec⟩ := h.owned bucket key o hkey hobj
    refine ⟨u, num, hreg, hbucket, hpart, hle, ?_⟩
    rcases hrec with hrec | ⟨j, c₀, hj, hc₀⟩
    · exact Or.inl hrec
    · by_cases hji : j = i
      · subst hji
        rw [hj] at hturn
        rcases turn_keeps hturn hj hcalm hc₀ with ⟨d, hd, hdp⟩ | ⟨v, hv, hid, hgone⟩
        · exact Or.inr ⟨j, d, by rw [setCall_calls, if_pos rfl, hd], hdp⟩
        · have hsame := same_bucket h.named hreg hj hv hid
          have hobj' : t.objects (bucket, key) = some o := hobj
          rw [← hbucket, hpart, ← hsame, hgone] at hobj'
          cases hobj'
      · exact Or.inr ⟨j, c₀, by rw [setCall_calls, if_neg hji, hj], hc₀⟩
  pending := by
    have hold : ∀ j d id num, (t.setCall i c).calls j = some d → d.pending = some (id, num) →
        ∃ j' c₀, t.calls j' = some c₀ ∧ c₀.pending = some (id, num) := by
      intro j d id num hj hd
      rcases calls_setCall hj with ⟨-, rfl⟩ | ⟨-, hj⟩
      · obtain ⟨c₀, hi, hc₀⟩ := turn_pending hturn hd
        exact ⟨i, c₀, hi, hc₀⟩
      · exact ⟨j, d, hj, hd⟩
    intro j d id num hj hd
    obtain ⟨j', c₀, hj', hc₀⟩ := hold j d id num hj hd
    refine ⟨(h.pending j' c₀ id num hj' hc₀).1, fun k f u numbers hk hf => ?_⟩
    rcases calls_setCall hk with ⟨-, rfl⟩ | ⟨-, hk⟩
    · obtain ⟨rfl, ⟨more, hi⟩, -⟩ := turn_deletes hturn hf
      rintro rfl
      exact hsteady.1 u more hi j' c₀ num hj' hc₀
    · exact (h.pending j' c₀ id num hj' hc₀).2 k f u numbers hk hf
  cleared := by
    intro j d u numbers hj hd num o hle hobj
    rcases calls_setCall hj with ⟨-, rfl⟩ | ⟨-, hj⟩
    · obtain ⟨rfl, ⟨more, hi⟩, rfl⟩ := turn_deletes hturn hd
      obtain ⟨v, n, hreg, hbucket, hpart, hle', hrec⟩ := h.owned u.bucket _ o (Multipart.reserved_partKey u.uploadId num) hobj
      obtain ⟨hid, rfl⟩ := Multipart.partKey_inj hle hle' hpart
      rcases hrec with hrec | ⟨k, f, hk, hf⟩
      · rw [← hid] at hrec
        obtain ⟨x, hx⟩ := Table.mem_iff_getElem?.1 hrec
        exact List.mem_map.2 ⟨(num, x), Table.mem_toList.2 hx, rfl⟩
      · exact absurd (hid ▸ hf) (hsteady.1 u more hi k f num hk)
    · exact h.cleared j d u numbers hj hd num o hle hobj
  removed := h.removed

/-! ## One lemma per access -/

/-- objects that are not parts do not matter -/
theorem object_inv {bucket key : String} {o : Option Obj} (h : Inv t) (hnamed : Named (t.setObject (bucket, key) o))
    (hkey : isReservedKey key = false) : Inv (t.setObject (bucket, key) o) where
  named := hnamed
  owned := by
    intro b k o' hk hobj
    rw [setObject_objects, if_neg] at hobj
    · exact h.owned b k o' hk hobj
    · intro heq
      cases heq
      rw [hk] at hkey
      cases hkey
  pending := h.pending
  cleared := by
    intro j c u numbers hj hc num o' hle hobj
    rw [setObject_objects, if_neg] at hobj
    · exact h.cleared j c u numbers hj hc num o' hle hobj
    · intro heq
      rw [← (Prod.mk.inj heq).2, Multipart.reserved_partKey] at hkey
      cases hkey
  removed := h.removed

theorem reseal_inv {x : ObjKey} {o o' : Obj} (h : Inv t) (hnamed : Named (t.setObject x (some o'))) (hx : t.objects x = some o) :
    Inv (t.setObject x (some o')) := by
  have hthere : ∀ {y o₁}, (t.setObject x (some o')).objects y = some o₁ → ∃ o₀, t.objects y = some o₀ := by
    intro y o₁ hy
    rw [setObject_objects] at hy
    split at hy
    · next heq => exact ⟨o, heq ▸ hx⟩
    · exact ⟨o₁, hy⟩
  refine ⟨hnamed, fun bucket key o₁ hkey hobj => ?_, h.pending, fun j c u numbers hj hc num o₁ hle hobj => ?_, h.removed⟩
  · obtain ⟨o₀, hobj⟩ := hthere hobj
    exact h.owned bucket key o₀ hkey hobj
  · obtain ⟨o₀, hobj⟩ := hthere hobj
    exact h.cleared j c u numbers hj hc num o₀ hle hobj

theorem register_inv {uploadId : String} {now : ℕ} {new : Multipart.NewUpload} (h : Inv t) (hi : t.calls i = some (.creating new))
    (hfresh : t.created uploadId = none) :
    Inv { (t.register ⟨uploadId, new.bucket, new.key, new.tokenHash, new.username, now, new.labels⟩).setCall i none with
      parts := Function.update t.parts uploadId ∅
      created := Function.update t.created uploadId (some (new.bucket, new.key)) } := by
  have hsame : ∀ {j c p}, c.pending = some p → ((t.setCall i none).calls j = some c ↔ t.calls j = some c) := fun hc =>
    pending_setCall (fun c₀ hc₀ => by cases hi.symm.trans hc₀; rfl) (fun d hd => by cases hd) hc
  refine ⟨h.named.register hi hfresh, ?owned, ?pending, ?cleared, ?removed⟩
  case owned =>
    intro bucket key o hkey hobj
    obtain ⟨u, num, hreg, hbucket, hpart, hle, hrec⟩ := h.owned bucket key o hkey hobj
    have hne : u.uploadId ≠ uploadId := by
      intro heq
      have hlisted := h.named.listed hreg
      rw [heq, hfresh] at hlisted
      cases hlisted
    refine ⟨u, num, (Function.update_of_ne hne ..).trans hreg, hbucket, hpart, hle, ?_⟩
    rcases hrec with hrec | ⟨j, c, hj, hc⟩
    · refine Or.inl ?_
      simp only [Function.update_of_ne hne]
      exact hrec
    · exact Or.inr ⟨j, c, (hsame hc).2 hj, hc⟩
  case pending =>
    intro j c id num hj hc
    have hj : t.calls j = some c := (hsame hc).1 hj
    obtain ⟨hreg, hundeleted⟩ := h.pending j c id num hj hc
    refine ⟨?_, undeleted_setCall hundeleted nofun⟩
    simp only [State.register, State.setCall, Function.update_apply]
    split
    · exact Option.some_ne_none _
    · exact hreg
  case cleared =>
    intro j c u numbers hj hc
    rcases calls_setCall hj with ⟨-, hnone⟩ | ⟨-, hj⟩
    · cases hnone
    · exact h.cleared j c u numbers hj hc
  case removed =>
    intro id hid
    obtain ⟨hcreated, hnone⟩ := h.removed id hid
    have hne : id ≠ uploadId := by
      rintro rfl
      exact hcreated hfresh
    exact ⟨by simpa only [Function.update_of_ne hne] using hcreated, (Function.update_of_ne hne ..).trans hnone⟩

theorem store_inv {o : Obj} {u : MultipartUpload} {num : ℕ} {body : Bytes} (h : Inv t) (hi : t.calls i = some (.uploading u num))
    (hnamed : Named ((t.setObject (u.bucket, partKey u.uploadId num) (some o)).setCall i (some (.stored u num body))))
    (hreg : t.registry u.uploadId ≠ none) (hundeleted : Undeleted t u.uploadId) :
    Inv ((t.setObject (u.bucket, partKey u.uploadId num) (some o)).setCall i (some (.stored u num body))) where
  named := hnamed
  owned := by
    intro bucket key o' hkey hobj
    simp only [State.setCall, State.setObject, Function.update_apply] at hobj
    split at hobj
    · next heq =>
      cases heq
      obtain ⟨v, hv⟩ := Option.ne_none_iff_exists'.1 hreg
      obtain ⟨hid, -⟩ := h.named.registry _ v hv
      have hv' : t.registry v.uploadId = some v := hid ▸ hv
      refine ⟨v, num, hv', (same_bucket h.named hv' hi List.mem_cons_self hid.symm).symm, by rw [hid],
        (h.named.call hi).part _ num rfl, Or.inr ⟨i, .stored u num body, ?_, ?_⟩⟩
      · rw [setCall_calls, if_pos rfl]
      · rw [Call.pending, hid]
    · obtain ⟨v, n, hv, hbucket, hpart, hle, hrec⟩ := h.owned bucket key o' hkey hobj
      refine ⟨v, n, hv, hbucket, hpart, hle, hrec.imp_right fun hcall => ?_⟩
      obtain ⟨j, c, hj, hc⟩ := hcall
      refine ⟨j, c, ?_, hc⟩
      rw [setCall_calls, if_neg]
      · exact hj
      · rintro rfl
        cases hi.symm.trans hj
        cases hc
  pending := by
    have hdel : ∀ id, Undeleted t id → Undeleted (t.setCall i (some (.stored u num body))) id := fun id hid =>
      undeleted_setCall hid fun d _ _ hd hf => by cases hd; cases hf
    intro j c id n hj hc
    rcases calls_setCall hj with ⟨-, hc'⟩ | ⟨-, hj⟩
    · cases hc'
      cases hc
      exact ⟨hreg, hdel _ hundeleted⟩
    · exact ⟨(h.pending j c id n hj hc).1, hdel id (h.pending j c id n hj hc).2⟩
  cleared := by
    intro j c v numbers hj hc n o' hle hobj
    rcases calls_setCall hj with ⟨-, hc'⟩ | ⟨-, hj⟩
    · cases hc'
      cases hc
    · simp only [State.setCall, State.setObject, Function.update_apply] at hobj
      split at hobj
      · next heq =>
        obtain ⟨hid, -⟩ := Multipart.partKey_inj hle ((h.named.call hi).part _ num rfl) (congrArg Prod.snd heq)
        exact absurd hid (hundeleted j c v numbers hj hc)
      · exact h.cleared j c v numbers hj hc n o' hle hobj
  removed := h.removed

theorem record_inv {u : MultipartUpload} {num : ℕ} {body : Bytes} {etag : String} {issued : Set (String × ℕ × String × Bytes)} (h : Inv t)
    (hi : t.calls i = some (.described u num body etag))
    (hnamed : Named { t.setCall i none with
      parts := Function.update t.parts u.uploadId ((t.parts u.uploadId).insert num (body.length, etag))
      issued := issued }) :
    Inv { t.setCall i none with
      parts := Function.update t.parts u.uploadId ((t.parts u.uploadId).insert num (body.length, etag))
      issued := issued } where
  named := hnamed
  owned := by
    have hgrow : ∀ id n, n ∈ t.parts id → n ∈ Function.update t.parts u.uploadId ((t.parts u.uploadId).insert num (body.length, etag)) id := by
      intro id n hn
      rw [Function.update_apply]
      split
      · next heq => exact Table.mem_insert_iff.2 (Or.inr (heq ▸ hn))
      · exact hn
    intro bucket key o hkey hobj
    obtain ⟨v, n, hv, hbucket, hpart, hle, hrec⟩ := h.owned bucket key o hkey hobj
    refine ⟨v, n, hv, hbucket, hpart, hle, ?_⟩
    rcases hrec with hrec | ⟨j, c, hj, hc⟩
    · exact Or.inl (hgrow _ n hrec)
    · by_cases hji : j = i
      · subst hji
        cases hi.symm.trans hj
        obtain ⟨hid, rfl⟩ := Prod.mk.inj (Option.some.inj hc)
        refine Or.inl ?_
        simp only [← hid, Function.update_self]
        exact Table.mem_insert_iff.2 (Or.inl rfl)
      · exact Or.inr ⟨j, c, by rw [setCall_calls, if_neg hji, hj], hc⟩
  pending := by
    intro j c id n hj hc
    rcases calls_setCall hj with ⟨-, hnone⟩ | ⟨-, hj⟩
    · cases hnone
    · exact ⟨(h.pending j c id n hj hc).1, undeleted_setCall (h.pending j c id n hj hc).2 nofun⟩
  cleared := by
    intro j c v numbers hj hc
    rcases calls_setCall hj with ⟨-, hnone⟩ | ⟨-, hj⟩
    · cases hnone
    · exact h.cleared j c v numbers hj hc
  removed := h.removed

theorem commit_inv {o : Obj} {u : MultipartUpload} {requested : Multipart.Listed} {done : Bytes} {completed : List (Multipart.Completed Obj)}
    (h : Inv t) (hi : t.calls i = some (.assembling u requested done []))
    (hnamed : Named { (t.setObject (u.bucket, u.key) (some o)).setCall i (some (.clearing u [])) with completed := completed }) :
    Inv { (t.setObject (u.bucket, u.key) (some o)).setCall i (some (.clearing u [])) with completed := completed } := by
  have hkey : isReservedKey u.key = false := h.named.key _ _ _ ((h.named.call hi).uploads u List.mem_cons_self)
  have hobjects : ∀ {b k}, isReservedKey k = true → (t.setObject (u.bucket, u.key) (some o)).objects (b, k) = t.objects (b, k) := by
    intro b k hk
    rw [setObject_objects, if_neg]
    intro heq
    rw [← (Prod.mk.inj heq).2, hk] at hkey
    cases hkey
  have hsame : ∀ {j c p}, c.pending = some p → ((t.setCall i (some (.clearing u []))).calls j = some c ↔ t.calls j = some c) := fun hc =>
    pending_setCall (fun c₀ hc₀ => by cases hi.symm.trans hc₀; rfl) (fun d hd => by cases hd; rfl) hc
  refine ⟨hnamed, fun b k o' hk hobj => ?owned, fun j c id num hj hc => ?pending, fun j c v numbers hj hc num o' hle hobj => ?cleared,
    h.removed⟩
  case owned =>
    obtain ⟨v, num, hv, hbucket, hpart, hle, hrec⟩ := h.owned b k o' hk ((hobjects hk).symm.trans hobj)
    exact ⟨v, num, hv, hbucket, hpart, hle, hrec.imp_right fun ⟨j, c, hj, hc⟩ => ⟨j, c, (hsame hc).2 hj, hc⟩⟩
  case pending =>
    obtain ⟨hreg, hundeleted⟩ := h.pending j c id num ((hsame hc).1 hj) hc
    exact ⟨hreg, undeleted_setCall hundeleted fun d _ _ hd hf => by cases hd; cases hf⟩
  case cleared =>
    rcases calls_setCall hj with ⟨-, hc'⟩ | ⟨-, hj⟩
    · cases hc'
      cases hc
    · exact h.cleared j c v numbers hj hc num o' hle ((hobjects (Multipart.reserved_partKey ..)).symm.trans hobj)

theorem deletePart_inv {u : MultipartUpload} {num : ℕ} {numbers : List ℕ} {more : List MultipartUpload} (h : Inv t)
    (hi : t.calls i = some (.deleting u (num :: numbers) more))
    (hnamed : Named ((t.setObject (u.bucket, partKey u.uploadId num) none).setCall i (some (.deleting u numbers more)))) :
    Inv ((t.setObject (u.bucket, partKey u.uploadId num) none).setCall i (some (.deleting u numbers more))) := by
  have hobjects : ∀ {x o}, (t.setObject (u.bucket, partKey u.uploadId num) none).objects x = some o →
      x ≠ (u.bucket, partKey u.uploadId num) ∧ t.objects x = some o := by
    intro x o hx
    rw [setObject_objects] at hx
    split at hx
    · cases hx
    · next hne => exact ⟨hne, hx⟩
  have hsame : ∀ {j c p}, c.pending = some p →
      ((t.setCall i (some (.deleting u numbers more))).calls j = some c ↔ t.calls j = some c) := fun hc =>
    pending_setCall (fun c₀ hc₀ => by cases hi.symm.trans hc₀; rfl) (fun d hd => by cases hd; rfl) hc
  refine ⟨hnamed, fun b k o' hk hobj => ?owned, fun j c id n hj hc => ?pending, fun j c v ns hj hc n o' hle hobj => ?cleared,
    h.removed⟩
  case owned =>
    obtain ⟨v, n, hv, hbucket, hpart, hle, hrec⟩ := h.owned b k o' hk (hobjects hobj).2
    exact ⟨v, n, hv, hbucket, hpart, hle, hrec.imp_right fun ⟨j, c, hj, hc⟩ => ⟨j, c, (hsame hc).2 hj, hc⟩⟩
  case pending =>
    obtain ⟨hreg, hundeleted⟩ := h.pending j c id n ((hsame hc).1 hj) hc
    refine ⟨hreg, undeleted_setCall hundeleted fun d v ns hd hf => ?_⟩
    cases hd
    cases hf
    exact hundeleted i _ u (num :: numbers) hi rfl
  case cleared =>
    obtain ⟨hne, hobj⟩ := hobjects hobj
    rcases calls_setCall hj with ⟨-, hc'⟩ | ⟨-, hj⟩
    · cases hc'
      cases hc
      refine List.mem_of_ne_of_mem ?_ (h.cleared i _ u (num :: numbers) hi rfl n o' hle hobj)
      rintro rfl
      exact hne rfl
    · exact h.cleared j c v ns hj hc n o' hle hobj

theorem clearNext_idle {more : List MultipartUpload} {d : Call Obj} (h : Multipart.clearNext more = some d) :
    d.pending = none ∧ deletes d = none := by
  cases more with
  | nil => cases h
  | cons u more =>
    cases h
    exact ⟨rfl, rfl⟩

theorem remove_inv {u : MultipartUpload} {more : List MultipartUpload} (h : Inv t) (hi : t.calls i = some (.deleting u [] more))
    (hnamed : Named { t.setCall i (Multipart.clearNext more) with
      registry := Function.update t.registry u.uploadId none
      removed := {u.uploadId} ∪ t.removed }) :
    Inv { t.setCall i (Multipart.clearNext more) with
      registry := Function.update t.registry u.uploadId none
      removed := {u.uploadId} ∪ t.removed } := by
  have hsame : ∀ {j c p}, c.pending = some p → ((t.setCall i (Multipart.clearNext more)).calls j = some c ↔ t.calls j = some c) :=
    fun hc => pending_setCall (fun c₀ hc₀ => by cases hi.symm.trans hc₀; rfl) (fun d hd => (clearNext_idle hd).1) hc
  have hdeletes : ∀ {j c x}, deletes c = some x → (t.setCall i (Multipart.clearNext more)).calls j = some c → t.calls j = some c := by
    intro j c x hx hj
    rcases calls_setCall hj with ⟨-, hc⟩ | ⟨-, hj⟩
    · rw [(clearNext_idle hc).2] at hx
      cases hx
    · exact hj
  refine ⟨hnamed, fun b k o' hk hobj => ?owned, fun j c id n hj hc => ?pending,
    fun j c v ns hj hc n o' hle hobj => h.cleared j c v ns (hdeletes hc hj) hc n o' hle hobj, fun id hid => ?removed⟩
  case owned =>
    obtain ⟨v, n, hv, hbucket, hpart, hle, hrec⟩ := h.owned b k o' hk hobj
    have hne : v.uploadId ≠ u.uploadId := by
      intro heq
      have hbucket' := same_bucket h.named hv hi List.mem_cons_self heq.symm
      have hobj' : t.objects (b, k) = some o' := hobj
      rw [← hbucket, hpart, heq, ← hbucket'] at hobj'
      cases h.cleared i _ u [] hi rfl n o' hle hobj'
    exact ⟨v, n, (Function.update_of_ne hne ..).trans hv, hbucket, hpart, hle,
      hrec.imp_right fun ⟨j, c, hj, hc⟩ => ⟨j, c, (hsame hc).2 hj, hc⟩⟩
  case pending =>
    obtain ⟨hreg, hundeleted⟩ := h.pending j c id n ((hsame hc).1 hj) hc
    have hne : id ≠ u.uploadId := (hundeleted i _ u [] hi rfl).symm
    exact ⟨by simpa only [Function.update_of_ne hne] using hreg,
      fun k f v ns hk hf => hundeleted k f v ns (hdeletes hf hk) hf⟩
  case removed =>
    by_cases heq : id = u.uploadId
    · subst heq
      refine ⟨?_, Function.update_self ..⟩
      have hcreated := (h.named.call hi).uploads u List.mem_cons_self
      simp only [State.setCall, hcreated, ne_eq, Option.some_ne_none, not_false_eq_true]
    · obtain ⟨hcreated, hnone⟩ := h.removed id (hid.resolve_left heq)
      exact ⟨hcreated, (Function.update_of_ne heq ..).trans hnone⟩

theorem rekey_inv {new : TokenHash} {u : MultipartUpload} {todo : List MultipartUpload} (h : Inv t)
    (hi : t.calls i = some (.rekeying new (u :: todo)))
    (hnamed : Named ((t.register { u with tokenHash := new }).setCall i (some (.rekeying new todo))))
    (hreg : t.registry u.uploadId ≠ none) : Inv ((t.register { u with tokenHash := new }).setCall i (some (.rekeying new todo))) := by
  have hsame : ∀ {j c p}, c.pending = some p → ((t.setCall i (some (.rekeying new todo))).calls j = some c ↔ t.calls j = some c) :=
    fun hc => pending_setCall (fun c₀ hc₀ => by cases hi.symm.trans hc₀; rfl) (fun d hd => by cases hd; rfl) hc
  have hdeletes : ∀ {j c x}, deletes c = some x → (t.setCall i (some (.rekeying new todo))).calls j = some c → t.calls j = some c := by
    intro j c x hx hj
    rcases calls_setCall hj with ⟨-, hc⟩ | ⟨-, hj⟩
    · cases hc
      cases hx
    · exact hj
  have hstays : ∀ {id}, t.registry id ≠ none → Function.update t.registry u.uploadId (some { u with tokenHash := new }) id ≠ none := by
    intro id hid
    rw [Function.update_apply]
    split
    · exact Option.some_ne_none _
    · exact hid
  refine ⟨hnamed, fun b k o' hk hobj => ?owned, fun j c id n hj hc => ?pending,
    fun j c v ns hj hc n o' hle hobj => h.cleared j c v ns (hdeletes hc hj) hc n o' hle hobj, fun id hid => ?removed⟩
  case owned =>
    obtain ⟨v, n, hv, hbucket, hpart, hle, hrec⟩ := h.owned b k o' hk hobj
    have hrec' : n ∈ t.parts v.uploadId ∨ ∃ j c, (t.setCall i (some (.rekeying new todo))).calls j = some c ∧
        c.pending = some (v.uploadId, n) := hrec.imp_right fun ⟨j, c, hj, hc⟩ => ⟨j, c, (hsame hc).2 hj, hc⟩
    by_cases heq : v.uploadId = u.uploadId
    · have hbucket' := same_bucket h.named hv hi List.mem_cons_self heq.symm
      refine ⟨{ u with tokenHash := new }, n, Function.update_self .., hbucket'.trans hbucket, heq ▸ hpart, hle, ?_⟩
      exact heq ▸ hrec'
    · exact ⟨v, n, (Function.update_of_ne heq ..).trans hv, hbucket, hpart, hle, hrec'⟩
  case pending =>
    obtain ⟨hpending, hundeleted⟩ := h.pending j c id n ((hsame hc).1 hj) hc
    exact ⟨hstays hpending, fun k f v ns hk hf => hundeleted k f v ns (hdeletes hf hk) hf⟩
  case removed =>
    obtain ⟨hcreated, hnone⟩ := h.removed id hid
    have hne : id ≠ u.uploadId := by
      rintro rfl
      exact hreg hnone
    exact ⟨hcreated, (Function.update_of_ne hne ..).trans hnone⟩

/-! ## Runs -/

theorem step_inv (h : Inv t) (hlegal : Multipart.Legal S t e) (hcalm : Undisturbed t e) (hsteady : Steady t e) :
    Inv (Multipart.step S maxPerSession t e) := by
  have hnamed := h.named.step S maxPerSession hlegal
  generalize hs : Multipart.step S maxPerSession t e = t' at hnamed ⊢
  have hmoves : Moves S t e t' := hs ▸ Multipart.step_moves S maxPerSession t e
  cases hmoves with
  | idle e => exact h
  | turn hturn => exact turn_inv h hnamed hcalm hsteady hturn
  | register i uploadId now new hi => exact register_inv h hi hlegal
  | store i o body u num hi => exact store_inv h hi hnamed (hsteady u num hi).1 (hsteady u num hi).2
  | record i u num body etag hi => exact record_inv h hi hnamed
  | commit i o u requested done hi => exact commit_inv h hi hnamed
  | deletePart i u num numbers more hi => exact deletePart_inv h hi hnamed
  | remove i u more hi => exact remove_inv h hi hnamed
  | rekey i new u todo hi => exact rekey_inv h hi hnamed (hsteady.2 new u todo hi)
  | put x o => exact object_inv h hnamed hcalm
  | reseal x o o' hobj => exact reseal_inv h hnamed hobj
  | delete x => exact object_inv h hnamed hcalm

/-- a step of the requests that deal with uploads -/
def Allowed (S : Sealing Obj) (t : State Obj) (e : Ev Obj) : Prop := Multipart.Legal S t e ∧ Undisturbed t e

/-- **Every stored part is accounted for, and no upload comes back**, in every state of a steady run. -/
theorem parts_contained (S : Sealing Obj) (maxPerSession : ℕ) {objects : ObjKey → Option Obj} {evs : List (Ev Obj)}
    (hclean : ∀ bucket key, isReservedKey key = true → objects (bucket, key) = none)
    (hrun : Along (Multipart.step S maxPerSession) (fun t e => Allowed S t e ∧ Steady t e) (Multipart.init objects) evs) :
    Contained (run (Multipart.step S maxPerSession) (Multipart.init objects) evs) := by
  have hinv : Inv (run (Multipart.step S maxPerSession) (Multipart.init objects) evs) :=
    Along.inv (fun t e h hstep => step_inv h hstep.1.1 hstep.1.2 hstep.2) (init_inv hclean) hrun
  exact hinv.contained

/-! ## Two ways out -/

def sampleNew : Multipart.NewUpload := ⟨"b", "k", [0], "alice", ∅⟩

def sampleUpload : MultipartUpload := ⟨"u", "b", "k", [0], "alice", 0, ∅⟩

def sampleRun (evs : List (Ev Bytes)) : State Bytes := run (Multipart.step Multipart.plain 8) (Multipart.init fun _ => none) evs

/-- create and register; an upload_part; an abort that runs through; then the part is stored, described and recorded -/
def lateStore : List (Ev Bytes) :=
  [.create 0 sampleNew [], .register 0 "u" 0, .uploadPart 1 "u" "b" "k" [0] 1, .abort 2 "u" "b" "k" [0], .step 2, .step 2,
    .store 1 [7] [7], .step 1, .step 1]

/-- a refresh lists the upload; an abort runs through; the refresh inserts it again -/
def lateRekey : List (Ev Bytes) :=
  [.create 0 sampleNew [], .register 0 "u" 0, .rekeySession 1 [0] [1] [sampleUpload], .abort 2 "u" "b" "k" [0], .step 2, .step 2,
    .step 1, .step 1]

/-- **A part that is stored after the abort stays; an upload that is rekeyed after the abort returns.** -/
theorem part_outlives_upload :
    (Along (Multipart.step Multipart.plain 8) (Allowed Multipart.plain) (Multipart.init fun _ => none) lateStore ∧ ¬Contained (sampleRun lateStore)) ∧
    (Along (Multipart.step Multipart.plain 8) (Allowed Multipart.plain) (Multipart.init fun _ => none) lateRekey ∧ ¬Contained (sampleRun lateRekey)) := by
  refine ⟨⟨?_, fun h => ?_⟩, ?_, fun h => ?_⟩
  · exact ⟨⟨trivial, trivial⟩, ⟨rfl, trivial⟩, ⟨trivial, trivial⟩, ⟨trivial, trivial⟩, ⟨trivial, trivial⟩, ⟨trivial, trivial⟩,
      ⟨fun _ _ _ => Multipart.plain_reads.2 rfl, trivial⟩, ⟨trivial, trivial⟩, ⟨trivial, trivial⟩, trivial⟩
  · have hquiet : Quiet (sampleRun lateStore) := by
      intro i
      match i with
      | 0 => rfl
      | 1 => rfl
      | 2 => rfl
      | _ + 3 => rfl
    obtain ⟨u, num, hreg, -⟩ := h.1 hquiet "b" (partKey "u" 1) [7] (Multipart.reserved_partKey "u" 1) rfl
    have hgone : Function.update (Function.update (fun _ => none) "u" (some sampleUpload)) "u" none u.uploadId = some u := hreg
    rw [Function.update_idem, Function.update_apply, ite_self] at hgone
    cases hgone
  · refine ⟨⟨trivial, trivial⟩, ⟨rfl, trivial⟩, ⟨fun u hu => ?_, trivial⟩, ⟨trivial, trivial⟩, ⟨trivial, trivial⟩, ⟨trivial, trivial⟩,
      ⟨trivial, trivial⟩, ⟨trivial, trivial⟩, trivial⟩
    rw [List.mem_singleton.1 hu]
    exact ⟨rfl, rfl⟩
  · have hback := h.2 "u" (Or.inl rfl)
    cases hback

/-- a part is uploaded, then the upload is aborted -/
def partThenAbort : List (Ev Bytes) :=
  [.create 0 sampleNew [], .register 0 "u" 0, .uploadPart 1 "u" "b" "k" [0] 1, .store 1 [7] [7], .step 1, .step 1,
    .abort 2 "u" "b" "k" [0], .step 2, .step 2, .step 2]

theorem parts_contained_one_by_one : Contained (sampleRun partThenAbort) := by
  refine parts_contained Multipart.plain 8 (fun _ _ _ => rfl) ⟨⟨⟨trivial, trivial⟩, trivial⟩, ⟨⟨rfl, trivial⟩, trivial⟩,
    ⟨⟨trivial, trivial⟩, trivial⟩, ⟨⟨fun _ _ _ => Multipart.plain_reads.2 rfl, trivial⟩, ?_⟩, ⟨⟨trivial, trivial⟩, nofun, nofun⟩, ⟨⟨trivial, trivial⟩, nofun, nofun⟩,
    ⟨⟨trivial, trivial⟩, trivial⟩, ⟨⟨trivial, trivial⟩, ?_, nofun⟩, ⟨⟨trivial, trivial⟩, nofun, nofun⟩,
    ⟨⟨trivial, trivial⟩, nofun, nofun⟩, trivial⟩
  · intro u num hi
    cases hi
    refine ⟨nofun, fun j c v numbers hj hc => ?_⟩
    match j with
    | 0 => cases hj
    | 1 =>
      cases hj
      cases hc
    | _ + 2 => cases hj
  · intro u more hi j c num hj
    cases hi
    match j with
    | 0 => cases hj
    | 1 => cases hj
    | 2 =>
      cases hj
      exact nofun
    | _ + 3 => cases hj

end Y2q.PartLifetimes
