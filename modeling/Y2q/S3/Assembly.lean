/-
What a CompleteMultipartUpload puts together.

- `Assembles`: the content of a committed object is the concatenation, in the listed order, of contents that the listed ETags were
  issued for.
- `parts_assembled`: it holds in every state of a run whose steps are `Steady`: only upload_parts store objects under `.y2q-mpu/`; an
  upload_part stores its part when no other has it pending and no complete still has to read it, and describes it in the end; a complete
  looks up its ETags when none of its parts is pending; a part is not sealed again while it is read.
- `own_parts`: in any run, what is committed is read from objects that were there under the upload's own part keys, in the order of the
  numbers, and each listed ETag was issued for a part of this upload. The object of a part need not be the one that its ETag is for.
-/
import Mathlib.Tactic
import Y2q.S3.Multipart

namespace Y2q.Assembly

open Y2q.Run
open Y2q.Objects (ObjKey)
open Y2q.Multipart (MultipartUpload Listed Sealing Call Completed State Ev Turn Moves Named PartMap isReservedKey partKey setCall_calls
  setObject_objects calls_setCall pending_setCall)

variable {Obj : Type} (S : Sealing Obj)

/-! ## What is to hold -/

/-- the content is one that the ETag was issued for -/
def Issued (t : State Obj) (id : String) (p : ℕ × String) (content : Bytes) : Prop := (id, p.1, p.2, content) ∈ t.issued

def Assembles (t : State Obj) : Prop :=
  ∀ c ∈ t.completed, ∃ contents, S.Reads c.x c.object contents.flatten ∧ List.Forall₂ (Issued t c.uploadId) c.requested contents

/-! ## The condition -/

/-- the part that a complete is reading -/
def current : Call Obj → Option ObjKey
  | .reading u _ _ _ _ num _ => some (u.bucket, partKey u.uploadId num)
  | _ => none

/-- the part that an upload_part has to record, and those that a complete has to read -/
def Touches : Call Obj → ObjKey → Prop
  | .stored u num _, x => x = (u.bucket, partKey u.uploadId num)
  | .described u num _ _, x => x = (u.bucket, partKey u.uploadId num)
  | .assembling u _ _ todo, x => ∃ p ∈ todo, x = (u.bucket, partKey u.uploadId p.1)
  | .reading u _ _ _ _ num todo, x => x = (u.bucket, partKey u.uploadId num) ∨ ∃ p ∈ todo, x = (u.bucket, partKey u.uploadId p.1)
  | _, _ => False

def Steady (t : State Obj) : Ev Obj → Prop
  | .put x _ => isReservedKey x.2 = false
  | .reseal x _ => ∀ j c, t.calls j = some c → current c ≠ some x
  | .store i _ _ => ∀ u num, t.calls i = some (.uploading u num) →
    ∀ j c, t.calls j = some c → ¬Touches c (u.bucket, partKey u.uploadId num)
  | .fail i => ∀ c, t.calls i = some c → c.pending = none
  | .step i => ∀ u requested, t.calls i = some (.completing u requested) →
    ∀ p ∈ requested, ∀ j c, t.calls j = some c → c.pending ≠ some (u.uploadId, p.1)
  | _ => True

/-! ## Invariant -/

/-- the object of a part, if there is one, has a content that the ETag was issued for -/
def Sound (t : State Obj) (bucket id : String) (p : ℕ × String) : Prop :=
  ∀ o, t.objects (bucket, partKey id p.1) = some o → ∃ body, Issued t id p body ∧ S.Reads (bucket, partKey id p.1) o body

/-- what was read of the listed parts -/
def Gathered (t : State Obj) (u : MultipartUpload) (read : Listed) (done : Bytes) : Prop :=
  ∃ contents, done = contents.flatten ∧ List.Forall₂ (Issued t u.uploadId) read contents

def CallInv (t : State Obj) : Call Obj → Prop
  | .stored u num body => ∀ o, t.objects (u.bucket, partKey u.uploadId num) = some o → S.Reads (u.bucket, partKey u.uploadId num) o body
  | .described u num body _ =>
    ∀ o, t.objects (u.bucket, partKey u.uploadId num) = some o → S.Reads (u.bucket, partKey u.uploadId num) o body
  | .assembling u requested done todo =>
    ∃ read, requested = read ++ todo ∧ Gathered t u read done ∧ ∀ p ∈ todo, Sound S t u.bucket u.uploadId p
  | .reading u requested done md seen num todo =>
    (∃ read etag body, requested = read ++ (num, etag) :: todo ∧ Gathered t u read done ∧ (∀ p ∈ todo, Sound S t u.bucket u.uploadId p) ∧
      Issued t u.uploadId (num, etag) body ∧ S.Reads (u.bucket, partKey u.uploadId num) md body) ∧
    (∃ n, seen = List.replicate n md ∧ ∀ m < n, S.stream (u.bucket, partKey u.uploadId num) md (List.replicate m md) = some none) ∧
    ∀ o, t.objects (u.bucket, partKey u.uploadId num) = some o → o = md
  | _ => True

structure Inv (t : State Obj) : Prop where
  recorded : ∀ id num size etag bucket key, (t.parts id)[num]? = some (size, etag) → t.created id = some (bucket, key) →
    (∀ j c, t.calls j = some c → c.pending ≠ some (id, num)) → Sound S t bucket id (num, etag)
  calls : ∀ i c, t.calls i = some c → CallInv S t c
  alone : ∀ i j c d p, t.calls i = some c → t.calls j = some d → c.pending = some p → d.pending = some p → i = j
  assembled : Assembles S t

theorem init_inv (objects : ObjKey → Option Obj) : Inv S (Multipart.init objects) where
  recorded := by
    intro id num size etag bucket key hrec
    cases hrec
  calls := nofun
  alone := nofun
  assembled := nofun

/-! ## What a change of the objects keeps -/

/-- what is in place after the change reads as what was in place before -/
def Keeps (t t' : State Obj) (x : ObjKey) : Prop :=
  ∀ o', t'.objects x = some o' → ∃ o, t.objects x = some o ∧ ∀ content, S.Reads x o content → S.Reads x o' content

variable {S} {t t' : State Obj} {e : Ev Obj} {i : ℕ}

theorem Keeps.of_eq {x : ObjKey} (h : ∀ o', t'.objects x = some o' → t.objects x = some o') : Keeps S t t' x :=
  fun o' ho' => ⟨o', h o' ho', fun _ => id⟩

theorem Sound.keep {bucket id : String} {p : ℕ × String} (h : Sound S t bucket id p) (hissued : t.issued ⊆ t'.issued)
    (hkeeps : Keeps S t t' (bucket, partKey id p.1)) : Sound S t' bucket id p := by
  intro o' ho'
  obtain ⟨o, ho, hreads⟩ := hkeeps o' ho'
  obtain ⟨body, hbody, hread⟩ := h o ho
  exact ⟨body, hissued hbody, hreads body hread⟩

theorem Gathered.mono {u : MultipartUpload} {read : Listed} {done : Bytes} (h : Gathered t u read done) (hissued : t.issued ⊆ t'.issued) :
    Gathered t' u read done := by
  obtain ⟨contents, hdone, hall⟩ := h
  exact ⟨contents, hdone, hall.imp fun _ _ hp => hissued hp⟩

theorem Assembles.mono (h : Assembles S t) (hissued : t.issued ⊆ t'.issued) (hcompleted : t'.completed = t.completed) : Assembles S t' := by
  intro c hc
  obtain ⟨contents, hreads, hall⟩ := h c (hcompleted ▸ hc)
  exact ⟨contents, hreads, hall.imp fun _ _ hp => hissued hp⟩

theorem CallInv.keep {c : Call Obj} (h : CallInv S t c) (hissued : t.issued ⊆ t'.issued) (hkeeps : ∀ x, Touches c x → Keeps S t t' x)
    (hcurrent : ∀ x, current c = some x → ∀ o, t'.objects x = some o → t.objects x = some o) : CallInv S t' c := by
  cases c with
  | stored u num body =>
    intro o' ho'
    obtain ⟨o, ho, hreads⟩ := hkeeps _ rfl o' ho'
    exact hreads body (h o ho)
  | described u num body etag =>
    intro o' ho'
    obtain ⟨o, ho, hreads⟩ := hkeeps _ rfl o' ho'
    exact hreads body (h o ho)
  | assembling u requested done todo =>
    obtain ⟨read, hreq, hdone, htodo⟩ := h
    exact ⟨read, hreq, hdone.mono hissued, fun p hp => (htodo p hp).keep hissued (hkeeps _ ⟨p, hp, rfl⟩)⟩
  | reading u requested done md seen num todo =>
    obtain ⟨⟨read, etag, body, hreq, hdone, htodo, hbody, hreads⟩, hseen, hsame⟩ := h
    exact ⟨⟨read, etag, body, hreq, hdone.mono hissued, fun p hp => (htodo p hp).keep hissued (hkeeps _ (Or.inr ⟨p, hp, rfl⟩)),
      hissued hbody, hreads⟩, hseen, fun o ho => hsame o (hcurrent _ rfl o ho)⟩
  | _ => trivial

/-- a call touches parts only -/
theorem Touches.reserved {c : Call Obj} {x : ObjKey} (h : Touches c x) : isReservedKey x.2 = true := by
  cases c with
  | stored u num body => exact h ▸ Multipart.reserved_partKey ..
  | described u num body etag => exact h ▸ Multipart.reserved_partKey ..
  | assembling u requested done todo =>
    obtain ⟨p, -, rfl⟩ := h
    exact Multipart.reserved_partKey ..
  | reading u requested done md seen num todo =>
    rcases h with rfl | ⟨p, -, rfl⟩
    · exact Multipart.reserved_partKey ..
    · exact Multipart.reserved_partKey ..
  | _ => exact h.elim

/-- what a complete is reading it has to read -/
theorem touches_current {c : Call Obj} {x : ObjKey} (h : current c = some x) : Touches c x := by
  cases c with
  | reading u requested done md seen num todo =>
    cases h
    exact Or.inl rfl
  | _ => cases h

/-- a part that is pending has to be recorded -/
theorem touches_pending {c : Call Obj} {p : String × ℕ} (h : c.pending = some p) :
    ∃ u ∈ c.uploads, u.uploadId = p.1 ∧ Touches c (u.bucket, partKey p.1 p.2) := by
  cases c with
  | stored u num body =>
    cases h
    exact ⟨u, List.mem_cons_self, rfl, rfl⟩
  | described u num body etag =>
    cases h
    exact ⟨u, List.mem_cons_self, rfl, rfl⟩
  | _ => cases h

/-- a change of the objects that leaves what is read of the parts -/
theorem Inv.objects {objects : ObjKey → Option Obj} (h : Inv S t)
    (hkeeps : ∀ x, isReservedKey x.2 = true → Keeps S t { t with objects } x)
    (hcurrent : ∀ j c x, t.calls j = some c → current c = some x → ∀ o, objects x = some o → t.objects x = some o) :
    Inv S { t with objects } where
  recorded := fun id num size etag bucket key hrec hcreated hidle =>
    (h.recorded id num size etag bucket key hrec hcreated hidle).keep subset_rfl (hkeeps _ (Multipart.reserved_partKey ..))
  calls := fun j c hj => (h.calls j c hj).keep subset_rfl (fun x hx => hkeeps x hx.reserved) fun x hx => hcurrent j c x hj hx
  alone := h.alone
  assembled := h.assembled.mono subset_rfl rfl

/-! ## Steps -/

/-- a request that keeps the part it has pending -/
theorem Inv.setCall {c : Option (Call Obj)} (h : Inv S t)
    (hpending : ∀ c₀ p, t.calls i = some c₀ → c₀.pending = some p → ∃ d, c = some d ∧ d.pending = some p)
    (hback : ∀ d p, c = some d → d.pending = some p → ∃ c₀, t.calls i = some c₀ ∧ c₀.pending = some p)
    (hinv : ∀ d, c = some d → CallInv S t d) : Inv S (t.setCall i c) where
  recorded := by
    intro id num size etag bucket key hrec hcreated hidle
    refine h.recorded id num size etag bucket key hrec hcreated fun j c₀ hj hp => ?_
    by_cases hji : j = i
    · subst hji
      obtain ⟨d, rfl, hd⟩ := hpending c₀ _ hj hp
      exact hidle j d (by rw [setCall_calls, if_pos rfl]) hd
    · exact hidle j c₀ (by rw [setCall_calls, if_neg hji, hj]) hp
  calls := by
    intro j d hj
    rcases calls_setCall hj with ⟨-, rfl⟩ | ⟨-, hj⟩
    · exact hinv d rfl
    · exact h.calls j d hj
  alone := by
    have hold : ∀ j d p, (t.setCall i c).calls j = some d → d.pending = some p → ∃ c₀, t.calls j = some c₀ ∧ c₀.pending = some p := by
      intro j d p hj hp
      rcases calls_setCall hj with ⟨rfl, rfl⟩ | ⟨-, hj⟩
      · exact hback d p rfl hp
      · exact ⟨d, hj, hp⟩
    intro j k d d' p hj hk hp hp'
    obtain ⟨c₀, hj, hp⟩ := hold j d p hj hp
    obtain ⟨c₁, hk, hp'⟩ := hold k d' p hk hp'
    exact h.alone j k c₀ c₁ p hj hk hp hp'
  assembled := h.assembled

/-- no part is pending by the request, neither before nor after -/
theorem Inv.setIdle {c : Option (Call Obj)} (h : Inv S t) (hbefore : ∀ c₀, t.calls i = some c₀ → c₀.pending = none)
    (hafter : ∀ d, c = some d → d.pending = none) (hinv : ∀ d, c = some d → CallInv S t d) : Inv S (t.setCall i c) := by
  refine h.setCall (fun c₀ p hi hp => ?_) (fun d p hd hp => ?_) hinv
  · rw [hbefore c₀ hi] at hp
    cases hp
  · rw [hafter d hd] at hp
    cases hp

/-- a part whose object is gone -/
theorem lost_inv {u : MultipartUpload} {num : ℕ} {body : Bytes} (h : Inv S t) (hnamed : Named t)
    (hi : t.calls i = some (.stored u num body)) (hobj : t.objects (u.bucket, partKey u.uploadId num) = none) : Inv S (t.setCall i none) where
  recorded := by
    intro id n size etag bucket key hrec hcreated hidle
    by_cases hpart : (u.uploadId, num) = (id, n)
    · cases hpart
      intro o ho
      have hbucket : bucket = u.bucket :=
        congrArg Prod.fst (Option.some.inj (hcreated.symm.trans (hnamed.calls i _ hi u List.mem_cons_self)))
      have ho' : t.objects (u.bucket, partKey u.uploadId num) = some o := hbucket ▸ ho
      rw [hobj] at ho'
      cases ho'
    · refine h.recorded id n size etag bucket key hrec hcreated fun j c hj hp => ?_
      by_cases hji : j = i
      · subst hji
        rw [hi] at hj
        cases hj
        exact hpart (Option.some.inj hp)
      · exact hidle j c (by rw [setCall_calls, if_neg hji, hj]) hp
  calls := by
    intro j d hj
    rcases calls_setCall hj with ⟨-, hnone⟩ | ⟨-, hj⟩
    · cases hnone
    · exact h.calls j d hj
  alone := by
    intro j k d d' p hj hk hp hp'
    rcases calls_setCall hj with ⟨-, hnone⟩ | ⟨-, hj⟩
    · cases hnone
    · rcases calls_setCall hk with ⟨-, hnone⟩ | ⟨-, hk⟩
      · cases hnone
      · exact h.alone j k d d' p hj hk hp hp'
  assembled := h.assembled

theorem validate_recorded {recorded : PartMap} {requested : Listed} (h : Multipart.validate recorded requested = true) :
    ∀ p ∈ requested, ∃ size, recorded[p.1]? = some (size, p.2) := by
  induction requested with
  | nil => exact nofun
  | cons q rest ih =>
    obtain ⟨num, etag⟩ := q
    rw [Multipart.validate] at h
    split at h
    · cases h
    · next size recordedEtag hrec =>
      simp only [decide_eq_true_eq] at h
      intro p hp
      rcases List.mem_cons.1 hp with rfl | hp
      · exact ⟨size, by rw [hrec, h.1]⟩
      · exact ih h.2.2 p hp

/-- the reads of an object that stays as it is give its content -/
theorem reads_stream {x : ObjKey} {md : Obj} {n : ℕ} {part body : Bytes}
    (hbefore : ∀ m < n, S.stream x md (List.replicate m md) = some none)
    (hpart : S.stream x md (List.replicate n md) = some (some part)) (hreads : S.Reads x md body) : part = body := by
  obtain ⟨n', hn', hbefore'⟩ := hreads
  rcases lt_trichotomy n n' with hlt | rfl | hgt
  · cases hpart.symm.trans (hbefore' n hlt)
  · cases hpart.symm.trans hn'
    rfl
  · cases hn'.symm.trans (hbefore n' hgt)

theorem turn_inv {c : Option (Call Obj)} (h : Inv S t) (hnamed : Named t) (hsteady : Steady t e) (hturn : Turn S t e i (t.calls i) c) :
    Inv S (t.setCall i c) := by
  generalize hi : t.calls i = c₀ at hturn
  have idle : (∀ c₁, c₀ = some c₁ → c₁.pending = none) → (∀ d, c = some d → d.pending = none) → (∀ d, c = some d → CallInv S t d) →
      Inv S (t.setCall i c) := fun hbefore hafter hinv => h.setIdle (fun c₁ hc => hbefore c₁ (hi ▸ hc)) hafter hinv
  cases hturn with
  | create _ new uploads hkey => exact idle nofun (fun d hd => by cases hd; rfl) fun d hd => by cases hd; trivial
  | uploadPart _ _ _ _ _ num u _ _ => exact idle nofun (fun d hd => by cases hd; rfl) fun d hd => by cases hd; trivial
  | complete _ _ _ _ _ requested u _ _ => exact idle nofun (fun d hd => by cases hd; rfl) fun d hd => by cases hd; trivial
  | abort _ _ _ _ _ u _ => exact idle nofun (fun d hd => by cases hd; rfl) fun d hd => by cases hd; trivial
  | sweep _ u more => exact idle nofun (fun d hd => by cases hd; rfl) fun d hd => by cases hd; trivial
  | rekeySession _ _ _ matching => exact idle nofun (fun d hd => by cases hd; rfl) fun d hd => by cases hd; trivial
  | fail _ c₁ => exact idle (fun c₂ hc => by cases hc; exact hsteady c₁ hi) nofun nofun
  | lost _ u num body hobj => exact lost_inv h hnamed hi hobj
  | describe _ u num body o hobj =>
    refine h.setCall (fun c₁ p hc hp => ?_) (fun d p hd hp => ?_) fun d hd => ?_
    · rw [hi] at hc
      cases hc
      exact ⟨_, rfl, hp⟩
    · cases hd
      exact ⟨_, hi, hp⟩
    · cases hd
      have hstored : CallInv S t (.stored u num body) := h.calls i _ hi
      exact hstored
  | validate _ u requested hvalid =>
    refine idle (fun c₁ hc => by cases hc; rfl) (fun d hd => by cases hd; rfl) fun d hd => ?_
    cases hd
    refine ⟨[], rfl, ⟨[], rfl, .nil⟩, fun p hp => ?_⟩
    obtain ⟨size, hrec⟩ := validate_recorded hvalid p hp
    exact h.recorded u.uploadId p.1 size p.2 u.bucket u.key hrec (hnamed.calls i _ hi u List.mem_cons_self) (hsteady u requested hi p hp)
  | refuse _ u requested => exact idle (fun c₁ hc => by cases hc; rfl) nofun nofun
  | pick _ u requested done num etag todo md hobj =>
    refine idle (fun c₁ hc => by cases hc; rfl) (fun d hd => by cases hd; rfl) fun d hd => ?_
    cases hd
    obtain ⟨read, hreq, hdone, hsound⟩ := h.calls i _ hi
    obtain ⟨body, hissued, hreads⟩ := hsound (num, etag) List.mem_cons_self md hobj
    refine ⟨⟨read, etag, body, hreq, hdone, fun p hp => hsound p (List.mem_cons_of_mem _ hp), hissued, hreads⟩,
      ⟨0, rfl, fun m hm => absurd hm (Nat.not_lt_zero m)⟩, fun o ho => ?_⟩
    exact Option.some.inj (ho.symm.trans hobj)
  | gone _ u requested done todo => exact idle (fun c₁ hc => by cases hc; rfl) nofun nofun
  | read _ u requested done md seen num todo o hmore hobj =>
    refine idle (fun c₁ hc => by cases hc; rfl) (fun d hd => by cases hd; rfl) fun d hd => ?_
    cases hd
    obtain ⟨hpart, ⟨n, rfl, hbefore⟩, hsame⟩ := h.calls i _ hi
    refine ⟨hpart, ⟨n + 1, ?_, fun m hm => ?_⟩, hsame⟩
    · rw [hsame o hobj, List.replicate_succ']
    · rcases Nat.lt_succ_iff_lt_or_eq.1 hm with hlt | rfl
      · exact hbefore m hlt
      · exact hmore
  | append _ u requested done md seen num todo part hpart =>
    refine idle (fun c₁ hc => by cases hc; rfl) (fun d hd => by cases hd; rfl) fun d hd => ?_
    cases hd
    obtain ⟨⟨read, etag, body, hreq, ⟨contents, rfl, hall⟩, hsound, hissued, hreads⟩, ⟨n, rfl, hbefore⟩, -⟩ := h.calls i _ hi
    refine ⟨read ++ [(num, etag)], ?_, ⟨contents ++ [body], ?_, List.rel_append hall (.cons hissued .nil)⟩, hsound⟩
    · rw [hreq, List.append_assoc, List.singleton_append]
    · rw [reads_stream hbefore hpart hreads, List.flatten_append, List.flatten_singleton]
  | unread _ u requested done md seen num todo => exact idle (fun c₁ hc => by cases hc; rfl) nofun nofun
  | snapshot _ u more => exact idle (fun c₁ hc => by cases hc; rfl) (fun d hd => by cases hd; rfl) fun d hd => by cases hd; trivial
  | rekeyed _ new => exact idle (fun c₁ hc => by cases hc; rfl) nofun nofun

/-- a part is named by its upload and its number -/
theorem part_eq (hnamed : Named t) {u v : MultipartUpload} {c d : Call Obj} {j : ℕ} (hi : t.calls i = some c) (hu : u ∈ c.uploads)
    (hj : t.calls j = some d) (hv : v ∈ d.uploads) (hid : v.uploadId = u.uploadId) : v.bucket = u.bucket := by
  have hsame := hnamed.calls j d hj v hv
  rw [hid, hnamed.calls i c hi u hu] at hsame
  exact (congrArg Prod.fst (Option.some.inj hsame)).symm

theorem store_inv {o : Obj} {u : MultipartUpload} {num : ℕ} {body : Bytes} (h : Inv S t) (hnamed : Named t)
    (hi : t.calls i = some (.uploading u num)) (hreads : S.Reads (u.bucket, partKey u.uploadId num) o body)
    (hfree : ∀ j c, t.calls j = some c → ¬Touches c (u.bucket, partKey u.uploadId num)) :
    Inv S ((t.setObject (u.bucket, partKey u.uploadId num) (some o)).setCall i (some (.stored u num body))) := by
  have hnum : num ≤ 10000 := hnamed.part i _ _ num hi rfl
  have hkeeps : ∀ x, x ≠ (u.bucket, partKey u.uploadId num) →
      Keeps S t ((t.setObject (u.bucket, partKey u.uploadId num) (some o)).setCall i (some (.stored u num body))) x :=
    fun x hx => .of_eq fun o' ho' => ((setObject_objects t _ _ x).trans (if_neg hx)).symm.trans ho'
  refine ⟨?_, ?_, ?_, h.assembled.mono subset_rfl rfl⟩
  · intro id n size etag bucket key hrec hcreated hidle
    have hne : (id, n) ≠ (u.uploadId, num) := by
      intro heq
      refine hidle i (.stored u num body) (by rw [setCall_calls, if_pos rfl]) ?_
      rw [heq]
      rfl
    refine (h.recorded id n size etag bucket key hrec hcreated fun j c hj hp => ?_).keep subset_rfl (hkeeps _ fun heq => ?_)
    · by_cases hji : j = i
      · subst hji
        rw [hi] at hj
        cases hj
        cases hp
      · exact hidle j c (by rw [setCall_calls, if_neg hji]; exact hj) hp
    · have hn : n ≤ 10000 := hnamed.parts id n (Table.mem_iff_getElem?.2 ⟨_, hrec⟩)
      obtain ⟨hid, hn'⟩ := Multipart.partKey_inj hn hnum (Prod.mk.inj heq).2
      exact hne (by rw [hid, hn'])
  · intro j c hj
    rcases calls_setCall hj with ⟨-, hc⟩ | ⟨-, hj⟩
    · cases hc
      intro o' ho'
      rw [State.setCall, setObject_objects, if_pos rfl] at ho'
      cases ho'
      exact hreads
    · have hother : ∀ x, Touches c x → x ≠ (u.bucket, partKey u.uploadId num) := fun x hx heq => hfree j c hj (heq ▸ hx)
      refine (h.calls j c hj).keep subset_rfl (fun x hx => hkeeps x (hother x hx)) fun x hx o' ho' => ?_
      exact ((setObject_objects t _ _ x).trans (if_neg (hother x (touches_current hx)))).symm.trans ho'
  · have hpend : ∀ j c p,
        ((t.setObject (u.bucket, partKey u.uploadId num) (some o)).setCall i (some (.stored u num body))).calls j = some c →
        c.pending = some p → (j = i ∧ p = (u.uploadId, num)) ∨ (j ≠ i ∧ t.calls j = some c) := by
      intro j c p hj hp
      rcases calls_setCall hj with ⟨rfl, hc⟩ | hj
      · cases hc
        cases hp
        exact Or.inl ⟨rfl, rfl⟩
      · exact Or.inr hj
    have hfree' : ∀ j c, t.calls j = some c → c.pending ≠ some (u.uploadId, num) := by
      intro j c hj hp
      obtain ⟨v, hv, hid, htouch⟩ := touches_pending hp
      exact hfree j c hj (part_eq hnamed hi List.mem_cons_self hj hv hid ▸ htouch)
    intro j k c d p hj hk hp hp'
    rcases hpend j c p hj hp with ⟨rfl, rfl⟩ | ⟨-, hj⟩
    · rcases hpend k d _ hk hp' with ⟨rfl, -⟩ | ⟨-, hk⟩
      · rfl
      · exact absurd hp' (hfree' k d hk)
    · rcases hpend k d p hk hp' with ⟨-, rfl⟩ | ⟨-, hk⟩
      · exact absurd hp (hfree' j c hj)
      · exact h.alone j k c d p hj hk hp hp'

theorem record_inv {u : MultipartUpload} {num : ℕ} {body : Bytes} {etag : String} (h : Inv S t) (hnamed : Named t)
    (hi : t.calls i = some (.described u num body etag)) :
    Inv S { t.setCall i none with
      parts := Function.update t.parts u.uploadId ((t.parts u.uploadId).insert num (body.length, etag))
      issued := {(u.uploadId, num, etag, body)} ∪ t.issued } := by
  have hissued : t.issued ⊆ {(u.uploadId, num, etag, body)} ∪ t.issued := Set.subset_union_right
  refine ⟨?_, ?_, ?_, h.assembled.mono hissued rfl⟩
  · intro id n size etag' bucket key hrec hcreated hidle
    by_cases hpart : (u.uploadId, num) = (id, n)
    · cases hpart
      have hsame : (size, etag') = (body.length, etag) := by
        simp only [Function.update_self, Table.getElem?_insert_iff, if_true] at hrec
        exact (Option.some.inj hrec).symm
      cases hsame
      have hbucket : bucket = u.bucket :=
        congrArg Prod.fst (Option.some.inj (hcreated.symm.trans (hnamed.calls i _ hi u List.mem_cons_self)))
      subst hbucket
      exact fun o ho => ⟨body, Or.inl rfl, h.calls i _ hi o ho⟩
    · have hrec' : (t.parts id)[n]? = some (size, etag') := by
        simp only [Function.update_apply] at hrec
        split at hrec
        · next heq =>
          subst heq
          rwa [Table.getElem?_insert_iff, if_neg fun hn => hpart (by rw [hn])] at hrec
        · exact hrec
      refine (h.recorded id n size etag' bucket key hrec' hcreated fun j c hj hp => ?_).keep hissued (.of_eq fun _ ho => ho)
      by_cases hji : j = i
      · subst hji
        rw [hi] at hj
        cases hj
        exact hpart (Option.some.inj hp)
      · exact hidle j c ((setCall_calls t i none j).trans ((if_neg hji).trans hj)) hp
  · intro j c hj
    rcases calls_setCall hj with ⟨-, hnone⟩ | ⟨-, hj⟩
    · cases hnone
    · exact (h.calls j c hj).keep hissued (fun _ _ => .of_eq fun _ => id) fun _ _ _ => id
  · intro j k c d p hj hk hp hp'
    rcases calls_setCall hj with ⟨-, hnone⟩ | ⟨-, hj⟩
    · cases hnone
    · rcases calls_setCall hk with ⟨-, hnone⟩ | ⟨-, hk⟩
      · cases hnone
      · exact h.alone j k c d p hj hk hp hp'

theorem commit_inv {o : Obj} {u : MultipartUpload} {requested : Listed} {done : Bytes} (h : Inv S t) (hnamed : Named t)
    (hi : t.calls i = some (.assembling u requested done [])) (hreads : S.Reads (u.bucket, u.key) o done) :
    Inv S { (t.setObject (u.bucket, u.key) (some o)).setCall i (some (.clearing u [])) with
      completed := ⟨u.uploadId, requested, (u.bucket, u.key), o⟩ :: t.completed } := by
  have hkey : isReservedKey u.key = false := hnamed.key u.uploadId u.bucket u.key (hnamed.calls i _ hi u List.mem_cons_self)
  have hother : ∀ x : ObjKey, isReservedKey x.2 = true → x ≠ (u.bucket, u.key) := by
    rintro x hx rfl
    rw [hkey] at hx
    cases hx
  obtain ⟨read, hreq, ⟨contents, rfl, hall⟩, -⟩ := h.calls i _ hi
  rw [List.append_nil] at hreq
  subst hreq
  have hobjects : Inv S (t.setObject (u.bucket, u.key) (some o)) := by
    refine h.objects (fun x hx => .of_eq fun o' ho' => ?_) fun j c x hj hx o' ho' => ?_
    · exact ((setObject_objects t _ _ x).trans (if_neg (hother x hx))).symm.trans ho'
    · exact ((setObject_objects t _ _ x).trans (if_neg (hother x (touches_current hx).reserved))).symm.trans ho'
  have hidle : Inv S ((t.setObject (u.bucket, u.key) (some o)).setCall i (some (.clearing u []))) := by
    refine hobjects.setIdle (fun c₀ hc => ?_) (fun d hd => by cases hd; rfl) fun d hd => by cases hd; trivial
    cases hi.symm.trans hc
    rfl
  refine ⟨hidle.recorded, hidle.calls, hidle.alone, fun c hc => ?_⟩
  rcases List.mem_cons.1 hc with rfl | hc
  · exact ⟨contents, hreads, hall⟩
  · exact h.assembled c hc

/-- an object goes -/
theorem erase_inv {x : ObjKey} (h : Inv S t) : Inv S (t.setObject x none) := by
  have hold : ∀ y o, (t.setObject x none).objects y = some o → t.objects y = some o := by
    intro y o ho
    rw [setObject_objects] at ho
    split at ho
    · cases ho
    · exact ho
  exact h.objects (fun y _ => .of_eq (hold y)) fun _ _ y _ _ => hold y

theorem put_inv {x : ObjKey} {o : Obj} (h : Inv S t) (hx : isReservedKey x.2 = false) : Inv S (t.setObject x (some o)) := by
  have hold : ∀ y : ObjKey, isReservedKey y.2 = true → ∀ o', (t.setObject x (some o)).objects y = some o' → t.objects y = some o' := by
    intro y hy o' ho'
    rw [setObject_objects, if_neg] at ho'
    · exact ho'
    · rintro rfl
      rw [hx] at hy
      cases hy
  exact h.objects (fun y hy => .of_eq (hold y hy)) fun _ _ y _ hy => hold y (touches_current hy).reserved

theorem reseal_inv {x : ObjKey} {o o' : Obj} (h : Inv S t) (hx : t.objects x = some o)
    (hreads : ∀ content, S.Reads x o content → S.Reads x o' content) (hcurrent : ∀ j c, t.calls j = some c → current c ≠ some x) :
    Inv S (t.setObject x (some o')) := by
  refine h.objects (fun y _ o₁ ho₁ => ?_) fun j c y hj hy o₁ ho₁ => ?_
  · have hset := (setObject_objects t x (some o') y).symm.trans ho₁
    split at hset
    · next heq =>
      subst heq
      cases hset
      exact ⟨o, hx, hreads⟩
    · exact ⟨o₁, hset, fun _ hr => hr⟩
  · have hne : y ≠ x := fun heq => hcurrent j c hj (heq ▸ hy)
    exact ((setObject_objects t x (some o') y).trans (if_neg hne)).symm.trans ho₁

theorem step_inv (h : Inv S t) (hnamed : Named t) (hlegal : Multipart.Legal S t e) (hsteady : Steady t e) (hmoves : Moves S t e t') :
    Inv S t' := by
  cases hmoves with
  | idle e => exact h
  | turn hturn => exact turn_inv h hnamed hsteady hturn
  | register i uploadId now new hi =>
    have hidle : Inv S (t.setCall i none) := h.setIdle (fun c₀ hc => by cases hi.symm.trans hc; rfl) nofun nofun
    refine ⟨fun id num size etag bucket key hrec hcreated hpending => ?_, hidle.calls, hidle.alone, hidle.assembled⟩
    simp only [Function.update_apply] at hrec hcreated
    split at hrec
    · cases hrec
    · next hne =>
      rw [if_neg hne] at hcreated
      exact hidle.recorded id num size etag bucket key hrec hcreated hpending
  | store i o body u num hi => exact store_inv h hnamed hi (hlegal u num hi) (hsteady u num hi)
  | record i u num body etag hi => exact record_inv h hnamed hi
  | commit i o u requested done hi => exact commit_inv h hnamed hi (hlegal u requested done hi)
  | deletePart i u num numbers more hi =>
    exact (erase_inv h).setIdle (fun c₀ hc => by cases hi.symm.trans hc; rfl) (fun d hd => by cases hd; rfl)
      fun d hd => by cases hd; trivial
  | remove i u more hi =>
    have hnext : ∀ d, Multipart.clearNext more = some d → d.pending = none ∧ CallInv S t d := by
      intro d hd
      cases more with
      | nil => cases hd
      | cons v more =>
        cases hd
        exact ⟨rfl, trivial⟩
    have hidle : Inv S (t.setCall i (Multipart.clearNext more)) :=
      h.setIdle (fun c₀ hc => by cases hi.symm.trans hc; rfl) (fun d hd => (hnext d hd).1) fun d hd => (hnext d hd).2
    exact ⟨hidle.recorded, hidle.calls, hidle.alone, hidle.assembled⟩
  | rekey i new u todo hi =>
    have hidle : Inv S (t.setCall i (some (.rekeying new todo))) :=
      h.setIdle (fun c₀ hc => by cases hi.symm.trans hc; rfl) (fun d hd => by cases hd; rfl) fun d hd => by cases hd; trivial
    exact ⟨hidle.recorded, hidle.calls, hidle.alone, hidle.assembled⟩
  | put x o => exact put_inv h hsteady
  | reseal x o o' hx => exact reseal_inv h hx (fun content => hlegal o content hx) hsteady
  | delete x => exact erase_inv h

/-! ## Runs -/

/-- a part is uploaded, and the upload completed with it -/
def oneByOne : List (Ev Bytes) :=
  [.create 0 ⟨"b", "k", [0], "alice", ∅⟩ [], .register 0 "u" 0, .uploadPart 1 "u" "b" "k" [0] 1, .store 1 [7] [7], .step 1, .step 1,
    .complete 2 "u" "b" "k" [0] [(1, Multipart.plain.etag [7])], .step 2, .step 2, .step 2, .step 2, .commit 2 [7]]

/-- the objects that there were -/
abbrev Past (Obj : Type) := Set (ObjKey × Obj)

/-- the content is read from objects that were there under the part's own key -/
def FromPart (S : Sealing Obj) (past : Past Obj) (bucket id : String) (p : ℕ × String) (content : Bytes) : Prop :=
  ∃ md seen, ((bucket, partKey id p.1), md) ∈ past ∧ (∀ o ∈ seen, ((bucket, partKey id p.1), o) ∈ past) ∧
    S.stream (bucket, partKey id p.1) md seen = some (some content)

/-- ETags of this upload, in the order of their numbers -/
structure Requested (t : State Obj) (id : String) (requested : Listed) : Prop where
  ordered : requested.IsChain fun a b => a.1 < b.1
  issued : ∀ p ∈ requested, ∃ body, Issued t id p body

def Joined (S : Sealing Obj) (past : Past Obj) (u : MultipartUpload) (read : Listed) (done : Bytes) : Prop :=
  ∃ contents, done = contents.flatten ∧ List.Forall₂ (FromPart S past u.bucket u.uploadId) read contents

def CallOwn (S : Sealing Obj) (t : State Obj) (past : Past Obj) : Call Obj → Prop
  | .completing _ requested => requested.IsChain fun a b => a.1 < b.1
  | .assembling u requested done todo =>
    Requested t u.uploadId requested ∧ ∃ read, requested = read ++ todo ∧ Joined S past u read done
  | .reading u requested done md seen num todo =>
    Requested t u.uploadId requested ∧ (∃ read etag, requested = read ++ (num, etag) :: todo ∧ Joined S past u read done) ∧
      ((u.bucket, partKey u.uploadId num), md) ∈ past ∧ ∀ o ∈ seen, ((u.bucket, partKey u.uploadId num), o) ∈ past
  | _ => True

/-- what was committed is made of the upload's own parts, and the ETags are the upload's own -/
def OwnParts (S : Sealing Obj) (t : State Obj) (past : Past Obj) : Prop :=
  ∀ c ∈ t.completed, Requested t c.uploadId c.requested ∧
    ∃ contents, S.Reads c.x c.object contents.flatten ∧ List.Forall₂ (FromPart S past c.x.1 c.uploadId) c.requested contents

structure Own (S : Sealing Obj) (t : State Obj) (past : Past Obj) : Prop where
  there : ∀ x o, t.objects x = some o → (x, o) ∈ past
  recorded : ∀ id num size etag, (t.parts id)[num]? = some (size, etag) → ∃ body, Issued t id (num, etag) body
  calls : ∀ i c, t.calls i = some c → CallOwn S t past c
  completed : OwnParts S t past

section Own

variable {past past' : Past Obj}

theorem FromPart.mono {bucket id : String} {p : ℕ × String} {content : Bytes} (h : FromPart S past bucket id p content)
    (hpast : past ⊆ past') : FromPart S past' bucket id p content := by
  obtain ⟨md, seen, hmd, hseen, hstream⟩ := h
  exact ⟨md, seen, hpast hmd, fun o ho => hpast (hseen o ho), hstream⟩

theorem Requested.mono {id : String} {requested : Listed} (h : Requested t id requested) (hissued : t.issued ⊆ t'.issued) :
    Requested t' id requested := by
  refine ⟨h.ordered, fun p hp => ?_⟩
  obtain ⟨body, hbody⟩ := h.issued p hp
  exact ⟨body, hissued hbody⟩

theorem Joined.mono {u : MultipartUpload} {read : Listed} {done : Bytes} (h : Joined S past u read done) (hpast : past ⊆ past') :
    Joined S past' u read done := by
  obtain ⟨contents, hdone, hall⟩ := h
  exact ⟨contents, hdone, hall.imp fun _ _ hp => hp.mono hpast⟩

theorem CallOwn.mono {c : Call Obj} (h : CallOwn S t past c) (hissued : t.issued ⊆ t'.issued) (hpast : past ⊆ past') :
    CallOwn S t' past' c := by
  cases c with
  | completing u requested => exact h
  | assembling u requested done todo =>
    obtain ⟨hreq, read, heq, hjoined⟩ := h
    exact ⟨hreq.mono hissued, read, heq, hjoined.mono hpast⟩
  | reading u requested done md seen num todo =>
    obtain ⟨hreq, ⟨read, etag, heq, hjoined⟩, hmd, hseen⟩ := h
    exact ⟨hreq.mono hissued, ⟨read, etag, heq, hjoined.mono hpast⟩, hpast hmd, fun o ho => hpast (hseen o ho)⟩
  | _ => trivial

theorem OwnParts.mono (h : OwnParts S t past) (hissued : t.issued ⊆ t'.issued) (hpast : past ⊆ past')
    (hcompleted : t'.completed = t.completed) : OwnParts S t' past' := by
  intro c hc
  obtain ⟨hreq, contents, hreads, hall⟩ := h c (hcompleted ▸ hc)
  exact ⟨hreq.mono hissued, contents, hreads, hall.imp fun _ _ hp => hp.mono hpast⟩

/-- what a request goes on to -/
theorem turn_own {d : Call Obj} (h : Own S t past) (hturn : Turn S t e i (t.calls i) (some d)) : CallOwn S t past d := by
  generalize hi : t.calls i = c₀ at hturn
  generalize hd : some d = d' at hturn
  cases hturn with
  | complete _ _ _ _ _ requested u _ hchain =>
    cases hd
    exact hchain
  | validate _ u requested hvalid =>
    cases hd
    refine ⟨⟨h.calls i _ hi, fun p hp => ?_⟩, [], rfl, [], rfl, .nil⟩
    obtain ⟨size, hrec⟩ := validate_recorded hvalid p hp
    exact h.recorded u.uploadId p.1 size p.2 hrec
  | pick _ u requested done num etag todo md hobj =>
    cases hd
    obtain ⟨hreq, read, heq, hjoined⟩ := h.calls i _ hi
    exact ⟨hreq, ⟨read, etag, heq, hjoined⟩, h.there _ md hobj, nofun⟩
  | read _ u requested done md seen num todo o hmore hobj =>
    cases hd
    obtain ⟨hreq, hjoined, hmd, hseen⟩ := h.calls i _ hi
    refine ⟨hreq, hjoined, hmd, fun o' ho' => ?_⟩
    rcases List.mem_append.1 ho' with ho' | ho'
    · exact hseen o' ho'
    · rw [List.mem_singleton.1 ho']
      exact h.there _ o hobj
  | append _ u requested done md seen num todo part hpart =>
    cases hd
    obtain ⟨hreq, ⟨read, etag, heq, contents, rfl, hall⟩, hmd, hseen⟩ := h.calls i _ hi
    have hfrom : FromPart S past u.bucket u.uploadId (num, etag) part := ⟨md, seen, hmd, hseen, hpart⟩
    refine ⟨hreq, read ++ [(num, etag)], ?_, contents ++ [part], ?_, List.rel_append hall (.cons hfrom .nil)⟩
    · rw [heq, List.append_assoc, List.singleton_append]
    · rw [List.flatten_append, List.flatten_singleton]
  | _ => cases hd <;> trivial

theorem Own.move (h : Own S t past) (hpast : past ⊆ past') (hthere : ∀ x o, t'.objects x = some o → (x, o) ∈ past')
    (hissued : t.issued ⊆ t'.issued)
    (hrecorded : ∀ (id : String) (num size : ℕ) (etag : String), (t'.parts id)[num]? = some (size, etag) →
      (t.parts id)[num]? = some (size, etag) ∨ ∃ body, Issued t' id (num, etag) body)
    (hcalls : ∀ j c, t'.calls j = some c → t.calls j = some c ∨ CallOwn S t past c) (hcompleted : OwnParts S t' past') :
    Own S t' past' where
  there := hthere
  recorded := by
    intro id num size etag hrec
    rcases hrecorded id num size etag hrec with hrec | hbody
    · obtain ⟨body, hbody⟩ := h.recorded id num size etag hrec
      exact ⟨body, hissued hbody⟩
    · exact hbody
  calls := by
    intro j c hj
    rcases hcalls j c hj with hj | hc
    · exact (h.calls j c hj).mono hissued hpast
    · exact hc.mono hissued hpast
  completed := hcompleted

/-- a step that neither records a part nor commits an object -/
theorem Own.quiet (h : Own S t past) (hpast : past ⊆ past') (hthere : ∀ x o, t'.objects x = some o → (x, o) ∈ past')
    (hissued : t'.issued = t.issued)
    (hparts : ∀ (id : String) (num size : ℕ) (etag : String), (t'.parts id)[num]? = some (size, etag) →
      (t.parts id)[num]? = some (size, etag))
    (hcalls : ∀ j c, t'.calls j = some c → t.calls j = some c ∨ CallOwn S t past c) (hcompleted : t'.completed = t.completed) :
    Own S t' past' := by
  have hsub : t.issued ⊆ t'.issued := hissued.symm ▸ subset_rfl
  exact h.move hpast hthere hsub (fun id num size etag hrec => Or.inl (hparts id num size etag hrec)) hcalls
    (h.completed.mono hsub hpast hcompleted)

theorem calls_own {c : Option (Call Obj)} (hc : ∀ d, c = some d → CallOwn S t past d) :
    ∀ j d, (t.setCall i c).calls j = some d → t.calls j = some d ∨ CallOwn S t past d := by
  intro j d hj
  rcases calls_setCall hj with ⟨-, hd⟩ | ⟨-, hj⟩
  · exact Or.inr (hc d hd)
  · exact Or.inl hj

theorem own_step (h : Own S t past) (hlegal : Multipart.Legal S t e) (hmoves : Moves S t e t') (hpast : past ⊆ past')
    (hthere : ∀ x o, t'.objects x = some o → (x, o) ∈ past') : Own S t' past' := by
  cases hmoves with
  | idle e => exact h.quiet hpast hthere rfl (fun _ _ _ _ hrec => hrec) (fun _ _ hj => Or.inl hj) rfl
  | turn hturn => exact h.quiet hpast hthere rfl (fun _ _ _ _ hrec => hrec) (calls_own fun d hd => turn_own h (hd ▸ hturn)) rfl
  | register i uploadId now new hi =>
    refine h.quiet hpast hthere rfl (fun id num size etag hrec => ?_) (@calls_own _ _ t i past none nofun) rfl
    simp only [Function.update_apply] at hrec
    split at hrec
    · cases hrec
    · exact hrec
  | store i o body u num hi =>
    exact h.quiet hpast hthere rfl (fun _ _ _ _ hrec => hrec)
      (@calls_own _ _ t i past (some (.stored u num body)) fun d hd => by cases hd; trivial) rfl
  | record i u num body etag hi =>
    have hissued : t.issued ⊆ {(u.uploadId, num, etag, body)} ∪ t.issued := Set.subset_union_right
    refine h.move hpast hthere hissued (fun id n size etag' hrec => ?_) (@calls_own _ _ t i past none nofun)
      (h.completed.mono hissued hpast rfl)
    simp only [Function.update_apply] at hrec
    split at hrec
    · next heq =>
      subst heq
      rw [Table.getElem?_insert_iff] at hrec
      split at hrec
      · next hn =>
        subst hn
        cases hrec
        exact Or.inr ⟨body, Or.inl rfl⟩
      · exact Or.inl hrec
    · exact Or.inl hrec
  | commit i o u requested done hi =>
    obtain ⟨hreq, read, heq, contents, rfl, hall⟩ := h.calls i _ hi
    rw [List.append_nil] at heq
    subst heq
    refine h.move hpast hthere subset_rfl (fun _ _ _ _ hrec => Or.inl hrec)
      (@calls_own _ _ t i past (some (.clearing u [])) fun d hd => by cases hd; trivial) fun c hc => ?_
    rcases List.mem_cons.1 hc with rfl | hc
    · exact ⟨hreq.mono subset_rfl, contents, hlegal u requested _ hi, hall.imp fun _ _ hp => hp.mono hpast⟩
    · obtain ⟨hreq', contents', hreads', hall'⟩ := h.completed c hc
      exact ⟨hreq'.mono subset_rfl, contents', hreads', hall'.imp fun _ _ hp => hp.mono hpast⟩
  | deletePart i u num numbers more hi =>
    exact h.quiet hpast hthere rfl (fun _ _ _ _ hrec => hrec)
      (@calls_own _ _ t i past (some (.deleting u numbers more)) fun d hd => by cases hd; trivial) rfl
  | remove i u more hi =>
    refine h.quiet hpast hthere rfl (fun _ _ _ _ hrec => hrec) (@calls_own _ _ t i past (Multipart.clearNext more) fun d hd => ?_) rfl
    cases more with
    | nil => cases hd
    | cons v more =>
      cases hd
      trivial
  | rekey i new u todo hi =>
    exact h.quiet hpast hthere rfl (fun _ _ _ _ hrec => hrec)
      (@calls_own _ _ t i past (some (.rekeying new todo)) fun d hd => by cases hd; trivial) rfl
  | put x o => exact h.quiet hpast hthere rfl (fun _ _ _ _ hrec => hrec) (fun _ _ hj => Or.inl hj) rfl
  | reseal x o o' hx => exact h.quiet hpast hthere rfl (fun _ _ _ _ hrec => hrec) (fun _ _ hj => Or.inl hj) rfl
  | delete x => exact h.quiet hpast hthere rfl (fun _ _ _ _ hrec => hrec) (fun _ _ hj => Or.inl hj) rfl

/-- the objects are remembered -/
def watched (S : Sealing Obj) (maxPerSession : ℕ) (s : State Obj × Past Obj) (e : Ev Obj) : State Obj × Past Obj :=
  let t' := Multipart.step S maxPerSession s.1 e
  (t', s.2 ∪ {p | t'.objects p.1 = some p.2})

/-- **Nothing but the upload's own parts goes into what a complete commits**, whatever other requests store, replace or delete in the
meantime: it is the concatenation, in the order of the part numbers, of contents read from objects under the listed parts' own keys, and
each listed ETag was issued for a part of this upload with this number. -/
theorem own_parts (S : Sealing Obj) (maxPerSession : ℕ) (objects : ObjKey → Option Obj) (evs : List (Ev Obj))
    (h : Along (watched S maxPerSession) (fun s e => Multipart.Legal S s.1 e)
      (Multipart.init objects, {p | objects p.1 = some p.2}) evs) :
    OwnParts S (run (watched S maxPerSession) (Multipart.init objects, {p | objects p.1 = some p.2}) evs).1
      (run (watched S maxPerSession) (Multipart.init objects, {p | objects p.1 = some p.2}) evs).2 := by
  have hinit : Own S (Multipart.init objects) {p | objects p.1 = some p.2} := by
    refine ⟨fun _ _ ho => ho, fun id num size etag hrec => ?_, nofun, nofun⟩
    cases hrec
  refine (Along.inv (I := fun s : State Obj × Past Obj => Own S s.1 s.2) (fun s e hs he => ?_) hinit h).completed
  exact own_step hs he (Multipart.step_moves S maxPerSession s.1 e) Set.subset_union_left fun x o ho => Or.inr ho

end Own

/-- the object of the part is replaced after its ETag was looked up -/
def replaced : List (Ev Bytes) :=
  [.create 0 ⟨"b", "k", [0], "alice", ∅⟩ [], .register 0 "u" 0, .uploadPart 1 "u" "b" "k" [0] 1, .store 1 [7] [7], .step 1, .step 1,
    .complete 2 "u" "b" "k" [0] [(1, Multipart.plain.etag [7])], .step 2, .put ("b", partKey "u" 1) [9], .step 2, .step 2, .step 2,
    .commit 2 [9]]

theorem own_parts_replaced :
    OwnParts Multipart.plain
      (run (watched Multipart.plain 8) (Multipart.init fun _ => none, {p | (fun _ => none) p.1 = some p.2}) replaced).1
      (run (watched Multipart.plain 8) (Multipart.init fun _ => none, {p | (fun _ => none) p.1 = some p.2}) replaced).2 := by
  refine own_parts Multipart.plain 8 (fun _ => none) replaced ⟨trivial, rfl, trivial, fun _ _ _ => Multipart.plain_reads.2 rfl, trivial,
    trivial, trivial, trivial, trivial, trivial, trivial, trivial, ?_, trivial⟩
  intro u requested done hi
  cases hi
  exact Multipart.plain_reads.2 rfl

end Y2q.Assembly
