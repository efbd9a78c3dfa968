/-
Integrity of the version 4 envelope under an ideal cipher.

The world: `sealed` is the set of everything ever sealed, the cipher opens nothing else (`Aead.OpensOnly`), and of `sealed`
only the chunks of the envelope `E` are under a key derived from `E`'s encapsulation (each envelope encapsulates afresh).
The attacker hands the reader any byte string with the same KEM ciphertext, any address and any claimed size.

- `Opened` / `chunkLoopOwned_opened`: what a successful chunk loop has opened, chunk by chunk.
- `opened_all`: if the chunks a version 4 reader opened are all among `E`'s, they are `E`'s, in order. Each index fixes the
  nonce, so the chunk in place `j` is `E`'s chunk `j`; only the last one carries the final mark, so the numbers agree too, even
  if the 64-bit index has wrapped.
- `envelope_integrity`: the statement for the readers.
-/
import Mathlib.Tactic
import Y2q.Crypto.EnvelopeRoundTrip

namespace Y2q.Envelope

open Y2q

variable {S : Suite}

/-! ## What was sealed -/

/-- the chunk ciphertexts of an envelope, as a reader cuts them -/
def cipherChunks (env : Bytes) : List Bytes := chunks (ofBe (slice env 32 36) + TAG_LEN) (env.drop PREAMBLE_LEN)

section Boxes

variable {key nb aad : Bytes}

theorem getElem?_boxes (i : ℕ) (L : List Bytes) (j : ℕ) :
    (boxes S key nb aad i L)[j]? = L[j]?.map fun x =>
      ⟨key, chunkNonce nb (i + j), buildV4Aad aad (j + 1 = L.length), sealChunk S key nb aad (i + j) (j + 1 = L.length) x, x⟩ := by
  induction L generalizing i j with
  | nil => simp [boxes]
  | cons x xs ih =>
    cases j with
    | zero => cases xs <;> simp [boxes]
    | succ j =>
      rw [boxes, List.getElem?_cons_succ, ih, List.getElem?_cons_succ]
      simp only [List.length_cons, Nat.add_right_cancel_iff]
      congr 1
      rw [show i + 1 + j = i + (j + 1) by omega]

theorem mem_boxes {b : Aead.Box Bytes} {L : List Bytes} (h : b ∈ boxes S key nb aad 0 L) :
    ∃ i x, L[i]? = some x ∧
      b = ⟨key, chunkNonce nb i, buildV4Aad aad (i + 1 = L.length), sealChunk S key nb aad i (i + 1 = L.length) x, x⟩ := by
  obtain ⟨i, hi⟩ := List.mem_iff_getElem?.1 h
  rw [getElem?_boxes, Nat.zero_add] at hi
  obtain ⟨x, hx, rfl⟩ := Option.map_eq_some_iff.1 hi
  exact ⟨i, x, hx, rfl⟩

/-- the sealed body is the ciphertexts one after another -/
theorem flatten_boxes (i : ℕ) (L : List Bytes) :
    ((boxes S key nb aad i L).map Aead.Box.ct).flatten = sealFinal S key nb aad i L := by
  induction L generalizing i with
  | nil => rfl
  | cons x xs ih =>
    rw [boxes, List.map_cons, List.flatten_cons, ih]
    cases xs with
    | nil => simp [sealFinal]
    | cons y ys => rfl

/-- and a reader cuts it into just these -/
theorem chunks_sealFinal {c : ℕ} (i : ℕ) {L : List Bytes} (hL : Chunked c L) :
    chunks (c + 16) (sealFinal S key nb aad i L) = (boxes S key nb aad i L).map Aead.Box.ct := by
  rw [← flatten_boxes]
  symm
  apply Chunked.eq_chunks (by omega)
  induction L generalizing i with
  | nil => trivial
  | cons x xs ih =>
    cases xs with
    | nil =>
      refine ⟨List.ne_nil_of_length_pos ?_, ?_⟩
      · rw [length_sealChunk]; omega
      · rw [length_sealChunk]; have := hL.2; omega
    | cons y ys =>
      refine ⟨?_, ih (i + 1) hL.2⟩
      rw [length_sealChunk, hL.1]

theorem zipWith_xor_inj {a b b' : Bytes} (hb : b.length = a.length) (hb' : b'.length = a.length)
    (h : List.zipWith (· ^^^ ·) a b = List.zipWith (· ^^^ ·) a b') : b = b' := by
  induction a generalizing b b' with
  | nil => rw [List.eq_nil_of_length_eq_zero hb, List.eq_nil_of_length_eq_zero hb']
  | cons x xs ih =>
    obtain ⟨y, ys, rfl⟩ := List.exists_cons_of_length_eq_add_one hb
    obtain ⟨z, zs, rfl⟩ := List.exists_cons_of_length_eq_add_one hb'
    rw [List.zipWith_cons_cons, List.zipWith_cons_cons, List.cons.injEq] at h
    rw [UInt8.xor_right_inj x |>.1 h.1, ih (Nat.succ.inj hb) (Nat.succ.inj hb') h.2]

/-- a nonce determines the index, as a `u64` -/
theorem chunkNonce_inj (hnb : nb.length = 12) {i j : ℕ} (h : chunkNonce nb i = chunkNonce nb j) : i % 2 ^ 64 = j % 2 ^ 64 := by
  have hbe : beBytes 8 i = beBytes 8 j :=
    zipWith_xor_inj (a := nb.drop 4) (by simp [hnb]) (by simp [hnb]) (List.append_inj h rfl).2
  have := congrArg ofBe hbe
  rwa [ofBe_beBytes, ofBe_beBytes] at this

end Boxes

/-! ## What was opened -/

/-- the chunks from index `i` on opened, one by one, to these messages -/
def Opened (S : Suite) (ver : ℕ) (p : Preamble) : ℕ → List Bytes → List Bytes → Prop
  | _, [], [] => True
  | i, ct :: cts, m :: ms =>
    S.aead.decrypt p.contentKey (chunkNonce p.nonceBase i) (chunkAad ver p.aadBase cts.isEmpty) ct = some m ∧
      Opened S ver p (i + 1) cts ms
  | _, _, _ => False

section Opened

variable {ver : ℕ} {p : Preamble}

theorem Opened.length_eq {i : ℕ} {cts ms : List Bytes} (h : Opened S ver p i cts ms) : ms.length = cts.length := by
  induction cts generalizing i ms with
  | nil => cases ms with
    | nil => rfl
    | cons m ms => exact h.elim
  | cons ct cts ih => cases ms with
    | nil => exact h.elim
    | cons m ms => simp [ih h.2]

theorem Opened.get {i : ℕ} {cts ms : List Bytes} (h : Opened S ver p i cts ms) {j : ℕ} {ct : Bytes} (hj : cts[j]? = some ct) :
    ∃ m, ms[j]? = some m ∧ S.aead.decrypt p.contentKey (chunkNonce p.nonceBase (i + j))
      (chunkAad ver p.aadBase (j + 1 = cts.length)) ct = some m := by
  induction cts generalizing i ms j with
  | nil => cases hj
  | cons c cts ih => cases ms with
    | nil => exact h.elim
    | cons m ms =>
      cases j with
      | zero =>
        cases hj
        refine ⟨m, rfl, ?_⟩
        have := h.1
        cases cts <;> simpa using this
      | succ j =>
        obtain ⟨m', hm', ho⟩ := ih h.2 hj
        refine ⟨m', hm', ?_⟩
        rw [List.length_cons, show i + (j + 1) = i + 1 + j by omega]
        simpa using ho

/-- a chunk loop that succeeds has opened every chunk of the body -/
theorem chunkLoopOwned_opened {body acc pt : Bytes} {consumed idx : ℕ}
    (h : chunkLoopOwned S ver p (consumed + body.length) body consumed idx acc = .ok pt) :
    ∃ ms, Opened S ver p idx (chunks (p.chunkSize + TAG_LEN) body) ms ∧ pt = acc ++ ms.flatten := by
  have htag : TAG_LEN = 16 := rfl
  induction hn : body.length using Nat.strong_induction_on generalizing body acc consumed idx with
  | _ n ih =>
    rw [chunkLoopOwned] at h
    by_cases hb : body = []
    · rw [dif_pos hb] at h
      cases h
      rw [hb, chunks_nil]
      exact ⟨[], trivial, (List.append_nil _).symm⟩
    · rw [dif_neg hb] at h
      have hpos := List.length_pos_of_ne_nil hb
      simp only at h
      generalize htake : min (p.chunkSize + TAG_LEN) body.length = take at h
      split_ifs at h with ht
      cases hd : S.aead.decrypt p.contentKey (chunkNonce p.nonceBase idx)
          (chunkAad ver p.aadBase (consumed + take = consumed + body.length)) (body.take take) with
      | none => rw [hd] at h; cases h
      | some m =>
        rw [hd] at h
        simp only at h
        have hrest : consumed + body.length = consumed + take + (body.drop take).length := by rw [List.length_drop]; omega
        rw [hrest] at h
        obtain ⟨ms, hms, hpt⟩ := ih (body.drop take).length (by rw [List.length_drop]; omega) h rfl
        -- the loop's cut is the one `chunks` makes, and its end is where `chunks` ends
        have hcut : body.take take = body.take (p.chunkSize + TAG_LEN) ∧ body.drop take = body.drop (p.chunkSize + TAG_LEN) := by
          by_cases hle : p.chunkSize + TAG_LEN ≤ body.length
          · rw [show take = p.chunkSize + TAG_LEN by omega]; exact ⟨rfl, rfl⟩
          · rw [List.take_of_length_le (by omega), List.take_of_length_le (by omega), List.drop_eq_nil_of_le (by omega),
              List.drop_eq_nil_of_le (by omega)]
            exact ⟨rfl, rfl⟩
        have hfin : decide (consumed + take = consumed + body.length) =
            (chunks (p.chunkSize + TAG_LEN) (body.drop (p.chunkSize + TAG_LEN))).isEmpty := by
          rw [← hcut.2, eq_comm, Bool.eq_iff_iff, List.isEmpty_iff, chunks_eq_nil (by omega), decide_eq_true_iff,
            List.drop_eq_nil_iff]
          omega
        refine ⟨m :: ms, ?_, ?_⟩
        · rw [chunks_of_ne_nil (by omega) hb]
          refine ⟨?_, ?_⟩
          · rw [← hfin, ← hcut.1]; exact hd
          · rw [← hcut.2]; exact hms
        · rw [hpt, List.flatten_cons, List.append_assoc]

end Opened

/-! ## Only the envelope itself opens -/

section Integrity

variable {key nb aad : Bytes} {p : Preamble}

theorem buildV4Aad_inj {a b : Bytes} {f g : Bool} (h : buildV4Aad a f = buildV4Aad b g) : a = b ∧ f = g := by
  obtain ⟨hab, hfg⟩ := List.append_inj' h rfl
  refine ⟨hab, ?_⟩
  cases f <;> cases g <;> first | rfl | exact absurd hfg (by decide)

/-- **Chunks that were all sealed for one envelope are that envelope's, in order and to the last one.** -/
theorem opened_all {cts ms L : List Bytes} (hnb : nb.length = 12) (hp : p.nonceBase = nb) (hL : L.length ≤ 2 ^ 64)
    (hne : cts ≠ []) (ho : Opened S FORMAT_VER_V4 p 0 cts ms)
    (hmem : ∀ j ct m, S.aead.decrypt p.contentKey (chunkNonce p.nonceBase j) (buildV4Aad p.aadBase (j + 1 = cts.length)) ct =
      some m → ⟨p.contentKey, chunkNonce p.nonceBase j, buildV4Aad p.aadBase (j + 1 = cts.length), ct, m⟩ ∈
        boxes S key nb aad 0 L) :
    ms = L ∧ cts = (boxes S key nb aad 0 L).map Aead.Box.ct := by
  -- place `j` holds the chunk whose index is `j` as a `u64`, and both or neither are last
  have hat : ∀ j < cts.length, ∃ x, L[j % 2 ^ 64]? = some x ∧ ms[j]? = some x ∧
      cts[j]? = some (sealChunk S key nb aad (j % 2 ^ 64) (j % 2 ^ 64 + 1 = L.length) x) ∧
      (j + 1 = cts.length ↔ j % 2 ^ 64 + 1 = L.length) := by
    intro j hj
    have hct : cts[j]? = some cts[j] := List.getElem?_eq_getElem hj
    obtain ⟨m, hm, hopen⟩ := ho.get hct
    rw [Nat.zero_add] at hopen
    obtain ⟨i, x, hx, hbox⟩ := mem_boxes (hmem j _ m hopen)
    rw [Aead.Box.mk.injEq] at hbox
    obtain ⟨-, hnonce, haad, hcteq, rfl⟩ := hbox
    rw [hp] at hnonce
    have hij := chunkNonce_inj hnb hnonce
    have hi : i < L.length := (List.getElem?_eq_some_iff.1 hx).1
    rw [Nat.mod_eq_of_lt (show i < 2 ^ 64 by omega)] at hij
    rw [hij]
    refine ⟨m, hx, hm, by rw [hct, hcteq], ?_⟩
    simpa using (buildV4Aad_inj haad).2
  have hpos := List.length_pos_of_ne_nil hne
  have hLpos : 0 < L.length := by
    obtain ⟨x, hx, -⟩ := hat 0 hpos
    have := (List.getElem?_eq_some_iff.1 hx).1
    omega
  have hle : cts.length ≤ L.length := by
    by_contra hgt
    obtain ⟨-, -, -, -, hiff⟩ := hat (L.length - 1) (by omega)
    rw [Nat.mod_eq_of_lt (by omega)] at hiff
    omega
  have hlen : cts.length = L.length := by
    obtain ⟨-, -, -, -, hiff⟩ := hat (cts.length - 1) (by omega)
    rw [Nat.mod_eq_of_lt (by omega)] at hiff
    omega
  constructor
  · refine List.ext_getElem? fun j => ?_
    by_cases hj : j < cts.length
    · obtain ⟨x, hx, hm, -⟩ := hat j hj
      rw [Nat.mod_eq_of_lt (by omega)] at hx
      rw [hm, hx]
    · rw [List.getElem?_eq_none (by rw [ho.length_eq]; omega), List.getElem?_eq_none (by omega)]
  · refine List.ext_getElem? fun j => ?_
    rw [List.getElem?_map, getElem?_boxes, Nat.zero_add]
    by_cases hj : j < cts.length
    · obtain ⟨x, hx, -, hct, -⟩ := hat j hj
      rw [Nat.mod_eq_of_lt (by omega)] at hx hct
      rw [hct, hx]
      rfl
    · rw [List.getElem?_eq_none (by omega), List.getElem?_eq_none (by omega)]
      rfl

/-- what a reader that succeeds has done -/
theorem decrypt_ok {sk env r : Bytes} {b k : String} {n : ℕ} (h : decrypt S sk env b k n = .ok r) :
    ∃ ver p pt, (ver = FORMAT_VER_V3 ∨ ver = FORMAT_VER_V4) ∧ PREAMBLE_LEN ≤ env.length ∧
      p.nonceBase = slice env 12 24 ∧ p.chunkSize = ofBe (slice env 32 36) ∧ p.aadBase = buildV3Aad (slice env 0 36) ∧
      p.contentKey = deriveContentKey S (S.decapsulate (slice env 36 1124) sk) (slice env 36 1124) b k ∧
      chunkLoopOwned S ver p env.length (env.drop PREAMBLE_LEN) PREAMBLE_LEN 0 [] = .ok pt ∧ n ≤ pt.length ∧ r = pt.take n := by
  have hver : ∃ ver tr, (ver = FORMAT_VER_V3 ∨ ver = FORMAT_VER_V4) ∧ decryptVersion S ver tr sk env b k n = .ok r := by
    unfold decrypt dispatch at h
    split_ifs at h
    · exact ⟨_, _, Or.inl rfl, h⟩
    · exact ⟨_, _, Or.inr rfl, h⟩
  obtain ⟨ver, tr, hv, h⟩ := hver
  unfold decryptVersion at h
  cases hp : readPreamble S ver tr sk env b k with
  | error e => rw [hp] at h; cases h
  | ok p =>
    rw [hp] at h
    change (chunkLoop S ver p env PREAMBLE_LEN 0 [] >>= fun pt => finishPlaintext p n pt) = _ at h
    have hlen := readPreamble_length hp
    rw [chunkLoop_eq_owned ver p env hlen] at h
    cases hl : chunkLoopOwned S ver p env.length (env.drop PREAMBLE_LEN) PREAMBLE_LEN 0 [] with
    | error e => rw [hl] at h; cases h
    | ok pt =>
      rw [hl] at h
      change finishPlaintext p n pt = _ at h
      unfold finishPlaintext at h
      split_ifs at h with h1 h2
      cases h
      unfold readPreamble at hp
      split_ifs at hp
      unfold secretKeyFromBytes at hp
      split_ifs at hp
      cases hp
      exact ⟨ver, _, pt, hv, hlen, rfl, rfl, rfl, rfl, hl, by omega, rfl⟩

/-- an ideal cipher, and a world in which `E`'s encapsulation was used for `E` only -/
structure Ideal (S : Suite) (sealed : Set (Aead.Box Bytes)) (ss kemCt : Bytes) (bucket key : String) (epoch : UInt32)
    (nb : Bytes) (c : ℕ) (Q : Bytes) : Prop where
  opensOnly : S.aead.OpensOnly sealed
  /-- what was sealed under a key derived from this encapsulation is a chunk of this envelope -/
  once : ∀ b ∈ sealed, ∀ bucket' key', b.key = deriveContentKey S ss kemCt bucket' key' →
    b ∈ boxes S (deriveContentKey S ss kemCt bucket key) nb (headerFront FORMAT_VER_V4 epoch nb ++ beBytes 4 c) 0 (chunks c Q)
  injective : ∀ bucket' key', deriveContentKey S ss kemCt bucket' key' = deriveContentKey S ss kemCt bucket key →
    bucket' = bucket ∧ key' = key

theorem decrypt_envelope_only {sealed : Set (Aead.Box Bytes)} {ss kemCt Q sk env' r : Bytes} {bucket key bucket' key' : String}
    {epoch : UInt32} {c n : ℕ} (hW : Ideal S sealed ss kemCt bucket key epoch nb c Q) (hc : 0 < c) (hc' : c < 2 ^ 32)
    (hnb : nb.length = 12) (hct : kemCt.length = 1088) (hQ : Q.length < 2 ^ 64) (hss : S.decapsulate kemCt sk = ss)
    (hkem : slice env' 36 1124 = kemCt) (h : decrypt S sk env' bucket' key' n = .ok r) :
    r = Q.take n ∧ ((cipherChunks env' = [] ∧ n = 0) ∨
      (bucket' = bucket ∧ key' = key ∧ cipherChunks env' = cipherChunks (envelope S ss kemCt bucket key epoch nb c Q) ∧
        slice env' 0 24 = slice (envelope S ss kemCt bucket key epoch nb c Q) 0 24 ∧
        slice env' 32 36 = slice (envelope S ss kemCt bucket key epoch nb c Q) 32 36)) := by
  set aad := headerFront FORMAT_VER_V4 epoch nb ++ beBytes 4 c with haad
  obtain ⟨ver, p, pt, hv, hlen, hpn, hpc, hpa, hpk, hloop, hn, rfl⟩ := decrypt_ok h
  rw [hkem, hss] at hpk
  have htot : env'.length = PREAMBLE_LEN + (env'.drop PREAMBLE_LEN).length := by rw [List.length_drop]; omega
  rw [htot] at hloop
  obtain ⟨ms, hms, hpt⟩ := chunkLoopOwned_opened hloop
  rw [List.nil_append] at hpt
  have hcc : chunks (p.chunkSize + TAG_LEN) (env'.drop PREAMBLE_LEN) = cipherChunks env' := by rw [cipherChunks, hpc]
  rw [hcc] at hms
  by_cases hempty : cipherChunks env' = []
  · -- no chunk: nothing was opened, and only the size 0 passes
    have hms0 : ms = [] := List.eq_nil_of_length_eq_zero (by rw [hms.length_eq, hempty]; rfl)
    have hpt0 : pt = [] := by rw [hpt, hms0]; rfl
    rw [hpt0, List.length_nil] at hn
    have hn0 : n = 0 := by omega
    exact ⟨by rw [hpt0, hn0]; rfl, Or.inl ⟨hempty, hn0⟩⟩
  · -- every chunk that opens is one of the envelope's
    have hmem : ∀ f j ct m, S.aead.decrypt p.contentKey (chunkNonce p.nonceBase j) (chunkAad ver p.aadBase f) ct = some m →
        ⟨p.contentKey, chunkNonce p.nonceBase j, chunkAad ver p.aadBase f, ct, m⟩ ∈
          boxes S (deriveContentKey S ss kemCt bucket key) nb aad 0 (chunks c Q) :=
      fun f j ct m ho => hW.once _ (hW.opensOnly _ _ _ _ _ ho) bucket' key' hpk
    obtain ⟨m₀, hm₀, ho₀⟩ := hms.get (List.getElem?_eq_getElem (List.length_pos_of_ne_nil hempty))
    obtain ⟨i, x, -, hbox⟩ := mem_boxes (hmem _ _ _ _ ho₀)
    rw [Aead.Box.mk.injEq] at hbox
    obtain ⟨hkey, -, hboxaad, -⟩ := hbox
    obtain ⟨hb, hk⟩ := hW.injective bucket' key' (hpk ▸ hkey)
    have hfl := length_headerFront FORMAT_VER_V4 epoch hnb
    have hs24 : (slice (slice env' 0 36) 0 24).length = 24 := by
      have : PREAMBLE_LEN = 1124 := rfl
      rw [length_slice (by rw [length_slice (by omega)]; omega)]
    have hs4 : (slice (slice env' 0 36) 32 36).length = 4 := by
      have : PREAMBLE_LEN = 1124 := rfl
      rw [length_slice (by rw [length_slice (by omega)])]
    -- a version 3 chunk has one byte less of associated data
    have hv4 : ver = FORMAT_VER_V4 := by
      refine hv.resolve_left fun hv3 => ?_
      have := congrArg List.length hboxaad
      rw [chunkAad, if_pos hv3, hpa, buildV3Aad, buildV4Aad, haad] at this
      simp only [List.length_append, hfl, length_beBytes, List.length_singleton] at this
      rw [hs4] at this
      have : (slice (slice env' 0 36) 0 V3_AAD_PREFIX_LEN).length = 24 := hs24
      omega
    subst hv4
    have hbase : buildV3Aad (slice env' 0 36) = aad := by
      rw [← hpa]; exact (buildV4Aad_inj hboxaad).1
    obtain ⟨hfront, hcs⟩ := List.append_inj (show slice (slice env' 0 36) 0 24 ++ slice (slice env' 0 36) 32 36 = _ from hbase)
      (by rw [hs24, hfl])
    rw [slice_slice (by omega)] at hfront hcs
    obtain ⟨-, -, -, -, h5, -, h7⟩ := header_slices FORMAT_VER_V4 epoch hnb Q.length c
    have hpn' : p.nonceBase = nb := by
      have hh : slice (header FORMAT_VER_V4 epoch nb Q.length c) 0 24 = headerFront FORMAT_VER_V4 epoch nb := by
        rw [header_eq, List.append_assoc]; exact slice_front hfl
      rw [hpn, ← slice_slice (b := env') (show 24 ≤ 24 by omega), hfront, ← hh, slice_slice (by omega), h5]
    have hcs' : ofBe (slice env' 32 36) = c := by rw [hcs, ofBe_beBytes]; exact Nat.mod_eq_of_lt hc'
    have hLlen : (chunks c Q).length ≤ 2 ^ 64 := by
      obtain ⟨k, rfl⟩ : ∃ k, c = k + 1 := ⟨c - 1, by omega⟩
      rw [length_chunks hc]
      refine Nat.div_le_of_le_mul ?_
      rw [Nat.add_mul]
      omega
    obtain ⟨hmsL, hctL⟩ := opened_all (S := S) hnb hpn' hLlen hempty hms fun j ct m ho => hmem _ j ct m ho
    have hsame : cipherChunks (envelope S ss kemCt bucket key epoch nb c Q) = cipherChunks env' := by
      have hdrop : (envelope S ss kemCt bucket key epoch nb c Q).drop PREAMBLE_LEN =
          sealFinal S (deriveContentKey S ss kemCt bucket key) nb aad 0 (chunks c Q) := by
        rw [envelope]
        exact List.drop_left' (by rw [List.length_append, length_header _ _ hnb, hct])
      rw [cipherChunks, envelope_head hnb (le_refl 36), h7, ofBe_beBytes, Nat.mod_eq_of_lt (show c < 256 ^ 4 from hc'), hdrop, hctL]
      exact chunks_sealFinal 0 (chunked_chunks hc Q)
    refine ⟨by rw [hpt, hmsL, flatten_chunks hc], Or.inr ⟨hb, hk, hsame.symm, ?_, ?_⟩⟩
    · rw [envelope_head hnb (by omega), hfront, header_eq, List.append_assoc]
      exact (slice_front hfl).symm
    · rw [envelope_head hnb (le_refl 36), h7, hcs]

/-- **Integrity.** Whatever byte string with the envelope's KEM ciphertext, whatever address and size: a reader that accepts
returns the front of the padded plaintext, and unless there was no chunk at all it was asked for the envelope's own address and
read exactly the envelope's chunks under the envelope's own version, epoch, nonce base and chunk size. -/
theorem envelope_integrity {sealed : Set (Aead.Box Bytes)} {sink sink' : Sink} {info : EnvelopeInfo} {pk sk rand env' r : Bytes}
    {bucket key bucket' key' : String} {epoch : UInt32} {wo c n : ℕ} {nb : Nonce} {slices : List Bytes}
    (hkp : S.KeyPair pk sk) (hcur : sink.cursor = wo) (hlen : sink.file.length ≤ wo) (hP : slices.flatten.length < 2 ^ 63)
    (henc : encrypt S sink pk epoch bucket key wo c rand nb slices = .ok (sink', info))
    (hW : Ideal S sealed (S.encapsulate pk rand).1 (S.encapsulate pk rand).2 bucket key epoch nb.1 c (padded slices.flatten))
    (hkem : slice env' 36 1124 = slice (sink'.file.drop wo) 36 1124)
    (hdec : decrypt S sk env' bucket' key' n = .ok r ∨ decryptOwned S sk env' bucket' key' n = .ok r) :
    r = (padded slices.flatten).take n ∧ ((cipherChunks env' = [] ∧ n = 0) ∨
      (bucket' = bucket ∧ key' = key ∧ cipherChunks env' = cipherChunks (sink'.file.drop wo) ∧
        slice env' 0 24 = slice (sink'.file.drop wo) 0 24 ∧ slice env' 32 36 = slice (sink'.file.drop wo) 32 36)) := by
  have hct := S.length_ct pk rand
  obtain ⟨hle, hlt⟩ := padmeLen_bounds hP
  -- the session succeeded, so its chunk size is in range
  have hc : 0 < c ∧ c < 2 ^ 32 := by
    unfold encrypt EncryptSession.new at henc
    by_cases hbad : c = 0 ∨ 2 ^ 32 - 1 < c
    · rw [if_pos hbad] at henc; cases henc
    · omega
  have heq := @encrypt_eq S _ _ epoch bucket key _ _ rand nb hcur hlen hc.1 hc.2 hkp.pk_length hkp.pk_valid _ hP
  simp only at heq
  rw [heq, Except.ok.injEq, Prod.mk.injEq] at henc
  have hfile : sink'.file.drop wo = envelope S (S.encapsulate pk rand).1 (S.encapsulate pk rand).2 bucket key epoch nb.1 c
      (padded slices.flatten) := by
    rw [← henc.1]
    exact List.drop_left' (length_setLen _ _)
  rw [hfile] at hkem ⊢
  rw [show slice (envelope S (S.encapsulate pk rand).1 (S.encapsulate pk rand).2 bucket key epoch nb.1 c
    (padded slices.flatten)) 36 1124 = (S.encapsulate pk rand).2 from
      slice_middle (length_header _ _ nb.2 _ _) (by rw [hct])] at hkem
  rw [decryptOwned_eq, or_self] at hdec
  exact decrypt_envelope_only hW hc.1 hc.2 nb.2 hct (by rw [length_padded hP]; exact hlt) (hkp.correct rand) hkem hdec

/-- the sample suite with a cipher that opens what is in the table and nothing else -/
def idealSuite (table : List (Aead.Box Bytes)) : Suite :=
  { sampleSuite with
    aead :=
      { encrypt := Aead.tagged.encrypt
        decrypt := fun k n a c => (table.find? fun b => b.key = k ∧ b.nonce = n ∧ b.aad = a ∧ b.ct = c).map Aead.Box.msg }
    length_seal := Aead.tagged_correct.length_encrypt }

theorem idealSuite_opensOnly (table : List (Aead.Box Bytes)) : (idealSuite table).aead.OpensOnly {b | b ∈ table} := by
  intro k n a c m h
  obtain ⟨b, hb, rfl⟩ := Option.map_eq_some_iff.1 h
  have hp := List.find?_some hb
  simp only [decide_eq_true_eq] at hp
  obtain ⟨rfl, rfl, rfl, rfl⟩ := hp
  exact List.mem_of_find?_eq_some hb

/-- the chunks of the three-byte object in chunks of two -/
def sampleBoxes : List (Aead.Box Bytes) :=
  boxes sampleSuite (deriveContentKey sampleSuite [] (List.replicate 1088 7) "b" "k") (List.replicate 12 0)
    (headerFront FORMAT_VER_V4 5 (List.replicate 12 0) ++ beBytes 4 2) 0 (chunks 2 (padded [1, 2, 3]))

theorem boxes_congr {S S' : Suite} (h : S.aead.encrypt = S'.aead.encrypt) (key nb aad : Bytes) (i : ℕ) (L : List Bytes) :
    boxes S key nb aad i L = boxes S' key nb aad i L := by
  induction L generalizing i with
  | nil => rfl
  | cons x xs ih => simp only [boxes, sealChunk, h, ih]

theorem sample_ideal : Ideal (idealSuite sampleBoxes) {b | b ∈ sampleBoxes} [] (List.replicate 1088 7) "b" "k" 5
    (List.replicate 12 0) 2 (padded [1, 2, 3]) where
  opensOnly := idealSuite_opensOnly sampleBoxes
  once := by
    intro b hb _ _ _
    rw [@boxes_congr (idealSuite sampleBoxes) sampleSuite rfl]
    exact hb
  injective := by
    intro bucket' key' h
    have h' : utf8 "y2q/v1/content-key" ++ lenPrefixed bucket' ++ lenPrefixed key' =
      utf8 "y2q/v1/content-key" ++ lenPrefixed "b" ++ lenPrefixed "k" := h
    rw [List.append_assoc, List.append_assoc] at h'
    exact lenPrefixed_inj (by decide) (List.append_cancel_left h')

theorem msg_of_mem_boxes {key nb aad : Bytes} {i : ℕ} {L : List Bytes} {b : Aead.Box Bytes}
    (h : b ∈ boxes sampleSuite key nb aad i L) : b.msg = b.ct.drop 16 := by
  induction L generalizing i with
  | nil => cases h
  | cons x xs ih =>
    rcases List.mem_cons.1 h with rfl | h
    · exact (List.drop_left' List.length_replicate).symm
    · exact ih h

/-- the table's own entries open -/
theorem idealSuite_opens : OpensBoxes (idealSuite sampleBoxes) sampleBoxes := by
  intro b hb
  have hfound : ((sampleBoxes.find? fun x => x.key = b.key ∧ x.nonce = b.nonce ∧ x.aad = b.aad ∧ x.ct = b.ct)).isSome :=
    List.find?_isSome.2 ⟨b, hb, by simp⟩
  obtain ⟨b', hb'⟩ := Option.isSome_iff_exists.1 hfound
  have hp := List.find?_some hb'
  simp only [decide_eq_true_eq] at hp
  have hmsg : b'.msg = b.msg := by
    rw [msg_of_mem_boxes (List.mem_of_find?_eq_some hb'), msg_of_mem_boxes hb, hp.2.2.2]
  change (sampleBoxes.find? _).map Aead.Box.msg = _
  rw [hb', Option.map_some, hmsg]

/-- the envelope itself, read under its own address -/
theorem envelope_integrity_three_bytes : ∃ sink' info r,
    encrypt (idealSuite sampleBoxes) ⟨[], 64⟩ (List.replicate 1184 0) 5 "b" "k" 64 2 [] ⟨List.replicate 12 0, rfl⟩ [[1], [2, 3]] =
      .ok (sink', info) ∧
    decrypt (idealSuite sampleBoxes) (List.replicate 2400 0) (sink'.file.drop 64) "b" "k" 3 = .ok r ∧
    r = (padded [1, 2, 3]).take 3 := by
  have hkp : (idealSuite sampleBoxes).KeyPair (List.replicate 1184 0) (List.replicate 2400 0) :=
    ⟨List.length_replicate, List.length_replicate, rfl, rfl, fun _ => rfl⟩
  have henc := @encrypt_eq (idealSuite sampleBoxes) ⟨[], 64⟩ (List.replicate 1184 0) 5 "b" "k" 64 2 []
    ⟨List.replicate 12 0, rfl⟩ rfl (by decide) (by decide) (by decide) List.length_replicate rfl [[1], [2, 3]] (by decide)
  have hopens : OpensBoxes (idealSuite sampleBoxes) (boxes (idealSuite sampleBoxes) (deriveContentKey (idealSuite sampleBoxes) []
      (List.replicate 1088 7) "b" "k") (List.replicate 12 0)
      (headerFront FORMAT_VER_V4 5 (List.replicate 12 0) ++ beBytes 4 2) 0 (chunks 2 (padded [1, 2, 3]))) := by
    rw [@boxes_congr (idealSuite sampleBoxes) sampleSuite rfl]
    exact idealSuite_opens
  have hdec : decrypt (idealSuite sampleBoxes) (List.replicate 2400 0) ((setLen [] 64 ++ envelope (idealSuite sampleBoxes) []
      (List.replicate 1088 7) "b" "k" 5 (List.replicate 12 0) 2 (padded [1, 2, 3])).drop 64) "b" "k" 3 =
        .ok ((padded [1, 2, 3]).take 3) := by
    rw [List.drop_left' (length_setLen _ _)]
    exact decrypt_envelope (by decide) (by decide) rfl List.length_replicate (by decide) List.length_replicate rfl rfl
      (by decide) hopens
  refine ⟨_, _, _, henc, hdec, ?_⟩
  exact (envelope_integrity hkp rfl (by decide) (by decide) henc sample_ideal rfl (Or.inl hdec)).1

end Integrity

end Y2q.Envelope
