/-
`String::from_utf8_lossy`: text stays as it is, and the rest becomes U+FFFD piece by piece.

- `CharBytes`: the well-formed byte sequences of one character. They are the encodings (`charBytes_encode`, `exists_char`), and
  they are what the decoder takes for a whole character (`leadingChar_append`, `leadingChar_whole`).
- `fromUtf8Lossy_utf8`: text is not changed.
- `utf8_fromUtf8Lossy`: the output is text for any bytes. ASCII bytes are neither lost nor made up (`count_lossyBytes`).
-/
import Mathlib.Tactic
import Y2q.Core.Text
import Y2q.S3.Meta

namespace Y2q.Meta

/-! ## Characters -/

/-- by the number of bytes: two, three or four -/
theorem secondBytes_eq (b : UInt8) : secondBytes b =
    if 0xC2 ≤ b.toNat ∧ b.toNat ≤ 0xDF then some (0x80, 0xBF, 0)
    else if 0xE0 ≤ b.toNat ∧ b.toNat ≤ 0xEF then
      some (if b.toNat = 0xE0 then 0xA0 else 0x80, if b.toNat = 0xED then 0x9F else 0xBF, 1)
    else if 0xF0 ≤ b.toNat ∧ b.toNat ≤ 0xF4 then
      some (if b.toNat = 0xF0 then 0x90 else 0x80, if b.toNat = 0xF4 then 0x8F else 0xBF, 2)
    else none := by
  have hb := b.toNat_lt
  simp only [secondBytes, UInt8.le_iff_toNat_le, ← UInt8.toNat_inj, UInt8.reduceToNat]
  split_ifs <;> first | rfl | omega

/-- a byte inside a character -/
def IsCont (b : UInt8) : Prop := 0x80 ≤ b.toNat ∧ b.toNat ≤ 0xBF

instance : DecidablePred IsCont := fun b => by unfold IsCont; infer_instance

/-- well-formed: no overlong form, no surrogate, nothing above U+10FFFF -/
inductive CharBytes : Bytes → Prop
  | one {b : UInt8} (h : b.toNat < 0x80) : CharBytes [b]
  | two {b c : UInt8} (hb : 0xC2 ≤ b.toNat ∧ b.toNat ≤ 0xDF) (hc : IsCont c) : CharBytes [b, c]
  | three {b c d : UInt8} (hb : 0xE0 ≤ b.toNat ∧ b.toNat ≤ 0xEF) (hc : IsCont c) (hlow : b.toNat = 0xE0 → 0xA0 ≤ c.toNat)
      (hhigh : b.toNat = 0xED → c.toNat ≤ 0x9F) (hd : IsCont d) : CharBytes [b, c, d]
  | four {b c d e : UInt8} (hb : 0xF0 ≤ b.toNat ∧ b.toNat ≤ 0xF4) (hc : IsCont c) (hlow : b.toNat = 0xF0 → 0x90 ≤ c.toNat)
      (hhigh : b.toNat = 0xF4 → c.toNat ≤ 0x8F) (hd : IsCont d) (he : IsCont e) : CharBytes [b, c, d, e]

theorem leadingChar_append {x : Bytes} (h : CharBytes x) (rest : Bytes) : leadingChar (x ++ rest) = (x.length, true) := by
  have hcont : ∀ d : UInt8, IsCont d → (decide (0x80 ≤ d) && decide (d ≤ 0xBF)) = true := by
    intro d hd
    simpa [UInt8.le_iff_toNat_le, IsCont] using hd
  cases h with
  | @one b h =>
    have h80 : b < 0x80 := h
    simp [leadingChar, h80]
  | @two b c hb hc =>
    have h80 : ¬b < 0x80 := by simp only [UInt8.lt_iff_toNat_lt, UInt8.reduceToNat]; omega
    simp [leadingChar, h80, secondBytes_eq, hb, UInt8.le_iff_toNat_le, hc.1, hc.2]
  | @three b c d hb hc hlow hhigh hd =>
    have h80 : ¬b < 0x80 := by simp only [UInt8.lt_iff_toNat_lt, UInt8.reduceToNat]; omega
    have h2 : ¬(0xC2 ≤ b.toNat ∧ b.toNat ≤ 0xDF) := by omega
    have hsecond : (if b.toNat = 0xE0 then (0xA0 : UInt8) else 0x80) ≤ c ∧ c ≤ if b.toNat = 0xED then (0x9F : UInt8) else 0xBF := by
      have := hc.1
      have := hc.2
      constructor <;> split_ifs <;> simp only [UInt8.le_iff_toNat_le, UInt8.reduceToNat] <;> omega
    simp only [leadingChar, List.cons_append, List.nil_append, if_neg h80, secondBytes_eq, if_neg h2, if_pos hb, if_pos hsecond]
    simp [hcont d hd]
  | @four b c d e hb hc hlow hhigh hd he =>
    have h80 : ¬b < 0x80 := by simp only [UInt8.lt_iff_toNat_lt, UInt8.reduceToNat]; omega
    have h2 : ¬(0xC2 ≤ b.toNat ∧ b.toNat ≤ 0xDF) := by omega
    have h3 : ¬(0xE0 ≤ b.toNat ∧ b.toNat ≤ 0xEF) := by omega
    have hsecond : (if b.toNat = 0xF0 then (0x90 : UInt8) else 0x80) ≤ c ∧ c ≤ if b.toNat = 0xF4 then (0x8F : UInt8) else 0xBF := by
      have := hc.1
      have := hc.2
      constructor <;> split_ifs <;> simp only [UInt8.le_iff_toNat_le, UInt8.reduceToNat] <;> omega
    simp only [leadingChar, List.cons_append, List.nil_append, if_neg h80, secondBytes_eq, if_neg h2, if_neg h3, if_pos hb,
      if_pos hsecond]
    simp [hcont d hd, hcont e he]

theorem charBytes_encode (c : Char) : CharBytes (String.utf8EncodeChar c) := by
  have hrange : c.val.toNat < 0xD800 ∨ 0xDFFF < c.val.toNat ∧ c.val.toNat < 0x110000 := c.valid
  rw [String.utf8EncodeChar]
  generalize c.val.toNat = v at hrange ⊢
  split_ifs with h1 h2 h3
  · refine .one ?_
    simp only [UInt8.toNat_ofNat']
    omega
  · refine .two ⟨?_, ?_⟩ ⟨?_, ?_⟩ <;> simp only [UInt8.toNat_ofNat'] <;> omega
  · refine .three ⟨?_, ?_⟩ ⟨?_, ?_⟩ ?_ ?_ ⟨?_, ?_⟩ <;> simp only [UInt8.toNat_ofNat'] <;> omega
  · refine .four ⟨?_, ?_⟩ ⟨?_, ?_⟩ ?_ ?_ ⟨?_, ?_⟩ ⟨?_, ?_⟩ <;> simp only [UInt8.toNat_ofNat'] <;> omega

theorem encode_of_toNat {v : ℕ} (hv : v < 0xD800 ∨ 0xDFFF < v ∧ v < 0x110000) : ∃ c : Char, c.val.toNat = v := by
  refine ⟨Char.ofNat v, ?_⟩
  have hvalid : v.isValidChar := hv
  rw [Char.ofNat, dif_pos hvalid]
  rfl

theorem exists_char {x : Bytes} (h : CharBytes x) : ∃ c, x = String.utf8EncodeChar c := by
  cases h with
  | @one b h =>
    obtain ⟨c, hc⟩ := encode_of_toNat (v := b.toNat) (by omega)
    refine ⟨c, ?_⟩
    rw [String.utf8EncodeChar, hc, if_pos (by omega), UInt8.ofNat_toNat]
  | @two b c hb hc =>
    simp only [IsCont] at hc
    obtain ⟨ch, hch⟩ := encode_of_toNat (v := (b.toNat - 0xC0) * 64 + (c.toNat - 0x80)) (by omega)
    refine ⟨ch, ?_⟩
    rw [String.utf8EncodeChar, hch, if_neg (by omega), if_pos (by omega)]
    simp only [List.cons.injEq, ← UInt8.toNat_inj, UInt8.toNat_ofNat', and_true]
    omega
  | @three b c d hb hc hlow hhigh hd =>
    simp only [IsCont] at hc hd
    obtain ⟨ch, hch⟩ := encode_of_toNat (v := (b.toNat - 0xE0) * 4096 + (c.toNat - 0x80) * 64 + (d.toNat - 0x80)) (by omega)
    refine ⟨ch, ?_⟩
    rw [String.utf8EncodeChar, hch, if_neg (by omega), if_neg (by omega), if_pos (by omega)]
    simp only [List.cons.injEq, ← UInt8.toNat_inj, UInt8.toNat_ofNat', and_true]
    omega
  | @four b c d e hb hc hlow hhigh hd he =>
    simp only [IsCont] at hc hd he
    obtain ⟨ch, hch⟩ := encode_of_toNat
      (v := (b.toNat - 0xF0) * 262144 + (c.toNat - 0x80) * 4096 + (d.toNat - 0x80) * 64 + (e.toNat - 0x80)) (by omega)
    refine ⟨ch, ?_⟩
    rw [String.utf8EncodeChar, hch, if_neg (by omega), if_neg (by omega), if_neg (by omega)]
    simp only [List.cons.injEq, ← UInt8.toNat_inj, UInt8.toNat_ofNat', and_true]
    omega

theorem cont_of_mem_takeWhile {t : Bytes} {d : UInt8} (h : d ∈ t.takeWhile fun d => 0x80 ≤ d ∧ d ≤ 0xBF) : IsCont d := by
  have hcont := of_decide_eq_true (List.all_eq_true.1 List.all_takeWhile d h)
  exact ⟨UInt8.le_iff_toNat_le.1 hcont.1, UInt8.le_iff_toNat_le.1 hcont.2⟩

theorem leadingChar_whole {x : Bytes} {n : ℕ} (h : leadingChar x = (n, true)) : CharBytes (x.take n) := by
  cases x with
  | nil => cases h
  | cons b rest =>
    rw [leadingChar] at h
    split_ifs at h with h80
    · cases h
      exact .one h80
    · rw [secondBytes_eq] at h
      split at h
      · cases h
      rename_i lo hi more hsecond
      cases rest with
      | nil => cases h
      | cons c rest =>
        simp only at h
        by_cases hc : lo ≤ c ∧ c ≤ hi
        · rw [if_pos hc] at h
          obtain ⟨hn, hmore⟩ := Prod.mk.inj h
          have hmore := of_decide_eq_true hmore
          have hlen : (rest.take more).length = more :=
            (List.length_take_le more rest).antisymm (hmore.ge.trans (List.takeWhile_prefix _).length_le)
          have htail := (List.takeWhile_prefix fun d : UInt8 => decide (0x80 ≤ d ∧ d ≤ 0xBF)).eq_of_length_le (hlen.trans hmore.symm).le
          have hcont : ∀ d ∈ rest.take more, IsCont d := fun d hd => cont_of_mem_takeWhile (htail ▸ hd)
          have htake : (b :: c :: rest).take n = b :: c :: rest.take more := by
            rw [← hn, hmore, Nat.add_comm]
            rfl
          rw [htake]
          generalize rest.take more = t at hlen hcont
          simp only [UInt8.le_iff_toNat_le] at hc
          by_cases h2 : 0xC2 ≤ b.toNat ∧ b.toNat ≤ 0xDF
          · rw [if_pos h2] at hsecond
            cases hsecond
            obtain rfl := List.eq_nil_of_length_eq_zero hlen
            exact .two h2 hc
          rw [if_neg h2] at hsecond
          by_cases h3 : 0xE0 ≤ b.toNat ∧ b.toNat ≤ 0xEF
          · rw [if_pos h3] at hsecond
            cases hsecond
            obtain ⟨d, rfl⟩ := List.length_eq_one_iff.1 hlen
            have hlow : b.toNat = 0xE0 → 0xA0 ≤ c.toNat := fun h => by simpa [h] using hc.1
            have hhigh : b.toNat = 0xED → c.toNat ≤ 0x9F := fun h => by simpa [h] using hc.2
            refine .three h3 ⟨?_, ?_⟩ hlow hhigh (hcont d List.mem_cons_self)
            · exact le_trans (by split_ifs <;> decide) hc.1
            · exact le_trans hc.2 (by split_ifs <;> decide)
          rw [if_neg h3] at hsecond
          by_cases h4 : 0xF0 ≤ b.toNat ∧ b.toNat ≤ 0xF4
          · rw [if_pos h4] at hsecond
            cases hsecond
            obtain ⟨d, e, rfl⟩ := List.length_eq_two.1 hlen
            have hlow : b.toNat = 0xF0 → 0x90 ≤ c.toNat := fun h => by simpa [h] using hc.1
            have hhigh : b.toNat = 0xF4 → c.toNat ≤ 0x8F := fun h => by simpa [h] using hc.2
            refine .four h4 ⟨?_, ?_⟩ hlow hhigh (hcont d (by simp)) (hcont e (by simp))
            · exact le_trans (by split_ifs <;> decide) hc.1
            · exact le_trans hc.2 (by split_ifs <;> decide)
          · rw [if_neg h4] at hsecond
            cases hsecond
        · rw [if_neg hc] at h
          cases h

/-- what is not a character has no ASCII bytes -/
theorem leadingChar_part {x : Bytes} {n : ℕ} (h : leadingChar x = (n, false)) :
    (x ≠ [] → 0 < n) ∧ ∀ b ∈ x.take n, 0x80 ≤ b.toNat := by
  cases x with
  | nil =>
    cases h
    exact ⟨fun h => absurd rfl h, nofun⟩
  | cons b rest =>
    rw [leadingChar] at h
    by_cases h80 : b < 0x80
    · rw [if_pos h80] at h
      cases h
    rw [if_neg h80] at h
    have hb : 0x80 ≤ b.toNat := not_lt.1 h80
    have hone : (x : Bytes) → n = 1 → (b :: x ≠ [] → 0 < n) ∧ ∀ d ∈ (b :: x).take n, 0x80 ≤ d.toNat := by
      rintro x rfl
      refine ⟨fun _ => Nat.one_pos, fun d hd => ?_⟩
      rw [List.take_succ_cons, List.take_zero, List.mem_singleton] at hd
      exact hd ▸ hb
    split at h
    · exact hone rest (Prod.mk.inj h).1.symm
    rename_i lo hi more hsecond
    cases rest with
    | nil => exact hone [] (Prod.mk.inj h).1.symm
    | cons c rest =>
      simp only at h
      by_cases hc : lo ≤ c ∧ c ≤ hi
      · rw [if_pos hc] at h
        generalize htail : ((rest.take more).takeWhile fun d => 0x80 ≤ d ∧ d ≤ 0xBF) = tail at h
        have hprefix : tail <+: rest := (htail ▸ List.takeWhile_prefix _).trans (List.take_prefix _ _)
        have htake : (b :: c :: rest).take n = b :: c :: tail := by
          rw [← (Prod.mk.inj h).1, Nat.add_comm, List.prefix_iff_eq_take.1 hprefix]
          simp
        have hlo : 0x80 ≤ lo.toNat := by
          rw [secondBytes] at hsecond
          split_ifs at hsecond <;> cases hsecond <;> decide
        refine ⟨fun _ => by rw [← (Prod.mk.inj h).1]; omega, fun d hd => ?_⟩
        rw [htake] at hd
        rcases List.mem_cons.1 hd with rfl | hd
        · exact hb
        rcases List.mem_cons.1 hd with rfl | hd
        · exact hlo.trans (UInt8.le_iff_toNat_le.1 hc.1)
        · exact (cont_of_mem_takeWhile (htail ▸ hd)).1
      · rw [if_neg hc] at h
        exact hone (c :: rest) (Prod.mk.inj h).1.symm

/-! ## Lossy decoding -/

theorem CharBytes.ne_nil {x : Bytes} (h : CharBytes x) : x ≠ [] := by
  cases h <;> exact List.cons_ne_nil _ _

theorem lossyBytes_nil (n : ℕ) : lossyBytes n [] = [] := by
  cases n <;> rfl

theorem lossyBytes_whole {x : Bytes} {len : ℕ} (h : leadingChar x = (len, true)) (n : ℕ) :
    lossyBytes (n + 1) x = x.take len ++ lossyBytes n (x.drop len) := by
  cases x with
  | nil => cases h
  | cons b rest => rw [lossyBytes, h]

theorem lossyBytes_part {x : Bytes} {len : ℕ} (hne : x ≠ []) (h : leadingChar x = (len, false)) (n : ℕ) :
    lossyBytes (n + 1) x = [0xEF, 0xBF, 0xBD] ++ lossyBytes n (x.drop len) := by
  cases x with
  | nil => exact absurd rfl hne
  | cons b rest => rw [lossyBytes, h]

theorem lossyBytes_chars (l : List Char) {n : ℕ} (h : (l.flatMap String.utf8EncodeChar).length ≤ n) :
    lossyBytes n (l.flatMap String.utf8EncodeChar) = l.flatMap String.utf8EncodeChar := by
  induction l generalizing n with
  | nil => exact lossyBytes_nil n
  | cons c l ih =>
    have hpos := c.utf8Size_pos
    rw [List.flatMap_cons, List.length_append, String.length_utf8EncodeChar] at h
    obtain ⟨n, rfl⟩ : ∃ m, n = m + 1 := ⟨n - 1, by omega⟩
    rw [List.flatMap_cons, lossyBytes_whole (leadingChar_append (charBytes_encode c) _), List.take_left, List.drop_left,
      ih (by omega)]

/-- the piece in front, and what is left -/
theorem leadingChar_cases {x : Bytes} (hne : x ≠ []) : ∃ len, 0 < len ∧
    (leadingChar x = (len, true) ∧ CharBytes (x.take len) ∨ leadingChar x = (len, false) ∧ ∀ b ∈ x.take len, 0x80 ≤ b.toNat) := by
  rcases hlead : leadingChar x with ⟨len, whole⟩
  cases whole with
  | false => exact ⟨len, (leadingChar_part hlead).1 hne, .inr ⟨rfl, (leadingChar_part hlead).2⟩⟩
  | true =>
    have hchar := leadingChar_whole hlead
    have hpos : 0 < len := by
      refine Nat.pos_of_ne_zero fun h0 => hchar.ne_nil ?_
      rw [h0, List.take_zero]
    exact ⟨len, hpos, .inl ⟨rfl, hchar⟩⟩

theorem replacement_char : ([0xEF, 0xBF, 0xBD] : Bytes) = String.utf8EncodeChar '\uFFFD' := by decide

/-- the output is text, and there is some of it for any input -/
theorem lossyBytes_valid (n : ℕ) (x : Bytes) : ∃ l : List Char, lossyBytes n x = l.flatMap String.utf8EncodeChar ∧
    (x ≠ [] → 0 < n → l ≠ []) := by
  induction n generalizing x with
  | zero => exact ⟨[], rfl, fun _ h => absurd h (Nat.lt_irrefl 0)⟩
  | succ n ih =>
    rcases eq_or_ne x [] with rfl | hne
    · exact ⟨[], rfl, fun h => absurd rfl h⟩
    obtain ⟨len, -, ⟨hlead, hchar⟩ | ⟨hlead, -⟩⟩ := leadingChar_cases hne
    · obtain ⟨l, hl, -⟩ := ih (x.drop len)
      obtain ⟨c, hc⟩ := exists_char hchar
      exact ⟨c :: l, by rw [lossyBytes_whole hlead, hl, hc, List.flatMap_cons], fun _ _ => List.cons_ne_nil c l⟩
    · obtain ⟨l, hl, -⟩ := ih (x.drop len)
      refine ⟨'\uFFFD' :: l, ?_, fun _ _ => List.cons_ne_nil _ l⟩
      rw [lossyBytes_part hne hlead, hl, replacement_char, List.flatMap_cons]

/-- ASCII bytes are neither lost nor made up -/
theorem count_lossyBytes {p : UInt8} (hp : p.toNat < 0x80) {n : ℕ} {x : Bytes} (h : x.length ≤ n) :
    (lossyBytes n x).count p = x.count p := by
  induction n generalizing x with
  | zero =>
    obtain rfl := List.eq_nil_of_length_eq_zero (Nat.le_zero.1 h)
    rfl
  | succ n ih =>
    rcases eq_or_ne x [] with rfl | hne
    · rfl
    have hx := List.length_pos_iff.2 hne
    obtain ⟨len, hlen, ⟨hlead, -⟩ | ⟨hlead, hhigh⟩⟩ := leadingChar_cases hne
    · rw [lossyBytes_whole hlead, List.count_append, ih (by rw [List.length_drop]; omega), ← List.count_append, List.take_append_drop]
    · have hrepl : ([0xEF, 0xBF, 0xBD] : Bytes).count p = 0 := by
        refine List.count_eq_zero.2 fun hmem => ?_
        simp only [List.mem_cons, List.not_mem_nil, or_false] at hmem
        rcases hmem with rfl | rfl | rfl <;> exact absurd hp (by decide)
      have htake : (x.take len).count p = 0 := List.count_eq_zero.2 fun hmem => absurd (hhigh p hmem) (not_le.2 hp)
      rw [lossyBytes_part hne hlead, List.count_append, hrepl, ih (by rw [List.length_drop]; omega), ← htake, ← List.count_append,
        List.take_append_drop]

theorem utf8_fromUtf8Lossy (x : Bytes) : utf8 (fromUtf8Lossy x) = lossyBytes x.length x := by
  obtain ⟨l, hl, -⟩ := lossyBytes_valid x.length x
  have hsome : fromUtf8 (lossyBytes x.length x) = some (String.ofList l) := fromUtf8_eq_some.2 (by rw [hl, utf8_ofList])
  rw [fromUtf8Lossy, hsome, Option.getD_some, utf8_ofList, hl]

theorem fromUtf8Lossy_utf8 (s : String) : fromUtf8Lossy (utf8 s) = s := by
  refine utf8_inj ?_
  rw [utf8_fromUtf8Lossy]
  have hs : utf8 s = s.toList.flatMap String.utf8EncodeChar := by rw [← utf8_ofList, String.ofList_toList]
  rw [hs]
  exact lossyBytes_chars s.toList le_rfl

theorem fromUtf8Lossy_ne_empty {x : Bytes} (h : x ≠ []) : fromUtf8Lossy x ≠ "" := by
  obtain ⟨l, hl, hne⟩ := lossyBytes_valid x.length x
  intro h0
  have hbytes := utf8_fromUtf8Lossy x
  rw [h0, hl, ← utf8_ofList] at hbytes
  have hl0 := congrArg String.toList (utf8_inj hbytes)
  simp only [String.toList_ofList] at hl0
  exact hne h (List.length_pos_iff.2 h) hl0.symm

end Y2q.Meta
