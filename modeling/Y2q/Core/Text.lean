/-
Text as bytes: UTF-8, its order, and ways to put several texts into one.

Strings are compared byte by byte, as the bytes of their UTF-8 form.

- `lenPrefixed_append_inj`: length-prefixed texts in a row can be told apart one by one.
- `joined_lt`: texts joined by a byte that is smaller than all bytes of the first are in the order of the pairs.
- `zero_notMem_utf8`: the zero byte stands for the character zero only.
- `utf8_prefix_iff`: bytes that start with the bytes of a text are those of a text that starts with it.
-/
import Mathlib.Tactic
import Mathlib.Data.List.Lex
import Y2q.Core.Bytes

namespace Y2q

instance linearOrderUInt8 : LinearOrder UInt8 where
  le_refl := UInt8.le_refl
  le_trans _ _ _ := UInt8.le_trans
  le_antisymm _ _ := UInt8.le_antisymm
  le_total := UInt8.le_total
  toDecidableLE := inferInstance
  lt_iff_le_not_ge a b := by
    rw [UInt8.not_le]
    exact ⟨fun h => ⟨UInt8.le_of_lt h, h⟩, fun h => h.2⟩

instance linearOrderUInt32 : LinearOrder UInt32 where
  le_refl := UInt32.le_refl
  le_trans _ _ _ := UInt32.le_trans
  le_antisymm _ _ := UInt32.le_antisymm
  le_total := UInt32.le_total
  toDecidableLE := inferInstance
  lt_iff_le_not_ge a b := by
    rw [UInt32.not_le]
    exact ⟨fun h => ⟨UInt32.le_of_lt h, h⟩, fun h => h.2⟩

instance linearOrderUInt64 : LinearOrder UInt64 where
  le_refl := UInt64.le_refl
  le_trans _ _ _ := UInt64.le_trans
  le_antisymm _ _ := UInt64.le_antisymm
  le_total := UInt64.le_total
  toDecidableLE := inferInstance
  lt_iff_le_not_ge a b := by
    rw [UInt64.not_le]
    exact ⟨fun h => ⟨UInt64.le_of_lt h, h⟩, fun h => h.2⟩

/-! ## UTF-8 -/

/-- `str::from_utf8` -/
def fromUtf8 (b : Bytes) : Option String := String.fromUTF8? ⟨b.toArray⟩

theorem fromUtf8_utf8 (s : String) : fromUtf8 (utf8 s) = some s := by
  have hbytes : (⟨(utf8 s).toArray⟩ : ByteArray) = s.toUTF8 := by
    simp [utf8]
  rw [fromUtf8, hbytes]
  exact dif_pos s.isValidUTF8

theorem fromUtf8_eq_some {b : Bytes} {s : String} : fromUtf8 b = some s ↔ b = utf8 s := by
  constructor
  · intro h
    rw [fromUtf8, String.fromUTF8?] at h
    split_ifs at h with hvalid
    cases h
    rfl
  · rintro rfl
    exact fromUtf8_utf8 s

theorem utf8_ofList (l : List Char) : utf8 (String.ofList l) = l.flatMap String.utf8EncodeChar := by
  change (String.ofList l).toByteArray.data.toList = _
  rw [String.toByteArray_ofList]
  simp [List.utf8Encode]

theorem utf8_append (a b : String) : utf8 (a ++ b) = utf8 a ++ utf8 b := by
  simp [utf8, String.toByteArray_append]

/-- the first character can be told from the bytes -/
theorem utf8EncodeChar_append_inj {c d : Char} {x y : Bytes} (h : String.utf8EncodeChar c ++ x = String.utf8EncodeChar d ++ y) :
    c = d ∧ x = y := by
  have hdecode : ∀ (c : Char) (x : Bytes), (ByteArray.mk (String.utf8EncodeChar c ++ x).toArray).utf8DecodeChar? 0 = some c := by
    intro c x
    have hbytes : ByteArray.mk (String.utf8EncodeChar c ++ x).toArray = [c].utf8Encode ++ ⟨x.toArray⟩ := by
      ext1
      simp [List.utf8Encode]
    rw [hbytes, List.utf8DecodeChar?_utf8Encode_singleton_append]
  have hcd : c = d := by
    have heq := hdecode c x
    rw [h, hdecode d y] at heq
    exact (Option.some.inj heq).symm
  subst hcd
  exact ⟨rfl, List.append_cancel_left h⟩

theorem utf8_prefix_iff {a b : String} : utf8 a <+: utf8 b ↔ a.toList <+: b.toList := by
  have hprefix : ∀ (l m : List Char) (z : Bytes),
      l.flatMap String.utf8EncodeChar ++ z = m.flatMap String.utf8EncodeChar → l <+: m := by
    intro l
    induction l with
    | nil => exact fun m z _ => List.nil_prefix
    | cons c l ih =>
      intro m z h
      rw [List.flatMap_cons, List.append_assoc] at h
      cases m with
      | nil =>
        have hlen := congrArg List.length h
        have hpos := c.utf8Size_pos
        rw [List.length_append, String.length_utf8EncodeChar, List.flatMap_nil, List.length_nil] at hlen
        omega
      | cons d m =>
        rw [List.flatMap_cons] at h
        obtain ⟨rfl, hrest⟩ := utf8EncodeChar_append_inj h
        exact List.cons_prefix_cons.2 ⟨rfl, ih m z hrest⟩
  constructor
  · rintro ⟨z, hz⟩
    rw [← String.ofList_toList (s := a), ← String.ofList_toList (s := b), utf8_ofList, utf8_ofList] at hz
    exact hprefix _ _ z hz
  · rintro ⟨r, hr⟩
    have hb : b = a ++ String.ofList r := by rw [← String.toList_inj, String.toList_append, String.toList_ofList, hr]
    rw [hb, utf8_append]
    exact List.prefix_append _ _

theorem ofNat_ne_zero {n : ℕ} (h0 : 0 < n) (h : n < 256) : (0 : UInt8) ≠ UInt8.ofNat n := by
  intro heq
  have hn : (0 : UInt8).toNat = (UInt8.ofNat n).toNat := congrArg UInt8.toNat heq
  rw [UInt8.toNat_ofNat', Nat.mod_eq_of_lt h] at hn
  exact h0.ne hn

theorem zero_notMem_utf8EncodeChar {c : Char} (hc : c ≠ '\x00') : 0 ∉ String.utf8EncodeChar c := by
  have hv : 0 < c.val.toNat := by
    refine Nat.pos_of_ne_zero fun h => hc (Char.ext (UInt32.toNat_inj.1 ?_))
    exact h
  rw [String.utf8EncodeChar]
  split_ifs with h1 h2 h3
  · simp only [List.mem_singleton]
    exact ofNat_ne_zero hv (by omega)
  all_goals
    simp only [List.mem_cons, List.not_mem_nil, or_false, not_or]
    refine ⟨ofNat_ne_zero (by omega) (by omega), ?_⟩
  · exact ofNat_ne_zero (by omega) (by omega)
  · exact ⟨ofNat_ne_zero (by omega) (by omega), ofNat_ne_zero (by omega) (by omega)⟩
  · exact ⟨ofNat_ne_zero (by omega) (by omega), ofNat_ne_zero (by omega) (by omega), ofNat_ne_zero (by omega) (by omega)⟩

theorem zero_notMem_utf8 {s : String} (hs : '\x00' ∉ s.toList) : 0 ∉ utf8 s := by
  rw [← String.ofList_toList (s := s), utf8_ofList, List.mem_flatMap]
  rintro ⟨c, hc, h⟩
  exact zero_notMem_utf8EncodeChar (fun h0 => hs (h0 ▸ hc)) h

theorem utf8EncodeChar_ascii {c : Char} (h : c.toNat < 128) : String.utf8EncodeChar c = [UInt8.ofNat c.toNat] := by
  have h127 : c.val.toNat ≤ 127 := Nat.le_of_lt_succ h
  rw [String.utf8EncodeChar, if_pos h127]
  rfl

theorem utf8_ascii {s : String} (h : ∀ c ∈ s.toList, c.toNat < 128) : utf8 s = s.toList.map fun c => UInt8.ofNat c.toNat := by
  have hflat : ∀ l : List Char, (∀ c ∈ l, c.toNat < 128) → l.flatMap String.utf8EncodeChar = l.map fun c => UInt8.ofNat c.toNat := by
    intro l
    induction l with
    | nil => exact fun _ => rfl
    | cons c l ih =>
      intro hl
      rw [List.flatMap_cons, utf8EncodeChar_ascii (hl c List.mem_cons_self), ih fun d hd => hl d (List.mem_cons_of_mem c hd)]
      rfl
  rw [← hflat _ h, ← utf8_ofList, String.ofList_toList]

theorem lt_of_mem_utf8_ascii {s : String} {n : ℕ} (hn : n ≤ 128) (h : ∀ c ∈ s.toList, c.toNat < n) : ∀ x ∈ utf8 s, x.toNat < n := by
  rw [utf8_ascii fun c hc => (h c hc).trans_le hn]
  intro x hx
  obtain ⟨c, hc, rfl⟩ := List.mem_map.1 hx
  have := h c hc
  rw [UInt8.toNat_ofNat', Nat.mod_eq_of_lt (by omega)]
  exact this

/-! ## Length prefixes -/

theorem lenPrefixed_append_inj {a b : String} {x y : Bytes} (ha : (utf8 a).length < 2 ^ 32) (hb : (utf8 b).length < 2 ^ 32)
    (h : lenPrefixed a ++ x = lenPrefixed b ++ y) : a = b ∧ x = y := by
  simp only [lenPrefixed, List.append_assoc] at h
  obtain ⟨hn, h⟩ := List.append_inj h (by simp)
  have hlen : (utf8 a).length = (utf8 b).length := beBytes_inj ha hb hn
  obtain ⟨hab, hxy⟩ := List.append_inj h hlen
  exact ⟨utf8_inj hab, hxy⟩

/-! ## Joined texts -/

theorem joined_lt {β : Type} [LinearOrder β] {z : β} {a a' b b' : List β} (ha : ∀ x ∈ a, z < x) (ha' : ∀ x ∈ a', z < x) :
    a ++ z :: b < a' ++ z :: b' ↔ a < a' ∨ a = a' ∧ b < b' := by
  induction a generalizing a' with
  | nil =>
    cases a' with
    | nil => simp
    | cons y a' =>
      have hy : z < y := ha' y List.mem_cons_self
      simp [List.cons_lt_cons_iff, hy]
  | cons x a ih =>
    have hx : z < x := ha x List.mem_cons_self
    cases a' with
    | nil => simp [List.cons_lt_cons_iff, hx.not_gt, hx.ne']
    | cons y a' =>
      have hih := ih (fun w hw => ha w (List.mem_cons_of_mem x hw)) fun w hw => ha' w (List.mem_cons_of_mem y hw)
      rw [List.cons_append, List.cons_append, List.cons_lt_cons_iff, List.cons_lt_cons_iff, hih, List.cons.injEq]
      tauto

end Y2q
