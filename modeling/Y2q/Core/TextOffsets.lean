/-
Byte offsets into text. A text is the list of its characters, and an offset counts the bytes of their UTF-8 encodings. Slicing fails at
an offset inside a character, or past the end.

- `sliceFrom_append`, `sliceFrom_eq_some`: slicing succeeds exactly between two characters. `sliceTo_append`: the same for a front.
- `findStr`: the offset of the first occurrence. `findStr_eq_some`: there is an occurrence there. `findStr_append`: text without the first
  character of the pattern is passed over (`Passes`).
- `byteAt_append`: the byte at an offset between two characters begins the encoding of the second.
-/
import Mathlib.Tactic
import Y2q.Core.Text

namespace Y2q.TextOffsets

variable {s t front back pat : List Char} {c : Char} {i : ℕ}

def byteLen (s : List Char) : ℕ := (s.map Char.utf8Size).sum

@[simp] theorem byteLen_nil : byteLen [] = 0 := rfl

@[simp] theorem byteLen_cons (c : Char) (s : List Char) : byteLen (c :: s) = c.utf8Size + byteLen s := rfl

@[simp] theorem byteLen_append (s t : List Char) : byteLen (s ++ t) = byteLen s + byteLen t := by
  simp [byteLen]

theorem length_encoded (s : List Char) : (s.flatMap String.utf8EncodeChar).length = byteLen s := by
  induction s with
  | nil => rfl
  | cons c s ih => rw [List.flatMap_cons, List.length_append, String.length_utf8EncodeChar, ih, byteLen_cons]

theorem byteLen_pos (h : s ≠ []) : 0 < byteLen s := by
  obtain ⟨c, s, rfl⟩ := List.exists_cons_of_ne_nil h
  rw [byteLen_cons]
  exact Nat.add_pos_left c.utf8Size_pos _

/-! ## Slices -/

/-- `s[i..]` -/
def sliceFrom : List Char → ℕ → Option (List Char)
  | [], i => if i = 0 then some [] else none
  | c :: s, i => if i = 0 then some (c :: s) else if i < c.utf8Size then none else sliceFrom s (i - c.utf8Size)

/-- `s[..n]` -/
def sliceTo : List Char → ℕ → Option (List Char)
  | [], n => if n = 0 then some [] else none
  | c :: s, n => if n = 0 then some [] else if n < c.utf8Size then none else (sliceTo s (n - c.utf8Size)).map (c :: ·)

/-- `s[i..j]` -/
def sliceRange (s : List Char) (i j : ℕ) : Option (List Char) :=
  if i ≤ j then (sliceFrom s i).bind fun rest => sliceTo rest (j - i) else none

/-- between two characters, or at an end -/
def Boundary (s : List Char) (i : ℕ) : Prop := ∃ front back, s = front ++ back ∧ i = byteLen front

theorem sliceFrom_zero (s : List Char) : sliceFrom s 0 = some s := by
  cases s <;> simp [sliceFrom]

theorem sliceFrom_append (front back : List Char) : sliceFrom (front ++ back) (byteLen front) = some back := by
  induction front with
  | nil => exact sliceFrom_zero back
  | cons c front ih =>
    have hpos := c.utf8Size_pos
    rw [List.cons_append, sliceFrom, byteLen_cons, if_neg (by omega), if_neg (by omega), Nat.add_sub_cancel_left, ih]

theorem sliceFrom_eq_some (h : sliceFrom s i = some back) : ∃ front, s = front ++ back ∧ i = byteLen front := by
  induction s generalizing i with
  | nil =>
    rw [sliceFrom] at h
    split_ifs at h with h0
    exact ⟨[], Option.some.inj h, h0⟩
  | cons c s ih =>
    rw [sliceFrom] at h
    split_ifs at h with h0 hlt
    · exact ⟨[], Option.some.inj h, h0⟩
    · obtain ⟨front, rfl, hi⟩ := ih h
      exact ⟨c :: front, rfl, by rw [byteLen_cons]; omega⟩

theorem Boundary.of_sliceFrom (h : sliceFrom s i = some back) : Boundary s i := by
  obtain ⟨front, hs, hi⟩ := sliceFrom_eq_some h
  exact ⟨front, back, hs, hi⟩

theorem Boundary.le (h : Boundary s i) : i ≤ byteLen s := by
  obtain ⟨front, back, rfl, rfl⟩ := h
  rw [byteLen_append]
  exact Nat.le_add_right _ _

theorem sliceTo_append (front back : List Char) : sliceTo (front ++ back) (byteLen front) = some front := by
  induction front with
  | nil => cases back <;> simp [sliceTo]
  | cons c front ih =>
    have hpos := c.utf8Size_pos
    rw [List.cons_append, sliceTo, byteLen_cons, if_neg (by omega), if_neg (by omega), Nat.add_sub_cancel_left, ih, Option.map_some]

theorem sliceRange_append (front mid back : List Char) :
    sliceRange (front ++ (mid ++ back)) (byteLen front) (byteLen front + byteLen mid) = some mid := by
  rw [sliceRange, if_pos (Nat.le_add_right _ _), sliceFrom_append, Option.bind_some, Nat.add_sub_cancel_left, sliceTo_append]

/-! ## Search -/

/-- `s.find(pat)` -/
def findStr (pat : List Char) : List Char → Option ℕ
  | [] => if pat = [] then some 0 else none
  | c :: s => if pat <+: c :: s then some 0 else (findStr pat s).map (c.utf8Size + ·)

theorem findStr_prefix (h : pat <+: s) : findStr pat s = some 0 := by
  cases s with
  | nil => rw [findStr, if_pos (List.prefix_nil.1 h)]
  | cons c s => rw [findStr, if_pos h]

theorem findStr_cons (h : ¬pat <+: c :: s) : findStr pat (c :: s) = (findStr pat s).map (c.utf8Size + ·) := by
  rw [findStr, if_neg h]

theorem findStr_eq_some (h : findStr pat s = some i) : ∃ front back, s = front ++ (pat ++ back) ∧ i = byteLen front := by
  induction s generalizing i with
  | nil =>
    rw [findStr] at h
    split_ifs at h with hnil
    exact ⟨[], [], by rw [hnil]; rfl, (Option.some.inj h).symm⟩
  | cons c s ih =>
    rw [findStr] at h
    split_ifs at h with hprefix
    · obtain ⟨back, hback⟩ := hprefix
      exact ⟨[], back, hback.symm, (Option.some.inj h).symm⟩
    · obtain ⟨j, hj, rfl⟩ := Option.map_eq_some_iff.1 h
      obtain ⟨front, back, rfl, rfl⟩ := ih hj
      exact ⟨c :: front, back, rfl, rfl⟩

/-- text without the character that the pattern begins with -/
theorem findStr_append (h : c ∉ t) (pat s : List Char) :
    findStr (c :: pat) (t ++ s) = (findStr (c :: pat) s).map (byteLen t + ·) := by
  induction t with
  | nil => simp
  | cons d t ih =>
    have hne : ¬c :: pat <+: d :: (t ++ s) := fun hp => h (by rw [(List.cons_prefix_cons.1 hp).1]; exact List.mem_cons_self)
    rw [List.cons_append, findStr_cons hne, ih fun ht => h (List.mem_cons_of_mem d ht), Option.map_map]
    refine congrArg (Option.map · _) (funext fun n => ?_)
    simp only [Function.comp, byteLen_cons]
    omega

/-- a search that begins in front of the text finds nothing before its end -/
def Passes (pat t : List Char) : Prop := ∀ back, findStr pat (t ++ back) = (findStr pat back).map (byteLen t + ·)

theorem Passes.append (h : Passes pat s) (h' : Passes pat t) : Passes pat (s ++ t) := by
  intro back
  rw [List.append_assoc, h, h', Option.map_map]
  refine congrArg (Option.map · _) (funext fun n => ?_)
  simp only [Function.comp, byteLen_append, Nat.add_assoc]

theorem passes_nil (pat : List Char) : Passes pat [] := fun back => by simp

theorem passes_text (h : c ∉ t) (pat : List Char) : Passes (c :: pat) t := findStr_append h pat

/-- the first character, but not the rest -/
theorem passes_first (hc : c ∉ t) (h : ∀ back, ¬pat <+: t ++ back) : Passes (c :: pat) (c :: t) := by
  intro back
  have hne : ¬c :: pat <+: c :: (t ++ back) := fun hp => h back (List.cons_prefix_cons.1 hp).2
  rw [List.cons_append, findStr_cons hne, findStr_append hc, Option.map_map]
  refine congrArg (Option.map · _) (funext fun n => ?_)
  simp only [Function.comp, byteLen_cons, Nat.add_assoc]

theorem Passes.findStr_eq (h : Passes pat t) (back : List Char) : findStr pat (t ++ (pat ++ back)) = some (byteLen t) := by
  rw [h, findStr_prefix (List.prefix_append _ _)]
  rfl

/-! ## Bytes -/

/-- `s.as_bytes().get(i)` -/
def byteAt (s : List Char) (i : ℕ) : Option UInt8 := (s.flatMap String.utf8EncodeChar)[i]?

theorem byteAt_append (front : List Char) (c : Char) (back : List Char) (n : ℕ) (hn : n < c.utf8Size) :
    byteAt (front ++ c :: back) (byteLen front + n) = (String.utf8EncodeChar c)[n]? := by
  rw [byteAt, List.flatMap_append, List.getElem?_append_right (by rw [length_encoded]; omega), length_encoded, Nat.add_sub_cancel_left,
    List.flatMap_cons, List.getElem?_append_left (by rwa [String.length_utf8EncodeChar])]

theorem byteAt_isSome (h : i < byteLen s) : ∃ b, byteAt s i = some b := by
  rw [byteAt]
  exact ⟨_, List.getElem?_eq_getElem (by rwa [length_encoded])⟩

theorem byteAt_end (s : List Char) : byteAt s (byteLen s) = none := by
  rw [byteAt]
  exact List.getElem?_eq_none (by rw [length_encoded])

/-- an ASCII byte in an encoding is all of it -/
theorem eq_of_mem_utf8EncodeChar {b : UInt8} (hb : b.toNat < 128) (h : b ∈ String.utf8EncodeChar c) : c.toNat = b.toNat := by
  have hrange := c.val.toNat_lt
  rw [String.utf8EncodeChar] at h
  have hc : c.toNat = c.val.toNat := rfl
  rw [hc]
  generalize c.val.toNat = v at h hrange ⊢
  split_ifs at h with h1 h2 h3 <;> simp only [List.mem_cons, List.not_mem_nil, or_false] at h
  · rw [h, UInt8.toNat_ofNat']
    omega
  · rcases h with rfl | rfl <;> simp only [UInt8.toNat_ofNat'] at hb <;> omega
  · rcases h with rfl | rfl | rfl <;> simp only [UInt8.toNat_ofNat'] at hb <;> omega
  · rcases h with rfl | rfl | rfl | rfl <;> simp only [UInt8.toNat_ofNat'] at hb <;> omega

end Y2q.TextOffsets
