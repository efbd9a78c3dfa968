/-
Percent coding of the S3 gateway (`percent_decode` to `canonical_query_string` of `s3/sigv4.rs`).

- `percentDecode_percentEncode`, `percentDecode_percentEncodePath`: what is encoded is decoded to the same text.
- `canonicalUri_canonicalUri`, `canonicalQueryString_canonicalQueryString`: both forms are idempotent.
- `Replaced`: bytes with the triplets of a percent sign and two hexadecimal digits replaced, and all others kept.
- `percent_coding`: `percent_decode` does that exactly on the texts with no percent sign followed by a plus sign and a digit.
-/
import Mathlib.Tactic
import Y2q.Core.Pieces
import Y2q.Daemon.RangedGet
import Y2q.S3.LossyText

namespace Y2q.PercentCoding

open Meta

/-! ## Encoding -/

def isUnreserved (b : UInt8) : Bool :=
  (48 ≤ b && b ≤ 57) || (65 ≤ b && b ≤ 90) || (97 ≤ b && b ≤ 122) || b == 45 || b == 46 || b == 95 || b == 126

/-- a digit of `{b:02X}` -/
def upperHex (n : ℕ) : Char := "0123456789ABCDEF".toList.getD n '0'

/-- a byte that is not kept becomes `%XX` -/
def encodeByte (keep : UInt8 → Bool) (b : UInt8) : List Char :=
  if keep b then [Char.ofNat b.toNat] else ['%', upperHex (b.toNat / 16), upperHex (b.toNat % 16)]

def percentEncodeWith (keep : UInt8 → Bool) (s : String) : String := String.ofList ((utf8 s).flatMap (encodeByte keep))

def percentEncode (s : String) : String := percentEncodeWith isUnreserved s

/-- and `/` -/
def percentEncodePath (s : String) : String := percentEncodeWith (fun b => isUnreserved b || b == 47) s

/-! ## Canonical forms -/

def encodeSegment (segment : List Char) : List Char := (percentEncode (percentDecode (String.ofList segment))).toList

def canonicalUri (path : String) : String :=
  if path.isEmpty ∨ path = "/" then "/"
  else String.ofList (['/'].intercalate ((path.toList.splitOn '/').map encodeSegment))

/-- name and value; a value that is missing is empty -/
def encodePair (pair : List Char) : String × String :=
  let (k, v) := (RangedGet.splitOnce '=' pair).getD (pair, [])
  (percentEncode (percentDecode (String.ofList k)), percentEncode (percentDecode (String.ofList v)))

/-- the order of the pairs: byte by byte -/
def pairLe (p q : String × String) : Bool := utf8 p.1 < utf8 q.1 || (p.1 = q.1 && utf8 p.2 ≤ utf8 q.2)

/-- `{k}={v}` -/
def joinPair (p : String × String) : List Char := p.1.toList ++ '=' :: p.2.toList

def canonicalPairs (query : String) : List (String × String) :=
  ((((query.toList.splitOn '&').filter (· ≠ [])).map encodePair).filter fun p => p.1 ≠ "X-Amz-Signature").mergeSort pairLe

def canonicalQueryString (query : String) : String := String.ofList (['&'].intercalate ((canonicalPairs query).map joinPair))

/-! ## What decoding is for -/

/-- a percent sign and two hexadecimal digits -/
def triplet : Bytes → Option (UInt8 × Bytes)
  | 37 :: a :: b :: rest => do
    let x ← Meta.hexDigit a
    let y ← Meta.hexDigit b
    some (UInt8.ofNat (16 * x + y), rest)
  | _ => none

/-- every triplet is replaced by the byte it stands for, every other byte is kept -/
inductive Replaced : Bytes → Bytes → Prop
  | nil : Replaced [] []
  | triplet {s rest out : Bytes} {x : UInt8} (h : triplet s = some (x, rest)) (hrest : Replaced rest out) : Replaced s (x :: out)
  | other {x : UInt8} {rest out : Bytes} (h : triplet (x :: rest) = none) (hrest : Replaced rest out) :
      Replaced (x :: rest) (x :: out)

/-- the text of these bytes, which is all of them where they are text -/
def ReplacesTriplets (s : String) : Prop :=
  ∃ out, Replaced (utf8 s) out ∧ percentDecode s = fromUtf8Lossy out ∧ ∀ t, out = utf8 t → percentDecode s = t

/-- a percent sign, a plus sign and a digit: `from_str_radix` reads `+f` as a number -/
def PlusEscape (s : Bytes) : Prop := ∃ front d rest, s = front ++ 37 :: 43 :: d :: rest ∧ Meta.hexDigit d ≠ none

theorem PlusEscape.append {s : Bytes} (h : PlusEscape s) (front : Bytes) : PlusEscape (front ++ s) := by
  obtain ⟨mid, d, rest, rfl, hd⟩ := h
  exact ⟨front ++ mid, d, rest, by rw [List.append_assoc], hd⟩

/-- at the front, or further on -/
theorem plusEscape_cons {x : UInt8} {s : Bytes} :
    PlusEscape (x :: s) ↔ (∃ d rest, x :: s = 37 :: 43 :: d :: rest ∧ Meta.hexDigit d ≠ none) ∨ PlusEscape s := by
  constructor
  · rintro ⟨front, d, rest, hs, hd⟩
    cases front with
    | nil => exact .inl ⟨d, rest, hs, hd⟩
    | cons y front => exact .inr ⟨front, d, rest, (List.cons.inj hs).2, hd⟩
  · rintro (⟨d, rest, hs, hd⟩ | h)
    · exact ⟨[], d, rest, hs, hd⟩
    · exact h.append [x]

theorem hexDigit_percent : Meta.hexDigit 37 = none := by decide

theorem hexDigit_plus : Meta.hexDigit 43 = none := by decide

theorem triplet_eq_some {s rest : Bytes} {x : UInt8} : triplet s = some (x, rest) ↔
    ∃ a b y z, s = 37 :: a :: b :: rest ∧ Meta.hexDigit a = some y ∧ Meta.hexDigit b = some z ∧ x = UInt8.ofNat (16 * y + z) := by
  constructor
  · intro h
    unfold triplet at h
    split at h
    · rename_i a b rest'
      simp only [Option.bind_eq_bind, Option.bind_eq_some_iff, Option.some.injEq, Prod.mk.injEq] at h
      obtain ⟨y, hy, z, hz, rfl, rfl⟩ := h
      exact ⟨a, b, y, z, rfl, hy, hz, rfl⟩
    · cases h
  · rintro ⟨a, b, y, z, rfl, hy, hz, rfl⟩
    simp [triplet, hy, hz]

theorem triplet_of_ne {x : UInt8} (h : x ≠ 37) (s : Bytes) : triplet (x :: s) = none := by
  refine Option.eq_none_iff_forall_ne_some.2 fun p hp => ?_
  obtain ⟨a, b, y, z, hs, -⟩ := triplet_eq_some.1 (show triplet (x :: s) = some (p.1, p.2) from hp)
  exact h (List.cons.inj hs).1

theorem Replaced.unique {s out out' : Bytes} (h : Replaced s out) (h' : Replaced s out') : out = out' := by
  induction h generalizing out' with
  | nil =>
    cases h' with
    | nil => rfl
    | triplet h => cases h
  | triplet h hrest ih =>
    cases h' with
    | nil => cases h
    | triplet h' hrest' =>
      obtain ⟨rfl, rfl⟩ := Prod.mk.inj (Option.some.inj (h.symm.trans h'))
      rw [ih hrest']
    | other h' hrest' => cases h.symm.trans h'
  | other h hrest ih =>
    cases h' with
    | triplet h' hrest' => cases h.symm.trans h'
    | other h' hrest' => rw [ih hrest']

theorem exists_replaced (s : Bytes) : ∃ out, Replaced s out := by
  induction hn : s.length using Nat.strong_induction_on generalizing s with
  | _ n ih =>
    cases s with
    | nil => exact ⟨[], .nil⟩
    | cons x s =>
      cases ht : triplet (x :: s) with
      | none =>
        obtain ⟨out, hout⟩ := ih s.length (by rw [← hn, List.length_cons]; omega) s rfl
        exact ⟨x :: out, .other ht hout⟩
      | some p =>
        obtain ⟨a, b, y, z, hs, -⟩ := triplet_eq_some.1 (show triplet (x :: s) = some (p.1, p.2) from ht)
        obtain ⟨out, hout⟩ := ih p.2.length (by rw [← hn, hs]; simp only [List.length_cons]; omega) p.2 rfl
        exact ⟨p.1 :: out, .triplet ht hout⟩

/-! ## The loop of `percent_decode` -/

theorem percentBytes_of_ne {x : UInt8} (h : x ≠ 37) (s : Bytes) : percentBytes (x :: s) = x :: percentBytes s := by
  rw [percentBytes]
  rintro a b rest hx -
  exact h hx

theorem percentBytes_triplet {s rest : Bytes} {x : UInt8} (h : triplet s = some (x, rest)) : percentBytes s = x :: percentBytes rest := by
  obtain ⟨a, b, y, z, rfl, hy, hz, rfl⟩ := triplet_eq_some.1 h
  have ha : a ≠ 43 := by
    rintro rfl
    cases hexDigit_plus.symm.trans hy
  simp [percentBytes, hexByte, ha, hy, hz]

theorem percentBytes_plus {d : UInt8} {n : ℕ} (h : Meta.hexDigit d = some n) (rest : Bytes) :
    percentBytes (37 :: 43 :: d :: rest) = UInt8.ofNat n :: percentBytes rest := by
  simp [percentBytes, hexByte, h]

/-- a byte that begins no triplet is kept, unless it is that of a plus escape -/
theorem percentBytes_other {x : UInt8} {s : Bytes} (h : triplet (x :: s) = none)
    (hplus : ¬∃ d rest, x :: s = 37 :: 43 :: d :: rest ∧ Meta.hexDigit d ≠ none) : percentBytes (x :: s) = x :: percentBytes s := by
  by_cases hx : x = 37
  · subst hx
    rcases s with - | ⟨a, - | ⟨b, rest⟩⟩
    · rfl
    · rw [percentBytes]
      rintro a b rest - hs
      cases hs
    · have hnone : hexByte a b = none := by
        unfold hexByte
        split_ifs with ha
        · subst ha
          rw [Option.map_eq_none_iff]
          exact not_not.1 fun hb => hplus ⟨b, rest, rfl, hb⟩
        · refine Option.eq_none_iff_forall_ne_some.2 fun v hv => ?_
          simp only [Option.bind_eq_some_iff, Option.map_eq_some_iff] at hv
          obtain ⟨y, hy, z, hz, rfl⟩ := hv
          cases h.symm.trans (triplet_eq_some.2 ⟨a, b, y, z, rfl, hy, hz, rfl⟩)
      rw [percentBytes, hnone]
  · exact percentBytes_of_ne hx s

theorem percentBytes_eq {s out : Bytes} (h : Replaced s out) (hplus : ¬PlusEscape s) : percentBytes s = out := by
  induction h with
  | nil => rfl
  | triplet h hrest ih =>
    obtain ⟨a, b, y, z, rfl, -⟩ := triplet_eq_some.1 h
    rw [percentBytes_triplet h, ih fun h => hplus (h.append [37, a, b])]
  | other h hrest ih =>
    rw [plusEscape_cons, not_or] at hplus
    rw [percentBytes_other h hplus.1, ih hplus.2]

theorem hexDigit_lt {d : UInt8} {n : ℕ} (h : Meta.hexDigit d = some n) : n < 16 := by
  unfold Meta.hexDigit at h
  simp only [UInt8.le_iff_toNat_le, UInt8.reduceToNat] at h
  split_ifs at h <;> cases h <;> omega

/-- a plus escape loses its plus sign -/
theorem count_percentBytes {s out : Bytes} (h : Replaced s out) :
    (percentBytes s).count 43 ≤ out.count 43 ∧ (PlusEscape s → (percentBytes s).count 43 < out.count 43) := by
  induction h with
  | nil => exact ⟨le_rfl, fun ⟨front, d, rest, hs, _⟩ => absurd hs.symm (by simp)⟩
  | @triplet s rest out x h hrest ih =>
    rw [percentBytes_triplet h, List.count_cons, List.count_cons]
    refine ⟨Nat.add_le_add_right ih.1 _, fun hplus => Nat.add_lt_add_right (ih.2 ?_) _⟩
    obtain ⟨a, b, y, z, rfl, ha, hb, -⟩ := triplet_eq_some.1 h
    have hne : ∀ {c : UInt8} {v : ℕ} (t : Bytes), Meta.hexDigit c = some v → PlusEscape (c :: t) → PlusEscape t := by
      intro c v t hc hplus
      rcases plusEscape_cons.1 hplus with ⟨d, rest, hs, -⟩ | hplus
      · rw [(List.cons.inj hs).1] at hc
        cases hexDigit_percent.symm.trans hc
      · exact hplus
    rcases plusEscape_cons.1 hplus with ⟨d, rest, hs, -⟩ | hplus
    · rw [(List.cons.inj (List.cons.inj hs).2).1] at ha
      cases hexDigit_plus.symm.trans ha
    · exact hne _ hb (hne _ ha hplus)
  | @other x rest out h hrest ih =>
    by_cases hfront : ∃ d rest', x :: rest = 37 :: 43 :: d :: rest' ∧ Meta.hexDigit d ≠ none
    · obtain ⟨d, rest, hs, hd⟩ := hfront
      obtain ⟨rfl, rfl⟩ := List.cons.inj hs
      obtain ⟨n, hn⟩ := Option.ne_none_iff_exists'.1 hd
      have hn43 : UInt8.ofNat n ≠ 43 := by
        have := hexDigit_lt hn
        intro h43
        have := congrArg UInt8.toNat h43
        simp only [UInt8.toNat_ofNat', UInt8.reduceToNat] at this
        omega
      have hd37 : d ≠ 37 := by
        rintro rfl
        exact hd hexDigit_percent
      have hlt : (percentBytes (37 :: 43 :: d :: rest)).count 43 < (37 :: out).count 43 := by
        rw [percentBytes_plus hn, List.count_cons_of_ne hn43, List.count_cons_of_ne (by decide)]
        have hle := ih.1
        rw [percentBytes_of_ne (by decide), List.count_cons_self, percentBytes_of_ne hd37, List.count_cons] at hle
        omega
      exact ⟨hlt.le, fun _ => hlt⟩
    · rw [percentBytes_other h hfront, List.count_cons, List.count_cons]
      refine ⟨Nat.add_le_add_right ih.1 _, fun hplus => Nat.add_lt_add_right (ih.2 ?_) _⟩
      exact (plusEscape_cons.1 hplus).resolve_left hfront

theorem replacesTriplets_iff (s : String) : ReplacesTriplets s ↔ ¬PlusEscape (utf8 s) := by
  constructor
  · rintro ⟨out, hout, hs, -⟩ hplus
    have hcount := congrArg (fun t => (utf8 t).count 43) hs
    simp only [percentDecode, utf8_fromUtf8Lossy, count_lossyBytes (p := 43) (by decide) le_rfl] at hcount
    exact absurd hcount ((count_percentBytes hout).2 hplus).ne
  · intro hplus
    obtain ⟨out, hout⟩ := exists_replaced (utf8 s)
    have hs : percentDecode s = fromUtf8Lossy out := by rw [percentDecode, percentBytes_eq hout hplus]
    refine ⟨out, hout, hs, ?_⟩
    rintro t rfl
    rw [hs, fromUtf8Lossy_utf8]

/-! ## What is encoded -/

theorem upperHex_digit {n : ℕ} (h : n < 16) : Meta.hexDigit (UInt8.ofNat (upperHex n).toNat) = some n ∧ (upperHex n).toNat < 128 ∧
    isUnreserved (UInt8.ofNat (upperHex n).toNat) = true := by
  have hall : ∀ n < 16, Meta.hexDigit (UInt8.ofNat (upperHex n).toNat) = some n ∧ (upperHex n).toNat < 128 ∧
      isUnreserved (UInt8.ofNat (upperHex n).toNat) = true := by decide
  exact hall n h

theorem nibbles_lt (b : UInt8) : b.toNat / 16 < 16 ∧ b.toNat % 16 < 16 :=
  ⟨Nat.div_lt_of_lt_mul b.toNat_lt, Nat.mod_lt _ (by decide)⟩

theorem toNat_ofNat_ascii {b : UInt8} (h : b.toNat < 128) : (Char.ofNat b.toNat).toNat = b.toNat := by
  have hvalid : b.toNat.isValidChar := .inl (by omega)
  rw [Char.ofNat, dif_pos hvalid]
  rfl

theorem isUnreserved_ascii {b : UInt8} (h : isUnreserved b = true) : b.toNat < 128 := by
  simp only [isUnreserved, Bool.or_eq_true, Bool.and_eq_true, decide_eq_true_eq, beq_iff_eq, UInt8.le_iff_toNat_le,
    ← UInt8.toNat_inj, UInt8.reduceToNat] at h
  omega

/-- bytes that may be kept: ASCII, and not the percent sign -/
def MayKeep (keep : UInt8 → Bool) : Prop := ∀ b, keep b = true → b.toNat < 128 ∧ b ≠ 37

theorem mayKeep_isUnreserved : MayKeep isUnreserved := by
  refine fun b hb => ⟨isUnreserved_ascii hb, ?_⟩
  rintro rfl
  cases hb

theorem mayKeep_path : MayKeep fun b => isUnreserved b || b == 47 := by
  intro b hb
  rcases Bool.or_eq_true_iff.1 hb with hb | hb
  · exact mayKeep_isUnreserved b hb
  · rw [beq_iff_eq.1 hb]
    decide

variable {keep : UInt8 → Bool}

theorem encodeByte_ascii (hkeep : MayKeep keep) {b : UInt8} {c : Char} (hc : c ∈ encodeByte keep b) : c.toNat < 128 := by
  rw [encodeByte] at hc
  split_ifs at hc with hb
  · rw [List.mem_singleton.1 hc, toNat_ofNat_ascii (hkeep b hb).1]
    exact (hkeep b hb).1
  · simp only [List.mem_cons, List.not_mem_nil, or_false] at hc
    rcases hc with rfl | rfl | rfl
    · decide
    · exact (upperHex_digit (nibbles_lt b).1).2.1
    · exact (upperHex_digit (nibbles_lt b).2).2.1

theorem percentBytes_encodeByte (hkeep : MayKeep keep) (b : UInt8) (s : Bytes) :
    percentBytes ((encodeByte keep b).map (fun c => UInt8.ofNat c.toNat) ++ s) = b :: percentBytes s := by
  rw [encodeByte]
  split_ifs with hb
  · rw [List.map_singleton, toNat_ofNat_ascii (hkeep b hb).1, UInt8.ofNat_toNat]
    exact percentBytes_of_ne (hkeep b hb).2 s
  · have htriplet : triplet (['%', upperHex (b.toNat / 16), upperHex (b.toNat % 16)].map (fun c => UInt8.ofNat c.toNat) ++ s) =
        some (b, s) := by
      refine triplet_eq_some.2 ⟨_, _, _, _, rfl, (upperHex_digit (nibbles_lt b).1).1, (upperHex_digit (nibbles_lt b).2).1, ?_⟩
      rw [Nat.div_add_mod, UInt8.ofNat_toNat]
    exact percentBytes_triplet htriplet

theorem utf8_percentEncodeWith (hkeep : MayKeep keep) (s : String) :
    utf8 (percentEncodeWith keep s) = (utf8 s).flatMap fun b => (encodeByte keep b).map fun c => UInt8.ofNat c.toNat := by
  have hascii : ∀ c ∈ (percentEncodeWith keep s).toList, c.toNat < 128 := by
    intro c hc
    rw [percentEncodeWith, String.toList_ofList] at hc
    obtain ⟨b, -, hc⟩ := List.mem_flatMap.1 hc
    exact encodeByte_ascii hkeep hc
  rw [utf8_ascii hascii, percentEncodeWith, String.toList_ofList, List.map_flatMap]

theorem percentDecode_percentEncodeWith (hkeep : MayKeep keep) (s : String) : percentDecode (percentEncodeWith keep s) = s := by
  have hbytes : ∀ t : Bytes, percentBytes (t.flatMap fun b => (encodeByte keep b).map fun c => UInt8.ofNat c.toNat) = t := by
    intro t
    induction t with
    | nil => rfl
    | cons b t ih => rw [List.flatMap_cons, percentBytes_encodeByte hkeep, ih]
  rw [percentDecode, utf8_percentEncodeWith hkeep, hbytes, fromUtf8Lossy_utf8]

theorem percentDecode_percentEncode (s : String) : percentDecode (percentEncode s) = s :=
  percentDecode_percentEncodeWith mayKeep_isUnreserved s

theorem percentDecode_percentEncodePath (s : String) : percentDecode (percentEncodePath s) = s :=
  percentDecode_percentEncodeWith mayKeep_path s

/-! ## Idempotence -/

/-- nothing that is encoded holds a separator -/
theorem notMem_percentEncode {c : Char} (hc : c ≠ '%') (hc' : isUnreserved (UInt8.ofNat c.toNat) = false) (s : String) :
    c ∉ (percentEncode s).toList := by
  intro hmem
  rw [percentEncode, percentEncodeWith, String.toList_ofList] at hmem
  obtain ⟨b, -, hmem⟩ := List.mem_flatMap.1 hmem
  have hne : ∀ d : Char, isUnreserved (UInt8.ofNat d.toNat) = true → c ≠ d := by
    rintro d hd rfl
    cases hc'.symm.trans hd
  rw [encodeByte] at hmem
  split_ifs at hmem with hb
  · refine hne _ ?_ (List.mem_singleton.1 hmem)
    rwa [toNat_ofNat_ascii (isUnreserved_ascii hb), UInt8.ofNat_toNat]
  · simp only [List.mem_cons, List.not_mem_nil, or_false] at hmem
    rcases hmem with h | h | h
    · exact hc h
    · exact hne _ (upperHex_digit (nibbles_lt b).1).2.2 h
    · exact hne _ (upperHex_digit (nibbles_lt b).2).2.2 h

theorem slash_notMem (s : String) : '/' ∉ (percentEncode s).toList := notMem_percentEncode (by decide) (by decide) s

theorem amp_notMem (s : String) : '&' ∉ (percentEncode s).toList := notMem_percentEncode (by decide) (by decide) s

theorem eq_notMem (s : String) : '=' ∉ (percentEncode s).toList := notMem_percentEncode (by decide) (by decide) s

theorem encodeByte_ne_nil (b : UInt8) : encodeByte keep b ≠ [] := by
  rw [encodeByte]
  split_ifs <;> exact List.cons_ne_nil _ _

theorem percentBytes_ne_nil {s : Bytes} (h : s ≠ []) : percentBytes s ≠ [] := by
  fun_cases percentBytes s <;> first | exact List.cons_ne_nil _ _ | exact absurd rfl h

/-- text is not lost in a round through both -/
theorem percentEncode_percentDecode_ne_nil {l : List Char} (h : l ≠ []) :
    (percentEncode (percentDecode (String.ofList l))).toList ≠ [] := by
  have hnil : ∀ t : String, utf8 t = [] → t = "" := fun t ht => utf8_inj ht
  have hbytes : utf8 (String.ofList l) ≠ [] := by
    intro h0
    have hl := congrArg String.toList (hnil _ h0)
    rw [String.toList_ofList] at hl
    exact h hl
  obtain ⟨b, bs, hb⟩ := List.exists_cons_of_ne_nil fun h0 => fromUtf8Lossy_ne_empty (percentBytes_ne_nil hbytes) (hnil _ h0)
  rw [percentEncode, percentEncodeWith, String.toList_ofList, percentDecode, hb, List.flatMap_cons]
  exact List.append_ne_nil_of_left_ne_nil (encodeByte_ne_nil b) _

theorem encodeSegment_encodeSegment (l : List Char) : encodeSegment (encodeSegment l) = encodeSegment l := by
  rw [encodeSegment, encodeSegment, String.ofList_toList, percentDecode_percentEncode]

theorem canonicalUri_of_ne {path : String} (h0 : path ≠ "") (h1 : path ≠ "/") :
    canonicalUri path = String.ofList (['/'].intercalate ((path.toList.splitOn '/').map encodeSegment)) := by
  rw [canonicalUri, if_neg (not_or.2 ⟨by rwa [String.isEmpty_iff], h1⟩)]

/-- a path of one segment that is not empty, or one with a slash -/
theorem canonicalUri_ne_empty (path : String) : canonicalUri path ≠ "" := by
  by_cases h : path = "" ∨ path = "/"
  · rw [canonicalUri, if_pos (by rwa [String.isEmpty_iff])]
    decide
  obtain ⟨h0, h1⟩ := not_or.1 h
  rw [canonicalUri_of_ne h0 h1]
  intro hempty
  have hnil := congrArg String.toList hempty
  rw [String.toList_ofList] at hnil
  obtain ⟨p, ps, hps⟩ := List.exists_cons_of_ne_nil (List.splitOn_ne_nil '/' path.toList)
  rw [hps] at hnil
  cases ps with
  | nil =>
    rw [List.map_singleton, List.intercalate_singleton] at hnil
    have hp : p = path.toList := by
      have hjoin : ['/'].intercalate (path.toList.splitOn '/') = path.toList := List.intercalate_splitOn '/'
      rwa [hps, List.intercalate_singleton] at hjoin
    refine percentEncode_percentDecode_ne_nil (l := p) ?_ hnil
    intro hp0
    exact h0 (String.toList_eq_nil_iff.1 (hp ▸ hp0))
  | cons q qs =>
    rw [List.map_cons, List.map_cons, List.intercalate_cons_cons] at hnil
    simp at hnil

theorem canonicalUri_canonicalUri (path : String) : canonicalUri (canonicalUri path) = canonicalUri path := by
  by_cases h : path = "" ∨ path = "/"
  · rw [canonicalUri.eq_def path, if_pos (by rwa [String.isEmpty_iff])]
    rfl
  obtain ⟨h0, h1⟩ := not_or.1 h
  by_cases hslash : canonicalUri path = "/"
  · rw [hslash]
    rfl
  have hsplit : (canonicalUri path).toList.splitOn '/' = (path.toList.splitOn '/').map encodeSegment := by
    rw [canonicalUri_of_ne h0 h1, String.toList_ofList]
    refine List.splitOn_intercalate '/' ?_ (List.map_eq_nil_iff.not.2 (List.splitOn_ne_nil _ _))
    intro l hl
    obtain ⟨segment, -, rfl⟩ := List.mem_map.1 hl
    exact slash_notMem _
  have hsame : (encodeSegment ∘ encodeSegment) = encodeSegment := funext encodeSegment_encodeSegment
  rw [canonicalUri_of_ne (canonicalUri_ne_empty path) hslash, hsplit, List.map_map, hsame, ← canonicalUri_of_ne h0 h1]

theorem pairLe_iff {p q : String × String} :
    pairLe p q = true ↔ toLex (utf8 p.1, utf8 p.2) ≤ toLex (utf8 q.1, utf8 q.2) := by
  have hinj : p.1 = q.1 ↔ utf8 p.1 = utf8 q.1 := ⟨congrArg utf8, fun h => utf8_inj h⟩
  rw [Prod.Lex.toLex_le_toLex, pairLe, Bool.or_eq_true, Bool.and_eq_true, decide_eq_true_eq, decide_eq_true_eq, decide_eq_true_eq, hinj]

theorem pairwise_canonicalPairs (query : String) : (canonicalPairs query).Pairwise fun p q => pairLe p q = true := by
  refine List.pairwise_mergeSort (fun p q r hpq hqr => ?_) (fun p q => ?_) _
  · exact pairLe_iff.2 ((pairLe_iff.1 hpq).trans (pairLe_iff.1 hqr))
  · rw [Bool.or_eq_true, pairLe_iff, pairLe_iff]
    exact le_total _ _

theorem splitOnce_append {sep : Char} {l : List Char} (h : sep ∉ l) (rest : List Char) :
    RangedGet.splitOnce sep (l ++ sep :: rest) = some (l, rest) := by
  induction l with
  | nil => simp [RangedGet.splitOnce]
  | cons c l ih =>
    have hne : c ≠ sep := fun hc => h (hc ▸ List.mem_cons_self)
    rw [List.cons_append, RangedGet.splitOnce, if_neg hne, ih fun hl => h (List.mem_cons_of_mem c hl)]
    rfl

theorem exists_encoded (pair : List Char) : ∃ k v, encodePair pair = (percentEncode k, percentEncode v) :=
  ⟨_, _, rfl⟩

theorem encodePair_joinPair (k v : String) :
    encodePair (joinPair (percentEncode k, percentEncode v)) = (percentEncode k, percentEncode v) := by
  rw [encodePair, joinPair, splitOnce_append (eq_notMem k)]
  simp only [Option.getD_some, String.ofList_toList, percentDecode_percentEncode]

/-- what the canonical pairs are -/
theorem mem_canonicalPairs {query : String} {p : String × String} (h : p ∈ canonicalPairs query) :
    (∃ k v, p = (percentEncode k, percentEncode v)) ∧ p.1 ≠ "X-Amz-Signature" := by
  rw [canonicalPairs, List.mem_mergeSort, List.mem_filter, List.mem_map] at h
  obtain ⟨⟨pair, -, rfl⟩, hne⟩ := h
  exact ⟨exists_encoded pair, of_decide_eq_true hne⟩

theorem splitOn_canonicalQueryString (query : String) :
    ((canonicalQueryString query).toList.splitOn '&').filter (· ≠ []) = (canonicalPairs query).map joinPair := by
  rw [canonicalQueryString, String.toList_ofList]
  rcases eq_or_ne (canonicalPairs query) [] with h0 | h0
  · rw [h0]
    rfl
  rw [List.splitOn_intercalate '&' ?_ (List.map_eq_nil_iff.not.2 h0), List.filter_eq_self]
  · intro l hl
    obtain ⟨p, -, rfl⟩ := List.mem_map.1 hl
    exact decide_eq_true (List.append_ne_nil_of_right_ne_nil _ (List.cons_ne_nil _ _))
  · intro l hl
    obtain ⟨p, hp, rfl⟩ := List.mem_map.1 hl
    obtain ⟨⟨k, v, rfl⟩, -⟩ := mem_canonicalPairs hp
    intro hmem
    rcases List.mem_append.1 hmem with hmem | hmem
    · exact amp_notMem k hmem
    rcases List.mem_cons.1 hmem with hmem | hmem
    · cases hmem
    · exact amp_notMem v hmem

theorem canonicalPairs_canonicalQueryString (query : String) :
    canonicalPairs (canonicalQueryString query) = canonicalPairs query := by
  have hmap : ((canonicalPairs query).map joinPair).map encodePair = canonicalPairs query := by
    rw [List.map_map]
    refine (List.map_congr_left fun p hp => ?_).trans (List.map_id _)
    obtain ⟨⟨k, v, rfl⟩, -⟩ := mem_canonicalPairs hp
    exact encodePair_joinPair k v
  have hfilter : (canonicalPairs query).filter (fun p => p.1 ≠ "X-Amz-Signature") = canonicalPairs query :=
    List.filter_eq_self.2 fun p hp => decide_eq_true (mem_canonicalPairs hp).2
  rw [canonicalPairs.eq_def (canonicalQueryString query), splitOn_canonicalQueryString, hmap, hfilter]
  exact List.mergeSort_of_pairwise (pairwise_canonicalPairs query)

theorem canonicalQueryString_canonicalQueryString (query : String) :
    canonicalQueryString (canonicalQueryString query) = canonicalQueryString query := by
  rw [canonicalQueryString.eq_def (canonicalQueryString query), canonicalPairs_canonicalQueryString]
  rfl

theorem percent_coding (s : String) : (percentDecode (percentEncode s) = s ∧ percentDecode (percentEncodePath s) = s) ∧
    canonicalUri (canonicalUri s) = canonicalUri s ∧
    canonicalQueryString (canonicalQueryString s) = canonicalQueryString s ∧
    (ReplacesTriplets s ↔ ¬PlusEscape (utf8 s)) :=
  ⟨⟨percentDecode_percentEncode s, percentDecode_percentEncodePath s⟩, canonicalUri_canonicalUri s,
    canonicalQueryString_canonicalQueryString s, replacesTriplets_iff s⟩

theorem plusEscape_decoded : percentDecode "%+f" = "\x0f" ∧ ¬ReplacesTriplets "%+f" := by
  have hin : utf8 "%+f" = [37, 43, 102] := utf8_ofList ['%', '+', 'f']
  have hout : utf8 "\x0f" = [15] := utf8_ofList ['\x0f']
  constructor
  · rw [percentDecode, hin, percentBytes_plus (show Meta.hexDigit 102 = some 15 by decide) [], percentBytes]
    exact (congrArg fromUtf8Lossy hout.symm).trans (fromUtf8Lossy_utf8 _)
  · exact fun h => (replacesTriplets_iff "%+f").1 h ⟨[], 102, [], hin, by decide⟩

end Y2q.PercentCoding
