/-
Standard base64 with padding: three bytes are four characters, and the last one or two bytes are padded with `=`.
Decoding is strict: no other characters, no missing padding, no stray bits in the last character.

- `decode_encode`: every byte string is read back from its encoding; hence `encode_injective`.
- `decodeUrl_encodeUrl`: the same for the alphabet of URLs, without padding.
-/
import Mathlib.Tactic
import Y2q.Core.Bytes

namespace Y2q.Base64

def alphabet : List Char := "ABCDEFGHIJKLMNOPQRSTUVWXYZabcdefghijklmnopqrstuvwxyz0123456789+/".toList

def toChar (n : ℕ) : Char := alphabet.getD n '='

def ofChar (c : Char) : Option ℕ := if alphabet.idxOf c < 64 then some (alphabet.idxOf c) else none

def encodeChars : Bytes → List Char
  | [] => []
  | [a] => [toChar (a.toNat / 4), toChar (a.toNat % 4 * 16), '=', '=']
  | [a, b] => [toChar (a.toNat / 4), toChar (a.toNat % 4 * 16 + b.toNat / 16), toChar (b.toNat % 16 * 4), '=']
  | a :: b :: c :: rest =>
    toChar (a.toNat / 4) :: toChar (a.toNat % 4 * 16 + b.toNat / 16) :: toChar (b.toNat % 16 * 4 + c.toNat / 64) ::
      toChar (c.toNat % 64) :: encodeChars rest

def encode (b : Bytes) : String := String.ofList (encodeChars b)

/-- the last byte, from two characters -/
def decodeOne (w x : Char) : Option Bytes := do
  let w ← ofChar w
  let x ← ofChar x
  if x % 16 = 0 then some [UInt8.ofNat (w * 4 + x / 16)] else none

/-- the last two bytes, from three characters -/
def decodeTwo (w x y : Char) : Option Bytes := do
  let w ← ofChar w
  let x ← ofChar x
  let y ← ofChar y
  if y % 4 = 0 then some [UInt8.ofNat (w * 4 + x / 16), UInt8.ofNat (x % 16 * 16 + y / 4)] else none

def decodeThree (w x y z : Char) : Option Bytes := do
  let w ← ofChar w
  let x ← ofChar x
  let y ← ofChar y
  let z ← ofChar z
  some [UInt8.ofNat (w * 4 + x / 16), UInt8.ofNat (x % 16 * 16 + y / 4), UInt8.ofNat (y % 4 * 64 + z)]

def decodeChars : List Char → Option Bytes
  | [] => some []
  | w :: x :: y :: z :: rest =>
    if z = '=' ∧ rest = [] then if y = '=' then decodeOne w x else decodeTwo w x y
    else (decodeThree w x y z).bind fun g => (decodeChars rest).map (g ++ ·)
  | _ => none

def decode (s : String) : Option Bytes := decodeChars s.toList

/-- the same without padding -/
def decodeNoPad (s : String) : Option Bytes :=
  if '=' ∈ s.toList then none
  else decodeChars (s.toList ++ List.replicate ((4 - s.toList.length % 4) % 4) '=')

/-- the two characters that differ in the alphabet of URLs -/
def toUrl (c : Char) : Char := if c = '+' then '-' else if c = '/' then '_' else c

def ofUrl (c : Char) : Char := if c = '-' then '+' else if c = '_' then '/' else c

/-- `URL_SAFE_NO_PAD` -/
def encodeUrl (b : Bytes) : String := String.ofList (((encodeChars b).filter (· ≠ '=')).map toUrl)

def decodeUrl (s : String) : Option Bytes :=
  if '+' ∈ s.toList ∨ '/' ∈ s.toList then none else decodeNoPad (String.ofList (s.toList.map ofUrl))

/-! ## Round trip -/

theorem ofChar_toChar {n : ℕ} (h : n < 64) : ofChar (toChar n) = some n := by
  have hall : ∀ i : Fin 64, ofChar (toChar i) = some (i : ℕ) := by decide +kernel
  exact hall ⟨n, h⟩

theorem toChar_ne_pad {n : ℕ} (h : n < 64) : toChar n ≠ '=' := by
  have hall : ∀ i : Fin 64, toChar i ≠ '=' := by decide +kernel
  exact hall ⟨n, h⟩

theorem ofNat_eq {a : UInt8} {n : ℕ} (h : n = a.toNat) : UInt8.ofNat n = a := by
  rw [h, UInt8.ofNat_toNat]

theorem decodeOne_encode (a : UInt8) : decodeOne (toChar (a.toNat / 4)) (toChar (a.toNat % 4 * 16)) = some [a] := by
  have ha := a.toNat_lt
  have h : UInt8.ofNat (a.toNat / 4 * 4 + a.toNat % 4 * 16 / 16) = a := ofNat_eq (by omega)
  unfold decodeOne
  rw [ofChar_toChar (by omega), ofChar_toChar (by omega)]
  simp only [Option.bind_eq_bind, Option.bind_some, h]
  rw [if_pos (by omega)]

theorem decodeTwo_encode (a b : UInt8) : decodeTwo (toChar (a.toNat / 4)) (toChar (a.toNat % 4 * 16 + b.toNat / 16))
    (toChar (b.toNat % 16 * 4)) = some [a, b] := by
  have ha := a.toNat_lt
  have hb := b.toNat_lt
  have h1 : UInt8.ofNat (a.toNat / 4 * 4 + (a.toNat % 4 * 16 + b.toNat / 16) / 16) = a := ofNat_eq (by omega)
  have h2 : UInt8.ofNat ((a.toNat % 4 * 16 + b.toNat / 16) % 16 * 16 + b.toNat % 16 * 4 / 4) = b := ofNat_eq (by omega)
  unfold decodeTwo
  rw [ofChar_toChar (by omega), ofChar_toChar (by omega), ofChar_toChar (by omega)]
  simp only [Option.bind_eq_bind, Option.bind_some, h1, h2]
  rw [if_pos (by omega)]

theorem decodeThree_encode (a b c : UInt8) : decodeThree (toChar (a.toNat / 4)) (toChar (a.toNat % 4 * 16 + b.toNat / 16))
    (toChar (b.toNat % 16 * 4 + c.toNat / 64)) (toChar (c.toNat % 64)) = some [a, b, c] := by
  have ha := a.toNat_lt
  have hb := b.toNat_lt
  have hc := c.toNat_lt
  have h1 : UInt8.ofNat (a.toNat / 4 * 4 + (a.toNat % 4 * 16 + b.toNat / 16) / 16) = a := ofNat_eq (by omega)
  have h2 : UInt8.ofNat ((a.toNat % 4 * 16 + b.toNat / 16) % 16 * 16 + (b.toNat % 16 * 4 + c.toNat / 64) / 4) = b :=
    ofNat_eq (by omega)
  have h3 : UInt8.ofNat ((b.toNat % 16 * 4 + c.toNat / 64) % 4 * 64 + c.toNat % 64) = c := ofNat_eq (by omega)
  unfold decodeThree
  rw [ofChar_toChar (by omega), ofChar_toChar (by omega), ofChar_toChar (by omega), ofChar_toChar (by omega)]
  simp only [Option.bind_eq_bind, Option.bind_some, h1, h2, h3]

theorem decodeChars_encodeChars (b : Bytes) : decodeChars (encodeChars b) = some b := by
  induction b using encodeChars.induct with
  | case1 => rfl
  | case2 a =>
    simp only [encodeChars, decodeChars, and_self, if_true]
    exact decodeOne_encode a
  | case3 a b =>
    have hb := b.toNat_lt
    simp only [encodeChars, decodeChars, and_self, if_true, if_neg (toChar_ne_pad (show b.toNat % 16 * 4 < 64 by omega))]
    exact decodeTwo_encode a b
  | case4 a b c rest ih =>
    have hc : ¬ (toChar (c.toNat % 64) = '=' ∧ encodeChars rest = []) :=
      fun h => toChar_ne_pad (Nat.mod_lt _ (by norm_num)) h.1
    simp only [encodeChars, decodeChars, if_neg hc, decodeThree_encode, Option.bind_some, ih, Option.map_some,
      List.cons_append, List.nil_append]

@[simp] theorem decode_encode (b : Bytes) : decode (encode b) = some b := by
  rw [decode, encode, String.toList_ofList, decodeChars_encodeChars]

theorem encode_injective : Function.Injective encode := by
  intro a b h
  have := congrArg decode h
  rw [decode_encode, decode_encode] at this
  exact Option.some.inj this

/-- the padding that an encoding lacks follows from its length -/
theorem pad_encodeChars (b : Bytes) :
    let l := (encodeChars b).filter (· ≠ '=')
    l ++ List.replicate ((4 - l.length % 4) % 4) '=' = encodeChars b := by
  induction b using encodeChars.induct with
  | case1 => rfl
  | case2 a =>
    have ha := a.toNat_lt
    have h1 := toChar_ne_pad (show a.toNat / 4 < 64 by omega)
    have h2 := toChar_ne_pad (show a.toNat % 4 * 16 < 64 by omega)
    simp [encodeChars, h1, h2, List.replicate_succ]
  | case3 a b =>
    have ha := a.toNat_lt
    have hb := b.toNat_lt
    have h1 := toChar_ne_pad (show a.toNat / 4 < 64 by omega)
    have h2 := toChar_ne_pad (show a.toNat % 4 * 16 + b.toNat / 16 < 64 by omega)
    have h3 := toChar_ne_pad (show b.toNat % 16 * 4 < 64 by omega)
    simp [encodeChars, h1, h2, h3, List.replicate_succ]
  | case4 a b c rest ih =>
    have ha := a.toNat_lt
    have hb := b.toNat_lt
    have hc := c.toNat_lt
    have h1 := toChar_ne_pad (show a.toNat / 4 < 64 by omega)
    have h2 := toChar_ne_pad (show a.toNat % 4 * 16 + b.toNat / 16 < 64 by omega)
    have h3 := toChar_ne_pad (show b.toNat % 16 * 4 + c.toNat / 64 < 64 by omega)
    have h4 := toChar_ne_pad (show c.toNat % 64 < 64 by omega)
    have hmod : ∀ n, (n + 1 + 1 + 1 + 1) % 4 = n % 4 := fun n => Nat.add_mod_right n 4
    simpa [encodeChars, h1, h2, h3, h4, hmod] using ih

theorem mem_alphabet {b : Bytes} {c : Char} (hc : c ∈ encodeChars b) (hpad : c ≠ '=') : c ∈ alphabet := by
  have hmem : ∀ n, toChar n ≠ '=' → toChar n ∈ alphabet := by
    intro n hn
    rw [toChar, List.getD_eq_getElem?_getD] at hn ⊢
    cases hget : alphabet[n]? with
    | none =>
      rw [hget] at hn
      exact absurd rfl hn
    | some c => exact List.mem_of_getElem? hget
  induction b using encodeChars.induct with
  | case1 => cases hc
  | case2 a =>
    simp only [encodeChars, List.mem_cons, List.not_mem_nil, or_false] at hc
    rcases hc with rfl | rfl | rfl | rfl <;> first | exact hmem _ hpad | exact absurd rfl hpad
  | case3 a b =>
    simp only [encodeChars, List.mem_cons, List.not_mem_nil, or_false] at hc
    rcases hc with rfl | rfl | rfl | rfl <;> first | exact hmem _ hpad | exact absurd rfl hpad
  | case4 a b c rest ih =>
    simp only [encodeChars, List.mem_cons] at hc
    rcases hc with rfl | rfl | rfl | rfl | hc <;> first | exact hmem _ hpad | exact ih hc

theorem ofUrl_toUrl {c : Char} (hc : c ∈ alphabet) : ofUrl (toUrl c) = c ∧ toUrl c ≠ '+' ∧ toUrl c ≠ '/' := by
  have hdash : c ≠ '-' := by
    rintro rfl
    exact absurd hc (by decide +kernel)
  have hline : c ≠ '_' := by
    rintro rfl
    exact absurd hc (by decide +kernel)
  by_cases hplus : c = '+'
  · subst hplus
    decide
  by_cases hslash : c = '/'
  · subst hslash
    decide
  · simp [toUrl, ofUrl, hplus, hslash, hdash, hline]

@[simp] theorem decodeUrl_encodeUrl (b : Bytes) : decodeUrl (encodeUrl b) = some b := by
  set l := (encodeChars b).filter (· ≠ '=') with hl
  have hmem : ∀ c ∈ l, c ∈ alphabet ∧ c ≠ '=' := by
    intro c hc
    obtain ⟨hc, hpad⟩ := List.mem_filter.1 hc
    have hpad : c ≠ '=' := of_decide_eq_true hpad
    exact ⟨mem_alphabet hc hpad, hpad⟩
  have hsafe : ∀ c ∈ l.map toUrl, c ≠ '+' ∧ c ≠ '/' := by
    intro c hc
    obtain ⟨d, hd, rfl⟩ := List.mem_map.1 hc
    exact (ofUrl_toUrl (hmem d hd).1).2
  have hback : (l.map toUrl).map ofUrl = l := by
    rw [List.map_map]
    refine (List.map_congr_left fun c hc => ?_).trans (List.map_id l)
    exact (ofUrl_toUrl (hmem c hc).1).1
  rw [decodeUrl, encodeUrl, String.toList_ofList, if_neg, hback, decodeNoPad, String.toList_ofList, if_neg, pad_encodeChars,
    decodeChars_encodeChars]
  · exact fun h => (hmem _ h).2 rfl
  · rintro (h | h)
    · exact (hsafe _ h).1 rfl
    · exact (hsafe _ h).2 rfl

example : encode [77, 97, 110, 33] = "TWFuIQ==" := by decide +kernel

end Y2q.Base64
