/-
HTTP dates (`s3/httpdate.rs`): `Sun, 06 Nov 1994 08:49:37 GMT`, written and read.

An operation on an `i64` that can leave the range is checked where it stands (`i64`); the others are on numbers below `2 ^ 20`.
A time is its whole seconds since 1970, and adding it to `UNIX_EPOCH` is checked too.

- `civilFromDays_eq_ok`, `daysFromCivil_eq_ok`: what the two conversions compute, and the exact ranges in which they do not
  overflow.
- `parseHttpDate_httpDate`: a date as it is written is read as the same second.
- `http_dates`: all of it together. `parse_http_date` overflows on the years that no `i64` of days reaches (less the 719468 days
  that it counts from an earlier day), and on no other header.
-/
import Mathlib.Tactic
import Y2q.Core.Calendar
import Y2q.S3.ChunkedBody
import Y2q.S3.Meta

namespace Y2q.HttpDate

open Calendar
open ChunkedBody (isWhitespace)
open Meta (bind_eq_ok)

/-! ## Days and dates -/

inductive Fault where
  /-- an operation on an `i64` -/
  | overflow
  /-- `UNIX_EPOCH + Duration` -/
  | timeOutOfRange
  deriving DecidableEq, Repr

/-- the result of an operation on an `i64` -/
def i64 (x : ℤ) : Except Fault ℤ := if -2 ^ 63 ≤ x ∧ x < 2 ^ 63 then .ok x else .error .overflow

/-- the date of day `doe` of an era -/
def civilInEra (era doe : ℤ) : Except Fault (ℤ × ℕ × ℕ) := do
  let yoe := (doe - doe.tdiv 1460 + doe.tdiv 36524 - doe.tdiv 146096).tdiv 365
  let first ← i64 (era * 400)
  let y ← i64 (yoe + first)
  let doy := doe - (365 * yoe + yoe.tdiv 4 - yoe.tdiv 100)
  let mp := (5 * doy + 2).tdiv 153
  let d := (doy - (153 * mp + 2).tdiv 5 + 1).toNat
  let m := (if mp < 10 then mp + 3 else mp - 9).toNat
  let y ← (if m ≤ 2 then i64 (y + 1) else .ok y)
  .ok (y, m, d)

def civilFromDays (z : ℤ) : Except Fault (ℤ × ℕ × ℕ) := do
  let z ← i64 (z + 719468)
  let n ← (if 0 ≤ z then .ok z else i64 (z - 146096))
  let era := n.tdiv 146097
  let start ← i64 (era * 146097)
  let doe ← i64 (z - start)
  civilInEra era doe

def daysFromCivil (y : ℤ) (m d : ℕ) : Except Fault ℤ := do
  let y ← (if m ≤ 2 then i64 (y - 1) else .ok y)
  let n ← (if 0 ≤ y then .ok y else i64 (y - 399))
  let era := n.tdiv 400
  let first ← i64 (era * 400)
  let yoe ← i64 (y - first)
  let mp : ℤ := ((m + 9 : ℕ) : ℤ).tmod 12
  let doy := (153 * mp + 2).tdiv 5 + d - 1
  let doe := yoe * 365 + yoe.tdiv 4 - yoe.tdiv 100 + doy
  let start ← i64 (era * 146097)
  let day ← i64 (start + doe)
  i64 (day - 719468)

/-! ## Writing -/

def WEEKDAYS : List String := ["Sun", "Mon", "Tue", "Wed", "Thu", "Fri", "Sat"]

def MONTHS : List String := ["", "Jan", "Feb", "Mar", "Apr", "May", "Jun", "Jul", "Aug", "Sep", "Oct", "Nov", "Dec"]

/-- `{n:02}` -/
def twoDigits (n : ℕ) : String := if n < 10 then "0" ++ toString n else toString n

def imfFixdate (weekday : ℕ) (y : ℤ) (m d hour minute second : ℕ) : String :=
  WEEKDAYS.getD weekday "" ++ ", " ++ twoDigits d ++ " " ++ MONTHS.getD m "" ++ " " ++ toString y ++ " " ++
    twoDigits hour ++ ":" ++ twoDigits minute ++ ":" ++ twoDigits second ++ " GMT"

def httpDate (unixSecs : ℕ) : Except Fault String := do
  let days : ℤ := (unixSecs / 86400 : ℕ)
  let secsOfDay := unixSecs % 86400
  let hour := secsOfDay / 3600
  let minute := secsOfDay % 3600 / 60
  let second := secsOfDay % 60
  let (y, m, d) ← civilFromDays days
  let weekday := ((days.tmod 7 + 7) + 4).tmod 7
  .ok (imfFixdate weekday.toNat y m d hour minute second)

/-! ## Reading -/

/-- `str::split_whitespace` -/
def splitWhitespace (s : List Char) : List (List Char) := (s.splitOnP isWhitespace).filter (· ≠ [])

/-- decimal digits, at least one -/
def parseDigits (s : List Char) : Option ℕ := if s ≠ [] ∧ s.all Char.isDigit then some (Nat.ofDigitChars 10 s 0) else none

/-- `str::parse::<u32>`: a plus sign may stand in front -/
def parseU32 (s : List Char) : Option ℕ :=
  (match s with
    | '+' :: cs => parseDigits cs
    | cs => parseDigits cs).filter (· < 2 ^ 32)

/-- `str::parse::<i64>`: a sign may stand in front -/
def parseI64 (s : List Char) : Option ℤ :=
  (match s with
    | '+' :: cs => (parseDigits cs).map Int.ofNat
    | '-' :: cs => (parseDigits cs).map fun n => -(n : ℤ)
    | cs => (parseDigits cs).map Int.ofNat).filter fun x => -2 ^ 63 ≤ x ∧ x < 2 ^ 63

structure Fields where
  day : ℕ
  month : ℕ
  year : ℤ
  hour : ℤ
  minute : ℤ
  second : ℤ
  deriving DecidableEq, Repr

/-- `parse_http_date` up to the conversion -/
def fields (s : String) : Option Fields := do
  let [_, part1, part2, part3, part4, part5] := splitWhitespace s.toList | none
  let day ← parseU32 part1
  let month ← MONTHS.findIdx? fun m => m.toList = part2
  let year ← parseI64 part3
  let [hour, minute, second] := part4.splitOn ':' | none
  let hour ← parseI64 hour
  let minute ← parseI64 minute
  let second ← parseI64 second
  if part5 ≠ "GMT".toList then none
  else if ¬(1 ≤ day ∧ day ≤ 31) ∨ ¬(0 ≤ hour ∧ hour < 24) ∨ ¬(0 ≤ minute ∧ minute < 60) ∨ ¬(0 ≤ second ∧ second < 60) then
    none
  else some ⟨day, month, year, hour, minute, second⟩

/-- `checked_mul`, `checked_add` -/
def checked (x : ℤ) : Option ℤ := if -2 ^ 63 ≤ x ∧ x < 2 ^ 63 then some x else none

/-- `UNIX_EPOCH + Duration::from_secs`, on a system whose times are an `i64` of seconds -/
def epochPlus (secs : ℕ) : Except Fault ℕ := if secs < 2 ^ 63 then .ok secs else .error .timeOutOfRange

/-- `parse_http_date` after the conversion -/
def instant (f : Fields) (days : ℤ) : Except Fault (Option ℕ) :=
  match (checked (days * 86400)).bind fun x => checked (x + (f.hour * 3600 + f.minute * 60 + f.second)) with
  | none => .ok none
  | some secs => if secs < 0 then .ok none else (epochPlus secs.toNat).map some

def parseHttpDate (s : String) : Except Fault (Option ℕ) :=
  match fields s with
  | none => .ok none
  | some f => do
    let days ← daysFromCivil f.year f.month f.day
    instant f days

/-! ## The conversions -/

theorem i64_eq_ok {x r : ℤ} : i64 x = .ok r ↔ r = x ∧ -2 ^ 63 ≤ x ∧ x < 2 ^ 63 := by
  rw [i64]
  split_ifs with h
  · constructor
    · rintro ⟨⟩
      exact ⟨rfl, h⟩
    · rintro ⟨rfl, -⟩
      rfl
  · exact ⟨nofun, fun hr => absurd hr.2 h⟩

theorem i64_bind_eq_ok {α : Type} {x : ℤ} {f : ℤ → Except Fault α} {r : α} :
    (i64 x >>= f) = .ok r ↔ (-2 ^ 63 ≤ x ∧ x < 2 ^ 63) ∧ f x = .ok r := by
  simp only [bind_eq_ok, i64_eq_ok, and_assoc, exists_eq_left]

/-- shifting the negative numbers first, truncating division rounds down -/
theorem shifted_tdiv (z : ℤ) {k : ℤ} (hk : 0 < k) : (if 0 ≤ z then z else z - (k - 1)).tdiv k = z / k := by
  split_ifs with h
  · exact Int.tdiv_eq_ediv_of_nonneg h
  · have hneg : z - (k - 1) = -(k - 1 - z) := by ring
    have hquot : (k - 1 - z) / k = -(z / k) := by
      refine ((Int.ediv_emod_unique (r := k - 1 - z % k) hk).2 ⟨?_, ?_, ?_⟩).1
      · linarith [Int.emod_add_mul_ediv z k]
      · linarith [Int.emod_lt_of_pos z hk]
      · linarith [Int.emod_nonneg z hk.ne']
    rw [hneg, Int.neg_tdiv, Int.tdiv_eq_ediv_of_nonneg (by omega), hquot, neg_neg]

theorem shifted_eq_ok {z k r : ℤ} : (if 0 ≤ z then Except.ok z else i64 (z - k)) = .ok r ↔
    r = (if 0 ≤ z then z else z - k) ∧ (0 ≤ z ∨ -2 ^ 63 ≤ z - k ∧ z - k < 2 ^ 63) := by
  split_ifs with h
  · exact ⟨fun hr => ⟨(Except.ok.inj hr).symm, .inl h⟩, fun hr => congrArg Except.ok hr.1.symm⟩
  · simp only [i64_eq_ok, h, false_or]

theorem daysFromCivil_eq_ok {y : ℤ} {m d : ℕ} {r : ℤ} (hy : -2 ^ 63 ≤ y ∧ y < 2 ^ 63) (h1 : 1 ≤ m) (h12 : m ≤ 12)
    (hd : 1 ≤ d) (h31 : d ≤ 31) :
    daysFromCivil y m d = .ok r ↔ r = dayNumber y m d ∧ -2 ^ 63 ≤ dayNumber y m d ∧ dayNumber y m d + 719468 < 2 ^ 63 := by
  have hmarch : ∀ w : ℤ, (if m ≤ 2 then i64 (y - 1) else .ok y) = .ok w ↔
      w = marchYear y m ∧ -2 ^ 63 ≤ marchYear y m ∧ marchYear y m < 2 ^ 63 := by
    intro w
    rw [marchYear]
    split_ifs with hm
    · exact i64_eq_ok
    · exact ⟨fun h => ⟨(Except.ok.inj h).symm, hy⟩, fun h => congrArg Except.ok h.1.symm⟩
  have hday := dayNumber_march (y := y) (d := d) h1 h12
  have h400 : (399 : ℤ) = 400 - 1 := rfl
  have hmp : ((m + 9 : ℕ) : ℤ).tmod 12 = (((m + 9) % 12 : ℕ) : ℤ) := by
    rw [Int.tmod_eq_emod_of_nonneg (Int.natCast_nonneg _), Int.natCast_emod]
    rfl
  simp only [daysFromCivil, bind_eq_ok, hmarch, and_assoc, exists_eq_left, shifted_eq_ok, i64_eq_ok, hmp]
  rw [h400, shifted_tdiv _ (by norm_num)]
  have hmp12 : (m + 9) % 12 < 12 := Nat.mod_lt _ (by norm_num)
  generalize marchYear y m = w at hday ⊢
  generalize (m + 9) % 12 = mp at hday hmp12 ⊢
  -- the year as an era and a year of it
  obtain ⟨era, yoe, h0, h399, rfl⟩ : ∃ era yoe : ℤ, 0 ≤ yoe ∧ yoe ≤ 399 ∧ w = 400 * era + yoe :=
    ⟨w / 400, w % 400, by omega, by omega, by omega⟩
  have hera : (400 * era + yoe) / 400 = era := by omega
  have h4 : (400 * era + yoe) / 4 = 100 * era + yoe / 4 := by omega
  have h100 : (400 * era + yoe) / 100 = 4 * era + yoe / 100 := by omega
  have hyoe : 400 * era + yoe - era * 400 = yoe := by ring
  rw [hera, h4, h100] at hday
  rw [hera, hyoe, Int.tdiv_eq_ediv_of_nonneg h0, Int.tdiv_eq_ediv_of_nonneg h0, Int.tdiv_eq_ediv_of_nonneg (by omega)]
  push_cast at hday
  omega

theorem i64_ok {x : ℤ} (h : -2 ^ 63 ≤ x ∧ x < 2 ^ 63) : i64 x = .ok x := if_pos h

theorem natCast_tdiv (n : ℕ) {k : ℤ} : (n : ℤ).tdiv k = n / k := Int.tdiv_eq_ediv_of_nonneg (Int.natCast_nonneg n)

theorem civilInEra_eq {era : ℤ} {doe : ℕ} (hera : -2 ^ 62 ≤ 400 * era ∧ 400 * era < 2 ^ 62) (hdoe : doe < 146097) :
    civilInEra era doe = .ok (civil (146097 * era + doe - 719468)) := by
  obtain ⟨c, q, j, doy, hc, hq, hj, hd, hlast, hsum⟩ := era_split hdoe
  have hyear := yearOfEra_eq hc hq hj hd hlast
  have hyoe : ((doe : ℤ) - (doe : ℤ).tdiv 1460 + (doe : ℤ).tdiv 36524 - (doe : ℤ).tdiv 146096).tdiv 365 =
      (100 * c + 4 * q + j : ℕ) := by
    rw [← hyear, ← hsum, yearOfEra, natCast_tdiv, natCast_tdiv, natCast_tdiv, Int.tdiv_eq_ediv_of_nonneg (by omega)]
    omega
  have hdoy : (doe : ℤ) -
      (365 * (100 * c + 4 * q + j : ℕ) + (100 * c + 4 * q + j : ℕ) / 4 - (100 * c + 4 * q + j : ℕ) / 100) = doy := by
    have h4 : ((100 * c + 4 * q + j : ℕ) : ℤ) / 4 = 25 * c + q := by omega
    have h100 : ((100 * c + 4 * q + j : ℕ) : ℤ) / 100 = c := by omega
    rw [h4, h100, hsum]
    push_cast
    ring
  have hmp : (5 * (doy : ℤ) + 2).tdiv 153 = ((5 * doy + 2) / 153 : ℕ) := by
    rw [Int.tdiv_eq_ediv_of_nonneg (by omega)]
    omega
  rw [hsum, civil_eq hc hq hj hd hlast, ← hsum, civilInEra]
  simp only [hyoe]
  simp only [natCast_tdiv, hdoy]
  simp only [hmp]
  have hmp11 : (5 * doy + 2) / 153 ≤ 11 := by omega
  have hday : (153 * ((5 * doy + 2) / 153) + 2) / 5 ≤ doy := (march_day (y := 2000) rfl hd fun _ => by decide).2
  generalize (5 * doy + 2) / 153 = mp at *
  have hm : (if (mp : ℤ) < 10 then (mp : ℤ) + 3 else (mp : ℤ) - 9).toNat = if mp < 10 then mp + 3 else mp - 9 := by
    split_ifs <;> omega
  have hd' : ((doy : ℤ) - (153 * (mp : ℤ) + 2).tdiv 5 + 1).toNat = doy - (153 * mp + 2) / 5 + 1 := by
    rw [Int.tdiv_eq_ediv_of_nonneg (by omega)]
    omega
  rw [hm, hd', i64_ok (by omega)]
  generalize (if mp < 10 then mp + 3 else mp - 9) = m
  generalize hN : 100 * c + 4 * q + j = N
  change (i64 (N + era * 400) >>= _) = _
  rw [i64_ok (by omega)]
  change ((if m ≤ 2 then i64 (N + era * 400 + 1) else _) >>= _) = _
  split_ifs with h2
  · rw [i64_ok (by omega)]
    rfl
  · rfl

theorem civilFromDays_eq_ok {z : ℤ} {r : ℤ × ℕ × ℕ} (hz : -2 ^ 63 ≤ z) :
    civilFromDays z = .ok r ↔ r = civil z ∧ z + 719468 < 2 ^ 63 := by
  have h146096 : (146096 : ℤ) = 146097 - 1 := rfl
  obtain ⟨era, doe, hdoe, rfl⟩ : ∃ (era : ℤ) (doe : ℕ), doe < 146097 ∧ z = 146097 * era + doe - 719468 :=
    ⟨(z + 719468) / 146097, ((z + 719468) % 146097).toNat, by omega, by omega⟩
  have hz' : 146097 * era + (doe : ℤ) - 719468 + 719468 = 146097 * era + doe := by ring
  have hera : (146097 * era + (doe : ℤ)) / 146097 = era := by omega
  have hrest : 146097 * era + (doe : ℤ) - era * 146097 = doe := by ring
  simp only [civilFromDays, bind_eq_ok, and_assoc, exists_eq_left, shifted_eq_ok, i64_eq_ok, hz']
  rw [h146096, shifted_tdiv _ (by norm_num), hera, hrest]
  constructor
  · rintro ⟨hlow, hhigh, -, -, -, -, -, hr⟩
    rw [civilInEra_eq (by omega) hdoe] at hr
    exact ⟨(Except.ok.inj hr).symm, hhigh⟩
  · rintro ⟨rfl, hhigh⟩
    rw [civilInEra_eq (by omega) hdoe]
    exact ⟨by omega, hhigh, by omega, by omega, by omega, by omega, by omega, rfl⟩

/-! ## Numbers as text -/

/-- digits are never blanks, signs or colons -/
theorem isDigit_cases {c : Char} (h : c.isDigit = true) : isWhitespace c = false ∧ c ≠ ':' ∧ c ≠ '+' ∧ c ≠ '-' := by
  simp only [Char.isDigit, Bool.and_eq_true, decide_eq_true_eq, UInt32.le_iff_toNat_le, ge_iff_le] at h
  have h0 : 48 ≤ c.toNat := h.1
  have h9 : c.toNat ≤ 57 := h.2
  clear h
  refine ⟨?_, ?_, ?_, ?_⟩
  · simp only [isWhitespace, Bool.or_eq_false_iff, Bool.and_eq_false_iff, decide_eq_false_iff_not, List.mem_cons, List.not_mem_nil,
      or_false, not_or]
    omega
  all_goals
    rintro rfl
    revert h0 h9
    decide

theorem parseDigits_eq_some {s : List Char} {n : ℕ} (h : parseDigits s = some n) : s ≠ [] ∧ ∀ c ∈ s, c.isDigit = true := by
  rw [parseDigits] at h
  split_ifs at h with hs
  exact ⟨hs.1, List.all_eq_true.1 hs.2⟩

theorem parseDigits_toString (n : ℕ) : parseDigits (toString n).toList = some n := by
  rw [Nat.toString_eq_repr, Nat.toList_repr, parseDigits, if_pos, Nat.ofDigitChars_ten_toDigits]
  exact ⟨Nat.toDigits_ne_nil, List.all_eq_true.2 fun c hc => Nat.isDigit_of_mem_toDigits (by decide) le_rfl hc⟩

theorem parseDigits_twoDigits (n : ℕ) : parseDigits (twoDigits n).toList = some n := by
  rw [twoDigits]
  split_ifs with h
  · rw [String.toList_append]
    interval_cases n <;> rfl
  · exact parseDigits_toString n

theorem parseU32_of_digits {s : List Char} {n : ℕ} (h : parseDigits s = some n) (hn : n < 2 ^ 32) : parseU32 s = some n := by
  have hdigits := (parseDigits_eq_some h).2
  rw [parseU32]
  · rw [h, Option.filter_some, if_pos (by simpa using hn)]
  · rintro cs rfl
    exact absurd rfl (isDigit_cases (hdigits '+' List.mem_cons_self)).2.2.1

theorem parseI64_of_digits {s : List Char} {n : ℕ} (h : parseDigits s = some n) (hn : n < 2 ^ 63) : parseI64 s = some (n : ℤ) := by
  have hdigits := (parseDigits_eq_some h).2
  rw [parseI64]
  · rw [h, Option.map_some, Option.filter_some, if_pos]
    · rfl
    · simp only [Int.ofNat_eq_natCast, decide_eq_true_eq]
      omega
  · rintro cs rfl
    exact absurd rfl (isDigit_cases (hdigits '+' List.mem_cons_self)).2.2.1
  · rintro cs rfl
    exact absurd rfl (isDigit_cases (hdigits '-' List.mem_cons_self)).2.2.2

/-! ## Words -/

theorem noBlank_iff {w : List Char} : w.any isWhitespace = false ↔ ∀ c ∈ w, isWhitespace c = false := by
  simp only [List.any_eq_false, Bool.not_eq_true]

theorem splitWhitespace_cons {w : List Char} (hne : w ≠ []) (hw : w.any isWhitespace = false) (rest : List Char) :
    splitWhitespace (w ++ ' ' :: rest) = w :: splitWhitespace rest := by
  rw [splitWhitespace, List.splitOnP_append_cons_of_forall_mem (noBlank_iff.1 hw) ' ' rfl, List.filter_cons_of_pos (by simpa using hne)]
  rfl

theorem digits_word {s : List Char} {n : ℕ} (h : parseDigits s = some n) : s ≠ [] ∧ s.any isWhitespace = false :=
  ⟨(parseDigits_eq_some h).1, noBlank_iff.2 fun c hc => (isDigit_cases ((parseDigits_eq_some h).2 c hc)).1⟩

theorem splitOn_colon {a b c : List Char} {x y z : ℕ} (ha : parseDigits a = some x) (hb : parseDigits b = some y)
    (hc : parseDigits c = some z) : (a ++ ':' :: (b ++ ':' :: c)).splitOn ':' = [a, b, c] := by
  have hcolon : ∀ {s : List Char} {n : ℕ}, parseDigits s = some n → ':' ∉ s := fun h hmem =>
    (isDigit_cases ((parseDigits_eq_some h).2 _ hmem)).2.1 rfl
  rw [List.splitOn_append_cons_self_of_not_mem (hcolon ha), List.splitOn_append_cons_self_of_not_mem (hcolon hb),
    List.splitOn_eq_singleton (hcolon hc)]

theorem fields_imfFixdate {weekday m d hour minute second y : ℕ} (hw : weekday < 7) (h1 : 1 ≤ m) (h12 : m ≤ 12) (hd : 1 ≤ d)
    (h31 : d ≤ 31) (hy : y < 2 ^ 63) (hhour : hour < 24) (hminute : minute < 60) (hsecond : second < 60) :
    fields (imfFixdate weekday y m d hour minute second) = some ⟨d, m, y, hour, minute, second⟩ := by
  have htext : (imfFixdate weekday y m d hour minute second).toList =
      ((WEEKDAYS.getD weekday "").toList ++ [',']) ++ ' ' :: ((twoDigits d).toList ++ ' ' :: ((MONTHS.getD m "").toList ++ ' ' ::
        ((toString y).toList ++ ' ' :: (((twoDigits hour).toList ++ ':' :: ((twoDigits minute).toList ++ ':' ::
          (twoDigits second).toList)) ++ ' ' :: "GMT".toList)))) := by
    have hyear : toString (y : ℤ) = toString y := rfl
    rw [imfFixdate, hyear]
    simp
  have hday := parseDigits_twoDigits d
  have hyear := parseDigits_toString y
  have hclock := splitOn_colon (parseDigits_twoDigits hour) (parseDigits_twoDigits minute) (parseDigits_twoDigits second)
  have hweekday : ((WEEKDAYS.getD weekday "").toList ++ [',']).any isWhitespace = false := by interval_cases weekday <;> rfl
  have hmonth : (MONTHS.getD m "").toList ≠ [] ∧ (MONTHS.getD m "").toList.any isWhitespace = false ∧
      (MONTHS.findIdx? fun x => x.toList = (MONTHS.getD m "").toList) = some m := by
    interval_cases m <;> exact ⟨List.cons_ne_nil _ _, rfl, rfl⟩
  have hcolons : ((twoDigits hour).toList ++ ':' :: ((twoDigits minute).toList ++ ':' :: (twoDigits second).toList)).any isWhitespace =
      false := by
    have hcolon : isWhitespace ':' = false := rfl
    simp only [List.any_append, List.any_cons, (digits_word (parseDigits_twoDigits _)).2, hcolon, Bool.or_self]
  have hgmt : splitWhitespace "GMT".toList = ["GMT".toList] := rfl
  rw [fields, htext, splitWhitespace_cons (by simp) hweekday, splitWhitespace_cons (digits_word hday).1 (digits_word hday).2,
    splitWhitespace_cons hmonth.1 hmonth.2.1, splitWhitespace_cons (digits_word hyear).1 (digits_word hyear).2,
    splitWhitespace_cons (by simp) hcolons, hgmt]
  simp only [parseU32_of_digits hday (by omega), hmonth.2.2, parseI64_of_digits hyear hy, hclock,
    parseI64_of_digits (parseDigits_twoDigits _) (show hour < 2 ^ 63 by omega),
    parseI64_of_digits (parseDigits_twoDigits _) (show minute < 2 ^ 63 by omega),
    parseI64_of_digits (parseDigits_twoDigits _) (show second < 2 ^ 63 by omega), Option.bind_eq_bind, Option.bind_some]
  rw [if_neg (not_not.2 rfl), if_neg (by omega)]

/-- what has been checked before the conversion -/
theorem fields_bounds {s : String} {f : Fields} (h : fields s = some f) :
    (1 ≤ f.day ∧ f.day ≤ 31) ∧ (1 ≤ f.month ∧ f.month ≤ 12) ∧ (-2 ^ 63 ≤ f.year ∧ f.year < 2 ^ 63) ∧
      (0 ≤ f.hour ∧ f.hour < 24) ∧ (0 ≤ f.minute ∧ f.minute < 60) ∧ 0 ≤ f.second ∧ f.second < 60 := by
  rw [fields] at h
  split at h
  case h_2 => cases h
  rename_i part0 part1 part2 part3 part4 part5 hparts
  obtain ⟨day, -, h⟩ := Option.bind_eq_some_iff.1 h
  obtain ⟨month, hmonth, h⟩ := Option.bind_eq_some_iff.1 h
  obtain ⟨year, hyear, h⟩ := Option.bind_eq_some_iff.1 h
  split at h
  case h_2 => cases h
  obtain ⟨hour, -, h⟩ := Option.bind_eq_some_iff.1 h
  obtain ⟨minute, -, h⟩ := Option.bind_eq_some_iff.1 h
  obtain ⟨second, -, h⟩ := Option.bind_eq_some_iff.1 h
  split_ifs at h with hgmt hrange
  cases h
  have hne : part2 ≠ [] := by
    have hmem : part2 ∈ splitWhitespace s.toList := by simp [hparts]
    simpa using (List.mem_filter.1 hmem).2
  have hyear' : -2 ^ 63 ≤ year ∧ year < 2 ^ 63 := by simpa using (Option.filter_eq_some_iff.1 hyear).2
  obtain ⟨hlen, hfind, -⟩ := List.findIdx?_eq_some_iff_getElem.1 hmonth
  have hpos : month ≠ 0 := by
    rintro rfl
    refine hne ?_
    simpa [MONTHS] using (of_decide_eq_true hfind).symm
  have hle : month ≤ 12 := Nat.le_of_lt_succ hlen
  simp only
  omega

/-- the day number of a year that an `i64` does not hold, is none either -/
theorem year_fits {y : ℤ} {m d : ℕ} (h : ValidDate y m d) (hz : -2 ^ 63 ≤ dayNumber y m d ∧ dayNumber y m d < 2 ^ 63) :
    -2 ^ 63 ≤ y ∧ y < 2 ^ 63 := by
  have hday := day_lt_year h
  have hpos := h.day_pos
  have h1970 : yearStart 1970 = 719527 := by decide
  rw [dayNumber, h1970, yearStart] at hz
  split_ifs at hday <;> omega

theorem checked_eq_some {x y : ℤ} : checked x = some y ↔ y = x ∧ -2 ^ 63 ≤ x ∧ x < 2 ^ 63 := by
  rw [checked]
  split_ifs with h
  · exact ⟨fun hy => ⟨(Option.some.inj hy).symm, h⟩, fun hy => congrArg some hy.1.symm⟩
  · exact ⟨nofun, fun hy => absurd hy.2 h⟩

theorem instant_isOk (f : Fields) (days : ℤ) : ∃ r, instant f days = .ok r := by
  rw [instant]
  split
  · exact ⟨none, rfl⟩
  · rename_i secs hsecs
    obtain ⟨x, -, hx⟩ := Option.bind_eq_some_iff.1 hsecs
    obtain ⟨rfl, hlow, hhigh⟩ := checked_eq_some.1 hx
    split_ifs with hneg
    · exact ⟨none, rfl⟩
    · rw [epochPlus, if_pos (by omega)]
      exact ⟨_, rfl⟩

theorem instant_eq {f : Fields} {days : ℤ} {t : ℕ} (ht : t < 2 ^ 63) (hdays : 0 ≤ days)
    (hsum : days * 86400 + (f.hour * 3600 + f.minute * 60 + f.second) = t) (hle : days * 86400 ≤ t) : instant f days = .ok (some t) := by
  rw [instant, checked_eq_some.2 ⟨rfl, by omega⟩, Option.bind_some, checked_eq_some.2 ⟨rfl, by omega⟩, hsum]
  simp only [epochPlus, Int.toNat_natCast, if_pos ht]
  exact if_neg (by omega)

theorem parseHttpDate_isOk (s : String) : (∃ r, parseHttpDate s = .ok r) ↔
    ∀ f, fields s = some f → -2 ^ 63 ≤ dayNumber f.year f.month f.day ∧ dayNumber f.year f.month f.day + 719468 < 2 ^ 63 := by
  rw [parseHttpDate]
  cases hf : fields s with
  | none => exact ⟨fun _ => nofun, fun _ => ⟨none, rfl⟩⟩
  | some f =>
    obtain ⟨hd, hm, hy, -⟩ := fields_bounds hf
    constructor
    · rintro ⟨r, hr⟩ _ ⟨⟩
      obtain ⟨days, hdays, -⟩ := bind_eq_ok.1 hr
      exact ((daysFromCivil_eq_ok hy hm.1 hm.2 hd.1 hd.2).1 hdays).2
    · intro h
      obtain ⟨r, hr⟩ := instant_isOk f (dayNumber f.year f.month f.day)
      exact ⟨r, bind_eq_ok.2 ⟨_, (daysFromCivil_eq_ok hy hm.1 hm.2 hd.1 hd.2).2 ⟨rfl, h f rfl⟩, hr⟩⟩

/-! ## Round trip -/

theorem httpDate_eq {t : ℕ} (ht : t < 2 ^ 64) :
    httpDate t = .ok (imfFixdate ((t / 86400 + 4) % 7) (civil (t / 86400 : ℕ)).1 (civil (t / 86400 : ℕ)).2.1
      (civil (t / 86400 : ℕ)).2.2 (t % 86400 / 3600) (t % 86400 % 3600 / 60) (t % 86400 % 60)) := by
  have hcivil := (civilFromDays_eq_ok (z := (t / 86400 : ℕ)) (by omega)).2 ⟨rfl, by omega⟩
  have hweekday : ((((t / 86400 : ℕ) : ℤ).tmod 7 + 7 + 4).tmod 7).toNat = (t / 86400 + 4) % 7 := by
    rw [Int.tmod_eq_emod_of_nonneg (Int.natCast_nonneg _), Int.tmod_eq_emod_of_nonneg (by omega)]
    omega
  rw [httpDate, hcivil]
  exact congrArg (fun w => Except.ok (imfFixdate w _ _ _ _ _ _)) hweekday

theorem civil_year_nonneg (n : ℕ) : 0 ≤ (civil n).1 := by
  obtain ⟨hvalid, hday⟩ := civil_spec n
  by_contra h
  have hyear := day_lt_year hvalid
  have h1970 : yearStart 1970 = 719527 := by decide
  rw [dayNumber, h1970, yearStart] at hday
  split_ifs at hyear <;> omega

theorem day_le_31 {y : ℤ} {m d : ℕ} (h : ValidDate y m d) : d ≤ 31 := by
  refine h.day_le.trans ?_
  rw [monthLength]
  split_ifs <;> omega

theorem daysFromCivil_valid {y : ℤ} {m d : ℕ} {r : ℤ} (h : ValidDate y m d) (hy : -2 ^ 63 ≤ y ∧ y < 2 ^ 63) :
    daysFromCivil y m d = .ok r ↔ r = dayNumber y m d ∧ -2 ^ 63 ≤ dayNumber y m d ∧ dayNumber y m d + 719468 < 2 ^ 63 :=
  daysFromCivil_eq_ok hy h.month_pos h.month_le h.day_pos (day_le_31 h)

theorem parseHttpDate_httpDate {t : ℕ} (ht : t < 2 ^ 63) : ∃ text, httpDate t = .ok text ∧ parseHttpDate text = .ok (some t) := by
  refine ⟨_, httpDate_eq (by omega), ?_⟩
  obtain ⟨hvalid, hday⟩ := civil_spec (t / 86400 : ℕ)
  have hyear := year_fits hvalid (by omega)
  have hdays := (daysFromCivil_valid hvalid hyear).2 ⟨hday.symm, by omega⟩
  have hnonneg := civil_year_nonneg (t / 86400)
  generalize civil (t / 86400 : ℕ) = date at *
  obtain ⟨year, hyear'⟩ := Int.eq_ofNat_of_zero_le hnonneg
  rw [hyear'] at hyear hdays hvalid ⊢
  rw [parseHttpDate, fields_imfFixdate (by omega) hvalid.month_pos hvalid.month_le hvalid.day_pos (day_le_31 hvalid) (by omega)
    (by omega) (by omega) (by omega)]
  refine bind_eq_ok.2 ⟨_, hdays, instant_eq ht (Int.natCast_nonneg _) ?_ (by omega)⟩
  simp only
  omega

/-- the name that goes with a day of the week -/
def weekdayName : Weekday → String
  | .sun => "Sun"
  | .mon => "Mon"
  | .tue => "Tue"
  | .wed => "Wed"
  | .thu => "Thu"
  | .fri => "Fri"
  | .sat => "Sat"

theorem weekday_printed (day : ℕ) : WEEKDAYS.getD ((day + 4) % 7) "" = weekdayName (weekdayOn day) := by
  have hmod : (day + 4) % 7 = (day % 7 + 4) % 7 := by omega
  have hlt : day % 7 < 7 := Nat.mod_lt _ (by norm_num)
  rw [hmod, ← weekdayOn_mod]
  interval_cases day % 7 <;> rfl

/-! ## All dates -/

theorem http_dates (s : String) :
    ((∃ r, parseHttpDate s = .ok r) ↔
      ∀ f, fields s = some f → -2 ^ 63 ≤ dayNumber f.year f.month f.day ∧ dayNumber f.year f.month f.day + 719468 < 2 ^ 63) ∧
    (∀ t < 2 ^ 63, ∃ text, httpDate t = .ok text ∧ parseHttpDate text = .ok (some t)) ∧
    (∀ t < 2 ^ 63, ∃ rest, httpDate t = .ok (weekdayName (weekdayOn (t / 86400)) ++ ", " ++ rest)) ∧
    (∀ z : ℤ, -2 ^ 63 ≤ z → z < 2 ^ 63 →
      ((∃ y m d, civilFromDays z = .ok (y, m, d) ∧ ValidDate y m d ∧ daysFromCivil y m d = .ok z) ↔ z + 719468 < 2 ^ 63)) ∧
    ∀ y m d, ValidDate y m d → -2 ^ 63 ≤ y → y < 2 ^ 63 →
      ((∃ z, daysFromCivil y m d = .ok z ∧ civilFromDays z = .ok (y, m, d)) ↔
        -2 ^ 63 ≤ dayNumber y m d ∧ dayNumber y m d + 719468 < 2 ^ 63) := by
  refine ⟨parseHttpDate_isOk s, fun t => parseHttpDate_httpDate, fun t ht => ?_, fun z hlow hhigh => ?_,
    fun y m d h hlow hhigh => ?_⟩
  · rw [httpDate_eq (by omega), imfFixdate, weekday_printed]
    simp only [String.append_assoc]
    exact ⟨_, rfl⟩
  · constructor
    · rintro ⟨y, m, d, h, -⟩
      exact ((civilFromDays_eq_ok hlow).1 h).2
    · intro h
      obtain ⟨hvalid, hday⟩ := civil_spec z
      have hdays := (daysFromCivil_valid hvalid (year_fits hvalid (by omega))).2 ⟨hday.symm, by omega⟩
      exact ⟨_, _, _, (civilFromDays_eq_ok hlow).2 ⟨rfl, h⟩, hvalid, hdays⟩
  · constructor
    · rintro ⟨z, hz, -⟩
      exact ((daysFromCivil_valid h ⟨hlow, hhigh⟩).1 hz).2
    · intro hrange
      refine ⟨_, (daysFromCivil_valid h ⟨hlow, hhigh⟩).2 ⟨rfl, hrange⟩, ?_⟩
      exact (civilFromDays_eq_ok hrange.1).2 ⟨(civil_dayNumber h).symm, hrange.2⟩

/-- a year is any number that an `i64` holds -/
theorem far_year_overflows :
    parseHttpDate "Sun, 06 Nov 9223372036854775807 08:49:37 GMT" = .error .overflow ∧ ¬∀ s, ∃ r, parseHttpDate s = .ok r := by
  have h : parseHttpDate "Sun, 06 Nov 9223372036854775807 08:49:37 GMT" = .error .overflow := by decide +kernel
  refine ⟨h, fun hall => ?_⟩
  obtain ⟨r, hr⟩ := hall "Sun, 06 Nov 9223372036854775807 08:49:37 GMT"
  exact nomatch h.symm.trans hr

end Y2q.HttpDate
