/-
XML writer and reader of the S3 gateway (`s3/xml.rs`).

The reader searches for open and close tags by byte offsets. Text is the list of its characters, and a slice at an offset that is not
between two characters, or an index past the end, is a `panic`.

- `findOpenTag_safe`, `blockAt_cases`, `unescapeAt_ok`: the offsets go up, and are between characters.
- `textElements_ne_panic`, `nestedElements_ne_panic`: so neither reader panics, on any text.
-/
import Mathlib.Tactic
import Y2q.Core.TextOffsets

namespace Y2q.Xml

open TextOffsets

def MAX_XML_BYTES : ℕ := 1024 * 1024

inductive XmlError where
  | tooLarge
  | unterminated (name : List Char)
deriving DecidableEq, Repr

inductive Failure where
  | error (e : XmlError)
  | panic
deriving DecidableEq, Repr

/-! ## Writing -/

def escapeChar (ch : Char) : List Char :=
  match ch with
  | '&' => "&amp;".toList
  | '<' => "&lt;".toList
  | '>' => "&gt;".toList
  | '"' => "&quot;".toList
  | '\'' => "&apos;".toList
  | c => if c = '\t' ∨ c = '\n' ∨ c = '\r' then [c] else if c.toNat < 0x20 then ['\uFFFD'] else [c]

def escape (s : List Char) : List Char := s.flatMap escapeChar

def openTag (name : List Char) : List Char := '<' :: name ++ ['>']

def closeTag (name : List Char) : List Char := '<' :: '/' :: name ++ ['>']

def tag (name value : List Char) : List Char := openTag name ++ (escape value ++ closeTag name)

/-! ## Reading -/

/-- the entities, in the order in which they are tried -/
def entities : List (List Char × Char) :=
  [("&amp;".toList, '&'), ("&lt;".toList, '<'), ("&gt;".toList, '>'), ("&quot;".toList, '"'), ("&apos;".toList, '\'')]

/-- one step of `unescape`: the next character, and the offset after it -/
def unescapeAt (s : List Char) (i : ℕ) : Except Failure (Char × ℕ) :=
  match sliceFrom s i with
  | none => .error .panic
  | some rest =>
    match entities.find? fun e => e.1.isPrefixOf rest with
    | some (entity, ch) => .ok (ch, byteLen s - byteLen (rest.drop entity.length))
    | none =>
      match rest with
      | [] => .error .panic
      | ch :: _ => .ok (ch, i + ch.utf8Size)

theorem find_entity {rest entity : List Char} {ch : Char} (h : entities.find? (fun e => e.1.isPrefixOf rest) = some (entity, ch)) :
    entity ≠ [] ∧ ∃ back, rest = entity ++ back := by
  have hmem : ∀ e ∈ entities, e.1 ≠ [] := by decide
  have hprefix := List.find?_some h
  obtain ⟨back, hback⟩ := List.isPrefixOf_iff_prefix.1 hprefix
  exact ⟨hmem _ (List.mem_of_find?_eq_some h), back, hback.symm⟩

/-- the offset goes up, and stays between characters -/
theorem unescapeAt_ok {s : List Char} {i j : ℕ} {ch : Char} (h : unescapeAt s i = .ok (ch, j)) : i < j ∧ Boundary s j := by
  unfold unescapeAt at h
  cases hrest : sliceFrom s i with
  | none =>
    rw [hrest] at h
    cases h
  | some rest =>
    obtain ⟨front, rfl, rfl⟩ := sliceFrom_eq_some hrest
    simp only [hrest] at h
    cases hfind : entities.find? fun e => e.1.isPrefixOf rest with
    | some e =>
      obtain ⟨hne, back, rfl⟩ := find_entity hfind
      simp only [hfind] at h
      obtain ⟨rfl, rfl⟩ := Prod.mk.inj (Except.ok.inj h)
      have hpos := byteLen_pos hne
      rw [List.drop_left]
      simp only [byteLen_append]
      exact ⟨by omega, front ++ e.1, back, (List.append_assoc _ _ _).symm, by rw [byteLen_append]; omega⟩
    | none =>
      simp only [hfind] at h
      cases rest with
      | nil => cases h
      | cons c rest =>
        obtain ⟨rfl, rfl⟩ := Prod.mk.inj (Except.ok.inj h)
        have hpos := c.utf8Size_pos
        exact ⟨by omega, front ++ [c], rest, by simp, by simp⟩

def unescapeFrom (s : List Char) (i : ℕ) : Except Failure (List Char) :=
  if _h : i < byteLen s then
    match _hstep : unescapeAt s i with
    | .error e => .error e
    | .ok (ch, j) => (unescapeFrom s j).map (ch :: ·)
  else .ok []
termination_by byteLen s - i
decreasing_by
  have := (unescapeAt_ok _hstep).1
  omega

def unescape (s : List Char) : Except Failure (List Char) := unescapeFrom s 0

/-- `>`, a blank or `/` -/
def isTagBoundary (b : UInt8) : Bool := b == 62 || b == 32 || b == 9 || b == 10 || b == 13 || b == 47

/-- the rest of an open tag after its name -/
def endOfTag (xml name : List Char) (start afterName : ℕ) : Except Failure (Option (ℕ × ℕ × Bool)) :=
  match sliceFrom xml afterName with
  | none => .error .panic
  | some rest =>
    match findStr ['>'] rest with
    | none => .error (.error (.unterminated name))
    | some gtRel =>
      let contentStart := afterName + gtRel + 1
      if 2 ≤ contentStart then
        match byteAt xml (contentStart - 2) with
        | none => .error .panic
        | some b => .ok (some (start, contentStart, b == 47))
      else .ok (some (start, contentStart, false))

/-- start of the tag, start of the content, and whether the tag closes itself -/
def findOpenTag (xml name : List Char) (searchFrom : ℕ) : Except Failure (Option (ℕ × ℕ × Bool)) :=
  match _h : sliceFrom xml searchFrom with
  | none => .error .panic
  | some rest =>
    match findStr ('<' :: name) rest with
    | none => .ok none
    | some rel =>
      let start := searchFrom + rel
      let afterName := start + byteLen ('<' :: name)
      if (byteAt xml afterName).any isTagBoundary then endOfTag xml name start afterName
      else findOpenTag xml name afterName
termination_by byteLen xml + 1 - searchFrom
decreasing_by
  have := (Boundary.of_sliceFrom _h).le
  have := byteLen_pos (List.cons_ne_nil '<' name)
  omega

variable {xml name : List Char}

/-- a result that is not a panic, with the content further on and between characters -/
def Safe (xml : List Char) (pos : ℕ) : Except Failure (Option (ℕ × ℕ × Bool)) → Prop
  | .error e => e ≠ .panic
  | .ok none => True
  | .ok (some (_, contentStart, _)) => pos < contentStart ∧ Boundary xml contentStart

theorem endOfTag_safe {pos afterName : ℕ} (hlt : pos < afterName) (h : Boundary xml afterName) (start : ℕ) :
    Safe xml pos (endOfTag xml name start afterName) := by
  obtain ⟨front, back, rfl, rfl⟩ := h
  rw [endOfTag, sliceFrom_append]
  simp only
  cases hgt : findStr ['>'] back with
  | none => exact nofun
  | some gtRel =>
    obtain ⟨mid, rest, rfl, rfl⟩ := findStr_eq_some hgt
    have hone : '>'.utf8Size = 1 := rfl
    have hcontent : Boundary (front ++ (mid ++ (['>'] ++ rest))) (byteLen front + byteLen mid + 1) :=
      ⟨front ++ (mid ++ ['>']), rest, by simp, by simp [hone, Nat.add_assoc]⟩
    have hle := hcontent.le
    simp only
    split_ifs with h2
    · obtain ⟨b, hb⟩ := byteAt_isSome (s := front ++ (mid ++ (['>'] ++ rest))) (i := byteLen front + byteLen mid + 1 - 2) (by omega)
      rw [hb]
      exact ⟨by omega, hcontent⟩
    · exact ⟨by omega, hcontent⟩

theorem Safe.mono {pos pos' : ℕ} (hle : pos ≤ pos') {r : Except Failure (Option (ℕ × ℕ × Bool))} (h : Safe xml pos' r) :
    Safe xml pos r := by
  match r, h with
  | .error _, h => exact h
  | .ok none, _ => trivial
  | .ok (some _), h => exact ⟨hle.trans_lt h.1, h.2⟩

/-- an occurrence of the start of an open tag, and the offset after the name -/
theorem findStr_open {pos rel : ℕ} {rest : List Char} (hslice : sliceFrom xml pos = some rest)
    (hfind : findStr ('<' :: name) rest = some rel) :
    pos < pos + rel + byteLen ('<' :: name) ∧ Boundary xml (pos + rel + byteLen ('<' :: name)) := by
  obtain ⟨front, rfl, rfl⟩ := sliceFrom_eq_some hslice
  obtain ⟨mid, back, rfl, rfl⟩ := findStr_eq_some hfind
  have hpos := byteLen_pos (List.cons_ne_nil '<' name)
  exact ⟨by omega, front ++ (mid ++ ('<' :: name)), back, by simp, by simp [Nat.add_assoc]⟩

theorem findOpenTag_safe {pos : ℕ} (h : Boundary xml pos) : Safe xml pos (findOpenTag xml name pos) := by
  induction hn : byteLen xml + 1 - pos using Nat.strong_induction_on generalizing pos with
  | _ n ih =>
    have hle := h.le
    obtain ⟨front, back, hxml, hpos⟩ := h
    have hslice : sliceFrom xml pos = some back := by rw [hxml, hpos, sliceFrom_append]
    unfold findOpenTag
    split
    next hnone => cases hslice.symm.trans hnone
    next rest hrest =>
      split
      next => trivial
      next rel hfind =>
        obtain ⟨hlt, hbound⟩ := findStr_open hrest hfind
        simp only
        split_ifs
        · exact endOfTag_safe hlt hbound _
        · exact (ih _ (by omega) hbound rfl).mono hlt.le

theorem findOpenTag_some {pos start contentStart : ℕ} {selfClosing : Bool}
    (h : findOpenTag xml name pos = .ok (some (start, contentStart, selfClosing))) : pos < contentStart ∧ Boundary xml contentStart := by
  have hbound : Boundary xml pos := by
    rw [findOpenTag] at h
    split at h
    next => cases h
    next rest hrest => exact .of_sliceFrom hrest
  have hsafe : Safe xml pos (findOpenTag xml name pos) := findOpenTag_safe hbound
  rw [h] at hsafe
  exact hsafe

/-! ## Blocks -/

/-- the content of an element that does not close itself, and the offset after it -/
def blockAt (xml name : List Char) (contentStart : ℕ) : Except Failure (List Char × ℕ) :=
  match sliceFrom xml contentStart with
  | none => .error .panic
  | some rest =>
    match findStr (closeTag name) rest with
    | none => .error (.error (.unterminated name))
    | some endRel =>
      match sliceRange xml contentStart (contentStart + endRel) with
      | none => .error .panic
      | some block => .ok (block, contentStart + endRel + byteLen (closeTag name))

theorem blockAt_cases {contentStart : ℕ} (h : Boundary xml contentStart) :
    blockAt xml name contentStart = .error (.error (.unterminated name)) ∨
      ∃ block pos, blockAt xml name contentStart = .ok (block, pos) ∧ contentStart ≤ pos ∧ Boundary xml pos := by
  obtain ⟨front, back, rfl, rfl⟩ := h
  rw [blockAt, sliceFrom_append]
  simp only
  cases hend : findStr (closeTag name) back with
  | none => exact .inl rfl
  | some endRel =>
    obtain ⟨mid, rest, rfl, rfl⟩ := findStr_eq_some hend
    simp only [sliceRange_append]
    refine .inr ⟨_, _, rfl, by omega, front ++ (mid ++ closeTag name), rest, by simp, by simp [Nat.add_assoc]⟩

def extractFrom (xml name : List Char) (pos : ℕ) : Except Failure (List (List Char)) :=
  match _hopen : findOpenTag xml name pos with
  | .error e => .error e
  | .ok none => .ok []
  | .ok (some (_, contentStart, selfClosing)) =>
    if selfClosing then (extractFrom xml name contentStart).map ([] :: ·)
    else
      match _hblock : blockAt xml name contentStart with
      | .error e => .error e
      | .ok (block, next) => (extractFrom xml name next).map (block :: ·)
termination_by byteLen xml + 1 - pos
decreasing_by
  · have hsome := findOpenTag_some _hopen
    have := hsome.2.le
    omega
  · have hsome := findOpenTag_some _hopen
    obtain herror | ⟨block', pos', hok, hle, hbound⟩ := @blockAt_cases xml name _ hsome.2
    · cases herror.symm.trans _hblock
    · obtain ⟨rfl, rfl⟩ := Prod.mk.inj (Except.ok.inj (hok.symm.trans _hblock))
      have := hbound.le
      omega

def extractBlocks (xml name : List Char) : Except Failure (List (List Char)) := extractFrom xml name 0

/-- `unescape` of each -/
def unescapeAll : List (List Char) → Except Failure (List (List Char))
  | [] => .ok []
  | s :: rest => do
    let v ← unescape s
    let vs ← unescapeAll rest
    pure (v :: vs)

def textElements (xml name : List Char) : Except Failure (List (List Char)) := do
  if byteLen xml > MAX_XML_BYTES then throw (.error .tooLarge)
  let blocks ← extractBlocks xml name
  unescapeAll blocks

/-- the first block of the name in a row's block, unescaped -/
def child (block name : List Char) : Except Failure (Option (List Char)) := do
  let vals ← extractBlocks block name
  match vals with
  | [] => pure none
  | s :: _ => do
    let v ← unescape s
    pure (some v)

def rowOf (block : List Char) : List (List Char) → Except Failure (List (Option (List Char)))
  | [] => .ok []
  | name :: inner => do
    let v ← child block name
    let vs ← rowOf block inner
    pure (v :: vs)

def rowsOf (inner : List (List Char)) : List (List Char) → Except Failure (List (List (Option (List Char))))
  | [] => .ok []
  | block :: blocks => do
    let row ← rowOf block inner
    let rows ← rowsOf inner blocks
    pure (row :: rows)

def nestedElements (xml outer : List Char) (inner : List (List Char)) : Except Failure (List (List (Option (List Char)))) := do
  if byteLen xml > MAX_XML_BYTES then throw (.error .tooLarge)
  let blocks ← extractBlocks xml outer
  rowsOf inner blocks

/-! ## No panic -/

theorem unescapeAt_total {s : List Char} {i : ℕ} (h : Boundary s i) (hlt : i < byteLen s) : ∃ r, unescapeAt s i = .ok r := by
  obtain ⟨front, back, rfl, rfl⟩ := h
  rw [unescapeAt, sliceFrom_append]
  simp only
  cases hfind : entities.find? fun e => e.1.isPrefixOf back with
  | some e => exact ⟨_, rfl⟩
  | none =>
    cases back with
    | nil => simp at hlt
    | cons c back => exact ⟨_, rfl⟩

theorem unescapeFrom_total {s : List Char} {i : ℕ} (h : Boundary s i) : ∃ v, unescapeFrom s i = .ok v := by
  induction hn : byteLen s - i using Nat.strong_induction_on generalizing i with
  | _ n ih =>
    rw [unescapeFrom]
    split_ifs with hlt
    · obtain ⟨⟨ch, j⟩, hstep⟩ := unescapeAt_total h hlt
      obtain ⟨hij, hbound⟩ := unescapeAt_ok hstep
      obtain ⟨v, hv⟩ := ih (byteLen s - j) (by omega) hbound rfl
      split
      next e herror => cases hstep.symm.trans herror
      next ch' j' hok =>
        obtain ⟨rfl, rfl⟩ := Prod.mk.inj (Except.ok.inj (hstep.symm.trans hok))
        exact ⟨ch :: v, by rw [hv]; rfl⟩
    · exact ⟨[], rfl⟩

theorem unescape_total (s : List Char) : ∃ v, unescape s = .ok v := unescapeFrom_total ⟨[], s, rfl, rfl⟩

theorem unescapeAll_total (blocks : List (List Char)) : ∃ vs, unescapeAll blocks = .ok vs := by
  induction blocks with
  | nil => exact ⟨[], rfl⟩
  | cons s blocks ih =>
    obtain ⟨v, hv⟩ := unescape_total s
    obtain ⟨vs, hvs⟩ := ih
    exact ⟨v :: vs, by rw [unescapeAll, hv, hvs]; rfl⟩

theorem map_ne_panic {α β : Type} {r : Except Failure α} (f : α → β) (h : r ≠ .error .panic) : r.map f ≠ .error .panic := by
  cases r with
  | error e => exact fun hmap => h (congrArg Except.error (Except.error.inj hmap))
  | ok a => exact nofun

theorem bind_ne_panic {α β : Type} {r : Except Failure α} {f : α → Except Failure β} (h : r ≠ .error .panic)
    (hf : ∀ a, f a ≠ .error .panic) : (r >>= f) ≠ .error .panic := by
  cases r with
  | error e => exact fun hbind => h (congrArg Except.error (Except.error.inj hbind))
  | ok a => exact hf a

theorem extractFrom_ne_panic {pos : ℕ} (h : Boundary xml pos) : extractFrom xml name pos ≠ .error .panic := by
  induction hn : byteLen xml + 1 - pos using Nat.strong_induction_on generalizing pos with
  | _ n ih =>
    have hsafe : Safe xml pos (findOpenTag xml name pos) := findOpenTag_safe h
    have hle := h.le
    unfold extractFrom
    split
    next e hopen =>
      rw [hopen] at hsafe
      exact fun he => hsafe (Except.error.inj he)
    next => exact nofun
    next start contentStart selfClosing hopen =>
      rw [hopen] at hsafe
      obtain ⟨hlt, hbound⟩ := hsafe
      have hle' := hbound.le
      split_ifs
      · exact map_ne_panic _ (ih _ (by omega) hbound rfl)
      · obtain herror | ⟨block, next, hok, hnext, hbound'⟩ := @blockAt_cases xml name _ hbound
        · split
          next e he =>
            cases herror.symm.trans he
            exact nofun
          next he => cases herror.symm.trans he
        · split
          next e he => cases hok.symm.trans he
          next he =>
            obtain ⟨rfl, rfl⟩ := Prod.mk.inj (Except.ok.inj (hok.symm.trans he))
            exact map_ne_panic _ (ih _ (by omega) hbound' rfl)

theorem extractBlocks_ne_panic (xml name : List Char) : extractBlocks xml name ≠ .error .panic :=
  extractFrom_ne_panic ⟨[], xml, rfl, rfl⟩

theorem ok_ne_panic {α : Type} {r : Except Failure α} (h : ∃ a, r = .ok a) : r ≠ .error .panic := by
  obtain ⟨a, rfl⟩ := h
  exact nofun

theorem textElements_ne_panic (xml name : List Char) : textElements xml name ≠ .error .panic := by
  unfold textElements
  split_ifs
  · exact nofun
  · exact bind_ne_panic (extractBlocks_ne_panic xml name) fun blocks => ok_ne_panic (unescapeAll_total blocks)

theorem child_ne_panic (block name : List Char) : child block name ≠ .error .panic := by
  refine bind_ne_panic (extractBlocks_ne_panic block name) fun vals => ?_
  cases vals with
  | nil => exact nofun
  | cons s vals => exact bind_ne_panic (ok_ne_panic (unescape_total s)) fun v => nofun

theorem rowOf_ne_panic (block : List Char) (inner : List (List Char)) : rowOf block inner ≠ .error .panic := by
  induction inner with
  | nil => exact nofun
  | cons name inner ih => exact bind_ne_panic (child_ne_panic block name) fun v => bind_ne_panic ih fun vs => nofun

theorem rowsOf_ne_panic (inner blocks : List (List Char)) : rowsOf inner blocks ≠ .error .panic := by
  induction blocks with
  | nil => exact nofun
  | cons block blocks ih => exact bind_ne_panic (rowOf_ne_panic block inner) fun row => bind_ne_panic ih fun rows => nofun

theorem nestedElements_ne_panic (xml outer : List Char) (inner : List (List Char)) : nestedElements xml outer inner ≠ .error .panic := by
  unfold nestedElements
  split_ifs
  · exact nofun
  · exact bind_ne_panic (extractBlocks_ne_panic xml outer) fun blocks => rowsOf_ne_panic inner blocks

end Y2q.Xml
