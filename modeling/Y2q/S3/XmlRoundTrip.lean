/-
What the writer of `s3/xml.rs` writes, its reader reads back.

- `unescape_escape`: text that XML can hold comes back from its entities.
- `Skips`: markup that the search for an element's open tag passes over: text, close tags, and open tags of other names, also of those
  that this name begins (`skips_openTagWith`).
- `Holds.extractFrom`: between skipped markup the elements of the name are found one by one.
- `xml_reader_inverts_writer`: values and rows in a document of other elements are read back, and no text is a panic.
-/
import Mathlib.Tactic
import Y2q.S3.Xml

namespace Y2q.Xml

open TextOffsets

variable {xml name : List Char}

/-! ## Entities -/

/-- no C0 control but the three that XML can hold -/
def Representable (s : List Char) : Prop := ∀ c ∈ s, 0x20 ≤ c.toNat ∨ c = '\t' ∨ c = '\n' ∨ c = '\r'

theorem escapeChar_plain {c : Char} (h : 0x20 ≤ c.toNat ∨ c = '\t' ∨ c = '\n' ∨ c = '\r')
    (hspecial : c ∉ ['&', '<', '>', '"', '\'']) : escapeChar c = [c] := by
  unfold escapeChar
  split
  next => exact absurd (by decide) hspecial
  next => exact absurd (by decide) hspecial
  next => exact absurd (by decide) hspecial
  next => exact absurd (by decide) hspecial
  next => exact absurd (by decide) hspecial
  next =>
    split_ifs with hblank hlow
    · rfl
    · exact absurd hlow (not_lt.2 (h.resolve_right hblank))
    · rfl

theorem lt_notMem_escape {s : List Char} (h : Representable s) : '<' ∉ escape s := by
  intro hmem
  obtain ⟨c, hc, hmem⟩ := List.mem_flatMap.1 hmem
  by_cases hspecial : c ∈ ['&', '<', '>', '"', '\'']
  · simp only [List.mem_cons, List.not_mem_nil, or_false] at hspecial
    rcases hspecial with rfl | rfl | rfl | rfl | rfl <;> revert hmem <;> decide
  · rw [escapeChar_plain (h c hc) hspecial, List.mem_singleton] at hmem
    subst hmem
    exact hspecial (by decide)

theorem unescapeAt_escapeChar {c : Char} (h : 0x20 ≤ c.toNat ∨ c = '\t' ∨ c = '\n' ∨ c = '\r') (front back : List Char) :
    unescapeAt (front ++ (escapeChar c ++ back)) (byteLen front) = .ok (c, byteLen (front ++ escapeChar c)) := by
  have hentity : ∀ entity, entities.find? (fun e => e.1.isPrefixOf (entity ++ back)) = some (entity, c) → escapeChar c = entity →
      unescapeAt (front ++ (escapeChar c ++ back)) (byteLen front) = .ok (c, byteLen (front ++ escapeChar c)) := by
    intro entity hfind hc
    rw [unescapeAt, sliceFrom_append, hc]
    simp only [hfind, List.drop_left, byteLen_append]
    rw [Nat.add_comm (byteLen entity), ← Nat.add_assoc, Nat.add_right_comm, Nat.add_sub_cancel]
  by_cases hspecial : c ∈ ['&', '<', '>', '"', '\'']
  · simp only [List.mem_cons, List.not_mem_nil, or_false] at hspecial
    rcases hspecial with rfl | rfl | rfl | rfl | rfl <;> exact hentity _ rfl rfl
  · have hnone : entities.find? (fun e => e.1.isPrefixOf (c :: back)) = none := by
      have hamp : ('&' == c) = false := beq_false_of_ne fun hc => hspecial (by rw [← hc]; decide)
      simp [entities, List.isPrefixOf, hamp]
    rw [escapeChar_plain h hspecial, unescapeAt, sliceFrom_append, List.singleton_append]
    simp only [hnone, byteLen_append, byteLen_cons, byteLen_nil, Nat.add_zero]

theorem unescapeFrom_escape {s : List Char} (h : Representable s) (front : List Char) :
    unescapeFrom (front ++ escape s) (byteLen front) = .ok s := by
  induction s generalizing front with
  | nil =>
    rw [unescapeFrom, dif_neg (by simp [escape])]
  | cons c s ih =>
    obtain ⟨hc, hs⟩ := List.forall_mem_cons.1 h
    have hstep := unescapeAt_escapeChar hc front (escape s)
    have hrest := ih hs (front ++ escapeChar c)
    rw [List.append_assoc] at hrest
    have hlt : byteLen front < byteLen (front ++ (escapeChar c ++ escape s)) := by
      have := (unescapeAt_ok hstep).1
      rw [byteLen_append] at this ⊢
      rw [byteLen_append]
      omega
    rw [show escape (c :: s) = escapeChar c ++ escape s from List.flatMap_cons, unescapeFrom, dif_pos hlt]
    split
    next e herror => cases hstep.symm.trans herror
    next ch j hok =>
      obtain ⟨rfl, rfl⟩ := Prod.mk.inj (Except.ok.inj (hstep.symm.trans hok))
      rw [hrest]
      rfl

theorem unescape_escape {s : List Char} (h : Representable s) : unescape (escape s) = .ok s := unescapeFrom_escape h []

/-! ## Names and markup -/

/-- more than the names of XML: without `<`, `>`, `/` and blanks -/
structure ElementName (name : List Char) : Prop where
  ne_nil : name ≠ []
  plain : ∀ c ∈ name, c ∉ ['<', '>', '/', ' ', '\t', '\n', '\r']

/-- what may follow the name in an open tag -/
structure Attributes (attrs : List Char) : Prop where
  plain : '<' ∉ attrs
  separated : ∀ c ∈ attrs.head?, c ∈ ['/', ' ', '\t', '\n', '\r']

def openTagWith (name attrs : List Char) : List Char := '<' :: name ++ (attrs ++ ['>'])

/-- the search for an open tag goes on behind it -/
def Skips (name t : List Char) : Prop := ∀ front back,
  findOpenTag (front ++ (t ++ back)) name (byteLen front) = findOpenTag (front ++ (t ++ back)) name (byteLen (front ++ t))

theorem findOpenTag_at (front rest name : List Char) : findOpenTag (front ++ rest) name (byteLen front) =
    match findStr ('<' :: name) rest with
    | none => .ok none
    | some rel =>
      let start := byteLen front + rel
      let afterName := start + byteLen ('<' :: name)
      if (byteAt (front ++ rest) afterName).any isTagBoundary then endOfTag (front ++ rest) name start afterName
      else findOpenTag (front ++ rest) name afterName := by
  rw [findOpenTag]
  split
  next h => cases (sliceFrom_append front rest).symm.trans h
  next rest' h =>
    obtain rfl := Option.some.inj ((sliceFrom_append front rest).symm.trans h)
    rfl

theorem Skips.append {t t' : List Char} (h : Skips name t) (h' : Skips name t') : Skips name (t ++ t') := by
  intro front back
  have h1 := h front (t' ++ back)
  have h2 := h' (front ++ t) back
  simp only [List.append_assoc] at h1 h2 ⊢
  exact h1.trans h2

theorem Skips.of_passes {t : List Char} (h : Passes ('<' :: name) t) : Skips name t := by
  intro front back
  rw [findOpenTag_at, h, ← List.append_assoc, findOpenTag_at]
  cases findStr ('<' :: name) back with
  | none => rfl
  | some rel => simp only [Option.map_some, byteLen_append, Nat.add_assoc]

theorem skips_text {t : List Char} (h : '<' ∉ t) : Skips name t := .of_passes (passes_text h name)

theorem ElementName.head {name : List Char} (h : ElementName name) : ∃ c rest, name = c :: rest ∧ c ≠ '/' := by
  obtain ⟨c, rest, rfl⟩ := List.exists_cons_of_ne_nil h.ne_nil
  exact ⟨c, rest, rfl, fun hc => h.plain c List.mem_cons_self (by rw [hc]; decide)⟩

theorem isTagBoundary_plain {c : Char} (hc : c ∉ ['<', '>', '/', ' ', '\t', '\n', '\r']) :
    ((String.utf8EncodeChar c)[0]?).any isTagBoundary = false := by
  refine Bool.eq_false_iff.2 fun hany => hc ?_
  obtain ⟨b, hb, hbound⟩ := (Option.any_eq_true _ _).1 hany
  have hmem := List.mem_of_getElem? hb
  have hchar : ∀ d : Char, b.toNat = d.toNat → d.toNat < 128 → c = d := fun d hd hlt =>
    Char.toNat_inj.1 ((eq_of_mem_utf8EncodeChar (hd ▸ hlt) hmem).trans hd)
  simp only [isTagBoundary, Bool.or_eq_true, beq_iff_eq] at hbound
  rcases hbound with ((((rfl | rfl) | rfl) | rfl) | rfl) | rfl
  · rw [hchar '>' rfl (by decide)]; decide
  · rw [hchar ' ' rfl (by decide)]; decide
  · rw [hchar '\t' rfl (by decide)]; decide
  · rw [hchar '\n' rfl (by decide)]; decide
  · rw [hchar '\r' rfl (by decide)]; decide
  · rw [hchar '/' rfl (by decide)]; decide

/-- a name in front of a character that no name holds -/
theorem prefix_of_prefix_append {p q : List Char} {d : Char} {r : List Char} (hd : d ∉ p) (h : p <+: q ++ d :: r) : p <+: q := by
  induction p generalizing q with
  | nil => exact List.nil_prefix
  | cons a p ih =>
    cases q with
    | nil => exact absurd (by rw [(List.cons_prefix_cons.1 h).1]; exact List.mem_cons_self) hd
    | cons b q =>
      obtain ⟨rfl, htail⟩ := List.cons_prefix_cons.1 h
      exact List.cons_prefix_cons.2 ⟨rfl, ih (fun hp => hd (List.mem_cons_of_mem a hp)) htail⟩

theorem skips_closeTag (hname : ElementName name) {n : List Char} (hn : '<' ∉ n) : Skips name (closeTag n) := by
  refine .of_passes (passes_first ?_ fun back hp => ?_)
  · simp [hn]
  · obtain ⟨c, rest, rfl, hc⟩ := hname.head
    exact hc (List.cons_prefix_cons.1 hp).1

/-- an open tag of another name: either its name does not begin with this one, or it goes on with a character of a name -/
theorem skips_openTagWith (hname : ElementName name) {n attrs : List Char} (hn : ElementName n) (hne : n ≠ name)
    (hattrs : Attributes attrs) : Skips name (openTagWith n attrs) := by
  have hlt : '<' ∉ n ++ (attrs ++ ['>']) := by
    have hn' : '<' ∉ n := fun h => hn.plain '<' h (by decide)
    simp [hn', hattrs.plain]
  -- the character after the name
  obtain ⟨d, tail, hd, hdname⟩ : ∃ d tail, attrs ++ ['>'] = d :: tail ∧ d ∈ ['<', '>', '/', ' ', '\t', '\n', '\r'] := by
    cases attrs with
    | nil => exact ⟨'>', [], rfl, by decide⟩
    | cons d attrs =>
      refine ⟨d, attrs ++ ['>'], rfl, ?_⟩
      exact List.mem_cons_of_mem _ (List.mem_cons_of_mem _ (hattrs.separated d rfl))
  by_cases hprefix : name <+: n
  · obtain ⟨more, rfl⟩ := hprefix
    cases more with
    | nil => exact absurd (List.append_nil name) hne
    | cons c more =>
      have hc := hn.plain c (List.mem_append_right _ List.mem_cons_self)
      have htext : Skips name (c :: more ++ (attrs ++ ['>'])) :=
        skips_text fun h => hlt (by rw [List.append_assoc]; exact List.mem_append_right _ h)
      intro front back
      have hsplit : openTagWith (name ++ c :: more) attrs = '<' :: name ++ (c :: more ++ (attrs ++ ['>'])) := by simp [openTagWith]
      have hrest := htext (front ++ '<' :: name) back
      rw [hsplit, List.append_assoc, ← List.append_assoc front, ← List.append_assoc front, ← hrest, List.append_assoc front,
        findOpenTag_at, findStr_prefix (List.prefix_append _ _)]
      have hbyte := byteAt_append (front ++ '<' :: name) c (more ++ (attrs ++ ['>']) ++ back) 0 c.utf8Size_pos
      rw [Nat.add_zero, byteLen_append] at hbyte
      have hcut : front ++ ('<' :: name ++ (c :: more ++ (attrs ++ ['>']) ++ back)) =
          front ++ '<' :: name ++ c :: (more ++ (attrs ++ ['>']) ++ back) := by simp
      simp only [Nat.add_zero]
      rw [hcut, hbyte, isTagBoundary_plain hc, if_neg Bool.false_ne_true, byteLen_append]
  · have hall : ∀ back, ¬name <+: n ++ (attrs ++ ['>']) ++ back := by
      intro back hp
      rw [hd, List.append_assoc, List.cons_append] at hp
      exact hprefix (prefix_of_prefix_append (fun h => hname.plain d h hdname) hp)
    exact .of_passes (passes_first hlt hall)

/-- the byte in front of a tag's end, if the tag ends in a name -/
theorem byteAt_last {init : List Char} {c : Char} (hc : c ≠ '/') (back : List Char) :
    ∃ b, byteAt (init ++ [c] ++ '>' :: back) (byteLen (init ++ [c]) - 1) = some b ∧ b ≠ 47 := by
  have hpos := c.utf8Size_pos
  have hbyte := byteAt_append init c ('>' :: back) (c.utf8Size - 1) (by omega)
  have hoffset : byteLen (init ++ [c]) - 1 = byteLen init + (c.utf8Size - 1) := by
    simp only [byteLen_append, byteLen_cons, byteLen_nil]
    omega
  have hlt : c.utf8Size - 1 < (String.utf8EncodeChar c).length := by
    rw [String.length_utf8EncodeChar]
    omega
  rw [List.append_assoc, List.singleton_append, hoffset, hbyte, List.getElem?_eq_getElem hlt]
  refine ⟨_, rfl, fun h47 => hc (Char.toNat_inj.1 ?_)⟩
  exact eq_of_mem_utf8EncodeChar (b := 47) (by decide) (h47 ▸ List.getElem_mem hlt)

/-- the open tag of the name itself -/
theorem findOpenTag_openTag (hname : ElementName name) (front back : List Char) :
    findOpenTag (front ++ (openTag name ++ back)) name (byteLen front) =
      .ok (some (byteLen front, byteLen (front ++ openTag name), false)) := by
  obtain ⟨init, c, hc⟩ := (List.eq_nil_or_concat' name).resolve_left hname.ne_nil
  have hslash : c ≠ '/' := fun h => hname.plain c (by rw [hc]; simp) (by rw [h]; decide)
  obtain ⟨b, hb, hne⟩ := @byteAt_last (front ++ '<' :: init) c hslash back
  have hinit : front ++ '<' :: init ++ [c] = front ++ '<' :: name := by simp [hc]
  rw [hinit] at hb
  have hcut : front ++ (openTag name ++ back) = front ++ '<' :: name ++ '>' :: back := by simp [openTag]
  have hbyte := byteAt_append (front ++ '<' :: name) '>' back 0 (by decide)
  have hgt : byteLen (front ++ openTag name) = byteLen (front ++ '<' :: name) + 1 := by
    rw [openTag, ← List.append_assoc, byteLen_append]
    rfl
  have hpos : 0 < byteLen (front ++ '<' :: name) := byteLen_pos (by simp)
  have hend : endOfTag (front ++ '<' :: name ++ '>' :: back) name (byteLen front) (byteLen (front ++ '<' :: name)) =
      .ok (some (byteLen front, byteLen (front ++ '<' :: name) + 1, false)) := by
    have hfind : findStr ['>'] ('>' :: back) = some 0 := findStr_prefix ⟨back, rfl⟩
    rw [endOfTag, sliceFrom_append]
    simp only [hfind, Nat.add_zero]
    rw [if_pos (by omega), show byteLen (front ++ '<' :: name) + 1 - 2 = byteLen (front ++ '<' :: name) - 1 by omega, hb]
    simp [hne]
  rw [Nat.add_zero] at hbyte
  rw [findOpenTag_at, findStr_prefix ⟨['>'] ++ back, by simp [openTag]⟩]
  simp only [Nat.add_zero]
  rw [hcut, ← byteLen_append, hbyte, if_pos (by decide), hend, hgt]

/-! ## Documents -/

/-- the elements of the name in a text, between markup that is skipped, and what they contain -/
inductive Holds (name : List Char) : List Char → List (List Char) → Prop
  | nil : Holds name [] []
  | skip {t s : List Char} {contents : List (List Char)} (h : Skips name t) (hs : Holds name s contents) : Holds name (t ++ s) contents
  | element {content s : List Char} {contents : List (List Char)} (h : Passes (closeTag name) content) (hs : Holds name s contents) :
      Holds name (openTag name ++ (content ++ (closeTag name ++ s))) (content :: contents)

theorem extractFrom_eq (xml name : List Char) (pos : ℕ) : extractFrom xml name pos =
    match findOpenTag xml name pos with
    | .error e => .error e
    | .ok none => .ok []
    | .ok (some (_, contentStart, selfClosing)) =>
      if selfClosing then (extractFrom xml name contentStart).map ([] :: ·)
      else
        match blockAt xml name contentStart with
        | .error e => .error e
        | .ok (block, next) => (extractFrom xml name next).map (block :: ·) := by
  rw [extractFrom]
  split
  next h => rw [h]
  next h => rw [h]
  next start contentStart selfClosing h =>
    rw [h]
    simp only
    split_ifs
    · rfl
    · split
      next he => rw [he]
      next he => rw [he]

theorem blockAt_element {content : List Char} (h : Passes (closeTag name) content) (front back : List Char) :
    blockAt (front ++ (content ++ (closeTag name ++ back))) name (byteLen front) =
      .ok (content, byteLen (front ++ (content ++ closeTag name))) := by
  rw [blockAt, sliceFrom_append]
  simp only [h.findStr_eq, sliceRange_append, byteLen_append, Nat.add_assoc]

/-- **The reader finds the elements of the name one by one**, from wherever it is. -/
theorem Holds.extractFrom (hname : ElementName name) {s : List Char} {contents : List (List Char)} (h : Holds name s contents)
    (front : List Char) : extractFrom (front ++ s) name (byteLen front) = .ok contents := by
  induction h generalizing front with
  | nil =>
    rw [extractFrom_eq, findOpenTag_at]
    rfl
  | @skip t s contents h hs ih =>
    have hih := ih (front ++ t)
    rw [List.append_assoc] at hih
    rw [extractFrom_eq, h, ← extractFrom_eq, hih]
  | @element content s contents h hs ih =>
    have hih := ih (front ++ (openTag name ++ (content ++ closeTag name)))
    have hblock := blockAt_element h (front ++ openTag name) s
    simp only [List.append_assoc] at hih hblock
    rw [extractFrom_eq, findOpenTag_openTag hname]
    simp only [Bool.false_eq_true, if_false, hblock, hih]
    rfl

theorem Holds.extractBlocks (hname : ElementName name) {s : List Char} {contents : List (List Char)} (h : Holds name s contents) :
    extractBlocks s name = .ok contents := h.extractFrom hname []

theorem Holds.append {s s' : List Char} {contents contents' : List (List Char)} (h : Holds name s contents)
    (h' : Holds name s' contents') : Holds name (s ++ s') (contents ++ contents') := by
  induction h with
  | nil => exact h'
  | skip h hs ih =>
    rw [List.append_assoc]
    exact .skip h ih
  | element h hs ih =>
    simp only [List.append_assoc, List.cons_append]
    exact .element h ih

theorem Holds.of_skips {t : List Char} (h : Skips name t) : Holds name t [] := by
  have hskip := Holds.skip h .nil
  rwa [List.append_nil] at hskip

theorem Holds.of_passes {content : List Char} (h : Passes (closeTag name) content) :
    Holds name (openTag name ++ (content ++ closeTag name)) [content] := by
  have helement := Holds.element h .nil
  rwa [List.append_nil] at helement

theorem ElementName.notMem {c : Char} (h : ElementName name) (hc : c ∈ ['<', '>', '/', ' ', '\t', '\n', '\r']) : c ∉ name :=
  fun hmem => h.plain c hmem hc

theorem openTag_eq (n : List Char) : openTag n = openTagWith n [] := rfl

theorem skips_tag (hname : ElementName name) {n value : List Char} (hn : ElementName n) (hne : n ≠ name) (hvalue : Representable value) :
    Skips name (tag n value) := by
  have hopen : Skips name (openTag n) := skips_openTagWith hname hn hne ⟨List.not_mem_nil, nofun⟩
  exact hopen.append ((skips_text (lt_notMem_escape hvalue)).append (skips_closeTag hname (hn.notMem (by decide))))

theorem holds_tag (value : List Char) (hvalue : Representable value) : Holds name (tag name value) [escape value] :=
  .of_passes (passes_text (lt_notMem_escape hvalue) _)

/-- an end tag of another name is none of this -/
theorem passes_tag (hname : ElementName name) {n value : List Char} (hn : ElementName n) (hne : n ≠ name) (hvalue : Representable value) :
    Passes (closeTag name) (tag n value) := by
  have hlt : '<' ∉ n := hn.notMem (by decide)
  have hopen : Passes (closeTag name) (openTag n) := by
    refine passes_first (by simp [hlt]) fun back hp => ?_
    obtain ⟨c, rest, rfl, hc⟩ := hn.head
    exact hc (List.cons_prefix_cons.1 hp).1.symm
  have hclose : Passes (closeTag name) (closeTag n) := by
    refine passes_first (by simp [hlt]) fun back hp => hne ?_
    have hprefix : name ++ ['>'] <+: n ++ '>' :: back := by simpa using (List.cons_prefix_cons.1 hp).2
    obtain ⟨more, rfl⟩ := prefix_of_prefix_append (hname.notMem (by decide)) ((List.prefix_append _ _).trans hprefix)
    rw [List.append_assoc, List.prefix_append_right_inj] at hprefix
    cases more with
    | nil => exact List.append_nil name
    | cons c more =>
      have hc := hn.plain c (List.mem_append_right _ List.mem_cons_self)
      rw [← (List.cons_prefix_cons.1 hprefix).1] at hc
      exact absurd (by decide) hc
  exact hopen.append ((passes_text (lt_notMem_escape hvalue) _).append hclose)

/-- a piece of a document: markup of enclosing elements, text, or one of the elements that are read -/
inductive Piece (β : Type) where
  | opening (name attrs : List Char)
  | closing (name : List Char)
  | text (t : List Char)
  | item (b : β)

section Document

variable {β : Type}

def Piece.render (write : β → List Char) : Piece β → List Char
  | .opening n attrs => openTagWith n attrs
  | .closing n => closeTag n
  | .text t => t
  | .item b => write b

def Piece.item? : Piece β → Option β
  | .item b => some b
  | _ => none

/-- what stands around the elements of the name -/
def Piece.Encloses (name : List Char) : Piece β → Prop
  | .opening n attrs => ElementName n ∧ n ≠ name ∧ Attributes attrs
  | .closing n => ElementName n ∧ n ≠ name
  | .text t => '<' ∉ t
  | .item _ => True

def document (write : β → List Char) (pieces : List (Piece β)) : List Char := pieces.flatMap (Piece.render write)

def items (pieces : List (Piece β)) : List β := pieces.filterMap Piece.item?

theorem holds_document (hname : ElementName name) {write content : β → List Char} {pieces : List (Piece β)}
    (haround : ∀ p ∈ pieces, p.Encloses name) (hitems : ∀ b ∈ items pieces, Holds name (write b) [content b]) :
    Holds name (document write pieces) ((items pieces).map content) := by
  induction pieces with
  | nil => exact .nil
  | cons p pieces ih =>
    obtain ⟨hp, haround⟩ := List.forall_mem_cons.1 haround
    have hrest := ih haround fun b hb => hitems b (by
      obtain ⟨q, hq, hqb⟩ := List.mem_filterMap.1 hb
      exact List.mem_filterMap.2 ⟨q, List.mem_cons_of_mem p hq, hqb⟩)
    cases p with
    | opening n attrs => exact .skip (skips_openTagWith hname hp.1 hp.2.1 hp.2.2) hrest
    | closing n => exact .skip (skips_closeTag hname (hp.1.notMem (by decide))) hrest
    | text t => exact .skip (skips_text hp) hrest
    | item b => exact (hitems b List.mem_cons_self).append hrest

theorem unescapeAll_escape {values : List (List Char)} (h : ∀ v ∈ values, Representable v) :
    unescapeAll (values.map escape) = .ok values := by
  induction values with
  | nil => rfl
  | cons v values ih =>
    obtain ⟨hv, hvalues⟩ := List.forall_mem_cons.1 h
    rw [List.map_cons, unescapeAll, unescape_escape hv, ih hvalues]
    rfl

/-- **Values are read back.** -/
theorem textElements_document (hname : ElementName name) {pieces : List (Piece (List Char))} (haround : ∀ p ∈ pieces, p.Encloses name)
    (hvalues : ∀ v ∈ items pieces, Representable v) (hsize : byteLen (document (tag name) pieces) ≤ MAX_XML_BYTES) :
    textElements (document (tag name) pieces) name = .ok (items pieces) := by
  have hholds : Holds name (document (tag name) pieces) ((items pieces).map escape) :=
    holds_document hname haround fun v hv => holds_tag v (hvalues v hv)
  unfold textElements
  rw [if_neg (not_lt.2 hsize), hholds.extractBlocks hname]
  exact unescapeAll_escape hvalues

end Document

/-! ## Rows -/

/-- the children of a row, each under its name if it is there -/
def children (row : List (List Char × Option (List Char))) : List Char := row.flatMap fun p => p.2.elim [] (tag p.1)

def writeRow (outer : List Char) (row : List (List Char × Option (List Char))) : List Char :=
  openTag outer ++ (children row ++ closeTag outer)

section Rows

variable {outer : List Char} {row : List (List Char × Option (List Char))}

/-- names and values are fit to be written -/
def RowRepresentable (row : List (List Char × Option (List Char))) : Prop :=
  ∀ p ∈ row, ElementName p.1 ∧ ∀ v ∈ p.2, Representable v

theorem children_cons (p : List Char × Option (List Char)) (row : List (List Char × Option (List Char))) :
    children (p :: row) = p.2.elim [] (tag p.1) ++ children row := List.flatMap_cons

theorem passes_children (houter : ElementName outer) (h : RowRepresentable row) (hne : ∀ p ∈ row, p.1 ≠ outer) :
    Passes (closeTag outer) (children row) := by
  induction row with
  | nil => exact passes_nil _
  | cons p row ih =>
    obtain ⟨⟨hn, hv⟩, hrow⟩ := List.forall_mem_cons.1 h
    obtain ⟨hp, hne⟩ := List.forall_mem_cons.1 hne
    rw [children_cons]
    refine Passes.append ?_ (ih hrow hne)
    cases hvalue : p.2 with
    | none => exact passes_nil _
    | some v => exact passes_tag houter hn hp (hv v hvalue)

theorem holds_writeRow (houter : ElementName outer) (h : RowRepresentable row) (hne : ∀ p ∈ row, p.1 ≠ outer) :
    Holds outer (writeRow outer row) [children row] := .of_passes (passes_children houter h hne)

/-- of a row's children, those of the name are found -/
theorem holds_children (hname : ElementName name) (h : RowRepresentable row) :
    Holds name (children row) (row.filterMap fun p => if p.1 = name then p.2.map escape else none) := by
  induction row with
  | nil => exact .nil
  | cons p row ih =>
    obtain ⟨⟨hn, hv⟩, hrow⟩ := List.forall_mem_cons.1 h
    obtain ⟨n, value⟩ := p
    rw [children_cons, List.filterMap_cons]
    by_cases hp : n = name
    · subst hp
      cases value with
      | none => simpa using ih hrow
      | some v => simpa using (holds_tag v (hv v rfl)).append (ih hrow)
    · cases value with
      | none => simpa [hp] using ih hrow
      | some v =>
        simp only [hp, if_false]
        exact .skip (skips_tag hname hn hp (hv v rfl)) (ih hrow)

theorem head_filterMap (hnodup : (row.map Prod.fst).Nodup) {p : List Char × Option (List Char)} (hp : p ∈ row) :
    (row.filterMap fun q => if q.1 = p.1 then q.2.map escape else none).head? = p.2.map escape := by
  induction row with
  | nil => cases hp
  | cons q row ih =>
    obtain ⟨hq, hnodup⟩ := List.nodup_cons.1 hnodup
    rw [List.filterMap_cons]
    rcases List.mem_cons.1 hp with rfl | hp
    · -- no other child has the name
      have hrest : row.filterMap (fun q => if q.1 = p.1 then q.2.map escape else none) = [] := by
        refine List.filterMap_eq_nil_iff.2 fun r hr => if_neg fun hrp => hq ?_
        exact hrp ▸ List.mem_map_of_mem hr
      rw [if_pos rfl, hrest]
      cases p.2 <;> rfl
    · have hne : q.1 ≠ p.1 := fun hqp => hq (hqp ▸ List.mem_map_of_mem hp)
      rw [if_neg hne]
      exact ih hnodup hp

theorem child_children (h : RowRepresentable row) (hnodup : (row.map Prod.fst).Nodup) {p : List Char × Option (List Char)} (hp : p ∈ row) :
    child (children row) p.1 = .ok p.2 := by
  obtain ⟨hn, hv⟩ := h p hp
  have hhead := head_filterMap hnodup hp
  rw [child, (holds_children hn h).extractBlocks hn]
  generalize (row.filterMap fun q => if q.1 = p.1 then q.2.map escape else none) = blocks at hhead ⊢
  cases blocks with
  | nil =>
    have hnone : p.2 = none := Option.map_eq_none_iff.1 hhead.symm
    rw [hnone]
    rfl
  | cons block blocks =>
    obtain ⟨v, hvalue, rfl⟩ := Option.map_eq_some_iff.1 hhead.symm
    change (unescape (escape v) >>= fun v => pure (some v)) = _
    rw [unescape_escape (hv v hvalue), hvalue]
    rfl

theorem rowOf_children (h : RowRepresentable row) (hnodup : (row.map Prod.fst).Nodup) :
    rowOf (children row) (row.map Prod.fst) = .ok (row.map Prod.snd) := by
  suffices hgen : ∀ part : List (List Char × Option (List Char)), (∀ p ∈ part, p ∈ row) →
      rowOf (children row) (part.map Prod.fst) = .ok (part.map Prod.snd) from hgen row fun p hp => hp
  intro part hpart
  induction part with
  | nil => rfl
  | cons p part ih =>
    obtain ⟨hp, hpart⟩ := List.forall_mem_cons.1 hpart
    rw [List.map_cons, rowOf, child_children h hnodup hp, ih hpart]
    rfl

/-- rows of one shape: a value, or none, for each of the names -/
def RowFits (inner : List (List Char)) (row : List (Option (List Char))) : Prop :=
  row.length = inner.length ∧ ∀ v, some v ∈ row → Representable v

theorem RowFits.representable {inner : List (List Char)} {row : List (Option (List Char))} (h : RowFits inner row)
    (hinner : ∀ n ∈ inner, ElementName n) : RowRepresentable (inner.zip row) := by
  rintro ⟨n, value⟩ hp
  obtain ⟨hn, hvalue⟩ := List.of_mem_zip hp
  refine ⟨hinner n hn, fun v hv => h.2 v ?_⟩
  rwa [← Option.mem_def.1 hv]

theorem rowsOf_children {inner : List (List Char)} (hinner : ∀ n ∈ inner, ElementName n) (hnodup : inner.Nodup)
    {rows : List (List (Option (List Char)))} (hrows : ∀ row ∈ rows, RowFits inner row) :
    rowsOf inner (rows.map fun row => children (inner.zip row)) = .ok rows := by
  induction rows with
  | nil => rfl
  | cons row rows ih =>
    obtain ⟨hrow, hrows⟩ := List.forall_mem_cons.1 hrows
    have hnames : (inner.zip row).map Prod.fst = inner := List.map_fst_zip hrow.1.ge
    have hvalues : (inner.zip row).map Prod.snd = row := List.map_snd_zip hrow.1.le
    have hread := rowOf_children (hrow.representable hinner) (by rwa [hnames])
    rw [hnames, hvalues] at hread
    rw [List.map_cons, rowsOf, hread, ih hrows]
    rfl

/-- **Rows are read back.** The names of the children differ from each other and from that of the row. -/
theorem nestedElements_document (houter : ElementName outer) {inner : List (List Char)} (hinner : ∀ n ∈ inner, ElementName n ∧ n ≠ outer)
    (hnodup : inner.Nodup) {pieces : List (Piece (List (Option (List Char))))} (haround : ∀ p ∈ pieces, p.Encloses outer)
    (hrows : ∀ row ∈ items pieces, RowFits inner row)
    (hsize : byteLen (document (fun row => writeRow outer (inner.zip row)) pieces) ≤ MAX_XML_BYTES) :
    nestedElements (document (fun row => writeRow outer (inner.zip row)) pieces) outer inner = .ok (items pieces) := by
  have hnames : ∀ n ∈ inner, ElementName n := fun n hn => (hinner n hn).1
  have hholds : Holds outer (document (fun row => writeRow outer (inner.zip row)) pieces)
      ((items pieces).map fun row => children (inner.zip row)) := holds_document houter haround fun row hrow =>
    holds_writeRow houter ((hrows row hrow).representable hnames)
      fun p hp => (hinner p.1 (List.of_mem_zip hp).1).2
  unfold nestedElements
  rw [if_neg (not_lt.2 hsize), hholds.extractBlocks houter]
  exact rowsOf_children hnames hnodup hrows

end Rows

/-- **The reader inverts the writer**, and it never panics. -/
theorem xml_reader_inverts_writer :
    (∀ (name : List Char) (pieces : List (Piece (List Char))), ElementName name → (∀ p ∈ pieces, p.Encloses name) →
      (∀ v ∈ items pieces, Representable v) → byteLen (document (tag name) pieces) ≤ MAX_XML_BYTES →
      textElements (document (tag name) pieces) name = .ok (items pieces)) ∧
    (∀ (outer : List Char) (inner : List (List Char)) (pieces : List (Piece (List (Option (List Char))))), ElementName outer →
      (∀ n ∈ inner, ElementName n ∧ n ≠ outer) → inner.Nodup → (∀ p ∈ pieces, p.Encloses outer) →
      (∀ row ∈ items pieces, RowFits inner row) →
      byteLen (document (fun row => writeRow outer (inner.zip row)) pieces) ≤ MAX_XML_BYTES →
      nestedElements (document (fun row => writeRow outer (inner.zip row)) pieces) outer inner = .ok (items pieces)) ∧
    ∀ (xml name : List Char) (inner : List (List Char)),
      textElements xml name ≠ .error .panic ∧ nestedElements xml name inner ≠ .error .panic :=
  ⟨fun _ _ hname haround hvalues hsize => textElements_document hname haround hvalues hsize,
    fun _ _ _ houter hinner hnodup haround hrows hsize => nestedElements_document houter hinner hnodup haround hrows hsize,
    fun xml name inner => ⟨textElements_ne_panic xml name, nestedElements_ne_panic xml name inner⟩⟩

/-- a deletion of one key, `a<b`, and a part with its number -/
theorem xml_reader_inverts_writer_small :
    textElements (document (tag ['K']) [.opening ['D'] [' ', 'x'], .item ['a', '<', 'b'], .closing ['D']]) ['K'] = .ok [['a', '<', 'b']] ∧
      nestedElements (document (fun row => writeRow ['P'] ([['N'], ['E']].zip row)) [.item [some ['7'], none]]) ['P'] [['N'], ['E']] =
        .ok [[some ['7'], none]] := by
  have hname : ∀ c ∈ ['K', 'D', 'P', 'N', 'E'], ElementName [c] := fun c hc => ⟨List.cons_ne_nil _ _, by
    simp only [List.mem_cons, List.not_mem_nil, or_false] at hc
    rcases hc with rfl | rfl | rfl | rfl | rfl <;> simp⟩
  constructor
  · refine xml_reader_inverts_writer.1 ['K'] [.opening ['D'] [' ', 'x'], .item ['a', '<', 'b'], .closing ['D']]
      (hname 'K' (by decide)) ?_ ?_ (by decide)
    · intro p hp
      simp only [List.mem_cons, List.not_mem_nil, or_false] at hp
      rcases hp with rfl | rfl | rfl
      · exact ⟨hname 'D' (by decide), by decide, by decide, by simp⟩
      · trivial
      · exact ⟨hname 'D' (by decide), by decide⟩
    · simp only [items, Piece.item?, List.filterMap]
      intro v hv
      rw [List.mem_singleton.1 hv]
      simp [Representable]
  · refine xml_reader_inverts_writer.2.1 ['P'] [['N'], ['E']] [.item [some ['7'], none]] (hname 'P' (by decide)) ?_ (by decide) ?_ ?_
      (by decide)
    · intro n hn
      simp only [List.mem_cons, List.not_mem_nil, or_false] at hn
      rcases hn with rfl | rfl
      · exact ⟨hname 'N' (by decide), by decide⟩
      · exact ⟨hname 'E' (by decide), by decide⟩
    · intro p hp
      rw [List.mem_singleton.1 hp]
      trivial
    · intro row hrow
      rw [List.mem_singleton.1 hrow]
      refine ⟨rfl, fun v hv => ?_⟩
      have hseven : v = ['7'] := by simpa using hv
      simp [hseven, Representable]

end Y2q.Xml
