/-
Signed `aws-chunked` bodies (`s3/body/upload.rs`): what the decoder hands on is what the holder of the signing key signed.

The holder signs requests; for each of them the seed signature, the digest of each chunk, the empty chunk at the end and, in
trailer mode, the trailer block, each together with the signature before it. Whoever sends the body chooses every byte of it:
sizes, extensions, the order of frames, pieces of other requests.

- `text_inj`: a string to sign says what it is made of.
- `Honest.distinct`: the chains of the holder's requests have no signature in common (`Core/Chains`).
- `lastFrame_signed`: what the end of a body has verified.
- `signed_body_authentic`: if no signature in the body is forged and no digest collides, then the frames are the first chunks
  of the request, and all of them with its trailer if the stream completes.
-/
import Mathlib.Tactic
import Y2q.Core.Chains
import Y2q.S3.ChunkedSlicing

namespace Y2q.SignedChunks

open ChunkedBody Chains LockstepLogic
open Labels (toAsciiLowercase stripPrefix)
open RangedGet (splitOnce)

/-! ## The holder of the key -/

inductive Kind where
  | payload
  | trailer
deriving DecidableEq, Repr

/-- what is signed together with the signature before it -/
structure Link where
  amzDate : String
  scope : String
  kind : Kind
  digest : String
deriving DecidableEq, Repr

def Link.text (l : Link) (prev : String) : String :=
  match l.kind with
  | .payload => chunkStringToSign l.amzDate l.scope prev l.digest
  | .trailer => trailerStringToSign l.amzDate l.scope prev l.digest

variable (H : Hashes) (key : Bytes)

def sign (prev : String) (l : Link) : String := H.hexHmacSha256 key (l.text prev)

/-- a request as it was signed -/
structure Upload where
  amzDate : String
  scope : String
  seed : String
  chunks : List Bytes
  trailer : Option String

def Upload.link (u : Upload) (kind : Kind) (digest : String) : Link := ⟨u.amzDate, u.scope, kind, digest⟩

def Upload.chain (u : Upload) : Chain String Link where
  seed := u.seed
  items := (u.chunks.map fun c => u.link .payload (H.sha256Hex c)) ++
    u.link .payload EMPTY_PAYLOAD_SHA256 :: u.trailer.toList.map fun t => u.link .trailer (H.sha256Hex (utf8 t))

/-- the signature after `n` links of the request -/
def Upload.signature (u : Upload) (n : ℕ) : String := (u.chain H).running (sign H key) n

def Signed (U : Set Upload) (m : String) : Prop :=
  ∃ u ∈ U, ∃ n, ∃ l : Link, (u.chain H).items[n]? = some l ∧ l.text (u.signature H key n) = m

/-- no line ends -/
def Plain (s : String) : Prop := '\n' ∉ s.toList

instance (s : String) : Decidable (Plain s) := inferInstanceAs (Decidable ('\n' ∉ s.toList))

/-- the holder signs no empty chunk but at the end, no two requests with one seed, and no two of its strings share a signature -/
structure Honest (U : Set Upload) : Prop where
  plain : ∀ u ∈ U, Plain u.amzDate ∧ Plain u.scope ∧ Plain u.seed
  seeds : ∀ u ∈ U, ∀ u' ∈ U, u.seed = u'.seed → u = u'
  collisionFree : ∀ {m m'}, Signed H key U m → Signed H key U m' → H.hexHmacSha256 key m = H.hexHmacSha256 key m' → m = m'
  fresh : ∀ u ∈ U, ∀ {m}, Signed H key U m → H.hexHmacSha256 key m ≠ u.seed
  nonempty : ∀ u ∈ U, ∀ c ∈ u.chunks, H.sha256Hex c ≠ EMPTY_PAYLOAD_SHA256

variable {H key} {U : Set Upload} {u : Upload}

/-! ## Strings to sign -/

theorem line_inj {a a' b b' : List Char} (ha : '\n' ∉ a) (ha' : '\n' ∉ a') (h : a ++ '\n' :: b = a' ++ '\n' :: b') :
    a = a' ∧ b = b' := by
  induction a generalizing a' with
  | nil =>
    cases a' with
    | nil => exact ⟨rfl, (List.cons.inj h).2⟩
    | cons c a' =>
      rw [List.nil_append, List.cons_append, List.cons.injEq] at h
      exact absurd (h.1 ▸ List.mem_cons_self) ha'
  | cons c a ih =>
    cases a' with
    | nil =>
      rw [List.nil_append, List.cons_append, List.cons.injEq] at h
      exact absurd (h.1 ▸ List.mem_cons_self) ha
    | cons c' a' =>
      rw [List.cons_append, List.cons_append, List.cons.injEq] at h
      obtain ⟨rfl, h⟩ := h
      rw [List.mem_cons, not_or] at ha ha'
      obtain ⟨rfl, hb⟩ := ih ha.2 ha'.2 h
      exact ⟨rfl, hb⟩

def Kind.headline : Kind → String
  | .payload => "AWS4-HMAC-SHA256-PAYLOAD"
  | .trailer => "AWS4-HMAC-SHA256-TRAILER"

/-- what stands after the signature -/
def Link.tail (l : Link) : List Char :=
  match l.kind with
  | .payload => EMPTY_PAYLOAD_SHA256.toList ++ '\n' :: l.digest.toList
  | .trailer => l.digest.toList

theorem newline_toList : "\n".toList = ['\n'] := rfl

theorem chunkStringToSign_toList (amzDate scope prev digest : String) : (chunkStringToSign amzDate scope prev digest).toList =
    "AWS4-HMAC-SHA256-PAYLOAD".toList ++ '\n' :: (amzDate.toList ++ '\n' :: (scope.toList ++ '\n' :: (prev.toList ++
      '\n' :: (EMPTY_PAYLOAD_SHA256.toList ++ '\n' :: digest.toList)))) := by
  have hheadline : "AWS4-HMAC-SHA256-PAYLOAD\n".toList = "AWS4-HMAC-SHA256-PAYLOAD".toList ++ ['\n'] := rfl
  unfold chunkStringToSign
  generalize EMPTY_PAYLOAD_SHA256 = empty
  simp only [String.toList_append]
  rw [newline_toList, hheadline]
  generalize "AWS4-HMAC-SHA256-PAYLOAD".toList = headline
  simp only [List.append_assoc, List.cons_append, List.nil_append]

theorem trailerStringToSign_toList (amzDate scope prev digest : String) :
    (trailerStringToSign amzDate scope prev digest).toList = "AWS4-HMAC-SHA256-TRAILER".toList ++ '\n' :: (amzDate.toList ++
      '\n' :: (scope.toList ++ '\n' :: (prev.toList ++ '\n' :: digest.toList))) := by
  have hheadline : "AWS4-HMAC-SHA256-TRAILER\n".toList = "AWS4-HMAC-SHA256-TRAILER".toList ++ ['\n'] := rfl
  unfold trailerStringToSign
  simp only [String.toList_append]
  rw [newline_toList, hheadline]
  generalize "AWS4-HMAC-SHA256-TRAILER".toList = headline
  simp only [List.append_assoc, List.cons_append, List.nil_append]

theorem text_toList (l : Link) (prev : String) : (l.text prev).toList = l.kind.headline.toList ++ '\n' :: (l.amzDate.toList ++
    '\n' :: (l.scope.toList ++ '\n' :: (prev.toList ++ '\n' :: l.tail))) := by
  obtain ⟨amzDate, scope, kind, digest⟩ := l
  cases kind with
  | payload => exact chunkStringToSign_toList amzDate scope prev digest
  | trailer => exact trailerStringToSign_toList amzDate scope prev digest

theorem headline_plain (k : Kind) : '\n' ∉ k.headline.toList := by
  cases k <;> decide

theorem headline_inj {k k' : Kind} (h : k.headline.toList = k'.headline.toList) : k = k' := by
  revert h
  cases k <;> cases k' <;> decide

/-- **A string to sign says what it is made of**, provided that date, scope and signature are single lines. -/
theorem text_inj {l l' : Link} {prev prev' : String} (hl : Plain l.amzDate ∧ Plain l.scope ∧ Plain prev)
    (hl' : Plain l'.amzDate ∧ Plain l'.scope ∧ Plain prev') (h : l.text prev = l'.text prev') : prev = prev' ∧ l = l' := by
  have h := congrArg String.toList h
  rw [text_toList, text_toList] at h
  obtain ⟨hkind, h⟩ := line_inj (headline_plain _) (headline_plain _) h
  obtain ⟨hdate, h⟩ := line_inj hl.1 hl'.1 h
  obtain ⟨hscope, h⟩ := line_inj hl.2.1 hl'.2.1 h
  obtain ⟨hprev, h⟩ := line_inj hl.2.2 hl'.2.2 h
  have hkind := headline_inj hkind
  refine ⟨String.toList_inj.1 hprev, ?_⟩
  obtain ⟨amzDate, scope, kind, digest⟩ := l
  obtain ⟨amzDate', scope', kind', digest'⟩ := l'
  simp only at hkind hdate hscope
  subst hkind
  rw [String.toList_inj] at hdate hscope
  have hdigest : digest = digest' := by
    cases kind with
    | payload =>
      have h := List.append_cancel_left h
      exact String.toList_inj.1 (List.cons.inj h).2
    | trailer => exact String.toList_inj.1 h
  rw [hdate, hscope, hdigest]

theorem hexChar_ne_newline {n : ℕ} (h : n < 16) : hexChar n ≠ '\n' := by
  have hall : ∀ n : Fin 16, hexChar n.val ≠ '\n' := by decide
  exact hall ⟨n, h⟩

theorem plain_hexEncode (b : Bytes) : Plain (hexEncode b) := by
  unfold Plain hexEncode
  rw [String.toList_ofList, List.mem_flatMap]
  rintro ⟨x, -, hx⟩
  have hlt := x.toNat_lt
  rcases List.mem_pair.1 hx with h | h
  · exact hexChar_ne_newline (by omega) h.symm
  · exact hexChar_ne_newline (by omega) h.symm

/-! ## The holder's chains -/

theorem link_of_items {n : ℕ} {l : Link} (h : (u.chain H).items[n]? = some l) : l.amzDate = u.amzDate ∧ l.scope = u.scope := by
  have hmem := List.mem_of_getElem? h
  rcases List.mem_append.1 hmem with hl | hl
  · obtain ⟨c, -, rfl⟩ := List.mem_map.1 hl
    exact ⟨rfl, rfl⟩
  · rcases List.mem_cons.1 hl with rfl | hl
    · exact ⟨rfl, rfl⟩
    · obtain ⟨t, -, rfl⟩ := List.mem_map.1 hl
      exact ⟨rfl, rfl⟩

theorem Upload.signature_plain (h : Plain u.seed) (n : ℕ) : Plain (u.signature H key n) := by
  cases n with
  | zero => exact h
  | succ n =>
    cases hi : (u.chain H).items[n]? with
    | some i =>
      rw [Upload.signature, running_succ hi]
      exact plain_hexEncode _
    | none =>
      have hlen := List.getElem?_eq_none_iff.1 hi
      have hsame : u.signature H key (n + 1) = u.signature H key n := by
        unfold Upload.signature Chain.running
        rw [List.take_of_length_le hlen, List.take_of_length_le (by omega)]
      rw [hsame]
      exact Upload.signature_plain h n

/-- a signed string is a link of the chains -/
theorem Honest.links (hU : Honest H key U) {l : Link} {prev : String} (hl : Plain l.amzDate ∧ Plain l.scope ∧ Plain prev)
    (h : Signed H key U (l.text prev)) : Links (sign H key) (Upload.chain H '' U) prev l := by
  obtain ⟨u, hu, n, l', hn, htext⟩ := h
  obtain ⟨hdate, hscope, hseed⟩ := hU.plain u hu
  obtain ⟨hdate', hscope'⟩ := link_of_items hn
  obtain ⟨hprev, rfl⟩ := text_inj ⟨hdate' ▸ hdate, hscope' ▸ hscope, Upload.signature_plain hseed n⟩ hl htext
  exact ⟨u.chain H, ⟨u, hu, rfl⟩, n, hn, hprev⟩

/-- and the other way round -/
theorem Honest.signed (hU : Honest H key U) {l : Link} {prev : String} (h : Links (sign H key) (Upload.chain H '' U) prev l) :
    Signed H key U (l.text prev) ∧ Plain l.amzDate ∧ Plain l.scope ∧ Plain prev := by
  obtain ⟨_, ⟨u, hu, rfl⟩, n, hn, rfl⟩ := h
  obtain ⟨hdate, hscope, hseed⟩ := hU.plain u hu
  obtain ⟨hdate', hscope'⟩ := link_of_items hn
  exact ⟨⟨u, hu, n, l, hn, rfl⟩, hdate' ▸ hdate, hscope' ▸ hscope, Upload.signature_plain hseed n⟩

theorem Honest.distinct (hU : Honest H key U) : Distinct (sign H key) (Upload.chain H '' U) where
  seeds := by
    rintro _ ⟨u, hu, rfl⟩ _ ⟨u', hu', rfl⟩ h
    rw [hU.seeds u hu u' hu' h]
  links := by
    intro s s' i i' hs hs' h
    obtain ⟨hsigned, hplain⟩ := hU.signed hs
    obtain ⟨hsigned', hplain'⟩ := hU.signed hs'
    exact text_inj hplain hplain' (hU.collisionFree hsigned hsigned' h)
  fresh := by
    rintro _ ⟨u, hu, rfl⟩ s i hs
    exact hU.fresh u hu (hU.signed hs).1

/-- what may follow `n` links of a request is its next link -/
theorem Honest.next (hU : Honest H key U) (hu : u ∈ U) {n : ℕ} (hn : n ≤ u.chunks.length + 1) {l : Link} (hdate : l.amzDate = u.amzDate)
    (hscope : l.scope = u.scope) (h : Signed H key U (l.text (u.signature H key n))) : (u.chain H).items[n]? = some l := by
  obtain ⟨hdate', hscope', hseed⟩ := hU.plain u hu
  have hlinks := hU.links ⟨hdate ▸ hdate', hscope ▸ hscope', Upload.signature_plain hseed n⟩ h
  refine getElem_of_links hU.distinct ⟨u, hu, rfl⟩ ?_ hlinks
  simp only [Upload.chain, List.length_append, List.length_map, List.length_cons]
  omega

theorem sign_payload (prev digest : String) :
    sign H key prev (u.link .payload digest) = H.hexHmacSha256 key (chunkStringToSign u.amzDate u.scope prev digest) := rfl

theorem sign_trailer (prev digest : String) :
    sign H key prev (u.link .trailer digest) = H.hexHmacSha256 key (trailerStringToSign u.amzDate u.scope prev digest) := rfl

theorem signature_succ {n : ℕ} {l : Link} (h : (u.chain H).items[n]? = some l) :
    u.signature H key (n + 1) = sign H key (u.signature H key n) l := running_succ h

/-- the links of kind payload are those of the chunks and the empty one after them -/
theorem payload_item {n : ℕ} {digest : String} (h : (u.chain H).items[n]? = some (u.link .payload digest)) :
    (∃ c, u.chunks[n]? = some c ∧ H.sha256Hex c = digest) ∨ n = u.chunks.length ∧ digest = EMPTY_PAYLOAD_SHA256 := by
  rcases Nat.lt_trichotomy n u.chunks.length with hlt | rfl | hgt
  · rw [Upload.chain, List.getElem?_append_left (by rwa [List.length_map]), List.getElem?_map,
      List.getElem?_eq_getElem hlt] at h
    exact Or.inl ⟨_, List.getElem?_eq_getElem hlt, congrArg Link.digest (Option.some.inj h)⟩
  · rw [Upload.chain, List.getElem?_append_right (by rw [List.length_map]), List.length_map, Nat.sub_self] at h
    exact Or.inr ⟨rfl, (congrArg Link.digest (Option.some.inj h)).symm⟩
  · obtain ⟨k, rfl⟩ := Nat.exists_eq_add_of_lt hgt
    rw [Upload.chain, List.getElem?_append_right (by rw [List.length_map]; omega), List.length_map,
      show u.chunks.length + k + 1 - u.chunks.length = k + 1 by omega, List.getElem?_cons_succ] at h
    obtain ⟨t, -, ht⟩ := List.mem_map.1 (List.mem_of_getElem? h)
    cases congrArg Link.kind ht

/-- the link of kind trailer is that of the trailer -/
theorem trailer_item {n : ℕ} {digest : String} (h : (u.chain H).items[n]? = some (u.link .trailer digest)) :
    ∃ t, u.trailer = some t ∧ H.sha256Hex (utf8 t) = digest := by
  rcases List.mem_append.1 (List.mem_of_getElem? h) with hl | hl
  · obtain ⟨c, -, hc⟩ := List.mem_map.1 hl
    cases congrArg Link.kind hc
  · rcases List.mem_cons.1 hl with hc | hl
    · cases congrArg Link.kind hc
    · obtain ⟨t, ht, heq⟩ := List.mem_map.1 hl
      exact ⟨t, Option.mem_toList.1 ht, congrArg Link.digest heq⟩

/-! ## Bodies -/

def crlfLines (lines : List String) : Bytes := lines.flatMap fun l => utf8 l ++ [13, 10]

/-- a line of the body declares this signature -/
def Presented (body : Bytes) (sig : String) : Prop :=
  ∃ line, utf8 line <:+: body ∧ ((splitHeader line).2 = some sig ∨ (trailerBlock [line]).signature = some sig)

/-- a link that something in the body may be taken for -/
inductive Occurs (H : Hashes) (u : Upload) (body : Bytes) : Link → Prop where
  | chunk {data : Bytes} (h : data <:+: body) : Occurs H u body (u.link .payload (H.sha256Hex data))
  | last : Occurs H u body (u.link .payload EMPTY_PAYLOAD_SHA256)
  | trailer {lines : List String} (h : crlfLines lines <:+: body) :
    Occurs H u body (u.link .trailer (H.sha256Hex (utf8 (trailerBlock lines).content)))

/-- no signature in the body is forged, and no digest of something in it is that of something else that was signed -/
structure Unforged (H : Hashes) (key : Bytes) (U : Set Upload) (u : Upload) (body : Bytes) : Prop where
  signed : ∀ {n l}, Occurs H u body l → Presented body (sign H key (u.signature H key n) l) →
    Signed H key U (l.text (u.signature H key n))
  chunk : ∀ {data}, data <:+: body → ∀ c ∈ u.chunks, H.sha256Hex c = H.sha256Hex data → data = c
  last : ∀ {data}, data <:+: body → H.sha256Hex data = EMPTY_PAYLOAD_SHA256 → data = []
  trailer : ∀ {lines}, crlfLines lines <:+: body → ∀ t, u.trailer = some t →
    H.sha256Hex (utf8 t) = H.sha256Hex (utf8 (trailerBlock lines).content) → (trailerBlock lines).content = t

theorem Presented.mono {body body' : Bytes} {sig : String} (h : Presented body sig) (hb : body <:+: body') : Presented body' sig := by
  obtain ⟨line, hline, hsig⟩ := h
  exact ⟨line, hline.trans hb, hsig⟩

section Decoding

variable {ε : Type} {s s' : ChunkedState ε}

theorem trailerLines_stands {n : ℕ} {t t' : TrailerBlock} (h : (trailerLines n t).run s = .ok t' s') :
    ∃ lines : List String, t' = lines.foldl TrailerBlock.add t ∧ s.rest = crlfLines lines ++ 13 :: 10 :: s'.rest ∧ Moved s s' := by
  induction n generalizing s t with
  | zero => cases h
  | succ n ih =>
    obtain ⟨line, v, hline, h⟩ := run_bind_ok.1 h
    obtain ⟨hrest, hmoved⟩ := readLine_ok hline
    split_ifs at h with hempty
    · cases h
      refine ⟨[], rfl, ?_, hmoved⟩
      rw [hrest, hempty]
      rfl
    · obtain ⟨lines, ht, hlines, hmoved'⟩ := ih h
      refine ⟨line :: lines, ht, ?_, hmoved.trans hmoved'⟩
      rw [hrest, hlines]
      simp [crlfLines]

/-- the signature of a block stands in one of its lines -/
theorem signature_of_lines (lines : List String) {t : TrailerBlock} {sig : String}
    (h : (lines.foldl TrailerBlock.add t).signature = some sig) :
    t.signature = some sig ∨ ∃ l ∈ lines, (trailerBlock [l]).signature = some sig := by
  induction lines generalizing t with
  | nil => exact Or.inl h
  | cons l lines ih =>
    rcases ih h with hadd | ⟨l', hl', hsig⟩
    · unfold TrailerBlock.add at hadd
      split at hadd
      · next rest hrest =>
        refine Or.inr ⟨l, List.mem_cons_self, ?_⟩
        simp only [trailerBlock, List.foldl_cons, List.foldl_nil, TrailerBlock.add, hrest]
        exact hadd
      · simp only at hadd
        split at hadd
        · exact Or.inl hadd
        · exact Or.inl hadd
    · exact Or.inr ⟨l', List.mem_cons_of_mem _ hl', hsig⟩

theorem infix_crlfLines {lines : List String} {l : String} (h : l ∈ lines) : utf8 l <:+: crlfLines lines := by
  obtain ⟨before, after, rfl⟩ := List.append_of_mem h
  refine ⟨crlfLines before, [13, 10] ++ crlfLines after, ?_⟩
  simp [crlfLines]

/-- a signature that verifies is declared, and is the next running signature -/
theorem linked_some {declaredSig : Option String} {text : Signing → String} {g : Signing} {g' : Option Signing}
    (h : Linked H declaredSig text (some g) g') : declaredSig = some (H.hexHmacSha256 g.signingKey (text g)) ∧
      g' = some { g with prevSignature := H.hexHmacSha256 g.signingKey (text g) } := by
  rcases h with ⟨hnone, -⟩ | ⟨signing, declared, hsome, hdeclared, hsig, hg'⟩
  · cases hnone
  · cases hsome
    rw [hsig]
    exact ⟨hdeclared, hg'⟩

/-- what the end of a signed body has verified -/
theorem lastFrame_signed (h : (nextChunkedFrame H).run s = .ok none s') (hfinished : s.finished = false) {prev : String}
    (hg : s.signing = some ⟨key, u.scope, u.amzDate, prev⟩) :
    Presented s.rest (sign H key prev (u.link .payload EMPTY_PAYLOAD_SHA256)) ∧
      (s.expectTrailer = true → ∃ lines, crlfLines lines <:+: s.rest ∧
        Presented s.rest (sign H key (sign H key prev (u.link .payload EMPTY_PAYLOAD_SHA256))
          (u.link .trailer (H.sha256Hex (utf8 (trailerBlock lines).content)))) ∧
        checkTrailer H s.trailerChecksum s.checksumHasher (trailerBlock lines).values = true) := by
  obtain ⟨finished, w, hget, h⟩ := run_bind_ok.1 h
  cases hget
  rw [hfinished] at h
  obtain ⟨line, w, hline, h⟩ := run_bind_ok.1 h
  obtain ⟨hrest, hmoved⟩ := readLine_ok hline
  rw [frame] at h
  simp only at h
  split at h
  · cases h
  · obtain ⟨_, _, hget, h⟩ := run_bind_ok.1 h
    cases hget
    split_ifs at h with hbig hzero
    · cases h
    · have hsuffix : w.rest <:+: s.rest := ⟨utf8 line ++ [13, 10], [], by rw [hrest]; simp⟩
      rw [Moved] at hmoved
      have hwsigning : w.signing = some ⟨key, u.scope, u.amzDate, prev⟩ := by rw [hmoved]; exact hg
      obtain ⟨_, v, hsig, h⟩ := run_bind_ok.1 h
      obtain ⟨hlinked, hv⟩ := verifySignature_ok hsig
      rw [hwsigning] at hlinked
      obtain ⟨hdeclared, hvsigning⟩ := linked_some hlinked
      have hline' : utf8 line <:+: s.rest := ⟨[], 13 :: 10 :: w.rest, by rw [hrest, List.nil_append]⟩
      refine ⟨⟨line, hline', Or.inl hdeclared⟩, fun hexpect => ?_⟩
      have hvrest : v.rest = w.rest := by rw [hv]; rfl
      obtain ⟨expect, w, hget, h⟩ := run_bind_ok.1 h
      cases hget
      have hvexpect : v.expectTrailer = true := by rw [hv, hmoved]; exact hexpect
      obtain ⟨values, w, hblock, h⟩ := run_bind_ok.1 h
      rw [hvexpect] at hblock
      obtain ⟨rest, _, hget, hblock⟩ := run_bind_ok.1 hblock
      cases hget
      obtain ⟨t, x, hlines, hblock⟩ := run_bind_ok.1 hblock
      obtain ⟨lines, rfl, hstands, hmoved'⟩ := trailerLines_stands hlines
      obtain ⟨_, y, htrailer, hblock⟩ := run_bind_ok.1 hblock
      obtain ⟨hlinked', hy⟩ := verifySignature_ok htrailer
      obtain ⟨_, z, hset, hblock⟩ := run_bind_ok.1 hblock
      cases hset
      cases hblock
      rw [Moved] at hmoved'
      have hxsigning : x.signing = v.signing := by rw [hmoved']
      rw [hxsigning, hvsigning] at hlinked'
      obtain ⟨hdeclared', -⟩ := linked_some hlinked'
      have hinfix : crlfLines lines <:+: s.rest := by
        refine List.IsInfix.trans ⟨[], 13 :: 10 :: x.rest, ?_⟩ hsuffix
        rw [← hvrest, hstands, List.nil_append]
      refine ⟨lines, hinfix, ?_, ?_⟩
      · rcases signature_of_lines lines hdeclared' with hnone | ⟨l, hl, hsig⟩
        · cases hnone
        · exact ⟨l, (infix_crlfLines hl).trans hinfix, Or.inr hsig⟩
      · obtain ⟨checked, _, hget, h⟩ := run_bind_ok.1 h
        cases hget
        split_ifs at h with hchecked
        · rw [hy, hmoved', hv, hmoved] at hchecked
          exact hchecked
        · cases h
    · obtain ⟨data, hdata, -⟩ := dataFrame_ok hrest hmoved hzero h
      cases hdata

/-! ## Runs -/

/-- the decoder has verified the first `k` chunks of the request -/
structure At (H : Hashes) (key : Bytes) (u : Upload) (body : Bytes) (k : ℕ) (s : ChunkedState ε) : Prop where
  signing : s.signing = some ⟨key, u.scope, u.amzDate, u.signature H key k⟩
  within : s.rest <:+ body
  finished : s.finished = false
  count : k ≤ u.chunks.length

variable {body : Bytes} {k : ℕ}

theorem At.frame (hU : Honest H key U) (hu : u ∈ U) (hbody : Unforged H key U u body) (h : At H key u body k s) {data : Bytes}
    (hnext : (nextChunkedFrame H).run s = .ok (some data) s') : u.chunks[k]? = some data ∧ At H key u body (k + 1) s' ∧
      s'.expectTrailer = s.expectTrailer ∧ s'.trailerChecksum = s.trailerChecksum ∧
        s'.checksumHasher = s.checksumHasher.map (· ++ data) := by
  rcases nextChunkedFrame_ok hnext with ⟨-, hnone⟩ | ⟨-, ⟨data', hdata, hframe⟩ | ⟨hnone, -⟩⟩
  · cases hnone
  · cases hdata
    obtain ⟨line, hrest, hlinked⟩ := hframe.stands
    rw [h.signing] at hlinked
    obtain ⟨hdeclared, hsigning⟩ := linked_some hlinked
    have hline : utf8 line <:+: body := List.IsInfix.trans ⟨[], _, hrest.symm⟩ h.within.isInfix
    have hinfix : data <:+: body :=
      List.IsInfix.trans ⟨utf8 line ++ [13, 10], 13 :: 10 :: s'.rest, by rw [hrest]; simp⟩ h.within.isInfix
    have hsigned := hbody.signed (n := k) (.chunk hinfix) ⟨line, hline, Or.inl hdeclared⟩
    have hitem := hU.next hu (h.count.trans (Nat.le_succ _)) rfl rfl hsigned
    have hchunk : u.chunks[k]? = some data := by
      rcases payload_item hitem with ⟨c, hc, hsha⟩ | ⟨-, hsha⟩
      · rw [hbody.chunk hinfix c (List.mem_of_getElem? hc) hsha, hc]
      · exact absurd (hbody.last hinfix hsha) hframe.nonempty
    have hmoved := hframe.moved
    refine ⟨hchunk, ⟨?_, ?_, ?_, (List.getElem?_eq_some_iff.1 hchunk).1⟩, by rw [hmoved], by rw [hmoved], by rw [hmoved]⟩
    · rw [hsigning, signature_succ hitem, sign_payload]
    · exact List.IsSuffix.trans ⟨utf8 line ++ 13 :: 10 :: (data ++ [13, 10]), by rw [hrest]; simp⟩ h.within
    · rw [hmoved]
      exact h.finished
  · cases hnone

theorem At.last (hU : Honest H key U) (hu : u ∈ U) (hbody : Unforged H key U u body) (h : At H key u body k s)
    (hnext : (nextChunkedFrame H).run s = .ok none s') : k = u.chunks.length ∧ (s.expectTrailer = true →
      ∃ lines, crlfLines lines <:+: body ∧ u.trailer = some (trailerBlock lines).content ∧
        checkTrailer H s.trailerChecksum s.checksumHasher (trailerBlock lines).values = true) := by
  obtain ⟨hlast, htrailer⟩ := lastFrame_signed hnext h.finished h.signing
  have hitem := hU.next hu (h.count.trans (Nat.le_succ _)) rfl rfl (hbody.signed (n := k) .last (hlast.mono h.within.isInfix))
  have hk : k = u.chunks.length := by
    rcases payload_item hitem with ⟨c, hc, hsha⟩ | ⟨hk, -⟩
    · exact absurd hsha (hU.nonempty u hu c (List.mem_of_getElem? hc))
    · exact hk
  refine ⟨hk, fun hexpect => ?_⟩
  obtain ⟨lines, hinfix, hpresented, hchecked⟩ := htrailer hexpect
  have hwithin := hinfix.trans h.within.isInfix
  rw [← signature_succ hitem] at hpresented
  have hsigned := hbody.signed (n := k + 1) (.trailer hwithin) (hpresented.mono h.within.isInfix)
  obtain ⟨t, ht, hsha⟩ := trailer_item (hU.next hu (by omega) rfl rfl hsigned)
  exact ⟨lines, hwithin, by rw [ht, hbody.trailer hwithin t ht hsha], hchecked⟩

/-- a run of the decoder from inside the request -/
theorem At.polls (hU : Honest H key U) (hu : u ∈ U) (hbody : Unforged H key U u body) {n : ℕ} {frames : List Bytes}
    {o : Option (Outcome ε)} (h : At H key u body k s) (hpolls : polls H n s = (frames, o)) : frames <+: u.chunks.drop k ∧
      (o = some .complete → frames = u.chunks.drop k ∧ (s.expectTrailer = true →
        ∃ lines, crlfLines lines <:+: body ∧ u.trailer = some (trailerBlock lines).content ∧
          checkTrailer H s.trailerChecksum (s.checksumHasher.map (· ++ frames.flatten)) (trailerBlock lines).values = true)) := by
  induction n generalizing s k frames with
  | zero =>
    cases hpolls
    exact ⟨List.nil_prefix, fun hdone => by cases hdone⟩
  | succ n ih =>
    rw [ChunkedBody.polls] at hpolls
    cases hnext : (nextChunkedFrame H).run s with
    | error e s' =>
      rw [hnext] at hpolls
      cases hpolls
      exact ⟨List.nil_prefix, fun hdone => by cases hdone⟩
    | ok r s' =>
      rw [hnext] at hpolls
      cases r with
      | none =>
        cases hpolls
        obtain ⟨hk, htrailer⟩ := h.last hU hu hbody hnext
        refine ⟨List.nil_prefix, fun _ => ⟨by rw [hk, List.drop_length], fun hexpect => ?_⟩⟩
        obtain ⟨lines, hwithin, hcontent, hchecked⟩ := htrailer hexpect
        have hsame : s.checksumHasher.map (· ++ ([] : List Bytes).flatten) = s.checksumHasher := by simp
        exact ⟨lines, hwithin, hcontent, by rw [hsame]; exact hchecked⟩
      | some data =>
        obtain ⟨hchunk, hat, hexpect, halgo, hhasher⟩ := h.frame hU hu hbody hnext
        simp only [Prod.mk.injEq] at hpolls
        obtain ⟨rfl, ho⟩ := hpolls
        obtain ⟨hpre, hcomplete⟩ := ih hat (Prod.ext rfl ho)
        have hdrop : u.chunks.drop k = data :: u.chunks.drop (k + 1) := by
          obtain ⟨hlt, hget⟩ := List.getElem?_eq_some_iff.1 hchunk
          rw [List.drop_eq_getElem_cons hlt, hget]
        refine ⟨by rw [hdrop]; exact List.cons_prefix_cons.2 ⟨rfl, hpre⟩, fun hdone => ?_⟩
        obtain ⟨hframes, htrailer⟩ := hcomplete hdone
        refine ⟨by rw [hdrop]; exact congrArg (data :: ·) hframes, fun hexpects => ?_⟩
        obtain ⟨lines, hwithin, hcontent, hchecked⟩ := htrailer (hexpect.trans hexpects)
        refine ⟨lines, hwithin, hcontent, ?_⟩
        have hmap : (s.checksumHasher.map (· ++ data)).map (· ++ (polls H n s').1.flatten) =
            s.checksumHasher.map (· ++ (data :: (polls H n s').1).flatten) := by
          rw [Option.map_map]
          congr 1
          funext b
          simp
        rwa [halgo, hhasher, hmap] at hchecked

/-- **Signed bodies are authentic and complete.** Whatever is sent under the seed signature of a request, in whatever pieces: if
no signature in it is forged and no digest collides, then at every moment the frames handed on are the first chunks of that
request, whole and in order; and if the stream completes they are all of them, and in trailer mode the trailer block is the one
that was signed, its checksum that of the chunks. -/
theorem signed_body_authentic (H : Hashes) (key : Bytes) (U : Set Upload) (hU : Honest H key U) {u : Upload} (hu : u ∈ U)
    (inner : List (Except ε Bytes)) (o : ChunkedOptions) (ho : o.chunkSigning = some ⟨key, u.scope, u.amzDate, u.seed⟩)
    (hbody : Unforged H key U u (inner.flatMap pieceBytes)) :
    (∀ n, (polls H n (decodeAwsChunked inner o)).1 <+: u.chunks) ∧
      ∀ frames, Yields H (decodeAwsChunked inner o) frames .complete → frames = u.chunks ∧ (o.expectTrailer = true →
        ∃ lines, crlfLines lines <:+: inner.flatMap pieceBytes ∧ u.trailer = some (trailerBlock lines).content ∧
          checkTrailer H o.trailerChecksum (o.trailerChecksum.map fun _ => u.chunks.flatten) (trailerBlock lines).values = true) := by
  have hat : At H key u (inner.flatMap pieceBytes) 0 (decodeAwsChunked inner o) := ⟨ho, List.suffix_rfl, rfl, Nat.zero_le _⟩
  refine ⟨fun n => (hat.polls hU hu hbody rfl).1, fun frames hyields => ?_⟩
  obtain ⟨n, hn⟩ := hyields
  obtain ⟨hframes, htrailer⟩ := (hat.polls hU hu hbody hn).2 rfl
  refine ⟨hframes, fun hexpect => ?_⟩
  obtain ⟨lines, hwithin, hcontent, hchecked⟩ := htrailer hexpect
  refine ⟨lines, hwithin, hcontent, ?_⟩
  rw [List.drop_zero] at hframes
  have hhasher : (decodeAwsChunked inner o).checksumHasher.map (· ++ frames.flatten) =
      o.trailerChecksum.map fun _ => u.chunks.flatten := by
    simp only [decodeAwsChunked, Option.map_map, hframes]
    rfl
  rwa [hhasher] at hchecked

end Decoding

/-! ## One upload, as it was signed -/

theorem mem_utf8 {c : Char} {s : String} (hc : c ∈ s.toList) (h : c.toNat < 128) : UInt8.ofNat c.toNat ∈ utf8 s := by
  rw [← String.ofList_toList (s := s), utf8_ofList, List.mem_flatMap]
  exact ⟨c, hc, by rw [utf8EncodeChar_ascii h]; exact List.mem_singleton_self _⟩

theorem splitOnce_subset {sep : Char} {l a b : List Char} (h : splitOnce sep l = some (a, b)) : b ⊆ l := by
  induction l generalizing a with
  | nil => cases h
  | cons c l ih =>
    rw [splitOnce] at h
    split_ifs at h
    · cases h
      exact List.subset_cons_self c b
    · obtain ⟨p, hp, heq⟩ := Option.map_eq_some_iff.1 h
      cases heq
      exact List.subset_cons_of_subset c (ih hp)

/-- the signature of a header line stands in it -/
theorem splitHeader_subset {line sig : String} (h : (splitHeader line).2 = some sig) : sig.toList ⊆ line.toList := by
  unfold splitHeader at h
  split at h
  · next a rest hrest =>
    have hpre := congrArg String.toList (Labels.stripPrefix_eq_some.1 h)
    rw [String.toList_ofList, String.toList_append] at hpre
    intro c hc
    have htrim : c ∈ trim rest := hpre ▸ List.mem_append_right _ hc
    have hback := (List.dropWhile_suffix _).subset (List.mem_reverse.1 htrim)
    exact splitOnce_subset hrest ((List.dropWhile_suffix _).subset (List.mem_reverse.1 hback))
  · cases h

theorem toLower_eq_colon {c : Char} (h : c.toLower = ':') : c = ':' := by
  by_cases hupper : c.val ≥ 'A'.val ∧ c.val ≤ 'Z'.val
  · have hval : c.val + 32 = 58 := congrArg Char.val ((dif_pos hupper).symm.trans h)
    have hlow : 65 ≤ c.val.toNat := UInt32.le_iff_toNat_le.1 hupper.1
    have hhigh : c.val.toNat ≤ 90 := UInt32.le_iff_toNat_le.1 hupper.2
    have hsum : (c.val.toNat + 32) % 2 ^ 32 = 58 := congrArg UInt32.toNat hval
    omega
  · exact (dif_neg hupper).symm.trans h

/-- a line with a trailer signature has a colon -/
theorem colon_of_trailer {line sig : String} (h : (trailerBlock [line]).signature = some sig) : ':' ∈ line.toList := by
  simp only [trailerBlock, List.foldl_cons, List.foldl_nil, TrailerBlock.add] at h
  split at h
  · next rest hrest =>
    have hpre := congrArg String.toList (Labels.stripPrefix_eq_some.1 hrest)
    rw [toAsciiLowercase, String.toList_ofList, String.toList_append] at hpre
    have hmem : ':' ∈ line.toList.map Char.toLower := by
      rw [hpre]
      exact List.mem_append_left _ (by decide)
    obtain ⟨c, hc, hlower⟩ := List.mem_map.1 hmem
    exact toLower_eq_colon hlower ▸ hc
  · split at h <;> cases h

theorem Presented.mem {body : Bytes} {sig : String} (h : Presented body sig) (hcolon : 58 ∉ body) {c : Char} (hc : c ∈ sig.toList)
    (hascii : c.toNat < 128) : UInt8.ofNat c.toNat ∈ body := by
  obtain ⟨line, hline, hsig | hsig⟩ := h
  · exact hline.subset (mem_utf8 (splitHeader_subset hsig hc) hascii)
  · exact absurd (hline.subset (mem_utf8 (colon_of_trailer hsig) (by decide))) hcolon

namespace Drill

def digestHex (x : UInt8) : String := hexEncode (List.replicate 32 x)

def chunkText : String := chunkStringToSign "d" "s" "f" (digestHex 1)

def lastText : String := chunkStringToSign "d" "s" (digestHex 0xaa) EMPTY_PAYLOAD_SHA256

/-- one digest for the chunk and one for the rest, one signature for each text signed and one for the rest -/
def hashes : Hashes where
  sha256 b := List.replicate 32 (if b = [88] then 1 else 2)
  hmacSha256 _ m := List.replicate 32 (if m = utf8 chunkText then 0xaa else if m = utf8 lastText then 0xcc else 0xbb)
  crc32 _ := []
  sha256_length _ := List.length_replicate
  hmacSha256_length _ _ := List.length_replicate

def upload : Upload := ⟨"d", "s", "f", [[88]], none⟩

def body : Bytes := crlfLines ["1;chunk-signature=" ++ digestHex 0xaa, "X", "0;chunk-signature=" ++ digestHex 0xcc, ""]

def options : ChunkedOptions := ⟨some ⟨[], "s", "d", "f"⟩, none, 16, false⟩

theorem hexHmac_eq (key : Bytes) (m : String) : hashes.hexHmacSha256 key m =
    digestHex (if m = chunkText then 0xaa else if m = lastText then 0xcc else 0xbb) := by
  have hchunk : utf8 m = utf8 chunkText ↔ m = chunkText := ⟨utf8_inj, congrArg utf8⟩
  have hlast : utf8 m = utf8 lastText ↔ m = lastText := ⟨utf8_inj, congrArg utf8⟩
  simp only [Hashes.hexHmacSha256, hashes, hchunk, hlast, digestHex]

theorem sha256Hex_eq (b : Bytes) : hashes.sha256Hex b = digestHex (if b = [88] then 1 else 2) := rfl

theorem last_ne_chunk : lastText ≠ chunkText := by decide +kernel

theorem signature_zero : upload.signature hashes [] 0 = "f" := rfl

theorem signature_one : upload.signature hashes [] 1 = digestHex 0xaa := by
  have hitem : (upload.chain hashes).items[0]? = some (upload.link .payload (digestHex 1)) := rfl
  rw [signature_succ hitem, sign_payload, signature_zero, hexHmac_eq]
  exact congrArg digestHex (if_pos rfl)

theorem signed_iff {m : String} : Signed hashes [] {upload} m ↔ m = chunkText ∨ m = lastText := by
  constructor
  · rintro ⟨u, rfl, n, l, hl, rfl⟩
    match n with
    | 0 =>
      cases hl
      exact Or.inl rfl
    | 1 =>
      cases hl
      rw [signature_one]
      exact Or.inr rfl
    | n + 2 => cases hl
  · rintro (rfl | rfl)
    · exact ⟨upload, rfl, 0, _, rfl, rfl⟩
    · exact ⟨upload, rfl, 1, _, rfl, by rw [signature_one]; rfl⟩

theorem digests : digestHex 0xaa ≠ digestHex 0xcc ∧ digestHex 0xaa ≠ "f" ∧ digestHex 0xcc ≠ "f" ∧ digestHex 1 ≠ digestHex 2 ∧
    digestHex 1 ≠ EMPTY_PAYLOAD_SHA256 ∧ digestHex 2 ≠ EMPTY_PAYLOAD_SHA256 := by
  decide +kernel

theorem hexHmac_chunk : hashes.hexHmacSha256 [] chunkText = digestHex 0xaa := by
  rw [hexHmac_eq, if_pos rfl]

theorem hexHmac_last : hashes.hexHmacSha256 [] lastText = digestHex 0xcc := by
  rw [hexHmac_eq, if_neg last_ne_chunk, if_pos rfl]

theorem honest : Honest hashes [] {upload} where
  plain := by
    rintro u rfl
    exact ⟨by decide, by decide, by decide⟩
  seeds := by
    rintro u rfl u' rfl -
    rfl
  collisionFree := by
    intro m m' hm hm' h
    rcases signed_iff.1 hm with rfl | rfl <;> rcases signed_iff.1 hm' with rfl | rfl
    · rfl
    · rw [hexHmac_chunk, hexHmac_last] at h
      exact absurd h digests.1
    · rw [hexHmac_chunk, hexHmac_last] at h
      exact absurd h.symm digests.1
    · rfl
  fresh := by
    rintro u rfl m hm
    rcases signed_iff.1 hm with rfl | rfl
    · rw [hexHmac_chunk]
      exact digests.2.1
    · rw [hexHmac_last]
      exact digests.2.2.1
  nonempty := by
    rintro u rfl c hc
    rw [List.mem_singleton.1 hc]
    exact digests.2.2.2.2.1

/-- the signature of a text that was not signed is not in the body -/
theorem not_presented : ¬Presented body (digestHex 0xbb) := by
  intro h
  have hmem := h.mem (by decide +kernel) (show 'b' ∈ (digestHex 0xbb).toList by decide +kernel) (by decide)
  revert hmem
  decide +kernel

theorem unforged : Unforged hashes [] {upload} upload body where
  signed := by
    intro n l _ h
    rw [sign, hexHmac_eq] at h
    split_ifs at h with hchunk hlast
    · exact signed_iff.2 (Or.inl hchunk)
    · exact signed_iff.2 (Or.inr hlast)
    · exact absurd h not_presented
  chunk := by
    intro data _ c hc h
    rw [List.mem_singleton.1 hc, sha256Hex_eq, sha256Hex_eq, if_pos rfl] at h
    split_ifs at h with hdata
    · rw [hdata, List.mem_singleton.1 hc]
    · exact absurd h digests.2.2.2.1
  last := by
    intro data _ h
    rw [sha256Hex_eq] at h
    split_ifs at h
    · exact absurd h digests.2.2.2.2.1
    · exact absurd h digests.2.2.2.2.2
  trailer := by
    intro lines _ t ht
    cases ht

end Drill

open Drill in
theorem signed_body_authentic_sent :
    (∀ n, (polls hashes n (decodeAwsChunked [(.ok body : Except Unit Bytes)] options)).1 <+: upload.chunks) ∧
      ∀ frames, Yields hashes (decodeAwsChunked [(.ok body : Except Unit Bytes)] options) frames .complete → frames = [[88]] := by
  obtain ⟨hpre, hwhole⟩ := signed_body_authentic hashes [] {upload} honest rfl [(.ok body : Except Unit Bytes)] options rfl
    (by rw [List.flatMap_singleton]; exact unforged)
  exact ⟨hpre, fun frames h => (hwhole frames h).1⟩

end Y2q.SignedChunks
