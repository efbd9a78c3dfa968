/-
Attested time (`crypto/devices/roughtime.rs`): the only time that a grant is judged by.

Every configured server is asked once. The answer counts if the server's address was not met before, its key decodes and the
response's radius is usable; enough answers must be left, and their intervals must have a moment in common. The latest lower
bound is the attested time.

What names resolve to and what the servers answer is the `Network`. A server is `Honest` if its interval holds a moment of
the time in which it was asked and is no wider than its radius says.

- `survivors_measured`: the answers that count come from different addresses, however often one is configured.
- `accurate_of_quorum`: with fewer dishonest addresses than answers required, attested time is true time up to 120 seconds.
- `attestWith_time`: the routine behind `check-time` attests what an unlock would.
-/
import Mathlib.Tactic
import Y2q.Core.Base64
import Y2q.Crypto.Devices.Unlock

namespace Y2q.Roughtime

open Devices

/-! ## Model -/

def MAX_RADIUS_S : UInt32 := 60

def usableRadius (radiusS : UInt32) : Bool := radiusS != 0 && decide (radiusS ≤ MAX_RADIUS_S)

structure RoughtimeServer where
  name : String
  addr : String
  publicKeyB64 : String
deriving DecidableEq, Repr

structure RoughtimeConfig where
  servers : List RoughtimeServer
  timeoutMs : UInt64
  minResponses : UInt8
deriving DecidableEq, Repr

/-- a verified response, as the client library reads it -/
structure Measurement where
  lowerBound : UInt64
  upperBound : UInt64
  radius : UInt32
deriving DecidableEq, Repr

/-- resolution, the client library and what is on the other side -/
structure Network (SocketAddr : Type) where
  toSocketAddrs : String → Except String (List SocketAddr)
  /-- `Client::query` on an address, with the host name, the key and the timeout -/
  query : SocketAddr → String → Bytes → UInt64 → Except String Measurement
  display : SocketAddr → String
  /-- the text of a base64 error -/
  decodeError : String → String

structure ProbeOk where
  lower : UInt64
  upper : UInt64
  radi : UInt32
deriving DecidableEq, Repr

structure ServerProbe where
  name : String
  addr : String
  outcome : Except String ProbeOk

variable {SocketAddr : Type} [DecidableEq SocketAddr] (N : Network SocketAddr)

/-- the part of `probe_one` after the address: the key, the query, the radius -/
def measure (server : RoughtimeServer) (timeout : UInt64) (resolved : SocketAddr) : Except String ProbeOk :=
  match Base64.decode (trim server.publicKeyB64) with
  | none => .error s!"public_key_b64 is not valid base64: {N.decodeError (trim server.publicKeyB64)}"
  | some decoded =>
    if decoded.length ≠ 32 then .error s!"public key is {decoded.length} bytes, expected 32"
    else
      match N.query resolved server.name decoded timeout with
      | .error e => .error s!"query failed: {e}"
      | .ok m =>
        if usableRadius m.radius then .ok ⟨m.lowerBound, m.upperBound, m.radius⟩
        else .error s!"radius {m.radius}s outside the usable range 1..={MAX_RADIUS_S}s"

/-- with the addresses met so far, each under the server's name -/
def probeOne (server : RoughtimeServer) (timeout : UInt64) (seen : List (SocketAddr × String)) :
    Except String ProbeOk × List (SocketAddr × String) :=
  match N.toSocketAddrs server.addr with
  | .error e => (.error s!"cannot resolve {server.addr}: {e}", seen)
  | .ok [] => (.error s!"{server.addr} resolved to no address", seen)
  | .ok (resolved :: _) =>
    match seen.lookup resolved with
    | some earlier => (.error
        s!"address {N.display resolved} duplicates server '{earlier}'; two entries for one endpoint are not independent sources",
        seen)
    -- the address counts as met even if the key or the query fails
    | none => (measure N server timeout resolved, (resolved, server.name) :: seen)

def probes (timeout : UInt64) : List RoughtimeServer → List (SocketAddr × String) → List ServerProbe
  | [], _ => []
  | s :: rest, seen => ⟨s.name, s.addr, (probeOne N s timeout seen).1⟩ :: probes timeout rest (probeOne N s timeout seen).2

def probeAll (cfg : RoughtimeConfig) : List ServerProbe := probes N cfg.timeoutMs cfg.servers []

def survivor (p : ServerProbe) : Option ProbeOk := p.outcome.toOption

def failure (p : ServerProbe) : Option String :=
  match p.outcome with
  | .ok _ => none
  | .error reason => some s!"{p.name}: {reason}"

def intervals (ps : List ServerProbe) : List (UInt64 × UInt64) := (ps.filterMap survivor).map fun m => (m.lower, m.upper)

def combineIntervals (pairs : List (UInt64 × UInt64)) (minResponses : UInt8) (failures : String) : Except CryptoError UInt64 :=
  if pairs.length < minResponses.toNat then
    .error (.attestedTimeUnavailable (s!"{pairs.length} of {minResponses} required servers answered" ++
      (if failures = "" then "" else ": ") ++ failures))
  else
    match (pairs.map (·.1)).max?, (pairs.map (·.2)).min? with
    | some low, some high => if low ≤ high then .ok low else .error (.attestedTimeInconsistent low.toNat high.toNat)
    -- nothing answered and nothing was required
    | _, _ => .error (.attestedTimeUnavailable "no measurements")

/-- `RoughtimeTimeSource::attested_now` -/
def attestedNow (cfg : RoughtimeConfig) : Except CryptoError UInt64 :=
  if cfg.servers = [] then .error .roughtimeNotConfigured
  else combineIntervals (intervals (probeAll N cfg)) cfg.minResponses ("; ".intercalate ((probeAll N cfg).filterMap failure))

/-- `attest_with`: the probes that were reported, and the time with how many servers agree out of how many -/
def attestWith (cfg : RoughtimeConfig) : List ServerProbe × Except CryptoError (UInt64 × ℕ × ℕ) :=
  if cfg.servers = [] then ([], .error .roughtimeNotConfigured)
  else
    let ps := probeAll N cfg
    (ps, (combineIntervals (intervals ps) cfg.minResponses ("; ".intercalate (ps.filterMap failure))).map fun t =>
      (t, (intervals ps).length, ps.length))

theorem attestWith_time (cfg : RoughtimeConfig) : (attestWith N cfg).2.map (·.1) = attestedNow N cfg := by
  unfold attestWith attestedNow
  split_ifs
  · rfl
  · simp only
    cases combineIntervals (intervals (probeAll N cfg)) cfg.minResponses _ <;> rfl

/-! ## Whose answers count -/

/-- the answer is what the server at this address said, with a usable radius -/
def Measured (a : SocketAddr) (ok : ProbeOk) : Prop :=
  ∃ name key timeout, N.query a name key timeout = .ok ⟨ok.lower, ok.upper, ok.radi⟩ ∧ usableRadius ok.radi = true

variable {N}

omit [DecidableEq SocketAddr] in
theorem measure_ok {server : RoughtimeServer} {timeout : UInt64} {a : SocketAddr} {ok : ProbeOk}
    (h : measure N server timeout a = .ok ok) : Measured N a ok := by
  unfold measure at h
  split at h
  · cases h
  · next decoded _ =>
    split_ifs at h
    split at h
    · cases h
    · next m hm =>
      split_ifs at h with hradius
      cases h
      exact ⟨server.name, decoded, timeout, hm, hradius⟩

/-- what one probe does: it meets no new address and fails, or it meets a new one and measures there -/
theorem probeOne_cases (server : RoughtimeServer) (timeout : UInt64) (seen : List (SocketAddr × String)) :
    (∃ e, probeOne N server timeout seen = (.error e, seen)) ∨
    ∃ a, a ∉ seen.map (·.1) ∧
      probeOne N server timeout seen = (measure N server timeout a, (a, server.name) :: seen) := by
  unfold probeOne
  split
  · exact Or.inl ⟨_, rfl⟩
  · exact Or.inl ⟨_, rfl⟩
  · next a _ _ =>
    split
    · exact Or.inl ⟨_, rfl⟩
    · next hnew =>
      refine Or.inr ⟨a, fun hmem => ?_, rfl⟩
      obtain ⟨p, hp, rfl⟩ := List.mem_map.1 hmem
      have := List.lookup_eq_none_iff.1 hnew p hp
      simp at this

/-- **The answers that count come from different addresses**, all of them new. -/
theorem survivors_measured (timeout : UInt64) (servers : List RoughtimeServer) (seen : List (SocketAddr × String)) :
    ∃ as : List SocketAddr, as.Nodup ∧ (∀ a ∈ as, a ∉ seen.map (·.1)) ∧
      List.Forall₂ (Measured N) as ((probes N timeout servers seen).filterMap survivor) := by
  induction servers generalizing seen with
  | nil => exact ⟨[], List.nodup_nil, nofun, List.Forall₂.nil⟩
  | cons s rest ih =>
    rcases probeOne_cases (N := N) s timeout seen with ⟨e, h⟩ | ⟨a, hnew, h⟩
    · simp only [probes, h, List.filterMap_cons, survivor, Except.toOption]
      exact ih seen
    · obtain ⟨as, hnodup, hfresh, hmeasured⟩ := ih ((a, s.name) :: seen)
      have hne : ∀ b ∈ as, b ≠ a ∧ b ∉ seen.map (·.1) := fun b hb => by
        have := hfresh b hb
        rw [List.map_cons, List.mem_cons, not_or] at this
        exact this
      simp only [probes, h, List.filterMap_cons, survivor]
      cases hm : measure N s timeout a with
      | error e => exact ⟨as, hnodup, fun b hb => (hne b hb).2, hmeasured⟩
      | ok ok =>
        refine ⟨a :: as, List.nodup_cons.2 ⟨fun ha => (hne a ha).1 rfl, hnodup⟩, fun b hb => ?_,
          List.Forall₂.cons (measure_ok hm) hmeasured⟩
        rcases List.mem_cons.1 hb with rfl | hb
        · exact hnew
        · exact (hne b hb).2

/-- more answers than dishonest addresses: one of them is from an honest address -/
theorem exists_trusted {timeout : UInt64} {servers : List RoughtimeServer} (bad : Finset SocketAddr)
    (h : bad.card < ((probes N timeout servers []).filterMap survivor).length) :
    ∃ a ∉ bad, ∃ ok ∈ (probes N timeout servers []).filterMap survivor, Measured N a ok := by
  obtain ⟨as, hnodup, -, hmeasured⟩ := survivors_measured (N := N) timeout servers []
  rw [← hmeasured.length_eq, ← List.toFinset_card_of_nodup hnodup] at h
  obtain ⟨a, ha, hbad⟩ := Finset.exists_mem_notMem_of_card_lt_card h
  obtain ⟨i, hi, rfl⟩ := List.mem_iff_getElem.1 (List.mem_toFinset.1 ha)
  have hi' : i < ((probes N timeout servers []).filterMap survivor).length := hmeasured.length_eq ▸ hi
  exact ⟨_, hbad, _, List.getElem_mem hi', (List.forall₂_iff_get.1 hmeasured).2 i hi hi'⟩

/-! ## How far off the attested time can be -/

theorem lawfulOrderMax : Std.LawfulOrderMax UInt64 := by
  refine Std.LawfulOrderMax.of_max_le_iff (fun a b c => ?_) fun a b => ?_
  · simp only [max, UInt64.le_iff_toNat_le]
    split_ifs <;> omega
  · simp only [max, UInt64.le_iff_toNat_le]
    split_ifs <;> simp

theorem lawfulOrderMin : Std.LawfulOrderMin UInt64 := by
  refine Std.LawfulOrderMin.of_le_min_iff (fun a b c => ?_) fun a b => ?_
  · simp only [min, UInt64.le_iff_toNat_le]
    split_ifs <;> omega
  · simp only [min, UInt64.le_iff_toNat_le]
    split_ifs <;> simp

/-- the combined time is in every interval that counts -/
theorem combineIntervals_ok {pairs : List (UInt64 × UInt64)} {minResponses : UInt8} {failures : String} {t : UInt64}
    (h : combineIntervals pairs minResponses failures = .ok t) :
    minResponses.toNat ≤ pairs.length ∧ ∀ p ∈ pairs, p.1 ≤ t ∧ t ≤ p.2 := by
  have := lawfulOrderMax
  have := lawfulOrderMin
  unfold combineIntervals at h
  split_ifs at h with hlen
  refine ⟨Nat.le_of_not_lt hlen, fun p hp => ?_⟩
  split at h
  · next low high hlow hhigh =>
    split_ifs at h with hle
    cases h
    exact ⟨(List.max?_eq_some_iff.1 hlow).2 _ (List.mem_map_of_mem hp),
      UInt64.le_trans hle ((List.min?_eq_some_iff.1 hhigh).2 _ (List.mem_map_of_mem hp))⟩
  · cases h

/-- the server at this address tells the truth about the time between `start` and `finish` -/
def Network.Honest (N : Network SocketAddr) (start finish : ℕ) (a : SocketAddr) : Prop :=
  ∀ name key timeout m, N.query a name key timeout = .ok m →
    m.upperBound.toNat ≤ m.lowerBound.toNat + 2 * m.radius.toNat ∧
      ∃ now, start ≤ now ∧ now ≤ finish ∧ m.lowerBound.toNat ≤ now ∧ now ≤ m.upperBound.toNat

/-- attested time is true time up to `slack` -/
def Accurate (start finish slack : ℕ) (t : UInt64) : Prop := start ≤ t.toNat + slack ∧ t.toNat ≤ finish + slack

theorem usableRadius_le {r : UInt32} (h : usableRadius r = true) : r.toNat ≤ 60 := by
  unfold usableRadius at h
  rw [Bool.and_eq_true, decide_eq_true_eq, UInt32.le_iff_toNat_le] at h
  exact h.2

omit [DecidableEq SocketAddr] in
/-- one truthful interval with the attested time in it -/
theorem accurate_of_honest {start finish : ℕ} {a : SocketAddr} {ok : ProbeOk} {t : UInt64} (hhonest : N.Honest start finish a)
    (hmeasured : Measured N a ok) (ht : ok.lower ≤ t ∧ t ≤ ok.upper) : Accurate start finish 120 t := by
  obtain ⟨name, key, timeout, hquery, hradius⟩ := hmeasured
  obtain ⟨hwidth, now, hstart, hfinish, hlower, hupper⟩ := hhonest name key timeout _ hquery
  simp only at hwidth hlower hupper
  have hradius := usableRadius_le hradius
  have hlow := UInt64.le_iff_toNat_le.1 ht.1
  have hhigh := UInt64.le_iff_toNat_le.1 ht.2
  constructor <;> omega

/-- an attested time from a quorum: fewer addresses are dishonest than answers are required -/
theorem accurate_of_quorum {cfg : RoughtimeConfig} {bad : Finset SocketAddr} {start finish : ℕ} {t : UInt64}
    (hbad : bad.card < cfg.minResponses.toNat) (hhonest : ∀ a ∉ bad, N.Honest start finish a)
    (h : attestedNow N cfg = .ok t) : Accurate start finish 120 t := by
  unfold attestedNow at h
  split_ifs at h
  obtain ⟨hlen, hin⟩ := combineIntervals_ok h
  unfold intervals at hlen
  rw [List.length_map] at hlen
  obtain ⟨a, ha, ok, hok, hmeasured⟩ := exists_trusted bad (hbad.trans_le hlen)
  exact accurate_of_honest (hhonest a ha) hmeasured (hin _ (List.mem_map_of_mem hok))

/-- **A dishonest minority cannot move attested time.** If fewer addresses lie than answers are required, an attested time is
within two minutes of the time in which the servers were asked, whatever resolution says and however often an address is
configured. -/
theorem attested_time_true (N : Network SocketAddr) (cfg : RoughtimeConfig) (bad : Finset SocketAddr) (start finish : ℕ)
    (hbad : bad.card < cfg.minResponses.toNat) (hhonest : ∀ a ∉ bad, N.Honest start finish a) {t : UInt64}
    (h : attestedNow N cfg = .ok t) : start ≤ t.toNat + 120 ∧ t.toNat ≤ finish + 120 := accurate_of_quorum hbad hhonest h

namespace Drill

def key : String := Base64.encode (List.replicate 32 0)

/-- addresses are numbers; the clock of the server at 9 is a little ahead of its interval -/
def network : Network ℕ where
  toSocketAddrs addr := if addr = "east" then .ok [1] else .ok [9]
  query a _ _ _ := .ok (if a = 9 then ⟨1002, 1004, 1⟩ else ⟨990, 1010, 10⟩)
  display _ := ""
  decodeError _ := ""

/-- two of the names are the same server -/
def cfg : RoughtimeConfig := ⟨[⟨"a", "east", key⟩, ⟨"b", "west", key⟩, ⟨"c", "west-alias", key⟩], 3000, 2⟩

theorem honest : ∀ a ∉ ({9} : Finset ℕ), network.Honest 1000 1000 a := by
  intro a ha name key timeout m h
  have ha : a ≠ 9 := fun h => ha (Finset.mem_singleton.2 h)
  simp only [network, if_neg ha, Except.ok.injEq] at h
  subst h
  exact ⟨by decide, 1000, by decide⟩

end Drill

open Drill in
theorem attested_time_true_drill : ∃ t, attestedNow network cfg = .ok t ∧ 1000 ≤ t.toNat + 120 ∧ t.toNat ≤ 1000 + 120 :=
  ⟨1002, rfl, attested_time_true network cfg {9} 1000 1000 (by decide) honest (t := 1002) rfl⟩

end Y2q.Roughtime
