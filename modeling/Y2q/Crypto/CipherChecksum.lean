/-
The checksum that an encrypt session records, against the bytes that stand in the file in the end.

The running checksum is fed the header as `new` writes it, with `plaintext_len` zero. `finish` patches that field in the file by a
positioned write, which the checksum does not see.

- `hashed_eq_iff`: the bytes fed to the checksum are those of the envelope exactly if the padded length is zero as a `u64`.
- `checksum_describes_iff`: so the recorded checksum is that of the file exactly if there is no plaintext.
-/
import Mathlib.Tactic
import Y2q.Core.Base64
import Y2q.Crypto.EnvelopeRoundTrip

namespace Y2q.Envelope

open Y2q

/-- the suite with this digest in place of XXH3 -/
def Suite.withChecksum (S : Suite) (digest : Bytes → String) : Suite := { S with checksumB64 := digest }

section Checksum

variable (S : Suite) (sink : Sink) (pk : Bytes) (epoch : UInt32) (bucket key : String) (wo c : ℕ) (rand : Bytes) (nb : Nonce)

/-- the recorded checksum is that of the envelope in the sink, whatever the digest is -/
def ChecksumDescribes (slices : List Bytes) : Prop :=
  ∀ digest sink' info, encrypt (S.withChecksum digest) sink pk epoch bucket key wo c rand nb slices = .ok (sink', info) →
    info.cipherChecksumB64 = digest (sink'.file.drop wo)

end Checksum

/-! ## Lengths -/

theorem padmeLen_lt {n : ℕ} (hn : n < 2 ^ 64) : padmeLen n < 2 ^ 64 := by
  rw [padmeLen_eq_ite]
  split_ifs
  · exact hn
  · exact lt_of_le_of_lt Nat.and_le_right (by omega)

theorem padmeLen_eq_zero {n : ℕ} (hn : n < 2 ^ 64) : padmeLen n = 0 ↔ n = 0 := by
  constructor
  · intro h
    rcases Nat.lt_or_ge (2 ^ 64 - 2 ^ 57) n with htop | hlow
    · rw [padmeLen_top htop hn] at h
      omega
    · have hle := le_bucketed padmeBits n
      rw [← padmeLen_eq hlow, h] at hle
      exact Nat.le_zero.1 hle
  · rintro rfl
    rfl

/-- the counters see the padded length of what they saw of the plaintext -/
theorem length_paddedU64 (P : Bytes) : (paddedU64 P).length % 2 ^ 64 = padmeLen (P.length % 2 ^ 64) := by
  have hsum : UInt64.ofNat (paddedU64 P).length = UInt64.ofNat (padmeLen (UInt64.ofNat P.length).toNat) := by
    rw [paddedU64, List.length_append, List.length_replicate, UInt64.ofNat_add, padU64, UInt64.ofNat_toNat, UInt64.add_comm,
      UInt64.sub_add_cancel]
  have hnat := congrArg UInt64.toNat hsum
  simp only [UInt64.toNat_ofNat'] at hnat
  rw [hnat, Nat.mod_eq_of_lt (padmeLen_lt (Nat.mod_lt _ (by norm_num)))]

theorem dvd_length_paddedU64 (P : Bytes) : 2 ^ 64 ∣ (paddedU64 P).length ↔ 2 ^ 64 ∣ P.length := by
  rw [Nat.dvd_iff_mod_eq_zero, length_paddedU64, padmeLen_eq_zero (Nat.mod_lt _ (by norm_num)), ← Nat.dvd_iff_mod_eq_zero]

/-! ## What is hashed -/

section Hashed

variable {S : Suite} {sink : Sink} {pk : Bytes} {epoch : UInt32} {bucket key : String} {wo c : ℕ} {rand : Bytes} {nb : Nonce}

theorem header_zero_iff {v : ℕ} {nb : Bytes} (n : ℕ) : header v epoch nb 0 c = header v epoch nb n c ↔ 2 ^ 64 ∣ n := by
  rw [header_eq, header_eq, List.append_left_inj, List.append_right_inj, Nat.dvd_iff_mod_eq_zero]
  constructor
  · intro h
    have hval := congrArg ofBe h
    rw [ofBe_beBytes, ofBe_beBytes] at hval
    exact hval.symm
  · intro h
    rw [← beBytes_mod 8 n, show 256 ^ 8 = 2 ^ 64 by norm_num, h]

/-- the first header and the rest of the envelope, against the envelope -/
theorem hashed_eq_iff {ss kemCt Q : Bytes} :
    header FORMAT_VER_V4 epoch nb.1 0 c ++ (envelope S ss kemCt bucket key epoch nb.1 c Q).drop 36 =
      envelope S ss kemCt bucket key epoch nb.1 c Q ↔ 2 ^ 64 ∣ Q.length := by
  have henv : envelope S ss kemCt bucket key epoch nb.1 c Q = header FORMAT_VER_V4 epoch nb.1 Q.length c ++
      (envelope S ss kemCt bucket key epoch nb.1 c Q).drop 36 := by
    have hlen := length_header FORMAT_VER_V4 epoch nb.2 Q.length c
    rw [envelope, List.append_assoc, List.drop_left' hlen]
  rw [← @header_zero_iff epoch c FORMAT_VER_V4 nb.1]
  nth_rewrite 2 [henv]
  exact List.append_left_inj _

/-- what `new` has checked -/
theorem encrypt_ok {slices : List Bytes} {r : Sink × EnvelopeInfo}
    (h : encrypt S sink pk epoch bucket key wo c rand nb slices = .ok r) :
    0 < c ∧ c < 2 ^ 32 ∧ pk.length = 1184 ∧ S.validPk pk = true := by
  unfold encrypt EncryptSession.new at h
  by_cases hc : c = 0 ∨ 2 ^ 32 - 1 < c
  · rw [if_pos hc] at h
    cases h
  rw [if_neg hc, publicKeyFromBytes] at h
  by_cases hpk : pk.length ≠ PUBLIC_KEY_BYTES
  · rw [if_pos hpk] at h
    cases h
  rw [if_neg hpk] at h
  by_cases hval : S.validPk pk = true
  · exact ⟨by omega, by omega, not_not.1 hpk, hval⟩
  · rw [if_neg hval] at h
    cases h

/-- **The recorded checksum describes the file exactly if no plaintext was fed**, or so much of it that the `u64` counters are back at
zero. -/
theorem checksum_describes_iff (hcur : sink.cursor = wo) (hlen : sink.file.length ≤ wo) {slices : List Bytes}
    {r : Sink × EnvelopeInfo} (hok : encrypt S sink pk epoch bucket key wo c rand nb slices = .ok r) :
    ChecksumDescribes S sink pk epoch bucket key wo c rand nb slices ↔ 2 ^ 64 ∣ slices.flatten.length := by
  obtain ⟨hc, hc', hpk, hval⟩ := encrypt_ok hok
  have hclosed := fun digest =>
    @encrypt_closed (S.withChecksum digest) sink pk epoch bucket key wo c rand nb hcur hlen hc hc' hpk hval slices
  have hdrop : ∀ env, (setLen sink.file wo ++ env).drop wo = env := fun env => List.drop_left' (length_setLen _ _)
  rw [← dvd_length_paddedU64]
  constructor
  · intro h
    have hdigest := h Base64.encode _ _ (hclosed Base64.encode)
    rw [hdrop] at hdigest
    exact hashed_eq_iff.1 (Base64.encode_injective hdigest)
  · intro hdvd digest sink' info hrun
    obtain ⟨rfl, rfl⟩ := Prod.mk.inj (Except.ok.inj ((hclosed digest).symm.trans hrun))
    rw [hdrop]
    exact congrArg digest (hashed_eq_iff.2 hdvd)

/-- an empty object is described -/
theorem checksum_describes_empty : ChecksumDescribes sampleSuite ⟨[], 64⟩ (List.replicate 1184 0) 5 "b" "k" 64 2 []
    ⟨List.replicate 12 0, rfl⟩ [[]] :=
  (checksum_describes_iff (S := sampleSuite) rfl (by decide)
    (@encrypt_closed sampleSuite ⟨[], 64⟩ (List.replicate 1184 0) 5 "b" "k" 64 2 [] ⟨List.replicate 12 0, rfl⟩ rfl (by decide)
      (by decide) (by decide) List.length_replicate rfl [[]])).2 (by decide)

/-- one byte of plaintext, and a digest that keeps all its input -/
theorem checksum_misses_length : ∃ sink' info,
    encrypt (sampleSuite.withChecksum Base64.encode) ⟨[], 0⟩ (List.replicate 1184 0) 0 "b" "k" 0 64 []
      ⟨List.replicate 12 0, rfl⟩ [[1]] = .ok (sink', info) ∧ info.cipherChecksumB64 ≠ Base64.encode (sink'.file.drop 0) := by
  refine ⟨_, _, encrypt_closed (S := sampleSuite.withChecksum Base64.encode) rfl le_rfl (by decide) (by decide)
    List.length_replicate rfl [[1]], fun h => ?_⟩
  rw [List.drop_left' (length_setLen _ _)] at h
  have hdvd := hashed_eq_iff.1 (Base64.encode_injective h)
  rw [dvd_length_paddedU64] at hdvd
  exact absurd hdvd (by decide)

end Hashed

end Y2q.Envelope
