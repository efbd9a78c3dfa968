/-
Authenticated encryption with associated data, as the functions of a cipher and what one may assume of them.

- `Aead κ`: `encrypt key nonce aad msg` and `decrypt key nonce aad ct`, over any type of keys.
- `Aead.OpensSealed`: open-after-seal. `Aead.Correct`: that, and a ciphertext is the message and a 16-byte tag long.
- `Aead.KeySeparates k k'`: what opens under `k` never opens under `k'`, whatever nonce and associated data.
- `Aead.OpensOnly S`: the ideal cipher of a world in which only the boxes of `S` were sealed. It is the other extreme to
  `OpensSealed`, which lets everything open that could have been sealed: a world satisfies one or the other.
-/
import Mathlib.Tactic
import Y2q.Core.Bytes

namespace Y2q

/-- a 12-byte nonce -/
abbrev Nonce := {b : Bytes // b.length = 12}

structure Aead (κ : Type) where
  encrypt : κ → Bytes → Bytes → Bytes → Bytes
  decrypt : κ → Bytes → Bytes → Bytes → Option Bytes

namespace Aead

variable {κ : Type} (A : Aead κ)

/-- open-after-seal -/
def OpensSealed : Prop := ∀ k n a m, A.decrypt k n a (A.encrypt k n a m) = some m

structure Correct : Prop where
  decrypt_encrypt : A.OpensSealed
  length_encrypt : ∀ k n a m, (A.encrypt k n a m).length = m.length + 16
  length_decrypt : ∀ k n a c m, A.decrypt k n a c = some m → c.length = m.length + 16

def KeySeparates (k k' : κ) : Prop :=
  ∀ n a n' a' c m, A.decrypt k n a c = some m → A.decrypt k' n' a' c = none

/-- one sealing: under which key, nonce and associated data, the ciphertext it gave and the message in it -/
structure Box (κ : Type) where
  key : κ
  nonce : Bytes
  aad : Bytes
  ct : Bytes
  msg : Bytes

def OpensOnly (S : Set (Box κ)) : Prop :=
  ∀ k n a c m, A.decrypt k n a c = some m → ⟨k, n, a, c, m⟩ ∈ S

/-- the smallest cipher with these laws: the tag repeats the key's first byte -/
def tagged : Aead Bytes where
  encrypt k _ _ m := List.replicate 16 (k.headD 0) ++ m
  decrypt k _ _ c := if c.take 16 = List.replicate 16 (k.headD 0) then some (c.drop 16) else none

theorem tagged_correct : tagged.Correct where
  decrypt_encrypt k n a m := by simp [tagged]
  length_encrypt k n a m := by simp [tagged]
  length_decrypt k n a c m h := by
    simp only [tagged] at h
    split_ifs at h with ht
    cases h
    have := congrArg List.length ht
    simp only [List.length_take, List.length_replicate] at this
    rw [List.length_drop]
    omega

theorem tagged_separates {k k' : Bytes} (h : k.headD 0 ≠ k'.headD 0) : tagged.KeySeparates k k' := by
  intro n a n' a' c m ho
  simp only [tagged] at ho ⊢
  split_ifs at ho with ht
  rw [if_neg]
  intro hc
  exact h (List.replicate_right_injective (show (16 : ℕ) ≠ 0 by decide) (ht.symm.trans hc))

end Aead

/-! ## Nonces and digests to try things out with -/

theorem length_zeroNonce : (List.replicate 12 (0 : UInt8)).length = 12 := List.length_replicate

theorem length_zeroDigest (_ _ : Bytes) : (List.replicate 32 (0 : UInt8)).length = 32 := List.length_replicate

theorem length_headDigest (k _ : Bytes) : (List.replicate 32 (k.headD 0)).length = 32 := List.length_replicate

end Y2q
