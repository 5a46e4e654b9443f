import Mathlib.Tactic
import Ratelimitly.Protocol

/-! What the client relies on in AES-256-GCM. -/
namespace Ratelimitly

open Lib

/-- Opening undoes sealing, and a ciphertext is 16 bytes longer than its message. -/
def Crypto.AeadCorrect (crypto : Crypto) : Prop :=
  ∀ key nonce msg aad ciphertext, crypto.encrypt key nonce msg aad = some ciphertext →
    ciphertext.length = msg.length + 16 ∧ crypto.decrypt key nonce ciphertext aad = some msg

/-- One sealed message with its nonce and additional data. -/
structure Seal where
  nonce : Bytes 12
  aad : List UInt8
  plaintext : List UInt8
  ciphertext : List UInt8
  tag : Bytes 16
  deriving DecidableEq, Repr

/-- Only what a holder of the key sealed opens, and to the sealed plaintext. -/
def Crypto.OpensOnly (crypto : Crypto) (sealed : Bytes 32 → Seal → Prop) : Prop :=
  ∀ key nonce tag ciphertext aad plaintext,
    crypto.decrypt key nonce (ciphertext ++ tag.toList) aad = some plaintext →
      sealed key ⟨nonce, aad, plaintext, ciphertext, tag⟩

namespace Seal

variable (key : Bytes 32) (recorded : Seal)

def Records (k : Bytes 32) (nonce : Bytes 12) (msg aad : List UInt8) : Prop :=
  k = key ∧ nonce = recorded.nonce ∧ msg = recorded.plaintext ∧ aad = recorded.aad

instance (k : Bytes 32) (nonce : Bytes 12) (msg aad : List UInt8) :
    Decidable (recorded.Records key k nonce msg aad) := inferInstanceAs (Decidable (_ ∧ _))

/-- A concrete cipher that answers one recorded sealing as it was recorded; it gives every other
message an all-zero tag. -/
def crypto (blake2s : List UInt8 → Bytes 32) : Crypto where
  encrypt k nonce msg aad :=
    if recorded.Records key k nonce msg aad then some (recorded.ciphertext ++ recorded.tag.toList)
    else some (msg ++ List.replicate 16 0)
  decrypt k nonce ciphertext aad :=
    let msg := ciphertext.take (ciphertext.length - 16)
    if ciphertext = recorded.ciphertext ++ recorded.tag.toList ∧
        recorded.Records key k nonce recorded.plaintext aad then some recorded.plaintext
    else if ciphertext = msg ++ List.replicate 16 0 ∧ ¬ recorded.Records key k nonce msg aad then
      some msg
    else none
  blake2s := blake2s

variable {key recorded} {blake2s : List UInt8 → Bytes 32}

theorem crypto_aeadCorrect (hlen : recorded.ciphertext.length = recorded.plaintext.length)
    (htag : recorded.tag.toList ≠ List.replicate 16 0) :
    (recorded.crypto key blake2s).AeadCorrect := by
  intro k nonce msg aad ciphertext h
  simp only [crypto] at h ⊢
  split at h
  next hr =>
    cases h
    obtain ⟨rfl, rfl, rfl, rfl⟩ := hr
    refine ⟨by simp [hlen], ?_⟩
    rw [if_pos ⟨rfl, rfl, rfl, rfl, rfl⟩]
  next hr =>
    cases h
    refine ⟨by simp, ?_⟩
    rw [if_neg, if_pos]
    · simp
    · exact ⟨by simp, by simpa using hr⟩
    · rintro ⟨heq, -⟩
      have h16 := List.append_inj_right' heq (by simp)
      exact htag h16.symm

theorem crypto_opensOnly : (recorded.crypto key blake2s).OpensOnly fun k entry =>
    (recorded.crypto key blake2s).encrypt k entry.nonce entry.plaintext entry.aad =
      some (entry.ciphertext ++ entry.tag.toList) := by
  intro k nonce tag ciphertext aad plaintext h
  simp only [crypto] at h ⊢
  split at h
  next hr =>
    cases h
    rw [if_pos hr.2, hr.1]
  next =>
    split at h
    next hr =>
      cases h
      rw [if_neg hr.2, ← hr.1]
    next => cases h

end Seal

end Ratelimitly
