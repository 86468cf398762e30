import Mathlib

/-!
# Cipher block chaining

Every block is combined with the encrypted one in front of it before it is encrypted.  Decrypting undoes
that if the cipher and the combination can be undone.
-/

namespace Ethersex.Library

variable {α : Type*} (combine : α → α → α)

/-- Encrypting blocks, the first one with an initialisation vector. -/
def cbcEncrypt (encrypt : α → α) : (carry : α) → List α → List α
  | _, [] => []
  | carry, block :: rest =>
      let cipher := encrypt (combine block carry)
      cipher :: cbcEncrypt encrypt cipher rest

def cbcDecrypt (decrypt : α → α) : (carry : α) → List α → List α
  | _, [] => []
  | carry, cipher :: rest => combine (decrypt cipher) carry :: cbcDecrypt decrypt cipher rest

variable {combine}

theorem cbcDecrypt_cbcEncrypt {encrypt decrypt : α → α} (inverts : ∀ block, decrypt (encrypt block) = block)
    (cancels : ∀ block carry, combine (combine block carry) carry = block) (carry : α) (blocks : List α) :
    cbcDecrypt combine decrypt carry (cbcEncrypt combine encrypt carry blocks) = blocks := by
  induction blocks generalizing carry with
  | nil => rfl
  | cons block rest ih =>
      dsimp only [cbcEncrypt, cbcDecrypt]
      rw [inverts, cancels, ih]

end Ethersex.Library

/-!
## Feistel networks

In each round the halves change places, and one of them is combined with a function of the other.  The rounds
in the opposite order, on the halves the other way round, undo that, whatever the functions are.
-/

namespace Ethersex.Library

variable {α : Type*} (combine : α → α → α)

/-- A round. -/
def feistelRound (halves : α × α) (round : α → α) : α × α := (halves.2, combine halves.1 (round halves.2))

/-- The rounds one after another, and then the halves the other way round. -/
def feistel (rounds : List (α → α)) (halves : α × α) : α × α := (rounds.foldl (feistelRound combine) halves).swap

variable {combine}

theorem feistelRound_swap (cancels : ∀ half other, combine (combine half other) other = half) (round : α → α)
    (halves : α × α) :
    feistelRound combine (feistelRound combine halves round).swap round = halves.swap := by
  rw [feistelRound, feistelRound, Prod.fst_swap, Prod.snd_swap, cancels]
  rfl

theorem feistel_reverse_feistel (cancels : ∀ half other, combine (combine half other) other = half)
    (rounds : List (α → α)) (halves : α × α) :
    feistel combine rounds.reverse (feistel combine rounds halves) = halves := by
  induction rounds generalizing halves with
  | nil => rfl
  | cons round rest ih =>
    have inner := ih (feistelRound combine halves round)
    rw [feistel, feistel, Prod.swap_eq_iff_eq_swap] at inner
    rw [feistel, feistel, List.foldl_cons, List.reverse_cons, List.foldl_append, inner, List.foldl_cons,
      List.foldl_nil, feistelRound_swap cancels, Prod.swap_swap]

end Ethersex.Library
