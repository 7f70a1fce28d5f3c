import Mathlib

/-!
# Collision-free digests

A program that stores the digest of a value, to compare it later with the digest
of another, means to compare the values. `Digests` is the idealization that makes
this exact: one function for every type of values that a program can write down,
injective on each of them. The types are the countable ones – there are only
countably many digests – and such functions exist (`Digests.ofCountable`), so
nothing that is said about `Digests` is said about nothing.
-/

instance countableChar : Countable Char := Function.Injective.countable fun _ _ => Char.toNat_inj.mp

instance countableString : Countable String :=
  Function.Injective.countable fun _ _ => String.toList_injective

instance countableMultiset {α : Type} [Countable α] : Countable (Multiset α) :=
  Quotient.countable

instance countableFinmap {α : Type} {β : α → Type} [Countable α] [∀ a, Countable (β a)] :
    Countable (Finmap β) :=
  Function.Injective.countable fun (_ _ : Finmap β) h => Finmap.ext h

/-- **Digests without collisions**, and what a digest looks like. -/
structure Digests where
  digest : {α : Type} → [Countable α] → α → String
  validDigest : String → Bool
  digest_injective : ∀ {α : Type} [Countable α] (a b : α), digest a = digest b → a = b
  validDigest_digest : ∀ {α : Type} [Countable α] (a : α), validDigest (digest a) = true

namespace Digests

variable {α : Type} [Countable α] (H : Digests) {a b : α}

attribute [simp] validDigest_digest

@[simp] theorem digest_inj : H.digest a = H.digest b ↔ a = b :=
  ⟨H.digest_injective a b, fun h => h ▸ rfl⟩

/-- The digests that number the values of each type. -/
noncomputable def ofCountable : Digests where
  digest {α} _ a := Nat.repr ((exists_injective_nat α).choose a)
  validDigest _ := true
  digest_injective {α} _ _ _ h := (exists_injective_nat α).choose_spec (Nat.repr_injective h)
  validDigest_digest _ := rfl

end Digests
