import QuantNet.Scalar.Basic

/-!
# Sums

Rounded addition is not associative, so the order in which terms are added belongs to a sum.  A
plain sum adds term after term.  A sum by blocks adds up each block of consecutive terms on its own
and then adds up the sums of the blocks.
-/

namespace QuantNet.Scalar

variable {α : Type} [Scalar α]

/-- The sum of some terms, from the first to the last. -/
def total (terms : List α) : α :=
  terms.foldl (fun sum term => sum + term) 0

/-- The first blocks of `size` consecutive terms, `count` of them.  The last terms may make a
shorter block. -/
def blocks {β : Type} (size : Nat) : Nat → List β → List (List β)
  | 0, _ => []
  | count + 1, terms => terms.take size :: blocks size count (terms.drop size)

/-- The number of blocks of `size` terms that `length` terms make. -/
def blockCount (size length : Nat) : Nat :=
  (length + size - 1) / size

/-- The sum of some terms by blocks of `size` terms. -/
def blockTotal (size : Nat) (terms : List α) : α :=
  total ((blocks size (blockCount size terms.length) terms).map total)

/-- Blocks in a row are the terms that they were cut from. -/
private theorem flatten_blocks
    {β : Type} (size : Nat) :
    ∀ (count : Nat) (terms : List β),
      (blocks size count terms).flatten = terms.take (count * size)
  | 0, terms => by simp [blocks]
  | count + 1, terms => by
      rw [blocks, List.flatten_cons, flatten_blocks size count, Nat.succ_mul, Nat.add_comm,
        List.take_add]

/-- All terms lie in their blocks. -/
private theorem le_blockCount_mul {size : Nat} (positive : 0 < size) (length : Nat) :
    length ≤ blockCount size length * size := by
  have below := Nat.mod_lt (length + size - 1) positive
  have parts := Nat.div_add_mod (length + size - 1) size
  rw [Nat.mul_comm] at parts
  rw [blockCount]
  omega

/-- The blocks of a sum hold its terms in order, each of them once. -/
theorem flatten_blocks_blockCount
    {β : Type} {size : Nat} (positive : 0 < size) (terms : List β) :
    (blocks size (blockCount size terms.length) terms).flatten = terms := by
  rw [flatten_blocks, List.take_of_length_le (le_blockCount_mul positive terms.length)]

end QuantNet.Scalar
