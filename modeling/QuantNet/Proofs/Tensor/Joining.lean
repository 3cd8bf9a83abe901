import QuantNet.Proofs.Tensor.Affine
import QuantNet.Proofs.Tensor.Reading
import QuantNet.Scalar.Binary32

/-!
# Common shapes and combined tensors

The common shape of two shapes is the least one that both stretch to.  So joining shapes is
commutative, idempotent and associative as far as it is defined, and a scalar adds nothing.

Two tensors are combined exactly if they have a common shape and it can be addressed.  The outcome
shows, at every index, the combination of the two elements that are found there when the index is
read from the last axis on.
-/

namespace QuantNet

namespace Shape

variable {a b c whole : Shape}

/-! ## Axes of shapes that stretch -/

private theorem stretchesReversed_iff : ∀ {a b : Shape}, StretchesReversed a b ↔
    a.length ≤ b.length ∧ ∀ (axis d : Nat), a[axis]? = some d → d = 1 ∨ b[axis]? = some d
  | [], b => by simp [StretchesReversed]
  | _ :: _, [] => by simp [StretchesReversed]
  | l :: left, r :: right => by
      rw [StretchesReversed, stretchesReversed_iff, List.length_cons, List.length_cons,
        Nat.succ_le_succ_iff]
      constructor
      · intro stretches
        obtain ⟨here, shorter, rest⟩ := stretches
        refine ⟨shorter, fun axis d size => ?_⟩
        cases axis with
        | zero =>
            obtain rfl := Option.some.inj size
            exact here.imp_right fun same => congrArg some same.symm
        | succ axis => exact rest axis d size
      · intro aligned
        obtain ⟨shorter, sizes⟩ := aligned
        refine ⟨?_, shorter, fun axis d size => sizes (axis + 1) d size⟩
        exact (sizes 0 l rfl).imp_right fun same => (Option.some.inj same).symm

/-- A shape stretches to one of at least its rank if each of its axes has size one or the size of
its partner, where the last axes of both are partners. -/
theorem stretches_iff : a.Stretches b ↔
    a.length ≤ b.length ∧ ∀ (axis d : Nat), a[axis]? = some d →
      d = 1 ∨ b[b.length - a.length + axis]? = some d := by
  rw [Stretches, stretchesReversed_iff, List.length_reverse, List.length_reverse]
  refine and_congr_right fun shorter => ?_
  have mirrored : ∀ axis, axis < a.length →
      a.reverse[axis]? = a[a.length - 1 - axis]? ∧
        b.reverse[axis]? = b[b.length - a.length + (a.length - 1 - axis)]? := by
    intro axis below
    have place : b.length - 1 - axis = b.length - a.length + (a.length - 1 - axis) := by omega
    rw [List.getElem?_reverse below, List.getElem?_reverse (by omega), place]
    exact ⟨rfl, rfl⟩
  constructor
  · intro sizes axis d size
    have below := (List.getElem?_eq_some_iff.mp size).1
    have twice : a.length - 1 - (a.length - 1 - axis) = axis := by omega
    have partner := mirrored (a.length - 1 - axis) (by omega)
    rw [twice] at partner
    rw [← partner.2]
    exact sizes _ d (partner.1.trans size)
  · intro sizes axis d size
    have below := (List.getElem?_eq_some_iff.mp size).1
    rw [List.length_reverse] at below
    obtain ⟨here, partner⟩ := mirrored axis below
    rw [partner]
    exact sizes _ d (here.symm.trans size)

/-! ## Laws of joining -/

/-- The common shape is the least shape that both stretch to. -/
theorem join?_eq_some_iff :
    join? a b = some c ↔ ∀ shape : Shape,
      c.Stretches shape ↔ a.Stretches shape ∧ b.Stretches shape := by
  constructor
  · intro joined shape
    constructor
    · intro further
      obtain ⟨first, second⟩ := Stretches.of_join joined
      exact ⟨first.trans further, second.trans further⟩
    · intro both
      obtain ⟨first, second⟩ := both
      obtain ⟨other, found, least⟩ := Stretches.join first second
      rw [joined, Option.some.injEq] at found
      rwa [found]
  · intro least
    obtain ⟨first, second⟩ := (least c).mp (.refl c)
    obtain ⟨other, found, below⟩ := Stretches.join first second
    have above := (least other).mpr (Stretches.of_join found)
    rw [found, below.antisymm above]

/-- An axis of size one stretches to every size, also to zero; one of size zero to no other. -/
example : join? [2, 1, 1] [4, 0] = some [2, 4, 0] ∧ join? [0] [2] = none := by
  decide

@[simp]
theorem join?_self (a : Shape) : join? a a = some a :=
  join?_eq_some_iff.mpr fun _ => and_self_iff.symm

@[simp]
theorem nil_stretches (shape : Shape) : Stretches [] shape :=
  trivial

@[simp]
theorem join?_nil (a : Shape) : join? a [] = some a :=
  Stretches.join_eq_left (nil_stretches a)

@[simp]
theorem nil_join? (a : Shape) : join? [] a = some a :=
  (join?_comm [] a).trans (join?_nil a)

/-- Three shapes are joined to the least shape that all stretch to. -/
theorem join?_bind_eq_some_iff :
    ((join? a b).bind fun front => join? front c) = some whole ↔ ∀ shape : Shape,
      whole.Stretches shape ↔ a.Stretches shape ∧ b.Stretches shape ∧ c.Stretches shape := by
  rw [Option.bind_eq_some_iff]
  constructor
  · intro grouped shape
    obtain ⟨front, joined, all⟩ := grouped
    rw [join?_eq_some_iff.mp all, join?_eq_some_iff.mp joined, and_assoc]
  · intro least
    obtain ⟨first, second, _⟩ := (least whole).mp (.refl whole)
    obtain ⟨front, joined, _⟩ := Stretches.join first second
    refine ⟨front, joined, join?_eq_some_iff.mpr fun shape => ?_⟩
    rw [least, join?_eq_some_iff.mp joined, and_assoc]

/-- Three shapes are joined in either grouping: both are undefined, or both give the same shape. -/
theorem join?_assoc (a b c : Shape) :
    ((join? a b).bind fun front => join? front c) =
      (join? b c).bind fun back => join? a back := by
  apply Option.ext
  intro whole
  have turned : ((join? b c).bind fun back => join? a back) =
      (join? b c).bind fun back => join? back a := by
    simp only [join?_comm a]
  rw [turned, join?_bind_eq_some_iff, join?_bind_eq_some_iff]
  exact forall_congr' fun shape => iff_congr Iff.rfl and_rotate

/-- The laws of a join that need not exist. -/
structure JoinLaws : Prop where
  /-- Shapes are ordered by their axes, aligned from the last one on. -/
  stretches : ∀ left right : Shape, left.Stretches right ↔
    left.length ≤ right.length ∧ ∀ (axis d : Nat), left[axis]? = some d →
      d = 1 ∨ right[right.length - left.length + axis]? = some d
  least : ∀ left right whole, join? left right = some whole ↔ ∀ shape : Shape,
    whole.Stretches shape ↔ left.Stretches shape ∧ right.Stretches shape
  comm : ∀ left right, join? left right = join? right left
  self : ∀ shape, join? shape shape = some shape
  scalar : ∀ shape, join? [] shape = some shape ∧ join? shape [] = some shape
  assoc : ∀ left middle right,
    ((join? left middle).bind fun front => join? front right) =
      (join? middle right).bind fun back => join? left back

/-! ## The index that is read -/

/-- A shape is read at a position for an index of a shape that it stretches to: leading axes that it
lacks are dropped, axes of size one are read at zero, and all others where the index is. -/
structure Reads (shape : Shape) (index position : List Nat) : Prop where
  rank : position.length = shape.length
  axes : ∀ axis (below : axis < shape.length), position[axis]? =
    if shape[axis] = 1 then some 0 else index[index.length - shape.length + axis]?

theorem reads_pull {shape : Shape} {index : List Nat} (covers : shape.length ≤ index.length) :
    shape.Reads index (shape.pull index) where
  rank := length_pull covers
  axes axis below := by
    have within : index.length - shape.length + axis < index.length := by omega
    rw [pull, List.getElem?_zipWith, List.getElem?_drop, List.getElem?_eq_getElem within,
      List.getElem?_eq_getElem below]
    exact apply_ite some ..

end Shape

namespace Tensor

variable {α : Type} [Zero α]

/-! ## Combined tensors -/

theorem isSome_zipWith?_iff (f : α → α → α) (left right : Tensor α) :
    (zipWith? f left right).isSome = true ↔
      ∃ shape, Shape.join? left.shape right.shape = some shape ∧ shape.isAddressable = true := by
  simp only [zipWith?, Option.isSome_map, Option.isSome_iff_exists, Option.filter_eq_some_iff]

/-- An element of the outcome, and the two elements that are read for it. -/
theorem at?_zipWith? {f : α → α → α} {left right result : Tensor α} {index : List Nat}
    (combined : zipWith? f left right = some result) (inside : result.shape.InBounds index) :
    ∃ first second x y, left.shape.Reads index first ∧ right.shape.Reads index second ∧
      left.at? first = some x ∧ right.at? second = some y ∧
        result.at? index = some (f x y) := by
  obtain ⟨first, second⟩ := stretches_of_zipWith? combined
  have element : result.at? index = some (f (left.stretched index) (right.stretched index)) := by
    rw [at?_eq_get inside, get_zipWith? combined inside]
  have rank := inside.length_eq
  exact ⟨_, _, _, _, Shape.reads_pull (rank ▸ first.length_le),
    Shape.reads_pull (rank ▸ second.length_le), at?_pull first inside, at?_pull second inside,
    element⟩

/-- Two tensors are combined on their common shape, element by element. -/
structure Combines (f : α → α → α) (left right : Tensor α) : Prop where
  /-- The outcome exists exactly if the common shape does and can be addressed. -/
  defined : (zipWith? f left right).isSome = true ↔
    ∃ shape, Shape.join? left.shape right.shape = some shape ∧ shape.isAddressable = true
  shape : ∀ result, zipWith? f left right = some result →
    Shape.join? left.shape right.shape = some result.shape
  /-- Every element is the combination of the two that are read for its index. -/
  element : ∀ result, zipWith? f left right = some result →
    ∀ index, result.shape.InBounds index → ∃ first second x y,
      left.shape.Reads index first ∧ right.shape.Reads index second ∧
        left.at? first = some x ∧ right.at? second = some y ∧
          result.at? index = some (f x y)
  swapped : zipWith? f left right = zipWith? (fun y x => f x y) right left

end Tensor

/-- Joining shapes is a partial join, and tensors of any elements are combined along it by any
function, as far as their common shape can be addressed. -/
theorem combining_follows_join :
    Shape.JoinLaws ∧ ∀ {α : Type} [Zero α] (f : α → α → α) (left right : Tensor α),
      Tensor.Combines f left right := by
  constructor
  · constructor
    case stretches => exact fun _ _ => Shape.stretches_iff
    case least => exact fun _ _ _ => Shape.join?_eq_some_iff
    case comm => exact Shape.join?_comm
    case self => exact Shape.join?_self
    case scalar => exact fun shape => ⟨Shape.nil_join? shape, Shape.join?_nil shape⟩
    case assoc => exact Shape.join?_assoc
  · intro α _ f left right
    constructor
    case defined => exact Tensor.isSome_zipWith?_iff f left right
    case shape => exact fun _ combined => (Tensor.join_of_zipWith? combined).1
    case element => exact fun _ combined _ inside => Tensor.at?_zipWith? combined inside
    case swapped => exact Tensor.zipWith?_swap f left right

/-- The common shape of two tensors without elements can be too large for an address.  They are not
combined. -/
theorem common_shape_beyond_addresses :
    let left : Tensor Float32 := ⟨[0, 3037000500, 1], #[], by decide⟩
    let right : Tensor Float32 := ⟨[0, 1, 3037000500], #[], by decide⟩
    Shape.join? left.shape right.shape = some [0, 3037000500, 3037000500] ∧
      Tensor.zipWith? (fun x y => x + y) left right = none ∧
      ¬ ∀ (f : Float32 → Float32 → Float32) (left right : Tensor Float32),
        (Tensor.zipWith? f left right).isSome = true ↔
          (Shape.join? left.shape right.shape).isSome = true := by
  intro left right
  have joined : Shape.join? left.shape right.shape = some [0, 3037000500, 3037000500] := by
    decide
  have apart : Tensor.zipWith? (fun x y => x + y) left right = none := by
    rw [Tensor.zipWith?, joined]
    decide
  refine ⟨joined, apart, fun agree => ?_⟩
  have combined := (agree (fun x y => x + y) left right).mpr (by rw [joined]; rfl)
  rw [apart] at combined
  cases combined

end QuantNet
