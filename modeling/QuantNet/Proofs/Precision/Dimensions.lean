import QuantNet.Proofs.Precision.Rereading

/-!
# Bit counts and dimensions

Setting modes makes them present and leaves the dimensions of a type alone, with one exception: a
bit count that becomes the first mode of a text with a free dimension is read as that dimension.
Here is exactly when that happens.
-/

namespace QuantNet

namespace Bracketed

variable {limit : Nat} {read next : List Int32 × Modes} {token : List Char} {bits : UInt32}

/-! ## Texts that were read -/

private theorem addMode?_eq_bits {modes : Modes}
    (taken : addMode? modes token = some ⟨none, none, some bits⟩) :
    modes = .unset ∧ Text.unsigned32? token = some bits := by
  unfold addMode? at taken
  split at taken
  · split at taken <;> simp at taken
  · split at taken <;> simp at taken
  · next unsigned =>
      split at taken
      · next absent =>
          obtain ⟨rounding, saturation, found⟩ := modes
          simp only [Option.some.injEq, Modes.mk.injEq] at taken
          obtain ⟨rfl, rfl, rfl⟩ := taken
          rw [Option.isNone_iff_eq_none] at absent
          exact ⟨congrArg (Modes.mk none none) absent, unsigned⟩
      · cases taken
  · cases taken

/-- A bit count is taken as the first mode only where it cannot be a dimension. -/
private theorem addToken?_eq_bits
    (taken : addToken? limit read token = some next) (only : next.2 = ⟨none, none, some bits⟩)
    (free : next.1.length < limit) :
    2 ^ 31 ≤ bits.toNat := by
  have large : ∀ modes : Modes, addMode? read.2 token = some modes → next = (read.1, modes) →
      (Text.signed32? token = none ∨ ¬ (read.1.length < limit && read.2.isEmpty) = true) →
        2 ^ 31 ≤ bits.toNat := by
    intro modes added same closed
    rw [same] at only free
    subst only
    obtain ⟨unset, unsigned⟩ := addMode?_eq_bits added
    have room : (read.1.length < limit && read.2.isEmpty) = true := by
      simpa [unset, Modes.isEmpty] using free
    have signed := (Text.unsigned32?_iff_natural.mp unsigned).signed32?_eq
    rcases closed with numeral | full
    · rw [numeral] at signed
      by_contra small
      rw [if_pos (Nat.not_le.mp small)] at signed
      cases signed
    · exact absurd room full
  unfold addToken? at taken
  split at taken
  · split at taken
    · next dim _ empty =>
        obtain rfl := Option.some.inj taken
        simp only [Bool.and_eq_true] at empty
        have filled : read.2 = ⟨none, none, some bits⟩ := only
        rw [show read.2 = .unset from of_decide_eq_true empty.2] at filled
        cases filled
    · next full =>
        obtain ⟨modes, added, same⟩ := Option.map_eq_some_iff.mp taken
        exact large modes added same.symm (Or.inr full)
  · next numeral =>
      obtain ⟨modes, added, same⟩ := Option.map_eq_some_iff.mp taken
      exact large modes added same.symm (Or.inl numeral)

private theorem foldlM_eq_bits {tokens : List (List Char)} :
    ∀ {read next : List Int32 × Modes},
      tokens.foldlM (addToken? limit) read = some next →
        (read.2 = ⟨none, none, some bits⟩ → read.1.length < limit → 2 ^ 31 ≤ bits.toNat) →
          next.2 = ⟨none, none, some bits⟩ → next.1.length < limit → 2 ^ 31 ≤ bits.toNat := by
  induction tokens with
  | nil =>
      intro read next taken before
      obtain rfl := Option.some.inj taken
      exact before
  | cons token rest inductionHypothesis =>
      intro read next taken _
      rw [List.foldlM_cons] at taken
      obtain ⟨middle, first, later⟩ := Option.bind_eq_some_iff.mp taken
      exact inductionHypothesis later fun only free => addToken?_eq_bits first only free

/-- A bit count that is the only mode of a text with a free dimension is too large for it. -/
theorem le_of_split? {text : List Char} {parts : Bracketed} (split : split? text = some parts)
    (only : parts.modes = ⟨none, none, some bits⟩)
    (free : parts.dims.length < dimLimit parts.head) :
    2 ^ 31 ≤ bits.toNat := by
  obtain ⟨_, _, _, _, _, taken, _⟩ := split?_eq_some_iff.mp split
  exact foldlM_eq_bits taken (fun empty => by simp [Modes.unset] at empty) only free

theorem freeDim?_eq_none_iff {parts : Bracketed} :
    parts.freeDim? = none ↔
      ¬ ∃ bits : UInt32, parts.modes = ⟨none, none, some bits⟩ ∧
        parts.dims.length < dimLimit parts.head ∧ bits.toNat < 2 ^ 31 := by
  have numeral := fun bits : UInt32 => (Text.natural_naturalText bits.toNat).signed32?_eq
  rw [Option.eq_none_iff_forall_ne_some, not_exists]
  constructor
  · rintro closed bits ⟨same, free, small⟩
    refine closed (Int32.ofInt bits.toNat) (freeDim?_eq_some_iff.mpr ⟨bits, same, free, ?_⟩)
    rw [numeral, if_pos small]
  · intro blocked dim taken
    obtain ⟨bits, same, free, read⟩ := freeDim?_eq_some_iff.mp taken
    refine blocked bits ⟨same, free, ?_⟩
    by_contra large
    rw [numeral, if_neg large] at read
    cases read

end Bracketed

namespace Precision

/-! ## Types whose modes were set -/

/-- Both types have the same dimensions and are the same but for their modes. -/
def SameDimensions : Precision → Precision → Prop
  | int width signed _, int width' signed' _ => width' = width ∧ signed' = signed
  | fixed width integer signed _, fixed width' integer' signed' _ =>
      width' = width ∧ integer' = integer ∧ signed' = signed
  | raw text, raw text' =>
      ∃ parts parts', Bracketed.split? text.toList = some parts ∧
        Bracketed.split? text'.toList = some parts' ∧
          parts'.head = parts.head ∧ parts'.dims = parts.dims ∧ parts'.tail = parts.tail
  | _, _ => False

/-- The update sets a bit count alone, in a text that has no other mode and has a dimension free,
and the count is small enough to be that dimension. -/
def AddsDimension (precision : Precision) (update : Modes) : Prop :=
  ∃ text parts bits,
    precision = raw text ∧ Bracketed.split? text.toList = some parts ∧
      parts.dims.length < Bracketed.dimLimit parts.head ∧
        parts.modes.rounding = none ∧ parts.modes.saturation = none ∧
          update = ⟨none, none, some bits⟩ ∧ bits.toNat < 2 ^ 31

theorem addsDimension_raw_iff {text : String} {parts : Bracketed} {update : Modes}
    (split : Bracketed.split? text.toList = some parts) :
    (raw text).AddsDimension update ↔
      ({ parts with modes := parts.modes.merge update } : Bracketed).freeDim? ≠ none := by
  rw [ne_eq, Bracketed.freeDim?_eq_none_iff, not_not]
  constructor
  · rintro ⟨_, _, bits, same, again, free, rounding, saturation, rfl, small⟩
    obtain rfl := Precision.raw.inj same
    obtain rfl := Option.some.inj (split.symm.trans again)
    exact ⟨bits, by simp [Modes.merge, rounding, saturation], free, small⟩
  · rintro ⟨bits, only, free, small⟩
    obtain ⟨rounding, saturation, count⟩ := update
    obtain ⟨first, second, third⟩ := Modes.mk.inj only
    obtain ⟨rfl, noRounding⟩ := Option.or_eq_none_iff.mp first
    obtain ⟨rfl, noSaturation⟩ := Option.or_eq_none_iff.mp second
    cases count with
    | none =>
        -- Without an update the text would have had such a bit count before.
        have kept : parts.modes = ⟨none, none, some bits⟩ := by
          rw [← noRounding, ← noSaturation, ← show parts.modes.bits = some bits from third]
        exact absurd (Bracketed.le_of_split? split kept free) (Nat.not_le.mpr small)
    | some count =>
        obtain rfl := Option.some.inj third
        exact ⟨text, parts, count, rfl, split, free, noRounding, noSaturation, rfl, small⟩

/-- The text that setting modes gives, split again. -/
theorem split?_setModes {text : String} {parts : Bracketed}
    (split : Bracketed.split? text.toList = some parts) (modes : Modes) :
    Bracketed.split? (String.ofList ({ parts with modes } : Bracketed).chars).toList =
      some ({ parts with modes } : Bracketed).reread := by
  rw [String.toList_ofList]
  exact Bracketed.split?_chars ((Bracketed.readable_of_split? split).setModes modes)

section

variable {precision set : Precision} {update : Modes}

/-- A bit count that became a dimension is no mode. -/
theorem covers_of_addsDimension
    (changed : precision.setModes update = .ok set) (adds : precision.AddsDimension update) :
    set.covers update = false := by
  have added := adds
  obtain ⟨text, parts, bits, rfl, split, _, _, _, rfl, _⟩ := adds
  rw [addsDimension_raw_iff split, Option.ne_none_iff_exists'] at added
  obtain ⟨dim, free⟩ := added
  rw [setModes_raw split] at changed
  obtain rfl := Except.ok.inj changed
  simp only [covers, split?_setModes split, Bracketed.reread, free]
  rfl

/-- Unless a dimension is added, setting modes makes them present, does nothing the second time and
keeps the dimensions. -/
theorem settled_of_not_addsDimension
    (changed : precision.setModes update = .ok set) (kept : ¬ precision.AddsDimension update) :
    set.covers update = true ∧ set.setModes update = .ok set ∧ precision.SameDimensions set := by
  cases precision with
  | int width signed modes =>
      obtain rfl := Except.ok.inj changed
      refine ⟨Modes.merge_covers modes update, ?_, rfl, rfl⟩
      exact congrArg (fun modes => Except.ok (int width signed modes))
        (Modes.merge_merge modes update)
  | fixed width integer signed modes =>
      obtain rfl := Except.ok.inj changed
      refine ⟨Modes.merge_covers modes update, ?_, rfl, rfl, rfl⟩
      exact congrArg (fun modes => Except.ok (fixed width integer signed modes))
        (Modes.merge_merge modes update)
  | raw text =>
      obtain ⟨parts, split, _⟩ := setModes_raw_eq_ok changed
      rw [setModes_raw split] at changed
      obtain rfl := Except.ok.inj changed
      rw [addsDimension_raw_iff split, not_not] at kept
      have again := split?_setModes split (parts.modes.merge update)
      rw [Bracketed.reread, kept] at again
      refine ⟨?_, ?_, parts, _, split, again, rfl, rfl, rfl⟩
      · simp only [covers, again]
        exact Modes.merge_covers parts.modes update
      · rw [setModes_raw again]
        simp only [Modes.merge_merge]

end

end Precision

end QuantNet
