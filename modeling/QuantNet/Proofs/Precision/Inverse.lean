import QuantNet.Proofs.Precision.Grammar

/-!
# Types are read as they are written

The written form of a type is read back as the type itself, unless its width is too large for a
dimension.  No text is read as a type of such a width.
-/

namespace QuantNet

namespace Precision

variable {precision : Precision}

/-- The width of a structured type. -/
def bitWidth? : Precision → Option UInt32
  | int width _ _ => some width
  | fixed width _ _ _ => some width
  | raw _ => none

theorem chars_int_eq_framed (width : UInt32) (signed : Bool) (modes : Modes) :
    (int width signed modes).chars =
      framed (intKind signed) (Text.naturalText width.toNat :: modes.tokens false) [] := by
  simp [chars, framed, intKind, Text.intercalate_cons, Modes.chars]

theorem chars_fixed_eq_framed (width : UInt32) (integer : Int32) (signed : Bool) (modes : Modes) :
    (fixed width integer signed modes).chars =
      framed (fixedKind signed)
        (Text.naturalText width.toNat :: Text.integerText integer.toInt :: modes.tokens false)
        [] := by
  simp [chars, framed, fixedKind, Text.intercalate_cons, Modes.chars]

private theorem framed_of_plain {head : List Char} {first : List Char} {others : List (List Char)}
    (closed : '<' ∉ head) (plain : ∀ token ∈ first :: others, token.all Text.isPlain = true) :
    Framed head (first :: others) [] where
  head := closed
  nonempty := List.cons_ne_nil first others
  tokens := fun token member => Text.not_mem_of_plain (plain token member)
  tail := fun _ member => absurd member List.not_mem_nil

theorem framed_int (width : UInt32) (signed : Bool) (modes : Modes) :
    Framed (intKind signed) (Text.naturalText width.toNat :: modes.tokens false) [] := by
  refine framed_of_plain ((by decide : ∀ signed, '<' ∉ intKind signed) signed) ?_
  exact List.forall_mem_cons.mpr ⟨Text.plain_naturalText _, modes.plain_tokens false⟩

theorem framed_fixed (width : UInt32) (integer : Int32) (signed : Bool) (modes : Modes) :
    Framed (fixedKind signed)
      (Text.naturalText width.toNat :: Text.integerText integer.toInt :: modes.tokens false)
      [] := by
  refine framed_of_plain ((by decide : ∀ signed, '<' ∉ fixedKind signed) signed) ?_
  refine List.forall_mem_cons.mpr ⟨Text.plain_naturalText _, ?_⟩
  exact List.forall_mem_cons.mpr ⟨Text.plain_integerText _, modes.plain_tokens false⟩

/-! ## Widths -/

/-- The written width is a dimension exactly if it is small enough. -/
private theorem integer_width_iff {width : UInt32} {dim : Int32} :
    Text.Integer (Text.trim (Text.naturalText width.toNat)) dim.toInt ↔
      dim.toInt = width.toNat := by
  rw [Text.trim_of_plain (Text.plain_naturalText _)]
  have literal := Text.Integer.natural (Text.natural_naturalText width.toNat)
  exact ⟨fun again => again.unique literal, fun same => same ▸ literal⟩

private theorem exists_dim_iff {width : UInt32} :
    (∃ dim : Int32, dim.toInt = width.toNat) ↔ width.toNat ≤ 2147483647 := by
  constructor
  · rintro ⟨dim, same⟩
    have below := Int32.toInt_lt dim
    omega
  · intro small
    refine ⟨Int32.ofInt width.toNat, Int32.toInt_ofInt_of_le ?_ ?_⟩
    · omega
    · omega

/-- The width of a type that is denoted by tokens is a dimension. -/
theorem Denotes.exists_dim {head : List Char} {tokens : List (List Char)}
    (denotes : Denotes head tokens precision) :
    ∃ width, precision.bitWidth? = some width ∧ width.toNat ≤ 2147483647 := by
  cases denotes with
  | @int _ _ _ dim width _ _ _ fits => exact ⟨width, rfl, exists_dim_iff.mp ⟨dim, fits⟩⟩
  | @fixed _ _ _ _ dim _ width _ _ _ fits => exact ⟨width, rfl, exists_dim_iff.mp ⟨dim, fits⟩⟩

/-- The first token of a type is its width. -/
theorem Denotes.exists_literal {head first : List Char} {others : List (List Char)}
    (denotes : Denotes head (first :: others) precision) :
    ∃ dim : Int32, Text.Integer (Text.trim first) dim.toInt := by
  cases denotes with
  | @int _ _ _ dim _ _ _ literal => exact ⟨dim, literal⟩
  | @fixed _ _ _ _ dim _ _ _ _ literal => exact ⟨dim, literal⟩

/-! ## Reading what was written -/

theorem denotes_int {width : UInt32} {dim : Int32} (fits : dim.toInt = width.toNat) (signed : Bool)
    (modes : Modes) :
    Denotes (intKind signed) (Text.naturalText width.toNat :: modes.tokens false)
      (int width signed modes) := by
  refine .int (Or.inl ?_) (integer_width_iff.mpr fits) fits (modes.setBy_tokens false)
  exact (by decide : ∀ signed, Text.trim (intKind signed) = intKind signed) signed

theorem denotes_fixed {width : UInt32} {dim : Int32} (fits : dim.toInt = width.toNat)
    (integer : Int32) (signed : Bool) (modes : Modes) :
    Denotes (fixedKind signed)
      (Text.naturalText width.toNat :: Text.integerText integer.toInt :: modes.tokens false)
      (fixed width integer signed modes) := by
  refine .fixed (Or.inl ?_) (integer_width_iff.mpr fits) fits ?_ (modes.setBy_tokens false)
  · exact (by decide : ∀ signed, Text.trim (fixedKind signed) = fixedKind signed) signed
  · rw [Text.trim_of_plain (Text.plain_integerText _)]
    exact Text.integer_integerText integer.toInt

/-- A structured type of a width that fits is read as it is written. -/
private theorem parse_display_of_le {width : UInt32} (wide : precision.bitWidth? = some width)
    (small : width.toNat ≤ 2147483647) :
    parse precision.display = .ok precision := by
  obtain ⟨dim, fits⟩ := exists_dim_iff.mpr small
  cases precision with
  | int own signed modes =>
      obtain rfl := Option.some.inj wide
      rw [display, chars_int_eq_framed, parse_framed_iff (framed_int own signed modes)]
      exact denotes_int fits signed modes
  | fixed own integer signed modes =>
      obtain rfl := Option.some.inj wide
      rw [display, chars_fixed_eq_framed, parse_framed_iff (framed_fixed own integer signed modes)]
      exact denotes_fixed fits integer signed modes
  | raw text => cases wide

/-- A text with a width that is no dimension is refused. -/
private theorem parse_display_of_gt {width : UInt32} (wide : precision.bitWidth? = some width)
    (large : ¬ width.toNat ≤ 2147483647) :
    parse precision.display = .error (.unrecognized precision.display) := by
  refine parse_eq_error_iff.mpr ⟨rfl, fun other read => large (exists_dim_iff.mp ?_)⟩
  cases precision with
  | int own signed modes =>
      obtain rfl := Option.some.inj wide
      rw [display, chars_int_eq_framed, parse_framed_iff (framed_int own signed modes)] at read
      obtain ⟨dim, literal⟩ := read.exists_literal
      exact ⟨dim, integer_width_iff.mp literal⟩
  | fixed own integer signed modes =>
      obtain rfl := Option.some.inj wide
      rw [display, chars_fixed_eq_framed,
        parse_framed_iff (framed_fixed own integer signed modes)] at read
      obtain ⟨dim, literal⟩ := read.exists_literal
      exact ⟨dim, integer_width_iff.mp literal⟩
  | raw text => cases wide

/-- The written form of a type is read back as the type exactly up to the width 2147483647, and is
refused beyond.  Every type that is read has such a width, so that its written form is read as the
type again. -/
theorem parse_display_exact :
    (∀ precision width, bitWidth? precision = some width →
        parse precision.display =
          if width.toNat ≤ 2147483647 then .ok precision
          else .error (.unrecognized precision.display)) ∧
      ∀ text precision, parse text = .ok precision →
        (∃ width, precision.bitWidth? = some width ∧ width.toNat ≤ 2147483647) ∧
          parse precision.display = .ok precision := by
  refine ⟨fun precision width wide => ?_, fun text precision read => ?_⟩
  · split
    · next small => exact parse_display_of_le wide small
    · next large => exact parse_display_of_gt wide large
  · obtain ⟨head, tokens, tail, _, _, denotes⟩ := parse_eq_ok_iff_spells.mp read
    obtain ⟨width, wide, small⟩ := denotes.exists_dim
    exact ⟨⟨width, wide, small⟩, parse_display_of_le wide small⟩

end Precision

end QuantNet
