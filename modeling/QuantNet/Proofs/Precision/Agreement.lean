import QuantNet.Proofs.Precision.Rereading

/-!
# Texts of structured types

A text that can be read as a structured type stands for that type: both have the same modes, and
setting modes in the text gives a text of the type with these modes.  A text in the form in which
types are written keeps that form.
-/

namespace QuantNet

namespace Precision

/-- What a head names: blanks and one mark `ap_` do not count. -/
def kindOf (head : List Char) : List Char :=
  Text.dropMark ['a', 'p', '_'] (Text.trim head)

def intKind (signed : Bool) : List Char :=
  signMark signed ++ ['i', 'n', 't']

def fixedKind (signed : Bool) : List Char :=
  signMark signed ++ ['f', 'i', 'x', 'e', 'd']

variable {parts : Bracketed} {precision : Precision} {dim : Int32} {width : UInt32}

/-! ## The parts of a structured type -/

/-- The parts of a text denote an integer with one dimension or a fixed-point number with two. -/
theorem ofBracketed?_eq_some_iff :
    ofBracketed? parts = some precision ↔
      (∃ signed dim width, kindOf parts.head = intKind signed ∧ parts.dims[0]? = some dim ∧
          width? dim = some width ∧ precision = int width signed parts.modes) ∨
        ∃ signed dim width integer, kindOf parts.head = fixedKind signed ∧
          parts.dims[0]? = some dim ∧ width? dim = some width ∧ parts.dims[1]? = some integer ∧
            precision = fixed width integer signed parts.modes := by
  unfold ofBracketed?
  rw [← kindOf]
  dsimp only
  constructor
  · intro read
    split at read
    · next kind =>
        simp only [Option.bind_eq_bind, Option.bind_eq_some_iff, Option.pure_def] at read
        obtain ⟨width, ⟨dim, first, fits⟩, result⟩ := read
        rcases kind with kind | kind
        · exact Or.inl ⟨true, dim, width, kind, first, fits,
            by simp [← Option.some.inj result, kind]⟩
        · exact Or.inl ⟨false, dim, width, kind, first, fits,
            by simp [← Option.some.inj result, kind]⟩
    · split at read
      · next kind =>
          simp only [Option.bind_eq_bind, Option.bind_eq_some_iff, Option.pure_def] at read
          obtain ⟨width, ⟨dim, first, fits⟩, integer, second, result⟩ := read
          rcases kind with kind | kind
          · exact Or.inr ⟨true, dim, width, integer, kind, first, fits, second,
              by simp [← Option.some.inj result, kind]⟩
          · exact Or.inr ⟨false, dim, width, integer, kind, first, fits, second,
              by simp [← Option.some.inj result, kind]⟩
      · cases read
  · rintro (⟨signed, dim, width, kind, first, fits, rfl⟩ |
      ⟨signed, dim, width, integer, kind, first, fits, second, rfl⟩)
    · cases signed <;> simp [kind, intKind, signMark, first, fits]
    · cases signed <;> simp [kind, fixedKind, signMark, first, fits, second]

theorem parse_eq_ok_iff {text : String} :
    parse text = .ok precision ↔
      ∃ parts, Bracketed.split? text.toList = some parts ∧ ofBracketed? parts = some precision := by
  unfold parse ofChars?
  cases split : Bracketed.split? text.toList with
  | none => simp
  | some parts => cases read : ofBracketed? parts <;> simp [read]

/-- Integers have one dimension, whatever stands in front of their kind. -/
theorem dimLimit_of_intKind {head : List Char} {signed : Bool}
    (kind : kindOf head = intKind signed) :
    Bracketed.dimLimit head = 1 := by
  have last : ['i', 'n', 't'] <:+ Text.trim head :=
    (List.suffix_append (signMark signed) _).trans
      ((congrArg (· <:+ Text.trim head) kind).mp (Text.dropMark_suffix _ _))
  rw [Bracketed.dimLimit, if_pos (List.isSuffixOf_iff_suffix.mpr last)]

/-- The parts of a structured type have all the dimensions that their head allows. -/
theorem full_of_ofBracketed? (read : ofBracketed? parts = some precision) :
    Bracketed.dimLimit parts.head ≤ parts.dims.length := by
  rcases ofBracketed?_eq_some_iff.mp read with
    ⟨signed, dim, width, kind, first, _⟩ | ⟨signed, dim, width, integer, _, _, _, second, _⟩
  · rw [dimLimit_of_intKind kind]
    exact (List.getElem?_eq_some_iff.mp first).1
  · have two := (List.getElem?_eq_some_iff.mp second).1
    have limit := Bracketed.dimLimit_le parts.head
    omega

theorem covers_of_ofBracketed? (read : ofBracketed? parts = some precision) (wanted : Modes) :
    precision.covers wanted = parts.modes.covers wanted := by
  rcases ofBracketed?_eq_some_iff.mp read with
    ⟨_, _, _, _, _, _, rfl⟩ | ⟨_, _, _, _, _, _, _, _, rfl⟩ <;> rfl

/-- Other modes in the parts of a type are other modes of the type. -/
theorem setModes_of_ofBracketed? (read : ofBracketed? parts = some precision) (update : Modes) :
    ∃ set, precision.setModes update = .ok set ∧
      ofBracketed? { parts with modes := parts.modes.merge update } = some set := by
  rcases ofBracketed?_eq_some_iff.mp read with
    ⟨signed, dim, width, kind, first, fits, rfl⟩ |
      ⟨signed, dim, width, integer, kind, first, fits, second, rfl⟩
  · refine ⟨int width signed (parts.modes.merge update), rfl, ?_⟩
    exact ofBracketed?_eq_some_iff.mpr (Or.inl ⟨signed, dim, width, kind, first, fits, rfl⟩)
  · refine ⟨fixed width integer signed (parts.modes.merge update), rfl, ?_⟩
    exact ofBracketed?_eq_some_iff.mpr
      (Or.inr ⟨signed, dim, width, integer, kind, first, fits, second, rfl⟩)

/-! ## The written form of a type -/

private theorem integerText_of_width? (fits : width? dim = some width) :
    Text.integerText dim.toInt = Text.naturalText width.toNat := by
  unfold width? at fits
  split at fits
  · next nonnegative =>
      have below : dim.toInt < 2 ^ 31 := Int32.toInt_lt dim
      obtain ⟨value, same⟩ := Int.eq_ofNat_of_zero_le nonnegative
      rw [same] at fits below ⊢
      have small : value < UInt32.size := by
        have size : UInt32.size = 2 ^ 32 := rfl
        omega
      rw [← Option.some.inj fits, Int.toNat_natCast, UInt32.toNat_ofNat_of_lt' small]
      rfl
  · cases fits

/-- The parts of an integer as it is written. -/
def writtenInt (signed : Bool) (dim : Int32) (modes : Modes) : Bracketed :=
  ⟨intKind signed, [dim], modes, []⟩

/-- The parts of a fixed-point number as it is written. -/
def writtenFixed (signed : Bool) (dim integer : Int32) (modes : Modes) : Bracketed :=
  ⟨fixedKind signed, [dim, integer], modes, []⟩

theorem chars_int (fits : width? dim = some width) (signed : Bool) (modes : Modes) :
    (int width signed modes).chars = (writtenInt signed dim modes).chars := by
  have unmarked : (writtenInt signed dim modes).marked = false := by
    cases signed <;> rfl
  rw [Bracketed.chars, unmarked]
  simp [chars, writtenInt, intKind, Text.intercalate_cons, Modes.chars,
    integerText_of_width? fits]

theorem chars_fixed (fits : width? dim = some width) (integer : Int32) (signed : Bool)
    (modes : Modes) :
    (fixed width integer signed modes).chars = (writtenFixed signed dim integer modes).chars := by
  have unmarked : (writtenFixed signed dim integer modes).marked = false := by
    cases signed <;> rfl
  rw [Bracketed.chars, unmarked]
  simp [chars, writtenFixed, fixedKind, Text.intercalate_cons, Modes.chars,
    integerText_of_width? fits]

private theorem readable_writtenInt (signed : Bool) (dim : Int32) (modes : Modes) :
    (writtenInt signed dim modes).Readable where
  head := (by decide : ∀ signed, '<' ∉ intKind signed) signed
  tail := List.not_mem_nil
  blank := rfl
  dims := List.cons_ne_nil _ _
  short := (by decide : ∀ signed, 1 ≤ Bracketed.dimLimit (intKind signed)) signed

private theorem readable_writtenFixed (signed : Bool) (dim integer : Int32) (modes : Modes) :
    (writtenFixed signed dim integer modes).Readable where
  head := (by decide : ∀ signed, '<' ∉ fixedKind signed) signed
  tail := List.not_mem_nil
  blank := rfl
  dims := List.cons_ne_nil _ _
  short := (by decide : ∀ signed, 2 ≤ Bracketed.dimLimit (fixedKind signed)) signed

/-- A written integer is read back, part by part. -/
theorem split?_chars_int (fits : width? dim = some width) (signed : Bool) (modes : Modes) :
    Bracketed.split? (int width signed modes).chars = some (writtenInt signed dim modes) := by
  have full : Bracketed.dimLimit (writtenInt signed dim modes).head ≤ 1 :=
    (by decide : ∀ signed, Bracketed.dimLimit (intKind signed) ≤ 1) signed
  rw [chars_int fits, Bracketed.split?_chars (readable_writtenInt signed dim modes),
    Bracketed.reread_of_full full]

theorem split?_chars_fixed (fits : width? dim = some width) (integer : Int32) (signed : Bool)
    (modes : Modes) :
    Bracketed.split? (fixed width integer signed modes).chars =
      some (writtenFixed signed dim integer modes) := by
  have full : Bracketed.dimLimit (writtenFixed signed dim integer modes).head ≤ 2 :=
    Bracketed.dimLimit_le _
  rw [chars_fixed fits, Bracketed.split?_chars (readable_writtenFixed signed dim integer modes),
    Bracketed.reread_of_full full]

/-- Setting modes in the text of a written type writes the type with these modes. -/
theorem chars_setModes {update : Modes} {set : Precision}
    (split : Bracketed.split? precision.chars = some parts)
    (read : ofBracketed? parts = some precision)
    (changed : precision.setModes update = .ok set) :
    ({ parts with modes := parts.modes.merge update } : Bracketed).chars = set.chars := by
  rcases ofBracketed?_eq_some_iff.mp read with
    ⟨signed, dim, width, _, _, fits, rfl⟩ | ⟨signed, dim, width, integer, _, _, fits, _, rfl⟩
  · have written := Option.some.inj ((split?_chars_int fits signed _).symm.trans split)
    rw [← Except.ok.inj changed, chars_int fits, ← written]
    rfl
  · have written := Option.some.inj ((split?_chars_fixed fits integer signed _).symm.trans split)
    rw [← Except.ok.inj changed, chars_fixed fits, ← written]
    rfl

/-! ## Texts and types agree -/

/-- A text that is read as a structured type covers the same modes.  Setting modes in it gives a
text that is read as the type with these modes, in written form if the text was written. -/
theorem setModes_text_agrees
    {text : String} {precision : Precision} (read : parse text = .ok precision)
    (update wanted : Modes) :
    (raw text).covers wanted = precision.covers wanted ∧
      ∃ changed set, precision.setModes update = .ok set ∧
        (raw text).setModes update = .ok (raw changed) ∧ parse changed = .ok set ∧
          (text = precision.display → changed = set.display) := by
  obtain ⟨parts, split, denotes⟩ := parse_eq_ok_iff.mp read
  obtain ⟨set, changed, denotesSet⟩ := setModes_of_ofBracketed? denotes update
  have full := full_of_ofBracketed? denotesSet
  have readable := (Bracketed.readable_of_split? split).setModes (parts.modes.merge update)
  have resplit := Bracketed.split?_chars readable
  rw [Bracketed.reread_of_full full] at resplit
  refine ⟨?_, _, set, changed, setModes_raw split, ?_, ?_⟩
  · rw [covers_of_ofBracketed? denotes]
    simp only [covers, split]
  · refine parse_eq_ok_iff.mpr ⟨_, ?_, denotesSet⟩
    rw [String.toList_ofList]
    exact resplit
  · intro written
    rw [written, display, String.toList_ofList] at split
    rw [chars_setModes split denotes changed]
    rfl

/-- The blanks, the marks and the order of modes in a text do not matter. -/
theorem setModes_marked_text_agrees :
    parse " ap_fixed < 16,-2 ,7, AP_SAT,AP_RND > " =
        .ok (fixed 16 (-2) true ⟨some .rnd, some .sat, some 7⟩) ∧
      (raw " ap_fixed < 16,-2 ,7, AP_SAT,AP_RND > ").covers ⟨none, some .sat, none⟩ = true ∧
        ∃ changed, (raw " ap_fixed < 16,-2 ,7, AP_SAT,AP_RND > ").setModes
            ⟨some .rndConv, none, some 1⟩ = .ok (raw changed) ∧
          parse changed = .ok (fixed 16 (-2) true ⟨some .rndConv, some .sat, some 1⟩) := by
  have read : parse " ap_fixed < 16,-2 ,7, AP_SAT,AP_RND > " =
      .ok (fixed 16 (-2) true ⟨some .rnd, some .sat, some 7⟩) := by
    decide +kernel
  obtain ⟨covers, changed, set, structured, text, reread, _⟩ :=
    setModes_text_agrees read ⟨some .rndConv, none, some 1⟩ ⟨none, some .sat, none⟩
  obtain rfl := Except.ok.inj structured
  exact ⟨read, covers, changed, text, reread⟩

end Precision

end QuantNet
