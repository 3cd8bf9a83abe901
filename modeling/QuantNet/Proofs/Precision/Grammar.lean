import QuantNet.Proofs.Precision.Agreement
import QuantNet.Proofs.Precision.ModeTokens

/-!
# The grammar of types

The texts of structured types and the types that they denote, told without the procedure that reads
them: a head that names a kind, the dimensions of that kind, and mode tokens in any order.  Exactly
these texts are read, as what they denote.
-/

namespace QuantNet

namespace Bracketed

variable {limit : Nat} {dims : List Int32} {modes : Modes}

/-- When a dimension is still to come, the first token is that dimension. -/
private theorem foldlM_cons_iff {token : List Char} {others : List (List Char)}
    {held rest : List Int32} {dim : Int32} (free : held.length < limit) :
    (token :: others).foldlM (addToken? limit) (held, .unset) = some (held ++ dim :: rest, modes) ↔
      Text.signed32? token = some dim ∧
        others.foldlM (addToken? limit) (held ++ [dim], .unset) =
          some (held ++ dim :: rest, modes) := by
  rw [List.foldlM_cons]
  constructor
  · intro taken
    obtain ⟨middle, first, later⟩ := Option.bind_eq_some_iff.mp taken
    cases numeral : Text.signed32? token with
    | some found =>
        obtain rfl := Option.some.inj ((addToken?_of_numeral free numeral).symm.trans first)
        have same : found = dim := by
          simpa using prefix_of_foldlM later
        exact ⟨congrArg some same, same ▸ later⟩
    | none =>
        -- The token is a mode, so that no dimension is taken behind it.
        rw [addToken?_of_not_numeral numeral] at first
        obtain ⟨set, added, rfl⟩ := Option.map_eq_some_iff.mp first
        rw [foldlM_of_closed fun still => addMode?_ne_unset added still.2] at later
        obtain ⟨_, _, same⟩ := Option.map_eq_some_iff.mp later
        exact absurd (Prod.mk.inj same).1 (by simp)
  · rintro ⟨numeral, later⟩
    exact Option.bind_eq_some_iff.mpr ⟨_, addToken?_of_numeral free numeral, later⟩

/-- Dimensions fill up to the limit exactly when that many tokens in front are integers.  The other
tokens set the modes. -/
private theorem foldlM_full_iff {tokens : List (List Char)} {held : List Int32}
    (full : held.length + dims.length = limit) :
    tokens.foldlM (addToken? limit) (held, .unset) = some (held ++ dims, modes) ↔
      ∃ front back, tokens = front ++ back ∧
        List.Forall₂ (fun token dim => Text.signed32? token = some dim) front dims ∧
          back.foldlM addMode? .unset = some modes := by
  induction dims generalizing held tokens with
  | nil =>
      have closed : ¬ (held.length < limit ∧ Modes.unset = .unset) := by
        simp [← full]
      rw [foldlM_of_closed closed]
      constructor
      · intro taken
        obtain ⟨set, others, same⟩ := Option.map_eq_some_iff.mp taken
        obtain rfl := (Prod.mk.inj same).2
        exact ⟨[], tokens, rfl, .nil, others⟩
      · rintro ⟨front, back, rfl, numerals, others⟩
        obtain rfl := List.forall₂_nil_right_iff.mp numerals
        rw [List.nil_append, others, List.append_nil, Option.map_some]
  | cons dim rest inductionHypothesis =>
      have free : held.length < limit := by
        rw [List.length_cons] at full
        omega
      have later : (held ++ [dim]).length + rest.length = limit := by
        rw [List.length_append, List.length_singleton]
        rw [List.length_cons] at full
        omega
      have shift : held ++ dim :: rest = held ++ [dim] ++ rest := by
        rw [List.append_assoc, List.singleton_append]
      cases tokens with
      | nil =>
          constructor
          · intro taken
            exact absurd (Prod.mk.inj (Option.some.inj taken)).1 (by simp)
          · rintro ⟨front, back, none, numerals, _⟩
            obtain ⟨rfl, _⟩ := List.append_eq_nil_iff.mp none.symm
            cases numerals
      | cons token others =>
          rw [foldlM_cons_iff free, shift, inductionHypothesis later]
          constructor
          · rintro ⟨numeral, front, back, rfl, numerals, set⟩
            exact ⟨token :: front, back, rfl, .cons numeral numerals, set⟩
          · rintro ⟨front, back, split, numerals, set⟩
            cases numerals with
            | cons numeral numerals =>
                obtain ⟨rfl, rfl⟩ := List.cons.inj split
                exact ⟨numeral, _, back, rfl, numerals, set⟩

/-- The tokens of a type with all its dimensions: first these, as literals, then the modes. -/
private theorem foldlM_trim_iff {tokens : List (List Char)} (full : dims.length = limit) :
    (tokens.map Text.trim).foldlM (addToken? limit) ([], .unset) = some (dims, modes) ↔
      ∃ front back, tokens = front ++ back ∧
        List.Forall₂ (fun token dim => Text.Integer (Text.trim token) (Int32.toInt dim))
            front dims ∧
          Modes.SetBy back modes := by
  have filled : (tokens.map Text.trim).foldlM (addToken? limit) ([], .unset) =
      some ([] ++ dims, modes) ↔ _ :=
    foldlM_full_iff (by simpa using full)
  rw [List.nil_append] at filled
  rw [filled]
  constructor
  · rintro ⟨trimmed, others, split, numerals, set⟩
    obtain ⟨front, back, rfl, rfl, rfl⟩ := List.map_eq_append_iff.mp split
    refine ⟨front, back, rfl, ?_, foldlM_addMode?_unset_iff.mp set⟩
    simpa only [List.forall₂_map_left_iff, Text.signed32?_iff_integer] using numerals
  · rintro ⟨front, back, rfl, numerals, set⟩
    refine ⟨front.map Text.trim, back.map Text.trim, List.map_append, ?_,
      foldlM_addMode?_unset_iff.mpr set⟩
    simpa only [List.forall₂_map_left_iff, Text.signed32?_iff_integer] using numerals

end Bracketed

namespace Precision

/-! ## Types and their texts -/

/-- The head names this kind: the word between blanks, with at most one `ap_`. -/
def Names (head kind : List Char) : Prop :=
  Text.trim head = kind ∨ Text.trim head = ['a', 'p', '_'] ++ kind

/-- What head and tokens denote.  The dimensions are literals of 32 bits and the width is not
negative. -/
inductive Denotes (head : List Char) : List (List Char) → Precision → Prop
  | int {first : List Char} {others : List (List Char)} {signed : Bool} {dim : Int32}
      {width : UInt32} {modes : Modes}
      (kind : Names head (intKind signed))
      (literal : Text.Integer (Text.trim first) dim.toInt) (fits : dim.toInt = width.toNat)
      (set : Modes.SetBy others modes) :
      Denotes head (first :: others) (int width signed modes)
  | fixed {first second : List Char} {others : List (List Char)} {signed : Bool}
      {dim integer : Int32} {width : UInt32} {modes : Modes}
      (kind : Names head (fixedKind signed))
      (literal : Text.Integer (Text.trim first) dim.toInt) (fits : dim.toInt = width.toNat)
      (point : Text.Integer (Text.trim second) integer.toInt)
      (set : Modes.SetBy others modes) :
      Denotes head (first :: second :: others) (fixed width integer signed modes)

/-- The text is a way to write the type. -/
def Spells (text : List Char) (precision : Precision) : Prop :=
  ∃ head tokens tail, Framed head tokens tail ∧ text = framed head tokens tail ∧
    Denotes head tokens precision

/-- How many dimensions a structured type has. -/
def dimensions : Precision → Nat
  | int _ _ _ => 1
  | fixed _ _ _ _ => 2
  | raw _ => 0

variable {head tail : List Char} {tokens : List (List Char)} {precision : Precision}
  {dim : Int32} {width : UInt32} {signed : Bool}

theorem kindOf_intKind_iff : kindOf head = intKind signed ↔ Names head (intKind signed) :=
  Text.dropMark_eq_iff ((by decide : ∀ signed, ¬ ['a', 'p', '_'] <+: intKind signed) signed)

theorem kindOf_fixedKind_iff : kindOf head = fixedKind signed ↔ Names head (fixedKind signed) :=
  Text.dropMark_eq_iff ((by decide : ∀ signed, ¬ ['a', 'p', '_'] <+: fixedKind signed) signed)

/-- A dimension that is not negative is the width of the same value. -/
theorem width?_eq_some_iff : width? dim = some width ↔ dim.toInt = width.toNat := by
  unfold width?
  constructor
  · intro fits
    split at fits
    · next nonnegative =>
        have below : dim.toInt < 2 ^ 31 := Int32.toInt_lt dim
        have size : UInt32.size = 2 ^ 32 := rfl
        have small : dim.toInt.toNat < UInt32.size := by omega
        rw [← Option.some.inj fits, UInt32.toNat_ofNat_of_lt' small,
          Int.toNat_of_nonneg nonnegative]
    · cases fits
  · intro same
    rw [same, if_pos (Int.natCast_nonneg _), Int.toNat_natCast, UInt32.ofNat_toNat]

/-- Fixed-point numbers have two dimensions. -/
theorem dimLimit_of_fixedKind (kind : Names head (fixedKind signed)) :
    Bracketed.dimLimit head = 2 := by
  unfold Bracketed.dimLimit
  rcases kind with same | same <;> rw [same] <;> cases signed <;> decide

/-- Head and tokens denote the type that is made of what the tokens are taken for. -/
theorem denotes_iff_ofBracketed? (tail : List Char) :
    Denotes head tokens precision ↔
      ∃ dims modes, (tokens.map Text.trim).foldlM
          (Bracketed.addToken? (Bracketed.dimLimit head)) ([], Modes.unset) = some (dims, modes) ∧
        ofBracketed? ⟨head, dims, modes, tail⟩ = some precision := by
  constructor
  · intro denotes
    cases denotes with
    | @int first others signed dim width modes kind literal fits set =>
        have named := kindOf_intKind_iff.mpr kind
        have full : [dim].length = Bracketed.dimLimit head := (dimLimit_of_intKind named).symm
        refine ⟨[dim], modes, ?_, ofBracketed?_eq_some_iff.mpr (Or.inl ?_)⟩
        · exact (Bracketed.foldlM_trim_iff full).mpr ⟨[first], others, rfl, .cons literal .nil, set⟩
        · exact ⟨signed, dim, width, named, rfl, width?_eq_some_iff.mpr fits, rfl⟩
    | @fixed first second others signed dim integer width modes kind literal fits point set =>
        have named := kindOf_fixedKind_iff.mpr kind
        have full : [dim, integer].length = Bracketed.dimLimit head :=
          (dimLimit_of_fixedKind kind).symm
        refine ⟨[dim, integer], modes, ?_, ofBracketed?_eq_some_iff.mpr (Or.inr ?_)⟩
        · exact (Bracketed.foldlM_trim_iff full).mpr
            ⟨[first, second], others, rfl, .cons literal (.cons point .nil), set⟩
        · exact ⟨signed, dim, width, integer, named, rfl, width?_eq_some_iff.mpr fits, rfl, rfl⟩
  · rintro ⟨dims, modes, taken, denotes⟩
    have full : dims.length = Bracketed.dimLimit head :=
      (Bracketed.length_of_foldlM taken (Nat.zero_le _)).antisymm (full_of_ofBracketed? denotes)
    obtain ⟨front, others, rfl, numerals, set⟩ := (Bracketed.foldlM_trim_iff full).mp taken
    rcases ofBracketed?_eq_some_iff.mp denotes with
      ⟨signed, dim, width, kind, first, fits, rfl⟩ |
        ⟨signed, dim, width, integer, kind, first, fits, second, rfl⟩
    · rw [dimLimit_of_intKind kind] at full
      obtain ⟨only, rfl⟩ := List.length_eq_one_iff.mp full
      obtain rfl := Option.some.inj first
      obtain ⟨token, none, literal, nothing, rfl⟩ := List.forall₂_cons_right_iff.mp numerals
      obtain rfl := List.forall₂_nil_right_iff.mp nothing
      exact .int (kindOf_intKind_iff.mp kind) literal (width?_eq_some_iff.mp fits) set
    · have named := kindOf_fixedKind_iff.mp kind
      rw [dimLimit_of_fixedKind named] at full
      obtain ⟨leading, last, rfl⟩ := List.length_eq_two.mp full
      obtain rfl := Option.some.inj first
      obtain rfl := Option.some.inj second
      obtain ⟨token, rest, literal, more, rfl⟩ := List.forall₂_cons_right_iff.mp numerals
      obtain ⟨other, none, point, nothing, rfl⟩ := List.forall₂_cons_right_iff.mp more
      obtain rfl := List.forall₂_nil_right_iff.mp nothing
      exact .fixed named literal (width?_eq_some_iff.mp fits) point set

/-- Exactly the texts of types are read, as the types that they spell. -/
theorem parse_eq_ok_iff_spells {text : String} :
    parse text = .ok precision ↔ Spells text.toList precision := by
  rw [parse_eq_ok_iff]
  constructor
  · rintro ⟨⟨head, dims, modes, tail⟩, split, denotes⟩
    obtain ⟨tokens, frame, whole, taken, _⟩ := Bracketed.split?_eq_some_iff_framed.mp split
    exact ⟨head, tokens, tail, frame, whole,
      (denotes_iff_ofBracketed? tail).mpr ⟨dims, modes, taken, denotes⟩⟩
  · rintro ⟨head, tokens, tail, frame, whole, spelled⟩
    obtain ⟨dims, modes, taken, denotes⟩ := (denotes_iff_ofBracketed? tail).mp spelled
    have nonempty : dims ≠ [] := by
      rintro rfl
      simp [ofBracketed?] at denotes
    refine ⟨⟨head, dims, modes, tail⟩, Bracketed.split?_eq_some_iff_framed.mpr ?_, denotes⟩
    exact ⟨tokens, frame, whole, taken, nonempty⟩

/-- A text in its parts is read as what head and tokens denote. -/
theorem parse_framed_iff (frame : Framed head tokens tail) :
    parse (String.ofList (framed head tokens tail)) = .ok precision ↔
      Denotes head tokens precision := by
  rw [parse_eq_ok_iff_spells, String.toList_ofList]
  constructor
  · rintro ⟨head', tokens', tail', other, same, denotes⟩
    obtain ⟨rfl, rfl, rfl⟩ := frame.unique other same
    exact denotes
  · exact fun denotes => ⟨head, tokens, tail, frame, rfl, denotes⟩

/-- A text that is not read is refused as a whole. -/
theorem parse_eq_error_iff {text : String} {error : PrecisionError} :
    parse text = .error error ↔
      error = .unrecognized text ∧ ∀ precision, parse text ≠ .ok precision := by
  unfold parse
  cases ofChars? text.toList with
  | none => simp [eq_comm]
  | some precision => simp

/-- The order of the mode tokens does not matter. -/
theorem Denotes.perm {dims shuffled : List (List Char)}
    (denotes : Denotes head (dims ++ tokens) precision)
    (count : dims.length = precision.dimensions) (perm : tokens.Perm shuffled) :
    Denotes head (dims ++ shuffled) precision := by
  generalize whole : dims ++ tokens = all at denotes
  cases denotes with
  | int kind literal fits set =>
      obtain ⟨first, rfl⟩ := List.length_eq_one_iff.mp count
      obtain ⟨rfl, rfl⟩ := List.cons.inj whole
      exact .int kind literal fits (set.perm perm)
  | fixed kind literal fits point set =>
      obtain ⟨first, second, rfl⟩ := List.length_eq_two.mp count
      obtain ⟨rfl, rest⟩ := List.cons.inj whole
      obtain ⟨rfl, rfl⟩ := List.cons.inj rest
      exact .fixed kind literal fits point (set.perm perm)

/-- The texts that spell a type are read as that type, and all others are refused as a whole.  Mode
tokens may be written in any order. -/
theorem parse_accepts_grammar (text : String) :
    (∀ precision, parse text = .ok precision ↔ Spells text.toList precision) ∧
      ((¬ ∃ precision, Spells text.toList precision) → parse text = .error (.unrecognized text)) ∧
        ∀ head dims tokens shuffled tail precision,
          Framed head (dims ++ tokens) tail → text.toList = framed head (dims ++ tokens) tail →
            dims.length = precision.dimensions → tokens.Perm shuffled →
              (parse text = .ok precision ↔
                parse (String.ofList (framed head (dims ++ shuffled) tail)) = .ok precision) := by
  refine ⟨fun precision => parse_eq_ok_iff_spells, fun none => ?_, ?_⟩
  · refine parse_eq_error_iff.mpr ⟨rfl, fun precision read => none ⟨precision, ?_⟩⟩
    exact parse_eq_ok_iff_spells.mp read
  · intro head dims tokens shuffled tail precision frame whole count perm
    have named : text = String.ofList (framed head (dims ++ tokens) tail) := by
      rw [← whole, String.ofList_toList]
    rw [named, parse_framed_iff frame, parse_framed_iff (frame.perm perm)]
    exact ⟨fun denotes => denotes.perm count perm, fun denotes => denotes.perm count perm.symm⟩

/-- A number behind a mode is a bit count, so that a dimension is missing here. -/
example : parse "fixed<16,RND,6>" = .error (.unrecognized "fixed<16,RND,6>") := by
  decide +kernel

end Precision

end QuantNet
