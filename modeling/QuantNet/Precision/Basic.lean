import QuantNet.Precision.Bracketed

/-!
# Precisions

The numeric type of a tensor in the generated hardware: an integer or fixed-point type with its
modes, or a text that is kept as it was given.  Modes are set in a text by writing them into its
bracketed suffix.
-/

namespace QuantNet

inductive Precision where
  /-- An integer of `width` bits. -/
  | int (width : UInt32) (signed : Bool) (modes : Modes)
  /-- A fixed-point number of `width` bits, `integer` of them in front of the point. -/
  | fixed (width : UInt32) (integer : Int32) (signed : Bool) (modes : Modes)
  /-- A type that is known by its text only. -/
  | raw (text : String)
deriving DecidableEq, Repr

namespace Precision

def isRaw : Precision → Bool
  | raw _ => true
  | _ => false

def modes? : Precision → Option Modes
  | int _ _ modes => some modes
  | fixed _ _ _ modes => some modes
  | raw _ => none

def signMark (signed : Bool) : List Char :=
  if signed then [] else ['u']

def chars : Precision → List Char
  | int width signed modes =>
      signMark signed ++ ['i', 'n', 't', '<'] ++ Text.naturalText width.toNat ++
        modes.chars ++ ['>']
  | fixed width integer signed modes =>
      signMark signed ++ ['f', 'i', 'x', 'e', 'd', '<'] ++ Text.naturalText width.toNat ++
        ',' :: Text.integerText integer.toInt ++ modes.chars ++ ['>']
  | raw text => text.toList

def display (precision : Precision) : String :=
  String.ofList precision.chars

/-- A dimension as a width, which is never negative. -/
def width? (dim : Int32) : Option UInt32 :=
  if 0 ≤ dim.toInt then some (UInt32.ofNat dim.toInt.toNat) else none

/-- The structured type with these parts.  The head names the kind, with at most one `ap_`. -/
def ofBracketed? (parts : Bracketed) : Option Precision :=
  let kind := Text.dropMark ['a', 'p', '_'] (Text.trim parts.head)
  if kind = ['i', 'n', 't'] ∨ kind = ['u', 'i', 'n', 't'] then do
    let width ← parts.dims[0]?.bind width?
    return int width (kind.head? = some 'i') parts.modes
  else if kind = ['f', 'i', 'x', 'e', 'd'] ∨ kind = ['u', 'f', 'i', 'x', 'e', 'd'] then do
    let width ← parts.dims[0]?.bind width?
    let integer ← parts.dims[1]?
    return fixed width integer (kind.head? = some 'f') parts.modes
  else
    none

def ofChars? (text : List Char) : Option Precision :=
  (Bracketed.split? text).bind ofBracketed?

/-- Reads a structured type, in the form that `display` writes or with the marks `ap_` and
`AP_`. -/
def parse (text : String) : Except PrecisionError Precision :=
  match ofChars? text.toList with
  | some precision => .ok precision
  | none => .error (.unrecognized text)

/-- The structured type of a precision: a text is read, others are structured already. -/
def structured : Precision → Except PrecisionError Precision
  | raw text => parse text
  | precision => .ok precision

/-- Whether the precision has every mode that `wanted` sets.  A text that cannot be split has
none, not even when nothing is wanted. -/
def covers (precision : Precision) (wanted : Modes) : Bool :=
  match precision with
  | int _ _ modes => modes.covers wanted
  | fixed _ _ _ modes => modes.covers wanted
  | raw text =>
      match Bracketed.split? text.toList with
      | some parts => parts.modes.covers wanted
      | none => false

/-- The precision with the modes of `update` set and everything else as it was. -/
def setModes (precision : Precision) (update : Modes) : Except PrecisionError Precision :=
  match precision with
  | int width signed modes => .ok (int width signed (modes.merge update))
  | fixed width integer signed modes => .ok (fixed width integer signed (modes.merge update))
  | raw text =>
      match Bracketed.split? text.toList with
      | some parts =>
          let changed := { parts with modes := parts.modes.merge update }
          .ok (.raw (String.ofList changed.chars))
      | none => .error (.unrecognized text)

end Precision

end QuantNet
