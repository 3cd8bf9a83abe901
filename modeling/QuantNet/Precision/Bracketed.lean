import QuantNet.Precision.Mode

/-!
# Types with a bracketed suffix

The text `head<dims,modes>tail` of a fixed-point type: a head up to the first `<`, leading
dimensions, mode tokens in any order, and a blank tail behind the last `>`.  Reading keeps head
and tail as they are written, so that changing the modes leaves the rest of the text alone.
-/

namespace QuantNet

/-- The parts of a text `head<dims,modes>tail`. -/
structure Bracketed where
  head : List Char
  dims : List Int32
  modes : Modes
  tail : List Char
deriving DecidableEq, Repr

namespace Bracketed

/-- Puts a mode token to the modes before it.  A mode may be given once. -/
def addMode? (modes : Modes) (token : List Char) : Option Modes :=
  match Rounding.ofChars? token, Saturation.ofChars? token, Text.unsigned32? token with
  | some rounding, _, _ =>
      if modes.rounding.isNone then some { modes with rounding := some rounding } else none
  | none, some saturation, _ =>
      if modes.saturation.isNone then some { modes with saturation := some saturation } else none
  | none, none, some bits =>
      if modes.bits.isNone then some { modes with bits := some bits } else none
  | none, none, none => none

/-- Takes one token.  Integers in front of all modes are dimensions, up to the limit; a later one
can only be the bit count. -/
def addToken? (limit : Nat) (read : List Int32 × Modes) (token : List Char) :
    Option (List Int32 × Modes) :=
  match Text.signed32? token with
  | some dim =>
      if read.1.length < limit && read.2.isEmpty then
        some (read.1 ++ [dim], read.2)
      else
        (addMode? read.2 token).map fun modes => (read.1, modes)
  | none => (addMode? read.2 token).map fun modes => (read.1, modes)

/-- How many dimensions a type with this head has: integers have a width only. -/
def dimLimit (head : List Char) : Nat :=
  if ['i', 'n', 't'].isSuffixOf (Text.trim head) then 1 else 2

/-- The trimmed fields between the brackets. -/
def tokensOf (body : List Char) : List (List Char) :=
  (Text.fields body).map Text.trim

/-- Splits a text around its suffix.  There must be a dimension. -/
def split? (text : List Char) : Option Bracketed := do
  let (head, rest) ← Text.splitFirst? '<' text
  let (body, tail) ← Text.splitLast? '>' rest
  guard (Text.trim tail).isEmpty
  let (dims, modes) ← (tokensOf body).foldlM (addToken? (dimLimit head)) ([], Modes.unset)
  guard !dims.isEmpty
  return { head, dims, modes, tail }

/-- Whether the mode mnemonics of the type carry the mark `AP_`. -/
def marked (parts : Bracketed) : Bool :=
  ['a', 'p', '_'].isPrefixOf (Text.trim parts.head)

def chars (parts : Bracketed) : List Char :=
  let dims := parts.dims.map fun dim => Text.integerText dim.toInt
  let tokens := dims ++ parts.modes.tokens parts.marked
  parts.head ++ '<' :: [','].intercalate tokens ++ '>' :: parts.tail

end Bracketed

end QuantNet
