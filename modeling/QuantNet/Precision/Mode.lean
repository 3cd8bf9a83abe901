import QuantNet.Text.Blank
import QuantNet.Text.Numeral

/-!
# Rounding and saturation modes

How a fixed-point type narrows a value: the rounding of the bits that are cut off at the low end
and the behaviour when the value is too large.  Each mode has a mnemonic, which may be written
with the mark `AP_` in front.  A mode that is not set leaves the default of the hardware.
-/

namespace QuantNet

inductive Rounding where
  | trn
  | trnZero
  | rnd
  | rndZero
  | rndInf
  | rndMinInf
  | rndConv
deriving DecidableEq, Repr

inductive Saturation where
  | wrap
  | sat
  | satZero
  | satSym
deriving DecidableEq, Repr

inductive PrecisionError where
  | unrecognized (text : String)
  | unknownMode (text : String)
deriving DecidableEq, Repr

def PrecisionError.message : PrecisionError → String
  | unrecognized text => s!"unrecognized precision `{text}`"
  | unknownMode text => s!"unknown rounding or saturation mode `{text}`"

/-- The name of a mode inside a text: blanks and one mark `AP_` do not count. -/
def modeName (text : List Char) : List Char :=
  Text.dropMark ['A', 'P', '_'] (Text.trim text)

namespace Rounding

def all : List Rounding :=
  [trn, trnZero, rnd, rndZero, rndInf, rndMinInf, rndConv]

def mnemonic : Rounding → String
  | trn => "TRN"
  | trnZero => "TRN_ZERO"
  | rnd => "RND"
  | rndZero => "RND_ZERO"
  | rndInf => "RND_INF"
  | rndMinInf => "RND_MIN_INF"
  | rndConv => "RND_CONV"

def ofChars? (text : List Char) : Option Rounding :=
  all.find? fun mode => mode.mnemonic.toList = modeName text

def parse (text : String) : Except PrecisionError Rounding :=
  match ofChars? text.toList with
  | some mode => .ok mode
  | none => .error (.unknownMode text)

end Rounding

namespace Saturation

def all : List Saturation :=
  [wrap, sat, satZero, satSym]

def mnemonic : Saturation → String
  | wrap => "WRAP"
  | sat => "SAT"
  | satZero => "SAT_ZERO"
  | satSym => "SAT_SYM"

def ofChars? (text : List Char) : Option Saturation :=
  all.find? fun mode => mode.mnemonic.toList = modeName text

def parse (text : String) : Except PrecisionError Saturation :=
  match ofChars? text.toList with
  | some mode => .ok mode
  | none => .error (.unknownMode text)

end Saturation

/-- The rounding and saturation of a precision, each set or left to the hardware. -/
structure Modes where
  rounding : Option Rounding := none
  saturation : Option Saturation := none
  bits : Option UInt32 := none
deriving DecidableEq, Repr

namespace Modes

def unset : Modes :=
  ⟨none, none, none⟩

def isEmpty (modes : Modes) : Bool :=
  modes = unset

/-- The modes of `update` where it sets them, and those of `base` elsewhere. -/
def merge (base update : Modes) : Modes where
  rounding := update.rounding.or base.rounding
  saturation := update.saturation.or base.saturation
  bits := update.bits.or base.bits

/-- Whether a wanted value, if there is one, is the present one. -/
def agrees {β : Type} [DecidableEq β] (present wanted : Option β) : Bool :=
  wanted.isNone || present = wanted

/-- Whether every mode that `wanted` sets is set to the same value. -/
def covers (modes wanted : Modes) : Bool :=
  agrees modes.rounding wanted.rounding && agrees modes.saturation wanted.saturation &&
    agrees modes.bits wanted.bits

/-- The set modes as they stand in a type: rounding, saturation, bit count.  The mnemonics carry
the mark `AP_` if `marked`. -/
def tokens (modes : Modes) (marked : Bool) : List (List Char) :=
  let mark : List Char := if marked then ['A', 'P', '_'] else []
  (modes.rounding.map fun mode => mark ++ mode.mnemonic.toList).toList ++
    (modes.saturation.map fun mode => mark ++ mode.mnemonic.toList).toList ++
    (modes.bits.map fun bits => Text.naturalText bits.toNat).toList

/-- The set modes without marks, each behind a comma. -/
def chars (modes : Modes) : List Char :=
  (modes.tokens false).flatMap fun token => ',' :: token

/-- The set modes as they follow the dimensions of a type. -/
def text (modes : Modes) : String :=
  String.ofList modes.chars

end Modes

end QuantNet
