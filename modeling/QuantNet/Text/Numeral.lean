/-!
# Decimal numerals of 32-bit integers

A numeral is a non-empty run of the digits `0` to `9` behind at most one sign.  A plus sign is
always allowed, a minus sign only where negative values exist.  A numeral whose value does not fit
is not read at all.
-/

namespace QuantNet.Text

/-- The value of a non-empty run of decimal digits. -/
def digits? (text : List Char) : Option Nat :=
  if !text.isEmpty && text.all Char.isDigit then some (Nat.ofDigitChars 10 text 0) else none

/-- The value of a numeral that may carry a plus sign. -/
def natural? : List Char → Option Nat
  | '+' :: digits => digits? digits
  | digits => digits? digits

/-- The value of a numeral that may carry either sign. -/
def integer? : List Char → Option Int
  | '-' :: digits => (digits? digits).map fun value => -(value : Int)
  | text => (natural? text).map Int.ofNat

def unsigned32? (text : List Char) : Option UInt32 :=
  (natural? text).bind fun value =>
    if value < UInt32.size then some (UInt32.ofNat value) else none

def signed32? (text : List Char) : Option Int32 :=
  (integer? text).bind fun value =>
    if Int32.minValue.toInt ≤ value ∧ value ≤ Int32.maxValue.toInt then
      some (Int32.ofInt value)
    else
      none

def naturalText (value : Nat) : List Char :=
  Nat.toDigits 10 value

def integerText : Int → List Char
  | .ofNat value => naturalText value
  | .negSucc value => '-' :: naturalText (value + 1)

/-! ## Numerals are read back -/

private theorem digits?_naturalText (value : Nat) : digits? (naturalText value) = some value := by
  have digits : (naturalText value).all Char.isDigit = true := by
    simp only [List.all_eq_true]
    exact fun c member => Nat.isDigit_of_mem_toDigits (by decide) (by decide) member
  have nonempty : (naturalText value).isEmpty = false := by
    simp [naturalText, Nat.toDigits_ne_nil]
  rw [digits?, digits, nonempty]
  simp [naturalText]

/-- A natural number is written without a sign. -/
private theorem head?_naturalText_ne (value : Nat) {c : Char} (sign : c.isDigit = false) :
    (naturalText value).head? ≠ some c := by
  intro first
  have digit := Nat.isDigit_of_mem_toDigits (b := 10) (by decide) (by decide)
    (List.mem_of_mem_head? first)
  simp [sign] at digit

theorem natural?_naturalText (value : Nat) : natural? (naturalText value) = some value := by
  have unsigned : (naturalText value).head? ≠ some '+' := head?_naturalText_ne value rfl
  have read := digits?_naturalText value
  generalize naturalText value = text at unsigned read
  unfold natural?
  split
  · simp at unsigned
  · exact read

theorem integer?_integerText (value : Int) : integer? (integerText value) = some value := by
  cases value with
  | ofNat value =>
      have unsigned : (naturalText value).head? ≠ some '-' := head?_naturalText_ne value rfl
      have read := natural?_naturalText value
      change integer? (naturalText value) = _
      generalize naturalText value = text at unsigned read
      unfold integer?
      split
      · simp at unsigned
      · simp [read]
  | negSucc value =>
      simp only [integerText, integer?, digits?_naturalText]
      rfl

theorem signed32?_integerText (value : Int32) :
    signed32? (integerText value.toInt) = some value := by
  have low := Int32.minValue_le_toInt value
  have high := Int32.toInt_le value
  rw [signed32?, integer?_integerText, Option.bind_some, if_pos ⟨low, high⟩, Int32.ofInt_toInt]

end QuantNet.Text
