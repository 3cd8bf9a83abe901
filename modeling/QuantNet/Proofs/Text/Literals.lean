import Mathlib.Algebra.Group.Nat.Defs
import QuantNet.Proofs.Text.Splitting
import QuantNet.Text.Numeral

/-!
# Literals

What the texts of numbers are, without a procedure that reads them.  Reading a number of 32 bits
gives a value exactly for the literals of that value.
-/

namespace QuantNet.Text

/-- A run of decimal digits with this value. -/
structure DigitRun (token : List Char) (value : Nat) : Prop where
  nonempty : token ≠ []
  digits : ∀ c ∈ token, c.isDigit = true
  worth : Nat.ofDigitChars 10 token 0 = value

/-- The literals of a natural number: its digits, perhaps behind a plus sign. -/
inductive Natural : List Char → Nat → Prop
  | plain {token : List Char} {value : Nat} (run : DigitRun token value) : Natural token value
  | plus {token : List Char} {value : Nat} (run : DigitRun token value) :
      Natural ('+' :: token) value

/-- The literals of an integer. -/
inductive Integer : List Char → Int → Prop
  | natural {token : List Char} {value : Nat} (literal : Natural token value) :
      Integer token value
  | minus {token : List Char} {value : Nat} (run : DigitRun token value) :
      Integer ('-' :: token) (-value)

variable {token : List Char}

/-! ## Reading literals -/

private theorem digits?_eq_some_iff {value : Nat} :
    digits? token = some value ↔ DigitRun token value := by
  unfold digits?
  constructor
  · intro read
    split at read
    · next conditions =>
        simp only [Bool.and_eq_true, Bool.not_eq_true', List.isEmpty_eq_false_iff,
          List.all_eq_true] at conditions
        exact ⟨conditions.1, conditions.2, Option.some.inj read⟩
    · cases read
  · rintro ⟨nonempty, digits, worth⟩
    have conditions : (!token.isEmpty && token.all Char.isDigit) = true := by
      simpa [List.all_eq_true] using ⟨nonempty, digits⟩
    rw [if_pos conditions, worth]

/-- A run of digits does not start with a sign. -/
theorem DigitRun.head_ne {value : Nat} {c : Char} {rest : List Char}
    (run : DigitRun (c :: rest) value) {sign : Char} (other : sign.isDigit = false) :
    c ≠ sign := by
  rintro rfl
  rw [run.digits c List.mem_cons_self] at other
  cases other

theorem natural?_eq_some_iff {value : Nat} : natural? token = some value ↔ Natural token value := by
  constructor
  · intro read
    unfold natural? at read
    split at read
    · exact .plus (digits?_eq_some_iff.mp read)
    · exact .plain (digits?_eq_some_iff.mp read)
  · intro literal
    cases literal with
    | plain run =>
        unfold natural?
        split
        · exact absurd rfl (run.head_ne rfl)
        · exact digits?_eq_some_iff.mpr run
    | plus run => exact digits?_eq_some_iff.mpr run

/-- A literal of a natural number has no minus sign. -/
theorem Natural.head_ne {value : Nat} {c : Char} {rest : List Char}
    (literal : Natural (c :: rest) value) : c ≠ '-' := by
  cases literal with
  | plain run => exact run.head_ne rfl
  | plus => decide

theorem integer?_eq_some_iff {value : Int} : integer? token = some value ↔ Integer token value := by
  constructor
  · intro read
    unfold integer? at read
    split at read
    · next digits =>
        cases found : digits? digits with
        | none => simp [found] at read
        | some worth =>
            obtain rfl : -(worth : Int) = value := by simpa [found] using read
            exact .minus (digits?_eq_some_iff.mp found)
    · obtain ⟨worth, literal, rfl⟩ := Option.map_eq_some_iff.mp read
      exact .natural (natural?_eq_some_iff.mp literal)
  · intro literal
    cases literal with
    | natural literal =>
        unfold integer?
        split
        · exact absurd rfl literal.head_ne
        · rw [natural?_eq_some_iff.mpr literal]
          rfl
    | minus run =>
        rw [integer?, digits?_eq_some_iff.mpr run]
        rfl

/-- A number is read as an unsigned one of 32 bits from its literals. -/
theorem unsigned32?_iff_natural {bits : UInt32} :
    unsigned32? token = some bits ↔ Natural token bits.toNat := by
  simp only [unsigned32?, Option.bind_eq_some_iff, natural?_eq_some_iff]
  constructor
  · rintro ⟨value, literal, fits⟩
    split at fits
    · next small =>
        rw [← Option.some.inj fits, UInt32.toNat_ofNat_of_lt' small]
        exact literal
    · cases fits
  · intro literal
    exact ⟨bits.toNat, literal, by simp [UInt32.toNat_lt_size]⟩

/-- A number is read as a signed one of 32 bits from its literals. -/
theorem signed32?_iff_integer {dim : Int32} :
    signed32? token = some dim ↔ Integer token dim.toInt := by
  simp only [signed32?, Option.bind_eq_some_iff, integer?_eq_some_iff]
  constructor
  · rintro ⟨value, literal, fits⟩
    split at fits
    · next bounds =>
        have below : value < 2 ^ 31 := Int.lt_of_le_sub_one bounds.2
        rw [← Option.some.inj fits, Int32.toInt_ofInt_of_le bounds.1 below]
        exact literal
    · cases fits
  · intro literal
    refine ⟨dim.toInt, literal, ?_⟩
    rw [if_pos ⟨Int32.minValue_le_toInt dim, Int32.toInt_le dim⟩, Int32.ofInt_toInt]

/-! ## Literals as tokens -/

/-- The characters of a literal are digits behind a sign. -/
theorem Natural.digit_or_plus {value : Nat} (literal : Natural token value) :
    ∀ c ∈ token, c.isDigit = true ∨ c = '+' := by
  cases literal with
  | plain run => exact fun c member => Or.inl (run.digits c member)
  | plus run =>
      intro c member
      rcases List.mem_cons.mp member with rfl | digit
      · exact Or.inr rfl
      · exact Or.inl (run.digits c digit)

/-- A natural number is read as a signed one if it fits. -/
theorem Natural.signed32?_eq {value : Nat} (literal : Natural token value) :
    signed32? token = if value < 2 ^ 31 then some (Int32.ofInt value) else none := by
  have low : Int32.minValue.toInt = -2 ^ 31 := rfl
  have high : Int32.maxValue.toInt = 2 ^ 31 - 1 := rfl
  rw [signed32?, integer?_eq_some_iff.mpr (.natural literal), Option.bind_some, low, high]
  congr 1
  apply propext
  omega

/-! ## Written numbers -/

private theorem isPlain_of_isDigit {c : Char} (digit : c.isDigit = true) : isPlain c = true := by
  have bounds : 48 ≤ c.toNat ∧ c.toNat ≤ 57 := by
    simpa [Char.isDigit, UInt32.le_iff_toNat_le] using digit
  have comma : c ≠ ',' := by
    rintro rfl
    exact absurd bounds (by decide)
  have dark : isBlank c = false := by
    simp only [isBlank]
    simp
    omega
  simp [isPlain, comma, dark]

theorem plain_naturalText (value : Nat) : (naturalText value).all isPlain = true := by
  rw [List.all_eq_true]
  intro c member
  exact isPlain_of_isDigit (Nat.isDigit_of_mem_toDigits (by decide) (by decide) member)

theorem plain_integerText (value : Int) : (integerText value).all isPlain = true := by
  cases value with
  | ofNat value => exact plain_naturalText value
  | negSucc value =>
      rw [integerText, List.all_cons, plain_naturalText, Bool.and_true]
      rfl

theorem natural_naturalText (value : Nat) : Natural (naturalText value) value :=
  natural?_eq_some_iff.mp (natural?_naturalText value)

theorem integer_integerText (value : Int) : Integer (integerText value) value :=
  integer?_eq_some_iff.mp (integer?_integerText value)

/-- A literal has one value. -/
theorem Integer.unique {value other : Int} (literal : Integer token value)
    (again : Integer token other) : value = other :=
  Option.some.inj ((integer?_eq_some_iff.mpr literal).symm.trans (integer?_eq_some_iff.mpr again))

end QuantNet.Text
