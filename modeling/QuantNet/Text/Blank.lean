/-!
# Blanks and separated fields

Blank characters are those with the Unicode property `White_Space`.  Trimming removes them from
both ends of a text.  A comma-separated text is cut into its fields, empty ones included.
-/

namespace QuantNet.Text

/-- Whether a character has the Unicode property `White_Space`. -/
def isBlank (c : Char) : Bool :=
  let code := c.toNat
  (0x09 ≤ code && code ≤ 0x0D) || code == 0x20 || code == 0x85 || code == 0xA0 ||
    code == 0x1680 || (0x2000 ≤ code && code ≤ 0x200A) || code == 0x2028 || code == 0x2029 ||
    code == 0x202F || code == 0x205F || code == 0x3000

def trim (text : List Char) : List Char :=
  ((text.dropWhile isBlank).reverse.dropWhile isBlank).reverse

/-- The text behind `mark` if it starts with it, otherwise the text itself. -/
def dropMark (mark : List Char) (text : List Char) : List Char :=
  if mark.isPrefixOf text then text.drop mark.length else text

/-- The fields between the commas of a text; a text without a comma is one field. -/
def fields : List Char → List (List Char)
  | [] => [[]]
  | c :: rest =>
      if c = ',' then
        [] :: fields rest
      else
        match fields rest with
        | [] => [[c]]
        | field :: others => (c :: field) :: others

/-- The parts of a text before and behind the first occurrence of `sep`, which must be there. -/
def splitFirst? (sep : Char) (text : List Char) : Option (List Char × List Char) :=
  match text.dropWhile (· != sep) with
  | [] => none
  | _ :: rest => some (text.takeWhile (· != sep), rest)

/-- The parts of a text before and behind the last occurrence of `sep`, which must be there. -/
def splitLast? (sep : Char) (text : List Char) : Option (List Char × List Char) :=
  (splitFirst? sep text.reverse).map fun (after, before) => (before.reverse, after.reverse)

/-! ## Where a text is split -/

/-- A text is split at a separator that does not stand before. -/
theorem splitFirst?_append {sep : Char} {before : List Char} (after : List Char)
    (absent : sep ∉ before) :
    splitFirst? sep (before ++ sep :: after) = some (before, after) := by
  have passed : ∀ c ∈ before, (c != sep) = true := fun c member => by
    simp only [bne_iff_ne, ne_eq]
    exact fun same => absent (same ▸ member)
  unfold splitFirst?
  rw [List.dropWhile_append_of_pos passed, List.takeWhile_append_of_pos passed]
  simp

/-- A text is split at a separator that does not stand behind. -/
theorem splitLast?_append {sep : Char} (before : List Char) {after : List Char}
    (absent : sep ∉ after) :
    splitLast? sep (before ++ sep :: after) = some (before, after) := by
  have reversed : (before ++ sep :: after).reverse = after.reverse ++ sep :: before.reverse := by
    simp
  unfold splitLast?
  rw [reversed, splitFirst?_append _ (by simpa using absent)]
  simp

end QuantNet.Text
