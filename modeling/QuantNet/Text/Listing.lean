/-!
# Listings

Lists inside a message or a printed graph.
-/

namespace QuantNet.Text

/-- Items parted by a comma and a blank. -/
def commaSeparated (items : List String) : String :=
  ", ".intercalate items

/-- Items parted by a comma and a blank, in square brackets. -/
def listing (items : List String) : String :=
  "[" ++ commaSeparated items ++ "]"

end QuantNet.Text
