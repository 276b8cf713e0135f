/-!
# Lines

Texts made of lines, each with a line break behind it.
-/

namespace SerialContract

/-- A line break behind a text. -/
def line (text : String) : String :=
  text ++ "\n"

/-- Lines below each other. -/
def lines (texts : List String) : String :=
  String.join (texts.map line)

end SerialContract
