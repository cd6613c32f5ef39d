/-
  Text in columns and lines.
-/

namespace FirmwareMatch.Text

/-- `s` with blanks behind it up to `width` characters. -/
def padRight (width : Nat) (s : String) : String :=
  String.ofList (s.toList ++ List.replicate (width - s.length) ' ')

/-- Lines joined to a text, each with a line feed behind it. -/
def joinLines (ls : List String) : String :=
  String.join (ls.map (· ++ "\n"))

end FirmwareMatch.Text
