import QuadraticProgram.Text.Blank

/-! # Switches given as text -/

namespace QuadraticProgram.Text

/-- The texts that turn a switch on, in lower case and without blanks around them. -/
def switchedOn : List String := ["1", "true", "yes", "on"]

/-- Whether a setting turns a switch on. A missing setting does not. No character outside ASCII has
a lower-case form among the letters of the texts that do. -/
def isSwitchedOn (setting : Option String) : Bool :=
  let cs := trim isBlank (setting.getD "").toList
  switchedOn.contains (String.ofList (cs.map Char.toLower))

end QuadraticProgram.Text
