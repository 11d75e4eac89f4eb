namespace RangeAudit

inductive Colour
  | red | green | yellow | cyan
  deriving DecidableEq, Repr

namespace Colour

def code : Colour → Nat
  | red => 31
  | green => 32
  | yellow => 33
  | cyan => 36

/-- The text between the marks that start and end the style of a number. -/
def styled (code : Nat) (text : String) : String :=
  "\x1b[" ++ toString code ++ "m" ++ text ++ "\x1b[0m"

end Colour

abbrev Palette := Colour → String → String

namespace Palette

def plain : Palette := fun _ text => text

def normal : Palette := fun c text => Colour.styled c.code text

def bright : Palette := fun c text => Colour.styled (c.code + 60) text

end Palette

end RangeAudit
