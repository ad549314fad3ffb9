/-!
# Names

A name stands for a variable or an input source. It is a nonempty run of ASCII
letters, digits and underscores that does not start with a digit and is not one
of the reserved words of the language.
-/

namespace FlatIL.Name

/-- The characters a name may start with. -/
def isStart (c : Char) : Bool :=
  c.isAlpha || c == '_'

/-- The characters a name may go on with. -/
def isPart (c : Char) : Bool :=
  isStart c || c.isDigit

/-- The words that belong to the language and can name nothing. -/
def reserved : List String :=
  ["store", "goto", "assert", "if", "then", "else", "load", "get_input"]

/-- Whether a word belongs to the language. -/
def isReserved (text : String) : Bool :=
  reserved.contains text

/-- Whether a run of characters has the shape of a name, reserved or not. -/
def hasShape : List Char → Bool
  | [] => false
  | c :: cs => isStart c && cs.all isPart

/-- Whether a text is a name. -/
def isName (text : String) : Bool :=
  hasShape text.toList && !isReserved text

/-- A name has no characters but those that a name may go on with. -/
theorem isPart_of_mem {text : String} (named : isName text = true) {c : Char}
    (inside : c ∈ text.toList) : isPart c = true := by
  simp only [isName, Bool.and_eq_true] at named
  cases spelled : text.toList with
  | nil => simp [spelled] at inside
  | cons first others =>
    simp only [spelled, hasShape, Bool.and_eq_true, List.all_eq_true] at named
    rcases List.mem_cons.mp (spelled ▸ inside) with rfl | later
    · simp [isPart, named.1.1]
    · exact named.1.2 c later

end FlatIL.Name
