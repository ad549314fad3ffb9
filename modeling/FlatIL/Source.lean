import FlatIL.Parser.Program
import FlatIL.Token.Scan

/-!
# Source text

The whole text is turned into tokens before parsing starts, so a text that does
not scan is refused for that alone.
-/

namespace FlatIL

/-- Why a source text is refused. -/
inductive ParseError where
  /-- No token can be read at a place. -/
  | lexical (error : ScanError)
  /-- The wrong token, or the end of the text, stands at a place. -/
  | unexpected (expected : Expectation) (found : Option Token) (location : Location)
  /-- A token carries a name or number that no node may have. -/
  | invalid (issue : Model.Issue)
  deriving Repr

namespace LexicalError

/-- The complaint about a place where no token can be read. -/
def complaint : LexicalError → String
  | digitLimit count => Decimal.limitMessage count
  | tooLarge lexeme => "Integer literal " ++ lexeme ++ " does not fit in 32 bits"
  | loneColon => "Expected '=' after ':'"
  | invalidCharacter c => "Invalid character " ++ Text.quoted (String.singleton c)

end LexicalError

namespace ParseError

/-- A number that may be absent. -/
def optional : Option Int → String
  | none => "None"
  | some n => Decimal.ofInt n

/-- A complaint followed by its place, if there is one; a place without a column still counts. -/
def located (complaint : String) (line column : Option Int) : String :=
  match line with
  | none => complaint
  | some n =>
    complaint ++ " (line " ++ Decimal.ofInt n ++ ", column " ++ optional column ++ ")"

/-- A complaint followed by its place. -/
def locatedAt (complaint : String) (location : Location) : String :=
  located complaint (some location.line) (some location.column)

/-- The place an error is reported at. Too long a run of digits has none. -/
def location? : ParseError → Option Location
  | lexical { cause := .digitLimit _, .. } => none
  | lexical { location, .. } => some location
  | unexpected _ _ location => some location
  | invalid _ => none

/-- The text of an error. -/
def message : ParseError → String
  | lexical { cause := .digitLimit count, .. } => (LexicalError.digitLimit count).complaint
  | lexical { cause, location } => locatedAt cause.complaint location
  | unexpected expected found location => locatedAt (expected.complaint found) location
  | invalid issue => issue.problem.code

/-- The failure of a parser, placed at the token found or at the end of the text. -/
def ofFailure (stop : Location) : Failure → ParseError
  | .unexpected expected found =>
    unexpected expected found ((found.map (·.location)).getD stop)
  | .invalid issue => invalid issue

end ParseError

namespace TokenStream

/-- Parses the tokens ahead, and gives the stream of tokens left. -/
def parse {α : Type} (stream : TokenStream) (parser : Parser α) :
    Except ParseError α × TokenStream :=
  match parser stream.body with
  | (.ok a, rest) => (.ok a, { stream with body := rest })
  | (.error failure, rest) =>
    (.error (.ofFailure stream.stop failure), { stream with body := rest })

end TokenStream

/-- Whether something comes out as a certain value is decided without comparing errors. -/
instance decidableEqOk {ε α : Type} [DecidableEq α] (outcome : Except ε α) (a : α) :
    Decidable (outcome = .ok a) :=
  match outcome with
  | .ok b => decidable_of_iff (b = a) ⟨congrArg _, Except.ok.inj⟩
  | .error _ => .isFalse nofun

/-- Where the image of an outcome is a value, the outcome is one with that image. -/
theorem exists_ok_of_map {ε α β : Type} {outcome : Except ε α} {f : α → β} {b : β}
    (mapped : outcome.map f = .ok b) : ∃ a, outcome = .ok a ∧ f a = b := by
  cases outcome with
  | ok a => exact ⟨a, rfl, Except.ok.inj mapped⟩
  | error e => cases mapped

/-- Where an outcome with an image of its error fails, the outcome fails with an error of that
image. -/
theorem exists_error_of_mapError {ε δ α : Type} {outcome : Except ε α} {f : ε → δ} {d : δ}
    (mapped : outcome.mapError f = .error d) : ∃ e, outcome = .error e ∧ f e = d := by
  cases outcome with
  | ok a => cases mapped
  | error e => exact ⟨e, rfl, Except.error.inj mapped⟩

/-- Scans a text and parses its tokens. -/
def Parser.ofText {α : Type} (parser : Parser α) (text : String) : Except ParseError α :=
  match TokenStream.scan text with
  | .error error => .error (.lexical error)
  | .ok stream => (stream.parse parser).1

/-- The program a text spells. -/
def Program.parse (text : String) : Except ParseError Program :=
  Parser.program.ofText text

/-- The expression a text spells, with nothing behind it. -/
def Expr.parse (text : String) : Except ParseError Expr :=
  Parser.wholeExpression.ofText text

end FlatIL
