import FlatIL.Name
import FlatIL.Token
import FlatIL.Word

/-!
# From text to tokens

Between tokens there may be spaces, tabs, carriage returns, line feeds and
comments, which run from `#` up to the next line feed. At every other place the
longest token that fits is taken, or the text is refused there.
-/

namespace FlatIL

/-- Why no token can be read at a place. -/
inductive LexicalError where
  /-- A run of more digits than are ever read as a number. -/
  | digitLimit (count : Nat)
  /-- An integer that is no word. -/
  | tooLarge (lexeme : String)
  /-- A colon without an equals sign after it. -/
  | loneColon
  /-- A character that starts no token. -/
  | invalidCharacter (c : Char)
  deriving DecidableEq, Repr

namespace Token

/-- Whether a character may stand between tokens. -/
def isGap (c : Char) : Bool :=
  c == ' ' || c == '\t' || c == '\r' || c == '\n'

/-- A token at the front of a text, and the text after it. -/
structure Lexeme where
  kind : TokenKind
  text : List Char
  value : Json := .null
  rest : List Char
  deriving Repr

/-- Reads an integer that starts with the digit `c`. -/
def readInteger (c : Char) (cs : List Char) : Except LexicalError Lexeme :=
  let text := c :: cs.takeWhile Char.isDigit
  if Decimal.digitLimit < text.length then .error (.digitLimit text.length)
  else
    let n := Decimal.value text
    if n < Word.bound then
      .ok { kind := .integer, text, value := .int n, rest := cs.dropWhile Char.isDigit }
    else .error (.tooLarge (String.ofList text))

/-- Reads a name or a reserved word that starts with `c`. -/
def readWord (c : Char) (cs : List Char) : Lexeme :=
  let text := c :: cs.takeWhile Name.isPart
  { kind := .ofWord (String.ofList text), text, rest := cs.dropWhile Name.isPart }

/-- Reads a sign that starts with `c`. -/
def readSign (c : Char) (cs : List Char) : Except LexicalError Lexeme :=
  match c, cs with
  | ':', '=' :: rest => .ok { kind := .assign, text := [':', '='], rest }
  | ':', _ => .error .loneColon
  | '<', '=' :: rest => .ok { kind := .lessEqual, text := ['<', '='], rest }
  | '<', '>' :: rest => .ok { kind := .notEqual, text := ['<', '>'], rest }
  | c, rest =>
    match TokenKind.ofChar? c with
    | some kind => .ok { kind, text := [c], rest }
    | none => .error (.invalidCharacter c)

/-- Reads the token that starts with `c`. -/
def readToken (c : Char) (cs : List Char) : Except LexicalError Lexeme :=
  if c.isDigit then readInteger c cs
  else if Name.isStart c then .ok (readWord c cs)
  else readSign c cs

/-- A token takes at least its first character. -/
theorem length_rest_le {c : Char} {cs : List Char} {lexeme : Lexeme}
    (read : readToken c cs = .ok lexeme) : lexeme.rest.length ≤ cs.length := by
  unfold readToken readInteger readWord readSign at read
  have shorter (p : Char → Bool) : (cs.dropWhile p).length ≤ cs.length :=
    (List.dropWhile_suffix p).sublist.length_le
  split at read
  · dsimp only at read
    split at read
    · simp at read
    · split at read
      · obtain rfl := Except.ok.inj read
        exact shorter _
      · simp at read
  · split at read
    · obtain rfl := Except.ok.inj read
      exact shorter _
    · split at read
      · obtain rfl := Except.ok.inj read
        simp
      · simp at read
      · obtain rfl := Except.ok.inj read
        simp
      · obtain rfl := Except.ok.inj read
        simp
      · split at read
        · obtain rfl := Except.ok.inj read
          simp
        · simp at read

end Token

/-- A text refused at a place. -/
structure ScanError where
  cause : LexicalError
  location : Location
  deriving DecidableEq, Repr

namespace TokenStream

/-- The tokens of a text that starts at a place. -/
def scanFrom (start : Location) (text : List Char) : Except ScanError TokenStream :=
  match text with
  | [] => .ok { body := [], stop := start }
  | c :: cs =>
    if Token.isGap c then scanFrom (start.next c) cs
    else if c == '#' then
      scanFrom (start.advance (c :: cs.takeWhile (· != '\n'))) (cs.dropWhile (· != '\n'))
    else
      match _read : Token.readToken c cs with
      | .error cause => .error { cause, location := start }
      | .ok lexeme =>
        match scanFrom (start.advance lexeme.text) lexeme.rest with
        | .error e => .error e
        | .ok stream =>
          let token : Token :=
            { kind := lexeme.kind, lexeme := String.ofList lexeme.text, location := start,
              value := lexeme.value }
          .ok { stream with body := token :: stream.body }
termination_by text.length
decreasing_by
  · simp
  · have := (List.dropWhile_suffix (l := cs) (· != '\n')).sublist.length_le
    simp only [List.length_cons]
    omega
  · have := Token.length_rest_le _read
    simp only [List.length_cons]
    omega

/-- The tokens of a text. -/
def scan (text : String) : Except ScanError TokenStream :=
  scanFrom {} text.toList

end TokenStream

end FlatIL
