import FlatIL.Proofs.Decimal
import FlatIL.Proofs.Grammar
import FlatIL.Token.Scan

/-!
# Scanning piece by piece

`Lexes start text tokens rest` says that a text in front of `rest` is scanned as its own
tokens. What comes behind is part of the statement, because a token is the longest that
fits: a word or a number is read whole only in front of a text that is `Apart` from it.
Pieces that lie side by side lex side by side.
-/

namespace FlatIL

/-- The text does not start with a character that a word or a number could go on with. -/
def Apart (rest : List Char) : Prop :=
  ∀ c ∈ rest.head?, Name.isPart c = false

namespace Apart

/-- Nothing goes on at the end of the text. -/
theorem nil : Apart [] := by
  simp [Apart]

/-- A character that is not part of words keeps them apart from the rest. -/
theorem cons {c : Char} (rest : List Char) (other : Name.isPart c = false) : Apart (c :: rest) := by
  simpa [Apart] using other

end Apart

/-- No name starts with a digit. -/
theorem Name.isDigit_of_isStart {c : Char} (starts : isStart c = true) : c.isDigit = false := by
  rw [Bool.eq_false_iff]
  intro digit
  delta isStart Char.isAlpha Char.isUpper Char.isLower at starts
  simp only [Char.isDigit, Bool.or_eq_true, Bool.and_eq_true, decide_eq_true_eq, beq_iff_eq,
    ge_iff_le, UInt32.le_iff_toNat_le] at starts digit
  rcases starts with (upper | lower) | rfl
  · grind
  · grind
  · grind

/-- A word is an identifier exactly if it is not reserved. -/
theorem TokenKind.ofWord_eq_identifier_iff {word : String} :
    ofWord word = .identifier ↔ Name.isReserved word = false := by
  unfold ofWord
  split
  all_goals simp_all [Name.isReserved, Name.reserved]

/-- A word is never an integer. -/
theorem TokenKind.ofWord_ne_integer (word : String) : ofWord word ≠ .integer := by
  unfold ofWord
  split <;> simp

/-- No word is the end of a text. -/
theorem TokenKind.ofWord_ne_eof (word : String) : ofWord word ≠ .eof := by
  unfold ofWord
  split <;> simp

/-- A token that is neither an identifier nor an integer is valid. -/
theorem Token.Valid.of_kind {token : Token} (noName : token.kind ≠ .identifier)
    (noInteger : token.kind ≠ .integer) : token.Valid :=
  ⟨fun isName => absurd isName noName, fun isInteger => absurd isInteger noInteger⟩

namespace Token

/-- Characters of a class in front of a text that does not go on with one are taken up to the
text. -/
theorem takeWhile_append_of_apart {p : Char → Bool} {cs rest : List Char}
    (all : ∀ c ∈ cs, p c = true) (stops : ∀ c ∈ rest.head?, p c = false) :
    (cs ++ rest).takeWhile p = cs ∧ (cs ++ rest).dropWhile p = rest := by
  rw [List.takeWhile_append_of_pos all, List.dropWhile_append_of_pos all]
  cases rest with
  | nil => simp
  | cons c rest => simp [stops c rfl]

/-- The characters that start a token are neither gaps nor start comments. -/
theorem solid_of_readToken {c : Char} {cs : List Char} {lexeme : Lexeme}
    (read : readToken c cs = .ok lexeme) : isGap c = false ∧ (c == '#') = false := by
  constructor
  · cases gap : isGap c with
    | false => rfl
    | true =>
      simp only [isGap, Bool.or_eq_true, beq_iff_eq] at gap
      rcases gap with ((rfl | rfl) | rfl) | rfl <;> cases read
  · cases comment : c == '#' with
    | false => rfl
    | true =>
      obtain rfl := eq_of_beq comment
      cases read

/-- A word in front of a text apart from it is read whole. -/
theorem readToken_word {c : Char} {cs rest : List Char} (shaped : Name.hasShape (c :: cs) = true)
    (apart : Apart rest) :
    readToken c (cs ++ rest) =
      .ok { kind := .ofWord (String.ofList (c :: cs)), text := c :: cs, rest } := by
  simp only [Name.hasShape, Bool.and_eq_true, List.all_eq_true] at shaped
  obtain ⟨starts, parts⟩ := shaped
  obtain ⟨taken, dropped⟩ := takeWhile_append_of_apart parts apart
  have notDigit := Name.isDigit_of_isStart starts
  simp only [readToken, notDigit, Bool.false_eq_true, if_false, starts, if_true, readWord, taken,
    dropped]

/-- A numeral of a word in front of a text apart from it is read whole, as that word. -/
theorem readToken_digits {c : Char} {cs rest : List Char} {n : Nat} (small : n < Word.bound)
    (numeral : Decimal.digits n = c :: cs) (apart : Apart rest) :
    readToken c (cs ++ rest) =
      .ok { kind := .integer, text := c :: cs, value := .int n, rest } := by
  have all : ∀ d ∈ c :: cs, d.isDigit = true := by
    rw [← numeral]
    exact Decimal.isDigit_of_mem_digits n
  have stops : ∀ d ∈ rest.head?, d.isDigit = false := by
    intro d first
    have other := apart d first
    simp only [Name.isPart, Bool.or_eq_false_iff] at other
    exact other.2
  obtain ⟨taken, dropped⟩ :=
    takeWhile_append_of_apart (fun d inside => all d (List.mem_cons_of_mem c inside)) stops
  have short : (c :: cs).length ≤ 10 := by
    rw [← numeral]
    exact Decimal.length_digits_le (by simp only [Word.bound] at small; omega)
  have limit : ¬ Decimal.digitLimit < (c :: cs).length := by
    simp only [Decimal.digitLimit]
    omega
  have denoted : Decimal.value (c :: cs) = n := by rw [← numeral, Decimal.value_digits]
  simp only [readToken, all c List.mem_cons_self, if_true, readInteger, taken, dropped, limit,
    if_false, denoted, small]

end Token

namespace TokenStream

/-- Puts tokens in front of a stream. -/
def prepend (tokens : List Token) (stream : TokenStream) : TokenStream :=
  { stream with body := tokens ++ stream.body }

/-- From a place, a text in front of `rest` is scanned as the tokens, and then `rest` is. -/
def Lexes (start : Location) (text : List Char) (tokens : List Token) (rest : List Char) : Prop :=
  scanFrom start (text ++ rest) = (scanFrom (start.advance text) rest).map (prepend tokens)

namespace Lexes

variable {start : Location} {text more rest : List Char} {tokens others : List Token}

/-- Pieces side by side are scanned side by side. -/
theorem append (first : Lexes start text tokens (more ++ rest))
    (second : Lexes (start.advance text) more others rest) :
    Lexes start (text ++ more) (tokens ++ others) rest := by
  simp only [Lexes] at first second ⊢
  have place : start.advance (text ++ more) = (start.advance text).advance more := by
    simp [Location.advance]
  rw [List.append_assoc, first, second, place]
  cases scanFrom ((start.advance text).advance more) rest with
  | error e => rfl
  | ok stream => simp [Except.map, prepend]

/-- A gap is scanned as no token. -/
theorem gap {c : Char} (isGap : Token.isGap c = true) : Lexes start [c] [] rest := by
  rw [Lexes, List.singleton_append, scanFrom, if_pos isGap]
  cases same : scanFrom (start.next c) rest with
  | error e => simp [Location.advance, same, Except.map]
  | ok stream => simp [Location.advance, same, Except.map, prepend]

/-- A text that is read as a token is scanned as that token, placed where the text starts. -/
theorem token {c : Char} {cs : List Char} {kind : TokenKind} {value : Json}
    (read : Token.readToken c (cs ++ rest) = .ok { kind, text := c :: cs, value, rest }) :
    Lexes start (c :: cs)
      [{ kind, lexeme := String.ofList (c :: cs), location := start, value }] rest := by
  obtain ⟨solid, notComment⟩ := Token.solid_of_readToken read
  rw [Lexes, List.cons_append, scanFrom]
  simp only [solid, notComment, Bool.false_eq_true, if_false]
  split
  · next found => simp [read] at found
  · next found =>
    obtain rfl := Except.ok.inj (read.symm.trans found)
    cases scanFrom (start.advance (c :: cs)) rest <;> rfl

/-- A text that lexes up to its end is scanned as its tokens. -/
theorem scanFrom_eq (lexed : Lexes start text tokens []) :
    scanFrom start text = .ok { body := tokens, stop := start.advance text } := by
  rw [Lexes, List.append_nil, scanFrom] at lexed
  rw [lexed]
  simp [Except.map, prepend]

end Lexes

end TokenStream

end FlatIL
