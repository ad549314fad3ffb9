import FlatIL.Proofs.Scan.Stream
import FlatIL.Source
import Mathlib.Data.List.Induction
import Mathlib.Data.Nat.Digits.Defs

/-!
# Scanning loses nothing and places everything

A text that is scanned is laid out as trivia and tokens with nothing else in between: `Layout` says
so, with each token between the text before it and the text behind it, where it is the longest that
fits and where it is placed by the line feeds and the characters before it. A text that is not
scanned is refused at a place up to which it is scanned, and where no token starts.

The spellings of tokens, the places and the numbers are defined here anew, without regard to how
they are scanned.
-/

namespace FlatIL

/-! ## Spellings, places and numbers -/

namespace TokenKind

/-- The signs of the language. -/
def signs : List (TokenKind × List Char) :=
  [(.leftParen, ['(']), (.rightParen, [')']), (.comma, [',']), (.plus, ['+']), (.minus, ['-']),
    (.star, ['*']), (.slash, ['/']), (.percent, ['%']), (.equal, ['=']), (.ampersand, ['&']),
    (.pipe, ['|']), (.caret, ['^']), (.tilde, ['~']), (.bang, ['!']), (.less, ['<']),
    (.assign, [':', '=']), (.lessEqual, ['<', '=']), (.notEqual, ['<', '>'])]

/-- The reserved words of the language. -/
def words : List (TokenKind × String) :=
  [(.store, "store"), (.goto, "goto"), (.assert, "assert"), (.ifWord, "if"), (.thenWord, "then"),
    (.elseWord, "else"), (.load, "load"), (.getInput, "get_input")]

/-- `Spelling kind text`: the text is a spelling of tokens of the kind. The end of the text has
none. -/
inductive Spelling : TokenKind → List Char → Prop where
  | sign {kind : TokenKind} {text : List Char} (listed : (kind, text) ∈ signs) : Spelling kind text
  | word {kind : TokenKind} {text : String} (listed : (kind, text) ∈ words) :
      Spelling kind text.toList
  /-- A name is a run of letters, digits and underscores that starts with no digit and is not
  reserved. -/
  | name {c : Char} {text : List Char} (starts : c.isAlpha = true ∨ c = '_')
      (parts : ∀ d ∈ text, d.isAlpha = true ∨ d = '_' ∨ d.isDigit = true)
      (free : ∀ kind, (kind, String.ofList (c :: text)) ∉ words) : Spelling .identifier (c :: text)
  /-- An integer is a run of digits, of whatever length and value. -/
  | integer {c : Char} {text : List Char} (digits : ∀ d ∈ c :: text, d.isDigit = true) :
      Spelling .integer (c :: text)

end TokenKind

/-- The place behind a text: lines count line feeds, and columns count characters since the last
one. -/
def Location.behind (text : List Char) : Location where
  line := 1 + text.count '\n'
  column := 1 + (text.reverse.takeWhile (· ≠ '\n')).length

/-- The number that digits denote in base ten, the last digit being that of the ones. -/
def Decimal.number (digits : List Char) : Nat :=
  Nat.ofDigits 10 (digits.reverse.map fun c => c.toNat - '0'.toNat)

/-! ## Layouts -/

/-- `Trivia text rest`: in front of the rest, the text holds blanks, line ends and comments only. A
comment goes on up to a line feed or the end of the whole text. -/
inductive Trivia : List Char → List Char → Prop where
  | nil {rest : List Char} : Trivia [] rest
  | gap {c : Char} {text rest : List Char} (isGap : c ∈ [' ', '\t', '\r', '\n'])
      (more : Trivia text rest) : Trivia (c :: text) rest
  | comment {body text rest : List Char} (inLine : ∀ c ∈ body, c ≠ '\n')
      (ends : ∀ c ∈ (text ++ rest).head?, c = '\n') (more : Trivia text rest) :
      Trivia ('#' :: body ++ text) rest

/-- What a token is that stands between two parts of a text. -/
structure Token.StandsBetween (before rest : List Char) (token : Token) : Prop where
  spelled : token.kind.Spelling token.lexeme.toList
  /-- No token with a longer spelling starts here. -/
  longest (kind : TokenKind) (text : List Char) (spelled : kind.Spelling text)
    (fits : text <+: token.lexeme.toList ++ rest) : text.length ≤ token.lexeme.toList.length
  place : token.location = Location.behind before
  value : token.kind = .integer → token.value = .int (Decimal.number token.lexeme.toList) ∧
    Decimal.number token.lexeme.toList ≤ 2 ^ 32 - 1

/-- `Layout before text tokens`: behind the text before, the text consists of the tokens in order,
with trivia in front of each and behind the last. -/
inductive Layout : List Char → List Char → List Token → Prop where
  | done {before text : List Char} (trivia : Trivia text []) : Layout before text []
  | token {before gap rest : List Char} {token : Token} {tokens : List Token}
      (trivia : Trivia gap (token.lexeme.toList ++ rest))
      (stands : token.StandsBetween (before ++ gap) rest)
      (others : Layout (before ++ gap ++ token.lexeme.toList) rest tokens) :
      Layout before (gap ++ (token.lexeme.toList ++ rest)) (token :: tokens)

/-- `StartsNone cause before rest`: behind the text before, no token and no trivia starts, for a
cause. -/
inductive LexicalError.StartsNone : LexicalError → List Char → List Char → Prop where
  /-- The character starts neither a token nor trivia. -/
  | invalidCharacter {c : Char} {before rest : List Char}
      (noToken : ∀ kind text, ¬ TokenKind.Spelling kind (c :: text))
      (noTrivia : c ∉ [' ', '\t', '\r', '\n', '#']) :
      StartsNone (.invalidCharacter c) before (c :: rest)
  /-- A colon is not followed by an equals sign. -/
  | loneColon {before rest : List Char} (alone : rest.head? ≠ some '=') :
      StartsNone .loneColon before (':' :: rest)
  /-- A whole run of digits denotes a number that is no word. -/
  | tooLarge {c : Char} {run before rest : List Char} (digits : ∀ d ∈ c :: run, d.isDigit = true)
      (first : ∀ d ∈ before.getLast?, d.isDigit = false)
      (last : ∀ d ∈ rest.head?, d.isDigit = false)
      (large : 2 ^ 32 - 1 < Decimal.number (c :: run)) :
      StartsNone (.tooLarge (String.ofList (c :: run))) before (c :: run ++ rest)

/-- Every run of digits in the text is short enough to be read as a number. -/
def ShortRuns (text : List Char) : Prop :=
  ∀ run, run <:+: text → (∀ c ∈ run, c.isDigit = true) → run.length ≤ 4300

/-! ## Places and numbers as they are scanned -/

namespace Location

/-- One more character moves on the place behind a text. -/
theorem behind_concat (text : List Char) (c : Char) :
    behind (text ++ [c]) = (behind text).next c := by
  by_cases feed : c = '\n'
  · simp [behind, next, feed, Nat.add_assoc]
  · simp [behind, next, feed]
    omega

/-- The place behind two texts is found from the place behind the first. -/
theorem behind_append (text more : List Char) :
    behind (text ++ more) = (behind text).advance more := by
  induction more generalizing text with
  | nil => simp [advance]
  | cons c more ih =>
    have rest := ih (text ++ [c])
    rw [List.append_assoc, List.singleton_append, behind_concat] at rest
    exact rest

end Location

/-- The positional value of digits is the number that they denote. -/
theorem Decimal.value_eq_number (cs : List Char) : value cs = number cs := by
  induction cs using List.reverseRecOn with
  | nil => rfl
  | append_singleton cs c ih =>
    rw [value_concat, ih]
    simp only [number, List.reverse_append, List.reverse_singleton, List.singleton_append,
      List.map_cons, Nat.ofDigits_cons]
    rw [Nat.add_comm]
    rfl

/-! ## Tokens as they are read -/

namespace TokenKind

/-- Signs start with characters that start no name and no number. -/
theorem plain_of_mem_signs {kind : TokenKind} {c : Char} {text : List Char}
    (listed : (kind, c :: text) ∈ signs) : c.isDigit = false ∧ Name.isStart c = false := by
  have all : (signs.all fun entry => (entry.2.take 1).all fun c =>
      !c.isDigit && !Name.isStart c) = true := rfl
  simpa using List.all_eq_true.mp all _ listed

/-- Signs have one character, but for the two that start with `<` and the one that starts with a
colon. -/
theorem tail_of_mem_signs : ∀ entry ∈ signs, entry.2.tail = [] ∨
    (entry.2.head? = some ':' ∧ entry.2.tail = ['=']) ∨
      (entry.2.head? = some '<' ∧ (entry.2.tail = ['='] ∨ entry.2.tail = ['>'])) := by
  decide

/-- Reserved words have the shape of names. -/
theorem hasShape_of_mem_words : ∀ entry ∈ words, Name.hasShape entry.2.toList = true := by
  decide

/-- The token that a word is: a reserved one, or else a name. -/
theorem ofWord_listed (text : String) :
    (ofWord text, text) ∈ words ∨ ofWord text = .identifier ∧ ∀ kind, (kind, text) ∉ words := by
  unfold ofWord
  split
  all_goals simp_all [words]

/-- A character that is a token is one of the signs. -/
theorem mem_signs_of_ofChar? {c : Char} {kind : TokenKind} (stands : ofChar? c = some kind) :
    (kind, [c]) ∈ signs := by
  unfold ofChar? at stands
  split at stands
  all_goals cases stands
  all_goals decide

namespace Spelling

/-- The first character of a spelling tells which characters follow. -/
theorem first {kind : TokenKind} {c : Char} {text : List Char}
    (spelled : Spelling kind (c :: text)) :
    (c.isDigit = true ∧ ∀ d ∈ text, d.isDigit = true) ∨
      (Name.isStart c = true ∧ ∀ d ∈ text, Name.isPart d = true) ∨
      ((kind, c :: text) ∈ signs ∧ c.isDigit = false ∧ Name.isStart c = false) := by
  generalize whole : c :: text = spelling at spelled
  cases spelled with
  | sign listed =>
    subst whole
    exact .inr (.inr ⟨listed, plain_of_mem_signs listed⟩)
  | word listed =>
    have shaped := hasShape_of_mem_words _ listed
    rw [← whole] at shaped
    simp only [Name.hasShape, Bool.and_eq_true, List.all_eq_true] at shaped
    exact .inr (.inl shaped)
  | name starts parts free =>
    obtain ⟨rfl, rfl⟩ := List.cons.inj whole
    refine .inr (.inl ⟨by simpa [Name.isStart] using starts, fun d inside => ?_⟩)
    simpa [Name.isPart, Name.isStart, or_assoc] using parts d inside
  | integer digits =>
    obtain ⟨rfl, rfl⟩ := List.cons.inj whole
    exact .inl (List.forall_mem_cons.mp digits)

/-- No text is a spelling of the end of the text. -/
theorem kind_ne_eof {kind : TokenKind} {text : List Char} (spelled : Spelling kind text) :
    kind ≠ .eof := by
  have signs : ∀ entry ∈ signs, entry.1 ≠ .eof := by decide
  have words : ∀ entry ∈ words, entry.1 ≠ .eof := by decide
  cases spelled with
  | sign listed => exact signs _ listed
  | word listed => exact words _ listed
  | name starts parts free => decide
  | integer digits => decide

end Spelling

end TokenKind

namespace Token

/-- A token of a class of characters is no longer than the whole run of them. -/
theorem length_le_of_run {p : Char → Bool} {text run rest : List Char} (fits : text <+: run ++ rest)
    (all : ∀ d ∈ text, p d = true) (stops : ∀ d ∈ rest.head?, p d = false) :
    text.length ≤ run.length := by
  by_cases longer : run.length ≤ text.length
  · obtain ⟨more, rfl⟩ := List.prefix_of_prefix_length_le (List.prefix_append run rest) fits longer
    rw [List.prefix_append_right_inj] at fits
    cases more with
    | nil => simp
    | cons d more =>
      obtain ⟨behind, rfl⟩ := fits
      have inside := all d (by simp)
      have outside := stops d rfl
      rw [inside] at outside
      cases outside
  · omega

/-- What is read is a spelling of its kind. -/
theorem Reads.spelling {c : Char} {cs : List Char} {lexeme : Lexeme} (reads : Reads c cs lexeme) :
    lexeme.kind.Spelling lexeme.text := by
  cases reads with
  | integer starts all stops short small =>
    exact .integer (List.forall_mem_cons.mpr ⟨starts, all⟩)
  | @word _ run rest starts all stops =>
    rcases TokenKind.ofWord_listed (String.ofList (c :: run)) with listed | ⟨isName, free⟩
    · have spelled := TokenKind.Spelling.word listed
      rw [String.toList_ofList] at spelled
      exact spelled
    · dsimp only
      rw [isName]
      refine .name (by simpa [Name.isStart] using starts) (fun d inside => ?_) free
      simpa [Name.isPart, Name.isStart, or_assoc] using all d inside
  | assign => exact .sign (show (TokenKind.assign, [':', '=']) ∈ TokenKind.signs by decide)
  | lessEqual => exact .sign (show (TokenKind.lessEqual, ['<', '=']) ∈ TokenKind.signs by decide)
  | notEqual => exact .sign (show (TokenKind.notEqual, ['<', '>']) ∈ TokenKind.signs by decide)
  | sign stands single => exact .sign (TokenKind.mem_signs_of_ofChar? stands)

/-- No longer token starts where a token is read. -/
theorem Reads.longest {c : Char} {cs : List Char} {lexeme : Lexeme} (reads : Reads c cs lexeme)
    {kind : TokenKind} {text : List Char} (spelled : kind.Spelling text) (fits : text <+: c :: cs) :
    text.length ≤ lexeme.text.length := by
  cases text with
  | nil => simp
  | cons d text =>
    obtain ⟨rfl, behindFirst⟩ := List.cons_prefix_cons.mp fits
    clear fits
    have atMostTwo (listed : (kind, d :: text) ∈ TokenKind.signs) : (d :: text).length ≤ 2 := by
      rcases TokenKind.tail_of_mem_signs _ listed with short | ⟨-, two⟩ | ⟨-, two | two⟩ <;>
        simp_all
    cases reads with
    | @integer _ run rest starts all stops short small =>
      obtain ⟨-, digits⟩ | ⟨isStart, -⟩ | ⟨-, noDigit, -⟩ := spelled.first
      · exact Nat.succ_le_succ (length_le_of_run behindFirst digits stops)
      · simp [Name.isDigit_of_isStart isStart] at starts
      · simp [noDigit] at starts
    | @word _ run rest starts all stops =>
      obtain ⟨digit, -⟩ | ⟨-, parts⟩ | ⟨-, -, noStart⟩ := spelled.first
      · simp [Name.isDigit_of_isStart starts] at digit
      · exact Nat.succ_le_succ (length_le_of_run behindFirst parts stops)
      · simp [noStart] at starts
    | assign | lessEqual | notEqual =>
      obtain ⟨digit, -⟩ | ⟨isStart, -⟩ | ⟨listed, -⟩ := spelled.first
      · exact absurd digit (by decide)
      · exact absurd isStart (by decide)
      · exact atMostTwo listed
    | @sign _ kind' rest stands single =>
      obtain ⟨noDigit, noStart, noColon⟩ := plain_of_ofChar? stands
      obtain ⟨digit, -⟩ | ⟨isStart, -⟩ | ⟨listed, -⟩ := spelled.first
      · simp [noDigit] at digit
      · simp [noStart] at isStart
      · rcases TokenKind.tail_of_mem_signs _ listed with short | ⟨colon, -⟩ | ⟨less, two⟩
        · rw [List.tail_cons] at short
          simp [short]
        · exact absurd (Option.some.inj colon) noColon
        · -- A sign of two characters would have been read here.
          obtain rfl := Option.some.inj less
          rcases two with two | two <;> rw [List.tail_cons] at two <;> rw [two] at behindFirst <;>
            obtain ⟨behind, rfl⟩ := behindFirst
          · exact absurd rfl (single rfl '=' rfl).1
          · exact absurd rfl (single rfl '>' rfl).2

/-- An integer that is read has the number that its digits denote, which is a word. -/
theorem Reads.number {c : Char} {cs : List Char} {lexeme : Lexeme} (reads : Reads c cs lexeme)
    (isInteger : lexeme.kind = .integer) :
    lexeme.value = .int (Decimal.number lexeme.text) ∧ Decimal.number lexeme.text ≤ 2 ^ 32 - 1 := by
  cases reads with
  | integer starts all stops short small =>
    rw [← Decimal.value_eq_number]
    exact ⟨rfl, Nat.le_pred_of_lt small⟩
  | word starts all stops => exact absurd isInteger (TokenKind.ofWord_ne_integer _)
  | assign | lessEqual | notEqual => cases isInteger
  | sign stands single => exact absurd isInteger (bare_of_ofChar? stands).2.1

/-- A token that is read stands where it is read. -/
theorem Reads.standsBetween {c : Char} {cs : List Char} {lexeme : Lexeme}
    (reads : Reads c cs lexeme) (before : List Char) :
    StandsBetween before lexeme.rest (lexeme.token (Location.behind before)) := by
  obtain ⟨taken, text, rfl, -⟩ := reads.relay
  refine ⟨?_, ?_, rfl, ?_⟩ <;> dsimp only [Lexeme.token] <;> rw [String.toList_ofList]
  · exact reads.spelling
  · intro kind spelling spelled fits
    rw [text, List.cons_append] at fits
    exact reads.longest spelled fits
  · exact reads.number

end Token

/-! ## Texts that are scanned -/

/-- The signs between tokens are gaps. -/
theorem Token.mem_gaps_of_isGap {c : Char} (gap : isGap c = true) :
    c ∈ [' ', '\t', '\r', '\n'] := by
  simpa [isGap, or_assoc] using gap

/-- Trivia in front of a layout makes a layout. -/
theorem Layout.skip {before piece text : List Char} {tokens : List Token}
    (layout : Layout (before ++ piece) text tokens)
    (skips : ∀ gap rest, text = gap ++ rest → Trivia gap rest → Trivia (piece ++ gap) rest) :
    Layout before (piece ++ text) tokens := by
  cases layout with
  | done trivia => exact .done (skips text [] (List.append_nil text).symm trivia)
  | @token _ gap rest token tokens trivia stands others =>
    rw [← List.append_assoc piece]
    refine .token (skips gap _ rfl trivia) ?_ ?_
    · rw [← List.append_assoc]
      exact stands
    · rw [← List.append_assoc before]
      exact others

/-- The tokens of a layout are not the end of the text. -/
theorem Layout.kind_ne_eof {before text : List Char} {tokens : List Token}
    (layout : Layout before text tokens) : ∀ token ∈ tokens, token.kind ≠ .eof := by
  induction layout with
  | done trivia => exact fun token inside => nomatch inside
  | token trivia stands others ih =>
    exact List.forall_mem_cons.mpr ⟨stands.spelled.kind_ne_eof, ih⟩

/-- Behind a text before, what scans is laid out as its tokens. -/
theorem TokenStream.Scans.layout {start : Location} {before text : List Char} {tokens : List Token}
    (scans : Scans start text tokens) (place : start = Location.behind before) :
    Layout before text tokens := by
  induction scans generalizing before with
  | nil => exact .done .nil
  | @gap start c cs tokens isGap more ih =>
    have moved : start.next c = Location.behind (before ++ [c]) := by
      rw [place, Location.behind_concat]
    refine (ih moved).skip fun blank rest _ trivia => ?_
    exact .gap (Token.mem_gaps_of_isGap isGap) trivia
  | @comment start body rest tokens inLine ends more ih =>
    have moved : start.advance ('#' :: body) = Location.behind (before ++ '#' :: body) := by
      rw [place, Location.behind_append]
    refine (ih moved).skip fun blank behind split trivia => ?_
    exact .comment inLine (by rw [← split]; exact ends) trivia
  | @token start c cs lexeme tokens reads more ih =>
    have moved : start.advance lexeme.text = Location.behind (before ++ lexeme.text) := by
      rw [place, Location.behind_append]
    have layout := ih moved
    have stands := reads.standsBetween before
    obtain ⟨taken, text, rfl, -⟩ := reads.relay
    have whole : c :: (taken ++ lexeme.rest) = lexeme.text ++ lexeme.rest := by rw [text]; rfl
    rw [← place, ← List.append_nil before] at stands
    have laid := Layout.token .nil stands (by simpa [Token.Lexeme.token] using layout)
    rw [whole]
    simpa [Token.Lexeme.token] using laid

/-! ## Texts that are refused -/

/-- The characters that signs start with are tokens on their own, but for the colon. -/
theorem TokenKind.first_of_mem_signs {kind : TokenKind} {c : Char} {text : List Char}
    (listed : (kind, c :: text) ∈ signs) : c = ':' ∨ ofChar? c ≠ none := by
  have all : (signs.all fun entry => (entry.2.take 1).all fun c =>
      c == ':' || (ofChar? c).isSome) = true := rfl
  simpa [Option.ne_none_iff_isSome] using List.all_eq_true.mp all _ listed

/-- Where no token is read, none starts, unless the digits there are too many to be read. -/
theorem Token.Refuses.startsNone {c : Char} {before cs : List Char} {cause : LexicalError}
    (refuses : Refuses c cs cause) (noGap : isGap c = false) (noComment : c ≠ '#')
    (apart : c.isDigit = true → ∀ d ∈ before.getLast?, d.isDigit = false)
    (short : ShortRuns (c :: cs)) : cause.StartsNone before (c :: cs) := by
  cases refuses with
  | @digitLimit _ run rest starts all stops long =>
    have within := short (c :: run) (List.prefix_append (c :: run) rest).isInfix
      (List.forall_mem_cons.mpr ⟨starts, all⟩)
    simp only [Decimal.digitLimit] at long
    omega
  | @tooLarge _ run rest starts all stops large =>
    rw [Decimal.value_eq_number] at large
    exact .tooLarge (List.forall_mem_cons.mpr ⟨starts, all⟩) (apart starts) stops
      (Nat.lt_of_lt_of_le (by decide) large)
  | loneColon alone => exact .loneColon fun equals => alone '=' equals rfl
  | invalidCharacter noDigit noStart noColon noSign =>
    refine .invalidCharacter ?_ ?_
    · intro kind text spelled
      obtain ⟨digit, -⟩ | ⟨isStart, -⟩ | ⟨listed, -⟩ := spelled.first
      · simp [noDigit] at digit
      · simp [noStart] at isStart
      · exact (TokenKind.first_of_mem_signs listed).elim noColon (· noSign)
    · simp only [isGap, Bool.or_eq_false_iff, beq_eq_false_iff_ne] at noGap
      simp [noGap, noComment]

/-- An error at a place where no token starts is reported at that place. -/
theorem LexicalError.StartsNone.location?_eq {error : ScanError} {before rest : List Char}
    (none : error.cause.StartsNone before rest) :
    (ParseError.lexical error).location? = some error.location := by
  obtain ⟨cause, location⟩ := error
  cases none <;> rfl

namespace TokenStream

/-- A text without endless runs of digits is scanned, and laid out as its tokens with the end token
behind it, or else it is refused at a place up to which it is scanned and where no token starts. -/
theorem scan_lossless (text : String) (short : ShortRuns text.toList) :
    (∃ stream, scan text = .ok stream ∧
      stream.toList = stream.body ++ [endToken (Location.behind text.toList)] ∧
      (∀ token ∈ stream.body, token.kind ≠ .eof) ∧ Layout [] text.toList stream.body) ∨
    ∃ error k, scan text = .error error ∧
      (ParseError.lexical error).location? = some (Location.behind (text.toList.take k)) ∧
      (∃ stream, scan (String.ofList (text.toList.take k)) = .ok stream) ∧
      error.cause.StartsNone (text.toList.take k) (text.toList.drop k) := by
  have front (taken : List Char) : Location.behind taken = ({} : Location).advance taken :=
    Location.behind_append [] taken
  obtain ⟨tokens, scans⟩ | ⟨error, failed, fails⟩ := scanFrom_outcome {} text.toList
  · have layout := scans.layout (show {} = Location.behind [] from rfl)
    refine .inl ⟨_, scans.scanFrom_eq, ?_, layout.kind_ne_eof, layout⟩
    rw [toList, front]
  · obtain ⟨before, c, cs, tokens, split, scans, place, noGap, noComment, refuses, apart⟩ :=
      fails.split
    have shortBehind : ShortRuns (c :: cs) := by
      intro run inside digits
      refine short run ?_ digits
      rw [split]
      exact inside.trans (List.suffix_append before (c :: cs)).isInfix
    have starts := refuses.startsNone noGap noComment apart shortBehind
    have scanned : ∃ stream, scan (String.ofList before) = .ok stream := by
      rw [scan, String.toList_ofList]
      exact ⟨_, scans.scanFrom_eq⟩
    refine .inr ⟨error, before.length, failed, ?_⟩
    rw [split, List.take_left, List.drop_left]
    exact ⟨by rw [starts.location?_eq, place, front], scanned, starts⟩

/-- A comparison sign of two characters, a comment, and a carriage return in front of a line feed
are laid out in front of a number; one that is no word is refused at the place of its first digit.
-/
theorem scan_lossless_of_numbers :
    let text := "x <=7# n\r\n  4294967295"
    let large := "x <=7# n\r\n  4294967296"
    (ShortRuns text.toList ∧ ∃ stream, scan text = .ok stream ∧
      (stream.body.map fun token => (token.kind, token.lexeme, token.location)) =
        [(.identifier, "x", { line := 1, column := 1 }),
          (.lessEqual, "<=", { line := 1, column := 3 }),
          (.integer, "7", { line := 1, column := 5 }),
          (.integer, "4294967295", { line := 2, column := 3 })] ∧
      Layout [] text.toList stream.body) ∧
    ShortRuns large.toList ∧ ∃ error k, scan large = .error error ∧
      (ParseError.lexical error).location? = some { line := 2, column := 3 } ∧
      Location.behind (large.toList.take k) = { line := 2, column := 3 } ∧
      (∃ stream, scan (String.ofList (large.toList.take k)) = .ok stream) ∧
      error.cause.StartsNone (large.toList.take k) (large.toList.drop k) := by
  intro text large
  have short {source : String} (few : source.toList.length ≤ 4300) : ShortRuns source.toList :=
    fun run inside _ => Nat.le_trans inside.sublist.length_le few
  have listed : ((scan text).map fun stream =>
      stream.body.map fun token => (token.kind, token.lexeme, token.location)) =
        .ok [(.identifier, "x", { line := 1, column := 1 }),
          (.lessEqual, "<=", { line := 1, column := 3 }),
          (.integer, "7", { line := 1, column := 5 }),
          (.integer, "4294967295", { line := 2, column := 3 })] := by
    decide +kernel
  have refused : ((scan large).map fun stream => stream.body.length) =
      .error { cause := .tooLarge "4294967296", location := { line := 2, column := 3 } } := by
    decide +kernel
  constructor
  · refine ⟨short (by decide), ?_⟩
    obtain ⟨read, isRead, tokens⟩ := exists_ok_of_map listed
    obtain ⟨stream, scanned, -, -, layout⟩ | ⟨error, k, failed, -⟩ :=
      scan_lossless text (short (by decide))
    · obtain rfl := Except.ok.inj (isRead.symm.trans scanned)
      exact ⟨read, scanned, tokens, layout⟩
    · cases isRead.symm.trans failed
  · refine ⟨short (by decide), ?_⟩
    obtain ⟨stream, scanned, -⟩ | ⟨error, k, failed, place, scanned, starts⟩ :=
      scan_lossless large (short (by decide))
    · rw [scanned] at refused
      cases refused
    · rw [failed] at refused
      obtain rfl := Except.error.inj refused
      exact ⟨_, k, failed, rfl, (Option.some.inj place).symm, scanned, starts⟩

end TokenStream

end FlatIL
