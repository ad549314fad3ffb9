import FlatIL.Proofs.Formatting
import FlatIL.Proofs.Parser.Placeless

/-!
# Layout does not matter

Tokens may be written down with anything in front of them, between them and behind them that is no
token: blanks, line ends and comments. Nothing at all need stand between two of them, unless the
first would go on into the second. However they are written, the tokens are scanned again, in other
places, and so the same is parsed, or the same token is complained about in the same words.
-/

namespace FlatIL

open TokenStream

/-! ## Texts of tokens -/

/-- `Separator text`: the text holds blanks, line ends and comments that a line feed ends. -/
inductive Separator : List Char → Prop where
  | nil : Separator []
  | gap {c : Char} {text : List Char} (isGap : c ∈ [' ', '\t', '\r', '\n'])
      (more : Separator text) : Separator (c :: text)
  | comment {body text : List Char} (inLine : ∀ c ∈ body, c ≠ '\n') (more : Separator text) :
      Separator ('#' :: (body ++ '\n' :: text))

/-- `Trailer text`: the text holds what a separator does, and its last comment may go on up to the
end. -/
inductive Trailer : List Char → Prop where
  | closed {text : List Char} (separator : Separator text) : Trailer text
  | unclosed {text body : List Char} (separator : Separator text) (inLine : ∀ c ∈ body, c ≠ '\n') :
      Trailer (text ++ '#' :: body)

namespace TokenKind

/-- Whether tokens of the kind are names or reserved words. -/
def isWord : TokenKind → Bool
  | identifier | store | goto | assert | ifWord | thenWord | elseWord | load | getInput => true
  | _ => false

/-- Tokens of these kinds, one right behind the other, would not be read as the two. -/
def Fuses (first second : TokenKind) : Prop :=
  first.isWord = true ∧ (second.isWord = true ∨ second = integer) ∨
    first = integer ∧ second = integer ∨ first = less ∧ second = equal

instance (first second : TokenKind) : Decidable (first.Fuses second) :=
  inferInstanceAs (Decidable (_ ∨ _ ∨ _))

end TokenKind

/-- `Arranged previous tokens text`: behind a token of the previous kind, if there is one, the text
consists of the tokens in order, with separators in front of them and a trailer behind them. A
separator may be empty, unless the tokens next to it would fuse. -/
inductive Arranged : Option TokenKind → List Token → List Char → Prop where
  | done {previous : Option TokenKind} {text : List Char} (trailer : Trailer text) :
      Arranged previous [] text
  | token {previous : Option TokenKind} {token : Token} {tokens : List Token}
      {separator text : List Char} (separates : Separator separator)
      (apart : ∀ kind ∈ previous, kind.Fuses token.kind → separator ≠ [])
      (more : Arranged (some token.kind) tokens text) :
      Arranged previous (token :: tokens) (separator ++ (token.lexeme.toList ++ text))

/-- A token that some text is scanned as. -/
def Token.Scannable (token : Token) : Prop :=
  ∃ text stream, scan text = .ok stream ∧ token ∈ stream.body

/-! ## Where tokens end -/

namespace TokenKind

/-- Whether a token of the kind would go on with the character. -/
def goesOn (kind : TokenKind) (c : Char) : Bool :=
  if kind.isWord then Name.isPart c
  else if kind = integer then c.isDigit
  else if kind = less then c == '=' || c == '>'
  else false

/-- What a token goes on with depends on its kind. -/
theorem of_goesOn {kind : TokenKind} {c : Char} (goesOn : kind.goesOn c = true) :
    kind.isWord = true ∧ Name.isPart c = true ∨ kind = integer ∧ c.isDigit = true ∨
      kind = less ∧ (c = '=' ∨ c = '>') := by
  unfold TokenKind.goesOn at goesOn
  by_cases word : kind.isWord = true
  · rw [if_pos word] at goesOn
    exact .inl ⟨word, goesOn⟩
  · rw [if_neg word] at goesOn
    by_cases isInteger : kind = integer
    · rw [if_pos isInteger] at goesOn
      exact .inr (.inl ⟨isInteger, goesOn⟩)
    · rw [if_neg isInteger] at goesOn
      by_cases isLess : kind = less
      · rw [if_pos isLess] at goesOn
        exact .inr (.inr ⟨isLess, by simpa using goesOn⟩)
      · rw [if_neg isLess] at goesOn
        cases goesOn

/-- Every word is a name or a reserved word. -/
theorem isWord_ofWord (word : String) : (ofWord word).isWord = true := by
  unfold ofWord
  split <;> rfl

/-- No token goes on with a gap or with a comment. -/
theorem goesOn_of_blank (kind : TokenKind) {c : Char}
    (blank : c ∈ [' ', '\t', '\r', '\n', '#']) : kind.goesOn c = false := by
  have plain : Name.isPart c = false ∧ c.isDigit = false ∧ (c == '=' || c == '>') = false := by
    simp only [List.mem_cons, List.not_mem_nil, or_false] at blank
    rcases blank with rfl | rfl | rfl | rfl | rfl <;> decide
  rw [goesOn, plain.1, plain.2.1, plain.2.2]
  simp

end TokenKind

namespace Token

/-- A token is read again in front of any text that it does not go on with. -/
theorem Reads.again {c : Char} {cs : List Char} {lexeme : Lexeme} (reads : Reads c cs lexeme) :
    ∃ taken, lexeme.text = c :: taken ∧
      ∀ rest, (∀ d ∈ rest.head?, lexeme.kind.goesOn d = false) →
        Reads c (taken ++ rest) { lexeme with rest } := by
  cases reads with
  | @integer _ run old starts all stops short small =>
    exact ⟨run, rfl, fun rest ends => .integer starts all ends short small⟩
  | @word _ run old starts all stops =>
    refine ⟨run, rfl, fun rest ends => .word starts all ?_⟩
    intro d first
    have stopped := ends d first
    rwa [TokenKind.goesOn, TokenKind.isWord_ofWord, if_pos rfl] at stopped
  | assign => exact ⟨['='], rfl, fun rest _ => .assign⟩
  | lessEqual => exact ⟨['='], rfl, fun rest _ => .lessEqual⟩
  | notEqual => exact ⟨['>'], rfl, fun rest _ => .notEqual⟩
  | @sign _ kind old stands single =>
    refine ⟨[], rfl, fun rest ends => .sign stands ?_⟩
    rintro rfl d first
    obtain rfl : TokenKind.less = kind := Option.some.inj stands
    have stopped := ends d first
    simpa [TokenKind.goesOn, TokenKind.isWord] using stopped

/-- A token fuses with one in front of it that would go on with its first character. -/
theorem Reads.fuses {c : Char} {cs : List Char} {lexeme : Lexeme} (reads : Reads c cs lexeme)
    {kind : TokenKind} (goesOn : kind.goesOn c = true) : kind.Fuses lexeme.kind := by
  rcases TokenKind.of_goesOn goesOn with ⟨isWord, part⟩ | ⟨rfl, digit⟩ | ⟨rfl, sign⟩
  · cases reads with
    | integer starts all stops short small => exact .inl ⟨isWord, .inr rfl⟩
    | word starts all stops => exact .inl ⟨isWord, .inl (TokenKind.isWord_ofWord _)⟩
    | assign | lessEqual | notEqual => exact absurd part (by decide)
    | sign stands single =>
      obtain ⟨noDigit, noStart, -⟩ := plain_of_ofChar? stands
      rw [Name.isPart, noDigit, noStart] at part
      cases part
  · cases reads with
    | integer starts all stops short small => exact .inr (.inl ⟨rfl, rfl⟩)
    | word starts all stops =>
      rw [Name.isDigit_of_isStart starts] at digit
      cases digit
    | assign | lessEqual | notEqual => exact absurd digit (by decide)
    | sign stands single =>
      rw [(plain_of_ofChar? stands).1] at digit
      cases digit
  · rcases sign with rfl | rfl
    · cases reads with
      | integer starts all stops short small => exact absurd starts (by decide)
      | word starts all stops => exact absurd starts (by decide)
      | sign stands single => exact .inr (.inr ⟨rfl, (Option.some.inj stands).symm⟩)
    · cases reads with
      | integer starts all stops short small => exact absurd starts (by decide)
      | word starts all stops => exact absurd starts (by decide)
      | sign stands single => cases stands

end Token

/-- Every token of a text is read somewhere in it. -/
theorem TokenStream.Scans.reads_of_mem {start : Location} {text : List Char} {tokens : List Token}
    (scans : Scans start text tokens) {token : Token} (inside : token ∈ tokens) :
    ∃ c cs lexeme place, Token.Reads c cs lexeme ∧ token = lexeme.token place := by
  induction scans with
  | nil => cases inside
  | gap isGap more ih => exact ih inside
  | comment inLine ends more ih => exact ih inside
  | @token start c cs lexeme tokens reads more ih =>
    rcases List.mem_cons.mp inside with here | later
    · exact ⟨c, cs, lexeme, start, reads, here⟩
    · exact ih later

/-- The text of a token that some text is scanned as is read as that token again, wherever the token
does not go on, and the token fuses with every token that would go on with that text. -/
theorem Token.Scannable.reads {token : Token} (scannable : token.Scannable) :
    ∃ c taken, token.lexeme = String.ofList (c :: taken) ∧
      (∀ kind : TokenKind, kind.goesOn c = true → kind.Fuses token.kind) ∧
      ∀ rest, (∀ d ∈ rest.head?, token.kind.goesOn d = false) →
        Reads c (taken ++ rest)
          { kind := token.kind, text := c :: taken, value := token.value, rest } := by
  obtain ⟨text, stream, scanned, inside⟩ := scannable
  obtain ⟨c, cs, lexeme, place, reads, rfl⟩ := (scanFrom_eq_ok.mp scanned).1.reads_of_mem inside
  obtain ⟨taken, spelled, again⟩ := reads.again
  refine ⟨c, taken, congrArg String.ofList spelled, fun kind => reads.fuses, ?_⟩
  rw [← spelled]
  exact again

/-! ## Arranged tokens are scanned -/

/-- A separator is scanned as nothing. -/
theorem Separator.scans {separator text : List Char} {tokens : List Token}
    (separates : Separator separator) {start : Location}
    (more : Scans (start.advance separator) text tokens) :
    Scans start (separator ++ text) tokens := by
  induction separates generalizing start with
  | nil => exact more
  | @gap c separator isGap rest ih =>
    have blank : Token.isGap c = true := by
      simp only [List.mem_cons, List.not_mem_nil, or_false] at isGap
      rcases isGap with rfl | rfl | rfl | rfl <;> rfl
    exact .gap blank (ih more)
  | @comment body separator inLine rest ih =>
    rw [← List.cons_append, advance_append] at more
    rw [List.cons_append, List.append_assoc, List.cons_append]
    refine .comment inLine (fun d first => (Option.some.inj first).symm) ?_
    exact .gap (by decide) (ih more)

/-- A trailer is scanned as nothing. -/
theorem Trailer.scans {text : List Char} (trailer : Trailer text) (start : Location) :
    Scans start text [] := by
  cases trailer with
  | closed separator =>
    have scanned : Scans start (text ++ []) [] := separator.scans .nil
    rwa [List.append_nil] at scanned
  | @unclosed separator body separates inLine =>
    have comment (place : Location) : Scans place ('#' :: (body ++ [])) [] :=
      .comment inLine nofun .nil
    rw [List.append_nil] at comment
    exact separates.scans (comment _)

/-- What separates tokens starts with nothing that a token goes on with. -/
theorem Separator.head_blank {separator : List Char} (separates : Separator separator) :
    ∀ c ∈ separator.head?, c ∈ [' ', '\t', '\r', '\n', '#'] := by
  intro c first
  cases separates with
  | nil => cases first
  | gap isGap more =>
    obtain rfl := Option.some.inj first
    simp only [List.mem_cons, List.not_mem_nil, or_false] at isGap ⊢
    tauto
  | comment inLine more =>
    obtain rfl := Option.some.inj first
    simp

/-- Behind a token, arranged tokens start with nothing that it goes on with. -/
theorem Arranged.apart {kind : TokenKind} {tokens : List Token} {text : List Char}
    (arranged : Arranged (some kind) tokens text)
    (scannable : ∀ token ∈ tokens, token.Scannable) :
    ∀ c ∈ text.head?, kind.goesOn c = false := by
  intro c first
  cases arranged with
  | done trailer =>
    apply kind.goesOn_of_blank
    cases trailer with
    | closed separator => exact separator.head_blank c first
    | @unclosed separator body separates inLine =>
      cases separator with
      | nil =>
        obtain rfl := Option.some.inj first
        simp
      | cons d separator => exact separates.head_blank c first
  | @token _ token tokens separator text separates apart more =>
    cases separator with
    | cons d separator => exact kind.goesOn_of_blank (separates.head_blank c first)
    | nil =>
      obtain ⟨d, taken, spelled, fuses, -⟩ := (scannable token List.mem_cons_self).reads
      rw [List.nil_append, spelled, String.toList_ofList] at first
      obtain rfl : d = c := Option.some.inj first
      cases goesOn : kind.goesOn d with
      | false => rfl
      | true => exact absurd rfl (apart kind rfl (fuses kind goesOn))

/-- Arranged tokens are scanned again, in other places. -/
theorem Arranged.scans {previous : Option TokenKind} {tokens : List Token} {text : List Char}
    (arranged : Arranged previous tokens text) (scannable : ∀ token ∈ tokens, token.Scannable)
    (start : Location) : ∃ others, Scans start text others ∧ SameTokens tokens others := by
  induction arranged generalizing start with
  | done trailer => exact ⟨[], trailer.scans start, rfl⟩
  | @token previous token tokens separator text separates apart more ih =>
    obtain ⟨here, later⟩ := List.forall_mem_cons.mp scannable
    obtain ⟨c, taken, spelled, -, reads⟩ := here.reads
    have read := reads text (more.apart later)
    obtain ⟨others, scans, same⟩ := ih later ((start.advance separator).advance (c :: taken))
    have whole := separates.scans (Scans.token read scans)
    rw [spelled, String.toList_ofList]
    refine ⟨_, whole, ?_⟩
    rw [SameTokens, List.map_cons, List.map_cons, same]
    simp only [Token.unplaced, Token.Lexeme.token, spelled]

/-- A text in which tokens are arranged is scanned as them. -/
theorem Arranged.scan {tokens : List Token} {text : String}
    (arranged : Arranged none tokens text.toList) (scannable : ∀ token ∈ tokens, token.Scannable) :
    ∃ stream, TokenStream.scan text = .ok stream ∧ SameTokens tokens stream.body := by
  obtain ⟨others, scans, same⟩ := arranged.scans scannable {}
  exact ⟨_, scans.scanFrom_eq, same⟩

/-! ## Streams with the same tokens -/

/-- Up to their places, a stream holds the tokens that its body holds and the end token. -/
theorem SameTokens.unplaced_toList {tokens : List Token} {stream : TokenStream}
    (same : SameTokens tokens stream.body) :
    stream.toList.map Token.unplaced = tokens.map Token.unplaced ++ [endToken {}] := by
  rw [TokenStream.toList, List.map_append, same]
  rfl

namespace TokenStream

/-- What a parser finds at a number in the body of a stream, the end token included. -/
theorem getElem?_toList (stream : TokenStream) (index : Nat) :
    stream.toList[min index stream.body.length]? =
      some (stream.body[index]?.getD (endToken stream.stop)) := by
  rw [toList]
  by_cases inside : index < stream.body.length
  · have least : min index stream.body.length = index := by omega
    rw [least, List.getElem?_append_left inside, List.getElem?_eq_getElem inside]
    rfl
  · have least : min index stream.body.length = stream.body.length := by omega
    have beyond : stream.body[index]? = none := List.getElem?_eq_none (by omega)
    rw [least, beyond, List.getElem?_append_right (Nat.le_refl _)]
    simp

/-- Two streams are refused alike: at the tokens of one number, the end token included, and in the
same words in front of the place. -/
def RefusedAlike (stream stream' : TokenStream) (error error' : ParseError) : Prop :=
  ∃ (index : Nat) (token token' : Token) (complaint : String), stream.toList[index]? = some token ∧
    stream'.toList[index]? = some token' ∧ error.location? = some token.location ∧
    error'.location? = some token'.location ∧
    error.message = ParseError.locatedAt complaint token.location ∧
    error'.message = ParseError.locatedAt complaint token'.location

end TokenStream

/-- A complaint does not depend on where the token stands. -/
theorem Expectation.complaint_of_unplaced (expected : Expectation) {found found' : Option Token}
    (same : found'.map Token.unplaced = found.map Token.unplaced) :
    expected.complaint found' = expected.complaint found := by
  have described : describe found' = describe found := by
    cases found with
    | none =>
      obtain rfl := Option.map_eq_none_iff.mp same
      rfl
    | some token =>
      obtain ⟨token', rfl, unplaced⟩ := Option.map_eq_some_iff.mp same
      rw [describe, describe, Token.lexeme_of_unplaced unplaced]
  cases expected <;> simp only [complaint, described]

/-- On streams with the same tokens, a parser that looks at no place gives the same, or the streams
are refused alike, unless a check of a node fails. -/
theorem SameTokens.parse {α : Type} {parser : Parser α} (placeless : parser.Placeless)
    {stream stream' : TokenStream} (same : SameTokens stream.body stream'.body) :
    (∃ a, (stream.parse parser).1 = .ok a ∧ (stream'.parse parser).1 = .ok a) ∨
      (∃ error error', (stream.parse parser).1 = .error error ∧
        (stream'.parse parser).1 = .error error' ∧ stream.RefusedAlike stream' error error') ∨
      ∃ issue, (stream.parse parser).1 = .error (.invalid issue) := by
  have placed (found : Option Token) (stop : Location) :
      (found.map (·.location)).getD stop = (found.getD (endToken stop)).location := by
    cases found <;> rfl
  have alike := placeless stream.body stream'.body same
  rw [TokenStream.parse, TokenStream.parse]
  generalize parser stream.body = outcome at alike ⊢
  generalize parser stream'.body = outcome' at alike ⊢
  cases alike with
  | ok a used => exact .inl ⟨a, rfl, rfl⟩
  | unexpected expected index used =>
    have found := stream.getElem?_toList index
    have found' := stream'.getElem?_toList index
    rw [same.length_eq] at found'
    have words := expected.complaint_of_unplaced (same.getElem? index)
    refine .inr (.inl ⟨_, _, rfl, rfl, _, _, _, expected.complaint stream.body[index]?,
      found, found', ?_, ?_, ?_, ?_⟩)
    · exact congrArg some (placed _ _)
    · exact congrArg some (placed _ _)
    · rw [ParseError.ofFailure, ParseError.message, placed]
    · rw [ParseError.ofFailure, ParseError.message, placed, words]
  | invalid issue used => exact .inr (.inr ⟨issue, rfl⟩)

namespace Program

/-- However tokens are arranged that texts are scanned as, the text is scanned as these tokens in
some places and the end token. Two texts in which the same tokens are arranged are parsed as the
same program, or they are refused alike. -/
theorem layout_irrelevant {tokens : List Token} (scannable : ∀ token ∈ tokens, token.Scannable)
    {text text' : String} (arranged : Arranged none tokens text.toList)
    (arranged' : Arranged none tokens text'.toList) :
    ∃ stream stream', scan text = .ok stream ∧ scan text' = .ok stream' ∧
      stream.toList.map Token.unplaced = tokens.map Token.unplaced ++ [endToken {}] ∧
      stream'.toList.map Token.unplaced = tokens.map Token.unplaced ++ [endToken {}] ∧
      ((∃ p, Program.parse text = .ok p ∧ Program.parse text' = .ok p) ∨
        ∃ error error', Program.parse text = .error error ∧
          Program.parse text' = .error error' ∧ stream.RefusedAlike stream' error error') := by
  obtain ⟨stream, scanned, same⟩ := arranged.scan scannable
  obtain ⟨stream', scanned', same'⟩ := arranged'.scan scannable
  refine ⟨stream, stream', scanned, scanned', same.unplaced_toList, same'.unplaced_toList, ?_⟩
  have parsed : Program.parse text = (stream.parse Parser.program).1 := by
    rw [Program.parse, Parser.ofText, scanned]
  have parsed' : Program.parse text' = (stream'.parse Parser.program).1 := by
    rw [Program.parse, Parser.ofText, scanned']
  have between : SameTokens stream.body stream'.body := same'.trans same.symm
  rw [parsed, parsed']
  rcases between.parse Parser.Placeless.program with agree | refused | ⟨issue, invalid⟩
  · exact .inl agree
  · exact .inr refused
  · -- A check that fails would leave a parse error without a place.
    obtain ⟨place, located⟩ := location?_of_parse scanned (parsed.trans invalid)
    cases located

/-- An equals sign right behind the sign of assignment does not fuse with it, and it is complained
about wherever it stands. -/
theorem layout_irrelevant_of_misfit :
    let tokens : List Token :=
      [{ kind := .identifier, lexeme := "x" }, { kind := .assign, lexeme := ":=" },
        { kind := .equal, lexeme := "=" }]
    let text := "x:=="
    let text' := " x :=# c\n = # end"
    (∀ token ∈ tokens, token.Scannable) ∧ Arranged none tokens text.toList ∧
      Arranged none tokens text'.toList ∧
      ∃ stream stream', scan text = .ok stream ∧ scan text' = .ok stream' ∧
        stream.toList.map Token.unplaced = tokens.map Token.unplaced ++ [endToken {}] ∧
        stream'.toList.map Token.unplaced = tokens.map Token.unplaced ++ [endToken {}] ∧
        ∃ error error', Program.parse text = .error error ∧
          Program.parse text' = .error error' ∧ stream.RefusedAlike stream' error error' := by
  intro tokens text text'
  have scannable : ∀ token ∈ tokens, token.Scannable := by
    have alone {c : Char} {cs : List Char} {kind : TokenKind} {value : Json}
        (reads : Token.Reads c cs { kind, text := c :: cs, value, rest := [] }) :
        Token.Scannable { kind, lexeme := String.ofList (c :: cs), value } := by
      let stop := Location.advance {} (c :: cs)
      refine ⟨String.ofList (c :: cs), { body := [_], stop }, ?_, List.mem_singleton_self _⟩
      rw [scan, String.toList_ofList]
      exact (Scans.token reads .nil).scanFrom_eq
    have isName : TokenKind.ofWord (String.ofList ['x']) = .identifier := by decide
    have word := @Token.Reads.word 'x' [] [] (by decide) (by simp) (by simp)
    have sign := @Token.Reads.sign '=' .equal [] rfl (by simp)
    rw [isName] at word
    simp only [tokens, List.forall_mem_cons, List.not_mem_nil, false_imp_iff, implies_true,
      and_true]
    exact ⟨alone word, alone .assign, alone sign⟩
  have arranged : Arranged none tokens text.toList := by
    have spelled : text.toList = [] ++ ("x".toList ++ ([] ++ (":=".toList ++ ([] ++
        ("=".toList ++ []))))) := by decide
    rw [spelled]
    exact .token .nil (by decide) (.token .nil (by decide) (.token .nil (by decide)
      (.done (.closed .nil))))
  have arranged' : Arranged none tokens text'.toList := by
    have spelled : text'.toList = [' '] ++ ("x".toList ++ ([' '] ++ (":=".toList ++
        ('#' :: ([' ', 'c'] ++ ['\n', ' ']) ++ ("=".toList ++
          ([' '] ++ ['#', ' ', 'e', 'n', 'd'])))))) := by decide
    have blank : Separator [' '] := .gap (by decide) .nil
    rw [spelled]
    exact .token blank (by decide) (.token blank (by decide)
      (.token (.comment (by simp) blank) (by decide) (.done (.unclosed blank (by simp)))))
  obtain ⟨stream, stream', scanned, scanned', same, same', ⟨p, parsed, -⟩ | refused⟩ :=
    layout_irrelevant scannable arranged arranged'
  · have located : (Program.parse text).mapError ParseError.location? =
        .error (some { line := 1, column := 4 }) := by decide +kernel
    rw [parsed] at located
    cases located
  · exact ⟨scannable, arranged, arranged', stream, stream', scanned, scanned', same, same', refused⟩

end Program

end FlatIL
