import FlatIL.Proofs.Scan
import Mathlib.Data.List.Basic

/-!
# What reading a token can do

`Token.Reads` lists the ways in which a token is read at the front of a text, each with what must
follow for the token to end there, and `Token.Refuses` the ways in which none is. Facts about
scanned tokens are drawn from these two. A token depends on no more of the text behind it than the
first character, and a gap ends every token.
-/

namespace FlatIL

namespace Token

/-- The token that a lexeme is, at a place. -/
def Lexeme.token (lexeme : Lexeme) (location : Location) : Token :=
  { kind := lexeme.kind, lexeme := String.ofList lexeme.text, location, value := lexeme.value }

/-- `Reads c cs lexeme`: at the front of `c :: cs` the lexeme is read. -/
inductive Reads : Char → List Char → Lexeme → Prop where
  /-- An integer is a whole run of digits, not too many and not too large. -/
  | integer {c : Char} {run rest : List Char} (starts : c.isDigit = true)
      (all : ∀ d ∈ run, d.isDigit = true) (stops : ∀ d ∈ rest.head?, d.isDigit = false)
      (short : (c :: run).length ≤ Decimal.digitLimit)
      (small : Decimal.value (c :: run) < Word.bound) :
      Reads c (run ++ rest)
        { kind := .integer, text := c :: run, value := .int (Decimal.value (c :: run)), rest }
  /-- A name or a reserved word is a whole run of letters, digits and underscores. -/
  | word {c : Char} {run rest : List Char} (starts : Name.isStart c = true)
      (all : ∀ d ∈ run, Name.isPart d = true) (stops : ∀ d ∈ rest.head?, Name.isPart d = false) :
      Reads c (run ++ rest)
        { kind := .ofWord (String.ofList (c :: run)), text := c :: run, rest }
  | assign {rest : List Char} :
      Reads ':' ('=' :: rest) { kind := .assign, text := [':', '='], rest }
  | lessEqual {rest : List Char} :
      Reads '<' ('=' :: rest) { kind := .lessEqual, text := ['<', '='], rest }
  | notEqual {rest : List Char} :
      Reads '<' ('>' :: rest) { kind := .notEqual, text := ['<', '>'], rest }
  /-- A sign of one character ends behind it, unless it goes on as a sign of two. -/
  | sign {c : Char} {kind : TokenKind} {rest : List Char} (stands : TokenKind.ofChar? c = some kind)
      (single : c = '<' → ∀ d ∈ rest.head?, d ≠ '=' ∧ d ≠ '>') :
      Reads c rest { kind, text := [c], rest }

/-- `Refuses c cs cause`: at the front of `c :: cs` no token is read. -/
inductive Refuses : Char → List Char → LexicalError → Prop where
  | digitLimit {c : Char} {run rest : List Char} (starts : c.isDigit = true)
      (all : ∀ d ∈ run, d.isDigit = true) (stops : ∀ d ∈ rest.head?, d.isDigit = false)
      (long : Decimal.digitLimit < (c :: run).length) :
      Refuses c (run ++ rest) (.digitLimit (c :: run).length)
  | tooLarge {c : Char} {run rest : List Char} (starts : c.isDigit = true)
      (all : ∀ d ∈ run, d.isDigit = true) (stops : ∀ d ∈ rest.head?, d.isDigit = false)
      (large : Word.bound ≤ Decimal.value (c :: run)) :
      Refuses c (run ++ rest) (.tooLarge (String.ofList (c :: run)))
  | loneColon {rest : List Char} (alone : ∀ d ∈ rest.head?, d ≠ '=') : Refuses ':' rest .loneColon
  | invalidCharacter {c : Char} {rest : List Char} (noDigit : c.isDigit = false)
      (noStart : Name.isStart c = false) (noColon : c ≠ ':') (noSign : TokenKind.ofChar? c = none) :
      Refuses c rest (.invalidCharacter c)

/-- A text is a whole run of a class of characters and a rest that does not go on with it. -/
theorem exists_run (p : Char → Bool) (cs : List Char) :
    ∃ run rest, cs = run ++ rest ∧ cs.takeWhile p = run ∧ cs.dropWhile p = rest ∧
      (∀ d ∈ run, p d = true) ∧ ∀ d ∈ rest.head?, p d = false := by
  refine ⟨cs.takeWhile p, cs.dropWhile p, List.takeWhile_append_dropWhile.symm, rfl, rfl, ?_, ?_⟩
  · intro d inside
    exact List.all_eq_true.mp List.all_takeWhile d inside
  · intro d first
    have stop := List.head?_dropWhile_not p cs
    rw [Option.mem_def.mp first] at stop
    simpa using stop

/-- The characters that stand for signs start no name and no number. -/
theorem plain_of_ofChar? {c : Char} {kind : TokenKind} (stands : TokenKind.ofChar? c = some kind) :
    c.isDigit = false ∧ Name.isStart c = false ∧ c ≠ ':' := by
  unfold TokenKind.ofChar? at stands
  split at stands
  all_goals first | decide | cases stands

/-- A sign is neither a name nor an integer, and it is not the end of the text. -/
theorem bare_of_ofChar? {c : Char} {kind : TokenKind} (stands : TokenKind.ofChar? c = some kind) :
    kind ≠ .identifier ∧ kind ≠ .integer ∧ kind ≠ .eof := by
  unfold TokenKind.ofChar? at stands
  split at stands
  all_goals cases stands
  all_goals decide

/-- A sign is read in one of the ways listed. -/
theorem reads_of_readSign {c : Char} {cs : List Char} {lexeme : Lexeme}
    (read : readSign c cs = .ok lexeme) : Reads c cs lexeme := by
  unfold readSign at read
  split at read
  · obtain rfl := Except.ok.inj read
    exact .assign
  · cases read
  · obtain rfl := Except.ok.inj read
    exact .lessEqual
  · obtain rfl := Except.ok.inj read
    exact .notEqual
  · next noColon noAssign noLessEqual noNotEqual =>
    split at read
    · next kind stands =>
      obtain rfl := Except.ok.inj read
      refine .sign stands ?_
      rintro rfl d first
      cases cs with
      | nil => cases first
      | cons e rest =>
        obtain rfl := Option.some.inj first
        exact ⟨fun same => noLessEqual rest rfl (by rw [same]),
          fun same => noNotEqual rest rfl (by rw [same])⟩
    · cases read

/-- What is refused as a sign is a colon alone or a character that starts nothing. -/
theorem refuses_of_readSign {c : Char} {cs : List Char} {cause : LexicalError}
    (noDigit : c.isDigit = false) (noStart : Name.isStart c = false)
    (refused : readSign c cs = .error cause) : Refuses c cs cause := by
  unfold readSign at refused
  split at refused
  · cases refused
  · next noAssign =>
    obtain rfl := Except.error.inj refused
    refine .loneColon ?_
    intro d first
    cases cs with
    | nil => cases first
    | cons e rest =>
      obtain rfl := Option.some.inj first
      exact fun same => noAssign rest (by rw [same])
  · cases refused
  · cases refused
  · next noColon noAssign noLessEqual noNotEqual =>
    split at refused
    · cases refused
    · next noSign =>
      obtain rfl := Except.error.inj refused
      exact .invalidCharacter noDigit noStart noColon noSign

/-- A token is read in one of the ways listed, or refused in one of the ways listed. -/
theorem readToken_outcome (c : Char) (cs : List Char) :
    (∃ lexeme, readToken c cs = .ok lexeme ∧ Reads c cs lexeme) ∨
      ∃ cause, readToken c cs = .error cause ∧ Refuses c cs cause := by
  by_cases digit : c.isDigit = true
  · obtain ⟨run, rest, rfl, taken, dropped, all, stops⟩ := exists_run Char.isDigit cs
    simp only [readToken, if_pos digit, readInteger, taken, dropped]
    by_cases long : Decimal.digitLimit < (c :: run).length
    · rw [if_pos long]
      exact .inr ⟨_, rfl, .digitLimit digit all stops long⟩
    · rw [if_neg long]
      by_cases small : Decimal.value (c :: run) < Word.bound
      · rw [if_pos small]
        exact .inl ⟨_, rfl, .integer digit all stops (by omega) small⟩
      · rw [if_neg small]
        exact .inr ⟨_, rfl, .tooLarge digit all stops (by omega)⟩
  · by_cases start : Name.isStart c = true
    · obtain ⟨run, rest, rfl, taken, dropped, all, stops⟩ := exists_run Name.isPart cs
      simp only [readToken, if_neg digit, if_pos start, readWord, taken, dropped]
      exact .inl ⟨_, rfl, .word start all stops⟩
    · simp only [readToken, if_neg digit, if_neg start]
      cases read : readSign c cs with
      | ok lexeme => exact .inl ⟨lexeme, rfl, reads_of_readSign read⟩
      | error cause =>
        exact .inr ⟨cause, rfl, refuses_of_readSign (by simpa using digit) (by simpa using start)
          read⟩

/-- What is read is read in one of the ways listed. -/
theorem reads_of_readToken {c : Char} {cs : List Char} {lexeme : Lexeme}
    (read : readToken c cs = .ok lexeme) : Reads c cs lexeme := by
  obtain ⟨lexeme', read', reads⟩ | ⟨cause, refused, -⟩ := readToken_outcome c cs
  · obtain rfl := Except.ok.inj (read.symm.trans read')
    exact reads
  · cases read.symm.trans refused

/-- What is refused is refused in one of the ways listed. -/
theorem refuses_of_readToken {c : Char} {cs : List Char} {cause : LexicalError}
    (refused : readToken c cs = .error cause) : Refuses c cs cause := by
  obtain ⟨lexeme, read, -⟩ | ⟨cause', refused', refuses⟩ := readToken_outcome c cs
  · cases refused.symm.trans read
  · obtain rfl := Except.error.inj (refused.symm.trans refused')
    exact refuses

/-- Each of the ways listed is a way in which a token is read. -/
theorem Reads.readToken_eq {c : Char} {cs : List Char} {lexeme : Lexeme}
    (reads : Reads c cs lexeme) : readToken c cs = .ok lexeme := by
  cases reads with
  | @integer _ run rest starts all stops short small =>
    obtain ⟨taken, dropped⟩ := takeWhile_append_of_apart all stops
    have within : ¬ Decimal.digitLimit < (c :: run).length := by omega
    simp only [readToken, if_pos starts, readInteger, taken, dropped, if_neg within, if_pos small]
  | @word _ run rest starts all stops =>
    obtain ⟨taken, dropped⟩ := takeWhile_append_of_apart all stops
    have noDigit := Name.isDigit_of_isStart starts
    simp only [readToken, noDigit, Bool.false_eq_true, if_false, if_pos starts, readWord, taken,
      dropped]
  | assign => rfl
  | lessEqual => rfl
  | notEqual => rfl
  | @sign _ kind rest stands single =>
    obtain ⟨noDigit, noStart, noColon⟩ := plain_of_ofChar? stands
    simp only [readToken, noDigit, noStart, Bool.false_eq_true, if_false]
    unfold readSign
    split
    · exact absurd rfl noColon
    · exact absurd rfl noColon
    · exact absurd rfl (single rfl '=' rfl).1
    · exact absurd rfl (single rfl '>' rfl).2
    · rw [stands]

/-- A gap goes on no number and no word, and makes no sign longer. -/
theorem plain_of_isGap {c : Char} (gap : isGap c = true) :
    c.isDigit = false ∧ Name.isPart c = false ∧ c ≠ '=' ∧ c ≠ '>' := by
  simp only [isGap, Bool.or_eq_true, beq_iff_eq] at gap
  rcases gap with ((rfl | rfl) | rfl) | rfl <;> decide

/-- A token is read again in front of any text that starts with a gap or with the same character
as the text behind it. -/
theorem Reads.relay {c : Char} {cs : List Char} {lexeme : Lexeme} (reads : Reads c cs lexeme) :
    ∃ taken, lexeme.text = c :: taken ∧ cs = taken ++ lexeme.rest ∧
      ∀ rest, (∀ d ∈ rest.head?, isGap d = true ∨ lexeme.rest.head? = some d) →
        Reads c (taken ++ rest) { lexeme with rest } := by
  -- What stops the token in the one text stops it in the other.
  have stopsBefore {p : Char → Prop} {old rest : List Char} (gaps : ∀ d, isGap d = true → p d)
      (stops : ∀ d ∈ old.head?, p d)
      (ahead : ∀ d ∈ rest.head?, isGap d = true ∨ old.head? = some d) : ∀ d ∈ rest.head?, p d := by
    intro d first
    exact (ahead d first).elim (gaps d) (stops d)
  cases reads with
  | @integer _ run old starts all stops short small =>
    refine ⟨run, rfl, rfl, fun rest ahead => ?_⟩
    exact .integer starts all (stopsBefore (fun d gap => (plain_of_isGap gap).1) stops ahead) short
      small
  | @word _ run old starts all stops =>
    refine ⟨run, rfl, rfl, fun rest ahead => ?_⟩
    exact .word starts all (stopsBefore (fun d gap => (plain_of_isGap gap).2.1) stops ahead)
  | assign => exact ⟨['='], rfl, rfl, fun rest _ => .assign⟩
  | lessEqual => exact ⟨['='], rfl, rfl, fun rest _ => .lessEqual⟩
  | notEqual => exact ⟨['>'], rfl, rfl, fun rest _ => .notEqual⟩
  | @sign _ kind old stands single =>
    refine ⟨[], rfl, rfl, fun rest ahead => .sign stands fun less => ?_⟩
    exact stopsBefore (fun d gap => (plain_of_isGap gap).2.2) (single less) ahead

/-- A token is read again when the text behind it is cut off anywhere. -/
theorem Reads.cut {c : Char} {cs before behind : List Char} {lexeme : Lexeme}
    (reads : Reads c cs lexeme) (split : lexeme.rest = before ++ behind) :
    ∃ taken, lexeme.text = c :: taken ∧ cs = taken ++ (before ++ behind) ∧
      Reads c (taken ++ before) { lexeme with rest := before } := by
  obtain ⟨taken, text, rfl, relay⟩ := reads.relay
  refine ⟨taken, text, by rw [split], relay before fun d first => .inr ?_⟩
  rw [split]
  exact List.mem_head?_append_of_mem_head? first

/-- A token that ends with a digit is not followed by one. -/
theorem Reads.digit_apart {c d : Char} {cs : List Char} {lexeme : Lexeme}
    (reads : Reads c cs lexeme) (last : d ∈ lexeme.text.getLast?) (digit : d.isDigit = true) :
    ∀ e ∈ lexeme.rest.head?, e.isDigit = false := by
  cases reads with
  | integer starts all stops short small => exact stops
  | word starts all stops =>
    intro e first
    have noPart := stops e first
    simp only [Name.isPart, Bool.or_eq_false_iff] at noPart
    exact noPart.2
  | assign | lessEqual | notEqual =>
    obtain rfl := Option.some.inj last
    exact absurd digit (by decide)
  | sign stands single =>
    obtain rfl : c = d := by simpa using last
    rw [(plain_of_ofChar? stands).1] at digit
    cases digit

/-- What is read carries what its kind promises. -/
theorem Reads.valid {c : Char} {cs : List Char} {lexeme : Lexeme} (reads : Reads c cs lexeme)
    (location : Location) : (lexeme.token location).Valid := by
  cases reads with
  | integer starts all stops short small =>
    refine ⟨fun isName => ?_, fun _ => ⟨_, small, rfl⟩⟩
    cases isName
  | @word _ run rest starts all stops =>
    refine ⟨fun isName => ?_, fun isInteger => absurd isInteger (TokenKind.ofWord_ne_integer _)⟩
    have free := TokenKind.ofWord_eq_identifier_iff.mp isName
    have shaped : Name.hasShape (c :: run) = true := by
      simpa [Name.hasShape, starts] using all
    simp only [Lexeme.token, Name.isName, String.toList_ofList, shaped, free, Bool.not_false,
      Bool.and_self]
  | assign | lessEqual | notEqual =>
    exact .of_kind (by simp [Lexeme.token]) (by simp [Lexeme.token])
  | @sign _ kind rest stands single =>
    obtain ⟨noName, noInteger, -⟩ := bare_of_ofChar? stands
    exact .of_kind noName noInteger

/-- What is read is not the end of the text. -/
theorem Reads.kind_ne_eof {c : Char} {cs : List Char} {lexeme : Lexeme}
    (reads : Reads c cs lexeme) : lexeme.kind ≠ .eof := by
  cases reads with
  | integer | assign | lessEqual | notEqual => simp
  | word => exact TokenKind.ofWord_ne_eof _
  | sign stands => exact (bare_of_ofChar? stands).2.2

end Token

end FlatIL
