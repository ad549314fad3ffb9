import FlatIL.Proofs.Scan.Token

/-!
# What scanning a text can do

`Scans start text tokens` builds the tokens of a text piece by piece: gaps and comments give none,
and every other piece is read as one. A text is scanned exactly if it scans in this sense, and it
is refused behind a piece that does. Texts that scan can be put together at a line feed, which ends
comments as well as tokens.
-/

namespace FlatIL.TokenStream

/-- `Scans start text tokens`: from a place, the text is scanned as the tokens. -/
inductive Scans : Location → List Char → List Token → Prop where
  | nil {start : Location} : Scans start [] []
  | gap {start : Location} {c : Char} {cs : List Char} {tokens : List Token}
      (isGap : Token.isGap c = true) (more : Scans (start.next c) cs tokens) :
      Scans start (c :: cs) tokens
  /-- A comment goes on up to a line feed or the end of the text. -/
  | comment {start : Location} {body rest : List Char} {tokens : List Token}
      (inLine : ∀ c ∈ body, c ≠ '\n') (ends : ∀ c ∈ rest.head?, c = '\n')
      (more : Scans (start.advance ('#' :: body)) rest tokens) :
      Scans start ('#' :: (body ++ rest)) tokens
  | token {start : Location} {c : Char} {cs : List Char} {lexeme : Token.Lexeme}
      {tokens : List Token} (reads : Token.Reads c cs lexeme)
      (more : Scans (start.advance lexeme.text) lexeme.rest tokens) :
      Scans start (c :: cs) (lexeme.token start :: tokens)

/-- `Fails start text error`: from a place, the text is refused with the error. -/
inductive Fails : Location → List Char → ScanError → Prop where
  | here {start : Location} {c : Char} {cs : List Char} {cause : LexicalError}
      (noGap : Token.isGap c = false) (noComment : c ≠ '#') (refuses : Token.Refuses c cs cause) :
      Fails start (c :: cs) { cause, location := start }
  | gap {start : Location} {c : Char} {cs : List Char} {error : ScanError}
      (isGap : Token.isGap c = true) (more : Fails (start.next c) cs error) :
      Fails start (c :: cs) error
  | comment {start : Location} {body rest : List Char} {error : ScanError}
      (inLine : ∀ c ∈ body, c ≠ '\n') (ends : ∀ c ∈ rest.head?, c = '\n')
      (more : Fails (start.advance ('#' :: body)) rest error) :
      Fails start ('#' :: (body ++ rest)) error
  | token {start : Location} {c : Char} {cs : List Char} {lexeme : Token.Lexeme}
      {error : ScanError} (reads : Token.Reads c cs lexeme)
      (more : Fails (start.advance lexeme.text) lexeme.rest error) : Fails start (c :: cs) error

/-- The place behind a comment or a token is found character by character. -/
theorem advance_append (start : Location) (text more : List Char) :
    start.advance (text ++ more) = (start.advance text).advance more := by
  simp [Location.advance]

/-- A comment is scanned as nothing. -/
theorem scanFrom_comment (start : Location) {body rest : List Char} (inLine : ∀ c ∈ body, c ≠ '\n')
    (ends : ∀ c ∈ rest.head?, c = '\n') :
    scanFrom start ('#' :: (body ++ rest)) = scanFrom (start.advance ('#' :: body)) rest := by
  have inside : ∀ c ∈ body, (c != '\n') = true := by simpa using inLine
  have outside : ∀ c ∈ rest.head?, (c != '\n') = false := by simpa using ends
  obtain ⟨taken, dropped⟩ := Token.takeWhile_append_of_apart inside outside
  rw [scanFrom, if_neg (by decide), if_pos (by decide), taken, dropped]

/-- What scans is scanned as its tokens, up to its end. -/
theorem Scans.scanFrom_eq {start : Location} {text : List Char} {tokens : List Token}
    (scans : Scans start text tokens) :
    scanFrom start text = .ok { body := tokens, stop := start.advance text } := by
  induction scans with
  | nil => rw [scanFrom]; rfl
  | gap isGap more ih =>
    rw [scanFrom, if_pos isGap, ih]
    rfl
  | comment inLine ends more ih =>
    rw [scanFrom_comment _ inLine ends, ih, ← List.cons_append, advance_append]
  | @token start c cs lexeme tokens reads more ih =>
    have read := reads.readToken_eq
    obtain ⟨solid, notComment⟩ := Token.solid_of_readToken read
    obtain ⟨taken, text, rfl, -⟩ := reads.relay
    rw [scanFrom]
    simp only [solid, notComment, Bool.false_eq_true, if_false]
    split
    · next refused => cases read.symm.trans refused
    · next found =>
      obtain rfl := Except.ok.inj (read.symm.trans found)
      rw [ih]
      simp only [Token.Lexeme.token, ← advance_append, text, List.cons_append]

/-- A text scans, or it is refused as `Fails` says. -/
theorem scanFrom_outcome (start : Location) (text : List Char) :
    (∃ tokens, Scans start text tokens) ∨
      ∃ error, scanFrom start text = .error error ∧ Fails start text error := by
  fun_induction scanFrom start text with
  | case1 start => exact .inl ⟨[], .nil⟩
  | case2 start c cs gap ih =>
    obtain ⟨tokens, scans⟩ | ⟨error, failed, fails⟩ := ih
    · exact .inl ⟨tokens, .gap gap scans⟩
    · exact .inr ⟨error, failed, .gap gap fails⟩
  | case3 start c cs noGap isComment ih =>
    obtain rfl := eq_of_beq isComment
    obtain ⟨body, rest, rfl, taken, dropped, inLine, ends⟩ := Token.exists_run (· != '\n') cs
    rw [taken, dropped] at ih ⊢
    simp only [bne_iff_ne, bne_eq_false_iff_eq] at inLine ends
    obtain ⟨tokens, scans⟩ | ⟨error, failed, fails⟩ := ih
    · exact .inl ⟨tokens, .comment inLine ends scans⟩
    · exact .inr ⟨error, failed, .comment inLine ends fails⟩
  | case4 start c cs noGap noComment cause refused =>
    have refuses := Token.refuses_of_readToken refused
    exact .inr ⟨_, rfl, .here (by simpa using noGap) (by simpa using noComment) refuses⟩
  | case5 start c cs noGap noComment lexeme read error failed ih =>
    have reads := Token.reads_of_readToken read
    obtain ⟨tokens, scans⟩ | ⟨error', failed', fails⟩ := ih
    · cases failed.symm.trans scans.scanFrom_eq
    · obtain rfl := Except.error.inj (failed.symm.trans failed')
      exact .inr ⟨error, rfl, .token reads fails⟩
  | case6 start c cs noGap noComment lexeme read stream scanned token =>
    rename_i ih
    have reads := Token.reads_of_readToken read
    obtain ⟨tokens, scans⟩ | ⟨error, failed, -⟩ := ih
    · exact .inl ⟨_, .token reads scans⟩
    · cases scanned.symm.trans failed

/-- A text that is scanned scans as its tokens, and its end is the end. -/
theorem scanFrom_eq_ok {start : Location} {text : List Char} {stream : TokenStream} :
    scanFrom start text = .ok stream ↔
      Scans start text stream.body ∧ stream.stop = start.advance text := by
  constructor
  · intro scanned
    obtain ⟨tokens, scans⟩ | ⟨error, failed, -⟩ := scanFrom_outcome start text
    · obtain rfl := Except.ok.inj (scanned.symm.trans scans.scanFrom_eq)
      exact ⟨scans, rfl⟩
    · cases scanned.symm.trans failed
  · rintro ⟨scans, stop⟩
    rw [scans.scanFrom_eq, ← stop]

/-! ## Texts in pieces -/

/-- A text that goes on with a line feed, if at all, is scanned behind another one. -/
theorem Scans.append {start : Location} {text more : List Char} {tokens others : List Token}
    (first : Scans start text tokens) (feed : ∀ c ∈ more.head?, c = '\n')
    (second : Scans (start.advance text) more others) :
    Scans start (text ++ more) (tokens ++ others) := by
  induction first with
  | nil => exact second
  | gap isGap rest ih => exact .gap isGap (ih second)
  | @comment start body rest tokens inLine ends behind ih =>
    rw [List.cons_append, List.append_assoc]
    refine .comment inLine ?_ (ih (by rw [← advance_append]; exact second))
    intro c first
    cases rest with
    | nil => exact feed c first
    | cons d rest => exact ends c first
  | @token start c cs lexeme tokens reads rest ih =>
    obtain ⟨taken, text, rfl, relay⟩ := reads.relay
    have ahead : ∀ d ∈ (lexeme.rest ++ more).head?,
        Token.isGap d = true ∨ lexeme.rest.head? = some d := by
      intro d first
      cases same : lexeme.rest with
      | nil =>
        rw [same, List.nil_append] at first
        exact .inl (by rw [feed d first]; decide)
      | cons e others =>
        rw [same] at first
        exact .inr first
    rw [List.cons_append, List.append_assoc, List.cons_append]
    have behind : Scans (start.advance lexeme.text) (lexeme.rest ++ more) (tokens ++ others) := by
      refine ih ?_
      rw [← advance_append, text]
      exact second
    exact (Scans.token (relay _ ahead) behind :)

/-- The first tokens of a text are those of some front part of it. -/
theorem Scans.split {start : Location} {text : List Char} {tokens others : List Token}
    (scans : Scans start text (tokens ++ others)) :
    ∃ before behind, text = before ++ behind ∧ Scans start before tokens := by
  generalize whole : tokens ++ others = all at scans
  induction scans generalizing tokens with
  | nil =>
    obtain ⟨rfl, -⟩ := List.append_eq_nil_iff.mp whole
    exact ⟨[], [], rfl, .nil⟩
  | @gap start c cs all isGap more ih =>
    obtain ⟨before, behind, rfl, scans⟩ := ih whole
    exact ⟨c :: before, behind, rfl, .gap isGap scans⟩
  | @comment start body rest all inLine ends more ih =>
    obtain ⟨before, behind, rfl, scans⟩ := ih whole
    refine ⟨'#' :: (body ++ before), behind, by simp, .comment inLine ?_ scans⟩
    exact fun c first => ends c (List.mem_head?_append_of_mem_head? first)
  | @token start c cs lexeme all reads more ih =>
    cases tokens with
    | nil => exact ⟨[], c :: cs, rfl, .nil⟩
    | cons token tokens =>
      obtain ⟨rfl, rest⟩ := List.cons.inj whole
      obtain ⟨before, behind, split, scans⟩ := ih rest
      obtain ⟨taken, text, rfl, again⟩ := reads.cut split
      exact ⟨c :: (taken ++ before), behind, by simp, (Scans.token again scans :)⟩

/-- A text does not end with a digit if its last part does not, or is empty and the part in front of
it does not. -/
theorem last_apart (piece : List Char) {before : List Char}
    (inside : ∀ d ∈ before.getLast?, d.isDigit = false)
    (outside : before = [] → ∀ d ∈ piece.getLast?, d.isDigit = false) :
    ∀ d ∈ (piece ++ before).getLast?, d.isDigit = false := by
  intro d last
  cases before with
  | nil =>
    rw [List.append_nil] at last
    exact outside rfl d last
  | cons c before =>
    rw [List.getLast?_append] at last
    exact inside d (by simpa [List.getLast?_cons] using last)

/-- The text in front of the place where a text fails scans, and no token starts at that place: a
run of digits there goes on no other. -/
theorem Fails.split {start : Location} {text : List Char} {error : ScanError}
    (fails : Fails start text error) :
    ∃ before c cs tokens, text = before ++ c :: cs ∧ Scans start before tokens ∧
      error.location = start.advance before ∧ Token.isGap c = false ∧ c ≠ '#' ∧
      Token.Refuses c cs error.cause ∧
      (c.isDigit = true → ∀ d ∈ before.getLast?, d.isDigit = false) := by
  induction fails with
  | @here start c cs cause noGap noComment refuses =>
    exact ⟨[], c, cs, [], rfl, .nil, rfl, noGap, noComment, refuses, fun _ => nofun⟩
  | @gap start c cs error isGap more ih =>
    obtain ⟨before, d, ds, tokens, rfl, scans, place, noGap, noComment, refuses, apart⟩ := ih
    refine ⟨c :: before, d, ds, tokens, rfl, .gap isGap scans, place, noGap, noComment, refuses, ?_⟩
    refine fun digit => last_apart [c] (apart digit) fun _ e last => ?_
    obtain rfl : c = e := Option.some.inj last
    exact (Token.plain_of_isGap isGap).1
  | @comment start body rest error inLine ends more ih =>
    obtain ⟨before, d, ds, tokens, rfl, scans, place, noGap, noComment, refuses, apart⟩ := ih
    have endsBefore : ∀ e ∈ before.head?, e = '\n' :=
      fun e first => ends e (List.mem_head?_append_of_mem_head? first)
    refine ⟨'#' :: (body ++ before), d, ds, tokens, by simp, .comment inLine endsBefore scans, ?_,
      noGap, noComment, refuses, ?_⟩
    · rw [place, ← List.cons_append, advance_append]
    · refine fun digit => last_apart ('#' :: body) (apart digit) fun empty => ?_
      subst empty
      obtain rfl : d = '\n' := ends d rfl
      exact absurd digit (by decide)
  | @token start c cs lexeme error reads more ih =>
    obtain ⟨before, d, ds, tokens, split, scans, place, noGap, noComment, refuses, apart⟩ := ih
    obtain ⟨taken, text, rfl, again⟩ := reads.cut split
    refine ⟨c :: (taken ++ before), d, ds, _, by simp, .token again scans, ?_, noGap, noComment,
      refuses, ?_⟩
    · rw [place, ← List.cons_append, ← text, advance_append]
    · rw [← List.cons_append, ← text]
      refine fun digit => last_apart _ (apart digit) fun empty e last => ?_
      subst empty
      cases whole : e.isDigit with
      | false => rfl
      | true =>
        have noDigit := reads.digit_apart last whole d (by rw [split]; rfl)
        rw [digit] at noDigit
        cases noDigit

end FlatIL.TokenStream
