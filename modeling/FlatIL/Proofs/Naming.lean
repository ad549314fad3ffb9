import FlatIL.Proofs.InputOption
import FlatIL.Proofs.Model
import FlatIL.Proofs.Relocation
import FlatIL.Render
import Mathlib.Computability.RegularExpressions
import Mathlib.Tactic.TFAE

/-!
# What a name is

Names are checked in four places: where a stored model is read, where a program is written down,
where an input source is given on the command line, and where a text is scanned. The first three
go by a pattern and a list of reserved words, the last one by classes of characters, the longest
word that fits and a table of keywords. All four accept the same texts, which are those that match
the pattern as a whole and are not reserved.
-/

namespace FlatIL

namespace Name

/-! ## The pattern -/

/-- The characters from one to another, both included. -/
def range (low high : Char) : List Char :=
  (List.range' low.toNat (high.toNat + 1 - low.toNat)).map Char.ofNat

/-- Any one of some characters. -/
def oneOf : List Char → RegularExpression Char
  | [] => 0
  | c :: others => .char c + oneOf others

/-- The characters `[A-Za-z_]`. -/
def starts : List Char :=
  range 'A' 'Z' ++ range 'a' 'z' ++ ['_']

/-- The characters `[A-Za-z0-9_]`. -/
def parts : List Char :=
  range 'A' 'Z' ++ range 'a' 'z' ++ range '0' '9' ++ ['_']

/-- The pattern `[A-Za-z_][A-Za-z0-9_]*`. -/
def pattern : RegularExpression Char :=
  oneOf starts * (oneOf parts).star

/-- A range of ASCII characters holds those that lie between its ends. -/
theorem mem_range {low high c : Char} (ascii : high.toNat < 128) :
    c ∈ range low high ↔ low.toNat ≤ c.toNat ∧ c.toNat ≤ high.toNat := by
  simp only [range, List.mem_map, List.mem_range'_1]
  constructor
  · rintro ⟨n, bounds, rfl⟩
    have valid : n.isValidChar := .inl (by omega)
    have code : (Char.ofNat n).toNat = n := by
      rw [Char.ofNat, dif_pos valid]
      rfl
    omega
  · intro between
    exact ⟨c.toNat, by omega, Char.ofNat_toNat c⟩

/-- The characters a name may start with are those of the pattern. -/
theorem isStart_iff {c : Char} : isStart c = true ↔ c ∈ starts := by
  have upper : c.isUpper = true ↔ c ∈ range 'A' 'Z' := by
    rw [mem_range (by decide)]
    delta Char.isUpper
    simp [UInt32.le_iff_toNat_le]
  have lower : c.isLower = true ↔ c ∈ range 'a' 'z' := by
    rw [mem_range (by decide)]
    delta Char.isLower
    simp [UInt32.le_iff_toNat_le]
  delta isStart Char.isAlpha
  simp only [Bool.or_eq_true, beq_iff_eq, upper, lower, starts, List.mem_append,
    List.mem_singleton]

/-- The characters a name may go on with are those of the pattern. -/
theorem isPart_iff {c : Char} : isPart c = true ↔ c ∈ parts := by
  have digit : c.isDigit = true ↔ c ∈ range '0' '9' := by
    rw [mem_range (by decide)]
    simp [Char.isDigit, UInt32.le_iff_toNat_le]
  simp only [isPart, Bool.or_eq_true, isStart_iff, digit, starts, parts, List.mem_append]
  tauto

/-- One of some characters is matched by each of them alone. -/
theorem mem_matches_oneOf {chars text : List Char} :
    text ∈ (oneOf chars).matches' ↔ ∃ c ∈ chars, text = [c] := by
  induction chars with
  | nil => simp [oneOf, Language.notMem_zero]
  | cons c others ih =>
    rw [oneOf, RegularExpression.matches'_add, Language.mem_add, ih, List.exists_mem_cons_iff]
    rfl

/-- Some characters over and over are matched by the texts that have no others. -/
theorem mem_matches_star {chars text : List Char} :
    text ∈ (oneOf chars).star.matches' ↔ ∀ c ∈ text, c ∈ chars := by
  rw [RegularExpression.matches'_star, Language.mem_kstar]
  constructor
  · rintro ⟨pieces, rfl, matched⟩ c inside
    obtain ⟨piece, listed, here⟩ := List.mem_flatten.mp inside
    obtain ⟨d, known, rfl⟩ := mem_matches_oneOf.mp (matched piece listed)
    rwa [List.mem_singleton.mp here]
  · intro all
    refine ⟨text.map fun c => [c], by simp [← List.flatMap_def], fun piece listed => ?_⟩
    obtain ⟨c, inside, rfl⟩ := List.mem_map.mp listed
    exact mem_matches_oneOf.mpr ⟨c, all c inside, rfl⟩

/-- A text has the shape of a name exactly if it matches the pattern as a whole. -/
theorem hasShape_iff {text : List Char} : hasShape text = true ↔ text ∈ pattern.matches' := by
  rw [pattern, RegularExpression.matches'_mul, Language.mem_mul]
  constructor
  · intro shaped
    cases text with
    | nil => cases shaped
    | cons c cs =>
      simp only [hasShape, Bool.and_eq_true, List.all_eq_true] at shaped
      refine ⟨[c], mem_matches_oneOf.mpr ⟨c, isStart_iff.mp shaped.1, rfl⟩, cs, ?_, rfl⟩
      exact mem_matches_star.mpr fun d inside => isPart_iff.mp (shaped.2 d inside)
  · rintro ⟨first, starting, others, going, rfl⟩
    obtain ⟨c, known, rfl⟩ := mem_matches_oneOf.mp starting
    have all : ∀ d ∈ others, isPart d = true :=
      fun d inside => isPart_iff.mpr (mem_matches_star.mp going d inside)
    simp only [List.singleton_append, hasShape, Bool.and_eq_true, List.all_eq_true]
    exact ⟨isStart_iff.mpr known, all⟩

/-- A text is a name exactly if it matches the pattern as a whole and is not reserved. -/
theorem isName_iff {text : String} :
    isName text = true ↔ text.toList ∈ pattern.matches' ∧ text ∉ reserved := by
  simp only [isName, isReserved, Bool.and_eq_true, hasShape_iff, Bool.not_eq_true',
    List.contains_eq_mem, decide_eq_false_iff_not]

end Name

/-! ## The four checks -/

/-- A name that is written down is written as it is, and any other text is refused. -/
theorem Render.name_eq_ok {text written : String} :
    name text = .ok written ↔ written = text ∧ Name.isName text = true := by
  unfold name
  by_cases named : Name.isName text = true
  · rw [if_pos named, Except.ok.injEq]
    exact ⟨fun same => ⟨same.symm, named⟩, fun both => both.1.symm⟩
  · rw [if_neg named]
    exact ⟨nofun, fun both => absurd both.2 named⟩

namespace TokenStream

/-- A name is scanned as one identifier. -/
theorem scan_of_isName {text : String} (named : Name.isName text = true) :
    ∃ stream, scan text = .ok stream ∧
      stream.toList.map (fun token => (token.kind, token.lexeme)) =
        [(.identifier, text), (.eof, "")] := by
  simp only [Name.isName, Bool.and_eq_true, Bool.not_eq_true'] at named
  obtain ⟨shaped, free⟩ := named
  cases spelled : text.toList with
  | nil => simp [spelled, Name.hasShape] at shaped
  | cons c cs =>
    simp only [spelled, Name.hasShape, Bool.and_eq_true, List.all_eq_true] at shaped
    have reads : Token.Reads c cs { kind := .ofWord text, text := c :: cs, rest := [] } := by
      have whole : Token.Reads c (cs ++ [])
          { kind := .ofWord (String.ofList (c :: cs)), text := c :: cs, rest := [] } :=
        .word shaped.1 shaped.2 (by simp)
      rwa [List.append_nil, ← spelled, String.ofList_toList, spelled] at whole
    have scans : Scans {} (c :: cs) [Token.Lexeme.token _ {}] := .token reads .nil
    refine ⟨_, by rw [scan, spelled]; exact scans.scanFrom_eq, ?_⟩
    have kind : TokenKind.ofWord text = .identifier := TokenKind.ofWord_eq_identifier_iff.mpr free
    simp [toList, Token.Lexeme.token, endToken, kind, ← spelled]

/-- What is scanned as an identifier among other tokens is a name. -/
theorem isName_of_scan {text name : String} {stream : TokenStream} {token : Token}
    (scanned : scan text = .ok stream) (inside : token ∈ stream.toList)
    (kind : token.kind = .identifier) (lexeme : token.lexeme = name) :
    Name.isName name = true := by
  have scans := (scanFrom_eq_ok.mp scanned).1
  rcases List.mem_append.mp inside with body | last
  · rw [← lexeme]
    exact (scans.valid token body).1 kind
  · rw [List.mem_singleton.mp last] at kind
    cases kind

end TokenStream

namespace Command

/-- One option is cut at its first equals sign, and what stands in front of it must be a name. -/
theorem name_of_readInputs {item : String} {given : List (String × List Int)}
    (read : readInputs [item] = .ok given) :
    ∃ name values, given = [(name, values)] ∧ Name.isName name = true ∧
      name.toList = item.toList.takeWhile (· != '=') := by
  have single : readInputs [item] = readInput [] item := by
    rw [readInputs, List.foldlM_cons]
    exact bind_pure (readInput [] item)
  rw [single] at read
  obtain ⟨name, values, same, named, spelled, -⟩ := readInput_eq_ok read
  exact ⟨name, values, same, named, spelled⟩

/-- A text without an equals sign is cut off in front of the first one behind it. -/
theorem cut_of_notMem {text : String} (apart : '=' ∉ text.toList) :
    (text ++ "=").toList.takeWhile (· != '=') = text.toList ∧
      (text ++ "=").toList.dropWhile (· != '=') = ['='] := by
  have cut := optionName_of_notMem apart ""
  rwa [String.append_empty] at cut

/-- A name with nothing behind its equals sign is a source without values. -/
theorem readInputs_of_isName {name : String} (named : Name.isName name = true) :
    readInputs [name ++ "="] = .ok [(name, [])] := by
  have read := readInput_of_isName named "" []
  rw [String.append_empty] at read
  rw [readInputs, List.foldlM_cons, read]
  rfl

/-- What an option accepts under a text is accepted under a name. -/
theorem isName_of_readInputs {name : String} {values : List Int}
    (read : readInputs [name ++ "="] = .ok [(name, values)]) : Name.isName name = true := by
  obtain ⟨known, found, same, named, -⟩ := name_of_readInputs read
  rwa [(Prod.mk.inj (List.singleton_inj.mp same)).1]

end Command

/-- The texts that a stored model accepts as names, that are written down as names, that are
accepted in front of the equals sign of an input option, and that are scanned as one identifier are
the same, namely those that match the pattern and are not reserved. What a stored model accepts is
the text itself, and so is what an option accepts if the text has no equals sign in it. -/
theorem Name.definitions_agree (text : String) :
    List.TFAE [
      text.toList ∈ pattern.matches' ∧ text ∉ reserved,
      ∃ accepted, Model.name (.str text) = .ok accepted,
      Render.name text = .ok text,
      Command.readInputs [text ++ "="] = .ok [(text, [])],
      ∃ stream, TokenStream.scan text = .ok stream ∧
        stream.toList.map (fun token => (token.kind, token.lexeme)) =
          [(.identifier, text), (.eof, "")]] ∧
      (∀ accepted, Model.name (.str text) = .ok accepted → accepted = text) ∧
      ('=' ∉ text.toList → ∀ given,
        Command.readInputs [text ++ "="] = .ok given → given = [(text, [])]) := by
  rw [← isName_iff]
  have accepted : ∀ accepted, Model.name (.str text) = .ok accepted → accepted = text :=
    fun accepted read => (Json.str.inj (Model.name_eq_ok.mp read).1).symm
  refine ⟨?_, accepted, ?_⟩
  · tfae_have 1 ↔ 2 := by
      constructor
      · intro named
        exact ⟨text, Model.name_eq_ok.mpr ⟨rfl, named⟩⟩
      · rintro ⟨same, read⟩
        obtain rfl := accepted same read
        exact (Model.name_eq_ok.mp read).2
    tfae_have 1 ↔ 3 := by
      rw [Render.name_eq_ok]
      exact ⟨fun named => ⟨rfl, named⟩, fun both => both.2⟩
    tfae_have 1 → 4 := Command.readInputs_of_isName
    tfae_have 4 → 1 := Command.isName_of_readInputs
    tfae_have 1 → 5 := TokenStream.scan_of_isName
    tfae_have 5 → 1 := by
      rintro ⟨stream, scanned, listed⟩
      have first : (TokenKind.identifier, text) ∈
          stream.toList.map fun token => (token.kind, token.lexeme) := by
        rw [listed]
        exact List.mem_cons_self
      obtain ⟨token, inside, same⟩ := List.mem_map.mp first
      obtain ⟨kind, lexeme⟩ := Prod.mk.inj same
      exact TokenStream.isName_of_scan scanned inside kind lexeme
    tfae_finish
  · intro apart given read
    obtain ⟨name, values, -, named, front⟩ := Command.name_of_readInputs read
    have same : name = text := String.toList_inj.mp (front.trans (Command.cut_of_notMem apart).1)
    rw [same] at named
    exact Except.ok.inj (read.symm.trans (Command.readInputs_of_isName named))

end FlatIL
