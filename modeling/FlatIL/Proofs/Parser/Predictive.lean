import FlatIL.Proofs.Parser.Recursion
import FlatIL.Proofs.Relocation

/-!
# Parsers with one token of lookahead

A parser predicts if it never reads past the token that decides. Where it succeeds, it would do so
in front of any tokens with the same first one; where it fails, the tokens it has passed can still
be gone on from, and it would fail in the same way whatever stands behind the token it complains
about. Both are kept by putting parsers in order, so that they hold of expressions, statements and
programs alike.
-/

namespace FlatIL.Parser

open Grammar

variable {α β : Type}

/-- All tokens of a list can be written. -/
abbrev AllWritten (tokens : List Token) : Prop :=
  ∀ token ∈ tokens, token.Written

/-- A token that can be written is a list of such tokens. -/
theorem AllWritten.singleton {token : Token} (written : token.Written) : AllWritten [token] :=
  fun _ inside => List.mem_singleton.mp inside ▸ written

/-- What a parser that predicts does on tokens. -/
inductive PredictsAt (parser : Parser α) (spells : List Token → α → Prop) (tokens : List Token) :
    Prop where
  /-- It reads tokens that spell its result, and reads them in front of all tokens with the same
  first one. -/
  | ok (used rest : List Token) (a : α) (split : tokens = used ++ rest) (spelled : spells used a)
      (reads : ∀ others, AllValid others → others.head? = rest.head? →
        parser (used ++ others) = (.ok a, others))
  /-- It fails at a token, or at the end of the text, behind tokens that can be gone on from, and
  fails there whatever stands behind that token. -/
  | error (used rest : List Token) (expected : Expectation) (split : tokens = used ++ rest)
      (goesOn : ∃ more a, AllWritten more ∧ spells (used ++ more) a)
      (fails : ∀ others, AllValid others → others.head? = rest.head? →
        ∃ left, parser (used ++ others) = (.error (.unexpected expected rest.head?), left))

/-- A parser that predicts on fewer valid tokens than a number, and whose result can be spelled. -/
structure Predictive (n : Nat) (parser : Parser α) (spells : List Token → α → Prop) : Prop where
  spellable : ∃ more a, AllWritten more ∧ spells more a
  predicts (tokens : List Token) (valid : AllValid tokens) (fewer : tokens.length < n) :
    PredictsAt parser spells tokens

/-- The first of some tokens is the same in front of tokens with the same first one. -/
theorem head?_append_congr {rest others : List Token} (same : others.head? = rest.head?)
    (used : List Token) : (used ++ others).head? = (used ++ rest).head? := by
  rw [List.head?_append, List.head?_append, same]

/-- Other valid tokens behind those that are read keep all tokens valid. -/
theorem AllValid.replace {used rest others : List Token} (valid : AllValid (used ++ rest))
    (validOthers : AllValid others) : AllValid (used ++ others) :=
  List.forall_mem_append.mpr ⟨valid.left, validOthers⟩

namespace PredictsAt

variable {spells : List Token → α → Prop} {tokens : List Token}

/-- A parser that does the same on all tokens with the same first one predicts as well. -/
theorem congr {p q : Parser α} (predicts : PredictsAt q spells tokens) (valid : AllValid tokens)
    (same : ∀ others, AllValid others → others.head? = tokens.head? → p others = q others) :
    PredictsAt p spells tokens := by
  cases predicts with
  | ok used rest a split spelled reads =>
    subst split
    refine .ok used rest a rfl spelled fun others validOthers first => ?_
    rw [same _ (valid.replace validOthers) (head?_append_congr first used)]
    exact reads others validOthers first
  | error used rest expected split goesOn fails =>
    subst split
    refine .error used rest expected rfl goesOn fun others validOthers first => ?_
    rw [same _ (valid.replace validOthers) (head?_append_congr first used)]
    exact fails others validOthers first

/-- What is spelled may be put differently. -/
theorem mono {p : Parser α} {spells' : List Token → α → Prop}
    (predicts : PredictsAt p spells tokens)
    (weaker : ∀ used a, spells used a → spells' used a) : PredictsAt p spells' tokens := by
  cases predicts with
  | ok used rest a split spelled reads => exact .ok used rest a split (weaker _ _ spelled) reads
  | error used rest expected split goesOn fails =>
    obtain ⟨more, a, written, spelled⟩ := goesOn
    exact .error used rest expected split ⟨more, a, written, weaker _ _ spelled⟩ fails

/-- Behind a token that has been read, another parser goes on. -/
theorem cons {p q : Parser α} {token : Token} {ahead : List Token}
    (same : ∀ others, AllValid others → p (token :: others) = q others) (valid : AllValid ahead)
    (behind : PredictsAt q (fun more a => spells (token :: more) a) ahead) :
    PredictsAt p spells (token :: ahead) := by
  cases behind with
  | ok used rest a split spelled reads =>
    subst split
    refine .ok (token :: used) rest a rfl spelled fun others validOthers first => ?_
    rw [List.cons_append, same _ (valid.replace validOthers)]
    exact reads others validOthers first
  | error used rest expected split goesOn fails =>
    subst split
    refine .error (token :: used) rest expected rfl goesOn fun others validOthers first => ?_
    rw [List.cons_append, same _ (valid.replace validOthers)]
    exact fails others validOthers first

/-- Two parsers in order predict if both do, the second on what the first leaves. -/
theorem bind {m : Nat} {p : Parser β} {f : β → Parser α} {first : List Token → β → Prop}
    (predicts : PredictsAt p first tokens) (valid : AllValid tokens)
    (fewer : ∀ used rest b, tokens = used ++ rest → first used b → rest.length < m)
    (second : ∀ used b, AllValid used → first used b →
      Predictive m (f b) fun more a => spells (used ++ more) a) :
    PredictsAt (p >>= f) spells tokens := by
  cases predicts with
  | ok used rest b split spelled reads =>
    subst split
    have later := (second used b valid.left spelled).predicts rest valid.right
      (fewer used rest b rfl spelled)
    cases later with
    | ok used' rest' a split' spelled' reads' =>
      subst split'
      refine .ok (used ++ used') rest' a (List.append_assoc ..).symm spelled' ?_
      intro others validOthers same
      rw [List.append_assoc]
      -- The first parser reads the same, whatever stands behind what the second one reads.
      exact bind_eq_ok.mpr ⟨b, _, reads _ (valid.right.replace validOthers)
        (head?_append_congr same used'), reads' others validOthers same⟩
    | error used' rest' expected split' goesOn fails =>
      subst split'
      refine .error (used ++ used') rest' expected (List.append_assoc ..).symm ?_ ?_
      · obtain ⟨more, a, written, spelled'⟩ := goesOn
        exact ⟨more, a, written, by rw [List.append_assoc]; exact spelled'⟩
      · intro others validOthers same
        obtain ⟨left, failed⟩ := fails others validOthers same
        have read := reads _ (valid.right.replace validOthers) (head?_append_congr same used')
        exact ⟨left, by rw [List.append_assoc]; simp only [Bind.bind, read, failed]⟩
  | error used rest expected split goesOn fails =>
    subst split
    refine .error used rest expected rfl ?_ ?_
    · -- What the first parser can go on with is gone on with by the second one.
      obtain ⟨more, b, written, spelled⟩ := goesOn
      have validMore : AllValid (used ++ more) :=
        valid.replace fun token inside => (written token inside).valid
      obtain ⟨more', a, written', spelled'⟩ := (second _ b validMore spelled).spellable
      exact ⟨more ++ more', a, List.forall_mem_append.mpr ⟨written, written'⟩,
        by rw [← List.append_assoc]; exact spelled'⟩
    · intro others validOthers same
      obtain ⟨left, failed⟩ := fails others validOthers same
      exact ⟨left, by simp only [Bind.bind, failed]⟩

/-- Reading a token goes on behind it. -/
theorem next {f : Option Token → Parser α} {token : Token} {ahead : List Token} {n : Nat}
    (valid : AllValid ahead) (fewer : ahead.length < n)
    (behind : Predictive n (f (some token)) fun more a => spells (token :: more) a) :
    PredictsAt (Parser.next >>= f) spells (token :: ahead) :=
  .cons (fun _ _ => rfl) valid (behind.predicts ahead valid fewer)

/-- Reading a token and complaining about it, or about the end of the text, is failing there. -/
theorem refuse {f : Option Token → Parser α} {expected : Expectation}
    (spellable : ∃ more a, AllWritten more ∧ spells more a)
    (refuses : f tokens.head? = fail (.unexpected expected tokens.head?)) :
    PredictsAt (Parser.next >>= f) spells tokens := by
  refine .error [] tokens expected rfl spellable fun others _ same => ⟨others.tail, ?_⟩
  have read : (Parser.next >>= f) others = f others.head? others.tail := by cases others <;> rfl
  rw [List.nil_append, read, same, refuses]
  rfl

end PredictsAt

namespace Predictive

variable {n : Nat} {spells : List Token → α → Prop}

/-- What predicts on fewer tokens than a number does so on fewer tokens than a smaller one. -/
theorem fewer {m : Nat} {p : Parser α} (predictive : Predictive n p spells) (less : m ≤ n) :
    Predictive m p spells :=
  ⟨predictive.spellable, fun tokens valid fewer =>
    predictive.predicts tokens valid (Nat.lt_of_lt_of_le fewer less)⟩

/-- Two parsers in order predict if both do. -/
theorem bind {p : Parser β} {f : β → Parser α} {first : List Token → β → Prop}
    (predictive : Predictive n p first)
    (second : ∀ used b, AllValid used → first used b →
      Predictive n (f b) fun more a => spells (used ++ more) a) :
    Predictive n (p >>= f) spells := by
  constructor
  · obtain ⟨more, b, written, spelled⟩ := predictive.spellable
    have valid : AllValid more := fun token inside => (written token inside).valid
    obtain ⟨more', a, written', spelled'⟩ := (second more b valid spelled).spellable
    exact ⟨more ++ more', a, List.forall_mem_append.mpr ⟨written, written'⟩, spelled'⟩
  · intro tokens valid fewer
    refine (predictive.predicts tokens valid fewer).bind valid ?_ second
    rintro used rest b rfl -
    rw [List.length_append] at fewer
    omega

/-- A parser that reads nothing predicts. -/
theorem pure {a : α} (spelled : spells [] a) : Predictive n (pure a) spells :=
  ⟨⟨[], a, nofun, spelled⟩, fun tokens _ _ => .ok [] tokens a rfl spelled fun _ _ _ => rfl⟩

end Predictive

/-- A part that passes its check is there without anything being read. -/
theorem predictive_checked {n : Nat} {field : String} {part : Except Model.Problem α} {a : α}
    (passed : part = .ok a) :
    Predictive n (checked field part) fun used b => used = [] ∧ b = a := by
  subst passed
  exact .pure ⟨rfl, rfl⟩

/-- Looking for a token that can be written predicts. -/
theorem predictive_expect (n : Nat) (expected : Expectation) {token : Token}
    (written : token.Written) :
    Predictive n (expect token.kind expected) fun used found =>
      used = [found] ∧ found.kind = token.kind := by
  have spellable : ∃ more found, AllWritten more ∧ more = [found] ∧ found.kind = token.kind :=
    ⟨[token], token, .singleton written, rfl, rfl⟩
  refine ⟨spellable, fun tokens valid _ => ?_⟩
  cases tokens with
  | nil =>
    refine .error [] [] expected rfl spellable fun others _ same => ⟨[], ?_⟩
    obtain rfl := List.head?_eq_none_iff.mp same
    rfl
  | cons first ahead =>
    by_cases found : first.kind = token.kind
    · exact .ok [first] ahead first rfl ⟨rfl, found⟩ fun others _ _ =>
        expect_eq_ok.mpr ⟨rfl, found⟩
    · refine .error [] (first :: ahead) expected rfl spellable fun others _ same => ⟨others, ?_⟩
      obtain ⟨behind, rfl⟩ := List.head?_eq_some_iff.mp same
      simp only [List.nil_append, expect, if_neg found, List.head?_cons]

/-- Looking for a token that may be left out predicts. -/
theorem predictive_accept (n : Nat) (kind : TokenKind) :
    Predictive n (accept kind) fun used found =>
      (found = true ∧ ∃ token, token.kind = kind ∧ used = [token]) ∨ found = false ∧ used = [] := by
  refine ⟨⟨[], false, nofun, .inr ⟨rfl, rfl⟩⟩, fun tokens valid _ => ?_⟩
  cases tokens with
  | nil =>
    refine .ok [] [] false rfl (.inr ⟨rfl, rfl⟩) fun others _ same => ?_
    obtain rfl := List.head?_eq_none_iff.mp same
    rfl
  | cons first ahead =>
    by_cases found : first.kind = kind
    · exact .ok [first] ahead true rfl (.inl ⟨rfl, first, found, rfl⟩) fun others _ _ =>
        accept_of_eq others found
    · refine .ok [] (first :: ahead) false rfl (.inr ⟨rfl, rfl⟩) fun others _ same => ?_
      refine accept_of_ne fun token here => ?_
      obtain rfl := Option.some.inj (same.symm.trans here)
      exact found

/-- Looking for the end of the text predicts. -/
theorem predictive_expectEnd (n : Nat) :
    Predictive n expectEnd fun used _ => used = [] := by
  refine ⟨⟨[], (), nofun, rfl⟩, fun tokens valid _ => ?_⟩
  cases tokens with
  | nil =>
    refine .ok [] [] () rfl rfl fun others _ same => ?_
    obtain rfl := List.head?_eq_none_iff.mp same
    rfl
  | cons first ahead =>
    refine .error [] (first :: ahead) .endOfExpression rfl ⟨[], (), nofun, rfl⟩ ?_
    intro others _ same
    obtain ⟨behind, rfl⟩ := List.head?_eq_some_iff.mp same
    exact ⟨first :: behind, rfl⟩

/-! ## Expressions -/

/-- There is a primary that can be written. -/
theorem exists_written_primary : ∃ more e, AllWritten more ∧ Derives primaryLevel more e :=
  ⟨_, .lit 0, .singleton Token.written_zero, .integer rfl rfl⟩

/-- Primaries predict if the expressions inside them do. -/
theorem predictive_primary {n : Nat} {nested : Parser Expr}
    (inside : Predictive n nested (Derives 0)) :
    Predictive (n + 1) (primary nested) (Derives primaryLevel) := by
  have opening := Token.written_sign '(' rfl
  have closing := Token.written_sign ')' rfl
  have source := Token.written_word (show Name.hasShape ['x'] = true by decide)
  refine ⟨exists_written_primary, fun tokens valid fewer => ?_⟩
  cases tokens with
  | nil => exact .refuse exists_written_primary rfl
  | cons token ahead =>
    have here : token.Valid := valid token List.mem_cons_self
    have validAhead : AllValid ahead := valid.tail
    have fewerAhead : ahead.length < n := Nat.lt_of_succ_lt_succ fewer
    obtain ⟨kind, lexeme, location, value⟩ := token
    cases kind with
    | integer =>
      obtain ⟨m, small, denoted⟩ := here.2 rfl
      have word : (UInt32.ofNat m).toNat = m := UInt32.toNat_ofNat_of_lt small
      have passed := (here.literal_eq_ok rfl).mpr (by rw [word]; exact denoted)
      refine .next validAhead fewerAhead ((predictive_checked passed).bind ?_)
      rintro _ w - ⟨rfl, rfl⟩
      exact .pure (.integer rfl (by rw [word]; exact denoted))
    | identifier =>
      refine .next validAhead fewerAhead ((predictive_checked (here.nameOfText_eq rfl)).bind ?_)
      rintro _ name - ⟨rfl, rfl⟩
      exact .pure (.name rfl)
    | load =>
      refine .next validAhead fewerAhead ((predictive_expect n .loadOpen opening).bind ?_)
      rintro _ opening - ⟨rfl, opens⟩
      refine inside.bind fun inner e _ address => ?_
      refine (predictive_expect n .loadClose closing).bind ?_
      rintro _ closing - ⟨rfl, closes⟩
      exact .pure (.load rfl opens address closes)
    | getInput =>
      refine .next validAhead fewerAhead ((predictive_accept n .leftParen).bind ?_)
      rintro used found - (⟨rfl, opening, opens, rfl⟩ | ⟨rfl, rfl⟩)
      · rw [if_pos rfl]
        refine (predictive_expect n .sourceName source).bind ?_
        rintro _ source validSource ⟨rfl, isName⟩
        refine (predictive_expect n .inputClose closing).bind ?_
        rintro _ closing - ⟨rfl, closes⟩
        have named := (validSource source List.mem_cons_self).nameOfText_eq isName
        refine (predictive_checked named).bind ?_
        rintro _ name - ⟨rfl, rfl⟩
        exact .pure (.inputFrom rfl opens isName closes)
      · exact .pure (.input rfl)
    | leftParen =>
      refine .next validAhead fewerAhead (inside.bind fun inner e _ held => ?_)
      refine (predictive_expect n .groupClose closing).bind ?_
      rintro _ closing - ⟨rfl, closes⟩
      exact .pure (.group rfl held closes)
    | _ => exact .refuse exists_written_primary rfl

/-- Unary operators in front of primaries that predict do so too. -/
theorem predictive_unary {n : Nat} {operand : Parser Expr}
    (predictive : Predictive n operand (Derives primaryLevel)) :
    Predictive n (unary operand) (Derives unaryLevel) := by
  have loosen (used : List Token) (e : Expr) (tight : Derives primaryLevel used e) :
      Derives unaryLevel used e := .tighter (by decide) tight
  obtain ⟨more, e, written, spelled⟩ := predictive.spellable
  refine ⟨⟨more, e, written, loosen _ _ spelled⟩, fun tokens valid fewer => ?_⟩
  induction tokens with
  | nil =>
    refine ((predictive.predicts [] valid fewer).mono loosen).congr valid fun others _ same => ?_
    obtain rfl := List.head?_eq_none_iff.mp same
    rfl
  | cons token ahead ih =>
    cases sign : token.kind.unaryOp? with
    | none =>
      refine ((predictive.predicts _ valid fewer).mono loosen).congr valid fun others _ same => ?_
      obtain ⟨behind, rfl⟩ := List.head?_eq_some_iff.mp same
      rw [unary, sign]
    | some op =>
      have fewerAhead : ahead.length < n := Nat.lt_of_succ_lt fewer
      refine .cons (fun others _ => unary_cons sign others) valid.tail
        ((ih valid.tail fewerAhead).bind valid.tail (m := n) ?_ ?_)
      · rintro used rest e rfl -
        rw [List.length_append] at fewerAhead
        omega
      · intro used e _ inner
        exact .pure (by simpa using Derives.unary (mem_unarySigns.mpr sign) inner)

/-- A row of operators that does not go on reads nothing. -/
theorem predictsAt_extend {strength : Nat} {operand : Parser Expr} {left : Expr}
    {spells : List Token → Expr → Prop} {tokens : List Token} (spelled : spells [] left)
    (ends : ∀ token ∈ tokens.head?, operatorAt strength token = none) :
    PredictsAt (extend strength operand left) spells tokens := by
  refine .ok [] tokens left rfl spelled fun others _ same => ?_
  cases others with
  | nil => rfl
  | cons token ahead =>
    have none := ends token same.symm
    simp only [List.nil_append, extend, List.length_cons, chainOnto, none]

/-- A row of operators predicts if their operands do. -/
theorem predictive_extend {n level : Nat} {operand : Parser Expr}
    (sound : Sound operand (Derives (level + 1)))
    (predictive : Predictive n operand (Derives (level + 1))) {read : List Token} {left : Expr}
    (before : Derives level read left) :
    Predictive n (extend (level + 1) operand left) fun more e =>
      Derives level (read ++ more) e := by
  have alone : Derives level (read ++ []) left := by rwa [List.append_nil]
  induction n generalizing read left with
  | zero => exact ⟨⟨[], left, nofun, alone⟩, fun tokens _ fewer => absurd fewer (Nat.not_lt_zero _)⟩
  | succ n ih =>
    refine ⟨⟨[], left, nofun, alone⟩, fun tokens valid fewer => ?_⟩
    cases tokens with
    | nil => exact predictsAt_extend alone nofun
    | cons token ahead =>
      cases sign : operatorAt (level + 1) token with
      | none =>
        refine predictsAt_extend alone fun other first => ?_
        obtain rfl := Option.some.inj first
        exact sign
      | some op =>
        have operands := predictive.fewer (Nat.le_succ n)
        have row : Predictive n
            (operand >>= fun right => extend (level + 1) operand (.binary op left right))
            fun more e => Derives level (read ++ token :: more) e := by
          refine operands.bind fun second right _ tight => ?_
          have both := Derives.binary (operatorAt_eq_some.mp sign) before tight
          have rest := ih operands both (by rwa [List.append_nil])
          simpa using rest
        exact .cons (fun others validOthers => extend_cons sound sign validOthers) valid.tail
          (row.predicts ahead valid.tail (Nat.lt_of_succ_lt_succ fewer))

/-- Levels of binary operators predict above unary operators that do. -/
theorem predictive_tower {n : Nat} {operand : Parser Expr}
    (sound : Sound operand (Derives unaryLevel))
    (predictive : Predictive n operand (Derives unaryLevel)) {count : Nat} (few : count ≤ levels) :
    Predictive n (tower operand count) (Derives (levels - count)) := by
  induction count with
  | zero => exact predictive
  | succ count ih =>
    have strength : levels - count = levels - (count + 1) + 1 := by omega
    have loose : levels - (count + 1) < primaryLevel := by
      simp only [levels, primaryLevel]
      omega
    have inner := ih (by omega)
    have soundInner := sound_tower sound (show count ≤ levels by omega)
    rw [strength] at inner soundInner
    rw [tower, strength]
    exact inner.bind fun used left _ tight =>
      predictive_extend soundInner inner (.tighter loose tight)

/-- Expressions predict. -/
theorem predictive_expression (n : Nat) : Predictive n expression (Derives 0) := by
  induction n with
  | zero =>
    obtain ⟨more, e, written, spelled⟩ := exists_written_primary
    exact ⟨⟨more, e, written, spelled.loosen (by decide) (by decide)⟩,
      fun tokens _ fewer => absurd fewer (Nat.not_lt_zero _)⟩
  | succ n ih =>
    have levels := predictive_tower (sound_unary (sound_primary sound_expression))
      (predictive_unary (predictive_primary ih)) (Nat.le_refl levels)
    refine ⟨levels.spellable, fun tokens valid fewer => ?_⟩
    exact (levels.predicts tokens valid fewer).congr valid fun others validOthers _ =>
      expression_eq validOthers

/-- Whole expressions predict. -/
theorem predictive_wholeExpression (n : Nat) : Predictive n wholeExpression (Derives 0) := by
  refine (predictive_expression n).bind fun used e _ spelled => ?_
  refine (predictive_expectEnd n).bind ?_
  rintro _ - - rfl
  exact .pure (by simpa using spelled)

/-! ## Statements -/

/-- An optional `goto` and an expression behind it are a target. -/
theorem target_of_optional {used tokens : List Token} {found : Bool} {e : Expr}
    (optional : (found = true ∧ ∃ token, token.kind = .goto ∧ used = [token]) ∨
      found = false ∧ used = []) (spelled : Derives 0 tokens e) : Target (used ++ tokens) e := by
  rcases optional with ⟨-, word, isGoto, rfl⟩ | ⟨-, rfl⟩
  · exact .goto isGoto spelled
  · exact .bare spelled

/-- Statements predict. -/
theorem predictive_statement (n : Nat) : Predictive n statement Statement := by
  have expressions := predictive_expression n
  have opening := Token.written_sign '(' rfl
  have closing := Token.written_sign ')' rfl
  have comma := Token.written_sign ',' rfl
  have goto := Token.written_word (show Name.hasShape ['g', 'o', 't', 'o'] = true by decide)
  have thenWord := Token.written_word (show Name.hasShape ['t', 'h', 'e', 'n'] = true by decide)
  have elseWord := Token.written_word (show Name.hasShape ['e', 'l', 's', 'e'] = true by decide)
  have spellable : ∃ more s, AllWritten more ∧ Statement more s := by
    obtain ⟨more, e, written, spelled⟩ := expressions.spellable
    exact ⟨_, .goto e, List.forall_mem_cons.mpr ⟨goto, written⟩, .goto rfl spelled⟩
  refine ⟨spellable, fun tokens valid fewer => ?_⟩
  cases tokens with
  | nil => exact .refuse spellable rfl
  | cons token ahead =>
    have here : token.Valid := valid token List.mem_cons_self
    have validAhead : AllValid ahead := valid.tail
    have fewerAhead : ahead.length < n := Nat.lt_of_succ_lt fewer
    obtain ⟨kind, lexeme, location, value⟩ := token
    cases kind with
    | identifier =>
      refine .next validAhead fewerAhead
        ((predictive_expect n .assignSign Token.written_assign).bind ?_)
      rintro _ sign - ⟨rfl, isAssign⟩
      refine expressions.bind fun used e _ bound => ?_
      refine (predictive_checked (here.nameOfText_eq rfl)).bind ?_
      rintro _ name - ⟨rfl, rfl⟩
      exact .pure (by simpa using Statement.assign rfl isAssign bound)
    | store =>
      refine .next validAhead fewerAhead ((predictive_expect n .storeOpen opening).bind ?_)
      rintro _ opening - ⟨rfl, opens⟩
      refine expressions.bind fun first a _ address => ?_
      refine (predictive_expect n .storeComma comma).bind ?_
      rintro _ comma - ⟨rfl, isComma⟩
      refine expressions.bind fun second v _ contents => ?_
      refine (predictive_expect n .storeClose closing).bind ?_
      rintro _ closing - ⟨rfl, closes⟩
      exact .pure (.store rfl opens address isComma contents closes)
    | goto =>
      refine .next validAhead fewerAhead (expressions.bind fun used e _ target => ?_)
      exact .pure (by simpa using Statement.goto rfl target)
    | assert =>
      refine .next validAhead fewerAhead (expressions.bind fun used e _ condition => ?_)
      exact .pure (by simpa using Statement.assert rfl condition)
    | ifWord =>
      refine .next validAhead fewerAhead (expressions.bind fun used c _ condition => ?_)
      refine (predictive_expect n .thenWord thenWord).bind ?_
      rintro _ thenWord - ⟨rfl, isThen⟩
      refine (predictive_accept n .goto).bind fun thenGoto _ _ thenOptional => ?_
      refine expressions.bind fun thenUsed t _ thenTarget => ?_
      refine (predictive_expect n .elseWord elseWord).bind ?_
      rintro _ elseWord - ⟨rfl, isElse⟩
      refine (predictive_accept n .goto).bind fun elseGoto _ _ elseOptional => ?_
      refine expressions.bind fun elseUsed e _ elseTarget => ?_
      have isIf : Token.kind ⟨.ifWord, lexeme, location, value⟩ = .ifWord := rfl
      have whole := Statement.branch isIf condition isThen
        (target_of_optional thenOptional thenTarget) isElse
        (target_of_optional elseOptional elseTarget)
      exact .pure (by simpa using whole)
    | _ => exact .refuse spellable rfl

/-- Statements one after the other predict. -/
theorem predictive_sequence (n : Nat) : Predictive n sequence Statements := by
  induction n with
  | zero => exact ⟨⟨[], [], nofun, .nil⟩, fun tokens _ fewer => absurd fewer (Nat.not_lt_zero _)⟩
  | succ n ih =>
    refine ⟨⟨[], [], nofun, .nil⟩, fun tokens valid fewer => ?_⟩
    cases tokens with
    | nil =>
      refine .ok [] [] [] rfl .nil fun others _ same => ?_
      obtain rfl := List.head?_eq_none_iff.mp same
      rfl
    | cons token ahead =>
      have first := (predictive_statement (n + 1)).predicts _ valid fewer
      have whole : PredictsAt
          (statement >>= fun first => sequence >>= fun others => pure (first :: others))
          Statements (token :: ahead) := by
        refine first.bind valid ?_ fun used s _ spelled => ih.bind fun used' ss _ others => ?_
        · intro used rest s split spelled
          have progress := List.length_pos_iff.mpr spelled.tokens_ne_nil
          rw [split, List.length_append] at fewer
          omega
        · exact .pure (by simpa using Statements.cons spelled others)
      refine whole.congr valid fun others validOthers same => ?_
      obtain ⟨behind, rfl⟩ := List.head?_eq_some_iff.mp same
      exact sequence_cons validOthers

/-- Programs predict. -/
theorem predictive_program (n : Nat) : Predictive n program Spells := by
  rw [program_eq]
  refine (predictive_sequence n).bind fun used found _ spelled => ?_
  exact .pure (by simpa [Spells] using spelled)

end FlatIL.Parser
