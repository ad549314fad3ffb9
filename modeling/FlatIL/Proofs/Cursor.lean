import FlatIL.Parser.Cursor
import FlatIL.Proofs.Parser.Forward
import FlatIL.Proofs.Parser.Recursion

/-!
# The depth that a text needs

The parser with a cursor and the parser on tokens read the same. On a list with an end token there
is a depth for every text: with as many calls under way as that or more, the parser with a cursor
gives what the parser on tokens gives, and with fewer it is stopped for being too deep. The index
stays inside of the list either way, and the rounds come to an end.
-/

namespace FlatIL

namespace Cursor

/-! ## What a computation gives -/

variable {α β : Type}

/-- Two computations in order are carried out one after the other. -/
theorem run_bind (walk : Walk α) (after : α → Walk β) (tokens : List Token) (cursor : Cursor) :
    (walk >>= after).run tokens cursor =
      match walk.run tokens cursor with
      | (.ok a, moved) => (after a).run tokens moved
      | (.error mishap, moved) => (.error mishap, moved) := by
  have whole : (walk >>= after).run tokens cursor =
      ExceptT.bindCont after (walk.run tokens cursor).1 (walk.run tokens cursor).2
        tokens.toArray := rfl
  rw [whole]
  rcases walk.run tokens cursor with ⟨mishap | a, moved⟩ <;> rfl

/-- A computation goes on from what another gives. -/
theorem run_bind_ok {walk : Walk α} (after : α → Walk β) {tokens : List Token}
    {cursor moved : Cursor} {a : α} (ran : walk.run tokens cursor = (.ok a, moved)) :
    (walk >>= after).run tokens cursor = (after a).run tokens moved := by
  rw [run_bind, ran]

/-- A computation is stopped where another one is that it waits for. -/
theorem run_bind_error {walk : Walk α} (after : α → Walk β) {tokens : List Token}
    {cursor moved : Cursor} {mishap : Mishap}
    (ran : walk.run tokens cursor = (.error mishap, moved)) :
    (walk >>= after).run tokens cursor = (.error mishap, moved) := by
  rw [run_bind, ran]

/-- Where there is a token at the cursor, it is found. -/
theorem run_peek {tokens : List Token} {cursor : Cursor} {token : Token}
    (found : tokens[cursor.index]? = some token) :
    peek.run tokens cursor = (.ok token, cursor) := by
  have there : tokens.toArray[cursor.index]? = some token := by
    rw [List.getElem?_toArray, found]
  simp only [Walk.run, peek, ExceptT.run_mk, StateT.run, ReaderT.run, there]

/-- The cursor after a number of moves from the start of a list. -/
def upTo (count : Nat) : Cursor :=
  { index := count, earlier := (List.range count).reverse }

/-- One more move. -/
theorem next_upTo (count : Nat) : (upTo count).next = upTo (count + 1) := by
  rw [upTo, upTo, next, List.range_succ, List.reverse_append]
  rfl

/-- The cursor in front of the last tokens `ahead` of a body. -/
def facing (body ahead : List Token) : Cursor :=
  upTo (body.length - ahead.length)

/-- In front of the whole body, no token has been read. -/
theorem facing_self (body : List Token) : facing body body = {} := by
  rw [facing, Nat.sub_self]
  rfl

/-- Behind one more token. -/
theorem next_facing {body ahead : List Token} {token : Token} (last : token :: ahead <:+ body) :
    (facing body (token :: ahead)).next = facing body ahead := by
  have fits := last.length_le
  rw [List.length_cons] at fits
  rw [facing, next_upTo, facing, List.length_cons]
  congr 1
  omega

/-- `Splits tokens body stop`: the first end token of a list is `stop`, and `body` is what stands in
front of it. -/
structure Splits (tokens body : List Token) (stop : Token) : Prop where
  whole : ∃ behind, tokens = body ++ stop :: behind
  solid : ∀ token ∈ body, token.kind ≠ .eof
  ends : stop.kind = .eof

/-- What a parser gives, placed in a list of tokens, and the cursor in front of what it leaves. -/
def answer (body : List Token) (stop : Token) (outcome : Except Failure α × List Token) :
    Except Mishap α × Cursor :=
  (outcome.1.mapError fun failure => .refused (.ofFailure stop.location failure),
    facing body outcome.2)

/-- A parser fails only by refusing what it finds. -/
theorem refused_of_answer {stop : Token} {result : Except Failure α} {mishap : Mishap}
    (failed : (result.mapError fun failure => .refused (.ofFailure stop.location failure)) =
      .error mishap) : ∃ error, mishap = .refused error := by
  cases result with
  | ok a => cases failed
  | error failure => exact ⟨_, (Except.error.inj failed).symm⟩

/-- From in front of the tokens `ahead`, a computation gives what a parser gives if as many calls as
`enough` may be under way. If fewer may, it is stopped in front of some of these tokens. -/
structure Settles (tokens body : List Token) (stop : Token) (walk : Nat → Walk α)
    (ahead : List Token) (outcome : Except Failure α × List Token) (enough : Nat) : Prop where
  answers : ∀ depth, enough ≤ depth →
    (walk depth).run tokens (facing body ahead) = answer body stop outcome
  overflows : ∀ depth, depth < enough → ∃ left, left <:+ ahead ∧
    (walk depth).run tokens (facing body ahead) = (.error .tooDeep, facing body left)

/-- With the last tokens `ahead` of a body in front of the cursor, a computation gives what a parser
gives from some depth on. The parser leaves the last ones of these tokens. -/
def Gives (tokens body : List Token) (stop : Token) (walk : Nat → Walk α) (ahead : List Token)
    (outcome : Except Failure α × List Token) : Prop :=
  ahead <:+ body → outcome.2 <:+ ahead ∧
    ∃ enough, Settles tokens body stop walk ahead outcome enough

section

variable {tokens body ahead : List Token} {stop : Token}

namespace Splits

variable (splits : Splits tokens body stop)

include splits

/-- At the cursor is the first token ahead or the end token. -/
theorem run_peek (last : ahead <:+ body) :
    peek.run tokens (facing body ahead) = (.ok (ahead.head?.getD stop), facing body ahead) := by
  obtain ⟨used, rfl⟩ := last
  obtain ⟨behind, rfl⟩ := splits.whole
  refine Cursor.run_peek ?_
  rw [facing, upTo, List.length_append, Nat.add_sub_cancel, List.append_assoc,
    List.getElem?_append_right (Nat.le_refl _), Nat.sub_self]
  cases ahead <;> rfl

/-- The end token is of no other kind. -/
theorem kind_ne {kind : TokenKind} (inner : kind ≠ .eof) : stop.kind ≠ kind := by
  rw [splits.ends]
  exact inner.symm

/-- Looking at the first token ahead, or at the end token, moves nowhere. -/
theorem run_peek_bind (last : ahead <:+ body) (after : Token → Walk α) :
    (peek >>= after).run tokens (facing body ahead) =
      (after (ahead.head?.getD stop)).run tokens (facing body ahead) :=
  run_bind_ok _ (splits.run_peek last)

/-- Asking for the kind of a token moves nowhere. -/
theorem run_check_bind (last : ahead <:+ body) (kind : TokenKind) (after : Bool → Walk α) :
    (check kind >>= after).run tokens (facing body ahead) =
      (after (decide ((ahead.head?.getD stop).kind = kind))).run tokens (facing body ahead) := by
  rw [check, bind_assoc, splits.run_peek_bind last, pure_bind]

/-- Moving on from the end token moves nowhere. -/
theorem run_advance_bind_nil (last : [] <:+ body) (after : Token → Walk α) :
    (advance >>= after).run tokens (facing body []) = (after stop).run tokens (facing body []) := by
  rw [advance, bind_assoc, splits.run_peek_bind last]
  simp only [List.head?_nil, Option.getD_none, ne_eq, splits.ends, not_true, if_false, pure_bind]

/-- Moving on from a token ahead takes it off. -/
theorem run_advance_bind {token : Token} (last : token :: ahead <:+ body)
    (after : Token → Walk α) :
    (advance >>= after).run tokens (facing body (token :: ahead)) =
      (after token).run tokens (facing body ahead) := by
  have solid := splits.solid token (last.subset List.mem_cons_self)
  have moved : move.run tokens (facing body (token :: ahead)) = (.ok (), facing body ahead) := by
    rw [← next_facing last]
    rfl
  rw [advance, bind_assoc, splits.run_peek_bind last]
  simp only [List.head?_cons, Option.getD_some, ne_eq, solid, not_false_eq_true, if_true,
    bind_assoc, pure_bind]
  exact run_bind_ok _ moved

/-- A token that must stand there and does is taken off. -/
theorem run_expect_bind {token : Token} {kind : TokenKind} (last : token :: ahead <:+ body)
    (same : token.kind = kind) (expected : Expectation) (after : Token → Walk α) :
    (expect kind expected >>= after).run tokens (facing body (token :: ahead)) =
      (after token).run tokens (facing body ahead) := by
  rw [expect, bind_assoc, splits.run_check_bind last]
  simp only [List.head?_cons, Option.getD_some, same, decide_true, if_true]
  exact splits.run_advance_bind last after

/-- An optional token that stands there is taken off. -/
theorem run_accept_bind {token : Token} {kind : TokenKind} (last : token :: ahead <:+ body)
    (same : token.kind = kind) (after : Bool → Walk α) :
    (accept kind >>= after).run tokens (facing body (token :: ahead)) =
      (after true).run tokens (facing body ahead) := by
  rw [accept, bind_assoc, splits.run_check_bind last]
  simp only [List.head?_cons, Option.getD_some, same, decide_true, if_true, bind_assoc, pure_bind]
  exact splits.run_advance_bind last _

/-- Where an optional token does not stand, nothing is taken off. -/
theorem run_accept_bind_of_ne {kind : TokenKind} (last : ahead <:+ body)
    (other : (ahead.head?.getD stop).kind ≠ kind) (after : Bool → Walk α) :
    (accept kind >>= after).run tokens (facing body ahead) =
      (after false).run tokens (facing body ahead) := by
  rw [accept, bind_assoc, splits.run_check_bind last]
  simp only [other, decide_false, Bool.false_eq_true, if_false, pure_bind]

end Splits

namespace Settles

/-- A computation that calls another one needs one call more. -/
theorem call {walk : Nat → Walk α} {outcome : Except Failure α × List Token} {enough : Nat}
    (shallow : walk 0 = throw .tooDeep)
    (below : Settles tokens body stop (fun depth => walk (depth + 1)) ahead outcome enough) :
    Settles tokens body stop walk ahead outcome (enough + 1) := by
  constructor
  · intro depth allowed
    obtain ⟨less, rfl⟩ := Nat.exists_eq_add_of_le' allowed
    exact below.answers (less + enough) (Nat.le_add_left enough less)
  · intro depth few
    cases depth with
    | zero => exact ⟨ahead, List.suffix_refl ahead, by rw [shallow]; rfl⟩
    | succ depth => exact below.overflows depth (Nat.lt_of_succ_lt_succ few)

/-- What a computation calls needs one call less. -/
theorem of_call {walk : Nat → Walk α} {outcome : Except Failure α × List Token} {enough : Nat}
    (settles : Settles tokens body stop walk ahead outcome (enough + 1)) :
    Settles tokens body stop (fun depth => walk (depth + 1)) ahead outcome enough :=
  ⟨fun depth allowed => settles.answers (depth + 1) (Nat.succ_le_succ allowed),
    fun depth few => settles.overflows (depth + 1) (Nat.succ_lt_succ few)⟩

/-- What goes on as another computation needs what the other one needs. -/
theorem step {walk next : Nat → Walk α} {behind : List Token}
    {outcome : Except Failure α × List Token} {enough : Nat} (fewer : behind <:+ ahead)
    (same : ∀ depth,
      (walk depth).run tokens (facing body ahead) = (next depth).run tokens (facing body behind))
    (later : Settles tokens body stop next behind outcome enough) :
    Settles tokens body stop walk ahead outcome enough := by
  constructor
  · intro depth allowed
    rw [same depth, later.answers depth allowed]
  · intro depth few
    obtain ⟨left, inside, ran⟩ := later.overflows depth few
    exact ⟨left, inside.trans fewer, (same depth).trans ran⟩

/-- What makes no call needs no depth. -/
theorem flat {walk : Walk α} {outcome : Except Failure α × List Token}
    (ran : walk.run tokens (facing body ahead) = answer body stop outcome) :
    Settles tokens body stop (fun _ => walk) ahead outcome 0 :=
  ⟨fun _ _ => ran, fun _ few => absurd few (Nat.not_lt_zero _)⟩

/-- What is refused is not gone on from. -/
theorem bind_error {walk : Nat → Walk α} {failure : Failure} {rest : List Token} {enough : Nat}
    (first : Settles tokens body stop walk ahead (.error failure, rest) enough)
    (after : Nat → α → Walk β) :
    Settles tokens body stop (fun depth => walk depth >>= after depth) ahead
      (.error failure, rest) enough := by
  constructor
  · exact fun depth allowed => run_bind_error _ (first.answers depth allowed)
  · intro depth few
    obtain ⟨left, inside, ran⟩ := first.overflows depth few
    exact ⟨left, inside, run_bind_error _ ran⟩

/-- Two computations in order need what the one or the other needs. -/
theorem bind {walk : Nat → Walk α} {after : Nat → α → Walk β} {a : α} {rest : List Token}
    {outcome : Except Failure β × List Token} {enough more : Nat}
    (first : Settles tokens body stop walk ahead (.ok a, rest) enough) (shorter : rest <:+ ahead)
    (second : Settles tokens body stop (fun depth => after depth a) rest outcome more) :
    Settles tokens body stop (fun depth => walk depth >>= after depth) ahead outcome
      (max enough more) := by
  constructor
  · intro depth allowed
    have first := first.answers depth (Nat.le_trans (Nat.le_max_left enough more) allowed)
    have second := second.answers depth (Nat.le_trans (Nat.le_max_right enough more) allowed)
    exact (run_bind_ok _ first).trans second
  · intro depth few
    rcases Nat.lt_or_ge depth enough with less | met
    · obtain ⟨left, inside, ran⟩ := first.overflows depth less
      exact ⟨left, inside, run_bind_error _ ran⟩
    · have less : depth < more := by omega
      obtain ⟨left, inside, ran⟩ := second.overflows depth less
      exact ⟨left, inside.trans shorter, (run_bind_ok _ (first.answers depth met)).trans ran⟩

/-- What goes on without a call needs no more. -/
theorem bind_flat {walk : Nat → Walk α} {after : α → Walk β} {a : α} {rest : List Token}
    {outcome : Except Failure β × List Token} {enough : Nat}
    (first : Settles tokens body stop walk ahead (.ok a, rest) enough) (shorter : rest <:+ ahead)
    (ran : (after a).run tokens (facing body rest) = answer body stop outcome) :
    Settles tokens body stop (fun depth => walk depth >>= after) ahead outcome enough := by
  have later : Settles tokens body stop (fun _ => after a) rest outcome 0 := flat ran
  have both := first.bind shorter later
  rwa [Nat.max_zero] at both

variable (splits : Splits tokens body stop)

include splits

/-- Moving on from a token ahead needs no depth. -/
theorem pass {token : Token} {after : Nat → Token → Walk α}
    {outcome : Except Failure α × List Token} {enough : Nat} (last : token :: ahead <:+ body)
    (later : Settles tokens body stop (fun depth => after depth token) ahead outcome enough) :
    Settles tokens body stop (fun depth => Cursor.advance >>= after depth) (token :: ahead)
      outcome enough :=
  step (List.suffix_cons token ahead) (fun _ => splits.run_advance_bind last _) later

/-- Reading a token that must stand there and does needs no depth. -/
theorem expect {token : Token} {kind : TokenKind} {expected : Expectation}
    {after : Nat → Token → Walk α} {outcome : Except Failure α × List Token} {enough : Nat}
    (last : token :: ahead <:+ body) (same : token.kind = kind)
    (later : Settles tokens body stop (fun depth => after depth token) ahead outcome enough) :
    Settles tokens body stop (fun depth => Cursor.expect kind expected >>= after depth)
      (token :: ahead) outcome enough :=
  step (List.suffix_cons token ahead) (fun _ => splits.run_expect_bind last same expected _) later

end Settles

namespace Gives

/-- A computation that calls another one needs one call more. -/
theorem call {walk : Nat → Walk α} {outcome : Except Failure α × List Token}
    (shallow : walk 0 = throw .tooDeep)
    (below : Gives tokens body stop (fun depth => walk (depth + 1)) ahead outcome) :
    Gives tokens body stop walk ahead outcome := by
  intro last
  obtain ⟨shorter, enough, settles⟩ := below last
  exact ⟨shorter, enough + 1, settles.call shallow⟩

/-- What a computation gives may be shown where it stands. -/
theorem within {walk : Nat → Walk α} {outcome : Except Failure α × List Token}
    (gives : ahead <:+ body → Gives tokens body stop walk ahead outcome) :
    Gives tokens body stop walk ahead outcome :=
  fun last => gives last last

/-- What goes on as another computation gives what the other one gives. -/
theorem step {walk next : Nat → Walk α} {behind : List Token}
    {outcome : Except Failure α × List Token} (fewer : behind <:+ ahead)
    (same : ahead <:+ body → ∀ depth,
      (walk depth).run tokens (facing body ahead) = (next depth).run tokens (facing body behind))
    (later : Gives tokens body stop next behind outcome) :
    Gives tokens body stop walk ahead outcome := by
  intro last
  obtain ⟨shorter, enough, settles⟩ := later (fewer.trans last)
  exact ⟨shorter.trans fewer, enough, settles.step fewer (same last)⟩

/-- What makes no call needs no depth. -/
theorem flat {walk : Walk α} {outcome : Except Failure α × List Token}
    (shorter : outcome.2 <:+ ahead)
    (ran : walk.run tokens (facing body ahead) = answer body stop outcome) :
    Gives tokens body stop (fun _ => walk) ahead outcome :=
  fun _ => ⟨shorter, 0, .flat ran⟩

/-- A result without looking. -/
theorem pure (a : α) :
    Gives tokens body stop (fun _ => Pure.pure a) ahead ((Pure.pure a : Parser α) ahead) :=
  flat (List.suffix_refl ahead) rfl

/-- Two computations in order give what two parsers in order give. -/
theorem bind {walk : Nat → Walk α} {after : Nat → α → Walk β} {p : Parser α} {f : α → Parser β}
    (first : Gives tokens body stop walk ahead (p ahead))
    (second : ∀ a rest, p ahead = (.ok a, rest) → rest <:+ ahead →
      Gives tokens body stop (fun depth => after depth a) rest (f a rest)) :
    Gives tokens body stop (fun depth => walk depth >>= after depth) ahead ((p >>= f) ahead) := by
  intro last
  obtain ⟨shorter, enough, settles⟩ := first last
  simp only [Bind.bind]
  rcases outcome : p ahead with ⟨failure | a, rest⟩ <;> rw [outcome] at shorter settles
  · exact ⟨shorter, enough, settles.bind_error after⟩
  · obtain ⟨later, more, settlesAfter⟩ := second a rest outcome shorter (shorter.trans last)
    exact ⟨later.trans shorter, max enough more, settles.bind shorter settlesAfter⟩

/-- A token ahead is refused as it is. -/
theorem refuse {token : Token} (solid : token.kind ≠ .eof) (expected : Expectation) :
    Gives tokens body stop (fun _ => Cursor.refuse expected token) ahead
      ((Parser.fail (.unexpected expected (some token)) : Parser α) ahead) := by
  refine flat (List.suffix_refl ahead) ?_
  rw [Cursor.refuse, if_neg solid]
  rfl

/-- A checked part of a node is there or refused in the same way. -/
theorem checked (field : String) (part : Except Model.Problem α) :
    Gives tokens body stop (fun _ => Cursor.checked field part) ahead
      (Parser.checked field part ahead) := by
  cases part with
  | ok a => exact pure a
  | error problem => exact flat (List.suffix_refl ahead) rfl

variable (splits : Splits tokens body stop)

include splits

/-- The end token is refused as the end of the text. -/
theorem refuse_stop (expected : Expectation) :
    Gives tokens body stop (fun _ => Cursor.refuse expected stop) ahead
      ((Parser.fail (.unexpected expected none) : Parser α) ahead) := by
  refine flat (List.suffix_refl ahead) ?_
  rw [Cursor.refuse, if_pos splits.ends]
  rfl

/-- Looking at the first token ahead, or at the end token, moves nowhere. -/
theorem peek {after : Nat → Token → Walk α} {outcome : Except Failure α × List Token}
    (later : Gives tokens body stop (fun depth => after depth (ahead.head?.getD stop)) ahead
      outcome) :
    Gives tokens body stop (fun depth => Cursor.peek >>= after depth) ahead outcome :=
  step (List.suffix_refl ahead) (fun last _ => splits.run_peek_bind last _) later

/-- Asking for the kind of a token moves nowhere. -/
theorem check {kind : TokenKind} {after : Nat → Bool → Walk α}
    {outcome : Except Failure α × List Token} {answer : Bool}
    (is : decide ((ahead.head?.getD stop).kind = kind) = answer)
    (later : Gives tokens body stop (fun depth => after depth answer) ahead outcome) :
    Gives tokens body stop (fun depth => Cursor.check kind >>= after depth) ahead outcome := by
  refine step (List.suffix_refl ahead) (fun last depth => ?_) later
  rw [splits.run_check_bind last, is]

/-- Moving on from the end token moves nowhere. -/
theorem stay {after : Nat → Token → Walk α} {outcome : Except Failure α × List Token}
    (later : Gives tokens body stop (fun depth => after depth stop) [] outcome) :
    Gives tokens body stop (fun depth => Cursor.advance >>= after depth) [] outcome :=
  step (List.suffix_refl []) (fun last _ => splits.run_advance_bind_nil last _) later

/-- Moving on from a token ahead takes it off. -/
theorem pass {token : Token} {after : Nat → Token → Walk α}
    {outcome : Except Failure α × List Token}
    (later : Gives tokens body stop (fun depth => after depth token) ahead outcome) :
    Gives tokens body stop (fun depth => Cursor.advance >>= after depth) (token :: ahead)
      outcome :=
  step (List.suffix_cons token ahead) (fun last _ => splits.run_advance_bind last _) later

/-- Tokens ahead are not end tokens. -/
theorem of_solid {token : Token} {walk : Nat → Walk α} {outcome : Except Failure α × List Token}
    (gives : token.kind ≠ .eof → Gives tokens body stop walk (token :: ahead) outcome) :
    Gives tokens body stop walk (token :: ahead) outcome :=
  fun last => gives (splits.solid token (last.subset List.mem_cons_self)) last

/-- Moving on reads the next token, or nothing at the end of the text. -/
theorem advance {after : Nat → Token → Walk α} {f : Option Token → Parser α}
    (atEnd : ahead = [] → Gives tokens body stop (fun depth => after depth stop) [] (f none []))
    (inside : ∀ token rest, ahead = token :: rest → token.kind ≠ .eof →
      Gives tokens body stop (fun depth => after depth token) rest (f (some token) rest)) :
    Gives tokens body stop (fun depth => Cursor.advance >>= after depth) ahead
      ((Parser.next >>= f) ahead) := by
  cases ahead with
  | nil => exact stay splits (atEnd rfl)
  | cons token rest =>
    exact of_solid splits fun solid => pass splits (inside token rest rfl solid)

/-- An optional token is read in the same way. -/
theorem accept {kind : TokenKind} (inner : kind ≠ .eof) :
    Gives tokens body stop (fun _ => Cursor.accept kind) ahead (Parser.accept kind ahead) := by
  cases ahead with
  | nil => exact check splits (decide_eq_false (splits.kind_ne inner)) (pure false)
  | cons token rest =>
    rw [Parser.accept]
    by_cases same : token.kind = kind
    · rw [if_pos same]
      exact check splits (decide_eq_true same) (pass splits (pure true))
    · rw [if_neg same]
      exact check splits (decide_eq_false same) (pure false)

/-- A token that must stand there is read or refused in the same way. -/
theorem expect {kind : TokenKind} (inner : kind ≠ .eof) (expected : Expectation) :
    Gives tokens body stop (fun _ => Cursor.expect kind expected) ahead
      (Parser.expect kind expected ahead) := by
  cases ahead with
  | nil =>
    refine check splits (decide_eq_false (splits.kind_ne inner)) ?_
    exact peek splits (refuse_stop splits expected)
  | cons token rest =>
    rw [Parser.expect]
    by_cases same : token.kind = kind
    · rw [if_pos same]
      refine check splits (decide_eq_true same) ?_
      have read : Gives tokens body stop (fun _ => Cursor.advance >>= Pure.pure) (token :: rest)
          (.ok token, rest) := pass splits (pure token)
      simp only [bind_pure] at read
      exact read
    · rw [if_neg same]
      refine of_solid splits fun solid => check splits (decide_eq_false same) ?_
      exact peek splits (refuse solid expected)

/-! ## Expressions -/

/-- At the end of the text, a row of operators ends. -/
theorem row_nil (operand : Nat → Walk Expr) (level patience : Nat) (left : Expr) :
    Gives tokens body stop (fun depth => Cursor.row (operand depth) level (patience + 1) left) []
      (.ok left, []) := by
  simp only [Cursor.row]
  refine peek splits ?_
  have none : Parser.operatorAt (level + 1) stop = none := by
    simp [Parser.operatorAt, splits.ends, TokenKind.binaryOp?]
  simp only [List.head?_nil, Option.getD_none, none]
  exact pure left

end Gives

/-- A computation gives what a parser gives on fewer than `count` tokens. -/
def GivesBelow (tokens body : List Token) (stop : Token) (count : Nat) (walk : Nat → Walk α)
    (parser : Parser α) : Prop :=
  ∀ ahead, ahead.length < count → Gives tokens body stop walk ahead (parser ahead)

namespace GivesBelow

variable {count patience : Nat}

/-- An expression is the loosest level of operators. -/
theorem expression {parser : Parser Expr}
    (inner : GivesBelow tokens body stop count (binary patience · 0) parser) :
    GivesBelow tokens body stop count (Cursor.expression patience) parser := by
  intro ahead few
  refine .call (by simp only [Cursor.expression]) ?_
  simp only [Cursor.expression]
  exact inner ahead few

variable (splits : Splits tokens body stop)

include splits

/-- A row of operators is read to its end, within a bound and in as many rounds as allow for all
tokens ahead. -/
theorem row {level : Nat} {walk : Nat → Walk Expr} {operand : Parser Expr}
    (inner : GivesBelow tokens body stop count walk operand) {bound : Nat} {left : Expr}
    {ahead : List Token} (few : ahead.length < count) (enough : ahead.length ≤ bound)
    (patient : ahead.length < patience) :
    Gives tokens body stop (fun depth => Cursor.row (walk depth) level patience left) ahead
      (Parser.chainOnto (level + 1) operand bound left ahead) := by
  obtain ⟨patience, rfl⟩ := Nat.exists_eq_add_of_le' (Nat.zero_lt_of_lt patient)
  induction bound generalizing left ahead patience with
  | zero =>
    obtain rfl : ahead = [] := List.length_eq_zero_iff.mp (Nat.le_zero.mp enough)
    exact .row_nil splits walk level patience left
  | succ bound ih =>
    cases ahead with
    | nil => exact .row_nil splits walk level patience left
    | cons token rest =>
      rw [List.length_cons] at few enough patient
      simp only [Cursor.row]
      refine .peek splits ?_
      simp only [List.head?_cons, Option.getD_some]
      cases sign : Parser.operatorAt (level + 1) token with
      | none =>
        rw [Parser.chainOnto, sign]
        exact .pure left
      | some op =>
        rw [Parser.chainOnto_cons sign]
        refine .pass splits (.bind (inner rest (by omega)) fun right middle _ shorter => ?_)
        have fits := shorter.length_le
        obtain ⟨less, rfl⟩ := Nat.exists_eq_add_of_le' (show 1 ≤ patience by omega)
        exact ih (by omega) (by omega) less (by omega)

/-- A primary reads a token before the expressions inside it. -/
theorem primary {nested : Parser Expr}
    (inner : GivesBelow tokens body stop count (Cursor.expression patience) nested) :
    GivesBelow tokens body stop (count + 1) (Cursor.primary patience)
      (Parser.primary nested) := by
  intro ahead few
  refine .call (by simp only [Cursor.primary]) ?_
  simp only [Cursor.primary]
  rw [Parser.primary]
  refine .advance splits ?_ ?_
  · intro _
    rw [splits.ends]
    exact .refuse_stop splits .expression
  · rintro ⟨kind, lexeme, location, value⟩ rest rfl solid
    have fewer (middle : List Token) (shorter : middle <:+ rest) : middle.length < count := by
      have fits := shorter.length_le
      rw [List.length_cons] at few
      omega
    cases kind with
    | integer => exact .bind (.checked _ _) fun _ _ _ _ => .pure _
    | identifier => exact .bind (.checked _ _) fun _ _ _ _ => .pure _
    | load =>
      exact .bind (.expect splits (by decide) _) fun _ middle _ opened =>
        .bind (inner middle (fewer middle opened)) fun _ _ _ _ =>
          .bind (.expect splits (by decide) _) fun _ _ _ _ => .pure _
    | getInput =>
      refine .bind (.accept splits (by decide)) fun found _ _ _ => ?_
      cases found with
      | false => exact .pure _
      | true =>
        exact .bind (.expect splits (by decide) _) fun _ _ _ _ =>
          .bind (.expect splits (by decide) _) fun _ _ _ _ =>
            .bind (.checked _ _) fun _ _ _ _ => .pure _
    | leftParen =>
      exact .bind (inner rest (fewer rest (List.suffix_refl rest))) fun _ _ _ _ =>
        .bind (.expect splits (by decide) _) fun _ _ _ _ => .pure _
    | _ => exact .refuse solid .expression

/-- Unary operators are read one by one in front of an operand. -/
theorem unary {operand : Parser Expr}
    (inner : GivesBelow tokens body stop count (Cursor.primary patience) operand) :
    GivesBelow tokens body stop count (Cursor.unary patience) (Parser.unary operand) := by
  intro ahead few
  induction ahead with
  | nil =>
    refine .call (by simp only [Cursor.unary]) ?_
    simp only [Cursor.unary]
    refine .peek splits ?_
    simp only [List.head?_nil, Option.getD_none, splits.ends, TokenKind.unaryOp?]
    exact inner [] few
  | cons token ahead ih =>
    refine .call (by simp only [Cursor.unary]) ?_
    simp only [Cursor.unary]
    refine .peek splits ?_
    simp only [List.head?_cons, Option.getD_some]
    cases sign : token.kind.unaryOp? with
    | none =>
      rw [Parser.unary, sign]
      exact inner (token :: ahead) few
    | some op =>
      rw [Parser.unary_cons sign]
      exact .pass splits (.bind (ih (Nat.lt_of_succ_lt few)) fun _ _ _ _ => .pure _)

variable (patient : body.length < patience)

include patient

/-- The tightest levels of operators are read above an operand, in rows within a bound that allows
for all tokens but the first. -/
theorem level {bound : Nat} {operand : Parser Expr}
    (inner : GivesBelow tokens body stop count (Cursor.unary patience) operand)
    (consumes : operand.Consumes) (forward : operand.Forward) (enough : count ≤ bound + 2)
    {height : Nat} (few : height ≤ Parser.levels) :
    GivesBelow tokens body stop count (binary patience · (Parser.levels - height))
      (Parser.climb bound operand height) := by
  induction height with
  | zero =>
    intro ahead within
    refine .call (by simp only [binary]) ?_
    simp only [binary, Nat.sub_zero, if_true]
    exact inner ahead within
  | succ height ih =>
    have lower := ih (by omega)
    have up : Parser.levels - (height + 1) + 1 = Parser.levels - height := by omega
    have inside : Parser.levels - (height + 1) ≠ Parser.levels := by omega
    intro ahead within
    refine .call (by simp only [binary]) ?_
    simp only [binary, if_neg inside]
    rw [Parser.climb, Parser.chain_eq, ← up]
    rw [← up] at lower
    refine .within fun last => .bind (lower ahead within) fun left rest read shorter => ?_
    -- The first operand has taken a token, so the bound allows for the row behind it.
    have fewer := Parser.Consumes.climb bound consumes forward height ahead left rest read
    have fits := (shorter.trans last).length_le
    exact row splits lower (by omega) (by omega) (by omega)

/-- An expression that takes at most `size` tokens is read. -/
theorem boundedExpression (size : Nat) :
    GivesBelow tokens body stop (size + 1) (Cursor.expression patience)
      (Parser.boundedExpression size) := by
  induction size with
  | zero =>
    intro ahead few
    obtain rfl : ahead = [] := List.length_eq_zero_iff.mp (by omega)
    -- There is nothing to read, so whatever stands for the expressions inside is never asked for.
    have nested : GivesBelow tokens body stop 0 (Cursor.expression patience)
        (Parser.fail (.unexpected .expression none)) := fun _ none => nomatch none
    have read := level splits patient (unary splits (primary splits nested))
      (.unary (.primary (.fail _))) (.unary (.primary (.fail _))) (show 0 + 1 ≤ 0 + 2 by decide)
      (Nat.le_refl Parser.levels)
    exact expression read [] few
  | succ size ih =>
    have nested := Parser.Forward.boundedExpression size
    have read := level splits patient (unary splits (primary splits ih)) (.unary (.primary nested))
      (.unary (.primary nested)) (Nat.le_refl (size + 2)) (Nat.le_refl Parser.levels)
    exact expression read

end GivesBelow

namespace Gives

variable {patience : Nat} (splits : Splits tokens body stop)

include splits

/-- The end of the text is found or missed in the same way. -/
theorem expectEnd :
    Gives tokens body stop (fun _ => Cursor.expectEnd) ahead (Parser.expectEnd ahead) := by
  cases ahead with
  | nil => exact check splits (decide_eq_true splits.ends) (pure ())
  | cons token rest =>
    refine of_solid splits fun solid => check splits (decide_eq_false solid) ?_
    exact peek splits (refuse solid .endOfExpression)

variable (patient : body.length < patience)

include patient

/-- An expression is read in the same way. -/
theorem expression :
    Gives tokens body stop (Cursor.expression patience) ahead (Parser.expression ahead) :=
  GivesBelow.boundedExpression splits patient ahead.length ahead (Nat.lt_succ_self _)

/-- An expression with nothing behind it is read in the same way. -/
theorem wholeExpression :
    Gives tokens body stop (Cursor.wholeExpression patience) ahead
      (Parser.wholeExpression ahead) :=
  .bind (expression splits patient) fun _ _ _ _ => .bind (expectEnd splits) fun _ _ _ _ => .pure _

/-! ## Statements -/

/-- A statement is read in the same way. -/
theorem statement :
    Gives tokens body stop (Cursor.statement patience) ahead (Parser.statement ahead) := by
  refine .call rfl ?_
  simp only [Cursor.statement]
  rw [Parser.statement]
  refine advance splits ?_ ?_
  · intro _
    rw [splits.ends]
    exact refuse_stop splits .statement
  · rintro ⟨kind, lexeme, location, value⟩ rest rfl solid
    cases kind with
    | identifier =>
      exact .bind (expect splits (by decide) _) fun _ _ _ _ =>
        .bind (expression splits patient) fun _ _ _ _ =>
          .bind (checked _ _) fun _ _ _ _ => .pure _
    | store =>
      exact .bind (expect splits (by decide) _) fun _ _ _ _ =>
        .bind (expression splits patient) fun _ _ _ _ =>
          .bind (expect splits (by decide) _) fun _ _ _ _ =>
            .bind (expression splits patient) fun _ _ _ _ =>
              .bind (expect splits (by decide) _) fun _ _ _ _ => .pure _
    | goto => exact .bind (expression splits patient) fun _ _ _ _ => .pure _
    | assert => exact .bind (expression splits patient) fun _ _ _ _ => .pure _
    | ifWord =>
      exact .bind (expression splits patient) fun _ _ _ _ =>
        .bind (expect splits (by decide) _) fun _ _ _ _ =>
          .bind (accept splits (by decide)) fun _ _ _ _ =>
            .bind (expression splits patient) fun _ _ _ _ =>
              .bind (expect splits (by decide) _) fun _ _ _ _ =>
                .bind (accept splits (by decide)) fun _ _ _ _ =>
                  .bind (expression splits patient) fun _ _ _ _ => .pure _
    | _ => exact refuse solid .statement

omit patient in
/-- At the end of the text, no statements are added. -/
theorem statementsOnto_nil (one : Nat → Walk Stmt) (patience : Nat) (found : List Stmt) :
    Gives tokens body stop (fun depth => Cursor.statementsOnto (one depth) (patience + 1) found) []
      (.ok (found.reverse ++ []), []) := by
  simp only [Cursor.statementsOnto, List.append_nil]
  exact check splits (decide_eq_true splits.ends) (pure found.reverse)

/-- Statements are read to the end of the text, within a bound and in as many rounds as allow for
all tokens ahead. -/
theorem statementsOnto {rounds bound : Nat} {found : List Stmt} {ahead : List Token}
    (enough : ahead.length ≤ bound) (more : ahead.length < rounds) :
    Gives tokens body stop
      (fun depth => Cursor.statementsOnto (Cursor.statement patience depth) rounds found) ahead
      ((Parser.statements bound >>= fun others => Pure.pure (found.reverse ++ others)) ahead) := by
  obtain ⟨rounds, rfl⟩ := Nat.exists_eq_add_of_le' (Nat.zero_lt_of_lt more)
  induction bound generalizing found ahead rounds with
  | zero =>
    obtain rfl : ahead = [] := List.length_eq_zero_iff.mp (Nat.le_zero.mp enough)
    exact statementsOnto_nil splits _ rounds found
  | succ bound ih =>
    cases ahead with
    | nil => exact statementsOnto_nil splits _ rounds found
    | cons token rest =>
      refine of_solid splits fun solid => ?_
      simp only [Cursor.statementsOnto]
      rw [Parser.statements_bind_cons]
      refine check splits (decide_eq_false solid) (bind (statement splits patient) ?_)
      intro first middle read _
      have shorter := Parser.Consumes.statement _ _ _ read
      rw [List.length_cons] at enough more shorter
      obtain ⟨less, rfl⟩ := Nat.exists_eq_add_of_le' (show 1 ≤ rounds by omega)
      have later : Gives tokens body stop
          (fun depth => Cursor.statementsOnto (Cursor.statement patience depth) (less + 1)
            (first :: found)) middle
          ((Parser.statements bound >>= fun others =>
            Pure.pure ((first :: found).reverse ++ others)) middle) :=
        ih (by omega) less (by omega)
      simpa only [List.reverse_cons, List.append_assoc, List.singleton_append] using later

/-- A program is read in the same way. -/
theorem program :
    Gives tokens body stop (Cursor.program patience) ahead (Parser.program ahead) := by
  have same : (Parser.statements ahead.length >>= fun others => Pure.pure ([] ++ others)) ahead =
      Parser.sequence ahead := by
    simp only [Bind.bind, Parser.sequence]
    cases Parser.statements ahead.length ahead with
    | mk result rest => cases result <;> rfl
  refine .call rfl (.within fun last => ?_)
  have found : Gives tokens body stop
      (fun depth => Cursor.statementsOnto (Cursor.statement patience depth) patience []) ahead
      (Parser.sequence ahead) := by
    rw [← same]
    exact statementsOnto splits patient (Nat.le_refl ahead.length)
      (Nat.lt_of_le_of_lt last.length_le patient)
  rw [Parser.program_eq]
  simp only [Cursor.program]
  exact bind found fun _ _ _ _ => pure _

end Gives

end

end Cursor

end FlatIL
