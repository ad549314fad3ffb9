import FlatIL.Proofs.Cursor
import Mathlib.Data.List.TakeWhile

/-!
# Calls of one parser

A parser may be asked for programs, statements, expressions and the end of the text, in any order
and as often as one likes. It goes on from where it stopped, also if it refused what it found there
or if it was stopped for being too deep. Whatever the tokens in front of the last one are and
however few calls may be under way, every call comes to an end, and the cursor goes through the
tokens one by one and stops at the first end token at the latest. -/

namespace FlatIL

/-- What a parser can be asked for. -/
inductive Call where
  | program
  | statement
  | expression
  /-- The end of the text. -/
  | expectEnd
  deriving DecidableEq, Repr

/-- What a parser gives when it is asked. -/
inductive Parsed where
  | program (p : Program)
  | statement (s : Stmt)
  | expression (e : Expr)
  | nothing

namespace Call

/-- The parser that is called. -/
def parser : Call → Parser Parsed
  | program => return .program (← Parser.program)
  | statement => return .statement (← Parser.statement)
  | expression => return .expression (← Parser.expression)
  | expectEnd => do
    Parser.expectEnd
    return .nothing

/-- The parser with a cursor that is called. -/
def walk (call : Call) (patience depth : Nat) : Cursor.Walk Parsed :=
  match call with
  | program => return .program (← Cursor.program patience depth)
  | statement => return .statement (← Cursor.statement patience depth)
  | expression => return .expression (← Cursor.expression patience depth)
  | expectEnd => do
    Cursor.expectEnd
    return .nothing

/-- Both parsers do the same, if the depth is enough. -/
theorem gives {tokens body ahead : List Token} {stop : Token} {patience : Nat}
    (splits : Cursor.Splits tokens body stop) (patient : body.length < patience) (call : Call) :
    Cursor.Gives tokens body stop (call.walk patience) ahead (call.parser ahead) := by
  cases call with
  | program => exact .bind (.program splits patient) fun _ _ _ _ => .pure _
  | statement => exact .bind (.statement splits patient) fun _ _ _ _ => .pure _
  | expression => exact .bind (.expression splits patient) fun _ _ _ _ => .pure _
  | expectEnd => exact .bind (.expectEnd splits) fun _ _ _ _ => .pure _

/-- A call for a statement or an expression that succeeds has read a token. -/
theorem consumes {call : Call} (one : call = .statement ∨ call = .expression) :
    call.parser.Consumes := by
  rcases one with rfl | rfl
  · exact .bind .statement fun _ => .pure _
  · exact .bind .expression fun _ => .pure _

/-- Asking for the end of the text moves nowhere. -/
theorem parser_expectEnd (ahead : List Token) : (expectEnd.parser ahead).2 = ahead := by
  cases ahead <;> rfl

end Call

namespace Call

/-- A call, where the cursor was before and after it, and what it gave. -/
structure Record where
  call : Call
  before : Cursor
  result : Except Cursor.Mishap Parsed
  after : Cursor

/-- Calls the parser on some tokens with the cursor somewhere. -/
def perform (patience depth : Nat) (tokens : List Token) (cursor : Cursor) (call : Call) : Record :=
  let (result, after) := (call.walk patience depth).run tokens cursor
  { call, before := cursor, result, after }

/-- Calls the parser over and over, always from where it stopped. -/
def performAll (patience depth : Nat) (tokens : List Token) : Cursor → List Call → List Record
  | _, [] => []
  | cursor, call :: calls =>
    let record := call.perform patience depth tokens cursor
    record :: performAll patience depth tokens record.after calls

/-- `record.Safe tokens`: a call did no harm and moved as it should. -/
structure Record.Safe (record : Record) (tokens : List Token) : Prop where
  /-- Wherever the parser looked there was a token. -/
  found : ∀ index, record.result ≠ .error (.outside index)
  /-- The rounds that were looked ahead were enough. -/
  ended : record.result ≠ .error .unending
  /-- The cursor did not move back. -/
  forward : record.before.index ≤ record.after.index
  /-- On its way, the cursor took one index after the other. -/
  gradual : record.after.earlier =
    (List.range' record.before.index (record.after.index - record.before.index)).reverse ++
      record.before.earlier
  /-- The cursor did not leave the list. -/
  inside : record.after.index < tokens.length
  /-- The cursor did not move past the first end token. -/
  stopped : record.after.index ≤ tokens.findIdx (·.kind = .eof)
  /-- A statement or an expression took a token. -/
  consumed : record.call = .statement ∨ record.call = .expression →
    ∀ parsed, record.result = .ok parsed → record.before.index < record.after.index
  /-- The end of the text took none. -/
  still : record.call = .expectEnd → record.after = record.before

end Call

namespace Cursor

/-- The way from one cursor to a later one. -/
theorem earlier_upTo {first last : Nat} (order : first ≤ last) :
    (upTo last).earlier =
      (List.range' first (last - first)).reverse ++ (upTo first).earlier := by
  obtain ⟨more, rfl⟩ := Nat.exists_eq_add_of_le order
  simp only [upTo, ← List.reverse_append, List.range_eq_range', Nat.add_sub_cancel_left]
  rw [← List.range'_append_1, Nat.zero_add]

namespace Splits

variable {tokens body : List Token} {stop : Token}

/-- A list that closes with an end token splits at its first one. -/
theorem exists_stop {last : Token} (closes : tokens.getLast? = some last)
    (ends : last.kind = .eof) :
    ∃ body stop, Splits tokens body stop ∧
      TokenStream.ofList? tokens = some { body, stop := stop.location } := by
  cases rest : tokens.dropWhile (·.kind ≠ .eof) with
  | nil =>
    have solid := List.dropWhile_eq_nil_iff.mp rest last (List.mem_of_getLast? closes)
    exact absurd ends (of_decide_eq_true solid)
  | cons stop behind =>
    have first := List.head?_dropWhile_not (fun token : Token => token.kind ≠ .eof) tokens
    rw [rest] at first
    refine ⟨tokens.takeWhile (·.kind ≠ .eof), stop, ⟨⟨behind, ?_⟩, ?_, ?_⟩, ?_⟩
    · rw [← rest, List.takeWhile_append_dropWhile]
    · intro token inside
      simpa using List.mem_takeWhile_imp inside
    · simpa using first
    · simp only [TokenStream.ofList?, closes, ends, if_true, rest, List.head?_cons,
        Option.getD_some]

variable (splits : Splits tokens body stop)

include splits

/-- The first end token stands behind the body. -/
theorem findIdx_eq : tokens.findIdx (·.kind = .eof) = body.length := by
  obtain ⟨behind, rfl⟩ := splits.whole
  have none : body.findIdx (fun token : Token => token.kind = .eof) = body.length :=
    List.findIdx_eq_length.mpr fun token inside => decide_eq_false (splits.solid token inside)
  rw [List.findIdx_append, none, if_neg (Nat.lt_irrefl _), List.findIdx_cons,
    decide_eq_true splits.ends]
  exact Nat.zero_add _

/-- The body ends inside of the list. -/
theorem length_lt : body.length < tokens.length := by
  obtain ⟨behind, rfl⟩ := splits.whole
  simp

end Splits

end Cursor

namespace Call

variable {tokens body ahead : List Token} {stop : Token}

/-- What is on record of a call that goes from in front of the tokens `ahead` to in front of the
tokens `left`. -/
def recordAt (body ahead left : List Token) (call : Call)
    (result : Except Cursor.Mishap Parsed) : Record :=
  { call, before := .facing body ahead, result, after := .facing body left }

/-- A call that moves over tokens ahead is safe, if what it gives is in order. -/
theorem safe_recordAt {left : List Token} {call : Call} {result : Except Cursor.Mishap Parsed}
    (splits : Cursor.Splits tokens body stop) (last : ahead <:+ body) (forward : left <:+ ahead)
    (found : ∀ index, result ≠ .error (.outside index)) (ended : result ≠ .error .unending)
    (consumed : call = .statement ∨ call = .expression →
      ∀ parsed, result = .ok parsed → left.length < ahead.length)
    (still : call = .expectEnd → left = ahead) :
    (call.recordAt body ahead left result).Safe tokens := by
  have shorter := forward.length_le
  have fits := last.length_le
  have closed := splits.length_lt
  have order : body.length - ahead.length ≤ body.length - left.length := by omega
  constructor
  case found => exact found
  case ended => exact ended
  case forward => exact order
  case gradual => exact Cursor.earlier_upTo order
  case inside => exact Nat.lt_of_le_of_lt (Nat.sub_le _ _) closed
  case stopped => exact splits.findIdx_eq.symm ▸ Nat.sub_le _ _
  case consumed =>
    intro one parsed succeeded
    have progress := consumed one parsed succeeded
    simp only [recordAt, Cursor.facing, Cursor.upTo]
    omega
  case still =>
    intro asked
    rw [recordAt, still asked]

/-- Whatever the depth, one call comes to an end in front of tokens of the body and is safe. -/
theorem perform_safe {patience : Nat} (splits : Cursor.Splits tokens body stop)
    (patient : body.length < patience) (last : ahead <:+ body) (depth : Nat) (call : Call) :
    ∃ left result, left <:+ body ∧
      call.perform patience depth tokens (.facing body ahead) =
        call.recordAt body ahead left result ∧
      (call.recordAt body ahead left result).Safe tokens := by
  obtain ⟨shorter, enough, settles⟩ := gives splits patient call last
  rcases Nat.lt_or_ge depth enough with few | allowed
  · obtain ⟨left, inside, ran⟩ := settles.overflows depth few
    refine ⟨left, .error .tooDeep, inside.trans last, by rw [perform, ran]; rfl,
      safe_recordAt splits last inside nofun nofun nofun ?_⟩
    rintro rfl
    -- Asking for the end of the text calls nothing, so no depth is too little for it.
    have answers := settles.answers enough (Nat.le_refl enough)
    obtain ⟨error, refused⟩ := Cursor.refused_of_answer (congrArg Prod.fst (answers.symm.trans ran))
    cases refused
  · have ran := settles.answers depth allowed
    refine ⟨_, _, shorter.trans last, by rw [perform, ran]; rfl,
      safe_recordAt splits last shorter ?_ ?_ ?_ ?_⟩
    · intro index outside
      obtain ⟨error, refused⟩ := Cursor.refused_of_answer outside
      cases refused
    · intro unending
      obtain ⟨error, refused⟩ := Cursor.refused_of_answer unending
      cases refused
    · intro one parsed succeeded
      rcases outcome : call.parser ahead with ⟨failure | parsed', rest⟩
      · rw [outcome] at succeeded
        cases succeeded
      · exact consumes one ahead parsed' rest outcome
    · rintro rfl
      exact parser_expectEnd ahead

/-- Whatever the depth, calls one after the other are all on record and safe. -/
theorem performAll_records {patience : Nat} (splits : Cursor.Splits tokens body stop)
    (patient : body.length < patience) (last : ahead <:+ body) (depth : Nat) (calls : List Call) :
    (performAll patience depth tokens (.facing body ahead) calls).map Record.call = calls ∧
      ∀ record ∈ performAll patience depth tokens (.facing body ahead) calls,
        record.Safe tokens := by
  induction calls generalizing ahead with
  | nil => exact ⟨rfl, List.forall_mem_nil _⟩
  | cons call calls ih =>
    obtain ⟨left, result, inside, performed, safe⟩ :=
      perform_safe splits patient last depth call
    obtain ⟨listed, allSafe⟩ := ih inside
    rw [performAll, performed]
    exact ⟨congrArg (call :: ·) listed, List.forall_mem_cons.mpr ⟨safe, allSafe⟩⟩

end Call

/-- What calls give one after the other, and the tokens that each of them leaves. -/
def TokenStream.parseAll (stream : TokenStream) :
    List Call → List (Except ParseError Parsed × TokenStream)
  | [] => []
  | call :: calls =>
    let answer := stream.parse call.parser
    answer :: answer.2.parseAll calls

/-- A stream is parsed by what its tokens are parsed by, and failures are placed. -/
theorem TokenStream.parse_eq {α : Type} (stream : TokenStream) (parser : Parser α) :
    stream.parse parser =
      ((parser stream.body).1.mapError (.ofFailure stream.stop),
        { stream with body := (parser stream.body).2 }) := by
  rw [parse]
  rcases parser stream.body with ⟨failure | a, rest⟩ <;> rfl

namespace Call

variable {tokens body ahead : List Token} {stop : Token}

/-- With depth enough, calls from anywhere in front of the first end token give what the parser on
tokens gives. -/
theorem performAll_eq_parseAll {patience : Nat} (splits : Cursor.Splits tokens body stop)
    (patient : body.length < patience) (last : ahead <:+ body) (calls : List Call) :
    ∃ enough, ∀ depth, enough ≤ depth →
      (performAll patience depth tokens (.facing body ahead) calls).map
          (fun record => (record.result, record.after.index)) =
        (TokenStream.parseAll { body := ahead, stop := stop.location } calls).map
          (fun (result, left) =>
            (result.mapError Cursor.Mishap.refused, body.length - left.body.length)) := by
  induction calls generalizing ahead with
  | nil => exact ⟨0, fun _ _ => rfl⟩
  | cons call calls ih =>
    obtain ⟨shorter, enough, settles⟩ := gives splits patient call last
    obtain ⟨more, others⟩ := ih (shorter.trans last)
    refine ⟨max enough more, fun depth allowed => ?_⟩
    have performed := settles.answers depth (Nat.le_trans (Nat.le_max_left enough more) allowed)
    have placed (result : Except Failure Parsed) :
        result.mapError (fun failure => .refused (.ofFailure stop.location failure)) =
          (result.mapError (.ofFailure stop.location)).mapError Cursor.Mishap.refused := by
      cases result <;> rfl
    rw [performAll, perform, performed, List.map_cons, TokenStream.parseAll,
      TokenStream.parse_eq, List.map_cons, Cursor.answer, placed,
      others depth (Nat.le_trans (Nat.le_max_right enough more) allowed)]
    rfl

/-- Whatever a list of tokens is that closes with an end token, and whatever a parser is asked for
on it, one call after the other and also after it refused something or went too deep: every call
comes to an end and is safe, however few calls may be under way. With any depth from some on, every
call gives what the parser on tokens gives. -/
theorem performAll_safe {tokens : List Token} {last : Token}
    (closes : tokens.getLast? = some last) (ends : last.kind = .eof) (calls : List Call)
    {patience : Nat} (patient : tokens.length ≤ patience) :
    ∃ stream, TokenStream.ofList? tokens = some stream ∧
      (∀ depth, (performAll patience depth tokens {} calls).map Record.call = calls ∧
        ∀ record ∈ performAll patience depth tokens {} calls, record.Safe tokens) ∧
      ∃ enough, ∀ depth, enough ≤ depth →
        (performAll patience depth tokens {} calls).map
            (fun record => (record.result, record.after.index)) =
          (stream.parseAll calls).map (fun (result, left) =>
            (result.mapError .refused, stream.body.length - left.body.length)) := by
  obtain ⟨body, stop, splits, streamed⟩ := Cursor.Splits.exists_stop closes ends
  have patient : body.length < patience := Nat.lt_of_lt_of_le splits.length_lt patient
  refine ⟨_, streamed, fun depth => ?_, ?_⟩ <;> rw [← Cursor.facing_self body]
  · exact performAll_records splits patient (List.suffix_refl body) depth calls
  · exact performAll_eq_parseAll splits patient (List.suffix_refl body) calls

/-- The theorem at the tokens of `goto 1 )`, with an end token in front of a comma and of another
end token. With many calls a statement is read, what follows is neither the end nor a program, and
behind the parenthesis that was refused nothing is left to read. With four calls the parser is
stopped at the number, goes on from there, and is safe as well. -/
theorem performAll_safe_of_early_end :
    let tokens : List Token :=
      [{ kind := .goto, lexeme := "goto" }, { kind := .integer, lexeme := "1", value := .int 1 },
        { kind := .rightParen, lexeme := ")" }, TokenStream.endToken {},
        { kind := .comma, lexeme := "," }, TokenStream.endToken {}]
    let calls := [statement, expectEnd, program, expression, expectEnd]
    (∃ enough, ∀ depth, enough ≤ depth →
      (performAll 6 depth tokens {} calls).map (·.after.index) = [2, 2, 3, 3, 3]) ∧
      (performAll 6 4 tokens {} calls).map (·.after.index) = [1, 1, 2, 2, 2] ∧
      ∀ depth, ∀ record ∈ performAll 6 depth tokens {} calls, record.Safe tokens := by
  intro tokens calls
  have closes : tokens.getLast? = some (TokenStream.endToken {}) := rfl
  obtain ⟨stream, streamed, safe, enough, same⟩ :=
    performAll_safe closes rfl calls (show tokens.length ≤ 6 by decide)
  obtain rfl := Option.some.inj streamed
  refine ⟨⟨enough, fun depth allowed => ?_⟩, by decide, fun depth => (safe depth).2⟩
  have moves := congrArg (List.map Prod.snd) (same depth allowed)
  rw [List.map_map] at moves
  exact moves

end Call

end FlatIL
