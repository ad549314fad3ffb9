import FlatIL.Operator
import FlatIL.Text.Decimal
import FlatIL.Text.Quoted
import FlatIL.Word

/-!
# Faults

A fault is a condition of the running program itself that ends its run.
-/

namespace FlatIL

/-- Why a run cannot go on. -/
inductive Fault where
  /-- A variable is read that was never bound. -/
  | undefinedVariable (name : String)
  /-- A memory cell is read that was never written. -/
  | unwrittenAddress (address : Word)
  /-- A word is divided by zero, by the operator given. -/
  | divideByZero (op : BinaryOp) (dividend : Word)
  /-- An input source is read after its last value. -/
  | inputExhausted (source : String) (count : Nat)
  /-- An input source is read that does not exist. -/
  | unknownSource (source : String) (available : List String)
  /-- A jump leads outside a program of the given size. -/
  | invalidTarget (target : Word) (size : Nat)
  /-- The condition of an assertion is zero. -/
  | assertionFailed (pc : Int)
  deriving DecidableEq, Repr

namespace Fault

/-- The name of the kind of a fault. -/
def kind : Fault → String
  | undefinedVariable _ => "UndefinedVariable"
  | unwrittenAddress _ => "MemoryFault"
  | divideByZero _ _ => "DivideByZero"
  | inputExhausted _ _ => "InputExhausted"
  | unknownSource _ _ => "UnknownInputSource"
  | invalidTarget _ _ => "InvalidJumpTarget"
  | assertionFailed _ => "AssertionFailure"

/-- The text of a fault. -/
def message : Fault → String
  | undefinedVariable name => "Variable '" ++ name ++ "' is not bound"
  | unwrittenAddress address => "Load from unwritten address " ++ Decimal.ofNat address.toNat
  | divideByZero op dividend => Decimal.ofNat dividend.toNat ++ " " ++ op.symbol ++ " 0"
  | inputExhausted source count =>
    "Input source '" ++ source ++ "' exhausted after " ++ Decimal.ofNat count ++ " values"
  | unknownSource source available =>
    "Input source '" ++ source ++ "' is not registered. Available: " ++ Text.quotedList available
  | invalidTarget target size =>
    "Jump target " ++ Decimal.ofNat target.toNat ++ " out of range (0.."
      ++ Decimal.ofInt (Int.ofNat size - 1) ++ ")"
  | assertionFailed pc => "Assertion failed at pc=" ++ Decimal.ofInt pc

/-- The kind and the text of a fault. -/
def description (fault : Fault) : String :=
  fault.kind ++ ": " ++ fault.message

end Fault

/-- Applies a binary operator. Sums, differences and products wrap; quotients and
remainders are unsigned and fault on a zero divisor; comparisons are unsigned. -/
def BinaryOp.apply (op : BinaryOp) (left right : Word) : Except Fault Word :=
  match op with
  | add => .ok (left + right)
  | sub => .ok (left - right)
  | mul => .ok (left * right)
  | div => if right = 0 then .error (.divideByZero .div left) else .ok (left / right)
  | mod => if right = 0 then .error (.divideByZero .mod left) else .ok (left % right)
  | eq => .ok (Word.ofBool (left == right))
  | ne => .ok (Word.ofBool (left != right))
  | lt => .ok (Word.ofBool (left < right))
  | le => .ok (Word.ofBool (left ≤ right))
  | and => .ok (left &&& right)
  | or => .ok (left ||| right)
  | xor => .ok (left ^^^ right)

/-- Applies a unary operator. -/
def UnaryOp.apply (op : UnaryOp) (operand : Word) : Word :=
  match op with
  | neg => -operand
  | not => ~~~operand
  | lnot => Word.ofBool (operand == 0)

end FlatIL
