import FlatIL.Proofs.Decimal
import FlatIL.Proofs.Fault

/-!
# Messages on one line

The text of a fault of a well-formed statement has no line break, whatever the names of the input
sources are: names of the language have none, numerals have none, and quoting replaces those of any
other text.
-/

namespace FlatIL

namespace Text

/-- A text without a line break. -/
def InLine (text : String) : Prop :=
  '\n' ∉ text.toList

/-- Being on one line can be decided. -/
instance (text : String) : Decidable (InLine text) :=
  inferInstanceAs (Decidable ('\n' ∉ text.toList))

/-- Two texts on one line stay on one line together. -/
theorem InLine.append {front back : String} (first : InLine front) (second : InLine back) :
    InLine (front ++ back) := by
  rw [InLine, String.toList_append, List.mem_append, not_or]
  exact ⟨first, second⟩

/-- The numeral of a number is on one line. -/
theorem inLine_ofNat (n : Nat) : InLine (Decimal.ofNat n) := by
  rw [InLine, Decimal.ofNat, String.toList_ofList]
  intro inside
  exact absurd (Decimal.isDigit_of_mem_digits n _ inside) (by decide)

/-- The numeral of an integer is on one line. -/
theorem inLine_ofInt (n : Int) : InLine (Decimal.ofInt n) := by
  cases n with
  | ofNat n => exact inLine_ofNat n
  | negSucc n => exact .append (by decide) (inLine_ofNat (n + 1))

/-- A name is on one line. -/
theorem inLine_of_isName {name : String} (named : Name.isName name = true) : InLine name :=
  fun inside => absurd (Name.isPart_of_mem named inside) (by decide)

/-- A hexadecimal digit is no line break. -/
theorem newline_ne_digitChar (n : Nat) : '\n' ≠ Nat.digitChar (n % 16) := by
  have table : ∀ n < 16, '\n' ≠ Nat.digitChar n := by decide
  exact table (n % 16) (Nat.mod_lt n (by decide))

/-- A code is on one line. -/
theorem newline_notMem_hex (width n : Nat) : '\n' ∉ hex width n := by
  induction width generalizing n with
  | zero => simp [hex]
  | succ width ih =>
    rw [hex, List.mem_append, List.mem_singleton, not_or]
    exact ⟨ih (n / 16), newline_ne_digitChar n⟩

/-- A character is written on one line, between quotes that are no line breaks. -/
theorem newline_notMem_escape {quote : Char} (solid : '\n' ≠ quote) (c : Char) :
    '\n' ∉ escape quote c := by
  have code (mark : Char) (width : Nat) (apart : '\n' ≠ mark) :
      '\n' ∉ '\\' :: mark :: hex width c.toNat := by
    simp [apart, newline_notMem_hex]
  unfold escape
  split
  · next isSpecial =>
    have special : c = quote ∨ c = '\\' := by simpa using isSpecial
    rcases special with rfl | rfl
    · simpa using solid
    · decide
  split
  · decide
  split
  · decide
  split
  · decide
  split
  · next noBreak _ _ _ =>
    rw [List.mem_singleton]
    rintro rfl
    exact noBreak rfl
  split
  · exact code 'x' 2 (by decide)
  split
  · exact code 'u' 4 (by decide)
  · exact code 'U' 8 (by decide)

/-- A quoted text is on one line. -/
theorem inLine_quoted (text : String) : InLine (quoted text) := by
  have solid : '\n' ≠ quoteFor text.toList := by
    unfold quoteFor
    split <;> decide
  simp only [InLine, quoted, String.toList_ofList, List.mem_append, List.mem_cons,
    List.mem_flatMap, List.not_mem_nil, or_false, not_or, not_exists, not_and]
  exact ⟨⟨solid, fun c _ => newline_notMem_escape solid c⟩, solid⟩

/-- Texts on one line stay on one line when they are joined by one. -/
theorem InLine.intercalate {separator : String} (between : InLine separator)
    {texts : List String} (each : ∀ text ∈ texts, InLine text) :
    InLine (separator.intercalate texts) := by
  induction texts with
  | nil => simp [InLine]
  | cons text texts ih =>
    obtain ⟨first, others⟩ := List.forall_mem_cons.mp each
    cases texts with
    | nil =>
      rw [String.intercalate_singleton]
      exact first
    | cons next texts =>
      rw [String.intercalate_cons_cons]
      exact .append (.append first between) (ih others)

/-- Quoted texts in brackets are on one line. -/
theorem inLine_quotedList (texts : List String) : InLine (quotedList texts) := by
  have listed : InLine (", ".intercalate (texts.map quoted)) := by
    refine InLine.intercalate (by decide) ?_
    intro text inside
    obtain ⟨original, -, rfl⟩ := List.mem_map.mp inside
    exact inLine_quoted original
  exact .append (.append (by decide) listed) (by decide)

end Text

open Text

/-- The names in a well-formed expression are names. -/
theorem Expr.WellFormed.isName {e : Expr} (wellFormed : e.WellFormed) :
    ∀ name ∈ e.names, Name.isName name = true := by
  induction e with
  | lit value => exact nofun
  | var x => exact fun name inside => List.mem_singleton.mp inside ▸ wellFormed
  | load e ih | unary op e ih => exact ih wellFormed
  | binary op left right ihLeft ihRight =>
    exact List.forall_mem_append.mpr ⟨ihLeft wellFormed.1, ihRight wellFormed.2⟩
  | input source => exact fun name inside => List.mem_singleton.mp inside ▸ wellFormed

/-- The names in a well-formed statement are names. -/
theorem Stmt.WellFormed.isName {stmt : Stmt} (wellFormed : stmt.WellFormed) :
    ∀ name ∈ stmt.names, Name.isName name = true := by
  cases stmt with
  | assign target value => exact List.forall_mem_cons.mpr ⟨wellFormed.1, wellFormed.2.isName⟩
  | store address value =>
    exact List.forall_mem_append.mpr ⟨wellFormed.1.isName, wellFormed.2.isName⟩
  | goto target => exact Expr.WellFormed.isName wellFormed
  | assert condition => exact Expr.WellFormed.isName wellFormed
  | branch condition thenTarget elseTarget =>
    exact List.forall_mem_append.mpr
      ⟨List.forall_mem_append.mpr ⟨wellFormed.1.isName, wellFormed.2.1.isName⟩,
        wellFormed.2.2.isName⟩

/-- The name of the kind of a fault is on one line. -/
theorem Fault.inLine_kind (fault : Fault) : InLine fault.kind := by
  unfold kind
  split <;> decide

/-- The text of a fault of a well-formed statement is on one line. -/
theorem Stmt.Raises.inLine_message {size : Nat} {pc : Int} {stmt : Stmt} {fault : Fault}
    (raises : stmt.Raises size pc fault) (wellFormed : stmt.WellFormed) : InLine fault.message := by
  have named {name : String} (inside : name ∈ stmt.names) : InLine name :=
    inLine_of_isName (wellFormed.isName name inside)
  cases raises with
  | evaluating raised =>
    cases raised with
    | undefinedVariable inside => exact .append (.append (by decide) (named inside)) (by decide)
    | unwrittenAddress address => exact .append (by decide) (inLine_ofNat _)
    | divideByZero op dividend =>
      have symbol : InLine op.symbol := by cases op <;> decide
      exact .append (.append (.append (inLine_ofNat _) (by decide)) symbol) (by decide)
    | inputExhausted inside count =>
      exact .append (.append (.append (.append (by decide) (named inside)) (by decide))
        (inLine_ofNat count)) (by decide)
    | unknownSource inside available =>
      exact .append (.append (.append (by decide) (named inside)) (by decide))
        (inLine_quotedList available)
  | jumping jumps target =>
    exact .append (.append (.append (.append (by decide) (inLine_ofNat _)) (by decide))
      (inLine_ofInt _)) (by decide)
  | asserting jumps => exact .append (by decide) (inLine_ofInt pc)

end FlatIL
