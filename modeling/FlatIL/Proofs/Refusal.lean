import FlatIL.Proofs.Render

/-!
# The first bad name is refused

A tree may hold any text as a name. Writing it down fails exactly if some name in it is none of the
language, and then the first such name is refused, in the order in which the names would be
written; otherwise the work list gives the text that plain recursion gives. Names are checked as the
text is put together, so how the checks of a whole tree end is put together from its parts.
-/

namespace FlatIL

namespace Render

/-! ## Outcomes -/

variable {ε : Type}

/-- How writing down a tree must end, given the names in it in the order they are written and its
text by plain recursion. -/
structure RefusesFirst (refuse : String → ε) (names : List String) (text : String)
    (result : Except ε String) : Prop where
  /-- It fails exactly if some name is none of the language. -/
  fails_iff : (∃ error, result = .error error) ↔ ∃ name ∈ names, Name.isName name = false
  /-- It refuses a name that is none, if all names in front of it are names of the language. -/
  first : ∀ before name behind, names = before ++ name :: behind →
    (∀ other ∈ before, Name.isName other = true) → Name.isName name = false →
    result = .error (refuse name)
  /-- It gives the text if all names are names of the language. -/
  written : (∀ name ∈ names, Name.isName name = true) → result = .ok text

/-- The refusal of the first name that is none of the language, or else the text. -/
def outcome (refuse : String → ε) (names : List String) (text : String) : Except ε String :=
  match names.find? fun name => !Name.isName name with
  | some name => .error (refuse name)
  | none => .ok text

variable {refuse : String → ε} {names others : List String} {text result : String}

/-- The first name that is none of the language is refused. -/
theorem outcome_of_first {before behind : List String} {name : String}
    (front : ∀ other ∈ before, Name.isName other = true) (foreign : Name.isName name = false) :
    outcome refuse (before ++ name :: behind) text = .error (refuse name) := by
  have found : (before ++ name :: behind).find? (fun name => !Name.isName name) = some name := by
    rw [List.find?_eq_some_iff_append]
    exact ⟨by simp [foreign], before, behind, rfl, by simpa using front⟩
  rw [outcome, found]

/-- The outcome is as it must be. -/
theorem refusesFirst_outcome (refuse : String → ε) (names : List String) (text : String) :
    RefusesFirst refuse names text (outcome refuse names text) := by
  have first (before : List String) (name : String) (behind : List String)
      (split : names = before ++ name :: behind)
      (front : ∀ other ∈ before, Name.isName other = true) (foreign : Name.isName name = false) :
      outcome refuse names text = .error (refuse name) := by
    rw [split]
    exact outcome_of_first front foreign
  cases found : names.find? fun name => !Name.isName name with
  | none =>
    have all : ∀ name ∈ names, Name.isName name = true := by
      simpa [List.find?_eq_none] using found
    have written : outcome refuse names text = .ok text := by rw [outcome, found]
    refine ⟨⟨?_, ?_⟩, first, fun _ => written⟩
    · rintro ⟨error, failed⟩
      cases written.symm.trans failed
    · rintro ⟨name, inside, foreign⟩
      rw [all name inside] at foreign
      cases foreign
  | some name =>
    have inside : name ∈ names := List.mem_of_find?_eq_some found
    have foreign : Name.isName name = false := by simpa using List.find?_some found
    refine ⟨⟨fun _ => ⟨name, inside, foreign⟩, fun _ => ⟨refuse name, ?_⟩⟩, first, fun all => ?_⟩
    · rw [outcome, found]
    · rw [all name inside] at foreign
      cases foreign

/-- Names that come later are looked at only if those in front of them are names of the
language. -/
theorem outcome_bind (names : List String) {after : String → Except ε String}
    (next : after text = outcome refuse others result) :
    (outcome refuse names text >>= after) = outcome refuse (names ++ others) result := by
  simp only [outcome, List.find?_append] at next ⊢
  cases names.find? (fun name => !Name.isName name) with
  | some name => rfl
  | none => exact next

/-- What is written around a text does not change what is refused. -/
theorem outcome_map (f : String → String) :
    (f <$> outcome refuse names text) = outcome refuse names (f text) := by
  simp only [outcome]
  cases names.find? (fun name => !Name.isName name) <;> rfl

/-- A refusal may be told in other words. -/
theorem mapError_outcome {ε' : Type} (f : ε → ε') (names : List String) (text : String) :
    (outcome refuse names text).mapError f = outcome (f ∘ refuse) names text := by
  simp only [outcome]
  cases names.find? (fun name => !Name.isName name) <;> rfl

/-- A single name is refused or written as it is. -/
theorem name_eq_outcome (text : String) : name text = outcome .badName [text] text := by
  cases named : Name.isName text <;> simp [name, outcome, named]

end Render

open Render (outcome outcome_bind outcome_map)

/-! ## Trees -/

/-- An expression is written down as its text, unless a name in it is refused. -/
theorem Expr.render_eq_outcome (e : Expr) : e.render = outcome .badName e.names e.text := by
  rw [render, traverse_eq_fold]
  induction e with
  | lit value => rfl
  | var name => exact Render.name_eq_outcome name
  | input source =>
    show Render.inputText <$> Render.name source = _
    rw [Render.name_eq_outcome, outcome_map]
    rfl
  | load address ih =>
    rw [fold, ih]
    exact outcome_map Render.loadText
  | unary op operand ih =>
    rw [fold, ih]
    exact outcome_map (Render.unaryText op operand.precedence)
  | binary op left right ihLeft ihRight =>
    rw [fold, ihLeft, ihRight]
    refine outcome_bind _ ?_
    exact outcome_map (Render.binaryText op left.precedence right.precedence left.text)

/-- A statement is written down as its text, unless a name in it is refused. -/
theorem Stmt.render_eq_outcome (s : Stmt) : s.render = outcome .badName s.names s.text := by
  cases s with
  | assign target value =>
    rw [render, Render.name_eq_outcome, Expr.render_eq_outcome]
    refine outcome_bind [target] ?_
    exact outcome_map (target ++ " := " ++ ·)
  | store address value =>
    rw [render, Expr.render_eq_outcome, Expr.render_eq_outcome]
    refine outcome_bind _ ?_
    exact outcome_map ("store(" ++ address.text ++ ", " ++ · ++ ")")
  | goto target =>
    rw [render, Expr.render_eq_outcome]
    exact outcome_map ("goto " ++ ·)
  | assert condition =>
    rw [render, Expr.render_eq_outcome]
    exact outcome_map ("assert " ++ ·)
  | branch condition thenTarget elseTarget =>
    rw [render, Expr.render_eq_outcome, Expr.render_eq_outcome, Expr.render_eq_outcome, names,
      List.append_assoc]
    refine outcome_bind _ (outcome_bind _ ?_)
    exact outcome_map ("if " ++ condition.text ++ " then goto " ++ thenTarget.text ++
      " else goto " ++ ·)

/-- Statements are written down as their lines, unless a name in them is refused. -/
theorem Stmt.renderLines_eq_outcome (ss : List Stmt) :
    renderLines ss = outcome .badName (ss.flatMap names) (textLines ss) := by
  induction ss with
  | nil => rfl
  | cons first others ih =>
    rw [renderLines, Stmt.render_eq_outcome, ih, List.flatMap_cons]
    refine outcome_bind _ ?_
    exact outcome_map (first.text ++ "\n" ++ ·)

/-- The names in a program in the order they are written. -/
def Program.names (p : Program) : List String :=
  p.statements.flatMap Stmt.names

/-- A program is written down as its lines, unless a name in it is refused. -/
theorem Program.render_eq_outcome (p : Program) :
    p.render = outcome .badName p.names (Stmt.textLines p.statements) :=
  Stmt.renderLines_eq_outcome p.statements

end FlatIL
