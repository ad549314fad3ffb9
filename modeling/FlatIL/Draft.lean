import FlatIL.Json
import FlatIL.NodeForm
import FlatIL.Program

/-!
# Drafts

A draft is a tree that nobody has checked: a node has a form, a tag that may differ
from its form, and fields that hold other drafts or plain values, with any text as
a name or operator. Writing a draft down goes by the forms of its nodes, executing
it goes by their tags.
-/

namespace FlatIL

/-- An unchecked tree. -/
inductive Draft where
  /-- A value that is no node. -/
  | plain (value : Json)
  /-- A node with its fields. -/
  | node (form : NodeForm) (tag : String) (fields : List (String × Draft))

namespace Draft

instance : Inhabited Draft := ⟨plain .null⟩

/-- The first field with a given name. -/
def lookup (name : String) : List (String × Draft) → Option Draft
  | [] => none
  | (key, value) :: fields => if key = name then some value else lookup name fields

/-- A field of a node; plain values have none. -/
def field? (name : String) : Draft → Option Draft
  | node _ _ fields => lookup name fields
  | plain _ => none

/-- The tag of a node. -/
def tag? : Draft → Option String
  | node _ tag _ => some tag
  | plain _ => none

/-- The text of a plain value as it appears in messages and programs. -/
def plainText : Json → String
  | .null => "None"
  | .bool flag => if flag then "True" else "False"
  | .int n => Decimal.ofInt n
  | .str text => text
  | other => other.typeName

/-- A field that holds a plain value. -/
def plainField? (name : String) (draft : Draft) : Option Json :=
  match draft.field? name with
  | some (plain value) => some value
  | _ => none

/-- A field that holds a text, or another plain value as a text. -/
def textField (name : String) (draft : Draft) : String :=
  ((draft.plainField? name).map plainText).getD ""

/-- A draft found among fields is smaller than the fields. -/
theorem sizeOf_lookup_lt {name : String} {fields : List (String × Draft)} {value : Draft}
    (found : lookup name fields = some value) : sizeOf value < sizeOf fields := by
  induction fields with
  | nil => simp [lookup] at found
  | cons entry fields ih =>
    obtain ⟨key, first⟩ := entry
    simp only [lookup] at found
    split at found
    · obtain rfl := Option.some.inj found
      simp only [List.cons.sizeOf_spec, Prod.mk.sizeOf_spec]
      omega
    · have := ih found
      simp only [List.cons.sizeOf_spec]
      omega

/-- A field is smaller than the node that holds it. -/
theorem sizeOf_field?_lt {name : String} {draft value : Draft}
    (found : draft.field? name = some value) : sizeOf value < sizeOf draft := by
  cases draft with
  | node form tag fields =>
    have := sizeOf_lookup_lt (show lookup name fields = some value from found)
    simp only [node.sizeOf_spec]
    omega
  | plain _ => simp [field?] at found

/-- Two fields together are smaller than the fields that both are among. -/
theorem sizeOf_lookup_add_lt {name other : String} {fields : List (String × Draft)}
    {value further : Draft} (apart : name ≠ other) (found : lookup name fields = some value)
    (foundOther : lookup other fields = some further) :
    sizeOf value + sizeOf further < sizeOf fields := by
  induction fields with
  | nil => simp [lookup] at found
  | cons entry fields ih =>
    obtain ⟨key, first⟩ := entry
    simp only [lookup] at found foundOther
    simp only [List.cons.sizeOf_spec, Prod.mk.sizeOf_spec]
    by_cases here : key = name
    · rw [if_pos here] at found
      rw [if_neg (here ▸ apart)] at foundOther
      have := sizeOf_lookup_lt foundOther
      obtain rfl := Option.some.inj found
      omega
    · rw [if_neg here] at found
      by_cases there : key = other
      · rw [if_pos there] at foundOther
        have := sizeOf_lookup_lt found
        obtain rfl := Option.some.inj foundOther
        omega
      · rw [if_neg there] at foundOther
        have := ih found foundOther
        omega

/-- Two fields together are smaller than the node that holds both. -/
theorem sizeOf_field?_add_lt {name other : String} {draft value further : Draft}
    (apart : name ≠ other) (found : draft.field? name = some value)
    (foundOther : draft.field? other = some further) :
    sizeOf value + sizeOf further < sizeOf draft := by
  cases draft with
  | node form tag fields =>
    have := sizeOf_lookup_add_lt apart (show lookup name fields = some value from found)
      (show lookup other fields = some further from foundOther)
    simp only [node.sizeOf_spec]
    omega
  | plain _ => simp [field?] at found

end Draft

end FlatIL
