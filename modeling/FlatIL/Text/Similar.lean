/-!
# Similar words

How similar two words are is measured by the characters they share: the longest run of
characters that both have, the first such run if there are several, and then the same
again to its left and to its right. Words are similar if the shared characters are at
least three fifths of all characters.
-/

namespace FlatIL.Text

/-- How many characters two words start with in common. -/
def commonStart : List Char → List Char → Nat
  | a :: as, b :: bs => if a = b then commonStart as bs + 1 else 0
  | _, _ => 0

/-- A run of characters that two words share, by where it starts in each. -/
structure SharedRun where
  left : Nat
  right : Nat
  size : Nat
  deriving DecidableEq, Repr

/-- The longer of two runs, the first if they are equally long. -/
def SharedRun.longer (first second : SharedRun) : SharedRun :=
  if first.size < second.size then second else first

/-- The longest shared run that starts at a given place of the first word, which is `as` from
there on; places in the second word count from `right`. -/
def longestAt (as : List Char) (left right : Nat) : List Char → SharedRun
  | [] => { left, right, size := 0 }
  | b :: bs =>
    let here : SharedRun := { left, right, size := commonStart as (b :: bs) }
    here.longer (longestAt as left (right + 1) bs)

/-- The longest shared run; places in the first word count from `left`. -/
def longestRun (left : Nat) (bs : List Char) : List Char → SharedRun
  | [] => { left, right := 0, size := 0 }
  | a :: as => (longestAt (a :: as) left 0 bs).longer (longestRun (left + 1) bs as)

/-- How many characters two words share, counted in at most `runs` runs in a row. -/
def sharedWithin : (runs : Nat) → List Char → List Char → Nat
  | 0, _, _ => 0
  | runs + 1, as, bs =>
    let run := longestRun 0 bs as
    if run.size = 0 then 0
    else
      run.size + sharedWithin runs (as.take run.left) (bs.take run.right)
        + sharedWithin runs (as.drop (run.left + run.size)) (bs.drop (run.right + run.size))

/-- How many characters two words share. -/
def shared (a b : String) : Nat :=
  sharedWithin a.length a.toList b.toList

/-- Whether two words are similar. -/
def isSimilar (a b : String) : Bool :=
  3 * (a.length + b.length) ≤ 10 * shared a b

/-- The words of a list that are similar to a word, in alphabetical order. -/
def similarTo (word : String) (words : List String) : List String :=
  (words.filter fun known => isSimilar known word).mergeSort fun a b => decide (a ≤ b)

end FlatIL.Text
