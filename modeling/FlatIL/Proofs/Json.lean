import FlatIL.Json.Read
import FlatIL.Json.Write
import FlatIL.Proofs.Decimal

/-!
# JSON is read back

A value whose integers are short enough and that has no other numbers is read back from its
compact form, whatever follows that does not continue a number, exactly if its containers are
nested no deeper than is read. Nothing else in it is lost: not the order of fields, not the same
name given twice, and no character of a string.
-/

namespace FlatIL.Json

/-! ## Values that are read back -/

/-- A value that has no number with a fraction and no integer too long to be read. -/
inductive Legible : Json → Prop where
  | null : Legible null
  | bool (flag : Bool) : Legible (bool flag)
  | int {n : Int} (short : (Decimal.ofInt n).toList.length ≤ Decimal.digitLimit) : Legible (int n)
  | str (text : String) : Legible (str text)
  | arr {items : List Json} (all : ∀ item ∈ items, Legible item) : Legible (arr items)
  | obj {fields : List (String × Json)} (all : ∀ field ∈ fields, Legible field.2) :
      Legible (obj fields)

/-- A text that does not continue a number. -/
def Ends (rest : List Char) : Prop :=
  ∀ c ∈ rest.head?, c.isDigit = false ∧ c ≠ '.' ∧ c ≠ 'e' ∧ c ≠ 'E'

/-- A text that starts with what is not part of a number does not continue one. -/
theorem Ends.of_cons {c : Char} {cs : List Char}
    (apart : c.isDigit = false ∧ c ≠ '.' ∧ c ≠ 'e' ∧ c ≠ 'E') : Ends (c :: cs) := by
  intro d first
  obtain rfl := Option.some.inj first
  exact apart

/-- Nothing does not continue a number. -/
theorem Ends.nil : Ends [] := nofun

/-! ## Strings -/

/-- The four digits of a control character are its code. -/
theorem hexFour?_hex {n : Nat} (control : n < 32) :
    ∃ a b c d, Text.hex 4 n = [a, b, c, d] ∧ hexFour? a b c d = some n := by
  have table : ∀ n < 32, hexFour? '0' '0' (Nat.digitChar (n / 16)) (Nat.digitChar (n % 16)) =
      some n := by decide
  have high : n / 16 / 16 = 0 := by omega
  have low : n / 16 % 16 = n / 16 := by omega
  refine ⟨'0', '0', Nat.digitChar (n / 16), Nat.digitChar (n % 16), ?_, table n control⟩
  simp [Text.hex, high, low, Nat.digitChar]

/-- A character is read back from the way it is written inside a string. -/
theorem readString_escape (c : Char) (done rest : List Char) :
    readString done (escape c ++ rest) = readString (c :: done) rest := by
  have letter {l : Char} (plain : escaped? l = some c) (noCode : l ≠ 'u') :
      readString done ('\\' :: l :: rest) = readString (c :: done) rest := by
    rw [readString.eq_3 _ _ _ (fun _ _ _ _ _ isCode => absurd isCode noCode), plain]
  unfold escape
  split
  · next special =>
    rcases (by simpa using special : c = '\x22' ∨ c = '\\') with rfl | rfl
    · exact letter rfl (by decide)
    · exact letter rfl (by decide)
  split
  · next isFeed =>
    obtain rfl := eq_of_beq isFeed
    exact letter rfl (by decide)
  split
  · next isReturn =>
    obtain rfl := eq_of_beq isReturn
    exact letter rfl (by decide)
  split
  · next isTab =>
    obtain rfl := eq_of_beq isTab
    exact letter rfl (by decide)
  split
  · next isBack =>
    obtain rfl := eq_of_beq isBack
    exact letter rfl (by decide)
  split
  · next isForm =>
    obtain rfl := eq_of_beq isForm
    exact letter rfl (by decide)
  split
  · next control =>
    obtain ⟨w, x, y, z, written, code⟩ := hexFour?_hex control
    have high : isHighSurrogate c.toNat = false := by simp [isHighSurrogate]; omega
    have low : isLowSurrogate c.toNat = false := by simp [isLowSurrogate]; omega
    rw [written]
    simp only [List.cons_append, List.nil_append, readString.eq_2, code, high, low,
      Bool.false_eq_true, if_false, Char.ofNat_toNat]
  · next special _ _ _ _ _ control =>
    simp only [Bool.or_eq_true, beq_iff_eq, not_or] at special
    rw [List.singleton_append, readString.eq_4 _ _ _ special.1
      (fun _ _ _ _ _ isEscape => absurd isEscape special.2)
      (fun _ _ isEscape => absurd isEscape special.2)]
    simp [control, special.2]

/-- A string is read back up to its closing quote. -/
theorem readString_escaped (cs done rest : List Char) :
    readString done (cs.flatMap escape ++ '\x22' :: rest) =
      some (String.ofList (done.reverse ++ cs), rest) := by
  induction cs generalizing done with
  | nil => simp [readString]
  | cons c cs ih =>
    rw [List.flatMap_cons, List.append_assoc, readString_escape, ih]
    simp

/-! ## Numbers -/

/-- The digits in front of a text that does not go on with digits are all its leading digits. -/
theorem spanDigits_append {run rest : List Char} (all : ∀ c ∈ run, c.isDigit = true)
    (ends : Ends rest) : spanDigits (run ++ rest) = (run, rest) := by
  have stops : rest.takeWhile Char.isDigit = [] ∧ rest.dropWhile Char.isDigit = rest := by
    cases rest with
    | nil => simp
    | cons c cs => simp [(ends c rfl).1]
  rw [spanDigits, List.takeWhile_append_of_pos all, List.dropWhile_append_of_pos all, stops.1,
    stops.2, List.append_nil]

/-- The numeral of a number is read as a whole. -/
theorem readWhole?_digits (n : Nat) {rest : List Char} (ends : Ends rest) :
    readWhole? (Decimal.digits n ++ rest) = some (Decimal.digits n, rest) := by
  rcases Nat.eq_zero_or_pos n with rfl | positive
  · rw [show Decimal.digits 0 = ['0'] by rw [Decimal.digits]; rfl]
    rfl
  · have span := spanDigits_append (Decimal.isDigit_of_mem_digits n) ends
    have first := Decimal.head?_digits_ne_zero positive
    obtain ⟨c, cs, numeral⟩ := List.exists_cons_of_ne_nil (Decimal.digits_ne_nil n)
    rw [numeral] at span first ⊢
    have noZero : c ≠ '0' := first c rfl
    unfold readWhole?
    split
    · next leads => exact absurd (List.cons.inj leads).1 noZero
    · rw [span]

/-- No fraction is read in front of what does not continue a number. -/
theorem readFraction?_of_ends {rest : List Char} (ends : Ends rest) :
    readFraction? rest = some ([], rest) := by
  unfold readFraction?
  split
  · next after => exact absurd rfl (ends '.' rfl).2.1
  · rfl

/-- No exponent is read in front of what does not continue a number. -/
theorem readExponent?_of_ends {rest : List Char} (ends : Ends rest) :
    readExponent? rest = some (none, rest) := by
  cases rest with
  | nil => rfl
  | cons c cs =>
    obtain ⟨-, -, noLower, noUpper⟩ := ends c rfl
    simp [readExponent?, noLower, noUpper]

/-- The numeral of a number is read as that number under its sign. -/
theorem readUnsigned?_digits (negative : Bool) (n : Nat) {rest : List Char} (ends : Ends rest)
    (short : exceedsLimit negative (Decimal.digits n) = false) :
    readUnsigned? negative (Decimal.digits n ++ rest) =
      some (int (if negative then -Int.ofNat n else Int.ofNat n), rest) := by
  rw [readUnsigned?, readWhole?_digits n ends]
  simp only [bind, Option.bind, readFraction?_of_ends ends, readExponent?_of_ends ends, short,
    List.append_nil, Decimal.value_digits]
  rfl

/-! ## Values -/

/-- A digit differs from what is none. -/
theorem ne_of_isDigit {c d : Char} (isDigit : c.isDigit = true) (noDigit : d.isDigit = false) :
    c ≠ d := by
  rintro rfl
  rw [noDigit] at isDigit
  cases isDigit

/-- A text that starts with a digit is read as a number. -/
theorem readScalar?_of_digit {c : Char} {cs : List Char} (starts : c.isDigit = true) :
    readScalar? (c :: cs) = readUnsigned? false (c :: cs) := by
  have apart {d : Char} {rest : List Char} (noDigit : d.isDigit = false) : c :: cs ≠ d :: rest :=
    fun same => ne_of_isDigit starts noDigit (List.cons.inj same).1
  -- The last case of the reader, since a digit is none of the characters that decide the others.
  rw [readScalar?.eq_9]
  all_goals exact fun _ => apart (by decide)

/-- A text that starts with a minus sign and a digit is read as a negative number. -/
theorem readScalar?_of_minus {c : Char} {cs : List Char} (starts : c.isDigit = true) :
    readScalar? ('-' :: c :: cs) = readUnsigned? true (c :: cs) := by
  rw [readScalar?.eq_8]
  rintro _ same
  rw [(List.cons.inj same).1] at starts
  cases starts

/-- Neither white space nor the end of a container: what a value starts with. -/
structure Opens (c : Char) : Prop where
  solid : isGap c = false
  noBracket : c ≠ ']'
  noBrace : c ≠ '\x7d'

/-- Digits start values. -/
theorem Opens.of_digit {c : Char} (starts : c.isDigit = true) : Opens c := by
  have apart (d : Char) (noDigit : d.isDigit = false) : c ≠ d := ne_of_isDigit starts noDigit
  refine ⟨?_, apart _ (by decide), apart _ (by decide)⟩
  simp [isGap, apart ' ' (by decide), apart '\t' (by decide), apart '\n' (by decide),
    apart '\r' (by decide)]

/-- The text of a number starts with a sign or a digit. -/
theorem ofInt_cases (n : Int) :
    ∃ m, (n = Int.ofNat m ∧ (Decimal.ofInt n).toList = Decimal.digits m) ∨
      (n = -Int.ofNat m ∧ (Decimal.ofInt n).toList = '-' :: Decimal.digits m) := by
  cases n with
  | ofNat m => exact ⟨m, .inl ⟨rfl, by simp [Decimal.ofInt, Decimal.ofNat]⟩⟩
  | negSucc m => exact ⟨m + 1, .inr ⟨rfl, by simp [Decimal.ofInt, Decimal.ofNat]⟩⟩

/-- A value that is read back starts with what a value starts with. -/
theorem Legible.opens {json : Json} (legible : json.Legible) :
    ∃ c cs, json.compact.toList = c :: cs ∧ Opens c := by
  cases legible with
  | null => exact ⟨'n', _, rfl, by decide, by decide, by decide⟩
  | bool flag =>
    cases flag with
    | true => exact ⟨'t', _, rfl, by decide, by decide, by decide⟩
    | false => exact ⟨'f', _, rfl, by decide, by decide, by decide⟩
  | @int n short =>
    obtain ⟨m, ⟨-, written⟩ | ⟨-, written⟩⟩ := ofInt_cases n
    · obtain ⟨c, cs, numeral⟩ := List.exists_cons_of_ne_nil (Decimal.digits_ne_nil m)
      have isDigit : c.isDigit = true :=
        Decimal.isDigit_of_mem_digits m c (numeral ▸ List.mem_cons_self)
      exact ⟨c, cs, by rw [compact, written, numeral], .of_digit isDigit⟩
    · exact ⟨'-', _, by rw [compact, written], by decide, by decide, by decide⟩
  | str text => exact ⟨'\x22', _, by rw [compact, writeString, String.toList_ofList]; rfl,
      by decide, by decide, by decide⟩
  | arr all => exact ⟨'[', _, by rw [compact, String.append_assoc, String.toList_append]; rfl,
      by decide, by decide, by decide⟩
  | obj all => exact ⟨'\x7b', _, by rw [compact, String.append_assoc, String.toList_append]; rfl,
      by decide, by decide, by decide⟩

/-- Reads what a value holds that is read down to a depth. -/
def readNested? : Nat → List Char → Option (Json × List Char)
  | 0 => fun _ => none
  | depth + 1 => readValue? depth

/-- A value is empty or holds what is read down to one depth less. -/
theorem readValue?_eq (depth : Nat) : readValue? depth = readWith? (readNested? depth) := by
  cases depth <;> rfl

/-- A reader gives a value back from its compact form if the value fits, and refuses it if not. -/
def GivesBack (reader : List Char → Option (Json × List Char)) (fits : Prop) [Decidable fits]
    (json : Json) : Prop :=
  ∀ rest, Ends rest →
    reader (json.compact.toList ++ rest) = if fits then some (json, rest) else none

/-- White space is skipped only where there is some. -/
theorem skipGap_cons {c : Char} (solid : isGap c = false) (cs : List Char) :
    skipGap (c :: cs) = c :: cs := by
  rw [skipGap, List.dropWhile_cons_of_neg (by simp [solid])]

/-- No white space is in front of a value that is read back. -/
theorem Legible.skipGap_append {json : Json} (legible : json.Legible) (rest : List Char) :
    skipGap (json.compact.toList ++ rest) = json.compact.toList ++ rest := by
  obtain ⟨c, cs, written, opens⟩ := legible.opens
  rw [written, List.cons_append, skipGap_cons opens.solid]

/-- An array with one more item is nested as deep as the item and the others need. -/
theorem itemsNesting_cons_le {item : Json} {items : List Json} {depth : Nat} :
    itemsNesting (item :: items) ≤ depth ↔
      item.nesting + 1 ≤ depth ∧ itemsNesting items ≤ depth := by
  rw [itemsNesting, Nat.max_le]

/-- An object with one more field is nested as deep as the field and the others need. -/
theorem fieldsNesting_cons_le {name : String} {value : Json} {fields : List (String × Json)}
    {depth : Nat} :
    fieldsNesting ((name, value) :: fields) ≤ depth ↔
      value.nesting + 1 ≤ depth ∧ fieldsNesting fields ≤ depth := by
  rw [fieldsNesting, Nat.max_le]

/-- The items of an array are read back if each of them is. -/
theorem readItems?_compact {depth : Nat} {items : List Json} (nonempty : items ≠ [])
    (each : ∀ item ∈ items,
      item.Legible ∧ GivesBack (readNested? depth) (item.nesting + 1 ≤ depth) item)
    {count : Nat} (enough : items.length ≤ count) (rest : List Char) :
    readItems? (readNested? depth) count ((compactItems items).toList ++ ']' :: rest) =
      if itemsNesting items ≤ depth then some (items, rest) else none := by
  induction items generalizing count with
  | nil => exact absurd rfl nonempty
  | cons item items ih =>
    have room : count ≠ 0 := by simp at enough; omega
    obtain ⟨count, rfl⟩ := Nat.exists_eq_add_one_of_ne_zero room
    obtain ⟨legible, givesBack⟩ := each item List.mem_cons_self
    cases items with
    | nil =>
      have closes : Ends (']' :: rest) := .of_cons (by decide)
      rw [readItems?, compactItems, legible.skipGap_append, givesBack _ closes]
      by_cases fits : item.nesting + 1 ≤ depth
      · simp [fits, itemsNesting, skipGap_cons (c := ']') (by decide)]
      · simp [fits, itemsNesting]
    | cons next items =>
      have goesOn : Ends (',' :: ((compactItems (next :: items)).toList ++ ']' :: rest)) :=
        .of_cons (by decide)
      have fewer : (next :: items).length ≤ count := by simpa using enough
      have later :=
        ih (by simp) (fun item inside => each item (List.mem_cons_of_mem _ inside)) fewer
      have written : (compactItems (item :: next :: items)).toList ++ ']' :: rest =
          item.compact.toList ++ ',' :: ((compactItems (next :: items)).toList ++ ']' :: rest) := by
        simp [compactItems]
      rw [readItems?, written, legible.skipGap_append, givesBack _ goesOn]
      simp only [@itemsNesting_cons_le item]
      by_cases fits : item.nesting + 1 ≤ depth
      · by_cases restFits : itemsNesting (next :: items) ≤ depth
        · simp [fits, restFits, later, skipGap_cons (c := ',') (by decide)]
        · simp [fits, restFits, later, skipGap_cons (c := ',') (by decide)]
      · simp [fits]

/-- What is read behind the value of a field: either other fields follow or the object ends. -/
def readBehind? (reader : List Char → Option (Json × List Char)) (count : Nat) (name : String) :
    Json × List Char → Option (List (String × Json) × List Char)
  | (item, rest) =>
    match skipGap rest with
    | ',' :: rest => (readFields? reader count rest).bind fun (fields, rest) =>
        some ((name, item) :: fields, rest)
    | '\x7d' :: rest => some ([(name, item)], rest)
    | _ => none

/-- A field is read as its name and what the reader of values gives, and then what is behind it. -/
theorem readFields?_field (reader : List Char → Option (Json × List Char)) (name : String)
    {value : Json} (legible : value.Legible) (count : Nat) (after : List Char) :
    readFields? reader (count + 1)
        ((writeString name).toList ++ ':' :: (value.compact.toList ++ after)) =
      (reader (value.compact.toList ++ after)).bind (readBehind? reader count name) := by
  have opened : (writeString name).toList ++ ':' :: (value.compact.toList ++ after) =
      '\x22' :: (name.toList.flatMap escape ++
        '\x22' :: ':' :: (value.compact.toList ++ after)) := by
    simp [writeString]
  rw [opened, readFields?]
  simp only [skipGap_cons (c := '\x22') (by decide), readString_escaped, List.reverse_nil,
    List.nil_append, String.ofList_toList, Option.bind_eq_bind, Option.bind_some,
    skipGap_cons (c := ':') (by decide), legible.skipGap_append]
  rfl

/-- The fields of an object are read back if each of their values is. -/
theorem readFields?_compact {depth : Nat} {fields : List (String × Json)} (nonempty : fields ≠ [])
    (each : ∀ field ∈ fields,
      field.2.Legible ∧ GivesBack (readNested? depth) (field.2.nesting + 1 ≤ depth) field.2)
    {count : Nat} (enough : fields.length ≤ count) (rest : List Char) :
    readFields? (readNested? depth) count ((compactFields fields).toList ++ '\x7d' :: rest) =
      if fieldsNesting fields ≤ depth then some (fields, rest) else none := by
  induction fields generalizing count with
  | nil => exact absurd rfl nonempty
  | cons field fields ih =>
    obtain ⟨name, value⟩ := field
    have room : count ≠ 0 := by simp at enough; omega
    obtain ⟨count, rfl⟩ := Nat.exists_eq_add_one_of_ne_zero room
    obtain ⟨legible, givesBack⟩ := each (name, value) List.mem_cons_self
    cases fields with
    | nil =>
      have closes : Ends ('\x7d' :: rest) := .of_cons (by decide)
      have written : (compactFields [(name, value)]).toList ++ '\x7d' :: rest =
          (writeString name).toList ++ ':' :: (value.compact.toList ++ '\x7d' :: rest) := by
        simp [compactFields]
      rw [written, readFields?_field _ name legible, givesBack _ closes]
      by_cases fits : value.nesting + 1 ≤ depth
      · simp [fits, fieldsNesting, readBehind?, skipGap_cons (c := '\x7d') (by decide)]
      · simp [fits, fieldsNesting]
    | cons next fields =>
      have goesOn : Ends (',' :: ((compactFields (next :: fields)).toList ++ '\x7d' :: rest)) :=
        .of_cons (by decide)
      have fewer : (next :: fields).length ≤ count := by simpa using enough
      have later :=
        ih (by simp) (fun field inside => each field (List.mem_cons_of_mem _ inside)) fewer
      have written : (compactFields ((name, value) :: next :: fields)).toList ++ '\x7d' :: rest =
          (writeString name).toList ++ ':' :: (value.compact.toList ++
            ',' :: ((compactFields (next :: fields)).toList ++ '\x7d' :: rest)) := by
        simp [compactFields]
      rw [written, readFields?_field _ name legible, givesBack _ goesOn]
      simp only [@fieldsNesting_cons_le name value]
      by_cases fits : value.nesting + 1 ≤ depth
      · by_cases restFits : fieldsNesting (next :: fields) ≤ depth
        · simp [fits, restFits, later, readBehind?, skipGap_cons (c := ',') (by decide)]
        · simp [fits, restFits, later, readBehind?, skipGap_cons (c := ',') (by decide)]
      · simp [fits]

/-- An array is not shorter than the number of its items. -/
theorem length_le_compactItems {items : List Json} (legible : ∀ item ∈ items, item.Legible) :
    items.length ≤ (compactItems items).toList.length := by
  induction items with
  | nil => simp
  | cons item items ih =>
    have others := ih fun item inside => legible item (List.mem_cons_of_mem _ inside)
    obtain ⟨c, cs, written, -⟩ := (legible item List.mem_cons_self).opens
    cases items with
    | nil => simp [compactItems, written]
    | cons next items =>
      simp only [compactItems, String.toList_append, List.length_append, List.length_cons]
        at others ⊢
      simp only [written, List.length_cons]
      omega

/-- An object is not shorter than the number of its fields. -/
theorem length_le_compactFields (fields : List (String × Json)) :
    fields.length ≤ (compactFields fields).toList.length := by
  have colon : (":" : String).toList.length = 1 := rfl
  induction fields with
  | nil => simp
  | cons field fields ih =>
    obtain ⟨name, value⟩ := field
    cases fields with
    | nil =>
      simp only [compactFields, String.toList_append, List.length_append, List.length_singleton]
      omega
    | cons next fields =>
      simp only [compactFields, String.toList_append, List.length_append, List.length_cons] at ih ⊢
      omega

/-- What starts like no container is read as a value that holds no other values. -/
theorem readWith?_of_scalar (reader : List Char → Option (Json × List Char)) {c : Char}
    (cs : List Char) (noBracket : c ≠ '[') (noBrace : c ≠ '\x7b') :
    readWith? reader (c :: cs) = readScalar? (c :: cs) := by
  rw [readWith?.eq_3]
  · rintro _ same
    exact noBracket (List.cons.inj same).1
  · rintro _ same
    exact noBrace (List.cons.inj same).1

/-- An integer that is short enough is read back. -/
theorem readWith?_ofInt (reader : List Char → Option (Json × List Char)) {n : Int}
    (short : (Decimal.ofInt n).toList.length ≤ Decimal.digitLimit) {rest : List Char}
    (ends : Ends rest) :
    readWith? reader ((Decimal.ofInt n).toList ++ rest) = some (int n, rest) := by
  obtain ⟨m, sign⟩ := ofInt_cases n
  obtain ⟨c, cs, numeral⟩ := List.exists_cons_of_ne_nil (Decimal.digits_ne_nil m)
  have isDigit : c.isDigit = true :=
    Decimal.isDigit_of_mem_digits m c (numeral ▸ List.mem_cons_self)
  obtain ⟨rfl, written⟩ | ⟨rfl, written⟩ := sign
  · have within : exceedsLimit false (Decimal.digits m) = false := by
      rw [written] at short
      simpa [exceedsLimit] using short
    have read := readUnsigned?_digits false m ends within
    rw [written]
    rw [numeral, List.cons_append] at read ⊢
    rw [readWith?_of_scalar, readScalar?_of_digit isDigit, read]
    · rfl
    · exact ne_of_isDigit isDigit (by decide)
    · exact ne_of_isDigit isDigit (by decide)
  · have within : exceedsLimit true (Decimal.digits m) = false := by
      rw [written] at short
      simpa [exceedsLimit] using short
    have read := readUnsigned?_digits true m ends within
    rw [written]
    rw [numeral, List.cons_append] at read
    rw [numeral, List.cons_append, List.cons_append, readWith?_of_scalar,
      readScalar?_of_minus isDigit, read]
    · rfl
    · decide
    · decide

/-- An array that does not end at once is read item by item. -/
theorem readWith?_of_items (reader : List Char → Option (Json × List Char)) {c : Char}
    (cs : List Char) (opens : Opens c) :
    readWith? reader ('[' :: c :: cs) =
      (readItems? reader (c :: cs).length (c :: cs)).map
        fun (items, rest) => (arr items, rest) := by
  rw [readWith?, skipGap_cons opens.solid]
  split
  · next same => exact absurd (List.cons.inj same).1 opens.noBracket
  · rfl

/-- An object that does not end at once is read field by field. -/
theorem readWith?_of_fields (reader : List Char → Option (Json × List Char)) {c : Char}
    (cs : List Char) (opens : Opens c) :
    readWith? reader ('\x7b' :: c :: cs) =
      (readFields? reader (c :: cs).length (c :: cs)).map
        fun (fields, rest) => (obj fields, rest) := by
  rw [readWith?, skipGap_cons opens.solid]
  split
  · next same => exact absurd (List.cons.inj same).1 opens.noBrace
  · rfl

/-- Items start with what a value starts with. -/
theorem compactItems_opens {item : Json} (items : List Json) (legible : item.Legible) :
    ∃ c cs, (compactItems (item :: items)).toList = c :: cs ∧ Opens c := by
  obtain ⟨c, cs, written, opens⟩ := legible.opens
  cases items with
  | nil => exact ⟨c, cs, written, opens⟩
  | cons next items => exact ⟨c, _, by simp [compactItems, written]; rfl, opens⟩

/-- Fields start with what a value starts with. -/
theorem compactFields_opens (field : String × Json) (fields : List (String × Json)) :
    ∃ c cs, (compactFields (field :: fields)).toList = c :: cs ∧ Opens c := by
  have opens : Opens '\x22' := ⟨by decide, by decide, by decide⟩
  obtain ⟨name, value⟩ := field
  cases fields with
  | nil => exact ⟨'\x22', _, by simp [compactFields, writeString]; rfl, opens⟩
  | cons next fields => exact ⟨'\x22', _, by simp [compactFields, writeString]; rfl, opens⟩

/-- What is read back down to every depth is read back as part of another value. -/
theorem GivesBack.nested {json : Json}
    (givesBack : ∀ depth, GivesBack (readValue? depth) (json.nesting ≤ depth) json) (depth : Nat) :
    GivesBack (readNested? depth) (json.nesting + 1 ≤ depth) json := by
  intro rest ends
  cases depth with
  | zero => rfl
  | succ depth =>
    rw [readNested?, givesBack depth rest ends]
    simp only [Nat.add_le_add_iff_right]

/-- A value that is legible is read back if it is not nested too deep, and refused if it is. -/
theorem Legible.givesBack {json : Json} (legible : json.Legible) (depth : Nat) :
    GivesBack (readValue? depth) (json.nesting ≤ depth) json := by
  -- The depth is left open, since what a container holds is read down to one less.
  induction legible generalizing depth with
  | null =>
    intro rest _
    simp [readValue?_eq, nesting, compact, readWith?, readScalar?, word?]
  | bool flag =>
    intro rest _
    cases flag <;> simp [readValue?_eq, nesting, compact, readWith?, readScalar?, word?]
  | @int n short =>
    intro rest ends
    have flat : (Json.int n).nesting ≤ depth := Nat.zero_le depth
    rw [if_pos flat, readValue?_eq]
    exact readWith?_ofInt _ short ends
  | str text =>
    intro rest _
    simp [readValue?_eq, nesting, compact, writeString, readWith?, readScalar?, readString_escaped]
  | @arr items all ih =>
    intro rest _
    have written : (Json.arr items).compact.toList ++ rest =
        '[' :: ((compactItems items).toList ++ ']' :: rest) := by
      simp [compact]
    rw [written, readValue?_eq, nesting]
    cases items with
    | nil => simp [readWith?, compactItems, itemsNesting, skipGap_cons (c := ']') (by decide)]
    | cons item items =>
      have enough : (item :: items).length ≤
          ((compactItems (item :: items)).toList ++ ']' :: rest).length := by
        rw [List.length_append]
        exact Nat.le_trans (length_le_compactItems all) (Nat.le_add_right _ _)
      have read := readItems?_compact (List.cons_ne_nil item items)
        (fun item inside => ⟨all item inside, .nested (ih item inside) depth⟩) enough rest
      obtain ⟨c, cs, starts, opens⟩ := compactItems_opens items (all item List.mem_cons_self)
      rw [starts, List.cons_append] at read ⊢
      rw [readWith?_of_items _ _ opens, read]
      split <;> rfl
  | @obj fields all ih =>
    intro rest _
    have written : (Json.obj fields).compact.toList ++ rest =
        '\x7b' :: ((compactFields fields).toList ++ '\x7d' :: rest) := by
      simp [compact]
    rw [written, readValue?_eq, nesting]
    cases fields with
    | nil => simp [readWith?, compactFields, fieldsNesting, skipGap_cons (c := '\x7d') (by decide)]
    | cons field fields =>
      have enough : (field :: fields).length ≤
          ((compactFields (field :: fields)).toList ++ '\x7d' :: rest).length := by
        rw [List.length_append]
        exact Nat.le_trans (length_le_compactFields _) (Nat.le_add_right _ _)
      have read := readFields?_compact (List.cons_ne_nil field fields)
        (fun field inside => ⟨all field inside, .nested (ih field inside) depth⟩) enough rest
      obtain ⟨c, cs, starts, opens⟩ := compactFields_opens field fields
      rw [starts, List.cons_append] at read ⊢
      rw [readWith?_of_fields _ _ opens, read]
      split <;> rfl

/-- A text is read as the value that it is the compact form of, unless that is nested too deep. -/
theorem Legible.read?_compact {json : Json} (legible : json.Legible) (depth : Nat) :
    read? depth json.compact = if json.nesting ≤ depth then some json else none := by
  have read := legible.givesBack depth [] .nil
  have front := legible.skipGap_append []
  rw [List.append_nil] at read front
  rw [read?, front, read]
  by_cases fits : json.nesting ≤ depth
  · rw [if_pos fits, if_pos fits]
    rfl
  · rw [if_neg fits, if_neg fits]
    rfl

end FlatIL.Json
