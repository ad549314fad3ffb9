import FlatIL.Command.Execute
import FlatIL.Proofs.Scan
import FlatIL.Proofs.Seeding
import Mathlib.Data.List.Nodup

/-!
# Input options are read back

An option that gives an input source is its name, an equals sign and the numerals of its values with
commas between them. A name has no equals sign in it and a numeral no comma, so the option falls
apart into what it was put together from. Options with different names are read as the sources they
give, in order, and a run can be seeded with them; a name that is given twice is refused, whatever
stands behind the equals signs.
-/

namespace FlatIL

namespace Text

/-! ## Numerals -/

/-- The codes of the ASCII digits. -/
theorem bounds_of_isDigit {c : Char} (digit : c.isDigit = true) : 48 ≤ c.toNat ∧ c.toNat ≤ 57 := by
  simp only [Char.isDigit, ge_iff_le, Bool.and_eq_true, decide_eq_true_eq,
    UInt32.le_iff_toNat_le] at digit
  exact digit

/-- The value of an ASCII digit. -/
theorem digitValue?_of_isDigit {c : Char} (digit : c.isDigit = true) :
    digitValue? c = some (c.toNat - 48) := by
  obtain ⟨low, high⟩ := bounds_of_isDigit digit
  have zeros : digitZeros = 48 :: digitZeros.tail := rfl
  have between : (48 ≤ c.toNat && c.toNat < 48 + 10) = true := by
    simp only [Bool.and_eq_true, decide_eq_true_eq]
    omega
  rw [digitValue?, zeros, List.find?_cons, between]
  rfl

/-- A digit is no white space. -/
theorem isBlank_of_isDigit {c : Char} (digit : c.isDigit = true) : isBlank c = false := by
  obtain ⟨low, high⟩ := bounds_of_isDigit digit
  simp only [isBlank, isSpace, Bool.or_eq_false_iff, Bool.and_eq_false_iff, beq_eq_false_iff_ne,
    decide_eq_false_iff_not]
  omega

/-- Digits are a run of digits. -/
theorem digitRun?_of_isDigit {c : Char} {cs : List Char}
    (digits : ∀ d ∈ c :: cs, d.isDigit = true) :
    digitRun? (c :: cs) = some ((c :: cs).map (·.toNat - 48)) := by
  induction cs generalizing c with
  | nil => rw [digitRun?, digitValue?_of_isDigit (digits c List.mem_cons_self)]; rfl
  | cons d cs ih =>
    obtain ⟨here, later⟩ := List.forall_mem_cons.mp digits
    have noUnderscore : d ≠ '_' := by
      rintro rfl
      exact absurd (later '_' List.mem_cons_self) (by decide)
    rw [digitRun?, digitValue?_of_isDigit here, ih later]
    · rfl
    · nofun
    · intro rest same
      exact noUnderscore (List.cons.inj same).1

/-- The numeral of a number is read as the number, if it is not too long. -/
theorem numeral?_digits {n : Nat} (short : (Decimal.digits n).length ≤ Decimal.digitLimit) :
    numeral? (Decimal.digits n) = some n := by
  obtain ⟨c, cs, numeral⟩ := List.exists_cons_of_ne_nil (Decimal.digits_ne_nil n)
  have digits := Decimal.isDigit_of_mem_digits n
  have denoted := Decimal.value_digits n
  rw [numeral] at short digits denoted ⊢
  rw [numeral?, digitRun?_of_isDigit digits]
  simp only [Option.bind_eq_bind, Option.bind_some, List.length_map, if_pos short, List.foldl_map]
  exact congrArg some denoted

/-- Digits have no white space at either end. -/
theorem trimSpace_of_isDigit {cs : List Char} (digits : ∀ c ∈ cs, c.isDigit = true) :
    trimSpace cs = cs := by
  have solid : ∀ c ∈ cs, isSpace c = false := by
    intro c inside
    have blank := isBlank_of_isDigit (digits c inside)
    simp only [isBlank, Bool.or_eq_false_iff] at blank
    exact blank.1
  have kept (ds : List Char) (all : ∀ c ∈ ds, isSpace c = false) : ds.dropWhile isSpace = ds := by
    cases ds with
    | nil => rfl
    | cons d ds => rw [List.dropWhile_cons_of_neg (by simp [all d List.mem_cons_self])]
  rw [trimSpace, kept cs solid, kept _ (by simpa using solid), List.reverse_reverse]

/-- The numeral of a word is read as its number. -/
theorem integer?_ofNat (w : Word) : integer? (Decimal.ofNat w.toNat) = some (w.toNat : Int) := by
  have digits := Decimal.isDigit_of_mem_digits w.toNat
  have short : (Decimal.digits w.toNat).length ≤ 10 :=
    Decimal.length_digits_le (Nat.lt_trans w.toNat_lt (by decide))
  have read := numeral?_digits (Nat.le_trans short (by decide))
  obtain ⟨c, cs, numeral⟩ := List.exists_cons_of_ne_nil (Decimal.digits_ne_nil w.toNat)
  rw [integer?, Decimal.ofNat, String.toList_ofList, trimSpace_of_isDigit digits]
  rw [numeral] at digits read ⊢
  have first := digits c List.mem_cons_self
  split
  · next signed => cases signed; cases first
  · next signed => cases signed; cases first
  · rw [read]
    rfl

end Text

namespace Command

/-! ## Values between commas -/

/-- A text without a comma is one part. -/
theorem splitCommas_of_notMem {cs : List Char} (whole : ',' ∉ cs) : splitCommas cs = [cs] := by
  induction cs with
  | nil => rfl
  | cons c cs ih =>
    rw [List.mem_cons, not_or] at whole
    rw [splitCommas, if_neg (by simpa using Ne.symm whole.1), ih whole.2]

/-- Up to its first comma, a text is the first part. -/
theorem splitCommas_append {cs : List Char} (whole : ',' ∉ cs) (rest : List Char) :
    splitCommas (cs ++ ',' :: rest) = cs :: splitCommas rest := by
  induction cs with
  | nil => rfl
  | cons c cs ih =>
    rw [List.mem_cons, not_or] at whole
    rw [List.cons_append, splitCommas, if_neg (by simpa using Ne.symm whole.1), ih whole.2]

/-- Texts without commas are the parts of what they are joined to by commas. -/
theorem splitCommas_intercalate {text : String} {texts : List String}
    (whole : ∀ part ∈ text :: texts, ',' ∉ part.toList) :
    splitCommas (",".intercalate (text :: texts)).toList = (text :: texts).map String.toList := by
  induction texts generalizing text with
  | nil =>
    rw [String.intercalate_singleton, splitCommas_of_notMem (whole text List.mem_cons_self)]
    rfl
  | cons next texts ih =>
    obtain ⟨here, later⟩ := List.forall_mem_cons.mp whole
    have joined : (",".intercalate (text :: next :: texts)).toList =
        text.toList ++ ',' :: (",".intercalate (next :: texts)).toList := by
      simp [String.intercalate_cons_cons]
    rw [joined, splitCommas_append here, ih later]
    rfl

/-- Numerals are not blank and are read as their numbers. -/
theorem mapM_numerals (values : List Word) :
    ((values.map fun value => (Decimal.ofNat value.toNat).toList).filter fun part =>
        !part.all Text.isBlank).mapM (fun part => Text.integer? (String.ofList part)) =
      some (values.map fun value => (value.toNat : Int)) := by
  induction values with
  | nil => rfl
  | cons value values ih =>
    obtain ⟨c, cs, numeral⟩ := List.exists_cons_of_ne_nil (Decimal.digits_ne_nil value.toNat)
    have solid : Text.isBlank c = false :=
      Text.isBlank_of_isDigit (Decimal.isDigit_of_mem_digits value.toNat c (by simp [numeral]))
    have filled : (!(Decimal.ofNat value.toNat).toList.all Text.isBlank) = true := by
      simp [Decimal.ofNat, numeral, solid]
    simp only [List.map_cons, List.filter_cons, filled, if_true, List.mapM_cons, ih,
      String.ofList_toList, Text.integer?_ofNat]
    rfl

/-- The numerals of words with commas between them are read as their numbers. -/
theorem integers?_numerals (values : List Word) :
    integers? (",".intercalate (values.map fun value => Decimal.ofNat value.toNat)).toList =
      some (values.map fun value => (value.toNat : Int)) := by
  cases values with
  | nil => rfl
  | cons value values =>
    have whole : ∀ part ∈ (value :: values).map fun value => Decimal.ofNat value.toNat,
        ',' ∉ part.toList := by
      intro part listed inside
      obtain ⟨value, -, rfl⟩ := List.mem_map.mp listed
      rw [Decimal.ofNat, String.toList_ofList] at inside
      exact absurd (Decimal.isDigit_of_mem_digits value.toNat ',' inside) (by decide)
    have parts := splitCommas_intercalate whole
    rw [← List.map_cons (f := fun value : Word => Decimal.ofNat value.toNat), List.map_map] at parts
    rw [integers?, parts]
    exact mapM_numerals (value :: values)

/-! ## One option after the other -/

/-- What stands in front of the first equals sign of an option. -/
def optionName (item : String) : List Char :=
  item.toList.takeWhile (· != '=')

/-- A text without an equals sign is the name of every option that it starts and that goes on with
one. -/
theorem optionName_of_notMem {name : String} (whole : '=' ∉ name.toList) (raw : String) :
    optionName (name ++ "=" ++ raw) = name.toList ∧
      (name ++ "=" ++ raw).toList.dropWhile (· != '=') = '=' :: raw.toList := by
  have all : ∀ c ∈ name.toList, (c != '=') = true := by
    intro c inside
    rw [bne_iff_ne]
    rintro rfl
    exact whole inside
  rw [optionName, String.toList_append, String.toList_append, List.append_assoc]
  exact Token.takeWhile_append_of_apart all (by simp)

/-- An option with a name in front of its first equals sign is refused if the name was given before
or if what stands behind the sign are not integers. -/
theorem readInput_of_isName {name : String} (named : Name.isName name = true) (raw : String)
    (before : List (String × List Int)) :
    readInput before (name ++ "=" ++ raw) =
      if before.any fun (known, _) => known == name then .error (.repeated name)
      else
        match integers? raw.toList with
        | none => .error (.notInteger (name ++ "=" ++ raw))
        | some values => .ok (before ++ [(name, values)]) := by
  have whole : '=' ∉ name.toList :=
    fun inside => absurd (Name.isPart_of_mem named inside) (by decide)
  obtain ⟨taken, dropped⟩ := optionName_of_notMem whole raw
  have nonempty : name.toList.isEmpty = false := by
    cases letters : name.toList with
    | nil => simp [Name.isName, Name.hasShape, letters] at named
    | cons c cs => rfl
  have contained : (name ++ "=" ++ raw).toList.contains '=' = true := by simp
  rw [optionName] at taken
  cases values : integers? raw.toList <;>
    simp only [readInput, taken, dropped, nonempty, contained, String.ofList_toList, named, values,
      Bool.not_true, Bool.or_self, Bool.false_eq_true, if_false, List.drop_succ_cons,
      List.drop_zero]

/-- What an option that is accepted gives: a source whose name stands in front of the first equals
sign and was not given before. -/
theorem readInput_eq_ok {before after : List (String × List Int)} {item : String}
    (read : readInput before item = .ok after) :
    ∃ name values, after = before ++ [(name, values)] ∧ Name.isName name = true ∧
      name.toList = optionName item ∧ ∀ known ∈ before, known.1 ≠ name := by
  unfold readInput at read
  dsimp only at read
  split at read
  · cases read
  · split at read
    · cases read
    · next named =>
      split at read
      · cases read
      · next fresh =>
        split at read
        · cases read
        · next values found =>
          refine ⟨_, values, (Except.ok.inj read).symm, by simpa using named,
            String.toList_ofList, ?_⟩
          rintro ⟨known, given⟩ listed rfl
          exact fresh (List.any_eq_true.mpr ⟨_, listed, beq_self_eq_true _⟩)

/-- Options are accepted as sources of their own, one each and in order, under names that differ. -/
structure Accepted (items : List String) (given : List (String × List Int)) : Prop where
  names : given.map (·.1.toList) = items.map optionName
  named : ∀ source ∈ given, Name.isName source.1 = true
  distinct : (given.map Prod.fst).Nodup

/-- One more option is accepted behind those that were. -/
theorem Accepted.readInput {items : List String} {before after : List (String × List Int)}
    (accepted : Accepted items before) {item : String} (read : readInput before item = .ok after) :
    Accepted (items ++ [item]) after := by
  obtain ⟨name, values, rfl, named, spelled, fresh⟩ := readInput_eq_ok read
  refine ⟨?_, ?_, ?_⟩
  · simp [accepted.names, spelled]
  · intro source listed
    rcases List.mem_append.mp listed with old | added
    · exact accepted.named source old
    · rwa [List.mem_singleton.mp added]
  · rw [List.map_append, List.nodup_append]
    refine ⟨accepted.distinct, List.nodup_singleton _, ?_⟩
    rintro _ listed _ added rfl
    obtain ⟨known, inside, same⟩ := List.mem_map.mp listed
    exact fresh known inside (same.trans (List.mem_singleton.mp added))

/-- Options that are read one after the other are accepted behind those that were. -/
theorem Accepted.foldlM {done items : List String} {before after : List (String × List Int)}
    (accepted : Accepted done before) (read : items.foldlM Command.readInput before = .ok after) :
    Accepted (done ++ items) after := by
  induction items generalizing done before with
  | nil =>
    obtain rfl := Except.ok.inj read
    rwa [List.append_nil]
  | cons item items ih =>
    obtain ⟨between, first, others⟩ := Seeds.bind_eq_ok.mp read
    have accepted := ih (accepted.readInput first) others
    rwa [List.append_assoc] at accepted

/-- Options that are read are accepted. -/
theorem accepted_of_readInputs {items : List String} {given : List (String × List Int)}
    (read : readInputs items = .ok given) : Accepted items given := by
  have start : Accepted [] [] :=
    { names := rfl, named := List.forall_mem_nil _, distinct := List.nodup_nil }
  exact start.foldlM read

/-! ## Options for given sources -/

/-- The option that gives a source. -/
def inputOption (source : String × List Word) : String :=
  source.1 ++ "=" ++ ",".intercalate (source.2.map fun value => Decimal.ofNat value.toNat)

/-- A source as it is given by an option. -/
def givenSource (source : String × List Word) : String × List Int :=
  (source.1, source.2.map fun value => (value.toNat : Int))

/-- Options with names that differ are read as the sources they give, behind those given before. -/
theorem foldlM_inputOption {sources : List (String × List Word)}
    (named : ∀ source ∈ sources, Name.isName source.1 = true)
    (distinct : (sources.map Prod.fst).Nodup) {before : List (String × List Int)}
    (fresh : ∀ known ∈ before, known.1 ∉ sources.map Prod.fst) :
    (sources.map inputOption).foldlM readInput before =
      .ok (before ++ sources.map givenSource) := by
  induction sources generalizing before with
  | nil => simp [pure, Except.pure]
  | cons source sources ih =>
    obtain ⟨here, later⟩ := List.forall_mem_cons.mp named
    obtain ⟨unused, differ⟩ := List.nodup_cons.mp distinct
    have new : ¬ (before.any fun (known, _) => known == source.1) = true := by
      rw [List.any_eq_true]
      rintro ⟨known, listed, same⟩
      exact fresh known listed (by simp [beq_iff_eq.mp same])
    have first : readInput before (inputOption source) = .ok (before ++ [givenSource source]) := by
      rw [inputOption, readInput_of_isName here, if_neg new, integers?_numerals]
      rfl
    have stillFresh : ∀ known ∈ before ++ [givenSource source],
        known.1 ∉ sources.map Prod.fst := by
      intro known listed
      rcases List.mem_append.mp listed with old | added
      · exact fun inside => fresh known old (List.mem_cons_of_mem _ inside)
      · rwa [List.mem_singleton.mp added]
    rw [List.map_cons, List.foldlM_cons, first]
    refine (ih later differ stillFresh).trans ?_
    rw [List.append_assoc]
    rfl

/-- A run can be seeded with sources of words that have names that differ, and none of their values
is read at its start. -/
theorem start_givenSource {sources : List (String × List Word)}
    (named : ∀ source ∈ sources, Name.isName source.1 = true)
    (distinct : (sources.map Prod.fst).Nodup) {settings : Settings}
    (inputs : settings.inputs = sources.map givenSource) :
    ∃ s, (seedsOf settings).start = .ok s ∧
      s.inputs.entries = sources.map fun (name, values) => (name, { values }) := by
  have seeds : (seedsOf settings).inputs =
      sources.map fun (name, values) => (name, values.map (.int ·.toNat)) := by
    simp [seedsOf, inputs, givenSource, Function.comp_def]
  have differ : ((seedsOf settings).inputs.map Prod.fst).Nodup := by
    simpa [seeds, Function.comp_def] using distinct
  have fresh : ∀ stream ∈ (seedsOf settings).inputs,
      (Table.empty : Inputs).contains stream.1 = false := fun _ _ => rfl
  have admissible : ∀ stream ∈ (seedsOf settings).inputs,
      stream.1 ≠ "" ∧ ∀ value ∈ stream.2, value.IsWord := by
    intro stream listed
    rw [seeds] at listed
    obtain ⟨⟨name, values⟩, inside, rfl⟩ := List.mem_map.mp listed
    refine ⟨?_, Inputs.forall_isWord_iff.mpr ⟨values, rfl⟩⟩
    rintro rfl
    exact Bool.noConfusion (named _ inside)
  obtain ⟨after, registered⟩ := (Inputs.registerAll_isOk_iff differ fresh).mpr admissible
  refine ⟨_, Seeds.start_eq_ok_iff.mpr ⟨after, registered, rfl⟩, ?_⟩
  obtain ⟨admitted, same, entries⟩ := Inputs.entries_of_registerAll registered
  have numbers : Function.Injective fun w : Word => Json.int w.toNat :=
    fun _ _ equal => UInt32.toNat_inj.mp (Int.ofNat.inj (Json.int.inj equal))
  have pairs : Function.Injective fun source : String × List Word =>
      (source.1, source.2.map fun w => Json.int w.toNat) := by
    rintro ⟨name, values⟩ ⟨name', values'⟩ equal
    obtain ⟨rfl : name = name', words⟩ := Prod.mk.inj equal
    exact congrArg (Prod.mk name) (List.map_injective_iff.mpr numbers words)
  obtain rfl : sources = admitted := List.map_injective_iff.mpr pairs (seeds.symm.trans same)
  exact entries

/-! ## Names that are given twice -/

/-- Options behind some that are accepted are read one after the other. -/
theorem readInputs_append {items : List String} {given : List (String × List Int)}
    (read : readInputs items = .ok given) (others : List String) :
    readInputs (items ++ others) = others.foldlM readInput given := by
  rw [readInputs] at read
  rw [readInputs, List.foldlM_append, read]
  rfl

/-- What stands behind an equals sign has no part in the name of an option. -/
theorem optionName_append (name raw : String) :
    optionName (name ++ "=" ++ raw) = name.toList.takeWhile (· != '=') := by
  rw [optionName, String.toList_append, String.toList_append, List.append_assoc]
  induction name.toList with
  | nil => rfl
  | cons c cs ih =>
    rw [List.cons_append, List.takeWhile_cons, List.takeWhile_cons, ih]

/-- Options that are equal in front of their first equals signs are not accepted together. -/
theorem exists_error_of_optionName {front between back : List String} {first second : String}
    (same : optionName first = optionName second) :
    ∃ error, readInputs (front ++ first :: between ++ second :: back) = .error error := by
  cases read : readInputs (front ++ first :: between ++ second :: back) with
  | error error => exact ⟨error, rfl⟩
  | ok given =>
    have accepted := accepted_of_readInputs read
    have distinct : (given.map (·.1.toList)).Nodup := by
      rw [← Function.comp_def String.toList Prod.fst, ← List.map_map]
      exact List.Nodup.map (fun _ _ => String.toList_inj.mp) accepted.distinct
    rw [accepted.names] at distinct
    simp [List.nodup_append, same] at distinct

/-- A name that an accepted option gave is refused as repeated. -/
theorem readInput_of_listed {items : List String} {given : List (String × List Int)}
    (accepted : Accepted items given) {name raw : String} (whole : '=' ∉ name.toList)
    (listed : name ++ "=" ++ raw ∈ items) (other : String) :
    readInput given (name ++ "=" ++ other) = .error (.repeated name) := by
  have spelled : name.toList ∈ given.map (·.1.toList) := by
    rw [accepted.names, ← (optionName_of_notMem whole raw).1]
    exact List.mem_map_of_mem listed
  obtain ⟨source, known, same⟩ := List.mem_map.mp spelled
  obtain rfl := String.toList_inj.mp same
  have repeated : (given.any fun (known, _) => known == source.1) = true :=
    List.any_eq_true.mpr ⟨source, known, beq_self_eq_true _⟩
  rw [readInput_of_isName (accepted.named source known), if_pos repeated]

/-- Options for sources of words, with names that differ, are read as these sources in their order,
and a run can be seeded with them. Options that give one name twice are refused, whatever else they
and the options around them say, and if all that stands in front of the second one is accepted,
they are refused because of the name. -/
theorem readInputs_inputOptions :
    (∀ sources : List (String × List Word),
      (∀ source ∈ sources, Name.isName source.1 = true) → (sources.map Prod.fst).Nodup →
        readInputs (sources.map inputOption) = .ok (sources.map givenSource) ∧
          ∀ settings : Settings, settings.inputs = sources.map givenSource →
            ∃ s, (seedsOf settings).start = .ok s ∧
              s.inputs.entries = sources.map fun (name, values) => (name, { values })) ∧
    ∀ (name raw raw' : String) (front between back : List String),
      ∃ error,
        readInputs (front ++ (name ++ "=" ++ raw) :: between ++ (name ++ "=" ++ raw') :: back) =
          .error error ∧
        ('=' ∉ name.toList →
          (∃ given, readInputs (front ++ (name ++ "=" ++ raw) :: between) = .ok given) →
            error = .repeated name) := by
  refine ⟨fun sources named distinct => ⟨?_, fun settings => ?_⟩, ?_⟩
  · exact foldlM_inputOption named distinct (List.forall_mem_nil _)
  · exact start_givenSource named distinct
  · intro name raw raw' front between back
    have same : optionName (name ++ "=" ++ raw) = optionName (name ++ "=" ++ raw') := by
      rw [optionName_append, optionName_append]
    obtain ⟨error, refused⟩ := exists_error_of_optionName same
    refine ⟨error, refused, ?_⟩
    rintro whole ⟨given, read⟩
    have listed : name ++ "=" ++ raw ∈ front ++ (name ++ "=" ++ raw) :: between := by simp
    have here := readInput_of_listed (accepted_of_readInputs read) whole listed raw'
    rw [readInputs_append read, List.foldlM_cons, here] at refused
    exact (Except.error.inj refused).symm

/-- A source with the least and the greatest word and one without values are read back and seed a
run; a name that comes back is refused although no integer is behind it the second time. -/
theorem readInputs_inputOptions_of_two :
    readInputs ["n=0,4294967295", "none="] = .ok [("n", [0, 4294967295]), ("none", [])] ∧
      (∃ s, (seedsOf { inputs := [("n", [0, 4294967295]), ("none", [])] }).start = .ok s ∧
        s.inputs.entries = [("n", { values := [0, 4294967295] }), ("none", { values := [] })]) ∧
      readInputs ["n=1", "none=", "n=x", "?"] = .error (.repeated "n") := by
  obtain ⟨readBack, refused⟩ := readInputs_inputOptions
  obtain ⟨read, seeded⟩ :=
    readBack [("n", [0, 4294967295]), ("none", [])] (by decide) (by decide)
  obtain ⟨error, repeated, because⟩ := refused "n" "1" "x" [] ["none="] ["?"]
  have first : readInputs ["n=1", "none="] = .ok [("n", [1]), ("none", [])] := by decide +kernel
  have spelled : List.map inputOption [("n", [0, 4294967295]), ("none", [])] =
      ["n=0,4294967295", "none="] := by decide +kernel
  refine ⟨?_, seeded _ rfl, ?_⟩
  · rwa [spelled] at read
  · rw [← because (by decide) ⟨_, first⟩]
    exact repeated

end Command

end FlatIL
