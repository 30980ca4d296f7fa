import InterpTree.Engine.Options
import InterpTree.Proofs.Tables

/-!
Options as they are written and as they are read. Main statement: the words that give options of a
table are read as just these options, whatever their values look like. What follows a double dash is
left untouched, and so is what follows the options, if its first word cannot be an option. Where it
could be one, and the table does not know it, the words are refused.
-/

namespace InterpTree

namespace Options

/-- Whether a word stands for an option, unless it is the value of one. -/
def IsOptionWord (word : Text) : Prop :=
  2 ≤ word.length ∧ word.head? = some Text.dash ∧ word ≠ Text.ofString "--"

instance (word : Text) : Decidable (IsOptionWord word) := inferInstanceAs (Decidable (_ ∧ _ ∧ _))

/-- A table whose options can be told apart. -/
structure IsTable (specs : List OptionSpec) : Prop where
  distinct : (specs.map OptionSpec.name).Nodup
  words : ∀ spec ∈ specs, IsOptionWord spec.name

/-- An option of a table as it is given, with a value if it takes one. -/
structure Use (specs : List OptionSpec) where
  spec : OptionSpec
  value : Option Text
  known : spec ∈ specs
  valued : value.isSome = spec.takesValue

variable {specs : List OptionSpec} {word name v : Text} {later : List Text}

namespace Use

def words (use : Use specs) : List Text := use.spec.name :: use.value.toList

def entry (use : Use specs) : Text × Option Text := (use.spec.name, use.value)

end Use

/-! ### Words -/

theorem isOption_iff : isOption word = true ↔ 2 ≤ word.length ∧ word.head? = some Text.dash := by
  simp [isOption]

theorem IsOptionWord.isOption (isWord : IsOptionWord word) : isOption word = true :=
  isOption_iff.mpr ⟨isWord.1, isWord.2.1⟩

theorem IsOptionWord.ne_mark (isWord : IsOptionWord word) :
    (word == Text.ofString "--") = false :=
  beq_eq_false_iff_ne.mpr isWord.2.2

theorem parse_marked (operands : List Text) :
    parse specs (Text.ofString "--" :: operands) = .ok ({}, operands) := by
  unfold parse
  exact if_pos (beq_self_eq_true _)

theorem parse_operands {operands : List Text}
    (plain : ∀ word ∈ operands.head?, word.length < 2 ∨ word.head? ≠ some Text.dash) :
    parse specs operands = .ok ({}, operands) := by
  cases operands with
  | nil => rfl
  | cons word operands =>
    have other : ¬ (2 ≤ word.length ∧ word.head? = some Text.dash) := by
      rintro ⟨long, dashed⟩
      exact (plain word rfl).elim (Nat.not_lt.mpr long) (· dashed)
    have unmarked : word ≠ Text.ofString "--" := by
      rintro rfl
      exact other (by decide)
    have noOption : isOption word = false := Bool.eq_false_iff.mpr (mt isOption_iff.mp other)
    unfold parse
    simp [unmarked, noOption]

theorem parse_unknown (isWord : IsOptionWord word) (new : ∀ spec ∈ specs, spec.name ≠ word) :
    parse specs (word :: later) = .error (unknown word specs) := by
  have missing : specs.find? (fun spec => spec.name == word) = none := by
    simpa [List.find?_eq_none] using new
  unfold parse
  simp [isWord.ne_mark, isWord.isOption, missing]

theorem IsTable.find? (table : IsTable specs) {spec : OptionSpec} (mem : spec ∈ specs) :
    specs.find? (fun other => other.name == spec.name) = some spec :=
  (find?_key_eq_some_iff table.distinct).mpr ⟨mem, rfl⟩

/-- An option is read off with its value, and what comes next is read in turn. -/
theorem parse_use (table : IsTable specs) (use : Use specs) :
    parse specs (use.words ++ later) =
      (parse specs later).map fun (o, rest) => (⟨use.entry :: o.found⟩, rest) := by
  obtain ⟨spec, value, known, valued⟩ := use
  have isWord := table.words spec known
  -- Whether a value is taken is the table's to say, not the value's.
  cases value with
  | none =>
    have flag : spec.takesValue = false := valued.symm
    change parse specs (spec.name :: later) = _
    rw [parse.eq_def]
    simp only [isWord.ne_mark, isWord.isOption, table.find? known, flag]
    cases parse specs later <;> rfl
  | some value =>
    have takes : spec.takesValue = true := valued.symm
    change parse specs (spec.name :: value :: later) = _
    rw [parse.eq_def]
    simp only [isWord.ne_mark, isWord.isOption, table.find? known, takes]
    cases parse specs later <;> rfl

/-- The options that are given are all read off, and what comes next is read in turn. -/
theorem parse_uses (table : IsTable specs) (uses : List (Use specs)) :
    parse specs (uses.flatMap Use.words ++ later) =
      (parse specs later).map fun (o, rest) => (⟨uses.map Use.entry ++ o.found⟩, rest) := by
  induction uses with
  | nil =>
    rw [List.flatMap_nil, List.nil_append]
    cases parse specs later <;> rfl
  | cons use uses ih =>
    rw [List.flatMap_cons, List.append_assoc, parse_use table, ih]
    cases parse specs later <;> rfl

/-! ### What is found -/

/-- The options that are found where some are given. -/
def given (uses : List (Use specs)) : Options := ⟨uses.map Use.entry⟩

variable {uses : List (Use specs)}

theorem parse_given (table : IsTable specs) {operands : List Text}
    (ends : parse specs later = .ok ({}, operands)) :
    parse specs (uses.flatMap Use.words ++ later) = .ok (given uses, operands) := by
  rw [parse_uses table, ends]
  simp [Except.map, given]

theorem has_given : (given uses).has name = true ↔ ∃ use ∈ uses, use.spec.name = name := by
  simp [has, given, Use.entry]

/-- Two options of one name are alike in whether they take a value. -/
theorem IsTable.isSome_value (table : IsTable specs) {use other : Use specs}
    (same : other.spec.name = use.spec.name) : other.value.isSome = use.value.isSome := by
  rw [other.valued, use.valued, List.inj_on_of_nodup_map table.distinct other.known use.known same]

theorem value?_given (table : IsTable specs) :
    (given uses).value? name = some v ↔ ∃ before use after, uses = before ++ use :: after ∧
      use.spec.name = name ∧ use.value = some v ∧ ∀ other ∈ after, other.spec.name ≠ name := by
  have read : (given uses).value? name =
      uses.reverse.findSome? fun use => if use.spec.name == name then use.value else none := by
    unfold value? given
    rw [← List.map_reverse, List.findSome?_map]
    rfl
  rw [read, List.findSome?_eq_some_iff]
  constructor
  · rintro ⟨after, use, before, split, valued, later⟩
    obtain ⟨named, valued⟩ : use.spec.name = name ∧ use.value = some v := by simpa using valued
    refine ⟨before.reverse, use, after.reverse, ?_, named, valued, ?_⟩
    · rw [← List.reverse_reverse uses, split, List.reverse_append, List.reverse_cons,
        List.append_assoc, List.singleton_append]
    · -- Another use of that option would have a value too.
      intro other mem same
      have bare : other.value = none := by simpa [same] using later other (List.mem_reverse.mp mem)
      have alike := table.isSome_value (same.trans named.symm)
      rw [bare, valued] at alike
      cases alike
  · rintro ⟨before, use, after, rfl, rfl, valued, later⟩
    refine ⟨after.reverse, use, before.reverse, by simp, by simpa using valued, ?_⟩
    intro other mem
    exact if_neg (by simpa using later other (List.mem_reverse.mp mem))

/-- The words that give options of a table are read as these: an option is found if it is given, and
its value is the one given last. They end at a double dash, and before a word that is too short for an
option or starts with no dash; what follows is left untouched. A word that could be an option and that
the table does not know is refused. -/
theorem parse_exact (table : IsTable specs) (uses : List (Use specs)) :
    (∃ o : Options,
      (∀ operands, parse specs (uses.flatMap Use.words ++ Text.ofString "--" :: operands) =
        .ok (o, operands)) ∧
      (∀ operands, (∀ word ∈ operands.head?, word.length < 2 ∨ word.head? ≠ some Text.dash) →
        parse specs (uses.flatMap Use.words ++ operands) = .ok (o, operands)) ∧
      (∀ name, o.has name = true ↔ ∃ use ∈ uses, use.spec.name = name) ∧
      ∀ name v, o.value? name = some v ↔ ∃ before use after, uses = before ++ use :: after ∧
        use.spec.name = name ∧ use.value = some v ∧ ∀ other ∈ after, other.spec.name ≠ name) ∧
    ∀ word later, IsOptionWord word → (∀ spec ∈ specs, spec.name ≠ word) →
      parse specs (uses.flatMap Use.words ++ word :: later) = .error (unknown word specs) := by
  refine ⟨⟨given uses, ?_, ?_, fun _ => has_given, fun _ _ => value?_given table⟩, ?_⟩
  · intro operands
    exact parse_given table (parse_marked operands)
  · intro operands plain
    exact parse_given table (parse_operands plain)
  · intro word later isWord new
    rw [parse_uses table, parse_unknown isWord new]
    rfl

/-- Values that look like the mark and like an option, an option that is given twice, and an operand
that looks like an option. -/
theorem parse_exact_dashes :
    let specs : List OptionSpec := [⟨"-delay", true⟩, ⟨"-force", false⟩]
    IsTable specs ∧ IsOptionWord "-x" ∧ (∀ spec ∈ specs, spec.name ≠ Text.ofString "-x") ∧
      (∃ o, parse specs ["-delay", "--", "-force", "-delay", "-force", "--", "-x"] = .ok (o, ["-x"]) ∧
        o.has "-force" = true ∧ o.value? "-delay" = some (Text.ofString "-force")) ∧
      parse specs ["-delay", "--", "-force", "-delay", "-force", "-x"] =
        .error (unknown "-x" specs) := by
  intro specs
  have table : IsTable specs := ⟨by decide, by decide⟩
  have isWord : IsOptionWord "-x" := by decide
  have new : ∀ spec ∈ specs, spec.name ≠ Text.ofString "-x" := by decide
  let delay (value : Text) : Use specs := ⟨⟨"-delay", true⟩, some value, by simp [specs], rfl⟩
  let force : Use specs := ⟨⟨"-force", false⟩, none, by simp [specs], rfl⟩
  obtain ⟨⟨o, marked, -, has, valued⟩, refused⟩ :=
    parse_exact table [delay "--", force, delay "-force"]
  refine ⟨table, isWord, new, ⟨o, marked ["-x"], ?_, ?_⟩, refused _ [] isWord new⟩
  · exact (has "-force").mpr ⟨force, by simp, rfl⟩
  · exact (valued "-delay" "-force").mpr ⟨[delay "--", force], delay "-force", [], rfl, rfl, rfl, nofun⟩

end Options

end InterpTree
