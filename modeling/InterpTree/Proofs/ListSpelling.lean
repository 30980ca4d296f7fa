import InterpTree.Script.ListFormat
import InterpTree.Proofs.PathNames

/-!
How lists are spelled. A list is laid out as words with blanks between them. An element is one of the
words, unless it is written with backslashes: a carriage return has none before it, so that it comes
between two words.
-/

namespace InterpTree

namespace Script

open Text

/-- Whether braces can hold a text as it is. -/
def isBraceable (s : Text) : Bool := balanced 0 s && s.getLast? != some backslash

/-- A text with backslashes before the marks of the script language. -/
def escape (s : Text) : Text := s.flatMap escapeByte

/-- The runs of a text between its carriage returns. -/
def runs (s : Text) : List Text := (splitAt carriageReturn s).filter fun run => !run.isEmpty

/-- What an element is read back as. -/
def fields (s : Text) : List Text := if isBraceable s then [s] else runs s

/-- The second text holds the first one byte by byte: as itself if it is no mark, or as a backslash
and a byte that stands for it. -/
inductive Escapes : Text → Text → Prop
  | nil : Escapes [] []
  | plain {c : UInt8} {s t : Text} (unmarked : isSpecial c = false) (escapes : Escapes s t) :
    Escapes (c :: s) (c :: t)
  | marked {c d : UInt8} {s t : Text} (means : unescape d = [c]) (unbroken : d ≠ newline)
    (escapes : Escapes s t) : Escapes (c :: s) (backslash :: d :: t)

/-- Words that read as a field, whether or not marks in them are substituted. -/
inductive Spells : Word → Text → Prop
  | braced {s : Text} (braceable : isBraceable s = true) : Spells ⟨s, .braced⟩ s
  | bare {s t : Text} (nonempty : s ≠ []) (escapes : Escapes s t) : Spells ⟨t, .bare⟩ s

/-- Whether a word may end here without ending the command: at the end of the text or at a blank. -/
def atGap : Text → Bool
  | [] => true
  | c :: _ => isBlank c

/-- The text is laid out as words, which spell fields, between gaps of blanks. -/
inductive Lays : Text → List Word → List Text → Prop
  | blank {gap : Text} (blanks : ∀ c ∈ gap, isBlank c = true) : Lays gap [] []
  | word {gap rest : Text} {w : Word} {field : Text} {ws : List Word} {more : List Text}
    (blanks : ∀ c ∈ gap, isBlank c = true) (spells : Spells w field) (ends : atGap rest = true)
    (lays : Lays rest ws more) : Lays (gap ++ w.written ++ rest) (w :: ws) (field :: more)

/-! ### Bytes with backslashes -/

/-- A byte other than a carriage return is written as itself, if it is no mark, or as a backslash and
a byte that stands for it. -/
theorem escapeByte_cases {c : UInt8} (unbroken : c ≠ carriageReturn) :
    (isSpecial c = false ∧ escapeByte c = [c]) ∨
      ∃ d, escapeByte c = [backslash, d] ∧ unescape d = [c] ∧ d ≠ newline := by
  by_cases break' : c = newline
  · subst break'
    exact .inr ⟨110, by decide⟩
  · have other : (c != carriageReturn) = true := by simpa using unbroken
    rw [escapeByte, if_neg break', other, Bool.and_true]
    cases special : isSpecial c with
    | false => exact .inl ⟨rfl, rfl⟩
    | true =>
      refine .inr ⟨c, rfl, ?_, break'⟩
      simp only [isSpecial, Bool.or_eq_true, decide_eq_true_eq] at special
      rcases special with (((((((((((rfl | rfl) | rfl) | rfl) | rfl) | rfl) | rfl) | rfl) | rfl) |
        rfl) | rfl) | rfl)
      all_goals first | exact absurd rfl unbroken | exact absurd rfl break' | decide

@[simp] theorem escape_nil : escape [] = [] := rfl

theorem escape_cons (c : UInt8) (s : Text) : escape (c :: s) = escapeByte c ++ escape s := rfl

theorem escape_append (s t : Text) : escape (s ++ t) = escape s ++ escape t :=
  List.flatMap_append

theorem escape_of_plain {s : Text} (plain : s.any isSpecial = false) : escape s = s := by
  induction s with
  | nil => rfl
  | cons c s ih =>
    simp only [List.any_cons, Bool.or_eq_false_iff] at plain
    have line : c ≠ newline := by
      rintro rfl
      exact absurd plain.1 (by decide)
    rw [escape_cons, ih plain.2, escapeByte, if_neg line, plain.1]
    rfl

theorem escapes_escape {s : Text} (unbroken : carriageReturn ∉ s) : Escapes s (escape s) := by
  induction s with
  | nil => exact .nil
  | cons c s ih =>
    simp only [List.mem_cons, not_or] at unbroken
    rw [escape_cons]
    rcases escapeByte_cases (Ne.symm unbroken.1) with ⟨unmarked, same⟩ | ⟨d, same, means, line⟩
    · rw [same]
      exact .plain unmarked (ih unbroken.2)
    · rw [same]
      exact .marked means line (ih unbroken.2)

/-! ### Runs -/

theorem runs_of_not_mem {s : Text} (nonempty : s ≠ []) (unbroken : carriageReturn ∉ s) :
    runs s = [s] := by
  cases s with
  | nil => exact absurd rfl nonempty
  | cons c s =>
    rw [runs, splitAt_of_not_mem unbroken]
    rfl

theorem runs_append (s t : Text) : runs (s ++ carriageReturn :: t) = runs s ++ runs t := by
  rw [runs, splitAt_append, List.filter_append]
  rfl

theorem flatten_runs (s : Text) : (runs s).flatten = s.filter (· != carriageReturn) := by
  have parts (s : Text) :
      (splitAt carriageReturn s).flatten = s.filter (· != carriageReturn) := by
    induction s with
    | nil => rfl
    | cons c s ih =>
      rw [splitAt]
      split
      · rename_i same
        rw [List.flatten_cons, ih, List.filter_cons_of_neg (by simpa using same)]
        rfl
      · rename_i other
        rw [List.filter_cons_of_pos (by simpa using other), ← ih]
        cases splitAt carriageReturn s with
        | nil => rfl
        | cons first parts => rfl
  rw [runs, List.flatten_filter_not_isEmpty, parts]

/-! ### What lists read back as -/

theorem fields_of_isBraceable {s : Text} (braceable : isBraceable s = true) : fields s = [s] :=
  if_pos braceable

theorem fields_of_not_mem {s : Text} (nonempty : s ≠ []) (unbroken : carriageReturn ∉ s) :
    fields s = [s] := by
  unfold fields
  split
  · rfl
  · exact runs_of_not_mem nonempty unbroken

theorem count_fields_le (c : UInt8) (s : Text) : (fields s).flatten.count c ≤ s.count c := by
  unfold fields
  split
  · exact Nat.le_of_eq (congrArg (List.count c) List.flatten_singleton)
  · rw [flatten_runs]
    exact (List.filter_sublist).count_le c

theorem count_break_fields {s : Text} (apart : isBraceable s = false) :
    (fields s).flatten.count carriageReturn = 0 := by
  rw [fields, apart, if_neg Bool.false_ne_true, flatten_runs]
  exact List.count_eq_zero.mpr fun mem => by simpa using (List.mem_filter.mp mem).2

theorem count_flatMap_fields_le (c : UInt8) (items : List Text) :
    (items.flatMap fields).flatten.count c ≤ items.flatten.count c := by
  induction items with
  | nil => exact Nat.le_refl _
  | cons s items ih =>
    simp only [List.flatMap_cons, List.flatten_append, List.flatten_cons, List.count_append]
    exact Nat.add_le_add (count_fields_le c s) ih

/-- A list reads back as itself just if no element with a carriage return is written with
backslashes. -/
theorem flatMap_fields_eq_iff (items : List Text) :
    items.flatMap fields = items ↔
      ∀ s ∈ items, carriageReturn ∈ s → isBraceable s = true := by
  constructor
  · intro same s mem broken
    cases apart : isBraceable s with
    | true => rfl
    | false =>
      -- The carriage returns of `s` are gone, and no other element makes up for them.
      obtain ⟨before, after, rfl⟩ := List.append_of_mem mem
      have count := congrArg (fun read => read.flatten.count carriageReturn) same
      simp only [List.flatMap_append, List.flatMap_cons, List.flatten_append, List.flatten_cons,
        List.count_append, count_break_fields apart] at count
      have here := List.count_pos_iff.mpr broken
      have left := count_flatMap_fields_le carriageReturn before
      have right := count_flatMap_fields_le carriageReturn after
      omega
  · intro whole
    induction items with
    | nil => rfl
    | cons s items ih =>
      have first : fields s = [s] := by
        by_cases broken : carriageReturn ∈ s
        · exact fields_of_isBraceable (whole s List.mem_cons_self broken)
        · by_cases empty : s = []
          · subst empty
            rfl
          · exact fields_of_not_mem empty broken
      rw [List.flatMap_cons, first, ih fun t mem => whole t (List.mem_cons_of_mem s mem)]
      rfl

/-! ### Layouts -/

theorem atGap_append {s t : Text} (left : atGap s = true) (right : atGap t = true) :
    atGap (s ++ t) = true := by
  cases s with
  | nil => exact right
  | cons c s => exact left

theorem Lays.blank_append {gap s : Text} {ws : List Word} {read : List Text}
    (blanks : ∀ c ∈ gap, isBlank c = true) (lays : Lays s ws read) : Lays (gap ++ s) ws read := by
  cases lays with
  | blank more =>
    refine .blank fun c mem => ?_
    rcases List.mem_append.mp mem with here | there
    · exact blanks c here
    · exact more c there
  | word more spells ends lays =>
    rw [← List.append_assoc, ← List.append_assoc]
    refine .word (fun c mem => ?_) spells ends lays
    rcases List.mem_append.mp mem with here | there
    · exact blanks c here
    · exact more c there

theorem Lays.append {s t : Text} {ws ws' : List Word} {read read' : List Text}
    (lays : Lays s ws read) (ends : atGap t = true) (lays' : Lays t ws' read') :
    Lays (s ++ t) (ws ++ ws') (read ++ read') := by
  induction lays with
  | blank blanks => exact lays'.blank_append blanks
  | word blanks spells ends' lays ih =>
    rw [List.append_assoc]
    exact .word blanks spells (atGap_append ends' ends) ih

theorem Lays.one {w : Word} {field : Text} (spells : Spells w field) :
    Lays w.written [w] [field] := by
  have lays : Lays ([] ++ w.written ++ []) [w] [field] :=
    .word (by simp) spells rfl (.blank (by simp))
  rwa [List.nil_append, List.append_nil] at lays

theorem Lays.after_break {s : Text} {ws : List Word} {read : List Text} (lays : Lays s ws read) :
    Lays (carriageReturn :: s) ws read := by
  have blanks : ∀ c ∈ [carriageReturn], isBlank c = true := by simp [isBlank]
  exact lays.blank_append blanks

/-- Backslashes lay a text out as one word for each of its runs. -/
theorem lays_escape (s : Text) : ∃ ws, Lays (escape s) ws (runs s) := by
  by_cases broken : carriageReturn ∈ s
  · obtain ⟨run, rest, rfl, unbroken⟩ := List.eq_append_cons_of_mem broken
    have shorter : rest.length < (run ++ carriageReturn :: rest).length := by
      simp only [List.length_append, List.length_cons]
      omega
    obtain ⟨ws, lays⟩ := lays_escape rest
    rw [runs_append, escape_append, escape_cons]
    change ∃ ws, Lays (escape run ++ carriageReturn :: escape rest) ws _
    -- Two carriage returns in a row have no word between them.
    cases run with
    | nil => exact ⟨ws, lays.after_break⟩
    | cons c run =>
      rw [runs_of_not_mem (List.cons_ne_nil c run) unbroken]
      have first := Lays.one (.bare (List.cons_ne_nil c run) (escapes_escape unbroken))
      exact ⟨_, first.append rfl lays.after_break⟩
  · cases s with
    | nil => exact ⟨[], .blank (by simp)⟩
    | cons c s =>
      rw [runs_of_not_mem (List.cons_ne_nil c s) broken]
      exact ⟨_, Lays.one (.bare (List.cons_ne_nil c s) (escapes_escape broken))⟩
termination_by s.length

theorem isBraceable_of_plain {s : Text} (plain : s.any isSpecial = false) :
    isBraceable s = true := by
  have unmarked {mark : UInt8} (special : isSpecial mark = true) : mark ∉ s := fun mem => by
    rw [List.any_eq_false] at plain
    exact plain mark mem special
  have last : s.getLast? ≠ some backslash := fun ends =>
    unmarked (by decide) (List.mem_of_getLast? ends)
  have pairs (s : Text) (slash : backslash ∉ s) (opens : openBrace ∉ s) (closes : closeBrace ∉ s) :
      balanced 0 s = true := by
    induction s with
    | nil => rfl
    | cons c s ih =>
      simp only [List.mem_cons, not_or] at slash opens closes
      rw [balanced.eq_def]
      simp only [if_neg (Ne.symm slash.1), if_neg (Ne.symm opens.1), if_neg (Ne.symm closes.1)]
      exact ih slash.2 opens.2 closes.2
  rw [isBraceable, pairs s (unmarked (by decide)) (unmarked (by decide)) (unmarked (by decide))]
  simpa using last

/-- An element is laid out as what it reads back as, whichever way it is written. -/
theorem lays_formatElement (s : Text) : ∃ ws, Lays (formatElement s) ws (fields s) := by
  unfold formatElement
  split
  · rename_i empty
    obtain rfl := List.isEmpty_iff.mp empty
    have braceable : isBraceable [] = true := rfl
    exact ⟨_, Lays.one (.braced braceable)⟩
  · rename_i nonempty
    split
    · rename_i plain
      simp only [Bool.and_eq_true, Bool.not_eq_true'] at plain
      have unbroken : carriageReturn ∉ s := fun mem => by
        have := List.any_eq_false.mp plain.1 carriageReturn mem
        exact this (by decide)
      have bare := Spells.bare (fun none => nonempty (by rw [none]; rfl)) (escapes_escape unbroken)
      rw [fields_of_isBraceable (isBraceable_of_plain plain.1)]
      have lays := Lays.one bare
      rw [Word.written, escape_of_plain plain.1] at lays
      exact ⟨_, lays⟩
    · split
      · rename_i braceable
        rw [fields_of_isBraceable braceable]
        exact ⟨_, Lays.one (.braced braceable)⟩
      · rename_i apart
        rw [fields, isBraceable, if_neg apart]
        exact lays_escape s

/-- A list is laid out as words that spell what it reads back as. -/
theorem lays_formatList (items : List Text) :
    ∃ ws, Lays (formatList items) ws (items.flatMap fields) := by
  unfold formatList words join
  induction items with
  | nil => exact ⟨[], .blank (by simp)⟩
  | cons s items ih =>
    obtain ⟨ws, first⟩ := lays_formatElement s
    obtain ⟨ws', others⟩ := ih
    match items with
    | [] =>
      simp only [List.map_cons, List.map_nil, List.intercalate_singleton, List.flatMap_cons,
        List.flatMap_nil, List.append_nil]
      exact ⟨ws, first⟩
    | t :: items =>
      have gap : ∀ c ∈ ofString " ", isBlank c = true := by
        intro c mem
        have space : ofString " " = [32] := by decide
        rw [space] at mem
        rw [List.mem_singleton.mp mem]
        rfl
      rw [List.map_cons, List.map_cons, List.intercalate_cons_cons, List.flatMap_cons,
        List.append_assoc]
      exact ⟨ws ++ ws', first.append rfl (others.blank_append gap)⟩

end Script

end InterpTree
