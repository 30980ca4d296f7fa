import InterpTree.Engine.Evaluate
import InterpTree.Proofs.ListReading
import InterpTree.Proofs.Scanning

/-!
When a formatted list is a command that calls its first element with the others. Substitution finds
nothing in its words, but the evaluator takes a hash at the start of a bare word for a comment. That
such a text is no command is seen by counting hashes: formatting keeps all of them, a comment swallows
one, and reading makes none.
-/

namespace InterpTree

namespace Script

open Text

/-! ### What words stand for -/

/-- Bytes that a piece stands for by itself. -/
def Piece.bytes : Piece → Text
  | .plain bytes => bytes
  | .reference _ | .bracketed _ | .unclosed => []

/-- Whether a piece is there as it is, with no variable to read and no script to run. -/
def Piece.isPlain : Piece → Bool
  | .plain _ => true
  | .reference _ | .bracketed _ | .unclosed => false

/-- Whether substitution leaves a word to itself: it is in braces, or it has plain pieces only. -/
def Word.isLiteral (w : Word) : Bool := w.form = .braced || (pieces w.text).all Piece.isPlain

/-- What a word that is left to itself stands for. -/
def Word.reading (w : Word) : Text :=
  if w.form = .braced then w.text else (pieces w.text).flatMap Piece.bytes

theorem pieces_of_escapes {s t : Text} (escapes : Escapes s t) :
    (pieces t).all Piece.isPlain = true ∧ (pieces t).flatMap Piece.bytes = s := by
  induction escapes with
  | nil => simp [pieces]
  | @plain c s t unmarked escapes ih =>
    obtain ⟨-, -, -, slash, -, -, bracket, dollar'⟩ := neutral_of_not_isSpecial unmarked
    rw [pieces.eq_def]
    simp only [if_neg slash, if_neg dollar', if_neg bracket, List.all_cons, List.flatMap_cons,
      ih.1, ih.2]
    exact ⟨rfl, rfl⟩
  | @marked c d s t means line escapes ih =>
    rw [pieces.eq_def]
    simp only [↓reduceIte, List.all_cons, List.flatMap_cons, ih.1, ih.2]
    exact ⟨rfl, by rw [Piece.bytes, means]; rfl⟩

theorem reading_of_spells {w : Word} {field : Text} (spells : Spells w field) :
    w.isLiteral = true ∧ w.reading = field := by
  cases spells with
  | braced => exact ⟨rfl, rfl⟩
  | bare nonempty escapes =>
    obtain ⟨all, same⟩ := pieces_of_escapes escapes
    exact ⟨by simpa [Word.isLiteral] using all, by simpa [Word.reading] using same⟩

theorem Lays.readings {s : Text} {ws : List Word} {read : List Text} (lays : Lays s ws read) :
    (∀ w ∈ ws, w.isLiteral = true) ∧ ws.map Word.reading = read := by
  induction lays with
  | blank => exact ⟨by simp, rfl⟩
  | word blanks spells ends lays ih =>
    obtain ⟨isLiteral, reading⟩ := reading_of_spells spells
    exact ⟨List.forall_mem_cons.mpr ⟨isLiteral, ih.1⟩, by rw [List.map_cons, reading, ih.2]⟩

end Script

namespace Engine

variable (e : Engine) (context : Option Context) (id : NodeId)

/-- Plain pieces are put together without a look at the world. -/
theorem substitutePieces_of_isPlain {ps : List Script.Piece}
    (plain : ps.all Script.Piece.isPlain = true) :
    e.substitutePieces context id ps = pure (.ok (ps.flatMap Script.Piece.bytes)) := by
  induction ps with
  | nil => rfl
  | cons p ps ih =>
    obtain ⟨first, others⟩ := Bool.and_eq_true_iff.mp plain
    cases p with
    | plain bytes =>
      rw [substitutePieces]
      simp only [pure_bind, ih others, List.flatMap_cons]
      rfl
    | reference => cases first
    | bracketed => cases first
    | unclosed => cases first

/-- Words that are left to themselves are read without a look at the world. -/
theorem substituteWords_of_isLiteral {ws : List Script.Word}
    (literal : ∀ w ∈ ws, w.isLiteral = true) :
    e.substituteWords context id ws = pure (.ok (ws.map Script.Word.reading)) := by
  induction ws with
  | nil => rfl
  | cons w ws ih =>
    obtain ⟨first, others⟩ := List.forall_mem_cons.mp literal
    rw [substituteWords, List.map_cons, Script.Word.reading]
    split
    · simp only [pure_bind, ih others]
      rfl
    · rename_i form
      simp only [Script.Word.isLiteral, form, decide_false, Bool.false_or] at first
      rw [substitute, e.substitutePieces_of_isPlain context id first]
      simp only [pure_bind, ih others]
      rfl

end Engine

namespace Script

open Text

/-! ### The command that a layout makes -/

theorem takeBare_of_escapes {s t : Text} (escapes : Escapes s t) {rest : Text}
    (ends : atGap rest = true) : takeBare (t ++ rest) = .ok (t, rest) := by
  induction escapes with
  | nil =>
    cases rest with
    | nil => rw [List.nil_append, takeBare.eq_def]
    | cons c rest =>
      rw [List.nil_append, takeBare.eq_def]
      simp only [show isBlank c = true from ends, Bool.true_or, if_true]
  | @plain c s t unmarked escapes ih =>
    obtain ⟨blank, terminator, -, slash, -, -, bracket, -⟩ := neutral_of_not_isSpecial unmarked
    rw [List.cons_append, takeBare.eq_def]
    simp only [blank, terminator, Bool.or_self, Bool.false_eq_true, if_false, if_neg slash,
      if_neg bracket, ih]
    rfl
  | @marked c d s t means line escapes ih =>
    have goesOn : (isBlank backslash || isTerminator backslash) = false := by decide
    rw [List.cons_append, List.cons_append, takeBare.eq_def]
    simp only [goesOn, Bool.false_eq_true, ↓reduceIte, ih]
    rfl

/-- A word that spells a field is read as it is, and starts as a comment only in bare form. -/
theorem word_of_spells {w : Word} {field : Text} (spells : Spells w field) {rest : Text}
    (ends : atGap rest = true) :
    ∃ c t, w.written ++ rest = c :: t ∧ isBlank c = false ∧ isTerminator c = false ∧
      takeGap (c :: t) = ([], c :: t) ∧ word c t = .ok (w, rest) ∧
      (c = hash → w.form = .bare ∧ field.head? = some hash) := by
  cases spells with
  | braced braceable =>
    refine ⟨openBrace, field ++ closeBrace :: rest, by simp [Word.written], by decide, by decide,
      ?_, ?_, fun same => absurd same (by decide)⟩
    · rw [takeGap.eq_def]
      rfl
    · rw [word, if_pos rfl, bracedWord_of_isBraceable braceable ends]
  | bare nonempty escapes =>
    have taken := takeBare_of_escapes escapes ends
    obtain ⟨c, u, rfl, blank, terminator, -, brace, quote, start⟩ :=
      head_of_escapes nonempty escapes
    refine ⟨c, u ++ rest, rfl, blank, terminator, ?_, ?_, fun same => ⟨rfl, start same⟩⟩
    · rw [takeGap.eq_def]
      cases escapes with
      | plain unmarked =>
        obtain ⟨-, -, -, slash, -⟩ := neutral_of_not_isSpecial unmarked
        simp only [blank, Bool.false_eq_true, if_false, if_neg slash]
      | marked means line => simp [blank, line]
    · rw [List.cons_append] at taken
      rw [word, if_neg brace, if_neg quote, bareWord, taken]
      rfl

/-- The words that a text is laid out as are the words of the command it starts with, and nothing is
left. -/
theorem takeWords_of_lays {s : Text} {ws : List Word} {read : List Text} (lays : Lays s ws read) :
    takeWords s = .ok (ws, s, []) := by
  induction lays with
  | @blank gap blanks =>
    have all : takeGap gap = (gap, []) := by
      have left := takeGap_append blanks []
      rwa [List.append_nil, takeGap, put, List.append_nil] at left
    rw [takeWords.eq_def]
    split
    · rename_i gap' found
      rw [all] at found
      cases found
      rfl
    · rename_i found
      rw [all] at found
      cases found
  | @word gap rest w field ws more blanks spells ends lays ih =>
    obtain ⟨c, t, starts, -, terminator, bare, found, -⟩ := word_of_spells spells ends
    have left := takeGap_append blanks (c :: t)
    rw [bare] at left
    rw [List.append_assoc, starts, takeWords.eq_def]
    split
    · rename_i none
      rw [left] at none
      cases none
    · rename_i some
      rw [left] at some
      cases some
      rw [dif_neg (by simp [terminator])]
      split
      · rename_i failed
        rw [found] at failed
        cases failed
      · rename_i taken
        rw [found] at taken
        cases taken
        simp only [ih, Except.map, List.append_nil, List.append_assoc, starts]

theorem takeIdle_append {gap : Text} (blanks : ∀ c ∈ gap, isBlank c = true) (s : Text) :
    takeIdle false (gap ++ s) = put gap (takeIdle false s) := by
  induction gap with
  | nil => rfl
  | cons c gap ih =>
    obtain ⟨first, others⟩ := List.forall_mem_cons.mp blanks
    rw [List.cons_append, takeIdle.eq_def]
    simp only [first, Bool.true_or, Bool.false_eq_true, if_true, if_false, ih others]
    rfl

/-- Whether a script with this text starts with a comment. -/
def startsComment (s : Text) : Bool := (s.dropWhile isBlank).head? == some hash

theorem startsComment_append {gap : Text} (blanks : ∀ c ∈ gap, isBlank c = true) {c : UInt8}
    (start : isBlank c = false) (s : Text) : startsComment (gap ++ c :: s) = (c == hash) := by
  rw [startsComment, List.dropWhile_append_of_pos blanks,
    List.dropWhile_cons_of_neg (by simp [start]), List.head?_cons, Option.some_beq_some]

theorem parse_of_lays_nil {s : Text} {read : List Text} (lays : Lays s [] read) :
    parse s = .ok [] := by
  cases lays with
  | blank blanks =>
    have idle := takeIdle_append blanks []
    rw [List.append_nil] at idle
    rw [parse, commands_of_takeIdle idle]
    rfl

/-- A text that is laid out as words is one command of these words, unless it starts with a
comment. -/
theorem parse_of_lays {s : Text} {w : Word} {ws : List Word} {read : List Text}
    (lays : Lays s (w :: ws) read) (start : startsComment s = false) :
    ∃ command, parse s = .ok [command] ∧ command.words = w :: ws := by
  cases lays with
  | @word gap rest _ field _ more blanks spells ends lays =>
    have none : ∀ c ∈ ([] : Text), isBlank c = true := by simp
    have whole := Lays.word none spells ends lays
    obtain ⟨c, t, starts, blank, terminator, -, -, -⟩ := word_of_spells spells ends
    rw [List.append_assoc, starts] at start ⊢
    rw [List.nil_append, starts] at whole
    rw [startsComment_append blanks blank, beq_eq_false_iff_ne] at start
    have idle : takeIdle false (gap ++ c :: t) = (gap, c :: t) := by
      rw [takeIdle_append blanks, takeIdle.eq_def]
      simp only [blank, terminator, Bool.or_self, Bool.false_eq_true, if_false, if_neg start]
      simp [put]
    have taken := takeWords_of_lays whole
    have nothing : takeIdle false [] = ([], []) := rfl
    rw [parse, commands_of_takeWords idle taken, commands_of_takeIdle nothing]
    exact ⟨_, rfl, rfl⟩

/-! ### Hashes -/

/-- A backslash makes a hash of nothing but a hash. -/
theorem count_hash_unescape_le (d : UInt8) : (unescape d).count hash ≤ [d].count hash := by
  have wide (n : Nat) (low : 128 ≤ n) (high : n < 256) : n.toUInt8 ≠ hash := by
    intro same
    have value : n.toUInt8.toNat = n := UInt8.toNat_ofNat_of_lt high
    have small : Text.hash.toNat = 35 := rfl
    rw [same, small] at value
    omega
  have bound := d.toNat_lt
  unfold unescape
  split
  · exact Nat.zero_le _
  · split
    · exact Nat.zero_le _
    · split
      · exact Nat.zero_le _
      · split
        · exact Nat.zero_le _
        · unfold ofCodePoint
          split
          · simp
          · have first := wide (192 + d.toNat / 64) (by omega) (by omega)
            have second := wide (128 + d.toNat % 64) (by omega) (by omega)
            rw [if_pos (by omega), List.count_eq_zero.mpr]
            · exact Nat.zero_le _
            · simp only [List.mem_cons, List.not_mem_nil, or_false, not_or]
              exact ⟨Ne.symm first, Ne.symm second⟩

theorem count_hash_pieces_le {s : Text} (plain : (pieces s).all Piece.isPlain = true) :
    ((pieces s).flatMap Piece.bytes).count hash ≤ s.count hash := by
  have itself {c : UInt8} {t : Text}
      (later : ((pieces t).flatMap Piece.bytes).count hash ≤ t.count hash) :
      (c :: (pieces t).flatMap Piece.bytes).count hash ≤ (c :: t).count hash := by
    simp only [List.count_cons]
    omega
  fun_induction pieces s with
  | case1 => exact Nat.le_refl _
  | case2 => exact Nat.le_refl _
  | case3 d u ih =>
    have slash : backslash ≠ hash := by decide
    rw [List.flatMap_cons, List.count_append, List.count_cons_of_ne slash, ← List.singleton_append,
      List.count_append]
    exact Nat.add_le_add (count_hash_unescape_le d) (ih plain)
  | case4 t name rest found shorter empty slash ih => exact itself (ih plain)
  | case8 c t slash dollar bracket ih => exact itself (ih plain)
  | case5 => cases plain
  | case6 => cases plain
  | case7 => cases plain

theorem count_hash_reading_le {w : Word} (literal : w.isLiteral = true) :
    w.reading.count hash ≤ w.written.count hash := by
  have inside : w.text.Sublist w.written := by
    unfold Word.written
    split
    · exact List.Sublist.refl _
    · exact (List.sublist_append_left _ _).cons _
    · exact (List.sublist_append_left _ _).cons _
  refine Nat.le_trans ?_ (inside.count_le hash)
  unfold Word.reading
  split
  · exact Nat.le_refl _
  · rename_i form
    simp only [Word.isLiteral, form, decide_false, Bool.false_or] at literal
    exact count_hash_pieces_le literal

theorem count_hash_takeWords_le {s source rest : Text} {ws : List Word}
    (taken : takeWords s = .ok (ws, source, rest)) (literal : ∀ w ∈ ws, w.isLiteral = true) :
    (ws.map Word.reading).flatten.count hash ≤ source.count hash := by
  fun_induction takeWords s generalizing ws source with
  | case1 =>
    cases taken
    exact Nat.zero_le _
  | case2 =>
    cases taken
    exact Nat.zero_le _
  | case3 => cases taken
  | case4 s gap c t starts terminator w mid found shorter ih =>
    cases more : takeWords mid with
    | error => rw [more] at taken; cases taken
    | ok others =>
      obtain ⟨ws', source', rest'⟩ := others
      rw [more] at taken
      cases taken
      obtain ⟨first, others⟩ := List.forall_mem_cons.mp literal
      have here := count_hash_reading_le first
      have there := ih more others
      simp only [List.map_cons, List.flatten_cons, List.count_append]
      omega

theorem count_takeIdle_le (inComment : Bool) (s : Text) (c : UInt8) :
    (takeIdle inComment s).2.count c ≤ s.count c := by
  have whole := congrArg (List.count c) (append_takeIdle inComment s)
  rw [List.count_append] at whole
  omega

/-- Commands read no more hashes than there are after the comments in front of them. -/
theorem count_hash_commands_le {line : Nat} {s : Text} {cs : List Command} {command : Command}
    (found : commands line s = .ok cs) (mem : command ∈ cs)
    (literal : ∀ w ∈ command.words, w.isLiteral = true) :
    (command.words.map Word.reading).flatten.count hash ≤ (takeIdle false s).2.count hash := by
  fun_induction commands line s generalizing cs with
  | case1 =>
    cases found
    cases mem
  | case2 => cases found
  | case3 =>
    rename_i line s idle c t starts ws source rest taken shorter line' more none ih
    have whole := congrArg (List.count hash) (eq_of_takeWords taken)
    have later := ih found mem
    have left := count_takeIdle_le false rest hash
    rw [List.count_append] at whole
    rw [starts]
    change _ ≤ (c :: t).count hash
    omega
  | case4 =>
    rename_i line s idle c t starts ws source rest taken shorter line' more some ih
    have whole := congrArg (List.count hash) (eq_of_takeWords taken)
    rw [List.count_append] at whole
    rw [starts]
    cases others : more with
    | error => rw [others] at found; cases found
    | ok cs' =>
      rw [others] at found
      cases found
      rcases List.mem_cons.mp mem with rfl | mem
      · have here := count_hash_takeWords_le taken literal
        change ((ws.map Word.reading).flatten).count hash ≤ (c :: t).count hash
        omega
      · have later := ih others mem
        have left := count_takeIdle_le false rest hash
        change _ ≤ (c :: t).count hash
        omega

/-- A comment swallows at least its own hash. -/
theorem count_takeIdle_lt {s : Text} (start : startsComment s = true) :
    (takeIdle false s).2.count hash < s.count hash := by
  induction s with
  | nil => cases start
  | cons c s ih =>
    rw [takeIdle.eq_def]
    cases blank : isBlank c with
    | true =>
      rw [startsComment, List.dropWhile_cons_of_pos blank] at start
      simp only [blank, Bool.true_or, Bool.false_eq_true, if_false, if_true, put]
      exact Nat.lt_of_lt_of_le (ih start) List.count_le_count_cons
    | false =>
      have same : c = hash := by
        simpa using (@startsComment_append [] (by simp) c blank s).symm.trans start
      subst same
      have terminator : isTerminator hash = false := by decide
      simp only [blank, terminator, Bool.or_self, Bool.false_eq_true, if_false, if_true, put,
        List.count_cons_self]
      exact Nat.lt_succ_of_le (count_takeIdle_le true s hash)

theorem count_hash_of_escapes {s t : Text} (escapes : Escapes s t) :
    t.count hash ≤ s.count hash := by
  induction escapes with
  | nil => exact Nat.le_refl _
  | plain unmarked escapes ih =>
    simp only [List.count_cons]
    omega
  | @marked c d s t means line escapes ih =>
    have slash : backslash ≠ hash := by decide
    rw [List.count_cons_of_ne slash]
    by_cases same : d = hash
    · subst same
      have here : unescape hash = [hash] := by decide
      obtain rfl := List.singleton_inj.mp (means.symm.trans here)
      simpa using ih
    · rw [List.count_cons_of_ne same]
      exact Nat.le_trans ih List.count_le_count_cons

theorem Spells.count_hash_le {w : Word} {field : Text} (spells : Spells w field) :
    w.written.count hash ≤ field.count hash := by
  cases spells with
  | braced =>
    have opens : openBrace ≠ hash := by decide
    have closes : closeBrace ≠ hash := by decide
    change (openBrace :: (field ++ [closeBrace])).count hash ≤ field.count hash
    rw [List.count_cons_of_ne opens, List.count_append, List.count_cons_of_ne closes]
    exact Nat.le_refl _
  | bare nonempty escapes => exact count_hash_of_escapes escapes

/-- A layout has no hashes but those of what it reads back as. -/
theorem Lays.count_hash_le {s : Text} {ws : List Word} {read : List Text} (lays : Lays s ws read) :
    s.count hash ≤ read.flatten.count hash := by
  have gaps {gap : Text} (blanks : ∀ c ∈ gap, isBlank c = true) : gap.count hash = 0 := by
    refine List.count_eq_zero.mpr fun mem => ?_
    exact absurd (blanks hash mem) (by decide)
  induction lays with
  | blank blanks =>
    rw [gaps blanks]
    exact Nat.zero_le _
  | word blanks spells ends lays ih =>
    have here := spells.count_hash_le
    rw [List.append_assoc, List.count_append, List.count_append, gaps blanks, List.flatten_cons,
      List.count_append]
    omega

/-! ### Formatted lists as commands -/

theorem exists_formatList (s : Text) (items : List Text) :
    ∃ rest, formatList (s :: items) = formatElement s ++ rest := by
  unfold formatList words join
  cases items with
  | nil => exact ⟨[], by simp⟩
  | cons t items =>
    rw [List.map_cons, List.map_cons, List.intercalate_cons_cons, List.append_assoc]
    exact ⟨_, rfl⟩

/-- A first element that starts with a hash makes a comment of the list just if braces cannot hold
it. -/
theorem startsComment_formatList {s : Text} (start : s.head? = some hash) (items : List Text) :
    startsComment (formatList (s :: items)) = !isBraceable s := by
  obtain ⟨rest, spelled⟩ := exists_formatList s items
  obtain ⟨t, rfl⟩ := List.head?_eq_some_iff.mp start
  have marked : (!(hash :: t).any isSpecial && (hash :: t).head? != some hash) = false := by
    simp
  rw [spelled, formatElement, marked]
  cases braceable : isBraceable (hash :: t) with
  | true =>
    rw [isBraceable] at braceable
    rw [braceable]
    rfl
  | false =>
    rw [isBraceable] at braceable
    rw [braceable]
    rfl

/-- A layout whose first word spells what does not start with a hash starts with no comment. -/
theorem Lays.startsComment_eq_false {s first : Text} {ws : List Word} {read : List Text}
    (lays : Lays s ws (first :: read)) (start : first.head? ≠ some hash) :
    startsComment s = false := by
  cases lays with
  | word blanks spells ends lays =>
    obtain ⟨c, t, starts, blank, -, -, -, same⟩ := word_of_spells spells ends
    rw [List.append_assoc, starts, startsComment_append blanks blank, beq_eq_false_iff_ne]
    exact fun isHash => start (same isHash).2

/-- A text that is laid out as words starts with no comment if it parses as a command that reads as
the same words: what a comment leaves has too few hashes. -/
theorem Lays.startsComment_of_parse {s : Text} {ws : List Word} {read : List Text}
    (lays : Lays s ws read) {command : Command} (parsed : parse s = .ok [command])
    (literal : ∀ w ∈ command.words, w.isLiteral = true)
    (all : read.flatten.count hash ≤ (command.words.map Word.reading).flatten.count hash) :
    startsComment s = false := by
  cases comment : startsComment s with
  | false => rfl
  | true =>
    have found : commands 1 s = .ok [command] := by
      unfold parse at parsed
      cases found : commands 1 s with
      | error => rw [found] at parsed; cases parsed
      | ok => rw [found] at parsed; cases parsed; rfl
    have heard := count_hash_commands_le found List.mem_cons_self literal
    have lost := count_takeIdle_lt comment
    have spelled := lays.count_hash_le
    omega

theorem Lays.readings_of_parse {s : Text} {ws : List Word} {read : List Text}
    (lays : Lays s ws read) (start : startsComment s = false) {command : Command}
    (parsed : parse s = .ok [command]) : command.words.map Word.reading = read := by
  match ws with
  | [] =>
    rw [parse_of_lays_nil lays] at parsed
    cases parsed
  | w :: ws =>
    obtain ⟨command', parsed', words⟩ := parse_of_lays lays start
    rw [parsed] at parsed'
    cases parsed'
    rw [words, lays.readings.2]

/-- A formatted list calls its first element with the others, with no variable read and no script
run, just if braces hold each element with a carriage return, and hold the first one if it starts
with a hash. -/
theorem formatList_calls_iff (first : Text) (others : List Text) :
    (∃ command, parse (formatList (first :: others)) = .ok [command] ∧
        command.words.length = (first :: others).length ∧
        (∀ w ∈ command.words, w.isLiteral = true) ∧
        ∀ (e : Engine) (context : Option Context) (id : NodeId),
          e.substituteWords context id command.words = pure (.ok (first :: others))) ↔
      (∀ s ∈ first :: others, carriageReturn ∈ s → isBraceable s = true) ∧
        (first.head? = some hash → isBraceable first = true) := by
  obtain ⟨ws, lays⟩ := lays_formatList (first :: others)
  constructor
  · rintro ⟨command, parsed, -, literal, values⟩
    have readings : command.words.map Word.reading = first :: others := by
      obtain ⟨idler⟩ : Nonempty Engine := ⟨⟨0, fun _ => pure {}, .timely⟩⟩
      have value := values idler none World.root
      rw [idler.substituteWords_of_isLiteral none World.root literal] at value
      injection congrFun value {} with value
      injection value
    -- A comment would swallow a hash, and the words that are left would read as fewer.
    have start : startsComment (formatList (first :: others)) = false := by
      refine lays.startsComment_of_parse parsed literal ?_
      rw [readings]
      exact count_flatMap_fields_le hash (first :: others)
    constructor
    · rw [← flatMap_fields_eq_iff, ← lays.readings_of_parse start parsed, readings]
    · intro isHash
      rw [startsComment_formatList isHash] at start
      simpa using start
  · rintro ⟨whole, held⟩
    rw [(flatMap_fields_eq_iff (first :: others)).mpr whole] at lays
    have start : startsComment (formatList (first :: others)) = false := by
      by_cases isHash : first.head? = some hash
      · rw [startsComment_formatList isHash, held isHash]
        rfl
      · exact lays.startsComment_eq_false isHash
    obtain ⟨literal, readings⟩ := lays.readings
    match ws with
    | [] => cases readings
    | w :: ws =>
      obtain ⟨command, parsed, words⟩ := parse_of_lays lays start
      refine ⟨command, parsed, ?_, ?_, fun e context id => ?_⟩
      · rw [words, ← readings, List.length_map]
      · rwa [words]
      · rw [words, e.substituteWords_of_isLiteral context id literal, readings]

end Script

end InterpTree
