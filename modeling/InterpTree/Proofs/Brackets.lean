import InterpTree.Script.Reference
import InterpTree.Proofs.Continuation

/-!
Brackets that the parser closes and brackets that substitution meets. The two scan a word alike but
for a reference with its name in braces: only substitution takes it as a whole. Where such a name
holds an open bracket, the parser looks on for the bracket that closes it and comes out elsewhere.
-/

namespace InterpTree

namespace Script

open Text

/-! ### What the parser closes -/

/-- Each bracket that the parser meets in the text is closed in it. -/
inductive Closed : Text → Prop
  | nil : Closed []
  | slash : Closed [backslash]
  | escape (d : UInt8) {s : Text} (more : Closed s) : Closed (backslash :: d :: s)
  | brackets {s inside rest : Text}
    (taken : takeBrackets (openBracket :: s) 0 s = .ok (inside, rest)) (more : Closed rest) :
    Closed (openBracket :: s)
  | other {c : UInt8} {s : Text} (slash : c ≠ backslash) (bracket : c ≠ openBracket)
    (more : Closed s) : Closed (c :: s)

section

variable {s t inside rest text : Text} {c : UInt8}

@[simp] theorem closed_escape (d : UInt8) : Closed (backslash :: d :: s) ↔ Closed s := by
  constructor
  · intro closed
    cases closed with
    | escape _ more => exact more
    | other slash => exact absurd rfl slash
  · exact .escape d

theorem closed_other (slash : c ≠ backslash) (bracket : c ≠ openBracket) :
    Closed (c :: s) ↔ Closed s := by
  constructor
  · intro closed
    cases closed with
    | slash => exact absurd rfl slash
    | escape => exact absurd rfl slash
    | brackets => exact absurd rfl bracket
    | other _ _ more => exact more
  · exact .other slash bracket

theorem exists_of_closed_openBracket (closed : Closed (openBracket :: s)) :
    ∃ inside rest, takeBrackets (openBracket :: s) 0 s = .ok (inside, rest) ∧ Closed rest := by
  cases closed with
  | brackets taken more => exact ⟨_, _, taken, more⟩
  | other _ bracket => exact absurd rfl bracket

/-- Closed text leaves what follows a byte after it to be scanned by itself; a backslash at the end
takes the byte with it. -/
theorem Closed.of_append (closed : Closed s) (slash : c ≠ backslash) (bracket : c ≠ openBracket)
    (whole : Closed (s ++ c :: t)) : Closed t := by
  induction closed with
  | nil => exact (closed_other slash bracket).mp whole
  | slash => exact (closed_escape c).mp whole
  | escape d _ ih => exact ih ((closed_escape d).mp whole)
  | @brackets s inside rest taken _ ih =>
    obtain ⟨inside', rest', taken', more⟩ := exists_of_closed_openBracket whole
    cases (takeBrackets_append taken _ (c :: t)).symm.trans taken'
    exact ih more
  | other slash' bracket' _ ih => exact ih ((closed_other slash' bracket').mp whole)

/-! ### Words of a script are closed -/

/-- Brackets that are closed in the text are closed in the word that ends after them. -/
theorem closed_of_takeBrackets {start : Text} (taken : takeBrackets start 0 s = .ok (inside, rest))
    (more : Closed text) : Closed (openBracket :: inside ++ [closeBracket] ++ text) := by
  rw [List.append_assoc]
  exact .brackets (takeBrackets_exact taken _ text) more

theorem closed_of_takeQuoted {start : Text} (taken : takeQuoted start s = .ok (inside, rest)) :
    Closed inside := by
  fun_induction takeQuoted start s generalizing inside with
  | case1 => cases taken
  | case2 => cases taken
  | case3 d s ih =>
    obtain ⟨text, found, rfl⟩ := eq_of_mapOk_put taken
    exact .escape d (ih found)
  | case4 => cases taken
  | case5 s text tail slash brackets shorter ih =>
    obtain ⟨text', found, rfl⟩ := eq_of_mapOk_put taken
    exact closed_of_takeBrackets brackets (ih found)
  | case6 =>
    cases taken
    exact .nil
  | case7 c s slash bracket quote ih =>
    obtain ⟨text, found, rfl⟩ := eq_of_mapOk_put taken
    exact .other slash bracket (ih found)

theorem closed_of_takeBare (taken : takeBare s = .ok (text, rest)) : Closed text := by
  fun_induction takeBare s generalizing text with
  | case1 =>
    cases taken
    exact .nil
  | case2 =>
    cases taken
    exact .nil
  | case3 =>
    cases taken
    exact .slash
  | case4 d s goes ih =>
    obtain ⟨text', found, rfl⟩ := eq_of_mapOk_put taken
    exact .escape d (ih found)
  | case5 => cases taken
  | case6 s inside tail goes slash brackets shorter ih =>
    obtain ⟨text', found, rfl⟩ := eq_of_mapOk_put taken
    exact closed_of_takeBrackets brackets (ih found)
  | case7 c s goes slash bracket ih =>
    obtain ⟨text', found, rfl⟩ := eq_of_mapOk_put taken
    exact .other slash bracket (ih found)

theorem closed_of_word {w : Word} (taken : word c s = .ok (w, rest)) (form : w.form ≠ .braced) :
    Closed w.text := by
  by_cases brace : c = openBrace
  · subst brace
    rw [word_openBrace] at taken
    split at taken
    · cases taken
    · split at taken
      · cases taken
        exact absurd rfl form
      · cases taken
  by_cases quote : c = quoteMark
  · subst quote
    rw [word_quoteMark] at taken
    split at taken
    · cases taken
    · rename_i found
      split at taken
      · cases taken
        exact closed_of_takeQuoted found
      · cases taken
  · rw [word_bare brace quote] at taken
    cases found : takeBare (c :: s) with
    | error e =>
      rw [found] at taken
      cases taken
    | ok r =>
      rw [found] at taken
      cases taken
      exact closed_of_takeBare found

theorem exists_word_of_takeWords {source : Text} {ws : List Word} {w : Word}
    (taken : takeWords s = .ok (ws, source, rest)) (mem : w ∈ ws) :
    ∃ c t rest, word c t = .ok (w, rest) := by
  fun_induction takeWords s generalizing ws source with
  | case1 =>
    cases taken
    cases mem
  | case2 =>
    cases taken
    cases mem
  | case3 => cases taken
  | case4 s gap c t starts goes w' mid found shorter ih =>
    cases others : takeWords mid with
    | error e =>
      rw [others] at taken
      cases taken
    | ok r =>
      rw [others] at taken
      cases taken
      rcases List.mem_cons.mp mem with rfl | later
      · exact ⟨c, t, mid, found⟩
      · exact ih others later

/-- Each word of a script is read where it starts. -/
theorem exists_word_of_commands {line : Nat} {cs : List Command} {command : Command} {w : Word}
    (found : commands line s = .ok cs) (mem : command ∈ cs) (word_mem : w ∈ command.words) :
    ∃ c t rest, word c t = .ok (w, rest) := by
  fun_induction commands line s generalizing cs with
  | case1 =>
    cases found
    cases mem
  | case2 => cases found
  | case3 line s idle c t starts ws source rest words shorter line' later empty =>
    rename_i ih
    exact ih found mem
  | case4 line s idle c t starts ws source rest words shorter line' later nonempty =>
    rename_i ih
    cases others : later with
    | error e =>
      rw [others] at found
      cases found
    | ok cs' =>
      rw [others] at found
      cases found
      rcases List.mem_cons.mp mem with rfl | mem
      · exact exists_word_of_takeWords words word_mem
      · exact ih others mem

end

/-! ### What substitution meets -/

section

variable {s t inside rest name text : Text} {depth braces : Nat} {seen : Text} {c : UInt8}

@[simp] theorem matchBracket_nil : matchBracket depth braces seen [] = none := by
  rw [matchBracket.eq_def]

@[simp] theorem matchBracket_slash : matchBracket depth braces seen [backslash] = none := by
  rw [matchBracket.eq_def]
  simp

@[simp] theorem matchBracket_backslash (d : UInt8) :
    matchBracket depth braces seen (backslash :: d :: s) =
      matchBracket depth braces (d :: backslash :: seen) s := by
  rw [matchBracket.eq_def]
  simp

@[simp] theorem matchBracket_openBrace :
    matchBracket depth braces seen (openBrace :: s) =
      matchBracket depth (braces + 1) (openBrace :: seen) s := by
  have slash : openBrace ≠ backslash := by decide
  rw [matchBracket.eq_def]
  simp [slash]

@[simp] theorem matchBracket_closeBrace :
    matchBracket depth braces seen (closeBrace :: s) =
      matchBracket depth (braces - 1) (closeBrace :: seen) s := by
  have slash : closeBrace ≠ backslash := by decide
  have brace : closeBrace ≠ openBrace := by decide
  rw [matchBracket.eq_def]
  simp [slash, brace]

@[simp] theorem matchBracket_openBracket :
    matchBracket depth 0 seen (openBracket :: s) =
      matchBracket (depth + 1) 0 (openBracket :: seen) s := by
  have slash : openBracket ≠ backslash := by decide
  have brace : openBracket ≠ openBrace := by decide
  have close : openBracket ≠ closeBrace := by decide
  rw [matchBracket.eq_def]
  simp [slash, brace, close]

@[simp] theorem matchBracket_closeBracket_zero :
    matchBracket 0 0 seen (closeBracket :: s) = some (seen.reverse, s) := by
  have slash : closeBracket ≠ backslash := by decide
  have brace : closeBracket ≠ openBrace := by decide
  have close : closeBracket ≠ closeBrace := by decide
  have bracket : closeBracket ≠ openBracket := by decide
  rw [matchBracket.eq_def]
  simp [slash, brace, close, bracket]

@[simp] theorem matchBracket_closeBracket_succ :
    matchBracket (depth + 1) 0 seen (closeBracket :: s) =
      matchBracket depth 0 (closeBracket :: seen) s := by
  have slash : closeBracket ≠ backslash := by decide
  have brace : closeBracket ≠ openBrace := by decide
  have close : closeBracket ≠ closeBrace := by decide
  have bracket : closeBracket ≠ openBracket := by decide
  rw [matchBracket.eq_def]
  simp [slash, brace, close, bracket]

theorem matchBracket_other (slash : c ≠ backslash) (brace : c ≠ openBrace) (close : c ≠ closeBrace)
    (counts : (c = openBracket ∨ c = closeBracket) → braces ≠ 0) :
    matchBracket depth braces seen (c :: s) = matchBracket depth braces (c :: seen) s := by
  have opens : (c = openBracket && braces = 0) = false := by
    simpa using fun same => counts (.inl same)
  have closes : (c = closeBracket && braces = 0) = false := by
    simpa using fun same => counts (.inr same)
  rw [matchBracket.eq_def]
  simp only [slash, brace, close, opens, closes, Bool.false_eq_true, if_false]

/-- Brackets in braces do not count, and the braces are closed where the parser says. -/
theorem matchBracket_of_takeBraces (taken : takeBraces braces s = some (inside, rest)) :
    matchBracket depth (braces + 1) seen s =
      matchBracket depth 0 (closeBrace :: (inside.reverse ++ seen)) rest := by
  fun_induction takeBraces braces s generalizing inside seen with
  | case1 => cases taken
  | case2 => cases taken
  | case3 braces d s ih =>
    obtain ⟨text, found, rfl⟩ := eq_of_map_put taken
    simp [ih found]
  | case4 braces s slash ih =>
    obtain ⟨text, found, rfl⟩ := eq_of_map_put taken
    simp [ih found]
  | case5 s slash brace =>
    cases taken
    simp
  | case6 s braces slash brace ih =>
    obtain ⟨text, found, rfl⟩ := eq_of_map_put taken
    simp [ih found]
  | case7 braces c s slash brace close ih =>
    obtain ⟨text, found, rfl⟩ := eq_of_map_put taken
    rw [matchBracket_other slash brace close fun _ => Nat.succ_ne_zero braces, ih found]
    simp

/-- Outside of braces a byte that neither opens nor closes anything is passed over. -/
theorem matchBracket_passed (slash : c ≠ backslash) (brace : c ≠ openBrace)
    (bracket : c ≠ openBracket) (close : c ≠ closeBracket) :
    matchBracket depth 0 seen (c :: s) = matchBracket depth 0 (c :: seen) s := by
  by_cases same : c = closeBrace
  · subst same
    rw [matchBracket_closeBrace]
  · exact matchBracket_other slash brace same fun isBracket =>
      absurd isBracket (by simp [bracket, close])

/-- Where the parser finds the bracket that closes a command, substitution finds it too. -/
theorem matchBracket_of_takeBrackets {start : Text}
    (taken : takeBrackets start depth s = .ok (inside, rest)) :
    matchBracket depth 0 seen s = some (seen.reverse ++ inside, rest) := by
  fun_induction takeBrackets start depth s generalizing inside seen with
  | case1 => cases taken
  | case2 => cases taken
  | case3 depth d s ih =>
    obtain ⟨text, found, rfl⟩ := eq_of_mapOk_put taken
    simp [ih found]
  | case4 => cases taken
  | case5 depth s text tail closes shorter slash ih =>
    obtain ⟨text', found, rfl⟩ := eq_of_mapOk_put taken
    simp [matchBracket_of_takeBraces closes, ih found]
  | case6 depth s slash brace ih =>
    obtain ⟨text, found, rfl⟩ := eq_of_mapOk_put taken
    simp [ih found]
  | case7 s slash brace bracket =>
    cases taken
    simp
  | case8 s depth slash brace bracket ih =>
    obtain ⟨text, found, rfl⟩ := eq_of_mapOk_put taken
    simp [ih found]
  | case9 depth c s slash brace bracket close ih =>
    obtain ⟨text, found, rfl⟩ := eq_of_mapOk_put taken
    rw [matchBracket_passed slash brace bracket close, ih found]
    simp

theorem isNameByte_neutral (named : isNameByte c = true) :
    c ≠ backslash ∧ c ≠ openBracket := by
  constructor
  · rintro rfl
    exact absurd named (by decide)
  · rintro rfl
    exact absurd named (by decide)

/-- A name that is not in braces holds no brackets, and the parser reads on after it. -/
theorem closed_dropWhile (closed : Closed s) :
    Closed (s.takeWhile isNameByte) ∧ Closed (s.dropWhile isNameByte) := by
  induction s with
  | nil => exact ⟨.nil, .nil⟩
  | cons c s ih =>
    cases named : isNameByte c with
    | false => simpa [named] using ⟨Closed.nil, closed⟩
    | true =>
      obtain ⟨slash, bracket⟩ := isNameByte_neutral named
      obtain ⟨name, more⟩ := ih ((closed_other slash bracket).mp closed)
      simpa [named] using ⟨Closed.other slash bracket name, more⟩

theorem eq_of_cutFirst {mark : UInt8} (found : cutFirst mark s = some (name, rest)) :
    s = name ++ mark :: rest := by
  induction s generalizing name with
  | nil => cases found
  | cons c s ih =>
    rw [cutFirst] at found
    split at found
    · rename_i same
      cases found
      rw [same, List.nil_append]
    · obtain ⟨⟨before, after⟩, cut, same⟩ := Option.map_eq_some_iff.mp found
      cases same
      rw [ih cut, List.cons_append]

/-- After a reference the parser goes on where substitution does, if the name leaves no bracket
open. -/
theorem closed_of_variableName (closed : Closed s) (found : variableName s = (name, rest))
    (inside : Closed name) : Closed rest := by
  unfold variableName at found
  split at found
  · cases found
    exact .nil
  · rename_i c t
    split at found
    · rename_i brace
      split at found
      · cases found
        exact closed
      · rename_i name' rest' cut
        cases found
        subst brace
        rw [closed_other (by decide) (by decide), eq_of_cutFirst cut] at closed
        exact inside.of_append (by decide) (by decide) closed
    · cases found
      exact (closed_dropWhile closed).2

/-- A name in braces cuts through a bracketed command, and an open bracket that comes after it has no
match. -/
def CutsBracket (ps : List Piece) : Prop :=
  ∃ before name after, ps = before ++ .reference name :: after ∧
    (∀ n, .reference n ∈ before → Closed n) ∧ ¬Closed name ∧ .unclosed ∈ after

theorem CutsBracket.cons {p : Piece} {ps : List Piece} (here : ∀ n, p = .reference n → Closed n)
    (cuts : CutsBracket ps) : CutsBracket (p :: ps) := by
  obtain ⟨before, name, after, rfl, closed, cut, unclosed⟩ := cuts
  refine ⟨p :: before, name, after, rfl, ?_, cut, unclosed⟩
  intro n mem
  rcases List.mem_cons.mp mem with same | later
  · exact here n same.symm
  · exact closed n later

/-- Up to the first name that cuts through brackets, the parser and substitution agree. -/
theorem cutsBracket_of_unclosed (closed : Closed s) (unclosed : .unclosed ∈ pieces s) :
    CutsBracket (pieces s) := by
  fun_induction pieces s with
  | case1 => cases unclosed
  | case2 => simp at unclosed
  | case3 d u ih =>
    have later : .unclosed ∈ pieces u := by simpa using unclosed
    exact (ih ((closed_escape d).mp closed) later).cons nofun
  | case4 t name rest found shorter empty slash ih =>
    have later : .unclosed ∈ pieces t := by simpa using unclosed
    exact (ih ((closed_other (by decide) (by decide)).mp closed) later).cons nofun
  | case5 t name rest found shorter named slash ih =>
    have later : .unclosed ∈ pieces rest := by simpa using unclosed
    have closed' : Closed t := (closed_other (by decide) (by decide)).mp closed
    -- The parser does not know this form of reference, and counts the brackets of the name.
    by_cases inside : Closed name
    · refine (ih (closed_of_variableName closed' found inside) later).cons ?_
      rintro n ⟨⟩
      exact inside
    · exact ⟨[], name, pieces rest, rfl, nofun, inside, later⟩
  | case6 t none slash dollar' =>
    -- What is closed has a match for a bracket at its front.
    obtain ⟨inside, rest, taken, -⟩ := exists_of_closed_openBracket closed
    rw [matchBracket_of_takeBrackets taken] at none
    cases none
  | case7 t source rest found shorter slash dollar' ih =>
    have later : .unclosed ∈ pieces rest := by simpa using unclosed
    obtain ⟨inside, rest', taken, more⟩ := exists_of_closed_openBracket closed
    rw [matchBracket_of_takeBrackets taken] at found
    cases found
    exact (ih more later).cons nofun
  | case8 c t slash dollar' bracket ih =>
    have later : .unclosed ∈ pieces t := by simpa using unclosed
    exact (ih ((closed_other slash bracket).mp closed) later).cons nofun

end

section

variable {script : Text} {cs : List Command} {command : Command} {w : Word}

theorem closed_of_parse (parsed : parse script = .ok cs) (mem : command ∈ cs)
    (word_mem : w ∈ command.words) (form : w.form ≠ .braced) : Closed w.text := by
  obtain ⟨c, t, rest, taken⟩ := exists_word_of_commands (parse_eq_ok_iff.mp parsed) mem word_mem
  exact closed_of_word taken form

/-- Substitution meets an open bracket without a match in a word of a script just if a name in braces
cuts through what the parser took for a bracketed command. -/
theorem unclosed_mem_pieces_iff (parsed : parse script = .ok cs) (mem : command ∈ cs)
    (word_mem : w ∈ command.words) (form : w.form ≠ .braced) :
    .unclosed ∈ pieces w.text ↔ CutsBracket (pieces w.text) := by
  constructor
  · exact cutsBracket_of_unclosed (closed_of_parse parsed mem word_mem form)
  · rintro ⟨before, name, after, split, -, -, unclosed⟩
    rw [split]
    exact List.mem_append_right before (List.mem_cons_of_mem _ unclosed)

/-- A name that ends in an open bracket, which the parser closes behind the next braces. -/
theorem unclosed_mem_pieces_list :
    parse "list $\x7ba[\x7d \x7b[[\x7d ]" = .ok [⟨[⟨"list", .bare⟩,
        ⟨"$\x7ba[\x7d \x7b[[\x7d ]", .bare⟩], "list $\x7ba[\x7d \x7b[[\x7d ]", 1⟩] ∧
      .unclosed ∈ pieces "$\x7ba[\x7d \x7b[[\x7d ]" ∧
      CutsBracket (pieces "$\x7ba[\x7d \x7b[[\x7d ]") := by
  have parsed : parse "list $\x7ba[\x7d \x7b[[\x7d ]" = .ok [⟨[⟨"list", .bare⟩,
      ⟨"$\x7ba[\x7d \x7b[[\x7d ]", .bare⟩], "list $\x7ba[\x7d \x7b[[\x7d ]", 1⟩] := by
    decide +kernel
  have unclosed : .unclosed ∈ pieces "$\x7ba[\x7d \x7b[[\x7d ]" := by decide +kernel
  have same := unclosed_mem_pieces_iff parsed List.mem_cons_self
    (List.mem_cons_of_mem _ List.mem_cons_self) nofun
  exact ⟨parsed, unclosed, same.mp unclosed⟩

end

end Script

end InterpTree
