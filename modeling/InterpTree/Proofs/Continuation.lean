import InterpTree.Proofs.OpenTexts

/-!
Scripts that go on. Words and commands stay as they are when more text follows, and the last of them can
be completed where it is open. So the parser asks for more text just where more text can help.
-/

namespace InterpTree

namespace Script

open Text

/-! ### Words -/

/-- The problem as it is told where more text follows. -/
def Fix.before (e : Fix) (more : Text) : Fix := ⟨e.problem, e.place ++ more⟩

section

variable {s gap t rest source more : Text} {c d : UInt8} {w : Word} {ws : List Word} {e : Fix}

theorem atWordEnd_append (d : UInt8) (rest more : Text) :
    atWordEnd (d :: rest ++ more) = atWordEnd (d :: rest) := rfl

/-- A word ends where it did, whatever follows, if a bare one does. -/
theorem word_append_of_takeBare {rest more : Text} (taken : word c s = .ok (w, rest))
    (ends : atWordEnd rest = true → atWordEnd (rest ++ more) = true)
    (bare : ∀ text, takeBare (c :: s) = .ok (text, rest) →
      takeBare (c :: s ++ more) = .ok (text, rest ++ more)) :
    word c (s ++ more) = .ok (w, rest ++ more) := by
  by_cases brace : c = openBrace
  · subst brace
    rw [word_openBrace] at taken ⊢
    cases found : takeBraces 0 s with
    | none => simp [found] at taken
    | some r =>
      obtain ⟨inside, tail⟩ := r
      simp only [found] at taken
      split at taken
      · rename_i ended
        cases taken
        simp only [takeBraces_append found more]
        exact if_pos (ends ended)
      · cases taken
  by_cases quote : c = quoteMark
  · subst quote
    rw [word_quoteMark] at taken ⊢
    cases found : takeQuoted (quoteMark :: s) s with
    | error e => simp [found] at taken
    | ok r =>
      obtain ⟨inside, tail⟩ := r
      simp only [found] at taken
      split at taken
      · rename_i ended
        cases taken
        simp only [takeQuoted_append found _ more]
        exact if_pos (ends ended)
      · cases taken
  · rw [word_bare brace quote] at taken ⊢
    cases found : takeBare (c :: s) with
    | error e => simp [found, Except.map] at taken
    | ok r =>
      obtain ⟨text, tail⟩ := r
      rw [found] at taken
      cases taken
      rw [← List.cons_append, bare text found]
      rfl

theorem word_append (taken : word c s = .ok (w, d :: rest)) (more : Text) :
    word c (s ++ more) = .ok (w, d :: rest ++ more) :=
  word_append_of_takeBare taken id fun _ found => takeBare_append found more

/-- What stands right after a closing brace or quote stands there whatever follows. -/
theorem word_error_append (failed : word c s = .error e) (closed : e.problem.isOpen = false)
    (more : Text) : word c (s ++ more) = .error (e.before more) := by
  by_cases brace : c = openBrace
  · subst brace
    rw [word_openBrace] at failed ⊢
    cases found : takeBraces 0 s with
    | none =>
      rw [found] at failed
      cases failed
      cases closed
    | some r =>
      obtain ⟨inside, tail⟩ := r
      simp only [found] at failed
      simp only [takeBraces_append found more]
      cases tail with
      | nil => cases failed
      | cons d tail =>
        rw [atWordEnd_append]
        split at failed
        · cases failed
        · rename_i goes
          cases failed
          exact if_neg goes
  by_cases quote : c = quoteMark
  · subst quote
    rw [word_quoteMark] at failed ⊢
    cases found : takeQuoted (quoteMark :: s) s with
    | error f =>
      rw [found] at failed
      cases failed
      rw [(exists_takeQuoted found).1] at closed
      cases closed
    | ok r =>
      obtain ⟨inside, tail⟩ := r
      simp only [found] at failed
      simp only [takeQuoted_append found _ more]
      cases tail with
      | nil => cases failed
      | cons d tail =>
        rw [atWordEnd_append]
        split at failed
        · cases failed
        · rename_i goes
          cases failed
          exact if_neg goes
  · rw [word_bare brace quote] at failed
    rw [(exists_takeBare (error_of_map failed)).1] at closed
    cases closed

theorem exists_word (failed : word c s = .error e) (isOpen : e.problem.isOpen = true) :
    ∃ t w, word c (s ++ newline :: t) = .ok (w, []) := by
  by_cases brace : c = openBrace
  · subst brace
    simp only [word_openBrace] at failed ⊢
    cases found : takeBraces 0 s with
    | none =>
      obtain ⟨t, inside, closed⟩ := exists_takeBraces found
      have ends := closed []
      rw [List.append_nil] at ends
      exact ⟨t, ⟨inside, .braced⟩, by rw [ends]; rfl⟩
    | some r =>
      simp only [found] at failed
      split at failed
      · cases failed
      · cases failed
        cases isOpen
  by_cases quote : c = quoteMark
  · subst quote
    simp only [word_quoteMark] at failed ⊢
    cases found : takeQuoted (quoteMark :: s) s with
    | error f =>
      obtain ⟨-, t, inside, closed⟩ := exists_takeQuoted found
      have ends := closed (quoteMark :: (s ++ newline :: t)) []
      rw [List.append_nil] at ends
      exact ⟨t, ⟨inside, .quoted⟩, by rw [ends]; rfl⟩
    | ok r =>
      simp only [found] at failed
      split at failed
      · cases failed
      · cases failed
        cases isOpen
  · simp only [word_bare brace quote] at failed ⊢
    obtain ⟨-, t, text, closed⟩ := exists_takeBare (error_of_map failed)
    exact ⟨t, ⟨text, .bare⟩, by rw [← List.cons_append, closed]; rfl⟩

/-- A gap that something follows, other than a backslash that ends the text: with a newline after it
that would be a blank. -/
theorem takeGap_append_right (found : takeGap s = (gap, c :: t)) (whole : c :: t ≠ [backslash])
    (more : Text) : takeGap (s ++ more) = (gap, c :: t ++ more) := by
  fun_induction takeGap s generalizing gap with
  | case1 => cases found
  | case2 b s blank ih =>
    simp only [put, Prod.mk.injEq] at found
    rw [List.cons_append, takeGap.eq_def]
    simp [blank, ih (Prod.ext rfl found.2), put, found.1]
  | case3 =>
    -- A backslash at the very end, which may be half of a blank.
    cases found
    exact absurd rfl whole
  | case4 s blank ih =>
    simp only [put, Prod.mk.injEq] at found
    rw [List.cons_append, List.cons_append, takeGap.eq_def]
    simp [blank, ih (Prod.ext rfl found.2), put, found.1]
  | case5 d s line blank =>
    cases found
    rw [List.cons_append, List.cons_append, takeGap.eq_def]
    simp [blank, line]
  | case6 b s blank slash =>
    cases found
    rw [List.cons_append, takeGap.eq_def]
    simp [blank, slash]

theorem takeWords_append_of_word (found : takeGap s = (gap, c :: t)) (goes : ¬isTerminator c = true)
    (first : word c t = .ok (w, d :: rest)) (more : Text) :
    takeWords (s ++ more) = (takeWords (d :: rest ++ more)).map fun (ws, source, rest) =>
      (w :: ws, gap ++ w.written ++ source, rest) := by
  have whole : c :: t ≠ [backslash] := by
    rintro ⟨⟩
    rw [word_backslash] at first
    cases first
  exact takeWords_of_word (takeGap_append_right found whole more) goes (word_append first more)

theorem takeGap_append_of_error (found : takeGap s = (gap, c :: t)) (failed : word c t = .error e)
    (more : Text) : takeGap (s ++ more) = (gap, c :: t ++ more) := by
  refine takeGap_append_right found ?_ more
  rintro ⟨⟩
  rw [word_backslash] at failed
  cases failed

theorem takeWords_append (taken : takeWords s = .ok (ws, source, d :: rest)) (more : Text) :
    takeWords (s ++ more) = .ok (ws, source, d :: rest ++ more) := by
  fun_induction takeWords s generalizing ws source with
  | case1 => cases taken
  | case2 s gap c t found ends =>
    cases taken
    have whole : d :: rest ≠ [backslash] := by
      rintro ⟨⟩
      exact absurd ends (by decide)
    exact takeWords_of_terminator (takeGap_append_right found whole more) ends
  | case3 => cases taken
  | case4 s gap c t found goes w mid first shorter ih =>
    cases others : takeWords mid with
    | error e => simp [others, Except.map] at taken
    | ok r =>
      obtain ⟨ws', source', tail⟩ := r
      rw [others] at taken
      cases taken
      cases mid with
      | nil =>
        have left := eq_of_takeWords others
        simp at left
      | cons b mid =>
        rw [takeWords_append_of_word found goes first, ih others]
        rfl

/-- Words remain to be read where the problem is still to come. -/
theorem cons_of_takeWords_error (failed : takeWords s = .error e) : ∃ b t, s = b :: t := by
  cases s with
  | nil =>
    have none : takeGap [] = ([], []) := rfl
    rw [takeWords_of_gap none] at failed
    cases failed
  | cons b t => exact ⟨b, t, rfl⟩

theorem takeWords_error_append (failed : takeWords s = .error e)
    (closed : e.problem.isOpen = false) (more : Text) :
    takeWords (s ++ more) = .error (e.before more) := by
  fun_induction takeWords s with
  | case1 => cases failed
  | case2 => cases failed
  | case3 s gap c t found goes f first =>
    cases failed
    exact takeWords_of_error (takeGap_append_of_error found first more) goes
      (word_error_append first closed more)
  | case4 s gap c t found goes w mid first shorter ih =>
    have later := error_of_map failed
    obtain ⟨b, mid, rfl⟩ := cons_of_takeWords_error later
    rw [takeWords_append_of_word found goes first, ih later]
    rfl

theorem exists_takeWords (failed : takeWords s = .error e) (isOpen : e.problem.isOpen = true) :
    ∃ t ws source, takeWords (s ++ newline :: t) = .ok (ws, source, []) := by
  fun_induction takeWords s with
  | case1 => cases failed
  | case2 => cases failed
  | case3 s gap c t found goes f first =>
    cases failed
    have none : takeGap [] = ([], []) := rfl
    obtain ⟨t', w, last⟩ := exists_word first isOpen
    refine ⟨t', [w], gap ++ w.written ++ [], ?_⟩
    rw [takeWords_of_word (takeGap_append_of_error found first _) goes last, takeWords_of_gap none]
    rfl
  | case4 s gap c t found goes w mid first shorter ih =>
    have later := error_of_map failed
    obtain ⟨b, mid, rfl⟩ := cons_of_takeWords_error later
    obtain ⟨t', ws, source, others⟩ := ih later
    refine ⟨t', w :: ws, gap ++ w.written ++ source, ?_⟩
    rw [takeWords_append_of_word found goes first, others]
    rfl

end

/-! ### Commands -/

section

variable {s idle t : Text} {c : UInt8} {e : Fix} {line : Nat}

theorem takeIdle_append_right {inComment : Bool} (found : takeIdle inComment s = (idle, c :: t))
    (more : Text) : takeIdle inComment (s ++ more) = (idle, c :: t ++ more) := by
  fun_induction takeIdle inComment s generalizing idle with
  | case1 => cases found
  | case2 b s ih =>
    simp only [put, Prod.mk.injEq] at found
    simp [takeIdle, ih (Prod.ext rfl found.2), put, found.1]
  | case3 inComment b s comment idles ih =>
    simp only [put, Prod.mk.injEq] at found
    simp [takeIdle, comment, idles, ih (Prod.ext rfl found.2), put, found.1]
  | case4 inComment s comment idles ih =>
    simp only [put, Prod.mk.injEq] at found
    simp [takeIdle, comment, idles, ih (Prod.ext rfl found.2), put, found.1]
  | case5 inComment b s comment idles other =>
    cases found
    simp [takeIdle, comment, idles, other]

theorem cons_of_commands_error (failed : commands line s = .error e) : ∃ b t, s = b :: t := by
  cases s with
  | nil =>
    have none : takeIdle false [] = ([], []) := rfl
    rw [commands_of_takeIdle none] at failed
    cases failed
  | cons b t => exact ⟨b, t, rfl⟩

theorem commands_error_append (failed : commands line s = .error e)
    (closed : e.problem.isOpen = false) (more : Text) :
    commands line (s ++ more) = .error (e.before more) := by
  fun_induction commands line s with
  | case1 => cases failed
  | case2 line s idle c t found f words =>
    cases failed
    have words' := takeWords_error_append words closed more
    exact commands_of_error (takeIdle_append_right found more) words'
  | case3 line s idle c t found ws source rest words shorter line' later none ih =>
    obtain ⟨b, rest, rfl⟩ := cons_of_commands_error failed
    rw [commands_of_takeWords (takeIdle_append_right found more) (takeWords_append words more),
      if_pos none]
    exact ih failed
  | case4 line s idle c t found ws source rest words shorter line' later some ih =>
    have failed := error_of_map failed
    obtain ⟨b, rest, rfl⟩ := cons_of_commands_error failed
    rw [commands_of_takeWords (takeIdle_append_right found more) (takeWords_append words more),
      if_neg some, ih failed]
    rfl

theorem exists_commands (failed : commands line s = .error e) (isOpen : e.problem.isOpen = true) :
    ∃ t cs, commands line (s ++ newline :: t) = .ok cs := by
  -- Commands before the one that is open read the same; `case2` closes it, and the text ends there.
  fun_induction commands line s with
  | case1 => cases failed
  | case2 line s idle c t found f words =>
    cases failed
    have nothing : takeIdle false [] = ([], []) := rfl
    obtain ⟨t', ws, source, words'⟩ := exists_takeWords words isOpen
    refine ⟨t', ?_⟩
    rw [commands_of_takeWords (takeIdle_append_right found _) words', commands_of_takeIdle nothing]
    split
    · exact ⟨_, rfl⟩
    · exact ⟨_, rfl⟩
  | case3 line s idle c t found ws source rest words shorter line' later none ih =>
    obtain ⟨b, rest, rfl⟩ := cons_of_commands_error failed
    obtain ⟨t', cs, others⟩ := ih failed
    refine ⟨t', cs, ?_⟩
    rw [commands_of_takeWords (takeIdle_append_right found _) (takeWords_append words _),
      if_pos none]
    exact others
  | case4 line s idle c t found ws source rest words shorter line' later some ih =>
    have failed := error_of_map failed
    obtain ⟨b, rest, rfl⟩ := cons_of_commands_error failed
    obtain ⟨t', cs, others⟩ := ih failed
    refine ⟨t', ⟨ws, trim source, line'⟩ :: cs, ?_⟩
    rw [commands_of_takeWords (takeIdle_append_right found _) (takeWords_append words _),
      if_neg some]
    change Except.map _ (commands _ (b :: rest ++ newline :: t')) = _
    rw [others]
    rfl

end

/-! ### Scripts -/

theorem lineOf_append (script place more : Text) :
    lineOf (script ++ more) (place ++ more) = lineOf script place := by
  simp only [lineOf, List.count_append]
  omega

/-- A script that is incomplete can be completed by further lines; a script that is malformed
otherwise is malformed in the same way, and on the same line, whatever follows. -/
theorem isIncomplete_exact {s : Text} {e : SyntaxError} (failed : parse s = .error e) :
    (e.isIncomplete = true → ∃ t cs, parse (s ++ newline :: t) = .ok cs) ∧
      (e.isIncomplete = false → ∀ t, parse (s ++ t) = .error e) := by
  obtain ⟨f, stuck, rfl⟩ := parse_eq_error_iff.mp failed
  rw [SyntaxError.isIncomplete_eq]
  constructor
  · intro isOpen
    obtain ⟨t, cs, done⟩ := exists_commands stuck isOpen
    exact ⟨t, cs, by rw [parse, done]; rfl⟩
  · intro closed t
    refine parse_eq_error_iff.mpr ⟨f.before t, commands_error_append stuck closed t, ?_⟩
    rw [Fix.before, lineOf_append]

instance decidableEqExcept {ε α : Type} [DecidableEq ε] [DecidableEq α] :
    DecidableEq (Except ε α)
  | .ok a, .ok b => decidable_of_iff (a = b) (by simp)
  | .error e, .error f => decidable_of_iff (e = f) (by simp)
  | .ok _, .error _ => isFalse nofun
  | .error _, .ok _ => isFalse nofun

/-- Braces in brackets in a quote, with a backslash at the end, and a closed brace with a letter
after it. -/
theorem isIncomplete_exact_nested :
    parse "set a \"[list \x7bb\\" = .error ⟨1, .missingBrace⟩ ∧
      (∃ t cs, parse ("set a \"[list \x7bb\\" ++ newline :: t) = .ok cs) ∧
      parse "set a \x7bb\x7dc" = .error ⟨1, .extraAfterBrace⟩ ∧
      ∀ t, parse ("set a \x7bb\x7dc" ++ t) = .error ⟨1, .extraAfterBrace⟩ := by
  have incomplete : parse "set a \"[list \x7bb\\" = .error ⟨1, .missingBrace⟩ := by
    decide +kernel
  have malformed : parse "set a \x7bb\x7dc" = .error ⟨1, .extraAfterBrace⟩ := by
    decide +kernel
  exact ⟨incomplete, (isIncomplete_exact incomplete).1 rfl, malformed,
    (isIncomplete_exact malformed).2 rfl⟩

end Script

end InterpTree
