import InterpTree.Proofs.Scanning

/-!
Braces, brackets and quotes in a text that goes on. What a scanner has read up to some byte stays so
when more text follows, and so does a problem with that byte. What is still open where the text ends can
be closed on the next line, from the inside outwards.
-/

namespace InterpTree

namespace Script

open Text

/-- Whether more text could mend a problem: the script ended inside something open. -/
def Problem.isOpen : Problem → Bool
  | .missingBrace | .missingQuote | .missingBracket => true
  | .extraAfterBrace | .extraAfterQuote => false

theorem SyntaxError.isIncomplete_eq (e : SyntaxError) : e.isIncomplete = e.problem.isOpen := by
  have tells (p : Problem) : List.isPrefixOf ("missing " : Text) p.message = p.isOpen := by
    cases p <;> decide
  exact tells e.problem

/-! ### Braces -/

section

variable {depth : Nat} {s inside rest : Text}

/-- Up to the brace that closes it, a braced text is read by itself. -/
theorem takeBraces_exact (taken : takeBraces depth s = some (inside, rest)) (more : Text) :
    takeBraces depth (inside ++ closeBrace :: more) = some (inside, more) := by
  fun_induction takeBraces depth s generalizing inside with
  | case1 => cases taken
  | case2 => cases taken
  | case3 depth d s ih =>
    obtain ⟨text, found, rfl⟩ := eq_of_map_put taken
    simp [ih found, put]
  | case4 depth s slash ih =>
    obtain ⟨text, found, rfl⟩ := eq_of_map_put taken
    simp [ih found, put]
  | case5 s slash brace =>
    cases taken
    simp
  | case6 s depth slash brace ih =>
    obtain ⟨text, found, rfl⟩ := eq_of_map_put taken
    simp [ih found, put]
  | case7 depth c s slash brace close ih =>
    obtain ⟨text, found, rfl⟩ := eq_of_map_put taken
    simp [takeBraces_other slash brace close, ih found, put]

theorem takeBraces_append (taken : takeBraces depth s = some (inside, rest)) (more : Text) :
    takeBraces depth (s ++ more) = some (inside, rest ++ more) := by
  rw [eq_of_takeBraces taken, List.append_assoc, List.cons_append]
  exact takeBraces_exact taken _

theorem takeBraces_replicate (depth : Nat) (rest : Text) :
    takeBraces depth (List.replicate (depth + 1) closeBrace ++ rest) =
      some (List.replicate depth closeBrace, rest) := by
  induction depth with
  | zero => simp
  | succ depth ih =>
    rw [List.replicate_succ, List.cons_append, takeBraces_closeBrace_succ, ih]
    rfl

/-- Braces that are open at the end of a text can be closed on the next line. -/
theorem exists_takeBraces (failed : takeBraces depth s = none) :
    ∃ t inside, ∀ rest, takeBraces depth (s ++ newline :: (t ++ rest)) = some (inside, rest) := by
  have line (depth : Nat) (s : Text) :
      takeBraces depth (newline :: s) = (takeBraces depth s).map (put [newline]) :=
    takeBraces_other (by decide) (by decide) (by decide)
  fun_induction takeBraces depth s with
  | case1 depth =>
    refine ⟨List.replicate (depth + 1) closeBrace, newline :: List.replicate depth closeBrace, ?_⟩
    intro rest
    simp [line, takeBraces_replicate, put]
  | case2 depth =>
    -- The backslash takes the newline with it.
    refine ⟨List.replicate (depth + 1) closeBrace,
      backslash :: newline :: List.replicate depth closeBrace, ?_⟩
    intro rest
    simp [takeBraces_replicate, put]
  | case3 depth d s ih =>
    obtain ⟨t, inside, closed⟩ := ih (Option.map_eq_none_iff.mp failed)
    exact ⟨t, backslash :: d :: inside, fun rest => by simp [closed, put]⟩
  | case4 depth s slash ih =>
    obtain ⟨t, inside, closed⟩ := ih (Option.map_eq_none_iff.mp failed)
    exact ⟨t, openBrace :: inside, fun rest => by simp [closed, put]⟩
  | case5 => cases failed
  | case6 s depth slash brace ih =>
    obtain ⟨t, inside, closed⟩ := ih (Option.map_eq_none_iff.mp failed)
    exact ⟨t, closeBrace :: inside, fun rest => by simp [closed, put]⟩
  | case7 depth c s slash brace close ih =>
    obtain ⟨t, inside, closed⟩ := ih (Option.map_eq_none_iff.mp failed)
    exact ⟨t, c :: inside, fun rest => by simp [takeBraces_other slash brace close, closed, put]⟩

end

/-! ### Brackets -/

section

variable {start : Text} {depth : Nat} {s inside rest : Text} {e : Fix}

/-- Up to the bracket that closes it, a bracketed text is read by itself. -/
theorem takeBrackets_exact (taken : takeBrackets start depth s = .ok (inside, rest))
    (start' more : Text) :
    takeBrackets start' depth (inside ++ closeBracket :: more) = .ok (inside, more) := by
  fun_induction takeBrackets start depth s generalizing inside with
  | case1 => cases taken
  | case2 => cases taken
  | case3 depth d s ih =>
    obtain ⟨text, found, rfl⟩ := eq_of_mapOk_put taken
    simp [ih found, Except.map, put]
  | case4 => cases taken
  | case5 depth s text tail braces shorter slash ih =>
    obtain ⟨text', found, rfl⟩ := eq_of_mapOk_put taken
    have again := takeBraces_exact braces (text' ++ closeBracket :: more)
    simp only [List.cons_append, List.append_assoc, List.nil_append]
    rw [takeBrackets_openBrace again, ih found]
    simp [Except.map, put]
  | case6 depth s slash brace ih =>
    obtain ⟨text, found, rfl⟩ := eq_of_mapOk_put taken
    simp [ih found, Except.map, put]
  | case7 s slash brace bracket =>
    cases taken
    simp
  | case8 s depth slash brace bracket ih =>
    obtain ⟨text, found, rfl⟩ := eq_of_mapOk_put taken
    simp [ih found, Except.map, put]
  | case9 depth c s slash brace bracket close ih =>
    obtain ⟨text, found, rfl⟩ := eq_of_mapOk_put taken
    simp [takeBrackets_other slash brace bracket close, ih found, Except.map, put]

theorem takeBrackets_append (taken : takeBrackets start depth s = .ok (inside, rest))
    (start' more : Text) : takeBrackets start' depth (s ++ more) = .ok (inside, rest ++ more) := by
  rw [eq_of_takeBrackets taken, List.append_assoc, List.cons_append]
  exact takeBrackets_exact taken start' _

theorem takeBrackets_replicate (start : Text) (depth : Nat) (rest : Text) :
    takeBrackets start depth (List.replicate (depth + 1) closeBracket ++ rest) =
      .ok (List.replicate depth closeBracket, rest) := by
  induction depth with
  | zero => simp
  | succ depth ih =>
    rw [List.replicate_succ, List.cons_append, takeBrackets_closeBracket_succ, ih]
    rfl

/-- Brackets that are open at the end of a text can be closed on the next line, after what is open
in them. -/
theorem exists_takeBrackets (failed : takeBrackets start depth s = .error e) :
    e.problem.isOpen = true ∧ ∃ t inside, ∀ start' rest,
      takeBrackets start' depth (s ++ newline :: (t ++ rest)) = .ok (inside, rest) := by
  have line (start' : Text) (depth : Nat) (s : Text) : takeBrackets start' depth (newline :: s) =
      (takeBrackets start' depth s).map (put [newline]) :=
    takeBrackets_other (by decide) (by decide) (by decide) (by decide)
  -- Only a problem tells of `start`, so what closes the text does so wherever the brackets began.
  fun_induction takeBrackets start depth s with
  | case1 depth =>
    cases failed
    refine ⟨rfl, List.replicate (depth + 1) closeBracket,
      newline :: List.replicate depth closeBracket, fun start' rest => ?_⟩
    rw [List.nil_append, line, takeBrackets_replicate]
    rfl
  | case2 depth =>
    cases failed
    -- Here the newline is what the last backslash escapes.
    refine ⟨rfl, List.replicate (depth + 1) closeBracket,
      backslash :: newline :: List.replicate depth closeBracket, fun start' rest => ?_⟩
    rw [List.cons_append, List.nil_append, takeBrackets_backslash, takeBrackets_replicate]
    rfl
  | case3 depth d s ih =>
    obtain ⟨isOpen, t, inside, closed⟩ := ih (error_of_map failed)
    refine ⟨isOpen, t, backslash :: d :: inside, fun start' rest => ?_⟩
    simp [closed, Except.map, put]
  | case4 depth s none slash =>
    cases failed
    obtain ⟨t, inside, closed⟩ := exists_takeBraces none
    refine ⟨rfl, t ++ List.replicate (depth + 1) closeBracket,
      openBrace :: inside ++ [closeBrace] ++ List.replicate depth closeBracket,
      fun start' rest => ?_⟩
    rw [List.append_assoc, List.cons_append, takeBrackets_openBrace (closed _),
      takeBrackets_replicate]
    rfl
  | case5 depth s text tail braces shorter slash ih =>
    obtain ⟨isOpen, t, inside, closed⟩ := ih (error_of_map failed)
    refine ⟨isOpen, t, openBrace :: text ++ [closeBrace] ++ inside, fun start' rest => ?_⟩
    rw [List.cons_append, takeBrackets_openBrace (takeBraces_append braces _), closed]
    rfl
  | case6 depth s slash brace ih =>
    obtain ⟨isOpen, t, inside, closed⟩ := ih (error_of_map failed)
    refine ⟨isOpen, t, openBracket :: inside, fun start' rest => ?_⟩
    simp [closed, Except.map, put]
  | case7 => cases failed
  | case8 s depth slash brace bracket ih =>
    obtain ⟨isOpen, t, inside, closed⟩ := ih (error_of_map failed)
    refine ⟨isOpen, t, closeBracket :: inside, fun start' rest => ?_⟩
    simp [closed, Except.map, put]
  | case9 depth c s slash brace bracket close ih =>
    obtain ⟨isOpen, t, inside, closed⟩ := ih (error_of_map failed)
    refine ⟨isOpen, t, c :: inside, fun start' rest => ?_⟩
    simp [takeBrackets_other slash brace bracket close, closed, Except.map, put]

end

/-! ### Quoted and bare words -/

section

variable {start : Text} {s inside text rest : Text} {d : UInt8} {e : Fix}

theorem takeQuoted_append (taken : takeQuoted start s = .ok (inside, rest)) (start' more : Text) :
    takeQuoted start' (s ++ more) = .ok (inside, rest ++ more) := by
  fun_induction takeQuoted start s generalizing inside with
  | case1 => cases taken
  | case2 => cases taken
  | case3 d s ih =>
    obtain ⟨text, found, rfl⟩ := eq_of_mapOk_put taken
    simp [ih found, Except.map, put]
  | case4 => cases taken
  | case5 s text tail slash brackets shorter ih =>
    obtain ⟨text', found, rfl⟩ := eq_of_mapOk_put taken
    rw [List.cons_append, takeQuoted_openBracket (takeBrackets_append brackets _ more), ih found]
    rfl
  | case6 s slash bracket =>
    cases taken
    simp
  | case7 c s slash bracket quote ih =>
    obtain ⟨text, found, rfl⟩ := eq_of_mapOk_put taken
    simp [takeQuoted_other slash bracket quote, ih found, Except.map, put]

/-- A quote that is open at the end of a text can be closed on the next line. -/
theorem exists_takeQuoted (failed : takeQuoted start s = .error e) :
    e.problem.isOpen = true ∧ ∃ t inside, ∀ start' rest,
      takeQuoted start' (s ++ newline :: (t ++ rest)) = .ok (inside, rest) := by
  have line (start' s : Text) :
      takeQuoted start' (newline :: s) = (takeQuoted start' s).map (put [newline]) :=
    takeQuoted_other (by decide) (by decide) (by decide)
  fun_induction takeQuoted start s with
  | case1 =>
    cases failed
    refine ⟨rfl, [quoteMark], [newline], fun start' rest => ?_⟩
    simp [line, Except.map, put]
  | case2 =>
    cases failed
    refine ⟨rfl, [quoteMark], [backslash, newline], fun start' rest => ?_⟩
    simp [Except.map, put]
  | case3 d s ih =>
    obtain ⟨isOpen, t, inside, closed⟩ := ih (error_of_map failed)
    refine ⟨isOpen, t, backslash :: d :: inside, fun start' rest => ?_⟩
    simp [closed, Except.map, put]
  | case4 s f slash brackets =>
    cases failed
    obtain ⟨isOpen, t, inside, closed⟩ := exists_takeBrackets brackets
    refine ⟨isOpen, t ++ [quoteMark], openBracket :: inside ++ [closeBracket], fun start' rest => ?_⟩
    rw [List.append_assoc, List.cons_append, takeQuoted_openBracket (closed _ _)]
    simp [Except.map, put]
  | case5 s text tail slash brackets shorter ih =>
    obtain ⟨isOpen, t, inside, closed⟩ := ih (error_of_map failed)
    refine ⟨isOpen, t, openBracket :: text ++ [closeBracket] ++ inside, fun start' rest => ?_⟩
    rw [List.cons_append, takeQuoted_openBracket (takeBrackets_append brackets _ _), closed]
    rfl
  | case6 => cases failed
  | case7 c s slash bracket quote ih =>
    obtain ⟨isOpen, t, inside, closed⟩ := ih (error_of_map failed)
    refine ⟨isOpen, t, c :: inside, fun start' rest => ?_⟩
    simp [takeQuoted_other slash bracket quote, closed, Except.map, put]

/-- A bare word stays as it is if it ends before the text does. -/
theorem takeBare_append (taken : takeBare s = .ok (text, d :: rest)) (more : Text) :
    takeBare (s ++ more) = .ok (text, d :: rest ++ more) := by
  fun_induction takeBare s generalizing text with
  | case1 => cases taken
  | case2 c s ends =>
    cases taken
    simp [takeBare_end ends]
  | case3 => cases taken
  | case4 b s goes ih =>
    obtain ⟨text', found, rfl⟩ := eq_of_mapOk_put taken
    simp [ih found, Except.map, put]
  | case5 => cases taken
  | case6 s inside tail goes slash brackets shorter ih =>
    obtain ⟨text', found, rfl⟩ := eq_of_mapOk_put taken
    rw [List.cons_append, takeBare_openBracket (takeBrackets_append brackets _ more), ih found]
    rfl
  | case7 c s goes slash bracket ih =>
    obtain ⟨text', found, rfl⟩ := eq_of_mapOk_put taken
    simp [takeBare_other goes slash bracket, ih found, Except.map, put]

/-- Brackets that are open at the end of a bare word can be closed on the next line, where the word
ends. -/
theorem exists_takeBare (failed : takeBare s = .error e) :
    e.problem.isOpen = true ∧ ∃ t text, takeBare (s ++ newline :: t) = .ok (text, []) := by
  fun_induction takeBare s with
  | case1 => cases failed
  | case2 => cases failed
  | case3 => cases failed
  | case4 d s goes ih =>
    obtain ⟨isOpen, t, text, closed⟩ := ih (error_of_map failed)
    refine ⟨isOpen, t, backslash :: d :: text, ?_⟩
    simp [closed, Except.map, put]
  | case5 s f goes slash brackets =>
    cases failed
    obtain ⟨isOpen, t, inside, closed⟩ := exists_takeBrackets brackets
    have ends := closed (openBracket :: (s ++ newline :: t)) []
    rw [List.append_nil] at ends
    refine ⟨isOpen, t, openBracket :: inside ++ [closeBracket], ?_⟩
    rw [List.cons_append, takeBare_openBracket ends, takeBare.eq_def]
    simp [Except.map, put]
  | case6 s inside tail goes slash brackets shorter ih =>
    obtain ⟨isOpen, t, text, closed⟩ := ih (error_of_map failed)
    refine ⟨isOpen, t, openBracket :: inside ++ [closeBracket] ++ text, ?_⟩
    rw [List.cons_append, takeBare_openBracket (takeBrackets_append brackets _ _), closed]
    rfl
  | case7 c s goes slash bracket ih =>
    obtain ⟨isOpen, t, text, closed⟩ := ih (error_of_map failed)
    refine ⟨isOpen, t, c :: text, ?_⟩
    simp [takeBare_other goes slash bracket, closed, Except.map, put]

end

end Script

end InterpTree
