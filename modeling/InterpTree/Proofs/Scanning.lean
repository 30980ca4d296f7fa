import InterpTree.Script.Parse

/-!
What each scanner does with the next byte, one equation for each kind of byte, and what each step of
the parser does with what the scanners found.
-/

namespace InterpTree

namespace Script

open Text

theorem error_of_map {α β : Type} {f : α → β} {found : Except Fix α} {e : Fix}
    (failed : found.map f = .error e) : found = .error e := by
  cases found with
  | error e' => simpa [Except.map] using failed
  | ok a => cases failed

/-! ### Braces -/

section

variable {depth : Nat} {s : Text} {c : UInt8}

@[simp] theorem takeBraces_backslash (d : UInt8) :
    takeBraces depth (backslash :: d :: s) = (takeBraces depth s).map (put [backslash, d]) := by
  rw [takeBraces.eq_def]
  simp

@[simp] theorem takeBraces_openBrace :
    takeBraces depth (openBrace :: s) = (takeBraces (depth + 1) s).map (put [openBrace]) := by
  have slash : openBrace ≠ backslash := by decide
  rw [takeBraces.eq_def]
  simp [slash]

@[simp] theorem takeBraces_closeBrace_zero : takeBraces 0 (closeBrace :: s) = some ([], s) := by
  have slash : closeBrace ≠ backslash := by decide
  have brace : closeBrace ≠ openBrace := by decide
  rw [takeBraces.eq_def]
  simp [slash, brace]

@[simp] theorem takeBraces_closeBrace_succ :
    takeBraces (depth + 1) (closeBrace :: s) = (takeBraces depth s).map (put [closeBrace]) := by
  have slash : closeBrace ≠ backslash := by decide
  have brace : closeBrace ≠ openBrace := by decide
  rw [takeBraces.eq_def]
  simp [slash, brace]

theorem takeBraces_other (slash : c ≠ backslash) (brace : c ≠ openBrace) (close : c ≠ closeBrace) :
    takeBraces depth (c :: s) = (takeBraces depth s).map (put [c]) := by
  rw [takeBraces.eq_def]
  simp [slash, brace, close]

end

/-! ### Brackets -/

section

variable {start : Text} {depth : Nat} {s inside rest : Text} {c : UInt8}

@[simp] theorem takeBrackets_backslash (d : UInt8) :
    takeBrackets start depth (backslash :: d :: s) =
      (takeBrackets start depth s).map (put [backslash, d]) := by
  rw [takeBrackets.eq_def]
  simp

theorem takeBrackets_openBrace (braces : takeBraces 0 s = some (inside, rest)) :
    takeBrackets start depth (openBrace :: s) =
      (takeBrackets start depth rest).map (put (openBrace :: inside ++ [closeBrace])) := by
  have slash : openBrace ≠ backslash := by decide
  rw [takeBrackets.eq_def]
  simp only [slash, if_false, if_true]
  split
  · simp_all
  · simp_all

@[simp] theorem takeBrackets_openBracket :
    takeBrackets start depth (openBracket :: s) =
      (takeBrackets start (depth + 1) s).map (put [openBracket]) := by
  have slash : openBracket ≠ backslash := by decide
  have brace : openBracket ≠ openBrace := by decide
  rw [takeBrackets.eq_def]
  simp [slash, brace]

@[simp] theorem takeBrackets_closeBracket_zero :
    takeBrackets start 0 (closeBracket :: s) = .ok ([], s) := by
  have slash : closeBracket ≠ backslash := by decide
  have brace : closeBracket ≠ openBrace := by decide
  have bracket : closeBracket ≠ openBracket := by decide
  rw [takeBrackets.eq_def]
  simp [slash, brace, bracket]

@[simp] theorem takeBrackets_closeBracket_succ :
    takeBrackets start (depth + 1) (closeBracket :: s) =
      (takeBrackets start depth s).map (put [closeBracket]) := by
  have slash : closeBracket ≠ backslash := by decide
  have brace : closeBracket ≠ openBrace := by decide
  have bracket : closeBracket ≠ openBracket := by decide
  rw [takeBrackets.eq_def]
  simp [slash, brace, bracket]

theorem takeBrackets_other (slash : c ≠ backslash) (brace : c ≠ openBrace)
    (bracket : c ≠ openBracket) (close : c ≠ closeBracket) :
    takeBrackets start depth (c :: s) = (takeBrackets start depth s).map (put [c]) := by
  rw [takeBrackets.eq_def]
  simp [slash, brace, bracket, close]

end

/-! ### Words -/

section

variable {start : Text} {s inside rest : Text} {c : UInt8}

@[simp] theorem takeQuoted_backslash (d : UInt8) :
    takeQuoted start (backslash :: d :: s) = (takeQuoted start s).map (put [backslash, d]) := by
  rw [takeQuoted.eq_def]
  simp

theorem takeQuoted_openBracket
    (brackets : takeBrackets (openBracket :: s) 0 s = .ok (inside, rest)) :
    takeQuoted start (openBracket :: s) =
      (takeQuoted start rest).map (put (openBracket :: inside ++ [closeBracket])) := by
  have slash : openBracket ≠ backslash := by decide
  rw [takeQuoted.eq_def]
  simp only [slash, if_false, if_true]
  split
  · simp_all
  · simp_all

@[simp] theorem takeQuoted_quoteMark : takeQuoted start (quoteMark :: s) = .ok ([], s) := by
  have slash : quoteMark ≠ backslash := by decide
  have bracket : quoteMark ≠ openBracket := by decide
  rw [takeQuoted.eq_def]
  simp [slash, bracket]

theorem takeQuoted_other (slash : c ≠ backslash) (bracket : c ≠ openBracket)
    (quote : c ≠ quoteMark) :
    takeQuoted start (c :: s) = (takeQuoted start s).map (put [c]) := by
  rw [takeQuoted.eq_def]
  simp [slash, bracket, quote]

theorem takeBare_end (ends : (isBlank c || isTerminator c) = true) :
    takeBare (c :: s) = .ok ([], c :: s) := by
  rw [takeBare.eq_def]
  simp only [ends, if_true]

@[simp] theorem takeBare_backslash (d : UInt8) :
    takeBare (backslash :: d :: s) = (takeBare s).map (put [backslash, d]) := by
  have goes : (isBlank backslash || isTerminator backslash) = false := by decide
  rw [takeBare.eq_def]
  simp [goes]

theorem takeBare_openBracket (brackets : takeBrackets (openBracket :: s) 0 s = .ok (inside, rest)) :
    takeBare (openBracket :: s) =
      (takeBare rest).map (put (openBracket :: inside ++ [closeBracket])) := by
  have slash : openBracket ≠ backslash := by decide
  have goes : (isBlank openBracket || isTerminator openBracket) = false := by decide
  rw [takeBare.eq_def]
  simp only [goes, slash, Bool.false_eq_true, if_false, if_true]
  split
  · simp_all
  · simp_all

theorem takeBare_other (goes : ¬(isBlank c || isTerminator c) = true) (slash : c ≠ backslash)
    (bracket : c ≠ openBracket) : takeBare (c :: s) = (takeBare s).map (put [c]) := by
  rw [takeBare.eq_def]
  exact (if_neg goes).trans ((if_neg slash).trans (if_neg bracket))

theorem word_openBrace (s : Text) : word openBrace s =
    match takeBraces 0 s with
    | none => .error ⟨.missingBrace, openBrace :: s⟩
    | some (inside, rest) =>
      if atWordEnd rest then .ok (⟨inside, .braced⟩, rest)
      else .error ⟨.extraAfterBrace, rest⟩ :=
  (if_pos rfl).trans rfl

theorem word_quoteMark (s : Text) : word quoteMark s =
    match takeQuoted (quoteMark :: s) s with
    | .error e => .error e
    | .ok (inside, rest) =>
      if atWordEnd rest then .ok (⟨inside, .quoted⟩, rest)
      else .error ⟨.extraAfterQuote, rest⟩ :=
  have brace : quoteMark ≠ openBrace := by decide
  (if_neg brace).trans ((if_pos rfl).trans rfl)

theorem word_bare (brace : c ≠ openBrace) (quote : c ≠ quoteMark) :
    word c s = (takeBare (c :: s)).map fun (text, rest) => (⟨text, .bare⟩, rest) := by
  simp only [word, brace, quote, if_false, bareWord]

/-- A backslash that ends the text is a word. -/
theorem word_backslash : word backslash [] = .ok (⟨[backslash], .bare⟩, []) := by
  rw [word_bare (by decide) (by decide), takeBare.eq_def]
  rfl

end

/-! ### Commands -/

section

variable {s gap idle t source rest : Text} {c : UInt8} {w : Word} {ws : List Word} {e : Fix}
  {line : Nat}

theorem takeGap_append (blanks : ∀ c ∈ gap, isBlank c = true) (s : Text) :
    takeGap (gap ++ s) = put gap (takeGap s) := by
  induction gap with
  | nil => rfl
  | cons c gap ih =>
    obtain ⟨first, others⟩ := List.forall_mem_cons.mp blanks
    rw [List.cons_append, takeGap.eq_def]
    simp only [first, if_true, ih others]
    rfl

theorem takeWords_of_gap (found : takeGap s = (gap, [])) : takeWords s = .ok ([], gap, []) := by
  rw [takeWords.eq_def]
  split
  · simp_all
  · simp_all

theorem takeWords_of_terminator (found : takeGap s = (gap, c :: t))
    (ends : isTerminator c = true) : takeWords s = .ok ([], gap, c :: t) := by
  rw [takeWords.eq_def]
  split
  · simp_all
  · simp_all

theorem takeWords_of_error (found : takeGap s = (gap, c :: t)) (goes : ¬isTerminator c = true)
    (failed : word c t = .error e) : takeWords s = .error e := by
  rw [takeWords.eq_def]
  split
  · simp_all
  · rename_i found'
    obtain ⟨rfl, rfl, rfl⟩ : _ ∧ _ ∧ _ := by simpa using found.symm.trans found'
    rw [dif_neg goes]
    split
    · simp_all
    · simp_all

theorem takeWords_of_word (found : takeGap s = (gap, c :: t)) (goes : ¬isTerminator c = true)
    (taken : word c t = .ok (w, rest)) :
    takeWords s =
      (takeWords rest).map fun (ws, source, rest) => (w :: ws, gap ++ w.written ++ source, rest) := by
  rw [takeWords.eq_def]
  split
  · simp_all
  · rename_i found'
    obtain ⟨rfl, rfl, rfl⟩ : _ ∧ _ ∧ _ := by simpa using found.symm.trans found'
    rw [dif_neg goes]
    split
    · simp_all
    · simp_all

theorem commands_of_takeIdle (found : takeIdle false s = (idle, [])) :
    commands line s = .ok [] := by
  rw [commands.eq_def]
  split
  · rfl
  · rename_i some
    rw [found] at some
    cases some

theorem commands_of_error (found : takeIdle false s = (idle, c :: t))
    (failed : takeWords (c :: t) = .error e) : commands line s = .error e := by
  rw [commands.eq_def]
  split
  · simp_all
  · rename_i found'
    obtain ⟨rfl, rfl, rfl⟩ : _ ∧ _ ∧ _ := by simpa using found.symm.trans found'
    split
    · simp_all
    · simp_all

theorem commands_of_takeWords (found : takeIdle false s = (idle, c :: t))
    (taken : takeWords (c :: t) = .ok (ws, source, rest)) :
    commands line s =
      if ws.isEmpty then commands (line + idle.count newline + source.count newline) rest
      else (commands (line + idle.count newline + source.count newline) rest).map
        (⟨ws, trim source, line + idle.count newline⟩ :: ·) := by
  rw [commands.eq_def]
  split
  · rename_i none
    rw [found] at none
    cases none
  · rename_i some
    rw [found] at some
    cases some
    split
    · rename_i failed
      rw [taken] at failed
      cases failed
    · rename_i taken'
      rw [taken] at taken'
      cases taken'
      rfl

theorem parse_eq_ok_iff {s : Text} {cs : List Command} :
    parse s = .ok cs ↔ commands 1 s = .ok cs := by
  unfold parse
  cases commands 1 s with
  | error f => exact ⟨nofun, nofun⟩
  | ok cs' =>
    constructor
    · intro parsed
      cases parsed
      rfl
    · intro read
      cases read
      rfl

theorem parse_eq_error_iff {s : Text} {e : SyntaxError} :
    parse s = .error e ↔ ∃ f, commands 1 s = .error f ∧ e = ⟨lineOf s f.place, f.problem⟩ := by
  unfold parse
  cases commands 1 s with
  | error f =>
    constructor
    · intro failed
      exact ⟨f, rfl, (Except.error.inj failed).symm⟩
    · rintro ⟨f', same, rfl⟩
      rw [Except.error.inj same]
      rfl
  | ok cs =>
    constructor
    · intro failed
      cases failed
    · rintro ⟨f, failed, -⟩
      cases failed

end

end Script

end InterpTree
