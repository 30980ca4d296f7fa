import InterpTree.Proofs.Continuation

/-!
Scripts one after the other. A scanner that comes to the end of a text stops in the same way at a
newline, unless a backslash stands before it: so a script, a newline and a further script are the
commands of the one and then those of the other, further down.
-/

namespace InterpTree

namespace Script

open Text

/-- The command as it stands `n` lines further down. -/
def Command.down (n : Nat) (c : Command) : Command := { c with line := c.line + n }

/-- The error as it is told `n` lines further down. -/
def SyntaxError.down (n : Nat) (e : SyntaxError) : SyntaxError := { e with line := e.line + n }

/-! ### Where a scanner ends with the text -/

section

variable {s gap text rest source idle : Text} {c : UInt8} {w : Word} {ws : List Word}

/-- The end of a text ends as the text does. -/
theorem getLast?_ne_of_append {s t : Text} {mark : UInt8} (last : (s ++ t).getLast? ≠ some mark) :
    t.getLast? ≠ some mark := by
  intro ends
  simp [List.getLast?_append, ends] at last

theorem takeBare_append_newline (taken : takeBare s = .ok (text, []))
    (whole : s.getLast? ≠ some backslash) (more : Text) :
    takeBare (s ++ newline :: more) = .ok (text, newline :: more) := by
  have ends : (isBlank newline || isTerminator newline) = true := by decide
  fun_induction takeBare s generalizing text with
  | case1 =>
    cases taken
    exact takeBare_end ends
  | case2 => cases taken
  -- A backslash at the end would take the newline with it.
  | case3 => exact absurd rfl whole
  | case4 d s goes ih =>
    obtain ⟨text', found, rfl⟩ := eq_of_mapOk_put taken
    have whole' := getLast?_ne_of_append (s := [backslash, d]) whole
    simp [ih found whole', Except.map, put]
  | case5 => cases taken
  | case6 s inside tail goes slash brackets shorter ih =>
    obtain ⟨text', found, rfl⟩ := eq_of_mapOk_put taken
    have whole' : tail.getLast? ≠ some backslash := by
      have split := eq_of_takeBrackets brackets
      refine getLast?_ne_of_append (s := openBracket :: inside ++ [closeBracket]) ?_
      simpa [← split] using whole
    rw [List.cons_append, takeBare_openBracket (takeBrackets_append brackets _ _),
      ih found whole']
    rfl
  | case7 c s goes slash bracket ih =>
    obtain ⟨text', found, rfl⟩ := eq_of_mapOk_put taken
    have whole' := getLast?_ne_of_append (s := [c]) whole
    simp [takeBare_other goes slash bracket, ih found whole', Except.map, put]

theorem word_append_newline (taken : word c s = .ok (w, []))
    (whole : (c :: s).getLast? ≠ some backslash) (more : Text) :
    word c (s ++ newline :: more) = .ok (w, newline :: more) := by
  have ends : atWordEnd (newline :: more) = true := by
    show (isBlank newline || isTerminator newline) = true
    decide
  exact word_append_of_takeBare taken (fun _ => ends) fun _ found =>
    takeBare_append_newline found whole more

/-- A backslash at the end of the text is no part of a gap, so that none stands before the
newline. -/
theorem takeGap_append_newline (found : takeGap s = (gap, [])) (more : Text) :
    takeGap (s ++ newline :: more) = (gap, newline :: more) := by
  have line : takeGap (newline :: more) = ([], newline :: more) := by
    rw [takeGap.eq_def]
    rfl
  fun_induction takeGap s generalizing gap with
  | case1 =>
    cases found
    exact line
  | case2 b s blank ih =>
    simp only [put, Prod.mk.injEq] at found
    rw [List.cons_append, takeGap.eq_def]
    simp [blank, ih (Prod.ext rfl found.2), put, found.1]
  | case3 => cases found
  | case4 s blank ih =>
    simp only [put, Prod.mk.injEq] at found
    rw [List.cons_append, List.cons_append, takeGap.eq_def]
    simp [blank, ih (Prod.ext rfl found.2), put, found.1]
  | case5 => cases found
  | case6 => cases found

theorem takeWords_append_newline (taken : takeWords s = .ok (ws, source, rest))
    (whole : s.getLast? ≠ some backslash) (more : Text) :
    takeWords (s ++ newline :: more) = .ok (ws, source, rest ++ newline :: more) := by
  have terminator : isTerminator newline = true := by decide
  fun_induction takeWords s generalizing ws source with
  | case1 s gap found =>
    cases taken
    exact takeWords_of_terminator (takeGap_append_newline found more) terminator
  | case2 s gap c t found ends =>
    cases taken
    have start : c :: t ≠ [backslash] := by
      rintro ⟨⟩
      exact absurd ends (by decide)
    exact takeWords_of_terminator (takeGap_append_right found start _) ends
  | case3 => cases taken
  | case4 s gap c t found goes w mid first shorter ih =>
    cases others : takeWords mid with
    | error e => simp [others, Except.map] at taken
    | ok r =>
      obtain ⟨ws', source', tail⟩ := r
      rw [others] at taken
      cases taken
      have cut := append_takeGap s
      simp only [found] at cut
      have whole' : (c :: t).getLast? ≠ some backslash :=
        getLast?_ne_of_append (s := gap) (by rwa [cut])
      have start : c :: t ≠ [backslash] := by
        rintro ⟨⟩
        exact whole' rfl
      have next : word c (t ++ newline :: more) = .ok (w, mid ++ newline :: more) := by
        cases mid with
        | nil => exact word_append_newline first whole' more
        | cons b mid => exact word_append first _
      have later : mid.getLast? ≠ some backslash :=
        getLast?_ne_of_append (by rwa [← eq_of_word first])
      rw [takeWords_of_word (takeGap_append_right found start _) goes next, ih others later]
      rfl

theorem takeIdle_append_newline {inComment : Bool} (found : takeIdle inComment s = (idle, []))
    (more : Text) :
    takeIdle inComment (s ++ newline :: more) = put (s ++ [newline]) (takeIdle false more) := by
  fun_induction takeIdle inComment s generalizing idle with
  | case1 inComment =>
    cases inComment with
    | false => rfl
    | true => rfl
  | case2 b s ih =>
    simp only [put, Prod.mk.injEq] at found
    simp [takeIdle, ih (Prod.ext rfl found.2), put]
  | case3 inComment b s comment idles ih =>
    simp only [put, Prod.mk.injEq] at found
    simp [takeIdle, comment, idles, ih (Prod.ext rfl found.2), put]
  | case4 inComment s comment idles ih =>
    simp only [put, Prod.mk.injEq] at found
    simp [takeIdle, comment, idles, ih (Prod.ext rfl found.2), put]
  | case5 => cases found

end

/-! ### Commands further down -/

section

variable {s t idle : Text} {line : Nat} {cs : List Command} {e : Fix}

/-- What stands before a command only moves it down. -/
theorem commands_of_put (found : takeIdle false s = put idle (takeIdle false t)) :
    commands line s = commands (line + idle.count newline) t := by
  cases left : takeIdle false t with
  | mk idle' rest =>
    rw [left] at found
    cases rest with
    | nil => rw [commands_of_takeIdle found, commands_of_takeIdle left]
    | cons c rest =>
      cases words : takeWords (c :: rest) with
      | error e => rw [commands_of_error found words, commands_of_error left words]
      | ok r =>
        obtain ⟨ws, source, tail⟩ := r
        have lines : line + (idle ++ idle').count newline =
            line + idle.count newline + idle'.count newline := by
          rw [List.count_append, Nat.add_assoc]
        rw [commands_of_takeWords found words, commands_of_takeWords left words, lines]

theorem commands_append_newline (found : commands line s = .ok cs)
    (whole : s.getLast? ≠ some backslash) (more : Text) :
    commands line (s ++ newline :: more) =
      (commands (line + (1 + s.count newline)) more).map (cs ++ ·) := by
  have unchanged (r : Except Fix (List Command)) : r.map (([] : List Command) ++ ·) = r := by
    cases r with
    | error e => rfl
    | ok cs => rfl
  fun_induction commands line s generalizing cs with
  | case1 line s idle starts =>
    cases found
    rw [commands_of_put (takeIdle_append_newline starts more), unchanged, List.count_append]
    congr 1
    simp only [List.count_cons_self, List.count_nil]
    omega
  | case2 => cases found
  | case3 line s idle c t starts ws source rest words shorter line' later empty =>
    rename_i ih
    have cut := append_takeIdle false s
    simp only [starts] at cut
    have here : (c :: t).getLast? ≠ some backslash := getLast?_ne_of_append (by rwa [cut])
    have after : rest.getLast? ≠ some backslash :=
      getLast?_ne_of_append (by rwa [← eq_of_takeWords words])
    rw [commands_of_takeWords (takeIdle_append_right starts _)
      (takeWords_append_newline words here more), if_pos empty, ih found after]
    rw [eq_of_takeWords words] at cut
    simp only [line', ← cut, List.count_append]
    congr 2
    omega
  | case4 line s idle c t starts ws source rest words shorter line' later nonempty =>
    rename_i ih
    -- The command is read in front of the newline, and the rest ends as the script does.
    have cut := append_takeIdle false s
    simp only [starts] at cut
    have here : (c :: t).getLast? ≠ some backslash := getLast?_ne_of_append (by rwa [cut])
    have after : rest.getLast? ≠ some backslash :=
      getLast?_ne_of_append (by rwa [← eq_of_takeWords words])
    obtain ⟨cs', others, rfl⟩ : ∃ cs', later = .ok cs' ∧ ⟨ws, trim source, line'⟩ :: cs' = cs := by
      cases others : later with
      | error e => simp [others, Except.map] at found
      | ok cs' => simpa [others, Except.map] using found
    rw [commands_of_takeWords (takeIdle_append_right starts _)
      (takeWords_append_newline words here more), if_neg nonempty, ih others after]
    rw [eq_of_takeWords words] at cut
    have lines : line' + source.count newline + (1 + rest.count newline) =
        line + (1 + s.count newline) := by
      simp only [line', ← cut, List.count_append]
      omega
    rw [lines]
    cases commands (line + (1 + s.count newline)) more with
    | error e => rfl
    | ok cs => rfl

/-- Commands are the same on whatever line the text starts, but for their own lines. -/
theorem commands_add (line n : Nat) (s : Text) :
    commands (line + n) s = (commands line s).map (List.map (Command.down n)) := by
  fun_induction commands line s with
  | case1 line s idle starts =>
    rw [commands_of_takeIdle starts]
    rfl
  | case2 line s idle c t starts e words =>
    rw [commands_of_error starts words]
    rfl
  | case3 line s idle c t starts ws source rest words shorter line' later empty =>
    rename_i ih
    rw [commands_of_takeWords starts words, if_pos empty, ← ih]
    congr 1
    omega
  | case4 line s idle c t starts ws source rest words shorter line' later nonempty =>
    rename_i ih
    have lines : line + n + idle.count newline + source.count newline =
        line' + source.count newline + n := by omega
    have first : line + n + idle.count newline = line' + n := by omega
    rw [commands_of_takeWords starts words, if_neg nonempty, lines, ih, first]
    show _ = ((commands (line' + source.count newline) rest).map _).map _
    cases commands (line' + source.count newline) rest with
    | error e => rfl
    | ok cs => rfl

end

/-! ### Where a problem lies -/

section

variable {start s t : Text} {depth line : Nat} {c : UInt8} {e : Fix}

theorem suffix_of_eq {s inside rest : Text} {c : UInt8} (split : s = inside ++ c :: rest) :
    rest <:+ s :=
  ⟨inside ++ [c], by simp [split]⟩

theorem place_of_takeBrackets (failed : takeBrackets start depth s = .error e) :
    e.place = start ∨ e.place <:+ s := by
  fun_induction takeBrackets start depth s with
  | case1 =>
    cases failed
    exact .inl rfl
  | case2 =>
    cases failed
    exact .inl rfl
  | case3 depth d s ih =>
    exact (ih (error_of_map failed)).imp_right fun later =>
      later.trans (List.suffix_append [backslash, d] s)
  | case4 depth s none slash =>
    cases failed
    exact .inr (List.suffix_refl _)
  | case5 depth s inside rest braces shorter slash ih =>
    exact (ih (error_of_map failed)).imp_right fun later =>
      later.trans ((suffix_of_eq (eq_of_takeBraces braces)).trans (List.suffix_cons _ s))
  | case6 depth s slash brace ih =>
    exact (ih (error_of_map failed)).imp_right fun later => later.trans (List.suffix_cons _ s)
  | case7 => cases failed
  | case8 s depth slash brace bracket ih =>
    exact (ih (error_of_map failed)).imp_right fun later => later.trans (List.suffix_cons _ s)
  | case9 depth c s slash brace bracket close ih =>
    exact (ih (error_of_map failed)).imp_right fun later => later.trans (List.suffix_cons c s)

theorem place_of_takeQuoted (failed : takeQuoted start s = .error e) :
    e.place = start ∨ e.place <:+ s := by
  fun_induction takeQuoted start s with
  | case1 =>
    cases failed
    exact .inl rfl
  | case2 =>
    cases failed
    exact .inl rfl
  | case3 d s ih =>
    exact (ih (error_of_map failed)).imp_right fun later =>
      later.trans (List.suffix_append [backslash, d] s)
  | case4 s f slash brackets =>
    cases failed
    exact .inr (List.suffix_cons_iff.mpr (place_of_takeBrackets brackets))
  | case5 s inside rest slash brackets shorter ih =>
    exact (ih (error_of_map failed)).imp_right fun later =>
      later.trans ((suffix_of_eq (eq_of_takeBrackets brackets)).trans (List.suffix_cons _ s))
  | case6 => cases failed
  | case7 c s slash bracket quote ih =>
    exact (ih (error_of_map failed)).imp_right fun later => later.trans (List.suffix_cons c s)

theorem place_of_takeBare (failed : takeBare s = .error e) : e.place <:+ s := by
  fun_induction takeBare s with
  | case1 => cases failed
  | case2 => cases failed
  | case3 => cases failed
  | case4 d s goes ih =>
    exact (ih (error_of_map failed)).trans (List.suffix_append [backslash, d] s)
  | case5 s f goes slash brackets =>
    cases failed
    exact List.suffix_cons_iff.mpr (place_of_takeBrackets brackets)
  | case6 s inside rest goes slash brackets shorter ih =>
    exact (ih (error_of_map failed)).trans
      ((suffix_of_eq (eq_of_takeBrackets brackets)).trans (List.suffix_cons _ s))
  | case7 c s goes slash bracket ih =>
    exact (ih (error_of_map failed)).trans (List.suffix_cons c s)

theorem place_of_word (failed : word c s = .error e) : e.place <:+ c :: s := by
  by_cases brace : c = openBrace
  · subst brace
    rw [word_openBrace] at failed
    cases found : takeBraces 0 s with
    | none =>
      rw [found] at failed
      cases failed
      exact List.suffix_refl _
    | some r =>
      obtain ⟨inside, rest⟩ := r
      simp only [found] at failed
      split at failed
      · cases failed
      · cases failed
        exact (suffix_of_eq (eq_of_takeBraces found)).trans (List.suffix_cons _ s)
  by_cases quote : c = quoteMark
  · subst quote
    rw [word_quoteMark] at failed
    cases found : takeQuoted (quoteMark :: s) s with
    | error f =>
      rw [found] at failed
      cases failed
      exact List.suffix_cons_iff.mpr (place_of_takeQuoted found)
    | ok r =>
      obtain ⟨inside, rest⟩ := r
      simp only [found] at failed
      split at failed
      · cases failed
      · cases failed
        exact (suffix_of_eq (eq_of_takeQuoted found)).trans (List.suffix_cons _ s)
  · rw [word_bare brace quote] at failed
    exact place_of_takeBare (error_of_map failed)

theorem place_of_takeWords (failed : takeWords s = .error e) : e.place <:+ s := by
  fun_induction takeWords s with
  | case1 => cases failed
  | case2 => cases failed
  | case3 s gap c t found goes f first =>
    cases failed
    have cut := append_takeGap s
    simp only [found] at cut
    rw [← cut]
    exact (place_of_word first).trans (List.suffix_append gap _)
  | case4 s gap c t found goes w mid first shorter ih =>
    have cut := append_takeGap s
    simp only [found, eq_of_word first] at cut
    rw [← cut]
    exact (ih (error_of_map failed)).trans
      ((List.suffix_append w.written mid).trans (List.suffix_append gap _))

theorem rest_suffix_of_takeWords {idle source rest : Text} {ws : List Word}
    (starts : takeIdle false s = (idle, c :: t))
    (words : takeWords (c :: t) = .ok (ws, source, rest)) : rest <:+ s := by
  have cut := append_takeIdle false s
  simp only [starts, eq_of_takeWords words] at cut
  rw [← cut]
  exact (List.suffix_append source rest).trans (List.suffix_append idle _)

/-- A problem lies in the text that has it. -/
theorem place_of_commands (failed : commands line s = .error e) : e.place <:+ s := by
  fun_induction commands line s with
  | case1 => cases failed
  | case2 line s idle c t starts f words =>
    cases failed
    have cut := append_takeIdle false s
    simp only [starts] at cut
    rw [← cut]
    exact (place_of_takeWords words).trans (List.suffix_append idle _)
  | case3 line s idle c t starts ws source rest words shorter line' later empty ih =>
    exact (ih failed).trans (rest_suffix_of_takeWords starts words)
  | case4 line s idle c t starts ws source rest words shorter line' later nonempty ih =>
    exact (ih (error_of_map failed)).trans (rest_suffix_of_takeWords starts words)

end

/-! ### Scripts -/

theorem lineOf_append_left {script place : Text} (within : place <:+ script) (before : Text) :
    lineOf (before ++ newline :: script) place = lineOf script place + (1 + before.count newline) := by
  have fewer := within.sublist.count_le newline
  simp only [lineOf, List.count_append, List.count_cons_self]
  omega

/-- Parsing is compositional: a script, a newline and a further script have the commands of the two,
or the problem of the second, which stand as many lines further down as the first script and the
newline take. A backslash at the end of the first script would take the newline with it. -/
theorem parse_append_newline {s₁ : Text} {cs₁ : List Command} (parsed : parse s₁ = .ok cs₁)
    (whole : s₁.getLast? ≠ some backslash) (s₂ : Text) :
    (∀ cs₂, parse s₂ = .ok cs₂ →
      parse (s₁ ++ newline :: s₂) = .ok (cs₁ ++ cs₂.map (Command.down (1 + s₁.count newline)))) ∧
    ∀ e, parse s₂ = .error e →
      parse (s₁ ++ newline :: s₂) = .error (e.down (1 + s₁.count newline)) := by
  have first := parse_eq_ok_iff.mp parsed
  have both := commands_append_newline first whole s₂
  rw [commands_add] at both
  constructor
  · intro cs₂ parsed₂
    rw [parse_eq_ok_iff.mp parsed₂] at both
    exact parse_eq_ok_iff.mpr both
  · intro e failed
    obtain ⟨f, stuck, rfl⟩ := parse_eq_error_iff.mp failed
    rw [stuck] at both
    refine parse_eq_error_iff.mpr ⟨f, both, ?_⟩
    rw [lineOf_append_left (place_of_commands stuck), SyntaxError.down]

/-- A first script with brackets over two lines and a brace in a comment, and a second one that ends
in an open brace. -/
theorem parse_append_newline_comment :
    parse "set a [b\n c]; d\n# no \x7b end" =
        .ok [⟨[⟨"set", .bare⟩, ⟨"a", .bare⟩, ⟨"[b\n c]", .bare⟩], "set a [b\n c]", 1⟩,
          ⟨[⟨"d", .bare⟩], "d", 2⟩] ∧
      parse ("set a [b\n c]; d\n# no \x7b end" ++ newline :: "\n e") =
        .ok [⟨[⟨"set", .bare⟩, ⟨"a", .bare⟩, ⟨"[b\n c]", .bare⟩], "set a [b\n c]", 1⟩,
          ⟨[⟨"d", .bare⟩], "d", 2⟩, ⟨[⟨"e", .bare⟩], "e", 5⟩] ∧
      parse ("set a [b\n c]; d\n# no \x7b end" ++ newline :: "\n e \x7b") =
        .error ⟨5, .missingBrace⟩ := by
  have first : parse "set a [b\n c]; d\n# no \x7b end" =
      .ok [⟨[⟨"set", .bare⟩, ⟨"a", .bare⟩, ⟨"[b\n c]", .bare⟩], "set a [b\n c]", 1⟩,
        ⟨[⟨"d", .bare⟩], "d", 2⟩] := by
    decide +kernel
  have done : parse "\n e" = .ok [⟨[⟨"e", .bare⟩], "e", 2⟩] := by decide +kernel
  have stuck : parse "\n e \x7b" = .error ⟨2, .missingBrace⟩ := by decide +kernel
  have both := parse_append_newline first (by decide)
  exact ⟨first, (both "\n e").1 _ done, (both "\n e \x7b").2 _ stuck⟩

end Script

end InterpTree
