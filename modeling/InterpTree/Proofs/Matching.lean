import InterpTree.Proofs.Brackets

/-!
The two ways to find the bracket that closes a command. The parser takes text in braces as a whole and
counts the brackets in between; substitution goes on byte by byte and counts open brackets and open
braces. Main statement: from an open bracket on, wherever it stands in whatever text, both come to the
same bracket, or neither comes to any.
-/

namespace InterpTree

namespace Script

open Text

section

variable {start s inside rest : Text} {depth braces : Nat} {seen : Text} {e : Fix}

/-- While a brace is open that the parser finds nothing to close, no bracket counts. -/
theorem matchBracket_of_takeBraces_none (unclosed : takeBraces braces s = none) :
    matchBracket depth (braces + 1) seen s = none := by
  fun_induction takeBraces braces s generalizing seen with
  | case1 => exact matchBracket_nil
  | case2 => exact matchBracket_slash
  | case3 braces d s ih =>
    rw [matchBracket_backslash, ih (Option.map_eq_none_iff.mp unclosed)]
  | case4 braces s slash ih =>
    rw [matchBracket_openBrace, ih (Option.map_eq_none_iff.mp unclosed)]
  | case5 => cases unclosed
  | case6 s braces slash brace ih =>
    rw [matchBracket_closeBrace, Nat.add_sub_cancel, ih (Option.map_eq_none_iff.mp unclosed)]
  | case7 braces c s slash brace close ih =>
    rw [matchBracket_other slash brace close fun _ => Nat.succ_ne_zero braces,
      ih (Option.map_eq_none_iff.mp unclosed)]

/-- Where the parser finds no bracket that closes a command, substitution finds none either. -/
theorem matchBracket_of_takeBrackets_error (failed : takeBrackets start depth s = .error e) :
    matchBracket depth 0 seen s = none := by
  fun_induction takeBrackets start depth s generalizing seen with
  | case1 => exact matchBracket_nil
  | case2 => exact matchBracket_slash
  | case3 depth d s ih => rw [matchBracket_backslash, ih (error_of_map failed)]
  | case4 depth s unclosed slash =>
    rw [matchBracket_openBrace, matchBracket_of_takeBraces_none unclosed]
  | case5 depth s text tail closes shorter slash ih =>
    rw [matchBracket_openBrace, matchBracket_of_takeBraces closes, ih (error_of_map failed)]
  | case6 depth s slash brace ih => rw [matchBracket_openBracket, ih (error_of_map failed)]
  | case7 => cases failed
  | case8 s depth slash brace bracket ih =>
    rw [matchBracket_closeBracket_succ, ih (error_of_map failed)]
  | case9 depth c s slash brace bracket close ih =>
    rw [matchBracket_passed slash brace bracket close, ih (error_of_map failed)]

/-- Both find the same text between the brackets and the same text after them, or neither finds any. -/
theorem matchBracket_eq_toOption (start : Text) (depth : Nat) (s : Text) :
    matchBracket depth 0 [] s = (takeBrackets start depth s).toOption := by
  cases taken : takeBrackets start depth s with
  | error e => exact matchBracket_of_takeBrackets_error taken
  | ok found => exact matchBracket_of_takeBrackets taken

end

/-! ### Places -/

section

variable {s inside rest : Text} {i : Nat}

/-- The place where the parser goes on after the command that starts with a bracket at place `i`. -/
def afterBrackets (s : Text) (i : Nat) : Except Fix Nat :=
  (takeBrackets (s.drop i) 0 (s.drop (i + 1))).map fun (_, rest) => s.length - rest.length

/-- The place of the bracket that substitution matches with the one at place `i`. -/
def matchPlace? (s : Text) (i : Nat) : Option Nat :=
  (matchBracket 0 0 [] (s.drop (i + 1))).map fun (inside, _) => i + 1 + inside.length

/-- The parser goes on just behind the text that it has found between the brackets. -/
theorem length_sub_of_takeBrackets
    (taken : takeBrackets (s.drop i) 0 (s.drop (i + 1)) = .ok (inside, rest)) :
    s.length - rest.length = i + 1 + inside.length + 1 := by
  have whole := congrArg List.length (eq_of_takeBrackets taken)
  simp only [List.length_drop, List.length_append, List.length_cons] at whole
  omega

/-- The parser closes the bracket at a place, and goes on behind the place `j`, just if substitution
matches it with the one at place `j`; and it finds nothing to close it with just if substitution
finds no match. The bracket at `j` closes, and what stands between the two is the command for both. -/
theorem afterBrackets_agrees (opens : s[i]? = some openBracket) :
    (∀ j, afterBrackets s i = .ok (j + 1) ↔ matchPlace? s i = some j) ∧
      ((∃ e, afterBrackets s i = .error e) ↔ matchPlace? s i = none) ∧
      ∀ j, matchPlace? s i = some j → ∃ inside rest,
        takeBrackets (s.drop i) 0 (s.drop (i + 1)) = .ok (inside, rest) ∧
        matchBracket 0 0 [] (s.drop (i + 1)) = some (inside, rest) ∧
        s = s.take i ++ openBracket :: (inside ++ closeBracket :: rest) ∧
        i + 1 + inside.length = j := by
  have split : s.drop i = openBracket :: s.drop (i + 1) := by
    obtain ⟨inBounds, here⟩ := List.getElem?_eq_some_iff.mp opens
    rw [List.drop_eq_getElem_cons inBounds, here]
  unfold afterBrackets matchPlace?
  rw [matchBracket_eq_toOption (s.drop i)]
  cases taken : takeBrackets (s.drop i) 0 (s.drop (i + 1)) with
  | error e => exact ⟨fun j => ⟨nofun, nofun⟩, ⟨fun _ => rfl, fun _ => ⟨e, rfl⟩⟩, nofun⟩
  | ok found =>
    obtain ⟨inside, rest⟩ := found
    have place := length_sub_of_takeBrackets taken
    simp only [Except.map, Except.toOption, Option.map_some, Except.ok.injEq, Option.some.injEq, place]
    refine ⟨fun j => by omega, ⟨nofun, nofun⟩, fun j same => ?_⟩
    refine ⟨inside, rest, rfl, rfl, ?_, same⟩
    rw [← eq_of_takeBrackets taken, ← split, List.take_append_drop]

/-- Text with a bracket in braces, behind an escaped brace, an escaped bracket and a command within the
command; and text with a brace that nothing closes. -/
theorem afterBrackets_agrees_nested :
    let s : Text := "x[a\x7b[\\\x7d]\x7d\\][b]]y"
    let t : Text := "[a]\x7b[b\x7b]"
    s[1]? = some openBracket ∧ afterBrackets s 1 = .ok 15 ∧ matchPlace? s 1 = some 14 ∧
      t[4]? = some openBracket ∧ (∃ e, afterBrackets t 4 = .error e) ∧ matchPlace? t 4 = none := by
  intro s t
  have opens : s[1]? = some openBracket := by decide
  have place : matchPlace? s 1 = some 14 := by decide +kernel
  have opens' : t[4]? = some openBracket := by decide
  have none : matchPlace? t 4 = none := by decide +kernel
  obtain ⟨closes, -⟩ := afterBrackets_agrees opens
  obtain ⟨-, fails, -⟩ := afterBrackets_agrees opens'
  exact ⟨opens, (closes 14).mpr place, place, opens', fails.mpr none, none⟩

end

end Script

end InterpTree
