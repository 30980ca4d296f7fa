import InterpTree.Text

/-!
Scanners over script text. Each takes the text from some point on and divides it into the item that
starts there and what follows, or tells the problem that keeps the item from ending. A place in a
script is named by the text that follows it, so that no scanner keeps count of positions.
-/

namespace InterpTree

namespace Script

open Text

/-- What can be wrong with a script. -/
inductive Problem
  | missingBrace
  | missingQuote
  | missingBracket
  | extraAfterBrace
  | extraAfterQuote
deriving DecidableEq

/-- The wording of a problem. -/
def Problem.message : Problem → Text
  | .missingBrace => "missing close-brace"
  | .missingQuote => "missing \""
  | .missingBracket => "missing close-bracket"
  | .extraAfterBrace => "extra characters after close-brace"
  | .extraAfterQuote => "extra characters after close-quote"

/-- A problem and the text from the place on where it is reported. -/
structure Fix where
  problem : Problem
  place : Text
deriving DecidableEq

/-- Blanks separate words. -/
def isBlank (c : UInt8) : Bool := c = space || c = tab || c = carriageReturn

/-- A newline or a semicolon ends a command. -/
def isTerminator (c : UInt8) : Bool := c = newline || c = semicolon

/-- Whether a word may end here: at the end of the text, a blank or a terminator. -/
def atWordEnd : Text → Bool
  | [] => true
  | c :: _ => isBlank c || isTerminator c

/-- What a scanner found after `bytes`, with these in front of the item. -/
def put (bytes : Text) (found : Text × Text) : Text × Text := (bytes ++ found.1, found.2)

/-- The text inside braces, `depth` and one of which are open at the start, and what follows the
brace that closes the last of them. A backslash takes the next byte with it. -/
def takeBraces (depth : Nat) : Text → Option (Text × Text)
  | [] => none
  | c :: s =>
    if c = backslash then
      match s with
      | [] => none
      | d :: s => (takeBraces depth s).map (put [c, d])
    else if c = openBrace then (takeBraces (depth + 1) s).map (put [c])
    else if c = closeBrace then
      match depth with
      | 0 => some ([], s)
      | depth + 1 => (takeBraces depth s).map (put [c])
    else (takeBraces depth s).map (put [c])

theorem eq_of_map_put {bytes inside rest : Text} {found : Option (Text × Text)}
    (h : found.map (put bytes) = some (inside, rest)) :
    ∃ more, found = some (more, rest) ∧ inside = bytes ++ more := by
  obtain ⟨⟨more, rest'⟩, hf, he⟩ := Option.map_eq_some_iff.1 h
  simp only [put, Prod.mk.injEq] at he
  exact ⟨more, by rw [hf, he.2], he.1.symm⟩

theorem eq_of_takeBraces {depth : Nat} {s inside rest : Text}
    (h : takeBraces depth s = some (inside, rest)) : s = inside ++ closeBrace :: rest := by
  fun_induction takeBraces depth s generalizing inside with
  | case1 => cases h
  | case2 => cases h
  | case3 =>
    rename_i ih
    obtain ⟨more, hm, rfl⟩ := eq_of_map_put h
    simp [ih hm]
  | case4 =>
    rename_i ih
    obtain ⟨more, hm, rfl⟩ := eq_of_map_put h
    simp [ih hm]
  | case5 =>
    cases h
    simp_all
  | case6 =>
    rename_i ih
    obtain ⟨more, hm, rfl⟩ := eq_of_map_put h
    simp [ih hm]
  | case7 =>
    rename_i ih
    obtain ⟨more, hm, rfl⟩ := eq_of_map_put h
    simp [ih hm]

theorem length_of_takeBraces {depth : Nat} {s inside rest : Text}
    (h : takeBraces depth s = some (inside, rest)) : rest.length < s.length := by
  rw [eq_of_takeBraces h]
  simp only [List.length_append, List.length_cons]
  omega

theorem eq_of_mapOk_put {bytes inside rest : Text} {found : Except Fix (Text × Text)}
    (h : found.map (put bytes) = .ok (inside, rest)) :
    ∃ more, found = .ok (more, rest) ∧ inside = bytes ++ more := by
  cases found with
  | error e => cases h
  | ok r =>
    simp only [Except.map, put, Except.ok.injEq, Prod.mk.injEq] at h
    exact ⟨r.1, by rw [← h.2], h.1.symm⟩

/-- The text inside brackets, `depth` and one of which are open at the start, and what follows the
bracket that closes the last of them. Text in braces belongs to it as a whole; `start` is the place
of the first open bracket. -/
def takeBrackets (start : Text) (depth : Nat) : Text → Except Fix (Text × Text)
  | [] => .error ⟨.missingBracket, start⟩
  | c :: s =>
    if c = backslash then
      match s with
      | [] => .error ⟨.missingBracket, start⟩
      | d :: s => (takeBrackets start depth s).map (put [c, d])
    else if c = openBrace then
      match h : takeBraces 0 s with
      | none => .error ⟨.missingBrace, c :: s⟩
      | some (inside, rest) =>
        have := length_of_takeBraces h
        (takeBrackets start depth rest).map (put (c :: inside ++ [closeBrace]))
    else if c = openBracket then (takeBrackets start (depth + 1) s).map (put [c])
    else if c = closeBracket then
      match depth with
      | 0 => .ok ([], s)
      | depth + 1 => (takeBrackets start depth s).map (put [c])
    else (takeBrackets start depth s).map (put [c])
termination_by s => s.length

theorem eq_of_takeBrackets {start : Text} {depth : Nat} {s inside rest : Text}
    (h : takeBrackets start depth s = .ok (inside, rest)) :
    s = inside ++ closeBracket :: rest := by
  fun_induction takeBrackets start depth s generalizing inside with
  | case1 => cases h
  | case2 => cases h
  | case3 =>
    rename_i ih
    obtain ⟨more, hm, rfl⟩ := eq_of_mapOk_put h
    simp [ih hm]
  | case4 => cases h
  | case5 =>
    rename_i hb _ _ ih
    obtain ⟨more, hm, rfl⟩ := eq_of_mapOk_put h
    simp [eq_of_takeBraces hb, ih hm]
  | case6 =>
    rename_i ih
    obtain ⟨more, hm, rfl⟩ := eq_of_mapOk_put h
    simp [ih hm]
  | case7 =>
    cases h
    simp_all
  | case8 =>
    rename_i ih
    obtain ⟨more, hm, rfl⟩ := eq_of_mapOk_put h
    simp [ih hm]
  | case9 =>
    rename_i ih
    obtain ⟨more, hm, rfl⟩ := eq_of_mapOk_put h
    simp [ih hm]

theorem length_of_takeBrackets {start : Text} {depth : Nat} {s inside rest : Text}
    (h : takeBrackets start depth s = .ok (inside, rest)) : rest.length < s.length := by
  rw [eq_of_takeBrackets h]
  simp only [List.length_append, List.length_cons]
  omega

/-- The text of a quoted word from just after its opening quote, and what follows the quote that
closes it. Bracketed commands belong to it as a whole; `start` is the place of the opening quote. -/
def takeQuoted (start : Text) : Text → Except Fix (Text × Text)
  | [] => .error ⟨.missingQuote, start⟩
  | c :: s =>
    if c = backslash then
      match s with
      | [] => .error ⟨.missingQuote, start⟩
      | d :: s => (takeQuoted start s).map (put [c, d])
    else if c = openBracket then
      match h : takeBrackets (c :: s) 0 s with
      | .error e => .error e
      | .ok (inside, rest) =>
        have := length_of_takeBrackets h
        (takeQuoted start rest).map (put (c :: inside ++ [closeBracket]))
    else if c = quoteMark then .ok ([], s)
    else (takeQuoted start s).map (put [c])
termination_by s => s.length

theorem eq_of_takeQuoted {start s inside rest : Text}
    (h : takeQuoted start s = .ok (inside, rest)) : s = inside ++ quoteMark :: rest := by
  fun_induction takeQuoted start s generalizing inside with
  | case1 => cases h
  | case2 => cases h
  | case3 =>
    rename_i ih
    obtain ⟨more, hm, rfl⟩ := eq_of_mapOk_put h
    simp [ih hm]
  | case4 => cases h
  | case5 =>
    rename_i hb _ ih
    obtain ⟨more, hm, rfl⟩ := eq_of_mapOk_put h
    simp [eq_of_takeBrackets hb, ih hm]
  | case6 =>
    cases h
    simp_all
  | case7 =>
    rename_i ih
    obtain ⟨more, hm, rfl⟩ := eq_of_mapOk_put h
    simp [ih hm]

/-- A bare word and what follows it: it runs to the next blank or terminator outside brackets. -/
def takeBare : Text → Except Fix (Text × Text)
  | [] => .ok ([], [])
  | c :: s =>
    if isBlank c || isTerminator c then .ok ([], c :: s)
    else if c = backslash then
      match s with
      | [] => .ok ([c], [])
      | d :: s => (takeBare s).map (put [c, d])
    else if c = openBracket then
      match h : takeBrackets (c :: s) 0 s with
      | .error e => .error e
      | .ok (inside, rest) =>
        have := length_of_takeBrackets h
        (takeBare rest).map (put (c :: inside ++ [closeBracket]))
    else (takeBare s).map (put [c])
termination_by s => s.length

theorem eq_of_takeBare {s word rest : Text} (h : takeBare s = .ok (word, rest)) :
    s = word ++ rest := by
  fun_induction takeBare s generalizing word with
  | case1 => cases h; rfl
  | case2 => cases h; rfl
  | case3 => cases h; rfl
  | case4 =>
    rename_i ih
    obtain ⟨more, hm, rfl⟩ := eq_of_mapOk_put h
    simp [ih hm]
  | case5 => cases h
  | case6 =>
    rename_i hb _ ih
    obtain ⟨more, hm, rfl⟩ := eq_of_mapOk_put h
    simp [eq_of_takeBrackets hb, ih hm]
  | case7 =>
    rename_i ih
    obtain ⟨more, hm, rfl⟩ := eq_of_mapOk_put h
    simp [ih hm]

/-- A bare word that does not start with a blank or a terminator holds at least one byte. -/
theorem ne_nil_of_takeBare {c : UInt8} {s word rest : Text}
    (hc : (isBlank c || isTerminator c) = false) (h : takeBare (c :: s) = .ok (word, rest)) :
    word ≠ [] := by
  rw [takeBare.eq_def] at h
  simp only [hc, Bool.false_eq_true, if_false] at h
  split at h
  · split at h
    · cases h; simp
    · obtain ⟨more, -, rfl⟩ := eq_of_mapOk_put h; simp
  · split at h
    · split at h
      · cases h
      · obtain ⟨more, -, rfl⟩ := eq_of_mapOk_put h; simp
    · obtain ⟨more, -, rfl⟩ := eq_of_mapOk_put h; simp

end Script

end InterpTree
