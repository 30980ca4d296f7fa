import InterpTree.Script.Scan
import InterpTree.Text.Rune

/-!
Scripts as commands. Commands end at a newline or a semicolon, words are separated by blanks, and
a hash at the start of a command begins a comment that runs to the end of the line.
-/

namespace InterpTree

namespace Script

open Text

/-- How a word is written. A braced word is taken literally; the others go through substitution. -/
inductive Form
  | bare
  | quoted
  | braced
deriving DecidableEq

/-- A word of a command as written, without its delimiters. -/
structure Word where
  text : Text
  form : Form
deriving DecidableEq

/-- A word with its delimiters. -/
def Word.written (w : Word) : Text :=
  match w.form with
  | .bare => w.text
  | .quoted => quoteMark :: w.text ++ [quoteMark]
  | .braced => openBrace :: w.text ++ [closeBrace]

/-- A command: its words, the text it was read from, and the line it starts on. -/
structure Command where
  words : List Word
  source : Text
  line : Nat
deriving DecidableEq

/-- A malformed script: what is wrong, and on which line. -/
structure SyntaxError where
  line : Nat
  problem : Problem
deriving DecidableEq

def SyntaxError.message (e : SyntaxError) : Text :=
  "syntax error on line " ++ ofNat e.line ++ ": " ++ e.problem.message

/-- Whether the script ended inside an open brace, quote or bracket, so that more input could
complete it. The wording tells. -/
def SyntaxError.isIncomplete (e : SyntaxError) : Bool :=
  List.isPrefixOf ("missing " : Text) e.problem.message

/-- The word in braces whose text from its opening brace on is `s`. -/
def bracedWord (s : Text) : Except Fix (Word × Text) :=
  match takeBraces 0 (s.drop 1) with
  | none => .error ⟨.missingBrace, s⟩
  | some (inside, rest) =>
    if atWordEnd rest then .ok (⟨inside, .braced⟩, rest) else .error ⟨.extraAfterBrace, rest⟩

/-- The word in double quotes whose text from its opening quote on is `s`. -/
def quotedWord (s : Text) : Except Fix (Word × Text) :=
  match takeQuoted s (s.drop 1) with
  | .error e => .error e
  | .ok (inside, rest) =>
    if atWordEnd rest then .ok (⟨inside, .quoted⟩, rest) else .error ⟨.extraAfterQuote, rest⟩

/-- The bare word that starts at `s`. -/
def bareWord (s : Text) : Except Fix (Word × Text) :=
  (takeBare s).map fun (text, rest) => (⟨text, .bare⟩, rest)

/-- The word that starts with the byte `c`, followed by `s`. -/
def word (c : UInt8) (s : Text) : Except Fix (Word × Text) :=
  if c = openBrace then bracedWord (c :: s)
  else if c = quoteMark then quotedWord (c :: s)
  else bareWord (c :: s)

theorem eq_of_bracedWord {s rest : Text} {w : Word}
    (h : bracedWord (openBrace :: s) = .ok (w, rest)) : openBrace :: s = w.written ++ rest := by
  unfold bracedWord at h
  split at h
  · cases h
  · next hr =>
    split at h
    · cases h
      have := eq_of_takeBraces hr
      simp only [List.drop_one, List.tail_cons] at this
      simp [Word.written, this]
    · cases h

theorem eq_of_quotedWord {s rest : Text} {w : Word}
    (h : quotedWord (quoteMark :: s) = .ok (w, rest)) : quoteMark :: s = w.written ++ rest := by
  unfold quotedWord at h
  split at h
  · cases h
  · next hr =>
    split at h
    · cases h
      have := eq_of_takeQuoted hr
      simp only [List.drop_one, List.tail_cons] at this
      simp [Word.written, this]
    · cases h

/-- A word and what follows it make up the text. -/
theorem eq_of_word {c : UInt8} {s rest : Text} {w : Word} (h : word c s = .ok (w, rest)) :
    c :: s = w.written ++ rest := by
  unfold word at h
  split at h
  · next hc => subst hc; exact eq_of_bracedWord h
  · split at h
    · next hc => subst hc; exact eq_of_quotedWord h
    · unfold bareWord at h
      cases ht : takeBare (c :: s) with
      | error e => rw [ht] at h; cases h
      | ok found =>
        rw [ht] at h
        cases h
        exact eq_of_takeBare ht

/-- A word that does not start with a blank or a terminator is written with at least one byte. -/
theorem written_ne_nil_of_word {c : UInt8} {s rest : Text} {w : Word}
    (hc : (isBlank c || isTerminator c) = false) (h : word c s = .ok (w, rest)) :
    w.written ≠ [] := by
  unfold word at h
  split at h
  · unfold bracedWord at h
    split at h
    · cases h
    · split at h <;> cases h; simp [Word.written]
  · split at h
    · unfold quotedWord at h
      split at h
      · cases h
      · split at h <;> cases h; simp [Word.written]
    · unfold bareWord at h
      cases ht : takeBare (c :: s) with
      | error e => rw [ht] at h; cases h
      | ok found =>
        rw [ht] at h
        cases h
        exact ne_nil_of_takeBare hc ht

theorem length_of_word {c : UInt8} {s rest : Text} {w : Word}
    (hc : (isBlank c || isTerminator c) = false) (h : word c s = .ok (w, rest)) :
    rest.length < (c :: s).length := by
  have := List.length_pos_iff.2 (written_ne_nil_of_word hc h)
  rw [eq_of_word h, List.length_append]
  omega

/-- The blanks between two words and what follows them; a backslash before a newline counts as a
blank. -/
def takeGap : Text → Text × Text
  | [] => ([], [])
  | c :: s =>
    if isBlank c then put [c] (takeGap s)
    else if c = backslash then
      match s with
      | [] => ([], [c])
      | d :: s => if d = newline then put [c, d] (takeGap s) else ([], c :: d :: s)
    else ([], c :: s)

theorem append_takeGap (s : Text) : (takeGap s).1 ++ (takeGap s).2 = s := by
  fun_induction takeGap s <;> simp_all [put]

theorem isBlank_of_takeGap {s t : Text} {c : UInt8} (h : (takeGap s).2 = c :: t) :
    isBlank c = false := by
  fun_induction takeGap s with
  | case1 => cases h
  | case2 => rename_i ih; exact ih h
  | case3 => cases h; decide
  | case4 => rename_i ih; exact ih h
  | case5 => cases h; decide
  | case6 => cases h; simp_all

/-- The words up to the end of the command, the text they were read from, and what follows. -/
def takeWords (s : Text) : Except Fix (List Word × Text × Text) :=
  match h : takeGap s with
  | (gap, []) => .ok ([], gap, [])
  | (gap, c :: t) =>
    if hc : isTerminator c then .ok ([], gap, c :: t)
    else
      match hw : word c t with
      | .error e => .error e
      | .ok (w, rest) =>
        have : rest.length < s.length := by
          have h1 := length_of_word (by simp [isBlank_of_takeGap (congrArg Prod.snd h), hc]) hw
          have h2 := congrArg List.length (append_takeGap s)
          simp only [h, List.length_append] at h2
          omega
        (takeWords rest).map fun (ws, source, rest) =>
          (w :: ws, gap ++ w.written ++ source, rest)
termination_by s.length

/-- The text of a command and what follows it make up the text. -/
theorem eq_of_takeWords {s source rest : Text} {ws : List Word}
    (h : takeWords s = .ok (ws, source, rest)) : s = source ++ rest := by
  fun_induction takeWords s generalizing ws source with
  | case1 s gap hs =>
    cases h
    simpa [hs] using (append_takeGap s).symm
  | case2 s gap c t hs hc =>
    cases h
    simpa [hs] using (append_takeGap s).symm
  | case3 => cases h
  | case4 s gap c t hs hc w mid hw hlt ih =>
    cases ht : takeWords mid with
    | error e => rw [ht] at h; cases h
    | ok found =>
      obtain ⟨ws', source', rest'⟩ := found
      rw [ht] at h
      cases h
      have h1 := append_takeGap s
      simp only [hs, eq_of_word hw, ih ht] at h1
      simp [← h1]

/-- What stands before the next command, which is blanks, terminators and comments, and what
follows. -/
def takeIdle (inComment : Bool) : Text → Text × Text
  | [] => ([], [])
  | c :: s =>
    if inComment then put [c] (takeIdle (c != newline) s)
    else if isBlank c || isTerminator c then put [c] (takeIdle false s)
    else if c = hash then put [c] (takeIdle true s)
    else ([], c :: s)

theorem append_takeIdle (inComment : Bool) (s : Text) :
    (takeIdle inComment s).1 ++ (takeIdle inComment s).2 = s := by
  fun_induction takeIdle inComment s <;> simp_all [put]

theorem head_of_takeIdle {inComment : Bool} {s t : Text} {c : UInt8}
    (h : (takeIdle inComment s).2 = c :: t) : (isBlank c || isTerminator c) = false := by
  fun_induction takeIdle inComment s with
  | case1 => cases h
  | case2 => rename_i ih; exact ih h
  | case3 => rename_i ih; exact ih h
  | case4 => rename_i ih; exact ih h
  | case5 => cases h; simp_all

/-- A command takes at least one byte. -/
theorem source_ne_nil_of_takeWords {c : UInt8} {s source rest : Text} {ws : List Word}
    (hc : (isBlank c || isTerminator c) = false)
    (h : takeWords (c :: s) = .ok (ws, source, rest)) : source ≠ [] := by
  rintro rfl
  have hs := eq_of_takeWords h
  simp only [List.nil_append] at hs
  subst hs
  simp only [Bool.or_eq_false_iff] at hc
  rw [takeWords.eq_def] at h
  split at h
  · next gap hg =>
    have := append_takeGap (c :: s)
    simp_all
  · next gap d t hg =>
    have heq := append_takeGap (c :: s)
    simp only [hg] at heq
    split at h
    · next hd =>
      cases h
      simp_all
    · next hd =>
      split at h
      · cases h
      · next w mid hw =>
        have hw' := written_ne_nil_of_word (by
          simp [isBlank_of_takeGap (congrArg Prod.snd hg), hd]) hw
        cases ht : takeWords mid with
        | error e => rw [ht] at h; cases h
        | ok found =>
          rw [ht] at h
          simp only [Except.map, Except.ok.injEq, Prod.mk.injEq] at h
          simp_all

/-- The commands of a text that starts on a line. -/
def commands (line : Nat) (s : Text) : Except Fix (List Command) :=
  match h : takeIdle false s with
  | (_, []) => .ok []
  | (idle, c :: t) =>
    match hw : takeWords (c :: t) with
    | .error e => .error e
    | .ok (ws, source, rest) =>
      have : rest.length < s.length := by
        have h1 := List.length_pos_iff.2 (source_ne_nil_of_takeWords
          (head_of_takeIdle (congrArg Prod.snd h)) hw)
        have h2 := congrArg List.length (append_takeIdle false s)
        have h3 := congrArg List.length (eq_of_takeWords hw)
        simp only [h, List.length_append] at h2 h3
        omega
      let line := line + idle.count newline
      let more := commands (line + source.count newline) rest
      if ws.isEmpty then more else more.map (⟨ws, trim source, line⟩ :: ·)
termination_by s.length

/-- The line of the place in a script where `rest` starts. -/
def lineOf (script rest : Text) : Nat := 1 + (script.count newline - rest.count newline)

/-- The commands of a script. Commands without words are left out. -/
def parse (script : Text) : Except SyntaxError (List Command) :=
  (commands 1 script).mapError fun e => ⟨lineOf script e.place, e.problem⟩

end Script

end InterpTree
