import InterpTree.Script.Parse

/-!
Lists as texts. Elements are separated by blanks or newlines; an element that holds blanks or
marks of the script language is written in braces, or with backslashes where braces would not do.
-/

namespace InterpTree

namespace Script

open Text

/-- The bytes that a plain element must not hold. -/
def isSpecial (c : UInt8) : Bool :=
  c = space || c = tab || c = newline || c = carriageReturn || c = semicolon || c = quoteMark ||
    c = openBrace || c = closeBrace || c = openBracket || c = closeBracket || c = dollar ||
    c = backslash

/-- Whether braces pair up in `s` after `depth` open ones; a backslash takes the next byte with
it. -/
def balanced (depth : Nat) : Text → Bool
  | [] => depth = 0
  | c :: s =>
    if c = backslash then
      match s with
      | [] => depth = 0
      | _ :: s => balanced depth s
    else if c = openBrace then balanced (depth + 1) s
    else if c = closeBrace then
      match depth with
      | 0 => false
      | depth + 1 => balanced depth s
    else balanced depth s

/-- A byte of an element written with backslashes. -/
def escapeByte (c : UInt8) : Text :=
  if c = newline then "\\n"
  else if isSpecial c && c != carriageReturn then [backslash, c]
  else [c]

/-- An element as a list shows it. -/
def formatElement (s : Text) : Text :=
  if s.isEmpty then [openBrace, closeBrace]
  else if !s.any isSpecial && s.head? != some hash then s
  else if balanced 0 s && s.getLast? != some backslash then openBrace :: s ++ [closeBrace]
  else s.flatMap escapeByte

/-- A list as a text. -/
def formatList (items : List Text) : Text := words (items.map formatElement)

/-- What a backslash followed by `c` stands for: the common control characters, a blank for a
newline, and for any other byte the character of that number. -/
def unescape (c : UInt8) : Text :=
  if c = 110 then [newline]
  else if c = 116 then [tab]
  else if c = 114 then [carriageReturn]
  else if c = newline then [space]
  else ofCodePoint c.toNat

/-- A text with its backslashes resolved. -/
def unescapeAll : Text → Text
  | [] => []
  | c :: s =>
    if c = backslash then
      match s with
      | [] => [c]
      | d :: s => unescape d ++ unescapeAll s
    else c :: unescapeAll s

/-- Whether a byte separates elements. -/
def isSeparator (c : UInt8) : Bool := isBlank c || c = newline

/-- A bare element, which runs to the next separator that no backslash hides, and what follows. -/
def takeElement : Text → Text × Text
  | [] => ([], [])
  | c :: s =>
    if isSeparator c then ([], c :: s)
    else if c = backslash then
      match s with
      | [] => ([c], [])
      | d :: s => put [c, d] (takeElement s)
    else put [c] (takeElement s)

theorem append_takeElement (s : Text) : (takeElement s).1 ++ (takeElement s).2 = s := by
  fun_induction takeElement s <;> simp_all [put]

/-- A bare element that does not start with a separator holds at least one byte. -/
theorem takeElement_ne_nil {c : UInt8} {s : Text} (hc : isSeparator c = false) :
    (takeElement (c :: s)).1 ≠ [] := by
  rw [takeElement.eq_def]
  simp only [hc, Bool.false_eq_true, if_false]
  split
  · split <;> simp [put]
  · simp [put]

/-- The element that starts with the byte `c`, followed by `s`. -/
def element (c : UInt8) (s : Text) : Except Fix (Text × Text) :=
  if c = openBrace then (bracedWord (c :: s)).map fun (w, rest) => (w.text, rest)
  else if c = quoteMark then (quotedWord (c :: s)).map fun (w, rest) => (unescapeAll w.text, rest)
  else
    let (written, rest) := takeElement (c :: s)
    .ok (unescapeAll written, rest)

theorem length_of_element {c : UInt8} {s rest item : Text} (hc : isSeparator c = false)
    (h : element c s = .ok (item, rest)) : rest.length < (c :: s).length := by
  have written (w : Word) (hw : w.form ≠ .bare) : 0 < w.written.length := by
    unfold Word.written
    split <;> simp_all
  unfold element at h
  split at h
  · next hb =>
    subst hb
    cases hw : bracedWord (openBrace :: s) with
    | error e => rw [hw] at h; cases h
    | ok found =>
      rw [hw] at h
      cases h
      have := written found.1 (by
        unfold bracedWord at hw
        split at hw
        · cases hw
        · split at hw <;> cases hw; simp)
      rw [eq_of_bracedWord hw, List.length_append]
      omega
  · split at h
    · next hb =>
      subst hb
      cases hw : quotedWord (quoteMark :: s) with
      | error e => rw [hw] at h; cases h
      | ok found =>
        rw [hw] at h
        cases h
        have := written found.1 (by
          unfold quotedWord at hw
          split at hw
          · cases hw
          · split at hw <;> cases hw; simp)
        rw [eq_of_quotedWord hw, List.length_append]
        omega
    · cases h
      have h1 := congrArg List.length (append_takeElement (c :: s))
      have h2 := List.length_pos_iff.2 (takeElement_ne_nil (s := s) hc)
      simp only [List.length_append] at h1
      omega

theorem length_of_next {c : UInt8} {s t rest item : Text} (h : s.dropWhile isSeparator = c :: t)
    (he : element c t = .ok (item, rest)) : rest.length < s.length := by
  have hc : isSeparator c = false := by
    have := List.head?_dropWhile_not isSeparator s
    rw [h] at this
    simpa using this
  have h1 := length_of_element hc he
  have h2 : (s.dropWhile isSeparator).length ≤ s.length :=
    (List.dropWhile_sublist isSeparator).length_le
  rw [h] at h2
  omega

/-- The elements of a text. -/
def elements (s : Text) : Except Fix (List Text) :=
  match h : s.dropWhile isSeparator with
  | [] => .ok []
  | c :: t =>
    match he : element c t with
    | .error e => .error e
    | .ok (item, rest) =>
      have : rest.length < s.length := length_of_next h he
      (elements rest).map (item :: ·)
termination_by s.length

/-- The elements of a list written as a text. -/
def splitList (s : Text) : Except SyntaxError (List Text) :=
  (elements s).mapError fun e => ⟨lineOf s e.place, e.problem⟩

end Script

end InterpTree
