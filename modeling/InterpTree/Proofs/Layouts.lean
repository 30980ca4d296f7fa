import InterpTree.Proofs.ListReading
import InterpTree.Proofs.Sequencing

/-!
Scripts as they may be laid out: which words read back as they are written, the gaps between them,
and what may stand between commands. The parser finds in a layout the commands that were laid out,
each on the line where its first byte stands.
-/

namespace InterpTree

namespace Script

open Text

/-! ### Layouts -/

/-- Whether a bare word can hold a byte with no backslash and no brackets around it. -/
def isBareByte (c : UInt8) : Bool :=
  !(isBlank c || isTerminator c) && c != backslash && c != openBracket

/-- Whether a quoted word can hold a byte with no backslash and no brackets around it. -/
def isQuotedByte (c : UInt8) : Bool := c != quoteMark && c != backslash && c != openBracket

/-- Whether a word is read as it is written. -/
def Word.isVerbatim (w : Word) : Bool :=
  match w.form with
  | .bare =>
    !w.text.isEmpty && w.text.all isBareByte && w.text.head? != some openBrace &&
      w.text.head? != some quoteMark
  | .quoted => w.text.all isQuotedByte
  | .braced => isBraceable w.text

/-- Whether a word at the start of a command makes a comment of it. -/
def Word.startsComment (w : Word) : Bool := w.form = .bare && w.text.head? == some hash

/-- The blanks between two words. -/
structure Gap where
  bytes : Text
  nonempty : bytes ≠ []
  blanks : ∀ c ∈ bytes, isBlank c = true

/-- A command as it is laid out: its words, the gaps between them, and the blanks after the last. -/
structure Sentence where
  first : Word
  others : List (Gap × Word)
  trail : Text
  verbatim : first.isVerbatim = true ∧ ∀ p ∈ others, p.2.isVerbatim = true
  uncommented : first.startsComment = false
  blanks : ∀ c ∈ trail, isBlank c = true

/-- What may stand where a command may start: blanks, terminators and comments. -/
inductive Idle
  | nil
  | byte (c : UInt8) (idles : (isBlank c || isTerminator c) = true) (more : Idle)
  | comment (remark : Text) (onLine : newline ∉ remark) (more : Idle)

/-- Commands with a terminator after each but perhaps the last. -/
inductive Layout
  | nil
  | last (c : Sentence)
  | cons (c : Sentence) (mark : UInt8) (ends : isTerminator mark = true) (idle : Idle)
    (more : Layout)

/-- A script as it is laid out. -/
structure Draft where
  idle : Idle
  layout : Layout

def Sentence.words (c : Sentence) : List Word := c.first :: c.others.map Prod.snd

/-- Words, each after its gap, and the text after them. -/
def spaced (trail : Text) : List (Gap × Word) → Text
  | [] => trail
  | (gap, w) :: others => gap.bytes ++ (w.written ++ spaced trail others)

def Sentence.text (c : Sentence) : Text := c.first.written ++ spaced c.trail c.others

def Idle.text : Idle → Text
  | nil => []
  | byte c _ more => c :: more.text
  | comment remark _ more => hash :: remark ++ newline :: more.text

def Layout.text : Layout → Text
  | nil => []
  | last c => c.text
  | cons c mark _ idle more => c.text ++ mark :: idle.text ++ more.text

def Draft.text (d : Draft) : Text := d.idle.text ++ d.layout.text

/-- The command that a sentence is after the text in front of it. -/
def Sentence.command (before : Text) (c : Sentence) : Command :=
  ⟨c.words, trim c.text, 1 + before.count newline⟩

def Layout.commands (before : Text) : Layout → List Command
  | nil => []
  | last c => [c.command before]
  | cons c mark _ idle more =>
    c.command before :: more.commands (before ++ c.text ++ mark :: idle.text)

def Draft.commands (d : Draft) : List Command := d.layout.commands d.idle.text

/-! ### Words -/

section

variable {s rest : Text} {w : Word}

theorem takeBare_of_all (bytes : s.all isBareByte = true) (ends : atWordEnd rest = true) :
    takeBare (s ++ rest) = .ok (s, rest) := by
  induction s with
  | nil =>
    cases rest with
    | nil => rw [List.nil_append, takeBare.eq_def]
    | cons c rest => exact takeBare_end ends
  | cons c s ih =>
    simp only [List.all_cons, Bool.and_eq_true] at bytes
    obtain ⟨here, later⟩ := bytes
    simp only [isBareByte, Bool.and_eq_true, bne_iff_ne, Bool.not_eq_true'] at here
    obtain ⟨⟨goes, slash⟩, bracket⟩ := here
    rw [List.cons_append, takeBare_other (by simp [goes]) slash bracket, ih later]
    rfl

theorem takeQuoted_of_all {start : Text} (bytes : s.all isQuotedByte = true) :
    takeQuoted start (s ++ quoteMark :: rest) = .ok (s, rest) := by
  induction s with
  | nil => exact takeQuoted_quoteMark
  | cons c s ih =>
    simp only [List.all_cons, Bool.and_eq_true] at bytes
    obtain ⟨here, later⟩ := bytes
    simp only [isQuotedByte, Bool.and_eq_true, bne_iff_ne] at here
    obtain ⟨⟨quote, slash⟩, bracket⟩ := here
    rw [List.cons_append, takeQuoted_other slash bracket quote, ih later]
    rfl

/-- A verbatim word is read as it is where a word may end after it. It starts with a byte that ends
no gap, and with a hash only if it would start a comment. -/
theorem word_of_isVerbatim (verbatim : w.isVerbatim = true) (ends : atWordEnd rest = true) :
    ∃ c t, w.written ++ rest = c :: t ∧ (isBlank c || isTerminator c) = false ∧ c ≠ backslash ∧
      (c = hash → w.startsComment = true) ∧ word c t = .ok (w, rest) := by
  obtain ⟨text, form⟩ := w
  cases form with
  | bare =>
    simp only [Word.isVerbatim, Bool.and_eq_true, bne_iff_ne] at verbatim
    obtain ⟨⟨⟨nonempty, bytes⟩, brace⟩, quote⟩ := verbatim
    cases text with
    | nil => cases nonempty
    | cons c text =>
      have here : isBareByte c = true := by
        simp only [List.all_cons, Bool.and_eq_true] at bytes
        exact bytes.1
      simp only [isBareByte, Bool.and_eq_true, bne_iff_ne, Bool.not_eq_true'] at here
      have taken := takeBare_of_all bytes ends
      refine ⟨c, text ++ rest, rfl, here.1.1, here.1.2, ?_, ?_⟩
      · rintro rfl
        rfl
      · rw [List.cons_append] at taken
        rw [word_bare (by simpa using brace) (by simpa using quote), taken]
        rfl
  | quoted =>
    refine ⟨quoteMark, text ++ quoteMark :: rest, by simp [Word.written], by decide, by decide,
      fun same => absurd same (by decide), ?_⟩
    rw [word_quoteMark, takeQuoted_of_all verbatim]
    exact if_pos ends
  | braced =>
    simp only [Word.isVerbatim, isBraceable, Bool.and_eq_true, bne_iff_ne] at verbatim
    refine ⟨openBrace, text ++ closeBrace :: rest, by simp [Word.written], by decide, by decide,
      fun same => absurd same (by decide), ?_⟩
    rw [word_openBrace, takeBraces_of_balanced verbatim.1 verbatim.2]
    exact if_pos ends

end

/-! ### Commands -/

section

variable {s rest : Text} {w : Word} {others : List (Gap × Word)}

/-- Whether a command may end here. -/
def atCommandEnd : Text → Bool
  | [] => true
  | c :: _ => isTerminator c

theorem atWordEnd_of_atCommandEnd (ends : atCommandEnd rest = true) : atWordEnd rest = true := by
  cases rest with
  | nil => rfl
  | cons c rest => simp [atWordEnd, show isTerminator c = true from ends]

theorem atWordEnd_append_of_blanks {gap : Text} (blanks : ∀ c ∈ gap, isBlank c = true)
    (ends : atWordEnd rest = true) : atWordEnd (gap ++ rest) = true := by
  cases gap with
  | nil => exact ends
  | cons c gap => simp [atWordEnd, blanks c List.mem_cons_self]

theorem takeWords_of_blanks {trail : Text} (blanks : ∀ c ∈ trail, isBlank c = true)
    (ends : atCommandEnd rest = true) : takeWords (trail ++ rest) = .ok ([], trail, rest) := by
  have gap := takeGap_append blanks rest
  cases rest with
  | nil => exact takeWords_of_gap (by simpa [takeGap, put] using gap)
  | cons c rest =>
    have terminator : isTerminator c = true := ends
    have stops : takeGap (c :: rest) = ([], c :: rest) := by
      have line : c = newline ∨ c = semicolon := by simpa [isTerminator] using terminator
      rw [takeGap.eq_def]
      rcases line with rfl | rfl
      · rfl
      · rfl
    exact takeWords_of_terminator (by simpa [stops, put] using gap) terminator

theorem takeGap_of_goes {c : UInt8} (goes : (isBlank c || isTerminator c) = false)
    (slash : c ≠ backslash) (t : Text) : takeGap (c :: t) = ([], c :: t) := by
  rw [takeGap.eq_def]
  simp only [(Bool.or_eq_false_iff.mp goes).1, Bool.false_eq_true, if_false, if_neg slash]

theorem spaced_append (trail rest : Text) (others : List (Gap × Word)) :
    spaced trail others ++ rest = spaced (trail ++ rest) others := by
  induction others with
  | nil => rfl
  | cons p others ih => simp only [spaced, List.append_assoc, ih]

theorem atWordEnd_spaced {trail : Text} (ends : atWordEnd trail = true) :
    atWordEnd (spaced trail others) = true := by
  cases others with
  | nil => exact ends
  | cons p others =>
    obtain ⟨⟨bytes, nonempty, blanks⟩, w⟩ := p
    cases bytes with
    | nil => exact absurd rfl nonempty
    | cons b bytes => simp [spaced, atWordEnd, blanks b List.mem_cons_self]

/-- What is left of a sentence after its first word. -/
theorem takeWords_of_spaced {trail : Text} (verbatim : ∀ p ∈ others, p.2.isVerbatim = true)
    (blanks : ∀ c ∈ trail, isBlank c = true) (ends : atCommandEnd rest = true) :
    takeWords (spaced (trail ++ rest) others) =
      .ok (others.map Prod.snd, spaced trail others, rest) := by
  induction others with
  | nil => exact takeWords_of_blanks blanks ends
  | cons p others ih =>
    obtain ⟨gap, w⟩ := p
    obtain ⟨first, later⟩ := List.forall_mem_cons.mp verbatim
    have ended : atWordEnd (spaced (trail ++ rest) others) = true :=
      atWordEnd_spaced (atWordEnd_append_of_blanks blanks (atWordEnd_of_atCommandEnd ends))
    obtain ⟨c, t, starts, goes, slash, -, taken⟩ := word_of_isVerbatim first ended
    have found := takeGap_append gap.blanks (c :: t)
    rw [takeGap_of_goes goes slash, put, List.append_nil] at found
    simp only [spaced]
    rw [starts, takeWords_of_word found (by simp [(Bool.or_eq_false_iff.mp goes).2]) taken, ih later]
    simp only [Except.map, List.append_assoc, List.map_cons]

/-- The parser reads a sentence to its end, and does not take it for a comment. -/
theorem takeWords_of_sentence (c : Sentence) (ends : atCommandEnd rest = true) :
    ∃ b t, c.text ++ rest = b :: t ∧ takeIdle false (b :: t) = ([], b :: t) ∧
      takeWords (b :: t) = .ok (c.words, c.text, rest) := by
  have ended : atWordEnd (spaced (c.trail ++ rest) c.others) = true :=
    atWordEnd_spaced (atWordEnd_append_of_blanks c.blanks (atWordEnd_of_atCommandEnd ends))
  obtain ⟨b, t, starts, goes, slash, comment, taken⟩ := word_of_isVerbatim c.verbatim.1 ended
  have uncommented : b ≠ hash := by
    intro same
    have commented := comment same
    rw [c.uncommented] at commented
    cases commented
  refine ⟨b, t, ?_, ?_, ?_⟩
  · rw [Sentence.text, List.append_assoc, spaced_append, starts]
  · simp only [takeIdle, goes, Bool.false_eq_true, if_false, if_neg uncommented]
  · rw [takeWords_of_word (takeGap_of_goes goes slash t)
      (by simp [(Bool.or_eq_false_iff.mp goes).2]) taken,
      takeWords_of_spaced c.verbatim.2 c.blanks ends]
    rfl

theorem commands_of_sentence (line : Nat) (c : Sentence) (rest : Text)
    (ends : atCommandEnd rest = true) :
    commands line (c.text ++ rest) =
      (commands (line + c.text.count newline) rest).map (⟨c.words, trim c.text, line⟩ :: ·) := by
  obtain ⟨b, t, starts, idle, words⟩ := takeWords_of_sentence c ends
  rw [starts, commands_of_takeWords idle words]
  exact if_neg (by simp [Sentence.words])

end

/-! ### Scripts -/

theorem takeIdle_of_remark {remark : Text} (onLine : newline ∉ remark) (s : Text) :
    takeIdle true (remark ++ newline :: s) = put (remark ++ [newline]) (takeIdle false s) := by
  induction remark with
  | nil => rfl
  | cons c remark ih =>
    simp only [List.mem_cons, not_or] at onLine
    have goes : (c != newline) = true := by simpa using Ne.symm onLine.1
    simp only [List.cons_append, takeIdle, if_true, goes, ih onLine.2]
    rfl

theorem takeIdle_of_idle (idle : Idle) (s : Text) :
    takeIdle false (idle.text ++ s) = put idle.text (takeIdle false s) := by
  induction idle with
  | nil => rfl
  | byte c idles more ih =>
    simp only [Idle.text, List.cons_append, takeIdle, idles, Bool.false_eq_true, if_false, if_true,
      ih]
    rfl
  | comment remark onLine more ih =>
    have goes : (isBlank hash || isTerminator hash) = false := by decide
    simp only [Idle.text, List.cons_append, List.append_assoc, takeIdle, goes, Bool.false_eq_true,
      if_false, if_true, takeIdle_of_remark onLine, ih]
    simp [put]

/-- Commands after a text, the first of which starts right after it. -/
theorem commands_of_layout (before : Text) (l : Layout) :
    commands (1 + before.count newline) l.text = .ok (l.commands before) := by
  induction l generalizing before with
  | nil => exact commands_of_takeIdle rfl
  | last c =>
    have only := commands_of_sentence (1 + before.count newline) c [] rfl
    have none (line : Nat) : commands line [] = .ok [] := commands_of_takeIdle rfl
    rw [List.append_nil, none] at only
    exact only
  | cons c mark ends idle more ih =>
    have first := commands_of_sentence (1 + before.count newline) c
      (mark :: idle.text ++ more.text) ends
    -- The terminator is the first byte that stands before the next command.
    have moved (line : Nat) : commands line (mark :: idle.text ++ more.text) =
        commands (line + (mark :: idle.text).count newline) more.text :=
      commands_of_put (takeIdle_of_idle (.byte mark (by simp [ends]) idle) more.text)
    have lines : 1 + before.count newline + c.text.count newline + (mark :: idle.text).count newline =
        1 + (before ++ c.text ++ mark :: idle.text).count newline := by
      simp only [List.count_append]
      omega
    rw [Layout.text, List.append_assoc, first, moved, lines, ih]
    rfl

/-- The parser recovers every layout: just its commands, with their words, and each on the line where
it starts. -/
theorem parse_text (d : Draft) : parse d.text = .ok d.commands := by
  have moved : commands 1 (d.idle.text ++ d.layout.text) =
      commands (1 + d.idle.text.count newline) d.layout.text :=
    commands_of_put (takeIdle_of_idle d.idle d.layout.text)
  refine parse_eq_ok_iff.mpr ?_
  rw [Draft.text, moved]
  exact commands_of_layout d.idle.text d.layout

/-- A draft with a comment, a word over two lines that hides a brace, and a quote. -/
example :
    Draft.text ⟨.comment ";\x7b" (by decide) (.byte tab rfl .nil),
      .cons ⟨⟨"set", .bare⟩, [(⟨" ", by decide, List.all_eq_true.mp rfl⟩, ⟨"a\n\\\x7db", .braced⟩)], "\r",
          by decide, rfl, List.all_eq_true.mp rfl⟩
        semicolon rfl (.byte semicolon rfl (.byte space rfl (.comment [] (by decide) .nil)))
        (.cons ⟨⟨"\x7b", .quoted⟩, [], [], by decide, rfl, List.all_eq_true.mp rfl⟩ newline rfl .nil .nil)⟩ =
      "#;\x7b\n\tset \x7ba\n\\\x7db\x7d\r;; #\n\"\x7b\"\n" := by
  decide

end Script

end InterpTree
