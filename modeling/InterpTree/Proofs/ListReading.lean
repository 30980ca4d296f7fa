import Mathlib.Data.List.TakeWhile
import InterpTree.Proofs.ListSpelling

/-!
What a formatted list is split into: its elements, but for those that hold a carriage return and are
written with backslashes, which fall apart into the runs between their carriage returns.
-/

namespace InterpTree

namespace Script

open Text

/-! ### Words in braces -/

theorem getLast?_tail_ne {c mark : UInt8} {s : Text} (last : (c :: s).getLast? ≠ some mark) :
    s.getLast? ≠ some mark := by
  intro ends
  rw [List.getLast?_cons, ends] at last
  exact last rfl

/-- Braces hold a text in which they pair up and whose last byte does not hide the closing brace. -/
theorem takeBraces_of_balanced {depth : Nat} {s : Text} (pairs : balanced depth s = true)
    (last : s.getLast? ≠ some backslash) (rest : Text) :
    takeBraces depth (s ++ closeBrace :: rest) = some (s, rest) := by
  have other : closeBrace ≠ openBrace := by decide
  have slash : closeBrace ≠ backslash := by decide
  fun_induction balanced depth s with
  | case1 depth =>
    obtain rfl : depth = 0 := by simpa using pairs
    rw [List.nil_append, takeBraces.eq_def]
    simp only [if_neg slash, if_neg other]
    rfl
  | case2 => exact absurd rfl last
  | case3 depth d s ih =>
    rw [List.cons_append, List.cons_append, takeBraces.eq_def]
    simp only [↓reduceIte, ih pairs (getLast?_tail_ne (getLast?_tail_ne last))]
    rfl
  | case4 depth s ne ih =>
    rw [List.cons_append, takeBraces.eq_def]
    simp only [if_neg ne, ↓reduceIte, ih pairs (getLast?_tail_ne last)]
    rfl
  | case5 => cases pairs
  | case6 s depth ne ne' ih =>
    rw [List.cons_append, takeBraces.eq_def]
    simp only [if_neg ne, if_neg ne', ↓reduceIte, ih pairs (getLast?_tail_ne last)]
    rfl
  | case7 depth c s ne ne' ne'' ih =>
    rw [List.cons_append, takeBraces.eq_def]
    simp only [if_neg ne, if_neg ne', if_neg ne'', ih pairs (getLast?_tail_ne last)]
    rfl

theorem atWordEnd_of_atGap {s : Text} (gap : atGap s = true) : atWordEnd s = true := by
  cases s with
  | nil => rfl
  | cons c s => simp [atWordEnd, show isBlank c = true from gap]

theorem bracedWord_of_isBraceable {s : Text} (braceable : isBraceable s = true) {rest : Text}
    (ends : atGap rest = true) :
    bracedWord (openBrace :: (s ++ closeBrace :: rest)) = .ok (⟨s, .braced⟩, rest) := by
  simp only [isBraceable, Bool.and_eq_true, bne_iff_ne] at braceable
  unfold bracedWord
  simp only [List.drop_one, List.tail_cons, takeBraces_of_balanced braceable.1 braceable.2,
    atWordEnd_of_atGap ends, if_true]

/-! ### Bare elements -/

theorem isSeparator_of_isBlank {c : UInt8} (blank : isBlank c = true) : isSeparator c = true := by
  simp [isSeparator, blank]

/-- No mark separates, ends, opens or hides anything. -/
theorem neutral_of_not_isSpecial {c : UInt8} (unmarked : isSpecial c = false) :
    isBlank c = false ∧ isTerminator c = false ∧ c ≠ newline ∧ c ≠ backslash ∧ c ≠ openBrace ∧
      c ≠ quoteMark ∧ c ≠ openBracket ∧ c ≠ dollar := by
  simp only [isSpecial, Bool.or_eq_false_iff, decide_eq_false_iff_not] at unmarked
  simp [isBlank, isTerminator, unmarked]

theorem takeElement_of_escapes {s t : Text} (escapes : Escapes s t) {rest : Text}
    (ends : atGap rest = true) : takeElement (t ++ rest) = (t, rest) := by
  induction escapes with
  | nil =>
    cases rest with
    | nil => rfl
    | cons c rest =>
      rw [List.nil_append, takeElement.eq_def]
      simp only [isSeparator_of_isBlank ends, if_true]
  | @plain c s t unmarked escapes ih =>
    obtain ⟨blank, -, line, slash, -⟩ := neutral_of_not_isSpecial unmarked
    have separator : isSeparator c = false := by simp [isSeparator, blank, line]
    rw [List.cons_append, takeElement.eq_def]
    simp only [separator, Bool.false_eq_true, if_false, if_neg slash, ih]
    rfl
  | @marked c d s t means line escapes ih =>
    have separator : isSeparator backslash = false := by decide
    rw [List.cons_append, List.cons_append, takeElement.eq_def]
    simp only [separator, Bool.false_eq_true, ↓reduceIte, ih]
    rfl

theorem unescapeAll_of_escapes {s t : Text} (escapes : Escapes s t) : unescapeAll t = s := by
  induction escapes with
  | nil => rfl
  | plain unmarked escapes ih =>
    obtain ⟨-, -, -, slash, -⟩ := neutral_of_not_isSpecial unmarked
    rw [unescapeAll.eq_def]
    simp only [if_neg slash, ih]
  | marked means line escapes ih =>
    rw [unescapeAll.eq_def]
    simp only [↓reduceIte, means, ih]
    rfl

/-- Bytes that an element or a word can start with in bare form. -/
theorem head_of_escapes {s t : Text} (nonempty : s ≠ []) (escapes : Escapes s t) :
    ∃ c u, t = c :: u ∧ isBlank c = false ∧ isTerminator c = false ∧ c ≠ newline ∧
      c ≠ openBrace ∧ c ≠ quoteMark ∧ (c = hash → s.head? = some hash) := by
  cases escapes with
  | nil => exact absurd rfl nonempty
  | plain unmarked escapes =>
    obtain ⟨blank, terminator, line, -, brace, quote, -⟩ := neutral_of_not_isSpecial unmarked
    exact ⟨_, _, rfl, blank, terminator, line, brace, quote, fun same => by rw [same]; rfl⟩
  | marked means line escapes =>
    have other : backslash ≠ hash := by decide
    exact ⟨_, _, rfl, by decide, by decide, by decide, by decide, by decide,
      fun same => absurd same other⟩

/-! ### Lists -/

/-- A word is read as an element that is the field it spells. -/
theorem element_of_spells {w : Word} {field : Text} (spells : Spells w field) {rest : Text}
    (ends : atGap rest = true) :
    ∃ c t, w.written ++ rest = c :: t ∧ isSeparator c = false ∧
      element c t = .ok (field, rest) := by
  cases spells with
  | braced braceable =>
    refine ⟨openBrace, field ++ closeBrace :: rest, by simp [Word.written], by decide, ?_⟩
    rw [element, if_pos rfl, bracedWord_of_isBraceable braceable ends]
    rfl
  | @bare _ t nonempty escapes =>
    obtain ⟨c, u, rfl, blank, -, line, brace, quote, -⟩ := head_of_escapes nonempty escapes
    refine ⟨c, u ++ rest, rfl, by simp [isSeparator, blank, line], ?_⟩
    have taken := takeElement_of_escapes escapes ends
    rw [List.cons_append] at taken
    rw [element, if_neg brace, if_neg quote, taken]
    simp only [unescapeAll_of_escapes escapes]

theorem elements_of_lays {s : Text} {ws : List Word} {read : List Text} (lays : Lays s ws read) :
    elements s = .ok read := by
  induction lays with
  | @blank gap blanks =>
    have none : gap.dropWhile isSeparator = [] :=
      List.dropWhile_eq_nil_iff.mpr fun c mem => isSeparator_of_isBlank (blanks c mem)
    rw [elements.eq_def]
    split
    · rfl
    · rename_i some
      rw [none] at some
      cases some
  | @word gap rest w field ws more blanks spells ends lays ih =>
    obtain ⟨c, t, starts, separator, found⟩ := element_of_spells spells ends
    have left : (gap ++ w.written ++ rest).dropWhile isSeparator = c :: t := by
      rw [List.append_assoc, starts, List.dropWhile_append_of_pos
        fun c mem => isSeparator_of_isBlank (blanks c mem), List.dropWhile_cons_of_neg
        (by simp [separator])]
    rw [elements.eq_def]
    split
    · rename_i none
      rw [left] at none
      cases none
    · rename_i c' t' some
      rw [left] at some
      cases some
      split
      · rename_i failed
        rw [found] at failed
        cases failed
      · rename_i item rest' taken
        rw [found] at taken
        cases taken
        rw [ih]
        rfl

/-- A formatted list always splits. It splits into what its elements read back as, and these are the
elements themselves just if braces hold each element that has a carriage return: backslashes leave a
carriage return as it is, and it separates. -/
theorem splitList_formatList (items : List Text) :
    splitList (formatList items) = .ok (items.flatMap fields) ∧
      (splitList (formatList items) = .ok items ↔
        ∀ s ∈ items, carriageReturn ∈ s → isBraceable s = true) := by
  obtain ⟨ws, lays⟩ := lays_formatList items
  have split : splitList (formatList items) = .ok (items.flatMap fields) := by
    rw [splitList, elements_of_lays lays]
    rfl
  refine ⟨split, ?_⟩
  rw [split, Except.ok.injEq]
  exact flatMap_fields_eq_iff items

end Script

end InterpTree
