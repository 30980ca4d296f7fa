import Mathlib.Data.List.TakeWhile
import InterpTree.Frames

/-!
Markers of call frames. Main statement: however a stack is used, the markers of its frames grow inward,
and no marker is given twice. Popping through the marker of a push restores the frames from before it,
whatever was pushed and popped above them in the meantime: a marker that was issued later is higher than
any below, so that it never reaches down to them.
-/

namespace InterpTree

/-- A use of a stack of frames. -/
inductive FrameUse
  | push (name : Text) (flags : Nat)
  | popThrough (marker : Nat)
deriving DecidableEq

namespace CallStack

variable {s t : CallStack} {f : Frame} {above below : List Frame} {marker : Nat} {use : FrameUse}

/-- The stack after a use of it. -/
def used (s : CallStack) : FrameUse → CallStack
  | .push name flags => (s.push name flags).2
  | .popThrough marker => (s.popThrough marker).2

/-- The stack after some uses, one after the other. -/
def after (s : CallStack) (uses : List FrameUse) : CallStack := uses.foldl used s

/-- The markers that the pushes among some uses give, one after the other. -/
def given (s : CallStack) : List FrameUse → List Nat
  | [] => []
  | .push name flags :: uses => (s.push name flags).1 :: (s.push name flags).2.given uses
  | .popThrough marker :: uses => (s.popThrough marker).2.given uses

/-- No frame on the stack has the marker. -/
def IsUnknown (s : CallStack) (marker : Nat) : Prop := ∀ f ∈ s.frames, f.marker ≠ marker

instance (s : CallStack) (marker : Nat) : Decidable (s.IsUnknown marker) :=
  inferInstanceAs (Decidable (∀ f ∈ s.frames, f.marker ≠ marker))

/-- The use is a push, or pops through a marker that is unknown or was issued after `marker`. -/
def Spares (marker : Nat) (s : CallStack) : FrameUse → Prop
  | .push .. => True
  | .popThrough other => marker < other ∨ s.IsUnknown other

/-- Each of some uses spares the marker on the stack that it finds. -/
def SparesAll (marker : Nat) (s : CallStack) : List FrameUse → Prop
  | [] => True
  | use :: uses => s.Spares marker use ∧ (s.used use).SparesAll marker uses

/-! ### Popping -/

/-- A marker of some frame drops that frame and those above it. -/
theorem popThrough_of_split (split : s.frames = above ++ f :: below)
    (unlike : ∀ g ∈ above, g.marker ≠ f.marker) :
    s.popThrough f.marker = (above.length + 1, { s with frames := below }) := by
  have down : s.downTo f.marker = f :: below := by
    unfold downTo
    rw [split, List.dropWhile_append_of_pos (by simpa using unlike)]
    exact List.dropWhile_cons_of_neg (by simp)
  have count : s.frames.length - below.length = above.length + 1 := by
    rw [split, List.length_append, List.length_cons]
    omega
  simp only [popThrough, down, count]

/-- An unknown marker drops nothing. -/
theorem popThrough_of_unknown (unknown : s.IsUnknown marker) : s.popThrough marker = (0, s) := by
  have down : s.downTo marker = [] :=
    List.dropWhile_eq_nil_iff.mpr fun f mem => bne_iff_ne.mpr (unknown f mem)
  simp only [popThrough, down]

theorem popThrough_cases (s : CallStack) (marker : Nat) :
    s.IsUnknown marker ∧ s.popThrough marker = (0, s) ∨
      ∃ above f below, s.frames = above ++ f :: below ∧ f.marker = marker ∧
        s.popThrough marker = (above.length + 1, { s with frames := below }) := by
  cases found : s.frames.find? fun f => f.marker == marker with
  | none =>
    have unknown : s.IsUnknown marker := fun f mem => by
      simpa using List.find?_eq_none.mp found f mem
    exact .inl ⟨unknown, popThrough_of_unknown unknown⟩
  | some f =>
    obtain ⟨same, above, below, split, unlike⟩ := List.find?_eq_some_iff_append.mp found
    obtain rfl : f.marker = marker := by simpa using same
    exact .inr ⟨above, f, below, split, rfl, popThrough_of_split split (by simpa using unlike)⟩

/-- Popping takes frames away from the top, and issues no marker. -/
theorem popThrough_suffix (s : CallStack) (marker : Nat) :
    (s.popThrough marker).2.frames <:+ s.frames ∧ (s.popThrough marker).2.issued = s.issued := by
  rcases popThrough_cases s marker with ⟨-, pops⟩ | ⟨above, f, below, split, -, pops⟩
  · rw [pops]
    exact ⟨List.suffix_refl _, rfl⟩
  · rw [pops, split]
    exact ⟨⟨above ++ [f], by simp⟩, rfl⟩

/-! ### Markers in order -/

/-- Markers grow inward, up to the last one that was issued. -/
structure IsOrdered (s : CallStack) : Prop where
  grows : s.frames.Pairwise fun f g => g.marker < f.marker
  issued : ∀ f ∈ s.frames, f.marker ≤ s.issued

theorem IsOrdered.used (ordered : s.IsOrdered) (use : FrameUse) : (s.used use).IsOrdered := by
  cases use with
  | push name flags =>
    refine ⟨List.pairwise_cons.mpr ⟨fun f mem => ?_, ordered.grows⟩, fun f mem => ?_⟩
    · exact Nat.lt_succ_of_le (ordered.issued f mem)
    · rcases List.mem_cons.mp mem with rfl | mem
      · exact Nat.le_refl _
      · exact Nat.le_succ_of_le (ordered.issued f mem)
  | popThrough marker =>
    obtain ⟨suffix, issued⟩ := popThrough_suffix s marker
    refine ⟨ordered.grows.sublist suffix.sublist, fun f mem => ?_⟩
    exact Nat.le_trans (ordered.issued f (suffix.subset mem)) (Nat.le_of_eq issued.symm)

theorem IsOrdered.after (ordered : s.IsOrdered) (uses : List FrameUse) :
    (s.after uses).IsOrdered := by
  induction uses generalizing s with
  | nil => exact ordered
  | cons use uses ih => exact ih (ordered.used use)

theorem isOrdered_empty : ({} : CallStack).IsOrdered := ⟨.nil, nofun⟩

/-- The markers that are given grow from the last one that was issued, at most by one with each use. -/
theorem pairwise_given (s : CallStack) (uses : List FrameUse) :
    (s.given uses).Pairwise (· < ·) ∧
      ∀ marker ∈ s.given uses, s.issued < marker ∧ marker ≤ s.issued + uses.length := by
  induction uses generalizing s with
  | nil => exact ⟨.nil, nofun⟩
  | cons use uses ih =>
    cases use with
    | push name flags =>
      obtain ⟨grows, bounds⟩ := ih (s.push name flags).2
      have issued : (s.push name flags).2.issued = s.issued + 1 := rfl
      rw [issued] at bounds
      refine ⟨List.pairwise_cons.mpr ⟨fun marker mem => (bounds marker mem).1, grows⟩, ?_⟩
      intro marker mem
      rw [List.length_cons]
      rcases List.mem_cons.mp mem with rfl | mem
      · have first : (s.push name flags).1 = s.issued + 1 := rfl
        omega
      · have := bounds marker mem
        omega
    | popThrough marker =>
      obtain ⟨grows, bounds⟩ := ih (s.popThrough marker).2
      rw [(popThrough_suffix s marker).2] at bounds
      refine ⟨grows, fun other mem => ?_⟩
      have := bounds other mem
      rw [List.length_cons]
      omega

/-- A marker that was issued and is unknown stays so. -/
theorem isUnknown_used (unknown : s.IsUnknown marker) (old : marker ≤ s.issued) (use : FrameUse) :
    (s.used use).IsUnknown marker ∧ marker ≤ (s.used use).issued := by
  cases use with
  | push name flags =>
    refine ⟨fun f mem => ?_, Nat.le_succ_of_le old⟩
    rcases List.mem_cons.mp mem with rfl | mem
    · exact Nat.ne_of_gt (Nat.lt_succ_of_le old)
    · exact unknown f mem
  | popThrough other =>
    obtain ⟨suffix, issued⟩ := popThrough_suffix s other
    exact ⟨fun f mem => unknown f (suffix.subset mem), Nat.le_trans old (Nat.le_of_eq issued.symm)⟩

theorem isUnknown_after (unknown : s.IsUnknown marker) (old : marker ≤ s.issued)
    (uses : List FrameUse) : (s.after uses).IsUnknown marker := by
  induction uses generalizing s with
  | nil => exact unknown
  | cons use uses ih =>
    obtain ⟨unknown, old⟩ := isUnknown_used unknown old use
    exact ih unknown old

/-! ### Frames that stay -/

/-- A frame with a higher marker lies above one with a lower marker. -/
theorem IsOrdered.between {above' below' : List Frame} {g : Frame} (ordered : s.IsOrdered)
    (split : s.frames = above ++ f :: below) (split' : s.frames = above' ++ g :: below')
    (later : f.marker < g.marker) : ∃ between, below' = between ++ f :: below := by
  have order := ordered.grows
  rw [split] at order
  have lower := (List.pairwise_cons.mp (List.pairwise_append.mp order).2.1).1
  rcases List.append_eq_append_iff.mp (split'.symm.trans split) with
    ⟨between, -, rest⟩ | ⟨between, -, rest⟩
  · rcases List.cons_eq_append_iff.mp rest with ⟨-, same⟩ | ⟨between, -, rest⟩
    · obtain rfl := (List.cons.inj same).1
      exact absurd later (Nat.lt_irrefl _)
    · exact ⟨between, rest⟩
  · rcases List.cons_eq_append_iff.mp rest with ⟨-, same⟩ | ⟨between, -, rest⟩
    · obtain rfl := (List.cons.inj same).1
      exact absurd later (Nat.lt_irrefl _)
    · have deeper := lower g (rest ▸ List.mem_append_right _ List.mem_cons_self)
      exact absurd later (Nat.lt_asymm deeper)

/-- A use that spares the marker of a frame leaves it where it is, with all that is below. -/
theorem IsOrdered.split_used (ordered : s.IsOrdered) (split : s.frames = above ++ f :: below)
    (spares : s.Spares f.marker use) : ∃ above, (s.used use).frames = above ++ f :: below := by
  cases use with
  | push name flags => exact ⟨⟨name, flags, s.issued + 1⟩ :: above, congrArg _ split⟩
  | popThrough other =>
    change ∃ above, (s.popThrough other).2.frames = _
    rcases popThrough_cases s other with ⟨-, pops⟩ | ⟨above', g, below', split', rfl, pops⟩
    · rw [pops]
      exact ⟨above, split⟩
    · have known : g ∈ s.frames := split' ▸ List.mem_append_right _ List.mem_cons_self
      have later : f.marker < g.marker := spares.resolve_right fun unknown => unknown g known rfl
      rw [pops]
      exact ordered.between split split' later

theorem IsOrdered.split_after (ordered : s.IsOrdered) (split : s.frames = above ++ f :: below)
    {uses : List FrameUse} (spares : s.SparesAll f.marker uses) :
    ∃ above, (s.after uses).frames = above ++ f :: below := by
  induction uses generalizing s above with
  | nil => exact ⟨above, split⟩
  | cons use uses ih =>
    obtain ⟨spared, spares⟩ := spares
    obtain ⟨above', split'⟩ := ordered.split_used split spared
    exact ih (ordered.used use) split' spares

/-- A frame is popped with all that is above it, and its marker is unknown from then on. -/
theorem IsOrdered.popThrough_split (ordered : s.IsOrdered) (split : s.frames = above ++ f :: below) :
    s.popThrough f.marker = (s.depth - below.length, { s with frames := below }) ∧
      below.length < s.depth ∧
      ({ s with frames := below } : CallStack).IsUnknown f.marker := by
  have order := ordered.grows
  rw [split] at order
  obtain ⟨-, inner, higher⟩ := List.pairwise_append.mp order
  have depth : s.depth = above.length + 1 + below.length := by
    unfold depth
    rw [split, List.length_append, List.length_cons]
    omega
  refine ⟨?_, by omega, fun g mem => Nat.ne_of_lt ((List.pairwise_cons.mp inner).1 g mem)⟩
  have unlike (g : Frame) (mem : g ∈ above) : g.marker ≠ f.marker :=
    Nat.ne_of_gt (higher g mem f List.mem_cons_self)
  rw [popThrough_of_split split unlike, depth, Nat.add_sub_cancel]

/-- However a fresh stack was used, the markers of its frames grow from the outermost to the innermost.
Those that pushes gave grow as well, so that none was given twice; there are no more of them than uses,
so that none outgrows a word of 64 bits before as many uses. When a frame was then pushed, and the stack
used on in a way that spares its marker, popping through that marker restores the frames from before the
push and tells how many it dropped; and ever after it drops nothing. -/
theorem popThrough_restores (uses : List FrameUse) :
    let s := ({} : CallStack).after uses
    (s.toList.map Frame.marker).Pairwise (· < ·) ∧
      (({} : CallStack).given uses).Pairwise (· < ·) ∧
      (∀ marker ∈ ({} : CallStack).given uses, marker ≤ uses.length) ∧
      ∀ name flags marker pushed, s.push name flags = (marker, pushed) →
        ∀ later, pushed.SparesAll marker later →
          let t := pushed.after later
          let restored := { t with frames := s.frames }
          t.popThrough marker = (t.depth - s.depth, restored) ∧ s.depth < t.depth ∧
            restored.popThrough marker = (0, restored) ∧
            ∀ uses, (restored.after uses).popThrough marker = (0, restored.after uses) := by
  intro s
  have ordered : s.IsOrdered := isOrdered_empty.after uses
  obtain ⟨grows, bounds⟩ := pairwise_given {} uses
  refine ⟨?_, grows, fun marker mem => by simpa using (bounds marker mem).2, ?_⟩
  · rw [toList, List.map_reverse, List.pairwise_reverse, List.pairwise_map]
    exact ordered.grows
  · rintro name flags marker pushed pushes later spares t restored
    obtain ⟨rfl, rfl⟩ := Prod.mk.inj pushes
    have start : (s.push name flags).2.IsOrdered := ordered.used (.push name flags)
    have top : (s.push name flags).2.frames =
        [] ++ ⟨name, flags, (s.push name flags).1⟩ :: s.frames := rfl
    obtain ⟨above, split⟩ := start.split_after top spares
    obtain ⟨pops, deeper, unknown⟩ := (start.after later).popThrough_split split
    have old : (s.push name flags).1 ≤ restored.issued :=
      (start.after later).issued _ (split ▸ List.mem_append_right _ List.mem_cons_self)
    exact ⟨pops, deeper, popThrough_of_unknown unknown, fun uses =>
      popThrough_of_unknown (isUnknown_after unknown old uses)⟩

/-- Two frames are left open above a third, a fourth was popped twice, and a marker is unknown. -/
theorem popThrough_restores_untidy :
    let s := ({} : CallStack).after [.push "a" 0, .push "b" 0, .popThrough 2]
    let later : List FrameUse :=
      [.push "d" 0, .push "e" 0, .popThrough 5, .popThrough 5, .popThrough 2, .popThrough 9,
        .push "f" 0]
    (s.toList.map Frame.marker).Pairwise (· < ·) ∧
      (s.push "c" 0).1 = 3 ∧ (s.push "c" 0).2.SparesAll 3 later ∧
      ((s.push "c" 0).2.after later).toList.map Frame.marker = [1, 3, 4, 6] ∧
      (((s.push "c" 0).2.after later).popThrough 3).1 = 3 ∧
      (((s.push "c" 0).2.after later).popThrough 3).2.toList.map Frame.marker = [1] := by
  intro s later
  obtain ⟨grows, -, -, restores⟩ :=
    popThrough_restores [.push "a" 0, .push "b" 0, .popThrough 2]
  have spares : (s.push "c" 0).2.SparesAll 3 later :=
    ⟨trivial, trivial, .inl (by decide), .inl (by decide), .inr (by decide), .inl (by decide),
      trivial, trivial⟩
  have pops : ((s.push "c" 0).2.after later).popThrough 3 = _ :=
    (restores "c" 0 3 _ rfl later spares).1
  refine ⟨grows, rfl, spares, by decide, ?_, ?_⟩
  · rw [pops]
    decide
  · rw [pops]
    decide

end CallStack

end InterpTree
