import InterpTree.Cancellation

/-!
How long a cancellation lasts. `Outlasts c c'` says that no unwinding cancellation is lost on the way
from `c` to `c'`, neither one that `c` holds nor one that is posted on the way. It is stated of the
steps of a controller while evaluations are entered; clearing and replacing by a weaker cancellation are
the steps that it leaves out. `Lasts` says so between two moments of one evaluation.
-/

namespace InterpTree

namespace Cancellation

variable {c c' c'' : Cancellation}

/-- Whether the controller holds an unwinding cancellation, met or not. -/
def IsUnwinding (c : Cancellation) : Prop := c.state ≠ .idle ∧ c.reason.unwind = true

instance : Decidable c.IsUnwinding := inferInstanceAs (Decidable (_ ∧ _))

/-- From `c` to `c'` no evaluation ends, and an unwinding cancellation that was there before or came
meanwhile is there. -/
structure Outlasts (c c' : Cancellation) : Prop where
  deeper : c.depth ≤ c'.depth
  unwinds : c.unwinds ≤ c'.unwinds
  unwinding : c.IsUnwinding ∨ c.unwinds < c'.unwinds → c'.IsUnwinding

/-- The same, where no evaluation begins either. -/
structure Lasts (c c' : Cancellation) : Prop extends Outlasts c c' where
  depth : c'.depth = c.depth

theorem Outlasts.trans (h : Outlasts c c') (h' : Outlasts c' c'') : Outlasts c c'' := by
  refine ⟨Nat.le_trans h.deeper h'.deeper, Nat.le_trans h.unwinds h'.unwinds, fun start => ?_⟩
  rcases start with held | grown
  · exact h'.unwinding (.inl (h.unwinding (.inl held)))
  · by_cases early : c.unwinds < c'.unwinds
    · exact h'.unwinding (.inl (h.unwinding (.inr early)))
    · have := h.unwinds
      exact h'.unwinding (.inr (by omega))

/-- A step that posts nothing and keeps what there is. -/
theorem Outlasts.of_same (deeper : c.depth ≤ c'.depth) (unwinds : c'.unwinds = c.unwinds)
    (unwinding : c.IsUnwinding → c'.IsUnwinding) : Outlasts c c' :=
  ⟨deeper, Nat.le_of_eq unwinds.symm, fun h => unwinding (h.resolve_right (by omega))⟩

theorem Lasts.of_same (depth : c'.depth = c.depth) (unwinds : c'.unwinds = c.unwinds)
    (unwinding : c.IsUnwinding → c'.IsUnwinding) : Lasts c c' :=
  ⟨.of_same (Nat.le_of_eq depth.symm) unwinds unwinding, depth⟩

theorem Outlasts.refl (c : Cancellation) : Outlasts c c := .of_same (Nat.le_refl _) rfl id

theorem Lasts.refl (c : Cancellation) : Lasts c c := .of_same rfl rfl id

theorem Lasts.trans (h : Lasts c c') (h' : Lasts c' c'') : Lasts c c'' :=
  ⟨h.toOutlasts.trans h'.toOutlasts, h'.depth.trans h.depth⟩

theorem lasts_checkpoint (c : Cancellation) : Lasts c c.checkpoint.2 := by
  unfold checkpoint
  split
  · exact .refl c
  · exact .of_same rfl rfl fun h => ⟨by simp, h.2⟩
  · exact .refl c

theorem limits_checkpoint (c : Cancellation) : c.checkpoint.2.limits = c.limits := by
  unfold checkpoint
  split <;> rfl

theorem lasts_touch (now : Int) (c : Cancellation) : Lasts c (c.touch now) :=
  .of_same rfl rfl id

theorem lasts_stopWatchdog (c : Cancellation) : Lasts c c.stopWatchdog.2 := .of_same rfl rfl id

theorem lasts_startWatchdog (now : Int) (c : Cancellation) : Lasts c (c.startWatchdog now).2 := by
  unfold startWatchdog
  split
  · exact .refl c
  · exact .of_same rfl rfl id

theorem lasts_setLimit {field : Limits.Field} {v : Int} (h : c.setLimit field v = .ok c') :
    Lasts c c' := by
  unfold setLimit at h
  cases set : c.limits.set? field v with
  | error f => simp [set, Except.map] at h
  | ok limits =>
    simp only [set, Except.map, Except.ok.injEq] at h
    subst h
    exact .of_same rfl rfl id

/-- Posting an unwinding cancellation. -/
theorem lasts_cancel {force : Bool} {message : Text}
    (h : c.cancel force true message = .ok c') : Lasts c c' := by
  unfold cancel at h
  split at h
  · cases h
  · simp only [Except.ok.injEq] at h
    subst h
    exact ⟨⟨Nat.le_refl _, by simp, fun _ => ⟨by simp, rfl⟩⟩, rfl⟩

/-- Posting without force where a cancellation is pending changes nothing, and where none is held
there is none to lose. -/
theorem lasts_cancel_of_not_unwinding {force unwind : Bool} {message : Text}
    (free : ¬ c.IsUnwinding) (h : c.cancel force unwind message = .ok c') : Lasts c c' := by
  cases unwind with
  | true => exact lasts_cancel h
  | false =>
    unfold cancel at h
    split at h
    · cases h
    · simp only [Except.ok.injEq] at h
      subst h
      exact .of_same rfl rfl fun held => absurd held free

/-- Within an evaluation nothing is cleared without force. -/
theorem reset_false_of_depth (h : 0 < c.depth) : c.reset false = (false, c) := by
  unfold reset
  split
  · rfl
  · simp [h]

/-- Clearing where there is no unwinding cancellation to lose. -/
theorem lasts_reset_of_not_unwinding (free : ¬ c.IsUnwinding) (force : Bool) :
    Lasts c (c.reset force).2 := by
  unfold reset
  split
  · exact .refl c
  · split
    · exact .refl c
    · exact .of_same rfl rfl fun held => absurd held free

theorem lasts_look (now : Int) (c : Cancellation) : Lasts c (c.look now).2.2 := by
  unfold look
  dsimp only
  split
  · exact .refl c
  · split
    · exact lasts_touch now c
    · split
      · exact .refl c
      · cases posted : c.cancel false true watchdogMessage with
        | error f => exact lasts_touch now c
        | ok c' => exact (lasts_cancel posted).trans (lasts_touch now c')

theorem lasts_tick (now : Int) (c : Cancellation) : Lasts c (c.tick now).2 :=
  (lasts_look now c).trans (.of_same rfl rfl id)

theorem outlasts_enter (now : Int) (c : Cancellation) : Outlasts c (c.enter now) :=
  .of_same (Nat.le_succ _) rfl id

/-- An evaluation that is entered and left again. -/
theorem outlasts_enter_exit {now : Int} (h : Outlasts (c.enter now) c') : Outlasts c c'.exit := by
  have deeper : c.depth ≤ c'.depth - 1 := Nat.le_sub_one_of_lt h.deeper
  have kept : c.IsUnwinding ∨ c.unwinds < c'.unwinds → c'.IsUnwinding := h.unwinding
  unfold exit
  dsimp only
  split
  · rename_i done
    have plain : ¬ c'.IsUnwinding := fun held => by simp [held.2] at done
    exact ⟨deeper, h.unwinds, fun start => absurd (kept start) plain⟩
  · exact ⟨deeper, h.unwinds, kept⟩

theorem limits_exit (c : Cancellation) : c.exit.limits = c.limits := by
  unfold exit
  dsimp only
  split <;> rfl

theorem depth_reset (force : Bool) (c : Cancellation) : (c.reset force).2.depth = c.depth := by
  unfold reset
  split
  · rfl
  · split <;> rfl

theorem limits_reset (force : Bool) (c : Cancellation) : (c.reset force).2.limits = c.limits := by
  unfold reset
  split
  · rfl
  · split <;> rfl

theorem depth_cancel {force unwind : Bool} {message : Text}
    (h : c.cancel force unwind message = .ok c') : c'.depth = c.depth := by
  unfold cancel at h
  split at h
  · cases h
  · obtain rfl := Except.ok.inj h
    rfl

theorem limits_cancel {force unwind : Bool} {message : Text}
    (h : c.cancel force unwind message = .ok c') : c'.limits = c.limits := by
  unfold cancel at h
  split at h
  · cases h
  · obtain rfl := Except.ok.inj h
    rfl

theorem limits_tick (now : Int) (c : Cancellation) : (c.tick now).2.limits = c.limits := by
  unfold tick look
  dsimp only
  split
  · rfl
  · split
    · rfl
    · split
      · rfl
      · cases posted : c.cancel false true watchdogMessage with
        | error f => rfl
        | ok c' =>
          change c'.limits = c.limits
          exact limits_cancel posted

/-- What the own watchdog of a controller makes of it, look by look, while it runs. -/
inductive Ticked (c : Cancellation) : Cancellation → Prop
  | still : Ticked c c
  | look {c' : Cancellation} (before : Ticked c c') (running : c'.watchdog.isSome = true) (now : Int) :
      Ticked c (c'.tick now).2

theorem Ticked.trans (h : Ticked c c') (h' : Ticked c' c'') : Ticked c c'' := by
  induction h' with
  | still => exact h
  | look _ running now before => exact before.look running now

theorem Ticked.limits (h : Ticked c c') : c'.limits = c.limits := by
  induction h with
  | still => rfl
  | look _ _ now before => exact (limits_tick now _).trans before

/-- Without a watchdog nothing happens. -/
theorem Ticked.eq_of_stopped (stopped : c.watchdog = none) (h : Ticked c c') : c' = c := by
  induction h with
  | still => rfl
  | look _ running _ before =>
    rw [before, stopped] at running
    cases running

end Cancellation

end InterpTree
