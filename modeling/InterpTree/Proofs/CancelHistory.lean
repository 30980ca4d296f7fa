import InterpTree.Proofs.Lasting

/-!
What a controller answers follows from what was asked of it before. Only three things in a history
matter: the cancellation that was posted last, whether it was reset since, and whether a checkpoint
has met it. `Answers` says how, and holds after every history of a fresh controller.
-/

namespace InterpTree

namespace Cancellation

variable {c : Cancellation}

/-- What a controller may be asked for. -/
inductive Use
  | cancel (force unwind : Bool) (message : Text)
  | reset (ignorePending : Bool)
  | checkpoint
  | enter
  | exit
  | touch
  | setLimits (limits : Limits)
  | setLimit (field : Limits.Field) (value : Int)
deriving DecidableEq

/-- What a controller answers. -/
inductive Reply
  | done
  | refused (fault : Fault)
  /-- Whether there was a cancellation that was cleared. -/
  | cleared (any : Bool)
  /-- The reason to stop, if there is one. -/
  | met (reason : Option CancelReason)
deriving DecidableEq

/-- A change, or the controller as it is and the reason why the change was refused. -/
def changed (c : Cancellation) : Except Fault Cancellation → Reply × Cancellation
  | .ok c' => (.done, c')
  | .error f => (.refused f, c)

/-- A use of a controller at an instant. -/
def Use.run (now : Int) (c : Cancellation) : Use → Reply × Cancellation
  | .cancel force unwind message => c.changed (c.cancel force unwind message)
  | .reset ignorePending => (.cleared (c.reset ignorePending).1, (c.reset ignorePending).2)
  | .checkpoint => (.met c.checkpoint.1, c.checkpoint.2)
  | .enter => (.done, c.enter now)
  | .exit => (.done, c.exit)
  | .touch => (.done, c.touch now)
  | .setLimits limits => c.changed (c.setLimits limits)
  | .setLimit field value => c.changed (c.setLimit field value)

/-- A use of a controller, and what it came to. -/
structure Note where
  instant : Int
  use : Use
  reply : Reply
deriving DecidableEq

/-- What uses of a controller come to, the latest first, and the controller after them. -/
def replay (c : Cancellation) : List (Int × Use) → List Note × Cancellation
  | [] => ([], c)
  | (instant, use) :: earlier =>
    let (history, c) := c.replay earlier
    let (reply, c) := use.run instant c
    (⟨instant, use, reply⟩ :: history, c)

/-- The cancellation that was posted last, unless it was reset since. -/
def posted? : List Note → Option CancelReason
  | [] => none
  | ⟨_, .cancel force unwind message, .done⟩ :: _ => some ⟨message, unwind, force⟩
  | ⟨_, .reset _, .cleared true⟩ :: _ => none
  | _ :: earlier => posted? earlier

/-- Whether there was a checkpoint since a cancellation was last posted or reset. -/
def isMet : List Note → Bool
  | [] => false
  | ⟨_, .cancel .., .done⟩ :: _ => false
  | ⟨_, .reset _, .cleared true⟩ :: _ => false
  | ⟨_, .checkpoint, _⟩ :: _ => true
  | _ :: earlier => isMet earlier

/-- How a controller answers after a history. -/
structure Answers (history : List Note) (c : Cancellation) : Prop where
  /-- A checkpoint fails, with the reason of the cancellation posted last, if that unwinds or if no
  other checkpoint has met it. -/
  checkpoint : c.checkpoint.1 =
    (posted? history).filter fun reason => reason.unwind || !isMet history
  /-- A cancellation is refused if it is not forced and the one posted last is still to be met. -/
  refused_iff : ∀ force unwind message, (∃ f, c.cancel force unwind message = .error f) ↔
    force = false ∧ (posted? history).isSome = true ∧ isMet history = false
  /-- A cancellation that is still to be met outlasts the end of an evaluation. -/
  exit : ∀ reason, posted? history = some reason → isMet history = false →
    c.exit.state = .pending ∧ c.exit.reason = reason
  /-- To be canceled is to fail the next checkpoint. -/
  isCanceled : c.isCanceled = c.checkpoint.1.isSome
  /-- Waiters have been told exactly while there is a cancellation. -/
  signaled : c.signaled = true ↔ c.state ≠ .idle

/-- The state of a controller after a history. A cancellation that was met and does not unwind may
have been done with at the end of an evaluation. -/
structure Stands (history : List Note) (c : Cancellation) : Prop where
  state : match posted? history with
    | none => c.state = .idle
    | some reason =>
      if isMet history then
        c.state = .consumed ∧ c.reason = reason ∨ c.state = .idle ∧ reason.unwind = false
      else c.state = .pending ∧ c.reason = reason
  signaled : c.signaled = true ↔ c.state ≠ .idle

theorem Stands.start (limits : Limits) (now : Int) : Stands [] (start limits now) :=
  ⟨rfl, by simp [Cancellation.start]⟩

variable {history : List Note} {now : Int}

/-- A use that posts and resets nothing and meets nothing leaves the state as it is. -/
theorem Stands.same {c' : Cancellation} {note : Note} (h : Stands history c)
    (posted : posted? (note :: history) = posted? history)
    (met : isMet (note :: history) = isMet history)
    (state : c'.state = c.state) (reason : c'.reason = c.reason)
    (signaled : c'.signaled = c.signaled) : Stands (note :: history) c' := by
  refine ⟨?_, ?_⟩
  · rw [posted, met, state, reason]
    exact h.state
  · rw [signaled, state]
    exact h.signaled

theorem Stands.cancel (h : Stands history c) (force unwind : Bool) (message : Text) :
    Stands (⟨now, .cancel force unwind message,
        (c.changed (c.cancel force unwind message)).1⟩ :: history)
      (c.changed (c.cancel force unwind message)).2 := by
  unfold Cancellation.cancel
  split
  · exact h.same rfl rfl rfl rfl rfl
  · exact ⟨by simp [changed, posted?, isMet], by simp [changed]⟩

theorem Stands.reset (h : Stands history c) (ignorePending : Bool) :
    Stands (⟨now, .reset ignorePending, .cleared (c.reset ignorePending).1⟩ :: history)
      (c.reset ignorePending).2 := by
  unfold Cancellation.reset
  split
  · exact h.same rfl rfl rfl rfl rfl
  · split
    · exact h.same rfl rfl rfl rfl rfl
    · exact ⟨by simp [posted?, clear], by simp [clear]⟩

/-- A checkpoint meets what is pending and changes nothing else. -/
theorem Stands.checkpoint (h : Stands history c) :
    Stands (⟨now, .checkpoint, .met c.checkpoint.1⟩ :: history) c.checkpoint.2 := by
  have state := h.state
  have signaled := h.signaled
  unfold Cancellation.checkpoint
  cases posted : posted? history with
  | none =>
    simp only [posted] at state
    exact ⟨by simp [posted?, posted, state], by simpa [state] using signaled⟩
  | some reason =>
    simp only [posted] at state
    cases met : isMet history with
    | false =>
      simp only [met, Bool.false_eq_true, if_false] at state
      exact ⟨by simp [posted?, posted, isMet, state],
        by simpa [state] using signaled⟩
    | true =>
      simp only [met, if_true] at state
      rcases state with ⟨consumed, is⟩ | ⟨idle, plain⟩
      · exact ⟨by simp [posted?, posted, isMet, consumed, is],
          by simpa [consumed] using signaled⟩
      · exact ⟨by simp [posted?, posted, isMet, idle, plain],
          by simpa [idle] using signaled⟩

/-- The end of an evaluation clears only what was met and does not unwind. -/
theorem Stands.exit (h : Stands history c) {reply : Reply} :
    Stands (⟨now, .exit, reply⟩ :: history) c.exit := by
  unfold Cancellation.exit
  dsimp only
  split
  · rename_i done
    simp only [Bool.and_eq_true, decide_eq_true_eq, Bool.not_eq_true'] at done
    obtain ⟨⟨-, consumed⟩, plain⟩ := done
    refine ⟨?_, by simp [clear]⟩
    have state := h.state
    cases posted : posted? history with
    | none => simp [posted?, posted, clear]
    | some reason =>
      simp only [posted, consumed] at state
      cases met : isMet history with
      | false => simp [met] at state
      | true =>
        simp only [met, if_true, true_and, reduceCtorEq, false_and, or_false] at state
        simp [posted?, posted, isMet, met, clear, ← state, plain]
  · exact h.same rfl rfl rfl rfl rfl

/-- A change of the limits leaves the state as it is, whether it is refused or not. -/
theorem Stands.changed {use : Use} {set : Except Fault Limits}
    (h : Stands history c) (posted : ∀ reply, posted? (⟨now, use, reply⟩ :: history) = posted? history)
    (met : ∀ reply, isMet (⟨now, use, reply⟩ :: history) = isMet history) :
    Stands (⟨now, use, (c.changed (set.map fun limits => { c with limits })).1⟩ :: history)
      (c.changed (set.map fun limits => { c with limits })).2 := by
  cases set with
  | error f => exact h.same (posted _) (met _) rfl rfl rfl
  | ok limits => exact h.same (posted _) (met _) rfl rfl rfl

/-- One use, whatever it is. -/
theorem Stands.run (h : Stands history c) (use : Use) :
    Stands (⟨now, use, (use.run now c).1⟩ :: history) (use.run now c).2 := by
  cases use with
  | cancel force unwind message => exact h.cancel force unwind message
  | reset ignorePending => exact h.reset ignorePending
  | checkpoint => exact h.checkpoint
  | enter => exact h.same rfl rfl rfl rfl rfl
  | exit => exact h.exit
  | touch => exact h.same rfl rfl rfl rfl rfl
  | setLimits limits => exact h.changed (fun _ => rfl) (fun _ => rfl)
  | setLimit field value => exact h.changed (fun _ => rfl) (fun _ => rfl)

theorem Stands.replay (h : Stands [] c) (uses : List (Int × Use)) :
    Stands (c.replay uses).1 (c.replay uses).2 := by
  induction uses with
  | nil => exact h
  | cons use earlier before => exact before.run use.2

/-- What a controller answers follows from how it stands. -/
theorem Stands.answers (h : Stands history c) : Answers history c := by
  have state := h.state
  cases posted : posted? history with
  | none =>
    simp only [posted] at state
    refine ⟨?_, ?_, ?_, ?_, h.signaled⟩
    · simp [posted, Cancellation.checkpoint, state]
    · simp [posted, Cancellation.cancel, isPending, state]
    · intro reason is
      simp [posted] at is
    · simp [isCanceled, Cancellation.checkpoint, state]
  | some reason =>
    simp only [posted] at state
    cases met : isMet history with
    | false =>
      simp only [met, Bool.false_eq_true, if_false] at state
      obtain ⟨pending, rfl⟩ := state
      refine ⟨?_, ?_, ?_, ?_, h.signaled⟩
      · simp [posted, met, Cancellation.checkpoint, pending, Option.filter_some]
      · intro force _ _
        cases force <;> simp [posted, met, Cancellation.cancel, isPending, pending]
      · intro reason is _
        obtain rfl := Option.some.inj (posted.symm.trans is)
        simp [Cancellation.exit, pending]
      · simp [isCanceled, Cancellation.checkpoint, pending]
    | true =>
      simp only [met, if_true] at state
      rcases state with ⟨consumed, rfl⟩ | ⟨idle, plain⟩
      · refine ⟨?_, ?_, ?_, ?_, h.signaled⟩
        · cases unwinds : c.reason.unwind <;>
            simp [posted, met, Cancellation.checkpoint, consumed, unwinds, Option.filter_some]
        · simp [met, Cancellation.cancel, isPending, consumed]
        · intro _ _ unmet
          simp [met] at unmet
        · cases unwinds : c.reason.unwind <;>
            simp [isCanceled, Cancellation.checkpoint, consumed, unwinds]
      · refine ⟨?_, ?_, ?_, ?_, h.signaled⟩
        · simp [posted, met, Cancellation.checkpoint, idle, plain, Option.filter_some]
        · simp [met, Cancellation.cancel, isPending, idle]
        · intro _ _ unmet
          simp [met] at unmet
        · simp [isCanceled, Cancellation.checkpoint, idle]

/-- After every history a fresh controller answers as the history says. -/
theorem answers_of_replay (limits : Limits) (now : Int) (uses : List (Int × Use)) :
    Answers ((start limits now).replay uses).1 ((start limits now).replay uses).2 :=
  (Stands.replay (.start limits now) uses).answers

end Cancellation

end InterpTree
