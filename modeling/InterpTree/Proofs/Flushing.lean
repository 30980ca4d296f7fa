import InterpTree.Proofs.WorkerLoop

/-!
Waiting for the work so far. The party that waits looks at the worker when it calls, and whenever it
is roused: it comes back where it finds nothing left to do, or the worker closed. As a closed worker
still has to run what it accepted, a closing that comes while work is left sends every waiting party
back too early, and every later one at once.
-/

namespace InterpTree

namespace Engine

theorem ends_elapse (instant : Option Int) (w : World) :
    Ends (elapse instant) w fun r _ => r = .ok () → instant.isSome = true := by
  cases instant with
  | none => exact nofun
  | some instant => exact fun _ => rfl

theorem ends_sleepUntil (e : Engine) (instant : Option Int) (w : World) :
    Ends (e.sleepUntil instant) w fun r _ => r = .ok () → instant.isSome = true := by
  refine Ends.bind_iff.mpr (Ends.get_iff.mpr ?_)
  dsimp only
  split
  · exact .bind_of_forall (fun _ v => ends_elapse instant v) fun _ _ => nofun
  · exact ends_elapse instant w

/-- A wait without a deadline comes back only where it is roused. -/
theorem ends_waitTurns (e : Engine) (roused : World → Bool) (turns : Nat) (w : World) :
    Ends (e.waitTurns none roused turns) w fun r v => r = .ok () → roused v = true := by
  induction turns generalizing w with
  | zero => exact nofun
  | succ turns ih =>
    refine Ends.bind_iff.mpr (Ends.get_iff.mpr ?_)
    dsimp only
    split
    · rename_i now
      exact fun _ => now
    · split
      · exact (e.ends_sleepUntil none w).mono fun _ _ ended same =>
          absurd (ended same) Bool.false_ne_true
      · split
        · exact nofun
        · exact .bind_of_forall (fun _ v => .bind_of_forall (fun _ u => ih u) fun _ _ => nofun)
            fun _ _ => nofun

theorem ends_waitFor (e : Engine) (holds : World → Bool) (w : World) :
    Ends (e.waitFor holds) w fun r v => r = .ok () → holds v = true := by
  unfold waitFor wait
  refine Ends.bind_iff.mpr (Ends.get_iff.mpr ?_)
  dsimp only
  split
  · nofun
  · exact e.ends_waitTurns holds _ w

end Engine

namespace Worker

variable {ι : Type}

theorem items_eq_nil_iff {w : Worker ι} : w.items = [] ↔ w.queue = [] ∧ w.running = none := by
  cases running : w.running <;> simp [items, running]

theorem isFlushed_iff {w : Worker ι} : w.isFlushed = true ↔ w.items = [] ∨ w.closed = true := by
  simp [isFlushed, items_eq_nil_iff]

namespace Shift

variable {listens : Bool} {s t : Shift ι}

/-- In a run of some moves, a call that waits is made in state `s` and comes back in state `t`. -/
structure Waits (listens : Bool) (moves : List (Move ι)) (s t : Shift ι) : Prop where
  course : ∃ before during after, moves = before ++ during ++ after ∧
    run? listens before {} = some s ∧ s.run? listens during = some t
  returns : t.worker.isFlushed = true

/-- In a run of some moves, the worker is closed while an item waits or runs. -/
def ClosesEarly (listens : Bool) (moves : List (Move ι)) : Prop :=
  ∃ before after s, moves = before ++ .close :: after ∧ run? listens before {} = some s ∧
    s.worker.items ≠ []

theorem ClosesEarly.append {moves : List (Move ι)} (early : ClosesEarly listens moves)
    (more : List (Move ι)) : ClosesEarly listens (moves ++ more) := by
  obtain ⟨before, after, s, rfl, ran, left⟩ := early
  exact ⟨before, after ++ more, s, by simp, ran, left⟩

theorem IsSound.run {moves : List (Move ι)} (sound : s.IsSound listens)
    (ran : s.run? listens moves = some t) : t.IsSound listens :=
  run?_induction (fun _ _ _ sound moved => IsSound.step sound moved) sound ran

/-- What was accepted or finished stays so, and nothing but a closing closes the worker. -/
theorem grows_step {move : Move ι} (h : s.step? listens move = some t) :
    s.accepted <+: t.accepted ∧ s.finished <+: t.finished ∧
      (move = .close ∨ t.worker.closed = s.worker.closed) := by
  cases move with
  | submit name item =>
    obtain rfl | ⟨item, -, rfl⟩ := of_submit h
    · simp
    · simp
  | close =>
    obtain rfl := Option.some.inj h
    simp
  | take =>
    obtain ⟨item, queue, -, -, rfl⟩ := of_take h
    simp
  | comeBack outcome =>
    obtain ⟨item, -, -, rfl⟩ := of_comeBack h
    simp
  | report =>
    obtain ⟨item, outcome, failure, -, -, -, -, -, rfl⟩ := of_report h
    simp
  | finish =>
    obtain ⟨item, outcome, -, -, -, rfl⟩ := of_finish h
    simp [Worker.finish]
  | exit =>
    obtain ⟨-, -, rfl⟩ := of_exit h
    simp

theorem accepted_grows {moves : List (Move ι)} (ran : s.run? listens moves = some t) :
    s.accepted <+: t.accepted :=
  run?_induction (P := fun t => s.accepted <+: t.accepted)
    (fun _ _ _ grown moved => grown.trans (grows_step moved).1) (List.prefix_refl _) ran

/-- A closed worker that has nothing left to do gets nothing more to do. -/
theorem idle_of_closed {move : Move ι} (sound : s.IsSound listens)
    (closed : s.worker.closed = true) (idle : s.worker.items = [])
    (h : s.step? listens move = some t) : t.worker.items = [] := by
  obtain ⟨more, grown⟩ := (grows_step h).2.1
  have same := (closed_step closed h).2
  rw [sound.accepted, (sound.step h).accepted, ← grown, idle] at same
  simp at same
  exact same.2

/-- A worker that is closed and has work left was closed with work left. -/
theorem closesEarly_of_closed {moves : List (Move ι)} (ran : run? listens moves {} = some t)
    (closed : t.worker.closed = true) (left : t.worker.items ≠ []) :
    ClosesEarly listens moves := by
  -- By the last move: it is the closing, or the worker was closed before it.
  induction moves using List.reverseRecOn generalizing t with
  | nil =>
    obtain rfl := Option.some.inj ran
    exact absurd closed Bool.false_ne_true
  | append_singleton moves move ih =>
    rw [run?_append, Option.bind_eq_some_iff] at ran
    obtain ⟨s, ran, moved⟩ := ran
    have moved : s.step? listens move = some t := by simpa [run?] using moved
    cases before : s.worker.closed with
    | true =>
      have busy : s.worker.items ≠ [] := fun idle =>
        left (idle_of_closed (isSound_start.run ran) before idle moved)
      exact (ih ran before busy).append [move]
    | false =>
      obtain ⟨-, -, rfl | same⟩ := grows_step moved
      · obtain rfl := Option.some.inj moved
        exact ⟨moves, [], s, rfl, ran, left⟩
      · exact absurd (same.symm.trans closed) (by simp [before])

namespace Waits

variable {moves : List (Move ι)}

theorem isSound (wait : Waits listens moves s t) : s.IsSound listens ∧ t.IsSound listens := by
  obtain ⟨before, during, after, -, called, waited⟩ := wait.course
  have sound := isSound_start.run called
  exact ⟨sound, sound.run waited⟩

/-- A call that comes back with nothing left to do has waited for all that was accepted. -/
theorem finished (wait : Waits listens moves s t) (idle : t.worker.items = []) :
    s.accepted <+: t.finished.map Prod.fst := by
  obtain ⟨before, during, after, -, -, waited⟩ := wait.course
  have grown := accepted_grows waited
  rwa [wait.isSound.2.accepted, idle, List.append_nil] at grown

/-- Where no closing comes too early, nothing is left to do when a call comes back. -/
theorem idle (wait : Waits listens moves s t) (late : ¬ ClosesEarly listens moves) :
    t.worker.items = [] := by
  obtain ⟨before, during, after, rfl, called, waited⟩ := wait.course
  refine (isFlushed_iff.1 wait.returns).elim id fun closed => ?_
  by_contra left
  have ran : run? listens (before ++ during) {} = some t := by
    rw [run?_append, called]
    exact waited
  exact late ((closesEarly_of_closed ran closed left).append after)

/-- After a closing, a call comes back at once. -/
theorem of_closed {before after : List (Move ι)} (same : moves = before ++ after)
    (ran : run? listens before {} = some s) (closed : s.worker.closed = true) :
    Waits listens moves s s :=
  ⟨⟨before, [], after, by simp [same], ran, rfl⟩, isFlushed_iff.2 (.inr closed)⟩

end Waits

/-- Every wait in a run of a worker lasts until nothing is left to do, and all that was accepted
before the call is finished, if and only if the worker is not closed while an item waits or runs. A
wait for a worker that is still open lasts that long in any case. One that comes back with work left
comes back from a closed worker, whose loop goes on with that work; and once the worker is closed,
each call comes back at once. A wait for the worker of a node is such a wait. -/
theorem waits_for_all_work_iff {moves : List (Move ι)} (ran : run? listens moves {} = some s) :
    ((∀ r t, Waits listens moves r t →
        t.worker.items = [] ∧ r.accepted <+: t.finished.map Prod.fst) ↔
      ¬ ClosesEarly listens moves) ∧
    (∀ r t, Waits listens moves r t → t.worker.closed = false →
      t.worker.items = [] ∧ r.accepted <+: t.finished.map Prod.fst) ∧
    (∀ r t, Waits listens moves r t → t.worker.items ≠ [] →
      t.worker.closed = true ∧ t.accepted = t.finished.map Prod.fst ++ t.worker.items ∧
        ∃ move, move.isOfLoop = true ∧ (t.step? listens move).isSome = true) ∧
    (s.worker.closed = true → Waits listens moves s s) ∧
    (∀ (e : Engine) (id : NodeId) (w : World), Ends (e.waitWorker id) w fun r v => r = .ok () →
      ∀ n loop, v.node? id = some n → n.worker = some loop → loop.isFlushed = true) := by
  refine ⟨⟨fun all early => ?_, fun late r t wait => ?_⟩, fun r t wait opened => ?_,
    fun r t wait left => ?_, fun closed => .of_closed (List.append_nil _).symm ran closed,
    fun e id w => (e.ends_waitFor _ w).mono fun r v ended ok => ?_⟩
  · -- The call that is made right after the closing.
    obtain ⟨before, after, r, rfl, ran, left⟩ := early
    have shut : run? listens (before ++ [.close]) {} = some { r with worker := r.worker.close } := by
      rw [run?_append, ran]
      rfl
    have wait : Waits listens (before ++ .close :: after) _ _ :=
      .of_closed (List.append_cons before .close after) shut rfl
    exact left (all _ _ wait).1
  · have idle := wait.idle late
    exact ⟨idle, wait.finished idle⟩
  · have idle : t.worker.items = [] := by
      simpa [opened] using isFlushed_iff.1 wait.returns
    exact ⟨idle, wait.finished idle⟩
  · have closed : t.worker.closed = true := by
      simpa [left] using isFlushed_iff.1 wait.returns
    have sound := wait.isSound.2
    refine ⟨closed, sound.accepted, ?_⟩
    obtain exited | waiting | goes := goes_on listens t
    · exact absurd (sound.exited exited).2 left
    · exact absurd waiting.2 left
    · exact goes
  · intro n loop found hired
    simpa [found, hired] using ended ok

/-- One item runs and another one waits when the worker is closed. -/
def hasty : List (Move Errand) :=
  [.submit "g" (some .pass), .take, .submit "a" (some .look), .close]

theorem waits_for_all_work_iff_hasty :
    ∃ s, run? true hasty {} = some s ∧ Waits true hasty s s ∧ s.accepted.length = 2 ∧
      s.finished = [] ∧ s.worker.pending = 2 ∧ ClosesEarly true hasty ∧
      ∃ move, move.isOfLoop = true ∧ (s.step? true move).isSome = true := by
  let left : Shift Errand :=
    { worker := { queue := [("a", .look)], running := some ("g", .pass), closed := true }
      accepted := [("g", .pass), ("a", .look)]
      started := [("g", .pass)] }
  have ran : run? true hasty {} = some left := by decide +kernel
  obtain ⟨exactly, -, goes, atOnce, -⟩ := waits_for_all_work_iff ran
  have wait : Waits true hasty left left := atOnce rfl
  refine ⟨left, ran, wait, rfl, rfl, rfl, ?_, (goes left left wait nofun).2.2⟩
  by_contra late
  exact absurd (exactly.2 late left left wait).1 nofun

end Shift

end Worker

end InterpTree
