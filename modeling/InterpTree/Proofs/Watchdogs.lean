import InterpTree.Proofs.CancelHistory

/-!
When a watchdog fires. `Watched` is the relation between a controller whose watchdog is running and
what has happened to it under a clock that never goes back. The watchdog looks at the instants it is
set to, everything else may happen at any instant. The next look is then never later than the recorded
activity allows, and a look that fires finds an evaluation without activity for a whole timeout.
-/

namespace InterpTree

namespace Cancellation

variable {c : Cancellation} {clock timeout : Int}

/-- What happens to a controller that is watched. -/
inductive Happening
  | started
  | used (use : Use)
  | looked (done : Look)
deriving DecidableEq

/-- How many evaluations are running after a history, the latest first, where `depth` were running
before it. -/
def nesting (depth : Nat) : List (Int × Happening) → Nat
  | [] => depth
  | (_, .used .enter) :: earlier => nesting depth earlier + 1
  | (_, .used .exit) :: earlier => nesting depth earlier - 1
  | _ :: earlier => nesting depth earlier

/-- Whether a happening sets the timeout running anew, where `running` evaluations are running. -/
def Happening.restarts (running : Nat) : Happening → Bool
  | .started => true
  | .used .enter => running = 0
  | .used .touch => true
  | .looked .fired => true
  | _ => false

/-- The instants since which the timeout has been running. -/
def marks (depth : Nat) : List (Int × Happening) → List Int
  | [] => []
  | (instant, happening) :: earlier =>
    if happening.restarts (nesting depth earlier) then instant :: marks depth earlier
    else marks depth earlier

/-- From `before`, where the watchdog is started, to `c` at the instant `clock`, while the timeout
stays. -/
inductive Watched (timeout : Int) (before : Cancellation) :
    List (Int × Happening) → Int → Cancellation → Prop
  | start (now : Int) :
    Watched timeout before [(now, .started)] now (before.startWatchdog now).2
  /-- The clock advances, but not past the next look. -/
  | wait {history : List (Int × Happening)} {clock later next : Int} {c : Cancellation}
    (run : Watched timeout before history clock c) (advances : clock ≤ later)
    (set : c.watchdog = some next) (due : later ≤ next) : Watched timeout before history later c
  | use {history : List (Int × Happening)} {clock : Int} {c : Cancellation}
    (run : Watched timeout before history clock c) (use : Use)
    (stays : (use.run clock c).2.limits.timeout = timeout) :
    Watched timeout before ((clock, .used use) :: history) clock (use.run clock c).2
  | look {history : List (Int × Happening)} {clock : Int} {c : Cancellation}
    (run : Watched timeout before history clock c) (due : c.watchdog = some clock) :
    Watched timeout before ((clock, .looked (c.tick clock).1) :: history) clock (c.tick clock).2

/-- What a use makes of the nesting, the recorded activity and the watchdog. -/
theorem run_timing (use : Use) (now : Int) (c : Cancellation) :
    (∀ history depth, c.depth = nesting depth history →
      (use.run now c).2.depth = nesting depth ((now, .used use) :: history)) ∧
    (use.run now c).2.activity =
      (if (Happening.used use).restarts c.depth then now else c.activity) ∧
    (use.run now c).2.watchdog = c.watchdog := by
  cases use with
  | cancel force unwind message =>
    simp only [Use.run, cancel]
    split <;> exact ⟨fun _ _ nests => nests, rfl, rfl⟩
  | reset ignorePending =>
    simp only [Use.run, reset]
    split
    · exact ⟨fun _ _ nests => nests, rfl, rfl⟩
    · split <;> exact ⟨fun _ _ nests => nests, rfl, rfl⟩
  | checkpoint =>
    simp only [Use.run, checkpoint]
    split <;> exact ⟨fun _ _ nests => nests, rfl, rfl⟩
  | enter =>
    refine ⟨fun history depth nests => ?_, ?_, rfl⟩
    · simp [Use.run, enter, nesting, nests]
    · simp [Use.run, enter, Happening.restarts]
  | exit =>
    simp only [Use.run, exit]
    split <;> exact ⟨fun history depth nests => by simp [clear, nesting, nests], rfl, rfl⟩
  | touch => exact ⟨fun _ _ nests => nests, rfl, rfl⟩
  | setLimits limits =>
    simp only [Use.run, setLimits]
    cases limits.checked <;> exact ⟨fun _ _ nests => nests, rfl, rfl⟩
  | setLimit field value =>
    simp only [Use.run, setLimit]
    cases c.limits.set? field value <;> exact ⟨fun _ _ nests => nests, rfl, rfl⟩

/-- A look fires just if an evaluation has shown no activity for a whole timeout and nothing is
pending yet. -/
theorem tick_fired_iff (set : 0 < c.limits.timeout) :
    (c.tick clock).1 = .fired ↔
      0 < c.depth ∧ c.activity + c.limits.timeout ≤ clock ∧ c.isPending = false := by
  unfold tick look cancel
  dsimp only
  split
  · omega
  · split
    · simp only [reduceCtorEq, false_iff]
      omega
    · split
      · simp only [reduceCtorEq, false_iff]
        omega
      · cases c.isPending with
        | false =>
          simp only [Bool.not_false, Bool.and_true, Bool.false_eq_true, if_false, and_true, true_iff]
          omega
        | true => simp

/-- A look that fires posts a cancellation, and no other changes what is posted. -/
theorem tick_fired_iff_posts :
    ((c.tick clock).1 = .fired ↔ c.isPending = false ∧ (c.tick clock).2.isPending = true) ∧
      ((c.tick clock).1 ≠ .fired → (c.tick clock).2.state = c.state) := by
  have kept (pending : c.isPending = false ∧ c.isPending = true) : False := by
    rw [pending.1] at pending
    cases pending.2
  unfold tick look cancel
  dsimp only
  split
  · exact ⟨⟨nofun, fun posted => (kept posted).elim⟩, fun _ => rfl⟩
  · split
    · exact ⟨⟨nofun, fun posted => (kept posted).elim⟩, fun _ => rfl⟩
    · split
      · exact ⟨⟨nofun, fun posted => (kept posted).elim⟩, fun _ => rfl⟩
      · cases pending : c.isPending with
        | true => exact ⟨⟨nofun, fun posted => nomatch posted.1⟩, fun _ => rfl⟩
        | false => exact ⟨⟨fun _ => ⟨rfl, rfl⟩, fun _ => rfl⟩, fun other => (other rfl).elim⟩

/-- After a look the activity is recorded of the present instant, or it is too recent for a timeout.
In both cases the next look is at the instant where the timeout can have passed first. -/
theorem tick_timing (set : 0 < c.limits.timeout) :
    ((c.tick clock).2.activity = clock ∨
      (c.tick clock).2.activity = c.activity ∧ (c.tick clock).1 = .quiet) ∧
    ∃ next, (c.tick clock).2.watchdog = some next ∧ clock ≤ next ∧
      next = (c.tick clock).2.activity + c.limits.timeout := by
  unfold tick look
  dsimp only
  split
  · omega
  · split
    · exact ⟨.inl rfl, _, rfl, by omega, rfl⟩
    · split
      · refine ⟨.inr ⟨rfl, rfl⟩, _, rfl, by omega, ?_⟩
        dsimp only
        omega
      · cases c.cancel false true watchdogMessage with
        | error f => exact ⟨.inl rfl, _, rfl, by dsimp only; omega, rfl⟩
        | ok c' => exact ⟨.inl rfl, _, rfl, by dsimp only; omega, rfl⟩

/-- How a watched controller keeps time. -/
structure Timed (timeout : Int) (depth : Nat) (history : List (Int × Happening)) (clock : Int)
    (c : Cancellation) : Prop where
  stays : c.limits.timeout = timeout
  nests : c.depth = nesting depth history
  /-- The recorded activity is not older than anything that sets the timeout running anew. -/
  recorded : ∀ mark ∈ marks depth history, mark ≤ c.activity
  past : c.activity ≤ clock
  next : ∃ next, c.watchdog = some next ∧ clock ≤ next ∧ next ≤ c.activity + timeout

section
variable {history : List (Int × Happening)} {depth : Nat}

theorem Timed.start (set : 0 < timeout) (stays : c.limits.timeout = timeout)
    (stopped : c.watchdog = none) (now : Int) :
    Timed timeout c.depth [(now, .started)] now (c.startWatchdog now).2 := by
  simp only [startWatchdog, stopped, Option.isSome_none, Bool.false_eq_true, if_false]
  refine ⟨stays, rfl, ?_, Int.le_refl _, now, rfl, Int.le_refl _, ?_⟩
  · simp [marks, Happening.restarts]
  · dsimp only
    omega

theorem Timed.wait {later next : Int} (h : Timed timeout depth history clock c)
    (advances : clock ≤ later) (set : c.watchdog = some next) (due : later ≤ next) :
    Timed timeout depth history later c := by
  obtain ⟨next', set', -, soon⟩ := h.next
  obtain rfl := Option.some.inj (set.symm.trans set')
  exact ⟨h.stays, h.nests, h.recorded, Int.le_trans h.past advances, next, set, due, soon⟩

/-- Activity of the present instant is not older than anything. -/
theorem Timed.recorded_cons {c' : Cancellation} {happening : Happening}
    (h : Timed timeout depth history clock c) (grows : c.activity ≤ c'.activity)
    (restarts : happening.restarts c.depth = true → c'.activity = clock) :
    ∀ mark ∈ marks depth ((clock, happening) :: history), mark ≤ c'.activity := by
  intro mark mem
  rw [marks, ← h.nests] at mem
  split at mem
  · rename_i anew
    rcases List.mem_cons.1 mem with rfl | mem
    · exact Int.le_of_eq (restarts anew).symm
    · exact Int.le_trans (h.recorded mark mem) grows
  · exact Int.le_trans (h.recorded mark mem) grows

theorem Timed.use (h : Timed timeout depth history clock c) (use : Use)
    (stays : (use.run clock c).2.limits.timeout = timeout) :
    Timed timeout depth ((clock, .used use) :: history) clock (use.run clock c).2 := by
  obtain ⟨nests, activity, watchdog⟩ := run_timing use clock c
  obtain ⟨next, set, ahead, soon⟩ := h.next
  have past := h.past
  have grows : c.activity ≤ (use.run clock c).2.activity ∧
      (use.run clock c).2.activity ≤ clock := by
    rw [activity]
    split <;> omega
  refine ⟨stays, nests _ _ h.nests, h.recorded_cons grows.1 fun anew => ?_, grows.2, next,
    watchdog.trans set, ahead, by omega⟩
  rw [activity, if_pos anew]

theorem Timed.look (set : 0 < timeout) (h : Timed timeout depth history clock c) :
    Timed timeout depth ((clock, .looked (c.tick clock).1) :: history) clock (c.tick clock).2 := by
  obtain ⟨activity, next, watchdog, ahead, soon⟩ := tick_timing (h.stays ▸ set)
  have past := h.past
  refine ⟨?_, ?_, h.recorded_cons (by omega) fun anew => ?_, by omega, next, watchdog, ahead, ?_⟩
  · rw [limits_tick, h.stays]
  · exact (lasts_tick clock c).depth.trans h.nests
  · refine activity.resolve_right fun still => ?_
    simp [still.2, Happening.restarts] at anew
  · exact Int.le_of_eq (by rw [soon, h.stays])

end

variable {before : Cancellation} {history : List (Int × Happening)}

theorem Watched.timed (run : Watched timeout before history clock c) (set : 0 < timeout)
    (stays : before.limits.timeout = timeout) (stopped : before.watchdog = none) :
    Timed timeout before.depth history clock c := by
  induction run with
  | start now => exact .start set stays stopped now
  | wait _ advances next due ih => exact ih.wait advances next due
  | use _ use same ih => exact ih.use use same
  | look _ _ ih => exact ih.look set

/-- A look that fires is one that posts a cancellation. It finds an evaluation running, and a whole
timeout past since anything last set it running anew. While an evaluation is running the next look is
still to come, and not later than the recorded activity plus the timeout. -/
theorem watchdog_timely (run : Watched timeout before history clock c) (set : 0 < timeout)
    (stays : before.limits.timeout = timeout) (stopped : before.watchdog = none) :
    ((c.tick clock).1 = .fired ↔ c.isPending = false ∧ (c.tick clock).2.isPending = true) ∧
    ((c.tick clock).1 ≠ .fired → (c.tick clock).2.state = c.state) ∧
    ((c.tick clock).1 = .fired →
      0 < nesting before.depth history ∧
      ∀ mark ∈ marks before.depth history, mark + timeout ≤ clock) ∧
    (0 < nesting before.depth history →
      ∃ next, c.watchdog = some next ∧ clock ≤ next ∧ next ≤ c.activity + timeout) := by
  have timed := run.timed set stays stopped
  obtain ⟨posts, rests⟩ := tick_fired_iff_posts
  refine ⟨posts, rests, fun fired => ?_, fun _ => timed.next⟩
  obtain ⟨nested, idle, -⟩ := (tick_fired_iff (timed.stays ▸ set)).1 fired
  refine ⟨timed.nests ▸ nested, fun mark mem => ?_⟩
  have := timed.recorded mark mem
  rw [timed.stays] at idle
  omega

/-- Idle at the first look, then entered, and silent until the third. -/
theorem watchdog_timely_silent :
    let before : Cancellation := { limits := { Limits.standard with timeout := 10 } }
    let silent : Cancellation := { before with depth := 1, activity := 3, watchdog := some 13 }
    let history : List (Int × Happening) :=
      [(10, .looked .quiet), (3, .used .enter), (0, .looked .quiet), (0, .started)]
    Watched 10 before history 13 silent ∧ (silent.tick 13).1 = .fired ∧
      (silent.tick 13).2.isPending = true ∧ 0 < nesting 0 history ∧
      (∀ mark ∈ marks 0 history, mark + 10 ≤ 13) ∧ 3 ∈ marks 0 history := by
  intro before silent history
  have run : Watched 10 before history 13 silent := by
    have started : Watched 10 before [(0, .started)] 0 (before.startWatchdog 0).2 := .start 0
    have first := started.look rfl
    have entered := (first.wait (show 0 ≤ 3 by decide) rfl (by decide)).use .enter rfl
    have second := (entered.wait (show 3 ≤ 10 by decide) rfl (by decide)).look rfl
    exact second.wait (by decide) rfl (by decide)
  have fired : (silent.tick 13).1 = .fired := rfl
  obtain ⟨posts, -, timely, -⟩ := watchdog_timely run (by decide) rfl rfl
  obtain ⟨nested, past⟩ := timely fired
  exact ⟨run, fired, (posts.1 fired).2, nested, past, by decide⟩

end Cancellation

end InterpTree
