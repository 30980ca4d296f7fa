import InterpTree.Worker.Errand
import InterpTree.Proofs.Loops

/-!
The loop of a worker among the parties that use it. Each step of the loop, each submission and each
closing holds the lock of the worker while it lasts, so a run of the worker is a sequence of moves,
in whatever order the parties and the loop come to make theirs. Between taking an item and being
done with it the loop makes two more moves, the return of the item and the call of the callback, and
the parties may come in between these too.
-/

namespace InterpTree.Worker

variable {ι : Type}

/-- How a work item comes back. -/
inductive Outcome
  | success
  | failure (fault : Fault)
  | panic (value : Text)
deriving DecidableEq

/-- The fault of an outcome: that of the item, or one made of the value it panicked with. -/
def Outcome.fault? : Outcome → Option Fault
  | .success => none
  | .failure fault => some fault
  | .panic value => some (.saying ("panic: " ++ value))

/-- A worker and what has become of it: how the running item has come back, if it has, whether the
callback was told so, and lists of what was accepted, started, finished and told, in order. -/
structure Shift (ι : Type) where
  worker : Worker ι := {}
  outcome : Option Outcome := none
  told : Bool := false
  accepted : List (Text × ι) := []
  started : List (Text × ι) := []
  finished : List ((Text × ι) × Outcome) := []
  reported : List (Text × Fault) := []
deriving DecidableEq

/-- What can happen to a worker. -/
inductive Move (ι : Type)
  /-- A party hands over an item, or nothing in the place of one. -/
  | submit (name : Text) (item : Option ι)
  /-- A party closes the worker. -/
  | close
  /-- The loop takes the next item. -/
  | take
  /-- The running item comes back. -/
  | comeBack (outcome : Outcome)
  /-- The loop tells the callback of a fault. -/
  | report
  /-- The loop is done with the running item. -/
  | finish
  /-- The loop ends. -/
  | exit

/-- Whether a move is one of the loop. -/
def Move.isOfLoop : Move ι → Bool
  | .submit .. | .close => false
  | _ => true

/-- The fault of a finished item, with the name of the item. -/
def failure? (done : (Text × ι) × Outcome) : Option (Text × Fault) :=
  done.2.fault?.map fun fault => (done.1.1, fault)

namespace Shift

/-- One move, where it can be made; `listens` tells whether there is a callback. A submission that
is refused can be made, and changes nothing. -/
def step? (listens : Bool) (s : Shift ι) : Move ι → Option (Shift ι)
  | .submit name item =>
    match item, s.worker.submit name item with
    | some item, .ok worker => some { s with worker, accepted := s.accepted ++ [(name, item)] }
    | _, _ => some s
  | .close => some { s with worker := s.worker.close }
  | .take =>
    s.worker.take?.map fun (item, worker) => { s with worker, started := s.started ++ [item] }
  | .comeBack outcome =>
    if s.worker.running.isSome && s.outcome.isNone then some { s with outcome := some outcome }
    else none
  | .report =>
    match s.worker.running, s.outcome with
    | some item, some outcome =>
      match failure? (item, outcome) with
      | some failure =>
        if listens && !s.told then
          some { s with told := true, reported := s.reported ++ [failure] }
        else none
      | none => none
    | _, _ => none
  | .finish =>
    match s.worker.running, s.outcome with
    | some item, some outcome =>
      -- A fault that the callback is to hear of is told first.
      if listens && outcome.fault?.isSome && !s.told then none
      else
        some { s with
          worker := s.worker.finish, outcome := none, told := false
          finished := s.finished ++ [(item, outcome)] }
    | _, _ => none
  | .exit => s.worker.exit?.map fun worker => { s with worker }

/-- A sequence of moves, where each can be made. -/
def run? (listens : Bool) (moves : List (Move ι)) (s : Shift ι) : Option (Shift ι) :=
  moves.foldlM (step? listens) s

/-- The running item with its outcome, once the callback was told of it. -/
def underway (s : Shift ι) : List ((Text × ι) × Outcome) :=
  match s.worker.running, s.outcome, s.told with
  | some item, some outcome, true => [(item, outcome)]
  | _, _, _ => []

/-- What holds of a worker and its past at every moment. -/
structure IsSound (listens : Bool) (s : Shift ι) : Prop where
  accepted : s.accepted = s.finished.map Prod.fst ++ s.worker.items
  started : s.started = s.finished.map Prod.fst ++ s.worker.running.toList
  reported : s.reported =
    if listens then (s.finished ++ s.underway).filterMap failure? else []
  /-- Nothing has come back, and nothing was told, while nothing runs. -/
  idle : s.worker.running = none → s.outcome = none
  /-- The callback is told of outcomes with a fault alone. -/
  told : s.told = true → ∃ item outcome failure, s.worker.running = some item ∧
    s.outcome = some outcome ∧ failure? (item, outcome) = some failure
  exited : s.worker.exited = true → s.worker.closed = true ∧ s.worker.items = []

variable {listens : Bool} {s t : Shift ι}

/-! ### What each move does -/

theorem of_submit {name : Text} {item : Option ι} (h : s.step? listens (.submit name item) = some t) :
    t = s ∨ ∃ item, s.worker.closed = false ∧
      t = { s with
        worker := { s.worker with queue := s.worker.queue ++ [(name, item)] }
        accepted := s.accepted ++ [(name, item)] } := by
  simp only [step?] at h
  split at h
  · rename_i item worker submitted
    simp only [Worker.submit] at submitted
    split at submitted
    · cases submitted
    · rename_i opened
      exact .inr ⟨item, by simpa using opened, by rw [← Option.some.inj h, ← Except.ok.inj submitted]⟩
  · exact .inl (Option.some.inj h).symm

theorem of_take (h : s.step? listens .take = some t) :
    ∃ item queue, s.worker.running = none ∧ s.worker.queue = item :: queue ∧
      t = { s with
        worker := { s.worker with queue, running := some item }
        started := s.started ++ [item] } := by
  simp only [step?, Option.map_eq_some_iff, Worker.take?] at h
  obtain ⟨⟨item, worker⟩, taken, rfl⟩ := h
  split at taken
  · rename_i first queue idle waiting
    obtain ⟨rfl, rfl⟩ := Prod.mk.inj (Option.some.inj taken)
    exact ⟨first, queue, idle, waiting, rfl⟩
  · cases taken

theorem of_comeBack {outcome : Outcome} (h : s.step? listens (.comeBack outcome) = some t) :
    ∃ item, s.worker.running = some item ∧ s.outcome = none ∧
      t = { s with outcome := some outcome } := by
  simp only [step?] at h
  split at h
  · rename_i back
    simp only [Bool.and_eq_true, Option.isSome_iff_exists, Option.isNone_iff_eq_none] at back
    obtain ⟨⟨item, running⟩, out⟩ := back
    exact ⟨item, running, out, (Option.some.inj h).symm⟩
  · cases h

theorem of_report (h : s.step? listens .report = some t) :
    ∃ item outcome failure, s.worker.running = some item ∧ s.outcome = some outcome ∧
      failure? (item, outcome) = some failure ∧ listens = true ∧ s.told = false ∧
      t = { s with told := true, reported := s.reported ++ [failure] } := by
  simp only [step?] at h
  split at h
  · rename_i item outcome running came
    split at h
    · rename_i failure failed
      split at h
      · rename_i due
        obtain ⟨heard, untold⟩ : listens = true ∧ s.told = false := by simpa using due
        exact ⟨item, outcome, failure, running, came, failed, heard, untold,
          (Option.some.inj h).symm⟩
      · cases h
    · cases h
  · cases h

theorem of_finish (h : s.step? listens .finish = some t) :
    ∃ item outcome, s.worker.running = some item ∧ s.outcome = some outcome ∧
      (listens = true → s.told = false → outcome.fault? = none) ∧
      t = { s with
        worker := s.worker.finish, outcome := none, told := false
        finished := s.finished ++ [(item, outcome)] } := by
  simp only [step?] at h
  split at h
  · rename_i item outcome running came
    split at h
    · cases h
    · rename_i due
      refine ⟨item, outcome, running, came, fun heard untold => ?_, (Option.some.inj h).symm⟩
      simpa [heard, untold] using due
  · cases h

theorem of_exit (h : s.step? listens .exit = some t) :
    s.worker.closed = true ∧ s.worker.items = [] ∧
      t = { s with worker := { s.worker with exited := true } } := by
  simp only [step?, Option.map_eq_some_iff, Worker.exit?] at h
  obtain ⟨worker, left, rfl⟩ := h
  split at left
  · rename_i finished
    obtain rfl := Option.some.inj left
    simp only [Bool.and_eq_true, Option.isNone_iff_eq_none, List.isEmpty_iff] at finished
    obtain ⟨⟨⟨closed, idle⟩, empty⟩, -⟩ := finished
    exact ⟨closed, by simp [Worker.items, idle, empty], rfl⟩
  · cases left

/-! ### What every move keeps -/

theorem isSound_start : ({} : Shift ι).IsSound listens where
  accepted := rfl
  started := rfl
  reported := by cases listens <;> rfl
  idle _ := rfl
  told h := absurd h Bool.false_ne_true
  exited h := absurd h Bool.false_ne_true

theorem underway_of_untold (h : s.told = false) : s.underway = [] := by
  simp [underway, h]

/-- Nothing was told while nothing has come back. -/
theorem IsSound.untold (sound : s.IsSound listens) (h : s.outcome = none) : s.told = false := by
  refine Bool.eq_false_iff.mpr fun told => ?_
  obtain ⟨_, _, _, -, came, -⟩ := sound.told told
  exact absurd (h.symm.trans came) nofun

theorem IsSound.submit {name : Text} {item : Option ι} (sound : s.IsSound listens)
    (h : s.step? listens (.submit name item) = some t) : t.IsSound listens := by
  obtain rfl | ⟨item, opened, rfl⟩ := of_submit h
  · exact sound
  · refine ⟨?_, sound.started, sound.reported, sound.idle, sound.told, fun exited => ?_⟩
    · simp [sound.accepted, Worker.items]
    · exact absurd (sound.exited exited).1 (by simp [opened])

theorem IsSound.take (sound : s.IsSound listens) (h : s.step? listens .take = some t) :
    t.IsSound listens := by
  obtain ⟨item, queue, idle, waiting, rfl⟩ := of_take h
  have untold := sound.untold (sound.idle idle)
  refine ⟨?_, ?_, ?_, nofun, ?_, fun exited => ?_⟩
  · simp [sound.accepted, Worker.items, idle, waiting]
  · simp [sound.started, idle]
  · simpa [underway, untold] using sound.reported
  · simp [untold]
  · exact absurd (sound.exited exited).2 (by simp [Worker.items, waiting])

theorem IsSound.comeBack {outcome : Outcome} (sound : s.IsSound listens)
    (h : s.step? listens (.comeBack outcome) = some t) : t.IsSound listens := by
  obtain ⟨item, running, out, rfl⟩ := of_comeBack h
  have untold := sound.untold out
  refine ⟨sound.accepted, sound.started, ?_, fun idle => ?_, ?_, sound.exited⟩
  · simpa [underway, untold] using sound.reported
  · exact absurd (running.symm.trans idle) nofun
  · simp [untold]

theorem IsSound.report (sound : s.IsSound listens) (h : s.step? listens .report = some t) :
    t.IsSound listens := by
  obtain ⟨item, outcome, failure, running, came, failed, rfl, untold, rfl⟩ := of_report h
  refine ⟨sound.accepted, sound.started, ?_, sound.idle, fun _ => ?_, sound.exited⟩
  · simp [sound.reported, underway, untold, running, came, failed]
  · exact ⟨item, outcome, failure, running, came, failed⟩

theorem IsSound.finish (sound : s.IsSound listens) (h : s.step? listens .finish = some t) :
    t.IsSound listens := by
  obtain ⟨item, outcome, running, came, quiet, rfl⟩ := of_finish h
  refine ⟨?_, ?_, ?_, fun _ => rfl, nofun, fun exited => ?_⟩
  · simp [sound.accepted, Worker.items, Worker.finish, running]
  · simp [sound.started, Worker.finish, running]
  · cases listens with
    | false => simpa using sound.reported
    | true =>
      rw [underway_of_untold rfl, List.append_nil, List.filterMap_append, sound.reported]
      -- The last item was told of, or it has no fault to tell of.
      cases told : s.told with
      | true => simp [underway, running, came, told]
      | false => simp [underway, told, failure?, quiet rfl told]
  · exact absurd (sound.exited exited).2 (by simp [Worker.items, running])

theorem IsSound.exit (sound : s.IsSound listens) (h : s.step? listens .exit = some t) :
    t.IsSound listens := by
  obtain ⟨closed, empty, rfl⟩ := of_exit h
  exact ⟨sound.accepted, sound.started, sound.reported, sound.idle, sound.told,
    fun _ => ⟨closed, empty⟩⟩

theorem IsSound.step {move : Move ι} (sound : s.IsSound listens)
    (h : s.step? listens move = some t) : t.IsSound listens := by
  cases move with
  | submit name item => exact sound.submit h
  | close =>
    obtain rfl := Option.some.inj h
    exact ⟨sound.accepted, sound.started, sound.reported, sound.idle, sound.told,
      fun exited => ⟨rfl, (sound.exited exited).2⟩⟩
  | take => exact sound.take h
  | comeBack outcome => exact sound.comeBack h
  | report => exact sound.report h
  | finish => exact sound.finish h
  | exit => exact sound.exit h

/-- A closed worker stays closed, and accepts nothing. -/
theorem closed_step {move : Move ι} (closed : s.worker.closed = true)
    (h : s.step? listens move = some t) :
    t.worker.closed = true ∧ t.accepted = s.accepted := by
  cases move with
  | submit name item =>
    obtain rfl | ⟨item, opened, -⟩ := of_submit h
    · exact ⟨closed, rfl⟩
    · exact absurd closed (by simp [opened])
  | close => exact Option.some.inj h ▸ ⟨rfl, rfl⟩
  | take =>
    obtain ⟨item, queue, -, -, rfl⟩ := of_take h
    exact ⟨closed, rfl⟩
  | comeBack outcome =>
    obtain ⟨item, -, -, rfl⟩ := of_comeBack h
    exact ⟨closed, rfl⟩
  | report =>
    obtain ⟨item, outcome, failure, -, -, -, -, -, rfl⟩ := of_report h
    exact ⟨closed, rfl⟩
  | finish =>
    obtain ⟨item, outcome, -, -, -, rfl⟩ := of_finish h
    exact ⟨closed, rfl⟩
  | exit =>
    obtain ⟨-, -, rfl⟩ := of_exit h
    exact ⟨closed, rfl⟩

/-! ### Whole runs -/

/-- What every move keeps is kept by every run. -/
theorem run?_induction {P : Shift ι → Prop} {moves : List (Move ι)}
    (step : ∀ s t move, P s → s.step? listens move = some t → P t) (start : P s)
    (ran : s.run? listens moves = some t) : P t := by
  induction moves generalizing s with
  | nil => exact Option.some.inj ran ▸ start
  | cons move moves ih =>
    simp only [run?, List.foldlM_cons, Option.bind_eq_bind, Option.bind_eq_some_iff] at ran
    obtain ⟨next, moved, rest⟩ := ran
    exact ih (step s next move start moved) rest

theorem run?_append (first second : List (Move ι)) :
    s.run? listens (first ++ second) = (s.run? listens first).bind (run? listens second) :=
  List.foldlM_append

theorem accepted_of_closed {moves : List (Move ι)} (closed : s.worker.closed = true)
    (ran : s.run? listens moves = some t) :
    t.worker.closed = true ∧ t.accepted = s.accepted := by
  refine run?_induction (P := fun t => t.worker.closed = true ∧ t.accepted = s.accepted)
    (fun a b move kept moved => ?_) ⟨closed, rfl⟩ ran
  obtain ⟨stays, same⟩ := closed_step kept.1 moved
  exact ⟨stays, same.trans kept.2⟩

/-- After a closing, nothing more is accepted. -/
theorem accepted_after_close {before after : List (Move ι)}
    (ran : s.run? listens (before ++ .close :: after) = some t) :
    t.worker.closed = true ∧ ∃ r, s.run? listens before = some r ∧ t.accepted = r.accepted := by
  rw [run?_append, Option.bind_eq_some_iff] at ran
  obtain ⟨r, ran, rest⟩ := ran
  have rest : run? listens after { r with worker := r.worker.close } = some t := rest
  obtain ⟨closed, same⟩ := accepted_of_closed rfl rest
  exact ⟨closed, r, ran, same⟩

/-- The loop is never stuck: it has ended, or waits for work, or can make a move. -/
theorem goes_on (listens : Bool) (s : Shift ι) :
    s.worker.exited = true ∨ (s.worker.closed = false ∧ s.worker.items = []) ∨
      ∃ move, move.isOfLoop = true ∧ (s.step? listens move).isSome = true := by
  cases running : s.worker.running with
  | none =>
    cases waiting : s.worker.queue with
    | cons item queue =>
      exact .inr (.inr ⟨.take, rfl, by simp [step?, Worker.take?, running, waiting]⟩)
    | nil =>
      cases exited : s.worker.exited with
      | true => exact .inl rfl
      | false =>
        cases closed : s.worker.closed with
        | false => exact .inr (.inl ⟨rfl, by simp [Worker.items, running, waiting]⟩)
        | true =>
          exact .inr (.inr ⟨.exit, rfl,
            by simp [step?, Worker.exit?, running, waiting, exited, closed]⟩)
  | some item =>
    refine .inr (.inr ?_)
    cases came : s.outcome with
    | none => exact ⟨.comeBack .success, rfl, by simp [step?, running, came]⟩
    | some outcome =>
      by_cases due : (listens && outcome.fault?.isSome && !s.told) = true
      · obtain ⟨⟨heard, faulty⟩, untold⟩ : (listens = true ∧ outcome.fault?.isSome = true) ∧
            s.told = false := by simpa using due
        obtain ⟨fault, faulty⟩ := Option.isSome_iff_exists.1 faulty
        exact ⟨.report, rfl, by simp [step?, running, came, failure?, faulty, heard, untold]⟩
      · exact ⟨.finish, rfl, by simp only [step?, running, came, if_neg due, Option.isSome_some]⟩

end Shift

end InterpTree.Worker

/-! ### Errands

A desk that settles is its worker's loop at work: it makes moves of the loop alone, and notes the
faults of errands as the callback hears of them. -/

namespace InterpTree

open Worker (Shift)

/-- How an errand comes back, given whether its context has ended. -/
def Errand.outcome (ended : Bool) : Errand → Worker.Outcome
  | .look | .pass => .success
  | .askContext => if ended then .failure .contextEnded else .success
  | .fail text => .failure (.saying text)
  | .crash text => .panic text

/-- The fault that a note is about. -/
def ErrandNote.failure? : ErrandNote → Option (Text × Fault)
  | .failed name fault => some (name, fault)
  | _ => none

theorem ErrandDesk.failures_notesOf (ended : Bool) (name : Text) (errand : Errand) :
    (notesOf ended name errand).filterMap ErrandNote.failure? =
      (Worker.failure? ((name, errand), errand.outcome ended)).toList := by
  cases errand <;> cases ended <;> rfl

namespace Worker.Shift

variable {ι : Type} {s t r : Shift ι}

/-- The loop gets from one state to another by itself, with a callback. -/
def Works (s t : Shift ι) : Prop :=
  ∃ moves : List (Move ι), (∀ move ∈ moves, move.isOfLoop = true) ∧ s.run? true moves = some t

theorem Works.refl (s : Shift ι) : s.Works s := ⟨[], nofun, rfl⟩

theorem Works.move (move : Move ι) (loop : move.isOfLoop = true)
    (moved : s.step? true move = some t) (rest : t.Works r) : s.Works r := by
  obtain ⟨moves, all, ran⟩ := rest
  refine ⟨move :: moves, List.forall_mem_cons.2 ⟨loop, all⟩, ?_⟩
  simpa [run?, List.foldlM_cons, moved] using ran

/-- From the moment an item runs, the loop comes to be done with it. -/
theorem Works.item {item : Text × ι} (outcome : Outcome) (running : s.worker.running = some item)
    (out : s.outcome = none) (untold : s.told = false)
    (rest : Works { s with
      worker := s.worker.finish
      finished := s.finished ++ [(item, outcome)]
      reported := s.reported ++ (failure? (item, outcome)).toList } r) : s.Works r := by
  have back : s.step? true (.comeBack outcome) = some { s with outcome := some outcome } := by
    simp [step?, running, out]
  refine .move (.comeBack outcome) rfl back ?_
  cases fault : outcome.fault? with
  | none =>
    have quiet : failure? (item, outcome) = none := by simp [failure?, fault]
    refine .move .finish rfl (by simp [step?, running, fault]; rfl) ?_
    simpa [quiet, out, untold] using rest
  | some f =>
    have failed : failure? (item, outcome) = some (item.1, f) := by simp [failure?, fault]
    refine .move .report rfl (by simp [step?, running, failed, untold]; rfl) ?_
    refine .move .finish rfl (by simp [step?, running]; rfl) ?_
    simpa [failed, out, untold] using rest

end Worker.Shift

/-- Serving the items of its worker, a desk does what the loop does. -/
theorem ErrandDesk.works_serve (d : ErrandDesk) {items : List (Text × Errand)} {s : Shift Errand}
    (running : Option (Text × Errand)) (queue : List (Text × Errand))
    (same : s.worker = { d.worker with running, queue }) (all : running.toList ++ queue = items)
    (out : s.outcome = none) (untold : s.told = false) :
    ∃ t notes, s.Works t ∧ t.worker = (d.serve items).worker ∧
      (d.serve items).notes = d.notes ++ notes ∧
      t.reported = s.reported ++ notes.filterMap ErrandNote.failure? := by
  induction items generalizing d s running queue with
  | nil =>
    obtain ⟨idle, empty⟩ := List.append_eq_nil_iff.1 all
    obtain rfl : running = none := by simpa using idle
    obtain rfl := empty
    exact ⟨s, [], .refl s, by simp [serve, same], by simp [serve], by simp⟩
  | cons item rest ih =>
    -- The item runs already, or the loop takes it.
    suffices begun : ∀ s : Shift Errand,
        s.worker = { d.worker with running := some item, queue := rest } → s.outcome = none →
        s.told = false → ∃ t notes, s.Works t ∧ t.worker = (d.serve (item :: rest)).worker ∧
          (d.serve (item :: rest)).notes = d.notes ++ notes ∧
          t.reported = s.reported ++ notes.filterMap ErrandNote.failure? by
      cases running with
      | some first =>
        obtain ⟨rfl, rfl⟩ : first = item ∧ queue = rest := by simpa using all
        exact begun s same out untold
      | none =>
        obtain rfl : queue = item :: rest := by simpa using all
        obtain ⟨t, notes, works, after⟩ := begun { s with
          worker := { d.worker with running := some item, queue := rest }
          started := s.started ++ [item] } rfl out untold
        refine ⟨t, notes, .move .take rfl ?_ works, after⟩
        simp [Shift.step?, Worker.take?, same]
    intro s same out untold
    obtain ⟨name, errand⟩ := item
    simp only [serve]
    split
    · exact ⟨s, [], .refl s, by simp [same], by simp, by simp⟩
    · obtain ⟨t, notes, works, worker, noted, reported⟩ := ih
        (d := { d with notes := d.notes ++ notesOf d.worker.closed name errand })
        (s := { s with
          worker := s.worker.finish
          finished := s.finished ++ [((name, errand), errand.outcome d.worker.closed)]
          reported := s.reported ++
            (Worker.failure? ((name, errand), errand.outcome d.worker.closed)).toList })
        none rest (by simp [Worker.finish, same]) rfl out untold
      refine ⟨t, notesOf d.worker.closed name errand ++ notes,
        .item (errand.outcome d.worker.closed) (by simp [same]) out untold works, worker, ?_, ?_⟩
      · rw [noted, List.append_assoc]
      · rw [reported, List.filterMap_append, failures_notesOf, List.append_assoc]

/-- A desk settles by moves of the loop of its worker. -/
theorem ErrandDesk.works_settle (d : ErrandDesk) {s : Shift Errand} (same : s.worker = d.worker)
    (out : s.outcome = none) (untold : s.told = false) :
    ∃ t notes, s.Works t ∧ t.worker = d.settle.worker ∧ d.settle.notes = d.notes ++ notes ∧
      t.reported = s.reported ++ notes.filterMap ErrandNote.failure? :=
  d.works_serve d.worker.running d.worker.queue same rfl out untold

/-! ### Whole runs -/

namespace Worker.Shift

variable {ι : Type} {listens : Bool} {s : Shift ι}

/-- At every moment of every run of a worker, the items accepted are those finished, the running one
and those that wait, in this order; those started are the finished ones and the running one; the
callback has heard of every fault of a finished item, in order, and of that of the running item if
that was already told. Nothing is accepted after a closing. A loop that has ended leaves the worker
closed and every accepted item finished, and a loop that has work to do can go on. -/
theorem accepted_run_in_order {moves : List (Move ι)} (ran : run? listens moves {} = some s) :
    s.accepted = s.finished.map Prod.fst ++ s.worker.running.toList ++ s.worker.queue ∧
    s.started = s.finished.map Prod.fst ++ s.worker.running.toList ∧
    s.reported = (if listens then (s.finished ++ s.underway).filterMap failure? else []) ∧
    (∀ before after, moves = before ++ .close :: after →
      ∃ r, run? listens before {} = some r ∧ s.accepted = r.accepted) ∧
    (s.worker.exited = true →
      s.worker.closed = true ∧ s.accepted = s.finished.map Prod.fst) ∧
    (s.worker.exited = true ∨ (s.worker.closed = false ∧ s.worker.items = []) ∨
      ∃ move, move.isOfLoop = true ∧ (s.step? listens move).isSome = true) ∧
    (∀ (d : ErrandDesk) (r : Shift Errand), r.worker = d.worker → r.outcome = none →
      r.told = false → ∃ t notes, r.Works t ∧ t.worker = d.settle.worker ∧
        d.settle.notes = d.notes ++ notes ∧
        t.reported = r.reported ++ notes.filterMap ErrandNote.failure?) := by
  have sound : s.IsSound listens :=
    run?_induction (fun _ _ _ sound moved => IsSound.step sound moved) isSound_start ran
  refine ⟨?_, sound.started, sound.reported, ?_, fun exited => ?_, goes_on listens s,
    fun d _ => d.works_settle⟩
  · rw [sound.accepted, Worker.items, List.append_assoc]
  · rintro before after rfl
    exact (accepted_after_close ran).2
  · obtain ⟨closed, empty⟩ := sound.exited exited
    exact ⟨closed, by rw [sound.accepted, empty, List.append_nil]⟩

/-- The first item panics, and the worker is closed while it runs and another one waits. -/
def closing : List (Move Errand) :=
  [.submit "a" (some (.crash "kaboom")), .take, .submit "b" (some (.fail "plain")),
    .submit "c" none, .close, .comeBack (.panic "kaboom"), .submit "d" (some .look), .report,
    .finish, .take, .comeBack (.failure (.saying "plain")), .report, .finish, .exit]

theorem accepted_run_in_order_closing :
    let ended : Shift Errand :=
      { worker := { closed := true, exited := true }
        accepted := [("a", .crash "kaboom"), ("b", .fail "plain")]
        started := [("a", .crash "kaboom"), ("b", .fail "plain")]
        finished := [(("a", .crash "kaboom"), .panic "kaboom"),
          (("b", .fail "plain"), .failure (.saying "plain"))]
        reported := [("a", .saying "panic: kaboom"), ("b", .saying "plain")] }
    run? true closing {} = some ended ∧ ended.accepted = ended.finished.map Prod.fst ∧
      ended.reported = ended.finished.filterMap failure? := by
  intro ended
  have ran : run? true closing {} = some ended := by decide +kernel
  obtain ⟨-, -, reported, -, finished, -⟩ := accepted_run_in_order ran
  exact ⟨ran, (finished rfl).2, by simpa [underway, ended] using reported⟩

end Worker.Shift

end InterpTree
