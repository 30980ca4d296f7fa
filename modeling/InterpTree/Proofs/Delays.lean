import InterpTree.Proofs.LimitCommands

/-!
Scripts that are scheduled with a delay, by `after` or by `interp queue -delay`. The delay is a number
of milliseconds, and its span is reckoned in words of 64 bits. Main statement: of the delays up to some
number a longer one is never due earlier, and none but zero is due at once, exactly if the span of that
number fits a word. The first number whose span does not is due centuries ago. A service loop serves
nothing before it is due, so a delay that fits is not served before the clock has advanced.
-/

namespace InterpTree

namespace Options

variable {specs : List OptionSpec} {words later rest : List Text} {options : Options}

/-- After an option the words are read in turn. -/
theorem parse_of_pushed {option : Text × Option Text}
    (parsed : (do
      let (more, rest) ← parse specs later
      return ((⟨option :: more.found⟩ : Options), rest)) = .ok (options, rest)) :
    ∃ more, parse specs later = .ok (more, rest) := by
  cases read : parse specs later with
  | error f =>
    rw [read] at parsed
    cases parsed
  | ok taken =>
    rw [read] at parsed
    cases parsed
    exact ⟨taken.1, rfl⟩

theorem rest_suffix (parsed : parse specs words = .ok (options, rest)) : rest <:+ words := by
  fun_induction parse specs words generalizing options rest with
  | case1 =>
    cases parsed
    exact List.suffix_refl []
  | case2 word later =>
    cases parsed
    exact List.suffix_cons word _
  | case3 word later =>
    cases parsed
    exact List.suffix_refl _
  | case4 => cases parsed
  | case5 => cases parsed
  | case6 word _ _ _ _ _ value later ih =>
    obtain ⟨more, read⟩ := parse_of_pushed parsed
    exact (ih read).trans ((List.suffix_cons value _).trans (List.suffix_cons word _))
  | case7 word later _ _ _ _ _ ih =>
    obtain ⟨more, read⟩ := parse_of_pushed parsed
    exact (ih read).trans (List.suffix_cons word _)

end Options

/-! ### Delays -/

namespace World

/-- The instant at which something is due that is scheduled now with a delay in milliseconds. -/
def dueIn (ms : Int) (w : World) : Int :=
  let instant := w.clock + spanOfMilliseconds ms
  if instant = noInstant then w.clock else instant

/-- The world in which a script is scheduled in a node. -/
def scheduled (id : NodeId) (due : Int) (script : Text) (priority : Int) (w : World) : World :=
  w.drawId.2.modifyNode id fun n =>
    { n with queue := n.queue.enqueue w.drawId.1 due false script priority }

variable {w : World} {ms most : Int}

theorem enqueue_delayed (id : NodeId) (ms : Int) (script : Text) (priority : Int) (w : World) :
    w.enqueue id none (some (w.clock + spanOfMilliseconds ms)) false script priority =
      (w.drawId.1, w.scheduled id (w.dueIn ms) script priority) := by
  unfold enqueue scheduled dueIn
  dsimp only
  by_cases never : w.clock + spanOfMilliseconds ms = noInstant
  · rw [if_pos never, Option.filter_some, if_neg (by simp [never])]
    rfl
  · rw [if_neg never, Option.filter_some, if_pos (by simp [never])]
    rfl

theorem modifyGet_of_eq {ε α : Type} {f : World → α × World} {a : α} {v : World} (h : f w = (a, v)) :
    (modifyGet f : EStateM ε World α) w = .ok a v :=
  congrArg (fun made : α × World => EStateM.Result.ok made.1 made.2) h

theorem dueIn_of_fits (past : noInstant < w.clock) (low : 0 ≤ ms) (fits : ms * millisecond ≤ maxWord) :
    w.dueIn ms = w.clock + ms * millisecond := by
  have forward : 0 ≤ ms * millisecond := Int.mul_nonneg low (by decide)
  rw [dueIn, span_of_fits low fits, if_neg (by omega)]

/-- The least number of milliseconds whose span does not fit a word. -/
def overlong : Int := maxWord / millisecond + 1

theorem overlong_le (long : ¬ most * millisecond ≤ maxWord) : overlong ≤ most := by
  unfold overlong millisecond at *
  omega

theorem dueIn_overlong (w : World) : w.dueIn overlong ≤ w.clock := by
  -- Its span is that of some 292 years, backwards.
  have back : spanOfMilliseconds overlong < 0 := by decide
  unfold dueIn
  dsimp only
  split <;> omega

theorem mul_millisecond_le {a b : Int} (le : a ≤ b) : a * millisecond ≤ b * millisecond :=
  Int.mul_le_mul_of_nonneg_right le (by decide)

/-- Of the delays up to a number that fits, and of no more, a longer one is never due earlier. -/
theorem dueIn_ordered_iff (past : noInstant < w.clock) :
    (∀ ms ms', 0 ≤ ms → ms ≤ ms' → ms' ≤ most →
      w.clock ≤ w.dueIn ms ∧ w.dueIn ms ≤ w.dueIn ms') ↔ most * millisecond ≤ maxWord := by
  constructor
  · intro ordered
    by_contra long
    -- A millisecond is shorter, and due later.
    have first : w.dueIn 1 = w.clock + 1 * millisecond := dueIn_of_fits past (by decide) (by decide)
    have order := (ordered 1 overlong (by decide) (by decide) (overlong_le long)).2
    have back := dueIn_overlong w
    unfold millisecond at first
    omega
  · intro fits ms ms' low longer within
    have forward := mul_millisecond_le low
    have order := mul_millisecond_le longer
    have bound := (mul_millisecond_le within).trans fits
    rw [dueIn_of_fits past low (order.trans bound), dueIn_of_fits past (low.trans longer) bound]
    omega

/-- Of the delays up to a number that fits, and of no more, none is due at once but zero. -/
theorem dueIn_ahead_iff (past : noInstant < w.clock) :
    (∀ ms, 0 < ms → ms ≤ most → w.clock < w.dueIn ms) ↔ most * millisecond ≤ maxWord := by
  constructor
  · intro ahead
    by_contra long
    have later := ahead overlong (by decide) (overlong_le long)
    have back := dueIn_overlong w
    omega
  · intro fits ms positive within
    have forward : 0 < ms * millisecond := Int.mul_pos positive (by decide)
    rw [dueIn_of_fits past positive.le ((mul_millisecond_le within).trans fits)]
    omega

end World

/-! ### The commands -/

section Commands

variable {e : Engine} {call : Call} {w : World} {word script path : Text} {words rest : List Text}
  {options : Options} {ms priority : Int} {target : NodeId}

theorem Call.after_delayed (args : call.args = word :: rest) (scripted : rest ≠ [])
    (read : Text.toInt? word = some ms) (low : 0 ≤ ms) :
    call.after e w =
      .ok (.ok w.drawId.1.text) (w.scheduled call.node (w.dueIn ms) (Text.words rest) 0) := by
  have named {s : Text} (other : Text.toInt? s = none) : (word == s) = false := by
    rw [beq_eq_false_iff_ne]
    rintro rfl
    rw [other] at read
    cases read
  have notInfo := named (s := Text.ofString "info") (by decide)
  have notCancel := named (s := Text.ofString "cancel") (by decide)
  have filled : rest.isEmpty = false := by simpa using scripted
  unfold Call.after
  rw [args]
  dsimp only
  simp only [notInfo, notCancel, Bool.false_eq_true, if_false, read, Option.filter_some, low,
    decide_true, if_true, filled]
  exact Act.bind_of_ok (World.modifyGet_of_eq (World.enqueue_delayed call.node ms (Text.words rest) 0 w))

namespace Control

theorem dispatch_queue (args : call.args = ("queue" : Text) :: words) (enough : 2 ≤ words.length) :
    dispatch e call = Act.perform (queue (.of call "queue") words) := by
  have found : (subcommands.find? fun s => s.name == ("queue" : Text)) =
      some ⟨"queue", queueUsage, 2, none, plain queue⟩ := rfl
  exact dispatch_of_find args found enough rfl

theorem queue_delayed {i : Invocation}
    (parsed : Options.parse [⟨"-delay", true⟩, ⟨"-priority", true⟩] words =
      .ok (options, [path, script]))
    (delayed : options.value? "-delay" = some word) (read : Text.toInt word = .ok ms)
    (rated : (options.value? "-priority").elim (.ok 0) Text.toPriority = .ok priority)
    (resolved : w.resolve? i.node path = some target) :
    queue i words w = .ok w.drawId.1.text (w.scheduled target (w.dueIn ms) script priority) := by
  have lifted {α : Type} (a : α) : Op.lift (.ok a) w = .ok a w := rfl
  unfold queue
  rw [parsed, Op.bind_of_ok (lifted _)]
  dsimp only
  rw [Op.bind_of_ok (Op.resolve_ok resolved), delayed]
  dsimp only
  rw [read, Op.bind_of_ok (lifted _)]
  refine (Op.bind_of_ok (x := get) (a := w) (v := w) rfl).trans ?_
  have scheduled : (do
      let event ← modifyGet
        (World.enqueue target none (some (w.clock + spanOfMilliseconds ms)) false script priority)
      return event.text : Op Text) w =
        .ok w.drawId.1.text (w.scheduled target (w.dueIn ms) script priority) := by
    exact Op.bind_of_ok (World.modifyGet_of_eq (World.enqueue_delayed target ms script priority w))
  cases given : options.value? "-priority" with
  | none =>
    rw [given] at rated
    cases rated
    exact scheduled
  | some word =>
    rw [given, Option.elim_some] at rated
    refine (Op.bind_of_ok (x := Op.lift word.toPriority) ?_).trans scheduled
    rw [rated]
    rfl

end Control

end Commands

/-! ### Service -/

namespace Schedule

variable {e : Event} {es : List Event} {q q' : Schedule} {now floor : Int}

/-- Only what is ready is taken, however the events came on the schedule. -/
theorem of_takeDue {fuel : Nat} (taken : takeDue now floor fuel es = some e) :
    e ∈ es ∧ e.IsReady now floor := by
  induction fuel generalizing es with
  | zero => cases taken
  | succ fuel ih =>
    unfold takeDue at taken
    split at taken
    · cases taken
    · rename_i first least
      split at taken
      · cases taken
      · rename_i come
        split at taken
        · obtain ⟨mem, ready⟩ := ih taken
          exact ⟨(mem_without.mp mem).1, ready⟩
        · rename_i high
          cases taken
          exact ⟨(of_least? least).1, Int.not_lt.mp come, Int.not_lt.mp high⟩

theorem isReady_of_popDue (popped : q.popDue now floor = some (e, q')) :
    e ∈ q.events ∧ e.IsReady now floor ∧ q' = q.served e := by
  obtain ⟨x, taken, same⟩ := Option.map_eq_some_iff.mp popped
  cases same
  obtain ⟨mem, ready⟩ := of_takeDue taken
  exact ⟨mem, ready, rfl⟩

end Schedule

namespace Engine

variable (e : Engine) (context : Context) (id : NodeId) (options : ServiceOptions)
  (report : ServiceReport) (w : World)

/-- A turn of a service loop in which only a moment passes. -/
def TurnIdles : Prop :=
  ∃ turn report', report'.serviced = report.serviced ∧
    e.serviceTurn context id options report w = .ok (turn, report') w.pass

/-- A turn of a service loop in which an event is taken off the schedule of its node and served. -/
def TurnServes (x : Event) : Prop :=
  ∃ n, w.pass.node? id = some n ∧ x ∈ n.queue.events ∧
    e.serviceTurn context id options report w = e.serveEvent context id options report x
      (w.pass.modifyNode id fun m => { m with queue := n.queue.served x })

/-- What is served is ready. -/
theorem serviceTurn_cases : e.TurnIdles context id options report w ∨
    ∃ x, e.TurnServes context id options report w x ∧ x.IsReady w.pass.clock options.floor := by
  unfold TurnIdles TurnServes serviceTurn
  rw [Act.bind_of_ok (x := modify World.pass) (a := ()) (v := w.pass) rfl,
    Act.bind_of_ok (x := get) (a := w.pass) (v := w.pass) rfl]
  have idle {turn : Turn} {report' : ServiceReport} (same : report'.serviced = report.serviced) :
      ∃ turn' report'', report''.serviced = report.serviced ∧
        (pure (turn, report') : Act (Turn × ServiceReport)) w.pass =
          .ok (turn', report'') w.pass := ⟨turn, report', same, rfl⟩
  cases found : w.pass.node? id with
  | none => exact .inl (idle rfl)
  | some n =>
    dsimp only
    split
    · exact .inl (idle rfl)
    · split
      · exact .inl (idle rfl)
      · split
        · exact .inl (idle rfl)
        · split
          · exact .inl (idle rfl)
          · cases popped : n.queue.popDue w.pass.clock options.floor with
            | none => exact .inl (idle rfl)
            | some taken =>
              obtain ⟨mem, ready, rest⟩ := Schedule.isReady_of_popDue popped
              exact .inr ⟨taken.1, ⟨n, rfl, mem, by rw [← rest]; rfl⟩, ready⟩

end Engine

namespace World

variable {w : World}

/-- Let the clock be past the first instant of all. With a delay that is accepted, `after` schedules
its script in the caller and `interp queue` in the node that is asked for, and nothing else happens. Of
the delays up to some number a longer one is never due earlier, and none but zero is due at once, if and
only if that number fits; the first that does not fit is due at once. Whatever becomes of the tree, no
turn of a service loop serves what was scheduled with a delay that fits before it has passed. -/
theorem delays_in_order_iff (past : noInstant < w.clock) :
    (∀ (e : Engine) (call : Call) word rest ms, call.args = word :: rest → rest ≠ [] →
      Text.toInt? word = some ms → 0 ≤ ms →
      call.after e w =
        .ok (.ok w.drawId.1.text) (w.scheduled call.node (w.dueIn ms) (Text.words rest) 0)) ∧
    (∀ (e : Engine) (call : Call) words (options : Options) path script word ms priority target,
      call.args = ("queue" : Text) :: words →
      Options.parse [⟨"-delay", true⟩, ⟨"-priority", true⟩] words = .ok (options, [path, script]) →
      options.value? "-delay" = some word → Text.toInt word = .ok ms →
      (options.value? "-priority").elim (.ok 0) Text.toPriority = .ok priority →
      w.resolve? call.node path = some target →
      Control.dispatch e call w =
        .ok (.ok w.drawId.1.text) (w.scheduled target (w.dueIn ms) script priority)) ∧
    (∀ most,
      ((∀ ms ms', 0 ≤ ms → ms ≤ ms' → ms' ≤ most →
        w.clock ≤ w.dueIn ms ∧ w.dueIn ms ≤ w.dueIn ms') ↔ most * millisecond ≤ maxWord) ∧
      ((∀ ms, 0 < ms → ms ≤ most → w.clock < w.dueIn ms) ↔ most * millisecond ≤ maxWord)) ∧
    w.dueIn overlong ≤ w.clock ∧
    ∀ (u : World) (e : Engine) context id options report,
      e.TurnIdles context id options report u ∨
      ∃ x, e.TurnServes context id options report u x ∧
        ∀ ms, 0 ≤ ms → ms * millisecond ≤ maxWord → x.due = w.dueIn ms →
          w.clock + ms * millisecond ≤ u.pass.clock := by
  refine ⟨?delayed, ?queued, fun most => ⟨dueIn_ordered_iff past, dueIn_ahead_iff past⟩,
    dueIn_overlong w, ?served⟩
  case delayed =>
    intro e call word rest ms args scripted read low
    exact Call.after_delayed args scripted read low
  case queued =>
    intro e call words options path script word ms priority target args parsed delayed read rated resolved
    rw [Control.dispatch_queue args (Options.rest_suffix parsed).length_le]
    exact Control.perform_ok (Control.queue_delayed parsed delayed read rated resolved)
  case served =>
    intro u e context id options report
    refine (e.serviceTurn_cases context id options report u).imp_right ?_
    rintro ⟨x, serves, ready⟩
    refine ⟨x, serves, fun ms low fits due => ?_⟩
    rw [← dueIn_of_fits past low fits, ← due]
    exact ready.1

/-- The root schedules a script with a delay, and then serves what is due. -/
def hasty (delay : Text) : World :=
  (sapling.after (Engine.run .timely 20 (.evaluate none root ("after " ++ delay ++ " {set x 1}")))).after
    (Engine.serviceEvents ⟨20, Engine.run .timely 20, .timely⟩ none root {})

/-- The longest delay that fits is kept. The next one is no delay. -/
theorem delays_in_order_iff_overlong :
    noInstant < sapling.clock ∧
    (∀ ms ms', 0 ≤ ms → ms ≤ ms' → ms' ≤ 9223372036854 →
      sapling.clock ≤ sapling.dueIn ms ∧ sapling.dueIn ms ≤ sapling.dueIn ms') ∧
    ¬ (∀ ms ms', 0 ≤ ms → ms ≤ ms' → ms' ≤ 9223372036855 →
      sapling.clock ≤ sapling.dueIn ms ∧ sapling.dueIn ms ≤ sapling.dueIn ms') ∧
    sapling.dueIn 9223372036855 ≤ sapling.clock ∧
    ((hasty "9223372036854").node? root).any (fun n => n.queue.events.length = 1) = true ∧
    ((hasty "9223372036855").node? root).any (fun n =>
      n.queue.events.isEmpty && n.vars.get? "x" == some ("1" : Text)) = true := by
  have past : noInstant < sapling.clock := by decide +kernel
  obtain ⟨-, -, orders, late, -⟩ := delays_in_order_iff past
  refine ⟨past, ?_, ?_, late, by decide +kernel, by decide +kernel⟩
  · exact (orders 9223372036854).1.mpr (by decide)
  · exact (orders 9223372036855).1.not.mpr (by decide)

end World

end InterpTree
