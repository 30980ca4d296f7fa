import InterpTree.Proofs.Tallies
import InterpTree.Proofs.Continuation

/-!
Service loops that do not wait. Such a loop takes the events that are ready off the schedule of its
node, the first one each time, and evaluates the script of each before it takes the next, whatever
the scripts do to the schedule, to the tree or to the loop itself. Main statement: no event is lost
or duplicated meanwhile, or served out of turn, and the report of the loop counts right.
-/

namespace InterpTree

/-- One event that a service loop served: the world in which the loop took it, what its script came
to, and the world when that was done. -/
structure Serving where
  start : World
  event : Event
  result : Completion
  finish : World

/-- Of the events on the schedule of the node `n`, which is node `id`, the loop took the first one
that was ready, and evaluated its script in that node. -/
structure Serving.Takes (e : Engine) (context : Context) (id : NodeId) (options : ServiceOptions)
    (s : Serving) (n : Node) : Prop where
  found : s.start.node? id = some n
  queued : s.event ∈ n.queue.events
  owned : s.event.owner = id
  ready : s.event.IsReady s.start.clock options.floor
  first : ∀ x ∈ n.queue.events, x.IsReady s.start.clock options.floor → x ≠ s.event →
    s.event.before x = true
  evaluated : e.evaluate (some context) id s.event.script
    (s.start.modifyNode id fun m => { m with queue := n.queue.served s.event }) =
      .ok s.result s.finish

/-- What the loop did about an event once its script was through: it took a note of it, and one that
runs in the background had its fault handled. -/
inductive Serving.Settles (e : Engine) (context : Context) (id : NodeId) (options : ServiceOptions)
    (s : Serving) : World → Prop
  | noted {u : World} (nodes : u.nodes = s.finish.nodes) (still : s.finish.Still u) :
      Settles e context id options s u
  | handled {v u : World} {f : Fault} (background : options.background = true)
      (nodes : v.nodes = s.finish.nodes) (still : s.finish.Still v)
      (failed : s.result.fault? = some f)
      (handled : e.reportBackground (some context) id ("event " ++ s.event.id.text) f v = .ok () u) :
      Settles e context id options s u

/-- Where an action that keeps to the regime comes to a value. -/
theorem Regime.Keeps.leads_of_ok {α : Type} {R : Regime} {x : Act α} {w v : World} {a : α}
    (h : R.Keeps x x w) (inv : R.inv w) (result : x w = .ok a v) : R.Leads w v := by
  have ends := (h inv).ends
  rw [Ends, result] at ends
  exact ends.1

namespace Engine

/-- From one world to another the loop does nothing but to serve some events, one after the other. A
moment passes before it looks for each. -/
inductive Serves (e : Engine) (context : Context) (id : NodeId) (options : ServiceOptions) :
    World → List Serving → World → Prop
  | stops (w : World) : Serves e context id options w [] w
  | finds (w : World) : Serves e context id options w [] w.pass
  | next {w u v : World} {s : Serving} {n : Node} {later : List Serving} (start : s.start = w.pass)
      (takes : s.Takes e context id options n) (settles : s.Settles e context id options u)
      (rest : Serves e context id options u later v) :
      Serves e context id options w (s :: later) v

end Engine

/-- No event is left on the schedule of node `id` that is ready. -/
def World.IsDrained (w : World) (id : NodeId) (floor : Int) : Prop :=
  ∀ n, w.node? id = some n → ∀ x ∈ n.queue.events, ¬ x.IsReady w.clock floor

/-- How the report of a loop and its outcome go with the events that it served since it had come to
the report `start`. A loop in the background stops at an error without giving it to the caller. -/
structure ServiceReport.Sums (id : NodeId) (options : ServiceOptions) (start : ServiceReport)
    (servings : List Serving) (report : ServiceReport) (outcome : Except Fault Unit) (v : World) :
    Prop where
  serviced : report.serviced = start.serviced + servings.length
  errors : report.errors = start.errors + servings.countP fun s => s.result.isError
  limited : 0 < options.limit → start.serviced ≤ options.limit → report.serviced ≤ options.limit
  drained : (options.background && options.stopOnError) = false → outcome = .ok () →
    report.canceled = false → (0 < options.limit → report.serviced < options.limit) →
    (v.live? id).isSome = true → v.IsDrained id options.floor

/-- A loop that serves nothing more. -/
theorem ServiceReport.Sums.idle {id : NodeId} {options : ServiceOptions} {report : ServiceReport}
    {canceled : Bool} {outcome : Except Fault Unit} {v : World}
    (drained : outcome = .ok () → canceled = false →
      (0 < options.limit → report.serviced < options.limit) → (v.live? id).isSome = true →
      v.IsDrained id options.floor) :
    ServiceReport.Sums id options report [] { report with canceled } outcome v :=
  ⟨rfl, rfl, fun _ within => within, fun _ => drained⟩

namespace Engine

variable {e : Engine} {context : Context} {id : NodeId} {options : ServiceOptions}
  {report : ServiceReport} {w u v : World}

/-! ### A turn -/

/-- What a computation that comes to a value came to. -/
theorem ends_self {α : Type} (x : Act α) (w : World) :
    Ends x w fun r v => ∀ a, r = .ok a → x w = .ok a v := by
  unfold Ends
  cases result : x w with
  | ok a v => exact fun b same => Except.ok.inj same ▸ rfl
  | error stop v => exact fun b same => nomatch same

theorem ends_noteEvent (id : NodeId) (options : ServiceOptions) (w : World) :
    Ends (noteEvent id options) w fun _ v => v.nodes = w.nodes ∧ w.Still v := by
  unfold noteEvent
  rw [Ends.bind_iff, Ends.get_iff]
  dsimp only
  split
  · exact ⟨rfl, rfl, rfl, rfl, rfl, .inl ⟨rfl, rfl⟩⟩
  · exact ⟨rfl, .refl w⟩

/-- What a turn in which an event was served comes to: the loop ends only with its fault. -/
structure Concludes (options : ServiceOptions) (report : ServiceReport) (result : Completion)
    (turn : Turn) (report' : ServiceReport) : Prop where
  serviced : report'.serviced = report.serviced + 1
  errors : report'.errors = report.errors + if result.isError then 1 else 0
  turn : turn = .again ∨ (∃ f, turn = .done (.error f)) ∨
    (options.background && options.stopOnError) = true ∧ turn = .done (.ok ())

theorem ends_serveEvent (context : Context) (id : NodeId) (options : ServiceOptions)
    (report : ServiceReport) (event : Event) (start w : World) :
    Ends (e.serveEvent context id options report event) w fun r v => ∀ turn report',
      r = .ok (turn, report') → ∃ result u,
        e.evaluate (some context) id event.script w = .ok result u ∧
          Serving.Settles e context id options ⟨start, event, result, u⟩ v ∧
          Concludes options report result turn report' := by
  unfold serveEvent
  refine .bind (ends_self _ w) (fun result u evaluated => ?_) fun _ _ _ _ _ same => nomatch same
  refine .bind (ends_noteEvent id options u) (fun _ v noted => ?_) fun _ _ _ _ _ same => nomatch same
  have faulty : result.fault?.isSome = result.isError := by
    unfold Completion.fault?
    split <;> simp_all
  obtain ⟨nodes, still⟩ := noted
  cases fault : result.fault? with
  | none =>
    have fine : result.isError = false := by rw [← faulty, fault]; rfl
    rintro turn report' ⟨⟩
    exact ⟨result, u, evaluated result rfl, .noted nodes still, rfl, by simp [fine], .inl rfl⟩
  | some f =>
    have failed : result.isError = true := by rw [← faulty, fault]; rfl
    dsimp only
    split
    · rename_i background
      refine .bind (ends_self _ v) (fun _ k handled => ?_) fun _ _ _ _ _ same => nomatch same
      rintro turn report' ⟨⟩
      refine ⟨result, u, evaluated result rfl,
        .handled background nodes still fault (handled () rfl), rfl, by simp [failed], ?_⟩
      split
      · rename_i stopping
        exact .inr (.inr ⟨by rw [background, stopping]; rfl, rfl⟩)
      · exact .inl rfl
    · rintro turn report' ⟨⟩
      refine ⟨result, u, evaluated result rfl, .noted ((World.nodes_logNode _ _ _ _ v).trans nodes)
        (still.trans (.logNode _ _ _ _ v)), rfl, by simp [failed], ?_⟩
      split
      · exact .inr (.inl ⟨f, rfl⟩)
      · exact .inl rfl

/-- A turn of a loop that does not wait: it finds nothing to serve and ends the loop, or it serves one
event. -/
theorem ends_serviceTurn (punctual : w.pass.IsPunctual) (unwaiting : options.wait = false) :
    Ends (e.serviceTurn context id options report) w fun r v => ∀ turn report',
      r = .ok (turn, report') →
        (v = w.pass ∧ ∃ outcome, turn = .done outcome ∧
          ServiceReport.Sums id options report [] report' outcome v) ∨
        ((0 < options.limit → report.serviced < options.limit) ∧
          ∃ (s : Serving) (n : Node), s.start = w.pass ∧ s.Takes e context id options n ∧
            s.Settles e context id options v ∧ Concludes options report s.result turn report') := by
  unfold serviceTurn
  rw [Ends.bind_iff, Ends.modify_iff, Ends.bind_iff, Ends.get_iff]
  dsimp only
  split
  · rename_i missing
    rintro _ _ ⟨⟩
    refine .inl ⟨rfl, _, rfl, .idle fun _ _ _ live => ?_⟩
    simp [World.live?, missing] at live
  · rename_i n found
    split
    · rename_i full
      rintro _ _ ⟨⟩
      refine .inl ⟨rfl, _, rfl, .idle fun _ _ room _ => ?_⟩
      simp only [Bool.and_eq_true, decide_eq_true_eq] at full
      have := room full.1
      omega
    · rename_i room
      split
      · rintro _ _ ⟨⟩
        exact .inl ⟨rfl, _, rfl, .idle fun fine => by cases fine⟩
      · split
        · rename_i ended
          rintro _ _ ⟨⟩
          -- The context of a node that is part of the tree goes on.
          refine .inl ⟨rfl, _, rfl, .idle fun _ _ _ live => ?_⟩
          simp only [World.live?, found, Option.filter_some, Option.isSome_ite, Node.isLive,
            Bool.and_eq_true] at live
          rw [(punctual.nodes id n found).goesOn live.1] at ended
          cases ended
        · split
          · rintro _ _ ⟨⟩
            exact .inl ⟨rfl, _, rfl, .idle fun _ uncanceled => by cases uncanceled⟩
          · have punctualN := punctual.nodes id n found
            split
            · rename_i none
              rintro _ _ same
              simp only [idleTurn, unwaiting, Bool.not_false, if_true] at same
              cases same
              refine .inl ⟨rfl, _, rfl, .idle fun _ _ _ _ m here => ?_⟩
              obtain rfl : n = m := Option.some.inj (found.symm.trans here)
              exact Schedule.of_popDue_none punctualN.ordered none
            · rename_i event queue popped
              obtain ⟨queued, ready, first, rfl⟩ := Schedule.of_popDue punctualN.ordered popped
              rw [Act.modifyNode, Ends.bind_iff, Ends.modify_iff]
              refine (ends_serveEvent context id options report event w.pass _).mono
                fun r v served turn report' same => ?_
              obtain ⟨result, u, evaluated, settles, concludes⟩ := served turn report' same
              refine .inr ⟨fun positive => ?_, ⟨w.pass, event, result, u⟩, n, rfl,
                ⟨found, queued, ?_, ready, first, evaluated⟩, settles, concludes⟩
              · simp only [Bool.and_eq_true, decide_eq_true_eq, not_and] at room
                have := room positive
                omega
              · rw [punctualN.ordered.owned event queued, punctualN.owner]
                exact punctual.heedful.numbered id n found

end Engine

namespace ServiceReport.Sums

variable {id : NodeId} {options : ServiceOptions} {start report report' : ServiceReport} {s : Serving}
  {later : List Serving} {outcome : Except Fault Unit} {turn : Turn} {v : World}

/-- An event was served, and more were after it. -/
theorem next (room : 0 < options.limit → start.serviced < options.limit)
    (concludes : Engine.Concludes options start s.result turn report)
    (rest : Sums id options report later report' outcome v) :
    Sums id options start (s :: later) report' outcome v where
  serviced := by
    rw [rest.serviced, concludes.serviced, List.length_cons]
    omega
  errors := by
    rw [rest.errors, concludes.errors, List.countP_cons]
    omega
  limited positive _ := rest.limited positive (by
    have := room positive
    have := concludes.serviced
    omega)
  drained := rest.drained

/-- An event was served, and it ended the loop. -/
theorem last (room : 0 < options.limit → start.serviced < options.limit)
    (concludes : Engine.Concludes options start s.result (.done outcome) report) :
    Sums id options start [s] report outcome v := by
  refine .next room concludes ⟨rfl, rfl, fun _ within => within, fun plain fine => ?_⟩
  subst fine
  obtain again | ⟨f, failed⟩ | ⟨background, -⟩ := concludes.turn
  · cases again
  · cases failed
  · rw [plain] at background
    cases background

end ServiceReport.Sums

namespace Engine

variable {e : Engine} {context : Context} {id : NodeId} {options : ServiceOptions}
  {w u v : World} {s : Serving} {n : Node} {servings : List Serving}

/-! ### The loop -/

section

variable (twins : Regime.tallying.Twins e e)

include twins

theorem leads_takes (punctual : s.start.IsPunctual) (takes : s.Takes e context id options n) :
    Regime.tallying.Leads s.start s.finish ∧
      ∃ n', s.finish.node? id = some n' ∧ n.queue.Yields n'.queue [s.event] := by
  have law := Regime.lawful_tallying
  have served : Regime.tallying.Leads s.start
      (s.start.modifyNode id fun m => { m with queue := n.queue.served s.event }) := by
    refine Regime.allows_tallying.modify punctual fun m found => ?_
    obtain rfl : n = m := Option.some.inj (takes.found.symm.trans found)
    exact ⟨.of_rest rfl rfl, Schedule.leads_served fun _ => takes.queued,
      fun goesOn => goesOn⟩
  have evaluated := (twins.evaluate (some context) trivial s.event.script).leads_of_ok served.1
    takes.evaluated
  obtain ⟨n', found', tallies⟩ := evaluated.2 id _ (World.node?_modifyNode_same _ takes.found)
  refine ⟨law.leads_trans served evaluated, n', found', ?_⟩
  exact (Schedule.yields_served takes.queued).trans tallies.queue.yields

theorem leads_settles (punctual : s.finish.IsPunctual)
    (settles : s.Settles e context id options u) : Regime.tallying.Leads s.finish u := by
  have law := Regime.lawful_tallying
  cases settles with
  | noted nodes still => exact Regime.allows_tallying.same punctual nodes
  | handled background nodes still failed handled =>
    have noted := Regime.allows_tallying.same punctual nodes
    exact law.leads_trans noted
      ((law.reportBackground twins (some context) trivial _ _).leads_of_ok noted.1 handled)

/-- What becomes of a tree while a loop serves some events on one of its nodes. -/
theorem leads_serves (serves : e.Serves context id options w servings v) (punctual : w.IsPunctual) :
    Regime.tallying.Leads w v ∧ ∀ n, w.node? id = some n →
      ∃ n', v.node? id = some n' ∧ n.queue.Yields n'.queue (servings.map Serving.event) := by
  have law := Regime.lawful_tallying
  have yields_of_leads {w v : World} (led : Regime.tallying.Leads w v) (n : Node)
      (found : w.node? id = some n) : ∃ n', v.node? id = some n' ∧ n.queue.Yields n'.queue [] := by
    obtain ⟨n', found', tallies⟩ := led.2 id n found
    exact ⟨n', found', tallies.queue.yields⟩
  induction serves with
  | stops w => exact ⟨law.leads_refl punctual, yields_of_leads (law.leads_refl punctual)⟩
  | finds w => exact ⟨law.leads_pass punctual, yields_of_leads (law.leads_pass punctual)⟩
  | @next w u v s m later start takes settles rest ih =>
    have passed := law.leads_pass punctual
    rw [← start] at passed
    obtain ⟨evaluated, m', foundM', yields⟩ := leads_takes twins passed.1 takes
    have settled := leads_settles twins evaluated.1 settles
    obtain ⟨ends, yields'⟩ := ih settled.1
    refine ⟨law.leads_trans (law.leads_trans passed (law.leads_trans evaluated settled)) ends,
      fun n found => ?_⟩
    obtain ⟨m₁, found₁, first⟩ := yields_of_leads passed n found
    obtain rfl : m = m₁ := Option.some.inj (takes.found.symm.trans found₁)
    obtain ⟨m₂, found₂, second⟩ := yields_of_leads settled m' foundM'
    obtain ⟨n', found', third⟩ := yields' m₂ found₂
    exact ⟨n', found', first.trans (yields.trans (second.trans third))⟩

theorem ends_serviceTurns (unwaiting : options.wait = false) (punctual : w.IsPunctual) (turns : Nat)
    (report : ServiceReport) :
    Ends (e.serviceTurns context id options turns report) w fun r v => ∀ report' outcome,
      r = .ok (report', outcome) → ∃ servings, e.Serves context id options w servings v ∧
        ServiceReport.Sums id options report servings report' outcome v := by
  have law := Regime.lawful_tallying
  induction turns generalizing w report with
  | zero => exact fun _ _ same => nomatch same
  | succ turns ih =>
    unfold serviceTurns
    have passed := law.leads_pass punctual
    refine .bind (ends_serviceTurn passed.1 unwaiting) (fun result u took => ?_)
      fun _ _ _ _ _ same => nomatch same
    obtain ⟨turn, report₁⟩ := result
    obtain ⟨rfl, outcome, rfl, sums⟩ | ⟨room, s, n, start, takes, settles, concludes⟩ :=
      took turn report₁ rfl
    · rintro _ _ ⟨⟩
      exact ⟨[], .finds w, sums⟩
    · have evaluated := leads_takes twins (start ▸ passed.1) takes
      have settled := leads_settles twins evaluated.1.1 settles
      have finished {outcome : Except Fault Unit} (done : turn = .done outcome) (report' outcome')
          (same : (Except.ok (report₁, outcome) : Except Stop _) = .ok (report', outcome')) :
          ∃ servings, e.Serves context id options w servings u ∧
            ServiceReport.Sums id options report servings report' outcome' u := by
        cases same
        exact ⟨[s], .next start takes settles (.stops u), .last room (done ▸ concludes)⟩
      obtain rfl | ⟨f, rfl⟩ | ⟨-, rfl⟩ := concludes.turn
      · refine (ih settled.1 report₁).mono fun r v served report' outcome same => ?_
        obtain ⟨servings, serves, sums⟩ := served report' outcome same
        exact ⟨s :: servings, .next start takes settles serves, .next room concludes sums⟩
      · exact finished rfl
      · exact finished rfl

end

end Engine

namespace World

variable {w v : World} {id : NodeId} {n : Node} {options : ServiceOptions}

/-- Tidying up after a loop concerns no schedule. -/
theorem node?_leave (options : ServiceOptions) (found : w.node? id = some n) :
    ∃ n', (options.leave id w).node? id = some n' ∧ n'.queue = n.queue := by
  obtain ⟨n', found', tidied⟩ := (options.tidies_leave id w).node id n found
  exact ⟨n', found', by rw [tidied]⟩

theorem isDrained_leave (sums : w.IsDrained id options.floor) :
    (options.leave id w).IsDrained id options.floor := by
  intro n' found'
  obtain ⟨n, found, -⟩ := (options.tidies_leave id w).node_back found'
  obtain ⟨m, foundM, queue⟩ := node?_leave options found
  obtain rfl : m = n' := Option.some.inj (foundM.symm.trans found')
  have clock : (options.leave id w).clock = w.clock := by
    unfold ServiceOptions.leave
    split
    · exact (Still.modifyNode id _ w).clock
    · rfl
  rw [queue, clock]
  exact sums n found

theorem live?_leave (alive : ((options.leave id w).live? id).isSome = true) :
    (w.live? id).isSome = true := by
  rw [Option.isSome_iff_ne_none] at alive ⊢
  exact fun gone => alive ((options.tidies_leave id w).live?_none gone)

end World

/-- What a loop that comes to an end has done and reports. -/
theorem Engine.ends_serviceEvents {e : Engine} {w : World} {id : NodeId} {options : ServiceOptions}
    (twins : Regime.tallying.Twins e e) (context : Option Context)
    (unwaiting : options.wait = false) (punctual : w.IsPunctual) (found : (w.node? id).isSome = true) :
    Ends (e.serviceEvents context id options) w fun r v => ∀ report outcome,
      r = .ok (report, outcome) → ∃ servings u,
        e.Serves (context.getD (.ofNode id)) id options w servings u ∧
        (v = u ∨ v = options.leave id u) ∧
        ServiceReport.Sums id options {} servings report outcome v := by
  obtain ⟨n, found⟩ := Option.isSome_iff_exists.1 found
  have refused (f : Fault) : ∀ report outcome,
      (Except.ok (({} : ServiceReport), (.error f : Except Fault Unit)) : Except Stop _) =
        .ok (report, outcome) → ∃ servings u,
      e.Serves (context.getD (.ofNode id)) id options w servings u ∧
        (w = u ∨ w = options.leave id u) ∧
        ServiceReport.Sums id options {} servings report outcome w := by
    rintro _ _ ⟨⟩
    exact ⟨[], w, .stops w, .inl rfl, .idle fun fine => by cases fine⟩
  unfold serviceEvents
  rw [Ends.bind_iff, Ends.get_iff]
  dsimp only
  rw [found]
  dsimp only
  split
  · exact refused _
  · split
    · exact refused _
    · refine Regime.ends_ensuring (ends_serviceTurns twins unwaiting punctual e.turns {})
        (fun _ _ _ => nofun) fun r v served _ report outcome same => ?_
      obtain ⟨servings, serves, sums⟩ := served report outcome same
      exact ⟨servings, v, serves, .inr rfl, sums.serviced, sums.errors, sums.limited,
        fun plain fine uncanceled room alive => World.isDrained_leave
          (sums.drained plain fine uncanceled room (World.live?_leave alive))⟩

namespace World

variable {w v : World} {id : NodeId} {n : Node} {options : ServiceOptions}

/-- Whatever is scheduled comes last in the queue and first in the log, under the next number. -/
theorem enqueue_logs (found : w.node? id = some n) (given : Option EventId) (due : Option Int)
    (outright : Bool) (script : Text) (priority : Int) :
    let (event, v) := w.enqueue id given due outright script priority
    ∃ n' e, v.node? id = some n' ∧ e.id = event ∧ e.script = script ∧ e.priority = priority ∧
      e.owner = n.queue.owner ∧ e.seq = n.queue.seq + 1 ∧
      n'.queue.events = n.queue.events ++ [e] ∧
      n'.queue.history = (.scheduled, e) :: n.queue.history := by
  unfold enqueue
  cases given with
  | some event => exact ⟨_, _, node?_modifyNode_same _ found, rfl, rfl, rfl, rfl, rfl, rfl, rfl⟩
  | none =>
    have found : w.drawId.2.node? id = some n := found
    exact ⟨_, _, node?_modifyNode_same _ found, rfl, rfl, rfl, rfl, rfl, rfl, rfl⟩

/-- No event is lost or duplicated or served out of turn while a loop that does not wait serves the
events of a node, whatever their scripts do: the schedule accounts for all of them, also where the
loop never comes to an end. A loop that ends served some of them itself, each one in its turn and
once, and its report counts them; and it left none that is ready, unless it says why. -/
theorem events_accounted (punctual : w.IsPunctual) (found : w.node? id = some n)
    (unwaiting : options.wait = false) (pace : Pace) (turns fuel : Nat) (context : Option Context) :
    Ends (Engine.serviceEvents ⟨turns, Engine.run pace fuel, pace⟩ context id options) w fun r v =>
      v.IsPunctual ∧ ∃ n' news, v.node? id = some n' ∧ n.queue.Accounts n'.queue news ∧
        ∀ report outcome, r = .ok (report, outcome) → ∃ servings u,
          Engine.Serves ⟨turns, Engine.run pace fuel, pace⟩ (context.getD (.ofNode id)) id options w servings u ∧
          (v = u ∨ v = options.leave id u) ∧
          (servings.map Serving.event).Sublist (Schedule.ofFate .served news).reverse ∧
          ServiceReport.Sums id options {} servings report outcome v := by
  have twins := Regime.tallying_twins pace turns fuel
  have ordered := (punctual.nodes id n found).ordered
  have kept : Regime.tallying.Keeps (Engine.serviceEvents ⟨turns, Engine.run pace fuel, pace⟩ context id options)
      (Engine.serviceEvents ⟨turns, Engine.run pace fuel, pace⟩ context id options) w :=
    Regime.lawful_tallying.serviceEvents twins context trivial options fun _ _ _ _ => trivial
  have served := Engine.ends_serviceEvents twins context unwaiting punctual
    (Option.isSome_iff_exists.2 ⟨n, found⟩)
  refine ((kept punctual).ends.and served).mono fun r v ⟨⟨reached, _⟩, served⟩ => ?_
  have led : Regime.tallying.Leads w v := reached.elim fun strayed => strayed
  obtain ⟨n', found', tallies⟩ := led.2 id n found
  obtain ⟨-, news, accounts⟩ := tallies.queue.account ordered
  refine ⟨led.1, n', news, found', accounts, fun report outcome same => ?_⟩
  obtain ⟨servings, u, serves, left, sums⟩ := served report outcome same
  refine ⟨servings, u, serves, left, ?_, sums⟩
  -- There is one account, whether it is drawn up for the whole or event by event.
  obtain ⟨m, foundM, yields⟩ := (Engine.leads_serves twins serves punctual).2 n found
  obtain ⟨news', accounts', among⟩ := yields.among ordered
  have queue : m.queue = n'.queue := by
    obtain rfl | rfl := left
    · rw [Option.some.inj (foundM.symm.trans found')]
    · obtain ⟨k, foundK, same⟩ := node?_leave options foundM
      rw [← same, Option.some.inj (foundK.symm.trans found')]
  rwa [accounts.unique (queue ▸ accounts')]

/-- Schedules scripts that schedule, serve and withdraw others. -/
def bookings : Text :=
  "interp queue -priority low {} {set a 1}; after 0 {after 0 {set b 1}; interp service -limit 1 {}}; after 0 {nonsense}; after 0 {after cancel 00000000-0000-4000-8000-000000000005}; after 0 {set c 1}; after 9000 {set d 1}"

/-- A tree whose root has scheduled them. -/
def booked : World := sapling.after (Engine.run .timely 20 (.evaluate none root bookings))

theorem isPunctual_booked : booked.IsPunctual := by
  have kept : Regime.tallying.Keeps (Engine.run .timely 20 (.evaluate none root bookings))
      (Engine.run .timely 20 (.evaluate none root bookings)) sapling :=
    (Regime.tallying_twins .timely 20 20).evaluate none trivial bookings
  have led := (kept (isPunctual_plant plant_sapling)).ends.mono fun _ _ done => done.1.elim id
  exact led.after.1

/-- The loop serves the second script, which has the first served meanwhile, the third, which fails,
the fourth, which withdraws the fifth, and the one that the second schedules. What is due later
stays. -/
theorem events_accounted_booked :
    ∃ n, booked.IsPunctual ∧ booked.node? root = some n ∧ n.queue.events.length = 6 ∧
      (Ends (Engine.serviceEvents ⟨20, Engine.run .timely 20, .timely⟩ none root {}) booked fun r v =>
        v.IsPunctual ∧ ∃ n' news, v.node? root = some n' ∧ n.queue.Accounts n'.queue news ∧
          ∀ report outcome, r = .ok (report, outcome) → ∃ servings u,
            Engine.Serves ⟨20, Engine.run .timely 20, .timely⟩ (.ofNode root) root {} booked servings u ∧
            (v = u ∨ v = ServiceOptions.leave {} root u) ∧
            (servings.map Serving.event).Sublist (Schedule.ofFate .served news).reverse ∧
            ServiceReport.Sums root {} {} servings report outcome v) ∧
      Ends (Engine.serviceEvents ⟨20, Engine.run .timely 20, .timely⟩ none root {}) booked fun r v =>
        r.toOption.any (fun done => done.2 = .ok () ∧ done.1.serviced = 4 ∧ done.1.errors = 1) = true ∧
        (v.node? root).any (fun n' => n'.queue.events.map Event.seq = [6] ∧
          (Schedule.ofFate .served n'.queue.history).map Event.seq = [7, 4, 3, 1, 2] ∧
          (Schedule.ofFate .withdrawn n'.queue.history).map Event.seq = [5]) = true := by
  have scheduled : (booked.node? root).any (fun n => n.queue.events.length = 6) = true := by
    decide +kernel
  rw [Option.any_eq_true] at scheduled
  obtain ⟨n, found, six⟩ := scheduled
  exact ⟨n, isPunctual_booked, found, of_decide_eq_true six,
    events_accounted isPunctual_booked found rfl .timely 20 20 none, by decide +kernel⟩

end World

end InterpTree
