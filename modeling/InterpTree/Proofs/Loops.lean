import InterpTree.Proofs.Scripts

/-!
Service loops, workers and waiting keep to every lawful regime. While one call waits, the workers of
any node may go on; a regime knows which nodes have workers, and what these were asked to do.
-/

namespace InterpTree

theorem Node.stirs_takeNotice (n : Node) : n.Stirs n.takeNotice := by
  unfold takeNotice
  split
  · exact .refl n
  · exact .of_queue (.of_same rfl rfl rfl rfl)

namespace World

theorem mem_of_earliest {activities : List (Int × Activity)} {a : Int × Activity}
    (h : earliest activities = some a) : a ∈ activities := by
  induction activities generalizing a with
  | nil => cases h
  | cons first rest ih =>
    unfold earliest at h
    split at h
    · exact Option.some.inj h ▸ List.mem_cons_self
    · rename_i b later
      split at h
      · exact Option.some.inj h ▸ List.mem_cons_of_mem first (ih later)
      · exact Option.some.inj h ▸ List.mem_cons_self

/-- Where a watchdog looks next, one is running. -/
theorem running_of_nextActivity {w : World} (numbered : w.IsNumbered) {instant : Int} {id : NodeId}
    (next : w.nextActivity = some (instant, .look id)) :
    ∃ n, w.node? id = some n ∧ n.cancel.watchdog.isSome = true := by
  obtain ⟨n, mem, active⟩ := List.mem_flatMap.mp (mem_of_earliest next)
  have look : id = n.id ∧ n.cancel.watchdog.isSome = true := by
    rcases List.mem_append.mp active with watch | work
    · cases set : n.cancel.watchdog with
      | none => simp [set] at watch
      | some due => simp_all
    · simp at work
  obtain ⟨i, found⟩ := List.mem_iff_getElem?.mp mem
  have there : w.node? (i + 1) = some n := by simpa [node?_succ] using found
  rw [look.1, numbered _ n there]
  exact ⟨n, there, look.2⟩

end World

/-- Taking the next item leaves the items as they are. -/
theorem Worker.items_take? {ι : Type} {loop next : Worker ι} {item : Text × ι}
    (h : loop.take? = some (item, next)) : item ∈ loop.items ∧ next.items = loop.items := by
  unfold take? at h
  split at h
  · rename_i first queue idle waiting
    cases h
    simp [items, idle, waiting]
  · cases h

/-- A worker that takes an item is not closed, and has it to do last. -/
theorem Worker.of_submit {ι : Type} {loop next : Worker ι} {name : Text} {item : ι}
    (h : loop.submit name (some item) = .ok next) :
    loop.closed = false ∧ next.items = loop.items ++ [(name, item)] := by
  unfold submit at h
  dsimp only at h
  split at h
  · cases h
  · rename_i opened
    cases h
    exact ⟨by simpa using opened, by simp [items]⟩

theorem ServiceOptions.tidies_leave (options : ServiceOptions) (id : NodeId) (w : World) :
    w.Tidies (options.leave id w) := by
  unfold leave
  split
  · exact World.tidies_modifyNode (f := fun n => { n with cancel := (n.cancel.reset true).2 })
      (fun _ => rfl) w
  · exact .refl World.composes_tidies w

namespace Regime

variable {R : Regime} {e e' : Engine} {w v : World} {id : NodeId}

namespace Lawful

variable (law : R.Lawful) (twins : R.Twins e e')

include law

/-- Where both wait for a worker whose node was released, both may be given up. -/
theorem settled {α : Type} {x y : Act α} {pace : Pace} (h : R.Keeps x y w) :
    R.Keeps (pace.settled x) (pace.settled y) w := by
  cases pace with
  | patient => exact h
  | timely =>
    refine law.bind h fun a v => keeps_get fun _ => ?_
    split
    · exact law.exhausted
    · exact law.pure _

theorem leads_logUnhandled (inv : R.inv w) (id : NodeId) (work : Text) (f : Fault) :
    R.Leads w (w.logUnhandled id work f) :=
  law.rests inv (.logNode _ _ _ _ w)

/-- The notes of a service loop that ends. -/
theorem leads_logServiceEnd (inv : R.inv w) (id : NodeId) (report : ServiceReport) :
    R.Leads w (w.logServiceEnd id report) :=
  law.rests inv (.logNode _ _ _ _ w)

theorem leads_abandonJob (inv : R.inv w) (inside : R.zone id) (work : Text) {job : ServiceJob}
    (served : R.serves id job.options) : R.Leads w (w.abandonJob id work job) :=
  have left := law.leave inv inside served
  have noted := law.leads_trans left (law.leads_logServiceEnd left.1 id job.report)
  law.leads_trans noted (law.rests noted.1 (.logNode _ _ _ _ _))

theorem noteEvent (options : ServiceOptions) :
    R.Keeps (Engine.noteEvent id options) (Engine.noteEvent id options) w := by
  refine keeps_get fun _ => ?_
  split
  · exact keeps_ofNode fun _ => keeps_modify fun inv =>
      law.rests inv ⟨rfl, rfl, rfl, .inl ⟨rfl, rfl⟩⟩
  · exact law.pure _

include twins

theorem reportBackground (context : Option Context) (inside : R.zone id) (work : Text)
    (f : Fault) :
    R.Keeps (e.reportBackground context id work f) (e'.reportBackground context id work f) w := by
  refine keeps_get fun _ => ?_
  split
  · exact law.pure _
  · split
    · exact keeps_modify fun inv => law.leads_logUnhandled inv id work f
    · split
      · exact keeps_modify fun inv => law.leads_logUnhandled inv id work f
      · refine law.bind (law.invoke twins context (.inl inside) _ _) fun result v => ?_
        split
        · exact law.log _ _ _ _
        · exact law.pure _

/-- The script of an event, and what becomes of its failure. -/
theorem serveEvent (context : Context) (inside : R.zone id) (options : ServiceOptions)
    (report : ServiceReport) (event : Event) :
    R.Keeps (e.serveEvent context id options report event)
      (e'.serveEvent context id options report event) w := by
  refine law.bind (twins.evaluate _ inside event.script) fun result v => ?_
  refine law.bind (law.noteEvent options) fun _ u => ?_
  split
  · exact law.pure _
  · split
    · exact law.bind (law.reportBackground twins _ inside _ _) fun _ u => law.pure _
    · exact law.bind (law.log _ _ _ _) fun _ u => law.pure _

theorem serviceTurn (context : Context) (inside : R.zone id) (options : ServiceOptions)
    (report : ServiceReport) :
    R.Keeps (e.serviceTurn context id options report) (e'.serviceTurn context id options report)
      w := by
  refine law.bind (keeps_modify fun inv => law.leads_pass inv) fun _ v => keeps_get fun _ => ?_
  split
  · exact law.pure _
  · rename_i n found
    split
    · exact law.pure _
    · split
      · exact law.pure _
      · split
        · exact law.pure _
        · split
          · exact law.pure _
          · split
            · exact law.pure _
            · rename_i event queue popped
              refine law.bind (keeps_modify fun inv => law.leads_stir inv (.inl inside)
                fun m here => ?_) fun _ u => law.serveEvent twins context inside options report _
              obtain rfl : n = m := Option.some.inj (found.symm.trans here)
              exact .of_queue (Schedule.leads_popDue popped)

/-- Turns of a service loop on a worker, which go on being those of the loop that was asked for. -/
theorem workTurns (inside : R.zone id) (options : ServiceOptions) (turns : Nat)
    (report : ServiceReport) :
    R.Gives (e.workTurns id options turns report) (e'.workTurns id options turns report) w
      fun progress _ => ∀ job, progress = .asleep job → job.options = options := by
  induction turns generalizing report w with
  | zero => exact law.gives_throw nofun
  | succ turns ih =>
    refine law.gives_bind (law.serviceTurn twins _ inside options report) fun result v _ _ => ?_
    split
    · exact ih _
    · refine law.gives_pure fun job same => ?_
      cases same
      rfl
    · exact law.gives_pure fun job same => nomatch same

theorem workJob (inside : R.zone id) (job : ServiceJob) :
    R.Gives (e.workJob id job) (e'.workJob id job) w
      fun progress _ => ∀ later, progress = .asleep later → later.options = job.options := by
  refine gives_get fun _ => ?_
  split
  · exact law.gives_pure fun later same => nomatch same
  · split
    · exact law.gives_pure fun later same => nomatch same
    · have turns (v : World) := law.workTurns twins (w := v) inside job.options e.turns job.report
      rw [twins.turns]
      split
      · exact law.gives_bind (keeps_modify fun inv =>
          law.leads_stir inv (.inl inside) fun n _ => Node.stirs_takeNotice n) fun _ v _ _ => turns v
      · exact turns w

theorem workFailed (inside : R.zone id) (work : Text) (f : Fault) :
    R.Keeps (e.workFailed id work f) (e'.workFailed id work f) w := by
  unfold Engine.workFailed
  split
  · exact keeps_modify fun inv => law.rests inv (.logNode _ _ _ _ w)
  · exact law.reportBackground twins _ inside work f

omit twins in
/-- A change of the worker of a node that gives it nothing else to do. -/
theorem leads_mapWorker {f : Worker ServiceJob → Worker ServiceJob} (inv : R.inv w)
    (inside : R.zone id) (busy : Bool)
    (h : ∀ loop, (∀ item ∈ loop.items, R.serves id item.2.options) →
      ∀ item ∈ (f loop).items, R.serves id item.2.options) :
    R.Leads w (w.modifyNode id fun n => { n.mapWorker f with busy }) := by
  refine law.works inv inside fun n found => ⟨rfl, ?_, fun loop mem => ?_⟩
  · simp [Node.mapWorker]
  · have served := fun loop mem => (law.staff inv found loop mem).2
    simp only [Node.mapWorker, List.mem_append, Option.mem_toList, Option.map_eq_some_iff] at mem
    rcases mem with ⟨old, mine, rfl⟩ | ⟨old, retiring, rfl⟩
    · exact h old (served old (by simp [mine]))
    · exact h old (served old (by simp [retiring]))

omit twins in
/-- What a released node leaves behind when its worker is joined. -/
theorem leads_join (inv : R.inv w) (inside : R.zone id) {n : Node} {loop : Worker ServiceJob}
    (found : w.node? id = some n) (retiring : n.retiring = some loop) :
    R.Leads w (((w.modifyNode id fun n => { n with retiring := none }).joinWorker id loop).drop
      id) := by
  refine law.retires inv inside found (by rw [retiring]; rfl) ?_ fun n' found' => ?_
  rotate_left
  · obtain ⟨m, -, dropped⟩ := (World.ebbs_drop id _).node_back found'
    exact (World.at_same.mp dropped).2
  have c := World.composes_released n id
  have parted : World.Changes (World.Released n id) w
      (w.modifyNode id fun n => { n with retiring := none }) :=
    World.released_modifyNode fun m here => by
      refine ⟨rfl, rfl, rfl, rfl, rfl, fun a => a, fun d => d, fun r => r, .refl _, .refl _, .refl _,
        .refl _, .refl _, .refl _, fun _ => ⟨fun patient loop mem => ?_, .refl _⟩, fun _ q => ⟨q.1, rfl⟩⟩
      exact patient loop (List.mem_append_left _ (by simpa using mem))
  refine (parted.trans c (World.changes_joinWorker (fun patient item mem => ?_) _)).trans c
    (World.changes_drop _ id _)
  exact patient loop (by simp [retiring]) item mem

omit twins in
theorem workDone (inside : R.zone id) : R.Keeps (Engine.workDone id) (Engine.workDone id) w := by
  refine law.bind (keeps_modify fun inv => law.leads_mapWorker inv inside false ?_) fun _ v => ?_
  · intro loop served item mem
    exact served item (List.mem_append_right _ (by simpa [Worker.items, Worker.finish] using mem))
  · refine keeps_get fun inv => ?_
    split
    · exact law.pure _
    · rename_i loop there
      obtain ⟨n, found, retiring⟩ := Option.bind_eq_some_iff.mp there
      exact fun _ => .refl ⟨law.leads_join inv inside found retiring, fun _ _ => trivial⟩

theorem runItem (inside : R.zone id) (work : Text) {job : ServiceJob}
    (served : R.serves id job.options) :
    R.Keeps (e.runItem id work job) (e'.runItem id work job) w := by
  refine law.bind (keeps_modify fun inv => law.leads_stir inv (.inl inside) fun _ _ => .of_rest rfl)
    fun _ v => ?_
  have left (v : World) : R.Keeps (modify (job.options.leave id)) (modify (job.options.leave id)) v :=
    keeps_modify fun inv => law.leave inv inside served
  refine law.gives_bind (law.workJob twins inside job).guarded fun result u _ ended => ?_
  split
  · rename_i later
    have options := ended _ rfl later rfl
    refine law.bind (keeps_modify fun inv => law.leads_mapWorker inv inside false ?_) fun _ v =>
      keeps_get fun _ => ?_
    · intro loop others item mem
      rcases List.mem_append.mp mem with running | waiting
      · obtain rfl : item = (work, later) := by simpa using running
        exact options ▸ served
      · exact others item (List.mem_append_right _ waiting)
    · split
      · exact law.bind (keeps_modify fun inv => law.leads_abandonJob inv inside work (options ▸ served))
          fun _ v => law.workDone inside
      · exact law.pure _
  · refine law.bind (left _) fun _ v => law.bind (keeps_modify fun inv =>
      law.leads_logServiceEnd inv id _) fun _ v => ?_
    split
    · exact law.workDone inside
    · exact law.bind (law.workFailed twins inside work _) fun _ v => law.workDone inside
  · exact law.bind (left _) fun _ v => law.bind (law.workFailed twins inside work _) fun _ v =>
      law.workDone inside

theorem work (id : NodeId) : R.Keeps (e.work id) (e'.work id) w := by
  refine keeps_get fun inv => ?_
  split
  · exact law.pure _
  · rename_i loop there
    obtain ⟨n, found, hired⟩ := Option.bind_eq_some_iff.mp there
    obtain ⟨inside, served⟩ := law.staff inv found loop (by simp [hired])
    split
    · rename_i name job running
      exact law.runItem twins inside name (served (name, job) (by simp [Worker.items, running]))
    · rename_i idle
      split
      · exact law.pure _
      · rename_i name job next taken
        obtain ⟨queued, items⟩ := Worker.items_take? taken
        refine law.bind (keeps_modify fun inv => law.works inv inside fun m here =>
            ⟨rfl, rfl, ?_⟩)
          fun _ v => law.runItem twins inside name (served (name, job) queued)
        obtain rfl : n = m := Option.some.inj (found.symm.trans here)
        intro other mem
        rcases List.mem_append.mp mem with mine | retiring
        · obtain rfl : other = next := by simpa using mine
          rw [items]
          exact served
        · exact (law.staff inv found other (List.mem_append_right _ retiring)).2

theorem happen (activity : Activity) (running : ∀ id, activity = .look id →
      ∃ n, w.node? id = some n ∧ n.cancel.watchdog.isSome = true) :
    R.Keeps (e.happen activity) (e'.happen activity) w := by
  cases activity with
  | look id =>
    obtain ⟨n, found, on⟩ := running id rfl
    exact keeps_modify fun inv => law.look inv found on
  | work id => exact law.work twins id

omit twins in
/-- Who is overtaken is a worker, which runs what the regime lets it run. -/
theorem inside_of_overtaken {activity : Activity} {pending : Nat} (inv : R.inv w)
    (strayed : e.happen activity w = .error (.overtaken pending) v) :
    R.zone activity.node ∧ ∃ n, w.node? activity.node = some n := by
  cases activity with
  | look id => cases strayed
  | work id =>
    cases hired : (w.node? id).bind Node.worker with
    | none =>
      have idle : Ends (e.work id) w fun r _ => r = .ok () := by
        unfold Engine.work
        simp [hired]
      obtain ⟨_, idle⟩ := Ends.exists_ok (P := fun _ => True) (idle.mono fun _ _ same => ⟨same, trivial⟩)
      cases idle.1.symm.trans strayed
    | some loop =>
      obtain ⟨n, found, hired⟩ := Option.bind_eq_some_iff.mp hired
      exact ⟨(law.staff inv found loop (by simp [hired])).1, n, found⟩

omit twins in
theorem leads_horizon (horizon : Option Int) (inv : R.inv w) :
    R.Leads w { w with horizon } := law.rests inv ⟨rfl, rfl, .refl _⟩

include twins

omit law in
/-- A worker that is to sleep while somebody who waits goes on. -/
theorem oversleep {next : Unit → Act Unit} {Q : Unit → World → Prop}
    (h : R.Gives (next ()) (next ()) w Q) :
    R.Gives (e.pace.oversleep >>= next) (e'.pace.oversleep >>= next) w Q := by
  rw [twins.pace]
  cases pace : e'.pace with
  | patient => exact h
  | timely => exact fun inv => .refl ⟨twins.paces pace w inv, nofun⟩

theorem sleepUntil (instant : Option Int) :
    R.Gives (e.sleepUntil instant) (e'.sleepUntil instant) w fun _ v => v.nodes = w.nodes := by
  refine gives_get fun _ => ?_
  have asleep : R.Gives (Engine.elapse instant) (Engine.elapse instant) w fun _ v =>
      v.nodes = w.nodes := by
    cases instant with
    | none => exact law.gives_throw nofun
    | some instant => exact fun inv => .refl ⟨law.leads_reach instant inv, fun _ _ => rfl⟩
  split
  · exact oversleep twins asleep
  · exact asleep

theorem happenBefore (deadline : Option Int) (activity : Activity)
    (running : ∀ id, activity = .look id →
      ∃ n, w.node? id = some n ∧ n.cancel.watchdog.isSome = true)
    (fresh : w.hasUnfinished = false) :
    R.Keeps (e.happenBefore deadline activity) (e'.happenBefore deadline activity) w := by
  intro inv
  have waited : R.Leads w (w.awaited deadline) := law.leads_horizon _ inv
  have back {v : World} (led : R.Leads (w.awaited deadline) v) :
      R.Leads w { v with horizon := w.horizon } :=
    law.leads_trans waited (law.leads_trans led (law.leads_horizon w.horizon led.1))
  obtain ⟨ends, same⟩ := law.happen (w := w.awaited deadline) twins activity running waited.1
  refine ⟨?_, same.imp (fun same => ?_) ?_⟩
  · unfold Ends at ends ⊢
    unfold Engine.happenBefore
    cases result : e'.happen activity (w.awaited deadline) with
    | ok a v =>
      rw [result] at ends
      exact ⟨back ends.1, fun _ _ => trivial⟩
    | error stop v =>
      rw [result] at ends
      cases stop with
      | overtaken pending =>
        obtain ⟨inside, n, found⟩ := law.inside_of_overtaken waited.1 result
        exact ⟨law.overtakes inv inside found fresh (law.strays_trans waited ends.1), fun _ _ => trivial⟩
      | crash message => exact ⟨back ends.1, nofun⟩
      | exhausted => exact ⟨back ends.1, nofun⟩
  · simp only [Engine.happenBefore, same]
  · rintro ⟨u, given, on⟩
    refine ⟨{ u with horizon := w.horizon }, by simp only [Engine.happenBefore, given], ?_⟩
    have tidy (v : World) : v.Tidies { v with horizon := w.horizon } :=
      .of_nodes_eq World.composes_tidies rfl
    unfold Ends at on ⊢
    unfold Engine.happenBefore
    cases result : e'.happen activity (w.awaited deadline) with
    | ok a v =>
      rw [result] at on
      exact law.onward_tidy (tidy u) (tidy v) on
    | error stop v =>
      rw [result] at on
      cases stop with
      | overtaken pending =>
        refine law.onward_tidy (tidy u) ((tidy v).trans World.composes_tidies ?_) on
        exact World.tidies_modifyNode
          (f := fun n => { n with unfinished := some pending }) (fun _ => rfl) _
      | crash message => exact law.onward_tidy (tidy u) (tidy v) on
      | exhausted => exact law.onward_tidy (tidy u) (tidy v) on

theorem waitTurns (deadline : Option Int) (roused : World → Bool) (turns : Nat) :
    R.Keeps (e.waitTurns deadline roused turns) (e'.waitTurns deadline roused turns) w := by
  induction turns generalizing w with
  | zero => exact law.exhausted
  | succ turns ih =>
    refine keeps_get fun inv => ?_
    split
    · exact law.pure _
    · split
      · exact fun inv => (law.sleepUntil twins deadline inv).mono fun _ _ done =>
          ⟨done.1, fun _ _ => trivial⟩
      · rename_i instant activity next
        have next := (Option.filter_eq_some_iff.mp next).1
        split
        · exact law.exhausted
        · rename_i fresh
          refine law.gives_bind (law.sleepUntil twins _) fun _ v _ same => ?_
          refine law.bind (law.happenBefore twins deadline _ (fun id look => ?_) ?_) fun _ u => ih
          · subst look
            rw [World.node?_congr same]
            exact World.running_of_nextActivity (law.numbered inv) next
          · unfold World.hasUnfinished at fresh ⊢
            rw [same]
            simpa using fresh

theorem wait (deadline : Option Int) (roused : World → Bool) :
    R.Keeps (e.wait deadline roused) (e'.wait deadline roused) w := by
  refine keeps_get fun _ => ?_
  split
  · exact law.exhausted
  · rw [twins.turns]
    exact law.waitTurns twins deadline roused _

theorem waitUntil (deadline : Int) (roused : World → Bool) :
    R.Keeps (e.waitUntil deadline roused) (e'.waitUntil deadline roused) w :=
  law.wait twins _ _

theorem serviceTurns (context : Context) (inside : R.zone id) (options : ServiceOptions)
    (turns : Nat) (report : ServiceReport) :
    R.Keeps (e.serviceTurns context id options turns report)
      (e'.serviceTurns context id options turns report) w := by
  induction turns generalizing report w with
  | zero => exact law.exhausted
  | succ turns ih =>
    refine law.bind (law.serviceTurn twins context inside options report) fun result v => ?_
    split
    · exact ih _
    · exact law.pure _
    · refine law.bind (law.waitUntil twins _ _) fun _ u => keeps_get fun _ => ?_
      split
      · exact law.bind (keeps_modify fun inv => law.leads_stir inv (.inl inside) fun n _ =>
          Node.stirs_takeNotice n) fun _ v => ih _
      · exact ih _

/-- Service that the caller waits for. -/
theorem serviceEvents (context : Option Context) (inside : R.zone id) (options : ServiceOptions)
    (served : ∀ n, w.node? id = some n → n.dead = false →
      (options.errorOnEmpty && n.queue.size = 0) = false → R.serves id options) :
    R.Keeps (e.serviceEvents context id options) (e'.serviceEvents context id options) w := by
  refine keeps_get fun _ => ?_
  split
  · exact law.pure _
  · rename_i n found
    split
    · exact law.pure _
    · split
      · exact law.pure _
      · rename_i alive filled
        have serves := served n found (by simpa using alive) (by simpa using filled)
        rw [twins.turns]
        exact law.ensuring (law.serviceTurns twins _ inside options _ _)
          (options.tidies_leave id) fun v inv => law.leave inv inside serves

end Lawful

end Regime

end InterpTree
