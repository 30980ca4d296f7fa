import InterpTree.Proofs.Conduct

/-!
The subcommands that change the work, the supervision or the limits of a node, and the list of all of
them: a subcommand runs scripts, or does what `Control.Does` lists.
-/

namespace InterpTree

namespace Control

variable {i : Invocation} {words : List Text} {w v : World}

/-- A change of the work or the supervision of a node below the caller. -/
theorem does_stir {target : NodeId} {path : Text} {f : Node → Node}
    (resolved : w.resolve? i.node path = some target)
    (h : ∀ n, w.node? target = some n → n.Stirs (f n)) :
    Does i words w (w.modifyNode target f) :=
  .stirs target path resolved (.modifyNode (World.composes_stirs target) fun n found =>
    World.at_same.mpr (h n found))

theorem does_queue : Ends (queue i words) w fun _ v => Does i words w v := by
  refine does_after (Op.reads_lift _) fun parsed _ => ?_
  split
  dsimp only
  split
  · refine does_after (Op.reads_resolve _ _) fun target resolved => ?_
    have resolved := resolve?_of_ok resolved
    have scheduled (due : Option Int) (script : Text) (priority : Int) :
        Ends (do
            let event ← modifyGet (World.enqueue target none due false script priority)
            return event.text : Op Text) w fun _ v => Does i words w v :=
      .stirs target _ resolved (World.changes_enqueue target none due false script priority w)
    have prioritized (due : Option Int) (script : Text) (x : Op Int) (h : Op.Reads x) :
        Ends (do
            let priority ← x
            let event ← modifyGet (World.enqueue target none due false script priority)
            return event.text : Op Text) w fun _ v => Does i words w v :=
      does_after h fun priority _ => scheduled due script priority
    split
    · refine does_after (Op.Reads.pure _) fun due _ => ?_
      split
      · exact prioritized _ _ _ (.pure _)
      · exact prioritized _ _ _ (Op.reads_lift _)
    · refine does_after (Op.reads_lift _) fun ms _ => does_after Op.reads_get fun u _ =>
        does_after (Op.Reads.pure _) fun due _ => ?_
      split
      · exact prioritized _ _ _ (.pure _)
      · exact prioritized _ _ _ (Op.reads_lift _)
  · exact .same

theorem does_dequeue (numbered : w.IsNumbered) :
    Ends (dequeue i words) w fun _ v => Does i words w v := by
  unfold dequeue
  split
  · refine does_after (Op.reads_resolve _ _) fun target resolved =>
      does_after (Op.reads_node _) fun n found => ?_
    have found := node?_of_ok found
    obtain rfl := numbered target n found
    split
    · exact .same
    · refine does_stir (resolve?_of_ok resolved) fun m here => .of_queue ?_
      obtain rfl : n = m := Option.some.inj (found.symm.trans here)
      exact Schedule.leads_withdraw _ _
  · exact .same

theorem does_backgroundError : Ends (backgroundError i words) w fun _ v => Does i words w v := by
  refine does_after (Op.reads_resolve _ _) fun target resolved => ?_
  have resolved := resolve?_of_ok resolved
  have told (x : Op Unit) (h : Ends x w fun _ v => Does i words w v) :
      Ends (do
        x
        return Script.formatList (← Op.node target).backgroundError : Op Text) w fun _ v =>
          Does i words w v :=
    .bind h (fun _ v did => ((Op.reads_node target).bind fun n => Op.Reads.pure _) v |>.mono
      fun _ _ same => same ▸ did) fun _ _ did => did
  split
  · split
    · exact .same
    · refine told _ ?_
      exact does_stir resolved fun _ _ => .of_rest rfl
  · exact told (pure ()) Does.same

theorem reads_supervise (target : NodeId) (action : Text) : Op.Reads (supervise i target action) :=
  (Op.reads_node _).bind fun _ => Op.reads_get.bind fun _ => Op.reads_require _ _

theorem does_watchdog : Ends (watchdog i words) w fun _ v => Does i words w v := by
  refine does_after (Op.reads_resolve _ _) fun target resolved => ?_
  have resolved := resolve?_of_ok resolved
  dsimp only
  split
  · refine does_after (reads_supervise _ _) fun _ _ => ?_
    exact .stirs target _ resolved (World.changes_startWatchdog target w)
  · split
    · refine does_after (reads_supervise _ _) fun _ _ => ?_
      exact .stirs target _ resolved (World.changes_stir_stopWatchdog target w)
    · refine does_of_reads ?_
      split
      · exact (Op.reads_node _).bind fun _ => .pure _
      · exact .throw _

theorem reads_cancelWords : Op.Reads (cancelWords i words) :=
  (Op.reads_lift _).bind fun _ => (Op.reads_require _ _).bind fun _ =>
    (Op.reads_resolve _ _).bind fun _ => .pure _

theorem resolved_of_cancelWords {asked : NodeId × Bool × Bool × Text}
    (h : cancelWords i words w = .ok asked v) : ∃ path, w.resolve? i.node path = some asked.1 := by
  have settled : Settles (cancelWords i words) w fun r _ =>
      ∀ asked, r = .ok asked → ∃ path, w.resolve? i.node path = some asked.1 :=
    .lift fun parsed _ => .require fun _ => .resolve fun target resolved => .of_ends fun _ same => by
      cases same
      exact ⟨_, resolved⟩
  exact settled.of_ok h asked rfl

theorem does_cancel (named : i.name = "cancel") :
    Ends (cancel i words) w fun _ v => Does i words w v := by
  refine does_after reads_cancelWords fun asked eq => ?_
  obtain ⟨path, resolved⟩ := resolved_of_cancelWords eq
  obtain ⟨target, force, unwind, message⟩ := asked
  refine does_after Op.reads_get fun u same => ?_
  obtain rfl : w = u := by cases same; rfl
  cases posted : w.postCancel target force unwind message with
  | error f => exact .same
  | ok v => exact .posts named target path force unwind message eq resolved posted

theorem reads_resetCancelWords : Op.Reads (resetCancelWords i words) :=
  (Op.reads_lift _).bind fun _ => (Op.reads_require _ _).bind fun _ =>
    (Op.reads_resolve _ _).bind fun _ => .pure _

theorem resolved_of_resetCancelWords {asked : NodeId × Bool}
    (h : resetCancelWords i words w = .ok asked v) :
    ∃ path, w.resolve? i.node path = some asked.1 := by
  have settled : Settles (resetCancelWords i words) w fun r _ =>
      ∀ asked, r = .ok asked → ∃ path, w.resolve? i.node path = some asked.1 :=
    .lift fun parsed _ => .require fun _ => .resolve fun target resolved => .of_ends fun _ same => by
      cases same
      exact ⟨_, resolved⟩
  exact settled.of_ok h asked rfl

/-- A cancellation is taken back in a node that the words name. -/
theorem does_clear {target : NodeId} {force : Bool} (named : i.name = "resetcancel")
    (eq : resetCancelWords i words w = .ok (target, force) w)
    (supervised : force = true → supervise i target "force a cancellation reset" w = .ok () w) :
    Ends (do
      let (done, c) := (← Op.node target).cancel.reset force
      Op.change (World.modifyNode target fun n => { n with cancel := c })
      return Text.ofBool done : Op Text) w fun _ v => Does i words w v := by
  obtain ⟨path, resolved⟩ := resolved_of_resetCancelWords eq
  refine does_after (Op.reads_node _) fun n found => ?_
  exact .resets named target path force n eq resolved (node?_of_ok found) supervised rfl

theorem does_resetCancel (named : i.name = "resetcancel") :
    Ends (resetCancel i words) w fun _ v => Does i words w v := by
  refine does_after reads_resetCancelWords fun asked eq => ?_
  obtain ⟨target, force⟩ := asked
  dsimp only
  split
  · refine does_after (reads_supervise _ _) fun _ supervised =>
      does_clear named eq fun _ => supervised
  · rename_i plain
    exact does_clear named eq fun force => absurd force plain

theorem does_trustQuery (get : Trust → Bool) :
    Ends (trustQuery get i words) w fun _ v => Does i words w v :=
  does_of_reads ((Op.reads_resolve _ _).bind fun _ => (Op.reads_node _).bind fun _ => .pure _)

theorem does_limit (field : Limits.Field) (numbered : w.IsNumbered) :
    Ends (limit field i words) w fun _ v => Does i words w v := by
  refine does_after (Op.reads_resolve _ _) fun id _ =>
    does_after (Op.reads_node _) fun target found => ?_
  have found := node?_of_ok found
  obtain rfl := numbered id target found
  split
  · refine does_after (Op.reads_node _) fun c asker => ?_
    have asker := node?_of_ok asker
    cases safe : c.trust.safe with
    | true => exact .same
    | false =>
      refine does_after (Op.reads_require _ _) fun _ _ => does_after (Op.reads_lift _) fun value _ =>
        does_after (Op.reads_lift _) fun c' changed => ?_
      refine .governs c asker safe ?_
      have composes := World.composes_isGoverned i.node
      have first : World.Each (fun _ => Node.IsGoverned i.node) w
          (w.modifyNode target.id fun n => { n with cancel := c' }) := by
        refine .modifyNode composes _ fun m here => ?_
        obtain rfl : target = m := Option.some.inj (found.symm.trans here)
        exact .of_cancel (Cancellation.lasts_setLimit (ok_of_lift changed))
      exact first.trans composes (.of_nodes_eq composes (World.nodes_log _ _ _ _))
  · exact .same

theorem reads_serviceWords : Op.Reads (serviceWords i words) := by
  refine (Op.reads_lift _).bind fun parsed => ?_
  split
  refine (Op.reads_require _ _).bind fun _ => (Op.reads_resolve _ _).bind fun target => ?_
  dsimp only
  split
  · refine (Op.Reads.pure _).bind fun limit => ?_
    split
    · exact (Op.Reads.pure _).bind fun _ => .pure _
    · exact (Op.reads_lift _).bind fun _ => .pure _
  · refine (Op.reads_lift _).bind fun limit => ?_
    split
    · exact (Op.Reads.pure _).bind fun _ => .pure _
    · exact (Op.reads_lift _).bind fun _ => .pure _

theorem resolved_of_serviceWords {asked : NodeId × ServiceOptions × Bool}
    (h : serviceWords i words w = .ok asked v) : ∃ path, w.resolve? i.node path = some asked.1 := by
  have settled : Settles (serviceWords i words) w fun r _ =>
      ∀ asked, r = .ok asked → ∃ path, w.resolve? i.node path = some asked.1 := by
    refine .lift fun parsed _ => .require fun _ => .resolve fun target resolved => ?_
    have told {options : ServiceOptions} {apart : Bool} (asked : NodeId × ServiceOptions × Bool)
        (same : (.ok (target, options, apart) : Except Fault _) = .ok asked) :
        ∃ path, w.resolve? i.node path = some asked.1 := by
      cases same
      exact ⟨_, resolved⟩
    dsimp only
    split
    · refine .pure ?_
      split
      · exact .pure (.of_ends (told ·))
      · exact .lift fun _ _ => .of_ends (told ·)
    · refine .lift fun _ _ => ?_
      split
      · exact .pure (.of_ends (told ·))
      · exact .lift fun _ _ => .of_ends (told ·)
  exact settled.of_ok h asked rfl

/-- A service loop that is handed to a worker. -/
theorem does_dedicate (named : i.name = "service") {target : NodeId} {options : ServiceOptions}
    (asked : serviceWords i words w = .ok (target, options, true) w) :
    Ends (do
      supervise i target "start its own dedicated service loop"
      Op.serviceDedicated target options
      return [] : Op Text) w fun _ v => Does i words w v := by
  obtain ⟨path, resolved⟩ := resolved_of_serviceWords asked
  refine does_after (reads_supervise _ _) fun _ supervised => ?_
  unfold Op.serviceDedicated
  rw [bind_assoc]
  refine does_after (Op.reads_node _) fun n found => ?_
  have found := node?_of_ok found
  dsimp only
  rw [bind_assoc]
  refine does_after (Op.reads_require _ _) fun _ alive => ?_
  have alive : n.dead = false := by simpa using true_of_require alive
  cases submitted : (n.worker.getD {}).submit "service"
    (some { options := { options with wait := true, errorOnEmpty := false, background := true } }) with
  | error f => exact .same
  | ok worker =>
    exact .dedicates named target path options n worker asked resolved found alive supervised
      submitted rfl

/-- What a subcommand does that runs no scripts. -/
def Subcommand.IsPlain (s : Subcommand) : Prop :=
  ∃ f, (s.run = plain f ∨ s.run = releasing f) ∧ ∀ i words w, i.name = s.name → w.IsNumbered →
    Ends (f i words) w fun _ v => Does i words w v

/-- Every subcommand runs scripts, or is plain. -/
theorem Subcommand.runs_or_isPlain {s : Subcommand} (mem : s ∈ subcommands) :
    (s.name = "eval" ∧ s.run = eval) ∨ (s.name = "invokehidden" ∧ s.run = invokeHidden) ∨
      (s.name = "service" ∧ s.run = service) ∨ s.IsPlain := by
  have does {name usage : Text} {least : Nat} {most : Option Nat}
      {f : Invocation → List Text → Op Text} (h : ∀ i words w, i.name = name → w.IsNumbered →
        Ends (f i words) w fun _ v => Does i words w v) :
      IsPlain ⟨name, usage, least, most, plain f⟩ := ⟨f, .inl rfl, h⟩
  have reads {name usage : Text} {least : Nat} {most : Option Nat}
      {f : Invocation → List Text → Op Text} (h : ∀ i words, Op.Reads (f i words)) :
      IsPlain ⟨name, usage, least, most, plain f⟩ :=
    does fun i words w _ _ => does_of_reads (h i words)
  have lists {name usage : Text} {least : Nat} {most : Option Nat}
      {f : Invocation → Text → Op (List Text)} (h : ∀ i path, Op.Reads (f i path)) :
      IsPlain ⟨name, usage, least, most, listing f⟩ :=
    reads fun i words => (h i _).bind fun _ => .pure _
  have minds {name usage : Text} {least : Nat} {most : Option Nat}
      {f : Invocation → List Text → Op Text} (h : ∀ i words, Op.Minds i.node (f i words)) :
      IsPlain ⟨name, usage, least, most, plain f⟩ :=
    does fun i words w _ numbered => does_of_minds (h i words) numbered
  have limits {name usage : Text} {least : Nat} {most : Option Nat} (field : Limits.Field) :
      IsPlain ⟨name, usage, least, most, plain (limit field)⟩ :=
    does fun _ _ _ _ numbered => does_limit field numbered
  have asks {name usage : Text} {least : Nat} {most : Option Nat} (get : Trust → Bool) :
      IsPlain ⟨name, usage, least, most, plain (trustQuery get)⟩ :=
    does fun _ _ _ _ _ => does_trustQuery get
  revert s
  simp only [subcommands, List.forall_mem_cons, List.not_mem_nil, false_imp_iff, implies_true,
    and_true]
  refine ⟨?aliasing, ?aliases, ?bgerror, ?cancel, ?cancelstate, ?children, ?create, ?delete, ?dequeue,
    ?disposeshared, .inl trivial, ?present, ?expose, ?finallytimeout, ?hidden, ?hide, ?immutable,
    .inr (.inl trivial), ?issafe, ?isstandard, ?istrusted, ?makesafe, ?makestandard,
    ?marktrusted, ?nopolicy, ?objects, ?policies, ?policy, ?queue, ?queued, ?readonly, ?readylimit,
    ?recursionlimit, ?resetcancel, ?resultlimit, .inr (.inr (.inl trivial)), ?shareinterp,
    ?shareobject, ?slaves, ?sleeptime, ?target, ?timeout, ?watchdog⟩
  all_goals refine .inr (.inr (.inr ?_))
  case aliasing => exact does fun _ _ _ _ numbered => does_aliasWords numbered
  case aliases => exact lists fun _ _ => Op.reads_aliases
  case bgerror => exact does fun _ _ _ _ _ => does_backgroundError
  case cancel => exact does fun _ _ _ named _ => does_cancel named
  case cancelstate =>
    exact reads fun _ _ => (Op.reads_resolve _ _).bind fun _ => (Op.reads_node _).bind fun _ =>
      .pure _
  case children | slaves => exact lists fun _ _ => Op.reads_children
  case create => exact does fun _ _ _ _ numbered => does_create numbered
  case delete => exact ⟨_, .inr rfl, fun _ _ _ _ numbered => does_delete numbered⟩
  case dequeue => exact does fun _ _ _ _ numbered => does_dequeue numbered
  case disposeshared => exact ⟨_, .inr rfl, fun _ _ _ _ numbered => does_disposeShared numbered⟩
  case present => exact reads fun _ _ => Op.reads_get.bind fun _ => .pure _
  case expose => exact minds fun _ _ => Op.minds_expose.before fun _ => .pure _
  case finallytimeout | readylimit | recursionlimit | resultlimit | sleeptime | timeout =>
    exact limits _
  case hidden => exact lists fun _ _ => Op.reads_hidden
  case hide => exact minds fun _ _ => Op.minds_hide.before fun _ => .pure _
  case immutable =>
    refine does fun i words w named _ => does_toggle .immutable words ?_
    rintro path word on rfl meant
    exact trustWords_of_toggled (by rw [named]; rfl) meant
  case issafe | isstandard | istrusted => exact asks _
  case makesafe =>
    refine does fun i words w named _ => does_switchOn .safe ?_ fun path => ?_
    all_goals rw [named]; rfl
  case makestandard =>
    refine does fun i words w named _ => does_switchOn .standard ?_ fun path => ?_
    all_goals rw [named]; rfl
  case marktrusted =>
    refine does fun i words w named _ => does_trust .trusted (words.headD []) ?_
    unfold trustWords
    rw [named, if_pos rfl]
  case nopolicy => exact minds fun _ _ => Op.minds_removePolicy.before fun _ => .pure _
  case objects | queued =>
    exact lists fun _ _ => (Op.reads_resolve _ _).bind fun _ => (Op.reads_node _).bind fun _ =>
      .pure _
  case policies => exact lists fun _ _ => Op.reads_policies
  case policy => exact does fun _ _ _ _ numbered => does_policy numbered
  case queue => exact does fun _ _ _ _ _ => does_queue
  case readonly =>
    refine does fun i words w named _ => does_toggle .readOnly words ?_
    rintro path word on rfl meant
    exact trustWords_of_toggled (by rw [named]; rfl) meant
  case resetcancel => exact does fun _ _ _ named _ => does_resetCancel named
  case shareinterp => exact does fun _ _ _ _ numbered => does_shareInterp numbered
  case shareobject => exact minds fun _ _ => Op.minds_shareObject.before fun _ => .pure _
  case target => exact reads fun _ _ => Op.reads_aliasTarget
  case watchdog => exact does fun _ _ _ _ _ => does_watchdog

end Control

end InterpTree
