import InterpTree.Proofs.Supervision

/-!
Who can lift the unwinding of a node. Scripts that run in a node, or anywhere else, cannot make it
lose an unwinding cancellation, unless one of a few calls is made, which `Request.lifts` lists; and each
of these calls does.
-/

namespace InterpTree

namespace Control

variable {s : NodeId} {e : Engine} {call : Call} {i : Invocation} {words : List Text} {w : World}

theorem dispatch_cancel (args : call.args = ("cancel" : Text) :: words) :
    dispatch e call = Act.perform (cancel (.of call "cancel") words) := by
  unfold dispatch
  rw [args]
  rfl

theorem dispatch_resetCancel (args : call.args = ("resetcancel" : Text) :: words) :
    dispatch e call = Act.perform (resetCancel (.of call "resetcancel") words) := by
  unfold dispatch
  rw [args]
  rfl

theorem dispatch_service (args : call.args = ("service" : Text) :: words) :
    dispatch e call = service e (.of call "service") words := by
  unfold dispatch
  rw [args]
  rfl

/-- Node `s` is not being unwound, or a worker of it is to see to that. -/
def IsLifted (s : NodeId) (w : World) : Prop :=
  ∀ n, w.node? s = some n → n.IsPatient → ¬ n.cancel.IsUnwinding

/-- A cancellation that does not unwind, posted where it is not refused. -/
theorem ends_cancel (lifts : weakens s i words w = true) :
    Ends (cancel i words) w fun _ v => IsLifted s v := by
  unfold weakens at lifts
  split at lifts
  · rename_i target force unwind message u asked
    obtain rfl := Op.Reads.eq_of_ok reads_cancelWords asked
    simp only [Bool.and_eq_true, decide_eq_true_eq, Bool.not_eq_true', Option.any_eq_true,
      Bool.or_eq_true] at lifts
    obtain ⟨⟨rfl, rfl⟩, n, found, held, free⟩ := lifts
    have posts : (n.cancel.isPending && !force) = false := by
      rcases free with forced | met
      · simp [forced]
      · simp [met]
    refine Ends.bind_iff.mpr (.of_ok asked ?_)
    simp only [Ends.bind_iff, Ends.get_iff, Op.ends_lift, World.postCancel, found,
      Cancellation.cancel, posts, Bool.false_eq_true, if_false, Except.map, Ends.set_iff,
      Ends.pure_iff]
    intro m foundM _ unwinding
    rw [World.node?_logNode, World.node?_modifyNode_same _ found] at foundM
    obtain rfl := Option.some.inj foundM
    exact absurd unwinding.2 Bool.false_ne_true
  · cases lifts

/-- A forced reset. -/
theorem ends_resetCancel (lifts : clears s i words w = true) :
    Ends (resetCancel i words) w fun _ v => IsLifted s v := by
  unfold clears at lifts
  split at lifts
  · rename_i target force u asked
    obtain rfl := Op.Reads.eq_of_ok reads_resetCancelWords asked
    simp only [Bool.and_eq_true, decide_eq_true_eq, Option.any_eq_true] at lifts
    obtain ⟨⟨⟨rfl, rfl⟩, may⟩, n, found, held⟩ := lifts
    refine Ends.bind_iff.mpr (.of_ok asked ?_)
    dsimp only
    rw [if_pos rfl]
    refine Ends.bind_iff.mpr (.of_ok (supervise_eq_ok_iff.mpr may) ?_)
    refine Ends.bind_iff.mpr (Op.ends_node.mpr ⟨fun m here => ?_, fun none => ?_⟩)
    · obtain rfl := Option.some.inj (found.symm.trans here)
      intro k foundK _ unwinding
      have cleared : (n.cancel.reset true).2 = n.cancel.clear := by
        simp [Cancellation.reset, held.1]
      rw [cleared, World.node?_modifyNode_same _ found] at foundK
      obtain rfl := Option.some.inj foundK
      exact unwinding.1 rfl
    · rw [found] at none
      cases none
  · cases lifts

theorem isLifted_leave {options : ServiceOptions} (clears : options.noCancel = true) :
    IsLifted s (options.leave s w) := by
  intro m found _ unwinding
  unfold ServiceOptions.leave at found
  rw [if_pos clears, World.node?_modifyNode, if_pos rfl] at found
  obtain ⟨n, -, rfl⟩ := Option.map_eq_some_iff.mp found
  unfold Cancellation.reset at unwinding
  split at unwinding
  · rename_i idle
    exact unwinding.1 idle
  · simp only [Bool.not_true, Bool.and_false, Bool.false_eq_true, if_false] at unwinding
    exact unwinding.1 rfl

/-- A service loop that the caller waits for and that clears. -/
theorem ends_serviceEvents {context : Option Context} {n : Node} {options : ServiceOptions}
    (found : w.node? s = some n) (alive : n.dead = false)
    (filled : (options.errorOnEmpty && n.queue.size = 0) = false)
    (clears : options.noCancel = true) :
    Ends (e.serviceEvents context s options) w fun r v =>
      (∀ pending, r ≠ .error (.overtaken pending)) → IsLifted s v := by
  refine Ends.bind_iff.mpr (Ends.get_iff.mpr ?_)
  simp only [found, alive, filled, Bool.false_eq_true, if_false]
  exact Regime.ends_ensuring (.of_forall fun _ _ => trivial)
    (fun pending _ _ ended => (ended _ rfl).elim) fun _ _ _ _ _ => isLifted_leave clears

/-- A service loop that is handed to a worker and that will clear. -/
theorem ends_dedicate {n : Node} {options : ServiceOptions} {action : Text}
    (may : i.maySupervise s w = true) (found : w.node? s = some n) (alive : n.dead = false)
    (clears : options.noCancel = true) (opened : n.worker.any Worker.closed = false) :
    Ends (do
      supervise i s action
      Op.serviceDedicated s options
      return [] : Op Text) w fun _ v => IsLifted s v := by
  have opened : (n.worker.getD {}).closed = false := by
    cases hired : n.worker with
    | none => rfl
    | some loop => simpa [hired] using opened
  refine Ends.bind_iff.mpr (.of_ok (supervise_eq_ok_iff.mpr may) ?_)
  simp only [Op.serviceDedicated, Ends.bind_iff, Op.ends_node, Op.ends_require]
  refine ⟨fun m here => ⟨fun _ => ?_, fun dead => ?_⟩, fun none => ?_⟩
  · obtain rfl := Option.some.inj (found.symm.trans here)
    simp only [Worker.submit, opened, Bool.false_eq_true, if_false, Op.ends_change]
    intro k foundK patient
    rw [World.node?_modifyNode_same _ found] at foundK
    obtain rfl := Option.some.inj foundK
    have plain := patient _ List.mem_cons_self ("service", _)
      (List.mem_append_right _ (List.mem_append_right _ List.mem_cons_self))
    rw [clears] at plain
    cases plain
  · obtain rfl := Option.some.inj (found.symm.trans here)
    simp [alive] at dead
  · rw [found] at none
    cases none

/-- A service loop, here or on a worker, that clears on its way out. -/
theorem ends_service (lifts : serves s i words w = true) :
    Ends (service e i words) w fun r v =>
      (∀ pending, r ≠ .error (.overtaken pending)) → IsLifted s v := by
  unfold serves at lifts
  split at lifts
  · rename_i target options apart u asked
    obtain rfl := Op.Reads.eq_of_ok reads_serviceWords asked
    simp only [Bool.and_eq_true, decide_eq_true_eq, Option.any_eq_true, Bool.not_eq_true'] at lifts
    obtain ⟨⟨rfl, clears⟩, n, found, alive, goes⟩ := lifts
    have answer : Act.attempt (serviceWords i words) u = .ok (.ok (target, options, apart)) u := by
      simp only [Act.attempt, asked]
    refine Ends.bind_iff.mpr (.of_ok answer ?_)
    cases apart with
    | true =>
      simp only [if_true, Bool.and_eq_true, Bool.not_eq_true'] at goes
      exact (Regime.ends_perform (ends_dedicate goes.1 found alive clears goes.2)).mono
        fun _ _ lifted _ => lifted
    | false =>
      simp only [Bool.false_eq_true, if_false, Bool.not_eq_true'] at goes
      refine Ends.bind_iff.mpr ((ends_serviceEvents found alive goes clears).mono ?_)
      intro r v lifted
      rcases r with stop | ⟨report, fault | ⟨⟩⟩
      · refine fun ended => lifted fun pending same => ?_
        cases same
        exact ended pending rfl
      · exact fun _ => lifted nofun
      · exact fun _ => lifted nofun
  · cases lifts

end Control

namespace World

variable {w : World} {s : NodeId} {n : Node}

/-- Evaluating in a node that no service loop on a worker is to clear, in a run that is given up
before anything lifts its unwinding. -/
theorem supervises_runUntil (numbered : w.IsNumbered) (found : w.node? s = some n)
    (patient : n.IsPatient) (pace : Pace) (fuel : Nat) (context : Option Context) (script : Text) :
    Ends (Engine.runUntil pace (Request.lifts s) fuel (.evaluate context s script)) w fun _ v =>
      Supervises s w v := by
  have refl : Supervises s w w := fun n found => ⟨n, found, .refl _⟩
  cases fuel with
  | zero => exact refl
  | succ fuel =>
    have law := Regime.lawful_supervision s
    have paces : (Regime.supervision s).Paces pace := fun _ _ inv => ⟨inv, law.refl inv⟩
    have twins : (Regime.supervision s).Twins ⟨fuel, Engine.runUntil pace (Request.lifts s) fuel, pace⟩
        ⟨fuel, Engine.runUntil pace (Request.lifts s) fuel, pace⟩ :=
      ⟨rfl, fun r v meets => law.runUntil _ _ paces (fun _ _ _ _ _ => .inl rfl) (fun _ _ _ _ kept => kept)
        (fun _ _ closed => closed.elim) (fun _ _ _ _ _ denier _ _ => denier.elim) fuel r v meets,
        fun _ _ _ _ denier _ _ => denier.elim, rfl, paces⟩
    have entered : (w.entered s).Watches s :=
      ⟨numbered.modifyNode fun _ _ => rfl, _, node?_modifyNode_same _ found, patient, Nat.succ_pos _⟩
    refine (law.tracks_runEvaluate twins context trivial script entered).ends.mono fun _ v ended => ?_
    refine (ended.imp (fun strayed => (supervises_entered s s w).trans strayed.2) ?_).elim id
    rintro (rfl | ⟨u, led, rfl⟩)
    · exact refl
    · exact Supervises.of_entered led.2

/-- What node `s` is being unwound by lasts until its evaluation ends, unless a request lifts it;
and every such request does lift it once it ends. A safe node that lifts its own unwinding does so by
posting another cancellation or by a service loop of its own. -/
theorem unwinding_lasts_unless_lifted (numbered : w.IsNumbered) (found : w.node? s = some n)
    (patient : n.IsPatient) :
    (∀ pace fuel context script,
      Engine.runUntil pace (Request.lifts s) fuel (.evaluate context s script) w =
          Engine.run pace fuel (.evaluate context s script) w →
        Ends (Engine.run pace fuel (.evaluate context s script)) w fun _ v =>
          ∃ n', v.node? s = some n' ∧
            (n.cancel.IsUnwinding ∨ n.cancel.unwinds < n'.cancel.unwinds →
              n'.cancel.IsUnwinding)) ∧
    (∀ pace fuel r v, r.lifts s v = true →
      Ends (Engine.run pace (fuel + 1) r) v fun o u =>
        (∀ pending, o ≠ .error (.overtaken pending)) → Control.IsLifted s u) ∧
    ∀ call v m, v.node? s = some m → m.trust.safe = true → call.node = s →
      Request.lifts s (.perform call .ensemble) v = true →
        (∃ words, call.args = ("cancel" : Text) :: words) ∨
        ∃ words options, call.args = ("service" : Text) :: words ∧
          Control.serviceWords (.of call "service") words v = .ok (s, options, false) v := by
  refine ⟨fun pace fuel context script whole => ?_, fun pace fuel r v lifts => ?_,
    fun call v m foundM safe here lifts => ?_⟩
  · have lasts := supervises_runUntil numbered found patient pace fuel context script
    unfold Ends at lasts ⊢
    rw [whole] at lasts
    split at lasts
    all_goals
      obtain ⟨n', found', kept⟩ := lasts n found
      exact ⟨n', found', kept.unwinding⟩
  · obtain ⟨call, name, words, rfl, args, lifts⟩ := Request.of_lifts lifts
    change Ends (Control.dispatch _ call) v _
    rcases lifts with ⟨rfl, weakens⟩ | ⟨rfl, clears⟩ | ⟨rfl, serves⟩
    · rw [Control.dispatch_cancel args]
      exact (Regime.ends_perform (Control.ends_cancel weakens)).mono fun _ _ lifted _ => lifted
    · rw [Control.dispatch_resetCancel args]
      exact (Regime.ends_perform (Control.ends_resetCancel clears)).mono fun _ _ lifted _ => lifted
    · rw [Control.dispatch_service args]
      exact Control.ends_service serves
  · have refused (name : Text) : (Control.Invocation.of call name).maySupervise s v = false := by
      simp [Control.Invocation.maySupervise, Control.Invocation.of, here, foundM, safe,
        isWithin_self]
    obtain ⟨_, name, words, same, args, lifts⟩ := Request.of_lifts lifts
    cases same
    rcases lifts with ⟨rfl, -⟩ | ⟨rfl, clears⟩ | ⟨rfl, serves⟩
    · exact .inl ⟨words, args⟩
    · unfold Control.clears at clears
      split at clears
      · simp [refused] at clears
      · cases clears
    · unfold Control.serves at serves
      split at serves
      · rename_i target options apart u asked
        obtain rfl := Op.Reads.eq_of_ok Control.reads_serviceWords asked
        cases apart with
        | true => simp [refused] at serves
        | false =>
          simp only [Bool.and_eq_true, decide_eq_true_eq] at serves
          obtain ⟨⟨rfl, -⟩, -⟩ := serves
          exact .inr ⟨words, options, args, asked⟩
      · cases serves

/-- A root with a safe child `s`, which can ask by way of an alias to have itself unwound. -/
def killable : World :=
  match (do
      let _ ← Op.create root [] "s" { safe := true }
      let _ ← Op.defineAlias root "s" "kill" [] "interp" ["cancel", "-unwind", "s"]
      return : Op Unit) ((plant {} {}).toOption.getD {}) with
  | .ok _ v => v
  | .error _ v => v

/-- The child is unwound by way of its parent. It cannot reset that by force, but a cancellation that
it posts by force takes the place of the one that unwinds it. -/
theorem unwinding_lasts_killable :
    killable.IsNumbered ∧
    (∃ n, killable.node? 2 = some n ∧ n.IsPatient ∧ n.trust.safe = true ∧ n.cancel.unwinds = 0) ∧
    (Ends (Engine.run .timely 20 (.evaluate none 2 "set x [kill][interp resetcancel -force {}]")) killable
      fun _ v => ∃ n', v.node? 2 = some n' ∧ n'.cancel.unwinds = 1 ∧ n'.cancel.IsUnwinding) ∧
    Ends (Engine.run .timely 20 (.evaluate none 2 "interp cancel -force {} [kill]")) killable
      fun _ v => ∃ n', v.node? 2 = some n' ∧ n'.cancel.unwinds = 1 ∧ ¬ n'.cancel.IsUnwinding := by
  have numbered : killable.IsNumbered := by decide +kernel
  have start : (killable.node? 2).any (fun n =>
      n.IsPatient ∧ n.trust.safe = true ∧ n.cancel.unwinds = 0) = true := by decide +kernel
  obtain ⟨n, found, holds⟩ := Option.any_eq_true _ _ |>.mp start
  obtain ⟨patient, safe, fresh⟩ := of_decide_eq_true holds
  refine ⟨numbered, ⟨n, found, patient, safe, fresh⟩, ?_, ?_⟩
  · have whole : Engine.runUntil .timely (Request.lifts 2) 20
        (.evaluate none 2 "set x [kill][interp resetcancel -force {}]") killable =
          Engine.run .timely 20 (.evaluate none 2 "set x [kill][interp resetcancel -force {}]") killable := by
      decide +kernel
    have posted : Ends (Engine.run .timely 20
        (.evaluate none 2 "set x [kill][interp resetcancel -force {}]")) killable fun _ v =>
          ((v.node? 2).any fun n => n.cancel.unwinds = 1) = true := by decide +kernel
    have lasts := (unwinding_lasts_unless_lifted numbered found patient).1 .timely 20 none _ whole
    refine (lasts.and posted).mono ?_
    rintro r v ⟨⟨n', found', kept⟩, once⟩
    have once : n'.cancel.unwinds = 1 := by simpa [found'] using once
    exact ⟨n', found', once, kept (.inr (by omega))⟩
  · have lost : Ends (Engine.run .timely 20 (.evaluate none 2 "interp cancel -force {} [kill]")) killable
        fun _ v => ((v.node? 2).any fun n =>
          n.cancel.unwinds = 1 ∧ ¬ n.cancel.IsUnwinding) = true := by decide +kernel
    refine lost.mono fun r v plain => ?_
    obtain ⟨n', found', gone⟩ := Option.any_eq_true _ _ |>.mp plain
    exact ⟨n', found', of_decide_eq_true gone⟩

end World

end InterpTree
