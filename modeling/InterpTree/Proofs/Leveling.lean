import InterpTree.Proofs.Keeping
import InterpTree.Proofs.Levels

/-!
Evaluations and calls leave no trace: when they end, in whatever way, the count of evaluations and the
frames of every node are what they were. This holds of every change between, and of an evaluation or a
call as a whole because what runs inside of it holds to it. A worker that is overtaken is an exception.
-/

namespace InterpTree

namespace Regime

variable {w v u : World} {id : NodeId}

/-- Runs in which every node stays at its level, but for evaluations and calls that are under way and
workers that are overtaken, and all within `ℓ`. Something else `P` may hold throughout, and requests
that break it be left out. -/
def leveling (pace : Pace) (ℓ : NodeId → Int) (P : World → Prop) (permits : Request → World → Prop) :
    Regime where
  inv w := w.IsNumbered ∧ w.Within ℓ ∧ P w
  rel := World.Relevels pace
  zone _ := True
  admits _ _ := True
  serves _ _ := True
  permits := permits
  strays w v := pace = .timely ∧ v.IsNumbered ∧ v.Within ℓ ∧ w.nodes.size ≤ v.nodes.size

theorem paces_leveling (pace : Pace) (ℓ : NodeId → Int) (P : World → Prop)
    (permits : Request → World → Prop) : (leveling pace ℓ P permits).Paces pace :=
  fun timely _ inv => ⟨timely, inv.1, inv.2.1, Nat.le_refl _⟩

section

variable {pace : Pace} {ℓ : NodeId → Int} {P : World → Prop} {permits : Request → World → Prop}
  (kept : ∀ {w v}, P w → World.Relevels pace w v → P v)

include kept

theorem allows_leveling :
    (leveling pace ℓ P permits).Allows fun _ n n' =>
      n'.id = n.id ∧ n'.level = n.level ∧ n'.unfinished = n.unfinished where
  composes := ⟨fun _ _ => ⟨rfl, rfl, rfl⟩, fun _ _ _ _ first second =>
    ⟨second.1.trans first.1, second.2.1.trans first.2.1, second.2.2.trans first.2.2⟩⟩
  leads inv each := by
    have levels : World.Levels _ _ := .of_each each fun _ _ _ same => same.2.1
    have relevels : World.Relevels pace _ _ := .of_levels levels fun _ =>
      World.isUnfinished_of_each each fun _ _ _ same => same.2.2
    exact ⟨⟨each.isNumbered (fun _ _ _ same => same.1) inv.1, inv.2.1.levels levels,
      kept inv.2.2 relevels⟩, relevels⟩

/-- What a subcommand does that runs no scripts. -/
theorem leveled_of_does {i : Control.Invocation} {words : List Text}
    (inv : (leveling pace ℓ P permits).inv w) (did : Control.Does i words w v) :
    (leveling pace ℓ P permits).Leads w v := by
  have allows := @allows_leveling pace ℓ P permits kept
  have grown {m : Node} (numbered : v.IsNumbered) (size : v.nodes.size = w.nodes.size + 1)
      (start : m.level = (0, []))
      (nodes : (∀ i n, w.node? i = some n → ∃ links, v.node? i = some { n with links }) ∧
        ∀ i n', v.node? i = some n' →
          n' = m ∨ ∃ n links, w.node? i = some n ∧ n' = { n with links }) :
      (leveling pace ℓ P permits).Leads w v := by
    have levels : w.Levels v := .of_new size start nodes
    have relevels : World.Relevels pace w v := .of_levels levels fun i ⟨n, found, overtaken⟩ =>
      have ⟨_, found'⟩ := nodes.1 i n found
      ⟨_, found', overtaken⟩
    exact ⟨⟨numbered, inv.2.1.levels levels, kept inv.2.2 relevels⟩, relevels⟩
  cases did with
  | rests rests => exact allows.same inv rests.nodes
  | stirs target path resolved changes =>
    exact allows.changed inv changes fun _ _ _ stirs =>
      ⟨by rw [stirs.same], stirs.level, by rw [stirs.same]⟩
  | grows options name path parent c p m asker resolved found grows child =>
    exact grown (grows.isNumbered child.id_eq inv.1) grows.size child.level grows.node_links
  | spoils options path parent c p n m asker resolved found gains isNew detached bare strips _ =>
    exact grown (gains.isNumbered (strips.id.trans isNew.id) inv.1) gains.size
      (strips.level.trans isNew.level) gains.node_links
  | wanes wanes departs =>
    exact allows.leads inv ((wanes _ (World.isClosed_all w) trivial).nodes.mono
      fun _ _ _ change => ⟨change.1.id, change.1.level, change.1.unfinished⟩)
  | governs c asker trusted changes =>
    exact allows.leads inv (changes.mono fun _ _ _ governed => ⟨governed.id, governed.level, governed.unfinished⟩)
  | trusts change path target n asked takes =>
    refine allows.leads inv (takes.amends.each allows.composes ?_)
    rw [TrustChange.same_amend n change]
    exact ⟨rfl, rfl, rfl⟩
  | posts named target path force unwind message asked resolved posted =>
    exact allows.posted inv posted fun n c _ canceled =>
      ⟨rfl, Prod.ext (Cancellation.depth_cancel canceled) rfl, rfl⟩
  | resets named target path force n asked resolved found supervised reset =>
    subst reset
    refine allows.modify inv fun m here => ⟨rfl, ?_, rfl⟩
    obtain rfl : n = m := Option.some.inj (found.symm.trans here)
    exact Prod.ext (Cancellation.depth_reset force n.cancel) rfl
  | dedicates named target path options n worker asked resolved found alive supervised submitted
      hired =>
    exact hired ▸ allows.modify inv fun _ _ => ⟨rfl, rfl, rfl⟩

theorem lawful_leveling
    (pushed : ∀ {w id n name flags}, w.Within ℓ → P w → w.node? id = some n →
      (FrameFlags.isAlias flags = true →
        ∃ call a, call.node = id ∧ permits (.perform call (.forward a)) w) →
      (w.framed id name flags n).Within ℓ ∧ P (w.framed id name flags n))
    (entered : ∀ {w context id script n}, w.Within ℓ → P w → w.node? id = some n →
      permits (.evaluate context id script) w →
      (w.modifyNode id fun n => { n with cancel := n.cancel.enter w.clock }).Within ℓ ∧
        P (w.modifyNode id fun n => { n with cancel := n.cancel.enter w.clock })) :
    (leveling pace ℓ P permits).Lawful where
  refl _ := .refl _
  trans h h' := h.trans h'
  numbered inv := inv.1
  resolve _ _ _ := .inl trivial
  visible _ _ _ _ := ⟨trivial, trivial⟩
  hidden _ _ _ _ _ _ _ := trivial
  forward _ _ _ := .inl trivial
  asks _ _ _ _ _ := .inr fun _ _ _ => .inl ⟨trivial, trivial⟩
  barred closed := closed.elim
  shields _ _ _ closed := closed.elim
  gone denier := denier.elim
  attends _ _ _ _ _ := id
  onward_trans on _ := on
  onward_tidy _ _ on := on
  onward_strays on _ := on
  strays_trans led strayed :=
    ⟨strayed.1, strayed.2.1, strayed.2.2.1, Nat.le_trans led.2.size strayed.2.2.2⟩
  strays_pushed _ _ _ strayed :=
    ⟨strayed.1, strayed.2.1, strayed.2.2.1, by simpa [World.framed] using strayed.2.2.2⟩
  strays_entered _ _ strayed :=
    ⟨strayed.1, strayed.2.1, strayed.2.2.1, by simpa using strayed.2.2.2⟩
  overtakes {w v id n pending} inv _ found fresh strayed := by
    obtain ⟨rfl, numbered, within, size⟩ := strayed
    have numbered : ({ v with horizon := w.horizon } : World).IsNumbered := numbered
    have within : ({ v with horizon := w.horizon } : World).Within ℓ := within
    have levels : World.Relevels .timely w
        (World.overtake id pending { v with horizon := w.horizon }) := .overtaken found fresh size
    refine ⟨⟨numbered.modifyNode fun _ _ => rfl, within.modifyNode fun _ _ => ?_,
      kept inv.2.2 levels⟩, levels⟩
    exact ⟨Nat.le_refl _, List.suffix_refl _⟩
  staff _ _ _ _ := ⟨trivial, fun _ _ => trivial⟩
  serve _ _ _ _ _ _ _ _ := trivial
  rests inv rests := (allows_leveling kept).same inv rests.nodes
  host _ inv _ := (allows_leveling kept).same inv rfl
  look inv _ _ := (allows_leveling kept).looked inv fun n =>
    ⟨rfl, Prod.ext (Cancellation.lasts_tick _ n.cancel).depth rfl, rfl⟩
  stirs inv _ changes := (allows_leveling kept).changed inv changes fun _ _ _ stirs =>
    ⟨by rw [stirs.same], stirs.level, by rw [stirs.same]⟩
  defines inv _ found _ defined := (allows_leveling kept).replace inv found (by
    rw [Node.same_of_define defined]
    exact ⟨rfl, rfl, rfl⟩)
  push inv _ found forwards :=
    ⟨inv.1.modifyNode fun _ _ => rfl, pushed inv.2.1 inv.2.2 found forwards⟩
  pop inv _ found led :=
    have levels := World.Relevels.unframed found led.2
    ⟨⟨led.1.1.modifyNode fun _ _ => rfl, led.1.2.1.unframed _ _ _, kept inv.2.2 levels⟩, levels⟩
  enter inv _ found permitted :=
    ⟨inv.1.modifyNode fun _ _ => rfl, entered inv.2.1 inv.2.2 found permitted⟩
  exit inv _ led :=
    have levels := World.Relevels.exited led.2
    ⟨⟨led.1.1.modifyNode fun _ _ => rfl, led.1.2.1.exited, kept inv.2.2 levels⟩, levels⟩
  leave inv _ _ := (allows_leveling kept).left inv fun _ n =>
    ⟨rfl, Prod.ext (Cancellation.depth_reset true n.cancel) rfl, rfl⟩
  works inv _ h := (allows_leveling kept).modify inv fun n found => by
    rw [(h n found).same]
    exact ⟨rfl, rfl, rfl⟩
  retires inv _ found _ changes bare := (allows_leveling kept).released inv found changes bare
    fun _ strips _ => ⟨strips.id, strips.level, strips.unfinished⟩
  does inv _ _ _ did := leveled_of_does kept inv did

end

/-- Runs in which every node stays at its level, with nothing left out. -/
abbrev restoring (pace : Pace) : Regime := leveling pace (fun _ => 0) (fun _ => True) fun _ _ => True

end Regime

namespace World

/-- Every node that was there is as deep in evaluations as it was and has the same frames. -/
def Restores (w v : World) : Prop := ∀ i n, w.node? i = some n → ∃ n', v.node? i = some n' ∧
  n'.cancel.depth = n.cancel.depth ∧ n'.frames.frames = n.frames.frames

open Engine (Hosting runHosted)

variable {w v : World} {pace : Pace}

theorem Levels.restores (h : w.Levels v) : w.Restores v := fun i n found => by
  obtain ⟨n', found', same⟩ := h.node found
  exact ⟨n', found', congrArg Prod.fst same, congrArg Prod.snd same⟩

/-- What comes to an end was not overtaken, and no worker was that had not been before. -/
def OvertakesNone {α : Type} (w : World) (r : Except Stop α) (v : World) : Prop :=
  (∀ pending, r ≠ .error (.overtaken pending)) ∧ ∀ i, v.IsUnfinished i → w.IsUnfinished i

/-- Where no worker is overtaken, every node is at its level again. -/
theorem levels_of_reaches {α : Type} {ℓ : NodeId → Int} {P : World → Prop}
    {permits : Request → World → Prop} {r : Except Stop α}
    (reached : (Regime.leveling pace ℓ P permits).Reaches w r v)
    (none : pace = .timely → w.OvertakesNone r v) : v.IsNumbered ∧ w.Levels v := by
  match r, reached with
  | .error (.overtaken pending), strayed => exact ((none strayed.1).1 pending rfl).elim
  | .error (.crash _), led | .error .exhausted, led | .ok _, led =>
    exact ⟨led.1.1, led.2.levels fun timely => (none timely).2⟩

theorem lawful_restoring (pace : Pace) : (Regime.restoring pace).Lawful :=
  Regime.lawful_leveling (fun _ _ => trivial) (fun _ _ _ _ => ⟨.zero _, trivial⟩)
    fun _ _ _ _ => ⟨.zero _, trivial⟩

theorem meets_restoring (pace : Pace) (r : Request) (w : World) : (Regime.restoring pace).Meets r w := by
  refine .inl ⟨?_, .of_all (fun _ _ => trivial) r w⟩
  cases r with
  | evaluate context id script => trivial
  | perform call action => exact ⟨trivial, trivial⟩

/-- Every request is answered in a run that is never given up. -/
theorem restoring_twins {hosting : Hosting} (abides : (Regime.restoring pace).Abides hosting)
    (turns fuel : Nat) :
    (Regime.restoring pace).Twins ⟨turns, runHosted hosting pace fuel, pace⟩
      ⟨turns, runHosted hosting pace fuel, pace⟩ := by
  have paces := Regime.paces_leveling pace (fun _ => 0) (fun _ => True) fun _ _ => True
  refine ⟨rfl, fun r v meets => ?_, fun _ _ _ _ denier _ _ => denier.elim, rfl, paces⟩
  rw [← Engine.runHostedUntil_never]
  exact (lawful_restoring pace).runHostedUntil _ _ abides paces (fun _ _ _ _ _ => .inl rfl)
    (fun _ _ _ _ _ => trivial) (fun _ _ closed => closed.elim)
    (fun _ _ _ _ _ denier _ _ => denier.elim) fuel r v meets

theorem restoring_twins_run (pace : Pace) (turns fuel : Nat) :
    (Regime.restoring pace).Twins ⟨turns, Engine.run pace fuel, pace⟩
      ⟨turns, Engine.run pace fuel, pace⟩ := by
  rw [← Engine.runHosted_hostAction]
  exact restoring_twins (lawful_restoring pace).abides_hostAction turns fuel

/-- However a request is answered, every node is at its level again. -/
theorem levels_runHosted (numbered : w.IsNumbered) {hosting : Hosting}
    (abides : (Regime.restoring pace).Abides hosting) (fuel : Nat) (r : Request) :
    Ends (runHosted hosting pace fuel r) w fun o v =>
      (pace = .timely → w.OvertakesNone o v) → v.IsNumbered ∧ w.Levels v :=
  ((restoring_twins abides fuel fuel).call r w (meets_restoring pace r w)
    ⟨numbered, .zero w, trivial⟩).ends.mono fun _ _ done => levels_of_reaches done.1

theorem levels_run (numbered : w.IsNumbered) (pace : Pace) (fuel : Nat) (r : Request) :
    Ends (Engine.run pace fuel r) w fun o v =>
      (pace = .timely → w.OvertakesNone o v) → v.IsNumbered ∧ w.Levels v := by
  rw [← Engine.runHosted_hostAction]
  exact levels_runHosted numbered (lawful_restoring pace).abides_hostAction fuel r

/-- However the action ends, every node that was there is as deep in evaluations as it was and has the
same frames, unless a worker is overtaken where workers are. -/
def LeavesLevel {α : Type} (w : World) (pace : Pace) (x : Act α) : Prop :=
  Ends x w fun r v => (pace = .timely → w.OvertakesNone r v) → w.Restores v

/-- Whatever commands the host has, if they leave every node at its level where the requests that they
make do, so do the ways in which a host has scripts run. -/
theorem levels_hosted (numbered : w.IsNumbered) {hosting : Hosting}
    (abides : (Regime.restoring pace).Abides hosting) (turns fuel : Nat) :
    (∀ context id script, w.LeavesLevel pace
      (Engine.runEvaluate ⟨turns, runHosted hosting pace fuel, pace⟩ context id script)) ∧
    (∀ context caller path script, w.LeavesLevel pace
      (Engine.evaluateIn ⟨turns, runHosted hosting pace fuel, pace⟩ context caller path script)) ∧
    (∀ context caller path name args global, w.LeavesLevel pace
      (Engine.invokeHidden ⟨turns, runHosted hosting pace fuel, pace⟩ context caller path name args
        global)) ∧
    ∀ call a, w.LeavesLevel pace
      (Engine.forward ⟨turns, runHosted hosting pace fuel, pace⟩ call a) := by
  have law := lawful_restoring pace
  have twins := restoring_twins abides turns fuel
  have restored {x : Act Completion} (kept : (Regime.restoring pace).Keeps x x w) :
      w.LeavesLevel pace x :=
    (kept ⟨numbered, .zero w, trivial⟩).ends.mono fun _ _ done none =>
      (levels_of_reaches done.1 none).2.restores
  refine ⟨fun context id script => restored ?_, fun context caller path script => restored ?_,
    fun context caller path name args global => restored ?_, fun call a => restored ?_⟩
  · exact law.runEvaluate twins context trivial script trivial
  · exact law.evaluateIn twins context trivial path script fun _ closed => closed.elim
  · exact law.invokeHidden twins context trivial path name args global
  · exact law.forwardCall twins trivial trivial trivial

/-- A child of the root in the middle of a call, and an alias by which the child deletes itself. -/
def leaving : World :=
  match (do
      let _ ← Op.create root [] "c" {}
      let _ ← Op.defineAlias root "c" "leave" [] "interp" ["delete", "c"]
      Op.change (modifyNode 2 fun n =>
        { n with cancel := { n.cancel with depth := 1 }, frames := (n.frames.push "p" 0).2 })
      return : Op Unit) ((plant {} {}).toOption.getD {}) with
  | .ok _ v => v
  | .error _ v => v

/-- A root with a child. -/
def staffing : World :=
  match Op.create root [] "t" {} ((plant {} {}).toOption.getD {}) with
  | .ok _ v => v
  | .error _ v => v

end World

end InterpTree
