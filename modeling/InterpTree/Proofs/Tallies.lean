import InterpTree.Proofs.Moments

/-!
Runs of scripts account for every scheduled event, in whichever node, whatever they do to schedules,
trees and cancellations meanwhile. And while a node is part of the tree, its context goes on.
-/

namespace InterpTree

namespace Node

/-- The context of the node goes on while it is part of the tree. -/
def GoesOn (n : Node) : Prop := n.attached = true → n.ended = false

/-- The schedule of the node is in order and its own. -/
structure IsPunctual (n : Node) : Prop where
  ordered : n.queue.IsOrdered
  owner : n.queue.owner = n.id
  goesOn : n.GoesOn

/-- What may become of a node: its schedule accounts for the events. -/
structure Tallies (n n' : Node) : Prop where
  heeds : n.Heeds False n'
  queue : n.queue.Leads n'.queue
  goesOn : n.GoesOn → n'.GoesOn

namespace Tallies

variable {n m k : Node}

/-- A change that neither schedules anything nor ends the context. -/
theorem of_same (heeds : n.Heeds False m) (queue : m.queue = n.queue) (ended : m.ended = n.ended) :
    n.Tallies m :=
  ⟨heeds, queue ▸ .refl _, fun goesOn stays => ended.trans (goesOn (heeds.attached stays))⟩

theorem refl (n : Node) : n.Tallies n := .of_same (.refl n) rfl rfl

theorem trans (h : n.Tallies m) (h' : m.Tallies k) : n.Tallies k :=
  ⟨h.heeds.trans h'.heeds, h.queue.trans h'.queue, fun start => h'.goesOn (h.goesOn start)⟩

theorem of_cancel (c : Cancellation) : n.Tallies { n with cancel := c } :=
  .of_same (.of_cancel c) rfl rfl

theorem of_frames (frames : CallStack) : n.Tallies { n with frames } :=
  .of_same (.of_rest rfl rfl) rfl rfl

theorem of_relinks (h : n.Relinks m) : n.Tallies m := by
  refine .of_same (.of_relinks h) ?_ ?_
  all_goals rw [h.1]

theorem of_stirs (h : n.Stirs m) : n.Tallies m :=
  ⟨.of_stirs h, h.queue, fun goesOn stays => by
    rw [h.same] at stays ⊢
    exact goesOn stays⟩

theorem of_isGoverned {caller : NodeId} (h : n.IsGoverned caller m) : n.Tallies m :=
  .of_same (.of_isGoverned h) h.queue h.ended

theorem of_fades (departs : n.Departs m) (h : n.Fades m) : n.Tallies m :=
  ⟨.of_fades departs h, h.queue, fun goesOn stays => by
    obtain ⟨before, same⟩ := h.kept stays
    rw [same]
    exact goesOn before⟩

/-- A node loses what it held when a worker of its own is joined, which retired in its stead. -/
theorem of_strips {start : Node} (h : start.Strips n m) (clean : n.LeavesClean)
    (retiring : n.retiring.isSome = true) (bare : m.IsBare) : n.Tallies m := by
  have heeds : n.Heeds False m := .of_strips h clean retiring bare
  refine ⟨heeds, h.queue, fun _ stays => ?_⟩
  have left := clean.outside (clean.apart retiring)
  rw [heeds.attached stays] at left
  cases left

theorem of_works {serves : ServiceOptions → Prop} (h : n.Works serves m) : n.Tallies m :=
  .of_same (.of_works h) (by rw [h.same]) (by rw [h.same])

theorem of_define {spec : CommandSpec} {c : Command} (h : n.define spec = .ok (c, m)) :
    n.Tallies m :=
  .of_same (.of_define h) (by rw [same_of_define h]) (by rw [same_of_define h])

theorem of_amend {c : TrustChange} (mutable : n.trust.immutable = false) (alive : n.dead = false) :
    n.Tallies (c.amend n) :=
  .of_same (c.heeds_amend mutable alive fun never => never.elim) (by rw [c.same_amend n])
    (by rw [c.same_amend n])

theorem isPunctual (h : n.Tallies m) (punctual : n.IsPunctual) : m.IsPunctual :=
  ⟨(h.queue.account punctual.ordered).1, h.queue.owner.trans (punctual.owner.trans h.heeds.id.symm),
    h.goesOn punctual.goesOn⟩

end Tallies

/-- A new node has an empty schedule. -/
theorem IsNew.isPunctual {id parent : NodeId} {trust : Trust} {n : Node}
    (h : n.IsNew id parent trust) : n.IsPunctual := by
  refine ⟨?_, ?_, fun _ => h.ended⟩ <;> rw [h.queue]
  exact Schedule.isOrdered_empty _

end Node

namespace World

variable {w v u : World}

/-- Every schedule is in order, and the contexts of the nodes of the tree go on. -/
structure IsPunctual (w : World) : Prop where
  heedful : w.IsHeedful
  nodes : ∀ i n, w.node? i = some n → n.IsPunctual

/-- Every node is still there, and its schedule accounts for the events. -/
def Tallies (w v : World) : Prop :=
  ∀ i n, w.node? i = some n → ∃ n', v.node? i = some n' ∧ n.Tallies n'

theorem Tallies.refl (w : World) : Tallies w w := fun _ n found => ⟨n, found, .refl n⟩

theorem Tallies.trans (h : Tallies w v) (h' : Tallies v u) : Tallies w u := by
  intro i n found
  obtain ⟨m, foundM, first⟩ := h i n found
  obtain ⟨k, foundK, second⟩ := h' i m foundM
  exact ⟨k, foundK, first.trans second⟩

theorem composes_tallies : Composes fun _ => Node.Tallies := ⟨fun _ => .refl, fun _ _ _ _ => .trans⟩

end World

/-- Runs of any scripts. -/
def Regime.tallying : Regime where
  inv := World.IsPunctual
  rel := World.Tallies
  zone _ := True
  admits _ _ := True
  serves _ _ := True
  permits _ _ := True
  strays w v := v.IsPunctual ∧ w.Tallies v

namespace Regime

variable {w v : World} {id : NodeId}

theorem allows_tallying : tallying.Allows fun _ => Node.Tallies where
  composes := World.composes_tallies
  leads {w v} inv each := by
    have heeds := (allows_heeding fun _ => False).leads inv.heedful
      (each.mono fun _ _ _ tallies => tallies.heeds)
    refine ⟨⟨heeds.1, fun i n' found' => ?_⟩, each.node⟩
    obtain ⟨n, found, tallies⟩ := each.node_back found'
    exact tallies.isPunctual (inv.nodes i n found)

theorem tallies_of_wanes {Z : NodeId → Prop} (inv : w.IsPunctual) (wanes : World.Wanes Z w v)
    (departs : World.Departs w v) : tallying.Leads w v :=
  allows_tallying.leads inv ((wanes.nodes.and departs).mono fun _ _ _ change =>
    .of_fades change.2 change.1.1)

/-- One node more. -/
theorem tallies_of_enrolls {m : Node} (inv : w.IsPunctual) (heedful : v.IsHeedful)
    (punctual : m.IsPunctual) (enrolls : World.Enrolls m w v) : tallying.Leads w v := by
  refine ⟨⟨heedful, fun i n' found' => ?_⟩, fun i n found => ?_⟩
  · rcases enrolls.new i n' found' with rfl | ⟨n, found, relinks⟩
    · exact punctual
    · exact (Node.Tallies.of_relinks relinks).isPunctual (inv.nodes i n found)
  · obtain ⟨n', found', relinks⟩ := enrolls.old i n found
    exact ⟨n', found', .of_relinks relinks⟩

theorem tallies_of_grows {options : CreateOptions} {caller parent : NodeId} {name path : Text}
    {c p m : Node} (inv : w.IsPunctual) (resolved : w.resolve? caller path = some parent)
    (grows : World.Grows parent name m w v)
    (child : Op.IsChild options name c p (w.nodes.size + 1) m) : tallying.Leads w v := by
  have heeds : (heeding fun _ => False).Leads w v := heeds_of_grows inv.heedful resolved grows child
  refine tallies_of_enrolls inv heeds.1 ?_
    (grows.enrolls fun _ => World.alive_of_resolved inv.heedful.numbered resolved)
  obtain ⟨n, isNew, rfl⟩ := child.made
  have punctual := isNew.isPunctual
  rw [Node.join_eq]
  exact ⟨punctual.ordered, punctual.owner, fun _ => isNew.ended⟩

theorem tallies_of_gains {parent : NodeId} {trust : Trust} {n m : Node} (inv : w.IsPunctual)
    (gains : World.Gains m w v) (isNew : n.IsNew (w.nodes.size + 1) parent trust)
    (detached : n.attached = false) (empty : n.commands = []) (strips : n.Strips n m)
    (released : m.released = true) : tallying.Leads w v := by
  have heeds : (heeding fun _ => False).Leads w v :=
    heeds_of_gains inv.heedful gains isNew detached empty strips released
  have punctual := isNew.isPunctual
  refine tallies_of_enrolls inv heeds.1 ⟨(strips.queue.account punctual.ordered).1,
    strips.queue.owner.trans (punctual.owner.trans strips.id.symm), fun stays => ?_⟩ gains.enrolls
  rw [strips.attached stays] at detached
  cases detached

/-- What a subcommand does that runs no scripts. -/
theorem tallies_of_does {i : Control.Invocation} {words : List Text} (inv : w.IsPunctual)
    (did : Control.Does i words w v) : tallying.Leads w v := by
  have allows := allows_tallying
  cases did with
  | rests rests => exact allows.same inv rests.nodes
  | stirs target path resolved changes =>
    exact allows.changed inv changes fun _ _ _ stirs => .of_stirs stirs
  | grows options name path parent c p m asker resolved found grows child =>
    exact tallies_of_grows inv resolved grows child
  | spoils options path parent c p n m asker resolved found gains isNew detached bare strips
      released =>
    exact tallies_of_gains inv gains isNew detached bare strips released
  | wanes wanes departs =>
    exact tallies_of_wanes inv (wanes _ (World.isClosed_all w) trivial) departs
  | governs c asker trusted changes =>
    exact allows.leads inv (changes.mono fun _ _ _ governed => .of_isGoverned governed)
  | trusts change path target n asked takes =>
    exact allows.leads inv (takes.amends.each allows.composes (.of_amend takes.mutable
      (World.alive_of_resolved inv.heedful.numbered takes.resolved takes.amends.found)))
  | posts named target path force unwind message asked resolved posted =>
    exact allows.posted inv posted fun _ c _ _ => .of_cancel c
  | resets named target path force n asked resolved found supervised reset =>
    exact reset ▸ allows.modify inv fun _ _ => .of_cancel _
  | dedicates named target path options n worker asked resolved found alive supervised submitted
      hired =>
    exact hired ▸ allows.modify inv fun _ _ =>
      .of_same (.of_rest rfl rfl) rfl rfl

theorem lawful_tallying : tallying.Lawful where
  refl _ := .refl _
  trans h h' := h.trans h'
  numbered inv := inv.heedful.numbered
  resolve _ _ _ := .inl trivial
  visible _ _ _ _ := ⟨trivial, trivial⟩
  hidden _ _ _ _ _ _ _ := trivial
  forward _ _ _ := .inl trivial
  asks _ _ _ _ _ := .inr fun _ _ _ => .inl ⟨trivial, trivial⟩
  barred closed := closed.elim
  shields _ _ _ closed := closed.elim
  gone denier := denier.elim
  attends _ _ _ _ _ := id
  onward_trans on _ := on
  onward_tidy _ _ on := on
  onward_strays on _ := on
  strays_trans led strayed := ⟨strayed.1, led.2.trans strayed.2⟩
  strays_pushed inv _ _ strayed :=
    ⟨strayed.1, (allows_tallying.pushed (fun _ => .of_frames) inv).2.trans strayed.2⟩
  strays_entered inv _ strayed :=
    ⟨strayed.1, (allows_tallying.modify inv fun _ _ => .of_cancel _).2.trans strayed.2⟩
  overtakes _ _ _ _ strayed := allows_tallying.overtaken (fun h h' => h.trans h')
    (fun _ => .of_same (.of_rest rfl rfl) rfl rfl) strayed
  staff _ _ _ _ := ⟨trivial, fun _ _ => trivial⟩
  serve _ _ _ _ _ _ _ _ := trivial
  rests inv rests := allows_tallying.same inv rests.nodes
  host _ inv _ := allows_tallying.same inv rfl
  look inv _ _ := allows_tallying.looked inv fun _ => .of_cancel _
  stirs inv _ changes := allows_tallying.changed inv changes fun _ _ _ stirs => .of_stirs stirs
  defines inv _ found _ defined := allows_tallying.replace inv found (.of_define defined)
  push inv _ _ _ := (allows_tallying.pushed (fun _ => .of_frames) inv).1
  pop inv _ _ led := allows_tallying.popped (fun h h' => h.trans h') (fun _ => .of_frames) inv led
  enter inv _ _ _ := (allows_tallying.modify inv fun _ _ => .of_cancel _).1
  exit inv _ led := allows_tallying.evaluated (fun h h' => h.trans h') (fun _ => .of_cancel) inv led
  leave inv _ _ := allows_tallying.left inv fun _ _ => .of_cancel _
  works inv _ h := allows_tallying.modify inv fun n found => .of_works (h n found)
  retires inv _ found retiring changes bare := allows_tallying.released inv found changes bare
    fun _ strips => .of_strips strips (inv.heedful.clean _ _ found) retiring
  does inv _ _ _ did := tallies_of_does inv did

/-- An engine tallies whatever it is asked. -/
theorem tallying_twins (pace : Pace) (turns fuel : Nat) :
    tallying.Twins ⟨turns, Engine.run pace fuel, pace⟩ ⟨turns, Engine.run pace fuel, pace⟩ := by
  have paces : tallying.Paces pace := fun _ _ inv => ⟨inv, lawful_tallying.refl inv⟩
  refine ⟨rfl, fun r v _ => ?_, fun _ _ _ _ denier _ _ => denier.elim, rfl, paces⟩
  have may : tallying.May r := by
    cases r with
    | evaluate context id script => trivial
    | perform call action => exact ⟨trivial, trivial⟩
  -- A run that is never given up is the run itself.
  rw [← Engine.runUntil_never]
  exact lawful_tallying.runUntil _ _ paces (fun _ _ _ _ _ => .inl rfl) (fun _ _ _ _ _ => trivial)
    (fun _ _ closed => closed.elim) (fun _ _ _ _ _ denier _ _ => denier.elim) fuel r v
    (.inl ⟨may, .of_all (fun _ _ => trivial) r v⟩)

end Regime

/-- A fresh tree is punctual. -/
theorem World.isPunctual_plant {settings : Settings} {host : Host} {w : World}
    (h : World.plant settings host = .ok w) : w.IsPunctual := by
  refine ⟨isHeedful_plant h, fun i n found => ?_⟩
  obtain ⟨k, isNew, -, -, -, only⟩ := plant_root h
  obtain ⟨-, rfl⟩ := only i n found
  exact ⟨isNew.isPunctual.ordered, isNew.isPunctual.owner, fun _ => isNew.ended⟩

end InterpTree
