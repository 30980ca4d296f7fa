import InterpTree.Engine.Clock
import InterpTree.Proofs.Departures

/-!
Changes that leave most of a node as it is: to its work and its supervision, and to what only a caller
that is not safe may change in it, its tables, policies and objects.
-/

namespace InterpTree

namespace World

variable {w v u : World} {Z : NodeId → Prop} {id target : NodeId}

/-- Nothing happens to nodes and objects, and at most notes are taken by the host. -/
structure Rests (w v : World) : Prop where
  nodes : v.nodes = w.nodes
  objects : v.objects = w.objects
  host : w.host.Notes v.host

theorem Rests.refl (w : World) : Rests w w := ⟨rfl, rfl, .refl _⟩

theorem Rests.logNode (level : Level) (id : NodeId) (message : Text) (fields : List (Text × Text))
    (w : World) : Rests w (w.logNode level id message fields) :=
  have still := Still.logNode level id message fields w
  ⟨nodes_logNode _ _ _ _ w, still.objects, still.host⟩

/-- Child links do not lead out of a zone that is closed. -/
theorem IsClosed.child? (closed : w.IsClosed Z) (numbered : w.IsNumbered) (inside : Z id)
    {name : Text} (child : w.child? id name = some target) : Z target := by
  obtain ⟨n, l, t, found, -, link, foundT, -, rfl⟩ := child?_eq_some_iff.mp child
  rw [numbered l.target t foundT]
  exact closed id n found inside l (List.mem_of_find?_eq_some link)

theorem IsClosed.follow? (closed : w.IsClosed Z) (numbered : w.IsNumbered) {names : List Text}
    (inside : Z id) (way : w.follow? id names = some target) : Z target := by
  induction names generalizing id with
  | nil => exact Option.some.inj way ▸ inside
  | cons name names ih =>
    obtain ⟨next, child, rest⟩ := Option.bind_eq_some_iff.mp way
    exact ih (closed.child? numbered inside child) rest

theorem IsClosed.resolve? (closed : w.IsClosed Z) (numbered : w.IsNumbered) {path : Text}
    (inside : Z id) (resolved : w.resolve? id path = some target) : Z target := by
  obtain ⟨n, found, alive⟩ := exists_of_resolve? resolved
  rw [resolve?_eq found alive] at resolved
  exact closed.follow? numbered inside resolved

theorem Wanes.isNumbered (h : Wanes Z w v) (numbered : w.IsNumbered) : v.IsNumbered :=
  h.nodes.isNumbered (fun _ _ _ fades => fades.1.id) numbered

/-- Records that are kept after a child was made. -/
theorem Grows.rests {parent : NodeId} {name : Text} {m : Node} (h : Grows parent name m w v)
    (rests : Still v u) (nodes : u.nodes = v.nodes) : Grows parent name m w u :=
  ⟨(congrArg Array.size nodes).trans h.size, fun i => (node?_congr nodes i).trans (h.node i),
    h.still.trans rests⟩

end World

namespace Node

/-- What may become of a node by what it does itself and by who supervises it: its work and its
cancellation, which lasts. -/
structure Stirs (n n' : Node) : Prop where
  same : n' = { n with
    vars := n'.vars, queue := n'.queue, busy := n'.busy
    backgroundError := n'.backgroundError, cancel := n'.cancel }
  queue : n.queue.Leads n'.queue
  lasts : n.cancel.Lasts n'.cancel
  limits : n'.cancel.limits = n.cancel.limits

theorem Stirs.of_rest {n n' : Node}
    (same : n' = { n with
      vars := n'.vars, busy := n'.busy, backgroundError := n'.backgroundError }) : Stirs n n' := by
  rw [same]
  exact ⟨rfl, .refl _, .refl _, rfl⟩

theorem Stirs.of_queue {n : Node} {q : Schedule} (leads : n.queue.Leads q) :
    Stirs n { n with queue := q } :=
  ⟨rfl, leads, .refl _, rfl⟩

theorem Stirs.of_cancel {n : Node} {c : Cancellation} (lasts : n.cancel.Lasts c)
    (limits : c.limits = n.cancel.limits) : Stirs n { n with cancel := c } :=
  ⟨rfl, .refl _, lasts, limits⟩

theorem Stirs.refl (n : Node) : Stirs n n := .of_rest rfl

theorem Stirs.trans {n m k : Node} (h : Stirs n m) (h' : Stirs m k) : Stirs n k := by
  refine ⟨?_, h.queue.trans h'.queue, h.lasts.trans h'.lasts, h'.limits.trans h.limits⟩
  rw [h'.same, h.same]

theorem Stirs.level {n n' : Node} (h : Stirs n n') : n'.level = n.level :=
  Prod.ext h.lasts.depth (by rw [h.same]; rfl)

/-- What may become of a node at the hands of `caller`, which is not safe, if its trust is not
changed: its work stays, its cancellation lasts, its commands and aliases change unless they are
read-only, the policies that come to it are those of the caller, and nothing comes to it once it is
dead. -/
structure IsGoverned (caller : NodeId) (n n' : Node) : Prop where
  id : n'.id = n.id
  attached : n'.attached = n.attached
  dead : n'.dead = n.dead
  released : n'.released = n.released
  ended : n'.ended = n.ended
  trust : n'.trust = n.trust
  queue : n'.queue = n.queue
  worker : n'.worker = n.worker
  retiring : n'.retiring = n.retiring
  frames : n'.frames = n.frames
  unfinished : n'.unfinished = n.unfinished
  lasts : n.cancel.Lasts n'.cancel
  tables : n.trust.readOnly = true → n'.commands = n.commands ∧ n'.aliases = n.aliases
  policies : ∀ p ∈ n'.policies, p ∈ n.policies ∨ p.owner = caller
  bare : n.dead = true → n.IsBare → n'.IsBare

/-- What is alive need not stay bare. -/
theorem bare_of_alive {n m : Node} (alive : n.dead = false) :
    n.dead = true → n.IsBare → m.IsBare := fun gone => by
  rw [alive] at gone
  cases gone

namespace IsGoverned

variable {caller : NodeId} {n m k : Node}

/-- A change that concerns the links and the objects of a node. -/
theorem of_rest (bare : n.dead = true → n.IsBare → m.IsBare) (same : m = { n with
      links := m.links, shared := m.shared, sharedLinks := m.sharedLinks
      objects := m.objects }) : IsGoverned caller n m := by
  rw [same] at bare ⊢
  exact ⟨rfl, rfl, rfl, rfl, rfl, rfl, rfl, rfl, rfl, rfl, rfl, .refl _, fun _ => ⟨rfl, rfl⟩,
    fun _ mem => .inl mem, bare⟩

theorem refl (n : Node) : IsGoverned caller n n := .of_rest (fun _ bare => bare) rfl

theorem of_cancel {c : Cancellation} (lasts : n.cancel.Lasts c) :
    IsGoverned caller n { n with cancel := c } :=
  ⟨rfl, rfl, rfl, rfl, rfl, rfl, rfl, rfl, rfl, rfl, rfl, lasts, fun _ => ⟨rfl, rfl⟩,
    fun _ mem => .inl mem, fun _ bare =>
      ⟨bare.links, bare.commands, bare.aliases, bare.policies, bare.objects⟩⟩

/-- A change of the commands and the aliases of a node. -/
theorem of_tables (writable : n.trust.readOnly = false)
    (bare : n.dead = true → n.IsBare → m.IsBare) (same : m = { n with
      seq := m.seq, commands := m.commands, aliases := m.aliases }) : IsGoverned caller n m := by
  have frozen {P : Prop} (readOnly : n.trust.readOnly = true) : P := by
    rw [writable] at readOnly
    cases readOnly
  rw [same] at bare ⊢
  exact ⟨rfl, rfl, rfl, rfl, rfl, rfl, rfl, rfl, rfl, rfl, rfl, .refl _, frozen,
    fun _ mem => .inl mem, bare⟩

theorem trans (h : IsGoverned caller n m) (h' : IsGoverned caller m k) : IsGoverned caller n k where
  id := h'.id.trans h.id
  attached := h'.attached.trans h.attached
  dead := h'.dead.trans h.dead
  released := h'.released.trans h.released
  ended := h'.ended.trans h.ended
  trust := h'.trust.trans h.trust
  queue := h'.queue.trans h.queue
  worker := h'.worker.trans h.worker
  retiring := h'.retiring.trans h.retiring
  frames := h'.frames.trans h.frames
  unfinished := h'.unfinished.trans h.unfinished
  lasts := h.lasts.trans h'.lasts
  tables frozen :=
    have first := h.tables frozen
    have second := h'.tables (h.trust ▸ frozen)
    ⟨second.1.trans first.1, second.2.trans first.2⟩
  policies p mem := (h'.policies p mem).elim (h.policies p) .inr
  bare gone empty := h'.bare (h.dead.trans gone) (h.bare gone empty)

theorem level (h : IsGoverned caller n m) : m.level = n.level :=
  Prod.ext h.lasts.depth (congrArg CallStack.frames h.frames)

end IsGoverned

end Node

namespace World

theorem composes_stirs (id : NodeId) : Composes (At id Node.Stirs) :=
  composes_at id Node.Stirs.refl Node.Stirs.trans

theorem composes_isGoverned (caller : NodeId) : Composes fun _ => Node.IsGoverned caller :=
  ⟨fun _ => .refl, fun _ _ _ _ => .trans⟩

theorem changes_enqueue (id : NodeId) (given : Option EventId) (due : Option Int) (outright : Bool)
    (script : Text) (priority : Int) (w : World) :
    Changes (At id Node.Stirs) w (w.enqueue id given due outright script priority).2 := by
  have c := composes_stirs id
  unfold enqueue
  cases given with
  | some event =>
    exact .modifyNode c fun n _ => at_same.mpr (.of_queue (Schedule.leads_enqueue _ _ _ _ _ _))
  | none =>
    have drawn : Changes (At id Node.Stirs) w w.drawId.2 :=
      ⟨.of_nodes_eq c rfl, rfl, rfl, rfl, .refl _⟩
    exact drawn.trans c (.modifyNode c fun n _ =>
      at_same.mpr (.of_queue (Schedule.leads_enqueue _ _ _ _ _ _)))

theorem changes_startWatchdog (id : NodeId) (w : World) :
    Changes (At id Node.Stirs) w (w.startWatchdog id).2 := by
  have c := composes_stirs id
  unfold startWatchdog
  split
  · exact .refl c w
  · rename_i n found
    dsimp only
    split
    · refine Changes.trans c (.modifyNode c fun m here => at_same.mpr ?_) (.logNode c _ _ _ _ _)
      obtain rfl : n = m := Option.some.inj (found.symm.trans here)
      refine .of_cancel (Cancellation.lasts_startWatchdog _ _) ?_
      unfold Cancellation.startWatchdog
      split <;> rfl
    · exact .refl c w

/-- A watchdog that looks is set for its next look. -/
theorem changes_lookWatchdog (id : NodeId) (w : World) :
    Changes (At id fun n n' => n' = { n with cancel := (n.cancel.tick w.clock).2 }) w
      (w.lookWatchdog id) := by
  unfold lookWatchdog
  split
  · rename_i none
    refine ⟨⟨rfl, fun i n found => ⟨n, found, (at_ne fun same => ?_).mpr rfl⟩⟩, .refl w⟩
    rw [same, none] at found
    cases found
  · rename_i n found
    have told : Changes (At id fun n n' => n' = { n with cancel := (n.cancel.tick w.clock).2 }) w
        (w.modifyNode id fun m => { m with cancel := (n.cancel.tick w.clock).2 }) := by
      refine changes_modifyNode fun m here => ?_
      obtain rfl : n = m := Option.some.inj (found.symm.trans here)
      rfl
    dsimp only
    split
    · exact told
    · exact (told.followed (nodes_logNode _ _ _ _ _) (.logNode _ _ _ _ _)).followed
        (nodes_logNode _ _ _ _ _) (.logNode _ _ _ _ _)
    · exact told.followed (nodes_logNode _ _ _ _ _) (.logNode _ _ _ _ _)

theorem changes_stir_stopWatchdog (id : NodeId) (w : World) :
    Changes (At id Node.Stirs) w (w.stopWatchdog id).2 := by
  have c := composes_stirs id
  unfold stopWatchdog
  split
  · exact .refl c w
  · rename_i n found
    dsimp only
    split
    · refine Changes.trans c (.modifyNode c fun m here => at_same.mpr ?_) (.logNode c _ _ _ _ _)
      obtain rfl : n = m := Option.some.inj (found.symm.trans here)
      exact .of_cancel (Cancellation.lasts_stopWatchdog _) rfl
    · exact .refl c w

end World

end InterpTree
