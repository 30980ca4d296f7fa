import InterpTree.Engine.Run
import InterpTree.Proofs.Subcommands

/-!
Regimes: what runs of scripts keep to. A regime says where scripts may run, which commands they may
use, what holds of the world throughout, and what is true of any two worlds on the way. `Lawful`
lists, kind by kind, what has to be shown of single changes for it to be true of whole runs.

Two runs are followed at a time, which differ in where they are given up. Either they do the same, or
the first is given up and the second goes on from there. Where workers may be overtaken, a regime says
how far they stray before they are.
-/

namespace InterpTree

/-- What a worker is made to do: nothing that `serves` rules out. Whether one is on its way out stays
as it is. -/
structure Node.Works (serves : ServiceOptions → Prop) (n n' : Node) : Prop where
  same : n' = { n with worker := n'.worker, retiring := n'.retiring, busy := n'.busy }
  retiring : n'.retiring.isSome = n.retiring.isSome
  served : ∀ loop ∈ n'.worker.toList ++ n'.retiring.toList, ∀ item ∈ loop.items,
    serves item.2.options

/-- Whether a frame is that of a call through an alias. -/
def FrameFlags.isAlias (flags : Nat) : Bool := flags &&& viaAlias ≠ 0

/-- What runs keep to. -/
structure Regime where
  /-- What holds of the world between any two steps. -/
  inv : World → Prop
  /-- What is true of the worlds before and after. -/
  rel : World → World → Prop
  /-- The nodes in which scripts run. -/
  zone : NodeId → Prop
  /-- What the commands do that scripts run, visible or hidden. -/
  admits : Bool → Action → Prop
  /-- The service loops that run on a node. -/
  serves : NodeId → ServiceOptions → Prop
  /-- The requests that are answered. -/
  permits : Request → World → Prop
  /-- The nodes outside of the zone that paths lead to. Nothing is called in them. -/
  closed : NodeId → Prop := fun _ => False
  /-- Policies that let no script pass. -/
  denier : Policy → Prop := fun _ => False
  /-- Where a visible command is called in a node. -/
  comes : NodeId → World → Prop := fun _ _ => True
  /-- From where a run is given up to where it ends if it is not given up there. -/
  onward : World → World → Prop := fun _ _ => False
  /-- From where a worker does something to where it is overtaken, if it is. -/
  strays : World → World → Prop := fun _ _ => False

/-- The node that a request is for. -/
def Request.node : Request → NodeId
  | .evaluate _ id _ => id
  | .perform call _ => call.node

/-- To ask the policy runs no script. -/
def Policy.isSilent (p : Policy) : Bool := p.guard.isSome || p.script.isEmpty

/-- What is tidied up in a node after a run: its frames and its controller, or neither since its worker
was overtaken. -/
def Node.Tidies (n n' : Node) : Prop :=
  n' = { n with frames := n'.frames, cancel := n'.cancel, unfinished := n'.unfinished }

theorem Node.Tidies.symm {n n' : Node} (h : n.Tidies n') : n'.Tidies n := by
  unfold Tidies at h ⊢
  rw [h]

/-- What is tidied up after a run. -/
def World.Tidies (w v : World) : Prop := World.Each (fun _ => Node.Tidies) w v

theorem World.composes_tidies : Composes fun _ => Node.Tidies where
  refl _ _ := rfl
  trans _ n m k first second := by
    unfold Node.Tidies at *
    rw [second, first]

/-- What is tidied up at one node. -/
theorem World.tidies_modifyNode {id : NodeId} {f : Node → Node} (h : ∀ n : Node, n.Tidies (f n))
    (w : World) : w.Tidies (w.modifyNode id f) :=
  .modifyNode composes_tidies f fun n _ => h n

/-- The world with one frame more on node `id`, which has the frames of `n`. -/
def World.framed (id : NodeId) (name : Text) (flags : Nat) (n : Node) (w : World) : World :=
  w.modifyNode id fun m => { m with frames := (n.frames.push name flags).2 }

theorem World.tidies_framed (id : NodeId) (name : Text) (flags : Nat) (n : Node) (w : World) :
    w.Tidies (w.framed id name flags n) := .modifyNode composes_tidies _ fun _ _ => rfl

/-- The world with that frame popped again. -/
def World.unframed (id : NodeId) (name : Text) (flags : Nat) (n : Node) (w : World) : World :=
  w.modifyNode id fun m =>
    { m with frames := (m.frames.popThrough (n.frames.push name flags).1).2 }

/-- Who has left the tree has left it when it is tidied up. -/
theorem World.Tidies.live?_none {w v : World} {id : NodeId} (h : w.Tidies v)
    (gone : w.live? id = none) : v.live? id = none := by
  cases found : w.node? id with
  | none =>
    have missing := h.node?_none found
    simp [live?, missing]
  | some n =>
    obtain ⟨n', found', tidied⟩ := h.node id n found
    unfold live? at gone ⊢
    rw [found] at gone
    rw [found', tidied]
    simpa [Option.filter_some, Node.isLive] using gone

namespace Regime

variable {w v u : World} {id : NodeId}

/-- From `w` on the regime leads to `v`. -/
def Leads (R : Regime) (w v : World) : Prop := R.inv v ∧ R.rel w v

/-- The request stays in the zone. -/
def May (R : Regime) : Request → Prop
  | .evaluate _ id _ => R.zone id
  | .perform call action => R.zone call.node ∧ R.admits call.hidden action

/-- A visible command that is called is one that may be called there. -/
def Comes (R : Regime) : Request → World → Prop
  | .evaluate _ _ _, _ => True
  | .perform call _, w => call.hidden = false → R.comes call.node w

theorem Comes.of_all {R : Regime} (all : ∀ id w, R.comes id w) (r : Request) (w : World) : R.Comes r w := by
  cases r with
  | evaluate context id script => trivial
  | perform call action => exact fun _ => all call.node w

/-- The request stays in the zone, or is for a closed node and not answered. -/
def Meets (R : Regime) (r : Request) (w : World) : Prop :=
  R.May r ∧ R.Comes r w ∨ R.closed r.node ∧ ¬ R.permits r w

/-- Paths lead to the node. -/
def Near (R : Regime) (id : NodeId) : Prop := R.zone id ∨ R.closed id

/-- To ask the policy keeps to the zone, or is not answered. -/
def Asks (R : Regime) (p : Policy) : Prop :=
  p.isSilent = true ∨ ∀ (context : Context) case w,
    R.Meets (.evaluate (some { context with deciding := some case }) p.owner p.script) w

/-- A policy of node `t` lets no script pass, and without its owner no script is evaluated there. -/
def Shields (R : Regime) (w : World) (t : NodeId) : Prop :=
  ∀ n, w.node? t = some n → ∃ p ∈ n.policies, p.guardsEvaluation = true ∧ R.denier p ∧
    ∀ v context script, v.live? p.owner = none → ¬ R.permits (.evaluate context t script) v

/-- The regime is closed under everything that runs do. -/
structure Lawful (R : Regime) : Prop where
  refl : ∀ {w}, R.inv w → R.rel w w
  trans : ∀ {w v u}, R.rel w v → R.rel v u → R.rel w u
  numbered : ∀ {w}, R.inv w → w.IsNumbered
  resolve : ∀ {w id path t}, R.inv w → R.zone id → w.resolve? id path = some t → R.Near t
  visible : ∀ {w id n name c}, R.inv w → R.zone id → w.node? id = some n →
    n.commands.visible? name = some c → R.admits false c.action ∧ R.comes id w
  hidden : ∀ {w caller c target n name d}, R.inv w → R.zone caller → w.node? caller = some c →
    c.trust.safe = false → R.zone target → w.node? target = some n →
    n.commands.hidden? name = some d → R.admits true d.action
  forward : ∀ {w b a t}, R.inv w → R.admits b (.forward a) →
    w.resolve? World.root a.targetPath = some t → R.Near t
  asks : ∀ {w id n}, R.inv w → R.Near id → w.node? id = some n → ∀ p ∈ n.policies, R.Asks p
  barred : ∀ {w call action}, R.closed call.node → ¬ R.permits (.perform call action) w
  shields : ∀ {w call t}, R.inv w → R.zone call.node → R.permits (.perform call .ensemble) w →
    R.closed t → R.Shields w t
  gone : ∀ {w v p}, R.denier p → R.inv w → R.rel w v → w.live? p.owner = none →
    v.live? p.owner = none
  staff : ∀ {w id n}, R.inv w → w.node? id = some n →
    ∀ loop ∈ n.worker.toList ++ n.retiring.toList,
      R.zone id ∧ ∀ item ∈ loop.items, R.serves id item.2.options
  /-- No service loop is asked for on a closed node. -/
  attends : ∀ {w call target options apart} {words : List Text}, R.inv w → R.zone call.node →
    R.permits (.perform call .ensemble) w → call.args = ("service" : Text) :: words →
    Control.serviceWords (.of call "service") words w = .ok (target, options, apart) w →
    ¬ R.closed target
  /-- A service loop that the caller waits for is one that may run. -/
  serve : ∀ {w call target options n} {words : List Text}, R.inv w → R.zone call.node →
    R.permits (.perform call .ensemble) w → call.args = ("service" : Text) :: words →
    Control.serviceWords (.of call "service") words w = .ok (target, options, false) w →
    w.node? target = some n → n.dead = false →
    (options.errorOnEmpty && n.queue.size = 0) = false → R.serves target options
  rests : ∀ {w v}, R.inv w → w.Rests v → R.Leads w v
  host : ∀ {w b} (f : Host → Host), R.inv w →
    R.admits b (.builtin .file) ∨ R.admits b (.builtin .exit) → R.Leads w (w.modifyHost f)
  look : ∀ {w id n}, R.inv w → w.node? id = some n → n.cancel.watchdog.isSome = true →
    R.Leads w (w.lookWatchdog id)
  stirs : ∀ {w v id}, R.inv w → R.Near id → World.Changes (World.At id Node.Stirs) w v →
    R.Leads w v
  defines : ∀ {w id n spec name params body c n'}, R.inv w → R.zone id → w.node? id = some n →
    spec.action = some (.procedure name params body) → n.define spec = .ok (c, n') →
    R.Leads w (w.modifyNode id fun _ => n')
  /-- A frame is pushed, that of an alias for a call that is forwarded. -/
  push : ∀ {w id n name flags}, R.inv w → R.Near id → w.node? id = some n →
    (FrameFlags.isAlias flags = true →
      ∃ call a, call.node = id ∧ R.permits (.perform call (.forward a)) w) →
    R.inv (w.framed id name flags n)
  /-- A frame is popped again. -/
  pop : ∀ {w v id n name flags}, R.inv w → R.Near id → w.node? id = some n →
    R.Leads (w.framed id name flags n) v → R.Leads w (v.unframed id name flags n)
  /-- An evaluation is entered. -/
  enter : ∀ {w context id script n}, R.inv w → R.zone id → w.node? id = some n →
    R.permits (.evaluate context id script) w →
    R.inv (w.modifyNode id fun n => { n with cancel := n.cancel.enter w.clock })
  /-- An evaluation is left again. -/
  exit : ∀ {w v id}, R.inv w → R.zone id →
    R.Leads (w.modifyNode id fun n => { n with cancel := n.cancel.enter w.clock }) v →
    R.Leads w (v.modifyNode id fun n => { n with cancel := n.cancel.exit })
  leave : ∀ {w id options}, R.inv w → R.zone id → R.serves id options →
    R.Leads w (options.leave id w)
  works : ∀ {w id} {f : Node → Node}, R.inv w → R.zone id →
    (∀ n, w.node? id = some n → n.Works (R.serves id) (f n)) → R.Leads w (w.modifyNode id f)
  retires : ∀ {w v id n}, R.inv w → R.zone id → w.node? id = some n → n.retiring.isSome = true →
    World.Changes (World.Released n id) w v → (∀ n', v.node? id = some n' → n'.IsBare) → R.Leads w v
  does : ∀ {w v call name words}, R.inv w → R.zone call.node →
    R.permits (.perform call .ensemble) w → call.args = name :: words →
    Control.Does (.of call name) words w v → R.Leads w v
  onward_trans : ∀ {u v v'}, R.onward u v → R.Leads v v' → R.onward u v'
  onward_tidy : ∀ {u v u' v' : World}, u.Tidies u' → v.Tidies v' → R.onward u v → R.onward u' v'
  onward_strays : ∀ {u v v'}, R.onward u v → R.strays v v' → R.onward u v' := by
    exact fun _ stray => False.elim stray
  strays_trans : ∀ {w v u}, R.Leads w v → R.strays v u → R.strays w u := by
    exact fun _ stray => False.elim stray
  strays_pushed : ∀ {w v id n name flags}, R.inv w → R.Near id → w.node? id = some n →
    R.strays (w.framed id name flags n) v → R.strays w v := by exact fun _ _ _ stray => False.elim stray
  strays_entered : ∀ {w v id}, R.inv w → R.zone id →
    R.strays (w.modifyNode id fun n => { n with cancel := n.cancel.enter w.clock }) v →
    R.strays w v := by exact fun _ _ stray => False.elim stray
  /-- Whoever waited goes on, and the worker that is overtaken stays in the middle of its item. -/
  overtakes : ∀ {w v : World} {id : NodeId} {n : Node} {pending : Nat}, R.inv w → R.zone id →
    w.node? id = some n → w.hasUnfinished = false → R.strays w v →
    R.Leads w (World.overtake id pending { v with horizon := w.horizon }) := by
      exact fun _ _ _ _ stray => False.elim stray

end Regime

/-- An action comes to a world of which `P` holds, or is overtaken in one of which `S` holds. -/
def Reached {α : Type} (S P : World → Prop) : Except Stop α → World → Prop
  | .error (.overtaken _), v => S v
  | .error (.crash _), v | .error .exhausted, v | .ok _, v => P v

namespace Reached

variable {α : Type} {S S' P P' : World → Prop} {r : Except Stop α} {v : World}

theorem elim (h : Reached S P r v) (stray : S v → P v) : P v := by
  match r, h with
  | .error (.overtaken _), strayed => exact stray strayed
  | .error (.crash _), done | .error .exhausted, done | .ok _, done => exact done

theorem imp (h : Reached S P r v) (stray : S v → S' v) (weaker : P v → P' v) : Reached S' P' r v := by
  match r, h with
  | .error (.overtaken _), strayed => exact stray strayed
  | .error (.crash _), done | .error .exhausted, done | .ok _, done => exact weaker done

theorem mono (h : Reached S P r v) (weaker : P v → P' v) : Reached S P' r v := h.imp id weaker

end Reached

/-- In the world `w` the action `y` ends as `Q` says, and `x` does the same, or is given up in a world
from which `onward` leads to that end. -/
structure Tracks {α : Type} (onward : World → World → Prop) (x y : Act α) (w : World)
    (Q : Except Stop α → World → Prop) : Prop where
  ends : Ends y w Q
  same : x w = y w ∨ ∃ u, x w = .error .exhausted u ∧ Ends y w fun _ v => onward u v

namespace Tracks

variable {α β : Type} {onward : World → World → Prop} {x y : Act α} {w : World}
  {Q Q' : Except Stop α → World → Prop}

theorem refl (h : Ends x w Q) : Tracks onward x x w Q := ⟨h, .inl rfl⟩

theorem mono (h : Tracks onward x y w Q) (weaker : ∀ r v, Q r v → Q' r v) :
    Tracks onward x y w Q' := ⟨h.ends.mono weaker, h.same⟩

/-- Where no run is given up, both do the same. -/
theorem eq (h : Tracks (fun _ _ => False) x y w Q) : x w = y w := by
  refine h.same.elim id fun ⟨u, _, never⟩ => ?_
  unfold Ends at never
  split at never <;> exact never.elim

/-- What follows a start that both have in common. -/
theorem after {start : Act α} {f g : α → Act β} {Q : Except Stop β → World → Prop}
    (h : Ends start w fun r v =>
      match r with
      | .ok a => Tracks onward (f a) (g a) v Q
      | .error e => Q (.error e) v) : Tracks onward (start >>= f) (start >>= g) w Q := by
  refine ⟨Ends.bind h (fun a v next => next.ends) fun e v q => q, ?_⟩
  unfold Ends at h ⊢
  simp only [Bind.bind, EStateM.bind]
  cases result : start w with
  | ok a v =>
    simp only [result] at h
    exact h.same
  | error e v => exact .inl rfl

/-- What follows only makes something of the value. -/
theorem bind_pure {f : α → Act β} {S P : World → Prop} (h : Tracks onward x y w (Reached S P))
    (pure : ∀ a v, ∃ b, f a v = .ok b v) : Tracks onward (x >>= f) (y >>= f) w (Reached S P) := by
  have next {Q : Except Stop α → World → Prop} {Q' : Except Stop β → World → Prop}
      (ends : Ends y w Q) (ok : ∀ a b v, Q (.ok a) v → Q' (.ok b) v)
      (error : ∀ stop v, Q (.error stop) v → Q' (.error stop) v) : Ends (y >>= f) w Q' := by
    refine Ends.bind ends (fun a v q => ?_) error
    obtain ⟨b, value⟩ := pure a v
    unfold Ends
    rw [value]
    exact ok a b v q
  refine ⟨next h.ends (fun _ _ _ => id) fun stop v q => ?_, h.same.imp (fun same => ?_) ?_⟩
  · cases stop <;> exact q
  · simp only [Bind.bind, EStateM.bind, same]
  · rintro ⟨u, given, on⟩
    exact ⟨u, by simp only [Bind.bind, EStateM.bind, given],
      next on (fun _ _ _ => id) fun _ _ => id⟩

end Tracks

namespace Regime

variable {w v u : World} {id : NodeId}

/-- An action leads from `w` to a world, or strays to one in which it is overtaken. -/
def Reaches {α : Type} (R : Regime) (w : World) : Except Stop α → World → Prop :=
  Reached (R.strays w) (R.Leads w)

/-- In the world `w` the action `x` tracks `y`, which keeps to the regime, and `Q` holds of the value
that it comes to. -/
def Gives {α : Type} (R : Regime) (x y : Act α) (w : World) (Q : α → World → Prop) : Prop :=
  R.inv w → Tracks R.onward x y w fun r v => R.Reaches w r v ∧ ∀ a, r = .ok a → Q a v

/-- In the world `w` the action `x` tracks `y`, which keeps to the regime. -/
def Keeps {α : Type} (R : Regime) (x y : Act α) (w : World) : Prop :=
  R.Gives x y w fun _ _ => True

/-- At this pace no worker is overtaken, or one that is strays no further than the regime says. -/
def Paces (R : Regime) (pace : Pace) : Prop := pace = .timely → ∀ w, R.inv w → R.strays w w

/-- Two engines of one pace, one of which may give up earlier than the other. -/
structure Twins (R : Regime) (e e' : Engine) : Prop where
  turns : e'.turns = e.turns
  call : ∀ r w, R.Meets r w → R.Keeps (e.call r) (e'.call r) w
  denies : ∀ p context case w, R.denier p → case.name = ("eval" : Text) → R.closed case.target →
    Ends (e'.decide context p case) w fun r _ => ∀ d, r = .ok d → d = .denied
  pace : e.pace = e'.pace
  paces : R.Paces e'.pace

end Regime

end InterpTree
