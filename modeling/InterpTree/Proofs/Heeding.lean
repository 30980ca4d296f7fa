import InterpTree.Proofs.Keeping

/-!
What no run gets around: trust that was made immutable, marks and settings that are for good, and
the tables of a node that is read-only. Only changes of trust can get at those tables, so a node may
be `frozen`, which means that runs are given up before such a change of it.
-/

namespace InterpTree

namespace Node

/-- What may become of a node, which never gets back what it lost by leaving the tree. -/
structure Heeds (frozen : Prop) (n n' : Node) : Prop extends Departs n n' where
  immutable : n.trust.immutable = true → n'.trust = n.trust
  trusted : n.trust.trusted = true → n'.trust.trusted = true
  namespaces : n'.trust.namespaces = n.trust.namespaces
  profile : n'.trust.profile = n.trust.profile
  tables : frozen → n.trust.readOnly = true → n'.attached = true →
    n'.trust.readOnly = true ∧ n'.commands = n.commands ∧ n'.aliases = n.aliases

namespace Heeds

variable {frozen : Prop} {n m k : Node}

/-- A change that is not about trust, and not about the tables of nodes that are read-only. -/
theorem of_trust (departs : n.Departs m) (trust : m.trust = n.trust)
    (tables : n.trust.readOnly = true → m.attached = true →
      m.commands = n.commands ∧ m.aliases = n.aliases) : Heeds frozen n m where
  toDeparts := departs
  immutable _ := trust
  trusted marked := trust ▸ marked
  namespaces := congrArg Trust.namespaces trust
  profile := congrArg Trust.profile trust
  tables _ readOnly stays := ⟨trust ▸ readOnly, tables readOnly stays⟩

/-- A change that has to do with neither trust nor tables. -/
theorem of_departs (departs : n.Departs m) (trust : m.trust = n.trust)
    (commands : m.commands = n.commands) (aliases : m.aliases = n.aliases) : Heeds frozen n m :=
  .of_trust departs trust fun _ _ => ⟨commands, aliases⟩

/-- A change of what a node is at. -/
theorem of_rest (retiring : m.retiring.isSome = n.retiring.isSome)
    (same : m = { n with
      backgroundError := m.backgroundError, cancel := m.cancel, queue := m.queue
      frames := m.frames, vars := m.vars, worker := m.worker, retiring := m.retiring
      busy := m.busy, unfinished := m.unfinished }) : Heeds frozen n m := by
  refine .of_departs (.of_rest retiring ?_) ?_ ?_ ?_
  all_goals rw [same]

theorem refl (n : Node) : Heeds frozen n n := .of_rest rfl rfl

theorem of_cancel (c : Cancellation) : Heeds frozen n { n with cancel := c } := .of_rest rfl rfl

theorem trans (h : Heeds frozen n m) (h' : Heeds frozen m k) : Heeds frozen n k where
  toDeparts := h.toDeparts.trans h'.toDeparts
  immutable fixed :=
    have first := h.immutable fixed
    (h'.immutable (first ▸ fixed)).trans first
  trusted marked := h'.trusted (h.trusted marked)
  namespaces := h'.namespaces.trans h.namespaces
  profile := h'.profile.trans h.profile
  tables held readOnly stays := by
    obtain ⟨readOnly', commands, aliases⟩ := h.tables held readOnly (h'.attached stays)
    obtain ⟨readOnly'', commands', aliases'⟩ := h'.tables held readOnly' stays
    exact ⟨readOnly'', commands'.trans commands, aliases'.trans aliases⟩

theorem of_tidies (h : n.Tidies m) : Heeds frozen n m := by
  unfold Tidies at h
  rw [h]
  exact .of_rest rfl rfl

theorem of_stirs (h : n.Stirs m) : Heeds frozen n m := by
  refine .of_rest ?_ ?_
  all_goals rw [h.same]

theorem of_isGoverned {caller : NodeId} (h : n.IsGoverned caller m) : Heeds frozen n m :=
  .of_trust (.of_same h.id h.attached h.dead h.released (by rw [h.retiring]) h.bare) h.trust
    fun readOnly _ => h.tables readOnly

theorem of_fades (departs : n.Departs m) (h : n.Fades m) : Heeds frozen n m := by
  refine .of_trust departs h.trust fun _ stays => ?_
  obtain ⟨-, same⟩ := h.kept stays
  rw [same]
  exact ⟨rfl, rfl⟩

/-- A node loses what it held when a worker of its own is joined, which retired in its stead. -/
theorem of_strips {start : Node} (h : start.Strips n m) (clean : n.LeavesClean)
    (retiring : n.retiring.isSome = true) (bare : m.IsBare) : Heeds frozen n m := by
  have freed := clean.apart retiring
  have away : m.attached ≠ true := fun stays => by
    have left := clean.outside freed
    rw [h.attached stays] at left
    cases left
  refine .of_trust ⟨h.id, h.attached, h.dead, h.released, fun part => ?_, fun _ quiet => ?_,
    fun _ => ⟨fun _ => h.released freed, fun _ => by simpa using away,
      fun _ _ => ⟨h.released freed, fun _ => bare⟩⟩⟩ h.trust fun _ stays => absurd stays away
  · rw [clean.outside freed] at part
    cases part
  · rw [quiet] at retiring
    cases retiring

theorem of_works {serves : ServiceOptions → Prop} (h : n.Works serves m) : Heeds frozen n m := by
  refine .of_rest h.retiring ?_
  rw [h.same]

theorem of_relinks (h : n.Relinks m) : Heeds frozen n m := by
  have departs : n.Departs m := by
    refine .of_same ?_ ?_ ?_ ?_ ?_ fun gone bare => h.2 gone ▸ bare
    all_goals rw [h.1]
  refine .of_departs departs ?_ ?_ ?_
  all_goals rw [h.1]

theorem of_define {spec : CommandSpec} {c : Command} (h : n.define spec = .ok (c, m)) :
    Heeds frozen n m := by
  have same := same_of_define h
  have departs : n.Departs m := by
    refine .of_same ?_ ?_ ?_ ?_ ?_ (bare_of_alive (alive_of_define h))
    all_goals rw [same]
  refine .of_trust departs (by rw [same]) fun readOnly => ?_
  rw [writable_of_define h] at readOnly
  cases readOnly

end Heeds

end Node

namespace TrustChange

/-- The change may get at the tables of a node that is read-only, or makes it writable. -/
def thaws : TrustChange → Bool
  | safe _ | standard _ => true
  | readOnly on => !on
  | trusted | immutable _ => false

variable {c : TrustChange} {n : Node}

theorem heeds_amend {frozen : Prop} (mutable : n.trust.immutable = false) (alive : n.dead = false)
    (held : frozen → c.thaws = false) : n.Heeds frozen (c.amend n) := by
  have departs : n.Departs (c.amend n) := by
    refine .of_same ?_ ?_ ?_ ?_ ?_ (Node.bare_of_alive alive)
    all_goals rw [c.same_amend n]
  refine ⟨departs, fun fixed => ?_, fun marked => ?_, ?_, ?_, fun here readOnly _ => ?_⟩
  · rw [mutable] at fixed
    cases fixed
  · cases c <;> first | exact marked | rfl
  · cases c <;> rfl
  · cases c <;> rfl
  · have cold := held here
    cases c with
    | safe on | standard on => cases cold
    | trusted | immutable on => exact ⟨readOnly, rfl, rfl⟩
    | readOnly on =>
      obtain rfl : on = true := by simpa [thaws] using cold
      exact ⟨rfl, rfl, rfl⟩

end TrustChange

namespace World

variable {frozen : NodeId → Prop} {w v u : World} {i : NodeId} {n m : Node}

/-- Nodes have the numbers of their places, there is a root that is or was part of the tree, and nodes
are released as they leave it. -/
structure IsHeedful (w : World) : Prop where
  numbered : w.IsNumbered
  rooted : ∃ n, w.node? root = some n ∧ (n.attached = true ∨ n.dead = true)
  clean : ∀ i n, w.node? i = some n → n.LeavesClean

theorem IsHeedful.hasJoined_root (inv : w.IsHeedful) : w.HasJoined root := fun n found => by
  obtain ⟨r, foundR, joined⟩ := inv.rooted
  exact Option.some.inj (foundR.symm.trans found) ▸ joined

/-- Every node is still there, as heeding allows. -/
def Heeds (frozen : NodeId → Prop) (w v : World) : Prop :=
  ∀ i n, w.node? i = some n → ∃ n', v.node? i = some n' ∧ n.Heeds (frozen i) n'

theorem Heeds.refl (w : World) : Heeds frozen w w := fun _ n found => ⟨n, found, .refl n⟩

theorem Heeds.trans (h : Heeds frozen w v) (h' : Heeds frozen v u) : Heeds frozen w u := by
  intro i n found
  obtain ⟨m, foundM, first⟩ := h i n found
  obtain ⟨k, foundK, second⟩ := h' i m foundM
  exact ⟨k, foundK, first.trans second⟩

/-- What is tidied up makes no difference. -/
theorem Heeds.of_tidies (h : w.Tidies v) : Heeds frozen w v ∧ Heeds frozen v w := by
  refine ⟨fun i n found => ?_, fun i n' found' => ?_⟩
  · obtain ⟨n', found', tidies⟩ := h.node i n found
    exact ⟨n', found', .of_tidies tidies⟩
  · obtain ⟨n, found, tidies⟩ := h.node_back found'
    exact ⟨n, found, .of_tidies tidies.symm⟩

theorem composes_heeds (frozen : NodeId → Prop) :
    Composes fun i => Node.Heeds (frozen i) :=
  ⟨fun _ => .refl, fun _ _ _ _ => .trans⟩

/-- Whether a change of trust of node `i` would be granted to a caller. -/
def grants (w : World) (c : TrustChange) (caller : NodeId) (path : Text) (i : NodeId) : Bool :=
  (w.node? caller).any (fun k => !k.trust.safe) && w.resolve? caller path = some i &&
    (w.node? i).any fun n => !n.trust.immutable && c.isDue n.trust

theorem grants_of_takes {c : TrustChange} {caller : NodeId} {path : Text}
    (takes : c.Takes caller path i n w v) : w.grants c caller path i = true := by
  obtain ⟨k, asker, trusted⟩ := takes.asker
  simp [grants, asker, trusted, takes.resolved, takes.amends.found, takes.mutable, takes.due]

end World

/-- Whether a request is for a change of trust that thaws node `s`, and will be granted. -/
def Request.thaws (s : NodeId) (r : Request) (w : World) : Bool :=
  match r with
  | .perform call .ensemble =>
    match call.args with
    | [] => false
    | name :: words =>
      match Control.trustWords name words with
      | some (path, c) => c.thaws && w.grants c call.node path s
      | none => false
  | _ => false

/-- Runs of any scripts, given up before a frozen node is thawed. Where a node is gone no visible
command is called. What a run that is given up would have come to heeds, unless `onward` says
otherwise. -/
def Regime.heeding (frozen : NodeId → Prop) (onward : World → World → Prop := World.Heeds frozen) :
    Regime where
  inv := World.IsHeedful
  rel := World.Heeds frozen
  zone _ := True
  admits _ _ := True
  serves _ _ := True
  permits r w := ∀ s, frozen s → r.thaws s w = false
  comes id w := ∀ n, w.node? id = some n → n.isGone = false
  onward := onward
  strays w v := v.IsHeedful ∧ w.Heeds frozen v

namespace Regime

variable {frozen : NodeId → Prop} {w v : World} {id : NodeId}

theorem allows_heeding (frozen : NodeId → Prop) :
    (heeding frozen).Allows fun i => Node.Heeds (frozen i) where
  composes := World.composes_heeds frozen
  leads {w v} inv each := by
    refine ⟨⟨each.isNumbered (fun _ _ _ heeds => heeds.id) inv.numbered, ?_, fun i n' found' => ?_⟩,
      each.node⟩
    · have departs : World.Departs w v := each.mono fun _ _ _ heeds => heeds.toDeparts
      obtain ⟨r, found, -⟩ := inv.rooted
      obtain ⟨r', found', -⟩ := each.node World.root r found
      exact ⟨r', found', departs.hasJoined inv.hasJoined_root r' found'⟩
    · obtain ⟨n, found, heeds⟩ := each.node_back found'
      exact heeds.clean (inv.clean i n found)

theorem heeds_of_wanes {Z : NodeId → Prop} (inv : w.IsHeedful) (wanes : World.Wanes Z w v)
    (departs : World.Departs w v) : (heeding frozen).Leads w v :=
  (allows_heeding frozen).leads inv ((wanes.nodes.and departs).mono fun _ _ _ change =>
    .of_fades change.2 change.1.1)

/-- One node more. -/
theorem heeds_of_enrolls {m : Node} (inv : w.IsHeedful) (numbered : v.IsNumbered)
    (clean : m.LeavesClean) (enrolls : World.Enrolls m w v) : (heeding frozen).Leads w v := by
  refine ⟨⟨numbered, ?_, fun i n' found' => ?_⟩, fun i n found => ?_⟩
  · obtain ⟨r, found, joined⟩ := inv.rooted
    obtain ⟨r', found', relinks⟩ := enrolls.old World.root r found
    rw [relinks.1] at found'
    exact ⟨_, found', joined⟩
  · rcases enrolls.new i n' found' with rfl | ⟨n, found, relinks⟩
    · exact clean
    · have heeds : n.Heeds False n' := .of_relinks relinks
      exact heeds.clean (inv.clean i n found)
  · obtain ⟨n', found', relinks⟩ := enrolls.old i n found
    exact ⟨n', found', .of_relinks relinks⟩

theorem heeds_of_grows {options : CreateOptions} {caller parent : NodeId} {name path : Text}
    {c p m : Node} (inv : w.IsHeedful) (resolved : w.resolve? caller path = some parent)
    (grows : World.Grows parent name m w v)
    (child : Op.IsChild options name c p (w.nodes.size + 1) m) : (heeding frozen).Leads w v :=
  heeds_of_enrolls inv (grows.isNumbered child.id_eq inv.numbered) child.leavesClean
    (grows.enrolls fun _ => World.alive_of_resolved inv.numbered resolved)

theorem heeds_of_gains {parent : NodeId} {trust : Trust} {n m : Node} (inv : w.IsHeedful)
    (gains : World.Gains m w v) (isNew : n.IsNew (w.nodes.size + 1) parent trust)
    (detached : n.attached = false) (empty : n.commands = []) (strips : n.Strips n m)
    (released : m.released = true) : (heeding frozen).Leads w v :=
  heeds_of_enrolls inv (gains.isNumbered (strips.id.trans isNew.id) inv.numbered)
    (isNew.leavesClean detached empty strips released) gains.enrolls

/-- A change of trust that thaws no frozen node. -/
theorem heeds_of_takes {c : TrustChange} {caller s : NodeId} {path : Text} {n : Node}
    (inv : w.IsHeedful) (takes : c.Takes caller path s n w v) (held : frozen s → c.thaws = false) :
    (heeding frozen).Leads w v :=
  (allows_heeding frozen).leads inv (takes.amends.each (World.composes_heeds frozen)
    (TrustChange.heeds_amend takes.mutable
      (World.alive_of_resolved inv.numbered takes.resolved takes.amends.found) held))

/-- What a subcommand does that runs no scripts. -/
theorem heeds_of_does {call : Call} {name : Text} {words : List Text} (inv : w.IsHeedful)
    (permitted : (heeding frozen).permits (.perform call .ensemble) w)
    (args : call.args = name :: words) (did : Control.Does (.of call name) words w v) :
    (heeding frozen).Leads w v := by
  have allows := allows_heeding frozen
  cases did with
  | rests rests => exact allows.same inv rests.nodes
  | stirs target path resolved changes =>
    exact allows.changed inv changes fun _ _ _ stirs => .of_stirs stirs
  | grows options name path parent c p m asker resolved found grows child =>
    exact heeds_of_grows inv resolved grows child
  | spoils options path parent c p n m asker resolved found gains isNew detached bare strips released =>
    exact heeds_of_gains inv gains isNew detached bare strips released
  | wanes wanes departs => 
    exact heeds_of_wanes inv (wanes _ (World.isClosed_all w) trivial) departs
  | governs c asker trusted changes =>
    exact allows.leads inv (changes.mono fun _ _ _ governed => .of_isGoverned governed)
  | trusts change path target n asked takes =>
    refine heeds_of_takes inv takes fun held => ?_
    have kept := permitted target held
    have granted : w.grants change call.node path target = true := World.grants_of_takes takes
    have words : Control.trustWords name words = some (path, change) := asked
    simpa [Request.thaws, args, words, granted] using kept
  | posts named target path force unwind message asked resolved posted =>
    exact allows.posted inv posted fun _ c _ _ => .of_cancel c
  | resets named target path force n asked resolved found supervised reset =>
    exact reset ▸ allows.modify inv fun _ _ => .of_cancel _
  | dedicates named target path options n worker asked resolved found alive supervised submitted
      hired =>
    exact hired ▸ allows.modify inv fun _ _ => .of_rest rfl rfl

theorem lawful_heeding (frozen : NodeId → Prop) : (heeding frozen).Lawful where
  refl _ := .refl _
  trans h h' := h.trans h'
  numbered inv := inv.numbered
  resolve _ _ _ := .inl trivial
  visible inv _ found visible := by
    refine ⟨trivial, fun m here => Bool.eq_false_iff.mpr fun gone => ?_⟩
    obtain rfl := Option.some.inj (found.symm.trans here)
    rw [((inv.clean _ _ found).isBare gone).commands] at visible
    cases visible
  hidden _ _ _ _ _ _ _ := trivial
  forward _ _ _ := .inl trivial
  asks _ _ _ _ _ := .inr fun _ _ _ => .inl ⟨trivial, trivial⟩
  barred closed := closed.elim
  shields _ _ _ closed := closed.elim
  gone denier := denier.elim
  attends _ _ _ _ _ := id
  onward_trans on led := on.trans led.2
  onward_tidy tidied tidied' on := ((World.Heeds.of_tidies tidied).2.trans on).trans
    (World.Heeds.of_tidies tidied').1
  onward_strays on strayed := on.trans strayed.2
  strays_trans led strayed := ⟨strayed.1, led.2.trans strayed.2⟩
  strays_pushed inv _ _ strayed := ⟨strayed.1,
    ((allows_heeding frozen).pushed (fun _ _ => .of_rest rfl rfl) inv).2.trans strayed.2⟩
  strays_entered inv _ strayed :=
    ⟨strayed.1, ((allows_heeding frozen).modify inv fun _ _ => .of_cancel _).2.trans strayed.2⟩
  overtakes _ _ _ _ strayed := (allows_heeding frozen).overtaken (fun h h' => h.trans h')
    (fun _ => .of_rest rfl rfl) strayed
  staff _ _ _ _ := ⟨trivial, fun _ _ => trivial⟩
  serve _ _ _ _ _ _ _ _ := trivial
  rests inv rests := (allows_heeding frozen).same inv rests.nodes
  host _ inv _ := (allows_heeding frozen).same inv rfl
  look inv _ _ := (allows_heeding frozen).looked inv fun _ => .of_cancel _
  stirs inv _ changes := (allows_heeding frozen).changed inv changes fun _ _ _ stirs =>
    .of_stirs stirs
  defines inv _ found _ defined := (allows_heeding frozen).replace inv found (.of_define defined)
  push inv _ _ _ := ((allows_heeding frozen).pushed (fun _ _ => .of_rest rfl rfl) inv).1
  pop inv _ _ led := (allows_heeding frozen).popped (fun h h' => h.trans h')
    (fun _ _ => .of_rest rfl rfl) inv led
  enter inv _ _ _ := ((allows_heeding frozen).modify inv fun _ _ => .of_cancel _).1
  exit inv _ led := (allows_heeding frozen).evaluated (fun h h' => h.trans h')
    (fun _ c => .of_cancel c) inv led
  leave inv _ _ := (allows_heeding frozen).left inv fun _ _ => .of_cancel _
  works inv _ h := (allows_heeding frozen).modify inv fun n found => .of_works (h n found)
  retires inv _ found retiring changes bare := (allows_heeding frozen).released inv found changes bare
    fun _ strips => .of_strips strips (inv.clean _ _ found) retiring
  does inv _ permitted args did := heeds_of_does inv permitted args did

/-- The same of runs that are given up where they would have been anyway. -/
theorem lawful_heeding_strictly (frozen : NodeId → Prop) : (heeding frozen fun _ _ => False).Lawful :=
  { lawful_heeding frozen with
    onward_trans := fun on _ => on
    onward_tidy := fun _ _ on => on
    onward_strays := fun on _ => on }

end Regime

end InterpTree
