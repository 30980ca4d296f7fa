import InterpTree.Proofs.Lasting
import InterpTree.Proofs.Nodes
import InterpTree.Proofs.Schedules
import InterpTree.Tree.Share

/-!
What removals do. A node that goes away loses its registries and leaves the tree; a node that stays
loses links and may get another path. `Wanes Z w v` says that `v` comes from `w` by removals of nodes
in the zone `Z`: outside of it nodes lose links and nothing else.
-/

namespace InterpTree

/-- The items that a worker has still to be done with. -/
def Worker.items {ι : Type} (w : Worker ι) : List (Text × ι) := w.running.toList ++ w.queue

namespace Node

/-- No service loop on a worker of the node was asked to clear cancellations. -/
def IsPatient (n : Node) : Prop :=
  ∀ loop ∈ n.worker.toList ++ n.retiring.toList, ∀ item ∈ loop.items,
    item.2.options.noCancel = false

instance (n : Node) : Decidable n.IsPatient :=
  inferInstanceAs (Decidable (∀ loop ∈ n.worker.toList ++ n.retiring.toList, ∀ item ∈ loop.items,
    item.2.options.noCancel = false))

/-- No worker runs service loops on the node. -/
def IsIdle (n : Node) : Prop := n.worker = none ∧ n.retiring = none

/-- Nothing is registered in the node, and no links start there. -/
structure IsBare (n : Node) : Prop where
  links : n.links = []
  commands : n.commands = []
  aliases : n.aliases = []
  policies : n.policies = []
  objects : n.objects = []

/-- How many evaluations are running in the node, and its call frames, the innermost first. -/
def level (n : Node) : Nat × List Frame := (n.cancel.depth, n.frames.frames)

/-- What may become of a node by removals, whatever it holds in the end: nothing comes to it. The
last parts say that it keeps being canceled and gets no worker, unless its workers stood in the way
at the `start` of the removals. -/
structure Strips (start n n' : Node) : Prop where
  id : n'.id = n.id
  parent : n'.parent = n.parent
  trust : n'.trust = n.trust
  level : n'.level = n.level
  unfinished : n'.unfinished = n.unfinished
  attached : n'.attached = true → n.attached = true
  dead : n.dead = true → n'.dead = true
  released : n.released = true → n'.released = true
  links : n'.links.Sublist n.links
  commands : n'.commands.Sublist n.commands
  aliases : n'.aliases.Sublist n.aliases
  policies : n'.policies.Sublist n.policies
  objects : n'.objects.Sublist n.objects
  queue : n.queue.Leads n'.queue
  lasting : start.IsPatient → (n.IsPatient → n'.IsPatient) ∧ n.cancel.Lasts n'.cancel
  idle : start.IsIdle → n.IsIdle → n'.IsIdle

/-- What removals do to a node: one that stays part of the tree loses links and may get another
path, and nothing else is different. -/
structure Fades (n n' : Node) : Prop extends Strips n n n' where
  kept : n'.attached = true → n.attached = true ∧
    n' = { n with
      path := n'.path, home := n'.home, dead := n'.dead, sharedLinks := n'.sharedLinks
      links := n'.links }

theorem Strips.trans {start n m k : Node} (h : Strips start n m) (h' : Strips start m k) :
    Strips start n k where
  id := h'.id.trans h.id
  parent := h'.parent.trans h.parent
  trust := h'.trust.trans h.trust
  level := h'.level.trans h.level
  unfinished := h'.unfinished.trans h.unfinished
  attached a := h.attached (h'.attached a)
  dead d := h'.dead (h.dead d)
  released r := h'.released (h.released r)
  links := h'.links.trans h.links
  commands := h'.commands.trans h.commands
  aliases := h'.aliases.trans h.aliases
  policies := h'.policies.trans h.policies
  objects := h'.objects.trans h.objects
  queue := h.queue.trans h'.queue
  lasting p :=
    ⟨fun q => (h'.lasting p).1 ((h.lasting p).1 q), (h.lasting p).2.trans (h'.lasting p).2⟩
  idle p q := h'.idle p (h.idle p q)

/-- Changes that concern neither the registries of a node nor its links and workers. -/
theorem Strips.of_rest {start n n' : Node} (dead : n.dead = true → n'.dead = true)
    (released : n.released = true → n'.released = true) (lasts : n.cancel.Lasts n'.cancel)
    (same : n' = { n with
      path := n'.path, home := n'.home, dead := n'.dead, released := n'.released, ended := n'.ended
      sharedLinks := n'.sharedLinks, cancel := n'.cancel }) :
    Strips start n n' := by
  have keeps {α : Type} {l l' : List α} (h : l' = l) : l'.Sublist l := h ▸ .refl l'
  have level : n'.level = n.level := Prod.ext lasts.depth (by rw [same]; rfl)
  refine ⟨by rw [same], by rw [same], by rw [same], level, by rw [same], fun a => ?_, dead, released,
    keeps (by rw [same]), keeps (by rw [same]), keeps (by rw [same]), keeps (by rw [same]),
    keeps (by rw [same]), ?_, fun _ => ⟨fun p => ?_, lasts⟩, fun _ q => ?_⟩
  · rw [same] at a
    exact a
  · rw [same]
    exact .refl _
  · rw [same]
    exact p
  · rw [same]
    exact q

theorem Strips.refl (start n : Node) : Strips start n n :=
  .of_rest (fun d => d) (fun r => r) (.refl _) rfl

/-- Changes that removals may make to every node. -/
theorem Fades.of_kept {n n' : Node} (dead : n.dead = true → n'.dead = true)
    (kept : n' = { n with
      path := n'.path, home := n'.home, dead := n'.dead, sharedLinks := n'.sharedLinks }) :
    Fades n n' := by
  have cancel : n'.cancel = n.cancel := by rw [kept]
  have links : n'.links = n.links := by rw [kept]
  refine ⟨.of_rest dead (fun r => by rw [kept]; exact r) (cancel ▸ .refl _) (by rw [kept]),
    fun h => ⟨by rw [kept] at h; exact h, ?_⟩⟩
  rw [links]
  exact kept

theorem Fades.refl (n : Node) : Fades n n := .of_kept (fun d => d) rfl

theorem Fades.trans {n m k : Node} (h : Fades n m) (h' : Fades m k) : Fades n k := by
  have strips' : Strips n m k :=
    { h'.toStrips with
      lasting := fun p => h'.lasting ((h.lasting p).1 p)
      idle := fun q => h'.idle (h.idle q q) }
  refine ⟨h.toStrips.trans strips', fun stays => ?_⟩
  obtain ⟨stays', kept'⟩ := h'.kept stays
  obtain ⟨stays'', kept⟩ := h.kept stays'
  refine ⟨stays'', ?_⟩
  rw [kept'] at *
  rw [kept]

theorem fades_links {links : List Link} {n : Node} (fewer : links.Sublist n.links) :
    Fades n { n with links } :=
  ⟨⟨rfl, rfl, rfl, rfl, rfl, fun a => a, fun d => d, fun r => r, fewer, .refl _, .refl _, .refl _, .refl _,
    .refl _, fun _ => ⟨fun p => p, .refl _⟩, fun _ q => q⟩, fun stays => ⟨stays, rfl⟩⟩

theorem fades_unlink (name : Text) (target : NodeId) (n : Node) :
    Fades n (n.unlink name target) :=
  fades_links List.filter_sublist

/-- A stripped node that left the tree. -/
theorem Strips.fades {n n' : Node} (h : Strips n n n') :
    Fades n { n' with attached := false } :=
  ⟨{ h with attached := fun a => Bool.noConfusion a }, fun a => Bool.noConfusion a⟩

end Node

/-- The host notes things down, and nothing else happens to it: no file changes except that a log
file is opened for the first record. -/
structure Host.Notes (h h' : Host) : Prop where
  exits : h'.exits = h.exits
  files : (h'.files = h.files ∧ h'.logFile = h.logFile) ∨
    ∃ path store, h.logFile = some path ∧ h.files = some store ∧ h'.logFile = none ∧
      h'.files = some { store with table := store.table.ensureFile path }

namespace Host.Notes

variable {h h' h'' : Host}

theorem refl (h : Host) : Notes h h := ⟨rfl, .inl ⟨rfl, rfl⟩⟩

theorem trans (first : Notes h h') (second : Notes h' h'') : Notes h h'' := by
  refine ⟨second.exits.trans first.exits, ?_⟩
  rcases first.files with ⟨files, logFile⟩ | ⟨path, store, wanted, files, opened, table⟩
  · rw [← files, ← logFile]
    exact second.files
  · rcases second.files with ⟨files', logFile'⟩ | ⟨path', _, wanted', _, _, _⟩
    · exact .inr ⟨path, store, wanted, files, logFile'.trans opened, files'.trans table⟩
    · rw [opened] at wanted'
      cases wanted'

theorem keep (record : LogRecord) (h : Host) : Notes h (h.keep record) := by
  unfold Host.keep
  dsimp only
  split
  · rename_i path store wanted files
    exact ⟨rfl, .inr ⟨path, store, wanted, files, rfl, rfl⟩⟩
  · exact ⟨rfl, .inl ⟨rfl, rfl⟩⟩

end Host.Notes

namespace World

variable {w v u : World} {P Q : NodeId → Node → Node → Prop} {Z : NodeId → Prop}

/-- Apart from its nodes `v` is as `w`, except that the host may have noted something down. -/
structure Still (w v : World) : Prop where
  objects : v.objects = w.objects
  settings : v.settings = w.settings
  clock : v.clock = w.clock
  host : w.host.Notes v.host

namespace Still

theorem refl (w : World) : Still w w := ⟨rfl, rfl, rfl, .refl _⟩

theorem trans (h : Still w v) (h' : Still v u) : Still w u :=
  ⟨h'.objects.trans h.objects, h'.settings.trans h.settings, h'.clock.trans h.clock,
    h.host.trans h'.host⟩

theorem modifyNode (id : NodeId) (f : Node → Node) (w : World) : Still w (w.modifyNode id f) := by
  unfold World.modifyNode
  split
  · exact .refl w
  · exact ⟨rfl, rfl, rfl, .refl _⟩

theorem log (level : Level) (message : Text) (fields : List (Text × Text)) (w : World) :
    Still w (w.log level message fields) := by
  unfold World.log
  split
  · exact .refl w
  · split
    · exact ⟨rfl, rfl, rfl, .keep _ _⟩
    · exact .refl w

theorem logNode (level : Level) (id : NodeId) (message : Text) (fields : List (Text × Text))
    (w : World) : Still w (w.logNode level id message fields) := by
  unfold World.logNode
  split
  · exact .refl w
  · exact log _ _ _ w

end Still

/-- `v` comes from `w` by changes to nodes as `P` allows. -/
structure Changes (P : NodeId → Node → Node → Prop) (w v : World) : Prop where
  nodes : Each P w v
  still : Still w v

namespace Changes

theorem refl (c : Composes P) (w : World) : Changes P w w := ⟨.refl c w, .refl w⟩

theorem trans (c : Composes P) (h : Changes P w v) (h' : Changes P v u) : Changes P w u :=
  ⟨h.nodes.trans c h'.nodes, h.still.trans h'.still⟩

theorem mono (h : Changes P w v) (weaker : ∀ i n n', P i n n' → Q i n n') : Changes Q w v :=
  ⟨h.nodes.mono weaker, h.still⟩

theorem modifyNode (c : Composes P) {id : NodeId} {f : Node → Node}
    (h : ∀ n, w.node? id = some n → P id n (f n)) : Changes P w (w.modifyNode id f) :=
  ⟨.modifyNode c f h, .modifyNode id f w⟩

theorem modifyHost (c : Composes P) {f : Host → Host} (h : w.host.Notes (f w.host)) :
    Changes P w (w.modifyHost f) :=
  ⟨.of_nodes_eq c rfl, rfl, rfl, rfl, h⟩

theorem logNode (c : Composes P) (level : Level) (id : NodeId) (message : Text)
    (fields : List (Text × Text)) (w : World) :
    Changes P w (w.logNode level id message fields) :=
  ⟨.of_nodes_eq c (nodes_logNode _ _ _ _ w), .logNode _ _ _ _ w⟩

/-- What follows concerns no nodes. -/
theorem followed (h : Changes P w v) (nodes : u.nodes = v.nodes) (still : Still v u) :
    Changes P w u := by
  refine ⟨⟨(congrArg Array.size nodes).trans h.nodes.size, fun i n found => ?_⟩, h.still.trans still⟩
  obtain ⟨n', found', change⟩ := h.nodes.node i n found
  exact ⟨n', (node?_congr nodes i).trans found', change⟩

theorem foldl (c : Composes P) {α : Type} (f : World → α → World)
    (step : ∀ w a, Changes P w (f w a)) (as : List α) (w : World) : Changes P w (as.foldl f w) := by
  induction as generalizing w with
  | nil => exact .refl c w
  | cons a as ih => exact (step w a).trans c (ih (f w a))

end Changes

/-- Only node `id` is changed, and that as `P` allows. -/
def At (id : NodeId) (P : Node → Node → Prop) (i : NodeId) (n n' : Node) : Prop :=
  if i = id then P n n' else n' = n

theorem at_same {id : NodeId} {P : Node → Node → Prop} {n n' : Node} : At id P id n n' ↔ P n n' := by
  rw [At, if_pos rfl]

theorem at_ne {id i : NodeId} {P : Node → Node → Prop} {n n' : Node} (h : i ≠ id) :
    At id P i n n' ↔ n' = n := by
  rw [At, if_neg h]

/-- What follows of a change of one node. -/
theorem Each.of_at {id : NodeId} {P : Node → Node → Prop} {R : NodeId → Node → Node → Prop}
    (c : Composes R) (h : Each (At id P) w v)
    (change : ∀ n n', w.node? id = some n → v.node? id = some n' → P n n' → R id n n') :
    Each R w v := by
  refine ⟨h.size, fun i n found => ?_⟩
  obtain ⟨n', found', here⟩ := h.node i n found
  refine ⟨n', found', ?_⟩
  by_cases same : i = id
  · subst same
    exact change n n' found found' (at_same.mp here)
  · rw [(at_ne same).mp here]
    exact c.refl i n

theorem composes_at (id : NodeId) {P : Node → Node → Prop} (refl : ∀ n, P n n)
    (trans : ∀ {n m k}, P n m → P m k → P n k) : Composes (At id P) := by
  constructor
  · intro i n
    by_cases same : i = id
    · exact same ▸ at_same.mpr (refl n)
    · exact (at_ne same).mpr rfl
  · intro i n m k h h'
    by_cases same : i = id
    · subst same
      exact at_same.mpr (trans (at_same.mp h) (at_same.mp h'))
    · exact (at_ne same).mpr (((at_ne same).mp h').trans ((at_ne same).mp h))

/-- The change of one node, whether or not such changes compose. -/
theorem changes_modifyNode {id : NodeId} {P : Node → Node → Prop} {f : Node → Node}
    (h : ∀ n, w.node? id = some n → P n (f n)) : Changes (At id P) w (w.modifyNode id f) := by
  refine ⟨⟨size_modifyNode id f w, fun i n found => ?_⟩, .modifyNode id f w⟩
  by_cases here : i = id
  · subst here
    exact ⟨f n, node?_modifyNode_same f found, at_same.mpr (h n found)⟩
  · exact ⟨n, (node?_modifyNode_ne f here).trans found, (at_ne here).mpr rfl⟩

/-- What removals of nodes of the zone `Z` do to node `i`. -/
def WanesAt (Z : NodeId → Prop) (i : NodeId) (n n' : Node) : Prop :=
  n.Fades n' ∧ (¬ Z i → n' = { n with links := n'.links })

/-- `v` comes from `w` by removals of nodes of the zone `Z`. -/
def Wanes (Z : NodeId → Prop) : World → World → Prop := Changes (WanesAt Z)

/-- Links that start in the zone `Z` end there. -/
def IsClosed (Z : NodeId → Prop) (w : World) : Prop :=
  ∀ i n, w.node? i = some n → Z i → ∀ l ∈ n.links, Z l.target

theorem isClosed_all (w : World) : w.IsClosed fun _ => True := fun _ _ _ _ _ _ => trivial

theorem composes_wanesAt : Composes (WanesAt Z) := by
  refine ⟨fun i n => ⟨.refl n, fun _ => rfl⟩, fun i n m k h h' => ⟨h.1.trans h'.1, fun outside => ?_⟩⟩
  rw [h'.2 outside, h.2 outside]

theorem WanesAt.of_zone {i : NodeId} {n n' : Node} (inside : Z i) (h : n.Fades n') :
    WanesAt Z i n n' :=
  ⟨h, fun outside => absurd inside outside⟩

namespace Wanes

theorem refl (w : World) : Wanes Z w w := Changes.refl composes_wanesAt w

theorem trans (h : Wanes Z w v) (h' : Wanes Z v u) : Wanes Z w u := Changes.trans composes_wanesAt h h'

theorem modifyNode {id : NodeId} {f : Node → Node} (inside : Z id)
    (h : ∀ n, w.node? id = some n → n.Fades (f n)) : Wanes Z w (w.modifyNode id f) :=
  Changes.modifyNode composes_wanesAt fun n found => .of_zone inside (h n found)

theorem unlink (holder : NodeId) (name : Text) (target : NodeId) :
    Wanes Z w (w.modifyNode holder (Node.unlink name target)) :=
  Changes.modifyNode composes_wanesAt fun n _ => ⟨n.fades_unlink name target, fun _ => rfl⟩

theorem logNode (level : Level) (id : NodeId) (message : Text) (fields : List (Text × Text))
    (w : World) : Wanes Z w (w.logNode level id message fields) :=
  Changes.logNode composes_wanesAt level id message fields w

theorem isClosed (h : Wanes Z w v) (closed : w.IsClosed Z) : v.IsClosed Z := by
  intro i n' found' inside l mem
  obtain ⟨n, found, fades, _⟩ := h.nodes.node_back found'
  exact closed i n found inside l (fades.links.subset mem)

/-- The zone is still closed when a second removal starts. -/
theorem andThen (closed : w.IsClosed Z) (first : Wanes Z w v)
    (next : v.IsClosed Z → Wanes Z v u) : Wanes Z w u :=
  first.trans (next (first.isClosed closed))

/-- Removals one after the other; each may use that the zone is still closed. -/
theorem foldl {α : Type} {as : List α} {f : World → α → World}
    (step : ∀ w, ∀ a ∈ as, w.IsClosed Z → Wanes Z w (f w a)) (closed : w.IsClosed Z) :
    Wanes Z w (as.foldl f w) := by
  induction as generalizing w with
  | nil => exact refl w
  | cons a as ih =>
    exact andThen closed (step w a List.mem_cons_self closed)
      (ih fun v b mem => step v b (List.mem_cons_of_mem a mem))

end Wanes

end World

end InterpTree
