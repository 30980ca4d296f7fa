import InterpTree.Proofs.Removal
import InterpTree.Proofs.Edits

/-!
What making and sharing nodes does. A new node stands at the end of the list of nodes and has no
links; making and sharing each add one link, and change no other.
-/

namespace InterpTree

/-- The definitions that new nodes may be populated with. -/
def stockSpecs : List CommandSpec := Builtin.table.map Builtin.spec ++ [ensembleSpec]

theorem mem_stockSpecs_of_builtin {profile : Profile} {spec : CommandSpec}
    (mem : spec ∈ Builtin.specs profile) : spec ∈ stockSpecs := by
  obtain ⟨entry, inTable, rfl⟩ := List.mem_map.mp mem
  exact List.mem_append_left _ (List.mem_map_of_mem (List.mem_filter.mp inTable).1)

theorem mem_stockSpecs_of_full {profile : Profile} {spec : CommandSpec}
    (mem : spec ∈ Builtin.specs profile ++ [ensembleSpec]) : spec ∈ stockSpecs := by
  rcases List.mem_append.mp mem with builtin | ensemble
  · exact mem_stockSpecs_of_builtin builtin
  · exact List.mem_append_right _ ensemble

/-- A definition as a population made it. -/
def Entry.IsStock (e : Entry) : Prop :=
  e.hidden = false ∧
    ∃ spec ∈ stockSpecs, e.command.flags = spec.flags ∧ spec.action = some e.command.action

namespace Node

variable {n n' : Node} {safe : Bool}

/-- `n'` is `n` with other commands, all of them stock if those of `n` are, and no more aliases. -/
structure IsStocked (n n' : Node) : Prop where
  same : n' = { n with seq := n'.seq, commands := n'.commands, aliases := n'.aliases }
  aliases : n.aliases = [] → n'.aliases = []
  commands : (∀ e ∈ n.commands, e.IsStock) → ∀ e ∈ n'.commands, e.IsStock
  evolves : n.Evolves n'

theorem IsStocked.refl (n : Node) : IsStocked n n := ⟨rfl, fun h => h, fun h => h, .refl⟩

theorem IsStocked.trans {k : Node} (h : IsStocked n n') (h' : IsStocked n' k) : IsStocked n k := by
  refine ⟨?_, fun a => h'.aliases (h.aliases a), fun c => h'.commands (h.commands c),
    h.evolves.trans h'.evolves⟩
  rw [h'.same, h.same]

theorem same_of_clears {name : Text} (h : Clears name n n') :
    n' = { n with seq := n'.seq, commands := n'.commands, aliases := n'.aliases } := by
  rcases h with ⟨-, rfl⟩ | ⟨old, -, erased⟩
  · rfl
  · rw [of_eraseCommand erased]

theorem isStocked_clears {name : Text} (h : Clears name n n') : IsStocked n n' := by
  refine ⟨same_of_clears h, fun none => ?_, fun stock e mem => ?_, h.evolves⟩
  all_goals rcases h with ⟨-, rfl⟩ | ⟨old, -, erased⟩
  · exact none
  · rw [of_eraseCommand erased, none, List.filter_nil]
  · exact stock e mem
  · rw [of_eraseCommand erased] at mem
    exact stock e (List.mem_filter.mp mem).1

/-- Defining a command changes no more than the commands and aliases of a node. -/
theorem same_of_define {spec : CommandSpec} {c : Command} (h : n.define spec = .ok (c, n')) :
    n' = { n with seq := n'.seq, commands := n'.commands, aliases := n'.aliases } := by
  obtain ⟨action, m, -, -, clears, put⟩ := of_define h
  obtain ⟨-, rfl⟩ := Prod.mk.inj put
  rw [same_of_clears clears]

theorem not_forward_of_stock {spec : CommandSpec} (stock : spec ∈ stockSpecs) (a : Alias) :
    spec.action ≠ some (.forward a) := by
  rcases List.mem_append.mp stock with builtin | ensemble
  · obtain ⟨entry, -, rfl⟩ := List.mem_map.mp builtin
    simp [Builtin.spec]
  · obtain rfl := List.mem_singleton.mp ensemble
    simp [ensembleSpec]

theorem isStocked_define {spec : CommandSpec} {c : Command} (stock : spec ∈ stockSpecs)
    (h : n.define spec = .ok (c, n')) : IsStocked n n' := by
  have evolves := evolves_define (not_forward_of_stock stock) h
  obtain ⟨action, m, does, -, clears, put⟩ := of_define h
  have first := isStocked_clears clears
  refine ⟨same_of_define h, fun none => ?_, fun stocked e mem => ?_, evolves⟩
  all_goals obtain ⟨rfl, rfl⟩ := Prod.mk.inj put
  · exact first.aliases none
  · rcases List.mem_append.mp mem with old | new
    · exact first.commands stocked e old
    · obtain rfl := List.mem_singleton.mp new
      exact ⟨rfl, spec, stock, rfl, does⟩

theorem isStocked_defineAll {specs : List CommandSpec} (stock : ∀ spec ∈ specs, spec ∈ stockSpecs)
    (h : n.defineAll specs = .ok n') : IsStocked n n' := by
  induction specs generalizing n with
  | nil =>
    obtain rfl : n = n' := by simpa [defineAll, pure, Except.pure] using h
    exact .refl n
  | cons spec specs ih =>
    simp only [defineAll, List.foldlM_cons] at h
    cases defined : n.define spec with
    | error f => simp [defined, Except.map, bind, Except.bind] at h
    | ok result =>
      obtain ⟨c, m⟩ := result
      simp only [defined, Except.map, bind, Except.bind] at h
      exact (isStocked_define (stock spec List.mem_cons_self) defined).trans
        (ih (fun s mem => stock s (List.mem_cons_of_mem spec mem)) h)

theorem isStocked_populate {settings : Settings} {populated : Nat}
    (h : settings.populate populated n = .ok n') : IsStocked n n' := by
  unfold Settings.populate at h
  simp only [bind, Except.bind, pure, Except.pure] at h
  repeat' split at h
  all_goals first | contradiction | skip
  · obtain rfl := Except.ok.inj h
    exact .refl n
  · exact isStocked_defineAll (fun _ => mem_stockSpecs_of_builtin) h
  · exact isStocked_defineAll (fun _ => mem_stockSpecs_of_full) h
  · rename_i defined _
    obtain rfl := Except.ok.inj h
    exact isStocked_defineAll (fun _ => mem_stockSpecs_of_builtin) defined

end Node

theorem Node.join_eq (n : Node) : n.join = { n with commands := n.join.commands, attached := true } := by
  unfold join hideDistrusted
  dsimp only
  split <;> split <;> rfl

/-- How a new node starts: numbered, linked to nothing, without work and registries, and with no
other commands than stock. -/
structure Node.IsNew (id : NodeId) (parent : NodeId) (trust : Trust) (n : Node) : Prop where
  id : n.id = id
  parent : n.parent = parent
  trust : n.trust = trust
  released : n.released = false
  ended : n.ended = false
  shared : n.shared = false
  sharedLinks : n.sharedLinks = []
  links : n.links = []
  aliases : n.aliases = []
  policies : n.policies = []
  objects : n.objects = []
  queue : n.queue = { owner := n.id }
  worker : n.worker = none
  retiring : n.retiring = none
  level : n.level = (0, [])
  unfinished : n.unfinished = none
  commands : ∀ e ∈ n.commands, e.IsStock
  consistent : n.IsConsistent

namespace Node

variable {id parent : NodeId} {trust : Trust}

theorem isNew_fresh (name path : Text) (limits : Limits) (now : Int) :
    (fresh id name parent path trust limits now).IsNew id parent trust :=
  ⟨rfl, rfl, rfl, rfl, rfl, rfl, rfl, rfl, rfl, rfl, rfl, rfl, rfl, rfl, rfl, rfl,
    fun _ mem => absurd mem List.not_mem_nil, .of_empty rfl rfl⟩

theorem IsNew.stocked {n n' : Node} (h : n.IsNew id parent trust) (stocked : n.IsStocked n') :
    n'.IsNew id parent trust := by
  have aliases := stocked.aliases h.aliases
  have commands := stocked.commands h.commands
  have consistent := h.consistent.evolves stocked.evolves
  rw [stocked.same] at consistent ⊢
  exact ⟨h.id, h.parent, h.trust, h.released, h.ended, h.shared, h.sharedLinks, h.links, aliases,
    h.policies, h.objects, h.queue, h.worker, h.retiring, h.level,
    h.unfinished, commands, consistent⟩

end Node

/-- The node may have other links than before, if it is alive. -/
def Node.Relinks (n n' : Node) : Prop :=
  n' = { n with links := n'.links } ∧ (n.dead = true → n' = n)

namespace World

variable {w v : World} {m : Node}

/-- `v` has one node more than `w`, which is `m`. -/
structure Gains (m : Node) (w v : World) : Prop where
  size : v.nodes.size = w.nodes.size + 1
  node : ∀ i : Nat, v.node? i = if i = w.nodes.size + 1 then some m else w.node? i
  still : Still w v

theorem gains_enroll (m : Node) (w : World) : Gains m w (w.enroll m) :=
  ⟨Array.size_push m, node?_push rfl, rfl, rfl, rfl, .refl _⟩

theorem Gains.tally (h : Gains m w v) : Gains m w v.tally :=
  ⟨h.size, h.node, h.still.trans ⟨rfl, rfl, rfl, .refl _⟩⟩

theorem Gains.old (h : Gains m w v) {i : Nat} {n : Node} (found : w.node? i = some n) :
    v.node? i = some n := by
  have inside := le_size_of_node? found
  rw [h.node, if_neg (by omega), found]

theorem Gains.new (h : Gains m w v) : v.node? (w.nodes.size + 1) = some m := by
  rw [h.node, if_pos rfl]

/-- Further changes to the new node. -/
theorem Gains.change {u : World} {P : Node → Node → Prop} (h : Gains m w v)
    (change : Changes (At (w.nodes.size + 1) P) v u) : ∃ m', P m m' ∧ Gains m' w u := by
  obtain ⟨m', foundM', changed⟩ := change.nodes.node _ m h.new
  refine ⟨m', at_same.mp changed, ⟨change.nodes.size.trans h.size, fun i => ?_,
    h.still.trans change.still⟩⟩
  by_cases new : i = w.nodes.size + 1
  · subst new
    rw [if_pos rfl, foundM']
  · rw [if_neg new]
    have old := h.node i
    rw [if_neg new] at old
    match found : v.node? i with
    | none => exact (change.nodes.node?_none found).trans (found.symm.trans old)
    | some n =>
      obtain ⟨n', found', same⟩ := change.nodes.node i n found
      rw [found', (at_ne new).mp same, ← old, found]

/-- A new node that could not be populated is released at once. -/
theorem gains_spoiled (n : Node) (w : World) :
    ∃ m, n.Strips n m ∧ m.released = true ∧
      Gains m w (((w.enroll { n with released := true }).tally.stopAll
        (w.nodes.size + 1)).drop (w.nodes.size + 1)) := by
  have released : n.Strips n { n with released := true } :=
    .of_rest (fun d => d) (fun _ => rfl) (.refl _) rfl
  obtain ⟨m, strips, gains⟩ := (gains_enroll { n with released := true } w).tally.change
    ((changes_stopAll n _ _).trans (composes_released n _) (changes_drop n _ _))
  exact ⟨m, released.trans strips, strips.released rfl, gains⟩

/-- A node is introduced, or could not be populated; then it is released at once. -/
theorem gains_introduce (name : Text) (parent : NodeId) (path : Text) (trust : Trust)
    (w : World) :
    ∃ n m, Gains m w (w.introduce name parent path trust).2 ∧
      n.IsNew (w.nodes.size + 1) parent trust ∧ n.name = name ∧ n.path = path ∧
      n.attached = false ∧ n.dead = false ∧
      ((w.introduce name parent path trust).1 = .ok (w.nodes.size + 1) ∧ m = n ∨
        (∃ f, (w.introduce name parent path trust).1 = .error f) ∧ n.commands = [] ∧
          n.Strips n m ∧ m.released = true) := by
  unfold introduce introduceBy
  dsimp only
  have fresh : (Node.fresh (w.nodes.size + 1) name parent path trust w.settings.limits w.clock).IsNew
      (w.nodes.size + 1) parent trust := Node.isNew_fresh name path _ _
  have name' : (Node.fresh (w.nodes.size + 1) name parent path trust w.settings.limits
      w.clock).name = name := rfl
  have path' : (Node.fresh (w.nodes.size + 1) name parent path trust w.settings.limits
      w.clock).path = path := rfl
  have detached : (Node.fresh (w.nodes.size + 1) name parent path trust w.settings.limits
      w.clock).attached = false := rfl
  have alive : (Node.fresh (w.nodes.size + 1) name parent path trust w.settings.limits
      w.clock).dead = false := rfl
  have bare : (Node.fresh (w.nodes.size + 1) name parent path trust w.settings.limits
      w.clock).commands = [] := rfl
  generalize Node.fresh (w.nodes.size + 1) name parent path trust w.settings.limits w.clock = new
    at fresh name' path' detached alive bare ⊢
  split
  · exact ⟨new, new, gains_enroll new w, fresh, name', path', detached, alive, .inl ⟨rfl, rfl⟩⟩
  · cases populated : w.settings.populate w.populated new with
    | ok n =>
      have stocked := Node.isStocked_populate populated
      refine ⟨n, n, (gains_enroll n w).tally, fresh.stocked stocked, ?_, ?_, ?_, ?_,
        .inl ⟨rfl, rfl⟩⟩
      all_goals rw [stocked.same]
      all_goals assumption
    | error f =>
      dsimp only
      obtain ⟨m, strips, released, gains⟩ := gains_spoiled new w
      exact ⟨new, m, gains, fresh, name', path', detached, alive,
        .inr ⟨⟨f, rfl⟩, bare, strips, released⟩⟩

/-- Node `parent` of `w` got a child: `v` has one node more, which is `m`, and one link more, which
leads there. -/
structure Grows (parent : NodeId) (name : Text) (m : Node) (w v : World) : Prop where
  size : v.nodes.size = w.nodes.size + 1
  node : ∀ i : Nat, v.node? i =
    if i = w.nodes.size + 1 then some m
    else if i = parent then
      (w.node? i).map (Node.addLink { name, target := w.nodes.size + 1 })
    else w.node? i
  still : Still w v

theorem Grows.node_old {parent : NodeId} {name : Text} {m : Node} (h : Grows parent name m w v)
    {i : Nat} {n : Node} (found : w.node? i = some n) :
    v.node? i = some (if i = parent then n.addLink { name, target := w.nodes.size + 1 } else n) := by
  have inside := le_size_of_node? found
  rw [h.node, if_neg (by omega), found]
  split <;> rfl

theorem Grows.node_new {parent : NodeId} {name : Text} {m : Node} (h : Grows parent name m w v) :
    v.node? (w.nodes.size + 1) = some m := by
  rw [h.node, if_pos rfl]

/-- Nodes after an operation are old ones or the new one. -/
theorem Grows.node_cases {parent : NodeId} {name : Text} {m : Node} (h : Grows parent name m w v)
    {i : Nat} {n' : Node} (found' : v.node? i = some n') :
    (i = w.nodes.size + 1 ∧ n' = m) ∨ ∃ n, w.node? i = some n ∧
      n' = if i = parent then n.addLink { name, target := w.nodes.size + 1 } else n := by
  by_cases new : i = w.nodes.size + 1
  · subst new
    exact .inl ⟨rfl, Option.some.inj (found'.symm.trans h.node_new)⟩
  · have inside : i ≤ w.nodes.size := by
      have := le_size_of_node? found'
      rw [h.size] at this
      omega
    obtain ⟨n, found⟩ := exists_node? (pos_of_node? found') inside
    exact .inr ⟨n, found, Option.some.inj (found'.symm.trans (h.node_old found))⟩

theorem Gains.node_cases {m : Node} (h : Gains m w v) {i : Nat} {n' : Node}
    (found' : v.node? i = some n') : (i = w.nodes.size + 1 ∧ n' = m) ∨ w.node? i = some n' := by
  rw [h.node] at found'
  split at found'
  · rename_i new
    exact .inl ⟨new, (Option.some.inj found').symm⟩
  · exact .inr found'

/-- A link after a child was made was there before, or is the one that leads to the child. -/
theorem Grows.link_cases {parent : NodeId} {name : Text} {m : Node} (h : Grows parent name m w v)
    (none : m.links = []) {i : Nat} {n' : Node} {l : Link} (found' : v.node? i = some n')
    (mem : l ∈ n'.links) :
    (∃ n, w.node? i = some n ∧ l ∈ n.links) ∨
      i = parent ∧ l = { name, target := w.nodes.size + 1 } := by
  rcases h.node_cases found' with ⟨-, rfl⟩ | ⟨n, found, rfl⟩
  · rw [none] at mem
    cases mem
  · split at mem
    · rename_i isParent
      rcases List.mem_append.mp mem with old | new
      · exact .inl ⟨n, found, old⟩
      · exact .inr ⟨isParent, List.mem_singleton.mp new⟩
    · exact .inl ⟨n, found, mem⟩

/-- Who was there before has at most other links than before. -/
theorem Grows.node_links {parent : NodeId} {name : Text} {m : Node} (h : Grows parent name m w v) :
    (∀ i n, w.node? i = some n → ∃ links, v.node? i = some { n with links }) ∧
      ∀ i n', v.node? i = some n' →
        n' = m ∨ ∃ n links, w.node? i = some n ∧ n' = { n with links } := by
  refine ⟨fun i n found => ?_, fun i n' found' => ?_⟩
  · rw [h.node_old found]
    split
    · exact ⟨_, rfl⟩
    · exact ⟨n.links, rfl⟩
  · rcases h.node_cases found' with ⟨-, rfl⟩ | ⟨n, found, rfl⟩
    · exact .inl rfl
    · split
      · exact .inr ⟨n, _, found, rfl⟩
      · exact .inr ⟨n, n.links, found, rfl⟩

/-- One node more, and who was there before and is alive may have other links than before. -/
structure Enrolls (m : Node) (w v : World) : Prop where
  old : ∀ i n, w.node? i = some n → ∃ n', v.node? i = some n' ∧ n.Relinks n'
  new : ∀ i n', v.node? i = some n' → n' = m ∨ ∃ n, w.node? i = some n ∧ n.Relinks n'

theorem Grows.enrolls {parent : NodeId} {name : Text} {m : Node} (h : Grows parent name m w v)
    (alive : ∀ p, w.node? parent = some p → p.dead = false) : Enrolls m w v := by
  have relinks {i : NodeId} {n : Node} (found : w.node? i = some n) :
      n.Relinks (if i = parent then n.addLink { name, target := w.nodes.size + 1 } else n) := by
    split
    · rename_i here
      refine ⟨rfl, fun gone => ?_⟩
      rw [alive n (here ▸ found)] at gone
      cases gone
    · exact ⟨rfl, fun _ => rfl⟩
  refine ⟨fun i n found => ⟨_, h.node_old found, relinks found⟩, fun i n' found' => ?_⟩
  rcases h.node_cases found' with ⟨-, rfl⟩ | ⟨n, found, rfl⟩
  · exact .inl rfl
  · exact .inr ⟨n, found, relinks found⟩

theorem Gains.enrolls {m : Node} (h : Gains m w v) : Enrolls m w v := by
  refine ⟨fun i n found => ⟨n, h.old found, rfl, fun _ => rfl⟩, fun i n' found' => ?_⟩
  rcases h.node_cases found' with ⟨-, rfl⟩ | found
  · exact .inl rfl
  · exact .inr ⟨n', found, rfl, fun _ => rfl⟩

theorem Gains.node_links {m : Node} (h : Gains m w v) :
    (∀ i n, w.node? i = some n → ∃ links, v.node? i = some { n with links }) ∧
      ∀ i n', v.node? i = some n' →
        n' = m ∨ ∃ n links, w.node? i = some n ∧ n' = { n with links } :=
  ⟨fun _ n found => ⟨n.links, h.old found⟩, fun _ n' found' =>
    (h.node_cases found').imp And.right fun found => ⟨n', n'.links, found, rfl⟩⟩

theorem strips_links_nil {id parent : NodeId} {trust : Trust} {n m : Node}
    (isNew : n.IsNew id parent trust) (strips : n.Strips n m) : m.links = [] :=
  List.eq_nil_of_sublist_nil (isNew.links ▸ strips.links)

theorem Grows.isNumbered {parent : NodeId} {name : Text} {m : Node} (h : Grows parent name m w v)
    (new : m.id = w.nodes.size + 1) (numbered : w.IsNumbered) : v.IsNumbered := by
  intro i n' found'
  rcases h.node_cases found' with ⟨rfl, rfl⟩ | ⟨n, found, rfl⟩
  · exact new
  · have same := numbered i n found
    split <;> exact same

theorem Gains.isNumbered {m : Node} (h : Gains m w v) (new : m.id = w.nodes.size + 1)
    (numbered : w.IsNumbered) : v.IsNumbered := by
  intro i n' found'
  rcases h.node_cases found' with ⟨rfl, rfl⟩ | found
  · exact new
  · exact numbered i n' found

end World

namespace Op

variable {w : World}

/-- How a child made by `caller` under `parent` starts. -/
structure IsChild (options : CreateOptions) (name : Text) (caller parent : Node) (id : NodeId)
    (m : Node) : Prop where
  made : ∃ n : Node, n.IsNew id parent.id (options.trust caller.trust parent.trust) ∧
    m = n.join
  path : m.path = joinPath parent.path name
  called : m.name = name
  dead : m.dead = false

namespace IsChild

variable {options : CreateOptions} {name : Text} {caller parent m : Node} {id : NodeId}

theorem id_eq (h : IsChild options name caller parent id m) : m.id = id := by
  obtain ⟨n, isNew, rfl⟩ := h.made
  rw [Node.join_eq]
  exact isNew.id

theorem links (h : IsChild options name caller parent id m) : m.links = [] := by
  obtain ⟨n, isNew, rfl⟩ := h.made
  rw [Node.join_eq]
  exact isNew.links

theorem level (h : IsChild options name caller parent id m) : m.level = (0, []) := by
  obtain ⟨n, isNew, rfl⟩ := h.made
  rw [Node.join_eq]
  exact isNew.level

theorem attached (h : IsChild options name caller parent id m) : m.attached = true := by
  obtain ⟨n, isNew, rfl⟩ := h.made
  rfl

theorem parent_eq (h : IsChild options name caller parent id m) : m.parent = parent.id := by
  obtain ⟨n, isNew, rfl⟩ := h.made
  rw [Node.join_eq]
  exact isNew.parent

/-- Children of a safe node are safe. -/
theorem safe_of_parent (h : IsChild options name caller parent id m)
    (safe : parent.trust.safe = true) : m.trust.safe = true := by
  obtain ⟨n, isNew, rfl⟩ := h.made
  rw [Node.join_eq]
  change n.trust.safe = true
  simp [isNew.trust, CreateOptions.trust, safe]

theorem sharedLinks (h : IsChild options name caller parent id m) : m.sharedLinks = [] := by
  obtain ⟨n, isNew, rfl⟩ := h.made
  rw [Node.join_eq]
  exact isNew.sharedLinks

end IsChild

/-- A child is made, or there is one node more that is not part of the tree. -/
theorem settles_create (caller : NodeId) (path name : Text) (options : CreateOptions)
    (numbered : w.IsNumbered) :
    Settles (create caller path name options) w fun r v =>
      ∃ c p parent m, w.node? caller = some c ∧ isValidName name = true ∧
        w.resolve? caller path = some parent ∧ w.node? parent = some p ∧
        (p.link? name).isNone = true ∧
        (r = .ok (w.nodes.size + 1) ∧ World.Grows parent name m w v ∧
            IsChild options name c p (w.nodes.size + 1) m ∨
          (∃ f, r = .error f) ∧ World.Gains m w v ∧
            ∃ n : Node, n.IsNew (w.nodes.size + 1) parent (options.trust c.trust p.trust) ∧
              n.attached = false ∧ n.commands = [] ∧ n.Strips n m ∧ m.released = true) := by
  unfold create createBy
  refine .require fun valid => .node fun c asker => .require fun _ => .require fun _ =>
    .resolve fun parent resolved => .node fun p found => ?_
  obtain rfl : p.id = parent := numbered parent p found
  refine .require fun free => .get (.of_ends ?_)
  obtain ⟨n, m, gains, isNew, name', path', detached, alive, made⟩ := World.gains_introduce name p.id
    (joinPath p.path name) (options.trust c.trust p.trust) w
  have inside := World.le_size_of_node? found
  unfold World.introduce at gains made
  cases introduced : w.introduceBy (w.settings.populate w.populated) name p.id (joinPath p.path name)
      (options.trust c.trust p.trust) with
  | mk result u =>
    rw [introduced] at gains made
    simp only [Ends.bind_iff, Ends.set_iff]
    rcases made with ⟨rfl, rfl⟩ | ⟨⟨f, rfl⟩, bare, strips, released⟩
    · simp only [Ends.bind_iff, ends_change, Ends.pure_iff]
      refine ⟨c, p, p.id, m.join, asker, valid, resolved, found,
        free, .inl ⟨trivial, ⟨?_, fun i => ?_, ?_⟩, ⟨⟨m, isNew, rfl⟩, ?_, ?_, ?_⟩⟩⟩
      · simp only [World.nodes_logNode, World.size_modifyNode, gains.size]
      · simp only [World.node?_logNode, World.node?_modifyNode, gains.node]
        by_cases new : i = w.nodes.size + 1
        · have other : i ≠ p.id := by omega
          rw [if_neg other, if_pos new, if_pos new, if_pos new]
          rfl
        · simp only [new, if_false]
      · exact ((gains.still.trans (.modifyNode _ _ _)).trans (.modifyNode _ _ _)).trans
          (.logNode _ _ _ _ _)
      · rw [Node.join_eq]
        exact path'
      · rw [Node.join_eq]
        exact name'
      · rw [Node.join_eq]
        exact alive
    · simp only [Ends.throw_iff]
      exact ⟨c, p, p.id, m, asker, valid, resolved, found, free,
        .inr ⟨⟨_, rfl⟩, gains, n, isNew, detached, bare, strips, released⟩⟩

/-- The name of the shared links to a node. -/
def sharedName (shared : NodeId) : Text := "shared" ++ Text.ofNat shared

/-- What sharing node `shared` into `holder` does to node `i`. -/
def SharesAt (holder shared : NodeId) (i : NodeId) (n n' : Node) : Prop :=
  n' = { n with
    links :=
      if i = holder then n.links ++ [{ name := sharedName shared, target := shared, shared := true }]
      else n.links
    shared := if i = shared then true else n.shared
    sharedLinks :=
      if i = shared then n.sharedLinks ++ [⟨holder, sharedName shared⟩] else n.sharedLinks }

/-- Sharing takes effect for callers that are not safe, and on a node that the holder is not
within. -/
theorem settles_shareInterp (caller : NodeId) (path source : Text) (numbered : w.IsNumbered) :
    Settles (shareInterp caller path source) w fun r v =>
      (∃ c, w.node? caller = some c ∧ c.trust.safe = false) ∧
        ∃ shared holder h, w.resolve? caller source = some shared ∧
          w.resolve? caller path = some holder ∧ w.node? holder = some h ∧
          (∃ s, w.node? shared = some s ∧ s.isRoot = false) ∧ w.isWithin holder shared = false ∧
          (h.link? (sharedName shared)).isNone = true ∧ r = .ok (sharedName shared) ∧
          World.Changes (SharesAt holder shared) w v := by
  unfold shareInterp
  refine .requirePrivilege fun c asker trusted => .resolve fun shared toShared =>
    .node fun s foundS => .resolve fun holder toHolder => .node fun h foundH =>
    .require fun notRoot => .get (.require fun apart => .require fun free => .of_ends ?_)
  obtain rfl : s.id = shared := numbered shared s foundS
  obtain rfl : h.id = holder := numbered holder h foundH
  have within : w.isWithin h.id s.id = false := by simpa using apart
  simp only [Ends.bind_iff, ends_change, Ends.pure_iff]
  refine ⟨⟨c, asker, trusted⟩, s.id, h.id, h, toShared, toHolder, foundH,
    ⟨s, foundS, by simpa using notRoot⟩, within, free, rfl, ⟨?_, fun i n found => ?_⟩, ?_⟩
  · simp only [World.nodes_logNode, World.size_modifyNode]
  · simp only [World.node?_logNode, World.node?_modifyNode, found]
    by_cases isShared : i = s.id
    · by_cases isHolder : i = h.id
      · rw [if_pos isShared, if_pos isHolder]
        exact ⟨_, rfl, by rw [SharesAt, if_pos isHolder, if_pos isShared, if_pos isShared]; rfl⟩
      · rw [if_pos isShared, if_neg isHolder]
        exact ⟨_, rfl, by rw [SharesAt, if_neg isHolder, if_pos isShared, if_pos isShared]; rfl⟩
    · by_cases isHolder : i = h.id
      · rw [if_neg isShared, if_pos isHolder]
        exact ⟨_, rfl, by rw [SharesAt, if_pos isHolder, if_neg isShared, if_neg isShared]; rfl⟩
      · rw [if_neg isShared, if_neg isHolder]
        exact ⟨_, rfl, by rw [SharesAt, if_neg isHolder, if_neg isShared, if_neg isShared]⟩
  · exact ((World.Still.modifyNode _ _ w).trans (.modifyNode _ _ _)).trans (.logNode _ _ _ _ _)

end Op

end InterpTree
