import InterpTree.Proofs.Acyclic

/-!
Whether nodes answer to their paths. The path of a node is written down when the node is made and
again when it moves to a shared link. A removal may cut a link on the way that the path of some node
names, or move a node to a link of a holder whose own path was wrong, and sharing may bring a node
into reach that had lost every way to it: such nodes are stranded, and no others are.
-/

namespace InterpTree

namespace World

variable {w v : World} {o : TreeOp} {id : NodeId}

/-- Some child link leads from `a` to the live node `b`. -/
def Leads (w : World) (a b : NodeId) : Prop := ∃ name, w.child? a name = some b

/-- Live child links lead from the root to node `id`. -/
def Reaches (w : World) : NodeId → Prop := Relation.ReflTransGen w.Leads root

/-- Every live node that the root reaches is found at its path. -/
def IsPathSound (w : World) : Prop :=
  ∀ id n, w.live? id = some n → w.Reaches id → w.resolve? root n.path = some id

/-- On the way that a path names in `w` some link is missing in `v`. -/
def CutsWay (path : Text) (w v : World) : Prop :=
  ∃ names name more a b, namesOf path = names ++ name :: more ∧ w.follow? root names = some a ∧
    w.child? a name = some b ∧ v.child? a name ≠ some b

/-- Why the path that node `id` has after the operation does not lead to it. -/
inductive Misleads (o : TreeOp) (w : World) (id : NodeId) (path : Text) : Prop
  /-- A removal took a link on the way. -/
  | cut (removal : o.isRemoval = true) (reached : w.Reaches id)
      (cuts : CutsWay path w (o.apply w))
  /-- A removal moved the node to a path that led elsewhere already. -/
  | moved (n : Node) (removal : o.isRemoval = true) (reached : w.Reaches id)
      (found : w.node? id = some n) (other : path ≠ n.path)
      (elsewhere : w.resolve? root path ≠ some id)
  /-- The node is below one that nothing led to from the root until it was shared. -/
  | linked (holder shared : NodeId) (shares : o.Shares w holder shared) (reached : w.Reaches holder)
      (unreached : ¬ w.Reaches shared) (below : Relation.ReflTransGen w.Leads shared id)
      (astray : (o.apply w).resolve? root path ≠ some id)

/-- The operation leaves a live node that the root reaches at a path that does not lead to it. -/
def Strands (o : TreeOp) (w : World) (id : NodeId) : Prop :=
  ∃ n, (o.apply w).live? id = some n ∧ (o.apply w).Reaches id ∧ Misleads o w id n.path

theorem live?_eq_some_iff {n : Node} : w.live? id = some n ↔ w.node? id = some n ∧ n.isLive = true := by
  rw [live?, Option.filter_eq_some_iff]

theorem alive_of_live? {n : Node} (live : w.live? id = some n) : n.dead = false := by
  simpa using (Bool.and_eq_true_iff.mp (live?_eq_some_iff.mp live).2).2

/-- Of links with different names the one in a part of the list is the one in the whole. -/
theorem find?_of_sublist {links links' : List Link} {name : Text} {l : Link}
    (sub : links'.Sublist links) (names : (links.map Link.name).Nodup)
    (h : links'.find? (fun k => k.name == name) = some l) :
    links.find? (fun k => k.name == name) = some l := by
  induction sub with
  | slnil => exact h
  | cons k sub ih =>
    rw [List.map_cons, List.nodup_cons] at names
    have found := ih names.2 h
    rw [List.find?_cons_of_neg ?_, found]
    intro same
    have mem := List.mem_map_of_mem (f := Link.name) (List.mem_of_find?_eq_some found)
    have name' := List.find?_some found
    rw [eq_of_beq name', ← eq_of_beq same] at mem
    exact names.1 mem
  | cons_cons k sub ih =>
    rw [List.map_cons, List.nodup_cons] at names
    by_cases same : (k.name == name) = true
    · simp only [List.find?_cons, same] at h ⊢
      exact h
    · simp only [List.find?_cons, same] at h ⊢
      exact ih names.2 h

/-- Removals leave no name that leads elsewhere. -/
theorem Wanes.child? {Z : NodeId → Prop} (h : Wanes Z w v) (regular : w.IsRegular) {a b : NodeId}
    {name : Text} (child : v.child? a name = some b) : w.child? a name = some b := by
  obtain ⟨n', l, t', found', alive, link, target', live, rfl⟩ := child?_eq_some_iff.mp child
  obtain ⟨n, found, fades, -⟩ := h.nodes.node_back found'
  obtain ⟨t, target, fades', -⟩ := h.nodes.node_back target'
  simp only [Node.isLive, Bool.and_eq_true, Bool.not_eq_true'] at live
  have aliveBefore : n.dead = false := by
    cases dead : n.dead with
    | false => rfl
    | true => rw [fades.dead dead] at alive; cases alive
  have liveBefore : t.isLive = true := by
    have attached := (fades'.kept live.1).1
    cases dead : t.dead with
    | false => simp [Node.isLive, attached, dead]
    | true =>
      have := fades'.dead dead
      rw [live.2] at this
      cases this
  exact child?_eq_some_iff.mpr ⟨n, l, t, found, aliveBefore,
    find?_of_sublist fades.links (regular.names a n found) link, target, liveBefore, fades'.id.symm⟩

/-- `v` has the nodes of `w`, which live as before at the same paths and have lost no link. -/
def Extends (w v : World) : Prop :=
  ∀ i n, w.node? i = some n → ∃ n', v.node? i = some n' ∧ n'.id = n.id ∧ n'.path = n.path ∧
    n'.attached = n.attached ∧ n'.dead = n.dead ∧ ∃ more, n'.links = n.links ++ more

/-- Where nothing is removed names go on leading where they led. -/
theorem Extends.child? (h : Extends w v) {a b : NodeId} {name : Text}
    (child : w.child? a name = some b) : v.child? a name = some b := by
  obtain ⟨n, l, t, found, alive, link, target, live, rfl⟩ := child?_eq_some_iff.mp child
  obtain ⟨n', found', -, -, -, dead, more, links⟩ := h a n found
  obtain ⟨t', target', id', -, attached, dead', -⟩ := h l.target t target
  refine child?_eq_some_iff.mpr ⟨n', l, t', found', dead.trans alive, ?_, target', ?_, id'⟩
  · unfold Node.link? at link ⊢
    rw [links, List.find?_append, link]
    rfl
  · rw [Node.isLive, attached, dead']
    exact live

theorem Extends.follow? (h : Extends w v) {a b : NodeId} {names : List Text}
    (way : w.follow? a names = some b) : v.follow? a names = some b := by
  induction names generalizing a with
  | nil => exact way
  | cons name names ih =>
    obtain ⟨c, child, rest⟩ := Option.bind_eq_some_iff.mp way
    exact Option.bind_eq_some_iff.mpr ⟨c, h.child? child, ih rest⟩

theorem Grows.extends {parent : NodeId} {name : Text} {m : Node} (h : Grows parent name m w v) :
    Extends w v := by
  intro i n found
  refine ⟨_, h.node_old found, ?_⟩
  split
  · exact ⟨rfl, rfl, rfl, rfl, _, rfl⟩
  · exact ⟨rfl, rfl, rfl, rfl, [], (List.append_nil _).symm⟩

theorem extends_of_shares {holder shared : NodeId}
    (h : Changes (Op.SharesAt holder shared) w v) : Extends w v := by
  intro i n found
  obtain ⟨n', found', change⟩ := h.nodes.node i n found
  refine ⟨n', found', ?_⟩
  rw [change]
  refine ⟨rfl, rfl, rfl, rfl, ?_⟩
  dsimp only
  split
  · exact ⟨_, rfl⟩
  · exact ⟨[], (List.append_nil _).symm⟩

/-- A link to a live node is found by its name. -/
theorem leads_of_linksTo (regular : w.IsRegular) {a b : NodeId} {n t : Node}
    (found : w.node? a = some n) (alive : n.dead = false) (links : w.LinksTo a b)
    (live : w.live? b = some t) : w.Leads a b := by
  obtain ⟨m, foundM, l, mem, rfl⟩ := links
  obtain rfl : n = m := Option.some.inj (found.symm.trans foundM)
  refine ⟨l.name, child?_eq_some_iff.mpr ⟨n, l, t, found, alive, ?_, ?_⟩⟩
  · exact find?_of_sublist (List.singleton_sublist.mpr mem) (regular.names a n found) (by simp)
  · obtain ⟨target, isLive⟩ := live?_eq_some_iff.mp live
    exact ⟨target, isLive, regular.numbered _ t target⟩

theorem Leads.linksTo {a b : NodeId} (h : w.Leads a b) (numbered : w.IsNumbered) :
    w.LinksTo a b ∧ (∃ n, w.node? a = some n ∧ n.dead = false) ∧ ∃ t, w.live? b = some t := by
  obtain ⟨name, child⟩ := h
  obtain ⟨n, l, t, found, alive, link, target, live, rfl⟩ := child?_eq_some_iff.mp child
  rw [numbered l.target t target]
  exact ⟨⟨n, found, l, List.mem_of_find?_eq_some link, rfl⟩, ⟨n, found, alive⟩, t,
    live?_eq_some_iff.mpr ⟨target, live⟩⟩

/-- Where nothing is removed a node that was there lives just if it lived. -/
theorem Extends.live? (h : Extends w v) {n n' : Node} (found : w.node? id = some n)
    (live : v.live? id = some n') : w.live? id = some n ∧ n'.path = n.path := by
  obtain ⟨found', isLive⟩ := live?_eq_some_iff.mp live
  obtain ⟨m, foundM, -, path, attached, dead, -⟩ := h id n found
  obtain rfl : n' = m := Option.some.inj (found'.symm.trans foundM)
  refine ⟨live?_eq_some_iff.mpr ⟨found, ?_⟩, path⟩
  rw [Node.isLive, ← attached, ← dead]
  exact isLive

/-- Where nothing is removed, links lead on where they led, and otherwise along links that came. -/
theorem Extends.leads_cases (h : Extends w v) (regular : w.IsRegular) (numbered : v.IsNumbered)
    {P : NodeId → NodeId → Prop} (added : ∀ a b, v.LinksTo a b → w.LinksTo a b ∨ P a b)
    {a b : NodeId} (leads : v.Leads a b) : w.Leads a b ∨ P a b := by
  obtain ⟨links, ⟨n', found', alive'⟩, t', live'⟩ := leads.linksTo numbered
  rcases added a b links with old | new
  · obtain ⟨n, found⟩ := old.node?
    obtain ⟨m, foundM, -, -, -, dead, -⟩ := h a n found
    obtain rfl : n' = m := Option.some.inj (found'.symm.trans foundM)
    have inside := regular.targets a b old
    obtain ⟨t, target⟩ := exists_node? (Nat.zero_lt_of_lt inside.1) inside.2
    exact .inl (leads_of_linksTo regular found (dead ▸ alive') old (h.live? target live').1)
  · exact .inr new

theorem IsRegular.root_alive (regular : w.IsRegular) :
    ∃ r, w.node? root = some r ∧ r.dead = false := by
  obtain ⟨r, found, -, -, live, -⟩ := regular.rooted
  simp only [Node.isLive, Bool.and_eq_true, Bool.not_eq_true'] at live
  exact ⟨r, found, live.2⟩

/-- Whoever is reached is alive. -/
theorem Reaches.live? (h : w.Reaches id) (regular : w.IsRegular) : ∃ n, w.live? id = some n := by
  rcases h.cases_tail with same | ⟨b, -, leads⟩
  · obtain ⟨r, found, -, -, live, -⟩ := regular.rooted
    exact same ▸ ⟨r, live?_eq_some_iff.mpr ⟨found, live⟩⟩
  · exact (leads.linksTo regular.numbered).2.2

/-- A way of which no link is cut is still there. -/
theorem follow?_of_not_cut {path : Text} (whole : ¬ CutsWay path w v) :
    ∀ names more, namesOf path = names ++ more → ∀ a, w.follow? root names = some a →
      v.follow? root names = some a := by
  intro names
  induction names using List.reverseRecOn with
  | nil => exact fun _ _ _ start => start
  | append_singleton names name ih =>
    intro more split a way
    rw [follow?_concat] at way ⊢
    obtain ⟨b, before, last⟩ := Option.bind_eq_some_iff.mp way
    have rest : namesOf path = names ++ name :: more := by simpa using split
    rw [ih _ rest b before, Option.bind_some]
    by_contra missing
    exact whole ⟨names, name, more, b, a, rest, before, last, missing⟩

theorem Wanes.follow? {Z : NodeId → Prop} (h : Wanes Z w v) (regular : w.IsRegular) {a b : NodeId}
    {names : List Text} (way : v.follow? a names = some b) : w.follow? a names = some b := by
  induction names generalizing a with
  | nil => exact way
  | cons name names ih =>
    obtain ⟨c, child, rest⟩ := Option.bind_eq_some_iff.mp way
    exact Option.bind_eq_some_iff.mpr ⟨c, h.child? regular child, ih rest⟩

/-- What a removal leaves to be found at a path was found there before. -/
theorem Wanes.resolve? {Z : NodeId → Prop} (h : Wanes Z w v) (regular : w.IsRegular)
    {path : Text} (resolves : v.resolve? root path = some id) : w.resolve? root path = some id := by
  obtain ⟨n', found', alive'⟩ := exists_of_resolve? resolves
  obtain ⟨n, found, fades, -⟩ := h.nodes.node_back found'
  have alive : n.dead = false := by
    cases dead : n.dead with
    | false => rfl
    | true => rw [fades.dead dead] at alive'; cases alive'
  rw [resolve?_eq found' alive'] at resolves
  rw [resolve?_eq found alive]
  exact h.follow? regular resolves

theorem Gains.extends {m : Node} (h : Gains m w v) : Extends w v := fun _ n found =>
  ⟨n, h.old found, rfl, rfl, rfl, rfl, [], (List.append_nil _).symm⟩

/-- One operation either removes nothing or does nothing but remove. -/
theorem Turns.extends_or_wanes (h : w.Turns o v) : Extends w v ∨ Wanes (· ≠ root) w v := by
  cases h with
  | refused same => exact .inr (same.symm ▸ .refl w)
  | spoiled parent trust n m gains isNew strips =>
    exact .inl gains.extends
  | grown options name caller parent c p m valid asker reached found free grows child =>
    exact .inl grows.extends
  | linked holder shared h s shares found foundShared notRoot free changes =>
    exact .inl (extends_of_shares changes)
  | waned removal wanes => exact .inr wanes

theorem Extends.resolve? (h : Extends w v) {path : Text}
    (resolves : w.resolve? root path = some id) : v.resolve? root path = some id := by
  obtain ⟨r, found, alive⟩ := exists_of_resolve? resolves
  obtain ⟨r', found', -, -, -, dead, -⟩ := h root r found
  rw [resolve?_eq found alive] at resolves
  rw [resolve?_eq found' (dead.trans alive)]
  exact h.follow? resolves

/-- Where nothing is removed the paths of nodes that were reached go on leading to them. -/
theorem Extends.resolve?_of_reached (h : Extends w v) (regular : w.IsRegular)
    (sound : w.IsPathSound) (reached : w.Reaches id) {n' : Node} (live' : v.live? id = some n') :
    v.resolve? root n'.path = some id := by
  obtain ⟨n, live⟩ := reached.live? regular
  obtain ⟨-, path⟩ := h.live? (live?_eq_some_iff.mp live).1 live'
  rw [path]
  exact h.resolve? (sound id n live reached)

/-- A path that leads to a node after an operation did not mislead. -/
theorem Turns.not_misleads (h : w.Turns o (o.apply w)) (regular : w.IsRegular) {n' : Node}
    (live : (o.apply w).live? id = some n')
    (resolves : (o.apply w).resolve? root n'.path = some id) : ¬ Misleads o w id n'.path := by
  intro misleads
  cases misleads with
  | cut removal reached cuts =>
    obtain ⟨names, name, more, a, b, split, before, child, missing⟩ := cuts
    rcases h.extends_or_wanes with grown | waned
    · exact missing (grown.child? child)
    · obtain ⟨r, found, alive⟩ := exists_of_resolve? resolves
      rw [resolve?_eq found alive, split, follow?_append] at resolves
      obtain ⟨a', before', rest⟩ := Option.bind_eq_some_iff.mp resolves
      obtain ⟨b', child', -⟩ := Option.bind_eq_some_iff.mp rest
      obtain rfl : a = a' := Option.some.inj (before.symm.trans (waned.follow? regular before'))
      obtain rfl : b = b' := Option.some.inj (child.symm.trans (waned.child? regular child'))
      exact missing child'
  | moved n removal reached found other elsewhere =>
    rcases h.extends_or_wanes with grown | waned
    · exact other (grown.live? found live).2
    · exact elsewhere (waned.resolve? regular resolves)
  | linked holder shared shares reached unreached below astray => exact astray resolves

/-- Ways along a relation that has one pair `(h, t)` more than `r`. -/
theorem reflTransGen_of_added {α : Type} {r s : α → α → Prop} {h t a b : α}
    (added : ∀ x y, s x y → r x y ∨ (x = h ∧ y = t)) (way : Relation.ReflTransGen s a b) :
    Relation.ReflTransGen r a b ∨ (Relation.ReflTransGen r a h ∧ Relation.ReflTransGen r t b) := by
  rcases Relation.reflTransGen_iff_eq_or_transGen.mp way with rfl | way
  · exact .inl .refl
  · exact (transGen_of_added added way).imp_left Relation.TransGen.to_reflTransGen

/-- A new child is found under its name. -/
theorem Grows.child?_new {options : CreateOptions} {parent : NodeId} {name : Text} {c p m : Node}
    (h : Grows parent name m w v) (child : Op.IsChild options name c p (w.nodes.size + 1) m)
    (found : w.node? parent = some p) (alive : p.dead = false)
    (free : (p.link? name).isNone = true) : v.child? parent name = some (w.nodes.size + 1) := by
  refine child?_eq_some_iff.mpr ⟨p.addLink ⟨name, w.nodes.size + 1, false⟩,
    ⟨name, w.nodes.size + 1, false⟩, m, ?_, alive, ?_, h.node_new, ?_, child.id_eq⟩
  · rw [h.node_old found, if_pos rfl]
  · have none : p.links.find? (fun l => l.name == name) = .none := Option.isNone_iff_eq_none.mp free
    simp [Node.link?, Node.addLink, List.find?_append, none]
  · simp [Node.isLive, child.attached, child.dead]

/-- One operation keeps paths sound just if it strands no node. -/
theorem isPathSound_apply_iff (o : TreeOp) (regular : w.IsRegular) (sound : w.IsPathSound) :
    (o.apply w).IsPathSound ↔ ¬ ∃ id, Strands o w id := by
  have turns := o.turns regular
  have regular' := turns.isRegular regular
  constructor
  · rintro sound' ⟨id, n', live', reached', misleads⟩
    exact turns.not_misleads regular live' (sound' id n' live' reached') misleads
  · intro whole id n' live' reached'
    by_contra astray
    have extended (ext : Extends w (o.apply w)) : ¬ w.Reaches id := fun reached =>
      astray (ext.resolve?_of_reached regular sound reached live')
    refine whole ⟨id, n', live', reached', ?_⟩
    cases turns with
    | refused same =>
      rw [same] at live' reached' astray
      exact absurd (sound id n' live' reached') astray
    | spoiled parent trust n m gains isNew strips =>
      have older (a b : NodeId) (leads : (o.apply w).Leads a b) : w.Leads a b :=
        (gains.extends.leads_cases regular regular'.numbered (P := fun _ _ => False)
          (fun a b links => .inl ((gains.linksTo_iff (strips_links_nil isNew strips)).mp links))
          leads).resolve_right fun h => h
      exact absurd (Relation.ReflTransGen.mono older _ _ reached') (extended gains.extends)
    | grown options name caller parent c p m valid asker resolved found free grows child =>
      have ext := grows.extends
      rcases reflTransGen_of_added (fun a b => ext.leads_cases regular regular'.numbered
        fun a b => (grows.linksTo_iff child.links found).mp) reached' with reached | ⟨reached, rest⟩
      · exact absurd reached (extended ext)
      · rcases rest.cases_head with rfl | ⟨b, leads, -⟩
        · obtain ⟨found', -⟩ := live?_eq_some_iff.mp live'
          obtain rfl : n' = m := Option.some.inj (found'.symm.trans grows.node_new)
          obtain ⟨q, live⟩ := Reaches.live? reached regular
          obtain ⟨foundQ, isLive⟩ := live?_eq_some_iff.mp live
          obtain rfl : p = q := Option.some.inj (found.symm.trans foundQ)
          simp only [Node.isLive, Bool.and_eq_true, Bool.not_eq_true'] at isLive
          refine absurd ?_ astray
          rw [child.path, resolve?_joinPath valid, ext.resolve? (sound parent p live reached),
            Option.bind_some]
          exact grows.child?_new child found isLive.2 free
        · obtain ⟨-, ⟨n, foundN, -⟩, -⟩ := leads.linksTo regular.numbered
          rw [node?_new] at foundN
          cases foundN
    | linked holder shared h s shares found foundShared notRoot free changes =>
      have ext := extends_of_shares changes
      rcases reflTransGen_of_added (fun a b => ext.leads_cases regular regular'.numbered
        fun a b => (linksTo_iff_of_shares changes found).mp) reached' with reached | ⟨reached, below⟩
      · exact absurd reached (extended ext)
      · exact .linked holder shared shares reached
          (fun reachedShared => extended ext (reachedShared.trans below)) below astray
    | waned removal wanes =>
      have reached : w.Reaches id := Relation.ReflTransGen.mono
        (fun a b leads => leads.imp fun name child => wanes.child? regular child) _ _ reached'
      obtain ⟨n, live⟩ := reached.live? regular
      by_cases led : w.resolve? root n'.path = some id
      · refine .cut removal reached ?_
        by_contra whole
        obtain ⟨r, foundR, alive⟩ := regular.root_alive
        obtain ⟨r', foundR', alive'⟩ := regular'.root_alive
        rw [resolve?_eq foundR alive] at led
        rw [resolve?_eq foundR' alive'] at astray
        exact astray (follow?_of_not_cut whole _ [] (List.append_nil _).symm id led)
      · refine .moved n removal reached (live?_eq_some_iff.mp live).1 (fun same => led ?_) led
        rw [same]
        exact sound id n live reached

theorem isPathSound_plant {settings : Settings} {host : Host} (h : plant settings host = .ok w) :
    w.IsPathSound := by
  obtain ⟨n, isNew, path, alive, found, only⟩ := plant_root h
  intro id m live reached
  obtain ⟨rfl, rfl⟩ := only id m (live?_eq_some_iff.mp live).1
  rw [resolve?_eq found alive]
  change w.follow? root (namesOf n.path) = some root
  rw [path]
  rfl

/-- In what the operations make of a fresh tree every live node that the root reaches is found at
its path just as long as no operation strands a node. -/
theorem paths_sound_from_plant_iff {settings : Settings} {host : Host}
    (planted : plant settings host = .ok w) (ops : List TreeOp) :
    (∀ pre, pre <+: ops → (w.course pre).IsPathSound) ↔
      ∀ pre o, pre ++ [o] <+: ops → ¬ ∃ id, Strands o (w.course pre) id :=
  course_iff (I := IsRegular) (fun _ o regular => (o.turns regular).isRegular regular)
    (fun _ o regular sound => isPathSound_apply_iff o regular sound)
    (isRegular_plant planted) (isPathSound_plant planted) ops

/-- Names lead over live child links. -/
theorem reaches_of_follow? {a b : NodeId} {names : List Text} (h : w.follow? a names = some b) :
    Relation.ReflTransGen w.Leads a b := by
  induction names generalizing a with
  | nil => exact Option.some.inj h ▸ .refl
  | cons name names ih =>
    obtain ⟨c, child, rest⟩ := Option.bind_eq_some_iff.mp h
    exact .head ⟨name, child⟩ (ih rest)

theorem reaches_of_resolve? {a b : NodeId} {path : Text} (resolved : w.resolve? a path = some b) :
    Relation.ReflTransGen w.Leads a b := by
  obtain ⟨n, found, alive⟩ := exists_of_resolve? resolved
  rw [resolve?_eq found alive] at resolved
  exact reaches_of_follow? resolved

/-- A child is shared into the root's other child, and its parent is deleted. -/
def lostShare : List TreeOp :=
  [.create root [] "p" {}, .create root [] "h" {}, .create root "p" "x" {},
    .create root "p.x" "y" {}, .share root "h" "p.x", .delete none root "p"]

/-- The last step of `lostShare` moves a node and leaves what is below it at a path that is gone. -/
theorem paths_sound_from_plant_lostShare :
    ∃ w, plant {} {} = .ok w ∧
      ((∀ pre, pre <+: lostShare → (w.course pre).IsPathSound) ↔
        ∀ pre o, pre ++ [o] <+: lostShare → ¬ ∃ id, Strands o (w.course pre) id) ∧
      ¬ (w.course lostShare).IsPathSound := by
  refine ⟨_, plant_sapling, paths_sound_from_plant_iff plant_sapling lostShare, fun sound => ?_⟩
  have way : (sapling.course lostShare).follow? root ["h", "shared4", "y"] = some 5 := by decide
  have live : ((sapling.course lostShare).live? 5).map Node.path = some "p.x.y" := by decide
  have lost : (sapling.course lostShare).resolve? root "p.x.y" = none := by decide
  obtain ⟨n, found, path⟩ := Option.map_eq_some_iff.mp live
  have resolves := sound 5 n found (reaches_of_follow? way)
  rw [path, lost] at resolves
  cases resolves

end World

end InterpTree
