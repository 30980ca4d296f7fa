import InterpTree.Proofs.Furnishing
import InterpTree.Proofs.Integrity
import InterpTree.Proofs.Walks

/-!
The interpreters that a manifest lists are made one after the other, each as its entry says and without
any change to those that are there.
-/

namespace InterpTree

/-! ### Ways in a tree without shared links -/

namespace World

variable {w v : World} {a b i t : NodeId} {name path : Text} {n : Node} {names : List Text}

/-- No live node has a shared link. -/
def HasOwnLinks (w : World) : Prop :=
  ∀ i n, w.live? i = some n → ∀ l ∈ n.links, l.shared = false

/-- A link that is not shared leads from the parent, by the name of the child. -/
theorem IsWoven.of_child? (woven : w.IsWoven) (own : w.HasOwnLinks) (child : w.child? a name = some b)
    (numbered : w.IsNumbered) : ∃ m, w.node? b = some m ∧ m.parent = a ∧ m.name = name := by
  obtain ⟨n, l, m, found, alive, link, target, -, rfl⟩ := child?_eq_some_iff.mp child
  have mem := List.mem_of_find?_eq_some link
  have there : w.attached? a = some n := by
    refine attached?_eq_some_iff.mpr ⟨found, ?_⟩
    by_contra left
    rw [woven.bare a n found (by simpa using left) alive] at mem
    cases mem
  have unshared := own a n (woven.live?_eq a ▸ there) l mem
  obtain ⟨m', reached, parent⟩ := woven.own a n there l mem unshared
  obtain rfl : m = m' := eq_of_attached? target reached
  refine ⟨m, numbered _ m target ▸ target, parent, ?_⟩
  rw [woven.named a n there l mem unshared m target]
  simpa using List.find?_some link

/-- A node is found under one sequence of names at most. -/
theorem IsWoven.follow?_unique (woven : w.IsWoven) (regular : w.IsRegular) (own : w.HasOwnLinks)
    {names' : List Text} (way : w.follow? root names = some t)
    (way' : w.follow? root names' = some t) : names = names' := by
  -- No link leads to the root, so that a way there has no last link.
  have rootless {names : List Text} {name : Text} (way : w.follow? root (names ++ [name]) = some root) :
      False := by
    rw [follow?_concat] at way
    obtain ⟨a, -, child⟩ := Option.bind_eq_some_iff.mp way
    exact absurd (regular.targets a root (linksTo_of_child? regular.numbered child)).1 (by decide)
  induction names using List.reverseRecOn generalizing names' t with
  | nil =>
    obtain rfl := Option.some.inj way
    rcases List.eq_nil_or_concat names' with none | ⟨pre, last, rfl⟩
    · exact none.symm
    · exact (rootless (List.concat_eq_append ▸ way')).elim
  | append_singleton pre last ih =>
    rcases List.eq_nil_or_concat names' with rfl | ⟨pre', last', rfl⟩
    · obtain rfl := Option.some.inj way'
      exact (rootless way).elim
    · rw [List.concat_eq_append] at way' ⊢
      rw [follow?_concat] at way way'
      obtain ⟨a, before, child⟩ := Option.bind_eq_some_iff.mp way
      obtain ⟨a', before', child'⟩ := Option.bind_eq_some_iff.mp way'
      obtain ⟨m, found, rfl, rfl⟩ := woven.of_child? own child regular.numbered
      obtain ⟨m', found', rfl, rfl⟩ := woven.of_child? own child' regular.numbered
      obtain rfl : m = m' := Option.some.inj (found.symm.trans found')
      rw [ih before before']

namespace Raised

variable (h : Raised w i name path n v) (bare : n.links = [])

include h bare

/-- The only link that came leads to the new node. -/
theorem child?_cases (regular : w.IsRegular) {k : Text} (child : v.child? a k = some b) :
    w.child? a k = some b ∨ a = i ∧ k = name ∧ b = w.nodes.size + 1 := by
  obtain ⟨n', l, t', found', alive, link, target, live, rfl⟩ := child?_eq_some_iff.mp child
  rcases h.grows.node_cases found' with ⟨rfl, rfl⟩ | ⟨old, found, rfl⟩
  · simp [Node.link?, bare] at link
  have stays (l' : Link) (link : old.link? k = some l') (target : v.node? l'.target = some t') :
      old.dead = false → w.child? a k = some t'.id := fun alive => by
    have inside := (regular.targets a l'.target
      ⟨old, found, l', List.mem_of_find?_eq_some link, rfl⟩).2
    rcases h.grows.node_cases target with ⟨new, -⟩ | ⟨t, was, rfl⟩
    · exact absurd (new ▸ inside) (Nat.not_succ_le_self _)
    · refine child?_eq_some_iff.mpr ⟨old, l', t, found, alive, link, was, ?_, ?_⟩
      · split at live <;> exact live
      · split <;> rfl
  by_cases here : a = i
  · rw [if_pos here] at link alive
    rw [Node.link?, Node.addLink, List.find?_append] at link
    cases was : old.links.find? (fun l => l.name == k) with
    | some l' =>
      rw [was] at link
      obtain rfl := Option.some.inj link
      exact .inl (stays l' was target alive)
    | none =>
      rw [was, Option.none_or] at link
      have named := List.find?_some (p := fun l : Link => l.name == k) link
      have new := List.mem_singleton.mp (List.mem_of_find?_eq_some link)
      refine .inr ⟨here, (by simpa [new] using named : name = k).symm, ?_⟩
      rw [h.regular.numbered _ t' target, new]
  · rw [if_neg here] at link alive
    exact .inl (stays l link target alive)

/-- A way that came ends with the new node, where the path of that leads. -/
theorem follow?_cases (regular : w.IsRegular) (way : v.follow? a names = some b) :
    w.follow? a names = some b ∨ ∃ pre, names = pre ++ [name] ∧ w.follow? a pre = some i := by
  induction names generalizing a with
  | nil => exact .inl way
  | cons k names ih =>
    obtain ⟨c, child, rest⟩ := Option.bind_eq_some_iff.mp way
    rcases h.child?_cases bare regular child with old | ⟨rfl, rfl, rfl⟩
    · rcases ih rest with kept | ⟨pre, rfl, toParent⟩
      · exact .inl (Option.bind_eq_some_iff.mpr ⟨c, old, kept⟩)
      · exact .inr ⟨k :: pre, rfl, Option.bind_eq_some_iff.mpr ⟨c, old, toParent⟩⟩
    · cases names with
      | nil => exact .inr ⟨[], rfl, rfl⟩
      | cons k' names =>
        -- Nothing is below the new node.
        obtain ⟨_, child', -⟩ := Option.bind_eq_some_iff.mp rest
        obtain ⟨n', l, -, found, -, link, -⟩ := child?_eq_some_iff.mp child'
        obtain rfl : n = n' := Option.some.inj (h.grows.node_new.symm.trans found)
        simp [Node.link?, bare] at link

theorem hasOwnLinks (own : w.HasOwnLinks) : v.HasOwnLinks := by
  intro j m live l mem
  obtain ⟨found, isLive⟩ := live?_eq_some_iff.mp live
  rcases h.grows.node_cases found with ⟨rfl, rfl⟩ | ⟨old, was, rfl⟩
  · rw [bare] at mem
    cases mem
  · have oldLive : w.live? j = some old := live?_eq_some_iff.mpr ⟨was, by
      split at isLive <;> exact isLive⟩
    split at mem
    · rcases List.mem_append.mp mem with kept | new
      · exact own j old oldLive l kept
      · rw [List.mem_singleton.mp new]
    · exact own j old oldLive l mem

end Raised

end World

/-! ### What is checked of a manifest -/

namespace Manifest

variable {seen : List Text} {i : Nat} {specs specs' : List InterpreterSpec}

theorem of_defect? {spec : InterpreterSpec} (h : defect? seen i spec = none) :
    spec.path ∉ seen ∧ ∀ a ∈ spec.aliases, a.command ≠ [] := by
  unfold defect? at h
  dsimp only at h
  repeat' split at h
  all_goals first | contradiction | skip
  rename_i new _ named
  refine ⟨by simpa using new, fun a mem none => ?_⟩
  have := List.findIdx?_eq_none_iff.mp named a mem
  simp [none] at this

theorem of_checkFrom (h : checkFrom seen i specs = .ok specs') :
    (specs'.map InterpreterSpec.path).Nodup ∧ (∀ spec ∈ specs', spec.path ∉ seen) ∧
      ∀ spec ∈ specs', ∀ a ∈ spec.aliases, a.command ≠ [] := by
  induction specs generalizing seen i specs' with
  | nil =>
    rw [checkFrom] at h
    obtain rfl := Except.ok.inj h
    exact ⟨List.nodup_nil, List.forall_mem_nil _, List.forall_mem_nil _⟩
  | cons spec specs ih =>
    rw [checkFrom] at h
    dsimp only at h
    cases checked : defect? seen i { spec with path := Text.trim spec.path } with
    | some message =>
      rw [checked] at h
      cases h
    | none =>
      simp only [checked, bind, Except.bind, pure, Except.pure] at h
      split at h
      · cases h
      · rename_i rest others
        obtain rfl := Except.ok.inj h
        obtain ⟨new, named⟩ := of_defect? checked
        obtain ⟨distinct, apart, allNamed⟩ := ih others
        refine ⟨List.nodup_cons.mpr ⟨fun mem => ?_, distinct⟩,
          List.forall_mem_cons.mpr ⟨new, fun k mem seen => ?_⟩,
          List.forall_mem_cons.mpr ⟨named, allNamed⟩⟩
        · obtain ⟨k, mem, same⟩ := List.mem_map.mp mem
          exact apart k mem (same ▸ List.mem_cons_self)
        · exact apart k mem (List.mem_cons_of_mem _ seen)

/-- The paths of a manifest that is in order are different, and its aliases forward to something. -/
theorem of_checked {m₀ m : Manifest} (h : m₀.checked = .ok m) :
    (m.interpreters.map InterpreterSpec.path).Nodup ∧
      ∀ spec ∈ m.interpreters, ∀ a ∈ spec.aliases, a.command ≠ [] := by
  unfold checked at h
  cases specs : checkFrom [] 0 m₀.interpreters with
  | error f =>
    rw [specs] at h
    cases h
  | ok specs' =>
    rw [specs] at h
    obtain rfl := Except.ok.inj h
    obtain ⟨distinct, -, named⟩ := of_checkFrom specs
    exact ⟨distinct, named⟩

end Manifest

/-! ### Interpreters one after the other -/

namespace World

variable {w u v : World} {everywhere : Limits.Override} {start : Limits} {spec : InterpreterSpec}
  {made : List InterpreterSpec} {n m : Node}

/-- An interpreter goes on being what was asked for, when others change in links and limits only. -/
theorem isMetBy_of_kept (h : spec.IsMetBy everywhere start w n) (numbered : w.IsNumbered)
    (ways : Extends w v)
    (kept : ∀ i k, w.node? i = some k → ∃ links cancel, v.node? i = some { k with links, cancel })
    (same : m = { n with links := m.links, cancel := m.cancel })
    (limits : ∀ f, m.cancel.limits.get f =
      (spec.limits.get f).getD ((everywhere.get f).getD (start.get f))) :
    spec.IsMetBy everywhere start v m := by
  rw [same]
  obtain ⟨p, found, -⟩ := alive_of_resolve? numbered h.parent
  refine ⟨ways.resolve? h.parent, h.called, fun p' found' => ?_, h.standard, h.trusted, h.readOnly,
    h.immutable, h.hidden, h.visible, h.aliases.imp fun _ _ made => isMadeBy_of_extends made ways,
    h.policies, limits⟩
  obtain ⟨links, cancel, found''⟩ := kept _ p found
  obtain rfl := Option.some.inj (found'.symm.trans found'')
  exact h.safe p found

/-- The link leads from node `i` to an interpreter that is asked for below it. -/
def IsPlaced (w : World) (specs : List InterpreterSpec) (i : NodeId) (l : Link) : Prop :=
  ∃ spec ∈ specs, w.resolve? root (splitPath spec.path).1 = some i ∧
    w.resolve? root spec.path = some l.target ∧ l.name = (splitPath spec.path).2 ∧ l.shared = false

/-- The tree of `v` is that of `w` with some interpreters more. -/
structure Erected (everywhere : Limits.Override) (w : World) (made : List InterpreterSpec)
    (v : World) : Prop where
  regular : v.IsRegular
  woven : v.IsWoven
  own : v.HasOwnLinks
  ruled : ∃ r, v.node? root = some r ∧ r.trust.safe = false
  settings : v.settings = w.settings
  size : v.nodes.size = w.nodes.size + made.length
  ways : ∀ names t, v.follow? root names = some t →
    w.follow? root names = some t ∨ ∃ spec ∈ made, names = namesOf spec.path
  old : ∀ i n, w.node? i = some n → ∃ more, v.node? i = some { n with links := n.links ++ more } ∧
    ∀ l ∈ more, v.IsPlaced made i l
  new : ∀ spec ∈ made, ∃ t n, v.resolve? root spec.path = some t ∧ v.node? t = some n ∧
    spec.IsMetBy everywhere w.settings.limits v n

theorem IsPlaced.later {i : NodeId} {l : Link} (h : w.IsPlaced made i l) (ways : Extends w v)
    (spec : InterpreterSpec) : v.IsPlaced (made ++ [spec]) i l := by
  obtain ⟨old, mem, parent, target, name, unshared⟩ := h
  exact ⟨old, List.mem_append_left _ mem, ways.resolve? parent, ways.resolve? target, name, unshared⟩

/-- One more interpreter. -/
theorem Erected.step (h : Erected everywhere w made u) {i : NodeId}
    (named : namesOf spec.path = namesOf (splitPath spec.path).1 ++ [(splitPath spec.path).2])
    (resolved : u.resolve? root (splitPath spec.path).1 = some i)
    (raised : Raised u i (splitPath spec.path).2 spec.path n v) (bare : n.links = [])
    (met : spec.IsMetBy everywhere u.settings.limits v n) :
    Erected everywhere w (made ++ [spec]) v := by
  have ways := raised.grows.extends
  obtain ⟨r, foundR, aliveR⟩ := h.regular.root_alive
  refine ⟨raised.regular, raised.woven, raised.hasOwnLinks bare h.own, ?ruled,
    raised.grows.still.settings.trans h.settings, ?size, fun names t way => ?ways,
    fun j k found => ?old, fun spec' mem => ?new⟩
  case ruled =>
    obtain ⟨r, found, unsafe'⟩ := h.ruled
    exact ⟨_, raised.grows.node_old found, by split <;> exact unsafe'⟩
  case size =>
    rw [raised.grows.size, h.size, List.length_append]
    rfl
  case ways =>
    rcases raised.follow?_cases bare h.regular way with old | ⟨pre, rfl, toParent⟩
    · rcases h.ways names t old with older | ⟨spec', mem, same⟩
      · exact .inl older
      · exact .inr ⟨spec', List.mem_append_left _ mem, same⟩
    · rw [resolve?_eq foundR aliveR] at resolved
      obtain rfl := h.woven.follow?_unique h.regular h.own resolved toParent
      exact .inr ⟨spec, List.mem_append_right _ List.mem_cons_self, named.symm⟩
  case old =>
    obtain ⟨more, found', placed⟩ := h.old j k found
    have found'' := raised.grows.node_old found'
    split at found''
    · rename_i here
      subst here
      refine ⟨more ++ [⟨(splitPath spec.path).2, u.nodes.size + 1, false⟩], ?_, fun l mem => ?_⟩
      · rw [found'', Node.addLink, List.append_assoc]
      · rcases List.mem_append.mp mem with old | new
        · exact (placed l old).later ways spec
        · obtain rfl := List.mem_singleton.mp new
          exact ⟨spec, List.mem_append_right _ List.mem_cons_self, ways.resolve? resolved,
            raised.found, rfl, rfl⟩
    · exact ⟨more, found'', fun l mem => (placed l mem).later ways spec⟩
  case new =>
    rcases List.mem_append.mp mem with old | new
    · obtain ⟨t, k, reached, found, met⟩ := h.new spec' old
      obtain ⟨links, found'⟩ := raised.grows.node_links.1 t k found
      refine ⟨t, _, ways.resolve? reached, found', ?_⟩
      refine isMetBy_of_kept met h.regular.numbered ways (fun j k found => ?_) rfl met.limits
      obtain ⟨links, found'⟩ := raised.grows.node_links.1 j k found
      exact ⟨links, k.cancel, found'⟩
    · obtain rfl := List.mem_singleton.mp new
      exact ⟨_, n, raised.found, raised.grows.node_new, h.settings ▸ met⟩

theorem erected_refl (regular : w.IsRegular) (woven : w.IsWoven) (own : w.HasOwnLinks) {r : Node}
    (found : w.node? root = some r) (unsafe' : r.trust.safe = false) :
    Erected everywhere w [] w where
  regular := regular
  woven := woven
  own := own
  ruled := ⟨r, found, unsafe'⟩
  settings := rfl
  size := rfl
  ways _ _ way := .inl way
  old i n found := ⟨[], by rw [List.append_nil, found], List.forall_mem_nil _⟩
  new := List.forall_mem_nil _

/-- The notes that are kept do not matter to a tree. -/
theorem Raised.followed {i : NodeId} {name path : Text} (h : Raised w i name path n u)
    (nodes : v.nodes = u.nodes) (still : Still u v) : Raised w i name path n v where
  grows := ⟨(congrArg Array.size nodes).trans h.grows.size,
    fun j => (node?_congr nodes j).trans (h.grows.node j), h.grows.still.trans still⟩
  regular := Keeps.isRegular (.of_nodes_eq composes_keepsAt nodes) h.regular
  woven := Keeps.isWoven (.of_nodes_eq composes_keepsAt nodes) h.woven
  found := (SameWays.resolve? (.of_nodes_eq composes_sameWays nodes) _ _).trans h.found

/-- What a manifest makes of a tree that has none of its interpreters, before limits are set. -/
theorem erected_of_loop {m : Manifest} {e : Engine} {context : Option Context}
    (start : Erected m.limits w [] w)
    (distinct : (m.interpreters.map InterpreterSpec.path).Nodup)
    (named : ∀ spec ∈ m.interpreters, ∀ a ∈ spec.aliases, a.command ≠ [])
    (silent : ∀ spec ∈ m.interpreters, spec.scripts = [])
    (absent : ∀ spec ∈ m.interpreters, w.pathExists root spec.path = false)
    (ok : (m.interpreters.forM fun spec => do
      if !(← getThe World).pathExists root spec.path then
        Attempt.noting ("manifest: interpreter " ++ Text.quoted spec.path)
          (Manifest.make e context root m.limits spec)
        modifyThe World (World.log .debug "manifest interpreter created"
          [field "node" (Text.ofNat root), field "path" spec.path,
            field "safe" (flagField spec.safe)]) : Attempt Unit).run w = .ok (.ok ()) v) :
    Erected m.limits w m.interpreters v := by
  refine Attempt.forM_induction (I := fun done u => Erected m.limits w done u) ok start ?_
  intro done spec rest split u u' erected step
  have mem : spec ∈ m.interpreters := split ▸ List.mem_append_right _ List.mem_cons_self
  -- Nobody but the root could have been found at the path, and other entries have other paths.
  have free : u.pathExists root spec.path = false := by
    rw [World.pathExists, Option.isSome_eq_false_iff, Option.isNone_iff_eq_none]
    cases reached : u.resolve? root spec.path with
    | none => rfl
    | some t =>
      obtain ⟨r, foundR, aliveR⟩ := erected.regular.root_alive
      rw [resolve?_eq foundR aliveR] at reached
      rcases erected.ways _ t reached with before | ⟨other, made, same⟩
      · obtain ⟨r, foundR, aliveR⟩ := start.regular.root_alive
        have none := absent spec mem
        rw [World.pathExists, resolve?_eq foundR aliveR, before] at none
        cases none
      · have paths : (done.map InterpreterSpec.path ++ spec.path ::
            rest.map InterpreterSpec.path).Nodup := by
          rw [← List.map_cons, ← List.map_append, split]
          exact distinct
        refine absurd ?_ (List.nodup_middle.mp paths |>.notMem)
        rw [namesOf_injective same]
        exact List.mem_append_left _ (List.mem_map_of_mem made)
  obtain ⟨_, _, looks, step⟩ := Attempt.of_bind step
  obtain ⟨same, rfl⟩ := EStateM.Result.ok.inj looks
  obtain rfl := Except.ok.inj same
  rw [free] at step
  obtain ⟨_, v', makes, notes⟩ := Attempt.of_bind step
  obtain ⟨-, notes⟩ := EStateM.Result.ok.inj notes
  have nodes : u'.nodes = v'.nodes := notes ▸ nodes_log _ _ _ v'
  obtain ⟨r, found, unsafe'⟩ := erected.ruled
  obtain ⟨i, n, names, resolved, raised, bare, -, met⟩ := raised_of_make erected.regular
    erected.woven found unsafe' (silent spec mem) (named spec mem) (Attempt.of_noting makes)
  have noted := raised.followed nodes (notes ▸ .log _ _ _ v')
  refine erected.step names resolved noted bare ?_
  refine isMetBy_of_kept met raised.regular.numbered (raised.keepsWays noted rfl)
    (fun j k there => ⟨k.links, k.cancel, ?_⟩) rfl met.limits
  rw [node?_congr nodes, there]

end World

end InterpTree
