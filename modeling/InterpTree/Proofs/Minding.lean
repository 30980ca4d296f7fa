import InterpTree.Engine.Control
import InterpTree.Proofs.Governance
import InterpTree.Proofs.TrustChanges

/-!
Operations by what they need. Some only read; the others here change nodes as `Node.IsGoverned` says,
and nothing unless their caller is not safe.
-/

namespace InterpTree

namespace Op

variable {α β : Type} {w : World} {caller : NodeId} {alive : NodeId → Prop} {path name : Text}

/-- The operation leaves the world as it is. -/
def Reads (x : Op α) : Prop := ∀ w, Ends x w fun _ v => v = w

theorem Reads.eq_of_ok {x : Op α} {a : α} {v : World} (h : Reads x) (result : x w = .ok a v) :
    v = w := by
  have same := h w
  unfold Ends at same
  rw [result] at same
  exact same

theorem reads_aliases : Reads (aliases caller path) := fun w => by simp [aliases]

theorem reads_children : Reads (children caller path) := fun w => by simp [children]

theorem reads_hidden : Reads (hidden caller path) := fun w => by simp [hidden]

theorem reads_policies : Reads (policies caller path) := fun w => by simp [policies]

theorem reads_queryAlias : Reads (queryAlias caller path name) := fun w => by
  simp only [queryAlias, Ends.bind_iff, ends_resolve, ends_node]
  refine ⟨fun target _ => ⟨fun n _ => ?_, fun _ => trivial⟩, fun _ => trivial⟩
  cases n.alias? name <;> simp

theorem reads_aliasTarget : Reads (aliasTarget caller path name) := fun w => by
  simp only [aliasTarget, Ends.bind_iff]
  refine (reads_queryAlias w).mono fun r v same => ?_
  cases r <;> simp [same]

theorem Reads.pure (a : α) : Reads (pure a) := fun _ => rfl

theorem Reads.throw (f : Fault) : Reads (throw f : Op α) := fun _ => rfl

theorem Reads.bind {x : Op α} {f : α → Op β} (h : Reads x) (next : ∀ a, Reads (f a)) :
    Reads (x >>= f) := fun w =>
  .bind (h w) (fun a v same => same ▸ next a v) fun _ _ same => same

theorem reads_node (id : NodeId) : Reads (node id) := fun w => by simp

theorem reads_resolve (id : NodeId) (path : Text) : Reads (resolve id path) := fun w => by simp

theorem reads_require (c : Bool) (f : Fault) : Reads (require c f) := fun w => by simp

theorem reads_lift (x : Except Fault α) : Reads (lift x) := fun w => by simp

theorem reads_get : Reads (get : Op World) := fun _ => rfl

theorem reads_requirePrivilege (action : Text) : Reads (requirePrivilege caller action) :=
  (reads_node caller).bind fun _ => reads_require _ _

/-- However the operation ends, nodes are changed only as governing allows, if those that are known
to be `alive` are. -/
def Governs (caller : NodeId) (alive : NodeId → Prop) (x : Op α) : Prop :=
  ∀ w, w.IsNumbered → (∀ i n, alive i → w.node? i = some n → n.dead = false) →
    Ends x w fun _ v => World.Each (fun _ => Node.IsGoverned caller) w v

theorem Reads.governs {x : Op α} (h : Reads x) : Governs caller alive x := fun w _ _ =>
  (h w).mono fun _ _ same => same ▸ .refl (World.composes_isGoverned caller) w

theorem Governs.bind {x : Op α} {f : α → Op β} (h : Governs caller alive x)
    (next : ∀ a, Governs caller alive (f a)) : Governs caller alive (x >>= f) :=
  fun w numbered known => .bind (h w numbered known) (fun a v first => by
    refine (next a v (first.isNumbered (fun _ _ _ governed => governed.id) numbered)
      fun i n' here found' => ?_).mono fun _ _ second =>
        first.trans (World.composes_isGoverned caller) second
    obtain ⟨n, found, governed⟩ := first.node_back found'
    exact governed.dead.trans (known i n here found)) fun _ _ first => first

/-- The node that a path leads to is alive. -/
theorem governs_resolve {f : NodeId → Op β}
    (next : ∀ target, Governs caller (fun i => i = target ∨ alive i) (f target)) :
    Governs caller alive (resolve caller path >>= f) := by
  intro w numbered known
  rw [Ends.bind_iff, ends_resolve]
  refine ⟨fun target resolved => next target w numbered fun i n here found => ?_,
    fun _ => .refl (World.composes_isGoverned caller) w⟩
  rcases here with rfl | here
  · exact World.alive_of_resolved numbered resolved found
  · exact known i n here found

theorem governs_modifyNode (id : NodeId) {f : Node → Node}
    (h : ∀ n : Node, (alive id → n.dead = false) → n.IsGoverned caller (f n)) :
    Governs caller alive (change (World.modifyNode id f)) := fun _ _ known =>
  World.Each.modifyNode (World.composes_isGoverned caller) f fun n found =>
    h n fun here => known id n here found

theorem governs_logNode (level : Level) (id : NodeId) (message : Text)
    (fields : List (Text × Text)) :
    Governs caller alive (change (World.logNode level id message fields)) :=
  fun w _ _ => .of_nodes_eq (World.composes_isGoverned caller) (World.nodes_logNode _ _ _ _ w)

theorem governs_updateNode (id : NodeId) {edit : Edit α} {Q : Node → Except Fault α → Node → Prop}
    (settles : ∀ n, Settles edit n (Q n))
    (h : ∀ n r n', (alive id → n.dead = false) → Q n r n' → n.IsGoverned caller n') :
    Governs caller alive (updateNode id edit) := by
  intro w _ known
  refine (settles_updateNode fun n _ => settles n).leaves
    (.refl (World.composes_isGoverned caller) w) ?_
  rintro r v ⟨n, m, made, amends⟩
  exact amends.each (World.composes_isGoverned caller)
    (h n r m (fun here => known id n here amends.found) made)

theorem governs_defineCommand (id : NodeId) (spec : CommandSpec) :
    Governs caller alive (defineCommand id spec) := by
  refine governs_updateNode id (fun n => n.settles_define spec) fun n _ _ _ done => ?_
  obtain ⟨c, action, k, -, -, living, writable, -, -, clears, put⟩ := done
  obtain ⟨-, rfl⟩ := Prod.mk.inj put
  rw [Node.same_of_clears clears]
  exact .of_tables writable (Node.bare_of_alive living) rfl

theorem governs_removeCommand (id : NodeId) (name : Text) :
    Governs caller alive (removeCommand id name) := by
  refine governs_updateNode id (fun n => n.settles_removeCommand name) fun n _ n' _ done => ?_
  obtain ⟨-, writable, c, -, erased⟩ := done
  rw [Node.of_eraseCommand erased]
  refine .of_tables writable (fun _ bare => ?_) rfl
  refine ⟨bare.links, ?_, ?_, bare.policies, bare.objects⟩
  · simp only [bare.commands]
    rfl
  · simp only [bare.aliases, List.filter_nil]

/-- The operation does nothing for a caller that is safe, and governs for any other. -/
def Minds (caller : NodeId) (x : Op α) : Prop :=
  ∀ w, w.IsNumbered → Ends x w fun _ v => v = w ∨
    ((∃ c, w.node? caller = some c ∧ c.trust.safe = false) ∧
      World.Each (fun _ => Node.IsGoverned caller) w v)

theorem Reads.minds {x : Op α} (h : Reads x) : Minds caller x := fun w _ =>
  (h w).mono fun _ _ same => .inl same

theorem Minds.after {x : Op α} {f : α → Op β} (h : Reads x) (next : ∀ a, Minds caller (f a)) :
    Minds caller (x >>= f) := fun w numbered =>
  .bind (h w) (fun a v same => same ▸ next a v (same ▸ numbered)) fun _ _ same => .inl same

theorem Minds.before {x : Op α} {f : α → Op β} (h : Minds caller x) (next : ∀ a, Reads (f a)) :
    Minds caller (x >>= f) := fun w numbered =>
  .bind (h w numbered) (fun a v did => (next a v).mono fun _ _ same => same ▸ did) fun _ _ did => did

theorem minds_of_trusted {fault : Fault} {f : Unit → Op α} (h : Governs caller (fun _ => False) (f ())) :
    Minds caller (do require (!(← node caller).trust.safe) fault; f ()) := by
  intro w numbered
  simp only [Ends.bind_iff, ends_node, ends_require]
  refine ⟨fun c asker => ⟨fun trusted => ?_, fun _ => .inl trivial⟩, fun _ => .inl trivial⟩
  have plain : c.trust.safe = false := by simpa using trusted
  exact (h w numbered fun _ _ never => never.elim).mono fun _ _ did => .inr ⟨⟨c, asker, plain⟩, did⟩

theorem minds_of_privilege {action : Text} {f : Unit → Op α}
    (h : Governs caller (fun _ => False) (f ())) :
    Minds caller (requirePrivilege caller action >>= f) := by
  unfold requirePrivilege
  rw [bind_assoc]
  exact minds_of_trusted h

theorem minds_hide {newName : Text} : Minds caller (hide caller path name newName) := by
  refine minds_of_privilege (governs_resolve fun target => ?_)
  refine governs_updateNode target (fun n => n.settles_hide path name _) fun n _ _ known done => ?_
  obtain ⟨-, may, rfl⟩ := done
  exact .of_tables may.writable (Node.bare_of_alive (known (.inl rfl))) rfl

theorem minds_expose {newName : Text} : Minds caller (expose caller path name newName) := by
  refine minds_of_privilege (governs_resolve fun target => ?_)
  refine governs_updateNode target (fun n => n.settles_expose path name _) fun n _ _ known done => ?_
  obtain ⟨-, may, rfl⟩ := done
  exact .of_tables may.writable (Node.bare_of_alive (known (.inl rfl))) rfl

theorem minds_deleteAlias : Minds caller (deleteAlias caller path name) := by
  refine minds_of_privilege (governs_resolve fun source => ?_)
  refine governs_updateNode source (fun n => n.settles_eraseAlias path name) fun n _ _ known done => ?_
  obtain ⟨-, writable, a, -, rfl⟩ := done
  exact .of_tables writable (Node.bare_of_alive (known (.inl rfl))) rfl

theorem minds_defineAlias {targetPath targetName : Text} {bound : List Text} :
    Minds caller (defineAlias caller path name targetPath targetName bound) := by
  refine minds_of_privilege ((reads_require _ _).governs.bind fun _ =>
    governs_resolve fun source => reads_get.governs.bind fun w => ?_)
  split
  · exact (Reads.throw _).governs
  · refine (reads_node _).governs.bind fun target => Governs.bind ?_ fun a =>
      (governs_logNode _ _ _ _).bind fun _ => (Reads.pure a).governs
    refine governs_updateNode source (fun n => n.settles_defineAlias path _) fun n _ _ known done => ?_
    obtain ⟨a, k, -, writable, -, -, clears, put⟩ := done
    obtain ⟨-, rfl⟩ := Prod.mk.inj put
    rw [Node.same_of_clears clears]
    exact .of_tables writable (Node.bare_of_alive (known (.inl rfl))) rfl

theorem minds_aliasByShape {rest : List Text} :
    Minds caller (aliasByShape caller path name rest) := by
  unfold aliasByShape
  split
  · exact (reads_queryAlias.bind fun a => Reads.pure _).minds
  · exact minds_deleteAlias.before fun _ => Reads.pure _
  · refine .after reads_get fun w => ?_
    split
    · exact (Reads.throw _).minds
    · exact minds_deleteAlias.before fun _ => Reads.pure _
  · exact minds_defineAlias.before fun _ => Reads.pure _
  · exact (Reads.throw _).minds

theorem minds_addPolicy {spec : PolicySpec} : Minds caller (addPolicy caller path spec) := by
  refine minds_of_privilege ((reads_require _ _).governs.bind fun _ =>
    governs_resolve fun target => (reads_node _).governs.bind fun n => ?_)
  refine Governs.bind (governs_modifyNode target fun n known => ?_) fun _ =>
    (governs_logNode _ _ _ _).bind fun _ => (Reads.pure _).governs
  refine ⟨rfl, rfl, rfl, rfl, rfl, rfl, rfl, rfl, rfl, rfl, rfl, .refl _, fun _ => ⟨rfl, rfl⟩,
    fun p mem => ?_, Node.bare_of_alive (known (.inl rfl))⟩
  rcases List.mem_append.mp mem with old | new
  · exact .inl old
  · obtain rfl := List.mem_singleton.mp new
    exact .inr rfl

theorem minds_removePolicy : Minds caller (removePolicy caller path name) := by
  refine minds_of_privilege (governs_resolve fun target =>
    (reads_node _).governs.bind fun n => (reads_require _ _).governs.bind fun _ => ?_)
  exact governs_modifyNode target fun n known => ⟨rfl, rfl, rfl, rfl, rfl, rfl, rfl, rfl, rfl, rfl, rfl,
    .refl _, fun _ => ⟨rfl, rfl⟩, fun p mem => .inl (List.mem_filter.mp mem).1,
    Node.bare_of_alive (known (.inl rfl))⟩

theorem minds_shareObject : Minds caller (shareObject caller path name) := by
  have objects {alive : NodeId → Prop} (token : Nat) (f : Object → Object) :
      Governs caller alive (change (World.modifyObject token f)) := fun w _ _ =>
    .of_nodes_eq (World.composes_isGoverned caller) (World.nodes_modifyObject _ _ w)
  refine minds_of_privilege (governs_resolve fun target =>
    Governs.bind ((reads_node _).bind fun n => reads_get.bind fun w => Reads.pure _).governs
      fun found => ?_)
  split
  · exact (Reads.throw _).governs
  · refine (objects _ _).bind fun _ => ?_
    dsimp only
    split
    · refine (reads_node _).governs.bind fun n => ?_
      split
      · exact ((reads_require _ _).bind fun _ => Reads.pure _).governs
      · refine Governs.bind (governs_modifyNode target fun n known => ?_) fun _ =>
          (Reads.pure _).governs
        exact .of_rest (Node.bare_of_alive (known (.inl rfl))) rfl
    · exact (Reads.pure _).governs

/-- A holder of links is alive. -/
theorem isGoverned_sharesAt {holder shared i : NodeId} {n n' : Node} (numbered : w.IsNumbered)
    (toHolder : w.resolve? caller path = some holder) (found : w.node? i = some n)
    (change : SharesAt holder shared i n n') : n.IsGoverned caller n' := by
  unfold SharesAt at change
  rw [change]
  refine .of_rest ?_ rfl
  by_cases here : i = holder
  · exact Node.bare_of_alive (World.alive_of_resolved numbered toHolder (here ▸ found))
  · rw [if_neg here]
    exact fun _ bare => ⟨bare.links, bare.commands, bare.aliases, bare.policies, bare.objects⟩

end Op

end InterpTree
