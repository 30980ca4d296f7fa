import InterpTree.World

/-!
Looking nodes up in a changed world. What an operation does to the world is told node by node: `Each
P w v` says that `v` has the nodes of `w`, each changed as `P` allows.
-/

namespace InterpTree

namespace World

variable {w v u : World} {id i : Nat} {n : Node}

@[simp] theorem node?_zero (w : World) : w.node? 0 = none := rfl

theorem node?_succ (w : World) (i : Nat) : w.node? (i + 1) = w.nodes[i]? := rfl

theorem node?_congr (h : v.nodes = w.nodes) (i : Nat) : v.node? i = w.node? i := by
  simp only [node?, h]

theorem node?_eq_some_iff :
    w.node? id = some n ↔ id ≠ 0 ∧ w.nodes[id - 1]? = some n := by
  by_cases h : id = 0
  · simp [node?, h]
  · simp [node?, h]

theorem pos_of_node? (h : w.node? id = some n) : 0 < id :=
  Nat.pos_of_ne_zero (node?_eq_some_iff.mp h).1

theorem le_size_of_node? (h : w.node? id = some n) : id ≤ w.nodes.size := by
  have pos := pos_of_node? h
  have := (Array.getElem?_eq_some_iff.mp (node?_eq_some_iff.mp h).2).1
  omega

@[simp] theorem node?_new (w : World) : w.node? (w.nodes.size + 1) = none := by
  simp [node?]

theorem exists_node? (hpos : 0 < id) (hle : id ≤ w.nodes.size) : ∃ n, w.node? id = some n := by
  have bound : id - 1 < w.nodes.size := Nat.sub_one_lt_of_le hpos hle
  exact ⟨w.nodes[id - 1], node?_eq_some_iff.mpr ⟨Nat.ne_of_gt hpos, Array.getElem?_eq_getElem bound⟩⟩

theorem node?_modifyNode (id : Nat) (f : Node → Node) (w : World) (i : Nat) :
    (w.modifyNode id f).node? i = if i = id then (w.node? i).map f else w.node? i := by
  by_cases zero : id = 0
  · subst zero
    by_cases same : i = 0
    · simp [modifyNode, same]
    · simp [modifyNode, same]
  by_cases none : i = 0
  · simp [none, Ne.symm zero]
  have apart : id - 1 = i - 1 ↔ i = id :=
    ⟨fun h => (Nat.sub_one_cancel (Nat.pos_of_ne_zero zero) (Nat.pos_of_ne_zero none) h).symm,
      fun h => h ▸ Eq.refl _⟩
  simp only [modifyNode, zero, if_false, node?, none, Array.getElem?_modify, apart]

theorem node?_modifyNode_same (f : Node → Node) (h : w.node? id = some n) :
    (w.modifyNode id f).node? id = some (f n) := by
  rw [node?_modifyNode, if_pos rfl, h]
  rfl

theorem node?_modifyNode_ne (f : Node → Node) (h : i ≠ id) :
    (w.modifyNode id f).node? i = w.node? i := by
  rw [node?_modifyNode, if_neg h]

/-- A node that was never made does not change. -/
theorem modifyNode_of_none (f : Node → Node) (h : w.node? id = none) : w.modifyNode id f = w := by
  by_cases zero : id = 0
  · simp [modifyNode, zero]
  · simp only [node?, zero, if_false] at h
    have beyond : ¬ id - 1 < w.nodes.size := by simpa using h
    simp only [modifyNode, zero, if_false, Array.modify, Array.modifyM, beyond, dif_neg,
      not_false_eq_true]
    rfl

/-- What a change would do to other nodes does not matter. -/
theorem modifyNode_congr (found : w.node? id = some n) {f g : Node → Node} (same : f n = g n) :
    w.modifyNode id f = w.modifyNode id g := by
  obtain ⟨pos, there⟩ := node?_eq_some_iff.mp found
  unfold modifyNode
  rw [if_neg pos, if_neg pos]
  congr 1
  refine Array.ext (by simp) fun j low high => ?_
  rw [Array.getElem_modify, Array.getElem_modify]
  split
  · rename_i here
    subst here
    obtain ⟨_, rfl⟩ := Array.getElem?_eq_some_iff.mp there
    exact same
  · rfl

/-- A node that becomes what it is leaves the world as it was. -/
theorem modifyNode_self (found : w.node? id = some n) : (w.modifyNode id fun _ => n) = w := by
  obtain ⟨pos, -⟩ := node?_eq_some_iff.mp found
  have same : (w.modifyNode id fun _ => n) = w.modifyNode id fun m => m := modifyNode_congr found rfl
  rw [same]
  simp only [modifyNode, if_neg pos]
  congr 1
  refine Array.ext (by simp) fun j low high => ?_
  rw [Array.getElem_modify]
  split <;> rfl

/-- A node that is changed and then put back leaves the world as it was. -/
theorem modifyNode_restore (found : w.node? id = some n) (m : Node) :
    (w.modifyNode id fun _ => m).modifyNode id (fun _ => n) = w := by
  obtain ⟨pos, there⟩ := node?_eq_some_iff.mp found
  have nodes : (w.nodes.modify (id - 1) fun _ => m).modify (id - 1) (fun _ => n) = w.nodes := by
    refine Array.ext (by simp) fun j low high => ?_
    rw [Array.getElem_modify, Array.getElem_modify]
    split
    · rename_i here
      subst here
      exact (Array.getElem?_eq_some_iff.mp there).2.symm
    · rfl
  simp only [modifyNode, if_neg pos, nodes]

@[simp] theorem size_modifyNode (id : Nat) (f : Node → Node) (w : World) :
    (w.modifyNode id f).nodes.size = w.nodes.size := by
  by_cases zero : id = 0 <;> simp [modifyNode, zero]

@[simp] theorem nodes_modifyHost (f : Host → Host) (w : World) :
    (w.modifyHost f).nodes = w.nodes := rfl

@[simp] theorem nodes_modifyObject (token : Nat) (f : Object → Object) (w : World) :
    (w.modifyObject token f).nodes = w.nodes := by
  unfold modifyObject
  split <;> rfl

@[simp] theorem nodes_log (level : Level) (message : Text) (fields : List (Text × Text))
    (w : World) : (w.log level message fields).nodes = w.nodes := by
  unfold log
  split
  · rfl
  · split <;> rfl

@[simp] theorem nodes_logNode (level : Level) (id : Nat) (message : Text)
    (fields : List (Text × Text)) (w : World) :
    (w.logNode level id message fields).nodes = w.nodes := by
  unfold logNode
  split
  · rfl
  · simp

@[simp] theorem node?_log (level : Level) (message : Text) (fields : List (Text × Text))
    (w : World) (i : Nat) : (w.log level message fields).node? i = w.node? i :=
  node?_congr (nodes_log level message fields w) i

@[simp] theorem node?_logNode (level : Level) (id : Nat) (message : Text)
    (fields : List (Text × Text)) (w : World) (i : Nat) :
    (w.logNode level id message fields).node? i = w.node? i :=
  node?_congr (nodes_logNode level id message fields w) i

/-- A node added at the end stands at the next number. -/
theorem node?_push (h : v.nodes = w.nodes.push n) (i : Nat) :
    v.node? i = if i = w.nodes.size + 1 then some n else w.node? i := by
  by_cases zero : i = 0
  · simp [zero]
  simp only [node?, zero, if_false, h, Array.getElem?_push]
  have pos := Nat.pos_of_ne_zero zero
  have apart : i - 1 = w.nodes.size ↔ i = w.nodes.size + 1 := by omega
  simp only [apart]

theorem mem_of_node? (h : w.node? i = some n) : n ∈ w.nodes.toList :=
  Array.mem_toList_iff.mpr (Array.mem_of_getElem? (node?_eq_some_iff.mp h).2)

theorem forall_node?_iff {P : Node → Prop} :
    (∀ i n, w.node? i = some n → P n) ↔ ∀ n ∈ w.nodes.toList, P n := by
  constructor
  · intro all n mem
    obtain ⟨i, found⟩ := List.mem_iff_getElem?.mp mem
    exact all (i + 1) n (by simpa [node?_succ] using found)
  · intro all i n found
    exact all n (mem_of_node? found)

/-- Every node has the number of its place. -/
def IsNumbered (w : World) : Prop := ∀ i n, w.node? i = some n → n.id = i

instance (w : World) : Decidable w.IsNumbered :=
  decidable_of_iff (∀ i : Fin w.nodes.size, w.nodes[i].id = i + 1) (by
    constructor
    · intro places i n found
      obtain ⟨zero, there⟩ := node?_eq_some_iff.mp found
      obtain ⟨bound, rfl⟩ := Array.getElem?_eq_some_iff.mp there
      have place : w.nodes[i - 1].id = i - 1 + 1 := places ⟨i - 1, bound⟩
      exact place.trans (Nat.sub_add_cancel (Nat.pos_of_ne_zero zero))
    · intro numbered i
      exact numbered _ _ (by simp [node?_succ]))

theorem IsNumbered.modifyNode (numbered : w.IsNumbered) {f : Node → Node}
    (same : ∀ n, w.node? id = some n → (f n).id = n.id) : (w.modifyNode id f).IsNumbered := by
  intro i n' found'
  rw [node?_modifyNode] at found'
  split at found'
  · rename_i here
    obtain ⟨n, found, rfl⟩ := Option.map_eq_some_iff.mp found'
    exact (same n (here ▸ found)).trans (numbered i n found)
  · exact numbered i n' found'

/-- No change is a change of the kind `P`, and so are two such changes one after the other. -/
structure Composes (P : NodeId → Node → Node → Prop) : Prop where
  refl : ∀ i n, P i n n
  trans : ∀ i {n m k}, P i n m → P i m k → P i n k

/-- `v` has the nodes of `w`, and each of them is there as `P` allows. -/
structure Each (P : NodeId → Node → Node → Prop) (w v : World) : Prop where
  size : v.nodes.size = w.nodes.size
  node : ∀ i n, w.node? i = some n → ∃ n', v.node? i = some n' ∧ P i n n'

namespace Each

variable {P Q : NodeId → Node → Node → Prop}

theorem of_nodes_eq (c : Composes P) (h : v.nodes = w.nodes) : Each P w v :=
  ⟨congrArg Array.size h, fun i n found => ⟨n, (node?_congr h i).trans found, c.refl i n⟩⟩

theorem refl (c : Composes P) (w : World) : Each P w w := of_nodes_eq c rfl

theorem trans (c : Composes P) (h : Each P w v) (h' : Each P v u) : Each P w u := by
  refine ⟨h'.size.trans h.size, fun i n found => ?_⟩
  obtain ⟨m, foundM, first⟩ := h.node i n found
  obtain ⟨k, foundK, second⟩ := h'.node i m foundM
  exact ⟨k, foundK, c.trans i first second⟩

theorem modifyNode (c : Composes P) (f : Node → Node)
    (h : ∀ n, w.node? id = some n → P id n (f n)) : Each P w (w.modifyNode id f) := by
  refine ⟨size_modifyNode id f w, fun i n found => ?_⟩
  by_cases same : i = id
  · subst same
    exact ⟨f n, node?_modifyNode_same f found, h n found⟩
  · exact ⟨n, (node?_modifyNode_ne f same).trans found, c.refl i n⟩

theorem imp (h : Each P w v) (weaker : ∀ i n n', w.node? i = some n → P i n n' → Q i n n') :
    Each Q w v := by
  refine ⟨h.size, fun i n found => ?_⟩
  obtain ⟨n', found', kept⟩ := h.node i n found
  exact ⟨n', found', weaker i n n' found kept⟩

theorem mono (h : Each P w v) (weaker : ∀ i n n', P i n n' → Q i n n') : Each Q w v :=
  h.imp fun i n n' _ => weaker i n n'

theorem and (h : Each P w v) (h' : Each Q w v) : Each (fun i n n' => P i n n' ∧ Q i n n') w v := by
  refine ⟨h.size, fun i n found => ?_⟩
  obtain ⟨n', found', kept⟩ := h.node i n found
  obtain ⟨m, foundM, kept'⟩ := h'.node i n found
  obtain rfl : n' = m := Option.some.inj (found'.symm.trans foundM)
  exact ⟨n', found', kept, kept'⟩

/-- The other way round: every node of `v` was there before. -/
theorem node_back (h : Each P w v) {n' : Node} (found' : v.node? i = some n') :
    ∃ n, w.node? i = some n ∧ P i n n' := by
  have inside := le_size_of_node? found'
  rw [h.size] at inside
  obtain ⟨n, found⟩ := exists_node? (pos_of_node? found') inside
  obtain ⟨m, foundM, kept⟩ := h.node i n found
  rw [found'] at foundM
  cases foundM
  exact ⟨n, found, kept⟩

theorem node?_none (h : Each P w v) (gone : w.node? i = none) : v.node? i = none := by
  match found : v.node? i with
  | none => rfl
  | some n' =>
    obtain ⟨n, was, _⟩ := h.node_back found
    rw [gone] at was
    cases was

theorem isNumbered (h : Each P w v) (same : ∀ i n n', P i n n' → n'.id = n.id)
    (numbered : w.IsNumbered) : v.IsNumbered := by
  intro i n' found'
  obtain ⟨n, found, kept⟩ := h.node_back found'
  exact (same i n n' kept).trans (numbered i n found)

end Each

end World

end InterpTree
