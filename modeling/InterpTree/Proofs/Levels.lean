import InterpTree.Proofs.Markers
import InterpTree.Proofs.Regime

/-!
How deep evaluations are in a node, and which frames it has. An evaluation counts itself in on its
node and a call pushes a frame there; `World.Levels` says of two worlds that the count and the frames
of every node are the same. A worker that is overtaken is left in the middle of its item, counted in
and with the frames that it has pushed; so `World.Relevels` says that of worlds between which none is.
What does not depend on it is how high the levels are: `World.Within`.
-/

namespace InterpTree

theorem Cancellation.depth_exit (c : Cancellation) : c.exit.depth = c.depth - 1 := by
  unfold exit
  dsimp only
  split <;> rfl

/-- Popping through the marker of the frame on top drops that frame. -/
theorem CallStack.frames_popThrough {s : CallStack} {f : Frame} {below : List Frame}
    (top : s.frames = f :: below) : (s.popThrough f.marker).2.frames = below := by
  have down : s.downTo f.marker = f :: below := by
    unfold downTo
    rw [top]
    exact List.dropWhile_cons_of_neg (by simp)
  simp [popThrough, down]

namespace World

variable {w v u : World} {id : NodeId}

/-- How many evaluations are running in a node, and its call frames; none where there is no node. -/
def level (w : World) (i : NodeId) : Nat × List Frame := ((w.node? i).map Node.level).getD (0, [])

theorem level_eq {n : Node} (found : w.node? id = some n) : w.level id = n.level := by
  simp [level, found]

theorem level_none (none : w.node? id = none) : w.level id = (0, []) := by
  simp [level, none]

theorem level_modifyNode_ne {i : NodeId} (f : Node → Node) (other : i ≠ id) :
    (w.modifyNode id f).level i = w.level i := by
  rw [level, node?_modifyNode_ne f other, level]

theorem level_modifyNode_same {f : Node → Node} {g : Nat × List Frame → Nat × List Frame}
    (zero : g (0, []) = (0, [])) (h : ∀ n, (f n).level = g n.level) :
    (w.modifyNode id f).level id = g (w.level id) := by
  cases found : w.node? id with
  | none => rw [modifyNode_of_none f found, level_none found, zero]
  | some n => rw [level_eq (node?_modifyNode_same f found), level_eq found, h]

theorem level_entered {n : Node} (found : w.node? id = some n) (i : NodeId) :
    (w.modifyNode id fun n => { n with cancel := n.cancel.enter w.clock }).level i =
      if i = id then ((w.level i).1 + 1, (w.level i).2) else w.level i := by
  split
  · rename_i here
    subst here
    rw [level_eq (node?_modifyNode_same _ found), level_eq found]
    rfl
  · rename_i other
    exact level_modifyNode_ne _ other

theorem level_framed {name : Text} {flags : Nat} {n : Node} (found : w.node? id = some n)
    (i : NodeId) : (w.framed id name flags n).level i =
      if i = id then ((w.level i).1, ⟨name, flags, n.frames.issued + 1⟩ :: (w.level i).2)
      else w.level i := by
  unfold framed
  split
  · rename_i here
    subst here
    rw [level_eq (node?_modifyNode_same _ found), level_eq found]
    rfl
  · rename_i other
    exact level_modifyNode_ne _ other

/-- No node is gone, and every node is at the level where it was. New nodes are at none. -/
structure Levels (w v : World) : Prop where
  size : w.nodes.size ≤ v.nodes.size
  level : ∀ i, v.level i = w.level i

namespace Levels

theorem refl (w : World) : Levels w w := ⟨Nat.le_refl _, fun _ => rfl⟩

theorem trans (h : Levels w v) (h' : Levels v u) : Levels w u :=
  ⟨Nat.le_trans h.size h'.size, fun i => (h'.level i).trans (h.level i)⟩

theorem node (h : Levels w v) {i : NodeId} {n : Node} (found : w.node? i = some n) :
    ∃ n', v.node? i = some n' ∧ n'.level = n.level := by
  obtain ⟨n', found'⟩ := exists_node? (pos_of_node? found)
    (Nat.le_trans (le_size_of_node? found) h.size)
  exact ⟨n', found', (level_eq found').symm.trans ((h.level i).trans (level_eq found))⟩

theorem of_each {P : NodeId → Node → Node → Prop} (each : Each P w v)
    (same : ∀ i n n', P i n n' → n'.level = n.level) : Levels w v := by
  refine ⟨Nat.le_of_eq each.size.symm, fun i => ?_⟩
  cases found : w.node? i with
  | none => rw [level_none found, level_none (each.node?_none found)]
  | some n =>
    obtain ⟨n', found', kept⟩ := each.node i n found
    rw [level_eq found, level_eq found', same i n n' kept]

/-- One node more, which is at no level. -/
theorem of_new {m : Node} (size : v.nodes.size = w.nodes.size + 1) (start : m.level = (0, []))
    (nodes : (∀ i n, w.node? i = some n → ∃ links, v.node? i = some { n with links }) ∧
      ∀ i n', v.node? i = some n' → n' = m ∨ ∃ n links, w.node? i = some n ∧ n' = { n with links }) :
    Levels w v := by
  refine ⟨by omega, fun i => ?_⟩
  cases found : w.node? i with
  | some n =>
    obtain ⟨links, found'⟩ := nodes.1 i n found
    rw [level_eq found, level_eq found']
    rfl
  | none =>
    rw [level_none found]
    cases found' : v.node? i with
    | none => exact level_none found'
    | some n' =>
      rcases nodes.2 i n' found' with rfl | ⟨n, links, there, -⟩
      · rw [level_eq found', start]
      · rw [found] at there
        cases there

/-- An evaluation is entered, and left again at the level where it was entered. -/
theorem exited (h : Levels (w.modifyNode id fun n => { n with cancel := n.cancel.enter w.clock }) v) :
    Levels w (v.modifyNode id fun n => { n with cancel := n.cancel.exit }) := by
  refine ⟨by simpa using h.size, fun i => ?_⟩
  by_cases here : i = id
  · subst here
    have left (n : Node) : ({ n with cancel := n.cancel.exit } : Node).level =
        (n.level.1 - 1, n.level.2) := Prod.ext (Cancellation.depth_exit n.cancel) rfl
    rw [level_modifyNode_same (g := fun l => (l.1 - 1, l.2)) rfl left, h.level]
    cases found : w.node? i with
    | none =>
      rw [modifyNode_of_none _ found, level_none found]
      rfl
    | some n => rw [level_entered found, if_pos rfl, Nat.add_sub_cancel]
  · rw [level_modifyNode_ne _ here, h.level, level_modifyNode_ne _ here]

/-- A frame is popped again from above the frames that it was pushed on. -/
theorem unframed {name : Text} {flags : Nat} {n : Node} (found : w.node? id = some n)
    (h : Levels (w.framed id name flags n) v) : Levels w (v.unframed id name flags n) := by
  refine ⟨by simpa [World.framed, World.unframed] using h.size, fun i => ?_⟩
  by_cases here : i = id
  · subst here
    obtain ⟨n', found', same⟩ := h.node (node?_modifyNode_same _ found)
    rw [World.unframed, level_eq (node?_modifyNode_same _ found'), level_eq found]
    obtain ⟨depth, frames⟩ := Prod.mk.inj same
    exact Prod.ext depth (CallStack.frames_popThrough frames)
  · rw [World.unframed, level_modifyNode_ne _ here, h.level, level_framed found, if_neg here]

end Levels

/-- The worker of a node was overtaken in the middle of an item. -/
def IsUnfinished (w : World) (i : NodeId) : Prop :=
  ∃ n, w.node? i = some n ∧ n.unfinished.isSome = true

theorem not_isUnfinished (fresh : w.hasUnfinished = false) (i : NodeId) : ¬ w.IsUnfinished i := by
  rintro ⟨n, found, overtaken⟩
  refine absurd fresh ?_
  simp only [hasUnfinished, Array.any_eq_false, not_forall]
  obtain ⟨k, mem⟩ := List.mem_iff_getElem?.mp (mem_of_node? found)
  obtain ⟨bound, here⟩ := Array.getElem?_eq_some_iff.mp (Array.getElem?_toList ▸ mem)
  exact ⟨k, bound, by simp [here, overtaken]⟩

theorem isUnfinished_modifyNode {f : Node → Node} (same : ∀ n, (f n).unfinished = n.unfinished)
    {i : NodeId} : (w.modifyNode id f).IsUnfinished i ↔ w.IsUnfinished i := by
  unfold IsUnfinished
  rw [node?_modifyNode]
  split
  · cases w.node? i with
    | none => simp
    | some n => simp [same]
  · rfl

theorem isUnfinished_framed {name : Text} {flags : Nat} {n : Node} {i : NodeId} :
    (w.framed id name flags n).IsUnfinished i ↔ w.IsUnfinished i := by
  refine isUnfinished_modifyNode ?_
  exact fun _ => rfl

theorem isUnfinished_unframed {name : Text} {flags : Nat} {n : Node} {i : NodeId} :
    (w.unframed id name flags n).IsUnfinished i ↔ w.IsUnfinished i := by
  refine isUnfinished_modifyNode ?_
  exact fun _ => rfl

theorem isUnfinished_entered {i : NodeId} :
    (w.modifyNode id fun n => { n with cancel := n.cancel.enter w.clock }).IsUnfinished i ↔
      w.IsUnfinished i := by
  refine isUnfinished_modifyNode ?_
  exact fun _ => rfl

theorem isUnfinished_exited {i : NodeId} :
    (w.modifyNode id fun n => { n with cancel := n.cancel.exit }).IsUnfinished i ↔
      w.IsUnfinished i := by
  refine isUnfinished_modifyNode ?_
  exact fun _ => rfl

/-- No node is gone. Where workers are overtaken, none is done with an item that it was overtaken in.
Unless one was between the two worlds, every node is at the level where it was. -/
structure Relevels (pace : Pace) (w v : World) : Prop where
  size : w.nodes.size ≤ v.nodes.size
  unfinished : pace = .timely → ∀ i, w.IsUnfinished i → v.IsUnfinished i
  levels : (pace = .timely → ∀ i, v.IsUnfinished i → w.IsUnfinished i) → w.Levels v

namespace Relevels

variable {pace : Pace}

theorem of_levels (levels : w.Levels v) (unfinished : ∀ i, w.IsUnfinished i → v.IsUnfinished i) :
    Relevels pace w v := ⟨levels.size, fun _ => unfinished, fun _ => levels⟩

theorem refl (w : World) : Relevels pace w w := .of_levels (.refl w) fun _ => id

theorem trans (h : Relevels pace w v) (h' : Relevels pace v u) : Relevels pace w u := by
  refine ⟨Nat.le_trans h.size h'.size,
    fun timely i => h'.unfinished timely i ∘ h.unfinished timely i, fun none => ?_⟩
  -- Whoever is overtaken on one part of the way still is at the end of it.
  exact (h.levels fun timely i there => none timely i (h'.unfinished timely i there)).trans
    (h'.levels fun timely i there => h.unfinished timely i (none timely i there))

theorem exited (h : Relevels pace
      (w.modifyNode id fun n => { n with cancel := n.cancel.enter w.clock }) v) :
    Relevels pace w (v.modifyNode id fun n => { n with cancel := n.cancel.exit }) := by
  refine ⟨by simpa using h.size,
    fun timely i there =>
      isUnfinished_exited.mpr (h.unfinished timely i (isUnfinished_entered.mpr there)),
    fun none => .exited (h.levels fun timely i there => ?_)⟩
  exact isUnfinished_entered.mpr (none timely i (isUnfinished_exited.mpr there))

theorem unframed {name : Text} {flags : Nat} {n : Node} (found : w.node? id = some n)
    (h : Relevels pace (w.framed id name flags n) v) :
    Relevels pace w (v.unframed id name flags n) := by
  refine ⟨by simpa [World.framed, World.unframed] using h.size, fun timely i there => ?_,
    fun none => .unframed found (h.levels fun timely i there => ?_)⟩
  · exact isUnfinished_unframed.mpr (h.unfinished timely i (isUnfinished_framed.mpr there))
  · exact isUnfinished_framed.mpr (none timely i (isUnfinished_unframed.mpr there))

/-- A worker is overtaken, where none was. -/
theorem overtaken {n : Node} {pending : Nat} (found : w.node? id = some n)
    (fresh : w.hasUnfinished = false) (size : w.nodes.size ≤ v.nodes.size) :
    Relevels .timely w (World.overtake id pending { v with horizon := w.horizon }) := by
  have none := not_isUnfinished fresh
  refine ⟨by simpa [World.overtake] using size, fun _ i there => (none i there).elim,
    fun settled => ?_⟩
  obtain ⟨n', found'⟩ := exists_node? (w := v) (pos_of_node? found)
    (Nat.le_trans (le_size_of_node? found) size)
  exact (none id (settled rfl id ⟨_, node?_modifyNode_same _ found', rfl⟩)).elim

end Relevels

theorem isUnfinished_of_each {P : NodeId → Node → Node → Prop} (each : Each P w v)
    (same : ∀ i n n', P i n n' → n'.unfinished = n.unfinished) {i : NodeId} :
    w.IsUnfinished i → v.IsUnfinished i := by
  rintro ⟨n, found, overtaken⟩
  obtain ⟨n', found', kept⟩ := each.node i n found
  exact ⟨n', found', same i n n' kept ▸ overtaken⟩

/-- Where `ℓ` is positive, no more evaluations are running in a node than it says, nor are there more
frames of calls through aliases. -/
def Within (ℓ : NodeId → Int) (w : World) : Prop := ∀ i, 0 < ℓ i →
  (w.level i).1 ≤ ℓ i ∧ (w.level i).2.countP (fun f => FrameFlags.isAlias f.flags) ≤ ℓ i

namespace Within

variable {ℓ : NodeId → Int}

theorem zero (w : World) : w.Within fun _ => 0 := fun _ positive =>
  absurd positive (Int.lt_irrefl 0)

theorem levels (h : w.Within ℓ) (levels : w.Levels v) : v.Within ℓ := fun i positive => by
  rw [levels.level]
  exact h i positive

/-- A change of the level of one node, to a lower one. -/
theorem modifyNode {f : Node → Node} (h : w.Within ℓ)
    (lower : ∀ n, w.node? id = some n → (f n).level.1 ≤ n.level.1 ∧ (f n).level.2 <:+ n.level.2) :
    (w.modifyNode id f).Within ℓ := by
  intro i positive
  obtain ⟨depth, frames⟩ := h i positive
  by_cases here : i = id
  · subst here
    cases found : w.node? i with
    | none =>
      rw [modifyNode_of_none f found]
      exact ⟨depth, frames⟩
    | some n =>
      rw [level_eq found] at depth frames
      rw [level_eq (node?_modifyNode_same f found)]
      obtain ⟨shallower, suffix⟩ := lower n found
      have fewer := suffix.sublist.countP_le (p := fun f => FrameFlags.isAlias f.flags)
      omega
  · rw [level_modifyNode_ne f here]
    exact ⟨depth, frames⟩

theorem exited (h : w.Within ℓ) :
    (w.modifyNode id fun n => { n with cancel := n.cancel.exit }).Within ℓ :=
  h.modifyNode fun n _ => by
    refine ⟨?_, List.suffix_refl _⟩
    exact (Cancellation.depth_exit n.cancel).trans_le (Nat.sub_le _ 1)

theorem unframed (h : w.Within ℓ) (name : Text) (flags : Nat) (n : Node) :
    (w.unframed id name flags n).Within ℓ :=
  h.modifyNode fun m _ => ⟨Nat.le_refl _, (CallStack.popThrough_suffix m.frames _).1⟩

end Within

end World

end InterpTree
