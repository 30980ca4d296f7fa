import InterpTree.Proofs.Weaving

/-!
Histories of a tree: operations on it, its closing, and whatever else happens that leaves the tree
alone. The tree is regular and woven until it is closed, and then there is none.
-/

namespace InterpTree

/-- The node that asks for the operation. -/
def TreeOp.caller : TreeOp → NodeId
  | .create caller .. | .delete _ caller _ | .share caller .. | .dispose _ caller _ => caller

/-- A step in the history of a tree. -/
inductive TreeStep
  | op (o : TreeOp)
  | close
  /-- Something that is not about the tree. -/
  | aside (f : World → World)

namespace TreeStep

def apply : TreeStep → World → World
  | op o, w => o.apply w
  | close, w => w.close
  | aside f, w => f w

end TreeStep

namespace World

variable {w v : World} {i t caller : NodeId} {n n' : Node} {Z : NodeId → Prop}

/-- The node is or was part of the tree: it is not one that could not be populated. -/
def HasJoined (w : World) (i : NodeId) : Prop :=
  ∀ n, w.node? i = some n → n.attached = true ∨ n.dead = true

instance (w : World) (i : NodeId) : Decidable (w.HasJoined i) :=
  decidable_of_iff ((w.node? i).all fun n => n.attached || n.dead) (by
    simp [HasJoined, Option.all_eq_true])

end World

/-- Operations are asked for by nodes that joined the tree, and what is no operation leaves the tree
alone. -/
def TreeStep.Fits : TreeStep → World → Prop
  | op o, w => w.HasJoined o.caller
  | close, _ => True
  | aside f, w => w.Keeps (f w)

theorem TreeStep.Fits.op {w : World} {o : TreeOp} (joined : w.HasJoined o.caller) :
    TreeStep.Fits (.op o) w := joined

namespace World

variable {w v : World} {i t caller : NodeId} {n n' : Node} {Z : NodeId → Prop}

/-- The world after some steps, one after the other. -/
def along (w : World) (steps : List TreeStep) : World := steps.foldl (fun w s => s.apply w) w

/-- Each step fits the world that it finds. -/
def Admits (w : World) : List TreeStep → Prop
  | [] => True
  | s :: steps => s.Fits w ∧ (s.apply w).Admits steps

theorem along_concat (w : World) (steps : List TreeStep) (s : TreeStep) :
    w.along (steps ++ [s]) = s.apply (w.along steps) := by
  simp [along]

theorem admits_concat {steps : List TreeStep} {s : TreeStep} :
    w.Admits (steps ++ [s]) ↔ w.Admits steps ∧ s.Fits (w.along steps) := by
  induction steps generalizing w with
  | nil => simp [Admits, along]
  | cons first steps ih =>
    simp only [List.cons_append, Admits, ih, and_assoc]
    rfl

/-! ### Closing -/

/-- No node is part of the tree any more. -/
def IsOver (w : World) : Prop := ∀ i, w.attached? i = none

theorem Wanes.attached?_none (wanes : Wanes Z w v) (left : w.attached? i = none) :
    v.attached? i = none := by
  cases found' : v.attached? i with
  | none => rfl
  | some n' =>
    obtain ⟨found', stays⟩ := attached?_eq_some_iff.mp found'
    obtain ⟨n, found, fades, -⟩ := wanes.nodes.node_back found'
    rw [attached?_eq_some_iff.mpr ⟨found, fades.attached stays⟩] at left
    cases left

theorem attached?_teardown (worker : Option NodeId) (id : NodeId) (w : World) :
    (w.teardown worker id).attached? id = none := by
  unfold teardown attached?
  match found : w.node? id with
  | none =>
    rw [teardownNode, found]
    simp [found]
  | some n =>
    rw [teardownNode_succ worker _ found, finishNode, node?_modifyNode, if_pos rfl]
    cases World.node? _ id with
    | none => rfl
    | some m => rfl

/-- A node is torn down, come what may. -/
def doom (w : World) (id : NodeId) : World :=
  (w.modifyNode id fun n => { n with dead := true }).teardown none id

/-- The root has left the tree, with which its closing begins. -/
def uproot (w : World) : World := { w with closed := true }.doom root

/-- The nodes that are still part of the tree when the root has left it. -/
def leftovers (w : World) : List NodeId :=
  ((w.uproot.nodes.filter Node.attached).map Node.id).toList

/-- The tree is closed, and the nodes that are left without the root are visited in some order. -/
def closeBy (order : List NodeId) (w : World) : World :=
  if w.closed then w else order.foldl doom w.uproot

/-- Closing a tree visits the nodes that are left as they are numbered. -/
theorem close_eq_closeBy (w : World) : w.close = w.closeBy w.leftovers := by
  rw [close, closeBy]
  split
  · rfl
  · rw [leftovers, Array.foldl_toList]
    rfl

theorem wanes_doom_all (w : World) (id : NodeId) : Wanes (fun _ => True) w (w.doom id) :=
  (wanes_doom trivial w).trans (wanes_teardown none trivial (isClosed_all _))

theorem foldl_doom (ids : List NodeId) (w : World) :
    Wanes (fun _ => True) w (ids.foldl doom w) ∧
      ∀ i ∈ ids, (ids.foldl doom w).attached? i = none := by
  induction ids generalizing w with
  | nil => exact ⟨.refl w, nofun⟩
  | cons id ids ih =>
    obtain ⟨wanes, left⟩ := ih (w.doom id)
    refine ⟨(wanes_doom_all w id).trans wanes, fun i mem => ?_⟩
    rcases List.mem_cons.mp mem with rfl | mem
    · exact wanes.attached?_none (attached?_teardown none i _)
    · exact left i mem

/-- Closing removes all nodes, whatever the order in which those that were left are visited, and
does nothing the second time. -/
theorem closeBy_cases (numbered : w.IsNumbered) {order : List NodeId}
    (all : w.closed = false → order.Perm w.leftovers) :
    w.closed = true ∧ w.closeBy order = w ∨
      Wanes (fun _ => True) w (w.closeBy order) ∧ (w.closeBy order).IsOver := by
  unfold closeBy
  split
  · rename_i closed
    exact .inl ⟨closed, rfl⟩
  · rename_i unclosed
    refine .inr ?_
    have same : Wanes (fun _ => True) w { w with closed := true } :=
      ⟨.of_nodes_eq composes_wanesAt rfl, rfl, rfl, rfl, .refl _⟩
    have first : Wanes (fun _ => True) w w.uproot :=
      same.trans (wanes_doom_all { w with closed := true } root)
    obtain ⟨second, left⟩ := foldl_doom order w.uproot
    refine ⟨first.trans second, fun i => ?_⟩
    cases there : w.uproot.attached? i with
    | none => exact second.attached?_none there
    | some n =>
      obtain ⟨found, stays⟩ := attached?_eq_some_iff.mp there
      have numbered' := first.nodes.isNumbered (fun i n n' wanes => wanes.1.id) numbered
      refine left i ((all (by simpa using unclosed)).mem_iff.mpr
        (Array.mem_toList_iff.mpr (Array.mem_map.mpr ⟨n, ?_, numbered' i n found⟩)))
      have mem := Array.mem_of_getElem? (node?_eq_some_iff.mp found).2
      exact Array.mem_filter.mpr ⟨mem, stays⟩

theorem close_cases (numbered : w.IsNumbered) :
    w.close = w ∨ Wanes (fun _ => True) w w.close ∧ w.close.IsOver := by
  rw [close_eq_closeBy]
  exact (closeBy_cases numbered fun _ => .refl _).imp_left And.right

/-! ### One step -/

theorem attached_of_resolve? (numbered : w.IsNumbered) (joined : w.HasJoined caller) {path : Text}
    (resolved : w.resolve? caller path = some t) : ∃ n, w.attached? t = some n := by
  obtain ⟨n, found, alive, rfl | stays⟩ := alive_of_resolve? numbered resolved
  · refine ⟨n, attached?_eq_some_iff.mpr ⟨found, ?_⟩⟩
    exact (joined n found).resolve_right (by simp [alive])
  · exact ⟨n, attached?_eq_some_iff.mpr ⟨found, stays⟩⟩

end World

namespace TreeOp

variable {w : World} {o : TreeOp}

open World

/-- The tree stays woven under every operation. -/
theorem isWoven_apply (regular : w.IsRegular) (woven : w.IsWoven) (joined : w.HasJoined o.caller) :
    (o.apply w).IsWoven := by
  have numbered := regular.numbered
  cases o with
  | create caller path name options =>
    refine apply_of_ends
      (((Op.settles_create caller path name options numbered).leaves woven fun r v h => ?_).discard)
    obtain ⟨c, p, parent, m, -, -, resolved, found, -, made⟩ := h
    rcases made with ⟨-, grows, child⟩ | ⟨-, gains, n, isNew, detached, -, strips, -⟩
    · obtain ⟨p', holds⟩ := attached_of_resolve? numbered joined resolved
      obtain rfl : p = p' := eq_of_attached? found holds
      exact isWoven_grow grows woven holds numbered child
    · refine gains.isWoven woven ?_ ?_ (strips_links_nil isNew strips)
      · rw [strips.parent, isNew.parent]
        exact le_size_of_node? found
      · cases stays : m.attached with
        | false => rfl
        | true =>
          rw [strips.attached stays] at detached
          cases detached
  | delete worker caller path =>
    refine apply_of_ends
      ((Op.delete_prunes worker caller path regular woven).leaves woven fun r v h => ?_)
    obtain ⟨-, holder, l, -, ⟨shared, pares⟩ | ⟨-, -, -, prunes⟩⟩ := h
    · exact isWoven_pare regular woven shared pares
    · exact prunes.isWoven woven
  | share caller path source =>
    refine apply_of_ends
      (((Op.settles_shareInterp caller path source numbered).leaves woven fun r v h => ?_).discard)
    obtain ⟨-, shared, holder, h, toShared, toHolder, found, -, -, free, -, shares⟩ := h
    obtain ⟨h', holds⟩ := attached_of_resolve? numbered joined toHolder
    obtain rfl : h = h' := eq_of_attached? found holds
    obtain ⟨s, reached⟩ := attached_of_resolve? numbered joined toShared
    exact isWoven_share shares woven holds reached free
  | dispose worker caller path =>
    refine apply_of_ends
      ((Op.disposeShared_prunes worker caller path regular woven).leaves woven fun r v h => ?_)
    obtain ⟨-, target, -, -, -, prunes⟩ := h
    exact prunes.isWoven woven

/-- When the tree is gone all operations are refused. -/
theorem apply_of_isOver (ended : w.IsOver) (numbered : w.IsNumbered)
    (joined : w.HasJoined o.caller) : o.apply w = w := by
  have nowhere {path : Text} {t : NodeId} (resolved : w.resolve? o.caller path = some t) :
      False := by
    obtain ⟨n, there⟩ := attached_of_resolve? numbered joined resolved
    rw [ended t] at there
    cases there
  refine apply_of_ends (P := fun v => v = w) ?_
  cases o with
  | create caller path name options =>
    refine ((Op.settles_create caller path name options numbered).refused fun r v h => ?_).discard
    obtain ⟨_, _, _, _, -, -, resolved, -⟩ := h
    exact nowhere resolved
  | delete worker caller path =>
    refine (Op.settles_delete worker caller path numbered).refused fun r v h => ?_
    obtain ⟨-, _, _, resolved, -⟩ := h
    exact nowhere resolved
  | share caller path source =>
    refine ((Op.settles_shareInterp caller path source numbered).refused fun r v h => ?_).discard
    obtain ⟨-, _, _, _, resolved, -⟩ := h
    exact nowhere resolved
  | dispose worker caller path =>
    refine (Op.settles_disposeShared worker caller path numbered).refused fun r v h => ?_
    obtain ⟨-, -, _, _, resolved, -⟩ := h
    exact nowhere resolved

end TreeOp

namespace World

variable {w v : World} {i : NodeId} {n n' : Node} {steps : List TreeStep} {s : TreeStep}

theorem Keeps.isRegular (keeps : Keeps w v) (regular : w.IsRegular) : v.IsRegular := by
  refine ⟨keeps.isNumbered (fun _ _ _ keep => keep.id) regular.numbered, ?_, fun a b link => ?_,
    fun i n' found' => ?_, fun i n' found' l mem => ?_⟩
  · obtain ⟨r, found, isRoot, unshared, live, path⟩ := regular.rooted
    obtain ⟨r', found', keep⟩ := keeps.node root r found
    refine ⟨r', found', ?_, keep.shared.trans unshared, ?_, keep.path.trans path⟩
    · rw [Node.isRoot, keep.parent]
      exact isRoot
    · rw [Node.isLive, keep.attached, keep.dead]
      exact live
  · obtain ⟨n', found', l, mem, rfl⟩ := link
    obtain ⟨n, found, keep⟩ := keeps.node_back found'
    rw [keeps.size]
    exact regular.targets a l.target ⟨n, found, l, keep.fewer.subset mem, rfl⟩
  · obtain ⟨n, found, keep⟩ := keeps.node_back found'
    exact (keep.fewer.map Link.name).nodup (regular.names i n found)
  · obtain ⟨n, found, keep⟩ := keeps.node_back found'
    exact regular.valid i n found l (keep.fewer.subset mem)

theorem Keeps.isOver (keeps : Keeps w v) (ended : w.IsOver) : v.IsOver := by
  intro i
  cases there : v.attached? i with
  | none => rfl
  | some n' =>
    obtain ⟨found', stays⟩ := attached?_eq_some_iff.mp there
    obtain ⟨n, found, keep⟩ := keeps.node_back found'
    have there := attached?_eq_some_iff.mpr ⟨found, keep.attached.symm.trans stays⟩
    rw [ended i] at there
    cases there

/-- What holds all along: the tree is in order, or there is none any more. -/
inductive IsKept (w : World) : Prop
  | tended (regular : w.IsRegular) (woven : w.IsWoven)
  | ended (numbered : w.IsNumbered) (ended : w.IsOver)

theorem IsKept.numbered (kept : w.IsKept) : w.IsNumbered := by
  cases kept with
  | tended regular _ => exact regular.numbered
  | ended numbered _ => exact numbered

theorem IsKept.step (kept : w.IsKept) (fits : s.Fits w) : (s.apply w).IsKept := by
  have numbered := kept.numbered
  cases s with
  | op o =>
    cases kept with
    | tended regular woven =>
      exact .tended ((o.turns regular).isRegular regular) (o.isWoven_apply regular woven fits)
    | ended numbered ended =>
      change (o.apply w).IsKept
      rw [o.apply_of_isOver ended numbered fits]
      exact .ended numbered ended
  | close =>
    change w.close.IsKept
    rcases close_cases numbered with same | ⟨wanes, ended⟩
    · rw [same]
      exact kept
    · exact .ended (wanes.nodes.isNumbered (fun _ _ _ wanes => wanes.1.id) numbered) ended
  | aside f =>
    have keeps : w.Keeps (f w) := fits
    cases kept with
    | tended regular woven => exact .tended (keeps.isRegular regular) (keeps.isWoven woven)
    | ended numbered ended =>
      exact .ended (keeps.isNumbered (fun _ _ _ keep => keep.id) numbered) (keeps.isOver ended)

theorem isWoven_plant {settings : Settings} {host : Host} (h : plant settings host = .ok w) :
    w.IsWoven := by
  obtain ⟨k, isNew, -, alive, found, only⟩ := plant_root h
  have single (i : NodeId) (n : Node) (there : w.attached? i = some n) :
      n = { k with attached := true } := (only i n (node?_of_attached? there)).2
  refine {
    older := ?older, own := ?own, alive := ?alive, bare := ?bare, named := ?named, lent := ?lent
    noted := ?noted, once := ?once, handed := ?handed, below := ?below }
  case older =>
    intro i n found
    obtain ⟨rfl, rfl⟩ := only i n found
    rw [isNew.parent]
    exact Nat.zero_lt_one
  case alive =>
    intro i n there
    rw [single i n there]
    exact alive
  case bare =>
    intro i n found left
    obtain ⟨-, rfl⟩ := only i n found
    cases left
  case own | named | lent =>
    intro i n there l mem
    rw [single i n there, isNew.links] at mem
    cases mem
  case noted =>
    intro i n there r mem
    rw [single i n there, isNew.sharedLinks] at mem
    cases mem
  case once =>
    intro i n there
    rw [single i n there, isNew.sharedLinks]
    exact List.nodup_nil
  case handed =>
    intro i n there _
    rw [single i n there]
    exact isNew.sharedLinks
  case below =>
    intro i n p there above
    rw [single i n there, isNew.parent] at above
    cases above

theorem isKept_plant {settings : Settings} {host : Host} (h : plant settings host = .ok w) :
    w.IsKept :=
  .tended (isRegular_plant h) (isWoven_plant h)

/-- The tree is in order all along, until it is closed. -/
theorem IsKept.along (kept : w.IsKept) (admits : w.Admits steps) : (w.along steps).IsKept := by
  induction steps generalizing w with
  | nil => exact kept
  | cons s steps ih => exact ih (kept.step admits.1) admits.2

end World

end InterpTree
