import InterpTree.Proofs.Releases

/-!
How nodes leave the tree: each that does is released, and none comes back.
-/

namespace InterpTree

namespace World

variable {w v u : World} {id i : NodeId} {n : Node}

/-- Every node is as removals allow that are the doing of `worker`, if they are of one. -/
abbrev Leaves (worker : Option NodeId) : World → World → Prop :=
  Each fun i => Node.Leaves (worker = some i)

variable (worker : Option NodeId)

theorem composes_leaves : Composes fun i => Node.Leaves (worker = some i) :=
  ⟨fun _ => .refl, fun _ _ _ _ => .trans⟩

theorem leaves_modifyNode {f : Node → Node}
    (h : ∀ n, w.node? id = some n → Node.Leaves (worker = some id) n (f n)) :
    Leaves worker w (w.modifyNode id f) := .modifyNode (composes_leaves worker) f h

variable {worker} in
/-- What was dead at the start of removals is dead in the end. -/
theorem Leaves.dead (h : Leaves worker w v) (dead : ∀ n, w.node? id = some n → n.dead = true) :
    ∀ n, v.node? id = some n → n.dead = true := fun n' found' => by
  obtain ⟨n, found, change⟩ := h.node_back found'
  exact change.dead (dead n found)

/-- A dead node is released and leaves the tree. -/
theorem leaves_leave (dead : ∀ n, w.node? id = some n → n.dead = true) :
    Leaves worker w ((w.release worker id).modifyNode id fun n => { n with attached := false }) := by
  cases found : w.node? id with
  | none =>
    have same : w.release worker id = w := by
      unfold release
      simp only [found]
    rw [same, modifyNode_of_none _ found]
    exact .refl (composes_leaves worker) w
  | some n =>
    have doomed := dead n found
    cases freed : n.released with
    | true =>
      have same : w.release worker id = w := by
        unfold release
        simp only [found, freed, if_true]
      rw [same]
      refine leaves_modifyNode worker fun m here => ?_
      obtain rfl : n = m := Option.some.inj (found.symm.trans here)
      exact .detach doomed freed
    | false =>
      have left := each_modifyNode id (P := fun n n' => n' = { n with attached := false })
        (fun n => { n with attached := false }) (fun _ => rfl) (w.release worker id)
      have both := (freed_release worker found freed).at_trans left
        (S := fun m m' => m = n → Node.Leaves (worker = some id) m m')
        fun m k j first second here => by
          subst second here
          exact (first rfl).leaves doomed freed
      exact both.of_at (composes_leaves worker) fun m m' here _ change =>
        change (Option.some.inj (here.symm.trans found))

theorem leaves_doom (joined : w.HasJoined id) :
    Leaves worker w (w.modifyNode id fun n => { n with dead := true }) :=
  leaves_modifyNode worker fun n found => .doom (joined n found)

theorem leaves_unlink (holder : NodeId) (name : Text) (target : NodeId) (w : World) :
    Leaves worker w (w.modifyNode holder (Node.unlink name target)) :=
  leaves_modifyNode worker fun n _ => .unlink name target n

theorem leaves_setSharedLinks (id : NodeId) (links : List LinkRef) (w : World) :
    Leaves worker w (w.modifyNode id fun n => { n with sharedLinks := links }) :=
  leaves_modifyNode worker fun _ _ => .of_departs (.of_rest rfl rfl) rfl rfl

theorem leaves_unlinkShared (id : NodeId) (w : World) : Leaves worker w (w.unlinkShared id) := by
  have c := composes_leaves worker
  unfold unlinkShared
  split
  · exact .refl c w
  · rename_i n _
    refine foldl_induction (I := Leaves worker w) (fun v ref led => led.trans c ?_)
      (leaves_setSharedLinks worker id [] w) n.sharedLinks
    split
    · exact leaves_unlink worker _ _ _ v
    · exact .refl c v

theorem leaves_rehome (gone id : NodeId) (w : World) : Leaves worker w (w.rehome gone id) := by
  have c := composes_leaves worker
  unfold rehome
  split
  · exact .refl c w
  · rename_i n _
    dsimp only
    refine (leaves_setSharedLinks worker id (n.sharedLinks.filter fun ref => ref.holder ≠ gone) w).trans
      c ?_
    split
    · exact .refl c _
    · split
      · exact .refl c _
      · rename_i home path _ _
        have moved (v : World) : Leaves worker v (v.modifyNode id fun n => { n with home, path }) :=
          leaves_modifyNode worker fun _ _ => .of_departs (.of_rest rfl rfl) rfl rfl
        exact (moved _).trans c (.of_nodes_eq c (nodes_logNode _ _ _ _ _))

theorem dead_of_mark :
    ∀ n, (w.modifyNode id fun n => { n with dead := true }).node? id = some n → n.dead = true := by
  intro n found
  rw [node?_modifyNode, if_pos rfl] at found
  obtain ⟨m, -, rfl⟩ := Option.map_eq_some_iff.mp found
  rfl

/-- What is marked dead stays so while the links to it are taken out. -/
theorem dead_of_doomed :
    ∀ n, ((w.modifyNode id fun n => { n with dead := true }).unlinkShared id).node? id = some n →
      n.dead = true := (leaves_unlinkShared none id _).dead dead_of_mark

/-- A node that has joined the tree is doomed, and links to it are taken out. -/
theorem leaves_doomed (joined : w.HasJoined id) :
    Leaves worker w ((w.modifyNode id fun n => { n with dead := true }).unlinkShared id) :=
  (leaves_doom worker joined).trans (composes_leaves worker) (leaves_unlinkShared worker id _)

/-- A dead node is torn down with what is below it. The induction is on the depth that is left. -/
theorem leaves_teardownNode (fuel : Nat) (dead : ∀ n, w.node? id = some n → n.dead = true) :
    Leaves worker w (w.teardownNode worker fuel id) := by
  have c := composes_leaves worker
  induction fuel generalizing id w with
  | zero => exact .refl c w
  | succ fuel ih =>
    cases found : w.node? id with
    | none =>
      rw [teardownNode, found]
      exact .refl c w
    | some n =>
      have tear (v : World) (l : Link) : Leaves worker v (v.tearLink worker fuel id l) := by
        unfold tearLink
        split
        · exact .refl c v
        · rename_i child there
          split
          · exact leaves_rehome worker _ _ v
          · refine (leaves_doomed worker fun m here => .inl ?_).trans c (ih dead_of_doomed)
            obtain ⟨foundV, stays⟩ := attached?_eq_some_iff.mp there
            exact Option.some.inj (foundV.symm.trans here) ▸ stays
      have move (v : World) (l : Link) : Leaves worker v (v.moveLink id l) := by
        unfold moveLink
        split
        · exact leaves_rehome worker _ _ v
        · exact .refl c v
      rw [teardownNode_succ worker fuel found]
      have first : Leaves worker w _ := foldl_induction (I := Leaves worker w)
        (fun v l led => led.trans c (tear v l)) (.refl c w) (n.links.filter fun l => !l.shared)
      have second : Leaves worker w _ := foldl_induction (I := Leaves worker w)
        (fun v l led => led.trans c (move v l)) first (n.links.filter Link.shared)
      exact second.trans c (leaves_leave worker (second.dead dead))

theorem leaves_teardown (dead : ∀ n, w.node? id = some n → n.dead = true) :
    Leaves worker w (w.teardown worker id) := leaves_teardownNode worker _ dead

/-! ### Closing -/

/-- Who has joined the tree keeps to that. -/
theorem Departs.hasJoined (h : Departs w v) (joined : w.HasJoined id) : v.HasJoined id := by
  intro n' found'
  obtain ⟨n, found, change⟩ := h.node_back found'
  rcases joined n found with here | gone
  · cases stays : n'.attached with
    | true => exact .inl rfl
    | false => exact .inr (change.left here stays)
  · exact .inr (change.dead gone)

variable {worker} in
theorem Leaves.departs (h : Leaves worker w v) : Departs w v := h.mono fun _ _ _ change => change.toDeparts

theorem departs_doom (joined : w.HasJoined id) :
    Departs w (w.doom id) := by
  have c := composes_leaves none
  exact Leaves.departs (Each.trans c (leaves_doom none joined) (leaves_teardown none dead_of_mark))

/-- Closing removes all nodes that are part of the tree, the root first. -/
theorem departs_close (numbered : w.IsNumbered) (rooted : w.HasJoined root) : Departs w w.close := by
  have c := composes_departs
  rw [close_eq_closeBy, closeBy]
  split
  · exact .refl c w
  · have marked : Departs w { w with closed := true } := .of_nodes_eq c rfl
    have first : Departs w w.uproot := marked.trans c (departs_doom (marked.hasJoined rooted))
    have numbered' := first.isNumbered (fun _ _ _ change => change.id) numbered
    refine first.trans c ?_
    have all (ids : List NodeId) (v : World) (led : Departs w.uproot v) (sub : ids ⊆ w.leftovers) :
        Departs w.uproot (ids.foldl doom v) := by
      induction ids generalizing v with
      | nil => exact led
      | cons id ids ih =>
        obtain ⟨here, later⟩ := List.cons_subset.mp sub
        refine ih _ (led.trans c (departs_doom (led.hasJoined fun n found => .inl ?_))) later
        obtain ⟨m, mem, rfl⟩ := Array.mem_map.mp (Array.mem_toList_iff.mp here)
        obtain ⟨there, stays⟩ := Array.mem_filter.mp mem
        obtain ⟨k, place⟩ := Array.mem_iff_getElem?.mp there
        have foundM : w.uproot.node? (k + 1) = some m := by simpa [node?_succ] using place
        rw [numbered' _ m foundM, foundM] at found
        exact Option.some.inj found ▸ stays
    exact all _ _ (.refl c _) fun _ mem => mem

end World

namespace Op

variable {w : World} {caller : NodeId} {path : Text} (worker : Option NodeId)

/-- Whom a path leads to has joined the tree, unless it is the caller. -/
theorem hasJoined_of_apart (numbered : w.IsNumbered) {target : NodeId}
    (resolved : w.resolve? caller path = some target) (apart : w.isWithin caller target = false) :
    w.HasJoined target := by
  intro n found
  obtain ⟨m, there, -, same | stays⟩ := World.alive_of_resolve? numbered resolved
  · rw [same, World.isWithin_self] at apart
    cases apart
  · exact .inl (Option.some.inj (there.symm.trans found) ▸ stays)

theorem leaves_delete (numbered : w.IsNumbered) :
    Ends (delete worker caller path) w fun _ v => World.Leaves worker w v := by
  have c := World.composes_leaves worker
  have settles : Settles (delete worker caller path) w fun _ v => World.Leaves worker w v := by
    refine .resolve fun id resolved => .node fun target found => .require fun _ =>
      .get (.require fun apart => .resolve fun _ _ => .node fun parent _ => ?_)
    obtain rfl := numbered id target found
    split
    · exact .throw _
    · refine .require fun _ => .require fun _ => .of_ends ?_
      have unlinked := World.leaves_unlink worker parent.id (splitPath path).2 target.id w
      simp only [Ends.bind_iff, ends_change]
      split
      · rw [ends_change]
        exact unlinked.trans c (World.leaves_modifyNode worker fun _ _ =>
          .of_departs (.of_rest rfl rfl) rfl rfl)
      · simp only [Ends.bind_iff, ends_change]
        have joined := hasJoined_of_apart numbered resolved (by simpa using apart)
        refine (unlinked.trans c ?_).trans c (.of_nodes_eq c (World.nodes_logNode _ _ _ _ _))
        exact (World.leaves_doomed worker (unlinked.departs.hasJoined joined)).trans c
          (World.leaves_teardown worker World.dead_of_doomed)
  exact settles.leaves (.refl c w) fun _ _ leaves => leaves

theorem leaves_disposeShared (numbered : w.IsNumbered) :
    Ends (disposeShared worker caller path) w fun _ v => World.Leaves worker w v := by
  have c := World.composes_leaves worker
  have settles : Settles (disposeShared worker caller path) w fun _ v => World.Leaves worker w v := by
    refine .requirePrivilege fun _ _ _ => .resolve fun id resolved => .node fun target found =>
      .get (.require fun apart => .require fun _ => .of_ends ?_)
    obtain rfl := numbered id target found
    have joined := hasJoined_of_apart numbered resolved (by simpa using apart)
    have doomed := World.leaves_doom worker joined
    have dead : ∀ n, (w.modifyNode target.id fun n => { n with dead := true }).node? target.id =
        some n → n.dead = true := World.dead_of_mark
    have rest {u : World} (start : World.Leaves worker (w.modifyNode target.id fun n =>
        { n with dead := true }) u) : World.Leaves worker w
          ((u.unlinkShared target.id).teardown worker target.id) :=
      have unlinked := start.trans c (World.leaves_unlinkShared worker target.id u)
      (doomed.trans c unlinked).trans c (World.leaves_teardown worker (World.Leaves.dead unlinked dead))
    simp only [Ends.bind_iff, ends_change, Ends.get_iff]
    split
    · simp only [Ends.bind_iff, ends_change]
      exact rest (World.leaves_unlink worker _ _ _ _)
    · exact rest (.refl c _)
  exact settles.leaves (.refl c w) fun _ _ leaves => leaves

end Op

end InterpTree
