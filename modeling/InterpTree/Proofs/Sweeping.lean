import InterpTree.Proofs.Inventory

/-!
What operations on the tree do to objects. A teardown takes the objects of each node that goes, and
closes those that are not exempt; what else is done to the tree leaves them where they are.
-/

namespace InterpTree

namespace World

variable {w v u : World} {id i h : NodeId} {n m k : Node} {t : Nat}

/-! ### Teardown -/

theorem sweeps_unlinkShared (id : NodeId) (housed : w.IsHoused) : Sweeps w (w.unlinkShared id) := by
  cases found : w.node? id with
  | none =>
    rw [unlinkShared, found]
    exact .refl housed
  | some n =>
    rw [unlinkShared_eq found]
    refine Sweeps.andThen (sweeps_modifyNode housed fun _ _ => ?_)
      (Sweeps.foldl (unlinkRef id) (fun v ref housed => ?_) _)
    · exact ⟨rfl, rfl, rfl, rfl, rfl, rfl⟩
    · unfold unlinkRef
      split
      · exact sweeps_modifyNode housed fun _ _ => ⟨rfl, rfl, rfl, rfl, rfl, rfl⟩
      · exact .refl housed

theorem sweeps_rehome (gone id : NodeId) (housed : w.IsHoused) : Sweeps w (w.rehome gone id) := by
  unfold rehome
  split
  · exact .refl housed
  · rename_i n found
    dsimp only
    split
    · exact sweeps_modifyNode housed fun _ _ => ⟨rfl, rfl, rfl, rfl, rfl, rfl⟩
    · split
      · exact sweeps_modifyNode housed fun _ _ => ⟨rfl, rfl, rfl, rfl, rfl, rfl⟩
      · exact sweeps_of_alters housed found (((Alters.modifyNode found rfl).change rfl).log _ _ _ _)
          ⟨rfl, rfl, rfl, rfl, rfl, rfl⟩

/-- What runs on behalf of a node is stopped. -/
theorem alters_stopAll (found : w.node? id = some n) :
    ∃ c, Alters id { n with cancel := c, ended := true } w (w.stopAll id) := by
  have watched : ∃ c, Alters id { n with cancel := c } w (w.stopWatchdog id).2 := by
    unfold stopWatchdog
    rw [found]
    dsimp only
    split
    · exact ⟨_, (Alters.modifyNode found (by rfl)).log _ _ _ _⟩
    · exact ⟨n.cancel, .refl found⟩
  obtain ⟨c, alters⟩ := watched
  have canceled : ∃ c, Alters id { n with cancel := c } w
      (((w.stopWatchdog id).2.postCancel id true true "interpreter deleted").toOption.getD
        (w.stopWatchdog id).2) := by
    unfold postCancel
    rw [alters.found]
    dsimp only
    cases Cancellation.cancel true true _ c with
    | error f => exact ⟨c, alters⟩
    | ok c' => exact ⟨c', (alters.change (by rfl)).log _ _ _ _⟩
  obtain ⟨c', alters'⟩ := canceled
  exact ⟨c', alters'.change rfl⟩

/-- The objects whose values are closed when some are disposed of. -/
def spent (os : List Object) : List Nat := (os.filter Object.closes).map Object.token

theorem dispose_spec (o : Object) (w : World) :
    (w.dispose o).2.nodes = w.nodes ∧ (w.dispose o).2.objects = w.objects ∧
      (w.dispose o).2.closed = w.closed ∧
      (w.dispose o).2.host.closed =
        w.host.closed ++ if o.value.disposal = .ignored then [] else [o.token] := by
  unfold dispose
  cases o.value.disposal <;> simp [modifyHost]

theorem disposeFor_spec (id : NodeId) (w : World) (o : Object) :
    (w.disposeFor id o).nodes = w.nodes ∧ (w.disposeFor id o).objects = w.objects ∧
      (w.disposeFor id o).closed = w.closed ∧
      (w.disposeFor id o).host.closed = w.host.closed ++ spent [o] := by
  obtain ⟨nodes, objects, shut, closed⟩ := dispose_spec o w
  unfold disposeFor
  cases exempt : o.noDispose with
  | true => simp [spent, Object.closes, exempt]
  | false =>
    have same : spent [o] = if o.value.disposal = .ignored then [] else [o.token] := by
      by_cases ignored : o.value.disposal = .ignored <;> simp [spent, Object.closes, exempt, ignored]
    rw [same, if_neg Bool.false_ne_true]
    split
    · rename_i v disposed
      rw [disposed] at nodes objects shut closed
      exact ⟨nodes, objects, shut, closed⟩
    · rename_i f v disposed
      rw [disposed] at nodes objects shut closed
      exact ⟨(nodes_logNode _ _ _ _ v).trans nodes,
        (Still.logNode _ _ _ _ v).objects.trans objects, (shut_logNode _ _ _ _ v).trans shut,
        (closed_logNode _ _ _ _ v).trans closed⟩

theorem foldl_disposeFor (id : NodeId) (os : List Object) (w : World) :
    (os.foldl (disposeFor id) w).nodes = w.nodes ∧
      (os.foldl (disposeFor id) w).objects = w.objects ∧
      (os.foldl (disposeFor id) w).closed = w.closed ∧
      (os.foldl (disposeFor id) w).host.closed = w.host.closed ++ spent os := by
  induction os generalizing w with
  | nil => exact ⟨rfl, rfl, rfl, (List.append_nil _).symm⟩
  | cons o os ih =>
    obtain ⟨nodes, objects, shut, closed⟩ := disposeFor_spec id w o
    obtain ⟨nodes', objects', shut', closed'⟩ := ih (w.disposeFor id o)
    refine ⟨nodes'.trans nodes, objects'.trans objects, shut'.trans shut, ?_⟩
    rw [List.foldl_cons, closed', closed, List.append_assoc]
    simp [spent, List.filter_cons]
    split <;> simp

/-- Of the objects registered in a node those are closed that it is the node's own to dispose of. -/
theorem count_spent (labeled : ∀ t o, w.object? t = some o → o.token = t)
    (entries : List (Text × Nat)) (t : Nat) :
    (spent (entries.filterMap fun e => w.object? e.2)).count t =
      if w.closes t then (entries.map Prod.snd).count t else 0 := by
  induction entries with
  | nil => simp [spent]
  | cons e entries ih =>
    have closes : w.closes e.2 = (w.object? e.2).any Object.closes := rfl
    have one : (spent (w.object? e.2).toList).count t =
        if w.closes t then [e.2].count t else 0 := by
      cases found : w.object? e.2 with
      | none =>
        rw [found] at closes
        by_cases same : e.2 = t
        · rw [← same, closes]
          rfl
        · simp [spent, same]
      | some o =>
        have token := labeled e.2 o found
        rw [found] at closes
        by_cases same : e.2 = t
        · rw [← same, closes]
          cases shut : o.closes <;> simp [spent, shut, token]
        · cases shut : o.closes <;> simp [spent, shut, token, same]
    have split : (e :: entries).filterMap (fun e => w.object? e.2) =
        (w.object? e.2).toList ++ entries.filterMap fun e => w.object? e.2 := by
      cases found : w.object? e.2 <;> simp [found]
    have apart (os os' : List Object) : spent (os ++ os') = spent os ++ spent os' := by
      simp [spent]
    rw [split, apart, List.count_append, one, ih, List.map_cons, List.count_cons]
    split
    · simp only [List.count_cons, List.count_nil]
      omega
    · rfl

/-- A node that drops its registries gives up its objects, and its own are closed. -/
theorem drop_spec (labeled : ∀ t o, w.object? t = some o → o.token = t)
    (found : w.node? id = some n) :
    (∀ i, (w.drop id).node? i = if i = id then some n.emptied else w.node? i) ∧
    (w.drop id).objects = w.objects ∧ (w.drop id).closed = w.closed ∧
    ∀ t, (w.drop id).closings t = w.closings t + if w.closes t then w.held id t else 0 := by
  have bare := Alters.modifyNode (f := fun n : Node =>
    { n with objects := [], commands := [], aliases := [], policies := [], links := [] }) found rfl
  obtain ⟨nodes, objects, shut, closed⟩ :=
    foldl_disposeFor id (n.objects.filterMap fun e => w.object? e.2) (w.modifyNode id fun n =>
      { n with objects := [], commands := [], aliases := [], policies := [], links := [] })
  unfold drop
  rw [found]
  dsimp only
  generalize (n.objects.filterMap fun e => w.object? e.2).foldl (disposeFor id) _ = u
    at nodes objects shut closed ⊢
  refine ⟨fun i => ?_, ?_, ?_, fun t => ?_⟩
  · rw [node?_modifyNode, node?_congr nodes, bare.node]
    split <;> rfl
  · exact (Still.modifyNode id _ u).objects.trans (objects.trans bare.objects)
  · exact (shut_modifyNode id _ u).trans (shut.trans bare.shut)
  · rw [closings, closed_modifyNode, closed, List.count_append, count_spent labeled, closings,
      bare.closed, held, objectsAt_of_node? found]

/-- A node that leaves the tree is released, if it has not been before. -/
theorem sweeps_leave (worker : Option NodeId) (id : NodeId) (housed : w.IsHoused) :
    Sweeps w ((w.release worker id).modifyNode id fun n => { n with attached := false }) := by
  cases found : w.node? id with
  | none =>
    rw [release, found]
    dsimp only
    rw [modifyNode_of_none _ found]
    exact .refl housed
  | some n =>
    have tidy := housed.nodes id n found
    cases gone : n.released with
    | true =>
      have left : n.attached = false := by rw [tidy.part, gone]; rfl
      rw [release, found]
      simp only [gone, if_true]
      refine sweeps_modifyNode housed fun m here => ?_
      obtain rfl : n = m := Option.some.inj (found.symm.trans here)
      exact ⟨rfl, rfl, left.symm, rfl, rfl, rfl⟩
    | false =>
      have freed := Alters.modifyNode (f := fun n : Node => { n with released := true }) found rfl
      obtain ⟨c, stopped⟩ := alters_stopAll freed.found
      have bare := (freed.trans stopped).change (f := fun n : Node => { n with worker := none }) rfl
      obtain ⟨node, objects, shut, closings⟩ := drop_spec (fun t o there =>
        housed.labeled t o ((object?_congr bare.objects t).symm.trans there)) bare.found
      rw [release, found]
      simp only [gone, Bool.false_eq_true, if_false, tidy.idle.1]
      generalize drop id _ = u at node objects shut closings ⊢
      have after (i : NodeId) : (u.modifyNode id fun n => { n with attached := false }).node? i =
          if i = id then some { n.emptied with
            released := true, cancel := c, ended := true, worker := none, attached := false }
          else w.node? i := by
        rw [node?_modifyNode, node, bare.node]
        split <;> rfl
      refine sweeps_of_node housed after (housed.numbered id n found)
        ⟨List.nodup_nil, ⟨rfl, tidy.idle.2⟩, rfl, fun _ => rfl⟩ (.inr rfl) (fun _ => rfl)
        ((Still.modifyNode id _ u).objects.trans (objects.trans bare.objects))
        ((shut_modifyNode id _ u).trans (shut.trans bare.shut)) fun t => ?_
      have emptied : (u.modifyNode id fun n => { n with attached := false }).held id t = 0 := by
        rw [held, objectsAt_of_node? ((after id).trans (if_pos rfl))]
        rfl
      rw [emptied, ite_self, Nat.add_zero, World.closings, closed_modifyNode, ← World.closings,
        closings, World.closings, bare.closed, ← World.closings, closes_congr bare.objects, held,
        objectsAt_of_node? bare.found, held, objectsAt_of_node? found]

theorem sweeps_mark (id : NodeId) (housed : w.IsHoused) :
    Sweeps w (w.modifyNode id fun n => { n with dead := true }) :=
  sweeps_modifyNode housed fun _ _ => ⟨rfl, rfl, rfl, rfl, rfl, rfl⟩

/-- A teardown disposes of what it reaches. The induction is on the depth that is left. -/
theorem sweeps_teardownNode (worker : Option NodeId) (fuel : Nat) (id : NodeId)
    (housed : w.IsHoused) : Sweeps w (w.teardownNode worker fuel id) := by
  induction fuel generalizing w id with
  | zero => exact .refl housed
  | succ fuel ih =>
    cases found : w.node? id with
    | none =>
      rw [teardownNode, found]
      exact .refl housed
    | some n =>
      rw [teardownNode_succ worker fuel found]
      refine Sweeps.andThen (Sweeps.foldl _ (fun v l housed => ?_) _ housed) fun housed =>
        .andThen (Sweeps.foldl _ (fun v l housed => ?_) _ housed) (sweeps_leave worker id)
      · unfold tearLink
        split
        · exact .refl housed
        · split
          · exact sweeps_rehome _ _ housed
          · exact (sweeps_mark l.target housed).andThen fun housed =>
              (sweeps_unlinkShared l.target housed).andThen fun housed => ih l.target housed
      · unfold moveLink
        split
        · exact sweeps_rehome _ _ housed
        · exact .refl housed

theorem sweeps_teardown (worker : Option NodeId) (id : NodeId) (housed : w.IsHoused) :
    Sweeps w (w.teardown worker id) := sweeps_teardownNode worker _ id housed

theorem sweeps_doom (id : NodeId) (housed : w.IsHoused) : Sweeps w (w.doom id) :=
  (sweeps_mark id housed).andThen (sweeps_teardown none id)

/-! ### Operations on the tree -/

/-- One node more, without objects. -/
theorem sweeps_enter (housed : w.IsHoused)
    (node : ∀ i, v.node? i = if i = w.nodes.size + 1 then some m else w.node? i)
    (numbered : m.id = w.nodes.size + 1) (empty : m.objects = []) (idle : m.IsIdle)
    (part : m.attached = !m.released) (objects : v.objects = w.objects)
    (shut : v.closed = w.closed) (closings : ∀ t, v.closings t = w.closings t) : Sweeps w v := by
  have free := node?_new w
  have none : w.objectsAt (w.nodes.size + 1) = [] := by rw [objectsAt, free]; rfl
  have none' : v.objectsAt (w.nodes.size + 1) = [] :=
    (objectsAt_of_node? ((node _).trans (if_pos rfl))).trans empty
  refine sweeps_of_node housed node numbered ⟨by rw [empty]; exact List.nodup_nil, idle, part,
    fun _ => empty⟩ (.inl (empty.trans none.symm)) ?_ objects shut fun t => ?_
  · rintro ⟨n, found, -⟩
    rw [free] at found
    cases found
  · rw [held, none', closings, held, none]

variable {populate : Node → Except Fault Node} {name path : Text} {parent : NodeId} {trust : Trust}

/-- A node that could not be populated is released, and holds nothing. -/
theorem sweeps_spoiled {f : Fault} (housed : w.IsHoused)
    (refused : (w.introduceBy populate name parent path trust).1 = .error f) :
    Sweeps w (w.introduceBy populate name parent path trust).2 := by
  unfold introduceBy at refused ⊢
  dsimp only at refused ⊢
  split at refused
  · cases refused
  · rename_i populated
    rw [if_neg populated]
    split at refused
    · cases refused
    · generalize spoiled : ({ Node.fresh (w.nodes.size + 1) name parent path trust w.settings.limits
        w.clock with released := true } : Node) = n
      have gains := (gains_enroll n w).tally
      have objects' : (w.enroll n).tally.objects = w.objects := gains.still.objects
      obtain ⟨c, stopped⟩ := alters_stopAll gains.new
      obtain ⟨node, objects, shut, closings⟩ := drop_spec (fun t o there => housed.labeled t o
        ((object?_congr (stopped.objects.trans objects') t).symm.trans there)) stopped.found
      refine sweeps_enter (m := ({ n with cancel := c, ended := true } : Node).emptied) housed
        (fun i => ?_) ?_ rfl ?_ ?_ (objects.trans (stopped.objects.trans objects'))
        (shut.trans stopped.shut) fun t => ?_
      · rw [node, stopped.node, gains.node]
        split <;> rfl
      · rw [← spoiled]
        rfl
      · rw [← spoiled]
        exact ⟨rfl, rfl⟩
      · rw [← spoiled]
        rfl
      · have bare : n.objects = [] := by
          rw [← spoiled]
          rfl
        have none : World.held _ (w.nodes.size + 1) t = 0 :=
          (congrArg (fun es => (es.map Prod.snd).count t)
            (objectsAt_of_node? stopped.found)).trans (by simp only [bare]; rfl)
        rw [closings, none, ite_self, Nat.add_zero, World.closings, stopped.closed]
        rfl

theorem closed_introduceBy {id : NodeId}
    (made : (w.introduceBy populate name parent path trust).1 = .ok id) :
    (w.introduceBy populate name parent path trust).2.closed = w.closed ∧
      (w.introduceBy populate name parent path trust).2.host.closed = w.host.closed := by
  unfold introduceBy at made ⊢
  dsimp only at made ⊢
  split at made
  · rename_i bare
    rw [if_pos bare]
    exact ⟨rfl, rfl⟩
  · rename_i populated
    rw [if_neg populated]
    split at made
    · exact ⟨rfl, rfl⟩
    · cases made

/-- A node that is introduced becomes part of the tree. -/
theorem sweeps_join {id : NodeId} {f : Node → Node} (housed : w.IsHoused)
    (made : (w.introduce name parent path trust).1 = .ok id)
    (joins : ∀ n, f n = { n with commands := (f n).commands, attached := true }) :
    Sweeps w ((w.introduce name parent path trust).2.modifyNode id f) := by
  obtain ⟨n, m, gains, isNew, -, -, -, -, ⟨number, rfl⟩ | ⟨⟨fault, refused⟩, -⟩⟩ :=
    gains_introduce name parent path trust w
  · have made' : (w.introduceBy (w.settings.populate w.populated) name parent path trust).1 = .ok id :=
      made
    obtain ⟨shut, closed⟩ := closed_introduceBy made'
    obtain rfl : w.nodes.size + 1 = id := Except.ok.inj (number.symm.trans made)
    refine sweeps_enter (m := f m) housed (fun i => ?_) ?_ ?_ ?_ ?_ ?_ ?_ fun t => ?_
    · rw [node?_modifyNode, gains.node]
      split <;> rfl
    · rw [joins]
      exact isNew.id
    · rw [joins]
      exact isNew.objects
    · rw [joins]
      exact ⟨isNew.worker, isNew.retiring⟩
    · rw [joins]
      simp only [isNew.released]
      rfl
    · exact (Still.modifyNode _ _ _).objects.trans gains.still.objects
    · exact (shut_modifyNode _ _ _).trans shut
    · rw [closings, closed_modifyNode, closings]
      exact congrArg (List.count t) closed
  · rw [made] at refused
    cases refused

end World

namespace Op

variable {w v : World}

/-- A change, and what comes after it. -/
theorem sweeps_change {α : Type} {f : World → World} {x : Unit → Op α} (first : w.Sweeps (f v))
    (next : (f v).IsHoused → Ends (x ()) (f v) fun _ u => (f v).Sweeps u) :
    Ends (change f >>= x) v fun _ u => w.Sweeps u :=
  Ends.bind_iff.mpr ((next first.housed).mono fun _ _ second => first.andThen fun _ => second)

theorem sweeps_create (caller : NodeId) (path name : Text) (options : CreateOptions)
    (housed : w.IsHoused) : Ends (create caller path name options) w fun _ v => w.Sweeps v := by
  have settles : Settles (create caller path name options) w fun _ v => w.Sweeps v := by
    unfold create createBy
    refine .require fun _ => .node fun c _ => .require fun _ => .require fun _ =>
      .resolve fun parent _ => .node fun p _ => .require fun _ => .get (.of_ends ?_)
    rw [Ends.bind_iff, Ends.set_iff]
    dsimp only
    split
    · rename_i refused
      exact World.sweeps_spoiled housed refused
    · rename_i made
      refine sweeps_change (World.sweeps_join housed made Node.join_eq) fun housed =>
        sweeps_change ?_ fun housed => sweeps_change (World.sweeps_logNode _ _ _ _ housed) .refl
      exact World.sweeps_modifyNode housed fun _ _ => ⟨rfl, rfl, rfl, rfl, rfl, rfl⟩
  exact settles.leaves (.refl housed) fun _ _ sweeps => sweeps

theorem sweeps_delete (worker : Option NodeId) (caller : NodeId) (path : Text)
    (housed : w.IsHoused) : Ends (delete worker caller path) w fun _ v => w.Sweeps v := by
  have settles : Settles (delete worker caller path) w fun _ v => w.Sweeps v := by
    refine .resolve fun _ _ => .node fun target _ => .require fun _ => .get (.require fun _ =>
      .resolve fun _ _ => .node fun _ _ => ?_)
    split
    · exact .throw _
    · refine .require fun _ => .require fun _ => .of_ends (sweeps_change ?_ fun housed => ?_)
      · exact World.sweeps_modifyNode housed fun _ _ => ⟨rfl, rfl, rfl, rfl, rfl, rfl⟩
      · split
        · exact World.sweeps_modifyNode housed fun _ _ => ⟨rfl, rfl, rfl, rfl, rfl, rfl⟩
        · exact sweeps_change (World.sweeps_mark _ housed) fun housed =>
            sweeps_change (World.sweeps_unlinkShared _ housed) fun housed =>
            sweeps_change (World.sweeps_teardown worker _ housed) (World.sweeps_logNode _ _ _ _)
  exact settles.leaves (.refl housed) fun _ _ sweeps => sweeps

theorem sweeps_shareInterp (caller : NodeId) (path source : Text) (housed : w.IsHoused) :
    Ends (shareInterp caller path source) w fun _ v => w.Sweeps v := by
  have settles : Settles (shareInterp caller path source) w fun _ v => w.Sweeps v := by
    refine .requirePrivilege fun _ _ _ => .resolve fun _ _ => .node fun _ _ => .resolve fun _ _ =>
      .node fun _ _ => .require fun _ => .get (.require fun _ => .require fun _ =>
        .of_ends (sweeps_change ?_ fun housed => sweeps_change ?_ fun housed =>
          sweeps_change (World.sweeps_logNode _ _ _ _ housed) .refl))
    · exact World.sweeps_modifyNode housed fun _ _ => ⟨rfl, rfl, rfl, rfl, rfl, rfl⟩
    · exact World.sweeps_modifyNode housed fun _ _ => ⟨rfl, rfl, rfl, rfl, rfl, rfl⟩
  exact settles.leaves (.refl housed) fun _ _ sweeps => sweeps

theorem sweeps_disposeShared (worker : Option NodeId) (caller : NodeId) (path : Text)
    (housed : w.IsHoused) : Ends (disposeShared worker caller path) w fun _ v => w.Sweeps v := by
  have settles : Settles (disposeShared worker caller path) w fun _ v => w.Sweeps v := by
    refine .requirePrivilege fun _ _ _ => .resolve fun _ _ => .node fun target _ => .get
      (.require fun _ => .require fun _ => .of_ends
        (sweeps_change (World.sweeps_mark _ housed) fun housed => Ends.bind_iff.mpr ?_))
    have rest {w : World} (housed : w.IsHoused) :
        Ends (do change (World.unlinkShared target.id); change (World.teardown worker target.id)) w
          fun _ v => w.Sweeps v :=
      sweeps_change (World.sweeps_unlinkShared _ housed) (World.sweeps_teardown worker _)
    rw [Ends.get_iff]
    dsimp only
    split
    · refine sweeps_change ?_ rest
      exact World.sweeps_modifyNode housed fun _ _ => ⟨rfl, rfl, rfl, rfl, rfl, rfl⟩
    · exact rest housed
  exact settles.leaves (.refl housed) fun _ _ sweeps => sweeps

end Op

end InterpTree
