import InterpTree.Proofs.Course

/-!
What nodes lose when others are torn down. With a node fall the children that it owns, which are those
at the end of its own links that were not handed over to the host; `FallsWith` says so of all below.
Nodes that stay lose what they know of links from the fallen.
-/

namespace InterpTree

namespace World

variable {w v u x : World} {id a b c i : NodeId}

theorem attached?_eq_some_iff {n : Node} :
    w.attached? i = some n ↔ w.node? i = some n ∧ n.attached = true :=
  Option.filter_eq_some_iff

theorem node?_of_attached? {n : Node} (there : w.attached? i = some n) : w.node? i = some n :=
  (attached?_eq_some_iff.mp there).1

theorem eq_of_attached? {n m : Node} (found : w.node? i = some n) (there : w.attached? i = some m) :
    n = m :=
  Option.some.inj (found.symm.trans (node?_of_attached? there))

/-- Node `a` has a link of its own to `b`, which was not handed over to the host. -/
def Owns (w : World) (a b : NodeId) : Prop :=
  ∃ n t, w.attached? a = some n ∧ w.attached? b = some t ∧ t.shared = false ∧
    ∃ l ∈ n.links, l.shared = false ∧ l.target = b

/-- Node `top` is torn down together with the node in question. -/
def FallsWith (w : World) (top : NodeId) : NodeId → Prop := Relation.ReflTransGen w.Owns top

/-- Parents are older than their children, and links of a node's own lead to its children. -/
structure IsForest (w : World) : Prop where
  older : ∀ i n, w.node? i = some n → n.parent < i
  own : ∀ i n, w.attached? i = some n → ∀ l ∈ n.links, l.shared = false →
    ∃ t, w.attached? l.target = some t ∧ t.parent = i

namespace IsForest

theorem parent_eq (forest : w.IsForest) (owns : w.Owns a b) {t : Node}
    (found : w.node? b = some t) : t.parent = a := by
  obtain ⟨n, t', foundN, -, -, l, mem, own, rfl⟩ := owns
  obtain ⟨t'', foundT, parent⟩ := forest.own a n foundN l mem own
  obtain rfl : t'' = t := (eq_of_attached? found foundT).symm
  exact parent

theorem lt (forest : w.IsForest) (owns : w.Owns a b) : a < b := by
  obtain ⟨n, t, -, foundT, -⟩ := id owns
  have found := node?_of_attached? foundT
  rw [← forest.parent_eq owns found]
  exact forest.older b t found

theorem le (forest : w.IsForest) (falls : w.FallsWith a b) : a ≤ b := by
  induction falls with
  | refl => exact Nat.le_refl a
  | tail _ owns ih => exact Nat.le_trans ih (Nat.le_of_lt (forest.lt owns))

/-- No node falls with two children of one node. -/
theorem eq_of_fallsWith (forest : w.IsForest) (first : w.Owns a b) (second : w.Owns a c)
    (falls : w.FallsWith b i) (falls' : w.FallsWith c i) : b = c := by
  have unique : Relator.RightUnique (Function.swap w.Owns) := by
    intro x y z owns owns'
    obtain ⟨n, t, -, foundT, -⟩ := id owns
    have found := node?_of_attached? foundT
    exact (forest.parent_eq owns found).symm.trans (forest.parent_eq owns' found)
  -- The child that falls with the other one would fall with `a`, which is older.
  have apart {x y : NodeId} (owns : w.Owns a x) (owns' : w.Owns a y) (below : w.FallsWith x y) :
      x = y := by
    rcases Relation.ReflTransGen.cases_tail below with same | ⟨z, falls, last⟩
    · exact same.symm
    · obtain rfl : z = a := unique last owns'
      exact absurd (Nat.lt_of_lt_of_le (forest.lt owns) (forest.le falls)) (Nat.lt_irrefl z)
  rcases Relation.ReflTransGen.total_of_right_unique unique falls.swap falls'.swap with up | up
  · exact (apart second first up.swap).symm
  · exact apart first second up.swap

end IsForest

theorem attached_of_fallsWith {n : Node} (top : w.attached? a = some n) (falls : w.FallsWith a i) :
    ∃ m, w.attached? i = some m := by
  rcases Relation.ReflTransGen.cases_tail falls with rfl | ⟨b, -, -, t, -, foundT, -⟩
  · exact ⟨n, top⟩
  · exact ⟨t, foundT⟩

/-! ### Losses -/

theorem composes_fades : Composes fun _ (n n' : Node) => n.Fades n' :=
  ⟨fun _ n => .refl n, fun _ _ _ _ => .trans⟩

/-- What node `i` loses when the nodes in `S` fall: if it is not one of them, at most what it knows
of links from them, and its path. It stays as it is unless a link of `w` leads there from `S`. -/
structure LosesAt (w : World) (S : NodeId → Prop) (i : NodeId) (n n' : Node) : Prop where
  fades : n.Fades n'
  refs : n'.attached = true → n'.sharedLinks ⊆ n.sharedLinks
  spared : ¬ S i →
    n' = { n with path := n'.path, home := n'.home, sharedLinks := n'.sharedLinks }
  kept : ¬ S i → ∃ keeps : LinkRef → Bool, n'.sharedLinks = n.sharedLinks.filter keeps ∧
    ∀ ref, keeps ref = false → S ref.holder
  linked : ¬ S i → n' = n ∨ n.attached = true ∧ ∃ s, S s ∧ w.LinksTo s i

variable {S T : NodeId → Prop} {n n' m : Node}

theorem composes_losesAt (w : World) (S : NodeId → Prop) : Composes (LosesAt w S) := by
  refine ⟨fun i n => ⟨.refl n, fun _ _ mem => mem, fun _ => rfl,
      fun _ => ⟨fun _ => true, ?_, nofun⟩, fun _ => .inl rfl⟩,
    fun i n m k h h' => ⟨h.fades.trans h'.fades, fun a => ?_, fun outside => ?_, fun outside => ?_,
      fun outside => ?_⟩⟩
  · exact (List.filter_eq_self.mpr fun _ _ => rfl).symm
  · exact fun ref mem => h.refs (h'.fades.attached a) (h'.refs a mem)
  · rw [h'.spared outside, h.spared outside]
  · obtain ⟨keeps, same, fallen⟩ := h.kept outside
    obtain ⟨keeps', same', fallen'⟩ := h'.kept outside
    refine ⟨fun ref => keeps ref && keeps' ref, ?_, fun ref lost => ?_⟩
    · rw [same', same, List.filter_filter]
      exact List.filter_congr fun ref _ => Bool.and_comm _ _
    · rcases (Bool.and_eq_false_iff).mp lost with lost | lost
      · exact fallen ref lost
      · exact fallen' ref lost
  · rcases h'.linked outside with same' | ⟨stays, linked⟩
    · rw [same']
      exact h.linked outside
    · exact .inr ⟨h.fades.attached stays, linked⟩

theorem LosesAt.mono (h : LosesAt w S i n n') (inside : ∀ i, S i → T i) : LosesAt w T i n n' := by
  have outside : ¬ T i → ¬ S i := fun apart falls => apart (inside i falls)
  refine ⟨h.fades, h.refs, fun apart => h.spared (outside apart), fun apart => ?_, fun apart => ?_⟩
  · obtain ⟨keeps, same, fallen⟩ := h.kept (outside apart)
    exact ⟨keeps, same, fun ref lost => inside _ (fallen ref lost)⟩
  · rcases h.linked (outside apart) with same | ⟨stays, s, falls, link⟩
    · exact .inl same
    · exact .inr ⟨stays, s, inside s falls, link⟩

/-- `v` comes from `u` by losses of what falls with the nodes in `S`. -/
abbrev Loses (w : World) (S : NodeId → Prop) : World → World → Prop := Changes (LosesAt w S)

namespace Loses

theorem refl (u : World) : Loses w S u u := Changes.refl (composes_losesAt w S) u

theorem trans (h : Loses w S u v) (h' : Loses w S v x) : Loses w S u x :=
  Changes.trans (composes_losesAt w S) h h'

/-- A change to a node that falls. -/
theorem of_at (falls : S id) {P : Node → Node → Prop} (change : Changes (At id P) u v)
    (fades : ∀ n n', P n n' → n.Fades n')
    (refs : ∀ n n', P n n' → n'.attached = true → n'.sharedLinks ⊆ n.sharedLinks) :
    Loses w S u v := by
  refine change.mono fun i n n' changed => ?_
  by_cases same : i = id
  · subst same
    have changed := at_same.mp changed
    exact ⟨fades n n' changed, refs n n' changed, fun apart => absurd falls apart,
      fun apart => absurd falls apart, fun apart => absurd falls apart⟩
  · rw [(at_ne same).mp changed]
    exact (composes_losesAt w S).refl i n

theorem attached? (h : Loses w S u v) (found' : v.attached? i = some n') :
    ∃ n, u.attached? i = some n ∧ LosesAt w S i n n' := by
  obtain ⟨found', stays⟩ := attached?_eq_some_iff.mp found'
  obtain ⟨n, found, loss⟩ := h.nodes.node_back found'
  exact ⟨n, attached?_eq_some_iff.mpr ⟨found, loss.fades.attached stays⟩, loss⟩

end Loses

/-! ### What holds before and after -/

/-- In `v` the nodes in `S` are as they were in `w`, as far as their links go. -/
def IntactOn (w : World) (S : NodeId → Prop) (v : World) : Prop :=
  ∀ i n, S i → w.node? i = some n → ∃ m, v.node? i = some m ∧ m.attached = true ∧
    m.links = n.links ∧ (n.shared = false → m.sharedLinks = [])

/-- What nodes know of links from nodes in `S` is true in `w`. -/
def TracedOn (w : World) (S : NodeId → Prop) (v : World) : Prop :=
  ∀ i n, v.attached? i = some n → ∀ ref ∈ n.sharedLinks, S ref.holder → w.LinksTo ref.holder i

/-- The nodes in `S` have left the tree, and nobody there knows of links from them. -/
structure GoneOn (S : NodeId → Prop) (v : World) : Prop where
  left : ∀ i, S i → ∃ n, v.node? i = some n ∧ n.attached = false ∧ n.dead = true
  forgotten : ∀ i n, v.attached? i = some n → ∀ ref ∈ n.sharedLinks, ¬ S ref.holder

theorem TracedOn.mono (h : w.TracedOn T v) (inside : ∀ i, S i → T i) : w.TracedOn S v :=
  fun i n found ref mem falls => h i n found ref mem (inside _ falls)

theorem TracedOn.loses (h : w.TracedOn T v) (loses : Loses w S v u) : w.TracedOn T u := by
  intro i n' found' ref mem falls
  obtain ⟨n, found, loss⟩ := loses.attached? found'
  exact h i n found ref (loss.refs (attached?_eq_some_iff.mp found').2 mem) falls

theorem GoneOn.loses (h : GoneOn T v) (loses : Loses w S v u) : GoneOn T u := by
  refine ⟨fun i falls => ?_, fun i n' found' ref mem => ?_⟩
  · obtain ⟨n, found, left, dead⟩ := h.left i falls
    obtain ⟨n', found', loss⟩ := loses.nodes.node i n found
    refine ⟨n', found', ?_, loss.fades.dead dead⟩
    cases stays : n'.attached with
    | false => rfl
    | true =>
      rw [loss.fades.attached stays] at left
      cases left
  · obtain ⟨n, found, loss⟩ := loses.attached? found'
    exact h.forgotten i n found ref (loss.refs (attached?_eq_some_iff.mp found').2 mem)

/-- Nodes that are apart from those that fall stay intact. -/
theorem IntactOn.loses (h : w.IntactOn T v) (loses : Loses w S v u)
    (apart : ∀ i, T i → ¬ S i) : w.IntactOn T u := by
  intro i n inside foundW
  obtain ⟨m, found, stays, links, bare⟩ := h i n inside foundW
  obtain ⟨m', found', loss⟩ := loses.nodes.node i m found
  have same := loss.spared (apart i inside)
  obtain ⟨keeps, filtered, -⟩ := loss.kept (apart i inside)
  refine ⟨m', found', ?_, ?_, fun unshared => ?_⟩
  · rw [same]
    exact stays
  · rw [same]
    exact links
  · rw [filtered, bare unshared]
    rfl

/-! ### The parts of a teardown -/

/-- Two changes of one node. -/
theorem Changes.at_trans {P Q R : Node → Node → Prop} (h : Changes (At id P) u v)
    (h' : Changes (At id Q) v x) (both : ∀ n m k, P n m → Q m k → R n k) :
    Changes (At id R) u x := by
  refine ⟨⟨h'.nodes.size.trans h.nodes.size, fun i n found => ?_⟩, h.still.trans h'.still⟩
  obtain ⟨m, foundM, first⟩ := h.nodes.node i n found
  obtain ⟨k, foundK, second⟩ := h'.nodes.node i m foundM
  refine ⟨k, foundK, ?_⟩
  by_cases same : i = id
  · subst same
    exact at_same.mpr (both n m k (at_same.mp first) (at_same.mp second))
  · exact (at_ne same).mpr (((at_ne same).mp second).trans ((at_ne same).mp first))

theorem Changes.at_none {P : Node → Node → Prop} (none : u.node? id = none) :
    Changes (At id P) u u := by
  refine ⟨⟨rfl, fun i n found => ⟨n, found, (at_ne ?_).mpr rfl⟩⟩, .refl u⟩
  rintro rfl
  rw [none] at found
  cases found

/-- A node forgets a holder that goes away, and may get another path. -/
def Forgets (gone : NodeId) (n n' : Node) : Prop :=
  n' = { n with
    sharedLinks := n.sharedLinks.filter fun ref => ref.holder ≠ gone
    home := n'.home, path := n'.path }

theorem changes_rehome (gone id : NodeId) (u : World) :
    Changes (At id (Forgets gone)) u (u.rehome gone id) := by
  unfold rehome
  split
  · rename_i none
    exact .at_none none
  · rename_i n found
    have forgets : Changes (At id (Forgets gone)) u (u.modifyNode id fun m =>
        { m with sharedLinks := n.sharedLinks.filter fun ref => ref.holder ≠ gone }) := by
      refine changes_modifyNode fun m here => ?_
      obtain rfl : n = m := Option.some.inj (found.symm.trans here)
      rfl
    have moves (v : World) (home : NodeId) (path : Text) :
        Changes (At id fun m m' => m' = { m with home, path }) v
          (v.modifyNode id fun m => { m with home, path }) :=
      changes_modifyNode fun m _ => rfl
    dsimp only
    split
    · exact forgets
    · split
      · exact forgets
      · refine (forgets.at_trans (moves _ _ _) fun m k k' first second => ?_).followed
          (nodes_logNode _ _ _ _ _) (.logNode _ _ _ _ _)
        rw [second, Forgets, first]

/-- A node that falls is marked dead; there are no shared links to it. -/
theorem changes_doom {n : Node} (found : u.node? id = some n) (bare : n.sharedLinks = []) :
    Changes (At id fun m m' => m' = { m with dead := true, sharedLinks := [] }) u
      ((u.modifyNode id fun n => { n with dead := true }).unlinkShared id) := by
  have marked := node?_modifyNode_same (fun n => { n with dead := true }) found
  unfold unlinkShared
  rw [marked]
  simp only [bare, List.foldl_nil]
  have dies : Changes (At id fun m m' => m' = { m with dead := true }) u
      (u.modifyNode id fun n => { n with dead := true }) := changes_modifyNode fun m _ => rfl
  have clears (v : World) : Changes (At id fun m m' => m' = { m with sharedLinks := [] }) v
      (v.modifyNode id fun n => { n with sharedLinks := [] }) := changes_modifyNode fun m _ => rfl
  refine dies.at_trans (clears _) fun n m k first second => ?_
  rw [second, first]

theorem dead_of_doom
    (doom : Changes (At id fun m m' => m' = { m with dead := true, sharedLinks := [] }) u v)
    (n' : Node) (found' : v.node? id = some n') : n'.dead = true := by
  obtain ⟨n, -, change⟩ := doom.nodes.node_back found'
  rw [at_same.mp change]

theorem IntactOn.doom (h : w.IntactOn T u)
    (doom : Changes (At id fun m m' => m' = { m with dead := true, sharedLinks := [] }) u v) :
    w.IntactOn T v := by
  intro i k inside foundW
  obtain ⟨m, found, stays, links, bare⟩ := h i k inside foundW
  obtain ⟨m', found', change⟩ := doom.nodes.node i m found
  refine ⟨m', found', ?_⟩
  by_cases here : i = id
  · subst here
    rw [at_same.mp change]
    exact ⟨stays, links, fun _ => rfl⟩
  · rw [(at_ne here).mp change]
    exact ⟨stays, links, bare⟩

theorem loses_doom {n : Node} (falls : S id) (found : u.node? id = some n)
    (bare : n.sharedLinks = []) :
    Loses w S u ((u.modifyNode id fun n => { n with dead := true }).unlinkShared id) := by
  refine .of_at falls (changes_doom found bare) (fun n n' same => ?_) fun n n' same _ => ?_
  · refine .of_kept (fun _ => ?_) ?_
    · rw [same]
    · rw [same]
  · rw [same]
    exact List.nil_subset _

theorem LosesAt.of_forgets {gone : NodeId} (falls : S gone) (stays : n.attached = true)
    (linked : w.LinksTo gone i) (forgets : Forgets gone n n') : LosesAt w S i n n' where
  fades := .of_kept (fun dead => by rw [forgets]; exact dead) (by rw [forgets])
  refs _ := by
    rw [forgets]
    exact List.filter_sublist.subset
  spared _ := by rw [forgets]
  kept _ := by
    refine ⟨fun ref => decide (ref.holder ≠ gone), by rw [forgets], fun ref lost => ?_⟩
    obtain rfl : ref.holder = gone := by simpa using lost
    exact falls
  linked _ := .inr ⟨stays, gone, falls, linked⟩

/-- A node that a link leads to from a node that falls is rehomed. -/
theorem loses_rehome {gone : NodeId} (falls : S gone) (found : u.attached? id = some n)
    (linked : w.LinksTo gone id) : Loses w S u (u.rehome gone id) := by
  have change := changes_rehome gone id u
  obtain ⟨found, stays⟩ := attached?_eq_some_iff.mp found
  refine ⟨⟨change.nodes.size, fun i m foundM => ?_⟩, change.still⟩
  obtain ⟨m', found', changed⟩ := change.nodes.node i m foundM
  refine ⟨m', found', ?_⟩
  by_cases here : i = id
  · subst here
    obtain rfl : n = m := Option.some.inj (found.symm.trans foundM)
    exact .of_forgets falls stays linked (at_same.mp changed)
  · rw [(at_ne here).mp changed]
    exact (composes_losesAt w S).refl i m

theorem not_mem_of_rehome {gone : NodeId} (found' : (u.rehome gone id).node? id = some n')
    {ref : LinkRef} (mem : ref ∈ n'.sharedLinks) : ref.holder ≠ gone := by
  obtain ⟨n, -, changed⟩ := (changes_rehome gone id u).nodes.node_back found'
  rw [at_same.mp changed] at mem
  simpa using (List.mem_filter.mp mem).2

theorem loses_leave (falls : S id) (worker : Option NodeId) (u : World) :
    Loses w S u ((u.release worker id).modifyNode id fun n => { n with attached := false }) := by
  refine .of_at falls (changes_leave worker id u) (fun n n' leaves => leaves.1) ?_
  rintro n n' ⟨-, left⟩ stays
  rw [left] at stays
  cases stays

/-- What the steps of a fold do to their items stays done if losses do not undo it. -/
theorem Loses.foldl {α : Type} {I : World → Prop} {D : α → World → Prop} (f : World → α → World)
    (as : List α)
    (step : ∀ v, ∀ a ∈ as, I v → Loses w S v (f v a) ∧ I (f v a) ∧ D a (f v a))
    (stable : ∀ a v x, D a v → Loses w S v x → D a x) (start : I u) :
    Loses w S u (as.foldl f u) ∧ I (as.foldl f u) ∧ ∀ a ∈ as, D a (as.foldl f u) := by
  induction as generalizing u with
  | nil => exact ⟨.refl u, start, by simp⟩
  | cons a as ih =>
    obtain ⟨loses, kept, done⟩ := step u a List.mem_cons_self start
    obtain ⟨loses', kept', all⟩ := ih (fun v b mem => step v b (List.mem_cons_of_mem a mem)) kept
    refine ⟨loses.trans loses', kept', fun b mem => ?_⟩
    rcases List.mem_cons.mp mem with rfl | mem
    · exact stable b _ _ done loses'
    · exact all b mem

end World

end InterpTree
