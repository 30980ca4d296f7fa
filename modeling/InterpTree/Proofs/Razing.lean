import InterpTree.Proofs.Losses

/-!
What falls when a node is torn down: the node, and with each node that falls the children that it
owns. Nodes that were handed over to the host stay; nothing else is touched.
-/

namespace InterpTree

namespace World

variable {w v u x : World} {id a b c i : NodeId} {S : NodeId → Prop} {n n' m : Node}

/-- In the middle of the teardown of `id`: each of its children is still there with all that falls
with it, or gone with all of that. -/
structure Underway (w : World) (id : NodeId) (v : World) : Prop where
  faded : Each (fun _ n n' => n.Fades n') w v
  traced : w.TracedOn (w.FallsWith id) v
  children : ∀ c, w.Owns id c → w.IntactOn (w.FallsWith c) v ∨ GoneOn (w.FallsWith c) v

/-- A node knows of no link from `id`. -/
def Forgot (id i : NodeId) (v : World) : Prop :=
  ∀ n, v.attached? i = some n → ∀ ref ∈ n.sharedLinks, ref.holder ≠ id

theorem Forgot.loses (h : Forgot id i v) (loses : Loses w S v u) : Forgot id i u := by
  intro n' found' ref mem
  obtain ⟨n, found, loss⟩ := loses.attached? found'
  exact h n found ref (loss.refs (attached?_eq_some_iff.mp found').2 mem)

/-- The teardown of `id` has dealt with a node at the end of one of its links: a child that it owns
has left the tree, and another node knows of no link from `id` any more. -/
structure Settled (w : World) (id i : NodeId) (v : World) : Prop where
  left : w.Owns id i → v.attached? i = none
  forgot : Forgot id i v

theorem Settled.loses (h : w.Settled id i v) (loses : Loses w S v u) : w.Settled id i u := by
  refine ⟨fun owns => ?_, h.forgot.loses loses⟩
  cases found : u.attached? i with
  | none => rfl
  | some n =>
    obtain ⟨m, found', -⟩ := loses.attached? found
    rw [h.left owns] at found'
    cases found'

theorem Settled.of_left (none : v.attached? i = none) : w.Settled id i v := by
  refine ⟨fun _ => none, fun n found => ?_⟩
  rw [none] at found
  cases found

theorem GoneOn.attached?_eq_none (gone : GoneOn S v) (falls : S i) : v.attached? i = none := by
  obtain ⟨n, found, left, -⟩ := gone.left i falls
  cases there : v.attached? i with
  | none => rfl
  | some m =>
    obtain ⟨found', stays⟩ := attached?_eq_some_iff.mp there
    obtain rfl : n = m := Option.some.inj (found.symm.trans found')
    rw [left] at stays
    cases stays

theorem FallsWith.of_owns (owns : w.Owns a b) (falls : w.FallsWith b i) : w.FallsWith a i :=
  .head owns falls

theorem Loses.of_owns (owns : w.Owns a b) (loses : Loses w (w.FallsWith b) u v) :
    Loses w (w.FallsWith a) u v :=
  loses.mono fun _ _ _ loss => loss.mono fun _ => FallsWith.of_owns owns

theorem Loses.faded (loses : Loses w S u v) (faded : Each (fun _ n n' => n.Fades n') w u) :
    Each (fun _ n n' => n.Fades n') w v :=
  faded.trans composes_fades (loses.nodes.mono fun _ _ _ loss => loss.fades)

/-- A child is torn down with all that falls with it; the other children are not touched. -/
theorem Underway.raze (forest : w.IsForest) (way : w.Underway id v) (owns : w.Owns id c)
    (loses : Loses w (w.FallsWith c) v x) (gone : GoneOn (w.FallsWith c) x) : w.Underway id x := by
  refine ⟨loses.faded way.faded, way.traced.loses loses, fun d owns' => ?_⟩
  by_cases same : d = c
  · subst same
    exact .inr gone
  · refine (way.children d owns').imp (fun intact => ?_) fun left => left.loses loses
    exact intact.loses loses fun i falls falls' =>
      same (forest.eq_of_fallsWith owns' owns falls falls')

/-- A node at the end of a link that is not torn down is rehomed. -/
theorem Underway.rehome (way : w.Underway id v) (found : v.attached? c = some n)
    (linked : w.LinksTo id c) : w.Underway id (v.rehome id c) := by
  have loses := loses_rehome (S := w.FallsWith id) .refl found linked
  refine ⟨loses.faded way.faded, way.traced.loses loses, fun d owns => ?_⟩
  refine (way.children d owns).imp (fun intact i k inside foundW => ?_) fun left => left.loses loses
  obtain ⟨m, foundM, stays, links, bare⟩ := intact i k inside foundW
  obtain ⟨m', found', change⟩ := (changes_rehome id c v).nodes.node i m foundM
  refine ⟨m', found', ?_⟩
  by_cases here : i = c
  · subst here
    rw [at_same.mp change]
    refine ⟨stays, links, fun unshared => ?_⟩
    simp only [bare unshared, List.filter_nil]
  · rw [(at_ne here).mp change]
    exact ⟨stays, links, bare⟩

theorem forgot_rehome (gone id : NodeId) (v : World) : Forgot gone id (v.rehome gone id) :=
  fun _ found' _ mem => not_mem_of_rehome (node?_of_attached? found') mem

/-- What the teardown of `id` does about one of its own links. -/
def tearLink (worker : Option NodeId) (fuel : Nat) (id : NodeId) (w : World) (l : Link) : World :=
  match w.attached? l.target with
  | none => w
  | some child =>
    if child.shared then w.rehome id l.target
    else
      ((w.modifyNode l.target fun n => { n with dead := true }).unlinkShared l.target).teardownNode
        worker fuel l.target

/-- What the teardown of `id` does about one of its shared links. -/
def moveLink (id : NodeId) (w : World) (l : Link) : World :=
  if (w.attached? l.target).isSome then w.rehome id l.target else w

/-- The last part of a teardown, after the links of the node's own. -/
def finishNode (worker : Option NodeId) (id : NodeId) (links : List Link) (w : World) : World :=
  (((links.filter Link.shared).foldl (moveLink id) w).release worker id).modifyNode id fun n =>
    { n with attached := false }

theorem teardownNode_succ (worker : Option NodeId) (fuel : Nat) (found : w.node? id = some n) :
    w.teardownNode worker (fuel + 1) id =
      ((n.links.filter fun l => !l.shared).foldl (tearLink worker fuel id) w).finishNode worker id
        n.links := by
  rw [teardownNode, found]
  rfl

/-- What razing a node with all that falls with it comes to, where it is marked dead already. -/
def Razes (w : World) (raze : World → World) (id : NodeId) : Prop :=
  ∀ u, Each (fun _ n n' => n.Fades n') w u → w.IntactOn (w.FallsWith id) u →
    w.TracedOn (w.FallsWith id) u → (∀ n, u.node? id = some n → n.dead = true) →
      Loses w (w.FallsWith id) u (raze u) ∧ GoneOn (w.FallsWith id) (raze u)

theorem Underway.tearLink (forest : w.IsForest) {worker : Option NodeId} {fuel : Nat} {r : Node}
    (top : w.attached? id = some r)
    (razes : ∀ c, w.Owns id c → w.Razes (World.teardownNode worker fuel c) c)
    {l : Link} (mem : l ∈ r.links) (own : l.shared = false) (way : w.Underway id v) :
    Loses w (w.FallsWith id) v (v.tearLink worker fuel id l) ∧
      w.Underway id (v.tearLink worker fuel id l) ∧
      w.Settled id l.target (v.tearLink worker fuel id l) := by
  obtain ⟨t, reached, -⟩ := forest.own id r top l mem own
  have linked : w.LinksTo id l.target := ⟨r, node?_of_attached? top, l, mem, rfl⟩
  unfold World.tearLink
  split
  · rename_i none
    exact ⟨.refl v, way, .of_left none⟩
  · rename_i child found
    obtain ⟨foundV, stays⟩ := attached?_eq_some_iff.mp found
    obtain ⟨t', foundT, fades⟩ := way.faded.node_back foundV
    obtain rfl : t = t' := (eq_of_attached? foundT reached).symm
    have same : child.shared = t.shared := by rw [(fades.kept stays).2]
    split
    · rename_i handed
      refine ⟨loses_rehome .refl found linked, way.rehome found linked, ?_, forgot_rehome id _ v⟩
      rintro ⟨-, t', -, reached', unshared, -⟩
      obtain rfl : t = t' := Option.some.inj (reached.symm.trans reached')
      rw [← same, handed] at unshared
      cases unshared
    · rename_i unshared
      have unshared : t.shared = false := by rw [← same]; simpa using unshared
      have owns : w.Owns id l.target := ⟨r, t, top, reached, unshared, l, mem, own, rfl⟩
      -- Another link may have led to the same child, which is gone then.
      rcases way.children l.target owns with intact | gone
      · obtain ⟨m, foundM, -, -, bare⟩ := intact l.target t .refl foundT
        obtain rfl : child = m := Option.some.inj (foundV.symm.trans foundM)
        have doom := changes_doom foundV (bare unshared)
        have dooms : Loses w (w.FallsWith l.target) v _ := loses_doom .refl foundV (bare unshared)
        obtain ⟨razed, gone⟩ := razes l.target owns _ (dooms.faded way.faded) (intact.doom doom)
          ((way.traced.mono fun _ => .of_owns owns).loses dooms) (dead_of_doom doom)
        have loses := dooms.trans razed
        exact ⟨loses.of_owns owns, way.raze forest owns loses gone,
          .of_left (gone.attached?_eq_none .refl)⟩
      · rw [gone.attached?_eq_none .refl] at found
        cases found

theorem loses_moveLink {r : Node} (top : w.attached? id = some r) {l : Link} (mem : l ∈ r.links) :
    Loses w (w.FallsWith id) v (v.moveLink id l) ∧ Forgot id l.target (v.moveLink id l) := by
  have linked : w.LinksTo id l.target := ⟨r, node?_of_attached? top, l, mem, rfl⟩
  unfold moveLink
  split
  · rename_i there
    obtain ⟨n, found⟩ := Option.isSome_iff_exists.mp there
    exact ⟨loses_rehome .refl found linked, forgot_rehome id _ v⟩
  · rename_i none
    refine ⟨.refl v, fun n found => ?_⟩
    rw [found] at none
    exact absurd rfl none

/-- A node is gone with all that falls with it when it is gone itself, its children are gone with
all that falls with them, and what it had links to has forgotten them. -/
theorem GoneOn.of_children {r k : Node} (top : w.attached? id = some r)
    (traced : w.TracedOn (w.FallsWith id) v) (found : v.node? id = some k)
    (left : k.attached = false) (dead : k.dead = true)
    (children : ∀ c, w.Owns id c → GoneOn (w.FallsWith c) v)
    (forgot : ∀ l ∈ r.links, Forgot id l.target v) : GoneOn (w.FallsWith id) v := by
  refine ⟨fun i falls => ?_, fun i n there ref mem falls => ?_⟩
  · rcases Relation.ReflTransGen.cases_head falls with rfl | ⟨c, owns, below⟩
    · exact ⟨k, found, left, dead⟩
    · exact (children c owns).left i below
  · rcases Relation.ReflTransGen.cases_head falls with same | ⟨c, owns, below⟩
    · obtain ⟨r', foundR, l, memL, rfl⟩ := traced i n there ref mem falls
      rw [← same] at foundR
      obtain rfl : r = r' := (eq_of_attached? foundR top).symm
      exact forgot l memL n there ref mem same.symm
    · exact (children c owns).forgotten i n there ref mem below

/-- Once the links of its own are dealt with, the shared links of `id` are, and it leaves. -/
theorem Underway.finish {r : Node} (top : w.attached? id = some r) (worker : Option NodeId)
    (way : w.Underway id v) (settled : ∀ l ∈ r.links, l.shared = false → w.Settled id l.target v)
    (dead : ∀ n, v.node? id = some n → n.dead = true) :
    Loses w (w.FallsWith id) v (v.finishNode worker id r.links) ∧
      GoneOn (w.FallsWith id) (v.finishNode worker id r.links) := by
  unfold finishNode
  obtain ⟨second, -, forgot⟩ := Loses.foldl (u := v) (w := w) (S := w.FallsWith id)
    (I := fun _ => True) (moveLink id) (r.links.filter Link.shared)
    (fun v l mem _ =>
      have ⟨loses, forgot⟩ := loses_moveLink (v := v) top (List.mem_filter.mp mem).1
      ⟨loses, trivial, forgot⟩)
    (fun l v x (forgot : Forgot id l.target v) loses => forgot.loses loses) trivial
  generalize (r.links.filter Link.shared).foldl (moveLink id) v = x at second forgot ⊢
  have third : Loses w (w.FallsWith id) x _ := loses_leave .refl worker x
  have all := second.trans third
  obtain ⟨n, found, -⟩ := way.faded.node id r (node?_of_attached? top)
  obtain ⟨k, foundK, loss⟩ := all.nodes.node id n found
  obtain ⟨m, -, left⟩ := (changes_leave worker id x).nodes.node_back foundK
  refine ⟨all, .of_children top (way.traced.loses all) foundK (at_same.mp left).2
    (loss.fades.dead (dead n found)) (fun c owns => ?_) fun l mem => ?_⟩
  · have ⟨r', t, top', reached, unshared, l, mem, own, target⟩ := owns
    obtain rfl : r = r' := Option.some.inj (top.symm.trans top')
    rcases way.children c owns with intact | gone
    · obtain ⟨m, foundM, stays, -⟩ := intact c t .refl (node?_of_attached? reached)
      subst target
      have there := attached?_eq_some_iff.mpr ⟨foundM, stays⟩
      rw [(settled l mem own).left owns] at there
      cases there
    · exact gone.loses all
  · cases own : l.shared with
    | false => exact (settled l mem own).forgot.loses all
    | true => exact (forgot l (List.mem_filter.mpr ⟨mem, own⟩)).loses third

/-- The induction is on the depth that is left. While the children are dealt with one by one, each
is untouched until its turn comes, since no node falls with two of them. -/
theorem razes_teardownNode (forest : w.IsForest) (worker : Option NodeId) {fuel : Nat} {r : Node}
    (top : w.attached? id = some r) (enough : w.nodes.size < fuel + id) :
    w.Razes (World.teardownNode worker fuel id) id := by
  induction fuel generalizing id r with
  | zero =>
    have := le_size_of_node? (node?_of_attached? top)
    omega
  | succ fuel ih =>
    intro u faded intact traced dead
    obtain ⟨foundW, -⟩ := attached?_eq_some_iff.mp top
    obtain ⟨n, found, stays, links, -⟩ := intact id r .refl foundW
    have razes (c : NodeId) (owns : w.Owns id c) :
        w.Razes (World.teardownNode worker fuel c) c := by
      have younger : @LT.lt Nat _ id c := forest.lt owns
      have ⟨_, t, _, reached, _⟩ := owns
      exact ih reached (by omega)
    have start : w.Underway id u :=
      ⟨faded, traced, fun c owns => .inl fun i k falls => intact i k (.of_owns owns falls)⟩
    rw [teardownNode_succ worker fuel found, links]
    obtain ⟨first, way, settled⟩ := Loses.foldl (D := fun l => w.Settled id l.target)
      (World.tearLink worker fuel id) (r.links.filter fun l => !l.shared)
      (fun v l mem way => way.tearLink forest top razes (List.mem_filter.mp mem).1
        (by simpa using (List.mem_filter.mp mem).2))
      (fun l v x settled loses => settled.loses loses) start
    generalize (r.links.filter fun l => !l.shared).foldl (World.tearLink worker fuel id) u = v
      at first way settled ⊢
    have dying (k : Node) (found' : v.node? id = some k) : k.dead = true := by
      obtain ⟨m, foundM, loss⟩ := first.nodes.node_back found'
      exact loss.fades.dead (dead m foundM)
    obtain ⟨rest, gone⟩ := way.finish top worker (fun l mem own =>
      settled l (List.mem_filter.mpr ⟨mem, by simpa using own⟩)) dying
    exact ⟨first.trans rest, gone⟩

end World

end InterpTree
