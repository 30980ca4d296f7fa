import InterpTree.Proofs.Razing

/-!
Deletions, exactly. In a tree whose links and nodes fit together a node that is deleted is unlinked
and torn down, and what comes of that is the tree without all that falls with the node.
-/

namespace InterpTree

namespace World

variable {w v u x : World} {i t : NodeId} {n n' m : Node} {P Q R : NodeId → Node → Node → Prop}

/-- Links and nodes fit together. A link of its own leads to a child by its name; a shared link and
an entry of the node that it leads to tell of each other. -/
structure IsWoven (w : World) : Prop extends IsForest w where
  alive : ∀ i n, w.attached? i = some n → n.dead = false
  /-- A node that never was part of the tree has no links. -/
  bare : ∀ i n, w.node? i = some n → n.attached = false → n.dead = false → n.links = []
  named : ∀ i n, w.attached? i = some n → ∀ l ∈ n.links, l.shared = false →
    ∀ t, w.node? l.target = some t → t.name = l.name
  lent : ∀ i n, w.attached? i = some n → ∀ l ∈ n.links, l.shared = true →
    ∃ t, w.attached? l.target = some t ∧ ⟨i, l.name⟩ ∈ t.sharedLinks
  noted : ∀ i n, w.attached? i = some n → ∀ ref ∈ n.sharedLinks,
    ∃ k, w.attached? ref.holder = some k ∧ ⟨ref.name, i, true⟩ ∈ k.links
  once : ∀ i n, w.attached? i = some n → n.sharedLinks.Nodup
  handed : ∀ i n, w.attached? i = some n → n.shared = false → n.sharedLinks = []
  below : ∀ i n p, w.attached? i = some n → w.attached? n.parent = some p →
    ⟨n.name, i, false⟩ ∈ p.links

/-! ### Unlinking -/

theorem Changes.comp (h : Changes P w v) (h' : Changes Q v u) :
    Changes (fun i n k => ∃ m, P i n m ∧ Q i m k) w u := by
  refine ⟨⟨h'.nodes.size.trans h.nodes.size, fun i n found => ?_⟩, h.still.trans h'.still⟩
  obtain ⟨m, foundM, first⟩ := h.nodes.node i n found
  obtain ⟨k, foundK, second⟩ := h'.nodes.node i m foundM
  exact ⟨k, foundK, m, first, second⟩

theorem Changes.refine (h : Changes P w v)
    (weaker : ∀ i n n', w.node? i = some n → P i n n' → Q i n n') : Changes Q w v := by
  refine ⟨⟨h.nodes.size, fun i n found => ?_⟩, h.still⟩
  obtain ⟨n', found', change⟩ := h.nodes.node i n found
  exact ⟨n', found', weaker i n n' found change⟩

/-- Removes the link to `t` that an entry tells of, if its holder is part of the tree. -/
def unlinkRef (t : NodeId) (w : World) (ref : LinkRef) : World :=
  if (w.attached? ref.holder).isSome then w.modifyNode ref.holder (Node.unlink ref.name t) else w

/-- A node that is part of the tree loses the links to `t` that entries tell of. -/
def Sheds (t : NodeId) (refs : List LinkRef) (i : NodeId) (n n' : Node) : Prop :=
  n' = { n with links :=
    if n.attached then
      n.links.filter fun l => !(decide (l.target = t) && decide (⟨i, l.name⟩ ∈ refs))
    else n.links }

theorem sheds_self {refs : List LinkRef}
    (none : ∀ ref ∈ refs, ref.holder = i → n.attached = false) : Sheds t refs i n n := by
  unfold Sheds
  split
  · rename_i stays
    have all : (n.links.filter fun l =>
        !(decide (l.target = t) && decide (⟨i, l.name⟩ ∈ refs))) = n.links := by
      refine List.filter_eq_self.mpr fun l _ => ?_
      have absent : ⟨i, l.name⟩ ∉ refs := fun mem => by
        rw [none _ mem rfl] at stays
        cases stays
      rw [decide_eq_false absent, Bool.and_false]
      rfl
    rw [all]
  · rfl

theorem sheds_trans {refs refs' : List LinkRef} (first : Sheds t refs i n m)
    (second : Sheds t refs' i m n') : Sheds t (refs ++ refs') i n n' := by
  have stays : m.attached = n.attached := by rw [first]
  rw [second, Sheds, stays, first]
  cases n.attached with
  | false => rfl
  | true =>
    simp only [if_true, List.filter_filter, List.mem_append]
    congr 2
    funext l
    by_cases target : l.target = t
    · by_cases mem : (⟨i, l.name⟩ : LinkRef) ∈ refs
      · simp [target, mem]
      · simp [target, mem]
    · simp [target]

/-- The link to `t` that an entry tells of is removed, if its holder is part of the tree. -/
theorem changes_unlinkRef (t : NodeId) (w : World) (ref : LinkRef) :
    Changes (Sheds t [ref]) w (w.unlinkRef t ref) := by
  unfold unlinkRef
  split
  · rename_i there
    obtain ⟨k, found⟩ := Option.isSome_iff_exists.mp there
    obtain ⟨foundK, stays⟩ := attached?_eq_some_iff.mp found
    refine ⟨⟨size_modifyNode _ _ w, fun i n foundN => ?_⟩, .modifyNode _ _ w⟩
    by_cases here : i = ref.holder
    · subst here
      obtain rfl : k = n := Option.some.inj (foundK.symm.trans foundN)
      refine ⟨_, node?_modifyNode_same _ foundN, ?_⟩
      rw [Sheds, stays, if_pos rfl, Node.unlink]
      congr 2
      funext l
      have same : (⟨ref.holder, l.name⟩ : LinkRef) = ref ↔ l.name = ref.name :=
        ⟨fun same => same ▸ rfl, fun same => same ▸ rfl⟩
      simp only [List.mem_singleton, same]
      by_cases name : l.name = ref.name
      · simp [name]
      · simp [name]
    · refine ⟨n, (node?_modifyNode_ne _ here).trans foundN, sheds_self fun r mem holder => ?_⟩
      rw [List.mem_singleton.mp mem] at holder
      exact absurd holder.symm here
  · rename_i none
    refine ⟨⟨rfl, fun i n found => ⟨n, found, sheds_self fun r mem holder => ?_⟩⟩, .refl w⟩
    rw [List.mem_singleton.mp mem] at holder
    subst holder
    cases stays : n.attached with
    | false => rfl
    | true =>
      rw [attached?_eq_some_iff.mpr ⟨found, stays⟩] at none
      exact absurd rfl none

theorem changes_unlinkRefs (t : NodeId) (refs : List LinkRef) (w : World) :
    Changes (Sheds t refs) w (refs.foldl (unlinkRef t) w) := by
  induction refs generalizing w with
  | nil => exact ⟨⟨rfl, fun i n found => ⟨n, found, sheds_self nofun⟩⟩, .refl w⟩
  | cons ref refs ih =>
    refine ((changes_unlinkRef t w ref).comp (ih _)).mono fun i n n' both => ?_
    obtain ⟨m, first, second⟩ := both
    exact sheds_trans first second

theorem unlinkShared_eq (found : w.node? i = some n) :
    w.unlinkShared i = n.sharedLinks.foldl (unlinkRef i)
      (w.modifyNode i fun n => { n with sharedLinks := [] }) := by
  rw [unlinkShared, found]
  rfl

/-- What is left of a node once `t` is marked dead and all links to it are removed. -/
def Uproots (t i : NodeId) (n n' : Node) : Prop :=
  n' = { n with
    dead := n.dead || decide (i = t)
    sharedLinks := if i = t then [] else n.sharedLinks
    links := if n.attached then n.links.filter fun l => l.target ≠ t else n.links }

/-- All links to `t` are the one from its parent and those that it knows of. -/
theorem links_shed (woven : w.IsWoven) {k : Node} (target : w.node? t = some k)
    (found : w.attached? i = some n) :
    (n.links.filter fun l => !(decide (l.target = t) &&
        decide (⟨i, l.name⟩ ∈ (⟨k.parent, k.name⟩ : LinkRef) :: k.sharedLinks))) =
      n.links.filter fun l => l.target ≠ t := by
  refine List.filter_congr fun l mem => ?_
  by_cases here : l.target = t
  · subst here
    have told : (⟨i, l.name⟩ : LinkRef) ∈ (⟨k.parent, k.name⟩ : LinkRef) :: k.sharedLinks := by
      cases own : l.shared with
      | false =>
        obtain ⟨k', reached, parent⟩ := woven.own i n found l mem own
        obtain rfl : k = k' :=
          eq_of_attached? target reached
        rw [parent, woven.named i n found l mem own k target]
        exact List.mem_cons_self
      | true =>
        obtain ⟨k', reached, entry⟩ := woven.lent i n found l mem own
        obtain rfl : k = k' :=
          eq_of_attached? target reached
        exact List.mem_cons_of_mem _ entry
    simp [told]
  · simp [here]

theorem changes_kill (t : NodeId) (w : World) :
    Changes (fun i n n' => n' = { n with dead := n.dead || decide (i = t) }) w
      (w.modifyNode t fun n => { n with dead := true }) := by
  have dies : Changes (At t fun n n' => n' = { n with dead := true }) w
      (w.modifyNode t fun n => { n with dead := true }) := changes_modifyNode fun n _ => rfl
  refine dies.mono fun i n n' change => ?_
  by_cases here : i = t
  · subst here
    rw [at_same.mp change, decide_eq_true rfl, Bool.or_true]
  · rw [(at_ne here).mp change, decide_eq_false here, Bool.or_false]

/-- A node is marked dead and loses all links to it, the one from its parent first. -/
theorem changes_uproot (woven : w.IsWoven) {k : Node} (target : w.node? t = some k)
    (marked : Changes (fun i n m => ∃ a, Sheds t [⟨k.parent, k.name⟩] i n a ∧
      m = { a with dead := a.dead || decide (i = t) }) w v) :
    Changes (Uproots t) w (v.unlinkShared t) := by
  obtain ⟨k', found, a, shed, rfl⟩ := marked.nodes.node t k target
  have refs : a.sharedLinks = k.sharedLinks := by rw [shed]
  rw [unlinkShared_eq found]
  simp only [refs]
  have clears (v : World) : Changes (At t fun n n' => n' = { n with sharedLinks := [] }) v
      (v.modifyNode t fun n => { n with sharedLinks := [] }) := changes_modifyNode fun n _ => rfl
  refine ((marked.comp (clears v)).comp (changes_unlinkRefs t k.sharedLinks _)).refine
    fun i n n' foundN change => ?_
  obtain ⟨c, ⟨b, ⟨a, first, rfl⟩, second⟩, third⟩ := change
  have cleared : c = { a with
      dead := a.dead || decide (i = t), sharedLinks := if i = t then [] else a.sharedLinks } := by
    by_cases here : i = t
    · subst here
      rw [at_same.mp second, if_pos rfl]
    · rw [(at_ne here).mp second, if_neg here]
  have rest : Sheds t k.sharedLinks i a { a with links := n'.links } := by
    rw [third, cleared]
    rfl
  have links : n'.links =
      if n.attached then n.links.filter fun l => l.target ≠ t else n.links := by
    refine (congrArg Node.links (sheds_trans first rest)).trans ?_
    cases stays : n.attached with
    | false => simp
    | true =>
      simp only [if_true]
      exact links_shed woven target (attached?_eq_some_iff.mpr ⟨foundN, stays⟩)
  have same : n' = { c with links := n'.links } := by rw [third]
  rw [Uproots, same, cleared, links, first]

theorem changes_unlink_kill (t : NodeId) (w : World) (ref : LinkRef) :
    Changes (fun i n m => ∃ a, Sheds t [ref] i n a ∧
        m = { a with dead := a.dead || decide (i = t) }) w
      ((w.unlinkRef t ref).modifyNode t fun n => { n with dead := true }) :=
  (changes_unlinkRef t w ref).comp (changes_kill t _)

theorem changes_kill_unlink (t : NodeId) (w : World) (ref : LinkRef) :
    Changes (fun i n m => ∃ a, Sheds t [ref] i n a ∧
        m = { a with dead := a.dead || decide (i = t) }) w
      ((w.modifyNode t fun n => { n with dead := true }).unlinkRef t ref) := by
  refine ((changes_kill t w).comp (changes_unlinkRef t _ ref)).mono fun i n n' change => ?_
  obtain ⟨a, rfl, shed⟩ := change
  exact ⟨{ n with links := n'.links }, by rw [shed]; rfl, by rw [shed]⟩

section Uprooted

variable (uproots : Changes (Uproots t) w u)

include uproots

theorem attached_uprooted (found : w.attached? i = some n) :
    ∃ m, u.attached? i = some m ∧ Uproots t i n m := by
  obtain ⟨found, stays⟩ := attached?_eq_some_iff.mp found
  obtain ⟨m, foundM, change⟩ := uproots.nodes.node i n found
  refine ⟨m, attached?_eq_some_iff.mpr ⟨foundM, ?_⟩, change⟩
  rw [change]
  exact stays

theorem uprooted_attached (found : u.attached? i = some m) :
    ∃ n, w.attached? i = some n ∧ Uproots t i n m := by
  obtain ⟨found, stays⟩ := attached?_eq_some_iff.mp found
  obtain ⟨n, foundN, change⟩ := uproots.nodes.node_back found
  refine ⟨n, attached?_eq_some_iff.mpr ⟨foundN, ?_⟩, change⟩
  rw [change] at stays
  exact stays

omit uproots in
theorem Uproots.links_eq (change : Uproots t i n m) (stays : w.attached? i = some n) :
    m.links = n.links.filter fun l => l.target ≠ t := by
  rw [change]
  exact if_pos (attached?_eq_some_iff.mp stays).2

theorem linksTo_of_uprooted {a b : NodeId} (link : u.LinksTo a b) : w.LinksTo a b := by
  obtain ⟨m, found, l, mem, target⟩ := link
  obtain ⟨n, foundN, change⟩ := uproots.nodes.node_back found
  refine ⟨n, foundN, l, ?_, target⟩
  rw [change] at mem
  dsimp only at mem
  split at mem
  · exact (List.mem_filter.mp mem).1
  · exact mem

theorem owns_uprooted_iff {a b : NodeId} : u.Owns a b ↔ w.Owns a b ∧ b ≠ t := by
  constructor
  · rintro ⟨m, k, top, reached, unshared, l, mem, own, rfl⟩
    obtain ⟨n, top', change⟩ := uprooted_attached uproots top
    obtain ⟨k', reached', change'⟩ := uprooted_attached uproots reached
    rw [change.links_eq top'] at mem
    obtain ⟨mem, apart⟩ := List.mem_filter.mp mem
    refine ⟨⟨n, k', top', reached', ?_, l, mem, own, rfl⟩, by simpa using apart⟩
    rw [change'] at unshared
    exact unshared
  · rintro ⟨⟨n, k, top, reached, unshared, l, mem, own, rfl⟩, apart⟩
    obtain ⟨m, top', change⟩ := attached_uprooted uproots top
    obtain ⟨k', reached', change'⟩ := attached_uprooted uproots reached
    refine ⟨m, k', top', reached', ?_, l, ?_, own, rfl⟩
    · rw [change']
      exact unshared
    · rw [change.links_eq top]
      exact List.mem_filter.mpr ⟨mem, by simpa using apart⟩

/-- The same nodes fall with `t`, since none of them leads back there. -/
theorem fallsWith_uprooted_iff (forest : w.IsForest) : u.FallsWith t i ↔ w.FallsWith t i := by
  constructor
  · intro falls
    exact Relation.ReflTransGen.mono (fun a b owns => ((owns_uprooted_iff uproots).mp owns).1) _ _
      falls
  · intro falls
    induction falls with
    | refl => exact .refl
    | tail above owns ih =>
      refine .tail ih ((owns_uprooted_iff uproots).mpr ⟨owns, ?_⟩)
      rintro rfl
      exact Nat.lt_irrefl _ (Nat.lt_of_lt_of_le (forest.lt owns) (forest.le above))

theorem isForest_uprooted (forest : w.IsForest) : u.IsForest := by
  refine ⟨fun i m found => ?_, fun i m found l mem own => ?_⟩
  · obtain ⟨n, foundN, change⟩ := uproots.nodes.node_back found
    rw [change]
    exact forest.older i n foundN
  · obtain ⟨n, foundN, change⟩ := uprooted_attached uproots found
    rw [change.links_eq foundN] at mem
    obtain ⟨k, reached, parent⟩ := forest.own i n foundN l (List.mem_filter.mp mem).1 own
    obtain ⟨k', reached', change'⟩ := attached_uprooted uproots reached
    refine ⟨k', reached', ?_⟩
    rw [change']
    exact parent

end Uprooted

/-- The teardown of a node that is uprooted. -/
theorem razes_uprooted (woven : w.IsWoven) (uproots : Changes (Uproots t) w u) {r : Node}
    (top : w.attached? t = some r) (worker : Option NodeId) :
    Loses u (u.FallsWith t) u (u.teardown worker t) ∧
      GoneOn (u.FallsWith t) (u.teardown worker t) := by
  obtain ⟨k, topU, changeT⟩ := attached_uprooted uproots top
  have room : u.nodes.size < u.nodes.size + 1 + t := by omega
  refine razes_teardownNode (isForest_uprooted uproots woven.toIsForest) worker topU room u
    (.refl composes_fades u) (fun i n falls found => ?_) (fun i n found ref mem _ => ?_)
    fun n found => ?_
  · obtain ⟨m, there⟩ := attached_of_fallsWith topU falls
    obtain ⟨found', stays⟩ := attached?_eq_some_iff.mp there
    obtain rfl : n = m := Option.some.inj (found.symm.trans found')
    obtain ⟨n', foundW, change⟩ := uprooted_attached uproots there
    refine ⟨n, found, stays, rfl, fun unshared => ?_⟩
    rw [change] at unshared ⊢
    simp only [woven.handed i n' foundW unshared, ite_self]
  · obtain ⟨n', foundW, change⟩ := uprooted_attached uproots found
    rw [change] at mem
    dsimp only at mem
    split at mem
    · cases mem
    · rename_i apart
      obtain ⟨k', holder, told⟩ := woven.noted i n' foundW ref mem
      obtain ⟨k'', holder', change'⟩ := attached_uprooted uproots holder
      refine ⟨k'', node?_of_attached? holder', ⟨ref.name, i, true⟩, ?_, rfl⟩
      rw [change'.links_eq holder]
      exact List.mem_filter.mpr ⟨told, by simpa using apart⟩
  · obtain ⟨n', -, change⟩ := uproots.nodes.node_back found
    rw [change, decide_eq_true rfl, Bool.or_true]

/-! ### What a deletion leaves -/

open Classical in
/-- What the removal of the nodes in `S` comes to at node `i`: it leaves the tree, or it loses the
links into `S` and what it knows of links from there, and else at most its path changes. -/
structure PrunedAt (w : World) (S : NodeId → Prop) (i : NodeId) (n n' : Node) : Prop where
  fades : n.Fades n'
  left : S i → n'.attached = false ∧ n'.dead = true
  same : ¬ S i → n' = { n with
    links := n'.links, sharedLinks := n'.sharedLinks, home := n'.home, path := n'.path }
  links : ¬ S i → n.attached = true → n'.links = n.links.filter fun l => ¬ S l.target
  refs : ¬ S i → n.attached = true → n'.sharedLinks = n.sharedLinks.filter fun ref => ¬ S ref.holder
  linked : ¬ S i → (∀ s, S s → ¬ w.LinksTo s i) → n' = { n with links := n'.links }

abbrev Prunes (S : NodeId → Prop) (w v : World) : Prop := Changes (PrunedAt w S) w v

theorem Uproots.fades (change : Uproots t i n m) : n.Fades m := by
  have marked : n.Fades { n with
      dead := n.dead || decide (i = t), sharedLinks := if i = t then [] else n.sharedLinks } :=
    .of_kept (fun dead => by rw [dead]; rfl) rfl
  rw [change]
  refine marked.trans (Node.fades_links ?_)
  split
  · exact List.filter_sublist
  · exact .refl _

theorem Uproots.of_ne (change : Uproots t i n m) (apart : i ≠ t) :
    m = { n with links := m.links } := by
  rw [change, decide_eq_false apart, Bool.or_false, if_neg apart]

/-- A link into what falls with `t` that starts elsewhere leads to `t` itself. -/
theorem target_eq_of_fallsWith (woven : w.IsWoven) (found : w.attached? i = some n) {l : Link}
    (mem : l ∈ n.links) (apart : ¬ w.FallsWith t i) (falls : w.FallsWith t l.target) :
    l.target = t := by
  rcases Relation.ReflTransGen.cases_tail falls with same | ⟨a, above, owns⟩
  · exact same
  · have ⟨_, k, _, reached, unshared, _⟩ := owns
    have target := node?_of_attached? reached
    cases own : l.shared with
    | false =>
      obtain ⟨k', reached', parent⟩ := woven.own i n found l mem own
      obtain rfl : k = k' := Option.some.inj (reached.symm.trans reached')
      rw [woven.parent_eq owns target] at parent
      exact absurd (parent ▸ above) apart
    | true =>
      obtain ⟨k', reached', entry⟩ := woven.lent i n found l mem own
      obtain rfl : k = k' := Option.some.inj (reached.symm.trans reached')
      rw [woven.handed _ k reached unshared] at entry
      cases entry

/-- All that falls with an uprooted node is gone, and nothing else is. -/
theorem prunes_uprooted (woven : w.IsWoven) (uproots : Changes (Uproots t) w u) {r : Node}
    (top : w.attached? t = some r) (worker : Option NodeId) :
    Prunes (w.FallsWith t) w (u.teardown worker t) := by
  obtain ⟨loses, gone⟩ := razes_uprooted woven uproots top worker
  have same (i : NodeId) : u.FallsWith t i ↔ w.FallsWith t i :=
    fallsWith_uprooted_iff uproots woven.toIsForest
  refine ⟨⟨loses.nodes.size.trans uproots.nodes.size, fun i n found => ?_⟩,
    uproots.still.trans loses.still⟩
  obtain ⟨m, foundM, uproot⟩ := uproots.nodes.node i n found
  obtain ⟨n', found', loss⟩ := loses.nodes.node i m foundM
  -- Apart from what falls, uprooting takes links only, and the teardown takes none.
  have survives (apart : ¬ w.FallsWith t i) :
      ¬ u.FallsWith t i ∧ m = { n with links := m.links } ∧ n'.links = m.links := by
    have outside : ¬ u.FallsWith t i := fun falls => apart ((same i).mp falls)
    refine ⟨outside, uproot.of_ne ?_, by rw [loss.spared outside]⟩
    rintro rfl
    exact apart .refl
  refine ⟨n', found', {
    fades := uproot.fades.trans loss.fades, left := ?left, same := ?same, links := ?links
    refs := ?refs, linked := ?linked }⟩
  case left =>
    intro falls
    obtain ⟨k, foundK, left⟩ := gone.left i ((same i).mpr falls)
    obtain rfl : n' = k := Option.some.inj (found'.symm.trans foundK)
    exact left
  case same =>
    intro apart
    obtain ⟨outside, plain, links⟩ := survives apart
    have spared := loss.spared outside
    rw [plain] at spared
    rw [links]
    exact spared
  case links =>
    intro apart stays
    obtain ⟨-, -, links⟩ := survives apart
    have there := attached?_eq_some_iff.mpr ⟨found, stays⟩
    rw [links, uproot.links_eq there]
    refine List.filter_congr fun l mem => ?_
    have only : l.target = t ↔ w.FallsWith t l.target :=
      ⟨fun here => here ▸ .refl, target_eq_of_fallsWith woven there mem apart⟩
    exact decide_eq_decide.mpr (not_congr only)
  case refs =>
    intro apart stays
    obtain ⟨outside, plain, -⟩ := survives apart
    obtain ⟨keeps, kept, fallen⟩ := loss.kept outside
    have refs : m.sharedLinks = n.sharedLinks := by rw [plain]
    rw [refs] at kept
    rw [kept]
    refine List.filter_congr fun ref mem => ?_
    cases keep : keeps ref with
    | false => simp [(same _).mp (fallen ref keep)]
    | true =>
      have stays' : n'.attached = true := by
        rw [loss.spared outside, plain]
        exact stays
      have told : ref ∈ n'.sharedLinks := by
        rw [kept]
        exact List.mem_filter.mpr ⟨mem, keep⟩
      have lasting := gone.forgotten i n' (attached?_eq_some_iff.mpr ⟨found', stays'⟩) ref told
      rw [same] at lasting
      simp [lasting]
  case linked =>
    intro apart unlinked
    obtain ⟨outside, plain, -⟩ := survives apart
    rcases loss.linked outside with kept | ⟨-, s, falls, link⟩
    · rw [kept]
      exact plain
    · exact absurd (linksTo_of_uprooted uproots link) (unlinked s ((same s).mp falls))

end World

end InterpTree
