import InterpTree.Proofs.Deletion

/-!
Trees stay woven. Removals keep some nodes, some links and some entries; making a child and sharing
add one link, with what its target knows of it.
-/

namespace InterpTree

namespace World

variable {w v : World} {i t holder : NodeId} {n n' : Node} {l : Link} {S : NodeId → Prop}

/-! ### Removals -/

section Thins

/-- What is left of node `i` where some nodes, links and entries are kept. -/
structure Thins (node : NodeId → Prop) (link : NodeId → Link → Prop)
    (entry : NodeId → LinkRef → Prop) (i : NodeId) (n n' : Node) : Prop where
  parent : n'.parent = n.parent
  stays : n'.attached = true ↔ n.attached = true ∧ node i
  outside : n'.attached = false → n'.dead = false → n.attached = false ∧ n.dead = false
  fewer : n'.links.Sublist n.links
  same : n'.attached = true → n'.name = n.name ∧ n'.dead = n.dead ∧ n'.shared = n.shared
  links : n'.attached = true → ∀ l, l ∈ n'.links ↔ l ∈ n.links ∧ link i l
  entries : n'.attached = true → n'.sharedLinks.Sublist n.sharedLinks ∧
    ∀ r, r ∈ n'.sharedLinks ↔ r ∈ n.sharedLinks ∧ entry i r

variable {node : NodeId → Prop} {link : NodeId → Link → Prop} {entry : NodeId → LinkRef → Prop}

theorem Thins.back (thins : Each (Thins node link entry) w v) (found' : v.attached? i = some n') :
    ∃ n, w.attached? i = some n ∧ node i ∧ n'.attached = true ∧ Thins node link entry i n n' := by
  obtain ⟨found', stays'⟩ := attached?_eq_some_iff.mp found'
  obtain ⟨n, found, thin⟩ := thins.node_back found'
  obtain ⟨stays, kept⟩ := thin.stays.mp stays'
  exact ⟨n, attached?_eq_some_iff.mpr ⟨found, stays⟩, kept, stays', thin⟩

theorem Thins.forth (thins : Each (Thins node link entry) w v) (found : w.attached? i = some n)
    (kept : node i) :
    ∃ n', v.attached? i = some n' ∧ n'.attached = true ∧ Thins node link entry i n n' := by
  obtain ⟨found, stays⟩ := attached?_eq_some_iff.mp found
  obtain ⟨n', found', thin⟩ := thins.node i n found
  have stays' := thin.stays.mpr ⟨stays, kept⟩
  exact ⟨n', attached?_eq_some_iff.mpr ⟨found', stays'⟩, stays', thin⟩

/-- What is kept is woven if kept links lead to kept nodes, kept entries tell of links of kept
nodes, and a link between kept nodes is kept if it is a node's own, and else just if its entry is. -/
theorem IsWoven.thin (woven : w.IsWoven) (thins : Each (Thins node link entry) w v)
    (ends : ∀ i n, w.attached? i = some n → node i → ∀ l ∈ n.links, link i l → node l.target)
    (holders : ∀ i n, w.attached? i = some n → ∀ r ∈ n.sharedLinks, entry i r → node r.holder)
    (own : ∀ i n, w.attached? i = some n → node i → ∀ l ∈ n.links, l.shared = false →
      node l.target → link i l)
    (told : ∀ i t name, node i → node t → (link i ⟨name, t, true⟩ ↔ entry t ⟨i, name⟩)) :
    v.IsWoven where
  older i n' found' := by
    obtain ⟨n, found, thin⟩ := thins.node_back found'
    rw [thin.parent]
    exact woven.older i n found
  own i n' found' l mem unshared := by
    obtain ⟨n, found, kept, stays, thin⟩ := Thins.back thins found'
    obtain ⟨mem, lasts⟩ := (thin.links stays l).mp mem
    obtain ⟨t, reached, parent⟩ := woven.own i n found l mem unshared
    obtain ⟨t', reached', -, thin'⟩ := Thins.forth thins reached (ends i n found kept l mem lasts)
    exact ⟨t', reached', thin'.parent.trans parent⟩
  alive i n' found' := by
    obtain ⟨n, found, -, stays, thin⟩ := Thins.back thins found'
    exact (thin.same stays).2.1.trans (woven.alive i n found)
  bare i n' found' left alive := by
    obtain ⟨n, found, thin⟩ := thins.node_back found'
    obtain ⟨left, alive⟩ := thin.outside left alive
    exact List.sublist_nil.mp (woven.bare i n found left alive ▸ thin.fewer)
  named i n' found' l mem unshared t' foundT := by
    obtain ⟨n, found, kept, stays, thin⟩ := Thins.back thins found'
    obtain ⟨mem, lasts⟩ := (thin.links stays l).mp mem
    obtain ⟨t, reached, -⟩ := woven.own i n found l mem unshared
    obtain ⟨t'', reached', stays', thin'⟩ :=
      Thins.forth thins reached (ends i n found kept l mem lasts)
    obtain rfl : t' = t'' := eq_of_attached? foundT reached'
    exact (thin'.same stays').1.trans
      (woven.named i n found l mem unshared t (node?_of_attached? reached))
  lent i n' found' l mem shared := by
    obtain ⟨n, found, kept, stays, thin⟩ := Thins.back thins found'
    obtain ⟨mem, lasts⟩ := (thin.links stays l).mp mem
    obtain ⟨t, reached, entry⟩ := woven.lent i n found l mem shared
    have keptT := ends i n found kept l mem lasts
    obtain ⟨t', reached', stays', thin'⟩ := Thins.forth thins reached keptT
    refine ⟨t', reached', ((thin'.entries stays').2 _).mpr ⟨entry, ?_⟩⟩
    -- Only with all its parts in view does `told` say that the entry is kept as the link is.
    have whole : l = ⟨l.name, l.target, true⟩ := by rw [← shared]
    rw [whole] at lasts
    exact (told i l.target l.name kept keptT).mp lasts
  noted i n' found' r mem := by
    obtain ⟨n, found, kept, stays, thin⟩ := Thins.back thins found'
    obtain ⟨mem, lasts⟩ := ((thin.entries stays).2 r).mp mem
    obtain ⟨k, holds, link⟩ := woven.noted i n found r mem
    have keptK := holders i n found r mem lasts
    obtain ⟨k', holds', stays', thin'⟩ := Thins.forth thins holds keptK
    exact ⟨k', holds', (thin'.links stays' _).mpr ⟨link, (told _ i _ keptK kept).mpr lasts⟩⟩
  once i n' found' := by
    obtain ⟨n, found, -, stays, thin⟩ := Thins.back thins found'
    exact (thin.entries stays).1.nodup (woven.once i n found)
  handed i n' found' unshared := by
    obtain ⟨n, found, -, stays, thin⟩ := Thins.back thins found'
    have none := woven.handed i n found ((thin.same stays).2.2.symm.trans unshared)
    exact List.sublist_nil.mp (none ▸ (thin.entries stays).1)
  below i n' p' found' foundP' := by
    obtain ⟨n, found, kept, stays, thin⟩ := Thins.back thins found'
    obtain ⟨p, foundP, keptP, staysP, thinP⟩ := Thins.back thins foundP'
    rw [thin.parent] at foundP keptP thinP
    have mem := woven.below i n p found foundP
    rw [(thin.same stays).1]
    exact (thinP.links staysP _).mpr ⟨mem, own _ p foundP keptP _ mem rfl kept⟩

end Thins

theorem PrunedAt.thins (pruned : PrunedAt w S i n n') :
    Thins (fun i => ¬ S i) (fun _ l => ¬ S l.target) (fun _ r => ¬ S r.holder) i n n' := by
  classical
  have apart (stays' : n'.attached = true) : ¬ S i := fun falls => by
    rw [(pruned.left falls).1] at stays'
    cases stays'
  have stays (stays' : n'.attached = true) : n.attached = true := pruned.fades.attached stays'
  refine ⟨pruned.fades.parent,
    ⟨fun stays' => ⟨stays stays', apart stays'⟩, fun ⟨was, kept⟩ => ?_⟩, fun left alive => ?_,
    pruned.fades.links, fun stays' => ?_, fun stays' l => ?_, fun stays' => ?_⟩
  · rw [pruned.same kept]
    exact was
  · have kept : ¬ S i := fun falls => by
      rw [(pruned.left falls).2] at alive
      cases alive
    have same := pruned.same kept
    rw [same] at left alive
    exact ⟨left, alive⟩
  · rw [pruned.same (apart stays')]
    exact ⟨rfl, rfl, rfl⟩
  · rw [pruned.links (apart stays') (stays stays'), List.mem_filter, decide_eq_true_eq]
  · rw [pruned.refs (apart stays') (stays stays')]
    exact ⟨List.filter_sublist, fun r => by rw [List.mem_filter, decide_eq_true_eq]⟩

theorem Prunes.isWoven (prunes : Prunes S w v) (woven : w.IsWoven) : v.IsWoven := by
  refine woven.thin (prunes.nodes.mono fun _ _ _ pruned => pruned.thins) ?_ ?_ ?_ ?_
  · exact fun _ _ _ _ _ _ lasts => lasts
  · exact fun _ _ _ _ _ lasts => lasts
  · exact fun _ _ _ _ _ _ _ lasts => lasts
  · exact fun _ _ _ kept kept' => iff_of_true kept' kept

/-- One shared link less, and the entry that tells of it. -/
theorem isWoven_pare (regular : w.IsRegular) (woven : w.IsWoven) (shared : l.shared = true)
    (pares : Changes (ParesAt holder l) w v) : v.IsWoven := by
  have thin (i : NodeId) (n n' : Node) (found : w.node? i = some n)
      (pare : ParesAt holder l i n n') : Thins (fun _ => True) (fun i k => ¬ (i = holder ∧ k = l))
        (fun i r => ¬ (i = l.target ∧ r = ⟨holder, l.name⟩)) i n n' := by
    have linksOnce : n.links.Nodup := List.Nodup.of_map _ (regular.names i n found)
    rw [pare]
    refine ⟨rfl, (and_iff_left trivial).symm, fun left alive => ⟨left, alive⟩, ?_,
      fun _ => ⟨rfl, rfl, rfl⟩, fun _ k => ?_, fun stays => ⟨?_, fun r => ?_⟩⟩
    · dsimp only
      split
      · exact List.erase_sublist
      · exact .refl _
    · by_cases here : i = holder
      · simp [here, linksOnce.mem_erase_iff, and_comm]
      · simp [here]
    · dsimp only
      split
      · exact List.erase_sublist
      · exact .refl _
    · have entriesOnce := woven.once i n (attached?_eq_some_iff.mpr ⟨found, stays⟩)
      by_cases here : i = l.target
      · simp [here, entriesOnce.mem_erase_iff, and_comm]
      · simp [here]
  have thins := (pares.refine thin).nodes
  refine woven.thin thins (fun _ _ _ _ _ _ _ => trivial) (fun _ _ _ _ _ _ => trivial) ?_ ?_
  · rintro i n - - k - own - ⟨-, rfl⟩
    rw [shared] at own
    cases own
  · intro _ t name _ _
    refine not_congr ⟨?_, ?_⟩
    · rintro ⟨rfl, rfl⟩
      exact ⟨rfl, rfl⟩
    · rintro ⟨rfl, same⟩
      obtain ⟨rfl, rfl⟩ := LinkRef.mk.inj same
      exact ⟨rfl, by rw [← shared]⟩

/-- Something else happens to a node, and it stays where it is. -/
structure KeepsAt (n n' : Node) : Prop where
  id : n'.id = n.id
  name : n'.name = n.name
  parent : n'.parent = n.parent
  path : n'.path = n.path
  attached : n'.attached = n.attached
  dead : n'.dead = n.dead
  shared : n'.shared = n.shared
  sharedLinks : n'.sharedLinks = n.sharedLinks
  fewer : n'.links.Sublist n.links
  links : n.attached = true → n'.links = n.links

theorem KeepsAt.refl (n : Node) : KeepsAt n n :=
  ⟨rfl, rfl, rfl, rfl, rfl, rfl, rfl, rfl, .refl _, fun _ => rfl⟩

theorem KeepsAt.trans {n m k : Node} (h : KeepsAt n m) (h' : KeepsAt m k) : KeepsAt n k where
  id := h'.id.trans h.id
  name := h'.name.trans h.name
  parent := h'.parent.trans h.parent
  path := h'.path.trans h.path
  attached := h'.attached.trans h.attached
  dead := h'.dead.trans h.dead
  shared := h'.shared.trans h.shared
  sharedLinks := h'.sharedLinks.trans h.sharedLinks
  fewer := h'.fewer.trans h.fewer
  links stays := (h'.links (h.attached.trans stays)).trans (h.links stays)

theorem composes_keepsAt : Composes fun _ => KeepsAt :=
  ⟨fun _ => .refl, fun _ _ _ _ => .trans⟩

/-- `v` has the tree of `w`, whatever else happened. -/
abbrev Keeps (w v : World) : Prop := Each (fun _ => KeepsAt) w v

theorem Keeps.isWoven (keeps : Keeps w v) (woven : w.IsWoven) : v.IsWoven := by
  have thins : Each (Thins (fun _ => True) (fun _ _ => True) fun _ _ => True) w v := by
    refine keeps.mono fun i n n' keep => ⟨keep.parent, ?_, fun left alive => ?_, keep.fewer,
      fun _ => ⟨keep.name, keep.dead, keep.shared⟩, fun stays l => ?_, fun _ => ?_⟩
    · rw [keep.attached, and_true]
    · exact ⟨keep.attached ▸ left, keep.dead ▸ alive⟩
    · rw [keep.links (keep.attached ▸ stays), and_true]
    · rw [keep.sharedLinks]
      exact ⟨.refl _, fun r => (and_iff_left trivial).symm⟩
  exact woven.thin thins (fun _ _ _ _ _ _ _ => trivial) (fun _ _ _ _ _ _ => trivial)
    (fun _ _ _ _ _ _ _ _ => trivial) fun _ _ _ _ _ => Iff.rfl

/-! ### Sharing -/

section Shares

variable {shared : NodeId}

theorem mem_links_shares (share : Op.SharesAt holder shared i n n') :
    l ∈ n'.links ↔ l ∈ n.links ∨ i = holder ∧ l = ⟨Op.sharedName shared, shared, true⟩ := by
  rw [share]
  by_cases here : i = holder
  · simp [here]
  · simp [here]

theorem mem_sharedLinks_shares {r : LinkRef} (share : Op.SharesAt holder shared i n n') :
    r ∈ n'.sharedLinks ↔ r ∈ n.sharedLinks ∨ i = shared ∧ r = ⟨holder, Op.sharedName shared⟩ := by
  rw [share]
  by_cases here : i = shared
  · simp [here]
  · simp [here]

variable (shares : Changes (Op.SharesAt holder shared) w v)

include shares

theorem back_shares (found' : v.attached? i = some n') :
    ∃ n, w.attached? i = some n ∧ Op.SharesAt holder shared i n n' := by
  obtain ⟨found', stays⟩ := attached?_eq_some_iff.mp found'
  obtain ⟨n, found, share⟩ := shares.nodes.node_back found'
  refine ⟨n, attached?_eq_some_iff.mpr ⟨found, ?_⟩, share⟩
  rw [share] at stays
  exact stays

theorem forth_shares (found : w.attached? i = some n) :
    ∃ n', v.attached? i = some n' ∧ Op.SharesAt holder shared i n n' := by
  obtain ⟨found, stays⟩ := attached?_eq_some_iff.mp found
  obtain ⟨n', found', share⟩ := shares.nodes.node i n found
  refine ⟨n', attached?_eq_some_iff.mpr ⟨found', ?_⟩, share⟩
  rw [share]
  exact stays

/-- One shared link more, and the entry that tells of it. -/
theorem isWoven_share (woven : w.IsWoven) {h s : Node} (holds : w.attached? holder = some h)
    (reached : w.attached? shared = some s)
    (free : (h.link? (Op.sharedName shared)).isNone = true) : v.IsWoven where
  older i n' found' := by
    obtain ⟨n, found, share⟩ := shares.nodes.node_back found'
    rw [share]
    exact woven.older i n found
  own i n' found' l mem unshared := by
    obtain ⟨n, found, share⟩ := back_shares shares found'
    rcases (mem_links_shares share).mp mem with mem | ⟨-, rfl⟩
    · obtain ⟨t, reached, parent⟩ := woven.own i n found l mem unshared
      obtain ⟨t', reached', share'⟩ := forth_shares shares reached
      refine ⟨t', reached', ?_⟩
      rw [share']
      exact parent
    · cases unshared
  alive i n' found' := by
    obtain ⟨n, found, share⟩ := back_shares shares found'
    rw [share]
    exact woven.alive i n found
  bare i n' found' left alive := by
    obtain ⟨n, found, share⟩ := shares.nodes.node_back found'
    rw [share] at left alive
    have apart : i ≠ holder := by
      rintro rfl
      obtain ⟨foundH, stays⟩ := attached?_eq_some_iff.mp holds
      obtain rfl : n = h := Option.some.inj (found.symm.trans foundH)
      rw [left] at stays
      cases stays
    rw [share, if_neg apart]
    exact woven.bare i n found left alive
  named i n' found' l mem unshared t' foundT := by
    obtain ⟨n, found, share⟩ := back_shares shares found'
    obtain ⟨t, reached, share'⟩ := shares.nodes.node_back foundT
    rcases (mem_links_shares share).mp mem with mem | ⟨-, rfl⟩
    · rw [share']
      exact woven.named i n found l mem unshared t reached
    · cases unshared
  lent i n' found' l mem lends := by
    obtain ⟨n, found, share⟩ := back_shares shares found'
    rcases (mem_links_shares share).mp mem with mem | ⟨rfl, rfl⟩
    · obtain ⟨t, reached, entry⟩ := woven.lent i n found l mem lends
      obtain ⟨t', reached', share'⟩ := forth_shares shares reached
      exact ⟨t', reached', (mem_sharedLinks_shares share').mpr (.inl entry)⟩
    · obtain ⟨t', reached', share'⟩ := forth_shares shares reached
      exact ⟨t', reached', (mem_sharedLinks_shares share').mpr (.inr ⟨rfl, rfl⟩)⟩
  noted i n' found' r mem := by
    obtain ⟨n, found, share⟩ := back_shares shares found'
    rcases (mem_sharedLinks_shares share).mp mem with mem | ⟨rfl, rfl⟩
    · obtain ⟨k, holds, link⟩ := woven.noted i n found r mem
      obtain ⟨k', holds', share'⟩ := forth_shares shares holds
      exact ⟨k', holds', (mem_links_shares share').mpr (.inl link)⟩
    · obtain ⟨k', holds', share'⟩ := forth_shares shares holds
      exact ⟨k', holds', (mem_links_shares share').mpr (.inr ⟨rfl, rfl⟩)⟩
  once i n' found' := by
    obtain ⟨n, found, share⟩ := back_shares shares found'
    have old := woven.once i n found
    rw [share]
    dsimp only
    split
    · rename_i here
      subst here
      -- An entry that is there already would tell of a link with the name that is free.
      refine List.nodup_append.mpr ⟨old, List.nodup_singleton _, fun r mem r' new => ?_⟩
      obtain rfl := List.mem_singleton.mp new
      rintro rfl
      obtain ⟨k, holds', link⟩ := woven.noted i n found _ mem
      obtain rfl : k = h := Option.some.inj (holds'.symm.trans holds)
      have none := List.find?_eq_none.mp (Option.isNone_iff_eq_none.mp free) _ link
      exact none (beq_self_eq_true _)
    · exact old
  handed i n' found' unshared := by
    obtain ⟨n, found, share⟩ := back_shares shares found'
    rw [share] at unshared ⊢
    dsimp only at unshared ⊢
    split at unshared
    · cases unshared
    · rename_i apart
      rw [if_neg apart]
      exact woven.handed i n found unshared
  below i n' p' found' foundP' := by
    obtain ⟨n, found, share⟩ := back_shares shares found'
    obtain ⟨p, foundP, shareP⟩ := back_shares shares foundP'
    refine (mem_links_shares shareP).mpr (.inl ?_)
    rw [share] at foundP ⊢
    exact woven.below i n p found foundP

end Shares

/-! ### New nodes -/

theorem Gains.attached?_eq {m : Node} (gains : Gains m w v) (detached : m.attached = false)
    (i : NodeId) : v.attached? i = w.attached? i := by
  unfold attached?
  rw [gains.node]
  split
  · rename_i new
    rw [new, node?_new]
    simp [Option.filter, detached]
  · rfl

/-- A node that is not part of the tree changes nothing. -/
theorem Gains.isWoven {m : Node} (gains : Gains m w v) (woven : w.IsWoven)
    (parent : @LE.le Nat _ m.parent w.nodes.size) (detached : m.attached = false)
    (none : m.links = []) : v.IsWoven := by
  have same := gains.attached?_eq detached
  refine {
    older := ?older, own := ?own, alive := ?alive, bare := ?bare, named := ?named, lent := ?lent
    noted := ?noted, once := ?once, handed := ?handed, below := ?below }
  case older =>
    intro i n found
    rcases gains.node_cases found with ⟨rfl, rfl⟩ | found
    · exact Nat.lt_succ_of_le parent
    · exact woven.older i n found
  case bare =>
    intro i n found left alive
    rcases gains.node_cases found with ⟨rfl, rfl⟩ | found
    · exact none
    · exact woven.bare i n found left alive
  case named =>
    intro i n there l mem own t target
    rw [same] at there
    obtain ⟨t', reached, -⟩ := woven.own i n there l mem own
    obtain rfl : t = t' := eq_of_attached? target ((same _).trans reached)
    exact woven.named i n there l mem own t (node?_of_attached? reached)
  case own => simpa only [same] using woven.own
  case alive => simpa only [same] using woven.alive
  case lent => simpa only [same] using woven.lent
  case noted => simpa only [same] using woven.noted
  case once => simpa only [same] using woven.once
  case handed => simpa only [same] using woven.handed
  case below => simpa only [same] using woven.below

section Grows

variable {parent : NodeId} {name : Text} {m p : Node}

/-- A node with the link that a new child gets, if it is the parent. -/
def withChild (parent : NodeId) (name : Text) (child i : NodeId) (n : Node) : Node :=
  if i = parent then n.addLink { name, target := child } else n

theorem mem_links_withChild {child : NodeId} :
    l ∈ (withChild parent name child i n).links ↔
      l ∈ n.links ∨ i = parent ∧ l = ⟨name, child, false⟩ := by
  unfold withChild
  split
  · rename_i here
    simp [Node.addLink, here]
  · rename_i apart
    simp [apart]

/-- Apart from its links it is the same node. -/
theorem withChild_eq (parent : NodeId) (name : Text) (child i : NodeId) (n : Node) :
    withChild parent name child i n =
      { n with links := (withChild parent name child i n).links } := by
  unfold withChild
  split
  · rfl
  · rfl

variable (grows : Grows parent name m w v)

include grows

theorem back_grows (found' : v.attached? i = some n') :
    (i = w.nodes.size + 1 ∧ n' = m) ∨
      ∃ n, w.attached? i = some n ∧ n' = withChild parent name (w.nodes.size + 1) i n := by
  obtain ⟨found', stays⟩ := attached?_eq_some_iff.mp found'
  rcases grows.node_cases found' with new | ⟨n, found, same⟩
  · exact .inl new
  · refine .inr ⟨n, attached?_eq_some_iff.mpr ⟨found, ?_⟩, same⟩
    rw [same, ← withChild, withChild_eq] at stays
    exact stays

theorem forth_grows (found : w.attached? i = some n) :
    v.attached? i = some (withChild parent name (w.nodes.size + 1) i n) := by
  obtain ⟨found, stays⟩ := attached?_eq_some_iff.mp found
  refine attached?_eq_some_iff.mpr ⟨grows.node_old found, ?_⟩
  rw [withChild_eq]
  exact stays

/-- One node more, at the end of a link that its parent gets. -/
theorem isWoven_grow (woven : w.IsWoven) (holds : w.attached? parent = some p)
    {options : CreateOptions} {c : Node} (numbered : w.IsNumbered)
    (child : Op.IsChild options name c p (w.nodes.size + 1) m) : v.IsWoven where
  older i n' found' := by
    rcases grows.node_cases found' with ⟨rfl, rfl⟩ | ⟨n, found, same⟩
    · rw [child.parent_eq, numbered parent p (node?_of_attached? holds)]
      exact Nat.lt_succ_of_le (le_size_of_node? (node?_of_attached? holds))
    · rw [same, ← withChild, withChild_eq]
      exact woven.older i n found
  own i n' found' l mem own := by
    rcases back_grows grows found' with ⟨rfl, rfl⟩ | ⟨n, found, rfl⟩
    · rw [child.links] at mem
      cases mem
    · rcases mem_links_withChild.mp mem with mem | ⟨rfl, rfl⟩
      · obtain ⟨t, reached, parent⟩ := woven.own i n found l mem own
        refine ⟨_, forth_grows grows reached, ?_⟩
        rw [withChild_eq]
        exact parent
      · refine ⟨m, attached?_eq_some_iff.mpr ⟨grows.node_new, child.attached⟩, ?_⟩
        rw [child.parent_eq, numbered i p (node?_of_attached? holds)]
  alive i n' found' := by
    rcases back_grows grows found' with ⟨rfl, rfl⟩ | ⟨n, found, rfl⟩
    · exact child.dead
    · rw [withChild_eq]
      exact woven.alive i n found
  bare i n' found' left alive := by
    rcases grows.node_cases found' with ⟨rfl, rfl⟩ | ⟨n, found, same⟩
    · exact child.links
    · have apart : i ≠ parent := by
        rintro rfl
        obtain rfl : n = p := eq_of_attached? found holds
        rw [same, ← withChild, withChild_eq] at left
        rw [(attached?_eq_some_iff.mp holds).2] at left
        cases left
      rw [if_neg apart] at same
      rw [same] at left alive ⊢
      exact woven.bare i n found left alive
  named i n' found' l mem own t' target := by
    rcases back_grows grows found' with ⟨rfl, rfl⟩ | ⟨n, found, rfl⟩
    · rw [child.links] at mem
      cases mem
    · rcases mem_links_withChild.mp mem with mem | ⟨rfl, rfl⟩
      · obtain ⟨t, reached, -⟩ := woven.own i n found l mem own
        rw [eq_of_attached? target (forth_grows grows reached), withChild_eq]
        exact woven.named i n found l mem own t (node?_of_attached? reached)
      · rw [Option.some.inj (target.symm.trans grows.node_new)]
        exact child.called
  lent i n' found' l mem lends := by
    rcases back_grows grows found' with ⟨rfl, rfl⟩ | ⟨n, found, rfl⟩
    · rw [child.links] at mem
      cases mem
    · rcases mem_links_withChild.mp mem with mem | ⟨rfl, rfl⟩
      · obtain ⟨t, reached, entry⟩ := woven.lent i n found l mem lends
        refine ⟨_, forth_grows grows reached, ?_⟩
        rw [withChild_eq]
        exact entry
      · cases lends
  noted i n' found' r mem := by
    rcases back_grows grows found' with ⟨rfl, rfl⟩ | ⟨n, found, rfl⟩
    · rw [child.sharedLinks] at mem
      cases mem
    · rw [withChild_eq] at mem
      obtain ⟨k, holds', link⟩ := woven.noted i n found r mem
      exact ⟨_, forth_grows grows holds', mem_links_withChild.mpr (.inl link)⟩
  once i n' found' := by
    rcases back_grows grows found' with ⟨rfl, rfl⟩ | ⟨n, found, rfl⟩
    · rw [child.sharedLinks]
      exact List.nodup_nil
    · rw [withChild_eq]
      exact woven.once i n found
  handed i n' found' unshared := by
    rcases back_grows grows found' with ⟨rfl, rfl⟩ | ⟨n, found, rfl⟩
    · exact child.sharedLinks
    · rw [withChild_eq] at unshared ⊢
      exact woven.handed i n found unshared
  below i n' p' found' foundP' := by
    rcases back_grows grows found' with ⟨rfl, rfl⟩ | ⟨n, found, rfl⟩
    · rw [child.parent_eq, numbered parent p (node?_of_attached? holds), forth_grows grows holds]
        at foundP'
      obtain rfl := Option.some.inj foundP'
      rw [child.called]
      exact mem_links_withChild.mpr (.inr ⟨rfl, rfl⟩)
    · rw [withChild_eq] at foundP' ⊢
      rcases back_grows grows foundP' with ⟨new, -⟩ | ⟨p, foundP, rfl⟩
      -- No old node is the child of the new one, which is younger.
      · have older : @LT.lt Nat _ n.parent i := woven.older i n (node?_of_attached? found)
        have inside := le_size_of_node? (node?_of_attached? found)
        have new : @Eq Nat n.parent (w.nodes.size + 1) := new
        omega
      · exact mem_links_withChild.mpr (.inl (woven.below i n p found foundP))

end Grows

end World

end InterpTree
