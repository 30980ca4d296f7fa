import InterpTree.Proofs.Histories

/-!
Integrity of links. Each link is noted down by its holder and by the node that it leads to, as the
child of a parent or as a node that was shared; the notes agree all along the history of a tree, and
every node has its links in the order in which it got them.
-/

namespace InterpTree

namespace World

variable {w v : World} {i : NodeId} {n : Node} {l : Link} {steps : List TreeStep} {s : TreeStep}

/-- The links of live nodes agree with what their targets know of them. -/
structure HasIntactLinks (w : World) : Prop where
  /-- No name is used twice in the order of the links. -/
  names : ∀ i n, w.live? i = some n → (n.links.map Link.name).Nodup
  /-- Just the links in that order are found by their names. -/
  keys : ∀ i n, w.live? i = some n → ∀ name l, n.link? name = some l ↔ l ∈ n.links ∧ l.name = name
  targets : ∀ i n, w.live? i = some n → ∀ l ∈ n.links, (w.live? l.target).isSome = true
  /-- A link that is not shared leads to a child of that name. -/
  children : ∀ i n, w.live? i = some n → ∀ l ∈ n.links, l.shared = false →
    ∀ t, w.node? l.target = some t → t.parent = i ∧ t.name = l.name
  /-- A shared link of a live node and an entry of its target tell of each other. -/
  entries : ∀ i n t k, w.live? i = some n → w.live? t = some k →
    ∀ name, ⟨name, t, true⟩ ∈ n.links ↔ ⟨i, name⟩ ∈ k.sharedLinks
  /-- No entry is there twice, and each is about a live holder. -/
  holders : ∀ t k, w.live? t = some k → k.sharedLinks.Nodup ∧
    ∀ r ∈ k.sharedLinks, (w.live? r.holder).isSome = true
  /-- The parent of a node links to it by its name. -/
  parents : ∀ i n p, w.live? i = some n → w.live? n.parent = some p →
    p.link? n.name = some ⟨n.name, i, false⟩

theorem link?_eq_some_iff (names : (n.links.map Link.name).Nodup) {name : Text} :
    n.link? name = some l ↔ l ∈ n.links ∧ l.name = name :=
  find?_key_eq_some_iff names

theorem IsWoven.live?_eq (woven : w.IsWoven) (i : NodeId) : w.live? i = w.attached? i := by
  ext n
  constructor
  · intro live
    obtain ⟨found, isLive⟩ := Option.filter_eq_some_iff.mp live
    exact attached?_eq_some_iff.mpr ⟨found, (Bool.and_eq_true_iff.mp isLive).1⟩
  · intro there
    obtain ⟨found, stays⟩ := attached?_eq_some_iff.mp there
    refine Option.filter_eq_some_iff.mpr ⟨found, ?_⟩
    simp [Node.isLive, stays, woven.alive i n there]

theorem hasIntactLinks_of_isWoven (regular : w.IsRegular) (woven : w.IsWoven) :
    w.HasIntactLinks := by
  have names (i : NodeId) (n : Node) (there : w.attached? i = some n) :
      (n.links.map Link.name).Nodup := regular.names i n (node?_of_attached? there)
  refine {
    names := ?names, keys := ?keys, targets := ?targets, children := ?children
    entries := ?entries, holders := ?holders, parents := ?parents }
  all_goals simp only [woven.live?_eq]
  case names => exact names
  case keys =>
    intro i n there name l
    exact link?_eq_some_iff (names i n there)
  case targets =>
    intro i n there l mem
    cases shared : l.shared with
    | false =>
      obtain ⟨t, reached, -⟩ := woven.own i n there l mem shared
      rw [reached]
      rfl
    | true =>
      obtain ⟨t, reached, -⟩ := woven.lent i n there l mem shared
      rw [reached]
      rfl
  case children =>
    intro i n there l mem unshared t found
    obtain ⟨t', reached, parent⟩ := woven.own i n there l mem unshared
    obtain rfl : t = t' := eq_of_attached? found reached
    exact ⟨parent, woven.named i n there l mem unshared t found⟩
  case entries =>
    intro i n t k holds reached name
    constructor
    · intro mem
      obtain ⟨k', reached', entry⟩ := woven.lent i n holds _ mem rfl
      obtain rfl : k = k' := Option.some.inj (reached.symm.trans reached')
      exact entry
    · intro mem
      obtain ⟨n', holds', link⟩ := woven.noted t k reached _ mem
      obtain rfl : n = n' := Option.some.inj (holds.symm.trans holds')
      exact link
  case holders =>
    intro t k reached
    constructor
    · exact woven.once t k reached
    · intro r mem
      obtain ⟨h, holds, -⟩ := woven.noted t k reached r mem
      rw [holds]
      rfl
  case parents =>
    intro i n p there above
    exact (link?_eq_some_iff (names n.parent p above)).mpr ⟨woven.below i n p there above, rfl⟩

theorem hasIntactLinks_of_isOver (ended : w.IsOver) : w.HasIntactLinks := by
  have none (i : NodeId) : w.live? i = none := by
    cases live : w.live? i with
    | none => rfl
    | some n =>
      obtain ⟨found, isLive⟩ := Option.filter_eq_some_iff.mp live
      have there := attached?_eq_some_iff.mpr ⟨found, (Bool.and_eq_true_iff.mp isLive).1⟩
      rw [ended i] at there
      cases there
  constructor
  all_goals simp [none]

theorem IsKept.hasIntactLinks (kept : w.IsKept) : w.HasIntactLinks := by
  cases kept with
  | tended regular woven => exact hasIntactLinks_of_isWoven regular woven
  | ended _ ended => exact hasIntactLinks_of_isOver ended

/-! ### The order of links -/

/-- The links of a node, in their order. -/
def linksOf (w : World) (i : NodeId) : List Link := ((w.node? i).map Node.links).getD []

theorem linksOf_eq (found : w.node? i = some n) : w.linksOf i = n.links := by
  rw [linksOf, found]
  rfl

theorem sublist_linksOf {P : NodeId → Node → Node → Prop} (each : Each P w v)
    (fewer : ∀ i n n', P i n n' → n'.links.Sublist n.links) (i : NodeId) :
    (v.linksOf i).Sublist (w.linksOf i) := by
  cases found' : v.node? i with
  | none =>
    rw [linksOf, found']
    exact List.nil_sublist _
  | some n' =>
    obtain ⟨n, found, change⟩ := each.node_back found'
    rw [linksOf_eq found', linksOf_eq found]
    exact fewer i n n' change

/-- A step takes links away from a node, or adds one that it does not have at the end. -/
theorem linksOf_step (kept : w.IsKept) (fits : s.Fits w) (i : NodeId) :
    ((s.apply w).linksOf i).Sublist (w.linksOf i) ∨
      ∃ l, (s.apply w).linksOf i = w.linksOf i ++ [l] ∧ l ∉ w.linksOf i := by
  cases s with
  | op o =>
    cases kept with
    | ended numbered ended =>
      have same : (TreeStep.op o).apply w = w := o.apply_of_isOver ended numbered fits
      rw [same]
      exact .inl (.refl _)
    | tended regular woven =>
      change ((o.apply w).linksOf i).Sublist _ ∨ ∃ l, (o.apply w).linksOf i = _ ∧ _
      cases found' : (o.apply w).node? i with
      | none =>
        left
        rw [linksOf, found']
        exact List.nil_sublist _
      | some n' =>
        rw [linksOf_eq found']
        rcases (o.turns regular).links_cases found' with
          none | ⟨n, found, fewer | ⟨l, more, -, free⟩⟩
        · left
          rw [none]
          exact List.nil_sublist _
        · left
          rw [linksOf_eq found]
          exact fewer
        · right
          rw [linksOf_eq found]
          -- The name of the new link was free, so that the link itself was not there.
          refine ⟨l, more, fun mem => ?_⟩
          have apart := List.find?_eq_none.mp (Option.isNone_iff_eq_none.mp free) l mem
          exact apart (beq_self_eq_true _)
  | close =>
    left
    change (w.close.linksOf i).Sublist _
    rcases close_cases kept.numbered with same | ⟨wanes, -⟩
    · rw [same]
    · exact sublist_linksOf wanes.nodes (fun _ _ _ wanes => wanes.1.links) i
  | aside f =>
    left
    exact sublist_linksOf (v := f w) fits (fun _ _ _ keep => keep.fewer) i

/-- Node `i` got the link `l` before `l'`: at some moment it did not have `l'`, and from then on it
always had `l`. -/
def GotBefore (w : World) (steps : List TreeStep) (i : NodeId) (l l' : Link) : Prop :=
  ∃ pre, pre <+: steps ∧ l' ∉ (w.along pre).linksOf i ∧
    ∀ mid, pre <+: mid → mid <+: steps → l ∈ (w.along mid).linksOf i

theorem GotBefore.concat {l' : Link} (before : w.GotBefore steps i l l')
    (stays : l ∈ (w.along (steps ++ [s])).linksOf i) : w.GotBefore (steps ++ [s]) i l l' := by
  obtain ⟨pre, start, absent, lasts⟩ := before
  refine ⟨pre, start.trans (List.prefix_append _ _), absent, fun mid later sub => ?_⟩
  rcases List.prefix_concat_iff.mp sub with rfl | sub
  · exact stays
  · exact lasts mid later sub

theorem gotBefore_new {l' : Link} (old : l ∈ (w.along steps).linksOf i)
    (stays : l ∈ (w.along (steps ++ [s])).linksOf i) (absent : l' ∉ (w.along steps).linksOf i) :
    w.GotBefore (steps ++ [s]) i l l' := by
  refine ⟨steps, List.prefix_append _ _, absent, fun mid later sub => ?_⟩
  rcases List.prefix_concat_iff.mp sub with rfl | sub
  · exact stays
  · obtain rfl : steps = mid := later.eq_of_length_le sub.length_le
    exact old

/-- The links of a node stand in the order in which it got them: only the last one can be new. -/
theorem pairwise_gotBefore (kept : w.IsKept) (none : ∀ i, w.linksOf i = [])
    (admits : w.Admits steps) (i : NodeId) :
    ((w.along steps).linksOf i).Pairwise (w.GotBefore steps i) := by
  induction steps using List.reverseRecOn with
  | nil =>
    change (w.linksOf i).Pairwise _
    rw [none]
    exact .nil
  | append_singleton steps s ih =>
    obtain ⟨admits, fits⟩ := admits_concat.mp admits
    have ordered := ih admits
    rcases linksOf_step (kept.along admits) fits i with fewer | ⟨l, more, absent⟩
    all_goals rw [← along_concat] at *
    · refine (ordered.sublist fewer).imp_of_mem fun stays _ before => before.concat stays
    · have stays {k : Link} (mem : k ∈ (w.along steps).linksOf i) :
          k ∈ (w.along (steps ++ [s])).linksOf i := by
        rw [more]
        exact List.mem_append_left _ mem
      have old : ((w.along steps).linksOf i).Pairwise (w.GotBefore (steps ++ [s]) i) :=
        ordered.imp_of_mem fun mem _ before => before.concat (stays mem)
      rw [more]
      refine List.pairwise_append.mpr ⟨old, List.pairwise_singleton _ _, fun k mem l' new => ?_⟩
      obtain rfl := List.mem_singleton.mp new
      exact gotBefore_new mem (stays mem) absent

/-- In all that comes of a fresh tree, the links of live nodes agree with what their targets know of
them, and stand in the order in which their holders got them. -/
theorem links_intact_from_plant {settings : Settings} {host : Host}
    (planted : plant settings host = .ok w) (admits : w.Admits steps) :
    (w.along steps).HasIntactLinks ∧
      ∀ i, ((w.along steps).linksOf i).Pairwise (w.GotBefore steps i) := by
  have kept := isKept_plant planted
  refine ⟨(kept.along admits).hasIntactLinks, pairwise_gotBefore kept (fun i => ?_) admits⟩
  obtain ⟨n, isNew, -, -, -, only⟩ := plant_root planted
  cases found : w.node? i with
  | none =>
    rw [linksOf, found]
    rfl
  | some m =>
    obtain ⟨-, rfl⟩ := only i m found
    rw [linksOf_eq found]
    exact isNew.links

/-- A node is shared into two others and loses its parent; then one of the links to it is deleted,
and a safe child made in the node itself. -/
def tended : List TreeStep :=
  [.op (.create root [] "p" {}), .op (.create root [] "h" {}), .op (.create root "p" "x" {}),
    .op (.share root "h" "p.x"), .op (.share root [] "p.x"), .op (.delete none root "p"),
    .op (.delete none root "h.shared4"), .op (.create 4 [] "y" { safe := true }),
    .aside fun w => { w with clock := w.clock + 1 }]

theorem links_intact_from_plant_tended :
    ∃ w, plant {} {} = .ok w ∧ w.Admits tended ∧ (w.along tended).HasIntactLinks ∧
      (∀ i, ((w.along tended).linksOf i).Pairwise (w.GotBefore tended i)) ∧
      (w.along tended).linksOf root = [⟨"h", 3, false⟩, ⟨"shared4", 4, true⟩] := by
  have calm (w : World) : TreeStep.Fits (.aside fun w => { w with clock := w.clock + 1 }) w :=
    ⟨rfl, fun i n found => ⟨n, found, .refl n⟩⟩
  have admits : sapling.Admits tended :=
    ⟨.op (by decide), .op (by decide), .op (by decide), .op (by decide), .op (by decide),
      .op (by decide), .op (by decide), .op (by decide), calm _, trivial⟩
  obtain ⟨intact, ordered⟩ := links_intact_from_plant plant_sapling admits
  exact ⟨_, plant_sapling, admits, intact, ordered, by decide⟩

end World

end InterpTree
