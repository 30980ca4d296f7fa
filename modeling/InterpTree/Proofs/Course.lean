import Mathlib.Data.List.Induction
import Mathlib.Logic.Relation
import InterpTree.Proofs.Growth
import InterpTree.Proofs.PathNames

/-!
Courses of a tree: what any sequence of making, removing and sharing nodes comes to. One step is one
of a few kinds, which `Turns` lists; what holds of every kind holds along every course.
-/

namespace InterpTree

/-- An operation that makes, removes or links nodes, with the node that asks for it and, where it
matters, the node on whose worker it runs. -/
inductive TreeOp
  | create (caller : NodeId) (path name : Text) (options : CreateOptions)
  | delete (worker : Option NodeId) (caller : NodeId) (path : Text)
  | share (caller : NodeId) (path source : Text)
  | dispose (worker : Option NodeId) (caller : NodeId) (path : Text)
deriving DecidableEq

namespace TreeOp

/-- What the operation does, whatever it gives back. -/
def run : TreeOp → Op Unit
  | create caller path name options => do
    let _ ← Op.create caller path name options
  | delete worker caller path => Op.delete worker caller path
  | share caller path source => do
    let _ ← Op.shareInterp caller path source
  | dispose worker caller path => Op.disposeShared worker caller path

/-- The world after the operation, also if it was refused. -/
def apply (o : TreeOp) (w : World) : World :=
  match o.run w with
  | .ok _ v => v
  | .error _ v => v

/-- Whether the operation is for taking something away. -/
def isRemoval : TreeOp → Bool
  | create .. | share .. => false
  | delete .. | dispose .. => true

/-- The operation links `shared` into `holder`. -/
def Shares (o : TreeOp) (w : World) (holder shared : NodeId) : Prop :=
  ∃ caller path source name v, o = .share caller path source ∧
    Op.shareInterp caller path source w = .ok name v ∧
    w.resolve? caller path = some holder ∧ w.resolve? caller source = some shared

end TreeOp

namespace World

/-- The world after some operations, one after the other. -/
def course (w : World) (ops : List TreeOp) : World := ops.foldl (fun w o => o.apply w) w

/-- Node `a` has a link to `b`. -/
def LinksTo (w : World) (a b : NodeId) : Prop :=
  ∃ n, w.node? a = some n ∧ ∃ l ∈ n.links, l.target = b

instance (w : World) (a b : NodeId) : Decidable (w.LinksTo a b) :=
  decidable_of_iff ((w.node? a).any fun n => n.links.any fun l => l.target = b) (by
    simp [LinksTo, Option.any_eq_true])

/-- One node leads to another over any number of links. -/
def LeadsTo (w : World) : NodeId → NodeId → Prop := Relation.ReflTransGen w.LinksTo

/-- The root is there for good: it has no parent, was never handed over, and its path is empty. -/
def IsRooted (w : World) : Prop :=
  ∃ r, w.node? root = some r ∧ r.isRoot = true ∧ r.shared = false ∧ r.isLive = true ∧ r.path = []

/-- What links look like: they lead to nodes other than the root, and those of a node have valid
names, all different. -/
structure IsRegular (w : World) : Prop where
  numbered : w.IsNumbered
  rooted : w.IsRooted
  targets : ∀ a b, w.LinksTo a b → root < b ∧ b ≤ w.nodes.size
  names : ∀ i n, w.node? i = some n → (n.links.map Link.name).Nodup
  valid : ∀ i n, w.node? i = some n → ∀ l ∈ n.links, isValidName l.name = true

/-- What one operation does to the tree. -/
inductive Turns (o : TreeOp) (w v : World) : Prop
  | refused (same : v = w)
  /-- A node that could not be populated. -/
  | spoiled (parent : NodeId) (trust : Trust) (n m : Node) (gains : Gains m w v)
      (isNew : n.IsNew (w.nodes.size + 1) parent trust) (strips : n.Strips n m)
  /-- A child. -/
  | grown (options : CreateOptions) (name : Text) (caller parent : NodeId) (c p m : Node)
      (valid : isValidName name = true) (asker : w.node? caller = some c)
      (reached : ∃ path, w.resolve? caller path = some parent)
      (found : w.node? parent = some p) (free : (p.link? name).isNone = true)
      (grows : Grows parent name m w v) (child : Op.IsChild options name c p (w.nodes.size + 1) m)
  | linked (holder shared : NodeId) (h s : Node) (shares : o.Shares w holder shared)
      (found : w.node? holder = some h) (foundShared : w.node? shared = some s)
      (notRoot : s.isRoot = false) (free : (h.link? (Op.sharedName shared)).isNone = true)
      (changes : Changes (Op.SharesAt holder shared) w v)
  /-- A removal of nodes other than the root. -/
  | waned (removal : o.isRemoval = true) (wanes : Wanes (· ≠ root) w v)

end World

namespace TreeOp

variable {w : World}

/-- Whatever holds of the end of an operation holds of the world after it. -/
theorem apply_of_ends {P : World → Prop} {o : TreeOp} (h : Ends o.run w fun _ v => P v) :
    P (o.apply w) := by
  unfold Ends at h
  unfold apply
  split at h <;> simp_all

theorem apply_share {caller : NodeId} {path source : Text} {r : EStateM.Result Fault World Text}
    (result : Op.shareInterp caller path source w = r) :
    (share caller path source).apply w =
      match r with
      | .ok _ v => v
      | .error _ v => v := by
  simp only [apply, run, bind, EStateM.bind, result]
  cases r <;> rfl

/-- What sharing does when it is not refused. -/
theorem shared_of_ok {caller : NodeId} {path source name : Text} {v : World}
    (numbered : w.IsNumbered) (result : Op.shareInterp caller path source w = .ok name v) :
    ∃ holder shared h s, (share caller path source).Shares w holder shared ∧
      w.node? holder = some h ∧ w.node? shared = some s ∧ s.isRoot = false ∧
      (h.link? (Op.sharedName shared)).isNone = true ∧
      World.Changes (Op.SharesAt holder shared) w ((share caller path source).apply w) := by
  have settled := Op.settles_shareInterp caller path source numbered
  simp only [Settles, Ends, result] at settled
  rcases settled with ⟨-, f, refused⟩ | ⟨-, shared, holder, h, toShared, toHolder, found,
    ⟨s, foundShared, notRoot⟩, -, free, -, changes⟩
  · cases refused
  · refine ⟨holder, shared, h, s, ⟨caller, path, source, name, v, rfl, result, toHolder, toShared⟩,
      found, foundShared, notRoot, free, ?_⟩
    rw [apply_share result]
    exact changes

theorem turns (o : TreeOp) (regular : w.IsRegular) : w.Turns o (o.apply w) := by
  have numbered := regular.numbered
  have closed : w.IsClosed (· ≠ World.root) := fun i n found _ l mem =>
    Nat.ne_of_gt (regular.targets i l.target ⟨n, found, l, mem, rfl⟩).1
  obtain ⟨q, foundR, isRoot, unshared, -⟩ := regular.rooted
  cases o with
  | create caller path name options =>
    refine apply_of_ends (Ends.bind (Op.settles_create caller path name options numbered)
      (fun a v h => ?_) fun f v h => ?_)
    · rcases h with ⟨-, f, refused⟩ | ⟨c, p, parent, m, asker, valid, reached, found, free, made⟩
      · cases refused
      · rcases made with ⟨-, grows, child⟩ | ⟨⟨f, refused⟩, -⟩
        · exact .grown options name caller parent c p m valid asker ⟨path, reached⟩ found free grows
            child
        · cases refused
    · rcases h with ⟨same, -⟩ | ⟨c, p, parent, m, -, -, -, -, -, made⟩
      · exact .refused same
      · rcases made with ⟨refused, -⟩ | ⟨-, gains, n, isNew, -, -, strips, -⟩
        · cases refused
        · exact .spoiled parent _ n m gains isNew strips
  | delete worker caller path =>
    refine apply_of_ends ((Op.settles_delete worker caller path numbered).mono fun r v h => ?_)
    rcases h with ⟨same, -⟩ | ⟨-, target, t, -, found, notRoot, -, wanes⟩
    · exact .refused same
    · refine .waned rfl (wanes _ closed ?_)
      rintro rfl
      obtain rfl : t = q := Option.some.inj (found.symm.trans foundR)
      rw [isRoot] at notRoot
      cases notRoot
  | share caller path source =>
    cases result : Op.shareInterp caller path source w with
    | ok name v =>
      obtain ⟨holder, shared, h, s, shares, found, foundShared, notRoot, free, changes⟩ :=
        shared_of_ok numbered result
      exact .linked holder shared h s shares found foundShared notRoot free changes
    | error f v =>
      have settled := Op.settles_shareInterp caller path source numbered
      simp only [Settles, Ends, result] at settled
      rcases settled with ⟨same, -⟩ | ⟨-, _, _, _, -, -, -, -, -, -, refused, -⟩
      · exact .refused ((apply_share result).trans same)
      · cases refused
  | dispose worker caller path =>
    refine apply_of_ends ((Op.settles_disposeShared worker caller path numbered).mono
      fun r v h => ?_)
    rcases h with ⟨same, -⟩ | ⟨-, -, target, t, -, found, handed, -, wanes⟩
    · exact .refused same
    · refine .waned rfl (wanes _ closed ?_)
      rintro rfl
      obtain rfl : t = q := Option.some.inj (found.symm.trans foundR)
      rw [unshared] at handed
      cases handed

end TreeOp

namespace World

variable {w v : World} {o : TreeOp}

/-- The last link of a list of links with one more. -/
theorem nodup_names_append {links : List Link} {l : Link} (names : (links.map Link.name).Nodup)
    (free : (links.find? fun k => k.name == l.name).isNone = true) :
    ((links ++ [l]).map Link.name).Nodup := by
  rw [List.map_append, List.nodup_append]
  refine ⟨names, by simp, ?_⟩
  intro a old b last same
  obtain ⟨k, mem, rfl⟩ := List.mem_map.mp old
  have none := List.find?_eq_none.mp (Option.isNone_iff_eq_none.mp free) k mem
  simp only [List.map_cons, List.map_nil, List.mem_singleton] at last
  exact none (by rw [same, last]; exact beq_self_eq_true _)

theorem LinksTo.node? {a b : NodeId} (h : w.LinksTo a b) : ∃ n, w.node? a = some n :=
  ⟨h.choose, h.choose_spec.1⟩

/-- A node that could not be populated brings no links. -/
theorem Gains.linksTo_iff {m : Node} (h : Gains m w v) (none : m.links = []) {a b : NodeId} :
    v.LinksTo a b ↔ w.LinksTo a b := by
  constructor
  · rintro ⟨n', found', l, mem, rfl⟩
    rcases h.node_cases found' with ⟨rfl, rfl⟩ | found
    · rw [none] at mem
      cases mem
    · exact ⟨n', found, l, mem, rfl⟩
  · rintro ⟨n, found, l, mem, rfl⟩
    exact ⟨n, h.old found, l, mem, rfl⟩

/-- The links after a child was made are those from before and the one to the child. -/
theorem Grows.linksTo_iff {parent : NodeId} {name : Text} {m p : Node} (h : Grows parent name m w v)
    (none : m.links = []) (found : w.node? parent = some p) {a b : NodeId} :
    v.LinksTo a b ↔ w.LinksTo a b ∨ (a = parent ∧ b = w.nodes.size + 1) := by
  constructor
  · rintro ⟨n', found', l, mem, rfl⟩
    rcases h.link_cases none found' mem with ⟨n, foundN, old⟩ | ⟨isParent, rfl⟩
    · exact .inl ⟨n, foundN, l, old, rfl⟩
    · exact .inr ⟨isParent, rfl⟩
  · rintro (⟨n, foundN, l, mem, rfl⟩ | ⟨rfl, rfl⟩)
    · refine ⟨_, h.node_old foundN, l, ?_, rfl⟩
      split
      · exact List.mem_append_left _ mem
      · exact mem
    · refine ⟨_, h.node_old found, ⟨name, w.nodes.size + 1, false⟩, ?_, rfl⟩
      rw [if_pos rfl]
      exact List.mem_append_right _ List.mem_cons_self

/-- A link after a node was shared was there before, or is the one that it is shared by. -/
theorem link_cases_of_shares {holder shared : NodeId} (h : Changes (Op.SharesAt holder shared) w v)
    {i : NodeId} {n' : Node} {l : Link} (found' : v.node? i = some n') (mem : l ∈ n'.links) :
    (∃ n, w.node? i = some n ∧ l ∈ n.links) ∨
      i = holder ∧ l = ⟨Op.sharedName shared, shared, true⟩ := by
  obtain ⟨n, found, change⟩ := h.nodes.node_back found'
  rw [change] at mem
  dsimp only at mem
  split at mem
  · rename_i isHolder
    rcases List.mem_append.mp mem with old | new
    · exact .inl ⟨n, found, old⟩
    · exact .inr ⟨isHolder, List.mem_singleton.mp new⟩
  · exact .inl ⟨n, found, mem⟩

/-- The links after a node was shared are those from before and the one that it is shared by. -/
theorem linksTo_iff_of_shares {holder shared : NodeId} {k : Node}
    (h : Changes (Op.SharesAt holder shared) w v) (found : w.node? holder = some k)
    {a b : NodeId} : v.LinksTo a b ↔ w.LinksTo a b ∨ (a = holder ∧ b = shared) := by
  constructor
  · rintro ⟨n', found', l, mem, rfl⟩
    rcases link_cases_of_shares h found' mem with ⟨n, foundN, old⟩ | ⟨isHolder, rfl⟩
    · exact .inl ⟨n, foundN, l, old, rfl⟩
    · exact .inr ⟨isHolder, rfl⟩
  · rintro (⟨n, foundN, l, mem, rfl⟩ | ⟨rfl, rfl⟩)
    · obtain ⟨n', found', change⟩ := h.nodes.node a n foundN
      refine ⟨n', found', l, ?_, rfl⟩
      rw [change]
      dsimp only
      split
      · exact List.mem_append_left _ mem
      · exact mem
    · obtain ⟨n', found', change⟩ := h.nodes.node _ k found
      refine ⟨n', found', ⟨Op.sharedName b, b, true⟩, ?_, rfl⟩
      rw [change]
      dsimp only
      rw [if_pos rfl]
      exact List.mem_append_right _ List.mem_cons_self

/-- Removals add no links. -/
theorem Wanes.linksTo {Z : NodeId → Prop} (h : Wanes Z w v) {a b : NodeId} (links : v.LinksTo a b) :
    w.LinksTo a b := by
  obtain ⟨n', found', l, mem, rfl⟩ := links
  obtain ⟨n, found, fades, -⟩ := h.nodes.node_back found'
  exact ⟨n, found, l, fades.links.subset mem, rfl⟩

/-- The links of a node after an operation: none if it is new, else fewer than before, or one more
with a valid name that no link had. -/
theorem Turns.links_cases (h : w.Turns o v) {i : Nat} {n' : Node} (found' : v.node? i = some n') :
    n'.links = [] ∨ ∃ n, w.node? i = some n ∧
      (n'.links.Sublist n.links ∨
        ∃ l, n'.links = n.links ++ [l] ∧ isValidName l.name = true ∧
          (n.link? l.name).isNone = true) := by
  cases h with
  | refused same => exact .inr ⟨n', same ▸ found', .inl (.refl _)⟩
  | spoiled parent trust n m gains isNew strips =>
    rcases gains.node_cases found' with ⟨rfl, rfl⟩ | found
    · exact .inl (strips_links_nil isNew strips)
    · exact .inr ⟨n', found, .inl (.refl _)⟩
  | grown options name caller parent c p m valid asker reached foundP free grows child =>
    rcases grows.node_cases found' with ⟨rfl, rfl⟩ | ⟨n, found, rfl⟩
    · exact .inl child.links
    · refine .inr ⟨n, found, ?_⟩
      split
      · rename_i isParent
        subst isParent
        obtain rfl : n = p := Option.some.inj (found.symm.trans foundP)
        exact .inr ⟨_, rfl, valid, free⟩
      · exact .inl (.refl _)
  | linked holder shared h s shares foundH foundS notRoot free changes =>
    obtain ⟨n, found, change⟩ := changes.nodes.node_back found'
    refine .inr ⟨n, found, ?_⟩
    rw [change]
    dsimp only
    split
    · rename_i isHolder
      subst isHolder
      obtain rfl : n = h := Option.some.inj (found.symm.trans foundH)
      exact .inr ⟨_, rfl, isValidName_shared shared, free⟩
    · exact .inl (.refl _)
  | waned removal wanes =>
    obtain ⟨n, found, fades, -⟩ := wanes.nodes.node_back found'
    exact .inr ⟨n, found, .inl fades.links⟩

theorem Turns.size_le (h : w.Turns o v) : w.nodes.size ≤ v.nodes.size := by
  cases h with
  | refused same => exact same ▸ Nat.le_refl _
  | spoiled _ _ _ _ gains => exact gains.size ▸ Nat.le_succ _
  | grown _ _ _ _ _ _ _ _ _ _ _ _ grows => exact grows.size ▸ Nat.le_succ _
  | linked _ _ _ _ _ _ _ _ _ changes => exact Nat.le_of_eq changes.nodes.size.symm
  | waned _ wanes => exact Nat.le_of_eq wanes.nodes.size.symm

theorem Turns.isNumbered (h : w.Turns o v) (numbered : w.IsNumbered) : v.IsNumbered := by
  cases h with
  | refused same => exact same ▸ numbered
  | spoiled parent trust n m gains isNew strips =>
    exact gains.isNumbered (strips.id.trans isNew.id) numbered
  | grown options name caller parent c p m valid asker reached foundP free grows child =>
    exact grows.isNumbered child.id_eq numbered
  | linked holder shared _ _ _ _ _ _ _ changes =>
    exact changes.nodes.isNumbered (fun i n n' change => by rw [change]) numbered
  | waned removal wanes =>
    exact wanes.nodes.isNumbered (fun i n n' fades => fades.1.id) numbered

theorem Turns.isRooted (h : w.Turns o v) (rooted : w.IsRooted) : v.IsRooted := by
  obtain ⟨r, found, isRoot, unshared, live, path⟩ := rooted
  cases h with
  | refused same => exact ⟨r, same ▸ found, isRoot, unshared, live, path⟩
  | spoiled parent trust n m gains isNew strips =>
    exact ⟨r, gains.old found, isRoot, unshared, live, path⟩
  | grown options name caller parent c p m valid asker reached foundP free grows child =>
    refine ⟨_, grows.node_old found, ?_⟩
    split <;> exact ⟨isRoot, unshared, live, path⟩
  | linked holder shared h s shares foundH foundS notRoot free changes =>
    obtain ⟨r', found', change⟩ := changes.nodes.node _ r found
    have other : root ≠ shared := by
      rintro rfl
      obtain rfl : s = r := Option.some.inj (foundS.symm.trans found)
      rw [isRoot] at notRoot
      cases notRoot
    rw [Op.SharesAt, if_neg other] at change
    refine ⟨r', found', ?_⟩
    rw [change]
    exact ⟨isRoot, unshared, live, path⟩
  | waned removal wanes =>
    obtain ⟨r', found', -, outside⟩ := wanes.nodes.node _ r found
    refine ⟨r', found', ?_⟩
    rw [outside fun other => other rfl]
    exact ⟨isRoot, unshared, live, path⟩

/-- What links look like stays so under every operation. -/
theorem Turns.isRegular (h : w.Turns o v) (regular : w.IsRegular) : v.IsRegular := by
  refine ⟨h.isNumbered regular.numbered, h.isRooted regular.rooted, fun a b links => ?_,
    fun i n' found' => ?_, fun i n' found' => ?_⟩
  · have older (old : w.LinksTo a b) : root < b ∧ b ≤ v.nodes.size :=
      ⟨(regular.targets a b old).1, Nat.le_trans (regular.targets a b old).2 h.size_le⟩
    cases h with
    | refused same => exact older (same ▸ links)
    | spoiled parent trust n m gains isNew strips =>
      exact older ((gains.linksTo_iff (strips_links_nil isNew strips)).mp links)
    | grown options name caller parent c p m valid asker reached foundP free grows child =>
      rcases (grows.linksTo_iff child.links foundP).mp links with old | ⟨-, rfl⟩
      · exact older old
      · have inside := pos_of_node? foundP
        have := le_size_of_node? foundP
        exact ⟨Nat.succ_lt_succ (Nat.lt_of_lt_of_le inside this), Nat.le_of_eq grows.size.symm⟩
    | linked holder shared h s shares foundH foundS notRoot free changes =>
      rcases (linksTo_iff_of_shares changes foundH).mp links with old | ⟨-, rfl⟩
      · exact older old
      · have inside := le_size_of_node? foundS
        refine ⟨Nat.lt_of_le_of_ne (pos_of_node? foundS) ?_,
          Nat.le_trans inside (Nat.le_of_eq changes.nodes.size.symm)⟩
        rintro rfl
        obtain ⟨r, foundR, isRoot, -⟩ := regular.rooted
        obtain rfl : s = r := Option.some.inj (foundS.symm.trans foundR)
        rw [isRoot] at notRoot
        cases notRoot
    | waned removal wanes =>
      exact older (wanes.linksTo links)
  · rcases h.links_cases found' with none | ⟨n, found, fewer | ⟨l, more, -, free⟩⟩
    · rw [none]
      exact List.nodup_nil
    · exact (fewer.map Link.name).nodup (regular.names i n found)
    · rw [more]
      exact nodup_names_append (regular.names i n found) free
  · rcases h.links_cases found' with none | ⟨n, found, fewer | ⟨l, more, valid, -⟩⟩
    · rw [none]
      exact fun _ mem => absurd mem List.not_mem_nil
    · exact fun k mem => regular.valid i n found k (fewer.subset mem)
    · rw [more]
      intro k mem
      rcases List.mem_append.mp mem with old | new
      · exact regular.valid i n found k old
      · exact List.mem_singleton.mp new ▸ valid

/-- A fresh tree holds its root, which starts like any new node, and nothing else. -/
theorem plant_root {settings : Settings} {host : Host} (h : plant settings host = .ok w) :
    ∃ n : Node, n.IsNew root 0 {} ∧ n.path = [] ∧ n.dead = false ∧
      w.node? root = some { n with attached := true } ∧
      ∀ i m, w.node? i = some m → i = root ∧ m = { n with attached := true } := by
  obtain ⟨n, m, gains, isNew, -, path, -, alive, made⟩ :=
    gains_introduce [] 0 [] {} ({ settings, host } : World)
  unfold plant at h
  cases introduced : ({ settings, host } : World).introduce [] 0 [] {} with
  | mk result u =>
    rw [introduced] at h gains made
    rcases made with ⟨rfl, rfl⟩ | ⟨⟨f, rfl⟩, -⟩
    · obtain rfl := Except.ok.inj h
      have foundRoot := node?_modifyNode_same (fun n => { n with attached := true }) gains.new
      refine ⟨m, isNew, path, alive, foundRoot, fun i k found => ?_⟩
      by_cases isRoot : i = root
      · subst isRoot
        exact ⟨rfl, Option.some.inj (found.symm.trans foundRoot)⟩
      · have old := node?_modifyNode_ne (w := u) (fun n => { n with attached := true }) isRoot
        rcases gains.node_cases (old.symm.trans found) with ⟨new, -⟩ | found
        · exact absurd new isRoot
        · cases (node?_eq_some_iff.mp found).2
    · cases h

/-- A tree with nothing unusual about it. -/
def sapling : World := (plant {} {}).toOption.getD {}

theorem plant_sapling : plant {} {} = .ok sapling := by decide +kernel

theorem isRegular_plant {settings : Settings} {host : Host} (h : plant settings host = .ok w) :
    w.IsRegular := by
  obtain ⟨n, isNew, path, alive, found, only⟩ := plant_root h
  refine ⟨fun i m found => ?_, ⟨_, found, ?_⟩, fun a b links => ?_, fun i m found => ?_,
    fun i m found l mem => ?_⟩
  · obtain ⟨rfl, rfl⟩ := only i m found
    exact isNew.id
  · exact ⟨by simp [Node.isRoot, isNew.parent], isNew.shared, by simp [Node.isLive, alive], path⟩
  · obtain ⟨m, found, l, mem, -⟩ := links
    obtain ⟨rfl, rfl⟩ := only a m found
    rw [isNew.links] at mem
    cases mem
  · obtain ⟨rfl, rfl⟩ := only i m found
    rw [isNew.links]
    exact List.nodup_nil
  · obtain ⟨rfl, rfl⟩ := only i m found
    rw [isNew.links] at mem
    cases mem

/-- What every step keeps holds after any of them. -/
theorem foldl_induction {α : Type} {f : World → α → World} {I : World → Prop}
    (step : ∀ w a, I w → I (f w a)) (start : I w) (as : List α) : I (as.foldl f w) := by
  induction as generalizing w with
  | nil => exact start
  | cons a as ih => exact ih (step w a start)

/-- Where each step that `fits` keeps `P` just if it is not a bad one, `P` holds all along just if no
step is bad. -/
theorem foldl_iff {α : Type} {f : World → α → World} {I P : World → Prop} {Fits : α → Prop}
    {Bad : α → World → Prop} (invariant : ∀ w a, I w → I (f w a))
    (step : ∀ w a, Fits a → I w → P w → (P (f w a) ↔ ¬ Bad a w)) (start : I w) (holds : P w)
    (as : List α) (fits : ∀ a ∈ as, Fits a) :
    (∀ pre, pre <+: as → P (pre.foldl f w)) ↔
      ∀ pre a, pre ++ [a] <+: as → ¬ Bad a (pre.foldl f w) := by
  have last {pre : List α} {a : α} (sub : pre ++ [a] <+: as) (before : P (pre.foldl f w)) :
      P ((pre ++ [a]).foldl f w) ↔ ¬ Bad a (pre.foldl f w) := by
    rw [List.foldl_concat]
    exact step _ a (fits a (sub.subset (List.mem_append_right _ List.mem_cons_self)))
      (foldl_induction invariant start pre) before
  constructor
  · intro all pre a sub
    exact (last sub (all pre ((List.prefix_append pre [a]).trans sub))).mp (all _ sub)
  · intro good pre
    induction pre using List.reverseRecOn with
    | nil => exact fun _ => holds
    | append_singleton pre a ih =>
      intro sub
      exact (last sub (ih ((List.prefix_append pre [a]).trans sub))).mpr (good pre a sub)

/-- What every operation keeps holds all along a course. -/
theorem course_induction {I : World → Prop} (step : ∀ w (o : TreeOp), I w → I (o.apply w))
    (start : I w) (ops : List TreeOp) : I (w.course ops) :=
  foldl_induction step start ops

theorem isRegular_course (regular : w.IsRegular) (ops : List TreeOp) :
    (w.course ops).IsRegular :=
  course_induction (I := IsRegular) (fun _ o regular => (o.turns regular).isRegular regular) regular
    ops

/-- Where each step keeps `P` just if it is not a bad one, `P` holds all along a course just if no
step of it is bad. -/
theorem course_iff {I P : World → Prop} {Bad : TreeOp → World → Prop}
    (invariant : ∀ w (o : TreeOp), I w → I (o.apply w))
    (step : ∀ w (o : TreeOp), I w → P w → (P (o.apply w) ↔ ¬ Bad o w)) (start : I w) (holds : P w)
    (ops : List TreeOp) :
    (∀ pre, pre <+: ops → P (w.course pre)) ↔
      ∀ pre o, pre ++ [o] <+: ops → ¬ Bad o (w.course pre) :=
  foldl_iff invariant (fun w o (_ : True) => step w o) start holds ops fun _ _ => trivial

end World

end InterpTree
