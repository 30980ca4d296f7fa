import InterpTree.Engine.Run
import InterpTree.Proofs.Histories
import InterpTree.Proofs.Paths
import InterpTree.Proofs.TrustChanges
import InterpTree.Proofs.Vetting

/-!
Whether safety is handed down. A child of a safe node is made safe, so all that a safe node reaches is
safe as long as nobody marks a node safe that has unsafe nodes below it already, or shares an unsafe
node into a safe one. Those two are what can break it.
-/

namespace InterpTree

/-- An operation on the tree, or a change of the trust of a node. -/
inductive TrustOp
  | tree (o : TreeOp)
  | change (caller : NodeId) (path : Text) (c : TrustChange)
deriving DecidableEq

namespace TrustOp

/-- The world after the operation, also if it was refused. -/
def apply : TrustOp → World → World
  | tree o => o.apply
  | change caller path c => c.apply caller path

/-- The operation does not take back the mark of safety. -/
def KeepsSafe (o : TrustOp) : Prop := ∀ caller path, o ≠ .change caller path (.safe false)

instance (o : TrustOp) : Decidable o.KeepsSafe :=
  match o with
  | change caller path (.safe false) => isFalse fun kept => kept caller path rfl
  | change _ _ (.safe true) => isTrue nofun
  | change _ _ (.standard _) => isTrue nofun
  | change _ _ .trusted => isTrue nofun
  | change _ _ (.readOnly _) => isTrue nofun
  | change _ _ (.immutable _) => isTrue nofun
  | tree _ => isTrue nofun

/-- The operation brings an unsafe node below a safe one. -/
inductive Taints (o : TrustOp) (w : World) : Prop
  /-- A node is marked safe that leads to another, which is not. -/
  | marks (caller : NodeId) (path : Text) (v : World) (target b : NodeId) (m : Node)
      (same : o = .change caller path (.safe true))
      (granted : (TrustChange.safe true).run caller path w = .ok () v)
      (resolved : w.resolve? caller path = some target) (leads : w.Leads target b)
      (other : b ≠ target) (found : w.node? b = some m) (exposed : m.trust.safe = false)
  /-- A node that is not safe is shared into one that is. -/
  | shares (t : TreeOp) (holder shared : NodeId) (h s : Node) (same : o = .tree t)
      (shares : t.Shares w holder shared) (found : w.node? holder = some h)
      (safe : h.trust.safe = true) (live : w.live? shared = some s) (exposed : s.trust.safe = false)

end TrustOp

namespace World

variable {w v : World} {a b target : NodeId} {n m : Node}

/-- The world after some operations, one after the other. -/
def guided (w : World) (ops : List TrustOp) : World := ops.foldl (fun w o => o.apply w) w

/-- Every node that a safe node reaches through child links is safe. -/
def IsHereditary (w : World) : Prop :=
  ∀ a b n m, w.node? a = some n → n.trust.safe = true → Relation.ReflTransGen w.Leads a b →
    w.node? b = some m → m.trust.safe = true

/-- It is enough to look at single links. -/
theorem isHereditary_iff (numbered : w.IsNumbered) :
    w.IsHereditary ↔ ∀ a b n m, w.node? a = some n → n.trust.safe = true → w.Leads a b →
      w.node? b = some m → m.trust.safe = true := by
  constructor
  · exact fun h a b n m found safe leads => h a b n m found safe (.single leads)
  · intro single a b n m found safe way
    induction way generalizing m with
    | refl => exact fun here => Option.some.inj (found.symm.trans here) ▸ safe
    | tail _ leads ih =>
      intro there
      obtain ⟨-, ⟨k, foundK, -⟩, -⟩ := leads.linksTo numbered
      exact single _ _ k m foundK (ih k foundK) leads there

/-- Where safety is handed down, a safe node has scripts evaluated in safe nodes, or nowhere. -/
theorem IsHereditary.evaluateIn (hereditary : w.IsHereditary) (numbered : w.IsNumbered)
    (found : w.node? a = some n) (safe : n.trust.safe = true) (e : Engine)
    (context : Option Context) (path script : Text) :
    (∃ b m, w.resolve? a path = some b ∧ w.node? b = some m ∧ m.trust.safe = true ∧
      e.evaluateIn context a path script w =
        ((if b = a then pure none
          else e.vet context { caller := a, target := b, name := "eval", script } Policy.guardsEvaluation) >>=
            e.evaluateVetted context a b path script) w) ∨
      w.resolve? a path = none ∧
        e.evaluateIn context a path script w = .ok (.fail (.noInterpreter path)) w := by
  cases resolved : w.resolve? a path with
  | some b =>
    obtain ⟨m, there, -⟩ := alive_of_resolve? numbered resolved
    exact .inl ⟨b, m, rfl, there, hereditary a b n m found safe (reaches_of_resolve? resolved) there,
      e.evaluateIn_eq_vetted context script resolved⟩
  | none => exact .inr ⟨rfl, e.evaluateIn_of_unresolved context script resolved⟩

end World

/-! ### One operation -/

namespace TrustChange.Takes

variable {w v : World} {c : TrustChange} {caller target : NodeId} {path : Text} {n : Node}

/-- Links are not concerned. -/
theorem sameWays (takes : c.Takes caller path target n w v) : w.SameWays v :=
  takes.amends.each World.composes_sameWays (by rw [c.same_amend n]; exact ⟨rfl, rfl, rfl, rfl⟩)

theorem keeps (takes : c.Takes caller path target n w v) : w.Keeps v :=
  takes.amends.each World.composes_keepsAt (by
    rw [c.same_amend n]
    exact ⟨rfl, rfl, rfl, rfl, rfl, rfl, rfl, rfl, .refl _, fun _ => rfl⟩)

theorem leads_iff (takes : c.Takes caller path target n w v) {a b : NodeId} :
    v.Leads a b ↔ w.Leads a b := by
  simp only [World.Leads, takes.sameWays.child?]

end TrustChange.Takes

namespace World

variable {w v : World} {a b target : NodeId} {n m : Node} {o : TrustOp}

theorem isRegular_trustOp (o : TrustOp) (regular : w.IsRegular) : (o.apply w).IsRegular := by
  cases o with
  | tree o => exact (o.turns regular).isRegular regular
  | change caller path c =>
    rcases c.apply_cases caller path w with ⟨same, -⟩ | ⟨-, target, n, takes⟩
    · rw [TrustOp.apply, same]
      exact regular
    · exact takes.keeps.isRegular regular

/-- A change of trust hands safety down unless it marks a node that leads to an unsafe one. -/
theorem isHereditary_change_iff {caller : NodeId} {path : Text} {c : TrustChange}
    (kept : c ≠ .safe false) (regular : w.IsRegular) (hereditary : w.IsHereditary) :
    (c.apply caller path w).IsHereditary ↔ ¬ (TrustOp.change caller path c).Taints w := by
  rcases c.apply_cases caller path w with ⟨same, f, refused⟩ | ⟨granted, target, n, takes⟩
  · rw [same]
    refine iff_of_true hereditary fun taints => ?_
    cases taints with
    | marks caller path v target b m same granted =>
      cases same
      rw [refused] at granted
      cases granted
    | shares t holder shared h s same => cases same
  · generalize c.apply caller path w = v at granted takes ⊢
    have numbered' := (takes.keeps.isRegular regular).numbered
    -- Who is marked is safe now; what a mark does not concern stays as it was.
    have safe_of_old {i : NodeId} {k k' : Node} (old : w.node? i = some k) (new : v.node? i = some k')
        (safe : k.trust.safe = true) : k'.trust.safe = true := by
      by_cases here : i = target
      · subst here
        obtain rfl : n = k := Option.some.inj (takes.amends.found.symm.trans old)
        obtain rfl : c.amend n = k' := Option.some.inj (takes.amends.node?.symm.trans new)
        rw [c.safe_amend kept, safe, Bool.true_or]
      · rw [takes.amends.node?_ne here, old] at new
        exact Option.some.inj new ▸ safe
    constructor
    · intro hereditary' taints
      cases taints with
      | marks caller path u target' b m same _ resolved leads other found exposed =>
        cases same
        obtain rfl : target = target' := Option.some.inj (takes.resolved.symm.trans resolved)
        have safe := hereditary' target b _ m takes.amends.node? rfl
          (.single (takes.leads_iff.mpr leads)) ((takes.amends.node?_ne other).trans found)
        rw [exposed] at safe
        cases safe
      | shares t holder shared h s same => cases same
    · intro clean
      refine (isHereditary_iff numbered').mpr fun a b k' m' foundA safe leads foundB => ?_
      have leads := takes.leads_iff.mp leads
      obtain ⟨-, ⟨k, oldA, -⟩, m, liveB⟩ := leads.linksTo regular.numbered
      have oldB := (live?_eq_some_iff.mp liveB).1
      cases before : k.trust.safe with
      | true => exact safe_of_old oldB foundB (hereditary a b k m oldA before (.single leads) oldB)
      | false =>
        obtain ⟨rfl, rfl⟩ : a = target ∧ c = .safe true := by
          by_cases here : a = target
          · subst here
            obtain rfl : n = k := Option.some.inj (takes.amends.found.symm.trans oldA)
            obtain rfl : c.amend n = k' := Option.some.inj (takes.amends.node?.symm.trans foundA)
            rw [c.safe_amend kept, before] at safe
            exact ⟨rfl, by simpa using safe⟩
          · rw [takes.amends.node?_ne here, oldA] at foundA
            obtain rfl := Option.some.inj foundA
            rw [before] at safe
            cases safe
        by_cases self : b = a
        · subst self
          obtain rfl := Option.some.inj (takes.amends.node?.symm.trans foundB)
          rfl
        · cases beforeB : m.trust.safe with
          | true => exact safe_of_old oldB foundB beforeB
          | false =>
            exact absurd (.marks caller path v a b m rfl granted takes.resolved leads self oldB
              beforeB) clean

/-- What was shared is led to, if it lives. -/
theorem leads_of_shares {holder shared : NodeId} {h s : Node} (regular : v.IsRegular)
    (changes : Changes (Op.SharesAt holder shared) w v) (found : w.node? holder = some h)
    (alive : h.dead = false) (live : w.live? shared = some s) : v.Leads holder shared := by
  obtain ⟨h', found', change⟩ := changes.nodes.node holder h found
  obtain ⟨foundS, isLive⟩ := live?_eq_some_iff.mp live
  obtain ⟨s', foundS', changeS⟩ := changes.nodes.node shared s foundS
  have links := (linksTo_iff_of_shares changes found).mpr (.inr ⟨rfl, rfl⟩)
  refine leads_of_linksTo (n := h') (t := s') regular found' ?_ links
    (live?_eq_some_iff.mpr ⟨foundS', ?_⟩)
  · rw [change]
    exact alive
  · rw [changeS]
    exact isLive

/-- Sharing hands safety down unless it links an unsafe node into a safe one. -/
theorem isHereditary_share_iff {holder shared : NodeId} (t : TreeOp) (regular : w.IsRegular)
    (hereditary : w.IsHereditary) (shares : t.Shares w holder shared) :
    (t.apply w).IsHereditary ↔ ¬ (TrustOp.tree t).Taints w := by
  have regular' := (t.turns regular).isRegular regular
  have single := (isHereditary_iff regular.numbered).mp hereditary
  rw [isHereditary_iff regular'.numbered]
  obtain ⟨caller, path, source, name, u, rfl, result, -, -⟩ := id shares
  obtain ⟨holder, shared, h, s, shares, foundH, foundS, -, -, changes⟩ :=
    TreeOp.shared_of_ok regular.numbered result
  generalize (TreeOp.share caller path source).apply w = v at regular' changes ⊢
  have trust {i : NodeId} {k k' : Node} (old : w.node? i = some k) (new : v.node? i = some k') :
      k'.trust = k.trust := by
    obtain ⟨m, found, change⟩ := changes.nodes.node i k old
    obtain rfl := Option.some.inj (found.symm.trans new)
    rw [change]
  constructor
  · intro single' taints
    cases taints with
    | marks caller path v target b m same => cases same
    | shares t' holder' shared' h' s' same shares' found safe live exposed =>
      cases same
      obtain ⟨rfl, rfl⟩ := shares.unique shares'
      obtain rfl : h = h' := Option.some.inj (foundH.symm.trans found)
      obtain ⟨_, _, _, _, _, -, -, toHolder, -⟩ := shares
      obtain ⟨k, foundK, alive, -⟩ := alive_of_resolve? regular.numbered toHolder
      obtain rfl : h = k := Option.some.inj (foundH.symm.trans foundK)
      have foundS := (live?_eq_some_iff.mp live).1
      obtain ⟨k', foundH', -⟩ := changes.nodes.node holder h foundH
      obtain ⟨s', foundS', -⟩ := changes.nodes.node shared _ foundS
      have reached := single' holder shared k' s' foundH' (trust foundH foundH' ▸ safe)
        (leads_of_shares regular' changes foundH alive live) foundS'
      rw [trust foundS foundS', exposed] at reached
      cases reached
  · intro clean a b n' m' foundA safe leads foundB
    obtain ⟨n, oldA, -⟩ := changes.nodes.node_back foundA
    obtain ⟨m, oldB, -⟩ := changes.nodes.node_back foundB
    rw [trust oldA foundA] at safe
    rw [trust oldB foundB]
    rcases (extends_of_shares changes).leads_cases regular regular'.numbered
      (fun a b => (linksTo_iff_of_shares changes foundH).mp) leads with old | ⟨rfl, rfl⟩
    · exact single a b n m oldA safe old oldB
    · cases exposed : m.trust.safe with
      | true => rfl
      | false =>
        obtain ⟨-, -, t', live'⟩ := leads.linksTo regular'.numbered
        exact absurd (.shares _ a b n m rfl shares oldA safe
          ((extends_of_shares changes).live? oldB live').1 exposed) clean

/-- All other operations on the tree hand safety down. -/
theorem IsHereditary.turns {t : TreeOp} (hereditary : w.IsHereditary) (regular : w.IsRegular)
    (turns : w.Turns t v) (unshared : ¬ ∃ holder shared, t.Shares w holder shared) :
    v.IsHereditary := by
  have regular' := turns.isRegular regular
  have single := (isHereditary_iff regular.numbered).mp hereditary
  refine (isHereditary_iff regular'.numbered).mpr fun a b n' m' foundA safe leads foundB => ?_
  -- Nodes that were linked before are as safe as they were.
  have older (old : w.Leads a b) (kept : ∀ i n, w.node? i = some n →
      ∃ n', v.node? i = some n' ∧ n'.trust = n.trust) : m'.trust.safe = true := by
    obtain ⟨-, ⟨n, oldA, -⟩, m, liveB⟩ := old.linksTo regular.numbered
    have oldB := (live?_eq_some_iff.mp liveB).1
    obtain ⟨k, foundK, sameA⟩ := kept a n oldA
    obtain rfl : n' = k := Option.some.inj (foundA.symm.trans foundK)
    obtain ⟨k, foundK, sameB⟩ := kept b m oldB
    obtain rfl : m' = k := Option.some.inj (foundB.symm.trans foundK)
    rw [sameB]
    exact single a b n m oldA (sameA ▸ safe) old oldB
  cases turns with
  | refused same =>
    subst same
    exact older leads fun i n found => ⟨n, found, rfl⟩
  | spoiled parent trust n m gains isNew strips =>
    have old := (gains.extends.leads_cases regular regular'.numbered (P := fun _ _ => False)
      (fun a b links => .inl ((gains.linksTo_iff (strips_links_nil isNew strips)).mp links))
      leads).resolve_right id
    exact older old fun i n found => ⟨n, gains.old found, rfl⟩
  | grown options name caller parent c p m valid asker reached found free grows child =>
    rcases grows.extends.leads_cases regular regular'.numbered
      (fun a b => (grows.linksTo_iff child.links found).mp) leads with old | ⟨rfl, rfl⟩
    · refine older old fun i n found => ⟨_, grows.node_old found, ?_⟩
      split <;> rfl
    · obtain rfl := Option.some.inj ((grows.node_old found).symm.trans foundA)
      obtain rfl : m = m' := Option.some.inj (grows.node_new.symm.trans foundB)
      rw [if_pos rfl] at safe
      exact child.safe_of_parent safe
  | linked holder shared h s shares => exact absurd ⟨holder, shared, shares⟩ unshared
  | waned removal wanes =>
    obtain ⟨name, child⟩ := leads
    refine older ⟨name, wanes.child? regular child⟩ fun i n found => ?_
    obtain ⟨n', found', fades, -⟩ := wanes.nodes.node i n found
    exact ⟨n', found', fades.trust⟩

/-- An operation hands safety down just if it does not taint. -/
theorem isHereditary_apply_iff (o : TrustOp) (kept : o.KeepsSafe) (regular : w.IsRegular)
    (hereditary : w.IsHereditary) : (o.apply w).IsHereditary ↔ ¬ o.Taints w := by
  cases o with
  | change caller path c =>
    exact isHereditary_change_iff (fun same => kept caller path (same ▸ rfl)) regular hereditary
  | tree t =>
    by_cases sharing : ∃ holder shared, t.Shares w holder shared
    · obtain ⟨holder, shared, shares⟩ := sharing
      exact isHereditary_share_iff t regular hereditary shares
    · refine iff_of_true (hereditary.turns regular (t.turns regular) sharing) fun taints => ?_
      cases taints with
      | marks caller path v target b m same => cases same
      | shares t' holder shared h s same shares =>
        cases same
        exact sharing ⟨holder, shared, shares⟩

/-! ### Whole courses -/

theorem isHereditary_plant {settings : Settings} {host : Host} (h : plant settings host = .ok w) :
    w.IsHereditary := by
  obtain ⟨k, isNew, -, -, -, only⟩ := plant_root h
  intro a b n m found safe
  obtain ⟨-, rfl⟩ := only a n found
  rw [isNew.trust] at safe
  cases safe

/-- Whatever is done to a fresh tree, short of taking a mark of safety back: each node that a safe
node reaches is safe all along just as long as no step marks a node safe that leads to an unsafe one,
nor shares an unsafe node into a safe one. While it is so, a script that a safe node evaluates by a
path is evaluated in a safe node, unless the policies there refuse it, or the path leads nowhere. -/
theorem safety_hereditary_from_plant_iff {settings : Settings} {host : Host}
    (planted : plant settings host = .ok w) (ops : List TrustOp) (kept : ∀ o ∈ ops, o.KeepsSafe) :
    ((∀ pre, pre <+: ops → (w.guided pre).IsHereditary) ↔
      ∀ pre o, pre ++ [o] <+: ops → ¬ o.Taints (w.guided pre)) ∧
    ∀ pre, pre <+: ops → (w.guided pre).IsHereditary → ∀ a n, (w.guided pre).node? a = some n →
      n.trust.safe = true → ∀ (e : Engine) context path script,
        (∃ b m, (w.guided pre).resolve? a path = some b ∧ (w.guided pre).node? b = some m ∧
          m.trust.safe = true ∧ e.evaluateIn context a path script (w.guided pre) =
            ((if b = a then pure none
              else e.vet context { caller := a, target := b, name := "eval", script }
                Policy.guardsEvaluation) >>= e.evaluateVetted context a b path script) (w.guided pre)) ∨
          (w.guided pre).resolve? a path = none ∧
            e.evaluateIn context a path script (w.guided pre) =
              .ok (.fail (.noInterpreter path)) (w.guided pre) := by
  have invariant (v : World) (o : TrustOp) (regular : v.IsRegular) : (o.apply v).IsRegular :=
    isRegular_trustOp o regular
  refine ⟨foldl_iff invariant (fun v o kept regular hereditary =>
    isHereditary_apply_iff o kept regular hereditary) (isRegular_plant planted)
    (isHereditary_plant planted) ops kept, ?_⟩
  intro pre _ hereditary a n found safe e context path script
  have regular := foldl_induction invariant (isRegular_plant planted) pre
  exact hereditary.evaluateIn regular.numbered found safe e context path script

/-- A safe child of the root gets a child of its own, and is trusted. -/
def raisedSafe : List TrustOp :=
  [.tree (.create root [] "s" { safe := true }), .tree (.create root "s" "c" {}),
    .change root "s" .trusted]

/-- No step of `raisedSafe` marks a node safe or shares one, so the child of the child is safe. -/
theorem safety_hereditary_from_plant_raisedSafe :
    ∃ w, plant {} {} = .ok w ∧ (∀ o ∈ raisedSafe, o.KeepsSafe) ∧ (w.guided raisedSafe).IsHereditary ∧
      ∃ m, (w.guided raisedSafe).resolve? 2 "c" = some 3 ∧ (w.guided raisedSafe).node? 3 = some m ∧
        m.trust.safe = true := by
  have kept : ∀ o ∈ raisedSafe, o.KeepsSafe := by decide
  have clean : ∀ o ∈ raisedSafe, ∀ v, ¬ o.Taints v := by
    intro o mem v taints
    simp only [raisedSafe, List.mem_cons, List.not_mem_nil, or_false] at mem
    cases taints with
    | marks caller path u target b m same =>
      subst same
      simp at mem
    | shares t holder shared h s same shares =>
      obtain ⟨caller, path, source, _, _, rfl, -⟩ := shares
      subst same
      simp at mem
  obtain ⟨whole, evaluates⟩ := safety_hereditary_from_plant_iff plant_sapling raisedSafe kept
  have hereditary := whole.mpr (fun pre o sub => clean o (sub.subset (by simp)) _) raisedSafe
    (List.prefix_refl _)
  have safe : ((sapling.guided raisedSafe).node? 2).any (fun n => n.trust.safe) = true := by decide
  have leads : (sapling.guided raisedSafe).resolve? 2 "c" = some 3 := by decide
  obtain ⟨n, found, safe⟩ := Option.any_eq_true _ _ |>.mp safe
  refine ⟨_, plant_sapling, kept, hereditary, ?_⟩
  rcases evaluates raisedSafe (List.prefix_refl _) hereditary 2 n found safe .standard none "c" []
    with ⟨b, m, resolved, there, safe, -⟩ | ⟨resolved, -⟩
  · obtain rfl : b = 3 := Option.some.inj (resolved.symm.trans leads)
    exact ⟨m, leads, there, safe⟩
  · rw [leads] at resolved
    cases resolved

/-- A child of the root gets a child of its own, and is marked safe after that. -/
def markedLate : List TrustOp :=
  [.tree (.create root [] "p" {}), .tree (.create root "p" "c" {}), .change root "p" (.safe true)]

/-- Marking a node safe leaves what is below it as it is. -/
theorem safety_lost_markedLate :
    ∃ w, plant {} {} = .ok w ∧ (∀ o ∈ markedLate, o.KeepsSafe) ∧ ¬ (w.guided markedLate).IsHereditary := by
  refine ⟨_, plant_sapling, by decide, fun hereditary => ?_⟩
  have safe : ((sapling.guided markedLate).node? 2).any (fun n => n.trust.safe) = true := by decide
  have exposed : ((sapling.guided markedLate).node? 3).any (fun n => !n.trust.safe) = true := by
    decide
  have leads : (sapling.guided markedLate).resolve? 2 "c" = some 3 := by decide
  obtain ⟨n, found, safe⟩ := Option.any_eq_true _ _ |>.mp safe
  obtain ⟨m, there, exposed⟩ := Option.any_eq_true _ _ |>.mp exposed
  rw [hereditary 2 3 n m found safe (reaches_of_resolve? leads) there] at exposed
  cases exposed

end World

end InterpTree
