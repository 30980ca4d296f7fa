import InterpTree.Engine.Run
import InterpTree.Proofs.Erection
import InterpTree.Proofs.Subcommands

/-!
What a manifest establishes. The interpreters that it lists are made one after the other; then limits
are set, and again each has those that it should have.
-/

namespace InterpTree

/-! ### Limits of all -/

namespace Limits

variable {o everywhere : Override} {l start : Limits}

theorem get_injective (h : ∀ f, l.get f = start.get f) : l = start := by
  obtain ⟨a, b, c, d, e, f⟩ := l
  obtain ⟨a', b', c', d', e', f'⟩ := start
  obtain rfl : a = a' := h .timeout
  obtain rfl : b = b' := h .finallyTimeout
  obtain rfl : c = c' := h .readyLimit
  obtain rfl : d = d' := h .recursionLimit
  obtain rfl : e = e' := h .sleepTime
  obtain rfl : f = f' := h .resultLimit
  rfl

theorem over_over : o.over (o.over l) = o.over l := get_injective fun f => by
  rw [World.get_over, World.get_over]
  cases o.get f <;> rfl

theorem over_of_isEmpty (empty : o.isEmpty = true) : o.over l = l := by
  simp only [Override.isEmpty, Bool.and_eq_true, Option.isNone_iff_eq_none] at empty
  simp [Override.over, empty]

/-- Own limits count, then those for everywhere, no matter how often either are set. -/
theorem getD_settled {own everywhere : Option Int} {before start : Int}
    (h : before = own.getD (everywhere.getD start) ∨
      before = everywhere.getD (own.getD (everywhere.getD start))) :
    own.getD before = own.getD (everywhere.getD start) := by
  cases own with
  | some x => rfl
  | none =>
    rcases h with rfl | rfl
    · rfl
    · cases everywhere <;> rfl

end Limits

/-- What setting limits in a whole tree makes of a node. -/
def Node.Relimited (o : Limits.Override) (_ : NodeId) (n m : Node) : Prop := m = n ∨ m = n.relimit o

namespace World

variable {w v : World} {o : Limits.Override} {n m : Node}

theorem composes_relimited (o : Limits.Override) : Composes (Node.Relimited o) := by
  refine ⟨fun _ _ => .inl rfl, fun _ {n m k} h h' => ?_⟩
  rcases h with rfl | rfl
  · exact h'
  · rcases h' with rfl | rfl
    · exact .inr rfl
    · exact .inr (by simp only [Node.relimit, Limits.over_over])

theorem ends_overrideLimitsBelow (fuel : Nat) (id : NodeId) (path : Text) :
    Ends (Op.overrideLimitsBelow id o fuel path) w fun _ v => Each (Node.Relimited o) w v := by
  induction fuel generalizing path w with
  | zero => exact .refl (composes_relimited o) w
  | succ fuel ih =>
    have composes := composes_relimited o
    refine .bind ((Op.settles_overrideLimits o).leaves (.refl composes w) fun r v h => ?_)
      (fun _ u set => ?_) fun _ _ set => set
    · obtain ⟨target, n, -, amends⟩ := h
      exact amends.each composes (.inr rfl)
    · refine .bind (Op.reads_children u) (fun names u' same => ?_) fun _ _ same => same ▸ set
      subst same
      exact (Alike.forM (fun name _ u' set => .refl
        ((ih _).mono fun _ _ more => set.trans composes more)) set).ends

/-- Setting the limits of one entry, if it has any. -/
theorem relimits_of_entry {spec : InterpreterSpec} {t : NodeId}
    (reached : w.resolve? root spec.path = some t)
    (ok : (do
      if !spec.limits.isEmpty && (← get).pathExists root spec.path then
        Op.overrideLimits root spec.path spec.limits : Op Unit) w = .ok () v) :
    Each (fun i n m => m = if i = t then n.relimit spec.limits else n) w v := by
  obtain ⟨_, _, looks, ok⟩ := Ends.of_bind_ok ok
  obtain ⟨rfl, rfl⟩ := EStateM.Result.ok.inj looks
  split at ok
  · obtain ⟨target, n, resolved, amends⟩ := (Op.settles_overrideLimits _).of_ok ok
    obtain rfl : t = target := Option.some.inj (reached.symm.trans resolved)
    refine ⟨by rw [amends.nodes, size_modifyNode], fun i k found => ?_⟩
    by_cases here : i = t
    · subst here
      obtain rfl : n = k := Option.some.inj (amends.found.symm.trans found)
      exact ⟨_, amends.node?, by rw [if_pos rfl]⟩
    · exact ⟨k, (amends.node?_ne here).trans found, by rw [if_neg here]⟩
  · rename_i skipped
    obtain ⟨-, rfl⟩ := EStateM.Result.ok.inj ok
    have empty : spec.limits.isEmpty = true := by simpa [World.pathExists, reached] using skipped
    refine ⟨rfl, fun i k found => ⟨k, found, ?_⟩⟩
    split
    · rw [Node.relimit, Limits.over_of_isEmpty empty]
    · rfl

/-- What setting the limits of entries makes of a node. -/
def Node.Settled (w : World) (specs : List InterpreterSpec) (i : NodeId) (n m : Node) : Prop :=
  (∀ spec ∈ specs, w.resolve? root spec.path = some i → m = n.relimit spec.limits) ∧
    ((∀ spec ∈ specs, w.resolve? root spec.path ≠ some i) → m = n)

/-- Every entry sets the limits of its interpreter, and no other entry does. -/
theorem settled_of_entries {specs : List InterpreterSpec}
    (reached : ∀ spec ∈ specs, (w.resolve? root spec.path).isSome = true)
    (apart : specs.Pairwise fun a b => w.resolve? root a.path ≠ w.resolve? root b.path)
    (ok : (specs.forM fun spec => do
      if !spec.limits.isEmpty && (← get).pathExists root spec.path then
        Op.overrideLimits root spec.path spec.limits : Op Unit) w = .ok () v) :
    Each (Node.Settled w specs) w v := by
  induction specs generalizing w with
  | nil =>
    obtain ⟨-, rfl⟩ := EStateM.Result.ok.inj ok
    exact ⟨rfl, fun i n found => ⟨n, found, List.forall_mem_nil _, fun _ => rfl⟩⟩
  | cons spec specs ih =>
    obtain ⟨_, u, begins, rest⟩ := Ends.of_bind_ok ok
    obtain ⟨t, here⟩ := Option.isSome_iff_exists.mp (reached spec List.mem_cons_self)
    have entry := relimits_of_entry here begins
    have like : w.IsLike u := entry.mono fun i n m same => by
      rw [same]
      split <;> rfl
    have ways := like.sameWays.resolve? root
    obtain ⟨others, apart⟩ := List.pairwise_cons.mp apart
    have later := ih (w := u) (fun k mem => by
      rw [ways]
      exact reached k (List.mem_cons_of_mem _ mem)) (by simpa only [ways] using apart) rest
    refine ⟨later.size.trans entry.size, fun i n found => ?_⟩
    obtain ⟨m, foundM, entered⟩ := entry.node i n found
    obtain ⟨k, foundK, own, none⟩ := later.node i m foundM
    simp only [ways] at own none
    refine ⟨k, foundK, List.forall_mem_cons.mpr ⟨fun mine => ?_, fun spec' mem theirs => ?_⟩,
      fun nobody => ?_⟩
    · obtain rfl : t = i := Option.some.inj (here.symm.trans mine)
      rw [none fun other mem theirs => others other mem (mine.trans theirs.symm), entered, if_pos rfl]
    · have elsewhere : i ≠ t := fun same => others spec' mem (here.trans (same ▸ theirs.symm))
      rw [own spec' mem theirs, entered, if_neg elsewhere]
    · have elsewhere : i ≠ t := fun same => nobody spec List.mem_cons_self (same ▸ here)
      rw [none fun other mem => nobody other (List.mem_cons_of_mem _ mem), entered, if_neg elsewhere]

/-- First the limits for everywhere are set, and then those of the entries. -/
theorem of_applyLimits {m : Manifest} (ok : m.applyLimits root w = .ok () v) :
    ∃ u, Each (Node.Relimited m.limits) w u ∧ (m.interpreters.forM fun spec => do
      if !spec.limits.isEmpty && (← get).pathExists root spec.path then
        Op.overrideLimits root spec.path spec.limits : Op Unit) u = .ok () v := by
  unfold Manifest.applyLimits at ok
  split at ok
  · obtain ⟨_, _, looks, ok⟩ := Ends.of_bind_ok ok
    obtain ⟨rfl, rfl⟩ := EStateM.Result.ok.inj looks
    obtain ⟨_, u, begins, rest⟩ := Ends.of_bind_ok ok
    have walked := ends_overrideLimitsBelow (w := w) (o := m.limits) (w.nodes.size + 1) root []
    unfold Ends at walked
    rw [begins] at walked
    exact ⟨u, walked, rest⟩
  · exact ⟨w, .refl (composes_relimited _) w, ok⟩

/-- Setting limits everywhere, and then those of entries, changes nothing but limits. -/
theorem limited_of_settled {everywhere : Limits.Override} {specs : List InterpreterSpec} {u : World}
    (walked : Each (Node.Relimited everywhere) w v) (settled : Each (Node.Settled v specs) v u) :
    Each (fun _ n m => ∃ limits, m = { n with cancel := { n.cancel with limits } }) w u := by
  refine ⟨settled.size.trans walked.size, fun i n found => ?_⟩
  obtain ⟨k, foundK, walks⟩ := walked.node i n found
  obtain ⟨k', foundK', own, none⟩ := settled.node i k foundK
  have relimited : k' = k ∨ ∃ o, k' = k.relimit o := by
    by_cases some : ∃ spec ∈ specs, v.resolve? root spec.path = some i
    · obtain ⟨spec, mem, there⟩ := some
      exact .inr ⟨_, own spec mem there⟩
    · exact .inl (none fun spec mem there => some ⟨spec, mem, there⟩)
  refine ⟨k', foundK', k'.cancel.limits, ?_⟩
  rcases walks with rfl | rfl <;> rcases relimited with rfl | ⟨o, rfl⟩ <;> rfl

/-- No two entries are for one interpreter, so each has its limits set once. -/
theorem Erected.settled {m : Manifest} (erected : Erected m.limits w m.interpreters v)
    (distinct : (m.interpreters.map InterpreterSpec.path).Nodup) {u : World}
    (ok : m.applyLimits root v = .ok () u) :
    ∃ v', v.IsLike v' ∧ Each (Node.Relimited m.limits) v v' ∧
      Each (Node.Settled v' m.interpreters) v' u := by
  obtain ⟨v', walked, entered⟩ := of_applyLimits ok
  have like : v.IsLike v' := walked.mono fun i n m h => by
    rcases h with rfl | rfl <;> rfl
  have ways := like.sameWays.resolve? root
  refine ⟨v', like, walked, settled_of_entries (fun spec mem => ?_) ?_ entered⟩
  · obtain ⟨t, n, there, -⟩ := erected.new spec mem
    rw [ways, there]
    rfl
  · obtain ⟨r, foundR, aliveR⟩ := erected.regular.root_alive
    refine (List.pairwise_map.mp distinct).imp_of_mem fun {a b} memA memB other same => other ?_
    obtain ⟨t, -, there, -⟩ := erected.new a memA
    rw [ways, ways, there] at same
    rw [resolve?_eq foundR aliveR] at there same
    exact namesOf_injective (erected.woven.follow?_unique erected.regular erected.own there same.symm)

/-- Where a tree with some interpreters more has its limits set, they are what was asked for, and who
was there before has at most other limits and more links to interpreters that were asked for. -/
theorem Erected.settle {m : Manifest} (erected : Erected m.limits w m.interpreters v)
    (distinct : (m.interpreters.map InterpreterSpec.path).Nodup) {u : World}
    (ok : m.applyLimits root v = .ok () u) :
    (∀ spec ∈ m.interpreters, ∃ i n, u.resolve? root spec.path = some i ∧ u.live? i = some n ∧
        spec.IsMetBy m.limits w.settings.limits u n) ∧
      (∀ i n, w.node? i = some n → ∃ limits more, u.node? i = some { n with
        cancel := { n.cancel with limits }, links := n.links ++ more } ∧
          ∀ l ∈ more, u.IsPlaced m.interpreters i l) ∧
      u.nodes.size = w.nodes.size + m.interpreters.length := by
  obtain ⟨v', like, walked, settled⟩ := erected.settled distinct ok
  have limited := limited_of_settled walked settled
  have like' : v.IsLike u := limited.mono fun _ _ _ ⟨_, same⟩ => same ▸ rfl
  have ways := like'.sameWays.resolve? root
  have extends' : Extends v u := fun i n found => by
    obtain ⟨_, found', limits, rfl⟩ := limited.node i n found
    exact ⟨_, found', rfl, rfl, rfl, rfl, [], (List.append_nil _).symm⟩
  refine ⟨fun spec mem => ?_, fun i n found => ?_, limited.size.trans erected.size⟩
  · obtain ⟨t, n, there, found, met⟩ := erected.new spec mem
    obtain ⟨k, foundK, walks⟩ := walked.node t n found
    obtain ⟨k', foundK', own, -⟩ := settled.node t k foundK
    obtain rfl := own spec mem ((like.sameWays.resolve? root _).trans there)
    obtain ⟨_, found', limits, rfl⟩ := limited.node t n found
    have same := Option.some.inj (foundK'.symm.trans found')
    refine ⟨t, _, (ways _).trans there, live?_eq_some_iff.mpr ⟨foundK', ?_⟩,
      isMetBy_of_kept met erected.regular.numbered extends' (fun j p foundP => ?_) ?_ fun f => ?_⟩
    · rw [same]
      obtain ⟨n', live⟩ := Reaches.live? (reaches_of_resolve? there) erected.regular
      obtain ⟨foundN, isLive⟩ := live?_eq_some_iff.mp live
      obtain rfl : n = n' := Option.some.inj (found.symm.trans foundN)
      exact isLive
    · obtain ⟨_, foundP', limits, rfl⟩ := limited.node j p foundP
      exact ⟨_, _, foundP'⟩
    · rw [same]
    · change (spec.limits.over k.cancel.limits).get f = _
      rw [get_over]
      refine Limits.getD_settled ?_
      rcases walks with rfl | rfl
      · exact .inl (met.limits f)
      · refine .inr ?_
        change (m.limits.over n.cancel.limits).get f = _
        rw [get_over, met.limits f]
  · obtain ⟨more, found', placed⟩ := erected.old i n found
    obtain ⟨_, found'', limits, rfl⟩ := limited.node i _ found'
    refine ⟨limits, more, found'', fun l mem => ?_⟩
    obtain ⟨spec, memS, parent, target, name, unshared⟩ := placed l mem
    exact ⟨spec, memS, (ways _).trans parent, (ways _).trans target, name, unshared⟩

/-- A manifest without scripts that is applied to a tree with an unsafe root, without shared links and
without any of its interpreters is established, unless it is refused: each of its interpreters is as
its entry says, and who was there before has at most other limits and more links to these. -/
theorem manifest_established {settings : Settings} {host : Host} {w₀ : World}
    {steps : List TreeStep} {r : Node} {m₀ m : Manifest} {e : Engine} {context : Option Context}
    (planted : plant settings host = .ok w₀) (admits : w₀.Admits steps)
    (rooted : (w₀.along steps).live? root = some r) (unsafe' : r.trust.safe = false)
    (own : (w₀.along steps).HasOwnLinks) (checked : m₀.checked = .ok m)
    (silent : ∀ spec ∈ m.interpreters, spec.scripts = [])
    (absent : ∀ spec ∈ m.interpreters, (w₀.along steps).pathExists root spec.path = false)
    (applied : (m.apply e context root).run (w₀.along steps) = .ok (.ok ()) v) :
    (∀ spec ∈ m.interpreters, ∃ i n, v.resolve? root spec.path = some i ∧ v.live? i = some n ∧
        spec.IsMetBy m.limits (w₀.along steps).settings.limits v n) ∧
      (∀ i n, (w₀.along steps).node? i = some n → ∃ limits more, v.node? i = some { n with
        cancel := { n.cancel with limits }, links := n.links ++ more } ∧
          ∀ l ∈ more, v.IsPlaced m.interpreters i l) ∧
      v.nodes.size = (w₀.along steps).nodes.size + m.interpreters.length := by
  obtain ⟨found, isLive⟩ := live?_eq_some_iff.mp rooted
  have kept := (isKept_plant planted).along admits
  cases kept with
  | ended numbered ended =>
    -- A tree that was closed has no root.
    have there : (w₀.along steps).attached? root = some r :=
      attached?_eq_some_iff.mpr ⟨found, (Bool.and_eq_true_iff.mp isLive).1⟩
    rw [ended root] at there
    cases there
  | tended regular woven =>
    obtain ⟨distinct, named⟩ := Manifest.of_checked checked
    obtain ⟨_, u, makes, limits⟩ := Attempt.of_bind applied
    have erected := erected_of_loop (erected_refl regular woven own found unsafe') distinct named
      silent absent makes
    exact erected.settle distinct (Attempt.of_op limits)

/-- A tree with a safe child. -/
def nursery : List TreeStep := [.op (.create root [] "kid" { safe := true })]

/-- An interpreter below the child and one below that, with a bit of everything. -/
def household : Manifest where
  limits := { recursionLimit := some 50 }
  interpreters :=
    [{ path := " kid.web ", standard := true, trusted := true, readOnly := true
       limits := { readyLimit := some 7 }, hide := ["puts", "spin", "incr"], expose := ["spin", "file"]
       aliases := [{ name := "spin", target := "kid", command := "list", args := ["hello"] }]
       policies := [{ type := "*", script := "list 1" }, { token := 3, evaluate := true }]
       watchdog := true },
     { path := "kid.web.db", immutable := true
       aliases := [{ name := "self", target := "kid.web.db", command := "self" }] }]

/-- The tree with the safe child. -/
def nursing : World := ((plant {} {}).toOption.getD {}).along nursery

theorem manifest_established_household :
    ∃ w m v, plant {} {} = .ok w ∧ w.Admits nursery ∧ household.checked = .ok m ∧
      (m.apply ⟨20, Engine.run .timely 20, .timely⟩ none root).run (w.along nursery) = .ok (.ok ()) v ∧
      (∀ spec ∈ m.interpreters, ∃ i n, v.resolve? root spec.path = some i ∧ v.live? i = some n ∧
        spec.IsMetBy m.limits (w.along nursery).settings.limits v n) ∧
      v.nodes.size = 4 := by
  have checked : household.checked = .ok (household.checked.toOption.getD {}) := by decide +kernel
  have admits : sapling.Admits nursery := ⟨.op (by decide), trivial⟩
  obtain ⟨r, rooted, unsafe'⟩ : ∃ r, nursing.live? root = some r ∧ r.trust.safe = false := by
    have shown : (nursing.live? root).any (fun r => !r.trust.safe) = true := by decide +kernel
    obtain ⟨r, live, trusted⟩ := (Option.any_eq_true _ _).mp shown
    exact ⟨r, live, by simpa using trusted⟩
  have own : nursing.HasOwnLinks := by
    have all : ∀ n ∈ nursing.nodes.toList, ∀ l ∈ n.links, l.shared = false := by decide +kernel
    exact fun i n live => all n (mem_of_node? (live?_eq_some_iff.mp live).1)
  have absent : ∀ spec ∈ (household.checked.toOption.getD {}).interpreters,
      nursing.pathExists root spec.path = false := by decide +kernel
  have silent : ∀ spec ∈ (household.checked.toOption.getD {}).interpreters, spec.scripts = [] := by
    decide +kernel
  have succeeds : Ends ((household.checked.toOption.getD {}).apply ⟨20, Engine.run .timely 20, .timely⟩ none root).run
      nursing fun r v => r = .ok (.ok ()) ∧ v.nodes.size = 4 := by decide +kernel
  obtain ⟨v, applied, sized⟩ := succeeds.exists_ok
  exact ⟨_, _, v, plant_sapling, admits, checked, applied,
    (manifest_established plant_sapling admits rooted unsafe' own checked silent absent applied).1, sized⟩

end World

end InterpTree
