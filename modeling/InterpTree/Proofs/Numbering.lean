import Mathlib.Data.Finset.Card
import Mathlib.Order.Interval.Finset.Nat
import InterpTree.Proofs.Integrity
import InterpTree.Proofs.Leftovers
import InterpTree.Proofs.Objections
import InterpTree.Proofs.PathAlgebra

/-!
Names for children that are made without one. Main statement, of all that comes of a fresh tree: trying
the numbered names one after the other comes to an end at any live node, at the first that no link of the
node has, and an interpreter is never refused under it because there is one already. Each numbered name
that is taken leads to another node, so that fewer are taken than there are nodes; shared links have
names of their own.
-/

namespace InterpTree

namespace Control

/-- The name that is tried for a child after `k` others. -/
def numberedName (k : Nat) : Text := "interp" ++ Text.ofNat k

theorem numberedName_injective : Function.Injective numberedName := fun _ _ same =>
  Text.ofNat_injective (List.append_cancel_left same)

theorem isValidName_numberedName (k : Nat) : isValidName (numberedName k) = true :=
  isValidName_numbered (by decide) k

theorem numberedName_ne_sharedName (k : Nat) (shared : NodeId) :
    numberedName k ≠ Op.sharedName shared := by
  intro same
  have first := congrArg List.head? same
  cases first

end Control

open Control (numberedName numberedName_injective isValidName_numberedName)

namespace World

variable {w v : World} {id : NodeId} {n : Node} {i k : Nat} {steps : List TreeStep} {s : TreeStep}

/-! ### The search -/

/-- From the number `i` on, one number after the other is tried without end, until no path leads from
the node by the name with the number; `k` is the number that this comes to. -/
inductive Seeks (w : World) (id : NodeId) (k : Nat) : Nat → Prop
  | found (free : w.pathExists id (numberedName k) = false) : Seeks w id k k
  | next {i : Nat} (taken : w.pathExists id (numberedName i) = true) (later : Seeks w id k (i + 1)) :
    Seeks w id k i

/-- The search comes to the first number whose name is free. -/
theorem seeks_iff : w.Seeks id k i ↔ i ≤ k ∧ w.pathExists id (numberedName k) = false ∧
    ∀ j, i ≤ j → j < k → w.pathExists id (numberedName j) = true := by
  constructor
  · intro seeks
    induction seeks with
    | found free => exact ⟨Nat.le_refl k, free, by omega⟩
    | @next i taken later ih =>
      obtain ⟨low, free, before⟩ := ih
      refine ⟨by omega, free, fun j above below => ?_⟩
      rcases Nat.eq_or_lt_of_le above with rfl | above
      · exact taken
      · exact before j above below
  · -- By induction on how many numbers are passed over.
    rintro ⟨low, free, before⟩
    obtain ⟨more, rfl⟩ := Nat.exists_eq_add_of_le low
    induction more generalizing i with
    | zero => exact .found free
    | succ more ih =>
      refine .next (before i (Nat.le_refl i) (by omega)) ?_
      rw [show i + (more + 1) = i + 1 + more by omega] at free before ⊢
      exact ih (by omega) free fun j above below => before j (by omega) below

theorem Seeks.unique {k' : Nat} (seeks : w.Seeks id k i) (seeks' : w.Seeks id k' i) : k = k' := by
  induction seeks with
  | found free =>
    cases seeks' with
    | found => rfl
    | next taken => rw [free] at taken; cases taken
  | next taken later ih =>
    cases seeks' with
    | found free => rw [free] at taken; cases taken
    | next _ later' => exact ih later'

/-- As many names as there are nodes, and one more, are enough to be tried. -/
theorem generatedName_of_seeks (seeks : w.Seeks id k 0) (enough : k ≤ w.nodes.size) :
    Control.generatedName id w = numberedName k := by
  obtain ⟨-, free, before⟩ := seeks_iff.mp seeks
  have first : ((List.range (w.nodes.size + 1)).find? fun j =>
      !w.pathExists id (numberedName j)) = some k := by
    refine List.find?_range_eq_some.mpr ⟨by simp [free], List.mem_range.mpr (by omega), fun j below => ?_⟩
    simp [before j (Nat.zero_le j) below]
  have names : ((List.range (w.nodes.size + 1)).map numberedName).find?
      (fun name => !w.pathExists id name) = some (numberedName k) := by
    rw [List.find?_map]
    exact congrArg (Option.map numberedName) first
  exact congrArg (Option.getD · []) names

/-! ### The names of shared links -/

/-- Shared links go by the numbers of the nodes that they lead to. -/
def NamesShared (w : World) : Prop :=
  ∀ i n, w.node? i = some n → ∀ l ∈ n.links, l.shared = true → l.name = Op.sharedName l.target

theorem NamesShared.of_fewer {P : NodeId → Node → Node → Prop} (named : w.NamesShared)
    (each : Each P w v) (fewer : ∀ i n n', P i n n' → n'.links.Sublist n.links) : v.NamesShared := by
  intro i n' found' l mem shared
  obtain ⟨n, found, change⟩ := each.node_back found'
  exact named i n found l ((fewer i n n' change).subset mem) shared

theorem Turns.namesShared {o : TreeOp} (turns : w.Turns o v) (named : w.NamesShared) :
    v.NamesShared := by
  cases turns with
  | refused same => exact same ▸ named
  | spoiled parent trust n m gains isNew strips =>
    intro i n' found' l mem shared
    rcases gains.node_cases found' with ⟨-, rfl⟩ | found
    · rw [strips_links_nil isNew strips] at mem
      cases mem
    · exact named i n' found l mem shared
  | grown options name caller parent c p m valid asker reached foundP free grows child =>
    intro i n' found' l mem shared
    rcases grows.link_cases child.links found' mem with ⟨n, found, old⟩ | ⟨-, rfl⟩
    · exact named i n found l old shared
    · cases shared
  | linked holder shared h s shares foundH foundS notRoot free changes =>
    intro i n' found' l mem shared
    rcases link_cases_of_shares changes found' mem with ⟨n, found, old⟩ | ⟨-, rfl⟩
    · exact named i n found l old shared
    · rfl
  | waned removal wanes => exact named.of_fewer wanes.nodes fun _ _ _ wanes => wanes.1.links

theorem NamesShared.step (named : w.NamesShared) (kept : w.IsKept) (fits : s.Fits w) :
    (s.apply w).NamesShared := by
  cases s with
  | op o =>
    cases kept with
    | tended regular woven => exact (o.turns regular).namesShared named
    | ended numbered ended =>
      change (o.apply w).NamesShared
      rw [o.apply_of_isOver ended numbered fits]
      exact named
  | close =>
    change w.close.NamesShared
    rcases close_cases kept.numbered with same | ⟨wanes, -⟩
    · rw [same]
      exact named
    · exact named.of_fewer wanes.nodes fun _ _ _ wanes => wanes.1.links
  | aside f => exact named.of_fewer (v := f w) fits fun _ _ _ keep => keep.fewer

theorem NamesShared.along (named : w.NamesShared) (kept : w.IsKept) (admits : w.Admits steps) :
    (w.along steps).NamesShared := by
  induction steps generalizing w with
  | nil => exact named
  | cons s steps ih => exact ih (named.step kept admits.1) (kept.step admits.1) admits.2

theorem namesShared_plant {settings : Settings} {host : Host} (planted : plant settings host = .ok w) :
    w.NamesShared := by
  obtain ⟨k, isNew, -, -, -, only⟩ := plant_root planted
  intro i n found l mem
  obtain ⟨-, rfl⟩ := only i n found
  rw [isNew.links] at mem
  cases mem

/-! ### Free names -/

/-- Whether a path of one name leads anywhere is told by the links of the node alone. -/
theorem pathExists_eq_isSome_link? (intact : w.HasIntactLinks) (live : w.live? id = some n)
    {name : Text} (valid : isValidName name = true) :
    w.pathExists id name = (n.link? name).isSome := by
  have found := (live?_eq_some_iff.mp live).1
  have alive := alive_of_live? live
  have child : w.resolve? id name = w.child? id name := by
    rw [resolve?_eq found alive, namesOf_of_valid valid]
    exact follow?_concat w id [] name
  rw [pathExists, child, child?, found]
  simp only [Option.bind_eq_bind, Option.bind_some, alive, Bool.false_eq_true, if_false]
  cases link : n.link? name with
  | none => rfl
  | some l =>
    have mem := ((intact.keys id n live name l).mp link).1
    obtain ⟨t, target⟩ := Option.isSome_iff_exists.mp (intact.targets id n live l mem)
    simp [target]

/-- A link with a numbered name leads to a child of that name. -/
theorem target_of_numbered (intact : w.HasIntactLinks) (named : w.NamesShared)
    (live : w.live? id = some n) {l : Link} (link : n.link? (numberedName k) = some l) :
    ∃ t, w.node? l.target = some t ∧ t.name = numberedName k := by
  obtain ⟨mem, name⟩ := (intact.keys id n live _ l).mp link
  obtain ⟨t, target⟩ := Option.isSome_iff_exists.mp (intact.targets id n live l mem)
  have found := (live?_eq_some_iff.mp target).1
  have own : l.shared = false := by
    cases shared : l.shared with
    | false => rfl
    | true =>
      have other := named id n (live?_eq_some_iff.mp live).1 l mem shared
      exact absurd (name.symm.trans other) (Control.numberedName_ne_sharedName k _)
  exact ⟨t, found, (intact.children id n live l mem own t found).2.trans name⟩

/-- Of more numbers than there are nodes not all are taken. -/
theorem exists_free (intact : w.HasIntactLinks) (named : w.NamesShared) (live : w.live? id = some n) :
    ∃ k, k ≤ w.nodes.size ∧ n.link? (numberedName k) = none := by
  by_contra full
  -- Else more links than there are nodes would lead to different nodes.
  have taken (k : Nat) (low : k ≤ w.nodes.size) :
      ∃ l t, n.link? (numberedName k) = some l ∧ w.node? l.target = some t ∧
        t.name = numberedName k := by
    obtain ⟨l, link⟩ := Option.ne_none_iff_exists'.mp fun free => full ⟨k, low, free⟩
    obtain ⟨t, found, name⟩ := target_of_numbered intact named live link
    exact ⟨l, t, link, found, name⟩
  have fewer : ((Finset.Icc 1 w.nodes.size).map Function.Embedding.some).card <
      (Finset.range (w.nodes.size + 1)).card := by simp
  obtain ⟨j, lowJ, k, lowK, other, same⟩ := Finset.exists_ne_map_eq_of_card_lt_of_maps_to fewer
    (f := fun k => (n.link? (numberedName k)).map Link.target) (fun k mem => by
      obtain ⟨l, t, link, found, -⟩ := taken k (Nat.lt_succ_iff.mp (Finset.mem_range.mp mem))
      have inside := Finset.mem_Icc.mpr ⟨pos_of_node? found, le_size_of_node? found⟩
      exact Finset.mem_map.mpr ⟨l.target, inside,
        (congrArg (Option.map Link.target) link).symm⟩)
  obtain ⟨l, t, link, found, name⟩ := taken j (Nat.lt_succ_iff.mp (Finset.mem_range.mp lowJ))
  obtain ⟨l', t', link', found', name'⟩ := taken k (Nat.lt_succ_iff.mp (Finset.mem_range.mp lowK))
  simp only [link, link', Option.map_some, Option.some.injEq] at same
  rw [same, found'] at found
  obtain rfl := Option.some.inj found
  exact other (numberedName_injective (name.symm.trans name'))

theorem exists_seeks (intact : w.HasIntactLinks) (named : w.NamesShared) (live : w.live? id = some n) :
    ∃ k, k ≤ w.nodes.size ∧ w.Seeks id k 0 := by
  have exists_free := exists_free intact named live
  have free := (Nat.find_spec exists_free).2
  refine ⟨Nat.find exists_free, (Nat.find_spec exists_free).1, seeks_iff.mpr ⟨Nat.zero_le _, ?_, ?_⟩⟩
  · rw [pathExists_eq_isSome_link? intact live (isValidName_numberedName _), free]
    rfl
  · intro j _ below
    rw [pathExists_eq_isSome_link? intact live (isValidName_numberedName _)]
    have least := Nat.find_min exists_free below
    have low : j ≤ w.nodes.size := by
      have := (Nat.find_spec exists_free).1
      omega
    exact Option.isSome_iff_ne_none.mpr fun none => least ⟨low, none⟩

end World

/-! ### Children without a path -/

namespace Op

variable {w : World} {caller : NodeId} {name : Text}

/-- Where no link of the caller has a name, none of the node at its empty path has. -/
theorem isNone_link?_of_own {n : Node} (found : w.node? caller = some n) (alive : n.dead = false)
    (free : n.link? name = none) (parent : NodeId) (p : Node)
    (resolved : w.resolve? caller [] = some parent) (foundP : w.node? parent = some p) :
    (p.link? name).isNone = true := by
  rw [World.resolve?_eq found alive] at resolved
  obtain rfl : caller = parent := Option.some.inj resolved
  obtain rfl : n = p := Option.some.inj (found.symm.trans foundP)
  rw [free]
  rfl

/-- What creating a child of the caller itself comes to, where the name is free. -/
theorem create_own (numbered : w.IsNumbered) {n : Node} (found : w.node? caller = some n)
    (alive : n.dead = false) (valid : isValidName name = true) (free : n.link? name = none)
    (options : CreateOptions) :
    Ends (create caller [] name options) w fun r v =>
      match r with
      | .ok _ => v.resolve? caller name = some (w.nodes.size + 1)
      | .error f => f.Lacks .alreadyExists := by
  have lacks := create_lacks options (isNone_link?_of_own found alive free)
  have split : splitPath name = ([], name) :=
    (splitPath_joinPath valid : splitPath (joinPath [] name) = ([], name))
  unfold Ends at lacks ⊢
  cases made : create caller [] name options w with
  | error f v =>
    rw [made] at lacks
    exact lacks f rfl
  | ok t v =>
    obtain ⟨_, _, _, _, -, -, -, -, -, ⟨same, -⟩ | ⟨⟨_, ⟨⟩⟩, -⟩⟩ :=
      (settles_create caller [] name options numbered).of_ok made
    obtain rfl := Except.ok.inj same
    have whole : joinPath (splitPath name).1 (splitPath name).2 = name := by
      rw [split]
      rfl
    refine World.resolve?_of_created numbered whole (?_ : create caller _ _ options w = .ok _ v)
    rw [split]
    exact made

end Op

namespace Control

/-- The options of `interp create`. -/
def createSpecs : List OptionSpec :=
  [⟨"-safe", false⟩, ⟨"-standard", false⟩, ⟨"-unsafeinitialize", false⟩, ⟨"-noinitialize", false⟩,
    ⟨"-nonamespaces", false⟩]

/-- If the words can be read, no path is among them. -/
def GivesNoPath (words : List Text) : Prop :=
  ∀ options rest, Options.parse createSpecs words = .ok (options, rest) → rest.headD [] = []

variable {e : Engine} {call : Call} {i : Invocation} {words : List Text} {w : World} {n : Node} {k : Nat}

theorem dispatch_create (args : call.args = ("create" : Text) :: words) :
    dispatch e call = Act.perform (create (.of call "create") words) := by
  have found : (subcommands.find? fun s => s.name == ("create" : Text)) =
      some ⟨"create", createUsage, 0, none, plain create⟩ := rfl
  exact dispatch_of_find args found (Nat.zero_le _) rfl

/-- Without a path, a child of the generated name is made, or there is a reason against it other than
that there is one already. -/
theorem create_generated (numbered : w.IsNumbered) (found : w.node? i.node = some n)
    (alive : n.dead = false) (generated : generatedName i.node w = numberedName k)
    (free : n.link? (numberedName k) = none) (pathless : GivesNoPath words) :
    Ends (create i words) w fun r v =>
      r = .ok (numberedName k) ∧
          v.resolve? i.node (numberedName k) = some (w.nodes.size + 1) ∨
        ∃ f, r = .error f ∧ f.Lacks .alreadyExists := by
  have valid := isValidName_numberedName k
  have split : splitPath (numberedName k) = ([], numberedName k) :=
    (splitPath_joinPath valid : splitPath (joinPath [] (numberedName k)) = _)
  change Ends (Op.lift (Options.parse createSpecs words) >>= _) w _
  refine Ends.bind_iff.mpr (Op.ends_lift.mpr ?_)
  cases parsed : Options.parse createSpecs words with
  | error f =>
    obtain ⟨message, rfl⟩ := Options.parse_refused parsed
    exact .inr ⟨_, rfl, Fault.lacks_of.mpr (by decide)⟩
  | ok result =>
    obtain ⟨options, rest⟩ := result
    have unnamed := pathless options rest parsed
    refine Ends.bind_iff.mpr (Op.ends_require.mpr ⟨fun few => ?_, fun _ =>
      .inr ⟨_, rfl, Fault.lacks_of.mpr (by decide)⟩⟩)
    refine Ends.bind_iff.mpr (Ends.get_iff.mpr ?_)
    simp only [unnamed, List.isEmpty_nil, if_true, generated, split]
    refine Ends.bind (Op.create_own numbered found alive valid free _) (fun t v reached => ?_)
      fun f v lacks => .inr ⟨f, rfl, lacks⟩
    have same := World.Each.of_nodes_eq World.composes_sameWays (World.nodes_log .debug
      "interpreter created" ([field "node" (Text.ofNat i.node), field "path" (numberedName k),
        field "subcommand" i.name] ++ []) v)
    exact .inl ⟨rfl, (World.SameWays.resolve? same i.node _).trans reached⟩

end Control

namespace World

variable {w : World} {id : NodeId} {n : Node} {steps : List TreeStep}

/-- In all that comes of a fresh tree, for each node that lives in it: whether a path of one name leads
anywhere is told by the links of the node. The search for a free numbered name comes to one number and to
no other; its name is the generated one, no link of the node has it, and some link has each name with a
lower number. Hence to create a child of that name is not refused since it is there already, however
nodes are populated; and a call of `interp create` without a path makes that child, or fails for a reason
that is not of this kind and has no cause of this kind either. -/
theorem generated_names_fresh_from_plant {settings : Settings} {host : Host}
    (planted : plant settings host = .ok w) (admits : w.Admits steps)
    (live : (w.along steps).live? id = some n) :
    (∀ name, isValidName name = true →
      (w.along steps).pathExists id name = (n.link? name).isSome) ∧
    ∃ k, (∀ m, (w.along steps).Seeks id m 0 ↔ m = k) ∧
      Control.generatedName id (w.along steps) = numberedName k ∧
      n.link? (numberedName k) = none ∧
      (∀ j, j < k → (n.link? (numberedName j)).isSome = true) ∧
      (∀ populate options,
        Ends (Op.createBy populate id [] (numberedName k) options) (w.along steps) fun r _ =>
          ∀ f, r = .error f → f.kind? ≠ some .alreadyExists) ∧
      ∀ (e : Engine) (call : Call) words, call.node = id →
        call.args = ("create" : Text) :: words → Control.GivesNoPath words →
          ∃ c v, Control.dispatch e call (w.along steps) = .ok c v ∧
            (c = .ok (numberedName k) ∧
                v.resolve? id (numberedName k) = some ((w.along steps).nodes.size + 1) ∨
              ∃ f, c = .fail f ∧ f.isA (.of .alreadyExists []) = false) := by
  have start := isKept_plant planted
  have kept := start.along admits
  have intact := kept.hasIntactLinks
  have named := (namesShared_plant planted).along start admits
  have found := (live?_eq_some_iff.mp live).1
  have links {name : Text} (valid : isValidName name = true) :=
    pathExists_eq_isSome_link? intact live valid
  obtain ⟨k, enough, seeks⟩ := exists_seeks intact named live
  obtain ⟨-, unused, used⟩ := seeks_iff.mp seeks
  have generated := generatedName_of_seeks seeks enough
  have free : n.link? (numberedName k) = none := by
    rw [links (isValidName_numberedName k)] at unused
    simpa using unused
  refine ⟨fun name => links, k, fun m => ⟨fun other => other.unique seeks, ?_⟩, generated, free, ?_,
    fun populate options => ?_, ?_⟩
  · rintro rfl
    exact seeks
  · intro j below
    rw [← links (isValidName_numberedName j)]
    exact used j (Nat.zero_le j) below
  · exact Op.createBy_kind?_ne populate options
      (Op.isNone_link?_of_own found (alive_of_live? live) free)
  · rintro e call words rfl args pathless
    have ends := Control.create_generated (i := .of call "create") kept.numbered found
      (alive_of_live? live) generated free pathless
    rw [Control.dispatch_create args]
    unfold Ends at ends
    cases made : Control.create (.of call "create") words (w.along steps) with
    | ok a v =>
      rw [made] at ends
      rcases ends with ⟨same, reached⟩ | ⟨f, ⟨⟩, -⟩
      obtain rfl := Except.ok.inj same
      exact ⟨_, v, Control.perform_ok made, .inl ⟨rfl, reached⟩⟩
    | error f v =>
      rw [made] at ends
      rcases ends with ⟨⟨⟩, -⟩ | ⟨_, ⟨⟩, lacks⟩
      exact ⟨_, v, Control.perform_error made,
        .inr ⟨f, rfl, (Fault.isA_bare_eq_false_iff f 0 _).mpr lacks⟩⟩

/-- The root has children with the numbers 0 and 2, and a shared link. -/
def gapped : List TreeStep :=
  [.op (.create root [] "interp0" {}), .op (.create root [] "interp2" {}),
    .op (.create root "interp0" "x" {}), .op (.share root [] "interp0.x")]

/-- The gap is filled by a safe child. -/
theorem generated_names_fresh_from_plant_gapped :
    ∃ w n, plant {} {} = .ok w ∧ w.Admits gapped ∧ (w.along gapped).live? root = some n ∧
      n.links.map Link.name = (["interp0", "interp2", "shared4"] : List Text) ∧
      (w.along gapped).Seeks root 1 0 ∧
      Control.generatedName root (w.along gapped) = ("interp1" : Text) ∧
      Control.GivesNoPath ["-safe"] ∧
      ∃ v, Control.dispatch .standard { rootCall with args := ["create", "-safe"] }
          (w.along gapped) = .ok (.ok "interp1") v ∧
        v.resolve? root "interp1" = some 5 := by
  have admits : sapling.Admits gapped :=
    ⟨.op (by decide), .op (by decide), .op (by decide), .op (by decide), trivial⟩
  have lives : ((sapling.along gapped).live? root).any
      (fun n => n.links.map Link.name = (["interp0", "interp2", "shared4"] : List Text)) = true := by
    decide
  obtain ⟨n, live, links⟩ := (Option.any_eq_true _ _).mp lives
  obtain ⟨-, k, seeks, generated, -, -, -, creates⟩ :=
    generated_names_fresh_from_plant plant_sapling admits live
  have first : (sapling.along gapped).Seeks root 1 0 := .next (by decide) (.found (by decide))
  obtain rfl := (seeks 1).mp first
  have pathless : Control.GivesNoPath ["-safe"] := by
    rintro options rest ⟨⟩
    rfl
  obtain ⟨c, v, done, ⟨rfl, reached⟩ | ⟨f, rfl, -⟩⟩ := creates .standard
    { rootCall with args := ["create", "-safe"] } ["-safe"] rfl rfl pathless
  · exact ⟨_, n, plant_sapling, admits, live, by simpa using links, first, generated, pathless, v,
      done, reached⟩
  · -- It is not refused here.
    have succeeds : Ends (Control.create (.of rootCall "create") ["-safe"])
        (sapling.along gapped) fun r _ => r.isOk = true := by decide
    rw [Control.dispatch_create rfl] at done
    unfold Ends at succeeds
    split at succeeds
    · rename_i made
      cases (Control.perform_ok made).symm.trans done
    · cases succeeds

end World

end InterpTree
