import InterpTree.Proofs.Minding

/-!
What the subcommands of `interp` do that run no scripts. All of them come down to a few kinds of
changes, which `Control.Does` lists; here are those to the tree and to what its nodes hold.
-/

namespace InterpTree

namespace Control

/-- The change of trust that a subcommand makes by a boolean word. -/
def toggled? (name : Text) : Option (Bool → TrustChange) :=
  if name = "makesafe" then some .safe
  else if name = "makestandard" then some .standard
  else if name = "readonly" then some .readOnly
  else if name = "immutable" then some .immutable
  else none

/-- The change of trust that the words of a subcommand ask for, and the path to the node. -/
def trustWords (name : Text) (words : List Text) : Option (Text × TrustChange) :=
  if name = "marktrusted" then some (words.headD [], .trusted)
  else
    match words, toggled? name with
    | [path], some change =>
      if name = "makesafe" ∨ name = "makestandard" then some (path, change true) else none
    | [path, word], some change =>
      match Text.toBool word with
      | .ok on => some (path, change on)
      | .error _ => none
    | _, _ => none

/-- What a subcommand that runs no script does to the world: one thing of a few. -/
inductive Does (i : Invocation) (words : List Text) (w v : World) : Prop
  | rests (rests : World.Rests w v)
  /-- The work or the supervision of a node below the caller is changed. -/
  | stirs (target : NodeId) (path : Text) (resolved : w.resolve? i.node path = some target)
      (changes : World.Changes (World.At target Node.Stirs) w v)
  /-- A child is made. -/
  | grows (options : CreateOptions) (name path : Text) (parent : NodeId) (c p m : Node)
      (asker : w.node? i.node = some c) (resolved : w.resolve? i.node path = some parent)
      (found : w.node? parent = some p) (grows : World.Grows parent name m w v)
      (child : Op.IsChild options name c p (w.nodes.size + 1) m)
  /-- A node is made that could not be populated. -/
  | spoils (options : CreateOptions) (path : Text) (parent : NodeId) (c p n m : Node)
      (asker : w.node? i.node = some c) (resolved : w.resolve? i.node path = some parent)
      (found : w.node? parent = some p) (gains : World.Gains m w v)
      (isNew : n.IsNew (w.nodes.size + 1) parent (options.trust c.trust p.trust))
      (detached : n.attached = false) (bare : n.commands = []) (strips : n.Strips n m)
      (released : m.released = true)
  /-- Nodes below the caller are removed. -/
  | wanes (wanes : ∀ Z, w.IsClosed Z → Z i.node → World.Wanes Z w v) (departs : World.Departs w v)
  /-- Nodes are changed as only a caller that is not safe may. -/
  | governs (c : Node) (asker : w.node? i.node = some c) (trusted : c.trust.safe = false)
      (changes : World.Each (fun _ => Node.IsGoverned i.node) w v)
  /-- The trust of a node is changed. -/
  | trusts (change : TrustChange) (path : Text) (target : NodeId) (n : Node)
      (asked : trustWords i.name words = some (path, change))
      (takes : change.Takes i.node path target n w v)
  /-- A cancellation is posted. -/
  | posts (named : i.name = "cancel") (target : NodeId) (path : Text) (force unwind : Bool)
      (message : Text) (asked : cancelWords i words w = .ok (target, force, unwind, message) w)
      (resolved : w.resolve? i.node path = some target)
      (posted : w.postCancel target force unwind message = .ok v)
  /-- A cancellation is cleared, by force only with the right to. -/
  | resets (named : i.name = "resetcancel") (target : NodeId) (path : Text) (force : Bool) (n : Node)
      (asked : resetCancelWords i words w = .ok (target, force) w)
      (resolved : w.resolve? i.node path = some target) (found : w.node? target = some n)
      (supervised : force = true →
        supervise i target "force a cancellation reset" w = .ok () w)
      (reset : v = w.modifyNode target fun m => { m with cancel := (n.cancel.reset force).2 })
  /-- A service loop is handed to the worker of a node. -/
  | dedicates (named : i.name = "service") (target : NodeId) (path : Text)
      (options : ServiceOptions) (n : Node) (worker : Worker ServiceJob)
      (asked : serviceWords i words w = .ok (target, options, true) w)
      (resolved : w.resolve? i.node path = some target) (found : w.node? target = some n)
      (alive : n.dead = false)
      (supervised : supervise i target "start its own dedicated service loop" w = .ok () w)
      (submitted : (n.worker.getD {}).submit "service"
        (some { options := { options with wait := true, errorOnEmpty := false, background := true } })
          = .ok worker)
      (hired : v = w.modifyNode target fun m => { m with worker := some worker })

variable {i : Invocation} {words : List Text} {w v : World}

theorem Does.same : Does i words w w := .rests (.refl w)

theorem resolve?_of_ok {id target : NodeId} {path : Text}
    (h : Op.resolve id path w = .ok target v) : w.resolve? id path = some target := by
  obtain ⟨some, none⟩ := Op.ends_resolve.mp (Ends.eq_ok_iff.mp h)
  cases found : w.resolve? id path with
  | none => cases (none found).1
  | some t => rw [Except.ok.inj (some t found).1]

theorem node?_of_ok {id : NodeId} {n : Node}
    (h : Op.node id w = .ok n v) : w.node? id = some n := by
  obtain ⟨some, none⟩ := Op.ends_node.mp (Ends.eq_ok_iff.mp h)
  cases found : w.node? id with
  | none => cases (none found).1
  | some n' => rw [Except.ok.inj (some n' found).1]

theorem ok_of_lift {α : Type} {x : Except Fault α} {a : α} (h : Op.lift x w = .ok a v) :
    x = .ok a := by
  cases x with
  | error f => cases h
  | ok b =>
    cases h
    rfl

theorem true_of_require {c : Bool} {f : Fault} (h : Op.require c f w = .ok () v) : c = true := by
  cases c with
  | false => cases h
  | true => rfl

/-- What is only read comes first. -/
theorem does_after {α β : Type} {x : Op α} {f : α → Op β} (h : Op.Reads x)
    (next : ∀ a, x w = .ok a w → Ends (f a) w fun _ v => Does i words w v) :
    Ends (x >>= f) w fun _ v => Does i words w v := by
  have same := h w
  rw [Ends.bind_iff]
  unfold Ends at same ⊢
  cases result : x w with
  | ok a v =>
    rw [result] at same
    dsimp only at same ⊢
    subst same
    exact next a result
  | error e v =>
    rw [result] at same
    dsimp only at same ⊢
    subst same
    exact .same

/-- An operation that ends in one of the kinds of changes does so whatever it gives back. -/
theorem does_of_reads {α : Type} {x : Op α} (h : Op.Reads x) :
    Ends x w fun _ v => Does i words w v :=
  (h w).mono fun _ _ same => same ▸ .same

theorem does_of_minds {α : Type} {x : Op α} (h : Op.Minds i.node x) (numbered : w.IsNumbered) :
    Ends x w fun _ v => Does i words w v := by
  refine (h w numbered).mono fun _ v did => ?_
  rcases did with rfl | ⟨⟨c, asker, trusted⟩, changes⟩
  · exact .same
  · exact .governs c asker trusted changes

theorem does_aliasWords (numbered : w.IsNumbered) :
    Ends (aliasWords i words) w fun _ v => Does i words w v := by
  refine does_of_minds ?_ numbered
  unfold aliasWords
  split
  · refine Op.minds_aliasByShape.before fun a => ?_
    split
    · exact .pure _
    · split <;> exact .pure _
  · exact (Op.Reads.pure _).minds

/-- A change of trust. -/
theorem does_trust (change : TrustChange) (path : Text) {result : Text}
    (asked : trustWords i.name words = some (path, change)) :
    Ends (do change.run i.node path; return result : Op Text) w fun _ v => Does i words w v := by
  have settled : Ends (change.run i.node path) w fun _ v => Does i words w v := by
    refine change.settles_run.mono fun r v ending => ?_
    rcases ending with ⟨rfl, -⟩ | ⟨-, target, n, takes⟩
    · exact .same
    · exact .trusts change path target n asked takes
  exact .bind settled (fun _ _ did => did) fun _ _ did => did

theorem does_toggle {get : Trust → Bool} (change : Bool → TrustChange) (given : List Text)
    (asked : ∀ path word on, given = [path, word] → Text.toBool word = .ok on →
      trustWords i.name words = some (path, change on)) :
    Ends (toggle get (fun caller path on => (change on).run caller path) i given) w fun _ v =>
      Does i words w v := by
  unfold toggle
  split
  · refine does_after (Op.reads_lift _) fun on meant =>
      does_trust _ _ (asked _ _ on rfl (ok_of_lift meant))
  · exact does_of_reads ((Op.reads_resolve _ _).bind fun target => (Op.reads_node target).bind
      fun n => Op.Reads.pure _)

theorem trustWords_of_toggled {name path word : Text} {change : Bool → TrustChange} {on : Bool}
    (toggled : toggled? name = some change) (meant : Text.toBool word = .ok on) :
    trustWords name [path, word] = some (path, change on) := by
  have other : name ≠ "marktrusted" := by
    rintro rfl
    cases toggled
  simp only [trustWords, other, if_false, toggled, meant]

theorem does_switchOn {get : Trust → Bool} (change : Bool → TrustChange)
    (toggled : toggled? i.name = some change)
    (alone : ∀ path, trustWords i.name [path] = some (path, change true)) :
    Ends (switchOn get (fun caller path on => (change on).run caller path) i words) w fun _ v =>
      Does i words w v := by
  have yes : Text.toBool "1" = .ok true := by decide +kernel
  unfold switchOn
  split
  · refine does_toggle change _ fun path word on same meant => ?_
    cases same
    obtain rfl := Except.ok.inj (yes.symm.trans meant)
    exact alone _
  · refine does_toggle change _ fun path word on same meant => ?_
    rw [same]
    exact trustWords_of_toggled toggled meant

theorem does_policy (numbered : w.IsNumbered) :
    Ends (policy i words) w fun _ v => Does i words w v := by
  refine does_of_minds (.after (Op.reads_lift _) fun parsed => ?_) numbered
  split
  dsimp only
  split
  · split
    · exact .after (Op.Reads.pure _) fun _ => Op.minds_addPolicy
    · exact .after (Op.reads_lift _) fun _ => Op.minds_addPolicy
  · exact (Op.Reads.throw _).minds

theorem does_delete (numbered : w.IsNumbered) :
    Ends (delete i words) w fun _ v => Does i words w v := by
  have c := World.composes_departs
  have all (words : List Text) (u : World)
      (removed : ∀ Z, w.IsClosed Z → Z i.node → World.Wanes Z w u) (departed : World.Departs w u) :
      Ends (words.forM fun path => Op.delete i.context.worker i.node path) u fun _ v =>
        (∀ Z, w.IsClosed Z → Z i.node → World.Wanes Z w v) ∧ World.Departs w v := by
    induction words generalizing u with
    | nil => exact ⟨removed, departed⟩
    | cons path words ih =>
      have before := removed _ (World.isClosed_all w) trivial
      have numbered' := before.isNumbered numbered
      have step : Ends (Op.delete i.context.worker i.node path) u fun _ v =>
          (∀ Z, w.IsClosed Z → Z i.node → World.Wanes Z w v) ∧ World.Departs w v := by
        refine ((Op.settles_delete _ _ _ numbered').and (Op.leaves_delete _ numbered')).mono
          fun _ v did => ⟨?_, departed.trans c (World.Leaves.departs did.2)⟩
        rcases did.1 with ⟨rfl, -⟩ | ⟨-, target, t, resolved, -, -, -, wanes⟩
        · exact removed
        · intro Z closed inside
          have closed' := (removed Z closed inside).isClosed closed
          exact (removed Z closed inside).trans
            (wanes Z closed' (closed'.resolve? numbered' inside resolved))
      exact .bind step (fun _ v did => ih v did.1 did.2) fun _ _ did => did
  unfold delete
  refine .bind (all words w (fun Z _ _ => .refl w) (.refl c w)) (fun _ v did => ?_)
    fun _ _ did => .wanes did.1 did.2
  exact .wanes did.1 did.2

theorem does_disposeShared (numbered : w.IsNumbered) {path : Text} {result : Text} :
    Ends (do Op.disposeShared i.context.worker i.node path; return result : Op Text) w fun _ v =>
      Does i words w v := by
  have settled : Ends (Op.disposeShared i.context.worker i.node path) w fun _ v =>
      Does i words w v := by
    refine ((Op.settles_disposeShared _ _ _ numbered).and
      (Op.leaves_disposeShared _ numbered)).mono fun _ v did => ?_
    rcases did.1 with ⟨rfl, -⟩ | ⟨-, -, target, t, resolved, -, -, -, wanes⟩
    · exact .same
    · exact .wanes (fun Z closed inside =>
        wanes Z closed (closed.resolve? numbered inside resolved)) (World.Leaves.departs did.2)
  exact .bind settled (fun _ _ did => did) fun _ _ did => did

theorem does_shareInterp (numbered : w.IsNumbered) {path source : Text} :
    Ends (Op.shareInterp i.node path source) w fun _ v => Does i words w v := by
  refine (Op.settles_shareInterp _ _ _ numbered).mono fun _ v did => ?_
  rcases did with
    ⟨rfl, -⟩ | ⟨⟨c, asker, trusted⟩, shared, holder, h, -, toHolder, -, -, -, -, -, changes⟩
  · exact .same
  · exact .governs c asker trusted (changes.nodes.imp fun _ _ _ found change =>
      Op.isGoverned_sharesAt numbered toHolder found change)

theorem does_create (numbered : w.IsNumbered) :
    Ends (create i words) w fun _ v => Does i words w v := by
  have made (path name : Text) (options : CreateOptions) {f : NodeId → Op Text}
      (rest : ∀ id u, Ends (f id) u fun _ v => World.Still u v ∧ v.nodes = u.nodes) :
      Ends (Op.create i.node path name options >>= f) w fun _ v => Does i words w v := by
    refine .bind (Op.settles_create _ path name options numbered) (fun id u did => ?_)
      fun e u did => ?_
    · refine (rest id u).mono fun _ v noted => ?_
      rcases did with ⟨-, e, refused⟩ | ⟨c, p, parent, m, asker, valid, resolved, found, free, grown⟩
      · cases refused
      · rcases grown with ⟨-, grows, child⟩ | ⟨⟨e, refused⟩, -⟩
        · exact .grows options name path parent c p m asker resolved found
            (grows.rests noted.1 noted.2) child
        · cases refused
    · rcases did with ⟨rfl, -⟩ | ⟨c, p, parent, m, asker, valid, resolved, found, free, grown⟩
      · exact .same
      · rcases grown with ⟨refused, -⟩ | ⟨-, gains, n, isNew, detached, bare, strips, released⟩
        · cases refused
        · exact .spoils options path parent c p n m asker resolved found gains isNew
            detached bare strips released
  unfold create
  refine does_after (Op.reads_lift _) fun parsed _ => ?_
  split
  refine does_after (Op.reads_require _ _) fun _ _ => does_after Op.reads_get fun u _ => ?_
  dsimp only
  split
  all_goals
    refine made _ _ _ fun id u => ?_
    exact ⟨.log _ _ _ u, World.nodes_log _ _ _ u⟩

end Control

end InterpTree
