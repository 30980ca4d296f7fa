import InterpTree.Proofs.Heredity
import InterpTree.Proofs.LimitCommands
import InterpTree.Proofs.LimitPasses
import InterpTree.Proofs.Refusals

/-!
What is left of an interpreter that a manifest could not finish. Main statement: where a manifest is
refused on the way to an interpreter, that interpreter is there afterwards just if it was created and
the scripts left it there; and if it is, another manifest that lists it sets limits and does no more.
-/

namespace InterpTree

/-! ### Attempts that are refused -/

namespace Attempt

variable {α β γ : Type} {w u v : World} {x : Attempt α} {g : Fault}

theorem op_error {o : Op α} (h : (op o).run w = .ok (.error g) v) : o w = .error g v := by
  simp only [op, Act.attempt, ExceptT.run_mk] at h
  split at h
  · cases (EStateM.Result.ok.inj h).1
  · obtain ⟨same, rfl⟩ := EStateM.Result.ok.inj h
    obtain rfl := Except.error.inj same
    assumption

theorem exists_error (h : Ends x.run w fun r _ => r.toOption.any fun a => !a.isOk) :
    ∃ g v, x.run w = .ok (.error g) v := by
  unfold Ends at h
  split at h
  · rename_i r v ran
    cases r with
    | ok a => cases h
    | error g => exact ⟨g, v, ran⟩
  · cases h

/-- Of two parts the first is refused, or the second. -/
theorem bind_error {f : α → Attempt β} (h : (x >>= f).run w = .ok (.error g) v) :
    x.run w = .ok (.error g) v ∨
      ∃ a u, x.run w = .ok (.ok a) u ∧ (f a).run u = .ok (.error g) v := by
  rw [ExceptT.run_bind] at h
  obtain ⟨r, u, begins, rest⟩ := Ends.of_bind_ok h
  cases r with
  | ok a => exact .inr ⟨a, u, begins, rest⟩
  | error g' =>
    obtain ⟨same, rfl⟩ := EStateM.Result.ok.inj rest
    obtain rfl := Except.error.inj same
    exact .inl begins

theorem noting_error {note : Text} (h : (noting note x).run w = .ok (.error g) v) :
    ∃ g', x.run w = .ok (.error g') v ∧ g = g'.noted note := by
  obtain ⟨r, u, begins, rest⟩ := Ends.of_bind_ok h
  cases r with
  | ok a => cases (EStateM.Result.ok.inj rest).1
  | error g' =>
    obtain ⟨same, rfl⟩ := EStateM.Result.ok.inj rest
    obtain rfl := Except.error.inj same
    exact ⟨g', begins, rfl⟩

/-- A loop is refused at one of its items. -/
theorem forM_error {f : γ → Attempt PUnit} {as : List γ}
    (h : (as.forM f).run w = .ok (.error g) v) :
    ∃ pre a post u, as = pre ++ a :: post ∧ (pre.forM f).run w = .ok (.ok ⟨⟩) u ∧
      (f a).run u = .ok (.error g) v := by
  induction as generalizing w with
  | nil => cases (EStateM.Result.ok.inj h).1
  | cons a as ih =>
    rcases bind_error h with refused | ⟨_, u, begins, rest⟩
    · exact ⟨[], a, as, w, rfl, rfl, refused⟩
    · obtain ⟨pre, b, post, u', rfl, before, refused⟩ := ih rest
      exact ⟨a :: pre, b, post, u', rfl, (bind_of_run begins).trans before, refused⟩

end Attempt

/-- What holds of an operation that was refused. -/
theorem Settles.of_error {α : Type} {x : Op α} {w v : World} {f : Fault}
    {Q : Except Fault α → World → Prop} (h : Settles x w Q) (result : x w = .error f v) :
    v = w ∨ Q (.error f) v := by
  unfold Settles Ends at h
  rw [result] at h
  exact h.imp_left And.left

/-! ### Steps that leave paths alone -/

namespace Op

variable {α β : Type} {caller : NodeId} {path name : Text} {x : Op α}

/-- However the operation ends, paths lead where they led. -/
def KeepsWays (x : Op α) : Prop := ∀ w, Ends x w fun _ v => w.SameWays v

theorem Reads.keepsWays (h : Reads x) : KeepsWays x := fun w =>
  (h w).mono fun _ _ same => same ▸ .refl World.composes_sameWays w

theorem KeepsWays.bind {f : α → Op β} (h : KeepsWays x) (next : ∀ a, KeepsWays (f a)) :
    KeepsWays (x >>= f) := fun w =>
  .bind (h w) (fun a v first => (next a v).mono fun _ _ second =>
    first.trans World.composes_sameWays second) fun _ _ first => first

theorem keepsWays_of_settles {Q : World → Except Fault α → World → Prop}
    (h : ∀ w, Settles x w (Q w))
    (ways : ∀ w r v, Q w r v → ∃ target n m, World.Amends target n m w v ∧ n.SameWays m) :
    KeepsWays x := fun w =>
  (h w).leaves (.refl World.composes_sameWays w) fun r v done => by
    obtain ⟨target, n, m, amends, same⟩ := ways w r v done
    exact amends.each World.composes_sameWays same

theorem keepsWays_overrideLimits (o : Limits.Override) :
    KeepsWays (overrideLimits caller path o) :=
  keepsWays_of_settles (fun _ => settles_overrideLimits o) fun _ _ _ ⟨_, _, _, amends⟩ =>
    ⟨_, _, _, amends, rfl, rfl, rfl, rfl⟩

theorem keepsWays_hide (newName : Text) : KeepsWays (hide caller path name newName) :=
  keepsWays_of_settles (fun _ => settles_hide newName)
    fun _ _ _ ⟨_, _, _, _, _, _, _, amends⟩ => ⟨_, _, _, amends, rfl, rfl, rfl, rfl⟩

theorem keepsWays_expose (newName : Text) : KeepsWays (expose caller path name newName) :=
  keepsWays_of_settles (fun _ => settles_expose newName)
    fun _ _ _ ⟨_, _, _, _, _, _, _, amends⟩ => ⟨_, _, _, amends, rfl, rfl, rfl, rfl⟩

theorem keepsWays_defineAlias (targetPath targetName : Text) (bound : List Text) :
    KeepsWays (defineAlias caller path name targetPath targetName bound) :=
  keepsWays_of_settles (fun _ => settles_defineAlias targetPath targetName bound) fun _ _ _ => by
    rintro ⟨-, _, n, _, m, _, _, -, -, -, made, -, amends⟩
    refine ⟨_, _, _, amends, ?_⟩
    obtain ⟨_, _, -, -, clears, -, -, -, rfl⟩ := Node.of_defineAlias made
    rw [Node.same_of_clears clears]
    exact ⟨rfl, rfl, rfl, rfl⟩

theorem keepsWays_deleteAlias : KeepsWays (deleteAlias caller path name) :=
  keepsWays_of_settles (fun _ => settles_deleteAlias)
    fun _ _ _ ⟨_, _, _, _, _, _, amends⟩ => ⟨_, _, _, amends, rfl, rfl, rfl, rfl⟩

theorem keepsWays_aliasByShape (rest : List Text) :
    KeepsWays (aliasByShape caller path name rest) := by
  have done {α : Type} (a : α) : KeepsWays (pure a : Op α) := (Reads.pure a).keepsWays
  unfold aliasByShape
  split
  · exact reads_queryAlias.keepsWays.bind fun a => done _
  · exact keepsWays_deleteAlias.bind fun _ => done _
  · refine reads_get.keepsWays.bind fun w => ?_
    split
    · exact (Reads.throw _).keepsWays
    · exact keepsWays_deleteAlias.bind fun _ => done _
  · exact (keepsWays_defineAlias _ _ _).bind fun _ => done _
  · exact (Reads.throw _).keepsWays

theorem keepsWays_addPolicy (spec : PolicySpec) : KeepsWays (addPolicy caller path spec) :=
  keepsWays_of_settles (fun _ => settles_addPolicy spec) fun _ _ _ ⟨_, _, _, _, amends⟩ =>
    ⟨_, _, _, amends, rfl, rfl, rfl, rfl⟩

theorem keepsWays_trust (c : TrustChange) : KeepsWays (c.run caller path) := fun w =>
  c.settles_run.leaves (.refl World.composes_sameWays w) fun _ _ ⟨_, _, _, takes⟩ => takes.sameWays

theorem keepsWays_startWatchdog : KeepsWays (Manifest.startWatchdog caller path) :=
  (reads_resolve caller path).keepsWays.bind fun target w =>
    (World.changes_startWatchdog target w).nodes.mono fun i n m stirs => by
      unfold World.At at stirs
      split at stirs
      · rw [stirs.same]
        exact ⟨rfl, rfl, rfl, rfl⟩
      · exact stirs ▸ ⟨rfl, rfl, rfl, rfl⟩

end Op

namespace Attempt

variable {α β γ : Type} {x : Attempt α}

/-- However the attempt ends, paths lead where they led. -/
def KeepsWays (x : Attempt α) : Prop := ∀ w, Ends x.run w fun _ v => w.SameWays v

namespace KeepsWays

theorem done (a : α) : KeepsWays (pure a) := fun w => .refl World.composes_sameWays w

theorem op {o : Op α} (h : Op.KeepsWays o) : KeepsWays (Attempt.op o) := fun w => by
  have ends := h w
  simp only [Ends, Attempt.op, Act.attempt, ExceptT.run_mk] at ends ⊢
  split at ends <;> simp_all

theorem bind {f : α → Attempt β} (first : KeepsWays x) (next : ∀ a, KeepsWays (f a)) :
    KeepsWays (x >>= f) := fun w => by
  rw [ExceptT.run_bind]
  refine .bind (first w) (fun r v ways => ?_) fun _ _ ways => ways
  cases r with
  | ok a => exact (next a v).mono fun _ _ more => ways.trans World.composes_sameWays more
  | error g => exact ways

theorem noting (note : Text) (h : KeepsWays x) : KeepsWays (Attempt.noting note x) := fun w =>
  .bind (h w) (fun _ _ ways => ways) fun _ _ ways => ways

theorem forM {f : γ → Attempt PUnit} (h : ∀ a, KeepsWays (f a)) (as : List γ) :
    KeepsWays (as.forM f) := by
  induction as with
  | nil => exact .done _
  | cons a as ih => exact (h a).bind fun _ => ih

/-- An operation that is asked for, or left out, and what follows it. -/
theorem optional (asked : Bool) {o : Op Unit} (h : Op.KeepsWays o) {x : Attempt α}
    (rest : KeepsWays x) : KeepsWays (if asked = true then (do Attempt.op o; x) else x) := by
  split
  · exact (KeepsWays.op h).bind fun _ => rest
  · exact rest

theorem sameWays {w v : World} {r : Except Fault α} (h : KeepsWays x) (ran : x.run w = .ok r v) :
    w.SameWays v := by
  have ends := h w
  unfold Ends at ends
  rwa [ran] at ends

end KeepsWays

end Attempt

/-! ### Interpreters that were created, and those that were not -/

namespace World

variable {w v : World} {r a b : NodeId} {path name : Text} {n : Node} {f : Fault}
  {options : CreateOptions}

theorem Retains.live? (h : w.Retains v) (i : NodeId) : v.live? i = w.live? i := by
  have split (u : World) : u.live? i = (u.attached? i).filter fun n => !n.dead := by
    unfold World.live? attached?
    rw [Option.filter_filter]
    rfl
  rw [split, split, h.arena]

theorem Retains.child? (h : w.Retains v) (found : w.node? a = some n) (name : Text) :
    v.child? a name = w.child? a name := by
  simp only [World.child?, found, h.nodes a n found, h.live?]

/-- Names lead on as they did from a node that was there. -/
theorem Retains.follow? (h : w.Retains v) (numbered : w.IsNumbered) (found : w.node? a = some n)
    (names : List Text) : v.follow? a names = w.follow? a names := by
  induction names generalizing a n with
  | nil => rfl
  | cons name names ih =>
    rw [World.follow?, World.follow?, h.child? found]
    cases child : w.child? a name with
    | none => rfl
    | some b =>
      obtain ⟨_, l, t, -, -, -, target, -, rfl⟩ := child?_eq_some_iff.mp child
      exact ih (numbered _ t target ▸ target)

theorem Retains.resolve? (h : w.Retains v) (numbered : w.IsNumbered) (found : w.node? a = some n)
    (path : Text) : v.resolve? a path = w.resolve? a path := by
  cases dead : n.dead with
  | true => simp [World.resolve?, found, h.nodes a n found, dead]
  | false => rw [resolve?_eq found dead, resolve?_eq (h.nodes a n found) dead, h.follow? numbered found]

/-- Where a creation is refused, paths lead where they led. -/
theorem resolve?_of_create_refused (numbered : w.IsNumbered) {base : Text}
    (refused : Op.create r base name options w = .error f v) : v.resolve? r path = w.resolve? r path := by
  rcases (Op.settles_create r base name options numbered).of_error refused with rfl | made
  · rfl
  · obtain ⟨c, p, parent, m, asker, -, -, -, -, ⟨⟨⟩, -⟩ | ⟨-, gains, n, -, detached, -, strips, -⟩⟩ := made
    refine (gains.retains (Bool.eq_false_iff.mpr fun attached => ?_)).resolve? numbered asker path
    rw [strips.attached attached] at detached
    cases detached

/-- Who is created is found at the path that it is created for. -/
theorem resolve?_of_created (numbered : w.IsNumbered)
    (whole : joinPath (splitPath path).1 (splitPath path).2 = path) {id : NodeId}
    (ok : Op.create r (splitPath path).1 (splitPath path).2 options w = .ok id v) :
    v.resolve? r path = some id := by
  obtain ⟨c, p, parent, m, asker, valid, resolved, found, free, ⟨same, grows, child⟩ | ⟨⟨_, ⟨⟩⟩, -⟩⟩ :=
    (Op.settles_create r _ _ options numbered).of_ok ok
  obtain rfl := Except.ok.inj same
  obtain ⟨k, foundK, alive⟩ := exists_of_resolve? resolved
  have reached : v.resolve? r (splitPath path).1 = some parent := by
    rw [resolve?_eq foundK alive] at resolved
    rw [resolve?_eq (grows.node_old foundK) (by split <;> exact alive)]
    exact grows.extends.follow? resolved
  rw [← whole, resolve?_joinPath valid, reached, Option.bind_some]
  exact grows.child?_new child found (alive_of_resolved numbered resolved found) free

theorem SameWays.pathExists (same : w.SameWays v) (r : NodeId) (path : Text) :
    v.pathExists r path = w.pathExists r path := by
  rw [World.pathExists, same.resolve?, World.pathExists]

end World

/-! ### Interpreters made in three parts -/

namespace Manifest

variable (e : Engine) (context : Option Context) (root : NodeId) (everywhere : Limits.Override)
  (spec : InterpreterSpec)

/-- Creates an interpreter. -/
def create : Op NodeId :=
  Op.create root (splitPath spec.path).1 (splitPath spec.path).2
    { safe := spec.safe, standard := spec.standard, fullCommands := spec.fullCommands
      noCommands := spec.noCommands }

/-- Gives an interpreter all that it needs before its scripts run. -/
def prepare : Attempt Unit := do
  Attempt.op (Op.overrideLimits root spec.path everywhere)
  Attempt.op (Op.overrideLimits root spec.path spec.limits)
  spec.hide.forM fun name =>
    Attempt.noting ("hide " ++ name) (Attempt.op (Op.hide root spec.path name []))
  spec.expose.forM fun name =>
    Attempt.noting ("expose " ++ name) (Attempt.op (Op.expose root spec.path name []))
  spec.aliases.forM fun a =>
    Attempt.noting ("alias " ++ a.name) do
      let _ ← Attempt.op (Op.aliasByShape root spec.path a.name (a.target :: a.command :: a.args))
  spec.policies.forM fun p =>
    Attempt.noting "policy" do
      let _ ← Attempt.op (Op.addPolicy root spec.path
        { onInvoke := !p.evaluate, onEvaluate := p.evaluate, type := p.type, token := p.token
          script := p.script })

/-- Runs the scripts of an interpreter. -/
def runScripts : Attempt Unit :=
  spec.scripts.zipIdx.forM fun (script, i) =>
    Attempt.noting ("scripts[" ++ Text.ofNat i ++ "]")
      (Attempt.evaluation (e.evaluateIn context root spec.path script))

/-- Starts the watchdog of an interpreter and sets its marks. -/
def finish : Attempt Unit := do
  if spec.watchdog then Attempt.op (startWatchdog root spec.path)
  if spec.trusted then Attempt.op (Op.markTrusted root spec.path)
  if spec.readOnly then Attempt.op (Op.setReadOnly root spec.path true)
  if spec.immutable then Attempt.op (Op.setImmutable root spec.path true)

theorem make_eq : make e context root everywhere spec = (do
    let _ ← Attempt.op (create root spec)
    prepare root everywhere spec
    runScripts e context root spec
    finish root spec) := by
  simp only [make, prepare, runScripts, finish, create, bind_assoc]

theorem keepsWays_prepare : Attempt.KeepsWays (prepare root everywhere spec) := by
  refine .bind (.op (Op.keepsWays_overrideLimits everywhere)) fun _ =>
    .bind (.op (Op.keepsWays_overrideLimits spec.limits)) fun _ =>
    .bind (.forM (fun name => .noting _ (.op (Op.keepsWays_hide []))) _) fun _ =>
    .bind (.forM (fun name => .noting _ (.op (Op.keepsWays_expose []))) _) fun _ =>
    .bind (.forM (fun a => .noting _ ?aliases) _) fun _ => .forM (fun p => .noting _ ?guards) _
  case aliases => exact .bind (.op (Op.keepsWays_aliasByShape _)) fun _ => .done _
  case guards => exact .bind (.op (Op.keepsWays_addPolicy _)) fun _ => .done _

theorem keepsWays_finish : Attempt.KeepsWays (finish root spec) := by
  have last : Attempt.KeepsWays
      (if spec.immutable = true then Attempt.op (Op.setImmutable root spec.path true) else pure ()) := by
    split
    · exact .op (Op.keepsWays_trust (.immutable true))
    · exact .done _
  exact .optional _ Op.keepsWays_startWatchdog (.optional _ (Op.keepsWays_trust .trusted)
    (.optional _ (Op.keepsWays_trust (.readOnly true)) last))

/-- The interpreter is created, and its scripts, if it comes to them, leave it at its path. -/
def LeavesThere (w : World) : Prop :=
  ∃ id u, create root spec w = .ok id u ∧
    ∀ s r t, (prepare root everywhere spec).run u = .ok (.ok ()) s →
      (runScripts e context root spec).run s = .ok r t → t.pathExists root spec.path = true

variable {e context root everywhere spec} {w u v : World} {g f : Fault}

/-- An interpreter that could not be finished is there just if it was created and the scripts left it
there. Nothing is undone. -/
theorem exists_of_make_refused_iff (numbered : w.IsNumbered)
    (whole : joinPath (splitPath spec.path).1 (splitPath spec.path).2 = spec.path)
    (absent : w.pathExists root spec.path = false)
    (refused : (make e context root everywhere spec).run w = .ok (.error g) v) :
    v.pathExists root spec.path = true ↔ LeavesThere e context root everywhere spec w := by
  rw [make_eq] at refused
  rcases Attempt.bind_error refused with uncreated | ⟨id, u, created, refused⟩
  · -- It was not created.
    have uncreated := Attempt.op_error uncreated
    rw [World.pathExists, World.resolve?_of_create_refused numbered uncreated]
    refine iff_of_false (by simpa [World.pathExists] using absent) ?_
    rintro ⟨id, u, created, -⟩
    cases uncreated.symm.trans created
  have created := Attempt.of_op created
  have there : u.pathExists root spec.path = true := by
    rw [World.pathExists, World.resolve?_of_created numbered whole created]
    rfl
  rcases Attempt.bind_error refused with unprepared | ⟨_, s, prepared, refused⟩
  · -- It did not come to the scripts.
    have ways := (keepsWays_prepare root everywhere spec).sameWays unprepared
    refine iff_of_true ((ways.pathExists root spec.path).trans there)
      ⟨id, u, created, fun s r t prepared => ?_⟩
    cases unprepared.symm.trans prepared
  have once {r : Except Fault Unit} {t : World} (ran : (runScripts e context root spec).run s = .ok r t) :
      LeavesThere e context root everywhere spec w ↔ t.pathExists root spec.path = true := by
    constructor
    · rintro ⟨id', u', created', left⟩
      obtain ⟨rfl, rfl⟩ := EStateM.Result.ok.inj (created.symm.trans created')
      exact left s r t prepared ran
    · refine fun left => ⟨id, u, created, fun s' r' t' prepared' ran' => ?_⟩
      obtain ⟨-, rfl⟩ := EStateM.Result.ok.inj (prepared.symm.trans prepared')
      obtain ⟨-, rfl⟩ := EStateM.Result.ok.inj (ran.symm.trans ran')
      exact left
  rcases Attempt.bind_error refused with failed | ⟨_, t, ran, unfinished⟩
  · exact (once failed).symm
  · rw [once ran, ((keepsWays_finish root spec).sameWays unfinished).pathExists]

/-! ### Manifests that are refused -/

/-- The manifest comes to an interpreter that is not there, and is refused on the way to it: `u` is
the world before and `v` the one after. -/
def StopsAt (e : Engine) (context : Option Context) (root : NodeId) (m : Manifest) (w : World)
    (spec : InterpreterSpec) (u : World) (g : Fault) (v : World) : Prop :=
  ∃ before after, m.interpreters = before ++ spec :: after ∧
    (establish e context root m.limits before).run w = .ok (.ok ()) u ∧
    u.pathExists root spec.path = false ∧
    (make e context root m.limits spec).run u = .ok (.error g) v

/-- Why a manifest is refused. -/
theorem of_apply_error {m : Manifest} (refused : (m.apply e context root).run w = .ok (.error f) v) :
    (∃ spec u g, m.StopsAt e context root w spec u g v ∧
      f = g.noted ("manifest: interpreter " ++ Text.quoted spec.path)) ∨
    ∃ u, (establish e context root m.limits m.interpreters).run w = .ok (.ok ()) u ∧
      m.applyLimits root u = .error f v := by
  rw [apply_eq] at refused
  rcases Attempt.bind_error refused with stopped | ⟨_, u, made, limited⟩
  · refine .inl ?_
    obtain ⟨before, spec, after, u, split, done, stopped⟩ := Attempt.forM_error stopped
    rcases Attempt.bind_error stopped with never | ⟨_, u', looks, stopped⟩
    · cases (EStateM.Result.ok.inj never).1
    obtain ⟨same, rfl⟩ := EStateM.Result.ok.inj looks
    obtain rfl := Except.ok.inj same
    split at stopped
    · rename_i absent
      rcases Attempt.bind_error stopped with stopped | ⟨_, u', -, never⟩
      · obtain ⟨g, unmade, rfl⟩ := Attempt.noting_error stopped
        exact ⟨spec, u, g, ⟨before, after, split, done, by simpa using absent, unmade⟩, rfl⟩
      · cases (EStateM.Result.ok.inj never).1
    · cases (EStateM.Result.ok.inj stopped).1
  · exact .inr ⟨u, made, Attempt.op_error limited⟩

end Manifest

namespace World

/-- Let a manifest be refused, at any moment of a tree. Then either its interpreters were made and a
limit is refused, or it was on the way to an interpreter that was not there; and then that interpreter
is there afterwards just if it was created and the scripts, if it came to them, left it. Afterwards a
manifest of interpreters that are there runs no scripts, and if its limits are granted, changes
nothing else. -/
theorem refused_interpreter_stays_from_plant_iff {settings : Settings} {host : Host} {w₀ : World}
    (planted : plant settings host = .ok w₀) (pace : Pace) (fuel : Nat) (mo : Moment)
    (stops : Request → World → Bool) (fuel' : Nat) {context : Option Context} {r : NodeId}
    {m : Manifest} {f : Fault} {v : World}
    (refused : (m.apply (.upTo pace stops fuel') context r).run (mo.world pace fuel w₀) =
      .ok (.error f) v) :
    ((∃ u, (Manifest.establish (.upTo pace stops fuel') context r m.limits m.interpreters).run
          (mo.world pace fuel w₀) = .ok (.ok ()) u ∧ m.applyLimits r u = .error f v) ∨
      ∃ spec u g, m.StopsAt (.upTo pace stops fuel') context r (mo.world pace fuel w₀) spec u g v ∧
        f = g.noted ("manifest: interpreter " ++ Text.quoted spec.path) ∧
        (joinPath (splitPath spec.path).1 (splitPath spec.path).2 = spec.path →
          (v.pathExists r spec.path = true ↔
            Manifest.LeavesThere (.upTo pace stops fuel') context r m.limits spec u))) ∧
    ∀ e' context' (m' : Manifest), (∀ spec ∈ m'.interpreters, v.pathExists r spec.path = true) →
      (m'.apply e' context' r).run v = (Attempt.op (m'.applyLimits r)).run v ∧
      ∀ v', m'.applyLimits r v = .ok () v' → v.IsLike v' := by
  have heedful := isHeedful_world pace fuel (isHeedful_plant planted) mo
  refine ⟨?_, fun e' context' m' there => ⟨Manifest.apply_of_exists there, fun v' ok => ?_⟩⟩
  · rcases (Manifest.of_apply_error refused).symm with limited | ⟨spec, u, g, stopped, same⟩
    · exact .inl limited
    · refine .inr ⟨spec, u, g, stopped, same, fun whole => ?_⟩
      obtain ⟨before, after, -, done, absent, unmade⟩ := stopped
      -- Whatever ran before, nodes kept their numbers.
      have twins : (Regime.heeding fun _ => False).Twins
          (.upTo pace stops fuel') (.upTo pace stops fuel') :=
        Regime.heeding_twins pace (fun _ _ stopped => stopped) (fun _ never => never.elim) fuel'
      have heeds : Attempt.Heeds (fun _ => False) _
          (Manifest.establish (.upTo pace stops fuel') context r m.limits before) _ :=
        Manifest.heeds_establish twins context m.limits before
      have kept := (heeds (Regime.lawful_heeding _) _ heedful).ends
      unfold Ends at kept
      rw [done] at kept
      exact Manifest.exists_of_make_refused_iff kept.1.1.numbered whole absent unmade
  · obtain ⟨-, -, rfl⟩ := (Op.sets_applyLimits (w := v) m' v v' (.refl composes_isLike v)).mp ok
    exact isLike_relimitAll v _

/-- An interpreter that is to be read-only, and has a script that fails. -/
def unfinished : Manifest where
  interpreters := [{ path := "b", scripts := ["nosuchcommand"], readOnly := true }]

/-- The same without the script. -/
def corrected : Manifest where
  interpreters := [{ path := "b", readOnly := true }]

/-- An engine with little fuel. -/
def frugal : Engine := .upTo .timely (fun _ _ => false) 20

/-- The tree after the script has failed. -/
def abandoned : World :=
  (sprouting.world .timely 20 sapling).after (unfinished.apply frugal none root).run

/-- The interpreter is there when the script has failed, and the corrected manifest, which is granted,
does not make it read-only. -/
theorem refused_interpreter_stays_from_plant_iff_unfinished :
    ∃ f v, (unfinished.apply frugal none root).run (sprouting.world .timely 20 sapling) =
        .ok (.error f) v ∧
      v.pathExists root "b" = true ∧
      (corrected.apply frugal none root).run v = (Attempt.op (corrected.applyLimits root)).run v ∧
      ∃ v', (corrected.apply frugal none root).run v = .ok (.ok ()) v' ∧
        (v'.live? 3).map (fun n => n.trust.readOnly) = some false := by
  obtain ⟨f, v, ran⟩ : ∃ f v,
      (unfinished.apply frugal none root).run (sprouting.world .timely 20 sapling) = .ok (.error f) v :=
    Attempt.exists_error (by decide +kernel)
  obtain rfl : abandoned = v := by simp only [abandoned, World.after, ran]
  have there : abandoned.pathExists root "b" = true := by decide +kernel
  obtain ⟨v', applied, still⟩ : ∃ v', (corrected.apply frugal none root).run abandoned = .ok (.ok ()) v' ∧
      (v'.live? 3).map (fun n => n.trust.readOnly) = some false := Ends.exists_ok (by decide +kernel)
  have skips := (refused_interpreter_stays_from_plant_iff plant_sapling .timely 20 sprouting
    (fun _ _ => false) 20 ran).2 frugal none corrected (List.forall_mem_singleton.mpr there)
  exact ⟨f, _, ran, there, skips.1, v', applied, still⟩

end World

end InterpTree
