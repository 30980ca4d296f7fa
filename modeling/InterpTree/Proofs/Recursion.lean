import InterpTree.Proofs.Nesting

/-!
Limits on recursion. Main statement: whenever a request comes, the depth and the alias frames of each
node are within its limit, and so is how many requests there are.

The depth and the frames of a node stay within its limit also where a worker is overtaken. But who ends
then may pop the frames of that worker, of calls that are still being answered: it is only as long as
no worker is that the limits bound how many there are.
-/

namespace InterpTree

namespace Engine

variable {e : Engine} {w : World}

/-- An evaluation that is not refused goes on from where it has begun. -/
theorem runEvaluate_eq_begun {id : NodeId} {n : Node} (found : w.node? id = some n)
    (ready : (n.dead || !w.settings.hasEvaluator) = false) (context : Option Context)
    (script : Text) :
    e.runEvaluate context id script w =
      Act.ensuring (World.modifyNode id fun n => { n with cancel := n.cancel.exit }) (do
        let result ← e.runScript (context.getD (.ofNode id)) id script
        return limitResult (← Act.ofNode id fun n => n.cancel.limits.resultLimit) result)
      (Request.begun w (.evaluate context id script)) := by
  obtain ⟨alive, able⟩ := Bool.or_eq_false_iff.mp ready
  have begun : Request.begun w (.evaluate context id script) =
      w.modifyNode id fun n => { n with cancel := n.cancel.enter w.clock } := by
    simp [Request.begun, found, ready]
  rw [begun]
  unfold runEvaluate
  simp only [bind, EStateM.bind, Act.get_apply, found, alive, able]
  rfl

/-- A call through an alias that is not refused goes on from where it has begun. -/
theorem forward_eq_begun {call : Call} {a : Alias} {n : Node} {target : NodeId}
    (resolved : w.resolve? World.root a.targetPath = some target)
    (found : w.node? call.node = some n) (room : ¬ (0 < n.limit ∧ n.limit ≤ n.frames.depth)) :
    e.forward call a w = (do
      let result ← Act.ensuring
        (World.modifyNode call.node fun m =>
          { m with frames := (m.frames.popThrough (n.frames.issued + 1)).2 })
        (e.invoke call.context target a.targetName (a.bound ++ call.args))
      if result.isError then
        return result.annotate ("(in alias " ++ Text.quoted a.source ++ " eval " ++
          Text.quoted (Text.words (a.targetName :: (a.bound ++ call.args))) ++ ")")
      else return result) (Request.begun w (.perform call (.forward a))) := by
  have begun : Request.begun w (.perform call (.forward a)) =
      w.framed call.node ("alias " ++ a.source) (FrameFlags.restricted + FrameFlags.viaAlias) n := by
    simp [Request.begun, found, resolved, room]
  rw [begun]
  unfold forward inFrame
  unfold Node.limit at room
  simp only [bind, EStateM.bind, Act.get_apply, resolved, Act.ofNode_of_node? found, room, found,
    Bool.and_eq_true, decide_eq_true_eq, if_false]
  rfl

/-- A script that is too deep is refused before anything is requested. -/
theorem runScript_of_deep {id : NodeId} {n : Node} (found : w.node? id = some n)
    (limited : 0 < n.limit) (deep : n.limit < n.cancel.depth) (context : Context) (script : Text) :
    e.runScript context id script w = .ok tooDeep w := by
  unfold Node.limit at limited deep
  unfold runScript
  simp only [bind, EStateM.bind, Act.ofNode_of_node? found, limited, deep, decide_true,
    Bool.and_self, if_true]
  rfl

end Engine

namespace Regime

variable {w v : World} {pace : Pace} {ℓ : NodeId → Int} {active : List Request} {r : Request}

/-- What runs keep to while the `active` requests are being answered, but for more of those that
nest. -/
def nesting (pace : Pace) (ℓ : NodeId → Int) (active : List Request) : Regime :=
  leveling pace ℓ (World.Counts pace ℓ active) fun r w => r.nests = true → w.node? r.node = none

theorem counts_of_relevels (h : w.Counts pace ℓ active) (relevels : World.Relevels pace w v) :
    v.Counts pace ℓ active := by
  rcases h with ⟨timely, i, overtaken⟩ | ⟨nests, fits⟩
  · exact .inl ⟨timely, i, relevels.unfinished timely i overtaken⟩
  · by_cases overtaken : pace = .timely ∧ ∃ i, v.IsUnfinished i
    · exact .inl overtaken
    · refine .inr ⟨nests.levels (relevels.levels fun timely i there => ?_), fits⟩
      exact (overtaken ⟨timely, i, there⟩).elim

theorem lawful_nesting : (nesting pace ℓ active).Lawful := by
  -- Nothing is entered and no frame of an alias pushed: the requests that would do so are permitted
  -- only for nodes that were never made.
  refine lawful_leveling counts_of_relevels ?_ ?_
  · intro w id n name flags within counts found forwards
    have plain : FrameFlags.isAlias flags = false := by
      cases marked : FrameFlags.isAlias flags with
      | false => rfl
      | true =>
        obtain ⟨call, a, rfl, missing⟩ := forwards marked
        exact absurd (missing rfl) (by simp [Request.node, found])
    refine ⟨within.framed found fun _ marked => absurd marked (by simp [plain]), ?_⟩
    rcases counts with ⟨timely, i, overtaken⟩ | ⟨nests, fits⟩
    · exact .inl ⟨timely, i, World.isUnfinished_framed.mpr overtaken⟩
    · exact .inr ⟨nests.framed found plain, fits⟩
  · intro w context id script n _ _ found missing
    exact absurd (missing rfl) (by simp [Request.node, found])

/-- What a request that nests comes to from `w`: the nodes are at their levels again, or it strays. -/
def Recounts (pace : Pace) (ℓ : NodeId → Int) (active : List Request) (w : World) :
    Except Stop Completion → World → Prop :=
  Reached ((nesting pace ℓ active).strays w)
    fun v => v.IsNumbered ∧ v.Within ℓ ∧ World.Relevels pace w v

/-- An evaluation in a node that is there. -/
theorem tracks_nesting_evaluate {e e' : Engine} {context : Option Context} {id : NodeId}
    {script : Text} {n : Node}
    (twins : (nesting pace ℓ (.evaluate context id script :: active)).Twins e e')
    (inv : (nesting pace ℓ active).inv w) (limits : w.HasLimits ℓ) (found : w.node? id = some n) :
    Tracks (fun _ _ => False) (e.runEvaluate context id script) (e'.runEvaluate context id script) w
      (Recounts pace ℓ active w) := by
  obtain ⟨numbered, within, counts⟩ := inv
  have law : (nesting pace ℓ (.evaluate context id script :: active)).Lawful := lawful_nesting
  let start := w.modifyNode id fun n => { n with cancel := n.cancel.enter w.clock }
  have started : start.IsNumbered := numbered.modifyNode fun _ _ => rfl
  have body : Tracks (fun _ _ => False) (e.runScript (context.getD (.ofNode id)) id script)
      (e'.runScript (context.getD (.ofNode id)) id script) start
      (Reached ((nesting pace ℓ active).strays w) fun u => u.IsNumbered ∧
        (u.modifyNode id fun n => { n with cancel := n.cancel.exit }).Within ℓ ∧
          World.Relevels pace start u) := by
    -- One above the limit the script is refused before it makes a request, and nothing need be
    -- counted; otherwise there is room for the evaluation.
    by_cases deep : 0 < n.limit ∧ n.limit ≤ n.cancel.depth
    · have there : start.node? id = some { n with cancel := n.cancel.enter w.clock } :=
        World.node?_modifyNode_same _ found
      have refused (e : Engine) := Engine.runScript_of_deep (e := e) there deep.1
        (show n.limit < (n.cancel.depth + 1 : Nat) by omega) (context.getD (.ofNode id)) script
      refine ⟨?_, .inl ((refused e).trans (refused e').symm)⟩
      unfold Ends
      rw [refused]
      exact ⟨started, within.levels (World.Levels.exited (.refl start)), .refl start⟩
    · have same := limits.node numbered found
      have room : 0 < ℓ id → n.cancel.depth < ℓ id := by omega
      have counted : start.Counts pace ℓ (.evaluate context id script :: active) := by
        rcases counts with ⟨timely, i, overtaken⟩ | ⟨nests, fits⟩
        · exact .inl ⟨timely, i, World.isUnfinished_entered.mpr overtaken⟩
        · refine .inr ⟨nests.entered found, fits.cons (fun i here positive => ?_) fun i here => by
            cases here⟩
          obtain rfl : id = i := of_decide_eq_true here
          rw [← nests.depth, World.level_eq found]
          exact room positive
      exact (law.runScript twins _ trivial script ⟨started, within.entered found room, counted⟩).mono
        fun _ _ done => done.1.imp
          (fun strayed => ⟨strayed.1, strayed.2.1, strayed.2.2.1, by simpa [start] using strayed.2.2.2⟩)
          fun led => ⟨led.1.1, led.1.2.1.exited, led.2⟩
  refine (law.tracks_entered context script body).mono fun _ v ended => ended.mono ?_
  rintro (rfl | ⟨u, ⟨left, within, relevels⟩, rfl⟩)
  · exact ⟨numbered, within, .refl v⟩
  · exact ⟨left.modifyNode fun _ _ => rfl, within, .exited relevels⟩

/-- A call through an alias of a node that is there. -/
theorem tracks_nesting_forward {e e' : Engine} {call : Call} {a : Alias} {n : Node}
    (twins : (nesting pace ℓ (.perform call (.forward a) :: active)).Twins e e')
    (inv : (nesting pace ℓ active).inv w) (limits : w.HasLimits ℓ)
    (found : w.node? call.node = some n) :
    Tracks (fun _ _ => False) (e.forward call a) (e'.forward call a) w
      (Recounts pace ℓ active w) := by
  obtain ⟨numbered, within, counts⟩ := inv
  have law : (nesting pace ℓ (.perform call (.forward a) :: active)).Lawful := lawful_nesting
  refine (law.tracks_forwardCall twins (fun _ _ => .inl trivial) (fun missing => ?_)
    (fun m here room => ?_) fun m v _ strayed => ?_).mono fun _ v ended => ended.mono ?_
  · rw [found] at missing
    cases missing
  · have same : m.cancel.limits.recursionLimit = ℓ call.node := limits.node numbered here
    have fewer : m.aliasFrames ≤ m.frames.depth := List.countP_le_length
    rw [same] at room
    have room : 0 < ℓ call.node → m.aliasFrames < ℓ call.node := fun positive => by
      have := room positive
      omega
    refine ⟨numbered.modifyNode fun _ _ => rfl, within.framed here fun positive _ => room positive, ?_⟩
    rcases counts with ⟨timely, i, overtaken⟩ | ⟨nests, fits⟩
    · exact .inl ⟨timely, i, World.isUnfinished_framed.mpr overtaken⟩
    · refine .inr ⟨nests.forwarded here FrameFlags.isAlias_forwarding,
        fits.cons (fun i counted => by cases counted) fun i counted positive => ?_⟩
      obtain rfl : call.node = i := of_decide_eq_true counted
      rw [← nests.frames, World.level_eq here]
      exact room positive
  · exact ⟨strayed.1, strayed.2.1, strayed.2.2.1, by simpa [World.framed] using strayed.2.2.2⟩
  · rintro (rfl | ⟨missing, -⟩ | ⟨m, u, here, led, rfl⟩)
    · exact ⟨numbered, within, .refl v⟩
    · rw [found] at missing
      cases missing
    · exact ⟨led.1.1.modifyNode fun _ _ => rfl, led.1.2.1.unframed _ _ _, .unframed here led.2⟩

/-- One request, provided that those that it makes itself are answered alike. -/
theorem keeps_nesting_step {e e' : Engine} (twins : (nesting pace ℓ (r.joins active w)).Twins e e')
    (limits : w.HasLimits ℓ) :
    (nesting pace ℓ active).Keeps (Engine.step e r) (Engine.step e' r) w := by
  intro inv
  have may (active : List Request) : (nesting pace ℓ active).May r := by
    cases r with
    | evaluate context id script => trivial
    | perform call action => exact ⟨trivial, trivial⟩
  have back (tracks : Tracks (fun _ _ => False) (Engine.step e r) (Engine.step e' r) w
      (Recounts pace ℓ active w)) :
      Tracks (nesting pace ℓ active).onward (Engine.step e r) (Engine.step e' r) w
        fun x v => (nesting pace ℓ active).Reaches w x v ∧ ∀ a, x = .ok a → True :=
    tracks.mono fun _ v done => ⟨done.mono fun ⟨numbered, within, relevels⟩ =>
      ⟨⟨numbered, within, counts_of_relevels inv.2.2 relevels⟩, relevels⟩, fun _ _ => trivial⟩
  unfold Request.joins at twins
  cases found : w.node? r.node with
  | none =>
    -- Such a request is refused or makes others in its place, and does not count.
    rw [found] at twins
    exact lawful_nesting.step twins r (may active) (fun _ => found) inv
  | some n =>
    rw [found] at twins
    cases plain : r.nests with
    | false =>
      have counted : w.Counts pace ℓ (r :: active) :=
        inv.2.2.imp_right fun ⟨nests, fits⟩ => ⟨nests.plain plain, fits.plain plain⟩
      refine back (((lawful_nesting.step twins r (may _) fun nests => ?_)
        ⟨inv.1, inv.2.1, counted⟩).mono fun _ v done =>
          done.1.mono fun led => ⟨led.1.1, led.1.2.1, led.2⟩)
      rw [plain] at nests
      cases nests
    | true =>
      cases r with
      | evaluate context id script => exact back (tracks_nesting_evaluate twins inv limits found)
      | perform call action =>
        cases action with
        | forward a => exact back (tracks_nesting_forward twins inv limits found)
        | _ => cases plain

/-- Who steps in where the bounds are broken never steps in. -/
theorem keeps_runWatched (instead : Act Completion) (fuel : Nat) (active : List Request) (r : Request)
    (w : World) :
    (nesting pace ℓ active).Keeps
      (Engine.runWatched pace (fun r active v =>
        if ¬ v.HasLimits ℓ then some (throw .exhausted)
        else if v.IsBounded r active then none else some instead) fuel active r)
      (Engine.runWatched pace (fun _ _ v => if ¬ v.HasLimits ℓ then some (throw .exhausted) else none)
        fuel active r) w := by
  induction fuel generalizing active r w with
  | zero => exact lawful_nesting.exhausted
  | succ fuel ih =>
    refine keeps_get fun inv => ?_
    by_cases limits : w.HasLimits ℓ
    · have bounded := inv.2.2.isBounded (r := r) inv.2.1 inv.1 limits
      simp only [limits, bounded, not_true, if_true, if_false]
      exact keeps_nesting_step ⟨rfl, fun r' v _ => ih _ r' v,
        fun _ _ _ _ denier _ _ => denier.elim, rfl, paces_leveling pace ℓ _ _⟩ limits
    · simp only [limits, not_false_eq_true, if_true]
      exact lawful_nesting.exhausted

end Regime

namespace World

variable {w : World}

/-- Only the root, with little room. -/
def shallow : World :=
  (plant { limits := { Limits.standard with recursionLimit := 2 } } {}).toOption.getD {}

/-- A procedure that calls itself, and then an alias that leads back to itself by way of a child. -/
def circling : Request :=
  .evaluate none root ("interp create c; interp alias {} a c b; interp alias c b {} a; " ++
    "proc p {} {catch p; a}; p" : String)

/-- How many evaluations and calls workers that were overtaken have yet to tidy up after. -/
def pending (w : World) : Nat := (w.nodes.toList.map fun n => n.unfinished.getD 0).sum

/-- A worker is overtaken in a call of one alias while the script waits in a call of another, and then
two more aliases lead to an evaluation. -/
def crowding : Request :=
  .evaluate none root ("interp alias {} short {} after 100; interp alias {} nap {} after 1000; " ++
    "interp alias {} inner {} eval {set x 1}; interp alias {} outer {} inner; " ++
    "interp queue {} {after 50; nap}; interp service -dedicated {}; short; outer" : String)

end World

end InterpTree
