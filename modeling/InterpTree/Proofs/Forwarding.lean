import InterpTree.Proofs.Recursion

/-!
Where calls through aliases lead. An alias forwards to a command that may be an alias again; `Follows`
goes from one to the next, as the tree stands when the first is called. Each hop takes a frame from
what the limit of its node leaves, so the hops come to an end, and what becomes of the call is told by
where they end.
-/

namespace InterpTree

/-- A call through an alias. -/
structure Hop where
  call : Call
  shim : Alias
deriving DecidableEq

namespace Hop

def request (h : Hop) : Request := .perform h.call (.forward h.shim)

/-- The arguments that are passed on. -/
def args (h : Hop) : List Text := h.shim.bound ++ h.call.args

/-- The call that is made in the target. -/
def onward (h : Hop) (target : NodeId) : Call where
  context := h.call.context
  node := target
  name := h.shim.targetName
  args := h.args

/-- The line that an error gets on its way back. -/
def line (h : Hop) : Text :=
  "(in alias " ++ Text.quoted h.shim.source ++ " eval " ++
    Text.quoted (Text.words (h.shim.targetName :: h.args)) ++ ")"

/-- The world in which the target is called: that of the hop with one frame more. -/
def framed (h : Hop) (w : World) : World := h.request.begun w

/-- The marker of that frame. -/
def marker (h : Hop) (w : World) : Nat := ((w.node? h.call.node).map (·.frames.issued + 1)).getD 0

/-- Once the target has been called, the frame goes. -/
def popped (h : Hop) (w v : World) : World :=
  v.modifyNode h.call.node fun n => { n with frames := (n.frames.popThrough (h.marker w)).2 }

/-- A hop that is made: from a node that has room for a frame to one that is there. -/
structure Goes (h : Hop) (w : World) (n : Node) (target : NodeId) : Prop where
  resolved : w.resolve? World.root h.shim.targetPath = some target
  found : w.node? h.call.node = some n
  room : ¬ (0 < n.limit ∧ n.limit ≤ n.frames.depth)

end Hop

/-- Where hops end. -/
inductive Landing
  /-- At a command of the last target that is no alias. -/
  | command (call : Call) (action : Action)
  /-- At a hop whose target is not there. -/
  | gone (h : Hop)
  /-- At a hop for which there is no frame left. -/
  | deep (h : Hop)
  /-- At a target without a command of the name. -/
  | unknown (h : Hop)

/-- What a call comes to that reaches no command. -/
def Landing.refusal? : Landing → Option Completion
  | .command .. => none
  | .gone h => some (.fail (.of .noSuchInterpreter
      ("target interpreter " ++ Text.quoted h.shim.targetPath ++ " for alias " ++
        Text.quoted h.shim.source ++ " no longer exists")))
  | .deep _ => some tooDeep
  | .unknown h => some (.fail (.of .notFound
      ("invalid command name " ++ Text.quoted h.shim.targetName)))

/-- A completion on its way back over hops: an error notes them, the last one first. -/
def Completion.noting (hops : List Hop) (c : Completion) : Completion :=
  if c.isError then { c with trail := c.trail ++ (hops.map Hop.line).reverse } else c

namespace World

/-- The visible command that a call names. -/
def called? (w : World) (call : Call) : Option Command :=
  (w.node? call.node).bind fun n => n.commands.visible? call.name

/-- From a call through an alias the hops that take a frame lead, one after the other, to a landing. -/
inductive Follows : World → Hop → List Hop → Landing → Prop
  | gone {w : World} {h : Hop} (missing : w.resolve? root h.shim.targetPath = none) :
      Follows w h [] (.gone h)
  | deep {w : World} {h : Hop} {n : Node} {target : NodeId}
      (resolved : w.resolve? root h.shim.targetPath = some target)
      (found : w.node? h.call.node = some n) (full : 0 < n.limit ∧ n.limit ≤ n.frames.depth) :
      Follows w h [] (.deep h)
  | unknown {w : World} {h : Hop} {n : Node} {target : NodeId} (goes : h.Goes w n target)
      (missing : (h.framed w).called? (h.onward target) = none) :
      Follows w h [h] (.unknown h)
  | command {w : World} {h : Hop} {n : Node} {target : NodeId} {c : Command}
      (goes : h.Goes w n target) (there : (h.framed w).called? (h.onward target) = some c)
      (plain : ∀ a, c.action ≠ .forward a) :
      Follows w h [h] (.command (h.onward target) c.action)
  | onward {w : World} {h : Hop} {n : Node} {target : NodeId} {c : Command} {a : Alias}
      {hops : List Hop} {l : Landing} (goes : h.Goes w n target)
      (there : (h.framed w).called? (h.onward target) = some c) (shim : c.action = .forward a)
      (rest : Follows (h.framed w) ⟨h.onward target, a⟩ hops l) :
      Follows w h (h :: hops) l

/-- The world once the hops have taken their frames. -/
def through (w : World) (hops : List Hop) : World := hops.foldl (fun v h => h.framed v) w

/-- The world once the frames of the hops, which began in `w`, are gone from `v` again. -/
def back (w : World) : List Hop → World → World
  | [], v => v
  | h :: hops, v => h.popped w ((h.framed w).back hops v)

/-- How the call ends that has begun the hops, given how it ends where they lead. Where its worker is
overtaken it has yet to come back. -/
def returning (w : World) (hops : List Hop) :
    EStateM.Result Stop World Completion → EStateM.Result Stop World Completion
  | .ok c v => .ok (c.noting hops) (w.back hops v)
  | .error (.overtaken pending) v => .error (.overtaken (pending + hops.length)) v
  | .error stop v => .error stop (w.back hops v)

/-- How many more frames the limit of a node allows. -/
def roomAt (w : World) (i : NodeId) : Nat :=
  ((w.node? i).map fun n => n.limit.toNat - n.frames.depth).getD 0

/-- How many more frames the limits of all nodes allow. -/
def room (w : World) : Nat := ((List.range (w.nodes.size + 1)).map w.roomAt).sum

end World

namespace Hop

variable {w v : World} {h : Hop} {n : Node} {target : NodeId}

theorem framed_eq (goes : h.Goes w n target) :
    h.framed w = w.framed h.call.node ("alias " ++ h.shim.source)
      (FrameFlags.restricted + FrameFlags.viaAlias) n := by
  simp [framed, request, Request.begun, goes.resolved, goes.found, goes.room]

theorem popped_eq (goes : h.Goes w n target) (v : World) :
    h.popped w v = v.modifyNode h.call.node fun m =>
      { m with frames := (m.frames.popThrough (n.frames.issued + 1)).2 } := by
  simp [popped, marker, goes.found]

/-- Only frames differ where a hop has begun. -/
theorem tidies_framed (goes : h.Goes w n target) : w.Tidies (h.framed w) :=
  framed_eq goes ▸ World.tidies_framed ..

end Hop

namespace World

variable {w v : World} {h : Hop} {n : Node} {target : NodeId} {hops : List Hop} {l : Landing}

theorem Tidies.sameWays (tidied : w.Tidies v) : w.SameWays v :=
  Each.mono tidied fun _ _ _ same => by
    rw [same]
    exact ⟨rfl, rfl, rfl, rfl⟩

theorem Tidies.called? (tidied : w.Tidies v) (call : Call) : v.called? call = w.called? call := by
  cases found : w.node? call.node with
  | none => simp [World.called?, found, tidied.node?_none found]
  | some n =>
    obtain ⟨n', found', same⟩ := tidied.node _ n found
    simp only [World.called?, found, found', Option.bind_some]
    rw [same]

/-- Where a command is called is a node. -/
theorem exists_of_called? {call : Call} {c : Command} (there : w.called? call = some c) :
    ∃ n, w.node? call.node = some n := by
  obtain ⟨n, found, -⟩ := Option.bind_eq_some_iff.mp there
  exact ⟨n, found⟩

theorem roomAt_eq {i : NodeId} (found : w.node? i = some n) :
    w.roomAt i = n.limit.toNat - n.frames.depth := by
  simp [roomAt, found]

/-- A hop takes from the room of its node. -/
theorem roomAt_framed (goes : h.Goes w n target) (i : NodeId) :
    (h.framed w).roomAt i = w.roomAt i - if i = h.call.node then 1 else 0 := by
  rw [Hop.framed_eq goes, framed]
  split
  · rename_i here
    rw [here, roomAt_eq (node?_modifyNode_same _ goes.found), roomAt_eq goes.found]
    exact Nat.sub_add_eq ..
  · rename_i other
    rw [roomAt, node?_modifyNode_ne _ other, Nat.sub_zero, roomAt]

/-- A hop within a limit leaves less room. -/
theorem room_framed_lt (goes : h.Goes w n target) (limited : 0 < n.limit) :
    (h.framed w).room < w.room := by
  have size : (h.framed w).nodes.size = w.nodes.size := (Hop.tidies_framed goes).size
  have some : 0 < w.roomAt h.call.node := by
    have room := goes.room
    rw [roomAt_eq goes.found]
    omega
  unfold room
  rw [size]
  refine List.sum_lt_sum _ _ (fun i _ => ?_) ⟨h.call.node, ?_, ?_⟩
  · rw [roomAt_framed goes]
    exact Nat.sub_le ..
  · exact List.mem_range.mpr (Nat.lt_succ_of_le (le_size_of_node? goes.found))
  · rw [roomAt_framed goes, if_pos rfl]
    exact Nat.sub_one_lt (Nat.pos_iff_ne_zero.mp some)

/-- The nodes of the tree, and node `i`, have limits. -/
def IsLimited (w : World) (i : NodeId) : Prop :=
  ∀ n ∈ w.nodes.toList, n.dead = false ∨ n.id = i → 0 < n.limit

instance (w : World) (i : NodeId) : Decidable (w.IsLimited i) :=
  inferInstanceAs (Decidable (∀ n ∈ w.nodes.toList, n.dead = false ∨ n.id = i → 0 < n.limit))

theorem IsLimited.framed {i : NodeId} (limited : w.IsLimited i) (goes : h.Goes w n target)
    (numbered : w.IsNumbered) : (h.framed w).IsLimited target := by
  refine forall_node?_iff.mp fun j m' found' spoken => ?_
  obtain ⟨m, found, id, dead, limit⟩ : ∃ m, w.node? j = some m ∧ m'.id = m.id ∧
      m'.dead = m.dead ∧ m'.limit = m.limit := by
    rw [Hop.framed_eq goes, World.framed, node?_modifyNode] at found'
    split at found'
    · obtain ⟨m, found, rfl⟩ := Option.map_eq_some_iff.mp found'
      exact ⟨m, found, rfl, rfl, rfl⟩
    · exact ⟨m', found', rfl, rfl, rfl⟩
  rw [id, dead, numbered j m found] at spoken
  rw [limit]
  refine limited m (mem_of_node? found) (.inl ?_)
  rcases spoken with alive | rfl
  · exact alive
  · -- Paths lead to nodes that are alive.
    obtain ⟨t, there, alive, -⟩ := alive_of_resolve? numbered goes.resolved
    exact Option.some.inj (there.symm.trans found) ▸ alive

/-- Within limits, hops come to an end. -/
theorem exists_follows (numbered : w.IsNumbered) (limited : w.IsLimited h.call.node)
    (found : w.node? h.call.node = some n) :
    ∃ hops l, w.Follows h hops l ∧ hops.length ≤ w.room := by
  induction room : w.room using Nat.strong_induction_on generalizing w h n with
  | _ k ih =>
    subst room
    cases resolved : w.resolve? root h.shim.targetPath with
    | none => exact ⟨[], _, .gone resolved, Nat.zero_le _⟩
    | some target =>
      by_cases full : 0 < n.limit ∧ n.limit ≤ n.frames.depth
      · exact ⟨[], _, .deep resolved found full, Nat.zero_le _⟩
      · have goes : h.Goes w n target := ⟨resolved, found, full⟩
        have less := room_framed_lt goes
          (limited n (mem_of_node? found) (.inr (numbered _ n found)))
        cases there : (h.framed w).called? (h.onward target) with
        | none => exact ⟨[h], _, .unknown goes there, Nat.one_le_of_lt less⟩
        | some c =>
          by_cases shim : ∃ a, c.action = .forward a
          · obtain ⟨a, shim⟩ := shim
            obtain ⟨n', found'⟩ := exists_of_called? there
            have numbered' : (h.framed w).IsNumbered :=
              (Hop.tidies_framed goes).isNumbered (fun _ _ _ same => by rw [same]) numbered
            obtain ⟨hops, l, follows, length⟩ :=
              ih _ less (h := ⟨h.onward target, a⟩) numbered' (limited.framed goes numbered) found' rfl
            exact ⟨h :: hops, l, .onward goes there shim follows,
              Nat.succ_le_of_lt (Nat.lt_of_le_of_lt length less)⟩
          · exact ⟨[h], _, .command goes there (fun a shim' => shim ⟨a, shim'⟩),
              Nat.one_le_of_lt less⟩

/-- What the last hop calls, as it stands in the tree. -/
structure ForwardsTo (w : World) (h : Hop) (hops : List Hop) (call : Call) (action : Action) : Prop where
  last : ∃ last, hops.getLast? = some last ∧ w.resolve? root last.shim.targetPath = some call.node ∧
    call.name = last.shim.targetName
  visible : (w.called? call).map Command.action = some action
  plain : ∀ a, action ≠ .forward a
  args : call.args = (hops.reverse.flatMap fun hop => hop.shim.bound) ++ h.call.args
  context : call.context = h.call.context
  shown : call.hidden = false

theorem Follows.forwardsTo {call : Call} {action : Action}
    (follows : w.Follows h hops (.command call action)) : w.ForwardsTo h hops call action := by
  generalize landed : Landing.command call action = l at follows
  induction follows with
  | gone missing => cases landed
  | deep resolved found full => cases landed
  | unknown goes missing => cases landed
  | @command w h n target c goes there plain =>
    cases landed
    have tidied := Hop.tidies_framed goes
    rw [tidied.called?] at there
    refine ⟨⟨h, rfl, goes.resolved, rfl⟩, ?_, plain, ?_, rfl, rfl⟩
    · rw [there, Option.map_some]
    · simp [Hop.onward, Hop.args]
  | @onward w h n target c a hops l goes there shim rest ih =>
    have onward := ih landed
    have tidied := Hop.tidies_framed goes
    obtain ⟨last, isLast, resolved, name⟩ := onward.last
    refine ⟨⟨last, ?_, ?_, name⟩, ?_, onward.plain, ?_, onward.context, onward.shown⟩
    · rw [List.getLast?_cons, isLast, Option.getD_some]
    · rw [← tidied.sameWays.resolve?]
      exact resolved
    · rw [← tidied.called?]
      exact onward.visible
    · rw [onward.args]
      simp [Hop.onward, Hop.args]

/-- A frame is popped again. -/
theorem restores_popped (goes : h.Goes w n target) (restores : (h.framed w).Restores v) :
    w.Restores (h.popped w v) := by
  rw [Hop.framed_eq goes] at restores
  intro i m found
  by_cases here : i = h.call.node
  · subst here
    obtain rfl : n = m := Option.some.inj (goes.found.symm.trans found)
    obtain ⟨k, there, depth, frames⟩ := restores _ _ (node?_modifyNode_same _ found)
    rw [Hop.popped_eq goes]
    exact ⟨_, node?_modifyNode_same _ there, depth, CallStack.frames_popThrough frames⟩
  · rw [Hop.popped, node?_modifyNode_ne _ here]
    refine restores i m ?_
    rwa [World.framed, node?_modifyNode_ne _ here]

/-- Once the frames of the hops are popped, everything is as before if it is where they lead. -/
theorem Follows.restores_back (follows : w.Follows h hops l) (restores : (w.through hops).Restores v) :
    w.Restores (w.back hops v) := by
  induction follows with
  | gone | deep => exact restores
  | unknown goes | command goes => exact restores_popped goes restores
  | onward goes there shim rest ih => exact restores_popped goes (ih restores)

end World

namespace Engine

variable {w v : World} {h : Hop} {n : Node} {target : NodeId} {hops : List Hop} {l : Landing}
  {pace : Pace} {fuel : Nat}

/-- One hop more on the way back. -/
theorem returning_cons (h : Hop) (hops : List Hop) (r : EStateM.Result Stop World Completion) :
    w.returning (h :: hops) r = w.returning [h] ((h.framed w).returning hops r) := by
  cases r with
  | ok c v =>
    simp only [World.returning, World.back, Completion.noting]
    cases error : c.isError with
    | true =>
      have still : ({ c with trail := c.trail ++ (hops.map Hop.line).reverse } : Completion).isError =
          true := error
      simp [still]
    | false => simp [error]
  | error stop v =>
    cases stop with
    | overtaken pending => simp only [World.returning, List.length_cons, List.length_nil, Nat.add_assoc]
    | crash message => rfl
    | exhausted => rfl

/-- A hop that is made calls its target, and passes on how that ends. -/
theorem forward_hop (goes : h.Goes w n target) (e : Engine) :
    e.forward h.call h.shim w = w.returning [h]
      (e.invoke h.call.context target h.shim.targetName h.args (h.framed w)) := by
  rw [forward_eq_begun goes.resolved goes.found goes.room]
  simp only [bind, EStateM.bind, Act.ensuring]
  unfold Hop.args Hop.framed Hop.request
  cases e.invoke h.call.context target h.shim.targetName
      (h.shim.bound ++ h.call.args) (Request.begun w (.perform h.call (.forward h.shim))) with
  | ok c v =>
    simp only [World.returning, World.back, Hop.popped_eq goes, Completion.noting]
    cases error : c.isError <;> rfl
  | error stop v =>
    cases stop with
    | overtaken pending => rfl
    | crash message | exhausted => simp only [World.returning, World.back, Hop.popped_eq goes]

theorem run_hop (goes : h.Goes w n target) (fuel : Nat) :
    run pace (fuel + 1) h.request w =
      w.returning [h] (invoke ⟨fuel, run pace fuel, pace⟩ h.call.context target h.shim.targetName
        h.args (h.framed w)) := forward_hop goes ⟨fuel, run pace fuel, pace⟩

theorem invoke_of_called? {c : Command} (e : Engine) (call : Call) (shown : call.hidden = false)
    (there : w.called? call = some c) :
    e.invoke call.context call.node call.name call.args w = e.call (.perform call c.action) w := by
  unfold World.called? at there
  unfold invoke
  simp only [bind, EStateM.bind, Act.get_apply, there]
  rw [← shown]

theorem invoke_of_unknown (e : Engine) (call : Call) (missing : w.called? call = none) :
    e.invoke call.context call.node call.name call.args w =
      .ok (.fail (.of .notFound ("invalid command name " ++ Text.quoted call.name))) w := by
  unfold World.called? at missing
  unfold invoke
  simp only [bind, EStateM.bind, Act.get_apply, missing]
  rfl

/-- A call through an alias that leads to a command is the one call of that command, made inside the
frames of the hops. -/
theorem run_of_command {call : Call} {action : Action}
    (follows : w.Follows h hops (.command call action)) (fuel : Nat) :
    run pace (fuel + hops.length) h.request w =
      w.returning hops (run pace fuel (.perform call action) (w.through hops)) := by
  generalize landed : Landing.command call action = l at follows
  induction follows with
  | gone missing => cases landed
  | deep resolved found full => cases landed
  | unknown goes missing => cases landed
  | @command w h n target c goes there plain =>
    cases landed
    exact (run_hop goes fuel).trans
      (congrArg _ (invoke_of_called? ⟨fuel, run pace fuel, pace⟩ (h.onward target) rfl there))
  | @onward w h n target c a hops l goes there shim rest ih =>
    have onward := invoke_of_called? ⟨fuel + hops.length, run pace (fuel + hops.length), pace⟩
      (h.onward target) rfl there
    rw [returning_cons, World.through, List.foldl_cons, ← World.through, ← ih landed]
    refine (run_hop goes (fuel + hops.length)).trans (congrArg _ (onward.trans ?_))
    rw [shim]
    rfl

/-- A call through an alias that leads to no command is refused. -/
theorem run_of_refusal {c : Completion} (follows : w.Follows h hops l) (refused : l.refusal? = some c)
    (fuel : Nat) :
    run pace (fuel + 1 + hops.length) h.request w = w.returning hops (.ok c (w.through hops)) := by
  induction follows generalizing fuel with
  | @gone w h missing =>
    cases refused
    change forward ⟨fuel, run pace fuel, pace⟩ h.call h.shim w = _
    unfold forward
    simp only [bind, EStateM.bind, Act.get_apply, missing]
    rfl
  | @deep w h n target resolved found full =>
    cases refused
    change forward ⟨fuel, run pace fuel, pace⟩ h.call h.shim w = _
    unfold Node.limit at full
    unfold forward
    simp only [bind, EStateM.bind, Act.get_apply, resolved, Act.ofNode_of_node? found, full,
      decide_true, Bool.and_self, if_true]
    rfl
  | @unknown w h n target goes missing =>
    cases refused
    exact (run_hop goes (fuel + 1)).trans (congrArg _
      (invoke_of_unknown ⟨fuel + 1, run pace (fuel + 1), pace⟩ (h.onward target) missing))
  | command => cases refused
  | @onward w h n target c a hops l goes there shim rest ih =>
    have onward := invoke_of_called?
      ⟨fuel + 1 + hops.length, run pace (fuel + 1 + hops.length), pace⟩ (h.onward target) rfl there
    rw [returning_cons, World.through, List.foldl_cons, ← World.through, ← ih refused fuel]
    refine (run_hop goes (fuel + 1 + hops.length)).trans (congrArg _ (onward.trans ?_))
    rw [shim]
    rfl

end Engine

namespace World

variable {w : World} {h : Hop} {n : Node}

/-- An alias of the root that leads to a command of a child by way of an alias there, and two aliases
that lead to each other. Each node has room for two frames. -/
def relaying : World :=
  shallow.after (Engine.run .timely 20 (.evaluate none root
    ("interp create c; interp alias {} a c b 1; interp alias c b {} list 2; " ++
      "interp alias {} x c y; interp alias c y {} x" : String)))

/-- A call of the first. -/
def relay : Hop where
  call := { context := none, node := root, name := "a", args := ["3"] }
  shim := { source := "a", targetPath := "c", targetName := "b", bound := ["1"], cross := true, seq := 25 }

/-- A call of one of the two. -/
def roundabout : Hop where
  call := { context := none, node := root, name := "x", args := ["3"] }
  shim := { source := "x", targetPath := "c", targetName := "y", bound := [], cross := true, seq := 26 }

/-- An alias of the root that leads to a procedure, which has a worker evaluate a script that sleeps
for a second in a child of another child, and waits for a tenth of that. -/
def minding : World :=
  shallow.after (Engine.run .timely 20 (.evaluate none root
    ("interp create t; interp create t.c; interp alias {} a {} p; " ++
      "proc p {} {interp queue t {interp eval c {after 1000}}; interp service -dedicated t; after 100}"
        : String)))

/-- A call of it. -/
def errand : Hop where
  call := { context := none, node := root, name := "a", args := [] }
  shim := { source := "a", targetPath := [], targetName := "p", bound := [], cross := false, seq := 25 }

end World

end InterpTree
