import InterpTree.Proofs.OwnContext

/-!
Where calls lead that have no context. Over however many aliases, such a call is the call in the context
of the node where it leads, unless it leads to a command that waits: then it crashes. The commands of
the host are any actions.
-/

namespace InterpTree

namespace World

/-- The command that is performed in the end where a call of a command is made, and the hops that
lead there. -/
inductive Performs (w : World) (call : Call) : Action → List Hop → Call → Action → Prop
  | here {action : Action} (plain : ∀ a, action ≠ .forward a) : Performs w call action [] call action
  | relayed {a : Alias} {hops : List Hop} {last : Call} {action : Action}
      (follows : w.Follows ⟨call, a⟩ hops (.command last action)) :
      Performs w call (.forward a) hops last action

variable {w v : World} {call last : Call} {action final : Action} {hops : List Hop} {h : Hop}
  {n : Node} {target : NodeId} {c : Command}

theorem performs_nil_iff :
    w.Performs call action [] last final ↔ (∀ a, action ≠ .forward a) ∧ last = call ∧ final = action := by
  constructor
  · intro performs
    cases performs with
    | here plain => exact ⟨plain, rfl, rfl⟩
    | relayed follows => cases follows
  · rintro ⟨plain, rfl, rfl⟩
    exact .here plain

theorem performs_cons_iff : w.Performs call action (h :: hops) last final ↔
    ∃ n target c, call = h.call ∧ action = .forward h.shim ∧ h.Goes w n target ∧
      (h.framed w).called? (h.onward target) = some c ∧
      (h.framed w).Performs (h.onward target) c.action hops last final := by
  constructor
  · intro performs
    cases performs with
    | relayed follows =>
      cases follows with
      | command goes there plain => exact ⟨_, _, _, rfl, rfl, goes, there, .here plain⟩
      | onward goes there shim rest =>
        exact ⟨_, _, _, rfl, rfl, goes, there, shim ▸ .relayed rest⟩
  · rintro ⟨n, target, c, rfl, rfl, goes, there, performs⟩
    generalize shim : c.action = action at performs
    cases performs with
    | here plain =>
      subst shim
      exact .relayed (.command goes there plain)
    | relayed follows => exact .relayed (.onward goes there shim follows)

/-- A call leads to one command at most. -/
theorem Performs.unique {hops' : List Hop} {last' : Call} {final' : Action}
    (first : w.Performs call action hops last final)
    (second : w.Performs call action hops' last' final') :
    hops = hops' ∧ last = last' ∧ final = final' := by
  induction hops generalizing w call action hops' with
  | nil =>
    obtain ⟨plain, rfl, rfl⟩ := performs_nil_iff.mp first
    cases hops' with
    | nil =>
      obtain ⟨-, rfl, rfl⟩ := performs_nil_iff.mp second
      exact ⟨rfl, rfl, rfl⟩
    | cons h' hops' =>
      obtain ⟨-, -, -, -, shim, -⟩ := performs_cons_iff.mp second
      exact absurd shim (plain _)
  | cons h hops ih =>
    obtain ⟨n, target, c, rfl, rfl, goes, there, rest⟩ := performs_cons_iff.mp first
    cases hops' with
    | nil => exact absurd rfl ((performs_nil_iff.mp second).1 _)
    | cons h' hops' =>
      obtain ⟨n', target', c', call, shim, goes', there', rest'⟩ := performs_cons_iff.mp second
      obtain rfl : h = h' := by
        cases h
        cases h'
        cases call
        cases shim
        rfl
      obtain rfl := Option.some.inj (goes.resolved.symm.trans goes'.resolved)
      obtain rfl := Option.some.inj (there.symm.trans there')
      obtain ⟨rfl, same⟩ := ih rest rest'
      exact ⟨rfl, same⟩

theorem NeedsContext.congr (same : ∀ i, v.isCanceled i = w.isCanceled i)
    (needs : w.NeedsContext call action) : v.NeedsContext call action := by
  unfold NeedsContext at needs ⊢
  split at needs
  · exact needs
  · exact ⟨needs.1, (same _).trans needs.2⟩
  · exact needs.elim

theorem isCanceled_framed {id : NodeId} {name : Text} {flags : Nat} (found : w.node? id = some n)
    (i : NodeId) : (w.framed id name flags n).isCanceled i = w.isCanceled i := by
  unfold isCanceled framed
  by_cases here : i = id
  · subst here
    rw [node?_modifyNode_same _ found, found]
    rfl
  · rw [node?_modifyNode_ne _ here]

theorem isCanceled_hop (goes : h.Goes w n target) (i : NodeId) :
    (h.framed w).isCanceled i = w.isCanceled i := by
  rw [Hop.framed_eq goes]
  exact isCanceled_framed goes.found i

end World

namespace Engine

variable {hosting : Hosting} {pace : Pace} {fuel : Nat} {w : World} {call last : Call}
  {action final : Action} {hops : List Hop} {n : Node}

theorem supplies_hosted (hosting : Hosting) (pace : Pace) (fuel : Nat) :
    (hosted hosting pace fuel).Supplies := by
  intro id script
  cases fuel <;> rfl

/-- A call without a context that leads to a command that needs one crashes. -/
theorem call_crash (hosting : Hosting) (pace : Pace) (missing : call.context = none)
    (performs : w.Performs call action hops last final) (needs : w.NeedsContext last final)
    (enough : hops.length < fuel) : ∃ v, (hosted hosting pace fuel).call (.perform call action) w =
      .error (.crash missingContext) v := by
  induction hops generalizing w call action fuel with
  | nil =>
    obtain ⟨plain, rfl, rfl⟩ := World.performs_nil_iff.mp performs
    obtain ⟨fuel, rfl⟩ : ∃ k, fuel = k + 1 := ⟨fuel - 1, by omega⟩
    exact stepHosted_crash missing needs
  | cons h hops ih =>
    obtain ⟨n, target, c, rfl, rfl, goes, there, rest⟩ := World.performs_cons_iff.mp performs
    obtain ⟨fuel, rfl⟩ : ∃ k, fuel = k + 1 := ⟨fuel - 1, by omega⟩
    obtain ⟨v, crashed⟩ : ∃ v, (hosted hosting pace fuel).call
        (.perform (h.onward target) c.action) (h.framed w) = .error (.crash missingContext) v :=
      ih missing rest (needs.congr (World.isCanceled_hop goes)) (Nat.lt_of_succ_lt_succ enough)
    refine ⟨w.back [h] v, ?_⟩
    show forward (hosted hosting pace fuel) h.call h.shim w = _
    rw [forward_hop goes]
    show w.returning [h] ((hosted hosting pace fuel).invoke (h.onward target).context
      (h.onward target).node (h.onward target).name (h.onward target).args (h.framed w)) = _
    rw [invoke_of_called? _ (h.onward target) rfl there, crashed]
    rfl

/-- A command is called in the same way in a context if it does the same there. -/
theorem invoke_within {e : Engine} {context : Context} (call : Call) (shown : call.hidden = false)
    (same : ∀ c, w.called? call = some c →
      e.call (.perform call c.action) w = e.call (.perform (call.within context) c.action) w) :
    e.invoke call.context call.node call.name call.args w =
      e.invoke (some context) call.node call.name call.args w := by
  cases there : w.called? call with
  | none =>
    rw [invoke_of_unknown e call there]
    exact (invoke_of_unknown e (call.within context) there).symm
  | some c =>
    rw [invoke_of_called? e call shown there, same c there]
    exact (invoke_of_called? e (call.within context) shown there).symm

/-- A hop is the same in a context if what it calls is. -/
theorem forward_within {e : Engine} {context : Context} {h : Hop}
    (found : w.node? h.call.node = some n)
    (onward : ∀ target c, h.Goes w n target → (h.framed w).called? (h.onward target) = some c →
      e.call (.perform (h.onward target) c.action) (h.framed w) =
        e.call (.perform ((h.onward target).within context) c.action) (h.framed w)) :
    e.forward h.call h.shim w = e.forward (h.call.within context) h.shim w := by
  have read : Act.ofNode h.call.node (fun n => (n.cancel.limits.recursionLimit, n.frames.depth)) w =
      .ok (n.limit, n.frames.depth) w := Act.ofNode_of_node? found _
  cases resolved : w.resolve? World.root h.shim.targetPath with
  | none =>
    unfold forward
    rw [Act.bind_of_ok (Act.get_apply w), Act.bind_of_ok (Act.get_apply w), resolved]
  | some target =>
    by_cases full : 0 < n.limit ∧ n.limit ≤ n.frames.depth
    · unfold forward
      rw [Act.bind_of_ok (Act.get_apply w), Act.bind_of_ok (Act.get_apply w), resolved]
      show (Act.ofNode h.call.node _ >>= _) w = (Act.ofNode h.call.node _ >>= _) w
      rw [Act.bind_of_ok read, Act.bind_of_ok read]
      simp only [full, decide_true, Bool.and_self, if_true]
    · have goes : h.Goes w n target := ⟨resolved, found, full⟩
      have goes' : Hop.Goes ⟨h.call.within context, h.shim⟩ w n target := ⟨resolved, found, full⟩
      have back (x : EStateM.Result Stop World Completion) :
          w.returning [⟨h.call.within context, h.shim⟩] x = w.returning [h] x := by
        cases x <;> rfl
      rw [forward_hop goes, forward_hop goes', back]
      exact congrArg _ (invoke_within (h.onward target) rfl fun c => onward target c goes)

/-- A call without a context that leads to no command that needs one is the call in the context of
the node where it leads. -/
theorem call_within {context : Context} (missing : call.context = none)
    (found : w.node? call.node = some n)
    (leads : ∀ hops last final, w.Performs call action hops last final →
      ¬ w.NeedsContext last final ∧ hosting.MakesDo last final ∧ context = .ofNode last.node ∧
        hops.length + 2 ≤ fuel) :
    (hosted hosting pace fuel).call (.perform call action) w =
      (hosted hosting pace fuel).call (.perform (call.within context) action) w := by
  -- By the fuel and not by the hops, as these need not come to an end.
  induction fuel generalizing w call action n with
  | zero => rfl
  | succ fuel ih =>
    rw [call_hosted, call_hosted]
    by_cases shim : ∃ a, action = .forward a
    · obtain ⟨a, rfl⟩ := shim
      refine forward_within (h := ⟨call, a⟩) found fun target c goes there => ?_
      obtain ⟨m, found'⟩ := World.exists_of_called? there
      refine ih missing found' fun hops last final rest => ?_
      obtain ⟨free, makes, own, enough⟩ := leads (⟨call, a⟩ :: hops) last final
        (World.performs_cons_iff.mpr ⟨n, target, c, rfl, rfl, goes, there, rest⟩)
      exact ⟨fun needs => free (needs.congr fun i => (World.isCanceled_hop goes i).symm), makes, own,
        Nat.le_of_succ_le_succ enough⟩
    · have plain : ∀ a, action ≠ .forward a := fun a same => shim ⟨a, same⟩
      obtain ⟨free, makes, rfl, enough⟩ := leads [] call action (.here plain)
      exact stepHosted_owning (supplies_hosted hosting pace fuel) missing
        (Nat.lt_of_succ_lt_succ enough) plain free makes

end Engine

end InterpTree
