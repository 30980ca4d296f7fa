import InterpTree.Proofs.Answers
import InterpTree.Proofs.Verdicts

/-!
Policies that are asked without a context. The first that has a script to decide cannot run it, and the
host crashes. The guards of the host may do anything; as they are given no context they do the same in
whichever the policies are asked.
-/

namespace InterpTree

/-- How a policy decides, unless a script is to decide. -/
def Policy.ready? (hosts : HostGuards) (case : PolicyCase) (p : Policy) : Option (Act Decision) :=
  match hosts p case with
  | some guard => some do
    match ← guard with
    | .ok decision => return decision
    | .error message =>
      Act.log .warning p.owner "policy guard failed" [field "error" message, field "policy" p.name]
      return .denied
  | none => if p.script.isEmpty then some (return .undecided) else none

/-- The crash of a guard script that is to run without a context. -/
def orphaned : Text := "cannot create context from nil parent"

/-- What becomes of policies that are asked without a context. They are stuck where a script is to
decide. -/
inductive Hearing
  | granted
  | denied (refusal : Fault)
  | stuck
deriving DecidableEq

/-- What the one who asks gets. -/
def Hearing.answer : Hearing → Act (Option Fault)
  | granted => return none
  | denied refusal => return some refusal
  | stuck => Act.crash orphaned

/-- Asks policies in order, up to the first that denies or has a script to decide. -/
def HostGuards.hear (hosts : HostGuards) (case : PolicyCase) : List Policy → Act Hearing
  | [] => return .granted
  | p :: rest => do
    if ((← get).live? p.owner).isNone then hosts.hear case rest
    else
      match p.ready? hosts case with
      | none => return .stuck
      | some decide =>
        let decision ← decide
        Act.log .debug p.owner "policy checked"
          [field "policy" p.name, field "decision" decision.name, field "command" case.name]
        if decision = .denied then
          return .denied (.of .permissionDenied
            ("permission denied: " ++ p.name ++ " denied " ++ Text.quoted case.name))
        else hosts.hear case rest

/-- No node goes while a guard is asked. -/
def HostGuards.KeepNodes (hosts : HostGuards) : Prop :=
  ∀ p case guard, hosts p case = some guard → ∀ w : World,
    Ends guard w fun _ v => w.nodes.size ≤ v.nodes.size

theorem Policy.keepNodes_named : HostGuards.KeepNodes Policy.named := by
  intro p case guard guarded w
  obtain ⟨g, -, rfl⟩ := Option.map_eq_some_iff.mp guarded
  cases g <;> exact Nat.le_refl _

namespace Engine

variable {e : Engine} {hosts : HostGuards} {case : PolicyCase} {p : Policy}
  {policies rest : List Policy} {w v : World}

theorem decideWith_of_ready {decide : Act Decision} (ready : p.ready? hosts case = some decide)
    (context : Option Context) : e.decideWith hosts context p case = decide := by
  unfold Policy.ready? at ready
  unfold decideWith
  cases guarded : hosts p case with
  | some guard =>
    rw [guarded] at ready
    exact Option.some.inj ready
  | none =>
    rw [guarded] at ready
    dsimp only at ready ⊢
    split at ready
    · rename_i silent
      unfold Engine.decide
      simp only [silent, if_true]
      exact Option.some.inj ready
    · cases ready

theorem decideWith_orphaned (waiting : p.ready? hosts case = none) :
    e.decideWith hosts none p case = Act.crash orphaned := by
  unfold Policy.ready? at waiting
  unfold decideWith
  cases guarded : hosts p case with
  | some guard =>
    rw [guarded] at waiting
    cases waiting
  | none =>
    rw [guarded] at waiting
    dsimp only at waiting ⊢
    split at waiting
    · cases waiting
    · rename_i scripted
      unfold Engine.decide
      simp only [scripted]
      rfl

theorem askWith_none (policies : List Policy) :
    e.askWith hosts none case policies = hosts.hear case policies >>= Hearing.answer := by
  induction policies with
  | nil => rfl
  | cons p rest ih =>
    unfold askWith HostGuards.hear
    rw [bind_assoc]
    refine bind_congr fun w => ?_
    split
    · exact ih
    · cases ready : p.ready? hosts case with
      | none =>
        rw [decideWith_orphaned ready]
        rfl
      | some decide =>
        rw [decideWith_of_ready ready]
        simp only [bind_assoc]
        refine bind_congr fun decision => bind_congr fun _ => ?_
        split
        · rfl
        · exact ih

/-- Where policies are not stuck, they are asked as without a context. -/
theorem askWith_of_heard (heard : ∀ v, hosts.hear case policies w ≠ .ok .stuck v)
    (context : Option Context) : e.askWith hosts context case policies w =
      (hosts.hear case policies >>= Hearing.answer) w := by
  induction policies generalizing w with
  | nil => rfl
  | cons p rest ih =>
    unfold askWith
    unfold HostGuards.hear at heard ⊢
    rw [bind_assoc, Act.bind_of_ok (Act.get_apply w), Act.bind_of_ok (Act.get_apply w)]
    simp only [Act.bind_of_ok (Act.get_apply w)] at heard
    split
    · rename_i gone
      rw [if_pos gone] at heard
      exact ih heard
    · rename_i there
      rw [if_neg there] at heard
      cases ready : p.ready? hosts case with
      | none =>
        rw [ready] at heard
        exact absurd rfl (heard w)
      | some decide =>
        rw [ready] at heard
        rw [decideWith_of_ready ready]
        simp only [bind_assoc]
        refine Act.bind_congr_ok fun decision u decided => ?_
        refine Act.bind_congr_ok fun _ u' logged => ?_
        split
        · rfl
        · rename_i passing
          refine ih fun v stuck => heard v ?_
          dsimp only
          rw [Act.bind_of_ok decided, Act.bind_of_ok logged, if_neg passing]
          exact stuck

theorem size_ready (keep : hosts.KeepNodes) {decide : Act Decision}
    (ready : p.ready? hosts case = some decide) (w : World) :
    Ends decide w fun _ v => w.nodes.size ≤ v.nodes.size := by
  unfold Policy.ready? at ready
  split at ready
  · rename_i guard guarded
    cases ready
    refine .bind (keep p case guard guarded w) (fun decided v kept => ?_) fun _ _ kept => kept
    cases decided with
    | ok decision => exact kept
    | error message =>
      refine Ends.bind_iff.mpr (Ends.modify_iff.mpr ?_)
      simpa using kept
  · split at ready
    · cases ready
      exact Nat.le_refl _
    · cases ready

/-- No node goes while policies are asked. -/
theorem size_hear (keep : hosts.KeepNodes) (case : PolicyCase) (policies : List Policy) (w : World) :
    Ends (hosts.hear case policies) w fun _ v => w.nodes.size ≤ v.nodes.size := by
  induction policies generalizing w with
  | nil => exact Nat.le_refl _
  | cons p rest ih =>
    unfold HostGuards.hear
    refine Ends.bind_iff.mpr (Ends.get_iff.mpr ?_)
    dsimp only
    split
    · exact ih w
    · cases ready : p.ready? hosts case with
      | none => exact Nat.le_refl _
      | some decide =>
        refine .bind (size_ready keep ready w) (fun decision v kept => ?_) fun _ _ kept => kept
        refine Ends.bind_iff.mpr (Ends.modify_iff.mpr ?_)
        dsimp only
        split
        · simpa using kept
        · exact (ih _).mono fun _ _ more => kept.trans (by simpa using more)

theorem heard_of_ends {hearing : Hearing}
    (ends : Ends (hosts.hear case policies) w fun r _ => r.toOption = some hearing) :
    ∃ v, hosts.hear case policies w = .ok hearing v := by
  unfold Ends at ends
  split at ends
  · rename_i heard v same
    obtain rfl : heard = hearing := Option.some.inj ends
    exact ⟨v, same⟩
  · cases ends

theorem node?_of_hear (keep : hosts.KeepNodes) {hearing : Hearing} {i : NodeId} {n : Node}
    (heard : hosts.hear case policies w = .ok hearing v) (found : w.node? i = some n) :
    ∃ m, v.node? i = some m := by
  have kept := size_hear keep case policies w
  unfold Ends at kept
  rw [heard] at kept
  exact World.exists_node? (World.pos_of_node? found) ((World.le_size_of_node? found).trans kept)

theorem unlessRefused_of_granted (granted : hosts.hear case policies w = .ok .granted v)
    (context : Option Context) (operation : Act Completion) :
    unlessRefused (e.askWith hosts context case policies) operation w = operation v := by
  have asked : e.askWith hosts context case policies w = .ok none v := by
    rw [askWith_of_heard (fun u stuck => nomatch granted.symm.trans stuck), Act.bind_of_ok granted]
    rfl
  exact Act.bind_of_ok asked

theorem unlessRefused_crash (stuck : hosts.hear case policies w = .ok .stuck v)
    (operation : Act Completion) :
    unlessRefused (e.askWith hosts none case policies) operation w =
      .error (.crash orphaned) v := by
  have asked : e.askWith hosts none case policies w = .error (.crash orphaned) v := by
    rw [askWith_none, Act.bind_of_ok stuck]
    rfl
  unfold unlessRefused
  simp only [bind, EStateM.bind, asked]

/-- Where policies are not stuck, what follows them decides whether the context matters. -/
theorem unlessRefused_of_heard {operation operation' : Act Completion} {context : Option Context}
    (heard : ∀ v, hosts.hear case policies w ≠ .ok .stuck v)
    (same : ∀ v, hosts.hear case policies w = .ok .granted v → operation v = operation' v) :
    unlessRefused (e.askWith hosts none case policies) operation w =
      unlessRefused (e.askWith hosts context case policies) operation' w := by
  have asked (context : Option Context) (operation : Act Completion) :
      unlessRefused (e.askWith hosts context case policies) operation w =
        unlessRefused (hosts.hear case policies >>= Hearing.answer) operation w := by
    unfold unlessRefused
    simp only [bind, EStateM.bind, askWith_of_heard heard context]
  rw [asked, asked]
  unfold unlessRefused
  rw [bind_assoc, bind_assoc]
  refine Act.bind_congr_ok fun hearing v came => ?_
  cases hearing with
  | granted => exact same v came
  | denied refusal => rfl
  | stuck => rfl

end Engine

end InterpTree
