import InterpTree.Proofs.Moments

/-!
Read-only nodes. Main statement: whatever hosts and scripts do, the commands and the aliases of a
node that is read-only stay as they are, as long as it is part of the tree. Three changes of trust are
exceptions: the node is made writable again, safe or standard. None of them asks whether it is
read-only, and what the last two do to its commands is what they do to those of any other node.
-/

namespace InterpTree

namespace TrustChange

variable {c : TrustChange} {n : Node} {w : World} {caller s : NodeId} {path : Text}

theorem act_of_isDue (due : c.isDue n.trust = true) : c.act n = .ok () (c.amend n) := by
  rw [Ends.eq_ok_iff]
  refine (c.ends_act n).mono fun r m ending => ?_
  rwa [if_pos due] at ending

/-- A change of trust that is granted is made. -/
theorem node?_apply_of_grants (found : w.node? s = some n)
    (granted : w.grants c caller path s = true) :
    (c.apply caller path w).node? s = some (c.amend n) := by
  simp only [World.grants, Bool.and_eq_true, decide_eq_true_eq, found, Option.any_some,
    Bool.not_eq_true'] at granted
  obtain ⟨⟨asker, resolved⟩, mutable, due⟩ := granted
  obtain ⟨k, asks, trusted⟩ := Option.any_eq_true _ _ |>.mp asker
  have act := act_of_isDue due
  have changes : (do
      Op.require (!(← get).trust.immutable) (.of .permissionDenied
        ("permission denied: interpreter " ++ Text.quoted path ++ " is immutable"))
      c.act : Edit Unit) n = .ok () (c.amend n) := by
    rw [Ends.eq_ok_iff] at act ⊢
    simpa only [Ends.bind_iff, Ends.get_iff, Op.ends_require, mutable, Bool.not_false, true_implies,
      reduceCtorEq, false_implies, and_true] using act
  have changed : Op.changeTrust caller path c.action c.act w =
      .ok s (w.modifyNode s fun _ => c.amend n) := by
    rw [Op.changeTrust, Op.bind_of_ok (Op.requirePrivilege_ok asks (by simpa using trusted) _),
      Op.bind_of_ok (Op.resolve_ok resolved),
      Op.bind_of_ok (Op.updateNode_ok found changes)]
    rfl
  have made : c.run caller path w = .ok () (c.note s (w.modifyNode s fun _ => c.amend n)) := by
    rw [run_eq, Op.bind_of_ok changed]
    rfl
  rw [apply, made]
  exact (World.node?_congr (c.nodes_note s _) s).trans (World.node?_modifyNode_same _ found)

end TrustChange

namespace Control

variable {i : Invocation} {w : World} {words : List Text} {name path word : Text}

/-- With a boolean word the flag is changed. -/
theorem ends_toggle (get : Trust → Bool) (change : Bool → TrustChange) {on : Bool}
    (meant : Text.toBool word = .ok on) :
    Ends (toggle get (fun caller path on => (change on).run caller path) i [path, word]) w fun _ v =>
      v = (change on).apply i.node path w := by
  rw [toggle, meant, Ends.bind_iff, Op.ends_lift]
  exact .bind ((change on).ends_apply i.node path w) (fun _ _ done => done) fun _ _ done => done

theorem toggled_cases {change : Bool → TrustChange} (h : toggled? name = some change) :
    name = "makesafe" ∧ change = .safe ∨ name = "makestandard" ∧ change = .standard ∨
      name = "readonly" ∧ change = .readOnly ∨ name = "immutable" ∧ change = .immutable := by
  unfold toggled? at h
  repeat' split at h
  all_goals simp_all

/-- A subcommand that is asked for a change that thaws makes that change, if it is granted. -/
theorem ends_dispatch_thaw (e : Engine) {call : Call} (args : call.args = name :: words)
    {c : TrustChange} (asked : trustWords name words = some (path, c)) (thaws : c.thaws = true) :
    Ends (dispatch e call) w fun _ v => v = c.apply call.node path w := by
  have applied {s : Subcommand} {f : Invocation → List Text → Op Text} (run : s.run = plain f)
      (few : (words.length < s.least || s.most.any (· < words.length)) = false)
      (made : Ends (f (.of call s.name) words) w fun _ v => v = c.apply call.node path w) :
      Ends (s.apply e call words) w fun _ v => v = c.apply call.node path w := by
    rw [Subcommand.apply, few, run]
    exact Regime.ends_perform made
  have yes : Text.toBool "1" = .ok true := by decide +kernel
  unfold dispatch
  rw [args]
  unfold trustWords at asked
  split at asked
  · obtain ⟨-, rfl⟩ := Prod.mk.inj (Option.some.inj asked)
    cases thaws
  · split at asked
    · rename_i change toggled
      split at asked
      · rename_i named
        obtain ⟨rfl, rfl⟩ := Prod.mk.inj (Option.some.inj asked)
        rcases named with rfl | rfl
        · obtain rfl := Option.some.inj toggled
          exact applied rfl rfl (ends_toggle Trust.safe .safe yes)
        · obtain rfl := Option.some.inj toggled
          exact applied rfl rfl (ends_toggle Trust.standard .standard yes)
      · cases asked
    · rename_i change toggled
      split at asked
      · rename_i on meant
        obtain ⟨rfl, rfl⟩ := Prod.mk.inj (Option.some.inj asked)
        rcases toggled_cases toggled with ⟨rfl, rfl⟩ | ⟨rfl, rfl⟩ | ⟨rfl, rfl⟩ | ⟨rfl, rfl⟩
        · exact applied rfl rfl (ends_toggle Trust.safe .safe meant)
        · exact applied rfl rfl (ends_toggle Trust.standard .standard meant)
        · exact applied rfl rfl (ends_toggle Trust.readOnly .readOnly meant)
        · exact applied rfl rfl (ends_toggle Trust.immutable .immutable meant)
      · cases asked
    · cases asked

end Control

/-! ### Read-only nodes -/

namespace World

variable {w v : World} {s : NodeId} {n : Node}

/-- As long as node `s`, which was `n`, is part of the tree, it is read-only and has the same commands,
visible and hidden, and the same aliases. -/
def Freezes (s : NodeId) (n : Node) (v : World) : Prop :=
  ∀ n', v.node? s = some n' → n'.attached = true →
    n'.trust.readOnly = true ∧ n'.commands = n.commands ∧ n'.aliases = n.aliases

theorem Heeds.freezes (h : Heeds (· = s) w v) (found : w.node? s = some n)
    (readOnly : n.trust.readOnly = true) : Freezes s n v := by
  intro n' found' attached
  obtain ⟨m, there, heeds⟩ := h s n found
  obtain rfl : m = n' := Option.some.inj (there.symm.trans found')
  exact heeds.tables rfl readOnly attached

/-- From any moment in the history of a tree on, a node that is read-only has the same commands and
aliases after whatever a host does or a script asks for, up to the first request to make the node
writable, safe or standard (or to take such a mark back) that is granted. A change of trust of these
kinds that is granted is made, by a host as well as by a script, as if the node were not read-only. -/
theorem tables_frozen_from_plant_unless_thawed {settings : Settings} {host : Host}
    (planted : plant settings host = .ok w) (pace : Pace) (fuel : Nat) (m : Moment)
    (found : (m.world pace fuel w).node? s = some n) (readOnly : n.trust.readOnly = true) :
    (∀ (stops : Request → World → Bool) (k : Nat), (∀ r v, r.thaws s v = true → stops r v = true) →
      (∀ d : Deed, d.thaws s (m.world pace fuel w) = false →
        Freezes s n ((m.world pace fuel w).after (d.act (.upTo pace stops k)))) ∧
      ∀ r, Freezes s n ((m.world pace fuel w).after (Engine.runUntil pace stops k r))) ∧
    (∀ caller path (c : TrustChange), (m.world pace fuel w).grants c caller path s = true →
      (c.apply caller path (m.world pace fuel w)).node? s = some (c.amend n)) ∧
    ∀ e call, Request.thaws s (.perform call .ensemble) (m.world pace fuel w) = true →
      ∃ c : TrustChange, c.thaws = true ∧
        ((m.world pace fuel w).after (Control.dispatch e call)).node? s = some (c.amend n) := by
  have inv := isHeedful_world pace fuel (isHeedful_plant planted) m
  refine ⟨fun stops k cold => ⟨fun d held => ?_, fun r => ?_⟩, fun caller path c =>
    TrustChange.node?_apply_of_grants found, fun e call thaws => ?_⟩
  · exact (leads_deed pace k inv (fun _ here => here ▸ held)
      fun _ here => here ▸ cold).2.freezes found readOnly
  · exact (leads_request pace k inv (fun _ here => here ▸ cold) r).2.freezes found readOnly
  · simp only [Request.thaws] at thaws
    split at thaws
    · cases thaws
    · rename_i name words args
      split at thaws
      · rename_i path c asked
        obtain ⟨thaws, granted⟩ := (Bool.and_eq_true _ _).mp thaws
        refine ⟨c, thaws, ?_⟩
        rw [(Control.ends_dispatch_thaw e args asked thaws).after]
        exact TrustChange.node?_apply_of_grants found granted
      · cases thaws

/-- A child of the root is created and made read-only. -/
def icing : Moment where
  past := [.tree (.create root [] "a" {})]
  deed := .trust root "a" (.readOnly true)

/-- A script of the root tries every way to the tables of the child. -/
def chipping : Deed := .evaluate none root
  "catch {interp hide a set}; catch {interp alias a x {} set}; catch {interp eval a {proc p x {}}}"

/-- The tables of the child are out of reach, until it is made safe. -/
theorem tables_frozen_from_plant_iced :
    ∃ n, (icing.world .timely 20 sapling).node? 2 = some n ∧ n.trust.readOnly = true ∧
      Freezes 2 n ((icing.world .timely 20 sapling).after (chipping.act (.upTo .timely (Request.thaws 2) 20))) ∧
      (TrustChange.apply root "a" (.safe true) (icing.world .timely 20 sapling)).node? 2 =
        some (n.remark .safe true) ∧ (n.remark .safe true).trust.readOnly = true ∧
      (n.remark .safe true).commands ≠ n.commands := by
  have iced : ((icing.world .timely 20 sapling).node? 2).any (fun n =>
      n.trust.readOnly && (n.remark .safe true).trust.readOnly &&
        (n.remark .safe true).commands != n.commands) = true := by decide +kernel
  have granted : (icing.world .timely 20 sapling).grants (.safe true) root "a" 2 = true := by decide +kernel
  obtain ⟨n, found, marked⟩ := Option.any_eq_true _ _ |>.mp iced
  simp only [Bool.and_eq_true] at marked
  obtain ⟨⟨readOnly, still⟩, hidden⟩ := marked
  obtain ⟨freezes, made, -⟩ :=
    tables_frozen_from_plant_unless_thawed plant_sapling .timely 20 icing found readOnly
  exact ⟨n, found, readOnly, (freezes (Request.thaws 2) 20 fun _ _ => id).1 chipping rfl,
    made root "a" (.safe true) granted, still, bne_iff_ne.mp hidden⟩

end World

end InterpTree
