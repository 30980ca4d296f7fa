import InterpTree.Proofs.Custody
import InterpTree.Proofs.Moments

/-!
What a host does about objects and the tree they are in, step by step. An object is registered in one
node until it is shared, and its value is closed when it is taken out of there or when the node is torn
down, whichever comes first.
-/

namespace InterpTree

/-- What a host does about a tree and about the objects in it. -/
inductive Handling
  | add (id : NodeId) (name : Text) (value : HostValue)
  | remove (id : NodeId) (name : Text)
  | share (caller : NodeId) (path name : Text)
  /-- The host exempts an object from disposal. -/
  | exempt (token : Nat)
  | tree (o : TreeOp)
  | close (order : List NodeId)
deriving DecidableEq

namespace Handling

/-- The world after the step, also if it was refused. -/
def apply : Handling → World → World
  | add id name value, w => w.after (Op.addObject id name value)
  | remove id name, w => w.after (Op.removeObject id name)
  | share caller path name, w => w.after (Op.shareObject caller path name)
  | exempt token, w => w.modifyObject token fun o => { o with noDispose := true }
  | tree o, w => o.apply w
  | close order, w => w.closeBy order

/-- Objects are registered in nodes, and operations on the tree asked for by nodes, that joined the
tree; and when the tree is closed every node that is left is visited. -/
def Fits : Handling → World → Prop
  | add id .., w => w.HasJoined id
  | tree o, w => w.HasJoined o.caller
  | close order, w => w.closed = false → order.Perm w.leftovers
  | remove .., _ | share .., _ | exempt _, _ => True

instance : (s : Handling) → (w : World) → Decidable (s.Fits w)
  | add .., _ | tree _, _ | close _, _ | remove .., _ | share .., _ | exempt _, _ => by
    unfold Fits
    infer_instance

/-- The step is to exempt an object from disposal, by sharing it or by itself. -/
def Exempts (t : Nat) : Handling → World → Prop
  | share caller _ name, w => (w.objectsAt caller).lookup name = some t
  | exempt token, _ => token = t
  | add .., _ | remove .., _ | tree _, _ | close _, _ => False

instance (t : Nat) : (s : Handling) → (w : World) → Decidable (s.Exempts t w)
  | add .., _ | tree _, _ | close _, _ | remove .., _ | share .., _ | exempt _, _ => by
    unfold Exempts
    infer_instance

/-- The step takes an object out of a node. -/
def Removes (t : Nat) : Handling → World → Prop
  | remove id name, w => (w.objectsAt id).lookup name = some t
  | add .., _ | share .., _ | exempt _, _ | tree _, _ | close _, _ => False

instance (t : Nat) : (s : Handling) → (w : World) → Decidable (s.Removes t w)
  | add .., _ | tree _, _ | close _, _ | remove .., _ | share .., _ | exempt _, _ => by
    unfold Removes
    infer_instance

end Handling

namespace World

variable {w v u : World} {id i h : NodeId} {n m : Node} {t : Nat} {o : Object} {name : Text}
  {value : HostValue} {s : Handling}

/-- The world after some steps, one after the other. -/
def handled (w : World) (steps : List Handling) : World := steps.foldl (fun w s => s.apply w) w

/-- Each step fits the world that it finds. -/
def Allows (w : World) : List Handling → Prop
  | [] => True
  | s :: steps => s.Fits w ∧ (s.apply w).Allows steps

/-- Some step does `P` in the world that it finds. -/
def Sees (w : World) (P : Handling → World → Prop) : List Handling → Prop
  | [] => False
  | s :: steps => P s w ∨ (s.apply w).Sees P steps

instance decidableAllows (w : World) : (steps : List Handling) → Decidable (w.Allows steps)
  | [] => .isTrue trivial
  | s :: steps =>
    have := decidableAllows (s.apply w) steps
    inferInstanceAs (Decidable (_ ∧ _))

instance decidableSees (w : World) (P : Handling → World → Prop) [∀ s v, Decidable (P s v)] :
    (steps : List Handling) → Decidable (w.Sees P steps)
  | [] => .isFalse fun never => never
  | s :: steps =>
    have := decidableSees (s.apply w) P steps
    inferInstanceAs (Decidable (_ ∨ _))

/-- What a step comes to. -/
inductive Effect (s : Handling) (w v : World) : Prop
  | disposes (disposes : w.Disposes (fun t => s.Removes t w) v) (lasts : w.Lasts v)
  | adds (id : NodeId) (name : Text) (value : HostValue) (t : Nat)
      (step : s = .add id name value) (adds : w.Adds id name value t v)
  | exempts (t : Nat) (asked : s.Exempts t w) (exempted : w.Exempted t v)

theorem sweeps_apply (o : TreeOp) (housed : w.IsHoused) : w.Sweeps (o.apply w) := by
  refine TreeOp.apply_of_ends ?_
  cases o with
  | create caller path name options => exact (Op.sweeps_create caller path name options housed).discard
  | delete worker caller path => exact Op.sweeps_delete worker caller path housed
  | share caller path source => exact (Op.sweeps_shareInterp caller path source housed).discard
  | dispose worker caller path => exact Op.sweeps_disposeShared worker caller path housed

theorem closeBy_spec (order : List NodeId) (housed : w.IsHoused) :
    w.Disposes (fun _ => False) (w.closeBy order) ∧ (w.closeBy order).closed = true := by
  unfold closeBy
  split
  · rename_i closed
    exact ⟨.refl housed fun _ never => never, closed⟩
  · -- That the tree counts as closed makes no difference to objects.
    have housed' : ({ w with closed := true } : World).IsHoused :=
      ⟨housed.numbered, housed.nodes, housed.labeled, housed.known, housed.noted⟩
    have sweeps : Sweeps { w with closed := true } (order.foldl doom w.uproot) :=
      (sweeps_doom root housed').andThen (Sweeps.foldl doom (fun _ id => sweeps_doom id) order)
    have disposes := sweeps.disposes
    exact ⟨⟨disposes.housed, disposes.objects, disposes.fewer, disposes.kept, disposes.took,
      disposes.released, disposes.quiet, disposes.balance⟩, sweeps.shut⟩

/-- Each step comes to one of three things. -/
theorem effect_apply (housed : w.IsHoused) (fits : s.Fits w) : w.Effect s (s.apply w) := by
  cases s with
  | add id name value =>
    refine ((Op.ends_addObject name value housed fits).mono fun r v h => ?_).after
    obtain ⟨-, rfl⟩ | ⟨t, -, adds⟩ := h
    · exact .disposes (.refl housed fun _ never => never) (.of_nodes rfl rfl)
    · exact .adds id name value t rfl adds
  | remove id name =>
    exact ((Op.ends_removeObject housed).mono fun _ _ h => .disposes h.1 h.2).after
  | share caller path name =>
    refine ((Op.ends_shareObject housed).mono fun r v h => ?_).after
    obtain rfl | ⟨t, named, exempted⟩ := h
    · exact .disposes (.refl housed fun _ never => never) (.of_nodes rfl rfl)
    · exact .exempts t named exempted
  | exempt token =>
    exact .exempts token rfl (exempted_modifyObject (f := fun o => { o with noDispose := true })
      housed (fun _ => rfl) (fun _ => ⟨rfl, rfl⟩) token)
  | tree o =>
    have sweeps := sweeps_apply o housed
    refine .disposes sweeps.disposes ⟨sweeps.shut.trans, fun empty closed => ?_⟩
    have gone := empty (sweeps.shut.symm.trans closed)
    change (o.apply w).IsOver
    rw [o.apply_of_isOver gone housed.numbered fits]
    exact gone
  | close order =>
    obtain ⟨disposes, closed⟩ := closeBy_spec order housed
    refine .disposes disposes ⟨fun _ => closed, fun empty _ => ?_⟩
    change (w.closeBy order).IsOver
    obtain ⟨closed, same⟩ | ⟨-, gone⟩ := closeBy_cases housed.numbered fits
    · rw [same]
      exact empty closed
    · exact gone

theorem lasts_apply (housed : w.IsHoused) (fits : s.Fits w) : w.Lasts (s.apply w) := by
  cases effect_apply housed fits with
  | disposes _ lasts => exact lasts
  | adds _ _ _ _ _ adds => exact adds.concerns.lasts
  | exempts _ _ exempted => exact exempted.concerns.lasts

/-! ### Steps -/

/-- Of what is not exempt from disposal, everything is registered in one node or has been closed. -/
structure IsAccounted (w : World) : Prop where
  housed : w.IsHoused
  once : ∀ t, w.closings t ≤ 1
  placed : ∀ t, w.closes t = true → ∃ h, w.IsOnlyAt h t ∧ w.closings t + w.held h t = 1
  ignored : ∀ t o, w.object? t = some o → o.value.disposal = .ignored → w.closings t = 0
  empty : w.closed = true → w.IsOver

theorem closings_congr (same : v.host.closed = w.host.closed) (t : Nat) :
    v.closings t = w.closings t := by
  rw [closings, same, closings]

theorem closes_of_object? (found : w.object? t = some o) : w.closes t = o.closes := by
  rw [closes, found, Option.any_some]

/-- What is no object has not been closed. -/
theorem IsHoused.closings_eq_zero (housed : w.IsHoused) (none : w.object? t = none) :
    w.closings t = 0 := by
  refine List.count_eq_zero.mpr fun mem => ?_
  have known := housed.noted t mem
  rw [none] at known
  cases known

theorem Concerns.closes (concerns : w.Concerns t v) {s : Nat} (other : s ≠ t) :
    v.closes s = w.closes s := by
  rw [World.closes, concerns.others s other, World.closes]

theorem Concerns.isOnlyAt (concerns : w.Concerns t v) {s : Nat} (other : s ≠ t)
    (only : w.IsOnlyAt h s) : v.IsOnlyAt h s := fun i away =>
  (concerns.held i s other).trans (only i away)

/-- Where only one object is concerned, it is enough to look at that one. -/
theorem Concerns.isAccounted (concerns : w.Concerns t v) (accounted : w.IsAccounted)
    (placed : v.closes t = true → ∃ h, v.IsOnlyAt h t ∧ v.closings t + v.held h t = 1)
    (ignored : ∀ o, v.object? t = some o → o.value.disposal = .ignored → v.closings t = 0) :
    v.IsAccounted := by
  have same := closings_congr concerns.closed
  refine ⟨concerns.housed, fun s => (same s).symm ▸ accounted.once s, fun s closes => ?_,
    fun s o found never => ?_, fun closed => ?_⟩
  · by_cases here : s = t
    · exact here ▸ placed (here ▸ closes)
    · obtain ⟨h, only, sum⟩ := accounted.placed s ((concerns.closes here).symm.trans closes)
      refine ⟨h, concerns.isOnlyAt here only, ?_⟩
      rw [same, concerns.held h s here, sum]
  · by_cases here : s = t
    · exact here ▸ ignored o (here ▸ found) never
    · rw [same]
      exact accounted.ignored s o ((concerns.others s here).symm.trans found) never
  · exact concerns.lasts.empty accounted.empty closed

theorem Disposes.isOnlyAt {taken : Nat → Prop} (disposes : w.Disposes taken v)
    (only : w.IsOnlyAt h t) : v.IsOnlyAt h t := fun i other =>
  Nat.le_zero.mp (only i other ▸ disposes.fewer i t)

theorem Disposes.isAccounted {taken : Nat → Prop} (disposes : w.Disposes taken v)
    (accounted : w.IsAccounted) (empty : v.closed = true → v.IsOver) : v.IsAccounted := by
  have closes := closes_congr disposes.objects
  have placed (t : Nat) (closed : w.closes t = true) :
      ∃ h, v.IsOnlyAt h t ∧ v.closings t + v.held h t = 1 := by
    obtain ⟨h, only, sum⟩ := accounted.placed t closed
    exact ⟨h, disposes.isOnlyAt only, (disposes.balance t h closed only).trans sum⟩
  refine ⟨disposes.housed, fun t => ?_, fun t closed => placed t ((closes t).symm.trans closed),
    fun t o found never => ?_, empty⟩
  · cases closed : w.closes t with
    | true =>
      obtain ⟨h, -, sum⟩ := placed t closed
      omega
    | false =>
      rw [disposes.quiet t closed]
      exact accounted.once t
  · rw [object?_congr disposes.objects] at found
    have stays : w.closes t = false := by
      rw [closes_of_object? found]
      simp [Object.closes, never]
    rw [disposes.quiet t stays]
    exact accounted.ignored t o found never

theorem IsAccounted.step (accounted : w.IsAccounted) (fits : s.Fits w) :
    (s.apply w).IsAccounted := by
  cases effect_apply accounted.housed fits with
  | disposes disposes lasts => exact disposes.isAccounted accounted (lasts.empty accounted.empty)
  | adds id name value t _ adds =>
    have none : (s.apply w).closings t = 0 :=
      (closings_congr adds.concerns.closed t).trans (accounted.housed.closings_eq_zero adds.new)
    exact adds.concerns.isAccounted accounted
      (fun _ => ⟨id, adds.only, by rw [none, adds.once]⟩) fun _ _ _ => none
  | exempts t _ exempted =>
    obtain ⟨f, same, marks⟩ := exempted.marked
    refine exempted.concerns.isAccounted accounted (fun closes => ?_) fun o found never => ?_
    · obtain ⟨o, found, closes⟩ := Option.any_eq_true _ _ |>.mp closes
      rw [same] at found
      obtain ⟨o', -, rfl⟩ := Option.map_eq_some_iff.mp found
      simp [Object.closes, (marks o').1] at closes
    · rw [same] at found
      obtain ⟨o', found', rfl⟩ := Option.map_eq_some_iff.mp found
      exact (closings_congr exempted.concerns.closed t).trans
        (accounted.ignored t o' found' ((marks o').2.symm.trans never))

/-- The object is exempt from disposal. -/
def IsExempt (w : World) (t : Nat) : Prop := ∃ o, w.object? t = some o ∧ o.noDispose = true

instance (w : World) (t : Nat) : Decidable (w.IsExempt t) :=
  decidable_of_iff ((w.object? t).any Object.noDispose = true) (Option.any_eq_true _ _)

/-- What is exempt from disposal stays so, and is not closed. -/
theorem IsExempt.step (exempt : w.IsExempt t) (accounted : w.IsAccounted) (fits : s.Fits w) :
    (s.apply w).IsExempt t ∧ (s.apply w).closings t = w.closings t := by
  obtain ⟨o, found, marked⟩ := exempt
  cases effect_apply accounted.housed fits with
  | disposes disposes _ =>
    refine ⟨⟨o, (object?_congr disposes.objects t).trans found, marked⟩, disposes.quiet t ?_⟩
    rw [closes_of_object? found]
    simp [Object.closes, marked]
  | adds id name value new _ adds =>
    have other := adds.ne_of_object? found
    exact ⟨⟨o, (adds.concerns.others t other).trans found, marked⟩,
      closings_congr adds.concerns.closed t⟩
  | exempts s _ exempted =>
    refine ⟨?_, closings_congr exempted.concerns.closed t⟩
    by_cases here : t = s
    · subst here
      obtain ⟨f, same, marks⟩ := exempted.marked
      exact ⟨f o, same.trans (congrArg (Option.map f) found), (marks o).1⟩
    · exact ⟨o, (exempted.concerns.others t here).trans found, marked⟩

/-- An object that was registered in node `h` and is not exempt from disposal: it is still there, or it
has been closed since it was taken out, as `gone` says, or its node was released. -/
structure IsLodged (w : World) (h : NodeId) (t : Nat) (gone : Prop) : Prop where
  closes : w.closes t = true
  only : w.IsOnlyAt h t
  sum : w.closings t + w.held h t = 1
  left : w.held h t = 0 ↔ gone ∨ w.IsReleased h

theorem IsLodged.of_concerns {gone : Prop} {r : Nat} (lodged : w.IsLodged h t gone)
    (concerns : w.Concerns r v) (other : t ≠ r) : v.IsLodged h t gone where
  closes := (concerns.closes other).trans lodged.closes
  only := concerns.isOnlyAt other lodged.only
  sum := by rw [closings_congr concerns.closed, concerns.held h t other, lodged.sum]
  left := by rw [concerns.held h t other, lodged.left, concerns.released]

theorem IsLodged.of_disposes {gone : Prop} {taken : Nat → Prop} (lodged : w.IsLodged h t gone)
    (disposes : w.Disposes taken v) : v.IsLodged h t (gone ∨ taken t) := by
  have fewer := disposes.fewer h t
  have sum := disposes.balance t h lodged.closes lodged.only
  have start := lodged.sum
  refine ⟨(closes_congr disposes.objects t).trans lodged.closes, disposes.isOnlyAt lodged.only,
    sum.trans start, fun none => ?_, fun left => ?_⟩
  · obtain same | released | taken := disposes.kept h t
    · obtain gone | released := lodged.left.mp (same.symm.trans none)
      · exact .inl (.inl gone)
      · exact .inr (disposes.released h released)
    · exact .inr released
    · exact .inl (.inr taken)
  · obtain (gone | taken) | released := left
    · have := lodged.left.mpr (.inl gone)
      omega
    · -- Nothing else can be taken than the one registration there is.
      obtain ⟨i, less⟩ := disposes.took t taken
      by_cases here : i = h
      · subst here
        omega
      · have := lodged.only i here
        omega
    · rw [held, disposes.housed.objectsAt_eq_nil released]
      rfl

theorem IsLodged.step {gone : Prop} (lodged : w.IsLodged h t gone) (housed : w.IsHoused)
    (fits : s.Fits w) (spared : ¬ s.Exempts t w) :
    (s.apply w).IsLodged h t (gone ∨ s.Removes t w) := by
  obtain ⟨o, found, -⟩ := Option.any_eq_true _ _ |>.mp lodged.closes
  cases effect_apply housed fits with
  | disposes disposes _ => exact lodged.of_disposes disposes
  | adds id name value new step adds =>
    have other := adds.ne_of_object? found
    have none : ¬ s.Removes t w := by
      rw [step]
      exact fun never => never
    rw [or_iff_left none]
    exact lodged.of_concerns adds.concerns other
  | exempts r asked exempted =>
    have other : t ≠ r := fun same => spared (same ▸ asked)
    have none : ¬ s.Removes t w := by
      cases s <;> first | exact fun never => never | exact asked.elim
    rw [or_iff_left none]
    exact lodged.of_concerns exempted.concerns other

/-- Whether its value can be closed is known of an object for good. -/
theorem disposal_apply (housed : w.IsHoused) (fits : s.Fits w) (found : w.object? t = some o) :
    ∃ o', (s.apply w).object? t = some o' ∧ o'.value.disposal = o.value.disposal := by
  cases effect_apply housed fits with
  | disposes disposes _ => exact ⟨o, (object?_congr disposes.objects t).trans found, rfl⟩
  | adds id name value new step adds =>
    have other := adds.ne_of_object? found
    exact ⟨o, (adds.concerns.others t other).trans found, rfl⟩
  | exempts r asked exempted =>
    by_cases here : t = r
    · subst here
      obtain ⟨f, same, marks⟩ := exempted.marked
      exact ⟨f o, same.trans (congrArg (Option.map f) found), (marks o).2⟩
    · exact ⟨o, (exempted.concerns.others t here).trans found, rfl⟩

end World

end InterpTree
