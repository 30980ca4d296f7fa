import InterpTree.Proofs.Establishment

/-!
Overrides of limits, one after the other. Each is accepted where it leaves the node with valid limits;
what they come to is told, limit by limit, by the last that mentions it.
-/

namespace InterpTree

/-! ### Limits that are valid -/

namespace Limits

variable {o : Override} {l : Limits}

theorem anyNegative_eq_false_iff : l.anyNegative = false ↔ ∀ f, 0 ≤ l.get f := by
  simp only [anyNegative, Bool.or_eq_false_iff, decide_eq_false_iff_not, Int.not_lt]
  constructor
  · rintro ⟨⟨⟨⟨⟨a, b⟩, c⟩, d⟩, e⟩, g⟩ (_ | _) <;> assumption
  · intro all
    exact ⟨⟨⟨⟨⟨all .timeout, all .finallyTimeout⟩, all .readyLimit⟩, all .recursionLimit⟩,
      all .sleepTime⟩, all .resultLimit⟩

/-- Nothing negative is mentioned. -/
def Override.IsValid (o : Override) : Prop := ∀ f x, o.get f = some x → 0 ≤ x

theorem Override.isValid_of_over (h : (o.over l).anyNegative = false) : o.IsValid := by
  intro f x said
  have := anyNegative_eq_false_iff.mp h f
  rwa [World.get_over, said] at this

theorem anyNegative_over (valid : o.IsValid) (h : l.anyNegative = false) :
    (o.over l).anyNegative = false := by
  rw [anyNegative_eq_false_iff] at h ⊢
  intro f
  rw [World.get_over]
  cases said : o.get f with
  | none => exact h f
  | some x => exact valid f x said

theorem Override.get_of_isEmpty (empty : o.isEmpty = true) (f : Field) : o.get f = none := by
  simp only [isEmpty, Bool.and_eq_true, Option.isNone_iff_eq_none] at empty
  cases f <;> simp [get, empty]

end Limits

/-! ### Overrides one after the other -/

/-- That the limits of a node are overridden. -/
structure Limits.Setting where
  node : NodeId
  limits : Limits.Override

/-- What an override says about a limit of node `i`. -/
def Limits.Setting.tells (i : NodeId) (f : Limits.Field) (s : Limits.Setting) : Option Int :=
  if s.node = i then s.limits.get f else none

namespace World

open Limits (Setting Field)

variable {w x v : World} {i : NodeId} {n : Node} {s : Setting} {ss ts : List Setting}

/-- The world with limits overridden. -/
def relimit (w : World) (s : Setting) : World := w.modifyNode s.node (Node.relimit s.limits)

theorem node?_relimit_same (found : w.node? s.node = some n) :
    (w.relimit s).node? s.node = some (n.relimit s.limits) := node?_modifyNode_same _ found

theorem node?_relimit_ne (other : i ≠ s.node) : (w.relimit s).node? i = w.node? i :=
  node?_modifyNode_ne _ other

/-- The world with limits overridden, one node after the other. -/
def relimitAll (w : World) (ss : List Setting) : World := ss.foldl relimit w

/-- The node is there, and its limits become valid ones. -/
def Accepts (w : World) (s : Setting) : Prop :=
  ∃ n, w.node? s.node = some n ∧ (n.relimit s.limits).cancel.limits.anyNegative = false

/-- None of the overrides is refused. -/
def AcceptsAll (w : World) : List Setting → Prop
  | [] => True
  | s :: ss => w.Accepts s ∧ (w.relimit s).AcceptsAll ss

theorem acceptsAll_append : w.AcceptsAll (ss ++ ts) ↔ w.AcceptsAll ss ∧ (w.relimitAll ss).AcceptsAll ts := by
  induction ss generalizing w with
  | nil => simp [AcceptsAll, relimitAll]
  | cons s ss ih => simp only [List.cons_append, AcceptsAll, ih, relimitAll, List.foldl_cons, and_assoc]

theorem relimitAll_append (w : World) (ss ts : List Setting) :
    w.relimitAll (ss ++ ts) = (w.relimitAll ss).relimitAll ts := List.foldl_append

theorem isLike_relimit (w : World) (s : Setting) : w.IsLike (w.relimit s) :=
  .modifyNode composes_isLike _ fun _ _ => rfl

theorem isLike_relimitAll (w : World) (ss : List Setting) : w.IsLike (w.relimitAll ss) :=
  foldl_induction (I := fun v => w.IsLike v)
    (fun _ s like => like.trans composes_isLike (isLike_relimit _ s)) (.refl composes_isLike w) ss

/-- Nothing but nodes changes. -/
theorem rest_relimitAll (w : World) (ss : List Setting) :
    w.relimitAll ss = { w with nodes := (w.relimitAll ss).nodes } := by
  refine foldl_induction (I := fun v : World => v = { w with nodes := v.nodes }) (fun v s same => ?_) rfl ss
  rw [relimit, modifyNode]
  split
  · exact same
  · rw [same]

/-- Each limit becomes what the last override says that is for the node and mentions it. -/
theorem node?_relimitAll (found : w.node? i = some n) (ss : List Setting) :
    ∃ l, (w.relimitAll ss).node? i = some { n with cancel := { n.cancel with limits := l } } ∧
      ∀ f, l.get f = (ss.reverse.findSome? fun s => s.tells i f).getD (n.cancel.limits.get f) := by
  induction ss generalizing w n with
  | nil => exact ⟨n.cancel.limits, found, fun _ => rfl⟩
  | cons s ss ih =>
    by_cases here : i = s.node
    · subst here
      obtain ⟨l, found', gets⟩ := ih (node?_relimit_same found)
      refine ⟨l, found', fun f => ?_⟩
      have own : s.tells s.node f = s.limits.get f := if_pos rfl
      rw [gets, List.reverse_cons, List.findSome?_append, Node.relimit, World.get_over]
      cases ss.reverse.findSome? fun s' => s'.tells s.node f with
      | none => cases said : s.limits.get f <;> simp [own, said]
      | some x => rfl
    · obtain ⟨l, found', gets⟩ := ih ((node?_relimit_ne here).trans found)
      refine ⟨l, found', fun f => ?_⟩
      have other : s.tells i f = none := if_neg fun same => here same.symm
      rw [gets, List.reverse_cons, List.findSome?_append]
      simp [other]

theorem node?_relimitAll_none (gone : w.node? i = none) (ss : List Setting) :
    (w.relimitAll ss).node? i = none := (isLike_relimitAll w ss).node?_none gone

/-- The node is there, and its limits are valid. -/
def HasValidLimits (w : World) (i : NodeId) : Prop :=
  ∃ n, w.node? i = some n ∧ n.cancel.limits.anyNegative = false

theorem HasValidLimits.relimit (h : w.HasValidLimits i) (valid : s.limits.IsValid) :
    (w.relimit s).HasValidLimits i := by
  obtain ⟨n, found, before⟩ := h
  by_cases here : i = s.node
  · subst here
    exact ⟨_, node?_relimit_same found, Limits.anyNegative_over valid before⟩
  · exact ⟨n, (node?_relimit_ne here).trans found, before⟩

theorem Accepts.valid (h : w.Accepts s) : s.limits.IsValid ∧ (w.relimit s).HasValidLimits s.node := by
  obtain ⟨n, found, valid⟩ := h
  exact ⟨Limits.Override.isValid_of_over valid, _, node?_relimit_same found, valid⟩

/-- Overrides that were granted leave valid limits where they were made. -/
theorem AcceptsAll.valid (h : w.AcceptsAll ss) :
    (∀ s ∈ ss, s.limits.IsValid ∧ (w.relimitAll ss).HasValidLimits s.node) ∧
      ∀ i, w.HasValidLimits i → (w.relimitAll ss).HasValidLimits i := by
  induction ss generalizing w with
  | nil => exact ⟨List.forall_mem_nil _, fun _ before => before⟩
  | cons s ss ih =>
    obtain ⟨first, rest⟩ := h
    obtain ⟨others, kept⟩ := ih rest
    obtain ⟨valid, here⟩ := first.valid
    exact ⟨List.forall_mem_cons.mpr ⟨⟨valid, kept s.node here⟩, others⟩,
      fun i before => kept i (before.relimit valid)⟩

/-- Valid overrides of valid limits are granted. -/
theorem acceptsAll_of_valid (h : ∀ s ∈ ss, s.limits.IsValid ∧ w.HasValidLimits s.node) :
    w.AcceptsAll ss := by
  induction ss generalizing w with
  | nil => trivial
  | cons s ss ih =>
    obtain ⟨⟨valid, n, found, before⟩, others⟩ := List.forall_mem_cons.mp h
    exact ⟨⟨n, found, Limits.anyNegative_over valid before⟩, ih fun s' mem =>
      ⟨(others s' mem).1, (others s' mem).2.relimit valid⟩⟩

/-- Overrides that were granted are granted again, and change nothing. -/
theorem AcceptsAll.twice (h : w.AcceptsAll ss) :
    (w.relimitAll ss).AcceptsAll ss ∧ (w.relimitAll ss).relimitAll ss = w.relimitAll ss := by
  refine ⟨acceptsAll_of_valid h.valid.1, ?_⟩
  rw [rest_relimitAll (w.relimitAll ss)]
  have same : ((w.relimitAll ss).relimitAll ss).nodes = (w.relimitAll ss).nodes := by
    refine Array.ext_getElem? fun j => ?_
    rw [← node?_succ, ← node?_succ]
    cases found : w.node? (j + 1) with
    | none =>
      have gone := node?_relimitAll_none found ss
      rw [gone, node?_relimitAll_none gone]
    | some n =>
      obtain ⟨l, found', gets⟩ := node?_relimitAll found ss
      obtain ⟨l', found'', gets'⟩ := node?_relimitAll found' ss
      have same : l' = l := Limits.get_injective fun f => by
        rw [gets', gets]
        cases ss.reverse.findSome? fun s => s.tells (j + 1) f <;> rfl
      rw [found'', found', same]
  rw [same]

end World

end InterpTree
