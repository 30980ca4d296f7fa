import InterpTree.Act
import InterpTree.Tree.Path

/-!
How computations end. `Ends x w Q` says that `x`, run in the world `w`, comes to an outcome and a
world of which `Q` holds, whether it succeeds or is refused. The rules follow the way computations
are put together.
-/

namespace InterpTree

/-- However `x` ends when it runs in `w`, `Q` holds of its outcome and of what it leaves. The state is
the world, or a node that is edited. -/
def Ends {ε σ α : Type} (x : EStateM ε σ α) (w : σ) (Q : Except ε α → σ → Prop) : Prop :=
  match x w with
  | .ok a v => Q (.ok a) v
  | .error e v => Q (.error e) v

instance decidableEqResult {ε σ α : Type} [DecidableEq ε] [DecidableEq σ] [DecidableEq α] :
    DecidableEq (EStateM.Result ε σ α)
  | .ok a v, .ok b u => decidable_of_iff (a = b ∧ v = u) (by simp)
  | .error e v, .error f u => decidable_of_iff (e = f ∧ v = u) (by simp)
  | .ok _ _, .error _ _ => isFalse nofun
  | .error _ _, .ok _ _ => isFalse nofun

namespace Ends

variable {ε σ α β : Type} {w : σ} {x : EStateM ε σ α} {Q Q' : Except ε α → σ → Prop}

theorem mono (h : Ends x w Q) (weaker : ∀ r v, Q r v → Q' r v) : Ends x w Q' := by
  unfold Ends at h ⊢
  split at h
  · exact weaker _ _ h
  · exact weaker _ _ h

theorem of_forall (h : ∀ r v, Q r v) : Ends x w Q := by
  unfold Ends
  split <;> exact h _ _

theorem and (h : Ends x w Q) (h' : Ends x w Q') : Ends x w fun r v => Q r v ∧ Q' r v := by
  unfold Ends at h h' ⊢
  cases result : x w with
  | ok a v =>
    rw [result] at h h'
    exact ⟨h, h'⟩
  | error e v =>
    rw [result] at h h'
    exact ⟨h, h'⟩

instance [∀ r v, Decidable (Q r v)] : Decidable (Ends x w Q) :=
  match result : x w with
  | .ok a v => decidable_of_iff (Q (.ok a) v) (by simp [Ends, result])
  | .error e v => decidable_of_iff (Q (.error e) v) (by simp [Ends, result])

/-- A computation ends in one way. -/
theorem eq_ok_iff {a : α} {v : σ} : x w = .ok a v ↔ Ends x w fun r u => r = .ok a ∧ u = v := by
  unfold Ends
  cases x w with
  | ok b u => simp
  | error e u => simp

theorem exists_ok {a : α} {P : σ → Prop} (h : Ends x w fun r v => r = .ok a ∧ P v) :
    ∃ v, x w = .ok a v ∧ P v := by
  unfold Ends at h
  cases result : x w with
  | ok b v =>
    rw [result] at h
    exact ⟨v, by rw [Except.ok.inj h.1], h.2⟩
  | error e v =>
    rw [result] at h
    cases h.1

theorem of_ok {a : α} {v : σ} (result : x w = .ok a v) (h : Q (.ok a) v) : Ends x w Q := by
  unfold Ends
  rw [result]
  exact h

@[simp] theorem pure_iff {a : α} : Ends (pure a) w Q ↔ Q (.ok a) w := Iff.rfl

@[simp] theorem throw_iff {e : ε} : Ends (throw e) w Q ↔ Q (.error e) w := Iff.rfl

@[simp] theorem get_iff {Q : Except ε σ → σ → Prop} :
    Ends (get : EStateM ε σ σ) w Q ↔ Q (.ok w) w := Iff.rfl

@[simp] theorem set_iff {v : σ} {Q : Except ε PUnit → σ → Prop} :
    Ends (set v : EStateM ε σ PUnit) w Q ↔ Q (.ok ⟨⟩) v := Iff.rfl

@[simp] theorem modify_iff {f : σ → σ} {Q : Except ε PUnit → σ → Prop} :
    Ends (modify f : EStateM ε σ PUnit) w Q ↔ Q (.ok ⟨⟩) (f w) := Iff.rfl

@[simp] theorem modifyGet_iff {f : σ → α × σ} :
    Ends (modifyGet f : EStateM ε σ α) w Q ↔ Q (.ok (f w).1) (f w).2 := Iff.rfl

@[simp] theorem bind_iff {f : α → EStateM ε σ β} {Q : Except ε β → σ → Prop} :
    Ends (x >>= f) w Q ↔
      Ends x w fun r v =>
        match r with
        | .ok a => Ends (f a) v Q
        | .error e => Q (.error e) v := by
  simp only [Ends, bind, EStateM.bind]
  cases x w with
  | ok a v => exact Iff.rfl
  | error e v => exact Iff.rfl

theorem tryCatch_iff {handler : ε → EStateM ε σ α} :
    Ends (tryCatch x handler) w Q ↔
      Ends x w fun r v =>
        match r with
        | .ok a => Q (.ok a) v
        | .error e => Ends (handler e) v Q := by
  simp only [Ends, tryCatch, tryCatchThe, MonadExceptOf.tryCatch]
  delta EStateM.tryCatch
  cases x w with
  | ok a v => exact Iff.rfl
  | error e v => exact Iff.rfl

@[simp] theorem map_iff {f : α → β} {Q : Except ε β → σ → Prop} :
    Ends (f <$> x) w Q ↔ Ends x w fun r v => Q (r.map f) v := by
  simp only [Ends, Functor.map, EStateM.map]
  cases x w with
  | ok a v => exact Iff.rfl
  | error e v => exact Iff.rfl

/-- It does not matter what a computation gives back. -/
theorem discard {P : σ → Prop} (h : Ends x w fun _ v => P v) :
    Ends (do let _ ← x) w fun _ v => P v := by
  rw [bind_iff]
  refine h.mono fun r v holds => ?_
  cases r with
  | ok a => exact holds
  | error e => exact holds

/-- What `x` comes to is what `f` starts from. -/
theorem bind {f : α → EStateM ε σ β} {Q : Except ε β → σ → Prop} (h : Ends x w Q')
    (ok : ∀ a v, Q' (.ok a) v → Ends (f a) v Q) (error : ∀ e v, Q' (.error e) v → Q (.error e) v) :
    Ends (x >>= f) w Q := by
  rw [bind_iff]
  refine h.mono fun r v hr => ?_
  cases r with
  | ok a => exact ok a v hr
  | error e => exact error e v hr

/-- What `f` starts from does not matter. -/
theorem bind_of_forall {f : α → EStateM ε σ β} {Q : Except ε β → σ → Prop}
    (ok : ∀ a v, Ends (f a) v Q) (error : ∀ e v, Q (.error e) v) : Ends (x >>= f) w Q :=
  .bind (.of_forall (Q := fun _ _ => True) fun _ _ => trivial) (fun a v _ => ok a v)
    fun e v _ => error e v

end Ends

namespace Op

variable {α : Type} {w : World} {id : NodeId}

@[simp] theorem ends_node {Q : Except Fault Node → World → Prop} :
    Ends (node id) w Q ↔
      (∀ n, w.node? id = some n → Q (.ok n) w) ∧
        (w.node? id = none → Q (.error (.noInterpreter [])) w) := by
  cases found : w.node? id <;> simp [node, found]

@[simp] theorem ends_change {f : World → World} {Q : Except Fault Unit → World → Prop} :
    Ends (change f) w Q ↔ Q (.ok ()) (f w) := Iff.rfl

@[simp] theorem ends_require {σ : Type} {s : σ} {c : Bool} {f : Fault}
    {Q : Except Fault Unit → σ → Prop} :
    Ends (require c f) s Q ↔ (c = true → Q (.ok ()) s) ∧ (c = false → Q (.error f) s) := by
  cases c <;> simp [require]

@[simp] theorem ends_lift {σ : Type} {s : σ} {x : Except Fault α} {Q : Except Fault α → σ → Prop} :
    Ends (lift x) s Q ↔ Q x s := by
  cases x <;> simp [lift]

@[simp] theorem ends_resolve {path : Text} {Q : Except Fault NodeId → World → Prop} :
    Ends (resolve id path) w Q ↔
      (∀ target, w.resolve? id path = some target → Q (.ok target) w) ∧
        (w.resolve? id path = none → Q (.error (.noInterpreter path)) w) := by
  cases found : w.resolve? id path <;> simp [resolve, found]

@[simp] theorem ends_requirePrivilege {action : Text} {Q : Except Fault Unit → World → Prop} :
    Ends (requirePrivilege id action) w Q ↔
      (∀ n, w.node? id = some n →
        (n.trust.safe = false → Q (.ok ()) w) ∧
          (n.trust.safe = true → Q (.error (.of .permissionDenied
            ("permission denied: safe interpreter cannot " ++ action))) w)) ∧
        (w.node? id = none → Q (.error (.noInterpreter [])) w) := by
  simp only [requirePrivilege, Ends.bind_iff, ends_node, ends_require, Bool.not_eq_true',
    Bool.not_eq_false']

theorem bind_of_ok {β : Type} {x : Op α} {f : α → Op β} {a : α} {v : World} (h : x w = .ok a v) :
    (x >>= f) w = f a v := by
  simp [bind, EStateM.bind, h]

theorem node_ok {n : Node} (found : w.node? id = some n) : node id w = .ok n w := by
  rw [Ends.eq_ok_iff]
  simp [found]

theorem requirePrivilege_ok {n : Node} (asks : w.node? id = some n) (trusted : n.trust.safe = false)
    (action : Text) : requirePrivilege id action w = .ok () w := by
  rw [Ends.eq_ok_iff]
  simp [asks, trusted]

theorem resolve_ok {path : Text} {target : NodeId} (resolved : w.resolve? id path = some target) :
    resolve id path w = .ok target w := by
  rw [Ends.eq_ok_iff]
  simp [resolved]

end Op

namespace Act

variable {α β : Type} {w v : World}

theorem get_apply (w : World) : (get : Act World) w = .ok w w := rfl

theorem modifyNode_apply (id : NodeId) (f : Node → Node) (w : World) :
    modifyNode id f w = .ok () (w.modifyNode id f) := rfl

theorem ofNode_of_node? [Inhabited α] {id : NodeId} {n : Node} (found : w.node? id = some n)
    (read : Node → α) : ofNode id read w = .ok (read n) w := by
  simp only [ofNode, bind, EStateM.bind, get_apply, found]
  rfl

theorem bind_of_ok {x : Act α} {f : α → Act β} {a : α} (h : x w = .ok a v) :
    (x >>= f) w = f a v := by
  simp [bind, EStateM.bind, h]

/-- That an operation is refused is an outcome like any other. -/
theorem ends_attempt {op : Op α} {Q : Except Stop (Except Fault α) → World → Prop}
    (h : Ends op w fun r v => Q (.ok r) v) : Ends (attempt op) w Q := by
  unfold Ends at h ⊢
  unfold attempt
  split at h
  all_goals
    rename_i result
    simpa only [result] using h

/-- Who gets to a node where a privilege is required has that, and has changed nothing. -/
theorem privileged_of_ok {caller target : NodeId} {path action : Text}
    (asked : attempt (do
      Op.requirePrivilege caller action
      Op.resolve caller path) w = .ok (.ok target) v) :
    v = w ∧ (w.node? caller).any (fun n => !n.trust.safe) = true ∧
      w.resolve? caller path = some target := by
  have opened : Ends (attempt (do
      Op.requirePrivilege caller action
      Op.resolve caller path)) w fun r v => ∀ target, r = .ok (.ok target) → v = w ∧
        (w.node? caller).any (fun n => !n.trust.safe) = true ∧
        w.resolve? caller path = some target := ends_attempt (by simp +contextual)
  unfold Ends at opened
  rw [asked] at opened
  exact opened target rfl

end Act

/-- In the world `w` the computations `x` and `y` do the same, and end as `Q` says. -/
structure Alike {ε α : Type} (x y : EStateM ε World α) (w : World)
    (Q : Except ε α → World → Prop) : Prop where
  eq : x w = y w
  ends : Ends x w Q

namespace Alike

variable {ε α β : Type} {w : World} {x y : EStateM ε World α} {Q Q' : Except ε α → World → Prop}

theorem refl (h : Ends x w Q) : Alike x x w Q := ⟨rfl, h⟩

theorem pure {a : α} (h : Q (.ok a) w) : Alike (pure a) (pure a) w Q := ⟨rfl, h⟩

/-- Where `x` and `y` do the same and so does what follows, so do the wholes. -/
theorem bind {f g : α → EStateM ε World β} {Q : Except ε β → World → Prop} (h : Alike x y w Q')
    (ok : ∀ a v, Q' (.ok a) v → Alike (f a) (g a) v Q)
    (error : ∀ e v, Q' (.error e) v → Q (.error e) v) : Alike (x >>= f) (y >>= g) w Q := by
  refine ⟨?_, .bind h.ends (fun a v q => (ok a v q).ends) error⟩
  have ends := h.ends
  simp only [Ends] at ends
  simp only [Bind.bind, EStateM.bind, ← h.eq]
  cases result : x w with
  | ok a v =>
    simp only [result] at ends
    exact (ok a v ends).eq
  | error e v => rfl

/-- What follows the same start. -/
theorem after {f g : α → EStateM ε World β} {Q : Except ε β → World → Prop}
    (h : Ends x w fun r v =>
      match r with
      | .ok a => Alike (f a) (g a) v Q
      | .error e => Q (.error e) v) : Alike (x >>= f) (x >>= g) w Q :=
  bind (refl h) (fun _ _ q => q) fun _ _ q => q

theorem forM {γ : Type} {I : World → Prop} {f g : γ → EStateM ε World PUnit} {as : List γ}
    (h : ∀ a ∈ as, ∀ v, I v → Alike (f a) (g a) v fun _ u => I u) (start : I w) :
    Alike (as.forM f) (as.forM g) w fun _ u => I u := by
  induction as generalizing w with
  | nil => exact .pure start
  | cons a as ih =>
    change Alike (f a >>= fun _ => as.forM f) (g a >>= fun _ => as.forM g) w _
    exact .bind (h a List.mem_cons_self w start)
      (fun _ v inv => ih (fun b mem => h b (List.mem_cons_of_mem a mem)) inv) fun _ _ inv => inv

theorem mapM {γ : Type} {I : World → Prop} {f g : γ → EStateM ε World α} {as : List γ}
    (h : ∀ a ∈ as, ∀ v, I v → Alike (f a) (g a) v fun _ u => I u) (start : I w) :
    Alike (as.mapM f) (as.mapM g) w fun _ u => I u := by
  induction as generalizing w with
  | nil => exact .pure start
  | cons a as ih =>
    simp only [List.mapM_cons]
    exact .bind (h a List.mem_cons_self w start)
      (fun _ v inv => .bind (ih (fun b mem => h b (List.mem_cons_of_mem a mem)) inv)
        (fun _ _ inv => .pure inv) fun _ _ inv => inv) fun _ _ inv => inv

end Alike

/-- The computation is refused and leaves everything as it was, or `Q` holds of its outcome and of
what it leaves. -/
def Settles {σ α : Type} (x : EStateM Fault σ α) (w : σ) (Q : Except Fault α → σ → Prop) : Prop :=
  Ends x w fun r v => (v = w ∧ ∃ f, r = .error f) ∨ Q r v

namespace Settles

section
variable {σ α β : Type} {w : σ} {x : EStateM Fault σ α} {Q : Except Fault α → σ → Prop}

theorem of_ends (h : Ends x w Q) : Settles x w Q := h.mono fun _ _ q => .inr q

theorem weaken {Q' : Except Fault α → σ → Prop} (h : Settles x w Q)
    (weaker : ∀ r v, Q r v → Q' r v) : Settles x w Q' :=
  Ends.mono (x := x) h fun r v => Or.imp_right (weaker r v)

/-- What holds of a computation that succeeded. -/
theorem of_ok {a : α} {v : σ} (h : Settles x w Q) (result : x w = .ok a v) : Q (.ok a) v := by
  unfold Settles Ends at h
  rw [result] at h
  rcases h with ⟨-, f, refused⟩ | done
  · cases refused
  · exact done

/-- What holds of the state in any case. -/
theorem leaves {P : σ → Prop} (h : Settles x w Q) (start : P w) (step : ∀ r v, Q r v → P v) :
    Ends x w fun _ v => P v := by
  refine h.mono fun r v ending => ?_
  rcases ending with ⟨rfl, -⟩ | done
  · exact start
  · exact step r v done

theorem refused (h : Settles x w Q) (never : ∀ r v, ¬ Q r v) : Ends x w fun _ v => v = w :=
  h.leaves rfl fun r v done => absurd done (never r v)

theorem throw (f : Fault) : Settles (throw f : EStateM Fault σ α) w Q := .inl ⟨rfl, f, rfl⟩

/-- What `x` comes to is what `f` starts from, and `f` is not refused any more. -/
theorem bind {x : EStateM Fault σ β} {f : β → EStateM Fault σ α} {Q' : Except Fault β → σ → Prop}
    (h : Settles x w Q') (ok : ∀ a v, Q' (.ok a) v → Ends (f a) v Q)
    (error : ∀ e v, Q' (.error e) v → Q (.error e) v) : Settles (x >>= f) w Q := by
  refine Ends.bind h (fun a v ending => ?_) fun e v ending => ?_
  · rcases ending with ⟨-, e, refused⟩ | done
    · cases refused
    · exact (ok a v done).mono fun _ _ => .inr
  · rcases ending with ⟨same, -⟩ | done
    · exact .inl ⟨same, e, rfl⟩
    · exact .inr (error e v done)

theorem pure {a : β} {f : β → EStateM Fault σ α} (h : Settles (f a) w Q) :
    Settles (Pure.pure a >>= f) w Q := h

theorem get {f : σ → EStateM Fault σ α} (h : Settles (f w) w Q) : Settles (get >>= f) w Q :=
  Ends.bind_iff.mpr h

theorem require {c : Bool} {refusal : Fault} {f : Unit → EStateM Fault σ α}
    (h : c = true → Settles (f ()) w Q) : Settles (Op.require c refusal >>= f) w Q :=
  Ends.bind_iff.mpr (Op.ends_require.mpr ⟨h, fun _ => .inl ⟨rfl, _, rfl⟩⟩)

theorem lift {x : Except Fault β} {f : β → EStateM Fault σ α}
    (h : ∀ a, x = .ok a → Settles (f a) w Q) : Settles (Op.lift x >>= f) w Q := by
  refine Ends.bind_iff.mpr (Op.ends_lift.mpr ?_)
  cases x with
  | ok a => exact h a rfl
  | error refusal => exact .inl ⟨rfl, refusal, rfl⟩

/-- A refusal may be told in other words. -/
theorem tryCatch {blame : Fault → Fault} (h : Settles x w Q) (succeeds : ∀ f v, ¬ Q (.error f) v) :
    Settles (tryCatch x fun cause => MonadExcept.throw (blame cause)) w Q := by
  refine Ends.tryCatch_iff.mpr (h.mono fun r v ending => ?_)
  cases r with
  | ok a => exact ending
  | error f =>
    rcases ending with ⟨same, -⟩ | done
    · exact .inl ⟨same, _, rfl⟩
    · exact absurd done (succeeds f v)

end

section
variable {α : Type} {w : World} {id : NodeId} {Q : Except Fault α → World → Prop}

theorem node {f : Node → Op α} (h : ∀ n, w.node? id = some n → Settles (f n) w Q) :
    Settles (Op.node id >>= f) w Q :=
  Ends.bind_iff.mpr (Op.ends_node.mpr ⟨h, fun _ => .inl ⟨rfl, _, rfl⟩⟩)

theorem resolve {path : Text} {f : NodeId → Op α}
    (h : ∀ target, w.resolve? id path = some target → Settles (f target) w Q) :
    Settles (Op.resolve id path >>= f) w Q :=
  Ends.bind_iff.mpr (Op.ends_resolve.mpr ⟨h, fun _ => .inl ⟨rfl, _, rfl⟩⟩)

theorem requirePrivilege {action : Text} {f : Unit → Op α}
    (h : ∀ n, w.node? id = some n → n.trust.safe = false → Settles (f ()) w Q) :
    Settles (Op.requirePrivilege id action >>= f) w Q := by
  unfold Op.requirePrivilege
  rw [bind_assoc]
  exact .node fun n found => .require fun unsafe' => h n found (by simpa using unsafe')

end

end Settles

/-- The computation is refused and leaves everything as it was, or it succeeds. -/
def Spares {σ α : Type} (x : EStateM Fault σ α) (w : σ) : Prop :=
  Settles x w fun r _ => r.isOk = true

theorem Spares.discard {σ α : Type} {x : EStateM Fault σ α} {w : σ} (h : Spares x w) :
    Spares (discard x) w := by
  refine Settles.bind h (fun _ _ _ => rfl) fun _ _ failed => nomatch failed

end InterpTree
