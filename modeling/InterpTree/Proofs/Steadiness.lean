import InterpTree.Engine.Builtins

/-!
Actions that do not crash. Operations are refused at worst, and the commands that run nothing end
whether or not they have a context.
-/

namespace InterpTree

namespace Act

variable {α β : Type} {x : Act α}

/-- However the action ends, it does not crash. -/
def IsSteady (x : Act α) : Prop := ∀ w m v, x w ≠ .error (.crash m) v

@[simp] theorem isSteady_pure (a : α) : IsSteady (pure a) := by
  intro w m v ends
  cases ends

@[simp] theorem isSteady_exhausted : IsSteady (throw .exhausted : Act α) := by
  intro w m v ends
  cases ends

@[simp] theorem isSteady_overtaken (pending : Nat) :
    IsSteady (throw (.overtaken pending) : Act α) := by
  intro w m v ends
  cases ends

@[simp] theorem isSteady_get : IsSteady (get : Act World) := by
  intro w m v ends
  cases ends

@[simp] theorem isSteady_modify (f : World → World) : IsSteady (modify f : Act Unit) := by
  intro w m v ends
  cases ends

@[simp] theorem isSteady_modifyGet (f : World → α × World) : IsSteady (modifyGet f : Act α) := by
  intro w m v ends
  cases ends

@[simp] theorem isSteady_attempt (op : Op α) : IsSteady (attempt op) := by
  intro w m v ends
  unfold attempt at ends
  split at ends
  · cases ends
  · cases ends

theorem IsSteady.bind {f : α → Act β} (first : IsSteady x) (next : ∀ a, IsSteady (f a)) :
    IsSteady (x >>= f) := by
  intro w m v ends
  simp only [Bind.bind, EStateM.bind] at ends
  split at ends
  · exact next _ _ _ _ ends
  · rename_i stopped
    cases ends
    exact first w m v stopped

theorem IsSteady.ensuring {cleanup : World → World} (steady : IsSteady x) :
    IsSteady (ensuring cleanup x) := by
  intro w m v ends
  unfold Act.ensuring at ends
  split at ends
  · cases ends
  · cases ends
  · rename_i stopped
    cases ends
    exact steady _ _ _ stopped

/-- What is crashed is caught. -/
@[simp] theorem isSteady_guarded : IsSteady (guarded x) := by
  intro w m v ends
  unfold guarded at ends
  split at ends
  · cases ends
  · cases ends
  · rename_i uncaught _
    cases ends
    exact uncaught m rfl

@[simp] theorem isSteady_perform (op : Op Text) : IsSteady (perform op) :=
  (isSteady_attempt op).bind fun _ => isSteady_pure _

@[simp] theorem isSteady_ofNode [Inhabited α] (id : NodeId) (f : Node → α) :
    IsSteady (ofNode id f) := isSteady_get.bind fun _ => isSteady_pure _

@[simp] theorem isSteady_modifyNode (id : NodeId) (f : Node → Node) : IsSteady (modifyNode id f) :=
  isSteady_modify _

@[simp] theorem isSteady_log (level : Level) (id : NodeId) (message : Text)
    (fields : List (Text × Text)) : IsSteady (log level id message fields) := isSteady_modify _

@[simp] theorem isSteady_checkpoint (id : NodeId) : IsSteady (checkpoint id) := by
  refine isSteady_get.bind fun w => ?_
  split
  · simp
  · split
    · simp
    · exact (isSteady_modifyNode _ _).bind fun _ => by simp

end Act

open Act

/-! ### Commands that run nothing -/

namespace Call

variable {call : Call}

@[simp] theorem isSteady_vars : IsSteady call.vars := isSteady_ofNode _ _

@[simp] theorem isSteady_setVar (name value : Text) : IsSteady (call.setVar name value) :=
  isSteady_modifyNode _ _

theorem isSteady_set : IsSteady call.set := by
  unfold set
  split
  · refine isSteady_vars.bind fun vars => ?_
    split
    · simp
    · simp
  · exact (isSteady_setVar _ _).bind fun _ => by simp
  · simp

theorem isSteady_unsetAll (strict : Bool) (names : List Text) :
    IsSteady (call.unsetAll strict names) := by
  induction names with
  | nil => exact isSteady_pure _
  | cons name rest ih =>
    refine isSteady_vars.bind fun vars => (isSteady_modifyNode _ _).bind fun _ => ?_
    split
    · simp
    · exact ih

theorem isSteady_unset : IsSteady call.unset := by
  unfold unset
  split
  · exact isSteady_unsetAll _ _
  · split
    · exact isSteady_unsetAll _ _
    · exact isSteady_unsetAll _ _

theorem isSteady_addTo (name : Text) (amount : Int) : IsSteady (call.addTo name amount) := by
  refine isSteady_vars.bind fun vars => ?_
  dsimp only
  split
  · simp
  · exact (isSteady_setVar _ _).bind fun _ => by simp

theorem isSteady_incr : IsSteady call.incr := by
  unfold incr
  split
  · exact isSteady_addTo _ _
  · split
    · simp
    · exact isSteady_addTo _ _
  · simp

theorem isSteady_write (text : Text) : IsSteady (write text) := by
  refine isSteady_get.bind fun w => ?_
  split
  · simp
  · exact (isSteady_modify _).bind fun _ => by simp

theorem isSteady_puts : IsSteady call.puts := by
  unfold puts
  split
  · exact isSteady_write _
  · split
    · exact isSteady_write _
    · simp
  · simp

theorem isSteady_proc : IsSteady call.proc := by
  unfold proc
  split
  · split
    · simp
    · exact isSteady_perform _
  · simp

theorem isSteady_bindParams (params args : List Text) : IsSteady (call.bindParams params args) := by
  induction params generalizing args with
  | nil => cases args <;> exact isSteady_pure _
  | cons param params ih =>
    cases args with
    | nil => exact isSteady_pure _
    | cons arg args => exact (isSteady_setVar _ _).bind fun _ => ih args

theorem isSteady_info : IsSteady call.info := by
  have read (f : Node → Text) : IsSteady (do return .ok (← ofNode call.node f) : Act Completion) :=
    (isSteady_ofNode _ _).bind fun _ => isSteady_pure _
  unfold info
  split
  · simp
  · dsimp only
    split
    · exact read _
    · split
      · split
        · exact read _
        · simp
      · repeat' split
        all_goals first | exact read _ | exact isSteady_pure _

theorem isSteady_policyInfo : IsSteady call.policyInfo := by
  unfold policyInfo
  split
  · simp
  · refine (isSteady_ofNode _ _).bind fun caller => (isSteady_ofNode _ _).bind fun target => ?_
    split
    · simp
    · simp

theorem isSteady_storeFiles (verb name : Text) (change : Except Text Unit × FileStore) :
    IsSteady (storeFiles verb name change) := by
  refine (isSteady_modify _).bind fun _ => ?_
  split
  · simp
  · simp

theorem isSteady_file : IsSteady call.file := by
  refine isSteady_get.bind fun w => ?_
  split
  · simp
  · split
    · split
      · simp
      · split
        · split
          · simp
          · simp
        · split
          · split
            · exact isSteady_storeFiles _ _ _
            · simp
          · split
            · exact isSteady_storeFiles _ _ _
            · simp
    · simp

theorem isSteady_exitWith (code : Int) : IsSteady (exitWith code) := by
  refine isSteady_get.bind fun w => ?_
  split
  · exact (isSteady_modify _).bind fun _ => by simp
  · simp

theorem isSteady_exit : IsSteady call.exit := by
  unfold exit
  split
  · exact isSteady_exitWith _
  · split
    · simp
    · exact isSteady_exitWith _
  · simp

end Call

end InterpTree
