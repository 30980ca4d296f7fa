import InterpTree.Proofs.Forwarding

/-!
What actions answer. Where an action asks others, its answer is read off theirs; and the substitution
of words and the commands of a script are taken apart at the first that does not go well.
-/

namespace InterpTree

namespace Act

variable {α β : Type} {x : Act α} {w v : World} {a b : α}

/-- The action comes to a value, whatever it does to the world. -/
def Answers (x : Act α) (w : World) (a : α) : Prop := ∃ v, x w = .ok a v

@[simp] theorem answers_pure_iff : Answers (pure b) w a ↔ b = a := by
  refine ⟨fun ⟨v, h⟩ => ?_, fun h => ⟨w, by rw [h]; rfl⟩⟩
  cases h
  rfl

@[simp] theorem not_answers_throw {stop : Stop} : ¬ Answers (throw stop) w a := by
  rintro ⟨v, h⟩
  cases h

theorem bind_ok_iff {f : α → Act β} {b : β} {v : World} :
    (x >>= f) w = .ok b v ↔ ∃ a u, x w = .ok a u ∧ f a u = .ok b v := by
  simp only [bind, EStateM.bind]
  cases x w with
  | ok a u => exact ⟨fun h => ⟨a, u, rfl, h⟩, fun ⟨_, _, rfl, h⟩ => h⟩
  | error stop u => simp

theorem answers_congr {y : Act α} (same : x w = y v) : Answers x w a ↔ Answers y v a := by
  unfold Answers
  rw [same]

/-- It only matters how one goes on from what an action comes to. -/
theorem bind_congr_ok {f g : α → Act β} (h : ∀ a v, x w = .ok a v → f a v = g a v) :
    (x >>= f) w = (x >>= g) w := by
  simp only [bind, EStateM.bind]
  cases result : x w with
  | ok a v => exact h a v result
  | error stop v => rfl

theorem answers_bind_iff {f : α → Act β} {b : β} :
    Answers (x >>= f) w b ↔ ∃ a v, x w = .ok a v ∧ Answers (f a) v b := by
  unfold Answers
  simp only [bind_ok_iff]
  exact ⟨fun ⟨v, a, u, h, later⟩ => ⟨a, u, h, v, later⟩, fun ⟨a, u, h, v, later⟩ => ⟨v, a, u, h, later⟩⟩

@[simp] theorem answers_get_iff {f : World → Act β} {b : β} :
    Answers (get >>= f) w b ↔ Answers (f w) w b := Iff.rfl

@[simp] theorem answers_modifyNode_iff {id : NodeId} {g : Node → Node} {f : Unit → Act β} {b : β} :
    Answers (modifyNode id g >>= f) w b ↔ Answers (f ()) (w.modifyNode id g) b := Iff.rfl

@[simp] theorem answers_ofNode_iff [Inhabited α] {id : NodeId} {read : Node → α} {f : α → Act β}
    {b : β} :
    Answers (ofNode id read >>= f) w b ↔ Answers (f (((w.node? id).map read).getD default)) w b :=
  Iff.rfl

@[simp] theorem answers_ensuring_iff {cleanup : World → World} :
    Answers (ensuring cleanup x) w a ↔ Answers x w a := by
  simp only [Answers, ensuring]
  cases x w with
  | ok b v => simp
  | error stop v => cases stop <;> simp

end Act

/-- The world in which an action runs inside a frame of a node. -/
def World.inside (w : World) (id : NodeId) (name : Text) (flags : Nat) : World :=
  match w.node? id with
  | none => w
  | some n => w.framed id name flags n

namespace Engine

variable {α : Type} {w : World} {e : Engine}

@[simp] theorem answers_inFrame_iff {id : NodeId} {name : Text} {flags : Nat} {act : Act α} {a : α} :
    Act.Answers (inFrame id name flags act) w a ↔ Act.Answers act (w.inside id name flags) a := by
  unfold inFrame World.inside
  rw [Act.answers_get_iff]
  cases w.node? id with
  | none => rfl
  | some n =>
    dsimp only
    rw [Act.answers_modifyNode_iff, Act.answers_ensuring_iff]
    rfl

/-! ### Words -/

/-- What one piece of a word comes to. -/
def substitutePiece (e : Engine) (context : Option Context) (id : NodeId) :
    Script.Piece → Act (Except Completion Text)
  | .plain bytes => return .ok bytes
  | .reference name => do
    match ← Act.ofNode id fun n => n.vars.get? name with
    | some value => return .ok value
    | none => return .error (.fail (.noVariable name))
  | .bracketed source => do
    let result ← e.evaluate context id source
    return if result.status = .ok then .ok result.value else .error result
  | .unclosed => return .error (.failWith "missing close-bracket")

theorem substitutePieces_cons (context : Option Context) (id : NodeId) (piece : Script.Piece)
    (rest : List Script.Piece) :
    e.substitutePieces context id (piece :: rest) = (do
      match ← e.substitutePiece context id piece with
      | .error stopped => return .error stopped
      | .ok value => return (← e.substitutePieces context id rest).map (value ++ ·)) := by
  conv_lhs => unfold substitutePieces
  unfold substitutePiece
  cases piece with
  | plain bytes => rfl
  | reference name =>
    simp only [bind_assoc]
    refine bind_congr fun value => ?_
    cases value <;> rfl
  | bracketed source => exact (bind_assoc (m := Act) ..).symm
  | unclosed => rfl

/-- What one word comes to. -/
def substituteWord (e : Engine) (context : Option Context) (id : NodeId) (word : Script.Word) :
    Act (Except Completion Text) :=
  if word.form = .braced then return .ok word.text else e.substitute context id word.text

theorem substituteWords_cons (context : Option Context) (id : NodeId) (word : Script.Word)
    (rest : List Script.Word) :
    e.substituteWords context id (word :: rest) = (do
      match ← e.substituteWord context id word with
      | .error stopped => return .error stopped
      | .ok value => return (← e.substituteWords context id rest).map (value :: ·)) := by
  simp only [substituteWords, substituteWord]
  split <;> rfl

section

variable {α β γ : Type} {f : α → Act (Except Completion β)} {join : β → γ → γ} {start : γ}

/-- What items come to, one after the other, up to the first that is stopped. -/
def collect (f : α → Act (Except Completion β)) (join : β → γ → γ) (start : γ) :
    List α → Act (Except Completion γ)
  | [] => return .ok start
  | a :: rest => do
    match ← f a with
    | .error stopped => return .error stopped
    | .ok value => return (← collect f join start rest).map (join value)

theorem collect_cons_ok_iff {a : α} {rest : List α} {c : γ} {v : World} :
    collect f join start (a :: rest) w = .ok (.ok c) v ↔ ∃ b u c', f a w = .ok (.ok b) u ∧
      collect f join start rest u = .ok (.ok c') v ∧ join b c' = c := by
  rw [collect, Act.bind_ok_iff]
  constructor
  · rintro ⟨r, u, value, later⟩
    cases r with
    | error stopped => cases later
    | ok b =>
      obtain ⟨r, v', later, same⟩ := Act.bind_ok_iff.mp later
      cases r <;> cases same
      exact ⟨b, u, _, value, later, rfl⟩
  · rintro ⟨b, u, c', value, later, rfl⟩
    exact ⟨.ok b, u, value, Act.bind_ok_iff.mpr ⟨_, v, later, rfl⟩⟩

theorem collect_cons_stopped_iff {a : α} {rest : List α} {s : Completion} {v : World} :
    collect f join start (a :: rest) w = .ok (.error s) v ↔ f a w = .ok (.error s) v ∨
      ∃ b u, f a w = .ok (.ok b) u ∧ collect f join start rest u = .ok (.error s) v := by
  rw [collect, Act.bind_ok_iff]
  constructor
  · rintro ⟨r, u, value, later⟩
    cases r with
    | error stopped =>
      cases later
      exact .inl value
    | ok b =>
      obtain ⟨r, v', later, same⟩ := Act.bind_ok_iff.mp later
      cases r <;> cases same
      exact .inr ⟨b, u, value, later⟩
  · rintro (stops | ⟨b, u, value, later⟩)
    · exact ⟨.error s, v, stops, rfl⟩
    · exact ⟨.ok b, u, value, Act.bind_ok_iff.mpr ⟨_, v, later, rfl⟩⟩

theorem collect_stopped_iff {as : List α} {s : Completion} {v : World} :
    collect f join start as w = .ok (.error s) v ↔ ∃ before a after c u,
      as = before ++ a :: after ∧ collect f join start before w = .ok (.ok c) u ∧
        f a u = .ok (.error s) v := by
  -- On the items, for all worlds: those before the first that stops change the world.
  induction as generalizing w with
  | nil =>
    refine ⟨nofun, fun ⟨before, a, after, c, u, split, _⟩ => ?_⟩
    simp at split
  | cons a rest ih =>
    rw [collect_cons_stopped_iff]
    constructor
    · rintro (stops | ⟨b, u, value, later⟩)
      · exact ⟨[], a, rest, start, w, rfl, rfl, stops⟩
      · obtain ⟨before, a', after, c, u', rfl, collected, stops⟩ := ih.mp later
        exact ⟨a :: before, a', after, join b c, u', rfl,
          collect_cons_ok_iff.mpr ⟨b, u, c, value, collected, rfl⟩, stops⟩
    · rintro ⟨before, a', after, c, u, split, collected, stops⟩
      cases before with
      | nil =>
        obtain ⟨rfl, rfl⟩ := List.cons.inj split
        cases collected
        exact .inl stops
      | cons a'' before =>
        obtain ⟨rfl, rfl⟩ := List.cons.inj split
        obtain ⟨b, u', c', value, later, -⟩ := collect_cons_ok_iff.mp collected
        exact .inr ⟨b, u', value, ih.mpr ⟨before, a', after, c', u, rfl, later, stops⟩⟩

theorem substitutePieces_eq (context : Option Context) (id : NodeId) :
    e.substitutePieces context id = collect (e.substitutePiece context id) (· ++ ·) [] := by
  funext pieces
  induction pieces with
  | nil => rfl
  | cons piece rest ih =>
    rw [substitutePieces_cons, ih]
    refine bind_congr fun value => ?_
    cases value <;> rfl

theorem substituteWords_eq (context : Option Context) (id : NodeId) :
    e.substituteWords context id = collect (e.substituteWord context id) (· :: ·) [] := by
  funext words
  induction words with
  | nil => rfl
  | cons word rest ih =>
    rw [substituteWords_cons, ih]
    refine bind_congr fun value => ?_
    cases value <;> rfl

end

/-! ### Commands -/

/-- What a command comes to once its words are substituted; one without words comes to nothing. -/
def callCommand (e : Engine) (context : Context) (id : NodeId) (command : Script.Command) :
    Act (Option Completion) := do
  match ← e.substituteWords (some context) id command.words with
  | .error stopped => return some (leaveCommand command stopped)
  | .ok [] => return none
  | .ok (name :: args) =>
    return some (leaveCommand command (← e.invoke (some context) id name args))

/-- What the next command of a script comes to; one without words leaves the last completion. -/
def runCommand (e : Engine) (context : Context) (id : NodeId) (last : Completion)
    (command : Script.Command) : Act Completion := do
  modify World.pass
  match ← Act.checkpoint id with
  | some reason => return .fail (.canceled reason)
  | none =>
    if context.hasEnded (← get) then return .fail .contextEnded
    else return (← e.callCommand context id command).getD last

theorem status_leaveCommand (command : Script.Command) (c : Completion) :
    (leaveCommand command c).status = c.status := by
  unfold leaveCommand
  split <;> rfl

theorem isError_leaveCommand (command : Script.Command) (c : Completion) :
    (leaveCommand command c).isError = c.isError := by
  simp only [Completion.isError, status_leaveCommand]

theorem leaveCommand_of_ok (command : Script.Command) {c : Completion} (well : c.status = .ok) :
    leaveCommand command c = c := by
  simp [leaveCommand, Completion.isError, well]

theorem substitute_stopped_iff {context : Option Context} {id : NodeId} {text : Text}
    {s : Completion} {v : World} :
    e.substitute context id text w = .ok (.error s) v ↔ ∃ before piece after value u,
      Script.pieces text = before ++ piece :: after ∧
        e.substitutePieces context id before w = .ok (.ok value) u ∧
        e.substitutePiece context id piece u = .ok (.error s) v := by
  simp only [substitute, substitutePieces_eq, collect_stopped_iff]

theorem substituteWord_stopped_iff {context : Option Context} {id : NodeId} {word : Script.Word}
    {s : Completion} {v : World} :
    e.substituteWord context id word w = .ok (.error s) v ↔
      word.form ≠ .braced ∧ e.substitute context id word.text w = .ok (.error s) v := by
  unfold substituteWord
  split
  · rename_i braced
    exact ⟨nofun, fun h => absurd braced h.1⟩
  · rename_i bare
    simp [bare]

theorem substitutePiece_stopped {context : Option Context} {id : NodeId} {piece : Script.Piece}
    {s : Completion} {v : World} (stops : e.substitutePiece context id piece w = .ok (.error s) v) :
    s.isError = true ∧ s.trail = [] ∨ ∃ source, piece = .bracketed source ∧
      e.evaluate context id source w = .ok s v ∧ s.status ≠ .ok := by
  cases piece with
  | plain bytes => cases stops
  | unclosed =>
    cases stops
    exact .inl ⟨rfl, rfl⟩
  | reference name =>
    obtain ⟨value, u, -, stops⟩ := Act.bind_ok_iff.mp stops
    cases value with
    | some value => cases stops
    | none =>
      cases stops
      exact .inl ⟨rfl, rfl⟩
  | bracketed source =>
    obtain ⟨result, u, evaluated, stops⟩ := Act.bind_ok_iff.mp stops
    by_cases well : result.status = .ok
    · rw [if_pos well] at stops
      cases stops
    · rw [if_neg well] at stops
      cases stops
      exact .inr ⟨source, rfl, evaluated, well⟩

theorem status_ne_ok_of_stopped {context : Option Context} {id : NodeId} {words : List Script.Word}
    {s : Completion} {v : World} (stops : e.substituteWords context id words w = .ok (.error s) v) :
    s.status ≠ .ok := by
  rw [substituteWords_eq, collect_stopped_iff] at stops
  obtain ⟨-, word, -, -, u, -, -, stops⟩ := stops
  obtain ⟨-, piece, -, -, u, -, -, stops⟩ :=
    substitute_stopped_iff.mp (substituteWord_stopped_iff.mp stops).2
  obtain ⟨error, -⟩ | ⟨source, -, -, unwell⟩ := substitutePiece_stopped stops
  · have status : s.status = .error := of_decide_eq_true error
    simp [status]
  · exact unwell

theorem runCommands_cons (context : Context) (id : NodeId) {last : Completion}
    (well : last.status = .ok) (command : Script.Command) (rest : List Script.Command) (w : World) :
    e.runCommands context id last (command :: rest) w = (do
      let c ← e.runCommand context id last command
      if c.status = .ok then e.runCommands context id c rest else return c : Act Completion) w := by
  conv_lhs => unfold runCommands
  unfold runCommand
  simp only [bind_assoc]
  refine Act.bind_congr_ok fun _ v _ => Act.bind_congr_ok fun met v _ => ?_
  cases met with
  | some reason => rfl
  | none =>
    simp only [bind_assoc]
    refine Act.bind_congr_ok fun world v _ => ?_
    split
    · rfl
    · -- What stops a substitution is not well, so it ends the script as a command would.
      unfold callCommand
      simp only [bind_assoc]
      refine Act.bind_congr_ok fun words v substituted => ?_
      cases words with
      | error stopped =>
        have unwell := status_ne_ok_of_stopped substituted
        rw [← status_leaveCommand command] at unwell
        simp only [pure_bind, Option.getD_some, if_neg unwell]
      | ok words =>
        cases words with
        | nil => simp only [pure_bind, Option.getD_none, if_pos well]
        | cons name args =>
          simp only [bind_assoc]
          refine Act.bind_congr_ok fun result v _ => ?_
          simp only [pure_bind, Option.getD_some, status_leaveCommand]
          split
          · rename_i ok
            rw [leaveCommand_of_ok command ok]
          · rfl

/-- A script stops at the first command that does not go well. -/
theorem runCommands_stopped_iff {context : Context} {id : NodeId} {last c : Completion}
    {commands : List Script.Command} {v : World} (well : last.status = .ok) (unwell : c.status ≠ .ok) :
    e.runCommands context id last commands w = .ok c v ↔ ∃ before command after last' u,
      commands = before ++ command :: after ∧
        e.runCommands context id last before w = .ok last' u ∧ last'.status = .ok ∧
        e.runCommand context id last' command u = .ok c v := by
  induction commands generalizing last w with
  | nil =>
    refine ⟨fun ran => ?_, fun ⟨before, _, _, _, _, split, _⟩ => ?_⟩
    · cases ran
      exact absurd well unwell
    · simp at split
  | cons command rest ih =>
    rw [runCommands_cons context id well, Act.bind_ok_iff]
    constructor
    · rintro ⟨c', u, came, later⟩
      by_cases ok : c'.status = .ok
      · rw [if_pos ok] at later
        obtain ⟨before, command', after, last', u', rfl, earlier, well', stops⟩ := (ih ok).mp later
        refine ⟨command :: before, command', after, last', u', rfl, ?_, well', stops⟩
        rw [runCommands_cons context id well, Act.bind_ok_iff]
        exact ⟨c', u, came, by rw [if_pos ok]; exact earlier⟩
      · rw [if_neg ok] at later
        cases later
        exact ⟨[], command, rest, last, w, rfl, rfl, well, came⟩
    · rintro ⟨before, command', after, last', u, split, earlier, well', stops⟩
      cases before with
      | nil =>
        obtain ⟨rfl, rfl⟩ := List.cons.inj split
        cases earlier
        exact ⟨c, v, stops, by rw [if_neg unwell]; rfl⟩
      | cons command'' before =>
        obtain ⟨rfl, rfl⟩ := List.cons.inj split
        rw [runCommands_cons context id well, Act.bind_ok_iff] at earlier
        obtain ⟨c', u', came, later⟩ := earlier
        by_cases ok : c'.status = .ok
        · rw [if_pos ok] at later
          refine ⟨c', u', came, ?_⟩
          rw [if_pos ok]
          exact (ih ok).mpr ⟨before, command', after, last', u, rfl, later, well', stops⟩
        · rw [if_neg ok] at later
          cases later
          exact absurd well' ok

end Engine

end InterpTree
