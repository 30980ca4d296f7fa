import InterpTree.Engine.Options
import InterpTree.Proofs.Growth
import InterpTree.Proofs.Kinds

/-!
What the creation of an interpreter may be refused for. Main statement: only a link of the same name
makes it refused since something is there already. The new node is no reason for that, as it starts
without commands and is populated before any of them is hidden; and whatever else a host would populate
it with, a fault of that is only the cause of a refusal of another kind.
-/

namespace InterpTree

theorem Except.of_bind_error {ε α β : Type} {x : Except ε α} {g : α → Except ε β} {e : ε}
    (h : (x >>= g) = .error e) : x = .error e ∨ ∃ a, x = .ok a ∧ g a = .error e := by
  cases x with
  | error e' => exact .inl (congrArg Except.error (Except.error.inj h))
  | ok a => exact .inr ⟨a, rfl, h⟩

theorem Fault.lacks_of_refused {α : Type} {k k' : Kind} {message : Text} {f : Fault}
    (refused : (Except.error (.of k' message) : Except Fault α) = .error f) (other : k' ≠ k) :
    f.Lacks k :=
  Except.error.inj refused ▸ Fault.lacks_of.mpr other

theorem Fault.lacks_of_done {α : Type} {a : α} {k : Kind} (f : Fault)
    (refused : (Except.ok a : Except Fault α) = .error f) : f.Lacks k := by
  cases refused

theorem Options.parse_refused {specs : List OptionSpec} {words : List Text} {f : Fault}
    (refused : parse specs words = .error f) : ∃ message, f = .of .invalidArgument message := by
  fun_induction parse specs words with
  | case1 | case2 | case3 => cases refused
  | case4 | case5 => exact ⟨_, (Except.error.inj refused).symm⟩
  | case6 _ _ _ _ _ _ _ _ ih | case7 _ _ _ _ _ _ _ ih =>
    rcases Except.of_bind_error refused with refused | ⟨_, -, refused⟩
    · exact ih refused
    · cases refused

namespace Node

variable {n : Node} {f : Fault}

theorem eraseCommand_lacks (name : Text) (c : Command) (n : Node) :
    Ends (Edit.eraseCommand name c) n fun r _ => ∀ f, r = .error f → f.Lacks .alreadyExists := by
  unfold Edit.eraseCommand
  simp only [Ends.bind_iff, Op.ends_require, Ends.modify_iff]
  refine ⟨fun _ => ?_, fun _ f refused => Fault.lacks_of_refused refused (by decide)⟩
  cases c.alias? <;> exact Fault.lacks_of_done

theorem clear_lacks (name : Text) (n : Node) :
    Ends (Edit.clear name fun _ cause => cause) n fun r _ => ∀ f, r = .error f → f.Lacks .alreadyExists := by
  unfold Edit.clear
  simp only [Ends.bind_iff, Ends.get_iff]
  cases n.commands.visible? name with
  | none => exact Fault.lacks_of_done
  | some old =>
    refine Ends.tryCatch_iff.mpr ((eraseCommand_lacks name old n).mono fun r _ lacks => ?_)
    cases r with
    | ok => exact lacks
    | error cause => exact lacks

/-- A definition whose name no hidden command has is not refused because of any other command. -/
theorem define_lacks {spec : CommandSpec} (refused : n.define spec = .error f)
    (unhidden : n.commands.hidden? spec.name = none) : f.Lacks .alreadyExists := by
  have ends : Ends (Edit.define spec) n fun r _ => ∀ f, r = .error f → f.Lacks .alreadyExists := by
    unfold Edit.define
    rw [Ends.bind_iff, Op.ends_require]
    refine ⟨fun _ => ?_, fun _ f refused => Fault.lacks_of_refused refused (by decide)⟩
    cases spec.action with
    | none => exact fun f refused => Fault.lacks_of_refused refused (by decide)
    | some action =>
      simp only [Ends.bind_iff, Ends.get_iff, Op.ends_require, unhidden]
      refine ⟨fun _ => ⟨fun _ => ⟨fun _ => ?cleared, fun taken => by simp at taken⟩,
        fun _ f refused => ?frozen⟩, fun _ f refused => ?dead⟩
      case cleared =>
        refine (clear_lacks spec.name n).mono fun r _ lacks => ?_
        cases r with
        | ok => exact Fault.lacks_of_done
        | error cause => exact fun f same => lacks f (congrArg Except.error (Except.error.inj same))
      case frozen => exact Fault.lacks_of_refused refused (by decide)
      case dead => exact Fault.lacks_of_refused refused (by decide)
  obtain ⟨_, lacks⟩ := Edit.of_outcome_error ends refused
  exact lacks f rfl

theorem defineAll_lacks {specs : List CommandSpec} (stock : ∀ spec ∈ specs, spec ∈ stockSpecs)
    (stocked : ∀ e ∈ n.commands, e.IsStock) (refused : n.defineAll specs = .error f) :
    f.Lacks .alreadyExists := by
  induction specs generalizing n with
  | nil => cases refused
  | cons spec specs ih =>
    rw [defineAll, List.foldlM_cons] at refused
    cases defined : n.define spec with
    | error g =>
      rw [defined] at refused
      obtain rfl := Except.error.inj refused
      refine define_lacks defined (CommandTable.hidden?_eq_none_iff.mpr fun e mem hidden => ?_)
      rw [(stocked e mem).1] at hidden
      cases hidden
    | ok result =>
      rw [defined] at refused
      have first := isStocked_define (stock spec List.mem_cons_self) defined
      exact ih (fun s mem => stock s (List.mem_cons_of_mem spec mem)) (first.commands stocked) refused

theorem populate_lacks {settings : Settings} {populated : Nat} (bare : n.commands = [])
    (refused : settings.populate populated n = .error f) : f.Lacks .alreadyExists := by
  have stocked : ∀ e ∈ n.commands, e.IsStock := by simp [bare]
  unfold Settings.populate at refused
  by_cases failing : (settings.failFrom > 0 && populated + 1 ≥ settings.failFrom) = true
  · rw [if_pos failing] at refused
    obtain rfl := Except.error.inj refused
    exact Fault.lacks_saying
  rw [if_neg failing] at refused
  split at refused
  · cases refused
  · exact defineAll_lacks (fun _ => mem_stockSpecs_of_builtin) stocked refused
  · exact defineAll_lacks (fun _ => mem_stockSpecs_of_full) stocked refused
  · rcases Except.of_bind_error refused with refused | ⟨m, -, refused⟩
    · exact defineAll_lacks (fun _ => mem_stockSpecs_of_builtin) stocked refused
    · split at refused
      · cases refused
      · exact Fault.lacks_of_refused refused (by decide)

end Node

namespace World

theorem introduceBy_refused {w : World} {populate : Node → Except Fault Node} {name path : Text}
    {parent : NodeId} {trust : Trust} {f : Fault}
    (refused : (w.introduceBy populate name parent path trust).1 = .error f) :
    ∃ n : Node, n.commands = [] ∧ populate n = .error f := by
  unfold introduceBy at refused
  dsimp only at refused
  split at refused
  · cases refused
  split at refused
  · cases refused
  · rename_i populated
    obtain rfl := Except.error.inj refused
    exact ⟨_, rfl, populated⟩

end World

namespace Op

variable {w : World} {caller : NodeId} {path name : Text}

/-- Where no link has the name, creating is refused for another reason than that something is there
already, or since the new node could not be populated. -/
theorem createBy_refused (populate : World → Node → Except Fault Node) (options : CreateOptions)
    (free : ∀ parent p, w.resolve? caller path = some parent → w.node? parent = some p →
      (p.link? name).isNone = true) :
    Ends (createBy populate caller path name options) w fun r _ => ∀ f, r = .error f →
      f.Lacks .alreadyExists ∨ ∃ message g, ∃ n : Node, f = .because .internal message g ∧
        n.commands = [] ∧ populate w n = .error g := by
  have other {k : Kind} {message : Text} {P : Fault → Prop} (differs : k ≠ .alreadyExists) (f : Fault)
      (refused : (Except.error (.of k message) : Except Fault NodeId) = .error f) :
      f.Lacks .alreadyExists ∨ P f := .inl (Fault.lacks_of_refused refused differs)
  unfold createBy
  refine Ends.bind_iff.mpr (ends_require.mpr ⟨fun valid => ?_, fun _ => other (by decide)⟩)
  refine Ends.bind_iff.mpr (ends_node.mpr ⟨fun c asker => ?_, fun _ => other (by decide)⟩)
  refine Ends.bind_iff.mpr (ends_require.mpr ⟨fun _ => ?_, fun _ => other (by decide)⟩)
  refine Ends.bind_iff.mpr (ends_require.mpr ⟨fun _ => ?_, fun _ => other (by decide)⟩)
  refine Ends.bind_iff.mpr (ends_resolve.mpr ⟨fun parent resolved => ?_, fun _ => other (by decide)⟩)
  refine Ends.bind_iff.mpr (ends_node.mpr ⟨fun p found => ?_, fun _ => other (by decide)⟩)
  refine Ends.bind_iff.mpr (ends_require.mpr ⟨fun _ => ?_, fun taken => ?_⟩)
  · cases introduced : w.introduceBy (populate w) name p.id (joinPath p.path name)
        (options.trust c.trust p.trust) with
    | mk made u =>
      simp only [Ends.bind_iff, Ends.get_iff, Ends.set_iff, introduced]
      cases made with
      | ok id =>
        simp only [Ends.bind_iff, ends_change, Ends.pure_iff]
        rintro f ⟨⟩
      | error g =>
        intro f refused
        obtain ⟨n, bare, unpopulated⟩ := World.introduceBy_refused (congrArg Prod.fst introduced)
        exact .inr ⟨_, g, n, (Except.error.inj refused).symm, bare, unpopulated⟩
  · rw [free parent p resolved found] at taken
    cases taken

/-- However new nodes are populated, a fault of theirs is a cause, but not the kind of the refusal. -/
theorem createBy_kind?_ne (populate : World → Node → Except Fault Node) (options : CreateOptions)
    (free : ∀ parent p, w.resolve? caller path = some parent → w.node? parent = some p →
      (p.link? name).isNone = true) :
    Ends (createBy populate caller path name options) w fun r _ => ∀ f, r = .error f →
      f.kind? ≠ some .alreadyExists := by
  refine (createBy_refused populate options free).mono fun r _ reasons f refused => ?_
  rcases reasons f refused with lacks | ⟨message, g, n, rfl, -, -⟩
  · exact lacks.kind?_ne
  · change some Kind.internal ≠ some .alreadyExists
    decide

/-- The nodes of a tree are not populated with anything that could be there already. -/
theorem create_lacks (options : CreateOptions)
    (free : ∀ parent p, w.resolve? caller path = some parent → w.node? parent = some p →
      (p.link? name).isNone = true) :
    Ends (create caller path name options) w fun r _ => ∀ f, r = .error f →
      f.Lacks .alreadyExists := by
  refine (createBy_refused _ options free).mono fun r _ reasons f refused => ?_
  rcases reasons f refused with lacks | ⟨message, g, n, rfl, bare, unpopulated⟩
  · exact lacks
  · exact Fault.lacks_because.mpr ⟨by decide, Node.populate_lacks bare unpopulated⟩

end Op

end InterpTree
