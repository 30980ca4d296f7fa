import Mathlib.Logic.Relation
import InterpTree.Fault

/-!
Kinds along a chain of reasons. Main statement: a chain is everything that its outermost reason leads to,
from cause to cause. A bare kind is met by each refusal of that kind in the chain, whatever the refusal
says and however deep it lies; any other refusal is met by itself alone. The kind of a chain is the kind
of its outermost refusal.
-/

namespace InterpTree

theorem Kind.name_eq_nil_iff (k : Kind) : k.name = [] ↔ k = .other [] := by
  cases k with
  | other name => simp [Kind.name]
  | _ => decide

namespace Fault

variable {f g r target : Fault} {k : Kind} {label : Nat} {message : Text}

/-- The kind of a chain as it is shown: nothing if no reason is a refusal. -/
def kindName (f : Fault) : Text := (f.kind?.map Kind.name).getD []

/-! ### The chain -/

theorem chain_of_last (last : f.cause? = none) : f.chain = [f] := by
  cases f <;> first | rfl | cases last

theorem chain_of_cause (next : f.cause? = some g) : f.chain = f :: g.chain := by
  cases f <;> cases next <;> rfl

@[elab_as_elim]
theorem cause_induction {motive : Fault → Prop} (last : ∀ f, f.cause? = none → motive f)
    (next : ∀ f g, f.cause? = some g → motive g → motive f) (f : Fault) : motive f := by
  induction f with
  | failureOf label kind message cause ih => exact next _ cause rfl ih
  | during label message cause ih => exact next _ cause rfl ih
  | _ => exact last _ rfl

/-- The chain of a fault is everything that it leads to, from cause to cause. -/
theorem mem_chain_iff (f r : Fault) :
    r ∈ f.chain ↔ Relation.ReflTransGen (fun f g => f.cause? = some g) f r := by
  induction f using cause_induction with
  | last f last =>
    rw [chain_of_last last, List.mem_singleton]
    constructor
    · rintro rfl
      exact .refl
    · intro leads
      rcases leads.cases_head with same | ⟨g, next, -⟩
      · exact same.symm
      · cases last.symm.trans next
  | next f g next ih =>
    rw [chain_of_cause next, List.mem_cons, ih]
    constructor
    · rintro (rfl | leads)
      · exact .refl
      · exact .head next leads
    · intro leads
      rcases leads.cases_head with same | ⟨g', next', leads⟩
      · exact .inl same.symm
      · obtain rfl : g = g' := Option.some.inj (next.symm.trans next')
        exact .inr leads

/-! ### Patterns -/

/-- A bare kind is met by the refusals of that kind. -/
theorem answers_bare : r.answers (.failure label k []) = true ↔ r.ownKind? = some k := by
  cases own : r.ownKind? with
  | none =>
    have other : r ≠ .failure label k [] := by
      rintro rfl
      cases own
    simp [answers, pattern?, own, other]
  | some k' =>
    have same : r = .failure label k [] → k = k' := by
      rintro rfl
      exact Option.some.inj own
    simp only [answers, pattern?, own, Bool.or_eq_true, decide_eq_true_eq, Option.some.injEq]
    exact ⟨fun h => (h.elim same id).symm, fun h => .inr h.symm⟩

/-- What is no bare kind is met by itself alone. -/
theorem answers_of_said (said : target.pattern? = none) : r.answers target = true ↔ r = target := by
  simp [answers, said]

theorem isA_bare_iff (f : Fault) (label : Nat) (k : Kind) :
    f.isA (.failure label k []) = true ↔ ∃ r ∈ f.chain, r.ownKind? = some k := by
  simp only [isA, List.any_eq_true, answers_bare]

theorem isA_iff_mem (said : target.pattern? = none) : f.isA target = true ↔ target ∈ f.chain := by
  simp [isA, List.any_eq_true, answers_of_said said]

/-! ### The kind of a chain -/

theorem kind?_eq_some_iff (f : Fault) (k : Kind) :
    f.kind? = some k ↔ ∃ outer r inner, f.chain = outer ++ r :: inner ∧ r.ownKind? = some k ∧
      ∀ o ∈ outer, o.ownKind? = none :=
  List.findSome?_eq_some_iff

theorem kind?_eq_none_iff (f : Fault) : f.kind? = none ↔ ∀ r ∈ f.chain, r.ownKind? = none :=
  List.findSome?_eq_none_iff

theorem kindName_eq_nil_iff (f : Fault) :
    f.kindName = [] ↔ (∀ r ∈ f.chain, r.ownKind? = none) ∨ f.kind? = some (.other []) := by
  rw [← kind?_eq_none_iff, kindName]
  cases f.kind? with
  | none => simp
  | some k => simp [Kind.name_eq_nil_iff]

/-! ### Chains without a kind -/

/-- No refusal in the chain is of the kind. -/
def Lacks (k : Kind) (f : Fault) : Prop := ∀ r ∈ f.chain, r.ownKind? ≠ some k

theorem isA_bare_eq_false_iff (f : Fault) (label : Nat) (k : Kind) :
    f.isA (.failure label k []) = false ↔ f.Lacks k := by
  rw [← Bool.not_eq_true, isA_bare_iff]
  simp [Lacks]

theorem Lacks.kind?_ne (lacks : f.Lacks k) : f.kind? ≠ some k := by
  intro kind
  obtain ⟨outer, r, inner, chain, own, -⟩ := (kind?_eq_some_iff f k).mp kind
  exact lacks r (chain ▸ List.mem_append_right _ List.mem_cons_self) own

@[simp] theorem lacks_of {k' : Kind} : (of k' message).Lacks k ↔ k' ≠ k := by
  simp [Lacks, of, chain, ownKind?]

@[simp] theorem lacks_because {k' : Kind} :
    (because k' message f).Lacks k ↔ k' ≠ k ∧ f.Lacks k := by
  simp [Lacks, because, chain, ownKind?]

@[simp] theorem lacks_saying {text : Text} : (saying text).Lacks k := by
  simp [Lacks, saying, chain, ownKind?]

/-- The chain of a fault is what it leads to from cause to cause. A bare kind is met just by the chains
with a refusal of that kind. The kind of a chain is that of its outermost refusal, and the chain meets it;
what is shown of it is nothing just if no reason is a refusal, or if the outermost refusal is of the kind
without a name. A refusal that says something or has a cause is met just by the chains that it is in. -/
theorem kinds_along_chain (f : Fault) :
    (∀ r, r ∈ f.chain ↔ Relation.ReflTransGen (fun f g => f.cause? = some g) f r) ∧
      (∀ label k, f.isA (.failure label k []) = true ↔ ∃ r ∈ f.chain, r.ownKind? = some k) ∧
      (∀ k, f.kind? = some k ↔ ∃ outer r inner, f.chain = outer ++ r :: inner ∧
        r.ownKind? = some k ∧ ∀ o ∈ outer, o.ownKind? = none) ∧
      (f.kind? = none ↔ ∀ r ∈ f.chain, r.ownKind? = none) ∧
      (f.kindName = [] ↔ (∀ r ∈ f.chain, r.ownKind? = none) ∨ f.kind? = some (.other [])) ∧
      (∀ label k, f.kind? = some k → f.isA (.failure label k []) = true) ∧
      (∀ label k message, message ≠ [] → (f.isA (.failure label k message) = true ↔
        .failure label k message ∈ f.chain)) ∧
      (∀ label k message cause, f.isA (.failureOf label k message cause) = true ↔
        .failureOf label k message cause ∈ f.chain) := by
  refine ⟨mem_chain_iff f, isA_bare_iff f, kind?_eq_some_iff f, kind?_eq_none_iff f,
    kindName_eq_nil_iff f, ?_, ?_, fun _ _ _ _ => isA_iff_mem rfl⟩
  · intro label k kind
    obtain ⟨outer, r, inner, chain, own, -⟩ := (kind?_eq_some_iff f k).mp kind
    exact (isA_bare_iff f label k).mpr ⟨r, chain ▸ List.mem_append_right _ List.mem_cons_self, own⟩
  · intro label k message wordy
    have said : (failure label k message).pattern? = none := by
      cases message with
      | nil => exact absurd rfl wordy
      | cons c message => rfl
    exact isA_iff_mem said

/-- A refusal below a note, below another refusal: the chain meets both kinds and the inner refusal, but
not another one with the same wording. -/
theorem kinds_along_chain_mixed :
    let gone (label : Nat) : Fault := .failure label .notFound "gone"
    let f : Fault := .failureOf 1 .internal [] (.during 2 "lookup" (gone 3))
    f.kind? = some .internal ∧ f.kindName = Kind.name .internal ∧
      f.isA (.failure 0 .internal []) = true ∧ f.isA (.failure 0 .notFound []) = true ∧
      f.isA (.failure 0 .permissionDenied []) = false ∧
      f.isA (gone 3) = true ∧ f.isA (gone 4) = false := by
  intro gone f
  obtain ⟨-, bare, -, -, -, own, wordy, -⟩ := kinds_along_chain f
  have kind : f.kind? = some .internal := by decide
  refine ⟨kind, by decide, own 0 .internal kind, (bare 0 .notFound).mpr ?_, ?_,
    (wordy 3 .notFound _ (by decide)).mpr (by decide), ?_⟩
  · exact ⟨gone 3, by decide, rfl⟩
  · rw [← Bool.not_eq_true, bare 0 .permissionDenied]
    decide
  · rw [← Bool.not_eq_true, wordy 4 .notFound _ (by decide)]
    decide

end Fault

end InterpTree
