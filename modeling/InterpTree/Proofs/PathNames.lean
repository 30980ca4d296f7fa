import InterpTree.Proofs.Nodes
import InterpTree.Tree.Path

/-!
Paths and their names. A path that was continued by a valid name leads where the link of that name
leads from the node at the path.
-/

namespace InterpTree

namespace Text

variable {mark : UInt8}

/-- Decimal digits are bytes from 48 to 57. -/
theorem mem_ofNat {n : Nat} {b : UInt8} (mem : b ∈ ofNat n) : 48 ≤ b ∧ b ≤ 57 := by
  unfold ofNat ofString at mem
  rw [← String.utf8Encode_toList, Nat.toList_repr, List.utf8Encode] at mem
  simp only [List.data_toByteArray, List.mem_flatMap, List.toList_toArray] at mem
  obtain ⟨c, digit, mem⟩ := mem
  have isDigit := Nat.isDigit_of_mem_toDigits (by decide) (by decide) digit
  obtain ⟨low, high⟩ : 48 ≤ c.val ∧ c.val ≤ 57 := by simpa [Char.isDigit] using isDigit
  have size : c.utf8Size = 1 := by
    have ascii : c.val ≤ 0x7f := UInt32.le_trans high (by decide)
    simp [Char.utf8Size, ascii]
  rw [String.utf8EncodeChar_eq_singleton size, List.mem_singleton] at mem
  subst mem
  rw [UInt32.le_iff_toNat_le] at low high
  rw [UInt8.le_iff_toNat_le, UInt8.le_iff_toNat_le, UInt32.toNat_toUInt8]
  change 48 ≤ c.val.toNat at low
  change c.val.toNat ≤ 57 at high
  change 48 ≤ c.val.toNat % 256 ∧ c.val.toNat % 256 ≤ 57
  omega

theorem splitAt_ne_nil (s : Text) : splitAt mark s ≠ [] := by
  cases s with
  | nil => simp [splitAt]
  | cons c s =>
    unfold splitAt
    split
    · simp
    · split <;> simp

theorem splitAt_append (s t : Text) :
    splitAt mark (s ++ mark :: t) = splitAt mark s ++ splitAt mark t := by
  induction s with
  | nil => simp [splitAt]
  | cons c s ih =>
    simp only [List.cons_append, splitAt, ih]
    split
    · rfl
    · match parts : splitAt mark s with
      | [] => exact absurd parts (splitAt_ne_nil s)
      | part :: parts => rfl

theorem splitAt_of_not_mem {s : Text} (h : mark ∉ s) : splitAt mark s = [s] := by
  induction s with
  | nil => rfl
  | cons c s ih =>
    have other : c ≠ mark := fun same => h (same ▸ List.mem_cons_self)
    rw [splitAt, if_neg other, ih fun mem => h (List.mem_cons_of_mem c mem)]

/-- The parts of a text make the text again. -/
theorem intercalate_splitAt (s : Text) : [mark].intercalate (splitAt mark s) = s := by
  induction s with
  | nil => rfl
  | cons c s ih =>
    match parts : splitAt mark s with
    | [] => exact absurd parts (splitAt_ne_nil s)
    | part :: rest =>
      rw [parts] at ih
      simp only [splitAt, parts]
      split
      · rename_i here
        subst here
        simpa [List.intercalate] using ih
      · cases rest <;> simpa [List.intercalate] using ih

/-- What stands before the last mark, and what after it. -/
theorem of_cutLast {s before after : Text} (h : cutLast mark s = some (before, after)) :
    s = before ++ mark :: after := by
  induction s generalizing before with
  | nil => cases h
  | cons c s ih =>
    rw [cutLast] at h
    cases cut : cutLast mark s with
    | some parts =>
      rw [cut] at h
      obtain ⟨rfl, rfl⟩ := Prod.mk.inj (Option.some.inj h)
      rw [ih cut]
      rfl
    | none =>
      rw [cut] at h
      dsimp only at h
      split at h
      · rename_i here
        obtain ⟨rfl, rfl⟩ := Prod.mk.inj (Option.some.inj h)
        rw [here]
        rfl
      · cases h

theorem cutLast_of_not_mem {s : Text} (h : mark ∉ s) : cutLast mark s = none := by
  induction s with
  | nil => rfl
  | cons c s ih =>
    have other : c ≠ mark := fun same => h (same ▸ List.mem_cons_self)
    simp only [cutLast, ih fun mem => h (List.mem_cons_of_mem c mem), if_neg other]

theorem cutLast_append {s t : Text} (h : mark ∉ t) : cutLast mark (s ++ mark :: t) = some (s, t) := by
  induction s with
  | nil => simp [cutLast, cutLast_of_not_mem h]
  | cons c s ih => simp [cutLast, ih]

theorem not_mem_of_cutLast_none {s : Text} (h : cutLast mark s = none) : mark ∉ s := by
  induction s with
  | nil => exact List.not_mem_nil
  | cons c s ih =>
    rw [cutLast] at h
    cases cut : cutLast mark s with
    | some parts => simp [cut] at h
    | none =>
      have other : c ≠ mark := by simpa [cut] using h
      exact List.not_mem_cons_of_ne_of_not_mem other.symm (ih cut)

/-- No mark stands after the last one. -/
theorem not_mem_of_cutLast {s before after : Text} (h : cutLast mark s = some (before, after)) :
    mark ∉ after := by
  induction s generalizing before with
  | nil => cases h
  | cons c s ih =>
    rw [cutLast] at h
    cases cut : cutLast mark s with
    | some parts =>
      rw [cut] at h
      obtain ⟨-, rfl⟩ := Prod.mk.inj (Option.some.inj h)
      exact ih cut
    | none =>
      simp only [cut, Option.ite_none_right_eq_some, Option.some.injEq, Prod.mk.injEq] at h
      exact h.2.2 ▸ not_mem_of_cutLast_none cut

end Text

theorem isValidName_iff {name : Text} : isValidName name = true ↔ name ≠ [] ∧ Text.dot ∉ name := by
  simp [isValidName]

/-- A valid name stays so when a number is put behind it. -/
theorem isValidName_numbered {stem : Text} (valid : isValidName stem = true) (k : Nat) :
    isValidName (stem ++ Text.ofNat k) = true := by
  obtain ⟨nonempty, dotless⟩ := isValidName_iff.mp valid
  refine isValidName_iff.mpr ⟨fun none => nonempty (List.append_eq_nil_iff.mp none).1, fun mem => ?_⟩
  rcases List.mem_append.mp mem with head | digit
  · exact dotless head
  · exact absurd (Text.mem_ofNat digit).1 (by decide)

/-- The names that shared links get are valid. -/
theorem isValidName_shared (id : Nat) : isValidName ("shared" ++ Text.ofNat id) = true :=
  isValidName_numbered (by decide) id

namespace World

variable {w : World} {id : NodeId}

/-- What it takes for a name to lead to a live child. -/
theorem child?_eq_some_iff {name : Text} {m : NodeId} :
    w.child? id name = some m ↔
      ∃ n l t, w.node? id = some n ∧ n.dead = false ∧ n.link? name = some l ∧
        w.node? l.target = some t ∧ t.isLive = true ∧ t.id = m := by
  unfold child?
  cases found : w.node? id with
  | none => simp
  | some n =>
    cases dead : n.dead with
    | true => simp [dead]
    | false =>
      cases link : n.link? name with
      | none => simp [dead, link]
      | some l =>
        cases target : w.node? l.target with
        | none => simp [dead, link, target, live?]
        | some t => cases live : t.isLive <;> simp [dead, link, target, live?, live, Option.filter]

theorem follow?_append (w : World) (id : NodeId) (names names' : List Text) :
    w.follow? id (names ++ names') = (w.follow? id names).bind fun next => w.follow? next names' := by
  induction names generalizing id with
  | nil => rfl
  | cons name names ih =>
    simp only [List.cons_append, follow?, Option.bind_assoc]
    cases w.child? id name with
    | none => rfl
    | some next => exact ih next

theorem follow?_concat (w : World) (id : NodeId) (names : List Text) (name : Text) :
    w.follow? id (names ++ [name]) = (w.follow? id names).bind fun next => w.child? next name := by
  rw [follow?_append]
  simp only [follow?, Option.bind_fun_some]

/-- The names that a path goes by. -/
def namesOf (path : Text) : List Text := if path.isEmpty then [] else Text.splitAt Text.dot path

/-- A path is resolved by following its names. -/
theorem resolve?_eq {n : Node} (found : w.node? id = some n) (alive : n.dead = false)
    (path : Text) : w.resolve? id path = w.follow? id (namesOf path) := by
  unfold resolve? namesOf
  simp only [found, Option.bind_eq_bind, Option.bind_some, alive, Bool.false_eq_true, if_false]
  cases path.isEmpty <;> rfl

theorem exists_of_resolve? {path : Text} {target : NodeId} (h : w.resolve? id path = some target) :
    ∃ n, w.node? id = some n ∧ n.dead = false := by
  unfold resolve? at h
  cases found : w.node? id with
  | none => simp [found] at h
  | some n =>
    cases dead : n.dead with
    | true => simp [found, dead] at h
    | false => exact ⟨n, rfl, dead⟩

/-- A path that continues another goes by the names of both. -/
theorem namesOf_append (base rel : Text) :
    namesOf (joinPath base rel) = namesOf base ++ namesOf rel := by
  unfold namesOf joinPath
  cases base with
  | nil => rfl
  | cons c base =>
    cases rel with
    | nil => simp
    | cons d rel =>
      simp only [List.isEmpty_cons, Bool.false_eq_true, if_false, List.append_assoc,
        List.singleton_append, Text.splitAt_append]
      rfl

theorem namesOf_of_valid {name : Text} (valid : isValidName name = true) : namesOf name = [name] := by
  obtain ⟨nonempty, dotless⟩ := isValidName_iff.mp valid
  have isEmpty : name.isEmpty = false := by simpa using nonempty
  simp [namesOf, isEmpty, Text.splitAt_of_not_mem dotless]

theorem namesOf_joinPath {base name : Text} (valid : isValidName name = true) :
    namesOf (joinPath base name) = namesOf base ++ [name] := by
  rw [namesOf_append, namesOf_of_valid valid]

/-- Different paths go by different names. -/
theorem namesOf_injective : Function.Injective namesOf := by
  intro s t same
  unfold namesOf at same
  split at same <;> split at same
  · rename_i none none'
    rw [List.isEmpty_iff.mp none, List.isEmpty_iff.mp none']
  · exact absurd same.symm (Text.splitAt_ne_nil t)
  · exact absurd same (Text.splitAt_ne_nil s)
  · have joined (r : Text) : [Text.dot].intercalate (Text.splitAt Text.dot r) = r :=
      Text.intercalate_splitAt r
    rw [← joined s, same, joined]

/-- What a path ends in is one of its names. -/
theorem splitPath_snd_mem {path : Text} (nonempty : path ≠ []) : (splitPath path).2 ∈ namesOf path := by
  have names : namesOf path = Text.splitAt Text.dot path := if_neg (by simpa using nonempty)
  rw [names]
  unfold splitPath
  cases cut : Text.cutLast Text.dot path with
  | none => simp [Text.splitAt_of_not_mem (Text.not_mem_of_cutLast_none cut)]
  | some parts =>
    obtain ⟨parent, name⟩ := parts
    obtain rfl := Text.of_cutLast cut
    rw [Text.splitAt_append, Text.splitAt_of_not_mem (Text.not_mem_of_cutLast cut)]
    exact List.mem_append_right _ (List.mem_singleton_self name)

/-- A path names last what it ends in, and goes by the names of the path of the parent before; only
when it starts with a dot, and has no other, another name comes first. -/
theorem namesOf_splitPath {path : Text} (valid : isValidName (splitPath path).2 = true) :
    namesOf path = namesOf (splitPath path).1 ++ [(splitPath path).2] ∨ [] ∈ namesOf path := by
  unfold splitPath at valid ⊢
  cases cut : Text.cutLast Text.dot path with
  | none =>
    rw [cut] at valid
    exact .inl (namesOf_joinPath valid : namesOf (joinPath [] path) = _)
  | some parts =>
    obtain ⟨parent, name⟩ := parts
    rw [cut] at valid
    obtain rfl := Text.of_cutLast cut
    cases parent with
    | nil => exact .inr (by simp [namesOf, Text.splitAt])
    | cons c parent =>
      have named : name ≠ [] := (isValidName_iff.mp valid).1
      refine .inl ?_
      rw [← namesOf_joinPath valid]
      simp [joinPath, named]

/-- A path with one more name leads on over the link of that name. -/
theorem resolve?_joinPath {base name : Text} (valid : isValidName name = true) :
    w.resolve? id (joinPath base name) =
      (w.resolve? id base).bind fun next => w.child? next name := by
  cases found : w.node? id with
  | none => simp [resolve?, found]
  | some n =>
    cases dead : n.dead with
    | true => simp [resolve?, found, dead]
    | false =>
      rw [resolve?_eq found dead, resolve?_eq found dead, namesOf_joinPath valid, follow?_concat]

/-- Where a path leads. -/
theorem alive_of_resolve? (numbered : w.IsNumbered) {caller t : NodeId} {path : Text}
    (h : w.resolve? caller path = some t) :
    ∃ n, w.node? t = some n ∧ n.dead = false ∧ (t = caller ∨ n.attached = true) := by
  obtain ⟨k, found, alive⟩ := exists_of_resolve? h
  rw [resolve?_eq found alive] at h
  rcases List.eq_nil_or_concat (namesOf path) with none | ⟨names, name, some⟩
  · rw [none] at h
    obtain rfl := Option.some.inj h
    exact ⟨k, found, alive, .inl rfl⟩
  · rw [some, List.concat_eq_append, follow?_concat] at h
    obtain ⟨b, -, last⟩ := Option.bind_eq_some_iff.mp h
    obtain ⟨n, l, t', -, -, -, found', live, rfl⟩ := child?_eq_some_iff.mp last
    rw [← numbered _ t' found'] at found'
    simp only [Node.isLive, Bool.and_eq_true, Bool.not_eq_true'] at live
    exact ⟨t', found', live.2, .inr live.1⟩

theorem alive_of_resolved (numbered : w.IsNumbered) {caller t : NodeId} {path : Text} {n : Node}
    (h : w.resolve? caller path = some t) (found : w.node? t = some n) : n.dead = false := by
  obtain ⟨m, there, alive, -⟩ := alive_of_resolve? numbered h
  exact Option.some.inj (there.symm.trans found) ▸ alive

theorem isWithin_self (w : World) (id : NodeId) : w.isWithin id id = true := by
  unfold isWithin isBelow
  rw [if_pos rfl]

end World

/-- Links lead from a node and to it as before. -/
structure Node.SameWays (n n' : Node) : Prop where
  id : n'.id = n.id
  attached : n'.attached = n.attached
  dead : n'.dead = n.dead
  links : n'.links = n.links

namespace World

variable {w v : World}

/-- Paths lead where they led. -/
abbrev SameWays (w v : World) : Prop := Each (fun _ => Node.SameWays) w v

theorem composes_sameWays : Composes fun _ => Node.SameWays :=
  ⟨fun _ _ => ⟨rfl, rfl, rfl, rfl⟩, fun _ _ _ _ h h' => ⟨h'.id.trans h.id,
    h'.attached.trans h.attached, h'.dead.trans h.dead, h'.links.trans h.links⟩⟩

theorem SameWays.child? (same : SameWays w v) (id : NodeId) (name : Text) :
    v.child? id name = w.child? id name := by
  ext m
  rw [child?_eq_some_iff, child?_eq_some_iff]
  constructor
  · rintro ⟨n', l, t', found', alive, link, target', live, rfl⟩
    obtain ⟨n, found, ways⟩ := same.node_back found'
    obtain ⟨t, target, ways'⟩ := same.node_back target'
    rw [Node.link?, ways.links] at link
    rw [Node.isLive, ways'.attached, ways'.dead] at live
    exact ⟨n, l, t, found, ways.dead ▸ alive, link, target, live, ways'.id.symm⟩
  · rintro ⟨n, l, t, found, alive, link, target, live, rfl⟩
    obtain ⟨n', found', ways⟩ := same.node id n found
    obtain ⟨t', target', ways'⟩ := same.node l.target t target
    refine ⟨n', l, t', found', ways.dead.trans alive, ?_, target', ?_, ways'.id⟩
    · rw [Node.link?, ways.links]
      exact link
    · rw [Node.isLive, ways'.attached, ways'.dead]
      exact live

theorem SameWays.follow? (same : SameWays w v) (id : NodeId) (names : List Text) :
    v.follow? id names = w.follow? id names := by
  induction names generalizing id with
  | nil => rfl
  | cons name names ih => simp only [World.follow?, same.child?, ih]

theorem SameWays.resolve? (same : SameWays w v) (id : NodeId) (path : Text) :
    v.resolve? id path = w.resolve? id path := by
  match found : w.node? id with
  | none => simp [World.resolve?, found, same.node?_none found]
  | some n =>
    obtain ⟨n', found', ways⟩ := same.node id n found
    simp only [World.resolve?, found, found', Option.bind_eq_bind, Option.bind_some, ways.dead,
      same.follow?]

end World

end InterpTree
