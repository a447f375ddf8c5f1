import Railroad.Proofs.Layout.Success
/-!
A table of boxes as a partial map that is written once.

Whatever is asked of a table, it answers by the first box that was assigned to an id, if the id lies in the
table.  Boxes are only kept and handed back: what they are made of does not matter.
-/
namespace Railroad

variable {α : Type}

/-- What can be asked of a table. -/
inductive TableStep (α : Type) where
  | assign (n : Node) (box : Box α)
  | get (n : Node)
  | contains (n : Node)

inductive TableAnswer (α : Type) where
  | written
  | box (b : Box α)
  | contained (b : Bool)
  | refused (fault : LayoutFault)

def TableAnswer.isWritten : TableAnswer α → Bool
  | written => true
  | box _ | contained _ | refused _ => false

/-- The box that a step assigns to an id. -/
def TableStep.boxFor? (id : Nat) : TableStep α → Option (Box α)
  | assign n box => if n.id = id then some box else none
  | get _ | contains _ => none

/-- The ids of a table of some size. -/
def InRange (size base : Int) (id : Nat) : Prop :=
  base ≤ id ∧ id < base + size

instance (size base : Int) (id : Nat) : Decidable (InRange size base id) :=
  inferInstanceAs (Decidable (_ ∧ _))

/-- The box that is first assigned to an id of a table. -/
def firstBox? (size base : Int) (steps : List (TableStep α)) (id : Nat) : Option (Box α) :=
  if InRange size base id then steps.findSome? (TableStep.boxFor? id) else none

/-- The answer of a partial map that is written once, after some steps. -/
def TableStep.answerAfter (size base : Int) (steps : List (TableStep α)) : TableStep α → TableAnswer α
  | assign n _ =>
      if InRange size base n.id then
        if (firstBox? size base steps n.id).isSome then .refused (.writtenTwice n.typeName n.id) else .written
      else .refused (.outsideTable n.typeName)
  | get n =>
      match firstBox? size base steps n.id with
      | some b => .box b
      | none => .refused (.noBox n.typeName)
  | contains n => .contained (firstBox? size base steps n.id).isSome

namespace BoxTable

/-- What a table answers. -/
def answer (t : BoxTable α) : TableStep α → TableAnswer α
  | .assign n box =>
      match t.assign n box with
      | .ok _ => .written
      | .error fault => .refused fault
  | .get n =>
      match t.get n with
      | .ok b => .box b
      | .error fault => .refused fault
  | .contains n => .contained (t.contains n)

/-- The table after a step; what is refused leaves it. -/
def after (t : BoxTable α) : TableStep α → BoxTable α
  | .assign n box =>
      match t.assign n box with
      | .ok t' => t'
      | .error _ => t
  | .get _ | .contains _ => t

def afterAll (t : BoxTable α) (steps : List (TableStep α)) : BoxTable α :=
  steps.foldl after t

/-- What a table answers to one step after another. -/
def answers (t : BoxTable α) : List (TableStep α) → List (TableAnswer α)
  | [] => []
  | s :: steps => t.answer s :: (t.after s).answers steps

section Steps

variable {t t' : BoxTable α} {n m : Node} {box : Box α}

theorem slot?_congr (t : BoxTable α) (h : n.id = m.id) : t.slot? n = t.slot? m := by
  rw [slot?, slot?, h]

theorem box?_congr (t : BoxTable α) (h : n.id = m.id) : t.box? n = t.box? m := by
  rw [box?, box?, slot?_congr t h]

theorem slot?_assign (h : t.assign n box = .ok t') (m : Node) : t'.slot? m = t.slot? m := by
  rcases assign_eq_ok h with ⟨s, -, -, rfl⟩
  simp only [slot?, Array.size_setIfInBounds]

theorem slot?_after (t : BoxTable α) (s : TableStep α) (m : Node) : (t.after s).slot? m = t.slot? m := by
  cases s with
  | assign n box =>
      rw [after]
      cases h : t.assign n box with
      | ok t' => exact slot?_assign h m
      | error fault => rfl
  | get n | contains n => rfl

/-- What comes of an assignment. -/
theorem assign_cases (t : BoxTable α) (n : Node) (box : Box α) :
    (t.slot? n).isSome = false ∧ t.assign n box = .error (.outsideTable n.typeName) ∨
    (t.slot? n).isSome = true ∧ (t.box? n).isSome = true ∧
      t.assign n box = .error (.writtenTwice n.typeName n.id) ∨
    (t.slot? n).isSome = true ∧ t.box? n = none ∧ ∃ t', t.assign n box = .ok t' := by
  cases hslot : t.slot? n with
  | none =>
      refine .inl ⟨rfl, ?_⟩
      rw [assign, hslot]
  | some s =>
      cases hbox : t.box? n with
      | some b =>
          refine .inr (.inl ⟨rfl, rfl, ?_⟩)
          simp [assign, hslot, contains, hbox]
      | none =>
          rcases assign_of_slot box hslot hbox with ⟨t', hassign, -⟩
          exact .inr (.inr ⟨rfl, rfl, t', hassign⟩)

/-- A box is kept; where there is a slot and no box yet, an assignment counts. -/
theorem box?_after (t : BoxTable α) (s : TableStep α) (m : Node) :
    (t.after s).box? m = (t.box? m).or (if (t.slot? m).isSome then s.boxFor? m.id else none) := by
  cases s with
  | get n | contains n => simp [after, TableStep.boxFor?]
  | assign n box =>
      by_cases hid : n.id = m.id
      · have hslot := slot?_congr t hid
        have hbox := box?_congr t hid
        rcases assign_cases t n box with ⟨hs, hassign⟩ | ⟨-, hb, hassign⟩ | ⟨hs, hb, t', hassign⟩
        · rw [after, hassign, ← hslot, hs]
          simp
        · rw [after, hassign, ← hbox, Option.or_of_isSome hb]
        · rw [after, hassign, ← hslot, ← hbox, hs, hb]
          show t'.box? m = _
          rw [box?_assign hassign, if_pos hid.symm]
          simp [TableStep.boxFor?, hid]
      · have hother : (TableStep.assign n box).boxFor? m.id = none := if_neg hid
        rw [hother, ite_self, Option.or_none, after]
        cases hassign : t.assign n box with
        | error fault => rfl
        | ok t' => exact (box?_assign hassign m).trans (if_neg (Ne.symm hid))

theorem box?_afterAll (t : BoxTable α) (steps : List (TableStep α)) (m : Node) :
    (t.afterAll steps).box? m =
      (t.box? m).or (if (t.slot? m).isSome then steps.findSome? (TableStep.boxFor? m.id) else none) := by
  induction steps generalizing t with
  | nil => simp [afterAll]
  | cons s steps ih =>
      have hlater := ih (t.after s)
      rw [slot?_after, box?_after, Option.or_assoc] at hlater
      show ((t.after s).afterAll steps).box? m = _
      rw [hlater, List.findSome?_cons]
      congr 1
      split
      · cases s.boxFor? m.id <;> rfl
      · rfl

theorem slot?_afterAll (t : BoxTable α) (steps : List (TableStep α)) (m : Node) :
    (t.afterAll steps).slot? m = t.slot? m := by
  induction steps generalizing t with
  | nil => rfl
  | cons s steps ih => exact (ih (t.after s)).trans (slot?_after t s m)

theorem isSome_slot?_new (size base : Int) (n : Node) :
    ((new size base : BoxTable α).slot? n).isSome = true ↔ InRange size base n.id := by
  rw [Option.isSome_iff_exists]
  simp only [slot?_eq_some_iff, new, Array.size_replicate, InRange]
  constructor
  · rintro ⟨s, hid, hlt⟩
    omega
  · rintro ⟨hle, hlt⟩
    exact ⟨(n.id - base).toNat, by omega, by omega⟩

/-- After any steps a table holds the box that was first assigned. -/
theorem box?_afterAll_new (size base : Int) (steps : List (TableStep α)) (n : Node) :
    ((new size base : BoxTable α).afterAll steps).box? n = firstBox? size base steps n.id := by
  rw [box?_afterAll, box?_new, Option.none_or, firstBox?]
  simp only [isSome_slot?_new]

theorem answer_afterAll_new (size base : Int) (steps : List (TableStep α)) (s : TableStep α) :
    ((new size base : BoxTable α).afterAll steps).answer s = s.answerAfter size base steps := by
  have hbox := box?_afterAll_new size base steps
  have hslot := slot?_afterAll (new size base) steps
  cases s with
  | get n =>
      rw [answer, get, hbox, TableStep.answerAfter]
      cases firstBox? size base steps n.id <;> rfl
  | contains n => rw [answer, contains, hbox, TableStep.answerAfter]
  | assign n box =>
      have hrange := isSome_slot?_new (α := α) size base n
      rw [answer, TableStep.answerAfter, ← hbox]
      rcases assign_cases ((new size base).afterAll steps) n box with
        ⟨hs, hassign⟩ | ⟨hs, hb, hassign⟩ | ⟨hs, hb, t', hassign⟩
      · rw [hslot] at hs
        rw [hassign, if_neg (by simp [← hrange, hs])]
      · rw [hslot] at hs
        rw [hassign, if_pos (hrange.mp hs), if_pos hb]
      · rw [hslot] at hs
        rw [hassign, if_pos (hrange.mp hs), hb]
        rfl

theorem size_after (t : BoxTable α) (s : TableStep α) :
    (t.after s).size = t.size + if (t.answer s).isWritten then 1 else 0 := by
  cases s with
  | assign n box =>
      rw [after, answer]
      cases hassign : t.assign n box with
      | ok t' => exact size_assign hassign
      | error fault => rfl
  | get n =>
      rw [after, answer]
      cases t.get n <;> rfl
  | contains n => rfl

/-- There are as many boxes as assignments have succeeded. -/
theorem size_afterAll (t : BoxTable α) (steps : List (TableStep α)) :
    (t.afterAll steps).size = t.size + (t.answers steps).countP TableAnswer.isWritten := by
  induction steps generalizing t with
  | nil => rfl
  | cons s steps ih =>
      show ((t.after s).afterAll steps).size = _
      rw [ih, size_after, answers, List.countP_cons]
      omega

theorem after_of_not_isWritten (t : BoxTable α) (s : TableStep α) (h : (t.answer s).isWritten = false) :
    t.after s = t := by
  cases s with
  | assign n box =>
      rw [answer] at h
      rw [after]
      cases hassign : t.assign n box with
      | ok t' =>
          rw [hassign] at h
          cases h
      | error fault => rfl
  | get n | contains n => rfl

theorem exists_forTree (root : Node) : ∃ size base, (forTree root : BoxTable α) = new size base ∧
    ∀ n ∈ root.walk, InRange size base n.id := by
  refine ⟨_, _, rfl, ?_⟩
  intro n hn
  rw [Node.walk_eq_preorder] at hn
  rcases exists_slot_forTree (α := α) hn with ⟨s, hslot⟩
  rw [← isSome_slot?_new (α := α)]
  exact Option.isSome_of_eq_some hslot

end Steps

end BoxTable

/-- A table of any size and base is a partial map that is written once, whatever was asked of it before.  An
assignment succeeds exactly if the id lies in the table and nothing has been assigned to it; a box is found,
and is the first that was assigned, exactly if there is one; and what does not succeed changes nothing.
There are as many boxes as assignments have succeeded.  The ids of all nodes of a tree lie in the table
that is made for it. -/
theorem table_written_once (size base : Int) (steps : List (TableStep α)) :
    let t : BoxTable α := (BoxTable.new size base).afterAll steps
    (∀ s, t.answer s = s.answerAfter size base steps) ∧
    (∀ s, (t.answer s).isWritten = false → t.after s = t) ∧
    t.size = ((BoxTable.new size base).answers steps).countP TableAnswer.isWritten ∧
    ∀ root : Node, ∃ size base, (BoxTable.forTree root : BoxTable α) = .new size base ∧
      ∀ n ∈ root.walk, InRange size base n.id := by
  intro t
  refine ⟨BoxTable.answer_afterAll_new size base steps, t.after_of_not_isWritten, ?_,
    BoxTable.exists_forTree⟩
  have hsize := BoxTable.size_afterAll (BoxTable.new size base) steps
  rwa [BoxTable.size_new, Nat.zero_add] at hsize

end Railroad
