import Railroad.Layout.BoxTable
import Railroad.Proofs.Grammar.Preorder
import Railroad.Proofs.Layout.Sized
/-!
Tables filled with the boxes of some steps.  If nothing turns out to be wrong, then every node that is
entered is in the table afterwards, with the box of its step, and no two of them share an id.  Conversely,
nothing is wrong with nodes that have ids of their own in a table for their tree.
-/
namespace Railroad

namespace BoxTable

variable {α : Type} {t t' : BoxTable α} {n : Node} {box : Box α}

theorem slot?_eq_some_iff {s : Nat} :
    t.slot? n = some s ↔ (n.id : Int) = t.base + s ∧ s < t.slots.size := by
  dsimp only [slot?]
  split
  · rw [Option.some.injEq]
    omega
  · simp only [reduceCtorEq, false_iff]
    omega

theorem assign_eq_ok (h : t.assign n box = .ok t') :
    ∃ s, t.slot? n = some s ∧ t.box? n = none ∧
      t' = { t with slots := t.slots.setIfInBounds s (some box) } := by
  unfold assign at h
  split at h
  · cases h
  · rename_i s hslot
    split at h
    · cases h
    · rename_i hcontains
      refine ⟨s, hslot, ?_, (Except.ok.inj h).symm⟩
      simpa [contains] using hcontains

/-- An assignment writes one box and leaves the others. -/
theorem box?_assign (h : t.assign n box = .ok t') (m : Node) :
    t'.box? m = if m.id = n.id then some box else t.box? m := by
  obtain ⟨s, hslot, -, rfl⟩ := assign_eq_ok h
  have hsame : (⟨t.base, t.slots.setIfInBounds s (some box)⟩ : BoxTable α).slot? m = t.slot? m := by
    simp only [slot?, Array.size_setIfInBounds]
  obtain ⟨hid, hlt⟩ := slot?_eq_some_iff.mp hslot
  simp only [box?, hsame]
  by_cases hm : m.id = n.id
  · have hslot' : t.slot? m = some s := slot?_eq_some_iff.mpr ⟨by rw [hm, hid], hlt⟩
    simp [hm, hslot', hlt]
  · rw [if_neg hm]
    cases hslot' : t.slot? m with
    | none => rfl
    | some r =>
        have hne : s ≠ r := by
          rintro rfl
          have := (slot?_eq_some_iff.mp hslot').1
          omega
        simp [hne]

theorem foldl_min_le (ids : List Nat) (low : Nat) :
    ids.foldl min low ≤ low ∧ ∀ i ∈ ids, ids.foldl min low ≤ i := by
  induction ids generalizing low with
  | nil => simp
  | cons i ids ih =>
      obtain ⟨hlow, hids⟩ := ih (min low i)
      rw [List.foldl_cons, List.forall_mem_cons]
      exact ⟨by omega, by omega, hids⟩

theorem le_foldl_max (ids : List Nat) (high : Nat) :
    high ≤ ids.foldl max high ∧ ∀ i ∈ ids, i ≤ ids.foldl max high := by
  induction ids generalizing high with
  | nil => simp
  | cons i ids ih =>
      obtain ⟨hhigh, hids⟩ := ih (max high i)
      rw [List.foldl_cons, List.forall_mem_cons]
      exact ⟨by omega, by omega, hids⟩

/-- The table for a tree has a slot for each of its nodes. -/
theorem exists_slot_forTree {root : Node} (h : n ∈ root.preorder) :
    ∃ s, (forTree root : BoxTable α).slot? n = some s := by
  have hid : n.id ∈ root.walk.map Node.id := by
    rw [Node.walk, Node.walkStack_eq, Node.preorderList_cons, Node.preorderList_nil, List.append_nil]
    exact List.mem_map_of_mem h
  have hlow := (foldl_min_le (root.walk.map Node.id) root.id).2 n.id hid
  have hhigh := (le_foldl_max (root.walk.map Node.id) root.id).2 n.id hid
  refine ⟨n.id - (root.walk.map Node.id).foldl min root.id, slot?_eq_some_iff.mpr ?_⟩
  simp only [forTree, new, Array.size_replicate]
  omega

theorem box?_new (size base : Int) (n : Node) : (new size base : BoxTable α).box? n = none := by
  rw [box?]
  cases (new size base : BoxTable α).slot? n with
  | none => rfl
  | some s =>
      change (Array.replicate size.toNat none)[s]?.join = none
      rw [Array.getElem?_replicate]
      split <;> rfl

/-- A box can be written for a node that has a slot and no box. -/
theorem assign_of_slot (box : Box α) {s : Nat} (hslot : t.slot? n = some s) (hnone : t.box? n = none) :
    ∃ t', t.assign n box = .ok t' ∧ ∀ m, t'.slot? m = t.slot? m := by
  refine ⟨{ t with slots := t.slots.setIfInBounds s (some box) }, ?_, ?_⟩
  · simp [assign, hslot, contains, hnone]
  · intro m
    simp only [slot?, Array.size_setIfInBounds]

end BoxTable

variable {α : Type} {t t' : BoxTable α}

/-- The node that a step enters. -/
def Engine.entered? : Step α → Option Node
  | .enter n .. => some n
  | .gap .. => none

/-- What is wrong where a step finds something wrong. -/
def Engine.gap? : Step α → Option LayoutFault
  | .gap fault .. => some fault
  | .enter .. => none

namespace BoxTable

open Engine

/-- What is wrong, and the context and the nesting depth at which it is found. -/
abbrev Stop (α : Type) : Type :=
  LayoutFault × Context α × Nat

/-- Writes the boxes of some steps, up to the first step at which something is wrong. -/
def fill (t : BoxTable α) : List (Step α) → Except (Stop α) (BoxTable α)
  | [] => .ok t
  | .gap fault c k :: _ => .error (fault, c, k)
  | .enter n c _ _ k box :: steps =>
      match t.assign n box with
      | .error fault => .error (fault, c.push, k + 1)
      | .ok t => t.fill steps

variable {st : Step α} {steps : List (Step α)}

@[simp] theorem fill_nil (t : BoxTable α) : t.fill [] = .ok t := rfl

@[simp] theorem fill_gap (t : BoxTable α) (fault : LayoutFault) (c : Context α) (k : Nat)
    (steps : List (Step α)) : t.fill (.gap fault c k :: steps) = .error (fault, c, k) := rfl

theorem fill_enter (t : BoxTable α) (n : Node) (c : Context α) (above handsBack : Bool) (k : Nat)
    (box : Box α) (steps : List (Step α)) : t.fill (.enter n c above handsBack k box :: steps) =
      match t.assign n box with
      | .error fault => .error (fault, c.push, k + 1)
      | .ok t => t.fill steps := rfl

theorem fill_append (t : BoxTable α) (steps steps' : List (Step α)) :
    t.fill (steps ++ steps') = (t.fill steps).bind (·.fill steps') := by
  induction steps generalizing t with
  | nil => rfl
  | cons st steps ih =>
      cases st with
      | gap => rfl
      | enter n c above b k box =>
          rw [List.cons_append, fill_enter, fill_enter]
          cases t.assign n box with
          | error => rfl
          | ok t => exact ih t

theorem entered_cons (n : Node) (c : Context α) (above b : Bool) (k : Nat) (box : Box α) :
    (Step.enter n c above b k box :: steps).filterMap entered? =
      n :: steps.filterMap entered? := rfl

/-- A step at which nothing is wrong enters a node and writes its box. -/
theorem fill_cons (h : t.fill (st :: steps) = .ok t') : ∃ n c above b k box t₁,
    st = .enter n c above b k box ∧ t.assign n box = .ok t₁ ∧ t₁.fill steps = .ok t' := by
  cases st with
  | gap => cases h
  | enter n c above b k box =>
      rw [fill_enter] at h
      cases hassign : t.assign n box with
      | error fault =>
          rw [hassign] at h
          cases h
      | ok t₁ =>
          rw [hassign] at h
          exact ⟨n, c, above, b, k, box, t₁, rfl, hassign, h⟩

/-- The boxes of the nodes that are not entered are left. -/
theorem box?_of_fill (h : t.fill steps = .ok t') (m : Node)
    (hm : ∀ n ∈ steps.filterMap entered?, n.id ≠ m.id) : t'.box? m = t.box? m := by
  induction steps generalizing t with
  | nil =>
      cases h
      rfl
  | cons st steps ih =>
      obtain ⟨n, c, above, b, k, box, t₁, rfl, hassign, hfill⟩ := fill_cons h
      rw [entered_cons, List.forall_mem_cons] at hm
      rw [ih hfill hm.2, box?_assign hassign, if_neg (Ne.symm hm.1)]

/-- Only nodes that have no box yet are entered. -/
theorem box?_eq_none_of_fill (h : t.fill steps = .ok t') :
    ∀ n ∈ steps.filterMap entered?, t.box? n = none := by
  induction steps generalizing t with
  | nil => simp
  | cons st steps ih =>
      obtain ⟨n, c, above, b, k, box, t₁, rfl, hassign, hfill⟩ := fill_cons h
      obtain ⟨-, -, hnone, -⟩ := assign_eq_ok hassign
      rw [entered_cons, List.forall_mem_cons]
      refine ⟨hnone, ?_⟩
      intro m hm
      have hlater := ih hfill m hm
      rw [box?_assign hassign] at hlater
      split at hlater
      · cases hlater
      · exact hlater

/-- No two nodes that are entered share an id. -/
theorem nodup_of_fill (h : t.fill steps = .ok t') :
    ((steps.filterMap entered?).map Node.id).Nodup := by
  induction steps generalizing t with
  | nil => simp
  | cons st steps ih =>
      obtain ⟨n, c, above, b, k, box, t₁, rfl, hassign, hfill⟩ := fill_cons h
      rw [entered_cons, List.map_cons, List.nodup_cons]
      refine ⟨?_, ih hfill⟩
      intro hmem
      obtain ⟨m, hm, hid⟩ := List.mem_map.mp hmem
      have hnone := box?_eq_none_of_fill hfill m hm
      rw [box?_assign hassign, if_pos hid] at hnone
      cases hnone

/-- Every node that is entered has the box of its step afterwards. -/
theorem boxes_of_fill (h : t.fill steps = .ok t') :
    ∀ st ∈ steps, ∃ n c above b k box, st = .enter n c above b k box ∧ t'.box? n = some box := by
  induction steps generalizing t with
  | nil => simp
  | cons st steps ih =>
      have hnodup := nodup_of_fill h
      obtain ⟨n, c, above, b, k, box, t₁, rfl, hassign, hfill⟩ := fill_cons h
      rw [entered_cons, List.map_cons, List.nodup_cons] at hnodup
      rw [List.forall_mem_cons]
      refine ⟨⟨n, c, above, b, k, box, rfl, ?_⟩, ih hfill⟩
      rw [box?_of_fill hfill n, box?_assign hassign, if_pos rfl]
      intro m hm hid
      exact hnodup.1 (List.mem_map.mpr ⟨m, hm, hid⟩)

/-- With nodes that have ids of their own, and slots and no boxes, nothing is wrong but the first gap. -/
theorem fill_of_nodup
    (hslot : ∀ n ∈ steps.filterMap entered?, (∃ s, t.slot? n = some s) ∧ t.box? n = none)
    (hnodup : ((steps.filterMap entered?).map Node.id).Nodup) :
    match steps.findSome? gap? with
    | some fault => ∃ place, t.fill steps = .error (fault, place)
    | none => ∃ t', t.fill steps = .ok t' := by
  induction steps generalizing t with
  | nil => exact ⟨t, rfl⟩
  | cons st steps ih =>
      cases st with
      | gap fault c k => exact ⟨_, rfl⟩
      | enter n c above b k box =>
          rw [entered_cons, List.map_cons, List.nodup_cons] at hnodup
          rw [entered_cons, List.forall_mem_cons] at hslot
          obtain ⟨⟨⟨s, hs⟩, hnone⟩, hslots⟩ := hslot
          obtain ⟨t₁, hassign, hsame⟩ := assign_of_slot box hs hnone
          have hfill := ih (t := t₁)
            (by
              intro m hm
              -- The box that has been written is that of another node.
              have hne : m.id ≠ n.id := by
                intro hid
                exact hnodup.1 (hid ▸ List.mem_map_of_mem hm)
              rw [hsame, box?_assign hassign, if_neg hne]
              exact hslots m hm)
            hnodup.2
          rw [fill_enter, hassign]
          exact hfill

end BoxTable

end Railroad
