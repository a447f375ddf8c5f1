import Railroad.Proofs.Layout.Run
/-!
Boxes that are changed after they have been written.  The size pass gives a node a box before it sizes its
parts, and moves the parts to their places when all of them are sized.  The table comes to the same as one
that has been filled with the right boxes from the start.
-/
namespace Railroad

variable {α : Type}

namespace BoxTable

variable {t t' : BoxTable α} {n m : Node} {box box' : Box α} {steps : List (Step α)}

@[simp] theorem slot?_write (t : BoxTable α) (n : Node) (box : Box α) (m : Node) :
    (t.write n box).slot? m = t.slot? m := by
  rw [write]
  split
  · simp only [slot?, Array.size_setIfInBounds]
  · rfl

theorem exists_slot_of_contains (h : t.contains n = true) : ∃ s, t.slot? n = some s := by
  cases hslot : t.slot? n with
  | none => simp [contains, box?, hslot] at h
  | some s => exact ⟨s, rfl⟩

/-- Where there is a box, another one may be written without a change in what has a box. -/
theorem contains_write (h : t.contains n = true) (box : Box α) (m : Node) :
    (t.write n box).contains m = t.contains m := by
  obtain ⟨s, hslot⟩ := exists_slot_of_contains h
  have hlt := (slot?_eq_some_iff.mp hslot).2
  rw [contains, contains, box?, box?, slot?_write]
  cases hm : t.slot? m with
  | none => rfl
  | some r =>
      simp only [write, hslot, Option.bind_eq_bind, Option.bind_some, Array.getElem?_setIfInBounds]
      by_cases hr : s = r
      · subst hr
        have hbox : t.slots[s].isSome = true := by simpa [contains, box?, hslot, hlt] using h
        simp [hlt, hbox]
      · simp [hr]

/-- A box that is written where there is one, and one that is written first where there is none, may as well
be written in the other order. -/
theorem assign_write (h : t.contains n = true) (box box' : Box α) (m : Node) :
    (t.write n box).assign m box' = (t.assign m box').map (·.write n box) := by
  obtain ⟨s, hslot⟩ := exists_slot_of_contains h
  rw [assign, assign, slot?_write, contains_write h]
  cases hm : t.slot? m with
  | none => rfl
  | some r =>
      dsimp only
      by_cases hfull : t.contains m = true
      · simp only [hfull, if_true]
        rfl
      · have hne : s ≠ r := by
          rintro rfl
          have hsame : t.box? m = t.box? n := by rw [box?, box?, hm, hslot]
          exact hfull (by rwa [contains, hsame])
        simp only [hfull, Bool.false_eq_true, if_false, Except.map]
        simp only [write, slot?, Array.size_setIfInBounds] at hslot ⊢
        rw [hslot]
        simp only [Array.setIfInBounds_comm _ _ hne]

/-- A box that is written over another one is the only one that has been written. -/
theorem assign_eq_map (t : BoxTable α) (n : Node) (box box' : Box α) :
    t.assign n box' = (t.assign n box).map (·.write n box') := by
  rw [assign, assign]
  cases hslot : t.slot? n with
  | none => rfl
  | some s =>
      dsimp only
      by_cases hfull : t.contains n = true
      · simp only [hfull, if_true]
        rfl
      · simp only [hfull, Bool.false_eq_true, if_false, Except.map]
        simp only [write, slot?, Array.size_setIfInBounds] at hslot ⊢
        rw [hslot]
        simp

theorem contains_of_assign (h : t.assign n box = .ok t') : t'.contains n = true := by
  rw [contains, box?_assign h, if_pos rfl]
  rfl

/-- Boxes may be changed before or after others are filled in. -/
theorem fill_write (h : t.contains n = true) (box : Box α) :
    (t.write n box).fill steps = (t.fill steps).map (·.write n box) := by
  induction steps generalizing t with
  | nil => rfl
  | cons st steps ih =>
      cases st with
      | gap => rfl
      | enter m c above handsBack k box' =>
          rw [fill_enter, fill_enter, assign_write h]
          cases hassign : t.assign m box' with
          | error fault => rfl
          | ok t₁ =>
              refine ih ?_
              rw [contains, box?_assign hassign]
              split
              · rfl
              · exact h

end BoxTable

theorem Sized.stepsList_append (k : Nat) (ss ss' : List (Sized α)) :
    stepsList k (ss ++ ss') = stepsList k ss ++ stepsList k ss' := by
  induction ss with
  | nil => rfl
  | cons s ss ih => rw [List.cons_append, stepsList, stepsList, ih, List.append_assoc]

/-- The measured tree is that of a node, or a gap. -/
inductive Stands : Option Node → Sized α → Prop
  | part (n : Node) (c : Context α) (above handsBack : Bool) (box : Box α) (parts : List (Sized α)) :
      Stands (some n) (.part n c above handsBack box parts)
  | gap (part : Option Node) (fault : LayoutFault) (c : Context α) : Stands part (.gap fault c)

/-- The measured trees of some parts, as they are sized and as they are placed.  A part that may be missing
has a place all the same. -/
inductive Placed : List (Option Node) → List (Box α) → List (Sized α) → List (Sized α) → Prop
  | rest (ss : List (Sized α)) : Placed [] [] ss ss
  | part {n : Option Node} {ns : List (Option Node)} {boxes : List (Box α)} {s : Sized α}
      {ss ps : List (Sized α)} (box : Box α) (h : Stands n s) (hrest : Placed ns boxes ss ps) :
      Placed (n :: ns) (box :: boxes) (s :: ss) (s.withBox box :: ps)
  | missing {ns : List (Option Node)} {boxes : List (Box α)} {ss ps : List (Sized α)} (box : Box α)
      (hrest : Placed ns boxes ss ps) : Placed (none :: ns) (box :: boxes) ss ps

section Measures

variable [Scalar α]

theorem stands_measure (n : Node) (c : Context α) (k : Nat) (above : Bool) :
    Stands (some n) (measure n c k above) := by
  rw [measure.eq_def]
  split
  · exact .gap _ _ _
  · split
    · exact .gap _ _ _
    · cases n with
      | alternation _ alternatives =>
          cases alternatives with
          | nil => exact .part ..
          | cons a as =>
              dsimp only
              split <;> exact .part ..
      | oneOrMore _ _ separator => cases separator <;> exact .part ..
      | grammar | productionList | production | sequence | repetition | optional | literal
      | identifier | other | foreign => exact .part ..

theorem stands_measureRequired (o : Option Node) (c : Context α) (k : Nat) (above : Bool) :
    Stands o (measureRequired o c k above) := by
  cases o with
  | none => exact .gap _ _ _
  | some n => exact stands_measure n c k above

theorem Placed.option {ns : List (Option Node)} {boxes : List (Box α)} {ss ps : List (Sized α)}
    (o : Option Node) (c : Context α) (k : Nat) (above : Bool) (box : Box α)
    (h : Placed ns boxes ss ps) : Placed (o :: ns) (box :: boxes) (measureOption o c k above ++ ss)
      ((measureOption o c k above).map (·.withBox box) ++ ps) := by
  cases o with
  | none => exact .missing box h
  | some n => exact .part box (stands_measure n c k above) h

theorem Placed.last (o : Option Node) (c : Context α) (k : Nat) (above : Bool) (box : Box α) :
    Placed [o] [box] (measureOption o c k above) ((measureOption o c k above).map (·.withBox box)) := by
  simpa using Placed.option o c k above box (.rest [])

omit [Scalar α] in
theorem Placed.single {n : Option Node} {boxes : List (Box α)} {s : Sized α} (h : boxes.length = 1)
    (hs : Stands n s) : Placed [n] boxes [s] (Sized.placed [s] boxes) := by
  obtain ⟨box, rfl⟩ := List.length_eq_one_iff.mp h
  exact .part box hs (.rest [])

theorem length_measureList (row : Row) (first : Bool) (ns : List Node) (c : Context α) (k : Nat)
    (above : Bool) : (measureList row first ns c k above).length = ns.length := by
  induction ns generalizing first above with
  | nil => rfl
  | cons n ns ih => rw [measureList, List.length_cons, ih, List.length_cons]

theorem Placed.list (row : Row) (first : Bool) (ns : List Node) (c : Context α) (k : Nat)
    (above : Bool) {boxes : List (Box α)}
    (h : boxes.length = ((measureList row first ns c k above).map Sized.box).length) :
    Placed (ns.map some) boxes (measureList row first ns c k above)
      (Sized.placed (measureList row first ns c k above) boxes) := by
  have hlength : boxes.length = ns.length := by rw [h, List.length_map, length_measureList]
  clear h
  induction ns generalizing first above boxes with
  | nil =>
      rw [List.length_nil, List.length_eq_zero_iff] at hlength
      subst hlength
      exact .rest []
  | cons n ns ih =>
      cases boxes with
      | nil => cases hlength
      | cons box boxes =>
          rw [measureList, Sized.placed, List.zipWith_cons_cons]
          exact .part box (stands_measure ..) (ih _ _ (Nat.succ.inj hlength))

end Measures

namespace BoxTable

variable {t t' : BoxTable α} {n : Node} {s : Sized α} {ss ps : List (Sized α)} {k : Nat}
  {steps : List (Step α)} {parts : List (Option Node)} {boxes : List (Box α)}

/-- The table with other boxes for some nodes. -/
def writeAll (t : BoxTable α) : List (Option Node) → List (Box α) → BoxTable α
  | some n :: ns, box :: boxes => (t.write n box).writeAll ns boxes
  | none :: ns, _ :: boxes => t.writeAll ns boxes
  | _, _ => t

theorem contains_writeAll (h : ∀ n, some n ∈ parts → t.contains n = true) (m : Node) :
    (t.writeAll parts boxes).contains m = t.contains m := by
  induction parts generalizing t boxes with
  | nil => rfl
  | cons part parts ih =>
      cases boxes with
      | nil => cases part <;> rfl
      | cons box boxes =>
          have hrest : ∀ n, some n ∈ parts → t.contains n = true :=
            fun n hn => h n (List.mem_cons_of_mem _ hn)
          cases part with
          | none => exact ih hrest
          | some n =>
              have hwrite := contains_write (h n List.mem_cons_self) box
              rw [writeAll, ih (fun m hm => by rw [hwrite]; exact hrest m hm), hwrite]

/-- What has a box still has one when others are filled in. -/
theorem contains_of_fill (hfill : t.fill steps = .ok t') (h : t.contains n = true) :
    t'.contains n = true := by
  induction steps generalizing t with
  | nil =>
      cases hfill
      exact h
  | cons st steps ih =>
      obtain ⟨m, _, _, _, _, box, t₁, rfl, hassign, hfill⟩ := fill_cons hfill
      refine ih hfill ?_
      rw [contains, box?_assign hassign]
      split
      · rfl
      · exact h

theorem fill_withBox (h : Stands (some n) s) (box : Box α) (k : Nat) :
    t.fill ((s.withBox box).steps k) = (t.fill (s.steps k)).map (·.write n box) := by
  cases h with
  | gap => rfl
  | part _ c above handsBack box' parts =>
      rw [Sized.withBox, Sized.steps, Sized.steps, fill_enter, fill_enter, assign_eq_map t n box' box]
      cases hassign : t.assign n box' with
      | error fault => rfl
      | ok t₁ => exact fill_write (contains_of_assign hassign) box

variable [Scalar α]

theorem box?_of_fill_steps (h : Stands (some n) s) (hfill : t.fill (s.steps k) = .ok t') :
    t'.box? n = some s.box := by
  cases h with
  | gap => cases hfill
  | part _ c above handsBack box parts =>
      rw [Sized.steps] at hfill
      obtain ⟨_, _, _, _, _, _, heq, hbox⟩ := boxes_of_fill hfill _ List.mem_cons_self
      cases heq
      exact hbox

theorem contains_of_fill_steps (h : Stands (some n) s) (hfill : t.fill (s.steps k) = .ok t') :
    t'.contains n = true := by
  rw [contains, box?_of_fill_steps h hfill]
  rfl

/-- Parts that have been sized have boxes. -/
theorem contains_of_placed (h : Placed parts boxes ss ps)
    (hfill : t.fill (Sized.stepsList k ss) = .ok t') : ∀ n, some n ∈ parts → t'.contains n = true := by
  induction h generalizing t with
  | rest => simp
  | missing box hrest ih =>
      intro n hn
      exact ih hfill n (by simpa using hn)
  | @part part _ _ s ss _ box hstands hrest ih =>
      intro n hn
      rw [Sized.stepsList, fill_append] at hfill
      cases hs : t.fill (s.steps k) with
      | error stop =>
          rw [hs] at hfill
          cases hfill
      | ok t₁ =>
          rw [hs] at hfill
          rcases List.mem_cons.mp hn with rfl | hn
          · exact contains_of_fill hfill (contains_of_fill_steps hstands hs)
          · exact ih hfill n hn

/-- To place parts that have been sized is the same as to size them in their places. -/
theorem fill_placed (h : Placed parts boxes ss ps) (k : Nat) : t.fill (Sized.stepsList k ps) =
    (t.fill (Sized.stepsList k ss)).map (·.writeAll parts boxes) := by
  induction h generalizing t with
  | rest ss => cases t.fill (Sized.stepsList k ss) <;> rfl
  | missing box hrest ih => exact ih
  | @part part _ boxes s ss ps box hstands hrest ih =>
      rw [Sized.stepsList, Sized.stepsList, fill_append, fill_append]
      cases part with
      | none =>
          cases hstands
          rfl
      | some n =>
          rw [fill_withBox hstands]
          cases hs : t.fill (s.steps k) with
          | error stop => rfl
          | ok t₁ =>
              change (t₁.write n box).fill (Sized.stepsList k ps) =
                Except.map _ (t₁.fill (Sized.stepsList k ss))
              rw [ih, fill_write (contains_of_fill_steps hstands hs)]
              cases t₁.fill (Sized.stepsList k ss) <;> rfl

end BoxTable

end Railroad
