import Railroad.Proofs.Layout.Itinerary
/-!
The measures of a tree pay the visits of the itinerary, and have a gap wherever the itinerary has one.
-/
namespace Railroad

variable {α : Type}

/-- The visit of a step; there is none where something is wrong. -/
def Step.visit? : Step α → Option Visit
  | .enter n c above handsBack _ _ => some ⟨n, c.flow, above, handsBack⟩
  | .gap .. => none

namespace Sized

mutual
/-- The visits to a measured tree, with a gap for everything that is wrong. -/
def visits : Sized α → List (Option Visit)
  | part n c above handsBack _ parts => some ⟨n, c.flow, above, handsBack⟩ :: visitsList parts
  | gap .. => [none]

def visitsList : List (Sized α) → List (Option Visit)
  | [] => []
  | s :: ss => visits s ++ visitsList ss
end

mutual
theorem map_visit?_steps : ∀ (s : Sized α) (k : Nat), (s.steps k).map Step.visit? = s.visits
  | part .., k => by
      rw [steps, visits, List.map_cons, map_visit?_stepsList]
      rfl
  | gap .., _ => rfl

theorem map_visit?_stepsList : ∀ (ss : List (Sized α)) (k : Nat),
    (stepsList k ss).map Step.visit? = visitsList ss
  | [], _ => rfl
  | s :: ss, k => by
      rw [stepsList, visitsList, List.map_append, map_visit?_steps s, map_visit?_stepsList ss]
end

@[simp] theorem visits_withBox (s : Sized α) (box : Box α) : (s.withBox box).visits = s.visits := by
  cases s <;> simp only [withBox, visits]

/-- It does not matter for the visits where the parts are placed. -/
theorem visitsList_placed {parts : List (Sized α)} {boxes : List (Box α)}
    (h : boxes.length = parts.length) : visitsList (placed parts boxes) = visitsList parts := by
  induction parts generalizing boxes with
  | nil => simp [placed]
  | cons s ss ih =>
      cases boxes with
      | nil => simp at h
      | cons box boxes =>
          rw [placed, List.zipWith_cons_cons, visitsList, visits_withBox, visitsList]
          congr 1
          exact ih (Nat.succ.inj h)

theorem visitsList_append (ss ts : List (Sized α)) :
    visitsList (ss ++ ts) = visitsList ss ++ visitsList ts := by
  induction ss with
  | nil => rfl
  | cons s ss ih => rw [List.cons_append, visitsList, visitsList, ih, List.append_assoc]

theorem visitsList_map_withBox (ss : List (Sized α)) (box : Box α) :
    visitsList (ss.map (·.withBox box)) = visitsList ss := by
  induction ss with
  | nil => rfl
  | cons s ss ih => rw [List.map_cons, visitsList, visits_withBox, ih, visitsList]

/-- Parts that hand nothing back leave the flag as it was. -/
theorem after_eq_false {ss : List (Sized α)} (h : ∀ s ∈ ss, s.handsBack = false) :
    after false ss = false := by
  rw [after]
  cases hlast : ss.getLast? with
  | none => rfl
  | some s => exact h s (List.mem_of_getLast? hlast)

end Sized

section Places

variable [Scalar α]

namespace Placement

@[simp] theorem length_normalize (p : Placement α) : p.normalize.parts.length = p.parts.length :=
  List.length_map _

@[simp] theorem length_pile (box : Box α) (es : List (Box α)) :
    (pile box es).parts.length = es.length := by
  induction es generalizing box with
  | nil => rfl
  | cons e es ih => rw [pile, List.length_cons, ih, List.length_cons]

@[simp] theorem length_row (box : Box α) (es : List (Box α)) :
    (row box es).parts.length = es.length := by
  induction es generalizing box with
  | nil => rfl
  | cons e es ih => rw [row, List.length_cons, ih, List.length_cons]

@[simp] theorem length_stackFrom (above : Bool) (index : Nat) (box : Box α) (es : List (Box α)) :
    (stackFrom above index box es).parts.length = es.length := by
  induction es generalizing index box with
  | nil => rfl
  | cons e es ih => rw [stackFrom, List.length_cons, ih, List.length_cons]

@[simp] theorem length_chain (rightwards : Bool) (box : Box α) (anchor : Point α)
    (es : List (Box α)) : (chain rightwards box anchor es).parts.length = es.length := by
  induction es generalizing box anchor with
  | nil => rfl
  | cons e es ih => rw [chain, List.length_cons, ih, List.length_cons]

@[simp] theorem length_sequence (rightwards : Bool) (es : List (Box α)) :
    (sequence rightwards es).parts.length = es.length := by
  rw [sequence]
  split <;> simp

@[simp] theorem length_rules (es : List (Box α)) : (rules es).parts.length = es.length :=
  length_pile _ _

@[simp] theorem length_fan (direction : Direction) (es : List (Box α)) :
    (fan direction es).parts.length = es.length := by
  simp [fan]

@[simp] theorem length_stack (above useLeft useRight : Bool) (es : List (Box α)) :
    (stack above useLeft useRight es).parts.length = es.length := by
  simp [stack]

theorem length_production (name expression : Box α) :
    (production name expression).parts.length = 2 := rfl

theorem length_repetition (above : Bool) (body : Box α) :
    (repetition above body).parts.length = 1 := by
  cases above <;> rfl

theorem length_loop (body : Box α) : (loop body).parts.length = 1 := rfl

theorem length_separatedLoop (body separator : Box α) :
    (separatedLoop body separator).parts.length = 2 := rfl

theorem length_optional (above useLeft useRight : Bool) (body : Box α) :
    (optional above useLeft useRight body).parts.length = 1 := by
  cases above <;> rfl

end Placement

/-- There are as many places as there are boxes, so the parts are placed without a loss. -/
theorem Sized.visitsList_placed_boxes {parts : List (Sized α)} {p : Placement α}
    (h : p.parts.length = (parts.map Sized.box).length) :
    visitsList (placed parts p.parts) = visitsList parts :=
  visitsList_placed (by rw [h, List.length_map])

end Places

section Flags

variable [Scalar α]

mutual
/-- A tree hands back what an alternation is entered with, and nothing else. -/
theorem handsBack_measure : ∀ (n : Node) (c : Context α) (k : Nat) (above : Bool),
    (measure n c k above).handsBack = true → (n.isAlternation && above) = true
  | n, c, k, above => by
      intro h
      rw [measure.eq_def] at h
      split at h
      · cases h
      · split at h
        · cases h
        · cases n with
          | alternation _ alternatives =>
              cases alternatives with
              | nil => exact h
              | cons a as =>
                  dsimp only at h
                  split at h <;> exact h
          | grammar _ title productions comment =>
              rw [Sized.handsBack, handsBack_measureRequired productions _ _ _
                (Sized.after_eq_false (handsBack_measureOption title _ _ _ rfl)),
                Sized.after_eq_false (handsBack_measureOption comment _ _ _ rfl)] at h
              cases h
          | productionList _ productions =>
              rw [Sized.handsBack, Sized.after_eq_false
                (handsBack_measureList _ _ productions _ _)] at h
              cases h
          | production _ name expression =>
              rw [Sized.handsBack, handsBack_measureRequired expression _ _ _
                (handsBack_measureRequired name _ _ _ rfl)] at h
              cases h
          | sequence _ items =>
              rw [Sized.handsBack, Sized.after_eq_false (handsBack_measureList _ _ items _ _)] at h
              cases h
          | oneOrMore _ body separator => cases separator <;> cases h
          | repetition | optional | literal | identifier | other | foreign => cases h

theorem handsBack_measureList (row : Row) : ∀ (first : Bool) (ns : List Node) (c : Context α)
    (k : Nat), ∀ s ∈ measureList row first ns c k false, s.handsBack = false
  | _, [], _, _ => by simp [measureList]
  | first, n :: ns, c, k => by
      have hn : (measure n (row.context c first ns.isEmpty) k false).handsBack = false := by
        simpa using handsBack_measure n (row.context c first ns.isEmpty) k false
      rw [measureList, hn, Bool.and_false, List.forall_mem_cons]
      exact ⟨hn, handsBack_measureList row false ns c k⟩

theorem handsBack_measureOption : ∀ (o : Option Node) (c : Context α) (k : Nat) (above : Bool),
    above = false → ∀ s ∈ measureOption o c k above, s.handsBack = false
  | none, _, _, _, _ => by simp [measureOption]
  | some n, c, k, above, h => by
      simpa [measureOption, h] using handsBack_measure n c k false

theorem handsBack_measureRequired : ∀ (o : Option Node) (c : Context α) (k : Nat) (above : Bool),
    above = false → (measureRequired o c k above).handsBack = false
  | none, _, _, _, _ => by rw [measureRequired, Sized.handsBack]
  | some n, c, k, above, h => by
      simpa [measureRequired, h] using handsBack_measure n c k false
end

@[simp] theorem handsBack_measure_false (n : Node) (c : Context α) (k : Nat) :
    (measure n c k false).handsBack = false := by
  simpa using handsBack_measure n c k false

@[simp] theorem handsBack_measureRequired_false (o : Option Node) (c : Context α) (k : Nat) :
    (measureRequired o c k false).handsBack = false :=
  handsBack_measureRequired o c k false rfl

@[simp] theorem after_measureOption_false (o : Option Node) (c : Context α) (k : Nat) :
    Sized.after false (measureOption o c k false) = false :=
  Sized.after_eq_false (handsBack_measureOption o c k false rfl)

@[simp] theorem after_measureList_false (row : Row) (first : Bool) (ns : List Node) (c : Context α)
    (k : Nat) : Sized.after false (measureList row first ns c k false) = false :=
  Sized.after_eq_false (handsBack_measureList row first ns c k)

end Flags

section Visits

variable [Scalar α]

mutual
theorem visits_measure : ∀ (n : Node) (c : Context α) (k : Nat) (above : Bool),
    (measure n c k above).visits = itinerary .right n c.flow k above
  | n, c, k, above => by
      -- Parts that are measured without a flag hand none back, so none is passed on to the next part either.
      rw [measure.eq_def, itinerary.eq_def]
      cases hknown : n.isKnown with
      | false => rfl
      | true =>
          by_cases hk : k < Metrics.maxDepth
          · rw [if_neg (by simp), if_neg (by omega), if_pos (by simpa using hk)]
            cases n with
            | grammar _ title productions comment =>
                simp only [after_measureOption_false, handsBack_measureRequired_false,
                  Placement.heading, Sized.visits, Sized.visitsList_append, Sized.visitsList,
                  Sized.visitsList_map_withBox, Sized.visits_withBox, visitsList_measureOption title,
                  visits_measureRequired productions, visitsList_measureOption comment]
                rfl
            | productionList _ productions =>
                rw [Sized.visits, after_measureList_false,
                  Sized.visitsList_placed_boxes (Placement.length_rules _), visitsList_measureList]
                rfl
            | production _ name expression =>
                simp only [handsBack_measureRequired_false]
                rw [Sized.visits, Sized.visitsList_placed (Placement.length_production _ _),
                  Sized.visitsList, visits_measureRequired name, Sized.visitsList,
                  visits_measureRequired expression, Sized.visitsList, List.append_nil]
                rfl
            | alternation _ alternatives =>
                cases alternatives with
                | nil => rfl
                | cons a as =>
                    dsimp only
                    rw [Row.ofAlternatives]
                    split
                    · rw [Sized.visits, Sized.visitsList_placed_boxes (Placement.length_fan _ _),
                        visitsList_measureList _ _ (a :: as)]
                      rfl
                    · rw [Sized.visits, Sized.visitsList_placed_boxes (Placement.length_stack _ _ _ _),
                        visitsList_measureList _ _ (a :: as)]
                      rfl
            | sequence _ items =>
                rw [Sized.visits, after_measureList_false,
                  Sized.visitsList_placed_boxes (Placement.length_sequence _ _),
                  visitsList_measureList]
                rfl
            | repetition _ body =>
                rw [Sized.visits, Sized.visitsList_placed (Placement.length_repetition _ _),
                  Sized.visitsList, visits_measureRequired body, Sized.visitsList, List.append_nil]
                rfl
            | oneOrMore _ body separator =>
                cases separator with
                | none =>
                    rw [Sized.visits, Sized.visitsList_placed (Placement.length_loop _),
                      Sized.visitsList, visits_measureRequired body, Sized.visitsList]
                    rfl
                | some separator =>
                    simp only [handsBack_measureRequired_false]
                    rw [Sized.visits, Sized.visitsList_placed (Placement.length_separatedLoop _ _),
                      Sized.visitsList, visits_measureRequired body, Sized.visitsList,
                      visits_measure separator, Sized.visitsList, List.append_nil]
                    rfl
            | optional _ body =>
                rw [Sized.visits, Sized.visitsList_placed (Placement.length_optional _ _ _ _),
                  Sized.visitsList, visits_measureRequired body, Sized.visitsList, List.append_nil]
                rfl
            | literal | identifier | other | foreign => rfl
          · rw [if_neg (by simp), if_pos (by omega), if_neg (by simpa using hk)]
            rfl

theorem visitsList_measureList (row : Row) : ∀ (first : Bool) (ns : List Node) (c : Context α)
    (k : Nat), Sized.visitsList (measureList row first ns c k false) =
      itineraryList .right row first ns c.flow k
  | _, [], _, _ => rfl
  | first, n :: ns, c, k => by
      rw [measureList, handsBack_measure_false, Bool.and_false, Sized.visitsList, visits_measure n,
        Row.flow_context, visitsList_measureList row false ns, itineraryList]

theorem visitsList_measureOption : ∀ (o : Option Node) (c : Context α) (k : Nat) (above : Bool),
    Sized.visitsList (measureOption o c k above) = itineraryOption .right o c.flow k above
  | none, _, _, _ => rfl
  | some n, c, k, above => by
      rw [measureOption, Sized.visitsList, Sized.visitsList, List.append_nil, visits_measure n,
        itineraryOption]

theorem visits_measureRequired : ∀ (o : Option Node) (c : Context α) (k : Nat) (above : Bool),
    (measureRequired o c k above).visits = itineraryRequired .right o c.flow k above
  | none, _, _, _ => rfl
  | some n, c, k, above => by rw [measureRequired, visits_measure n, itineraryRequired]
end

end Visits

end Railroad
