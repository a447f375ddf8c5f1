import Railroad.Drawing.Session
import Railroad.Proofs.Layout.Itinerary
/-!
The visits that the events of a drawing show.

Visits are read off events as they come, each with the flag that its node is left with.  Events in which
every node that is entered is left again, after all that is entered in between, show visits without a gap.
-/
namespace Railroad

variable {α : Type}

/-- The flag with which a node is left, read off the events after it has been entered; so many nodes have
been entered in between and not been left. -/
def leaveFlag? : Nat → List (Event α) → Option Bool
  | _, [] => none
  | depth, .enter .. :: es => leaveFlag? (depth + 1) es
  | 0, .leave _ handsBack :: _ => some handsBack
  | depth + 1, .leave .. :: es => leaveFlag? depth es
  | depth, .call _ :: es | depth, .rail _ :: es | depth, .fault .. :: es => leaveFlag? depth es

/-- The visits that some events show, with a gap for a node that is not left and for a fault. -/
def visitsOf : List (Event α) → List (Option Visit)
  | [] => []
  | .enter n c above :: es => (leaveFlag? 0 es).map (⟨n, c.flow, above, ·⟩) :: visitsOf es
  | .fault .. :: es => none :: visitsOf es
  | .call _ :: es | .rail _ :: es | .leave .. :: es => visitsOf es

theorem untilFault_cons {e : Event α} (he : ∀ f c k, e ≠ .fault f c k) (es : List (Event α)) :
    untilFault (e :: es) = (e :: (untilFault es).1, (untilFault es).2) := by
  cases e with
  | fault f c k => exact absurd rfl (he f c k)
  | call | enter | leave | rail => rfl

/-- Events that show these visits, and in which every node that is entered is left again. -/
inductive Shows : List (Event α) → List (Option Visit) → Prop
  | nil : Shows [] []
  | call (c : Call α) {es : List (Event α)} {vs : List (Option Visit)} (h : Shows es vs) :
      Shows (.call c :: es) vs
  | rail (r : RailSpan α) {es : List (Event α)} {vs : List (Option Visit)} (h : Shows es vs) :
      Shows (.rail r :: es) vs
  | visit (n : Node) (c : Context α) (above handsBack : Bool) {es es' : List (Event α)}
      {vs vs' : List (Option Visit)} (h : Shows es vs) (h' : Shows es' vs') :
      Shows (.enter n c above :: es ++ .leave n handsBack :: es')
        (some ⟨n, c.flow, above, handsBack⟩ :: vs ++ vs')

namespace Shows

variable {es es' : List (Event α)} {vs vs' : List (Option Visit)}

theorem append (h : Shows es vs) (h' : Shows es' vs') : Shows (es ++ es') (vs ++ vs') := by
  induction h with
  | nil => exact h'
  | call c _ ih => exact .call c ih
  | rail r _ ih => exact .rail r ih
  | visit n c above handsBack hinside _ _ ih =>
      rw [List.append_assoc, List.append_assoc]
      exact .visit n c above handsBack hinside ih

/-- A node that is entered and left, and what happens in between. -/
theorem single (n : Node) (c : Context α) (above handsBack : Bool) (h : Shows es vs) :
    Shows (.enter n c above :: es ++ [.leave n handsBack])
      (some ⟨n, c.flow, above, handsBack⟩ :: vs) := by
  simpa using Shows.visit n c above handsBack h .nil

theorem calls (cs : List (Call α)) : Shows (cs.map Event.call) [] := by
  induction cs with
  | nil => exact .nil
  | cons c cs ih => exact .call c ih

theorem rails (rs : List (RailSpan α)) : Shows (rs.map Event.rail) [] := by
  induction rs with
  | nil => exact .nil
  | cons r rs ih => exact .rail r ih

/-- Strokes after other events show nothing. -/
theorem then_calls (h : Shows es vs) (cs : List (Call α)) :
    Shows (es ++ cs.map Event.call) vs := by
  simpa using h.append (calls cs)

theorem within (h : Shows es vs) (origin : Point α) :
    Shows (Strokes.within origin Event.call es) vs := by
  have hinside := h.append (Shows.nil.call (.primitive .popTranslate))
  rw [List.append_nil] at hinside
  exact .call _ hinside

/-- What happens while a node is open does not tell how it is left. -/
theorem leaveFlag?_append (h : Shows es vs) (depth : Nat) (es' : List (Event α)) :
    leaveFlag? depth (es ++ es') = leaveFlag? depth es' := by
  induction h generalizing depth es' with
  | nil => rfl
  | call _ _ ih | rail _ _ ih =>
      rw [List.cons_append, leaveFlag?]
      exact ih depth es'
  | visit n c above handsBack _ _ ih ih' =>
      rw [List.append_assoc, List.cons_append, leaveFlag?, ih, List.cons_append, leaveFlag?, ih']

theorem visitsOf_append (h : Shows es vs) (es' : List (Event α)) :
    visitsOf (es ++ es') = vs ++ visitsOf es' := by
  induction h generalizing es' with
  | nil => rfl
  | call _ _ ih | rail _ _ ih => exact ih es'
  | visit n c above handsBack hinside _ ih ih' =>
      rw [List.append_assoc, List.cons_append, visitsOf, hinside.leaveFlag?_append, ih,
        List.cons_append, leaveFlag?, visitsOf, ih', Option.map_some, List.append_assoc]
      rfl

theorem visitsOf_eq (h : Shows es vs) : visitsOf es = vs := by
  simpa [visitsOf] using h.visitsOf_append []

theorem untilFault_append (h : Shows es vs) (es' : List (Event α)) :
    untilFault (es ++ es') = (es ++ (untilFault es').1, (untilFault es').2) := by
  induction h generalizing es' with
  | nil => rfl
  | call _ _ ih | rail _ _ ih =>
      rw [List.cons_append, untilFault_cons, ih]
      · rfl
      · simp
  | visit n c above handsBack _ _ ih ih' =>
      rw [List.append_assoc, List.cons_append, untilFault_cons, ih, List.cons_append,
        untilFault_cons, ih']
      all_goals simp

theorem untilFault_eq (h : Shows es vs) : untilFault es = (es, none) := by
  simpa [untilFault] using h.untilFault_append []

end Shows

end Railroad
