import Railroad.Proofs.Drawing.Protocol
import Railroad.Proofs.Drawing.Shown
import Railroad.Proofs.Drawing.RenderPass
/-!
Trees that have been laid out are drawn without a fault, and the calls that draw them keep the protocol.
-/
namespace Railroad

variable {α : Type}

/-- Events among which there is no fault, and whose calls keep the protocol. -/
structure Flawless (es : List (Event α)) : Prop where
  noFault : ∀ e ∈ es, ∀ f c k, e ≠ .fault f c k
  keeps : Keeps (callsOf es)

theorem callsOf_append (es es' : List (Event α)) : callsOf (es ++ es') = callsOf es ++ callsOf es' :=
  List.filterMap_append

theorem callsOf_map_call (cs : List (Call α)) : callsOf (cs.map .call) = cs := by
  rw [callsOf, List.filterMap_map]
  exact List.filterMap_some

theorem untilFault_of_noFault {es : List (Event α)} (h : ∀ e ∈ es, ∀ f c k, e ≠ .fault f c k) :
    untilFault es = (es, none) := by
  induction es with
  | nil => rfl
  | cons e es ih =>
      rw [List.forall_mem_cons] at h
      rw [untilFault_cons h.1, ih h.2]

namespace Flawless

variable {es es' : List (Event α)}

theorem nil : Flawless ([] : List (Event α)) :=
  ⟨by simp, .nil⟩

theorem append (h : Flawless es) (h' : Flawless es') : Flawless (es ++ es') where
  noFault := List.forall_mem_append.mpr ⟨h.noFault, h'.noFault⟩
  keeps := by
    rw [callsOf_append]
    exact h.keeps.append h'.keeps

theorem calls {cs : List (Call α)} (h : Keeps cs) : Flawless (cs.map .call) where
  noFault := by simp
  keeps := by rwa [callsOf_map_call]

theorem rails (rs : List (RailSpan α)) : Flawless (rs.map .rail) where
  noFault := by simp
  keeps := by
    rw [callsOf, List.filterMap_map]
    simpa [Function.comp_def] using Keeps.nil

theorem visit (n : Node) (c : Context α) (above handsBack : Bool) (h : Flawless es) :
    Flawless (.enter n c above :: es ++ [.leave n handsBack]) where
  noFault := by
    have := h.noFault
    simpa [or_imp, forall_and] using this
  keeps := by
    rw [callsOf_append]
    exact h.keeps.append .nil

theorem within (h : Flawless es) (origin : Point α) :
    Flawless (Strokes.within origin Event.call es) where
  noFault := by
    have := h.noFault
    simpa [Strokes.within, or_imp, forall_and] using this
  keeps := by
    have hkeeps := Keeps.frame origin h.keeps .nil
    rwa [Strokes.within, callsOf_append]

end Flawless

variable [Scalar α] {d : Backdrop α} {n : Node} {ns : List Node} {o : Option Node} {k : Nat}

/-- Without a fault a drawing goes on to its end. -/
theorem DrawingSession.draw_of_noFault (s : DrawingSession α) {above : Bool}
    (h : ∀ e ∈ (scene s.backdrop n s.context s.nesting above).1, ∀ f c k, e ≠ .fault f c k) :
    s.draw n above = (.ok (scene s.backdrop n s.context s.nesting above).2,
      { s with events := s.events ++ (scene s.backdrop n s.context s.nesting above).1 }) := by
  simp only [draw, untilFault_of_noFault h]

/-- The scene of a tree is flawless however it is entered. -/
def Backdrop.Draws (d : Backdrop α) (k : Nat) (n : Node) : Prop :=
  ∀ (c : Context α) (above : Bool), Flawless (scene d n c k above).1

section Lists

variable (h : ∀ n ∈ ns, d.Draws k n) (c : Context α) (above : Bool)

include h

theorem sceneList_flawless : Flawless (sceneList d ns c k above).1 := by
  induction ns generalizing above with
  | nil => exact .nil
  | cons n ns ih =>
      rw [List.forall_mem_cons] at h
      rw [sceneList]
      exact (h.1 c above).append (ih h.2 _)

theorem sceneFan_flawless : Flawless (sceneFan d ns c k) := by
  induction ns with
  | nil => exact .nil
  | cons n ns ih =>
      rw [List.forall_mem_cons] at h
      rw [sceneFan]
      exact (h.1 c false).append (ih h.2)

theorem sceneItems_flawless (first : Bool) : Flawless (sceneItems d first ns c k above).1 := by
  induction ns generalizing first above with
  | nil => exact .nil
  | cons n ns ih =>
      rw [List.forall_mem_cons] at h
      rw [sceneItems]
      exact (h.1 _ above).append (ih h.2 _ _)

end Lists

theorem sceneOption_flawless (h : ∀ n ∈ o.toList, d.Draws k n) (c : Context α) (above : Bool) :
    Flawless (sceneOption d o c k above).1 := by
  cases o with
  | none => exact .nil
  | some n => exact h n List.mem_cons_self c above

theorem sceneRequired_flawless (hsome : o.isSome = true) (h : ∀ n ∈ o.toList, d.Draws k n)
    (c : Context α) (above : Bool) : Flawless (sceneRequired d o c k above).1 := by
  cases o with
  | none => cases hsome
  | some n => exact h n List.mem_cons_self c above

/-- A node that has its parts and a box, and does not lie too deep, is drawn if its children are. -/
theorem scene_flawless {box : Box α} (hknown : n.isKnown = true) (hparts : n.hasParts = true)
    (hbox : d.table.box? n = some box) (hk : k < Metrics.maxDepth)
    (h : ∀ m ∈ n.children, d.Draws (k + 1) m) : d.Draws k n := by
  intro c above
  rw [scene.eq_def, if_neg (by simp [hknown]), if_neg (by omega), hbox]
  refine .visit n c above _ ?_
  cases n with
  | grammar _ title productions comment =>
      simp only [Node.children, List.forall_mem_append] at h
      exact .within ((((sceneOption_flawless h.1.1 _ _).append
        (sceneOption_flawless h.1.2 _ _))).append (sceneOption_flawless h.2 _ _)) _
  | productionList _ productions => exact .within (sceneList_flawless h _ _) _
  | production _ name expression =>
      simp only [Node.children, List.forall_mem_append] at h
      rw [Node.hasParts, Bool.and_eq_true] at hparts
      exact .within (((sceneRequired_flawless hparts.1 h.1 _ _).append
        (sceneRequired_flawless hparts.2 h.2 _ _)).append (.calls Strokes.keeps_production)) _
  | alternation _ alternatives =>
      cases alternatives with
      | nil => cases hparts
      | cons a as =>
          dsimp only
          split
          · exact .within ((sceneFan_flawless h _).append (.calls Strokes.keeps_fan)) _
          · exact .within (((Flawless.rails _).append (sceneList_flawless h _ _)).append
              (.calls Strokes.keeps_stack)) _
  | sequence _ items => exact .within (sceneItems_flawless h _ _ _) _
  | repetition _ body =>
      exact (Flawless.within (sceneRequired_flawless hparts h _ _) _).append
        (.calls Strokes.keeps_repetition)
  | oneOrMore _ body separator =>
      cases separator with
      | none =>
          simp only [Node.children, List.forall_mem_append] at h
          exact .within ((sceneRequired_flawless hparts h.1 _ _).append
            (.calls Strokes.keeps_loop)) _
      | some separator =>
          simp only [Node.children, List.forall_mem_append] at h
          exact .within (((sceneRequired_flawless hparts h.1 _ _).append
            (h.2 separator List.mem_cons_self _ _)).append (.calls Strokes.keeps_separatedLoop)) _
  | optional _ body =>
      exact (Flawless.within (sceneRequired_flawless hparts h _ _) _).append
        (.calls Strokes.keeps_optional)
  | literal | identifier | other => exact .calls Strokes.keeps_leaf
  | foreign => cases hknown

/-- A complete tree that has its boxes and is not too high is drawn without a fault. -/
theorem draws_of_complete (hcomplete : n.isComplete = true) (hcovers : d.Covers n)
    (hk : k + n.height ≤ Metrics.maxDepth) : d.Draws k n := by
  induction n using Node.descend generalizing k with
  | _ n ih =>
      obtain ⟨⟨hknown, hparts⟩, hchildren⟩ := (Node.isComplete_iff_children n).mp hcomplete
      obtain ⟨box, hbox⟩ := hcovers n n.mem_preorder_self
      have hpos := n.height_pos
      refine scene_flawless hknown hparts hbox (by omega) fun m hm => ?_
      have := Node.height_lt_of_mem_children hm
      exact ih m hm (hchildren m hm) (hcovers.child hm) (by omega)

end Railroad
