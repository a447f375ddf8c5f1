import Railroad.Proofs.Drawing.Entrances
import Railroad.Proofs.Layout.Courses
/-!
What the leaves of a grammar leave in its drawing.

Whatever is looked for among the events, if it is drawn for leaves alone and depends on nothing but the leaf
and its direction, then a drawing holds it leaf by leaf.
-/
namespace Railroad

variable {α β : Type}

/-- The leaf that is entered, with the direction it is drawn in. -/
def Event.leaf? : Event α → Option (Node × Direction)
  | enter n c _ => if n.isLeaf then some (n, c.live.direction) else none
  | _ => none

theorem Shows.filterMap_leaf? {es : List (Event α)} {vs : List (Option Visit)} (h : Shows es vs) :
    es.filterMap Event.leaf? = leavesOf vs := by
  induction h with
  | nil => rfl
  | call _ _ ih | rail _ _ ih => exact ih
  | visit n c above handsBack _ _ ih ih' =>
      rw [leavesOf] at ih ih' ⊢
      simp only [List.cons_append, List.filterMap_append, List.filterMap_cons, ih, ih']
      rfl

variable [Scalar α]

theorem filterMap_inScope (f : Event α → Option β) (σ : Scope α) (es : List (Event α)) :
    (inScope σ es).filterMap (fun x => f x.2) = es.filterMap f := by
  induction es generalizing σ with
  | nil => rfl
  | cons e es ih => rw [inScope, List.filterMap_cons, List.filterMap_cons, ih]

/-- What is found at sights alone is found among them. -/
theorem filterMap_sights {f : Scope α × Event α → Option β}
    (hf : ∀ x : Scope α × Event α, x.2.isSight = false → f x = none) (σ : Scope α)
    (es : List (Event α)) : (sights σ es).filterMap f = (inScope σ es).filterMap f := by
  rw [sights, List.filterMap_filter]
  refine List.filterMap_congr fun x _ => ?_
  cases hx : x.2.isSight with
  | true => simp
  | false => simp [hf x hx]

/-- What is looked for among the events is drawn for leaves alone, and depends on the leaf and its
direction. -/
structure Backdrop.LeafMarks (d : Backdrop α) (f : Scope α × Event α → Option β)
    (marks : Node × Direction → List β) : Prop where
  still : ∀ x : Scope α × Event α, x.2.isSight = false → f x = none
  enter : ∀ σ n c above, f (σ, .enter n c above) = none
  leaf : ∀ e : Entrance α, e.node.isLeaf = true →
    (e.strokes d).filterMap (fun c => f (e.pen d, .call c)) = marks (e.node, e.context.live.direction)
  other : ∀ e : Entrance α, e.node.isLeaf = false → ∀ c ∈ e.strokes d, f (e.pen d, .call c) = none

variable {d : Backdrop α} {e : Entrance α} {k : Nat} {f : Scope α × Event α → Option β}
  {marks : Node × Direction → List β}

/-- A leaf is entered where it is, and nowhere else. -/
theorem Entrance.leaf?_sights (h : e.Unfolds d k) : (e.sights d k).filterMap (·.2.leaf?) =
    (if e.node.isLeaf then [(e.node, e.context.live.direction)] else []) ++
      (e.onward d).flatMap fun e' => (e'.sights d (k + 1)).filterMap (·.2.leaf?) := by
  have hstrokes : ((e.strokes d).map (e.pen d, Event.call ·)).filterMap (·.2.leaf?) = [] := by
    rw [List.filterMap_map]
    exact List.filterMap_eq_nil_iff.mpr fun _ _ => rfl
  rw [h.sights, List.filterMap_append, hstrokes, List.append_nil, List.filterMap_cons,
    List.filterMap_flatMap]
  cases hleaf : e.node.isLeaf <;> simp [Event.leaf?, hleaf]

theorem Entrance.onward_of_isLeaf (h : e.node.isLeaf = true) : e.onward d = [] := by
  obtain ⟨σ, n, c, above⟩ := e
  cases n with
  | literal | identifier | other => rfl
  | _ => cases h

/-- The leaves of a complete tree are entered once each, in the order of a walk over the tree. -/
theorem Entrance.map_fst_leaves (hcomplete : e.node.isComplete = true) (hcovers : d.Covers e.node)
    (hk : k + e.node.height ≤ Metrics.maxDepth) :
    ((e.sights d k).filterMap (·.2.leaf?)).map Prod.fst = e.node.preorder.filter Node.isLeaf := by
  refine induct (P := fun e k => ((e.sights d k).filterMap (·.2.leaf?)).map Prod.fst =
    e.node.preorder.filter Node.isLeaf) ?_ hcomplete hcovers hk
  intro e k hunfolds hchild
  rw [leaf?_sights hunfolds, List.map_append, List.map_flatMap, List.flatMap_congr hchild,
    Node.preorder_eq, Node.preorderList_eq_flatMap, ← e.map_node_onward (d := d), List.filter_cons,
    List.filter_flatMap, List.flatMap_map]
  cases e.node.isLeaf <;> simp

/-- The scene of a complete tree holds the marks of the leaves that are entered in it. -/
theorem Backdrop.LeafMarks.filterMap_sights (hf : d.LeafMarks f marks)
    (hcomplete : e.node.isComplete = true) (hcovers : d.Covers e.node)
    (hk : k + e.node.height ≤ Metrics.maxDepth) :
    (e.sights d k).filterMap f = ((e.sights d k).filterMap (·.2.leaf?)).flatMap marks := by
  refine Entrance.induct (P := fun e k => (e.sights d k).filterMap f =
    ((e.sights d k).filterMap (·.2.leaf?)).flatMap marks) ?_ hcomplete hcovers hk
  intro e k hunfolds hchild
  rw [Entrance.leaf?_sights hunfolds, List.flatMap_append, List.flatMap_assoc,
    ← List.flatMap_congr hchild, hunfolds.sights, List.filterMap_append,
    List.filterMap_cons_none (hf.enter ..), List.filterMap_flatMap, List.filterMap_map]
  cases hleaf : e.node.isLeaf with
  | true =>
      rw [Entrance.onward_of_isLeaf hleaf, if_pos rfl, List.flatMap_cons, List.flatMap_nil,
        List.append_nil, List.flatMap_nil, List.append_nil, List.nil_append]
      exact hf.leaf e hleaf
  | false =>
      have hown := List.filterMap_eq_nil_iff.mpr (hf.other e hleaf)
      rw [if_neg (by simp), List.flatMap_nil, List.nil_append]
      exact (congrArg _ hown).trans (List.append_nil _)

section Drawings

variable {root : Node} {direction : Direction} {table : BoxTable α} {engine : Engine α}

/-- A tree that has been laid out is drawn leaf by leaf, in the order of a walk over it. -/
theorem exists_leaf_drawing (hlayout : Engine.layout root direction = (.ok table, engine))
    (links : List String) : ∃ (handsBack : Bool) (session : DrawingSession α),
      (DrawingSession.start table links direction).draw root false = (.ok handsBack, session) ∧
      (session.events.toList.filterMap Event.leaf?).map Prod.fst = root.walk.filter Node.isLeaf ∧
      ∀ {β : Type} {f : Scope α × Event α → Option β} {marks : Node × Direction → List β},
        Backdrop.LeafMarks ⟨table, links⟩ f marks →
          (inScope ⟨.start, []⟩ session.events.toList).filterMap f =
            (session.events.toList.filterMap Event.leaf?).flatMap marks := by
  obtain ⟨hcomplete, -, hheight⟩ := Engine.conditions_of_layout hlayout
  have hcovers : (⟨table, links⟩ : Backdrop α).Covers root := Engine.box_of_layout hlayout
  have hk : 0 + root.height ≤ Metrics.maxDepth := by omega
  obtain ⟨hfault, -⟩ := draws_of_complete (k := 0) hcomplete hcovers hk (.new direction) false
  have hstill : ∀ x : Scope α × Event α, x.2.isSight = false → x.2.leaf? = none := by
    rintro ⟨σ, e⟩ he
    cases e with
    | enter => cases he
    | call | leave | rail | fault => rfl
  -- the root is entered in the empty scope, and sees all that is looked for
  have hall := fun {β : Type} {f : Scope α × Event α → Option β} hf =>
    filterMap_sights (f := f) hf ⟨.start, []⟩ (scene ⟨table, links⟩ root (.new direction) 0 false).1
  refine ⟨_, _, (DrawingSession.start table links direction).draw_of_noFault hfault, ?_, ?_⟩
  · have hfst := Entrance.map_fst_leaves (e := ⟨⟨.start, []⟩, root, .new direction, false⟩) (k := 0)
      hcomplete hcovers hk
    rw [Entrance.sights, Entrance.scene, hall hstill, filterMap_inScope, ← Node.walk_eq_preorder] at hfst
    simpa [DrawingSession.start] using hfst
  · intro β f marks hf
    have hmarks := hf.filterMap_sights (e := ⟨⟨.start, []⟩, root, .new direction, false⟩) (k := 0)
      hcomplete hcovers hk
    rw [Entrance.sights, Entrance.scene, hall hf.still, hall hstill, filterMap_inScope] at hmarks
    simpa [DrawingSession.start] using hmarks

/-- The leaves of a grammar are drawn in the directions that the ways to them say. -/
theorem Node.IsGrammar.leaf?_events (hroot : root.IsGrammar)
    (hlayout : Engine.layout root direction = (.ok table, engine)) {links : List String}
    {handsBack : Bool} {session : DrawingSession α}
    (hdraw : (DrawingSession.start table links direction).draw root false = (.ok handsBack, session)) :
    handsBack = false ∧ session.events.toList.filterMap Event.leaf? = root.grammarCourses .none := by
  obtain ⟨-, -, hheight⟩ := Engine.conditions_of_layout hlayout
  have hcovers : (⟨table, links⟩ : Backdrop α).Covers root := Engine.box_of_layout hlayout
  have hk : 0 + root.height ≤ Metrics.maxDepth := by omega
  obtain ⟨hshows, hflag⟩ := hroot.renders hcovers direction (.new direction) 0 false rfl hk
  have hleaves := hshows.filterMap_leaf?
  rw [hroot.leavesOf_itinerary hk] at hleaves
  rw [Bool.and_false] at hflag
  simp only [DrawingSession.draw, DrawingSession.start, hshows.untilFault_eq, hflag] at hdraw
  cases hdraw
  exact ⟨rfl, by simpa using hleaves⟩

end Drawings

end Railroad
