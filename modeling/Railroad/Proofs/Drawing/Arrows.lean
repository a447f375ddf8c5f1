import Mathlib
import Railroad.Proofs.Drawing.Leaves
import Railroad.Proofs.Ebnf.ReadTrees
/-!
The directions of leaves: the size pass and the render pass enter every leaf in the direction that the way to
it says, and the render pass draws one arrow for each leaf of an expression, which points that way.
-/
namespace Railroad

variable {α : Type}

/-- The leaf that is sized, with the direction it is sized in. -/
def Step.leaf? : Step α → Option (Node × Direction)
  | enter n c .. => if n.isLeaf then some (n, c.live.direction) else none
  | gap .. => none

theorem filterMap_leaf?_steps [Scalar α] (n : Node) (c : Context α) (k j : Nat) (above : Bool) :
    ((measure n c k above).steps j).filterMap Step.leaf? =
      leavesOf (itinerary .right n c.flow k above) := by
  have hleaf : ∀ st : Step α, st.leaf? = st.visit?.bind Visit.leaf? := by
    intro st
    cases st <;> rfl
  rw [leavesOf, ← visits_measure, ← Sized.map_visit?_steps _ j, List.filterMap_map]
  exact List.filterMap_congr fun st _ => hleaf st

/-- Where an arrow points. -/
def Composite.pointing? : Composite α → Option Direction
  | arrowLeft .. => some .left
  | arrowRight .. => some .right
  | arrowDown .. => some .down
  | hline .. | vline .. | connector .. => none

/-- The leaf that an arrow is drawn for, and where it points. -/
def leafArrow? : Scope α × Event α → Option (Node × Direction)
  | (σ, .call (.composite c)) =>
      σ.opened.head?.bind fun o => if o.node.isLeaf then c.pointing?.map (o.node, ·) else none
  | _ => none

/-- The arrows that are drawn for leaves, in order. -/
def leafArrows [Scalar α] (es : List (Event α)) : List (Node × Direction) :=
  (inScope ⟨.start, []⟩ es).filterMap leafArrow?

/-- The arrow that a leaf gets in a direction. -/
def arrowOf : Node × Direction → List (Node × Direction)
  | (n, .left) => [(n, .left)]
  | (n, .right) => [(n, .right)]
  | (n, .down) => [(n, .down)]
  | (_, .none) | (_, .up) => []

section Marks

variable [Scalar α] {d : Backdrop α} {direction : Direction} {isLinked isPlain : Bool} {style : Style}
  {box : Box α} {text : String} {σ : Scope α} {o : Opened α}

/-- A leaf that is drawn while it is the innermost open node gets the arrow of its direction. -/
theorem leafArrows_leaf (ho : σ.opened.head? = some o) (hleaf : o.node.isLeaf = true) :
    (Strokes.leaf direction isLinked isPlain style box text).filterMap
      (fun c => leafArrow? (σ, .call c)) = arrowOf (o.node, direction) := by
  obtain ⟨arrow, look, hstrokes, harrow, -⟩ :=
    Strokes.exists_leaf direction isLinked isPlain style box text
  have hlook : (look.map Call.primitive).filterMap (fun c => leafArrow? (σ, .call c)) = [] := by
    rw [List.filterMap_map]
    exact List.filterMap_eq_nil_iff.mpr fun _ _ => rfl
  rw [hstrokes, List.filterMap_append, hlook, List.append_nil]
  cases harrow <;>
    simp [leafArrow?, ho, hleaf, Composite.pointing?, arrowOf, Strokes.vline, Strokes.hline]

/-- Arrows of leaves are drawn for leaves alone. -/
theorem leafMarks_arrows (d : Backdrop α) : d.LeafMarks leafArrow? arrowOf where
  still := by
    rintro ⟨σ, e⟩ he
    cases e with
    | call c =>
        cases c with
        | primitive => rfl
        | composite => cases he
    | enter | leave | rail | fault => rfl
  enter _ _ _ _ := rfl
  leaf e he := by
    obtain ⟨rails, hopened⟩ := e.opened_pen (d := d)
    have ho : (e.pen d).opened.head? =
        some ⟨e.node, e.context, e.scope.origins.current, rails⟩ := by
      rw [hopened]
      rfl
    have harrows : ∀ isLinked isPlain style, (Strokes.leaf e.context.live.direction isLinked isPlain style
        (d.box e.node) (e.node.text?.getD "")).filterMap (fun c => leafArrow? (e.pen d, .call c)) =
          arrowOf (e.node, e.context.live.direction) :=
      fun _ _ _ => leafArrows_leaf ho he
    obtain ⟨σ, n, c, above⟩ := e
    cases n with
    | literal | identifier | other => exact harrows _ _ _
    | _ => cases he
  other e he c _ := by
    obtain ⟨rails, hopened⟩ := e.opened_pen (d := d)
    cases c with
    | primitive => rfl
    | composite => simp [leafArrow?, hopened, he]

end Marks

namespace Node

/-- Leaves of expressions always head somewhere. -/
theorem arrowOf_courseOf (n : Node) (path : List Joint) :
    arrowOf (n, courseOf path) = [(n, courseOf path)] := by
  rw [courseOf]
  split
  · rfl
  · split <;> rfl

theorem flatMap_arrowOf_courses (n : Node) : n.courses.flatMap arrowOf = n.courses := by
  rw [courses, List.flatMap_map]
  simp only [arrowOf_courseOf]
  exact List.map_eq_flatMap.symm

/-- In a grammar the leaves of the expressions head somewhere, and no other leaf does. -/
theorem IsGrammar.flatMap_arrowOf {root : Node} (h : root.IsGrammar) :
    (root.grammarCourses .none).flatMap arrowOf = root.productions.flatMap ruleCourses := by
  cases h with
  | @intro id listId title comment productions htitle hproductions hcomment =>
      have hnone : ∀ ns : List Node, (ns.map (·, Direction.none)).flatMap arrowOf = [] := by
        intro ns
        rw [List.flatMap_map]
        exact List.flatMap_eq_nil_iff.mpr fun _ _ => rfl
      have hrule : ∀ p ∈ productions, (p.namedCourses .none).flatMap arrowOf = p.ruleCourses := by
        intro p hp
        cases hproductions p hp with
        | @intro id nameId name expression hexpression =>
            simp [namedCourses, ruleCourses, arrowOf, flatMap_arrowOf_courses]
      rw [grammarCourses, List.flatMap_append, List.flatMap_append, hnone, hnone, List.nil_append,
        List.append_nil, List.flatMap_assoc, List.flatMap_congr hrule]
      rfl

end Node

variable [Scalar α]

/-- In a grammar that has been read and laid out, every leaf of an expression is sized and drawn in the
direction that the way to it from its rule says: downwards if it is an alternative of a fan, and otherwise
to the right or to the left, as an even or an odd number of bodies of repetitions and of separators are
around it.  It gets one arrow, which points in that direction; the title, the names of the rules and the
comment get none. -/
theorem leaves_follow_courses {reader : Ebnf.Reader} {nextId : Nat} {text : String} {root : Node}
    (hread : (reader.read nextId text).result = .ok root) {direction : Direction} {table : BoxTable α}
    {engine : Engine α} (hlayout : Engine.layout root direction = (.ok table, engine))
    (links : List String) :
    ((measure root (.new direction : Context α) 0 false).steps 0).filterMap Step.leaf? =
      root.grammarCourses .right ∧
    ∃ session : DrawingSession α,
      (DrawingSession.start table links direction).draw root false = (.ok false, session) ∧
      session.events.toList.filterMap Event.leaf? = root.grammarCourses .none ∧
      leafArrows session.events.toList = root.productions.flatMap Node.ruleCourses := by
  have hroot := Ebnf.isGrammar_of_read hread
  obtain ⟨-, -, hheight⟩ := Engine.conditions_of_layout hlayout
  obtain ⟨handsBack, session, hdraw, -, hmarks⟩ := exists_leaf_drawing hlayout links
  obtain ⟨rfl, hdrawn⟩ := hroot.leaf?_events hlayout hdraw
  refine ⟨?_, session, hdraw, hdrawn, ?_⟩
  · rw [filterMap_leaf?_steps]
    exact hroot.leavesOf_itinerary (by omega)
  · rw [leafArrows, hmarks (leafMarks_arrows _), hdrawn, hroot.flatMap_arrowOf]

/-- A loop on the way back of a repetition, and a fan. -/
def turningText : String :=
  "'T' \x7b x = a \x7b b | < c / d > \x7d . y = '1' | '2' | '3' . \x7d 'n'"

def turningTree : Node :=
  .grammar 19 (some (.literal 0 "T" .title)) (some (.productionList 17
    [.production 10 (some (.identifier 9 "x")) (some (.sequence 8
      [.identifier 1 "a", .repetition 7 (some (.alternation 6
        [.identifier 2 "b", .oneOrMore 5 (some (.identifier 3 "c")) (some (.identifier 4 "d"))]))])),
    .production 16 (some (.identifier 15 "y")) (some (.alternation 14
      [.literal 11 "1" .quoted, .literal 12 "2" .quoted, .literal 13 "3" .quoted]))]))
    (some (.other 18 "n"))

theorem leaves_follow_courses_turning :
    (Ebnf.Reader.new.read 0 turningText).result = .ok turningTree ∧
    turningTree.productions.flatMap Node.ruleCourses =
      [(.identifier 1 "a", .right), (.identifier 2 "b", .left), (.identifier 3 "c", .left),
        (.identifier 4 "d", .right), (.literal 11 "1" .quoted, .down), (.literal 12 "2" .quoted, .down),
        (.literal 13 "3" .quoted, .down)] ∧
    ∃ (table : BoxTable Rat) (engine : Engine Rat),
      Engine.layout turningTree .none = (.ok table, engine) ∧
      ((measure turningTree (.new .none : Context Rat) 0 false).steps 0).filterMap Step.leaf? =
        turningTree.grammarCourses .right ∧
      ∃ session : DrawingSession Rat,
        (DrawingSession.start table ["x"] .none).draw turningTree false = (.ok false, session) ∧
        session.events.toList.filterMap Event.leaf? = turningTree.grammarCourses .none ∧
        leafArrows session.events.toList = turningTree.productions.flatMap Node.ruleCourses := by
  have hread : (Ebnf.Reader.new.read 0 turningText).result = .ok turningTree := by cbv
  have hcomplete := (Ebnf.isGrammar_of_read hread).isComplete
  obtain ⟨table, engine, hlayout⟩ := Engine.layout_of_complete (α := Rat) hcomplete
    (by decide) (by decide) .none
  exact ⟨hread, rfl, table, engine, hlayout, leaves_follow_courses hread hlayout ["x"]⟩

end Railroad
