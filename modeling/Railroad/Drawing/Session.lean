import Railroad.Drawing.Scene
/-!
Drawings in progress: what has been drawn so far, and the context that an unfinished tree left behind.
-/
namespace Railroad

/-- The events before the first fault, and that fault with the context and nesting at which it was
found. -/
def untilFault {α : Type} :
    List (Event α) → List (Event α) × Option (LayoutFault × Context α × Nat)
  | [] => ([], none)
  | .fault f context nesting :: _ => ([], some (f, context, nesting))
  | e :: es =>
      let (before, fault) := untilFault es
      (e :: before, fault)

/-- The calls among some events. -/
def callsOf {α : Type} (events : List (Event α)) : List (Call α) :=
  events.filterMap fun
    | .call c => some c
    | _ => none

/-- The rails opened among some events. -/
def railsOf {α : Type} (events : List (Event α)) : List (RailSpan α) :=
  events.filterMap fun
    | .rail r => some r
    | _ => none

/-- A drawing of the trees of one table. -/
structure DrawingSession (α : Type) where
  backdrop : Backdrop α
  context : Context α
  /-- The number of nodes that are entered and not left. -/
  nesting : Nat
  events : Array (Event α)

namespace DrawingSession

variable {α : Type} [Scalar α]

def start (table : BoxTable α) (links : List String) (direction : Direction) : DrawingSession α :=
  ⟨⟨table, links⟩, .new direction, 0, #[]⟩

/-- Draws a tree and hands its flag back.  Context and nesting are then as before; if something is wrong
they are those at which it was found. -/
def draw (s : DrawingSession α) (n : Node) (above : Bool) :
    Except LayoutFault Bool × DrawingSession α :=
  let (events, handsBack) := scene s.backdrop n s.context s.nesting above
  match untilFault events with
  | (events, none) => (.ok handsBack, { s with events := s.events ++ events })
  | (events, some (fault, context, nesting)) =>
      (.error fault, { s with context, nesting, events := s.events ++ events })

omit [Scalar α] in
/-- The calls so far. -/
def calls (s : DrawingSession α) : List (Call α) :=
  callsOf s.events.toList

omit [Scalar α] in
/-- The rails opened so far. -/
def rails (s : DrawingSession α) : List (RailSpan α) :=
  railsOf s.events.toList

end DrawingSession

end Railroad
