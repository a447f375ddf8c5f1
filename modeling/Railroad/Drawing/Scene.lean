import Railroad.Drawing.Strokes
import Railroad.Layout.BoxTable
/-!
The render pass: walks a tree that has been laid out and says, event by event, what is drawn and which
nodes are entered and left.

The scene of a tree goes on past a fault; a drawing stops at the first one.
-/
namespace Railroad

/-- The side of a rail. -/
inductive Side where
  | left
  | right
deriving Repr, DecidableEq

/-- The word for a side. -/
def Side.word : Side → String
  | left => "left"
  | right => "right"

/-- A rail that an alternation opens, in the frame of that alternation. -/
structure RailSpan (α : Type) where
  opener : Node
  side : Side
  x : α
  top : α
  bottom : α

/-- What happens while a tree is drawn. -/
inductive Event (α : Type) where
  | call (c : Call α)
  /-- A node is entered in a context, with a flag from the node above. -/
  | enter (node : Node) (context : Context α) (above : Bool)
  /-- A node is left and hands a flag back. -/
  | leave (node : Node) (handsBack : Bool)
  | rail (span : RailSpan α)
  /-- Something is wrong, found in a context and at a nesting depth. -/
  | fault (f : LayoutFault) (context : Context α) (nesting : Nat)

/-- What a scene is drawn from: the boxes of the tree, and the names that identifiers link to. -/
structure Backdrop (α : Type) where
  table : BoxTable α
  links : List String

variable {α : Type} [Scalar α]

/-- The box of a part. -/
def Backdrop.box (d : Backdrop α) (n : Node) : Box α :=
  (d.table.box? n).getD Metrics.newBox

/-- The box of a part that may be missing. -/
def Backdrop.boxOption (d : Backdrop α) (n : Option Node) : Box α :=
  (n.map d.box).getD Metrics.newBox

/-- The context between the rails of an alternation.  A rail of an enclosing one stays in use; where
there is none, one is opened. -/
def openRails (c : Context α) (opener : Node) (first last : Box α) (alternatives : List (Box α)) :
    Context α × List (RailSpan α) :=
  let top := first.lAnchor.y + Metrics.radius
  let bottom := last.rAnchor.y - Metrics.radius
  let s := c.live
  let (s, left) := if s.useLeft then (s, []) else
    ({ s with useLeft := true, left := Metrics.radius, top, bottom },
      [⟨opener, .left, Metrics.radius, top, bottom⟩])
  let (s, right) := if s.useRight then (s, []) else
    let x := (alternatives.map (·.rAnchor.x + Metrics.radius)).foldl Scalar.max
      (first.rAnchor.x + Metrics.radius)
    ({ s with useRight := true, right := x, top, bottom }, [⟨opener, .right, x, top, bottom⟩])
  (c.withLive s, left ++ right)

omit [Scalar α] in
/-- The context in which the render pass enters an item of a sequence: only the ends see the rails. -/
def itemContext (c : Context α) (first last : Bool) : Context α :=
  c.push.withRails (c.live.useLeft && first) (c.live.useRight && last)

mutual
/-- The scene of a tree that is entered in a context, at a nesting depth, with a flag from the node
above; and the flag that the tree hands back. -/
def scene (d : Backdrop α) (n : Node) (outer : Context α) (nesting : Nat) (above : Bool) :
    List (Event α) × Bool :=
  if !n.isKnown then ([.fault (.unknownNode .render n.typeName) outer nesting], false)
  else if Metrics.maxDepth ≤ nesting then ([.fault .tooDeep outer nesting], false)
  else
    match d.table.box? n with
    | none => ([.fault (.noBox n.typeName) outer.push (nesting + 1)], false)
    | some box =>
      let c := outer.push
      let inside (inner : List (Event α)) : List (Event α) := Strokes.within box.tl .call inner
      let (events, handsBack) : List (Event α) × Bool :=
        match n with
        | .grammar _ title productions comment =>
            let c := (c.toward .none).push
            let (heading, above) := sceneOption d title c (nesting + 1) false
            let (rules, above) := sceneOption d productions c (nesting + 1) above
            let (closing, above) := sceneOption d comment c (nesting + 1) above
            (inside (heading ++ rules ++ closing), above)
        | .productionList _ productions =>
            let (events, above) := sceneList d productions (c.toward .none).push (nesting + 1) false
            (inside events, above)
        | .production _ name expression =>
            let c := c.push
            let (heading, flag) := sceneRequired d name c (nesting + 1) false
            let (body, flag) := sceneRequired d expression (c.toward .right) (nesting + 1) flag
            let own := Strokes.production (d.boxOption name) (d.boxOption expression)
            (inside (heading ++ body ++ own.map .call), flag)
        | .alternation _ [] => ([.fault .noAlternatives c (nesting + 1)], above)
        | .alternation _ (a :: as) =>
            let c := c.translateRails box.tl
            let boxes := (a :: as).map d.box
            let first := d.box a
            let last := boxes.getLast?.getD first
            if Node.isFan (a :: as) then
              let events := sceneFan d (a :: as) (c.push.toward .down).clearRails (nesting + 1)
              let own := Strokes.fan c.live.direction above box first last boxes
              (inside (events ++ own.map .call), above)
            else
              let (railed, rails) := openRails c.push n first last boxes
              let (events, _) := sceneList d (a :: as) railed.push (nesting + 1) false
              let own := Strokes.stack c.live above box first last boxes
              (inside (rails.map .rail ++ events ++ own.map .call), above)
        | .sequence _ items =>
            let (events, flag) :=
              sceneItems d true items (c.push.translateRails box.tl) (nesting + 1) false
            (inside events, flag)
        | .repetition _ body =>
            let (events, flag) := sceneRequired d body c.push.clearRails.reverse (nesting + 1) true
            let own := Strokes.repetition c.live.direction flag box (d.boxOption body)
            (inside events ++ own.map .call, false)
        | .oneOrMore _ body none =>
            let inner := (c.push.translateRails box.tl).clearRails
            let (events, _) := sceneRequired d body inner (nesting + 1) false
            let own := Strokes.loop c.live.direction box (d.boxOption body)
            (inside (events ++ own.map .call), false)
        | .oneOrMore _ body (some separator) =>
            let inner := (c.push.translateRails box.tl).clearRails
            let (events, flag) := sceneRequired d body inner (nesting + 1) false
            let (more, _) := scene d separator inner.reverse (nesting + 1) flag
            let own := Strokes.separatedLoop box (d.boxOption body) (d.box separator)
            (inside (events ++ more ++ own.map .call), false)
        | .optional _ body =>
            let inner := (c.push.translateRails box.tl).clearRails
            let (events, flag) := sceneRequired d body inner (nesting + 1) true
            let own := Strokes.optional c.live flag box (d.boxOption body)
            (inside events ++ own.map .call, false)
        | .literal _ text _ =>
            ((Strokes.leaf c.live.direction false false (.ofLeaf n) box text).map .call, false)
        | .identifier _ text =>
            let linked := d.links.contains text
            ((Strokes.leaf c.live.direction linked false (.ofLeaf n) box text).map .call, false)
        | .other _ text =>
            ((Strokes.leaf c.live.direction false true (.ofLeaf n) box text).map .call, false)
        | .foreign .. => ([], false)
      (.enter n outer above :: events ++ [.leave n handsBack], handsBack)

/-- The scenes of some trees in one context, each with the flag that the one before handed back. -/
def sceneList (d : Backdrop α) (parts : List Node) (c : Context α) (nesting : Nat) (above : Bool) :
    List (Event α) × Bool :=
  match parts with
  | [] => ([], above)
  | n :: ns =>
      let (events, flag) := scene d n c nesting above
      let (more, flag) := sceneList d ns c nesting flag
      (events ++ more, flag)

/-- The scenes of the alternatives of a fan, each on its own. -/
def sceneFan (d : Backdrop α) (parts : List Node) (c : Context α) (nesting : Nat) :
    List (Event α) :=
  match parts with
  | [] => []
  | n :: ns => (scene d n c nesting false).1 ++ sceneFan d ns c nesting

/-- The scenes of the items of a sequence. -/
def sceneItems (d : Backdrop α) (first : Bool) (parts : List Node) (c : Context α) (nesting : Nat)
    (above : Bool) : List (Event α) × Bool :=
  match parts with
  | [] => ([], above)
  | n :: ns =>
      let (events, flag) := scene d n (itemContext c first ns.isEmpty) nesting above
      let (more, flag) := sceneItems d false ns c nesting flag
      (events ++ more, flag)

/-- The scene of a part that may be missing. -/
def sceneOption (d : Backdrop α) (part : Option Node) (c : Context α) (nesting : Nat) (above : Bool) :
    List (Event α) × Bool :=
  match part with
  | none => ([], above)
  | some n => scene d n c nesting above

/-- The scene of a part that has to be there. -/
def sceneRequired (d : Backdrop α) (part : Option Node) (c : Context α) (nesting : Nat)
    (above : Bool) : List (Event α) × Bool :=
  match part with
  | none => ([.fault (.unknownNode .render "NoneType") c nesting], above)
  | some n => scene d n c nesting above
end

end Railroad
