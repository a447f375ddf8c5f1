import Railroad.Layout.BoxTable
import Railroad.Layout.Context
import Railroad.Layout.Placement
/-!
Laying out trees: the size pass as a program.  It has one context, which it changes, saves and restores as it
goes, counts how many nodes are open, and writes boxes into a table and looks them up there.

A node is entered with a flag from the node above and hands one back: whether the line past it is to be
routed over it by the node above.  What an unfinished run leaves behind stays with the engine: the context
at which it stopped and the nesting that it had reached.
-/
namespace Railroad

/-- The state of the size pass. -/
structure Engine (α : Type) where
  context : Context α
  table : BoxTable α
  /-- The number of nodes that are entered and not left. -/
  nesting : Nat

/-- A part of the size pass. -/
abbrev Sizing (α β : Type) : Type :=
  ExceptT LayoutFault (StateM (Engine α)) β

namespace Sizing

variable {α β : Type}

def context : Sizing α (Context α) :=
  return (← get).context

def depth : Sizing α Nat :=
  return (← get).nesting

/-- Changes the live state of the context. -/
def change (f : Context α → Context α) : Sizing α Unit :=
  modify fun e => { e with context := f e.context }

/-- Restores the state saved last. -/
def restore : Sizing α Unit := do
  match (← get).context.pop with
  | .ok context => modify fun e => { e with context }
  | .error fault => throw fault

/-- A part with the state of the context saved before and restored after it. -/
def saving (m : Sizing α β) : Sizing α β := do
  change .push
  let b ← m
  restore
  return b

/-- A part one level deeper. -/
def nested (m : Sizing α β) : Sizing α β := do
  modify fun e => { e with nesting := e.nesting + 1 }
  let b ← m
  modify fun e => { e with nesting := e.nesting - 1 }
  return b

/-- Looks up the box of a node. -/
def lookUp (n : Node) : Sizing α (Box α) := do
  match (← get).table.get n with
  | .ok box => return box
  | .error fault => throw fault

/-- Changes the box of a node that has one. -/
def put (n : Node) (box : Box α) : Sizing α Unit := do
  let _ ← lookUp n
  modify fun e => { e with table := e.table.write n box }

/-- Changes the boxes of some nodes; for one that is missing there is none to change. -/
def putAll : List (Option Node) → List (Box α) → Sizing α Unit
  | some n :: ns, box :: boxes => do
      put n box
      putAll ns boxes
  | none :: ns, _ :: boxes => putAll ns boxes
  | _, _ => return

variable [Scalar α]

/-- Writes the first box of a node. -/
def enter (n : Node) : Sizing α Unit := do
  match (← get).table.assign n Metrics.newBox with
  | .ok table => modify fun e => { e with table }
  | .error fault => throw fault

/-- A visit to a node with these parts: what is done inside sizes the parts, and tells where they are placed
and the flag that the node hands back. -/
def visiting (n : Node) (parts : List (Option Node)) (inside : Sizing α (Placement α × Bool)) :
    Sizing α Bool :=
  if !n.isKnown then throw (.unknownNode .layout n.typeName)
  else do
    let nesting ← depth
    if Metrics.maxDepth ≤ nesting then throw .tooDeep
    else nested <| saving do
      enter n
      let (place, handsBack) ← inside
      putAll parts place.parts
      put n place.box
      return handsBack

section Rules

-- What is done for a part comes to its box and the flag that it hands back.
variable (title productions comment name expression body separator : Bool → Sizing α (Box α × Bool))

def grammarRule : Sizing α (Placement α × Bool) := do
  change (·.toward .none)
  change .clearRails
  let (t, above) ← title false
  let (r, above) ← productions above
  let (k, above) ← comment above
  return (.heading t r k, above)

def productionListRule (productions : Bool → Sizing α (List (Box α) × Bool)) :
    Sizing α (Placement α × Bool) := do
  change (·.toward .none)
  change .clearRails
  let (boxes, above) ← productions false
  return (.rules boxes, above)

def productionRule : Sizing α (Placement α × Bool) := do
  change (·.toward .right)
  change .clearRails
  let (name, above) ← name false
  let (expression, above) ← expression above
  return (.production name expression, above)

def fanRule (above : Bool) (alternatives : Sizing α (List (Box α))) :
    Sizing α (Placement α × Bool) := do
  let boxes ← alternatives
  let c ← context
  return (.fan c.live.direction boxes, above)

def stackRule (above : Bool) (alternatives : Bool → Sizing α (List (Box α) × Bool)) :
    Sizing α (Placement α × Bool) := do
  let (boxes, _) ← saving do
    change (·.withRails true true)
    alternatives false
  let c ← context
  return (.stack above c.live.useLeft c.live.useRight boxes, above)

def sequenceRule (items : Bool → Sizing α (List (Box α) × Bool)) : Sizing α (Placement α × Bool) := do
  let c ← context
  let (boxes, above) ← items false
  return (.sequence (c.live.direction = .right) boxes, above)

def repetitionRule : Sizing α (Placement α × Bool) :=
  saving do
    change .clearRails
    change .reverse
    let (body, above) ← body true
    return (.repetition above body, false)

def loopRule : Sizing α (Placement α × Bool) :=
  saving do
    change .clearRails
    let (body, _) ← body false
    return (.loop body, false)

def separatedLoopRule : Sizing α (Placement α × Bool) :=
  saving do
    change .clearRails
    let (body, above) ← body false
    change .reverse
    let (separator, _) ← separator above
    return (.separatedLoop body separator, false)

def optionalRule : Sizing α (Placement α × Bool) := do
  let (body, above) ← saving do
    change .clearRails
    body true
  let c ← context
  return (.optional above c.live.useLeft c.live.useRight body, false)

def leafRule (text : String) : Sizing α (Placement α × Bool) := do
  let c ← context
  return (⟨Placement.leaf c.live.direction text.length, []⟩, false)

end Rules

mutual
/-- Sizes a tree with a flag from the node above, and hands a flag back. -/
def size (n : Node) (above : Bool) : Sizing α Bool :=
  match n with
  | .grammar _ title productions comment => visiting n [title, productions, comment] <|
      grammarRule (sizeOption title) (sizeRequired productions) (sizeOption comment)
  | .productionList _ productions => visiting n (productions.map some) <|
      productionListRule (sizeList productions)
  | .production _ name expression => visiting n [name, expression] <|
      productionRule (sizeRequired name) (sizeRequired expression)
  | .alternation _ [] => visiting n [] <| throw .noAlternatives
  | .alternation _ (a :: as) => visiting n ((a :: as).map some) <|
      if Node.isFan (a :: as) then fanRule above (sizeFan (a :: as))
      else stackRule above (sizeList (a :: as))
  | .sequence _ items => visiting n (items.map some) <| sequenceRule (sizeItems true items)
  | .repetition _ body => visiting n [body] <| repetitionRule (sizeRequired body)
  | .oneOrMore _ body none => visiting n [body] <| loopRule (sizeRequired body)
  | .oneOrMore _ body (some separator) => visiting n [body, some separator] <|
      separatedLoopRule (sizeRequired body) fun above => do
        let above ← size separator above
        return (← lookUp separator, above)
  | .optional _ body => visiting n [body] <| optionalRule (sizeRequired body)
  | .literal _ text _ | .identifier _ text | .other _ text => visiting n [] <| leafRule text
  | .foreign .. => visiting n [] <| return (⟨Metrics.newBox, []⟩, false)

/-- Sizes a part that has to be there, and looks up its box. -/
def sizeRequired (part : Option Node) (above : Bool) : Sizing α (Box α × Bool) :=
  match part with
  | none => throw .missingChild
  | some n => do
      let above ← size n above
      return (← lookUp n, above)

/-- Sizes a part that may be missing; then its box is empty. -/
def sizeOption (part : Option Node) (above : Bool) : Sizing α (Box α × Bool) :=
  match part with
  | none => return (Metrics.newBox, above)
  | some n => do
      let above ← size n above
      return (← lookUp n, above)

/-- Sizes trees one after another, each with the flag that the one before handed back. -/
def sizeList (parts : List Node) (above : Bool) : Sizing α (List (Box α) × Bool) :=
  match parts with
  | [] => return ([], above)
  | n :: ns => do
      let above ← size n above
      let box ← lookUp n
      let (boxes, above) ← sizeList ns above
      return (box :: boxes, above)

/-- Sizes the alternatives of a fan. -/
def sizeFan (parts : List Node) : Sizing α (List (Box α)) :=
  match parts with
  | [] => return []
  | n :: ns => do
      let box ← saving do
        change .clearRails
        change (·.toward .down)
        let _ ← size n false
        lookUp n
      return box :: (← sizeFan ns)

/-- Sizes the items of a sequence. -/
def sizeItems (first : Bool) (parts : List Node) (above : Bool) : Sizing α (List (Box α) × Bool) :=
  match parts with
  | [] => return ([], above)
  | n :: ns => do
      let (box, above) ← saving do
        change fun c => c.withRails (first && c.live.useLeft) (ns.isEmpty && c.live.useRight)
        let above ← size n above
        return (← lookUp n, above)
      let (boxes, above) ← sizeItems false ns above
      return (box :: boxes, above)
end

/-- Lays out a tree, which has to leave no state saved and a box for its root. -/
def lay (root : Node) : Sizing α (BoxTable α) := do
  let _ ← size root false
  let c ← context
  if c.depth ≠ 0 then throw (.unrestored c.depth)
  else
    let _ ← lookUp root
    return (← get).table

end Sizing

namespace Engine

variable {α : Type} [Scalar α]

/-- Nothing is laid out. -/
def new : Engine α :=
  ⟨.new .none, .new 0 0, 0⟩

/-- Runs the size pass over a tree in the engine's context. -/
def compute (e : Engine α) (n : Node) (above : Bool) : Except LayoutFault Bool × Engine α :=
  (Sizing.size n above).run.run e

/-- Lays out a tree from scratch, heading in a direction. -/
def layout (root : Node) (direction : Direction) : Except LayoutFault (BoxTable α) × Engine α :=
  (Sizing.lay root).run.run ⟨.new direction, .forTree root, 0⟩

end Engine

end Railroad
