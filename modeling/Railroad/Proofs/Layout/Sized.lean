import Railroad.Layout.Context
import Railroad.Layout.Placement
/-!
The measures of a tree, by which the size pass is told without a state: every node with the context that it
is entered in and its box in the frame of the node above it.

A node passes on to its parts the context that it sets up for them.  Besides its box it hands a flag
back: whether the line past it is to be routed over it by the node above.
-/
namespace Railroad

/-- A measured tree.  A gap stands where a node lacks something that it needs, and for a node that may not
be entered. -/
inductive Sized (α : Type) where
  /-- A node, the context and the flag that it is entered with, the flag that it hands back, its box, and
  its parts. -/
  | part (node : Node) (context : Context α) (above handsBack : Bool) (box : Box α)
      (parts : List (Sized α))
  | gap (fault : LayoutFault) (context : Context α)

namespace Sized

variable {α : Type} [Scalar α]

/-- The box of a measured tree. -/
def box : Sized α → Box α
  | part _ _ _ _ box _ => box
  | gap .. => Metrics.newBox

omit [Scalar α] in
/-- The flag that a measured tree hands back. -/
def handsBack : Sized α → Bool
  | part _ _ _ handsBack _ _ => handsBack
  | gap .. => false

omit [Scalar α] in
/-- The measured tree at another place. -/
def withBox (box : Box α) : Sized α → Sized α
  | part node context above handsBack _ parts => part node context above handsBack box parts
  | gap fault context => gap fault context

omit [Scalar α] in
/-- Measured trees at the places given for them. -/
def placed (parts : List (Sized α)) (boxes : List (Box α)) : List (Sized α) :=
  List.zipWith (fun s b => s.withBox b) parts boxes

omit [Scalar α] in
/-- The flag after some parts: what the last of them hands back, or the flag before them. -/
def after (above : Bool) (parts : List (Sized α)) : Bool :=
  (parts.getLast?.map handsBack).getD above

end Sized

/-- The ways in which a list of parts is entered. -/
inductive Row where
  /-- One below the other, in the context of the list. -/
  | rules
  /-- One after the other: only the ends of a sequence see the rails. -/
  | sequence
  /-- Between two rails. -/
  | stack
  /-- Side by side and downwards, each on its own. -/
  | fan
deriving Repr, DecidableEq

variable {α : Type}

/-- The context of a part of a list; `first` and `last` say whether it stands at an end. -/
def Row.context (row : Row) (c : Context α) (first last : Bool) : Context α :=
  match row with
  | rules => c
  | sequence => c.push.withRails (first && c.live.useLeft) (last && c.live.useRight)
  | stack => c.push.withRails true true
  | fan => c.push.clearRails.toward .down

/-- Whether the flag that a part hands back is passed on to the next one. -/
def Row.threads : Row → Bool
  | fan => false
  | _ => true

section Measure

variable [Scalar α]

mutual
/-- Measures a tree that is entered in a context, at a nesting depth, with a flag from the node above.  A
node of an unknown type and a node that lies too deep are not looked into. -/
def measure (n : Node) (outer : Context α) (nesting : Nat) (above : Bool) : Sized α :=
  if !n.isKnown then .gap (.unknownNode .layout n.typeName) outer
  else if Metrics.maxDepth ≤ nesting then .gap .tooDeep outer
  else
    let c := outer.push
    match n with
    | .grammar _ title productions comment =>
        let c := (c.toward .none).clearRails
        let heading := measureOption title c (nesting + 1) false
        let rules := measureRequired productions c (nesting + 1) (Sized.after false heading)
        let closing := measureOption comment c (nesting + 1) rules.handsBack
        let boxOf (s : List (Sized α)) := (s.head?.map Sized.box).getD Metrics.newBox
        let place := Placement.heading (boxOf heading) rules.box (boxOf closing)
        let parts := match place.parts with
          | [t, r, k] => heading.map (·.withBox t) ++ rules.withBox r :: closing.map (·.withBox k)
          | _ => []
        .part n outer above (Sized.after rules.handsBack closing) place.box parts
    | .productionList _ productions =>
        let c := (c.toward .none).clearRails
        let parts := measureList .rules true productions c (nesting + 1) false
        let place := Placement.rules (parts.map Sized.box)
        .part n outer above (Sized.after false parts) place.box (Sized.placed parts place.parts)
    | .production _ name expression =>
        let c := (c.toward .right).clearRails
        let name := measureRequired name c (nesting + 1) false
        let expression := measureRequired expression c (nesting + 1) name.handsBack
        let place := Placement.production name.box expression.box
        .part n outer above expression.handsBack place.box
          (Sized.placed [name, expression] place.parts)
    | .alternation _ [] => .part n outer above above Metrics.newBox [.gap .noAlternatives c]
    | .alternation _ alternatives =>
        if Node.isFan alternatives then
          let parts := measureList .fan true alternatives c (nesting + 1) false
          let place := Placement.fan c.live.direction (parts.map Sized.box)
          .part n outer above above place.box (Sized.placed parts place.parts)
        else
          let parts := measureList .stack true alternatives c (nesting + 1) false
          let place := Placement.stack above c.live.useLeft c.live.useRight (parts.map Sized.box)
          .part n outer above above place.box (Sized.placed parts place.parts)
    | .sequence _ items =>
        let parts := measureList .sequence true items c (nesting + 1) false
        let place := Placement.sequence (c.live.direction = .right) (parts.map Sized.box)
        .part n outer above (Sized.after false parts) place.box (Sized.placed parts place.parts)
    | .repetition _ body =>
        let body := measureRequired body c.push.clearRails.reverse (nesting + 1) true
        let place := Placement.repetition body.handsBack body.box
        .part n outer above false place.box (Sized.placed [body] place.parts)
    | .oneOrMore _ body none =>
        let body := measureRequired body c.push.clearRails (nesting + 1) false
        let place := Placement.loop body.box
        .part n outer above false place.box (Sized.placed [body] place.parts)
    | .oneOrMore _ body (some separator) =>
        let c := c.push.clearRails
        let body := measureRequired body c (nesting + 1) false
        let separator := measure separator c.reverse (nesting + 1) body.handsBack
        let place := Placement.separatedLoop body.box separator.box
        .part n outer above false place.box (Sized.placed [body, separator] place.parts)
    | .optional _ body =>
        let body := measureRequired body c.push.clearRails (nesting + 1) true
        let place := Placement.optional body.handsBack c.live.useLeft c.live.useRight body.box
        .part n outer above false place.box (Sized.placed [body] place.parts)
    | .literal _ text _ | .identifier _ text | .other _ text =>
        .part n outer above false (Placement.leaf c.live.direction text.length) []
    | .foreign .. => .part n outer above false Metrics.newBox []

/-- Measures the parts of a list one after the other. -/
def measureList (row : Row) (first : Bool) (parts : List Node) (c : Context α) (nesting : Nat)
    (above : Bool) : List (Sized α) :=
  match parts with
  | [] => []
  | n :: ns =>
      let s := measure n (row.context c first ns.isEmpty) nesting above
      s :: measureList row false ns c nesting (row.threads && s.handsBack)

/-- Measures a part that may be missing. -/
def measureOption (part : Option Node) (c : Context α) (nesting : Nat) (above : Bool) :
    List (Sized α) :=
  match part with
  | none => []
  | some n => [measure n c nesting above]

/-- Measures a part that has to be there. -/
def measureRequired (part : Option Node) (c : Context α) (nesting : Nat) (above : Bool) : Sized α :=
  match part with
  | none => .gap .missingChild c
  | some n => measure n c nesting above
end

end Measure

/-- One step of the size pass: a node is entered at some nesting depth, or something turns out to be
wrong. -/
inductive Step (α : Type) where
  | enter (node : Node) (context : Context α) (above handsBack : Bool) (nesting : Nat) (box : Box α)
  | gap (fault : LayoutFault) (context : Context α) (nesting : Nat)

mutual
/-- The steps of the size pass over a measured tree, in order. -/
def Sized.steps (nesting : Nat) : Sized α → List (Step α)
  | .part node context above handsBack box parts =>
      .enter node context above handsBack nesting box :: stepsList (nesting + 1) parts
  | .gap fault context => [.gap fault context nesting]

/-- The steps over a list of measured trees. -/
def Sized.stepsList (nesting : Nat) : List (Sized α) → List (Step α)
  | [] => []
  | s :: ss => steps nesting s ++ stepsList nesting ss
end

end Railroad
