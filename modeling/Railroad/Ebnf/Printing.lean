import Railroad.Ebnf.Written
/-!
Writing grammars where only so many calls may be open at once.  The text is made by functions that call one
another down the tree, and nothing but the room for their calls bounds how far down they get.
-/
namespace Railroad.Ebnf

/-- Why a tree is not written. -/
inductive PrintFault where
  /-- The tree has no EBNF text. -/
  | text (fault : WriteFault)
  /-- There is no room for another call. -/
  | recursion
deriving Repr, DecidableEq

def PrintFault.message : PrintFault → String
  | text fault => fault.message
  | recursion => "maximum recursion depth exceeded"

/-- Some calls, each made by the one before it, and what goes wrong in the room that they leave. -/
def opening (calls room : Nat) (fault? : Nat → Option PrintFault) : Option PrintFault :=
  if calls ≤ room then fault? (room - calls) else some .recursion

/-- A call that calls nothing. -/
def lastCall (room : Nat) : Option PrintFault :=
  opening 1 room fun _ => none

/-- What goes wrong when the text of a title or a comment is put between quotes. -/
def captionFault? (room : Nat) : Option Node → Option PrintFault
  | none => none
  | some n =>
      match n.text? with
      | some text => opening 1 room fun _ => (quoteFault? text).map .text
      | none => some (.text .misplaced)

/-- What goes wrong when a production is asked for its name. -/
def nameFault? (room : Nat) (name : Option Node) : Option PrintFault :=
  opening 1 room fun _ => (leafFault? (fun _ => none) name).map .text

mutual
/-- What goes wrong first when a node is written.  A call looks up what writes nodes of its type, and a second
one does so.  Alternatives and rules take two more, of a generator and of what joins the texts that it makes. -/
def nodeFault? (room : Nat) : Node → Option PrintFault
  | .grammar _ title productions comment =>
      opening 2 room fun room => blockFault? room title comment productions
  | .productionList _ productions => opening 4 room fun room => rulesFault? room productions
  | .production _ name expression =>
      opening 2 room fun room => (nameFault? room name).or (partFault? room expression)
  | .alternation _ parts => opening 4 room fun room => partsFault? room parts
  | .sequence _ parts => opening 2 room fun room => (partsFault? room parts).or (lastCall room)
  | .repetition _ body | .oneOrMore _ body none | .optional _ body =>
      opening 2 room fun room => partFault? room body
  | .oneOrMore _ body (some separator) =>
      opening 2 room fun room => (partFault? room body).or (nodeFault? room separator)
  | .literal _ _ .special | .identifier .. => opening 2 room fun _ => none
  | .literal _ text _ | .other _ text => opening 3 room fun _ => (quoteFault? text).map .text
  | .foreign _ typeName => opening 2 room fun _ => some (.text (.unknownNode typeName))

/-- What goes wrong with a grammar: each of its rules is a line of a block. -/
def blockFault? (room : Nat) (title comment : Option Node) : Option Node → Option PrintFault
  | some (.productionList _ productions) =>
      opening 1 room fun room => (captionFault? room title).or <| (lastCall room).or <|
        (rulesFault? room productions).or (captionFault? room comment)
  | _ =>
      opening 1 room fun room => (captionFault? room title).or <| (lastCall room).or <|
        some (.text .misplaced)

/-- What goes wrong with a node that has to be there. -/
def partFault? (room : Nat) : Option Node → Option PrintFault
  | none => opening 2 room fun _ => some (.text (.unknownNode "NoneType"))
  | some n => nodeFault? room n

/-- What goes wrong first with some nodes. -/
def partsFault? (room : Nat) : List Node → Option PrintFault
  | [] => none
  | n :: ns => (nodeFault? room n).or (partsFault? room ns)

/-- What goes wrong first with some rules, for each of which there is a call. -/
def rulesFault? (room : Nat) : List Node → Option PrintFault
  | [] => none
  | .production _ name expression :: ns =>
      (opening 1 room fun room => (nameFault? room name).or (partFault? room expression)).or
        (rulesFault? room ns)
  | _ :: _ => opening 1 room fun _ => some (.text .misplaced)
end

end Railroad.Ebnf
