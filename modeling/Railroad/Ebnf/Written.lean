import Railroad.Grammar.Node
import Railroad.Text.Quoted
/-!
Grammars written back as EBNF, in the spelling that a reader accepts.  Texts that no spelling can hold
are refused.
-/
namespace Railroad.Ebnf

/-- Why a tree has no EBNF text. -/
inductive WriteFault where
  /-- The text holds a line feed or both kinds of quotes. -/
  | unquotable (text : String)
  /-- There is no rule for nodes of this type; `NoneType` is the type of a missing node. -/
  | unknownNode (typeName : String)
  /-- A node stands where its type has no place. -/
  | misplaced
deriving Repr, DecidableEq

def WriteFault.message : WriteFault → String
  | unquotable text => "Cannot quote " ++ Text.quoted text ++ " as an EBNF string"
  | unknownNode typeName => "Unknown node type during printing: " ++ typeName
  | misplaced => ""

/-- A terminal between quotes; single quotes only around a text that holds double ones. -/
def quoteChars? (cs : List Char) : Option (List Char) :=
  if (cs.contains '"' && cs.contains '\'') || cs.contains '\n' then none
  else if cs.contains '"' then some ('\'' :: cs ++ ['\''])
  else some ('"' :: cs ++ ['"'])

/-- A text between quotes. -/
def quote (text : String) : Except WriteFault (List Char) :=
  match quoteChars? text.toList with
  | some cs => .ok cs
  | none => .error (.unquotable text)

/-- Why a text has no spelling between quotes. -/
def quoteFault? (text : String) : Option WriteFault :=
  match quote text with
  | .ok _ => none
  | .error fault => some fault

/-- Why a leaf that may be missing has no text of its own, by what is asked of that text. -/
def leafFault? (ask : String → Option WriteFault) : Option Node → Option WriteFault
  | none => none
  | some n =>
      match n.text? with
      | some text => ask text
      | none => some .misplaced

mutual
/-- Why a node has no EBNF text: the first fault in the order in which the text is written. -/
def writeFault? : Node → Option WriteFault
  | .grammar _ title (some (.productionList _ productions)) comment =>
      (leafFault? quoteFault? title).or <|
        (productionsFault? productions).or <| leafFault? quoteFault? comment
  | .grammar _ title _ _ => (leafFault? quoteFault? title).or (some .misplaced)
  | .productionList _ productions => productionsFault? productions
  | .production _ name expression =>
      (leafFault? (fun _ => none) name).or (requiredFault? expression)
  | .alternation _ parts | .sequence _ parts => listFault? parts
  | .repetition _ body | .oneOrMore _ body none | .optional _ body => requiredFault? body
  | .oneOrMore _ body (some separator) => (requiredFault? body).or (writeFault? separator)
  | .literal _ _ .special | .identifier .. => none
  | .literal _ text _ | .other _ text => quoteFault? text
  | .foreign _ typeName => some (.unknownNode typeName)

/-- The fault of a node that has to be there. -/
def requiredFault? : Option Node → Option WriteFault
  | none => some (.unknownNode "NoneType")
  | some n => writeFault? n

/-- The first fault of some nodes. -/
def listFault? : List Node → Option WriteFault
  | [] => none
  | n :: ns => (writeFault? n).or (listFault? ns)

/-- The first fault of some productions. -/
def productionsFault? : List Node → Option WriteFault
  | [] => none
  | .production _ name expression :: ns =>
      (leafFault? (fun _ => none) name).or <| (requiredFault? expression).or (productionsFault? ns)
  | _ :: _ => some .misplaced
end

/-- A text between quotes, and what follows it. -/
def quoteOnto (text : String) (rest : List Char) : List Char :=
  match quote text with
  | .ok cs => cs ++ rest
  | .error _ => rest

/-- The quoted text of a title or comment on a line of its own, and what follows it. -/
def lineOnto (leaf : Option Node) (rest : List Char) : List Char :=
  match leaf.bind Node.text? with
  | some text => quoteOnto text ('\n' :: rest)
  | none => rest

/-- The name of a production and the equals sign, and what follows them. -/
def nameOnto (name : Option Node) (rest : List Char) : List Char :=
  ((name.bind Node.text?).getD "").toList ++ ' ' :: '=' :: ' ' :: rest

/-- How some nodes are written one after the other. -/
inductive Listing where
  /-- With bars between them. -/
  | alternatives
  /-- With blanks between them, alternations between parentheses. -/
  | items
deriving Repr, DecidableEq

/-- What stands between two nodes. -/
def Listing.separator : Listing → List Char
  | alternatives => [' ', '|', ' ']
  | items => [' ']

/-- Whether a node is put between parentheses. -/
def Listing.groups (l : Listing) (n : Node) : Bool :=
  l = items && n.isAlternation

mutual
/-- The EBNF text of a node, and what follows it.  It is the node's text if the node has one. -/
def writeOnto (n : Node) (rest : List Char) : List Char :=
  match n with
  | .grammar _ title (some (.productionList _ productions)) comment =>
      lineOnto title ('\x7b' :: '\n' ::
        productionLinesOnto productions ('\x7d' :: '\n' :: lineOnto comment rest))
  | .grammar .. => rest
  | .productionList _ productions => productionsOnto true productions rest
  | .production _ name expression => nameOnto name (requiredOnto expression (' ' :: '.' :: rest))
  | .alternation _ alternatives => listOnto .alternatives true alternatives rest
  | .sequence _ items => listOnto .items true items rest
  | .repetition _ body => '\x7b' :: ' ' :: requiredOnto body (' ' :: '\x7d' :: rest)
  | .oneOrMore _ body none => '<' :: ' ' :: requiredOnto body (' ' :: '>' :: rest)
  | .oneOrMore _ body (some separator) =>
      '<' :: ' ' ::
        requiredOnto body (' ' :: '/' :: ' ' :: writeOnto separator (' ' :: '>' :: rest))
  | .optional _ body => '[' :: ' ' :: requiredOnto body (' ' :: ']' :: rest)
  | .literal _ text .special => '?' :: ' ' :: text.toList ++ ' ' :: '?' :: rest
  | .literal _ text _ | .other _ text => quoteOnto text rest
  | .identifier _ text => text.toList ++ rest
  | .foreign .. => rest

/-- The text of a node that has to be there, and what follows it. -/
def requiredOnto (n : Option Node) (rest : List Char) : List Char :=
  match n with
  | none => rest
  | some n => writeOnto n rest

/-- The texts of some nodes, and what follows them; `first` says that nothing is listed before them. -/
def listOnto (l : Listing) (first : Bool) (nodes : List Node) (rest : List Char) : List Char :=
  match nodes with
  | [] => rest
  | n :: ns =>
      let rest := listOnto l false ns rest
      let text :=
        if l.groups n then '(' :: ' ' :: writeOnto n (' ' :: ')' :: rest) else writeOnto n rest
      if first then text else l.separator ++ text

/-- The texts of some productions, one on each line, and what follows them. -/
def productionsOnto (first : Bool) (productions : List Node) (rest : List Char) : List Char :=
  match productions with
  | [] => rest
  | n :: ns =>
      let text := writeOnto n (productionsOnto false ns rest)
      if first then text else '\n' :: text

/-- The lines of some productions inside a grammar, and what follows them. -/
def productionLinesOnto (productions : List Node) (rest : List Char) : List Char :=
  match productions with
  | [] => rest
  | n :: ns =>
      ' ' :: ' ' :: ' ' :: ' ' :: writeOnto n ('\n' :: productionLinesOnto ns rest)
end

/-- The EBNF text of a tree, whatever room the calls take that write it. -/
def written (n : Node) : Except WriteFault String :=
  match writeFault? n with
  | some fault => .error fault
  | none => .ok (String.ofList (writeOnto n []))

end Railroad.Ebnf
