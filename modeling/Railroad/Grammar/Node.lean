/-!
Syntax trees of grammars.

Any node may stand in any place; which places make sense is for the passes over the tree to say.  A
node's `id` names it: two occurrences with one id are one shared node.
-/
namespace Railroad

/-- How a literal was written. -/
inductive LiteralKind where
  | quoted
  | special
  | title
deriving Repr, DecidableEq, Inhabited

namespace LiteralKind

def all : List LiteralKind :=
  [quoted, special, title]

/-- The word for a kind of literal. -/
def word : LiteralKind → String
  | quoted => "quoted"
  | special => "special"
  | title => "title"

def ofWord? (w : String) : Option LiteralKind :=
  all.find? (·.word = w)

end LiteralKind

/-- A node of a syntax tree.  `foreign` stands for a node of a type that no pass knows. -/
inductive Node where
  /-- The root: a title, the rules, and a closing comment. -/
  | grammar (id : Nat) (title productions comment : Option Node)
  | productionList (id : Nat) (productions : List Node)
  /-- One rule, `identifier = expression`. -/
  | production (id : Nat) (identifier expression : Option Node)
  | alternation (id : Nat) (alternatives : List Node)
  | sequence (id : Nat) (items : List Node)
  /-- Zero or more occurrences of the body. -/
  | repetition (id : Nat) (body : Option Node)
  /-- One or more occurrences of the body, with the separator between them. -/
  | oneOrMore (id : Nat) (body separator : Option Node)
  /-- At most one occurrence of the body. -/
  | optional (id : Nat) (body : Option Node)
  | literal (id : Nat) (text : String) (kind : LiteralKind)
  | identifier (id : Nat) (text : String)
  | other (id : Nat) (text : String)
  | foreign (id : Nat) (typeName : String)
deriving Inhabited

namespace Node

def id : Node → Nat
  | grammar id .. | productionList id .. | production id .. | alternation id .. | sequence id ..
  | repetition id .. | oneOrMore id .. | optional id .. | literal id .. | identifier id ..
  | other id .. | foreign id .. => id

/-- The name of a node's type, as messages write it. -/
def typeName : Node → String
  | grammar .. => "Grammar"
  | productionList .. => "ProductionList"
  | production .. => "Production"
  | alternation .. => "Alternation"
  | sequence .. => "Sequence"
  | repetition .. => "Repetition"
  | oneOrMore .. => "OneOrMore"
  | optional .. => "Optional"
  | literal .. => "Literal"
  | identifier .. => "Identifier"
  | other .. => "Other"
  | foreign _ name => name

/-- The children that are present, in the order in which they are laid out. -/
def children : Node → List Node
  | grammar _ title productions comment => title.toList ++ productions.toList ++ comment.toList
  | productionList _ productions => productions
  | production _ name expression => name.toList ++ expression.toList
  | alternation _ alternatives => alternatives
  | sequence _ items => items
  | repetition _ body => body.toList
  | oneOrMore _ body separator => body.toList ++ separator.toList
  | optional _ body => body.toList
  | literal .. | identifier .. | other .. | foreign .. => []

/-- The text of a leaf. -/
def text? : Node → Option String
  | literal _ text _ | identifier _ text | other _ text => some text
  | _ => none

def isLeaf (n : Node) : Bool :=
  n.text?.isSome

def isKnown : Node → Bool
  | foreign .. => false
  | _ => true

def isGrammar : Node → Bool
  | grammar .. => true
  | _ => false

def isAlternation : Node → Bool
  | alternation .. => true
  | _ => false

def isIdentifier : Node → Bool
  | identifier .. => true
  | _ => false

/-- The title of a grammar. -/
def title? : Node → Option Node
  | grammar _ title .. => title
  | _ => none

/-- The productions of a grammar. -/
def productions : Node → List Node
  | grammar _ _ (some (productionList _ productions)) _ => productions
  | _ => []

/-- The most letters a literal may have to be drawn in a compact fan. -/
def shortLength : Nat := 3

/-- Literals of at most `shortLength` letters. -/
def isShortLiteral : Node → Bool
  | literal _ text _ => text.length ≤ shortLength
  | _ => false

/-- Alternatives that are drawn as a compact fan: more than two, and all of them short literals. -/
def isFan (alternatives : List Node) : Bool :=
  2 < alternatives.length && alternatives.all isShortLiteral

mutual
/-- The number of nodes, counted once per occurrence. -/
def count : Node → Nat
  | grammar _ title productions comment =>
      1 + countOption title + countOption productions + countOption comment
  | productionList _ productions => 1 + countList productions
  | production _ name expression => 1 + countOption name + countOption expression
  | alternation _ alternatives => 1 + countList alternatives
  | sequence _ items => 1 + countList items
  | repetition _ body => 1 + countOption body
  | oneOrMore _ body separator => 1 + countOption body + countOption separator
  | optional _ body => 1 + countOption body
  | literal .. | identifier .. | other .. | foreign .. => 1

/-- The number of nodes in a list of trees. -/
def countList : List Node → Nat
  | [] => 0
  | n :: ns => count n + countList ns

/-- The number of nodes in a tree that may be missing. -/
def countOption : Option Node → Nat
  | none => 0
  | some n => count n
end

theorem countList_append (ms ns : List Node) :
    countList (ms ++ ns) = countList ms + countList ns := by
  induction ms with
  | nil => rw [List.nil_append, countList, Nat.zero_add]
  | cons m ms ih => rw [List.cons_append, countList, ih, countList, Nat.add_assoc]

theorem countOption_eq (o : Option Node) : countOption o = countList o.toList := by
  cases o <;> simp [countOption, countList]

/-- A node counts one more than its children together. -/
theorem count_eq (n : Node) : n.count = 1 + countList n.children := by
  cases n <;> simp [count, children, countList_append, countOption_eq, countList, Nat.add_assoc]

theorem countList_children_lt (n : Node) (stack : List Node) :
    countList (n.children ++ stack) < countList (n :: stack) := by
  rw [countList_append, countList, count_eq n]
  omega

/-- Adds the nodes of the trees on a stack to those seen before: takes a tree off the stack, notes its
root, puts its children on, and goes on. -/
def walkStack (seen : Array Node) (stack : List Node) : Array Node :=
  match stack with
  | [] => seen
  | n :: rest => walkStack (seen.push n) (n.children ++ rest)
termination_by countList stack
decreasing_by exact countList_children_lt n rest

/-- The node and everything below it: every node before its children, the children in order. -/
def walk (n : Node) : List Node :=
  (walkStack #[] [n]).toList

end Node

end Railroad
