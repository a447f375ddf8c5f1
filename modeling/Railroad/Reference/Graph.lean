import Railroad.Reference.Rules
import Railroad.Text.Quoted
import Std.Data.HashMap
import Std.Data.HashSet
/-!
The reference graph of a grammar: its names, and who mentions whom.
-/
namespace Railroad

/-- Where a name is first defined, counted from zero, and how often it is. -/
structure Definition where
  order : Nat
  count : Nat
deriving Repr, DecidableEq

/-- Names with their definitions, if they have any, and the names that each of them mentions. -/
structure ReferenceGraph where
  names : List (String × Option Definition)
  edges : List (String × String)
deriving Repr, DecidableEq

namespace ReferenceGraph

/-- The graph of some rules: the defined names first, then the others in the order in which they are
mentioned. -/
def ofRules (rules : List Rule) : ReferenceGraph :=
  let defined := definedNames rules
  let mentioned := rules.flatMap Rule.mentions
  let definition (name : String) : Definition :=
    ⟨rules.findIdx (·.name = name), rules.countP (·.name = name)⟩
  let names := defined.map (fun name => (name, some (definition name)))
    ++ (distinct (mentioned.filter (!defined.contains ·))).map (fun name => (name, none))
  let targets (name : String) : List String :=
    distinct ((rules.filter (·.name = name)).flatMap Rule.mentions)
  ⟨names, defined.flatMap fun name => (targets name).map fun target => (name, target)⟩

/-- Another definition of a name, which is its first one if the name is new. -/
def define (g : ReferenceGraph) : String × Nat → ReferenceGraph
  | (name, order) =>
      if name ∈ g.names.map (·.1) then
        { g with names := g.names.map fun (known, definition) =>
            (known, if known = name then definition.map fun d => { d with count := d.count + 1 }
              else definition) }
      else
        { g with names := g.names ++ [(name, some ⟨order, 1⟩)] }

/-- Another mention, which may bring a name that is new; it is an edge unless the edge is there. -/
def mention (g : ReferenceGraph) (edge : String × String) : ReferenceGraph :=
  ⟨if edge.2 ∈ g.names.map (·.1) then g.names else g.names ++ [(edge.2, none)],
    if edge ∈ g.edges then g.edges else g.edges ++ [edge]⟩

/-- The graph grown over the definitions of some rules, and then over their mentions. -/
def grown (rules : List Rule) : ReferenceGraph :=
  let known := (rules.map Rule.name).zipIdx.foldl define ⟨[], []⟩
  rules.foldl (fun g r => r.mentions.foldl (fun g target => g.mention (r.name, target)) g) known

/-- What is known of the definitions of a name. -/
def definition? (g : ReferenceGraph) (name : String) : Option Definition :=
  (g.names.lookup name).join

/-- The names that a name mentions. -/
def targets (g : ReferenceGraph) (name : String) : List String :=
  g.edges.filterMap fun (source, target) => if source = name then some target else none

/-- The names that each name mentions, to be looked up by name. -/
def targetTable (g : ReferenceGraph) : Std.HashMap String (List String) :=
  g.edges.foldr (fun (source, target) table =>
    table.insert source (target :: table.getD source [])) ∅

/-- Looking up a name is the same as going through the edges. -/
theorem targetTable_getD (g : ReferenceGraph) (name : String) :
    g.targetTable.getD name [] = g.targets name := by
  simp only [targetTable, targets]
  induction g.edges with
  | nil => simp
  | cons edge edges ih =>
      rw [List.foldr_cons, Std.HashMap.getD_insert, List.filterMap_cons]
      by_cases h : edge.1 = name
      · subst h
        simp [ih]
      · simp [h, ih]

theorem size_erase_lt {names : Std.HashSet String} {name : String} (h : name ∈ names) :
    (names.erase name).size < names.size := by
  have nonempty := Std.HashSet.isEmpty_eq_false_iff_exists_mem.mpr ⟨name, h⟩
  rw [Std.HashSet.isEmpty_eq_size_eq_zero, beq_eq_false_iff_ne] at nonempty
  rw [Std.HashSet.size_erase, if_pos h]
  omega

/-- The names that stay unreached: takes a name that waits, and if it has not been reached before,
strikes it off and lets the names that it mentions wait too. -/
def strikeOff (table : Std.HashMap String (List String)) (unreached : Std.HashSet String)
    (waiting : List String) : Std.HashSet String :=
  match waiting with
  | [] => unreached
  | name :: waiting =>
      if name ∈ unreached then
        strikeOff table (unreached.erase name) (table.getD name [] ++ waiting)
      else
        strikeOff table unreached waiting
termination_by (unreached.size, waiting.length)
decreasing_by
  · exact Prod.Lex.left _ _ (size_erase_lt ‹name ∈ unreached›)
  · exact Prod.Lex.right _ (by simp)

/-- All names of a graph. -/
def nameSet (g : ReferenceGraph) : Std.HashSet String :=
  .ofList (g.names.map (·.1))

/-- The names that a name leads to, the name itself left out. -/
def descendants (g : ReferenceGraph) (source : String) : Std.HashSet String :=
  let unreached := strikeOff g.targetTable g.nameSet [source]
  .ofList ((g.names.map (·.1)).filter fun name => name != source && !unreached.contains name)

end ReferenceGraph

/-- Names in the order of their letters. -/
def sortNames (names : List String) : List String :=
  names.mergeSort fun a b => !decide (b < a)

/-- Names with more than one definition, in the order of the first ones. -/
def duplicateNames (rules : List Rule) : List String :=
  let g := ReferenceGraph.grown rules
  (definedNames rules).filter fun name => (g.definition? name).any (1 < ·.count)

/-- Names that are mentioned and not defined, sorted. -/
def undefinedNames (rules : List Rule) : List String :=
  sortNames ((ReferenceGraph.grown rules).names.filterMap fun (name, definition) =>
    if definition.isSome then none else some name)

/-- A start that is no defined name. -/
structure UnknownStart where
  name : String
deriving Repr, DecidableEq

def UnknownStart.message (e : UnknownStart) : String :=
  "No production named " ++ Text.quoted e.name

/-- Defined names that cannot be reached from a start, which is the first of them unless another is
given.  What names a name leads to is asked of a search that leaves the name itself out. -/
def unreachableNamesBy (descendants : ReferenceGraph → String → Std.HashSet String)
    (rules : List Rule) (start : Option String) : Except UnknownStart (List String) :=
  match definedNames rules with
  | [] => .ok []
  | first :: rest =>
      let start := start.getD first
      if (first :: rest).contains start then
        let reachable := (descendants (ReferenceGraph.grown rules) start).insert start
        .ok ((first :: rest).filter (!reachable.contains ·))
      else
        .error ⟨start⟩

/-- Defined names that the search through the graph does not reach from a start. -/
def unreachableNames : List Rule → Option String → Except UnknownStart (List String) :=
  unreachableNamesBy ReferenceGraph.descendants

/-- Names that lead back to themselves, sorted. -/
def recursiveNames (rules : List Rule) : List String :=
  let g := ReferenceGraph.ofRules rules
  let table := g.targetTable
  let all := g.nameSet
  sortNames ((g.names.map (·.1)).filter fun name =>
    !(ReferenceGraph.strikeOff table all (table.getD name [])).contains name)

end Railroad
