import Railroad.Grammar.Node
/-!
The rules of a grammar, by name, and the names that their expressions mention.
-/
namespace Railroad

/-- A rule: its name and its expression, if it has one. -/
structure Rule where
  name : String
  expression : Option Node

/-- A node stands where its type has no place. -/
structure Misplaced where
deriving Repr, DecidableEq

/-- The text of a name; a missing name is empty. -/
def nameText : Option Node → Except Misplaced String
  | none => .ok ""
  | some n =>
      match n.text? with
      | some text => .ok text
      | none => .error ⟨⟩

/-- The rule that a production stands for. -/
def Node.rule : Node → Except Misplaced Rule
  | .production _ name expression => return ⟨← nameText name, expression⟩
  | _ => .error ⟨⟩

/-- The rules of a grammar, in order. -/
def Node.rules : Node → Except Misplaced (List Rule)
  | .grammar _ _ (some (.productionList _ productions)) _ => productions.mapM Node.rule
  | _ => .error ⟨⟩

/-- The name that an identifier mentions. -/
def Node.mention? : Node → Option String
  | .identifier _ text => some text
  | _ => none

/-- The names that a rule mentions, in order and as often as it does. -/
def Rule.mentions (r : Rule) : List String :=
  match r.expression with
  | some e => e.walk.filterMap Node.mention?
  | none => []

/-- The names that are not seen yet, each once, in the order in which they are first met. -/
def distinctFrom (seen : List String) : List String → List String
  | [] => []
  | name :: names =>
      if name ∈ seen then distinctFrom seen names
      else name :: distinctFrom (name :: seen) names

/-- A list without repetitions; of equal members the first one stays. -/
def distinct (names : List String) : List String :=
  distinctFrom [] names

/-- The names of some rules, in the order of their first definitions. -/
def definedNames (rules : List Rule) : List String :=
  distinct (rules.map Rule.name)

/-- The names of a grammar's rules; a tree that is not made of rules has none. -/
def Node.ruleNames (root : Node) : List String :=
  match root.rules with
  | .ok rules => definedNames rules
  | .error _ => []

theorem mem_distinctFrom {name : String} {seen names : List String} :
    name ∈ distinctFrom seen names ↔ name ∈ names ∧ name ∉ seen := by
  induction names generalizing seen with
  | nil => simp [distinctFrom]
  | cons first names ih =>
      by_cases h : first ∈ seen
      · simp only [distinctFrom, h, if_true, ih, List.mem_cons]
        grind
      · simp only [distinctFrom, h, if_false, List.mem_cons, ih]
        grind

theorem mem_distinct {name : String} {names : List String} :
    name ∈ distinct names ↔ name ∈ names := by
  simp [distinct, mem_distinctFrom]

end Railroad
