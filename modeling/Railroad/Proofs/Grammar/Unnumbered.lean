import Railroad.Grammar.Node
/-!
Trees without their numbers: two trees have the same structure if they agree once every id is zero.
-/
namespace Railroad.Node

mutual
/-- The tree with all ids zero. -/
def unnumbered : Node → Node
  | grammar _ title productions comment =>
      grammar 0 (unnumberedOption title) (unnumberedOption productions) (unnumberedOption comment)
  | productionList _ productions => productionList 0 (unnumberedList productions)
  | production _ name expression =>
      production 0 (unnumberedOption name) (unnumberedOption expression)
  | alternation _ alternatives => alternation 0 (unnumberedList alternatives)
  | sequence _ items => sequence 0 (unnumberedList items)
  | repetition _ body => repetition 0 (unnumberedOption body)
  | oneOrMore _ body separator => oneOrMore 0 (unnumberedOption body) (unnumberedOption separator)
  | optional _ body => optional 0 (unnumberedOption body)
  | literal _ text kind => literal 0 text kind
  | identifier _ text => identifier 0 text
  | other _ text => other 0 text
  | foreign _ name => foreign 0 name

def unnumberedList : List Node → List Node
  | [] => []
  | n :: ns => unnumbered n :: unnumberedList ns

def unnumberedOption : Option Node → Option Node
  | none => none
  | some n => some (unnumbered n)
end

@[simp] theorem unnumberedList_eq_map (ns : List Node) : unnumberedList ns = ns.map unnumbered := by
  induction ns with
  | nil => rfl
  | cons n ns ih => rw [unnumberedList, ih, List.map_cons]

@[simp] theorem unnumberedOption_eq_map (o : Option Node) :
    unnumberedOption o = o.map unnumbered := by
  cases o <;> rfl

end Railroad.Node
