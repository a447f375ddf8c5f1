import Railroad.Proofs.Grammar.Preorder
import Railroad.Proofs.Grammar.Shape
/-!
Trees in which nothing is missing that a pass asks for.
-/
namespace Railroad.Node

mutual
/-- Whether every node is of a known type and has the parts that it needs. -/
def isComplete : Node → Bool
  | grammar _ title productions comment =>
      isCompleteOption title && isCompleteRequired productions && isCompleteOption comment
  | productionList _ productions => isCompleteList productions
  | production _ name expression => isCompleteRequired name && isCompleteRequired expression
  | alternation _ alternatives => !alternatives.isEmpty && isCompleteList alternatives
  | sequence _ items => isCompleteList items
  | repetition _ body => isCompleteRequired body
  | oneOrMore _ body separator => isCompleteRequired body && isCompleteOption separator
  | optional _ body => isCompleteRequired body
  | literal .. | identifier .. | other .. => true
  | foreign .. => false

def isCompleteList : List Node → Bool
  | [] => true
  | n :: ns => isComplete n && isCompleteList ns

/-- Nothing is wrong with a part that may be missing. -/
def isCompleteOption : Option Node → Bool
  | none => true
  | some n => isComplete n

def isCompleteRequired : Option Node → Bool
  | none => false
  | some n => isComplete n
end

theorem isCompleteList_iff {ns : List Node} :
    isCompleteList ns = true ↔ ∀ n ∈ ns, n.isComplete = true := by
  induction ns with
  | nil => simp [isCompleteList]
  | cons n ns ih => simp [isCompleteList, ih]

/-- Whether a node has the parts that it needs, whatever they are. -/
def hasParts : Node → Bool
  | grammar _ _ productions _ => productions.isSome
  | production _ name expression => name.isSome && expression.isSome
  | alternation _ alternatives => !alternatives.isEmpty
  | repetition _ body | oneOrMore _ body _ | optional _ body => body.isSome
  | productionList .. | sequence .. | literal .. | identifier .. | other .. | foreign .. => true

theorem isComplete_iff_children (n : Node) :
    n.isComplete = true ↔
      (n.isKnown = true ∧ n.hasParts = true) ∧ ∀ m ∈ n.children, m.isComplete = true := by
  cases n with
  | grammar _ title productions comment =>
      cases title <;> cases productions <;> cases comment <;>
        simp [isComplete, isCompleteOption, isCompleteRequired, isKnown, hasParts, children, and_assoc]
  | production _ name expression =>
      cases name <;> cases expression <;>
        simp [isComplete, isCompleteRequired, isKnown, hasParts, children]
  | oneOrMore _ body separator =>
      cases body <;> cases separator <;>
        simp [isComplete, isCompleteOption, isCompleteRequired, isKnown, hasParts, children]
  | repetition _ body | optional _ body =>
      cases body <;> simp [isComplete, isCompleteRequired, isKnown, hasParts, children]
  | productionList | alternation | sequence =>
      simp [isComplete, isCompleteList_iff, isKnown, hasParts, children]
  | literal | identifier | other | foreign => simp [isComplete, isKnown, hasParts, children]

/-- Completeness is a matter of each node by itself. -/
theorem isComplete_iff_preorder (n : Node) :
    n.isComplete = true ↔ ∀ m ∈ n.preorder, m.isKnown = true ∧ m.hasParts = true := by
  induction n using descend with
  | _ n ih =>
      rw [isComplete_iff_children, preorder_eq, List.forall_mem_cons]
      refine and_congr_right fun _ => ?_
      simp only [preorderList_eq_flatMap, List.mem_flatMap, forall_exists_index, and_imp]
      constructor
      · intro h m l hl hm
        exact (ih l hl).mp (h l hl) m hm
      · intro h l hl
        exact (ih l hl).mpr fun m hm => h m l hl hm

theorem IsExpression.isComplete {n : Node} (h : n.IsExpression) : n.isComplete = true := by
  induction h with
  | literal | identifier => rw [Node.isComplete]
  | alternation _ hmany _ ih =>
      rw [Node.isComplete, Bool.and_eq_true, isCompleteList_iff]
      refine ⟨?_, ih⟩
      rw [Bool.not_eq_true', List.isEmpty_eq_false_iff]
      rintro rfl
      simp at hmany
  | sequence _ _ _ ih => rwa [Node.isComplete, isCompleteList_iff]
  | repetition _ _ ih | optional _ _ ih => rwa [Node.isComplete, isCompleteRequired]
  | loop _ _ ih => simpa [Node.isComplete, isCompleteRequired, isCompleteOption] using ih
  | separatedLoop _ _ _ ih ih' =>
      simpa [Node.isComplete, isCompleteRequired, isCompleteOption] using ⟨ih, ih'⟩

theorem IsProduction.isComplete {n : Node} (h : n.IsProduction) : n.isComplete = true := by
  cases h with
  | intro _ _ _ hexpression =>
      simp [Node.isComplete, isCompleteRequired, hexpression.isComplete]

theorem IsGrammar.isComplete {n : Node} (h : n.IsGrammar) : n.isComplete = true := by
  cases h with
  | @intro _ _ title comment _ htitle hproductions hcomment =>
      rw [Node.isComplete, isCompleteRequired, Node.isComplete, Bool.and_eq_true, Bool.and_eq_true,
        isCompleteList_iff]
      refine ⟨⟨?_, fun n hn => (hproductions n hn).isComplete⟩, ?_⟩
      · cases title with
        | none => rfl
        | some n =>
            obtain ⟨i, text, rfl⟩ := htitle n rfl
            rw [isCompleteOption, Node.isComplete]
      · cases comment with
        | none => rfl
        | some n =>
            obtain ⟨i, text, rfl⟩ := hcomment n rfl
            rw [isCompleteOption, Node.isComplete]

end Railroad.Node
