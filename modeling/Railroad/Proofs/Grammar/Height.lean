import Railroad.Grammar.Node
/-!
Heights of trees.
-/
namespace Railroad.Node

mutual
/-- The number of nodes on the longest way down a tree. -/
def height : Node → Nat
  | grammar _ title productions comment =>
      1 + max (heightOption title) (max (heightOption productions) (heightOption comment))
  | productionList _ productions => 1 + heightList productions
  | production _ name expression => 1 + max (heightOption name) (heightOption expression)
  | alternation _ alternatives => 1 + heightList alternatives
  | sequence _ items => 1 + heightList items
  | repetition _ body => 1 + heightOption body
  | oneOrMore _ body separator => 1 + max (heightOption body) (heightOption separator)
  | optional _ body => 1 + heightOption body
  | literal .. | identifier .. | other .. | foreign .. => 1

/-- The height of the highest of some trees. -/
def heightList : List Node → Nat
  | [] => 0
  | n :: ns => max (height n) (heightList ns)

/-- The height of a tree that may be missing. -/
def heightOption : Option Node → Nat
  | none => 0
  | some n => height n
end

@[simp] theorem heightList_nil : heightList [] = 0 := rfl

@[simp] theorem heightList_cons (n : Node) (ns : List Node) :
    heightList (n :: ns) = max n.height (heightList ns) := rfl

theorem heightList_le_iff {ns : List Node} {k : Nat} :
    heightList ns ≤ k ↔ ∀ n ∈ ns, n.height ≤ k := by
  induction ns with
  | nil => simp
  | cons n ns ih => rw [heightList_cons, Nat.max_le, ih, List.forall_mem_cons]

theorem heightOption_eq (o : Option Node) : heightOption o = heightList o.toList := by
  cases o with
  | none => rfl
  | some n => exact (Nat.max_zero n.height).symm

theorem heightList_append (ms ns : List Node) :
    heightList (ms ++ ns) = max (heightList ms) (heightList ns) := by
  induction ms with
  | nil => simp
  | cons m ms ih => rw [List.cons_append, heightList_cons, ih, heightList_cons, Nat.max_assoc]

/-- A node is one higher than the highest of its children. -/
theorem height_eq (n : Node) : n.height = 1 + heightList n.children := by
  cases n with
  | grammar | production | oneOrMore =>
      simp only [children, heightList_append, ← heightOption_eq, Nat.max_assoc]
      rfl
  | repetition | optional =>
      rw [children, ← heightOption_eq]
      rfl
  | productionList | alternation | sequence | literal | identifier | other | foreign => rfl

theorem height_pos (n : Node) : 0 < n.height := by
  rw [height_eq n]
  omega

theorem height_lt_of_mem_children {n m : Node} (h : m ∈ n.children) : m.height < n.height := by
  have := heightList_le_iff.mp (Nat.le_refl _) m h
  rw [height_eq n]
  omega

end Railroad.Node
