import Mathlib.Data.List.Nodup
import Mathlib.Data.List.Pairwise
import Railroad.Grammar.Node
/-!
The nodes of a tree, every node before its children; a shared node stands there once per occurrence.
-/
namespace Railroad.Node

mutual
/-- A node and everything below it, told by recursion on the tree. -/
def preorder (n : Node) : List Node :=
  n :: match n with
    | grammar _ title productions comment =>
        preorderOption title ++ (preorderOption productions ++ preorderOption comment)
    | productionList _ productions => preorderList productions
    | production _ name expression => preorderOption name ++ preorderOption expression
    | alternation _ alternatives => preorderList alternatives
    | sequence _ items => preorderList items
    | repetition _ body => preorderOption body
    | oneOrMore _ body separator => preorderOption body ++ preorderOption separator
    | optional _ body => preorderOption body
    | literal .. | identifier .. | other .. | foreign .. => []

def preorderList : List Node → List Node
  | [] => []
  | n :: ns => preorder n ++ preorderList ns

def preorderOption : Option Node → List Node
  | none => []
  | some n => preorder n
end

@[simp] theorem preorderList_nil : preorderList [] = [] := rfl

theorem preorderList_cons (n : Node) (ns : List Node) :
    preorderList (n :: ns) = n.preorder ++ preorderList ns := rfl

theorem preorderList_eq_flatMap (ns : List Node) : preorderList ns = ns.flatMap preorder := by
  induction ns with
  | nil => rfl
  | cons n ns ih => rw [preorderList_cons, ih, List.flatMap_cons]

theorem preorderList_append (ms ns : List Node) :
    preorderList (ms ++ ns) = preorderList ms ++ preorderList ns := by
  simp only [preorderList_eq_flatMap, List.flatMap_append]

theorem preorderOption_eq (o : Option Node) : preorderOption o = preorderList o.toList := by
  cases o with
  | none => rfl
  | some n => exact (List.append_nil n.preorder).symm

/-- A node comes first, then what comes of its children. -/
theorem preorder_eq (n : Node) : n.preorder = n :: preorderList n.children := by
  cases n with
  | grammar | production | oneOrMore =>
      simp only [children, preorderList_append, ← preorderOption_eq, List.append_assoc]
      rfl
  | repetition | optional =>
      rw [children, ← preorderOption_eq]
      rfl
  | productionList | alternation | sequence | literal | identifier | other | foreign => rfl

theorem mem_preorder_self (n : Node) : n ∈ n.preorder := by
  rw [preorder_eq]
  exact List.mem_cons_self

theorem preorderList_children_sublist (n : Node) : (preorderList n.children).Sublist n.preorder := by
  rw [preorder_eq]
  exact .cons _ (.refl _)

theorem preorder_sublist {n m : Node} (h : m ∈ n.children) : m.preorder.Sublist n.preorder := by
  refine .trans ?_ (preorderList_children_sublist n)
  rw [preorderList_eq_flatMap, List.flatMap_def]
  exact List.sublist_flatten_of_mem (List.mem_map_of_mem h)

/-- A walk notes the trees on its stack from the top on. -/
theorem walkStack_eq (seen : Array Node) (stack : List Node) :
    (walkStack seen stack).toList = seen.toList ++ preorderList stack := by
  induction seen, stack using walkStack.induct with
  | case1 seen => rw [walkStack, preorderList_nil, List.append_nil]
  | case2 seen n rest ih =>
      rw [walkStack, ih, Array.toList_push, preorderList_append, preorderList_cons, preorder_eq]
      simp

theorem walk_eq_preorder (n : Node) : n.walk = n.preorder := by
  rw [walk, walkStack_eq, preorderList_cons, preorderList_nil, List.append_nil]
  rfl

theorem mem_preorder_iff {n m : Node} : m ∈ n.preorder ↔ m = n ∨ ∃ l ∈ n.children, m ∈ l.preorder := by
  rw [preorder_eq, List.mem_cons, preorderList_eq_flatMap, List.mem_flatMap]

theorem notMem_preorder_of_child {n m : Node} (hnodup : n.preorder.Nodup) (hm : m ∈ n.children) :
    n ∉ m.preorder := by
  rw [preorder_eq, List.nodup_cons, preorderList_eq_flatMap] at hnodup
  exact fun h => hnodup.1 (List.mem_flatMap.mpr ⟨m, hm, h⟩)

theorem eq_of_mem_preorder {n m m' l : Node} (hnodup : n.preorder.Nodup) (hm : m ∈ n.children)
    (hm' : m' ∈ n.children) (h : l ∈ m.preorder) (h' : l ∈ m'.preorder) : m = m' := by
  rw [preorder_eq, List.nodup_cons, preorderList_eq_flatMap, List.nodup_flatMap] at hnodup
  have : Std.Symm (Function.onFun List.Disjoint preorder) := ⟨fun _ _ h _ hq hp => h hp hq⟩
  by_contra hne
  exact hnodup.2.2.forall hm hm' hne h h'

theorem count_lt_of_mem_children {n m : Node} (h : m ∈ n.children) : m.count < n.count := by
  obtain ⟨before, after, hchildren⟩ := List.append_of_mem h
  rw [count_eq n, hchildren, countList_append, countList]
  omega

/-- What holds of a node whenever it holds of the children holds of all nodes. -/
theorem descend {P : Node → Prop} (h : ∀ n, (∀ m ∈ n.children, P m) → P n) (n : Node) : P n :=
  h n fun m _ => descend h m
termination_by n.count
decreasing_by exact count_lt_of_mem_children ‹_›

/-- What lies in a tree that lies in another one does so in that one too. -/
theorem mem_preorder_trans {n m l : Node} (hm : m ∈ n.preorder) (hl : l ∈ m.preorder) :
    l ∈ n.preorder := by
  induction n using descend with
  | _ n ih =>
      rcases mem_preorder_iff.mp hm with rfl | ⟨c, hc, hm⟩
      · exact hl
      · exact (preorder_sublist hc).subset (ih c hc hm)

end Railroad.Node
