import Mathlib.Algebra.Ring.Parity
import Railroad.Proofs.Grammar.Shape
import Railroad.Proofs.Layout.Descent
/-!
The directions in which leaves are entered.

A pass keeps the direction in a context that it turns round, overwrites and restores.  Where that leads is
fixed by the way from a rule to the leaf: alternatives of a fan head down, and the others to the right or to
the left, as the flow has been turned an even or an odd number of times.
-/
namespace Railroad

/-- How an expression stands in the expression around it. -/
inductive Joint where
  | alternative (inFan : Bool)
  | item
  | repeated
  | looped
  | separator
  | optional
deriving DecidableEq

/-- Whether the flow is turned round: on the way back of a loop. -/
def Joint.turns : Joint → Bool
  | repeated | separator => true
  | _ => false

/-- The direction behind a joint, from the direction before it. -/
def Joint.steer (d : Direction) : Joint → Direction
  | alternative true => .down
  | repeated | separator => d.reversed
  | alternative false | item | looped | optional => d

namespace Node

mutual
/-- The leaves of an expression in order, each with the joints on the way to it, the last first; `path` is
the way to the expression. -/
def leafPaths (path : List Joint) : Node → List (List Joint × Node)
  | alternation _ alternatives => leafPathsList (.alternative (isFan alternatives) :: path) alternatives
  | sequence _ items => leafPathsList (.item :: path) items
  | repetition _ body => leafPathsOption (.repeated :: path) body
  | oneOrMore _ body separator =>
      leafPathsOption (.looped :: path) body ++ leafPathsOption (.separator :: path) separator
  | optional _ body => leafPathsOption (.optional :: path) body
  | literal id text kind => [(path, literal id text kind)]
  | identifier id text => [(path, identifier id text)]
  | other id text => [(path, other id text)]
  | grammar .. | productionList .. | production .. | foreign .. => []

/-- The leaves of some expressions that stand alike. -/
def leafPathsList (path : List Joint) : List Node → List (List Joint × Node)
  | [] => []
  | n :: ns => leafPaths path n ++ leafPathsList path ns

/-- The leaves of an expression that may be missing. -/
def leafPathsOption (path : List Joint) : Option Node → List (List Joint × Node)
  | none => []
  | some n => leafPaths path n
end

/-- The direction of a leaf, from the joints on the way to it. -/
def courseOf (path : List Joint) : Direction :=
  if path.head? = some (.alternative true) then .down
  else if Even (path.countP Joint.turns) then .right
  else .left

theorem courseOf_ne_none (path : List Joint) : courseOf path ≠ .none := by
  rw [courseOf]
  split
  · decide
  · split <;> decide

/-- The leaves of an expression with their directions. -/
def courses (n : Node) : List (Node × Direction) :=
  (n.leafPaths []).map fun (path, leaf) => (leaf, courseOf path)

/-- The leaves of the expression of a rule with their directions. -/
def ruleCourses : Node → List (Node × Direction)
  | production _ _ expression => expression.toList.flatMap courses
  | _ => []

/-- The name of a rule, which has the given direction, and the leaves of the rule's expression. -/
def namedCourses (names : Direction) : Node → List (Node × Direction)
  | production id name expression =>
      name.toList.map (·, names) ++ ruleCourses (production id name expression)
  | _ => []

/-- The leaves of a grammar in order with their directions; title and comment have none. -/
def grammarCourses (names : Direction) : Node → List (Node × Direction)
  | grammar _ title (some (productionList _ productions)) comment =>
      title.toList.map (·, .none) ++ productions.flatMap (namedCourses names) ++
        comment.toList.map (·, .none)
  | _ => []

theorem leafPaths_of_isLeaf {n : Node} (h : n.isLeaf = true) (path : List Joint) :
    n.leafPaths path = [(path, n)] := by
  cases n with
  | literal | identifier | other => rfl
  | _ => cases h

/-- The parts of an expression, each with its joint. -/
def joints : Node → List (Joint × Node)
  | alternation _ alternatives => alternatives.map (.alternative (isFan alternatives), ·)
  | sequence _ items => items.map (.item, ·)
  | repetition _ body => body.toList.map (.repeated, ·)
  | oneOrMore _ body separator => body.toList.map (.looped, ·) ++ separator.toList.map (.separator, ·)
  | optional _ body => body.toList.map (.optional, ·)
  | _ => []

theorem leafPathsList_eq_flatMap (path : List Joint) (j : Joint) (ns : List Node) :
    leafPathsList (j :: path) ns = (ns.map (j, ·)).flatMap fun x => x.2.leafPaths (x.1 :: path) := by
  induction ns with
  | nil => rfl
  | cons n ns ih => rw [leafPathsList, ih, List.map_cons, List.flatMap_cons]

theorem leafPathsOption_eq_flatMap (path : List Joint) (j : Joint) (o : Option Node) :
    leafPathsOption (j :: path) o =
      (o.toList.map (j, ·)).flatMap fun x => x.2.leafPaths (x.1 :: path) := by
  cases o with
  | none => rfl
  | some n => exact (List.append_nil _).symm

/-- Below an expression every way goes on with the joint of a part. -/
theorem leafPaths_eq_flatMap {n : Node} (h : n.isLeaf = false) (path : List Joint) :
    n.leafPaths path = n.joints.flatMap fun x => x.2.leafPaths (x.1 :: path) := by
  cases n with
  | alternation | sequence => exact leafPathsList_eq_flatMap path _ _
  | repetition | optional => exact leafPathsOption_eq_flatMap path _ _
  | oneOrMore =>
      rw [leafPaths, joints, leafPathsOption_eq_flatMap, leafPathsOption_eq_flatMap, List.flatMap_append]
  | grammar | productionList | production | foreign => rfl
  | literal | identifier | other => cases h

/-- The parts of an expression are its children. -/
theorem IsExpression.map_snd_joints {n : Node} (h : n.IsExpression) : n.joints.map Prod.snd = n.children := by
  cases h <;> simp [joints, children, List.map_map, Function.comp_def]

/-- The leaves of an expression stand in the order of a walk over it. -/
theorem IsExpression.map_snd_leafPaths {n : Node} (h : n.IsExpression) (path : List Joint) :
    (n.leafPaths path).map Prod.snd = n.preorder.filter isLeaf := by
  induction n using Node.descend generalizing path with
  | _ n ih =>
      cases hleaf : n.isLeaf with
      | true =>
          rw [leafPaths_of_isLeaf hleaf]
          cases n with
          | literal | identifier | other => rfl
          | _ => cases hleaf
      | false =>
          have hparts : ∀ x ∈ n.joints, (x.2.leafPaths (x.1 :: path)).map Prod.snd =
              x.2.preorder.filter isLeaf := by
            intro x hx
            have hchild : x.2 ∈ n.children := by
              rw [← h.map_snd_joints]
              exact List.mem_map_of_mem hx
            exact ih x.2 hchild (h.of_mem_children hchild) _
          rw [leafPaths_eq_flatMap hleaf, List.map_flatMap, List.flatMap_congr hparts, preorder_eq,
            List.filter_cons_of_neg (by simp [hleaf]), preorderList_eq_flatMap, ← h.map_snd_joints,
            List.filter_flatMap, List.flatMap_map]

theorem isLeaf_of_isFan {ns : List Node} (hfan : isFan ns = true) {n : Node} (hn : n ∈ ns) :
    n.isLeaf = true := by
  have hshort := List.all_eq_true.mp (Bool.and_eq_true_iff.mp hfan).2 n hn
  cases n with
  | literal => rfl
  | _ => cases hshort

theorem courseOf_cons {path : List Joint} (hpath : .alternative true ∉ path) (j : Joint) :
    courseOf (j :: path) = j.steer (courseOf path) := by
  have hhead : path.head? ≠ some (.alternative true) := fun h => hpath (List.mem_of_head? h)
  have hparity : Even (path.countP Joint.turns + 1) ↔ ¬ Even (path.countP Joint.turns) :=
    Nat.even_add_one
  rw [courseOf, courseOf, if_neg hhead, List.head?_cons, List.countP_cons]
  by_cases heven : Even (path.countP Joint.turns)
  · cases j with
    | alternative inFan => cases inFan <;> simp [heven, Joint.turns, Joint.steer]
    | _ => simp [heven, hparity, Joint.turns, Joint.steer, Direction.reversed]
  · cases j with
    | alternative inFan => cases inFan <;> simp [heven, Joint.turns, Joint.steer]
    | _ => simp [heven, hparity, Joint.turns, Joint.steer, Direction.reversed]

end Node

section Steps

variable {names : Direction} {f : Flow} {n : Node}

/-- A visit to a part of an expression, in the direction behind the joint of the part. -/
structure Visit.Follows (n : Node) (f : Flow) (v : Visit) (x : Joint × Node) : Prop where
  node : v.node = x.2
  child : x.2 ∈ n.children
  direction : v.flow.direction = x.1.steer f.direction
  fan : x.1 = .alternative true → x.2.isLeaf = true

/-- From an expression a pass goes on to its parts, in the directions behind their joints. -/
theorem Node.IsExpression.follows (h : n.IsExpression) (names : Direction) (f : Flow) :
    List.Forall₂ (Visit.Follows n f) (f.onward names n) n.joints := by
  have hmap : ∀ {ns : List Node} {g : Flow} {above : Bool} {j : Joint},
      (∀ m ∈ ns, Visit.Follows n f (.to m g above) (j, m)) →
        List.Forall₂ (Visit.Follows n f) (ns.map (.to · g above)) (ns.map (j, ·)) := by
    intro ns g above j hns
    rw [List.forall₂_map_left_iff, List.forall₂_map_right_iff, List.forall₂_same]
    exact hns
  cases h with
  | literal | identifier => exact .nil
  | alternation id hmany halternatives =>
      refine hmap fun m hm => ⟨rfl, hm, ?_, fun hj => ?_⟩
      · rw [Row.ofAlternatives]
        split
        · rename_i hfan
          rw [hfan]
          rfl
        · rename_i hfan
          rw [Bool.eq_false_iff.mpr hfan]
          rfl
      · exact isLeaf_of_isFan (Joint.alternative.inj hj) hm
  | @sequence id items hmany hitems =>
      have hall : ∀ (first : Bool) (ns : List Node), (∀ m ∈ ns, m ∈ items) →
          List.Forall₂ (Visit.Follows (.sequence id items) f) (f.items first ns) (ns.map (.item, ·)) := by
        intro first ns hns
        induction ns generalizing first with
        | nil => exact .nil
        | cons m ns ih =>
            rw [List.forall_mem_cons] at hns
            exact .cons ⟨rfl, hns.1, rfl, by rintro ⟨⟩⟩ (ih false hns.2)
      exact hall true items fun m hm => hm
  | repetition | optional | loop =>
      exact .cons ⟨rfl, List.mem_cons_self, rfl, by rintro ⟨⟩⟩ .nil
  | separatedLoop =>
      exact .cons ⟨rfl, List.mem_cons_self, rfl, by rintro ⟨⟩⟩
        (.cons ⟨rfl, List.mem_cons_of_mem _ List.mem_cons_self, rfl, by rintro ⟨⟩⟩ .nil)

end Steps

/-- The leaf that a visit is paid to, with the direction it is entered in. -/
def Visit.leaf? (v : Visit) : Option (Node × Direction) :=
  if v.node.isLeaf then some (v.node, v.flow.direction) else none

/-- The leaves among the nodes visited. -/
def leavesOf (vs : List (Option Visit)) : List (Node × Direction) :=
  vs.filterMap (·.bind Visit.leaf?)

section Leaves

variable {names : Direction} {n : Node} {f : Flow} {k : Nat} {above : Bool}

theorem leavesOf_leaf (h : n.isLeaf = true) (hk : k + n.height ≤ Metrics.maxDepth) :
    leavesOf (itinerary names n f k above) = [(n, f.direction)] := by
  have hpos := n.height_pos
  have hshallow : k < Metrics.maxDepth := by omega
  rw [itinerary.eq_def]
  cases n with
  | literal | identifier | other =>
      simp [Node.isKnown, hshallow, leavesOf, Visit.leaf?, Node.isLeaf, Node.text?]
  | _ => cases h

/-- The leaves that are visited below a node are those that are visited below its children. -/
theorem leavesOf_inner (hleaf : n.isLeaf = false) (hcomplete : n.isComplete = true)
    (hk : k + n.height ≤ Metrics.maxDepth) : leavesOf (itinerary names n f k above) =
      (f.onward names n).flatMap fun v => leavesOf (v.tour names (k + 1)) := by
  obtain ⟨⟨hknown, hparts⟩, -⟩ := (Node.isComplete_iff_children n).mp hcomplete
  have hpos := n.height_pos
  have hself : (Visit.to n f above).leaf? = none := by
    simp [Visit.leaf?, Visit.to, hleaf]
  rw [itinerary_eq_flatMap hknown hparts (by omega), leavesOf, List.filterMap_cons, Option.bind_some,
    hself, List.filterMap_flatMap]
  rfl

theorem flatMap_eq_of_forall₂ {β γ δ : Type} {R : β → γ → Prop} {xs : List β} {ys : List γ}
    {g : β → List δ} {g' : γ → List δ} (h : List.Forall₂ R xs ys) (hg : ∀ x y, R x y → g x = g' y) :
    xs.flatMap g = ys.flatMap g' := by
  induction h with
  | nil => rfl
  | cons hxy _ ih => rw [List.flatMap_cons, List.flatMap_cons, hg _ _ hxy, ih]

/-- The leaves of an expression that is entered in the direction that the way to it says are visited in the
directions that the ways to them say. -/
theorem Node.IsExpression.leavesOf_itinerary (h : n.IsExpression) {path : List Joint}
    (hpath : .alternative true ∉ path) (hdirection : f.direction = courseOf path)
    (hk : k + n.height ≤ Metrics.maxDepth) : leavesOf (itinerary names n f k above) =
      (n.leafPaths path).map fun (path, leaf) => (leaf, courseOf path) := by
  induction n using Node.descend generalizing path f k above with
  | _ n ih =>
      cases hleaf : n.isLeaf with
      | true =>
          rw [leavesOf_leaf hleaf hk, leafPaths_of_isLeaf hleaf, hdirection]
          rfl
      | false =>
          rw [leavesOf_inner hleaf h.isComplete hk, leafPaths_eq_flatMap hleaf, List.map_flatMap]
          refine flatMap_eq_of_forall₂ (h.follows names f) ?_
          rintro v ⟨j, m⟩ ⟨rfl, hchild, hv, hfan⟩
          dsimp only at hchild hv hfan ⊢
          have hheight : v.node.height < n.height := height_lt_of_mem_children hchild
          rw [hdirection, ← courseOf_cons hpath] at hv
          by_cases hj : j = .alternative true
          · -- the joint of a fan can only be the last one
            have hend := hfan hj
            rw [Visit.tour, leavesOf_leaf hend (by omega), leafPaths_of_isLeaf hend, hv]
            rfl
          · refine ih v.node hchild (h.of_mem_children hchild) ?_ hv (by omega)
            rw [List.mem_cons, not_or]
            exact ⟨Ne.symm hj, hpath⟩

end Leaves

section Grammars

variable {names : Direction} {n : Node} {f : Flow} {k : Nat} {above : Bool}

theorem Node.IsProduction.leavesOf_itinerary (h : n.IsProduction)
    (hk : k + n.height ≤ Metrics.maxDepth) :
    leavesOf (itinerary names n f k above) = namedCourses names n := by
  have hcomplete := h.isComplete
  cases h with
  | @intro id nameId name expression hexpression =>
      rw [leavesOf_inner rfl hcomplete hk]
      rw [height, heightOption, heightOption] at hk
      have hname : leavesOf (itinerary names (.identifier nameId name) (.free names) (k + 1) false) =
          [(.identifier nameId name, names)] := leavesOf_leaf rfl (by omega)
      have hcourses : leavesOf (itinerary names expression (.free .right) (k + 1) false) =
          expression.courses := hexpression.leavesOf_itinerary (by simp) rfl (by omega)
      simp [Flow.onward, Visit.tour, Visit.to, hname, hcourses, namedCourses, ruleCourses,
        courses]

theorem Node.IsGrammar.leavesOf_itinerary (h : n.IsGrammar) (hk : k + n.height ≤ Metrics.maxDepth) :
    leavesOf (itinerary names n f k above) = n.grammarCourses names := by
  have hcomplete := h.isComplete
  cases h with
  | @intro id listId title comment productions htitle hproductions hcomment =>
      have hlist := ((isComplete_iff_children _).mp hcomplete).2 (.productionList listId productions)
        (by simp [children])
      rw [leavesOf_inner rfl hcomplete hk]
      rw [height, heightOption, height] at hk
      have hrules : leavesOf (itinerary names (.productionList listId productions) (.free .none) (k + 1)
          false) = productions.flatMap (namedCourses names) := by
        rw [leavesOf_inner rfl hlist (by rw [height]; omega), Flow.onward, List.flatMap_map]
        refine List.flatMap_congr fun p hp => (hproductions p hp).leavesOf_itinerary ?_
        have := heightList_le_iff.mp (Nat.le_refl (heightList productions)) p hp
        omega
      have hleaf : ∀ o : Option Node, (∀ n ∈ o, n.isLeaf = true) →
          k + 1 + heightOption o ≤ Metrics.maxDepth →
          (o.toList.map (Visit.to · (.free .none) false)).flatMap
            (fun v => leavesOf (v.tour names (k + 1))) = o.toList.map (·, .none) := by
        intro o ho hk
        cases o with
        | none => rfl
        | some n => exact (List.append_nil _).trans (leavesOf_leaf (ho n rfl) hk)
      have htitle' := hleaf title (fun n hn => by obtain ⟨i, text, rfl⟩ := htitle n hn; rfl) (by omega)
      have hcomment' := hleaf comment (fun n hn => by obtain ⟨i, text, rfl⟩ := hcomment n hn; rfl)
        (by omega)
      rw [Flow.onward, List.map_append, List.map_append, List.flatMap_append, List.flatMap_append,
        htitle', hcomment', grammarCourses]
      simpa [Visit.tour, Visit.to] using hrules

end Grammars

end Railroad
