import Railroad.Proofs.Grammar.Shape
/-!
Trees in which no sequence is directly an item of a sequence and no alternation directly an alternative
of an alternation: the parts of the inner one stand in its place.
-/
namespace Railroad.Node

/-- What a node adds to the alternatives of a node above it. -/
def alternativesOf : Node → List Node
  | alternation _ alternatives => alternatives
  | n => [n]

/-- What a node adds to the items of a node above it. -/
def itemsOf : Node → List Node
  | sequence _ items => items
  | n => [n]

mutual
/-- The tree with every sequence spliced into a sequence above it, and every alternation into an
alternation above it. -/
def spliced : Node → Node
  | grammar id title productions comment =>
      grammar id (splicedOption title) (splicedOption productions) (splicedOption comment)
  | productionList id productions => productionList id (splicedList productions)
  | production id name expression => production id (splicedOption name) (splicedOption expression)
  | alternation id alternatives =>
      alternation id ((splicedList alternatives).flatMap alternativesOf)
  | sequence id items => sequence id ((splicedList items).flatMap itemsOf)
  | repetition id body => repetition id (splicedOption body)
  | oneOrMore id body separator => oneOrMore id (splicedOption body) (splicedOption separator)
  | optional id body => optional id (splicedOption body)
  | literal id text kind => literal id text kind
  | identifier id text => identifier id text
  | other id text => other id text
  | foreign id name => foreign id name

def splicedList : List Node → List Node
  | [] => []
  | n :: ns => spliced n :: splicedList ns

def splicedOption : Option Node → Option Node
  | none => none
  | some n => some (spliced n)
end

@[simp] theorem splicedList_eq_map (ns : List Node) : splicedList ns = ns.map spliced := by
  induction ns with
  | nil => rfl
  | cons n ns ih => rw [splicedList, ih, List.map_cons]

@[simp] theorem splicedOption_eq_map (o : Option Node) : splicedOption o = o.map spliced := by
  cases o <;> rfl

@[simp] theorem id_spliced (n : Node) : n.spliced.id = n.id := by
  cases n <;> rfl

@[simp] theorem text?_spliced (n : Node) : n.spliced.text? = n.text? := by
  cases n <;> rfl

@[simp] theorem isAlternation_spliced (n : Node) : n.spliced.isAlternation = n.isAlternation := by
  cases n <;> rfl

theorem alternativesOf_eq_singleton {n : Node} (h : n.isAlternation = false) :
    alternativesOf n = [n] := by
  cases n with
  | alternation => cases h
  | _ => rfl

theorem alternativesOf_unnumbered (n : Node) :
    alternativesOf n.unnumbered = (alternativesOf n).map unnumbered := by
  cases n <;> simp [unnumbered, alternativesOf]

theorem itemsOf_unnumbered (n : Node) : itemsOf n.unnumbered = (itemsOf n).map unnumbered := by
  cases n <;> simp [unnumbered, itemsOf]

mutual
/-- Splicing does not look at numbers. -/
theorem spliced_unnumbered : ∀ n : Node, n.unnumbered.spliced = n.spliced.unnumbered
  | grammar _ title productions comment => by
      simp only [unnumbered, spliced, splicedOption_unnumbered title,
        splicedOption_unnumbered productions, splicedOption_unnumbered comment]
  | productionList _ productions => by
      simp only [unnumbered, spliced, splicedList_unnumbered productions]
  | production _ name expression => by
      simp only [unnumbered, spliced, splicedOption_unnumbered name,
        splicedOption_unnumbered expression]
  | alternation _ alternatives => by
      simp only [unnumbered, spliced, splicedList_unnumbered alternatives]
      simp only [unnumberedList_eq_map, List.map_flatMap, List.flatMap_map,
        alternativesOf_unnumbered]
  | sequence _ items => by
      simp only [unnumbered, spliced, splicedList_unnumbered items]
      simp only [unnumberedList_eq_map, List.map_flatMap, List.flatMap_map, itemsOf_unnumbered]
  | repetition _ body => by
      simp only [unnumbered, spliced, splicedOption_unnumbered body]
  | oneOrMore _ body separator => by
      simp only [unnumbered, spliced, splicedOption_unnumbered body,
        splicedOption_unnumbered separator]
  | optional _ body => by
      simp only [unnumbered, spliced, splicedOption_unnumbered body]
  | literal .. | identifier .. | other .. | foreign .. => rfl

theorem splicedList_unnumbered : ∀ ns : List Node,
    splicedList (unnumberedList ns) = unnumberedList (splicedList ns)
  | [] => rfl
  | n :: ns => by
      simp only [unnumberedList, splicedList, spliced_unnumbered n, splicedList_unnumbered ns]

theorem splicedOption_unnumbered : ∀ o : Option Node,
    splicedOption (unnumberedOption o) = unnumberedOption (splicedOption o)
  | none => rfl
  | some n => by simp only [unnumberedOption, splicedOption, spliced_unnumbered n]
end

section Shape

variable {n : Node}

theorem IsExpression.itemsOf_ne_nil (h : n.IsExpression) : itemsOf n ≠ [] := by
  cases h with
  | sequence _ hmany =>
      rintro rfl
      simp at hmany
  | _ => simp [itemsOf]

theorem IsExpression.alternativesOf_ne_nil (h : n.IsExpression) : alternativesOf n ≠ [] := by
  cases h with
  | alternation _ hmany =>
      rintro rfl
      simp at hmany
  | _ => simp [alternativesOf]

theorem IsExpression.of_mem_itemsOf (h : n.IsExpression) :
    ∀ m ∈ itemsOf n, m.IsExpression := by
  cases h with
  | sequence _ _ hitems => exact hitems
  | _ =>
      intro m hm
      obtain rfl := List.mem_singleton.mp hm
      constructor <;> assumption

theorem IsExpression.of_mem_alternativesOf (h : n.IsExpression) :
    ∀ m ∈ alternativesOf n, m.IsExpression := by
  cases h with
  | alternation _ _ halternatives => exact halternatives
  | _ =>
      intro m hm
      obtain rfl := List.mem_singleton.mp hm
      constructor <;> assumption

/-- Parts that each add something are not fewer than what they add. -/
theorem length_le_length_flatMap {f : Node → List Node} {ns : List Node}
    (h : ∀ n ∈ ns, f n ≠ []) : ns.length ≤ (ns.flatMap f).length := by
  induction ns with
  | nil => exact Nat.zero_le _
  | cons n ns ih =>
      have hhead : 0 < (f n).length := List.length_pos_iff.mpr (h n List.mem_cons_self)
      have htail := ih fun m hm => h m (List.mem_cons_of_mem _ hm)
      rw [List.flatMap_cons, List.length_append, List.length_cons]
      omega

/-- Splicing leaves the shape of an expression. -/
theorem IsExpression.spliced (h : n.IsExpression) : n.spliced.IsExpression := by
  induction h with
  | literal id text hkind => exact .literal id text hkind
  | identifier id text => exact .identifier id text
  | alternation id hmany _ ih =>
      rw [Node.spliced, splicedList_eq_map, List.flatMap_map]
      refine .alternation id ?_ ?_
      · exact Nat.le_trans hmany (length_le_length_flatMap fun a ha => (ih a ha).alternativesOf_ne_nil)
      · intro m hm
        obtain ⟨a, ha, hma⟩ := List.mem_flatMap.mp hm
        exact (ih a ha).of_mem_alternativesOf m hma
  | sequence id hmany _ ih =>
      rw [Node.spliced, splicedList_eq_map, List.flatMap_map]
      refine .sequence id ?_ ?_
      · exact Nat.le_trans hmany (length_le_length_flatMap fun a ha => (ih a ha).itemsOf_ne_nil)
      · intro m hm
        obtain ⟨a, ha, hma⟩ := List.mem_flatMap.mp hm
        exact (ih a ha).of_mem_itemsOf m hma
  | repetition id _ ih => exact .repetition id ih
  | optional id _ ih => exact .optional id ih
  | loop id _ ih => exact .loop id ih
  | separatedLoop id _ _ ih ih' => exact .separatedLoop id ih ih'

end Shape

end Railroad.Node
