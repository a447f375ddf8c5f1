import Mathlib.Data.List.Forall2
import Railroad.Proofs.Layout.SizePass
/-!
What the size pass does at one node: which visits it pays to the children, and how it places what they
come back as.  Everything about a whole layout follows from this by going down the tree.
-/
namespace Railroad

/-- The visit to a node that is entered with a flow and a flag. -/
def Visit.to (n : Node) (f : Flow) (above : Bool) : Visit :=
  ⟨n, f, above, n.isAlternation && above⟩

/-- The visits to the items of a sequence. -/
def Flow.items (f : Flow) (first : Bool) : List Node → List Visit
  | [] => []
  | n :: ns => .to n (Row.sequence.flow f first ns.isEmpty) false :: items f false ns

/-- The visits to the children of a node that is entered with a flow; names of productions are entered
in the given direction. -/
def Flow.onward (names : Direction) (f : Flow) : Node → List Visit
  | .grammar _ title productions comment =>
      (title.toList ++ productions.toList ++ comment.toList).map (.to · (.free .none) false)
  | .productionList _ productions => productions.map (.to · (.free .none) false)
  | .production _ name expression =>
      name.toList.map (.to · (.free names) false) ++
        expression.toList.map (.to · (.free .right) false)
  | .alternation _ alternatives =>
      alternatives.map (.to · ((Row.ofAlternatives alternatives).flow f false false) false)
  | .sequence _ items => f.items true items
  | .repetition _ body => body.toList.map (.to · f.back true)
  | .oneOrMore _ body separator =>
      body.toList.map (.to · f.clear false) ++ separator.toList.map (.to · f.back false)
  | .optional _ body => body.toList.map (.to · f.clear true)
  | .literal .. | .identifier .. | .other .. | .foreign .. => []

theorem map_node_to (ns : List Node) (f : Flow) (above : Bool) :
    (ns.map (Visit.to · f above)).map Visit.node = ns := by
  rw [List.map_map]
  exact List.map_id ns

theorem map_node_items (f : Flow) (first : Bool) (ns : List Node) :
    (f.items first ns).map Visit.node = ns := by
  induction ns generalizing first with
  | nil => rfl
  | cons n ns ih =>
      rw [Flow.items, List.map_cons, ih]
      rfl

/-- Every child is visited once, and nothing else is. -/
theorem map_node_onward (names : Direction) (f : Flow) (n : Node) :
    (f.onward names n).map Visit.node = n.children := by
  cases n with
  | sequence _ items => exact map_node_items f true items
  | production _ name expression | oneOrMore _ name expression =>
      rw [Flow.onward, List.map_append, map_node_to, map_node_to, Node.children]
  | grammar | productionList | alternation | repetition | optional => exact map_node_to _ _ _
  | literal | identifier | other | foreign => rfl

variable {α : Type} [Scalar α]

/-- Title, rules and comment placed, without the empty boxes that stand for what is absent. -/
def Placement.headed (title : Option (Box α)) (rules : Box α) (comment : Option (Box α)) :
    Placement α :=
  let whole := heading (title.getD Metrics.newBox) rules (comment.getD Metrics.newBox)
  let rules := rules.moveTo (title.getD Metrics.newBox).blCorner
  ⟨whole.box, title.toList ++ rules :: (comment.map (·.moveTo rules.blCorner)).toList⟩

/-- How a node that is entered with a flow and a flag places its measured children. -/
inductive Arranges : Node → Flow → Bool → List (Sized α) → Placement α → Prop
  | grammar (id : Nat) {title comment : Option Node} (productions : Node) {f : Flow} {above : Bool}
      {heading closing : List (Sized α)} (rules : Sized α)
      (hheading : heading.length = title.toList.length)
      (hclosing : closing.length = comment.toList.length) :
      Arranges (.grammar id title (some productions) comment) f above (heading ++ rules :: closing)
        (.headed (heading.head?.map Sized.box) rules.box (closing.head?.map Sized.box))
  | productionList (id : Nat) (ps : List Node) {f : Flow} {above : Bool} (ss : List (Sized α)) :
      Arranges (.productionList id ps) f above ss (.rules (ss.map Sized.box))
  | production (id : Nat) (n e : Node) {f : Flow} {above : Bool} (name expression : Sized α) :
      Arranges (.production id (some n) (some e)) f above [name, expression]
        (.production name.box expression.box)
  | fan (id : Nat) {as : List Node} (hfan : Node.isFan as = true) {f : Flow} {above : Bool}
      (ss : List (Sized α)) :
      Arranges (.alternation id as) f above ss (.fan f.direction (ss.map Sized.box))
  | stack (id : Nat) {as : List Node} (hfan : Node.isFan as = false) (hne : as ≠ []) {f : Flow}
      {above : Bool} (ss : List (Sized α)) :
      Arranges (.alternation id as) f above ss
        (.stack above f.useLeft f.useRight (ss.map Sized.box))
  | sequence (id : Nat) (items : List Node) {f : Flow} {above : Bool} (ss : List (Sized α)) :
      Arranges (.sequence id items) f above ss
        (.sequence (f.direction = .right) (ss.map Sized.box))
  | repetition (id : Nat) (n : Node) {f : Flow} {above : Bool} (body : Sized α) :
      Arranges (.repetition id (some n)) f above [body] (.repetition body.handsBack body.box)
  | loop (id : Nat) (n : Node) {f : Flow} {above : Bool} (body : Sized α) :
      Arranges (.oneOrMore id (some n) none) f above [body] (.loop body.box)
  | separatedLoop (id : Nat) (n m : Node) {f : Flow} {above : Bool} (body separator : Sized α) :
      Arranges (.oneOrMore id (some n) (some m)) f above [body, separator]
        (.separatedLoop body.box separator.box)
  | optional (id : Nat) (n : Node) {f : Flow} {above : Bool} (body : Sized α) :
      Arranges (.optional id (some n)) f above [body]
        (.optional body.handsBack f.useLeft f.useRight body.box)
  | leaf {n : Node} {text : String} (htext : n.text? = some text) {f : Flow} {above : Bool} :
      Arranges n f above [] ⟨Placement.leaf f.direction text.length, []⟩

namespace Arranges

variable {f : Flow} {above : Bool} {ss : List (Sized α)} {p : Placement α} {id : Nat} {n m : Node}

theorem eq_of_grammar {title comment : Option Node}
    (h : Arranges (.grammar id title (some n) comment) f above ss p) :
    ∃ (heading closing : List (Sized α)) (rules : Sized α), heading.length = title.toList.length ∧
      closing.length = comment.toList.length ∧ ss = heading ++ rules :: closing ∧
      p = .headed (heading.head?.map Sized.box) rules.box (closing.head?.map Sized.box) := by
  cases h with
  | grammar _ _ rules hheading hclosing => exact ⟨_, _, rules, hheading, hclosing, rfl, rfl⟩
  | leaf htext => cases htext

theorem eq_of_productionList {ps : List Node} (h : Arranges (.productionList id ps) f above ss p) :
    p = .rules (ss.map Sized.box) := by
  cases h with
  | productionList => rfl
  | leaf htext => cases htext

theorem eq_of_production {name expression : Option Node}
    (h : Arranges (.production id name expression) f above ss p) :
    ∃ (n e : Node) (first second : Sized α), name = some n ∧ expression = some e ∧
      ss = [first, second] ∧ p = .production first.box second.box := by
  cases h with
  | production _ n e first second => exact ⟨n, e, first, second, rfl, rfl, rfl, rfl⟩
  | leaf htext => cases htext

section Alternations

variable {as : List Node} (h : Arranges (.alternation id as) f above ss p)
include h

theorem eq_of_fan (hfan : Node.isFan as = true) : p = .fan f.direction (ss.map Sized.box) := by
  cases h with
  | fan => rfl
  | stack _ hfan' => exact absurd hfan (by simp [hfan'])
  | leaf htext => cases htext

theorem eq_of_stack (hfan : Node.isFan as = false) :
    as ≠ [] ∧ p = .stack above f.useLeft f.useRight (ss.map Sized.box) := by
  cases h with
  | fan _ hfan' => exact absurd hfan' (by simp [hfan])
  | stack _ _ hne => exact ⟨hne, rfl⟩
  | leaf htext => cases htext

end Alternations

theorem eq_of_sequence {items : List Node} (h : Arranges (.sequence id items) f above ss p) :
    p = .sequence (f.direction = .right) (ss.map Sized.box) := by
  cases h with
  | sequence => rfl
  | leaf htext => cases htext

theorem eq_of_repetition (h : Arranges (.repetition id (some n)) f above ss p) :
    ∃ body : Sized α, ss = [body] ∧ p = .repetition body.handsBack body.box := by
  cases h with
  | repetition _ _ body => exact ⟨body, rfl, rfl⟩
  | leaf htext => cases htext

theorem eq_of_loop (h : Arranges (.oneOrMore id (some n) none) f above ss p) :
    ∃ body : Sized α, ss = [body] ∧ p = .loop body.box := by
  cases h with
  | loop _ _ body => exact ⟨body, rfl, rfl⟩
  | leaf htext => cases htext

theorem eq_of_separatedLoop (h : Arranges (.oneOrMore id (some n) (some m)) f above ss p) :
    ∃ body separator : Sized α, ss = [body, separator] ∧
      p = .separatedLoop body.box separator.box := by
  cases h with
  | separatedLoop _ _ _ body separator => exact ⟨body, separator, rfl, rfl⟩
  | leaf htext => cases htext

theorem eq_of_optional (h : Arranges (.optional id (some n)) f above ss p) :
    ∃ body : Sized α, ss = [body] ∧ p = .optional body.handsBack f.useLeft f.useRight body.box := by
  cases h with
  | optional _ _ body => exact ⟨body, rfl, rfl⟩
  | leaf htext => cases htext

theorem eq_of_leaf {text : String} (htext : n.text? = some text) (h : Arranges n f above ss p) :
    ss = [] ∧ p = ⟨Placement.leaf f.direction text.length, []⟩ := by
  cases h with
  | leaf htext' =>
      cases htext.symm.trans htext'
      exact ⟨rfl, rfl⟩
  | _ => cases htext

end Arranges

theorem Placement.length_headed (title : Option (Box α)) (rules : Box α) (comment : Option (Box α)) :
    (headed title rules comment).parts.length = title.toList.length + (1 + comment.toList.length) := by
  cases comment <;> simp [headed]

/-- A part that may be missing, as the list that it comes back in. -/
theorem map_box_eq_toList {ss : List (Sized α)} {o : Option Node} (h : ss.length = o.toList.length) :
    ss.map Sized.box = (ss.head?.map Sized.box).toList := by
  cases o with
  | none =>
      rw [List.length_eq_zero_iff.mp h]
      rfl
  | some n =>
      obtain ⟨s, rfl⟩ := List.length_eq_one_iff.mp h
      rfl

theorem length_head?_map_box {ss : List (Sized α)} {o : Option Node}
    (h : ss.length = o.toList.length) : (ss.head?.map Sized.box).toList.length = ss.length := by
  rw [← map_box_eq_toList h, List.length_map]

theorem Arranges.length_eq {n : Node} {f : Flow} {above : Bool} {ss : List (Sized α)}
    {p : Placement α} (h : Arranges n f above ss p) : p.parts.length = ss.length := by
  cases h with
  | grammar _ _ _ hheading hclosing =>
      rw [Placement.length_headed, length_head?_map_box hheading, length_head?_map_box hclosing,
        List.length_append, List.length_cons, Nat.add_comm 1]
  | repetition => exact Placement.length_repetition _ _
  | optional => exact Placement.length_optional _ _ _ _
  | production | loop | separatedLoop | leaf => rfl
  | productionList | fan | stack | sequence => simp

/-- A visit measured: what comes back to the node above. -/
def Visit.Measures (k : Nat) (v : Visit) (s : Sized α) : Prop :=
  ∃ c : Context α, c.flow = v.flow ∧ s = measure v.node c k v.above

section Related

variable {β γ : Type} {R : β → γ → Prop} {xs : List β} {ys : List γ}

theorem exists_of_mem_left (h : List.Forall₂ R xs ys) {x : β} (hx : x ∈ xs) : ∃ y ∈ ys, R x y := by
  induction h with
  | nil => cases hx
  | cons hxy _ ih =>
      rcases List.mem_cons.mp hx with rfl | hx
      · exact ⟨_, List.mem_cons_self, hxy⟩
      · obtain ⟨y, hy, hxy⟩ := ih hx
        exact ⟨y, List.mem_cons_of_mem _ hy, hxy⟩

theorem exists_of_mem_right (h : List.Forall₂ R xs ys) {y : γ} (hy : y ∈ ys) : ∃ x ∈ xs, R x y :=
  exists_of_mem_left h.flip hy

end Related

theorem exists_visit_of_child (names : Direction) (f : Flow) {n m : Node} (hm : m ∈ n.children) :
    ∃ v ∈ f.onward names n, v.node = m := by
  rwa [← map_node_onward names f n, List.mem_map] at hm

theorem Visit.node_mem_children {names : Direction} {f : Flow} {n : Node} {v : Visit}
    (hv : v ∈ f.onward names n) : v.node ∈ n.children := by
  rw [← map_node_onward names f n]
  exact List.mem_map_of_mem hv

/-- What comes back is a measured child. -/
theorem exists_child_of_mem {names : Direction} {f : Flow} {n : Node} {k : Nat} {ss : List (Sized α)}
    (h : List.Forall₂ (Visit.Measures k) (f.onward names n) ss) {s : Sized α} (hs : s ∈ ss) :
    ∃ m ∈ n.children, ∃ (c : Context α) (above : Bool), s = measure m c k above := by
  obtain ⟨v, hv, c, -, rfl⟩ := exists_of_mem_right h hs
  exact ⟨v.node, Visit.node_mem_children hv, c, v.above, rfl⟩

theorem measureList_measures (row : Row) {f : Flow} {c : Context α} {k : Nat} (ns : List Node)
    (hflow : ∀ first last, row.flow c.flow first last = f) (first : Bool) :
    List.Forall₂ (Visit.Measures k) (ns.map (.to · f false))
      (measureList row first ns c k false) := by
  induction ns generalizing first with
  | nil => exact .nil
  | cons n ns ih =>
      rw [measureList, handsBack_measure_false, Bool.and_false]
      refine .cons ⟨_, ?_, rfl⟩ (ih false)
      rw [Row.flow_context, hflow]
      rfl

theorem measureItems_measures {c : Context α} {k : Nat} (ns : List Node) (first : Bool) :
    List.Forall₂ (Visit.Measures k) (c.flow.items first ns)
      (measureList .sequence first ns c k false) := by
  induction ns generalizing first with
  | nil => exact .nil
  | cons n ns ih =>
      rw [measureList, handsBack_measure_false, Bool.and_false, Flow.items]
      exact .cons ⟨_, Row.flow_context .., rfl⟩ (ih false)

theorem length_measureOption (o : Option Node) (c : Context α) (k : Nat) (above : Bool) :
    (measureOption o c k above).length = o.toList.length := by
  cases o <;> rfl

theorem measureOption_measures {f : Flow} {c : Context α} {k : Nat} {above : Bool} (o : Option Node)
    (hflow : c.flow = f) : List.Forall₂ (Visit.Measures k) (o.toList.map (.to · f above))
      (measureOption o c k above) := by
  cases o with
  | none => exact .nil
  | some n => exact .cons ⟨c, hflow, rfl⟩ .nil

section Entered

variable {n : Node} {k : Nat}

/-- A node that may be entered and has its parts pays its visits and places what comes back. -/
theorem measure_entered (hknown : n.isKnown = true) (hparts : n.hasParts = true)
    (hk : k < Metrics.maxDepth) (c : Context α) (above : Bool) :
    ∃ (ss : List (Sized α)) (p : Placement α),
      measure n c k above =
        .part n c above (n.isAlternation && above) p.box (Sized.placed ss p.parts) ∧
      Arranges n c.flow above ss p ∧
      List.Forall₂ (Visit.Measures (k + 1)) (c.flow.onward .right n) ss := by
  rw [measure.eq_def, if_neg (by simp [hknown]), if_neg (by omega)]
  cases n with
  | grammar id title productions comment =>
      cases productions with
      | none => cases hparts
      | some n =>
          let inner := (c.push.toward .none).clearRails
          refine ⟨measureOption title inner (k + 1) false ++ measure n inner (k + 1) false ::
              measureOption comment inner (k + 1) false, _, ?_,
            .grammar id n _ (length_measureOption ..) (length_measureOption ..), ?_⟩
          -- A title or comment that is absent is measured as no part, and placed as an empty box.
          · simp only [inner, measureRequired, after_measureOption_false, handsBack_measure_false]
            cases title <;> cases comment <;> rfl
          · rw [Flow.onward, List.map_append, List.map_append, List.append_assoc]
            have hoption : ∀ o : Option Node, List.Forall₂ (Visit.Measures (k + 1))
                (o.toList.map (.to · (.free .none) false)) (measureOption o inner (k + 1) false) :=
              fun o => measureOption_measures o rfl
            refine List.rel_append (hoption title) ?_
            exact .cons (a := .to n (.free .none) false) ⟨inner, rfl, rfl⟩ (hoption comment)
  | productionList id productions =>
      refine ⟨measureList .rules true productions ((c.push.toward .none).clearRails) (k + 1) false, _,
        ?_, .productionList id productions _,
        measureList_measures .rules (f := .free .none) productions (fun _ _ => rfl) true⟩
      dsimp only
      rw [after_measureList_false]
      rfl
  | production id name expression =>
      cases name with
      | none => cases hparts
      | some n =>
          cases expression with
          | none => cases hparts
          | some e =>
              refine ⟨[measure n ((c.push.toward .right).clearRails) (k + 1) false,
                measure e ((c.push.toward .right).clearRails) (k + 1) false], _, ?_,
                .production id n e _ _, .cons ⟨_, rfl, rfl⟩ (.cons ⟨_, rfl, rfl⟩ .nil)⟩
              simp only [measureRequired, handsBack_measure_false]
              rfl
  | alternation id alternatives =>
      cases alternatives with
      | nil => cases hparts
      | cons a as =>
          dsimp only
          split
          · rename_i hfan
            refine ⟨_, _, rfl, .fan id hfan _, measureList_measures .fan (a :: as) ?_ true⟩
            intro first last
            rw [Row.ofAlternatives, if_pos hfan]
            rfl
          · rename_i hfan
            refine ⟨_, _, rfl, .stack id (by simpa using hfan) (by simp) _,
              measureList_measures .stack (a :: as) ?_ true⟩
            intro first last
            rw [Row.ofAlternatives, if_neg hfan]
            rfl
  | sequence id items =>
      refine ⟨measureList .sequence true items c.push (k + 1) false, _, ?_, .sequence id items _,
        measureItems_measures (c := c.push) items true⟩
      dsimp only
      rw [after_measureList_false]
      rfl
  | repetition id body =>
      cases body with
      | none => cases hparts
      | some n =>
          exact ⟨[measure n c.push.push.clearRails.reverse (k + 1) true], _, rfl,
            .repetition id n _, .cons ⟨_, rfl, rfl⟩ .nil⟩
  | oneOrMore id body separator =>
      cases body with
      | none => cases hparts
      | some n =>
          cases separator with
          | none =>
              exact ⟨[measure n c.push.push.clearRails (k + 1) false], _, rfl,
                .loop id n _, .cons ⟨_, rfl, rfl⟩ .nil⟩
          | some m =>
              refine ⟨[measure n c.push.push.clearRails (k + 1) false,
                measure m c.push.push.clearRails.reverse (k + 1) false], _, ?_,
                .separatedLoop id n m _ _, .cons ⟨_, rfl, rfl⟩ (.cons ⟨_, rfl, rfl⟩ .nil)⟩
              simp only [measureRequired, handsBack_measure_false]
              rfl
  | optional id body =>
      cases body with
      | none => cases hparts
      | some n =>
          exact ⟨[measure n c.push.push.clearRails (k + 1) true], _, rfl,
            .optional id n _, .cons ⟨_, rfl, rfl⟩ .nil⟩
  | literal | identifier | other => exact ⟨[], _, rfl, .leaf rfl, .nil⟩
  | foreign => cases hknown

end Entered

end Railroad
