import Railroad.Proofs.Ebnf.Soundness
import Railroad.Proofs.Grammar.Preorder
/-!
The ids of a tree that is read are the numbers that the reader counts meanwhile, each of them once.

A reading is told by the trees that are there before it and after it; the ids that it hands out in
between are numbers that follow one another.
-/
namespace Railroad.Ebnf

open Reading Node

/-- The ids of some trees, those of a node before those of its children. -/
def idsOf (ns : List Node) : List Nat :=
  (preorderList ns).map Node.id

section Ids

variable {ns ms : List Node}

@[simp] theorem idsOf_append (ms ns : List Node) : idsOf (ms ++ ns) = idsOf ms ++ idsOf ns := by
  rw [idsOf, preorderList_append, List.map_append, idsOf, idsOf]

theorem idsOf_singleton (n : Node) : idsOf [n] = n.id :: idsOf n.children := by
  rw [idsOf, preorderList_cons, preorderList_nil, List.append_nil, preorder_eq, List.map_cons, idsOf]

theorem idsOf_eq_flatMap (ns : List Node) :
    idsOf ns = ns.flatMap fun n => n.preorder.map Node.id := by
  rw [idsOf, preorderList_eq_flatMap, List.map_flatMap]

theorem idsOf_perm_idsOf (h : ms.Perm ns) : (idsOf ms).Perm (idsOf ns) := by
  rw [idsOf_eq_flatMap, idsOf_eq_flatMap]
  exact h.flatMap_right _

/-- A new node adds its own id to those of its children. -/
theorem idsOf_perm {n : Node} (h : n.children.Perm ns) :
    (idsOf [n]).Perm (idsOf ns ++ [n.id]) := by
  rw [idsOf_singleton]
  exact ((idsOf_perm_idsOf h).cons _).trans (List.perm_append_singleton _ _).symm

end Ids

/-- A reading hands out numbers that follow one another.  The trees that are there afterwards have these
ids and those of the trees that were there before. -/
def HandsOut {β : Type} (before : List Node) (reading : Reading β) (after : β → List Node) : Prop :=
  ∀ ⦃c c' : Cursor⦄ ⦃b : β⦄, reading c = .ok b c' →
    ∃ m, c'.nextId = c.nextId + m ∧
      (idsOf (after b)).Perm (idsOf before ++ List.range' c.nextId m)

namespace HandsOut

variable {β γ : Type} {ns : List Node} {x : Reading β} {after : β → List Node}

theorem pure {b : β} (h : (idsOf (after b)).Perm (idsOf ns)) : HandsOut ns (pure b) after := by
  intro c c' b' hb
  cases hb
  exact ⟨0, rfl, by simpa using h⟩

theorem bind {f : β → Reading γ} {after' : γ → List Node} (hx : HandsOut ns x after)
    (hf : ∀ b, HandsOut (after b) (f b) after') : HandsOut ns (x >>= f) after' := by
  intro c c' g h
  obtain ⟨b, c₁, hb, hg⟩ := bind_eq_ok.mp h
  obtain ⟨m, hm, hperm⟩ := hx hb
  obtain ⟨k, hk, hperm'⟩ := hf b hg
  refine ⟨m + k, by omega, hperm'.trans ?_⟩
  rw [hm, ← List.range'_append_1, ← List.append_assoc]
  exact hperm.append_right _

/-- Trees that a reading has nothing to do with stay there. -/
theorem frame (h : HandsOut [] x after) (ns : List Node) :
    HandsOut ns x (fun b => ns ++ after b) := by
  intro c c' b hb
  obtain ⟨m, hm, hperm⟩ := h hb
  refine ⟨m, hm, ?_⟩
  rw [idsOf_append]
  exact hperm.append_left _

theorem idle (h : ∀ c c' b, x c = .ok b c' → c'.nextId = c.nextId) :
    HandsOut ns x (fun _ => ns) := by
  intro c c' b hb
  exact ⟨0, h c c' b hb, by simp⟩

theorem peek : HandsOut ns peek (fun _ => ns) :=
  idle fun _ _ _ h => by cases h; rfl

theorem advance : HandsOut ns advance (fun _ => ns) :=
  idle fun _ _ _ h => by cases h; rfl

theorem left : HandsOut ns left (fun _ => ns) :=
  idle fun _ _ _ h => by cases h; rfl

theorem atSymbol (text : String) : HandsOut ns (atSymbol text) (fun _ => ns) :=
  idle fun _ _ _ h => by cases h; rfl

theorem expected (what : Expectation) : HandsOut ns (expected what) after := by
  intro c c' b h
  exact absurd h (expected_ne_ok what b)

theorem symbol (text : String) : HandsOut ns (symbol text) (fun _ => ns) := by
  refine bind (atSymbol text) fun found => ?_
  cases found with
  | true => exact advance
  | false => exact expected _

theorem node {make : Nat → Node} (h : ∀ i, (make i).id = i ∧ (make i).children.Perm ns) :
    HandsOut ns (node make) (fun n => [n]) := by
  intro c c' n hn
  cases hn
  refine ⟨1, rfl, ?_⟩
  obtain ⟨hid, hchildren⟩ := h c.nextId
  have hperm := idsOf_perm hchildren
  rwa [hid] at hperm

theorem nested {x : Reading Node} {after : Node → List Node} (h : HandsOut ns x after) :
    HandsOut ns (nested x) after := by
  intro c c' n hn
  obtain ⟨c₁, hinside, rfl⟩ := nested_eq_ok.mp hn
  obtain ⟨m, hm, hperm⟩ := h hinside
  exact ⟨m, hm, hperm⟩

theorem cons {one : Reading Node} {more : Reading (List Node)} (hone : HandsOut [] one fun n => [n])
    (hmore : HandsOut [] more fun ns => ns) :
    HandsOut [] (do let n ← one; return n :: (← more)) (fun ns => ns) := by
  refine bind hone fun n => bind (hmore.frame [n]) fun ns => ?_
  exact pure (.refl _)

end HandsOut

section Expressions

variable {one : Reading Node}

theorem moreFactors_handsOut (hone : HandsOut [] one fun n => [n]) (bound : Nat) :
    HandsOut [] (moreFactors one bound) (fun ns => ns) := by
  induction bound with
  | zero => exact .pure (.refl _)
  | succ bound ih =>
      refine .bind .peek fun o => ?_
      cases o with
      | none => exact .pure (.refl _)
      | some t =>
          dsimp only
          split
          · exact .bind .advance fun _ => .cons hone ih
          · split
            · exact .pure (.refl _)
            · exact .cons hone ih

theorem gather_handsOut {make : Nat → List Node → Node}
    (hmake : ∀ i ns, (make i ns).id = i ∧ (make i ns).children = ns) (first : Node)
    (rest : List Node) : HandsOut (first :: rest) (gather make first rest) (fun n => [n]) := by
  cases rest with
  | nil => exact .pure (.refl _)
  | cons m ms =>
      change HandsOut _ (Reading.node (make · (first :: m :: ms))) _
      refine .node fun i => ?_
      obtain ⟨hid, hchildren⟩ := hmake i (first :: m :: ms)
      exact ⟨hid, .of_eq hchildren⟩

theorem term_handsOut (hone : HandsOut [] one fun n => [n]) :
    HandsOut [] (term one) (fun n => [n]) := by
  rw [term_eq]
  refine .bind hone fun first => .bind .left fun bound => ?_
  refine .bind ((moreFactors_handsOut hone bound).frame [first]) fun rest => ?_
  exact gather_handsOut (fun _ _ => ⟨rfl, rfl⟩) first rest

theorem moreTerms_handsOut (hone : HandsOut [] one fun n => [n]) (bound : Nat) :
    HandsOut [] (moreTerms one bound) (fun ns => ns) := by
  induction bound with
  | zero => exact .pure (.refl _)
  | succ bound ih =>
      refine .bind (.atSymbol _) fun bar => ?_
      cases bar with
      | true => exact .bind .advance fun _ => .cons (term_handsOut hone) ih
      | false => exact .pure (.refl _)

theorem alternatives_handsOut (hone : HandsOut [] one fun n => [n]) :
    HandsOut [] (alternatives one) (fun n => [n]) := by
  rw [alternatives_eq]
  refine .bind (term_handsOut hone) fun first => .bind .left fun bound => ?_
  refine .bind ((moreTerms_handsOut hone bound).frame [first]) fun rest => ?_
  exact gather_handsOut (fun _ _ => ⟨rfl, rfl⟩) first rest

theorem bracketed_handsOut {expression : Reading Node}
    (hexpression : HandsOut [] expression fun n => [n]) (t : Token) :
    HandsOut [] (bracketed expression t) (fun n => [n]) := by
  have hseparator : HandsOut [] (some <$> expression) Option.toList := by
    rw [map_eq_pure_bind]
    exact .bind hexpression fun n => .pure (.refl _)
  refine .bind hexpression fun body => ?_
  split
  · exact .bind (.symbol _) fun _ => .pure (.refl _)
  · split
    · exact .bind (.symbol _) fun _ => .node fun i => ⟨rfl, .refl _⟩
    · split
      · exact .bind (.symbol _) fun _ => .node fun i => ⟨rfl, .refl _⟩
      · refine .bind (.atSymbol _) fun slash => ?_
        have hclose : ∀ o : Option Node, HandsOut ([body] ++ o.toList)
            (do symbol ">"; node (.oneOrMore · (some body) o)) (fun n => [n]) :=
          fun o => .bind (.symbol _) fun _ => .node fun i => ⟨rfl, .refl _⟩
        cases slash with
        | true => exact .bind .advance fun _ => .bind (.frame hseparator [body]) hclose
        | false => exact .bind (.frame (.pure (.refl _)) [body]) hclose

theorem factor_handsOut {bracket : Token → Reading Node}
    (hbracket : ∀ t, HandsOut [] (bracket t) fun n => [n]) :
    HandsOut [] (factor bracket) (fun n => [n]) := by
  refine .bind .peek fun o => ?_
  cases o with
  | none => exact .expected _
  | some t =>
      dsimp only
      split
      · exact .bind .advance fun _ => .node fun i => ⟨rfl, .refl _⟩
      · exact .bind .advance fun _ => .node fun i => ⟨rfl, .refl _⟩
      · exact .bind .advance fun _ => .node fun i => ⟨rfl, .refl _⟩
      · split
        · exact hbracket t
        · exact .expected _

theorem expressionWithin_handsOut (k : Nat) :
    HandsOut [] (expressionWithin k) (fun n => [n]) := by
  induction k with
  | zero =>
      refine alternatives_handsOut (factor_handsOut fun t => ?_)
      intro c c' n h
      cases h
  | succ k ih =>
      refine alternatives_handsOut (factor_handsOut fun t => ?_)
      exact .bind .advance fun _ => .nested (bracketed_handsOut ih t)

end Expressions

theorem production_handsOut : HandsOut [] production (fun n => [n]) := by
  refine .bind .peek fun o => ?_
  cases o with
  | none => exact .expected _
  | some t =>
      dsimp only
      split
      · refine .bind .advance fun _ => .bind .peek fun next => ?_
        split
        · refine .bind .advance fun _ => .bind (expressionWithin_handsOut _) fun body => ?_
          refine .bind (.atSymbol _) fun dot => .bind (.atSymbol _) fun semicolon => ?_
          split
          · refine .bind .advance fun _ => ?_
            refine .bind (.frame (.node fun i => ⟨rfl, .refl _⟩) [body]) fun name => ?_
            exact .node fun i => ⟨rfl, .swap _ _ _⟩
          · exact .expected _
        · exact .expected _
      · exact .expected _

theorem productions_handsOut (inBlock : Bool) (bound : Nat) :
    HandsOut [] (productions inBlock bound) (fun ns => ns) := by
  induction bound with
  | zero => exact .pure (.refl _)
  | succ bound ih =>
      refine .bind .peek fun o => ?_
      cases o with
      | none => exact .pure (.refl _)
      | some t =>
          dsimp only
          split
          · exact .pure (.refl _)
          · exact .cons production_handsOut ih

theorem productionList_handsOut (inBlock : Bool) :
    HandsOut [] (productionList inBlock) (fun n => [n]) := by
  refine .bind .left fun bound => .bind (productions_handsOut inBlock bound) fun ps => ?_
  exact .node fun i => ⟨rfl, .refl _⟩

theorem closingComment_handsOut : HandsOut [] closingComment Option.toList := by
  refine .bind .peek fun o => ?_
  cases o with
  | none => exact .pure (.refl _)
  | some t =>
      dsimp only
      split
      · refine .bind (.node fun i => ⟨rfl, .refl _⟩) fun comment => .bind .advance fun _ => ?_
        exact .pure (.refl _)
      · exact .pure (.refl _)

theorem title_handsOut : HandsOut [] title Option.toList := by
  intro c c' o h
  by_cases htitled : Titled c.words
  · obtain ⟨text, ws, hwords⟩ := htitled
    rw [title_present hwords] at h
    cases h
    exact ⟨1, rfl, .refl _⟩
  · rw [title_missing htitled] at h
    cases h
    exact ⟨0, rfl, .refl _⟩

theorem finish_handsOut {make : Nat → Node} {ns : List Node}
    (h : ∀ i, (make i).id = i ∧ (make i).children.Perm ns) :
    HandsOut ns (finish make) (fun n => [n]) := by
  rw [finish]
  refine .bind .peek fun next => ?_
  split
  · exact .bind (.expected _) fun _ => .node h
  · exact .node h

theorem block_handsOut (heading : Option Node) :
    HandsOut heading.toList (block heading) (fun n => [n]) := by
  refine .bind .advance fun _ => .bind (.frame (productionList_handsOut true) _) fun list => ?_
  refine .bind (.symbol _) fun _ => .bind (.frame closingComment_handsOut _) fun comment => ?_
  exact finish_handsOut fun i => ⟨rfl, .refl _⟩

/-- The ids of a tree that is read are the numbers that are counted, each of them once. -/
theorem ids_of_grammar {c c' : Cursor} {n : Node} (h : grammar c = .ok n c') :
    ∃ m, c'.nextId = c.nextId + m ∧ (idsOf [n]).Perm (List.range' c.nextId m) := by
  rw [grammar_eq] at h
  obtain ⟨heading, c₁, hheading, h⟩ := bind_eq_ok.mp h
  have hback := (title_sound hheading).choose_spec.2.2
  rw [bind_of_ok (atSymbol_eq "\x7b")] at h
  split at h
  · exact HandsOut.bind title_handsOut block_handsOut
      (bind_eq_ok.mpr ⟨heading, c₁, hheading, h⟩)
  · rename_i hbrace
    rw [decide_eq_true_iff] at hbrace
    rw [hback hbrace] at h
    exact HandsOut.bind (productionList_handsOut false)
      (fun list => .node fun i => ⟨rfl, .refl _⟩) h

theorem nodup_of_read {reader : Reader} {nextId : Nat} {text : String} {n : Node}
    (h : (reader.read nextId text).result = .ok n) : (n.preorder.map Node.id).Nodup := by
  rw [Reader.read] at h
  split at h
  · cases h
  · rename_i tokens htokens
    split at h
    · rename_i hgrammar
      cases h
      obtain ⟨m, -, hperm⟩ := ids_of_grammar hgrammar
      rw [idsOf, preorderList_cons, preorderList_nil, List.append_nil] at hperm
      exact hperm.nodup_iff.mpr List.nodup_range'
    · cases h

end Railroad.Ebnf
