import Railroad.Proofs.Grammar.Unnumbered
/-!
The shape of the trees that grammars are read as: no required part is missing, and whatever lists parts
lists two or more of them.
-/
namespace Railroad.Node

/-- What may stand for an expression. -/
inductive IsExpression : Node → Prop
  | literal (id : Nat) (text : String) {kind : LiteralKind} (hkind : kind ≠ .title) :
      IsExpression (.literal id text kind)
  | identifier (id : Nat) (text : String) : IsExpression (.identifier id text)
  | alternation (id : Nat) {alternatives : List Node} (hmany : 2 ≤ alternatives.length)
      (halternatives : ∀ n ∈ alternatives, IsExpression n) :
      IsExpression (.alternation id alternatives)
  | sequence (id : Nat) {items : List Node} (hmany : 2 ≤ items.length)
      (hitems : ∀ n ∈ items, IsExpression n) : IsExpression (.sequence id items)
  | repetition (id : Nat) {body : Node} (hbody : IsExpression body) :
      IsExpression (.repetition id (some body))
  | optional (id : Nat) {body : Node} (hbody : IsExpression body) :
      IsExpression (.optional id (some body))
  | loop (id : Nat) {body : Node} (hbody : IsExpression body) :
      IsExpression (.oneOrMore id (some body) none)
  | separatedLoop (id : Nat) {body separator : Node} (hbody : IsExpression body)
      (hseparator : IsExpression separator) :
      IsExpression (.oneOrMore id (some body) (some separator))

/-- What may stand for a rule. -/
inductive IsProduction : Node → Prop
  | intro (id nameId : Nat) (name : String) {expression : Node}
      (hexpression : IsExpression expression) :
      IsProduction (.production id (some (.identifier nameId name)) (some expression))

/-- What may stand for a whole grammar. -/
inductive IsGrammar : Node → Prop
  | intro (id listId : Nat) {title comment : Option Node} {productions : List Node}
      (htitle : ∀ n ∈ title, ∃ i text, n = .literal i text .title)
      (hproductions : ∀ n ∈ productions, IsProduction n)
      (hcomment : ∀ n ∈ comment, ∃ i text, n = .other i text) :
      IsGrammar (.grammar id title (some (.productionList listId productions)) comment)

/-- Expressions are made of expressions. -/
theorem IsExpression.of_mem_children {n m : Node} (h : n.IsExpression) (hm : m ∈ n.children) :
    m.IsExpression := by
  cases h with
  | literal | identifier => cases hm
  | alternation _ _ halternatives => exact halternatives m hm
  | sequence _ _ hitems => exact hitems m hm
  | repetition _ hbody | optional _ hbody | loop _ hbody =>
      rw [List.mem_singleton.mp hm]
      exact hbody
  | separatedLoop _ hbody hseparator =>
      rcases List.mem_cons.mp hm with rfl | hm
      · exact hbody
      · rw [List.mem_singleton.mp hm]
        exact hseparator

section Unnumbered

variable {n m : Node}

@[simp] theorem text?_unnumbered (n : Node) : n.unnumbered.text? = n.text? := by
  cases n <;> rfl

@[simp] theorem isAlternation_unnumbered (n : Node) :
    n.unnumbered.isAlternation = n.isAlternation := by
  cases n <;> rfl

/-- Numbering does not matter for the shape of an expression. -/
theorem IsExpression.of_unnumbered (h : n.unnumbered.IsExpression) : n.IsExpression := by
  generalize hm : n.unnumbered = m at h
  induction h generalizing n with
  | literal _ text hkind =>
      cases n <;> cases hm
      exact .literal _ text hkind
  | identifier _ text =>
      cases n <;> cases hm
      exact .identifier _ text
  | alternation _ hmany _ ih =>
      cases n <;> rw [unnumbered] at hm <;> cases hm
      rw [unnumberedList_eq_map, List.length_map] at hmany
      refine .alternation _ hmany ?_
      intro a ha
      exact ih a.unnumbered (by simpa using ⟨a, ha, rfl⟩) rfl
  | sequence _ hmany _ ih =>
      cases n <;> rw [unnumbered] at hm <;> cases hm
      rw [unnumberedList_eq_map, List.length_map] at hmany
      refine .sequence _ hmany ?_
      intro a ha
      exact ih a.unnumbered (by simpa using ⟨a, ha, rfl⟩) rfl
  | repetition _ _ ih =>
      cases n <;> rw [unnumbered] at hm <;> simp at hm
      obtain ⟨-, body, rfl, hbody⟩ := hm
      exact .repetition _ (ih hbody)
  | optional _ _ ih =>
      cases n <;> rw [unnumbered] at hm <;> simp at hm
      obtain ⟨-, body, rfl, hbody⟩ := hm
      exact .optional _ (ih hbody)
  | loop _ _ ih =>
      cases n <;> rw [unnumbered] at hm <;> simp at hm
      obtain ⟨-, ⟨body, rfl, hbody⟩, rfl⟩ := hm
      exact .loop _ (ih hbody)
  | separatedLoop _ _ _ ih ih' =>
      cases n <;> rw [unnumbered] at hm <;> simp at hm
      obtain ⟨-, ⟨body, rfl, hbody⟩, separator, rfl, hseparator⟩ := hm
      exact .separatedLoop _ (ih hbody) (ih' hseparator)

theorem IsProduction.of_unnumbered (h : n.unnumbered.IsProduction) : n.IsProduction := by
  generalize hm : n.unnumbered = m at h
  cases h with
  | intro _ _ name hexpression =>
      cases n <;> rw [unnumbered] at hm <;> simp at hm
      obtain ⟨-, ⟨leaf, rfl, hname⟩, body, rfl, hbody⟩ := hm
      cases leaf <;> cases hname
      exact .intro _ _ name (IsExpression.of_unnumbered (hbody ▸ hexpression))

/-- Numbering does not matter for the shape of a grammar. -/
theorem IsGrammar.of_unnumbered (h : n.unnumbered.IsGrammar) : n.IsGrammar := by
  generalize hm : n.unnumbered = m at h
  cases h with
  | intro _ _ htitle hproductions hcomment =>
      cases n <;> rw [unnumbered] at hm <;> simp at hm
      obtain ⟨-, rfl, ⟨list, rfl, hlist⟩, rfl⟩ := hm
      cases list <;> rw [unnumbered] at hlist <;> simp at hlist
      obtain ⟨-, rfl⟩ := hlist
      refine .intro _ _ ?_ ?_ ?_
      · intro t ht
        obtain ⟨i, text, hleaf⟩ := htitle t.unnumbered (Option.mem_map_of_mem _ ht)
        cases t <;> cases hleaf
        exact ⟨_, _, rfl⟩
      · intro p hp
        exact IsProduction.of_unnumbered (hproductions _ (List.mem_map_of_mem hp))
      · intro t ht
        obtain ⟨i, text, hleaf⟩ := hcomment t.unnumbered (Option.mem_map_of_mem _ ht)
        cases t <;> cases hleaf
        exact ⟨_, _, rfl⟩

end Unnumbered

end Railroad.Node
