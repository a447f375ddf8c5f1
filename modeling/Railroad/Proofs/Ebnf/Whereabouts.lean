import Railroad.Proofs.Ebnf.Soundness
/-!
The whereabouts of a reader's cursor.  From a cursor that stands among the tokens of a text every rule of
the reader ends at one that does, with as many brackets open as before, also when it stops; and it stops in
front of the token that it says.

The rules are followed together with a copy of them in which the reading has been changed in front of factors
and behind opening brackets.  A change that shows only where too many brackets are open does not show at all.
-/
namespace Railroad.Ebnf

open Reading

/-- Whether a fault is that the text has come to its end. -/
def ParseFault.atEnd : ParseFault → Bool
  | .expected _ none => true
  | _ => false

/-- The cursor stands among some tokens, with so many brackets open. -/
structure Cursor.Among (tokens : List Token) (depth : Nat) (c : Cursor) : Prop where
  rest : c.rest = tokens.drop c.read
  read : c.read ≤ tokens.length
  depth : c.depth = depth

/-- A reading ends at a cursor among some tokens.  If it has stopped, then in front of its token. -/
inductive Lands (tokens : List Token) (depth : Nat) {β : Type} :
    EStateM.Result Stop Cursor β → Prop
  | ok {b : β} {c : Cursor} (hc : c.Among tokens depth) : Lands tokens depth (.ok b c)
  | error {s : Stop} {c : Cursor} (hc : c.Among tokens depth) (htoken : s.token = c.rest.head?)
      (hend : s.fault.atEnd = s.token.isNone) : Lands tokens depth (.error s c)

/-- Two readings do the same from a cursor, and end among the tokens. -/
structure Agree (tokens : List Token) (depth : Nat) {β : Type} (x y : Reading β) (c : Cursor) :
    Prop where
  same : x c = y c
  lands : Lands tokens depth (x c)

/-- Two readings agree from every cursor that stands among the tokens. -/
def Agrees (tokens : List Token) (depth : Nat) {β : Type} (x y : Reading β) : Prop :=
  ∀ c, c.Among tokens depth → Agree tokens depth x y c

variable {tokens : List Token} {depth : Nat}

namespace Cursor.Among

variable {c : Cursor}

theorem advanced (h : c.Among tokens depth) (hrest : c.rest ≠ []) :
    c.advanced.Among tokens depth where
  rest := by rw [Cursor.advanced, h.rest, List.tail_drop]
  read := by
    rw [h.rest, Ne, List.drop_eq_nil_iff] at hrest
    exact Nat.lt_of_not_le hrest
  depth := h.depth

theorem counted (h : c.Among tokens depth) : c.counted.Among tokens depth :=
  ⟨h.rest, h.read, h.depth⟩

theorem withDepth (h : c.Among tokens depth) (depth' : Nat) :
    (c.withDepth depth').Among tokens depth' :=
  ⟨h.rest, h.read, rfl⟩

end Cursor.Among

theorem Cursor.rest_ne_nil_of_any {c : Cursor} {p : Token → Bool} (h : c.rest.head?.any p = true) :
    c.rest ≠ [] := by
  intro hnil
  rw [hnil] at h
  cases h

namespace Agree

variable {β γ : Type} {x y : Reading β} {f g : β → Reading γ} {c : Cursor}

theorem pure (hc : c.Among tokens depth) (b : β) : Agree tokens depth (pure b) (pure b) c :=
  ⟨rfl, .ok hc⟩

theorem bind (h : Agree tokens depth x y c)
    (hnext : ∀ b c', c'.Among tokens depth → Agree tokens depth (f b) (g b) c') :
    Agree tokens depth (x >>= f) (y >>= g) c := by
  obtain ⟨hsame, hlands⟩ := h
  suffices h : EStateM.bind x f c = EStateM.bind y g c ∧ Lands tokens depth (EStateM.bind x f c) from
    ⟨h.1, h.2⟩
  rw [EStateM.bind, EStateM.bind, ← hsame]
  generalize x c = result at hlands
  cases hlands with
  | ok hc => exact ⟨(hnext _ _ hc).same, (hnext _ _ hc).lands⟩
  | error hc htoken hend => exact ⟨rfl, .error hc htoken hend⟩

theorem get {f g : Cursor → Reading γ} (h : Agree tokens depth (f c) (g c) c) :
    Agree tokens depth (get >>= f) (get >>= g) c :=
  ⟨h.same, h.lands⟩

theorem peek {f g : Option Token → Reading γ}
    (h : Agree tokens depth (f c.rest.head?) (g c.rest.head?) c) :
    Agree tokens depth (peek >>= f) (peek >>= g) c :=
  ⟨h.same, h.lands⟩

theorem left {f g : Nat → Reading γ}
    (h : Agree tokens depth (f c.rest.length) (g c.rest.length) c) :
    Agree tokens depth (left >>= f) (left >>= g) c :=
  ⟨h.same, h.lands⟩

theorem atSymbol {text : String} {f g : Bool → Reading γ}
    (h : Agree tokens depth (f (c.rest.head?.any (·.isSymbol text)))
      (g (c.rest.head?.any (·.isSymbol text))) c) :
    Agree tokens depth (atSymbol text >>= f) (atSymbol text >>= g) c :=
  ⟨h.same, h.lands⟩

theorem advance {f g : Unit → Reading γ} (hc : c.Among tokens depth) (hrest : c.rest ≠ [])
    (hnext : ∀ c', c'.Among tokens depth → Agree tokens depth (f ()) (g ()) c') :
    Agree tokens depth (advance >>= f) (advance >>= g) c :=
  have h := hnext c.advanced (hc.advanced hrest)
  ⟨h.same, h.lands⟩

theorem node (hc : c.Among tokens depth) (make : Nat → Node) :
    Agree tokens depth (node make) (node make) c :=
  ⟨rfl, .ok hc.counted⟩

theorem expected (hc : c.Among tokens depth) (what : Expectation) :
    Agree tokens depth (expected what : Reading β) (expected what) c := by
  refine ⟨rfl, .error hc rfl ?_⟩
  cases c.rest.head? <;> rfl

theorem symbol (hc : c.Among tokens depth) (text : String) :
    Agree tokens depth (symbol text) (symbol text) c := by
  refine .atSymbol ?_
  cases hfound : c.rest.head?.any (·.isSymbol text) with
  | true => exact ⟨rfl, .ok (hc.advanced (Cursor.rest_ne_nil_of_any hfound))⟩
  | false => exact .expected hc _

/-- A node is made once a closing symbol has been stepped over. -/
theorem close (hc : c.Among tokens depth) (text : String) (make : Nat → Node) :
    Agree tokens depth (do Ebnf.symbol text; Reading.node make)
      (do Ebnf.symbol text; Reading.node make) c :=
  .bind (.symbol hc text) fun _ _ hc => .node hc make

theorem present {x y : Reading Node} (h : Agree tokens depth x y c) :
    Agree tokens depth (some <$> x) (some <$> y) c := by
  rw [map_eq_pure_bind, map_eq_pure_bind]
  exact .bind h fun n _ hc => .pure hc (some n)

theorem cons {more more' : Reading (List β)} (h : Agree tokens depth x y c)
    (hmore : Agrees tokens depth more more') :
    Agree tokens depth (do let b ← x; return b :: (← more)) (do let b ← y; return b :: (← more')) c :=
  .bind h fun b _ hc => .bind (hmore _ hc) fun bs _ hc => .pure hc (b :: bs)

/-- A bracket is closed again, however its inside ends. -/
theorem nested {x y : Reading Node} (hc : c.Among tokens depth) (h : Agrees tokens (depth + 1) x y) :
    Agree tokens depth (nested x) (nested y) c := by
  have hinside : Agree tokens (depth + 1) x y (c.withDepth (c.depth + 1)) := by
    refine h _ ?_
    rw [hc.depth]
    exact hc.withDepth (depth + 1)
  obtain ⟨hsame, hlands⟩ := hinside
  rw [Cursor.withDepth] at hsame hlands
  have hback : ∀ {c' : Cursor}, c'.Among tokens (depth + 1) →
      (c'.withDepth (c'.depth - 1)).Among tokens depth := by
    intro c' hc'
    rw [hc'.depth, Nat.add_sub_cancel]
    exact hc'.withDepth depth
  suffices h : Ebnf.nested x c = Ebnf.nested y c ∧ Lands tokens depth (Ebnf.nested x c) from ⟨h.1, h.2⟩
  rw [Ebnf.nested, Ebnf.nested, ← hsame]
  generalize x { c with depth := c.depth + 1 } = result at hlands
  cases hlands with
  | ok hc' => exact ⟨rfl, .ok (hback hc')⟩
  | error hc' htoken hend => exact ⟨rfl, .error (hback hc') htoken hend⟩

end Agree

section Expressions

variable {one one' expression expression' : Reading Node}

theorem factor_agree {bracket bracket' : Token → Reading Node} {c : Cursor}
    (hc : c.Among tokens depth)
    (hbracket : ∀ t, c.rest.head? = some t → Agree tokens depth (bracket t) (bracket' t) c) :
    Agree tokens depth (factor bracket) (factor bracket') c := by
  refine .peek ?_
  cases hrest : c.rest with
  | nil => exact .expected hc _
  | cons t ts =>
      have hadvance : ∀ make : Nat → Node, Agree tokens depth (do advance; node make)
          (do advance; node make) c :=
        fun make => .advance hc (hrest ▸ List.cons_ne_nil t ts) fun _ hc => .node hc make
      rw [List.head?_cons]
      dsimp only
      split
      · exact hadvance _
      · exact hadvance _
      · exact hadvance _
      · split
        · exact hbracket t (by rw [hrest, List.head?_cons])
        · exact .expected hc _

theorem moreFactors_agrees (hone : Agrees tokens depth one one') (bound : Nat) :
    Agrees tokens depth (moreFactors one bound) (moreFactors one' bound) := by
  induction bound with
  | zero => exact fun c hc => .pure hc []
  | succ bound ih =>
      intro c hc
      refine .peek ?_
      cases hrest : c.rest with
      | nil => exact .pure hc []
      | cons t ts =>
          rw [List.head?_cons]
          dsimp only
          split
          · exact .advance hc (hrest ▸ List.cons_ne_nil t ts) fun c hc =>
              .cons (hone c hc) ih
          · split
            · exact .pure hc []
            · exact .cons (hone c hc) ih

theorem gather_agrees (make : Nat → List Node → Node) (first : Node) (rest : List Node) :
    Agrees tokens depth (gather make first rest) (gather make first rest) := by
  intro c hc
  cases rest with
  | nil => exact .pure hc first
  | cons n ns => exact Agree.node hc fun i => make i (first :: n :: ns)

theorem term_agrees (hone : Agrees tokens depth one one') :
    Agrees tokens depth (term one) (term one') := by
  intro c hc
  rw [term_eq, term_eq]
  exact .bind (hone c hc) fun _ _ hc => .left (.bind (moreFactors_agrees hone _ _ hc)
    fun _ _ hc => gather_agrees _ _ _ _ hc)

theorem moreTerms_agrees (hone : Agrees tokens depth one one') (bound : Nat) :
    Agrees tokens depth (moreTerms one bound) (moreTerms one' bound) := by
  induction bound with
  | zero => exact fun c hc => .pure hc []
  | succ bound ih =>
      intro c hc
      refine .atSymbol ?_
      cases hrest : c.rest with
      | nil => exact .pure hc []
      | cons t ts =>
          split
          · exact .advance hc (hrest ▸ List.cons_ne_nil t ts) fun c hc =>
              .cons (term_agrees hone c hc) ih
          · exact .pure hc []

theorem alternatives_agrees (hone : Agrees tokens depth one one') :
    Agrees tokens depth (alternatives one) (alternatives one') := by
  intro c hc
  rw [alternatives_eq, alternatives_eq]
  exact .bind (term_agrees hone c hc) fun _ _ hc => .left (.bind (moreTerms_agrees hone _ _ hc)
    fun _ _ hc => gather_agrees _ _ _ _ hc)

theorem bracketed_agrees (h : Agrees tokens depth expression expression') (t : Token) :
    Agrees tokens depth (bracketed expression t) (bracketed expression' t) := by
  intro c hc
  refine .bind (h c hc) fun body c hc => ?_
  split
  · exact .bind (.symbol hc _) fun _ _ hc => .pure hc body
  · split
    · exact .close hc _ _
    · split
      · exact .close hc _ _
      · refine .atSymbol ?_
        cases hrest : c.rest with
        | nil => exact .close hc _ _
        | cons t ts =>
            dsimp only
            split
            · exact .advance hc (hrest ▸ List.cons_ne_nil t ts) fun c hc =>
                .bind (.present (h c hc)) fun _ _ hc => .close hc _ _
            · exact .close hc _ _

/-- The reading of an expression with a change made wherever it stands in front of a factor, and wherever it
has just counted a bracket as open. -/
def expressionVia (change : Reading Node → Reading Node) : Nat → Reading Node
  | 0 => alternatives <| change <| factor fun t => throw ⟨.tooDeep, some t⟩
  | budget + 1 => alternatives <| change <| factor fun t => do
      advance
      nested (change (bracketed (expressionVia change budget) t))

/-- A change does not show that leaves alone whatever is read with no more brackets open than may be. -/
theorem expressionVia_agrees {change : Reading Node → Reading Node}
    (hchange : ∀ inside c, c.depth ≤ Metrics.maxDepth → change inside c = inside c) (budget : Nat)
    (hbudget : depth + budget = Metrics.maxDepth) :
    Agrees tokens depth (expressionWithin budget) (expressionVia change budget) := by
  have hunchanged : ∀ {depth : Nat} {x y : Reading Node} {c : Cursor}, depth ≤ Metrics.maxDepth →
      c.Among tokens depth → Agree tokens depth x y c → Agree tokens depth x (change y) c := by
    intro depth x y c hdepth hc h
    exact ⟨h.same.trans (hchange y c (hc.depth ▸ hdepth)).symm, h.lands⟩
  -- Budget and open brackets add up to the deepest nesting, so the budget runs out before it is passed.
  induction budget generalizing depth with
  | zero =>
      refine alternatives_agrees fun c hc => hunchanged (by omega) hc ?_
      exact factor_agree hc fun t ht => ⟨rfl, .error hc ht.symm rfl⟩
  | succ budget ih =>
      refine alternatives_agrees fun c hc => hunchanged (by omega) hc ?_
      refine factor_agree hc fun t ht => .advance hc ?_ fun c hc => .nested hc fun c hc => ?_
      · intro hnil
        rw [hnil] at ht
        cases ht
      · exact hunchanged (by omega) hc (bracketed_agrees (ih (by omega)) t c hc)

end Expressions

section Grammars

variable {expression expression' : Reading Node}

/-- A production, with another reading of its expression. -/
def productionOf (expression : Reading Node) : Reading Node := do
  match ← peek with
  | none => expected .productionName
  | some t =>
      if t.kind = .ident then
        advance
        if (← peek).any (·.kind = .define) then
          advance
          let body ← expression
          closeProduction t.text body
        else
          expected (.definition t.text)
      else
        expected .productionName

/-- Productions up to the end of their block or text, with another reading of their expressions. -/
def productionsOf (expression : Reading Node) (inBlock : Bool) : Nat → Reading (List Node)
  | 0 => return []
  | bound + 1 => do
      match ← peek with
      | none => return []
      | some t =>
          if inBlock && t.isSymbol "\x7d" then
            return []
          else
            let p ← productionOf expression
            return p :: (← productionsOf expression inBlock bound)

def productionListOf (expression : Reading Node) (inBlock : Bool) : Reading Node := do
  let ps ← productionsOf expression inBlock (← left)
  node (.productionList · ps)

/-- A whole grammar, with another reading of its expressions. -/
def grammarOf (expression : Reading Node) : Reading Node := do
  let heading ← title
  if ← Ebnf.atSymbol "\x7b" then
    advance
    let list ← productionListOf expression true
    symbol "\x7d"
    let comment ← closingComment
    finish (.grammar · heading (some list) comment)
  else
    let list ← productionListOf expression false
    node (.grammar · none (some list) none)

theorem productionsOf_expression (inBlock : Bool) (bound : Nat) :
    productionsOf Ebnf.expression inBlock bound = productions inBlock bound := by
  induction bound with
  | zero => rfl
  | succ bound ih =>
      rw [productionsOf, productions, ih]
      rfl

theorem grammarOf_expression : grammarOf Ebnf.expression = grammar := by
  have hlist : ∀ inBlock, productionListOf Ebnf.expression inBlock = productionList inBlock :=
    fun inBlock => by simp only [productionListOf, productionList, productionsOf_expression]
  rw [grammarOf, grammar_eq, hlist, hlist]
  rfl

theorem closeProduction_agrees (name : String) (body : Node) :
    Agrees tokens depth (closeProduction name body) (closeProduction name body) := by
  intro c hc
  refine .atSymbol (.atSymbol ?_)
  split
  · rename_i hstop
    have hrest : c.rest ≠ [] := (Bool.or_eq_true _ _ ▸ hstop).elim Cursor.rest_ne_nil_of_any
      Cursor.rest_ne_nil_of_any
    exact .advance hc hrest fun _ hc => .bind (.node hc _) fun _ _ hc => .node hc _
  · exact .expected hc _

theorem production_agrees (h : Agrees tokens depth expression expression') :
    Agrees tokens depth (productionOf expression) (productionOf expression') := by
  intro c hc
  refine .peek ?_
  cases hrest : c.rest with
  | nil => exact .expected hc _
  | cons t ts =>
      rw [List.head?_cons]
      dsimp only
      split
      · refine .advance hc (hrest ▸ List.cons_ne_nil t ts) fun c hc => .peek ?_
        split
        · rename_i hdefine
          exact .advance hc (Cursor.rest_ne_nil_of_any hdefine) fun c hc =>
            .bind (h c hc) fun body c hc => closeProduction_agrees _ body c hc
        · exact .expected hc _
      · exact .expected hc _

theorem productions_agrees (h : Agrees tokens depth expression expression') (inBlock : Bool)
    (bound : Nat) :
    Agrees tokens depth (productionsOf expression inBlock bound)
      (productionsOf expression' inBlock bound) := by
  induction bound with
  | zero => exact fun c hc => .pure hc []
  | succ bound ih =>
      intro c hc
      refine .peek ?_
      cases c.rest.head? with
      | none => exact .pure hc []
      | some t =>
          dsimp only
          split
          · exact .pure hc []
          · exact .cons (production_agrees h c hc) ih

theorem productionList_agrees (h : Agrees tokens depth expression expression') (inBlock : Bool) :
    Agrees tokens depth (productionListOf expression inBlock) (productionListOf expression' inBlock) :=
  fun _ hc => .left (.bind (productions_agrees h inBlock _ _ hc) fun _ _ hc => .node hc _)

theorem title_agrees : Agrees tokens depth title title := by
  intro c hc
  refine .get ?_
  cases hrest : c.rest with
  | nil => exact .pure hc none
  | cons t ts =>
      cases ts with
      | nil => exact .pure hc none
      | cons s ss =>
          dsimp only
          split
          · exact .advance hc (hrest ▸ List.cons_ne_nil t _) fun c hc =>
              .present (.node hc _)
          · exact .pure hc none

theorem closingComment_agrees : Agrees tokens depth closingComment closingComment := by
  intro c hc
  refine .peek ?_
  cases hrest : c.rest with
  | nil => exact .pure hc none
  | cons t ts =>
      rw [List.head?_cons]
      dsimp only
      split
      · refine ⟨rfl, .ok ?_⟩
        exact hc.counted.advanced (show c.rest ≠ [] from hrest ▸ List.cons_ne_nil t ts)
      · exact .pure hc none

theorem finish_agrees (make : Nat → Node) :
    Agrees tokens depth (finish make) (finish make) := by
  intro c hc
  refine .peek ?_
  split
  · exact .bind (.expected hc _) fun _ _ hc => .node hc make
  · exact .node hc make

theorem grammar_agrees (h : Agrees tokens depth expression expression') :
    Agrees tokens depth (grammarOf expression) (grammarOf expression') := by
  intro c hc
  refine .bind (title_agrees c hc) fun heading c hc => .atSymbol ?_
  split
  · rename_i hbrace
    refine .advance hc (Cursor.rest_ne_nil_of_any hbrace) fun c hc => ?_
    refine .bind (productionList_agrees h true c hc) fun list c hc => .bind (.symbol hc _) ?_
    exact fun _ c hc => .bind (closingComment_agrees c hc) fun comment c hc => finish_agrees _ c hc
  · exact .bind (productionList_agrees h false c hc) fun _ _ hc => .node hc _

end Grammars

/-- A grammar is read from the start of some tokens as if whatever is read inside too many brackets were read
in another way, and ends among the tokens with no bracket open. -/
theorem grammar_agree {change : Reading Node → Reading Node}
    (hchange : ∀ inside c, c.depth ≤ Metrics.maxDepth → change inside c = inside c)
    (tokens : List Token) (nextId : Nat) :
    Agree tokens 0 grammar (grammarOf (expressionVia change Metrics.maxDepth))
      ⟨tokens, 0, 0, nextId⟩ := by
  rw [← grammarOf_expression]
  exact grammar_agrees (expressionVia_agrees hchange _ (Nat.zero_add _)) _
    ⟨rfl, Nat.zero_le _, rfl⟩

theorem grammar_lands (tokens : List Token) (nextId : Nat) :
    Lands tokens 0 (grammar ⟨tokens, 0, 0, nextId⟩) := by
  have hsame : ∀ (inside : Reading Node) (c : Cursor), c.depth ≤ Metrics.maxDepth →
      id inside c = inside c := fun _ _ _ => rfl
  exact (grammar_agree hsame tokens nextId).lands

/-- A grammar leaves no token unread. -/
theorem rest_of_grammar {c c' : Cursor} {n : Node} (h : grammar c = .ok n c') : c'.rest = [] := by
  rw [grammar_eq] at h
  obtain ⟨heading, c₁, -, h⟩ := bind_eq_ok.mp h
  rw [bind_of_ok (atSymbol_eq "\x7b")] at h
  split at h
  · rw [block, bind_of_ok advance_eq] at h
    obtain ⟨list, c₂, -, h⟩ := bind_eq_ok.mp h
    obtain ⟨u, c₃, -, h⟩ := bind_eq_ok.mp h
    obtain ⟨comment, c₄, -, h⟩ := bind_eq_ok.mp h
    have hend := (finish_eq_ok h).1
    rw [finish_of_nil hend] at h
    cases h
    exact List.map_eq_nil_iff.mp hend
  · obtain ⟨list, c₂, hlist, h⟩ := bind_eq_ok.mp h
    obtain ⟨ps, c₂, hps, rfl, rfl⟩ := productionList_eq_ok.mp hlist
    cases h
    have hnone := head?_of_productions hps (Nat.le_refl _)
    change c₂.rest = []
    cases hrest : c₂.rest with
    | nil => rfl
    | cons t ts => simp [hrest] at hnone

/-- The ways in which a reader comes through a text: it is not cut into tokens, it is read to its end, or
reading stops at a token or at the end. -/
inductive Outcome (reader : Reader) (nextId : Nat) (text : String) : Read → Prop
  | uncut {e : ParseError} (htokens : tokenize text = .error e) :
      Outcome reader nextId text ⟨.error e, reader, nextId⟩
  | tree {tokens : List Token} {n : Node} {c : Cursor} (htokens : tokenize text = .ok tokens)
      (hc : c.Among tokens 0) (hrest : c.rest = []) :
      Outcome reader nextId text ⟨.ok n, ⟨tokens, c.read, c.depth⟩, c.nextId⟩
  | stop {tokens : List Token} {s : Stop} {c : Cursor} (htokens : tokenize text = .ok tokens)
      (hc : c.Among tokens 0) (htoken : s.token = c.rest.head?)
      (hend : s.fault.atEnd = s.token.isNone) :
      Outcome reader nextId text
        ⟨.error ⟨s.fault, s.position tokens⟩, ⟨tokens, c.read, c.depth⟩, c.nextId⟩

theorem Reader.read_outcome (reader : Reader) (nextId : Nat) (text : String) :
    Outcome reader nextId text (reader.read nextId text) := by
  unfold Reader.read
  cases htokens : tokenize text with
  | error e => exact .uncut htokens
  | ok tokens =>
      have hlands := grammar_lands tokens nextId
      dsimp only
      cases hresult : grammar ⟨tokens, 0, 0, nextId⟩ with
      | ok n c =>
          rw [hresult] at hlands
          cases hlands with
          | ok hc => exact .tree htokens hc (rest_of_grammar hresult)
      | error s c =>
          rw [hresult] at hlands
          cases hlands with
          | error hc htoken hend => exact .stop htokens hc htoken hend

end Railroad.Ebnf
