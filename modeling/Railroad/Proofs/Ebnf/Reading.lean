import Railroad.Proofs.Ebnf.Derivation
/-!
What the steps of a reader do to the words before its cursor.

Every step gets one equation or one inversion lemma here; the proofs about whole readings cite these and
do not open the steps again.
-/
namespace Railroad.Ebnf

open Reading Word Railroad.Ebnf.Derivation

theorem Token.isSymbol_iff (t : Token) (text : String) :
    t.isSymbol text = true ↔ t.word = punct text := by
  simp [Token.isSymbol, Token.word, punct]

theorem Token.isOpening_iff (t : Token) : t.isOpening = true ↔ t.word.opens := by
  simp [Token.isOpening, Word.opens, Token.isSymbol_iff]

theorem Token.endsTerm_iff (t : Token) : t.endsTerm = true ↔ t.word.endsTerm := by
  simp [Token.endsTerm, Word.endsTerm, Token.isSymbol_iff, Token.word]

namespace Cursor

/-- The tokens not read yet, without their places. -/
def words (c : Cursor) : List Word :=
  c.rest.map Token.word

/-- The cursor after the next token. -/
def advanced (c : Cursor) : Cursor :=
  { c with rest := c.rest.tail, read := c.read + 1 }

/-- The cursor after a node has been made. -/
def counted (c : Cursor) : Cursor :=
  { c with nextId := c.nextId + 1 }

/-- The cursor with another number of open brackets. -/
def withDepth (c : Cursor) (depth : Nat) : Cursor :=
  { c with depth }

@[simp] theorem words_counted (c : Cursor) : c.counted.words = c.words := rfl

@[simp] theorem words_withDepth (c : Cursor) (depth : Nat) :
    (c.withDepth depth).words = c.words := rfl

@[simp] theorem words_advanced (c : Cursor) : c.advanced.words = c.words.tail :=
  List.map_tail

@[simp] theorem length_words (c : Cursor) : c.words.length = c.rest.length :=
  List.length_map _

theorem words_of_rest {c : Cursor} {t : Token} {ts : List Token} (h : c.rest = t :: ts) :
    c.words = t.word :: c.advanced.words := by
  simp [words, advanced, h]

theorem rest_of_words {c : Cursor} {w : Word} {ws : List Word} (h : c.words = w :: ws) :
    ∃ t ts, c.rest = t :: ts ∧ t.word = w ∧ c.advanced.words = ws := by
  obtain ⟨t, ts, hrest, hword, hwords⟩ := List.map_eq_cons_iff.mp h
  exact ⟨t, ts, hrest, hword, by rw [words_advanced, h, List.tail_cons]⟩

end Cursor

open Cursor

section Steps

variable {β γ : Type} {c c' : Cursor}

theorem bind_eq_ok {x : Reading β} {f : β → Reading γ} {b : γ} :
    (x >>= f) c = .ok b c' ↔ ∃ a c₁, x c = .ok a c₁ ∧ f a c₁ = .ok b c' := by
  change EStateM.bind x f c = .ok b c' ↔ _
  unfold EStateM.bind
  constructor
  · intro h
    split at h
    · exact ⟨_, _, ‹_›, h⟩
    · cases h
  · rintro ⟨a, c₁, hx, hf⟩
    simp only [hx, hf]

theorem bind_of_ok {x : Reading β} {f : β → Reading γ} {a : β} {c₁ : Cursor}
    (h : x c = .ok a c₁) : (x >>= f) c = f a c₁ := by
  change EStateM.bind x f c = _
  simp only [EStateM.bind, h]

@[simp] theorem pure_eq (b : β) : (pure b : Reading β) c = .ok b c := rfl

@[simp] theorem get_eq : (get : Reading Cursor) c = .ok c c := rfl

@[simp] theorem peek_eq : peek c = .ok c.rest.head? c := rfl

@[simp] theorem advance_eq : advance c = .ok () c.advanced := rfl

@[simp] theorem node_eq (make : Nat → Node) : node make c = .ok (make c.nextId) c.counted := rfl

@[simp] theorem left_eq : left c = .ok c.rest.length c := rfl

theorem expected_ne_ok (what : Expectation) (b : β) :
    (expected what : Reading β) c ≠ .ok b c' := by
  intro h
  cases h

theorem atSymbol_eq (text : String) :
    atSymbol text c = .ok (decide (c.words.head? = some (punct text))) c := by
  change EStateM.Result.ok _ c = _
  congr 1
  rw [Bool.eq_iff_iff, decide_eq_true_iff]
  cases hrest : c.rest <;> simp [words, hrest, Token.isSymbol_iff]

theorem atSymbol_cons (text : String) {w : Word} {ws : List Word} (h : c.words = w :: ws) :
    atSymbol text c = .ok (decide (w = punct text)) c := by
  simp [atSymbol_eq, h]

/-- Only the symbol itself is stepped over. -/
theorem symbol_eq_ok {text : String} {u : Unit} (h : symbol text c = .ok u c') :
    c.words = punct text :: c'.words := by
  rw [symbol, bind_of_ok (atSymbol_eq text)] at h
  split at h
  · rename_i hat
    rw [decide_eq_true_iff] at hat
    rw [advance_eq] at h
    cases h
    obtain ⟨ws, hws⟩ := List.head?_eq_some_iff.mp hat
    rw [words_advanced, hws, List.tail_cons]
  · exact absurd h (expected_ne_ok _ _)

theorem symbol_of_words {text : String} {ws : List Word} (h : c.words = punct text :: ws) :
    symbol text c = .ok () c.advanced := by
  rw [symbol, bind_of_ok (atSymbol_cons text h)]
  simp

theorem cons_eq_ok {one : Reading β} {more : Reading (List β)} {bs : List β} :
    (do let b ← one; return b :: (← more)) c = .ok bs c' ↔
      ∃ b c₁ rest, one c = .ok b c₁ ∧ more c₁ = .ok rest c' ∧ bs = b :: rest := by
  constructor
  · intro h
    obtain ⟨b, c₁, hone, h⟩ := bind_eq_ok.mp h
    obtain ⟨rest, c₂, hmore, h⟩ := bind_eq_ok.mp h
    cases h
    exact ⟨b, c₁, rest, hone, hmore, rfl⟩
  · rintro ⟨b, c₁, rest, hone, hmore, rfl⟩
    rw [bind_of_ok hone, bind_of_ok hmore]
    rfl

theorem nested_eq_ok {inside : Reading Node} {n : Node} :
    nested inside c = .ok n c' ↔
      ∃ c₁, inside (c.withDepth (c.depth + 1)) = .ok n c₁ ∧ c' = c₁.withDepth (c₁.depth - 1) := by
  unfold nested Cursor.withDepth
  constructor
  · intro h
    split at h
    · rename_i hinside
      cases h
      exact ⟨_, hinside, rfl⟩
    · cases h
  · rintro ⟨c₁, hinside, rfl⟩
    simp only [hinside]

end Steps

section Rules

variable {c c' : Cursor} {t : Token} {ts : List Token}

theorem factor_eq (bracket : Token → Reading Node) (h : c.rest = t :: ts) :
    factor bracket c =
      match t.kind with
      | .ident => .ok (.identifier c.nextId t.text) c.advanced.counted
      | .string => .ok (.literal c.nextId (String.ofList t.inner) .quoted) c.advanced.counted
      | .special =>
          .ok (.literal c.nextId (String.ofList (Text.strip t.inner)) .special) c.advanced.counted
      | _ => if t.isOpening then bracket t c else (expected .expression : Reading Node) c := by
  rw [factor, bind_of_ok peek_eq]
  simp only [h, List.head?_cons]
  cases t.kind
  case define | punct => cases t.isOpening <;> rfl
  all_goals rfl

theorem factor_ne_ok_of_nil (bracket : Token → Reading Node) {n : Node} (h : c.rest = []) :
    factor bracket c ≠ .ok n c' := by
  rw [factor, bind_of_ok peek_eq, h]
  exact expected_ne_ok _ _

variable {one : Reading Node} {bound : Nat}

theorem moreFactors_comma (h : c.rest = t :: ts) (hcomma : t.isSymbol "," = true) :
    moreFactors one (bound + 1) c =
      (do let n ← one; return n :: (← moreFactors one bound) : Reading (List Node)) c.advanced := by
  rw [moreFactors, bind_of_ok peek_eq]
  simp only [h, List.head?_cons, hcomma, if_true]
  rfl

theorem moreFactors_next (h : c.rest = t :: ts) (hcomma : t.isSymbol "," = false)
    (hends : t.endsTerm = false) :
    moreFactors one (bound + 1) c =
      (do let n ← one; return n :: (← moreFactors one bound) : Reading (List Node)) c := by
  rw [moreFactors, bind_of_ok peek_eq]
  simp only [h, List.head?_cons, hcomma, hends, Bool.false_eq_true, if_false]

theorem moreFactors_end (h : c.rest = t :: ts) (hcomma : t.isSymbol "," = false)
    (hends : t.endsTerm = true) : moreFactors one (bound + 1) c = .ok [] c := by
  rw [moreFactors, bind_of_ok peek_eq]
  simp only [h, List.head?_cons, hcomma, hends, Bool.false_eq_true, if_false, if_true]
  rfl

theorem moreFactors_nil (h : c.rest = []) : moreFactors one bound c = .ok [] c := by
  cases bound with
  | zero => rfl
  | succ bound =>
      rw [moreFactors, bind_of_ok peek_eq, h]
      rfl

theorem moreTerms_bar {ws : List Word} (h : c.words = punct "|" :: ws) :
    moreTerms one (bound + 1) c =
      (do let n ← term one; return n :: (← moreTerms one bound) : Reading (List Node))
        c.advanced := by
  rw [moreTerms, bind_of_ok (atSymbol_cons "|" h)]
  rfl

theorem moreTerms_end (h : c.words.head? ≠ some (punct "|")) :
    moreTerms one bound c = .ok [] c := by
  cases bound with
  | zero => rfl
  | succ bound =>
      rw [moreTerms, bind_of_ok (atSymbol_eq "|")]
      simp only [h, decide_false, Bool.false_eq_true, if_false]
      rfl

/-- A single node stands for itself, several are made into one. -/
def gather (make : Nat → List Node → Node) (first : Node) (rest : List Node) : Reading Node :=
  match rest with
  | [] => return first
  | rest => node (make · (first :: rest))

theorem gather_eq (make : Nat → List Node → Node)
    (hmake : ∀ i ns, (make i ns).unnumbered = make 0 (ns.map Node.unnumbered)) (first : Node)
    (rest : List Node) :
    ∃ n c', gather make first rest c = .ok n c' ∧ c'.words = c.words ∧
      n.unnumbered = bundle (make 0) (first.unnumbered :: rest.map Node.unnumbered) := by
  cases rest with
  | nil => exact ⟨first, c, rfl, rfl, rfl⟩
  | cons m ms => exact ⟨_, c.counted, rfl, rfl, hmake _ _⟩

theorem term_eq :
    term one = (do
      let first ← one
      let rest ← moreFactors one (← left)
      gather .sequence first rest) := rfl

theorem alternatives_eq :
    alternatives one = (do
      let first ← term one
      let rest ← moreTerms one (← left)
      gather .alternation first rest) := rfl

theorem unnumbered_sequence (i : Nat) (ns : List Node) :
    (Node.sequence i ns).unnumbered = .sequence 0 (ns.map Node.unnumbered) := by
  rw [Node.unnumbered, Node.unnumberedList_eq_map]

theorem unnumbered_alternation (i : Nat) (ns : List Node) :
    (Node.alternation i ns).unnumbered = .alternation 0 (ns.map Node.unnumbered) := by
  rw [Node.unnumbered, Node.unnumberedList_eq_map]

/-- What a reader does at an opening bracket if so many more may be opened. -/
def bracketWithin (budget : Nat) (t : Token) : Reading Node :=
  match budget with
  | 0 => throw ⟨.tooDeep, some t⟩
  | budget + 1 => do
      advance
      nested (bracketed (expressionWithin budget) t)

/-- A factor that opens at most `budget` brackets inside one another. -/
def factorWithin (budget : Nat) : Reading Node :=
  factor (bracketWithin budget)

theorem expressionWithin_eq (budget : Nat) :
    expressionWithin budget = alternatives (factorWithin budget) := by
  cases budget <;> rfl

end Rules

section Brackets

variable {c c' : Cursor} {expression : Reading Node} {t : Token}

theorem bracketed_group (h : t.text = "(") :
    bracketed expression t = (do
      let body ← expression
      symbol ")"
      return body) := by
  simp only [bracketed, h, if_true]

theorem bracketed_optional (h : t.text = "[") :
    bracketed expression t = (do
      let body ← expression
      symbol "]"
      node (.optional · (some body))) := by
  simp only [bracketed, h, String.reduceEq, if_true, if_false]

theorem bracketed_repetition (h : t.text = "\x7b") :
    bracketed expression t = (do
      let body ← expression
      symbol "\x7d"
      node (.repetition · (some body))) := by
  simp only [bracketed, h, String.reduceEq, if_true, if_false]

/-- The separator of a loop, if there is one. -/
def separator (expression : Reading Node) : Reading (Option Node) := do
  if ← atSymbol "/" then
    advance
    some <$> expression
  else
    return none

theorem bracketed_loop (h : t.text = "<") :
    bracketed expression t = (do
      let body ← expression
      let other ← separator expression
      symbol ">"
      node (.oneOrMore · (some body) other)) := by
  simp only [bracketed, h, String.reduceEq, if_false]
  congr 1
  funext body
  rw [separator, bind_assoc]
  congr 1
  funext slash
  cases slash
  case true => exact (bind_assoc _ _ _).symm
  case false => rfl

/-- A node is made once a closing symbol has been stepped over. -/
theorem close_eq_ok {text : String} {make : Nat → Node} {n : Node}
    (h : (do symbol text; node make) c = .ok n c') :
    c.words = punct text :: c'.words ∧ ∃ i, n = make i := by
  obtain ⟨u, c₁, hclose, h⟩ := bind_eq_ok.mp h
  have hwords := symbol_eq_ok hclose
  rw [node_eq] at h
  cases h
  exact ⟨hwords, _, rfl⟩

end Brackets

section Grammars

variable {c c' : Cursor}

/-- What ends a production, and the production itself. -/
def closeProduction (name : String) (body : Node) : Reading Node := do
  if (← atSymbol ".") || (← atSymbol ";") then
    advance
    let name ← node (.identifier · name)
    node (.production · (some name) (some body))
  else
    expected (.terminator name)

theorem production_eq {t s : Token} {ts : List Token} (h : c.rest = t :: s :: ts)
    (ht : t.kind = .ident) (hs : s.kind = .define) :
    production c =
      (do let body ← expression; closeProduction t.text body : Reading Node)
        c.advanced.advanced := by
  rw [production, bind_of_ok peek_eq]
  simp only [h, List.head?_cons, ht, if_true]
  rw [bind_of_ok advance_eq, bind_of_ok peek_eq]
  simp only [Cursor.advanced, h, List.tail_cons, List.head?_cons, Option.any_some, hs, decide_true,
    if_true]
  rfl

theorem production_eq_ok {n : Node} (h : production c = .ok n c') :
    ∃ t s ts, c.rest = t :: s :: ts ∧ t.kind = .ident ∧ s.kind = .define := by
  rw [production, bind_of_ok peek_eq] at h
  cases hrest : c.rest with
  | nil =>
      rw [hrest] at h
      exact absurd h (expected_ne_ok _ _)
  | cons t ts =>
      simp only [hrest, List.head?_cons] at h
      split at h
      case isFalse => exact absurd h (expected_ne_ok _ _)
      rename_i hident
      rw [bind_of_ok advance_eq, bind_of_ok peek_eq] at h
      cases ts with
      | nil =>
          simp only [Cursor.advanced, hrest, List.tail_cons, List.head?_nil, Option.any_none,
            Bool.false_eq_true, if_false] at h
          exact absurd h (expected_ne_ok _ _)
      | cons s ts =>
          simp only [Cursor.advanced, hrest, List.tail_cons, List.head?_cons, Option.any_some] at h
          split at h
          case isFalse => exact absurd h (expected_ne_ok _ _)
          rename_i hdefine
          exact ⟨t, s, ts, rfl, hident, of_decide_eq_true hdefine⟩

theorem closeProduction_of_words {name stop : String} {body : Node} {ws : List Word}
    (h : c.words = punct stop :: ws) (hstop : stop = "." ∨ stop = ";") :
    closeProduction name body c =
      .ok (.production (c.nextId + 1) (some (.identifier c.nextId name)) (some body))
        c.advanced.counted.counted := by
  rw [closeProduction, bind_of_ok (atSymbol_cons "." h), bind_of_ok (atSymbol_cons ";" h)]
  rcases hstop with rfl | rfl <;> rfl

theorem closeProduction_eq_ok {name : String} {body n : Node}
    (h : closeProduction name body c = .ok n c') :
    ∃ stop, (stop = "." ∨ stop = ";") ∧ c.words = punct stop :: c'.words ∧
      n = .production (c.nextId + 1) (some (.identifier c.nextId name)) (some body) := by
  have hstop : ∃ stop, (stop = "." ∨ stop = ";") ∧ c.words.head? = some (punct stop) := by
    rw [closeProduction, bind_of_ok (atSymbol_eq "."), bind_of_ok (atSymbol_eq ";")] at h
    split at h
    · rename_i hends
      rw [Bool.or_eq_true, decide_eq_true_iff, decide_eq_true_iff] at hends
      rcases hends with hdot | hsemicolon
      · exact ⟨".", .inl rfl, hdot⟩
      · exact ⟨";", .inr rfl, hsemicolon⟩
    · exact absurd h (expected_ne_ok _ _)
  obtain ⟨stop, hstop, hhead⟩ := hstop
  obtain ⟨ws, hws⟩ := List.head?_eq_some_iff.mp hhead
  rw [closeProduction_of_words hws hstop] at h
  cases h
  refine ⟨stop, hstop, ?_, rfl⟩
  rw [words_counted, words_counted, words_advanced, hws, List.tail_cons]

variable {inBlock : Bool} {bound : Nat}

theorem productions_end (h : ∀ t ∈ c.rest.head?, inBlock = true ∧ t.word = punct "\x7d") :
    productions inBlock bound c = .ok [] c := by
  cases bound with
  | zero => rfl
  | succ bound =>
      rw [productions, bind_of_ok peek_eq]
      cases hrest : c.rest with
      | nil => rfl
      | cons t ts =>
          have ⟨hblock, hword⟩ := h t (by rw [hrest]; rfl)
          simp only [List.head?_cons, hblock, (t.isSymbol_iff _).mpr hword, Bool.and_true, if_true]
          rfl

theorem productions_next {t : Token} {ts : List Token} (h : c.rest = t :: ts)
    (ht : ¬ (inBlock = true ∧ t.word = punct "\x7d")) :
    productions inBlock (bound + 1) c =
      (do let p ← production; return p :: (← productions inBlock bound) : Reading (List Node))
        c := by
  rw [productions, bind_of_ok peek_eq]
  simp only [h, List.head?_cons, Bool.and_eq_true, t.isSymbol_iff, ht, if_false]

/-- Productions end where they are closed, or go on with one more. -/
theorem productions_cases {ps : List Node} (h : productions inBlock (bound + 1) c = .ok ps c') :
    (∀ t ∈ c.rest.head?, inBlock = true ∧ t.word = punct "\x7d") ∧ ps = [] ∧ c' = c ∨
      ∃ p c₁ rest, production c = .ok p c₁ ∧ productions inBlock bound c₁ = .ok rest c' ∧
        ps = p :: rest := by
  by_cases hend : ∀ t ∈ c.rest.head?, inBlock = true ∧ t.word = punct "\x7d"
  · rw [productions_end hend] at h
    cases h
    exact .inl ⟨hend, rfl, rfl⟩
  · obtain ⟨t, hhead, ht⟩ : ∃ t, c.rest.head? = some t ∧
        ¬ (inBlock = true ∧ t.word = punct "\x7d") := by
      simpa using hend
    obtain ⟨ts, hrest⟩ := List.head?_eq_some_iff.mp hhead
    rw [productions_next hrest ht] at h
    exact .inr (cons_eq_ok.mp h)

/-- Whether a block with a title comes next. -/
def Titled (ws : List Word) : Prop :=
  ∃ text rest, ws = ⟨.string, text⟩ :: punct "\x7b" :: rest

theorem title_present {text : String} {ws : List Word}
    (h : c.words = ⟨.string, text⟩ :: punct "\x7b" :: ws) :
    title c = .ok (some (.literal c.nextId (String.ofList (unmarked text)) .title))
      c.advanced.counted := by
  obtain ⟨t, ts, hrest, hword, hwords⟩ := rest_of_words h
  obtain ⟨s, ss, rfl, hword', -⟩ := List.map_eq_cons_iff.mp
    (show ts.map Token.word = _ by simpa [words, Cursor.advanced, hrest] using hwords)
  have hkind : t.kind = .string := congrArg Word.kind hword
  have htext : t.text = text := congrArg Word.text hword
  have hsymbol := (s.isSymbol_iff _).mpr hword'
  rw [title, bind_of_ok get_eq]
  simp only [hrest, hkind, hsymbol, decide_true, Bool.and_self, if_true, ← htext]
  rfl

theorem title_missing (h : ¬ Titled c.words) : title c = .ok none c := by
  rw [title, bind_of_ok get_eq]
  cases hrest : c.rest with
  | nil => rfl
  | cons t ts =>
      cases ts with
      | nil => rfl
      | cons s ss =>
          have hfirst : (t.kind = .string && s.isSymbol "\x7b") ≠ true := by
            intro htitle
            rw [Bool.and_eq_true, decide_eq_true_iff, s.isSymbol_iff] at htitle
            refine h ⟨t.text, ss.map Token.word, ?_⟩
            simp [words, hrest, Token.word, ← htitle.1, ← htitle.2]
          simp only [hfirst]
          rfl

theorem closingComment_present {text : String} {ws : List Word}
    (h : c.words = ⟨.string, text⟩ :: ws) :
    closingComment c =
      .ok (some (.other c.nextId (String.ofList (unmarked text)))) c.counted.advanced := by
  obtain ⟨t, ts, hrest, hword, -⟩ := rest_of_words h
  have hkind : t.kind = .string := congrArg Word.kind hword
  have htext : t.text = text := congrArg Word.text hword
  rw [closingComment, bind_of_ok peek_eq]
  simp only [hrest, List.head?_cons, hkind, if_true, ← htext]
  rfl

theorem closingComment_missing (h : ∀ w ∈ c.words.head?, w.kind ≠ .string) :
    closingComment c = .ok none c := by
  rw [closingComment, bind_of_ok peek_eq]
  cases hrest : c.rest with
  | nil => rfl
  | cons t ts =>
      have hkind : t.kind ≠ .string := h t.word (by rw [words_of_rest hrest]; rfl)
      simp only [List.head?_cons, hkind, if_false]
      rfl

theorem productionList_eq_ok {n : Node} :
    productionList inBlock c = .ok n c' ↔
      ∃ ps c₁, productions inBlock c.rest.length c = .ok ps c₁ ∧
        n = .productionList c₁.nextId ps ∧ c' = c₁.counted := by
  rw [productionList, bind_of_ok left_eq]
  constructor
  · intro h
    obtain ⟨ps, c₁, hps, h⟩ := bind_eq_ok.mp h
    cases h
    exact ⟨ps, c₁, hps, rfl, rfl⟩
  · rintro ⟨ps, c₁, hps, rfl, rfl⟩
    rw [bind_of_ok hps, node_eq]

/-- The root, if the text ends here. -/
def finish (make : Nat → Node) : Reading Node := do
  if (← peek).isSome then
    expected .endOfInput
  node make

/-- A block and what follows it. -/
def block (heading : Option Node) : Reading Node := do
  advance
  let list ← productionList true
  symbol "\x7d"
  let comment ← closingComment
  finish (.grammar · heading (some list) comment)

theorem grammar_eq :
    grammar = (do
      let heading ← title
      if ← atSymbol "\x7b" then
        block heading
      else
        let list ← productionList false
        node (.grammar · none (some list) none)) := rfl

theorem finish_eq_ok {make : Nat → Node} {n : Node} (h : finish make c = .ok n c') :
    c.words = [] ∧ n = make c.nextId := by
  rw [finish, bind_of_ok peek_eq] at h
  cases hrest : c.rest with
  | nil =>
      simp only [hrest, List.head?_nil, Option.isSome_none, Bool.false_eq_true, if_false] at h
      cases h
      exact ⟨by rw [words, hrest, List.map_nil], rfl⟩
  | cons t ts =>
      simp only [hrest, List.head?_cons, Option.isSome_some, if_true] at h
      obtain ⟨u, c₁, hexpected, -⟩ := bind_eq_ok.mp h
      exact absurd hexpected (expected_ne_ok _ _)

theorem finish_of_nil {make : Nat → Node} (h : c.words = []) :
    finish make c = .ok (make c.nextId) c.counted := by
  rw [finish, bind_of_ok peek_eq, List.map_eq_nil_iff.mp h]
  rfl

end Grammars

end Railroad.Ebnf
