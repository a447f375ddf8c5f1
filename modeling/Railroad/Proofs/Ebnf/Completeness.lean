import Railroad.Proofs.Ebnf.Reading
/-!
What derives is accepted: a reader at the start of derived words steps over exactly these and returns
the tree of the derivation, whatever follows that cannot belong to them.
-/
namespace Railroad.Ebnf

open Reading Word Railroad.Ebnf.Derivation Cursor

/-- A reading succeeds with a value of which a view is given, and so many words are left then. -/
def Accepts {β γ : Type} (view : β → γ) (reading : Reading β) (c : Cursor) (v : γ)
    (left : List Word) : Prop :=
  ∃ b c', reading c = .ok b c' ∧ view b = v ∧ c'.words = left

/-- Nothing that could be another factor of a term. -/
def TermEnds (ws : List Word) : Prop :=
  ∀ w ∈ ws.head?, w.endsTerm

/-- Nothing that could be another factor or another term of an expression. -/
def ExpressionEnds (ws : List Word) : Prop :=
  ∀ w ∈ ws.head?, w.endsTerm ∧ w ≠ punct "|"

theorem ExpressionEnds.termEnds {ws : List Word} (h : ExpressionEnds ws) : TermEnds ws :=
  fun w hw => (h w hw).1

theorem expressionEnds_punct {text : String} (ws : List Word)
    (h : text ∈ [")", "]", "\x7d", ">", "/", ".", ";"]) : ExpressionEnds (punct text :: ws) := by
  intro w hw
  obtain rfl := Option.some.inj hw
  simp only [List.mem_cons, List.not_mem_nil, or_false] at h
  rcases h with rfl | rfl | rfl | rfl | rfl | rfl | rfl <;> simp [endsTerm, punct]

theorem kind_of_word {t : Token} {w : Word} (h : t.word = w) : t.kind = w.kind :=
  congrArg Word.kind h

theorem text_of_word {t : Token} {w : Word} (h : t.word = w) : t.text = w.text :=
  congrArg Word.text h

theorem not_endsTerm_of_opens {w : Word} (h : w.opens) : ¬ w.endsTerm ∧ w ≠ punct "," := by
  simp only [opens, List.map_cons, List.map_nil, List.mem_cons, List.not_mem_nil, or_false] at h
  rcases h with rfl | rfl | rfl | rfl <;> simp [endsTerm, punct]

/-- A factor is not empty, and its first word neither ends a term nor is a comma. -/
theorem Derivation.Factor.starts {k : Nat} {ws : List Word} {n : Node} (h : Factor k ws n) :
    ∃ w vs, ws = w :: vs ∧ ¬ w.endsTerm ∧ w ≠ punct "," := by
  cases h with
  | identifier text | string text | special text =>
      exact ⟨_, [], rfl, by simp [endsTerm, punct], by simp [punct]⟩
  | group | optional | repetition | loop | separatedLoop =>
      exact ⟨_, _, rfl, not_endsTerm_of_opens (by simp [opens])⟩

/-- More terms, and what follows them, cannot belong to the term before. -/
theorem Derivation.Terms.ends {k : Nat} {ws us : List Word} {ns : List Node} (h : Terms k ws ns)
    (hends : ExpressionEnds us) : TermEnds (ws ++ us) := by
  cases h with
  | nil => exact hends.termEnds
  | bar =>
      intro w hw
      obtain rfl := Option.some.inj hw
      simp [endsTerm, punct]

section Expressions

variable {k : Nat} {c : Cursor}

theorem accepts_bind {β γ δ : Type} {view : γ → δ} {x : Reading β} {f : β → Reading γ} {b : β}
    {c₁ : Cursor} {v : δ} {us : List Word} (hx : x c = .ok b c₁)
    (hf : Accepts view (f b) c₁ v us) : Accepts view (x >>= f) c v us := by
  obtain ⟨d, c₂, hd, hv, hus⟩ := hf
  exact ⟨d, c₂, by rw [bind_of_ok hx, hd], hv, hus⟩

theorem accepts_close {text : String} {make : Nat → Node} {r : Node} {us : List Word}
    (hc : c.words = punct text :: us) (hmake : ∀ i, (make i).unnumbered = r) :
    Accepts Node.unnumbered (do symbol text; node make) c r us := by
  refine ⟨make c.nextId, c.advanced.counted, ?_, hmake _, ?_⟩
  · rw [bind_of_ok (symbol_of_words hc), node_eq]
    rfl
  · rw [words_counted, words_advanced, hc, List.tail_cons]

theorem accepts_cons {one : Reading Node} {more : Reading (List Node)} {n : Node} {ns : List Node}
    {vs us : List Word} (hone : Accepts Node.unnumbered one c n vs)
    (hmore : ∀ {c₁ : Cursor}, c₁.words = vs →
      Accepts (List.map Node.unnumbered) more c₁ ns us) :
    Accepts (List.map Node.unnumbered) (do let n ← one; return n :: (← more)) c (n :: ns) us := by
  obtain ⟨m, c₁, hm, hn, hvs⟩ := hone
  obtain ⟨ms, c₂, hms, hns, hus⟩ := hmore hvs
  exact ⟨m :: ms, c₂, cons_eq_ok.mpr ⟨m, c₁, ms, hm, hms, rfl⟩, by rw [List.map_cons, hn, hns], hus⟩

/-- The rest of a list is read in front of what it is gathered from. -/
theorem accepts_gather {one : Reading Node} {more : Nat → Reading (List Node)}
    {make : Nat → List Node → Node}
    (hmake : ∀ i ns, (make i ns).unnumbered = make 0 (ns.map Node.unnumbered)) {n : Node}
    {ns : List Node} {vs us : List Word} (hone : Accepts Node.unnumbered one c n vs)
    (hmore : ∀ {c₁ : Cursor}, c₁.words = vs →
      Accepts (List.map Node.unnumbered) (more vs.length) c₁ ns us) :
    Accepts Node.unnumbered (do
      let first ← one
      let rest ← more (← left)
      gather make first rest) c (bundle (make 0) (n :: ns)) us := by
  obtain ⟨m, c₁, hm, hn, hvs⟩ := hone
  obtain ⟨ms, c₂, hms, hns, hus⟩ := hmore hvs
  obtain ⟨r, c₃, hgather, hwords, hr⟩ := gather_eq (c := c₂) make hmake m ms
  refine ⟨r, c₃, ?_, by rw [hr, hn, hns], by rw [hwords, hus]⟩
  rw [bind_of_ok hm, bind_of_ok left_eq, ← length_words, hvs, bind_of_ok hms, hgather]

theorem moreFactors_of_termEnds (one : Reading Node) (bound : Nat) (h : TermEnds c.words) :
    moreFactors one bound c = .ok [] c := by
  cases hrest : c.rest with
  | nil => exact moreFactors_nil hrest
  | cons t ts =>
      cases bound with
      | zero => rfl
      | succ bound =>
          have hends : t.word.endsTerm := h _ (by rw [words_of_rest hrest, List.head?_cons]; rfl)
          refine moreFactors_end hrest ?_ (t.endsTerm_iff.mpr hends)
          rw [← Bool.not_eq_true, t.isSymbol_iff]
          intro hcomma
          rw [hcomma] at hends
          simp [endsTerm, punct] at hends

/-- An opening bracket is stepped over, and what it opens is read one level deeper. -/
theorem factorWithin_opens {w : Word} {vs us : List Word} {n : Node} (hopens : w.opens)
    (hc : c.words = w :: vs)
    (inside : ∀ {t : Token} {c₁ : Cursor}, t.text = w.text → c₁.words = vs →
      Accepts Node.unnumbered (bracketed (expressionWithin k) t) c₁ n us) :
    Accepts Node.unnumbered (factorWithin (k + 1)) c n us := by
  obtain ⟨t, ts, hrest, hword, hwords⟩ := rest_of_words hc
  have hinside : Accepts Node.unnumbered (bracketed (expressionWithin k) t)
      (c.advanced.withDepth (c.advanced.depth + 1)) n us :=
    inside (congrArg Word.text hword) hwords
  obtain ⟨m, c₁, hm, hn, hus⟩ := hinside
  refine ⟨m, c₁.withDepth (c₁.depth - 1), ?_, hn, hus⟩
  have hkind : t.kind = .punct := by
    have hkind : t.kind = w.kind := congrArg Word.kind hword
    simp only [opens, List.map_cons, List.map_nil, List.mem_cons, List.not_mem_nil, or_false]
      at hopens
    rcases hopens with rfl | rfl | rfl | rfl <;> exact hkind
  have hopening : t.isOpening = true := t.isOpening_iff.mpr (hword ▸ hopens)
  rw [factorWithin, factor_eq _ hrest]
  simp only [hkind, hopening, if_true]
  rw [bracketWithin, bind_of_ok advance_eq]
  exact nested_eq_ok.mpr ⟨c₁, hm, rfl⟩

theorem factorWithin_leaf {w : Word} {us : List Word} {n : Node} (hc : c.words = w :: us)
    (hleaf : ∀ {t : Token} {ts : List Token}, c.rest = t :: ts → t.word = w →
      ∃ m, factorWithin k c = .ok m c.advanced.counted ∧ m.unnumbered = n) :
    Accepts Node.unnumbered (factorWithin k) c n us := by
  obtain ⟨t, ts, hrest, hword, hwords⟩ := rest_of_words hc
  obtain ⟨m, hm, hn⟩ := hleaf hrest hword
  exact ⟨m, c.advanced.counted, hm, hn, hwords⟩

end Expressions

mutual
theorem Derivation.Factor.accepted {k : Nat} {ws : List Word} {n : Node} (h : Factor k ws n)
    {c : Cursor} {us : List Word} (hc : c.words = ws ++ us) :
    Accepts Node.unnumbered (factorWithin k) c n us := by
  -- By recursion on the derivation; the words behind the factor are left to whoever reads on.
  match h with
  | .identifier text =>
      apply factorWithin_leaf hc
      intro t ts hrest hword
      refine ⟨.identifier c.nextId text, ?_, rfl⟩
      rw [factorWithin, factor_eq _ hrest]
      simp only [kind_of_word hword, text_of_word hword]
  | .string text =>
      apply factorWithin_leaf hc
      intro t ts hrest hword
      refine ⟨.literal c.nextId (String.ofList (unmarked text)) .quoted, ?_, rfl⟩
      rw [factorWithin, factor_eq _ hrest]
      simp only [kind_of_word hword, Token.inner, text_of_word hword, unmarked]
  | .special text =>
      apply factorWithin_leaf hc
      intro t ts hrest hword
      refine ⟨.literal c.nextId (String.ofList (Text.strip (unmarked text))) .special, ?_, rfl⟩
      rw [factorWithin, factor_eq _ hrest]
      simp only [kind_of_word hword, Token.inner, text_of_word hword, unmarked]
  | .group body =>
      simp only [List.cons_append, List.append_assoc, List.nil_append] at hc
      apply factorWithin_opens (w := punct "(") (opens_punct (by decide)) hc
      intro t c₁ htext hc₁
      obtain ⟨m, c₂, hm, hn, hclose⟩ := body.accepted hc₁ (expressionEnds_punct _ (by decide))
      rw [bracketed_group htext]
      refine accepts_bind hm (accepts_bind (symbol_of_words hclose) ⟨m, _, rfl, hn, ?_⟩)
      rw [words_advanced, hclose, List.tail_cons]
  | .optional body =>
      simp only [List.cons_append, List.append_assoc, List.nil_append] at hc
      apply factorWithin_opens (w := punct "[") (opens_punct (by decide)) hc
      intro t c₁ htext hc₁
      obtain ⟨m, c₂, hm, hn, hclose⟩ := body.accepted hc₁ (expressionEnds_punct _ (by decide))
      rw [bracketed_optional htext]
      exact accepts_bind hm (accepts_close hclose (fun i => by simp [Node.unnumbered, hn]))
  | .repetition body =>
      simp only [List.cons_append, List.append_assoc, List.nil_append] at hc
      apply factorWithin_opens (w := punct "\x7b") (opens_punct (by decide)) hc
      intro t c₁ htext hc₁
      obtain ⟨m, c₂, hm, hn, hclose⟩ := body.accepted hc₁ (expressionEnds_punct _ (by decide))
      rw [bracketed_repetition htext]
      exact accepts_bind hm (accepts_close hclose (fun i => by simp [Node.unnumbered, hn]))
  | .loop body =>
      simp only [List.cons_append, List.append_assoc, List.nil_append] at hc
      apply factorWithin_opens (w := punct "<") (opens_punct (by decide)) hc
      intro t c₁ htext hc₁
      obtain ⟨m, c₂, hm, hn, hclose⟩ := body.accepted hc₁ (expressionEnds_punct _ (by decide))
      -- The sign that closes the loop is no slash.
      have hother : ∀ e : Reading Node, separator e c₂ = .ok none c₂ := by
        intro e
        rw [separator, bind_of_ok (atSymbol_cons "/" hclose)]
        simp [punct]
      rw [bracketed_loop htext]
      exact accepts_bind hm (accepts_bind (hother _)
        (accepts_close hclose (fun i => by simp [Node.unnumbered, hn])))
  | .separatedLoop body other =>
      simp only [List.cons_append, List.append_assoc, List.nil_append] at hc
      apply factorWithin_opens (w := punct "<") (opens_punct (by decide)) hc
      intro t c₁ htext hc₁
      obtain ⟨m, c₂, hm, hn, hslash⟩ := body.accepted hc₁ (expressionEnds_punct _ (by decide))
      obtain ⟨m', c₃, hm', hn', hclose⟩ := other.accepted (c := c₂.advanced)
        (by rw [words_advanced, hslash, List.tail_cons]) (expressionEnds_punct _ (by decide))
      have hother : ∀ e : Reading Node, e c₂.advanced = .ok m' c₃ →
          separator e c₂ = .ok (some m') c₃ := by
        intro e he
        rw [separator, bind_of_ok (atSymbol_cons "/" hslash)]
        simp only [decide_true, if_true]
        rw [bind_of_ok advance_eq, map_eq_pure_bind, bind_of_ok he, pure_eq]
      rw [bracketed_loop htext]
      exact accepts_bind hm (accepts_bind (hother _ hm')
        (accepts_close hclose (fun i => by simp [Node.unnumbered, hn, hn'])))

theorem Derivation.Factors.accepted {k : Nat} {ws : List Word} {ns : List Node}
    (h : Factors k ws ns) (bound : Nat) {c : Cursor} {us : List Word} (hc : c.words = ws ++ us)
    (hends : TermEnds us) (hbound : ws.length ≤ bound) :
    Accepts (List.map Node.unnumbered) (moreFactors (factorWithin k) bound) c ns us := by
  match h with
  | .nil => exact ⟨[], c, moreFactors_of_termEnds _ _ (hc ▸ hends), rfl, hc⟩
  | .next first rest =>
      rw [List.append_assoc] at hc
      obtain ⟨w, vs, hws, hw, hcomma⟩ := first.starts
      -- Every factor takes a word, so a bound of as many words is never used up.
      obtain ⟨bound, rfl⟩ : ∃ b, bound = b + 1 :=
        Nat.exists_eq_add_one.mpr (by simp [hws] at hbound; omega)
      obtain ⟨t, ts, hrest, hword, -⟩ := rest_of_words (hws ▸ hc)
      have hnext : moreFactors (factorWithin k) (bound + 1) c = _ := moreFactors_next hrest
        (by rwa [← Bool.not_eq_true, t.isSymbol_iff, hword])
        (by rwa [← Bool.not_eq_true, t.endsTerm_iff, hword])
      obtain ⟨ms, c', hms, hview⟩ := accepts_cons (first.accepted hc) fun hc₁ =>
        rest.accepted bound hc₁ hends (by simp [hws] at hbound; omega)
      exact ⟨ms, c', by rw [hnext, hms], hview⟩
  | .comma first rest =>
      simp only [List.cons_append, List.append_assoc] at hc
      obtain ⟨bound, rfl⟩ : ∃ b, bound = b + 1 :=
        Nat.exists_eq_add_one.mpr (by simp at hbound; omega)
      obtain ⟨t, ts, hrest, hword, hwords⟩ := rest_of_words hc
      have hnext : moreFactors (factorWithin k) (bound + 1) c = _ := moreFactors_comma hrest
        ((t.isSymbol_iff _).mpr hword)
      obtain ⟨ms, c', hms, hview⟩ := accepts_cons (first.accepted hwords) fun hc₁ =>
        rest.accepted bound hc₁ hends (by simp at hbound; omega)
      exact ⟨ms, c', by rw [hnext, hms], hview⟩

theorem Derivation.Term.accepted {k : Nat} {ws : List Word} {n : Node} (h : Term k ws n)
    {c : Cursor} {us : List Word} (hc : c.words = ws ++ us) (hends : TermEnds us) :
    Accepts Node.unnumbered (term (factorWithin k)) c n us := by
  match h with
  | .intro first rest =>
      rw [List.append_assoc] at hc
      rw [term_eq]
      apply accepts_gather unnumbered_sequence (first.accepted hc)
      intro c₁ hc₁
      exact rest.accepted _ hc₁ hends (by simp)

theorem Derivation.Terms.accepted {k : Nat} {ws : List Word} {ns : List Node} (h : Terms k ws ns)
    (bound : Nat) {c : Cursor} {us : List Word} (hc : c.words = ws ++ us)
    (hends : ExpressionEnds us) (hbound : ws.length ≤ bound) :
    Accepts (List.map Node.unnumbered) (moreTerms (factorWithin k) bound) c ns us := by
  match h with
  | .nil =>
      refine ⟨[], c, moreTerms_end ?_, rfl, hc⟩
      rw [hc]
      exact fun hbar => (hends _ hbar).2 rfl
  | .bar first rest =>
      simp only [List.cons_append, List.append_assoc] at hc
      obtain ⟨bound, rfl⟩ : ∃ b, bound = b + 1 :=
        Nat.exists_eq_add_one.mpr (by simp at hbound; omega)
      have hwords := congrArg List.tail hc
      rw [← words_advanced, List.tail_cons] at hwords
      obtain ⟨ms, c', hms, hview⟩ := accepts_cons (first.accepted hwords (rest.ends hends))
        fun hc₁ => rest.accepted bound hc₁ hends (by simp at hbound; omega)
      exact ⟨ms, c', by rw [moreTerms_bar hc, hms], hview⟩

theorem Derivation.Expression.accepted {k : Nat} {ws : List Word} {n : Node}
    (h : Expression k ws n) {c : Cursor} {us : List Word} (hc : c.words = ws ++ us)
    (hends : ExpressionEnds us) : Accepts Node.unnumbered (expressionWithin k) c n us := by
  match h with
  | .intro first rest =>
      rw [List.append_assoc] at hc
      rw [expressionWithin_eq, alternatives_eq]
      apply accepts_gather unnumbered_alternation (first.accepted hc (rest.ends hends))
      intro c₁ hc₁
      exact rest.accepted _ hc₁ hends (by simp)
end

theorem Derivation.Production.accepted {ws : List Word} {n : Node}
    (h : Production Metrics.maxDepth ws n) {c : Cursor} {us : List Word}
    (hc : c.words = ws ++ us) : Accepts Node.unnumbered production c n us := by
  cases h with
  | intro name sign stop body hstop =>
      simp only [List.cons_append, List.append_assoc] at hc
      obtain ⟨t, ts, hrest, ht, hwords⟩ := rest_of_words hc
      obtain ⟨s, ss, hrest', hs, hwords'⟩ := rest_of_words hwords
      have htokens : c.rest = t :: s :: ss := by
        rw [hrest, ← hrest', Cursor.advanced, hrest, List.tail_cons]
      have hends : ExpressionEnds (punct stop :: us) :=
        expressionEnds_punct _ (by rcases hstop with rfl | rfl <;> simp)
      obtain ⟨m, c₁, hm, hn, hclose⟩ := body.accepted hwords' hends
      have hcall := production_eq htokens (kind_of_word ht) (kind_of_word hs)
      rw [expression, bind_of_ok hm, closeProduction_of_words hclose hstop] at hcall
      refine ⟨_, _, hcall, ?_, ?_⟩
      · simp [Node.unnumbered, hn, text_of_word ht]
      · rw [words_counted, words_counted, words_advanced, hclose, List.tail_cons]
        rfl

theorem Derivation.Production.starts {k : Nat} {ws : List Word} {n : Node}
    (h : Production k ws n) : ∃ name vs, ws = ⟨.ident, name⟩ :: vs := by
  cases h
  exact ⟨_, _, rfl⟩

theorem Derivation.Productions.accepted {ws : List Word} {ps : List Node}
    (h : Productions Metrics.maxDepth ws ps) (inBlock : Bool) (bound : Nat) {c : Cursor}
    {us : List Word} (hc : c.words = ws ++ us)
    (hends : ∀ w ∈ us.head?, inBlock = true ∧ w = punct "\x7d") (hbound : ws.length ≤ bound) :
    Accepts (List.map Node.unnumbered) (productions inBlock bound) c ps us := by
  induction h generalizing c bound with
  | nil =>
      refine ⟨[], c, productions_end ?_, rfl, hc⟩
      intro t ht
      obtain ⟨ts, hrest⟩ := List.head?_eq_some_iff.mp ht
      apply hends t.word
      rw [← List.nil_append us, ← hc, words_of_rest hrest]
      rfl
  | next first rest ih =>
      rw [List.append_assoc] at hc
      obtain ⟨name, vs, rfl⟩ := first.starts
      obtain ⟨bound, rfl⟩ : ∃ b, bound = b + 1 :=
        Nat.exists_eq_add_one.mpr (by simp at hbound; omega)
      obtain ⟨t, ts, hrest, hword, -⟩ := rest_of_words hc
      have hnext : productions inBlock (bound + 1) c = _ :=
        productions_next hrest (by rw [hword]; simp [punct])
      obtain ⟨ms, c', hms, hview⟩ := accepts_cons (first.accepted hc) fun hc₁ =>
        ih bound hc₁ (by simp at hbound; omega)
      exact ⟨ms, c', by rw [hnext, hms], hview⟩

theorem productionList_accepted {ws : List Word} {ps : List Node}
    (h : Productions Metrics.maxDepth ws ps) (inBlock : Bool) {c : Cursor} {us : List Word}
    (hc : c.words = ws ++ us) (hends : ∀ w ∈ us.head?, inBlock = true ∧ w = punct "\x7d") :
    Accepts Node.unnumbered (productionList inBlock) c (.productionList 0 ps) us := by
  obtain ⟨ms, c₁, hms, hps, hus⟩ :=
    h.accepted inBlock c.rest.length hc hends (by rw [← length_words, hc]; simp)
  exact ⟨_, _, productionList_eq_ok.mpr ⟨ms, c₁, hms, rfl, rfl⟩, by simp [Node.unnumbered, hps], hus⟩

theorem Derivation.Caption.accepted_title {ts : List Word} {title : Option Node}
    (h : Caption (.literal 0 · .title) ts title) {c : Cursor} {us : List Word}
    (hc : c.words = ts ++ punct "\x7b" :: us) :
    Accepts (Option.map Node.unnumbered) Ebnf.title c title (punct "\x7b" :: us) := by
  cases h with
  | missing =>
      refine ⟨none, c, title_missing ?_, rfl, hc⟩
      rintro ⟨text, rest, htitled⟩
      rw [hc] at htitled
      simp [punct] at htitled
  | present text =>
      refine ⟨_, _, title_present hc, by simp [Node.unnumbered], ?_⟩
      rw [words_counted, words_advanced, hc]
      rfl

theorem Derivation.Caption.accepted_comment {us : List Word} {comment : Option Node}
    (h : Caption (.other 0) us comment) {c : Cursor} (hc : c.words = us) :
    Accepts (Option.map Node.unnumbered) closingComment c comment [] := by
  cases h with
  | missing =>
      refine ⟨none, c, closingComment_missing ?_, rfl, hc⟩
      rw [hc]
      simp
  | present text =>
      refine ⟨_, _, closingComment_present hc, by simp [Node.unnumbered], ?_⟩
      rw [words_advanced, words_counted, hc]
      rfl

theorem Derivation.Grammar.accepted {n : Node} {c : Cursor}
    (h : Grammar Metrics.maxDepth c.words n) : Accepts Node.unnumbered grammar c n [] := by
  generalize hc : c.words = ws at h
  rw [grammar_eq]
  cases h with
  | block heading rules closing =>
      simp only [List.append_assoc, List.cons_append] at hc
      obtain ⟨t, c₁, ht, htitle, hc₁⟩ := heading.accepted_title hc
      have hinner := congrArg List.tail hc₁
      rw [← words_advanced, List.tail_cons] at hinner
      obtain ⟨list, c₂, hlist, hps, hc₂⟩ :=
        productionList_accepted rules true hinner (by simp)
      have houter := congrArg List.tail hc₂
      rw [← words_advanced, List.tail_cons] at houter
      obtain ⟨o, c₃, ho, hcomment, hc₃⟩ := closing.accepted_comment houter
      refine accepts_bind ht (accepts_bind (atSymbol_cons _ hc₁) ?_)
      simp only [decide_true, if_true]
      rw [Ebnf.block]
      refine accepts_bind advance_eq (accepts_bind hlist (accepts_bind (symbol_of_words hc₂)
        (accepts_bind ho ⟨_, _, finish_of_nil hc₃, ?_, by rw [words_counted, hc₃]⟩)))
      simp [Node.unnumbered, htitle, hps, hcomment]
  | bare rules =>
      -- Without a block the text begins with the name of a rule, or it is empty; neither a title nor a brace
      -- is met in front of it.
      have hplain : ∀ w ∈ c.words.head?, w.kind = .ident := by
        rw [hc]
        cases rules with
        | nil => simp
        | next first rest =>
            obtain ⟨name, vs, rfl⟩ := first.starts
            simp
      have htitle : title c = .ok none c := by
        apply title_missing
        rintro ⟨text, rest, htitled⟩
        have := hplain ⟨.string, text⟩ (by rw [htitled]; rfl)
        cases this
      have hbrace : c.words.head? ≠ some (punct "\x7b") := by
        intro hhead
        have := hplain _ hhead
        cases this
      rw [← List.append_nil ws] at hc
      obtain ⟨list, c₁, hlist, hps, hc₁⟩ := productionList_accepted rules false hc (by simp)
      refine accepts_bind htitle (accepts_bind (atSymbol_eq _) ?_)
      simp only [hbrace, decide_false, Bool.false_eq_true, if_false]
      refine accepts_bind hlist ⟨_, _, node_eq _, ?_, by rw [words_counted, hc₁]⟩
      simp [Node.unnumbered, hps]

end Railroad.Ebnf
