import Railroad.Proofs.Ebnf.Reading
/-!
What a reader accepts derives: the words that a successful reading steps over are a derivation of the
tree that it returns.
-/
namespace Railroad.Ebnf

open Reading Word Railroad.Ebnf.Derivation Cursor

/-- Whenever a reading succeeds, the words it steps over mean what it returns. -/
def Sound {β γ : Type} (view : β → γ) (reading : Reading β) (means : List Word → γ → Prop) : Prop :=
  ∀ ⦃c c' : Cursor⦄ ⦃b : β⦄, reading c = .ok b c' →
    ∃ ws, c.words = ws ++ c'.words ∧ means ws (view b)

section Expressions

variable {k : Nat} {one : Reading Node}

theorem moreFactors_sound (hone : Sound Node.unnumbered one (Factor k)) (bound : Nat) :
    Sound (List.map Node.unnumbered) (moreFactors one bound) (Factors k) := by
  induction bound with
  | zero =>
      intro c c' ns h
      cases h
      exact ⟨[], rfl, .nil⟩
  | succ bound ih =>
      intro c c' ns h
      -- what follows an optional comma is the same reading in both cases
      have items : ∀ {c₁}, (do let n ← one; return n :: (← moreFactors one bound)) c₁ = .ok ns c' →
          ∃ ws us n ms, c₁.words = ws ++ us ++ c'.words ∧ Factor k ws n ∧ Factors k us ms ∧
            ns.map Node.unnumbered = n :: ms := by
        intro c₁ h
        obtain ⟨n, c₂, ms, hn, hms, rfl⟩ := cons_eq_ok.mp h
        obtain ⟨ws, hws, hfactor⟩ := hone hn
        obtain ⟨us, hus, hfactors⟩ := ih hms
        exact ⟨ws, us, _, _, by rw [hws, hus, List.append_assoc], hfactor, hfactors, rfl⟩
      cases hrest : c.rest with
      | nil =>
          rw [moreFactors_nil hrest] at h
          cases h
          exact ⟨[], rfl, .nil⟩
      | cons t ts =>
          cases hcomma : t.isSymbol "," with
          | true =>
              rw [moreFactors_comma hrest hcomma] at h
              obtain ⟨ws, us, n, ms, hwords, hfactor, hfactors, hns⟩ := items h
              rw [Token.isSymbol_iff] at hcomma
              refine ⟨punct "," :: ws ++ us, ?_, hns ▸ .comma hfactor hfactors⟩
              rw [words_of_rest hrest, hcomma, hwords]
              rfl
          | false =>
              cases hends : t.endsTerm with
              | true =>
                  rw [moreFactors_end hrest hcomma hends] at h
                  cases h
                  exact ⟨[], rfl, .nil⟩
              | false =>
                  rw [moreFactors_next hrest hcomma hends] at h
                  obtain ⟨ws, us, n, ms, hwords, hfactor, hfactors, hns⟩ := items h
                  exact ⟨ws ++ us, hwords, hns ▸ .next hfactor hfactors⟩

theorem gather_sound {make : Nat → List Node → Node}
    (hmake : ∀ i ns, (make i ns).unnumbered = make 0 (ns.map Node.unnumbered)) {first n : Node}
    {rest : List Node} {c c' : Cursor} (h : gather make first rest c = .ok n c') :
    c'.words = c.words ∧
      n.unnumbered = bundle (make 0) (first.unnumbered :: rest.map Node.unnumbered) := by
  obtain ⟨m, c₁, hgather, hwords, hm⟩ := gather_eq (c := c) make hmake first rest
  rw [hgather] at h
  cases h
  exact ⟨hwords, hm⟩

theorem term_sound (hone : Sound Node.unnumbered one (Factor k)) :
    Sound Node.unnumbered (term one) (Term k) := by
  intro c c' n h
  rw [term_eq] at h
  obtain ⟨first, c₁, hfirst, h⟩ := bind_eq_ok.mp h
  rw [bind_of_ok left_eq] at h
  obtain ⟨rest, c₂, hrest, h⟩ := bind_eq_ok.mp h
  obtain ⟨hwords, hn⟩ := gather_sound unnumbered_sequence h
  obtain ⟨ws, hws, hfactor⟩ := hone hfirst
  obtain ⟨us, hus, hfactors⟩ := moreFactors_sound hone _ hrest
  refine ⟨ws ++ us, ?_, hn ▸ .intro hfactor hfactors⟩
  rw [hws, hus, hwords, List.append_assoc]

theorem moreTerms_sound (hone : Sound Node.unnumbered one (Factor k)) (bound : Nat) :
    Sound (List.map Node.unnumbered) (moreTerms one bound) (Terms k) := by
  induction bound with
  | zero =>
      intro c c' ns h
      cases h
      exact ⟨[], rfl, .nil⟩
  | succ bound ih =>
      intro c c' ns h
      by_cases hbar : c.words.head? = some (punct "|")
      · obtain ⟨vs, hvs⟩ := List.head?_eq_some_iff.mp hbar
        rw [moreTerms_bar hvs] at h
        obtain ⟨n, c₁, ms, hn, hms, rfl⟩ := cons_eq_ok.mp h
        obtain ⟨ws, hws, hterm⟩ := term_sound hone hn
        obtain ⟨us, hus, hterms⟩ := ih hms
        refine ⟨punct "|" :: ws ++ us, ?_, .bar hterm hterms⟩
        rw [words_advanced, hvs, List.tail_cons] at hws
        rw [hvs, hws, hus]
        simp
      · rw [moreTerms_end hbar] at h
        cases h
        exact ⟨[], rfl, .nil⟩

theorem alternatives_sound (hone : Sound Node.unnumbered one (Factor k)) :
    Sound Node.unnumbered (alternatives one) (Expression k) := by
  intro c c' n h
  rw [alternatives_eq] at h
  obtain ⟨first, c₁, hfirst, h⟩ := bind_eq_ok.mp h
  rw [bind_of_ok left_eq] at h
  obtain ⟨rest, c₂, hrest, h⟩ := bind_eq_ok.mp h
  obtain ⟨hwords, hn⟩ := gather_sound unnumbered_alternation h
  obtain ⟨ws, hws, hterm⟩ := term_sound hone hfirst
  obtain ⟨us, hus, hterms⟩ := moreTerms_sound hone _ hrest
  refine ⟨ws ++ us, ?_, hn ▸ .intro hterm hterms⟩
  rw [hws, hus, hwords, List.append_assoc]

theorem separator_sound {expression : Reading Node}
    (hexpression : Sound Node.unnumbered expression (Expression k)) {c c' : Cursor}
    {o : Option Node} (h : separator expression c = .ok o c') :
    (o = none ∧ c' = c) ∨ ∃ m us, o = some m ∧ c.words = punct "/" :: us ++ c'.words ∧
      Expression k us m.unnumbered := by
  rw [separator, bind_of_ok (atSymbol_eq "/")] at h
  split at h
  · rename_i hslash
    rw [decide_eq_true_iff] at hslash
    obtain ⟨vs, hvs⟩ := List.head?_eq_some_iff.mp hslash
    rw [bind_of_ok advance_eq, map_eq_pure_bind] at h
    obtain ⟨m, c₁, hm, h⟩ := bind_eq_ok.mp h
    cases h
    obtain ⟨us, hus, hderives⟩ := hexpression hm
    rw [words_advanced, hvs, List.tail_cons] at hus
    exact .inr ⟨m, us, rfl, by rw [hvs, hus, List.cons_append], hderives⟩
  · cases h
    exact .inl ⟨rfl, rfl⟩

/-- Reading between brackets; the opening one has been stepped over. -/
theorem bracketed_sound {expression : Reading Node} {t : Token}
    (hexpression : Sound Node.unnumbered expression (Expression k)) (hopens : t.word.opens)
    {c c' : Cursor} {n : Node} (h : bracketed expression t c = .ok n c') :
    ∃ ws, c.words = ws ++ c'.words ∧ Factor (k + 1) (t.word :: ws) n.unnumbered := by
  simp only [opens, List.map_cons, List.map_nil, List.mem_cons, List.not_mem_nil, or_false] at hopens
  -- One case for each kind of bracket.
  rcases hopens with hword | hword | hword | hword
  all_goals
    have htext : t.text = _ := congrArg Word.text hword
    rw [hword]
  · rw [bracketed_group htext] at h
    obtain ⟨body, c₁, hbody, h⟩ := bind_eq_ok.mp h
    obtain ⟨ws, hws, hderives⟩ := hexpression hbody
    obtain ⟨u, c₂, hclose, h⟩ := bind_eq_ok.mp h
    cases h
    refine ⟨ws ++ [punct ")"], ?_, .group hderives⟩
    simp [hws, symbol_eq_ok hclose]
  · rw [bracketed_optional htext] at h
    obtain ⟨body, c₁, hbody, h⟩ := bind_eq_ok.mp h
    obtain ⟨ws, hws, hderives⟩ := hexpression hbody
    obtain ⟨hclose, i, rfl⟩ := close_eq_ok h
    refine ⟨ws ++ [punct "]"], ?_, .optional hderives⟩
    simp [hws, hclose]
  · rw [bracketed_repetition htext] at h
    obtain ⟨body, c₁, hbody, h⟩ := bind_eq_ok.mp h
    obtain ⟨ws, hws, hderives⟩ := hexpression hbody
    obtain ⟨hclose, i, rfl⟩ := close_eq_ok h
    refine ⟨ws ++ [punct "\x7d"], ?_, .repetition hderives⟩
    simp [hws, hclose]
  · rw [bracketed_loop htext] at h
    obtain ⟨body, c₁, hbody, h⟩ := bind_eq_ok.mp h
    obtain ⟨ws, hws, hderives⟩ := hexpression hbody
    obtain ⟨o, c₂, hother, h⟩ := bind_eq_ok.mp h
    obtain ⟨hclose, i, rfl⟩ := close_eq_ok h
    rcases separator_sound hexpression hother with ⟨rfl, rfl⟩ | ⟨m, us, rfl, hus, hsep⟩
    · refine ⟨ws ++ [punct ">"], ?_, .loop hderives⟩
      simp [hws, hclose]
    · refine ⟨ws ++ punct "/" :: us ++ [punct ">"], ?_, .separatedLoop hderives hsep⟩
      simp [hws, hus, hclose]

/-- A factor that is no bracket is derived within any bound; brackets are left to `bracket`. -/
theorem factor_sound {bracket : Token → Reading Node}
    (hbracket : ∀ t c c' n, c.words.head? = some t.word → t.word.opens → bracket t c = .ok n c' →
      ∃ ws, c.words = ws ++ c'.words ∧ Factor k ws n.unnumbered) :
    Sound Node.unnumbered (factor bracket) (Factor k) := by
  intro c c' n h
  cases hrest : c.rest with
  | nil => exact absurd h (factor_ne_ok_of_nil bracket hrest)
  | cons t ts =>
      have hwords := words_of_rest hrest
      rw [factor_eq bracket hrest] at h
      cases hkind : t.kind
      all_goals simp only [hkind] at h
      case ident =>
        cases h
        exact ⟨[⟨.ident, t.text⟩], by rw [hwords, Token.word, hkind]; rfl, .identifier t.text⟩
      case string =>
        cases h
        exact ⟨[⟨.string, t.text⟩], by rw [hwords, Token.word, hkind]; rfl, .string t.text⟩
      case special =>
        cases h
        exact ⟨[⟨.special, t.text⟩], by rw [hwords, Token.word, hkind]; rfl, .special t.text⟩
      all_goals
        split at h
        · rename_i hopening
          exact hbracket t c c' n (by rw [hwords, List.head?_cons])
            (t.isOpening_iff.mp hopening) h
        · exact absurd h (expected_ne_ok _ _)

theorem expressionWithin_sound (k : Nat) :
    Sound Node.unnumbered (expressionWithin k) (Expression k) := by
  induction k with
  | zero =>
      rw [expressionWithin_eq]
      refine alternatives_sound (factor_sound ?_)
      intro t c c' n _ _ h
      cases h
  | succ k ih =>
      rw [expressionWithin_eq]
      refine alternatives_sound (factor_sound ?_)
      intro t c c' n hhead hopens h
      rw [bracketWithin, bind_of_ok advance_eq] at h
      obtain ⟨c₁, hinside, rfl⟩ := nested_eq_ok.mp h
      obtain ⟨ws, hws, hfactor⟩ := bracketed_sound ih hopens hinside
      obtain ⟨vs, hvs⟩ := List.head?_eq_some_iff.mp hhead
      refine ⟨t.word :: ws, ?_, hfactor⟩
      rw [words_withDepth, words_advanced, hvs, List.tail_cons] at hws
      rw [hvs, hws, words_withDepth, List.cons_append]

end Expressions

theorem production_sound :
    Sound Node.unnumbered production (Production Metrics.maxDepth) := by
  intro c c' n h
  obtain ⟨t, s, ts, hrest, ht, hs⟩ := production_eq_ok h
  rw [production_eq hrest ht hs] at h
  obtain ⟨body, c₁, hbody, h⟩ := bind_eq_ok.mp h
  obtain ⟨stop, hstop, hclose, rfl⟩ := closeProduction_eq_ok h
  obtain ⟨ws, hws, hderives⟩ := expressionWithin_sound _ hbody
  refine ⟨_, ?_, .intro t.text s.text stop hderives hstop⟩
  have hwords : c.words = t.word :: s.word :: c.advanced.advanced.words := by
    simp [words, Cursor.advanced, hrest]
  rw [hwords, hws, hclose, Token.word, Token.word, ht, hs]
  simp

theorem productions_sound (inBlock : Bool) (bound : Nat) :
    Sound (List.map Node.unnumbered) (productions inBlock bound)
      (Productions Metrics.maxDepth) := by
  induction bound with
  | zero =>
      intro c c' ps h
      cases h
      exact ⟨[], rfl, .nil⟩
  | succ bound ih =>
      intro c c' ps h
      obtain ⟨-, rfl, rfl⟩ | ⟨p, c₁, ps, hp, hps, rfl⟩ := productions_cases h
      · exact ⟨[], rfl, .nil⟩
      · obtain ⟨ws, hws, hproduction⟩ := production_sound hp
        obtain ⟨us, hus, hproductions⟩ := ih hps
        refine ⟨ws ++ us, ?_, .next hproduction hproductions⟩
        rw [hws, hus, List.append_assoc]

theorem length_le_of_production {c c' : Cursor} {n : Node} (h : production c = .ok n c') :
    c'.rest.length + 1 ≤ c.rest.length := by
  obtain ⟨ws, hws, hderives⟩ := production_sound h
  have hlength := congrArg List.length hws
  rw [List.length_append, length_words, length_words] at hlength
  generalize n.unnumbered = m at hderives
  cases hderives
  simp only [List.length_append, List.length_cons] at hlength
  omega

/-- A bound of as many productions as there are tokens is never what ends them. -/
theorem head?_of_productions {inBlock : Bool} {bound : Nat} {c c' : Cursor} {ps : List Node}
    (h : productions inBlock bound c = .ok ps c') (hbound : c.rest.length ≤ bound) :
    ∀ t ∈ c'.rest.head?, inBlock = true ∧ t.word = punct "\x7d" := by
  induction bound generalizing c ps with
  | zero =>
      cases h
      rw [List.eq_nil_of_length_eq_zero (Nat.le_zero.mp hbound)]
      simp
  | succ bound ih =>
      obtain ⟨hend, -, rfl⟩ | ⟨p, c₁, ps, hp, hps, -⟩ := productions_cases h
      · exact hend
      · have := length_le_of_production hp
        exact ih hps (by omega)

theorem closingComment_sound :
    Sound (Option.map Node.unnumbered) closingComment (Caption (.other 0)) := by
  intro c c' o h
  by_cases hstring : ∃ text ws, c.words = ⟨.string, text⟩ :: ws
  · obtain ⟨text, ws, hwords⟩ := hstring
    rw [closingComment_present hwords] at h
    cases h
    refine ⟨[⟨.string, text⟩], ?_, .present text⟩
    rw [words_advanced, words_counted, hwords]
    rfl
  · rw [closingComment_missing] at h
    · cases h
      exact ⟨[], rfl, .missing⟩
    · intro w hw hkind
      obtain ⟨ws, hws⟩ := List.head?_eq_some_iff.mp hw
      exact hstring ⟨w.text, ws, by rw [hws, ← hkind]⟩

/-- A title is read only in front of a block. -/
theorem title_sound {c c' : Cursor} {o : Option Node} (h : title c = .ok o c') :
    ∃ ws, c.words = ws ++ c'.words ∧ Caption (.literal 0 · .title) ws (o.map Node.unnumbered) ∧
      (c'.words.head? ≠ some (punct "\x7b") → c' = c) := by
  by_cases htitled : Titled c.words
  · obtain ⟨text, ws, hwords⟩ := htitled
    rw [title_present hwords] at h
    cases h
    refine ⟨[⟨.string, text⟩], ?_, .present text, ?_⟩
    · rw [words_counted, words_advanced, hwords]
      rfl
    · intro hhead
      rw [words_counted, words_advanced, hwords] at hhead
      exact absurd rfl hhead
  · rw [title_missing htitled] at h
    cases h
    exact ⟨[], rfl, .missing, fun _ => rfl⟩

theorem block_sound {heading : Option Node} {c c' : Cursor} {n : Node}
    (h : block heading c = .ok n c') {ts : List Word}
    (htitle : Caption (.literal 0 · .title) ts (heading.map Node.unnumbered))
    (hbrace : c.words.head? = some (punct "\x7b")) :
    Grammar Metrics.maxDepth (ts ++ c.words) n.unnumbered := by
  rw [block, bind_of_ok advance_eq] at h
  obtain ⟨list, c₁, hlist, h⟩ := bind_eq_ok.mp h
  obtain ⟨u, c₂, hclose, h⟩ := bind_eq_ok.mp h
  obtain ⟨comment, c₃, hcomment, h⟩ := bind_eq_ok.mp h
  obtain ⟨hend, rfl⟩ := finish_eq_ok h
  obtain ⟨ps, c₁, hps, rfl, rfl⟩ := productionList_eq_ok.mp hlist
  obtain ⟨ws, hws, hproductions⟩ := productions_sound _ _ hps
  obtain ⟨us, hus, hclosing⟩ := closingComment_sound hcomment
  have hwords : ts ++ c.words = ts ++ punct "\x7b" :: ws ++ punct "\x7d" :: us := by
    obtain ⟨vs, hvs⟩ := List.head?_eq_some_iff.mp hbrace
    have hinner := symbol_eq_ok hclose
    rw [words_counted] at hinner
    rw [words_advanced, hvs, List.tail_cons] at hws
    simp [hvs, hws, hinner, hus, hend]
  rw [hwords]
  simpa [Node.unnumbered] using Grammar.block htitle hproductions hclosing

theorem grammar_sound {c c' : Cursor} {n : Node} (h : grammar c = .ok n c') :
    Grammar Metrics.maxDepth c.words n.unnumbered := by
  rw [grammar_eq] at h
  obtain ⟨heading, c₁, hheading, h⟩ := bind_eq_ok.mp h
  obtain ⟨ts, hts, htitle, hback⟩ := title_sound hheading
  rw [bind_of_ok (atSymbol_eq "\x7b")] at h
  split at h
  · rename_i hbrace
    rw [hts]
    exact block_sound h htitle (of_decide_eq_true hbrace)
  · rename_i hbrace
    rw [decide_eq_true_iff] at hbrace
    rw [hback hbrace] at h
    obtain ⟨list, c₂, hlist, h⟩ := bind_eq_ok.mp h
    obtain ⟨ps, c₂, hps, rfl, rfl⟩ := productionList_eq_ok.mp hlist
    cases h
    obtain ⟨ws, hws, hproductions⟩ := productions_sound _ _ hps
    have hend : c₂.words = [] := by
      have hnone := head?_of_productions hps (Nat.le_refl _)
      cases hrest : c₂.rest with
      | nil => rw [words, hrest, List.map_nil]
      | cons t ts => simp [hrest] at hnone
    rw [hws, hend, List.append_nil]
    simpa [Node.unnumbered] using Grammar.bare hproductions

end Railroad.Ebnf
