import Mathlib.Data.List.Forall2
import Railroad.Proofs.Ebnf.RoundTrip
import Railroad.Proofs.Ebnf.Splitting
/-!
What stands between the words of a text does not matter.  As long as words that something separates stay
separated, blanks and comments may be put in the place of others, and the text is cut into the same words
and read as the same tree.
-/
namespace Railroad.Ebnf

/-- What may stand between words: blanks and closed comments, in any mix. -/
inductive Gap : List Char → Prop
  | nil : Gap []
  | blank {c : Char} {cs : List Char} (hc : Text.isBlank c = true) (hcs : Gap cs) : Gap (c :: cs)
  | comment {body cs : List Char} (hbody : Unclosed body) (hcs : Gap cs) :
      Gap ('(' :: '*' :: body ++ '*' :: ')' :: cs)

/-- A text that consists of words with gaps in front of, between and behind them. -/
inductive Spaced : List Word → List (List Char) → List Char → Prop
  | last {g : List Char} (hg : Gap g) : Spaced [] [g] g
  | next {w : Word} {ws : List Word} {g : List Char} {gs : List (List Char)} {cs : List Char}
      (hg : Gap g) (hcs : Spaced ws gs cs) : Spaced (w :: ws) (g :: gs) (g ++ (w.text.toList ++ cs))

/-- A gap is kept as it is, or something that is not empty takes its place. -/
def Refills (g g' : List Char) : Prop :=
  g' = g ∨ g' ≠ [] ∧ Gap g'

section Gaps

variable {c : Char} {cs g h : List Char} {ws : List Word}

theorem Gap.append (hg : Gap g) (hh : Gap h) : Gap (g ++ h) := by
  induction hg with
  | nil => exact hh
  | blank hc _ ih => exact .blank hc ih
  | @comment body cs hbody _ ih =>
      have hgap := Gap.comment hbody ih
      rwa [← List.cons_append, ← List.cons_append, ← List.append_assoc] at hgap

theorem gap_of_blanks (hcs : ∀ c ∈ cs, Text.isBlank c = true) : Gap cs := by
  induction cs with
  | nil => exact .nil
  | cons c cs ih =>
      rw [List.forall_mem_cons] at hcs
      exact .blank hcs.1 (ih hcs.2)

/-- A gap in front of a text adds no word to it. -/
theorem Gap.cuts_iff (hg : Gap g) : Cuts (g ++ cs) ws ↔ Cuts cs ws := by
  induction hg with
  | nil => rfl
  | blank hc _ ih => rw [List.cons_append, cuts_blank_iff hc, ih]
  | @comment body g hbody _ ih =>
      have htext : '(' :: '*' :: body ++ '*' :: ')' :: g ++ cs =
          '(' :: ('*' :: body ++ '*' :: ')' :: (g ++ cs)) := by simp
      have hdrop : ('*' :: body ++ '*' :: ')' :: (g ++ cs)).drop (body.length + 3) = g ++ cs := by
        simp [List.drop_append]
      rw [htext, cuts_cons_iff (extent?_comment (g ++ cs) hbody), hdrop, ← ih]
      simp [Lexeme.word?]

/-- A gap begins with a blank or with the parenthesis of a comment. -/
theorem Gap.head (hg : Gap g) (hc : g.head? = some c) : Text.isBlank c = true ∨ c = '(' := by
  cases hg with
  | nil => cases hc
  | blank hblank =>
      cases hc
      exact .inl hblank
  | comment =>
      cases hc
      exact .inr rfl

theorem Refills.eq_nil (hg : Refills g []) : g = [] :=
  hg.elim Eq.symm fun hne => absurd rfl hne.1

end Gaps

section Words

variable {w : Word} {ws us : List Word} {gs gs' : List (List Char)} {c : Char} {cs cs' : List Char}

/-- How a word begins: with no blank and no star, and with a parenthesis only if it is one. -/
theorem Lexical.exists_head (hw : Lexical w) : ∃ c body, w.text.toList = c :: body ∧
    Text.isBlank c = false ∧ c ≠ '*' ∧ (c = '(' → w = .punct "(") := by
  cases hw with
  | @ident c body hc _ =>
      have hne : ∀ d, isIdentStart d = false → c ≠ d := by
        rintro d hd rfl
        rw [hc] at hd
        cases hd
      refine ⟨c, body, by simp, isBlank_eq_false_of_isIdentPart (by simp [isIdentPart, hc]),
        hne '*' rfl, fun hparen => absurd hparen (hne '(' rfl)⟩
  | @string mark body hmark _ =>
      refine ⟨mark, body ++ [mark], by simp, ?_⟩
      rcases hmark with rfl | rfl <;> exact ⟨rfl, by decide, fun h => absurd h (by decide)⟩
  | @special body _ =>
      exact ⟨'?', body ++ ['?'], by simp, rfl, by decide, fun h => absurd h (by decide)⟩
  | define hcs =>
      rcases hcs with rfl | rfl | rfl
      · exact ⟨':', [':', '='], by simp, by decide⟩
      · exact ⟨':', [], by simp, by decide⟩
      · exact ⟨'=', [], by simp, by decide⟩
  | @punct c hc =>
      refine ⟨c, [], by simp, ?_⟩
      simp only [isPunct, List.contains_eq_mem, List.mem_cons, List.not_mem_nil, or_false,
        decide_eq_true_eq] at hc
      rcases hc with rfl | rfl | rfl | rfl | rfl | rfl | rfl | rfl | rfl | rfl | rfl | rfl | rfl <;>
        decide

theorem Lexical.of_colon (hw : Lexical w) (h : w.text.toList.head? = some ':') :
    w.text = ":" ∨ w.text = "::=" := by
  cases hw with
  | ident hc =>
      rw [String.toList_ofList] at h
      obtain rfl := Option.some.inj h
      cases hc
  | string hmark =>
      rw [String.toList_ofList] at h
      obtain rfl := Option.some.inj h
      rcases hmark with hmark | hmark <;> cases hmark
  | special =>
      rw [String.toList_ofList] at h
      cases h
  | define hcs =>
      rcases hcs with rfl | rfl | rfl
      · exact .inr rfl
      · exact .inl rfl
      · cases h
  | punct hc =>
      rw [String.toList_ofList] at h
      obtain rfl := Option.some.inj h
      cases hc

/-- If the first word that a text is cut into stands at its start, then it is cut off there. -/
theorem Cuts.first (hw : Lexical w) (hstar : cs.head? ≠ some '*')
    (h : Cuts (w.text.toList ++ cs) (w :: us)) : w.EndsBefore cs ∧ Cuts cs us := by
  obtain ⟨c, body, htext, hblank, -, hparen⟩ := hw.exists_head
  rw [htext, List.cons_append] at h
  have hopen : ¬ (c = '(' ∧ (body ++ cs).head? = some '*') := by
    rintro ⟨rfl, hhead⟩
    rw [hparen rfl] at htext
    cases htext
    exact hstar hhead
  -- The word starts where the text does, so neither a blank nor a comment can be cut off instead of it.
  cases hextent : extent? c (body ++ cs) with
  | none =>
      have hrest := h.1
      rw [lexemes, hextent] at hrest
      cases hrest
  | some extent =>
      obtain ⟨kind, n⟩ := extent
      obtain ⟨k, rfl⟩ := exists_token_of_extent? hopen (by simp [hblank]) hextent
      obtain ⟨us', hcuts, hwords⟩ := (cuts_cons_iff hextent).mp h
      obtain ⟨rfl, rfl⟩ := List.cons.inj hwords
      rw [String.toList_ofList, List.cons.injEq] at htext
      have hdrop : (body ++ cs).drop n = cs := by
        have hsplit := List.take_append_drop n (body ++ cs)
        rw [htext.2] at hsplit
        exact List.append_cancel_left hsplit
      rw [hdrop] at hcuts
      refine ⟨?_, hcuts⟩
      have hends := endsBefore_of_extent? hextent
      rwa [hdrop] at hends

theorem Spaced.head?_ne (hws : ∀ w ∈ ws, Lexical w) (h : Spaced ws gs cs) :
    cs.head? ≠ some '*' := by
  intro hhead
  have hgap : ∀ {g : List Char}, Gap g → g.head? ≠ some '*' := by
    intro g hg hhead
    rcases hg.head hhead with hblank | hparen
    · cases hblank
    · cases hparen
  cases h with
  | last hg => exact hgap hg hhead
  | @next w _ g _ cs hg =>
      rw [List.head?_append, Option.or_eq_some_iff] at hhead
      rcases hhead with hhead | ⟨-, hhead⟩
      · exact hgap hg hhead
      · obtain ⟨c, body, htext, -, hstar, -⟩ := (hws w List.mem_cons_self).exists_head
        rw [htext] at hhead
        exact hstar (Option.some.inj hhead)

/-- When gaps are refilled, the text begins as before or with a gap. -/
theorem Spaced.head?_of_refills (hws : ∀ w ∈ ws, Lexical w) (h : Spaced ws gs cs)
    (h' : Spaced ws gs' cs') (hgs : List.Forall₂ Refills gs gs') (hc : cs'.head? = some c) :
    cs.head? = some c ∨ Text.isBlank c = true ∨ c = '(' := by
  cases h with
  | last =>
      cases h' with
      | last hg' => exact .inr (hg'.head hc)
  | @next w =>
      cases h' with
      | @next _ _ g' _ cs' hg' =>
          cases hgs with
          | cons hfirst =>
              rw [List.head?_append, Option.or_eq_some_iff] at hc
              rcases hc with hc | ⟨hnil, hc⟩
              · exact .inr (hg'.head hc)
              · obtain rfl := List.head?_eq_none_iff.mp hnil
                obtain rfl := hfirst.eq_nil
                obtain ⟨d, body, htext, -⟩ := (hws w List.mem_cons_self).exists_head
                rw [htext] at hc ⊢
                exact .inl hc

/-- Refilled gaps never bring forth the end of a long definition sign. -/
theorem Spaced.prefix_of_refills (hws : ∀ w ∈ ws, Lexical w) (h : Spaced ws gs cs)
    (h' : Spaced ws gs' cs') (hgs : List.Forall₂ Refills gs gs') (hopens : [':', '='] <+: cs') :
    [':', '='] <+: cs := by
  have hgap : ∀ {g tail : List Char}, Gap g → [':', '='] <+: g ++ tail → g = [] := by
    rintro (_ | ⟨c, g⟩) tail hg hopens
    · rfl
    · obtain ⟨rfl, -⟩ := List.cons_prefix_cons.mp hopens
      rcases hg.head rfl with hblank | hparen
      · cases hblank
      · cases hparen
  cases h with
  | last =>
      cases h' with
      | last hg' =>
          rw [← List.append_nil cs'] at hopens
          obtain rfl := hgap hg' hopens
          cases List.prefix_nil.mp hopens
  | @next w _ _ _ cs _ hcs =>
      cases h' with
      | @next _ _ g' _ cs' hg' hcs' =>
          cases hgs with
          | cons hfirst hgs =>
              rw [List.forall_mem_cons] at hws
              obtain rfl := hgap hg' hopens
              obtain rfl := hfirst.eq_nil
              obtain ⟨c, body, htext, -⟩ := hws.1.exists_head
              have hcolon : w.text.toList.head? = some ':' := by
                rw [List.nil_append, htext, List.cons_append, List.cons_prefix_cons] at hopens
                rw [htext, hopens.1]
                rfl
              rw [List.nil_append] at hopens ⊢
              -- The colon may be all of the first word, and the sign then goes on in the next one.
              rcases hws.1.of_colon hcolon with hshort | hlong
              · rw [hshort] at hopens ⊢
                obtain ⟨tail, htail⟩ := hopens
                obtain rfl := List.cons.inj htail |>.2
                rcases hcs.head?_of_refills hws.2 hcs' hgs rfl with hhead | hblank | hparen
                · obtain ⟨rest, rfl⟩ := List.head?_eq_some_iff.mp hhead
                  exact ⟨rest, rfl⟩
                · cases hblank
                · cases hparen
              · rw [hlong] at hopens
                obtain ⟨tail, htail⟩ := hopens
                cases htail

/-- A word that ends in front of words with gaps still ends there when the gaps are refilled. -/
theorem Spaced.endsBefore_of_refills (hws : ∀ w ∈ ws, Lexical w) (h : Spaced ws gs cs)
    (h' : Spaced ws gs' cs') (hgs : List.Forall₂ Refills gs gs') (hw : w.EndsBefore cs) :
    w.EndsBefore cs' := by
  obtain ⟨kind, text⟩ := w
  cases kind with
  | ident =>
      intro c hc
      rcases h.head?_of_refills hws h' hgs hc with hc | hblank | rfl
      · exact hw c hc
      · rw [← Bool.not_eq_true]
        intro hpart
        rw [isBlank_eq_false_of_isIdentPart hpart] at hblank
        cases hblank
      · rfl
  | define => exact fun htext hopens => hw htext (h.prefix_of_refills hws h' hgs hopens)
  | punct =>
      intro htext hstar
      rcases h.head?_of_refills hws h' hgs hstar with hstar | hblank | hparen
      · exact hw htext hstar
      · cases hblank
      · cases hparen
  | string | special => trivial

/-- Refilling gaps leaves the words that a text is cut into. -/
theorem Spaced.cuts_of_refills (hws : ∀ w ∈ ws, Lexical w) (h : Spaced ws gs cs)
    (h' : Spaced ws gs' cs') (hgs : List.Forall₂ Refills gs gs') (hcuts : Cuts cs ws) :
    Cuts cs' ws := by
  induction h generalizing gs' cs' with
  | last hg =>
      cases h' with
      | last hg' =>
          rw [← List.append_nil cs', hg'.cuts_iff]
          exact .nil
  | @next w ws g gs cs hg hcs ih =>
      cases h' with
      | @next _ _ g' _ cs' hg' hcs' =>
          cases hgs with
          | cons _ hgs =>
              rw [List.forall_mem_cons] at hws
              rw [hg.cuts_iff] at hcuts
              -- The first word is cut off where it stands, so it still is when the gaps behind it change.
              obtain ⟨hends, hcuts⟩ := hcuts.first hws.1 (hcs.head?_ne hws.2)
              rw [hg'.cuts_iff, cuts_word_iff hws.1 (hcs.endsBefore_of_refills hws.2 hcs' hgs hends)]
              exact ⟨ws, ih hws.2 hcs' hgs hcuts, rfl⟩

theorem Spaced.exists_append {g : List Char} (hg : Gap g) (h : Spaced ws gs cs) :
    ∃ gs', Spaced ws gs' (g ++ cs) := by
  cases h with
  | last hlast => exact ⟨_, .last (hg.append hlast)⟩
  | next hfirst hcs =>
      rw [← List.append_assoc]
      exact ⟨_, .next (hg.append hfirst) hcs⟩

/-- A text that is cut into words consists of them and of gaps. -/
theorem Cuts.exists_spaced (h : Cuts cs ws) : ∃ gs, Spaced ws gs cs := by
  induction cs using lexemes.induct generalizing ws with
  | case1 =>
      obtain ⟨-, rfl⟩ := h
      rw [lexemes]
      exact ⟨_, .last .nil⟩
  | case2 c cs hextent =>
      have hrest := h.1
      rw [lexemes, hextent] at hrest
      cases hrest
  | case3 c cs kind n hextent _ _ _ ih =>
      obtain ⟨us, hcuts, rfl⟩ := (cuts_cons_iff hextent).mp h
      obtain ⟨gs, hspaced⟩ := ih hcuts
      have hlexeme := cutsOff_of_extent? hextent
      have hsplit : c :: cs = (c :: cs.take n) ++ cs.drop n := by
        rw [List.cons_append, List.take_append_drop]
      rw [hsplit]
      generalize c :: cs.take n = text at hlexeme ⊢
      -- Blanks and comments go into the gap in front of what follows.
      cases hlexeme with
      | blank _ hblanks => exact hspaced.exists_append (gap_of_blanks hblanks)
      | comment hbody => exact hspaced.exists_append (.comment hbody .nil)
      | @token kind =>
          refine ⟨[] :: gs, ?_⟩
          have hnext := hspaced.next (w := ⟨kind, String.ofList text⟩) .nil
          rwa [String.toList_ofList] at hnext

end Words

/-- The trees that a text is read as depend on nothing but its words. -/
theorem read_of_words {text text' : String} {tokens tokens' : List Token} (tree : Node)
    (h : tokenize text = .ok tokens) (h' : tokenize text' = .ok tokens')
    (hwords : tokens.map Token.word = tokens'.map Token.word) (reader reader' : Reader) (i j : Nat) :
    (∃ n, (reader.read i text).result = .ok n ∧ n.unnumbered = tree) →
      ∃ n, (reader'.read j text').result = .ok n ∧ n.unnumbered = tree := by
  rintro ⟨n, hread, rfl⟩
  obtain ⟨read, hsame, hderives⟩ := source_of_read hread
  rw [h] at hsame
  obtain rfl := Except.ok.inj hsame
  rw [hwords] at hderives
  exact read_of_source ⟨tokens', h', hderives⟩ reader' j

/-- A text that is cut into tokens consists of their words and of gaps.  Whichever gaps are refilled, the
text is cut into the same words and read as the same trees. -/
theorem refilled_reads_alike {text : String} {tokens : List Token} (h : tokenize text = .ok tokens) :
    (∃ gaps, Spaced (tokens.map Token.word) gaps text.toList) ∧
      ∀ (gaps gaps' : List (List Char)) (text' : String),
        Spaced (tokens.map Token.word) gaps text.toList → List.Forall₂ Refills gaps gaps' →
        Spaced (tokens.map Token.word) gaps' text'.toList →
          (∃ tokens', tokenize text' = .ok tokens' ∧
            tokens'.map Token.word = tokens.map Token.word) ∧
          ∀ (reader reader' : Reader) (i j : Nat) (tree : Node),
            (∃ n, (reader.read i text).result = .ok n ∧ n.unnumbered = tree) ↔
              ∃ n, (reader'.read j text').result = .ok n ∧ n.unnumbered = tree := by
  have hcuts := cuts_of_tokenize h
  refine ⟨hcuts.exists_spaced, ?_⟩
  intro gaps gaps' text' hspaced hgaps hspaced'
  obtain ⟨tokens', h', hwords⟩ :=
    tokenize_of_cuts (hspaced.cuts_of_refills (lexical_of_cuts hcuts) hspaced' hgaps hcuts)
  refine ⟨⟨tokens', h', hwords⟩, fun reader reader' i j tree => ⟨?_, ?_⟩⟩
  · exact read_of_words tree h h' hwords.symm reader reader' i j
  · exact read_of_words tree h' h hwords reader' reader j i

/-- A rule without anything between its words. -/
def tightText : String :=
  "a='b'."

def tightTokens : List Token :=
  [⟨.ident, "a", ⟨1, 1⟩⟩, ⟨.define, "=", ⟨1, 2⟩⟩, ⟨.string, "'b'", ⟨1, 3⟩⟩, ⟨.punct, ".", ⟨1, 6⟩⟩]

/-- The same rule with a comment, blanks and another comment between its words. -/
def looseText : String :=
  "a(*=*)= 'b'(**)."

theorem refilled_reads_alike_loose :
    tokenize tightText = .ok tightTokens ∧
      (∃ tokens', tokenize looseText = .ok tokens' ∧
        tokens'.map Token.word = tightTokens.map Token.word) ∧
      ∀ (reader reader' : Reader) (i j : Nat) (tree : Node),
        (∃ n, (reader.read i tightText).result = .ok n ∧ n.unnumbered = tree) ↔
          ∃ n, (reader'.read j looseText).result = .ok n ∧ n.unnumbered = tree := by
  have htokens : tokenize tightText = .ok tightTokens := by cbv
  have hempty : Gap ['(', '*', '*', ')'] := .comment unclosed_nil .nil
  have hequals : Gap ['(', '*', '=', '*', ')'] :=
    .comment (show Unclosed ['='] by simp [Unclosed, List.infix_cons_iff]) .nil
  have hblank : Gap [' '] := .blank rfl .nil
  have htight : Spaced (tightTokens.map Token.word) [[], [], [], [], []] tightText.toList :=
    .next .nil (.next .nil (.next .nil (.next .nil (.last .nil))))
  have hloose : Spaced (tightTokens.map Token.word)
      [[], ['(', '*', '=', '*', ')'], [' '], ['(', '*', '*', ')'], []] looseText.toList :=
    .next .nil (.next hequals (.next hblank (.next hempty (.last .nil))))
  have hrefills : List.Forall₂ Refills [[], [], [], [], []]
      [[], ['(', '*', '=', '*', ')'], [' '], ['(', '*', '*', ')'], []] :=
    .cons (.inl rfl) (.cons (.inr ⟨by simp, hequals⟩) (.cons (.inr ⟨by simp, hblank⟩)
      (.cons (.inr ⟨by simp, hempty⟩) (.cons (.inl rfl) .nil))))
  exact ⟨htokens, (refilled_reads_alike htokens).2 _ _ looseText htight hrefills hloose⟩

end Railroad.Ebnf
