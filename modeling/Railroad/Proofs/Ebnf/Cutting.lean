import Mathlib.Data.List.TakeWhile
import Railroad.Ebnf.Token
import Railroad.Proofs.Ebnf.Derivation
/-!
How text is cut into words: which texts the words of each kind have, and that such a text is cut off as one
word wherever it may end.
-/
namespace Railroad.Ebnf

/-- The word of a lexeme that is a token. -/
def Lexeme.word? (l : Lexeme) : Option Word :=
  match l.kind with
  | .token kind => some ⟨kind, String.ofList l.text⟩
  | _ => none

/-- A text is cut into these words, and nothing of it is left. -/
def Cuts (cs : List Char) (ws : List Word) : Prop :=
  (lexemes cs).2 = [] ∧ (lexemes cs).1.filterMap Lexeme.word? = ws

/-- The words that a text can be cut into. -/
inductive Lexical : Word → Prop
  | ident {c : Char} {cs : List Char} (hc : isIdentStart c = true)
      (hcs : ∀ d ∈ cs, isIdentPart d = true) : Lexical ⟨.ident, String.ofList (c :: cs)⟩
  | string {mark : Char} {body : List Char} (hmark : mark = '"' ∨ mark = '\'')
      (hbody : ∀ d ∈ body, d ≠ mark ∧ d ≠ '\n') :
      Lexical ⟨.string, String.ofList (mark :: body ++ [mark])⟩
  | special {body : List Char} (hbody : ∀ d ∈ body, d ≠ '?') :
      Lexical ⟨.special, String.ofList ('?' :: body ++ ['?'])⟩
  | define {cs : List Char} (hcs : cs = [':', ':', '='] ∨ cs = [':'] ∨ cs = ['=']) :
      Lexical ⟨.define, String.ofList cs⟩
  | punct {c : Char} (hc : isPunct c = true) : Lexical ⟨.punct, String.ofList [c]⟩

/-- A word ends where a rest begins: the rest neither carries it on nor makes another lexeme of it. -/
def Word.EndsBefore (w : Word) (rest : List Char) : Prop :=
  match w.kind with
  | .ident => ∀ d ∈ rest.head?, isIdentPart d = false
  | .define => w.text = ":" → ¬ [':', '='] <+: rest
  | .punct => w.text = "(" → rest.head? ≠ some '*'
  | .string | .special => True

/-- A text at which the word before it ends. -/
def Breaks (rest : List Char) : Prop :=
  ∀ c ∈ rest.head?, Text.isBlank c = true

theorem words_tokensFrom (start : Position) (ls : List Lexeme) :
    (tokensFrom start ls).1.map Token.word = ls.filterMap Lexeme.word? := by
  induction ls generalizing start with
  | nil => rfl
  | cons l ls ih =>
      rw [tokensFrom, List.filterMap_cons, ← ih (start.after l.text), Lexeme.word?]
      cases l.kind <;> rfl

/-- The tokens of a text are the words that it is cut into. -/
theorem cuts_of_tokenize {text : String} {tokens : List Token} (h : tokenize text = .ok tokens) :
    Cuts text.toList (tokens.map Token.word) := by
  rw [tokenize] at h
  split at h
  rename_i ls rest hlexemes
  split at h
  rename_i ts stop hts
  split at h
  · cases h
    refine ⟨by rw [hlexemes], ?_⟩
    rw [hlexemes, ← words_tokensFrom .start ls, hts]
  · cases h

theorem tokenize_of_cuts {text : String} {ws : List Word} (h : Cuts text.toList ws) :
    ∃ tokens, tokenize text = .ok tokens ∧ tokens.map Token.word = ws := by
  obtain ⟨hrest, hwords⟩ := h
  refine ⟨(tokensFrom .start (lexemes text.toList).1).1, ?_, ?_⟩
  · simp only [tokenize, hrest]
  · rw [words_tokensFrom, hwords]

section Steps

variable {c mark : Char} {cs rest body : List Char} {ws : List Word} {n : Nat}

theorem lexemes_cons {kind : LexemeKind} (h : extent? c cs = some (kind, n)) :
    lexemes (c :: cs) =
      (⟨kind, c :: cs.take n⟩ :: (lexemes (cs.drop n)).1, (lexemes (cs.drop n)).2) := by
  rw [lexemes, h]

theorem takeWhile_of_break {p : Char → Bool} (hbody : ∀ d ∈ body, p d = true)
    (hrest : ∀ d ∈ rest.head?, p d = false) : (body ++ rest).takeWhile p = body := by
  rw [List.takeWhile_append_of_pos hbody]
  cases rest with
  | nil => simp
  | cons d ds =>
      have hd : p d = false := hrest d rfl
      simp [hd]

theorem closedBy?_of_body (inside : Char → Bool) (rest : List Char)
    (hbody : ∀ d ∈ body, d ≠ mark ∧ inside d = true) :
    closedBy? mark inside (body ++ mark :: rest) = some (body.length + 1) := by
  have htake : (body ++ mark :: rest).takeWhile (fun d => d != mark && inside d) = body := by
    apply takeWhile_of_break
    · simpa using hbody
    · simp
  simp [closedBy?, htake]

/-- What is closed by a mark are characters that may stand inside, and the mark. -/
theorem take_of_closedBy? {inside : Char → Bool} (h : closedBy? mark inside cs = some n) :
    ∃ body, cs.take n = body ++ [mark] ∧ ∀ d ∈ body, d ≠ mark ∧ inside d = true := by
  rw [closedBy?] at h
  split at h
  · rename_i hmark
    obtain rfl := Option.some.inj h
    refine ⟨cs.takeWhile fun d => d != mark && inside d, ?_, ?_⟩
    · rw [List.take_add_one, hmark, ← List.prefix_iff_eq_take.mp (List.takeWhile_prefix _)]
      rfl
    · intro d hd
      have hinside := List.mem_takeWhile_imp hd
      simpa using hinside
  · cases h

/-- Whatever is cut off as a token has a text of its kind. -/
theorem lexical_of_extent? {kind : TokenKind} (h : extent? c cs = some (.token kind, n)) :
    Lexical ⟨kind, String.ofList (c :: cs.take n)⟩ := by
  -- The kinds in the order in which they are tried: comments and blanks are no tokens.
  unfold extent? at h
  split at h
  · obtain ⟨_, -, hkind⟩ := Option.map_eq_some_iff.mp h
    cases hkind
  split at h
  · cases h
  split at h
  · rename_i hmark
    obtain ⟨m, hclosed, hkind⟩ := Option.map_eq_some_iff.mp h
    cases hkind
    obtain ⟨body, htext, hbody⟩ := take_of_closedBy? hclosed
    rw [htext]
    exact .string (by simpa using hmark) (by simpa using hbody)
  split at h
  · rename_i hmark
    obtain ⟨m, hclosed, hkind⟩ := Option.map_eq_some_iff.mp h
    cases hkind
    obtain ⟨body, htext, hbody⟩ := take_of_closedBy? hclosed
    rw [htext, hmark]
    exact .special (by simpa [hmark] using hbody)
  split at h
  · rename_i hdefine
    cases h
    simp only [Bool.and_eq_true, decide_eq_true_eq] at hdefine
    rw [hdefine.1, hdefine.2]
    exact .define (.inl rfl)
  split at h
  · rename_i hdefine
    cases h
    refine .define (.inr ?_)
    simpa using hdefine
  split at h
  · rename_i hc
    cases h
    refine .ident hc ?_
    intro d hd
    rw [← List.prefix_iff_eq_take.mp (List.takeWhile_prefix isIdentPart)] at hd
    exact List.mem_takeWhile_imp hd
  split at h
  · rename_i hc
    cases h
    exact .punct hc
  · cases h

/-- All words that a text is cut into are lexical. -/
theorem lexical_of_cuts (h : Cuts cs ws) : ∀ w ∈ ws, Lexical w := by
  obtain ⟨-, rfl⟩ := h
  induction cs using lexemes.induct with
  | case1 =>
      rw [lexemes]
      simp
  | case2 c cs hextent =>
      rw [lexemes, hextent]
      simp
  | case3 c cs kind n hextent _ _ _ ih =>
      intro w hw
      rw [lexemes_cons hextent, List.filterMap_cons] at hw
      cases kind with
      | token kind =>
          rcases List.mem_cons.mp hw with rfl | hw
          · exact lexical_of_extent? hextent
          · exact ih w hw
      | blank | comment => exact ih w hw

end Steps

section Words

variable {c : Char} {cs rest body : List Char} {ws us : List Word} {w : Word}

theorem drop_length_takeWhile (p : Char → Bool) (cs : List Char) :
    cs.drop (cs.takeWhile p).length = cs.dropWhile p :=
  calc
    cs.drop (cs.takeWhile p).length =
        (cs.takeWhile p ++ cs.dropWhile p).drop (cs.takeWhile p).length := by
      rw [List.takeWhile_append_dropWhile]
    _ = cs.dropWhile p := List.drop_left

theorem extent?_of_isBlank (hc : Text.isBlank c = true) :
    extent? c cs = some (.blank, (cs.takeWhile Text.isBlank).length) := by
  have hopen : c ≠ '(' := by
    rintro rfl
    cases hc
  simp [extent?, hopen, hc]

theorem Cuts.nil : Cuts [] [] := by
  constructor <;> rw [lexemes]
  rfl

theorem cuts_cons_iff {kind : LexemeKind} {n : Nat} (h : extent? c cs = some (kind, n)) :
    Cuts (c :: cs) ws ↔ ∃ us, Cuts (cs.drop n) us ∧
      (Lexeme.word? ⟨kind, c :: cs.take n⟩).toList ++ us = ws := by
  rw [Cuts, lexemes_cons h, List.filterMap_cons]
  constructor
  · rintro ⟨hleft, rfl⟩
    refine ⟨_, ⟨hleft, rfl⟩, ?_⟩
    cases Lexeme.word? ⟨kind, c :: cs.take n⟩ <;> rfl
  · rintro ⟨us, ⟨hleft, rfl⟩, rfl⟩
    refine ⟨hleft, ?_⟩
    cases Lexeme.word? ⟨kind, c :: cs.take n⟩ <;> rfl

/-- Blanks in front of a text add no word to it. -/
theorem cuts_blank_iff (hc : Text.isBlank c = true) : Cuts (c :: cs) ws ↔ Cuts cs ws := by
  have hskip : ∀ {d : Char} {ds : List Char}, Text.isBlank d = true →
      (Cuts (d :: ds) ws ↔ Cuts (ds.dropWhile Text.isBlank) ws) := by
    intro d ds hd
    rw [cuts_cons_iff (extent?_of_isBlank hd), drop_length_takeWhile]
    simp [Lexeme.word?]
  rw [hskip hc]
  cases cs with
  | nil => rfl
  | cons d ds =>
      by_cases hd : Text.isBlank d = true
      · rw [List.dropWhile_cons_of_pos hd, hskip hd]
      · rw [List.dropWhile_cons_of_neg hd]

theorem breaks_cons (hc : Text.isBlank c = true) : Breaks (c :: cs) := by
  intro d hd
  obtain rfl := Option.some.inj hd
  exact hc

theorem Breaks.head?_ne (h : Breaks rest) (hc : Text.isBlank c = false) : rest.head? ≠ some c := by
  intro hhead
  rw [h c hhead] at hc
  cases hc

/-- The characters of identifiers lie above the blanks of ASCII and below all others. -/
theorem toNat_of_isIdentPart (hc : isIdentPart c = true) : 0x2d ≤ c.toNat ∧ c.toNat ≤ 0x7a := by
  simp only [isIdentPart, isIdentStart, Bool.or_eq_true, Bool.and_eq_true, decide_eq_true_eq,
    Char.le_def, UInt32.le_iff_toNat_le] at hc
  rcases hc with (((⟨hlow, hhigh⟩ | ⟨hlow, hhigh⟩) | rfl) | ⟨hlow, hhigh⟩) | rfl
  · exact ⟨Nat.le_trans (by decide) hlow, Nat.le_trans hhigh (by decide)⟩
  · exact ⟨Nat.le_trans (by decide) hlow, Nat.le_trans hhigh (by decide)⟩
  · decide
  · exact ⟨Nat.le_trans (by decide) hlow, Nat.le_trans hhigh (by decide)⟩
  · decide

theorem isBlank_eq_false_of_isIdentPart (hc : isIdentPart c = true) : Text.isBlank c = false := by
  have hrange := toNat_of_isIdentPart hc
  rw [← Bool.not_eq_true]
  intro hblank
  simp only [Text.isBlank, Bool.or_eq_true, Bool.and_eq_true, decide_eq_true_eq, beq_iff_eq]
    at hblank
  omega

/-- Whatever word is before it, a text that breaks ends it. -/
theorem Breaks.endsBefore (h : Breaks rest) (w : Word) : w.EndsBefore rest := by
  obtain ⟨kind, text⟩ := w
  cases kind with
  | ident =>
      intro d hd
      rw [← Bool.not_eq_true]
      intro hpart
      have hblank := h d hd
      rw [isBlank_eq_false_of_isIdentPart hpart] at hblank
      cases hblank
  | define =>
      rintro - ⟨cs, rfl⟩
      exact h.head?_ne (c := ':') rfl rfl
  | punct => exact fun _ => h.head?_ne rfl
  | string | special => trivial

theorem extent?_ident (hc : isIdentStart c = true) (hcs : ∀ d ∈ cs, isIdentPart d = true)
    (hrest : ∀ d ∈ rest.head?, isIdentPart d = false) :
    extent? c (cs ++ rest) = some (.token .ident, cs.length) := by
  have hne : ∀ d, isIdentStart d = false → c ≠ d := by
    rintro d hd rfl
    rw [hc] at hd
    cases hd
  have hblank : Text.isBlank c = false :=
    isBlank_eq_false_of_isIdentPart (by simp [isIdentPart, hc])
  have htake : (cs ++ rest).takeWhile isIdentPart = cs := takeWhile_of_break hcs hrest
  simp only [extent?, hne '(' (by decide), hne '"' (by decide), hne '\'' (by decide),
    hne '?' (by decide), hne ':' (by decide), hne '=' (by decide), hblank, hc, htake]
  rfl

theorem extent?_punct (hc : isPunct c = true) (hrest : c = '(' → rest.head? ≠ some '*') :
    extent? c rest = some (.token .punct, 0) := by
  simp only [isPunct, List.contains_eq_mem, List.mem_cons, List.not_mem_nil, or_false,
    decide_eq_true_eq] at hc
  rw [extent?, if_neg (by simpa using hrest)]
  rcases hc with rfl | rfl | rfl | rfl | rfl | rfl | rfl | rfl | rfl | rfl | rfl | rfl | rfl <;> rfl

theorem extent?_colon (hrest : ¬ [':', '='] <+: rest) :
    extent? ':' rest = some (.token .define, 0) := by
  have htake : rest.take 2 ≠ [':', '='] := by
    intro htake
    exact hrest (htake ▸ List.take_prefix 2 rest)
  simp only [extent?, htake, decide_false, Bool.and_false]
  rfl

/-- A word is cut off whole in front of a text that ends it. -/
theorem Lexical.extent?_eq (hw : Lexical w) (hends : w.EndsBefore rest) :
    ∃ c body, w.text.toList = c :: body ∧
      extent? c (body ++ rest) = some (.token w.kind, body.length) := by
  cases hw with
  | @ident c cs hc hcs => exact ⟨c, cs, by simp, extent?_ident hc hcs hends⟩
  | @string mark body hmark hbody =>
      refine ⟨mark, body ++ [mark], by simp, ?_⟩
      have hclosed := closedBy?_of_body (· != '\n') rest (by simpa using hbody)
      rcases hmark with rfl | rfl <;> simp [extent?, hclosed, Text.isBlank]
  | @special body hbody =>
      refine ⟨'?', body ++ ['?'], by simp, ?_⟩
      have hclosed := closedBy?_of_body (fun _ => true) rest (by simpa using hbody)
      simp [extent?, hclosed, Text.isBlank]
  | define hcs =>
      rcases hcs with rfl | rfl | rfl
      · exact ⟨':', [':', '='], by simp, rfl⟩
      · exact ⟨':', [], by simp, extent?_colon (hends rfl)⟩
      · exact ⟨'=', [], by simp, rfl⟩
  | @punct c hc =>
      refine ⟨c, [], by simp, extent?_punct hc ?_⟩
      rintro rfl
      exact hends rfl

theorem cuts_word_iff (hw : Lexical w) (hends : w.EndsBefore rest) :
    Cuts (w.text.toList ++ rest) ws ↔ ∃ us, Cuts rest us ∧ w :: us = ws := by
  obtain ⟨c, body, htext, hextent⟩ := hw.extent?_eq hends
  rw [htext, List.cons_append, cuts_cons_iff hextent, List.drop_left, List.take_left, ← htext]
  simp [Lexeme.word?]

theorem Cuts.word (hw : Lexical w) (hrest : Breaks rest) (h : Cuts rest us) :
    Cuts (w.text.toList ++ rest) (w :: us) :=
  (cuts_word_iff hw (hrest.endsBefore w)).mpr ⟨us, h, rfl⟩

end Words

end Railroad.Ebnf
