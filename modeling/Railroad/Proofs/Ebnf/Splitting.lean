import Mathlib.Data.List.DropRight
import Railroad.Proofs.Ebnf.Cutting
/-!
How a text is split: lexeme after lexeme from left to right, up to its end or to the first place at which
none starts.  The tokens are the lexemes that are neither blanks nor comments, each with the place of its
first character.
-/
namespace Railroad.Ebnf

/-- There is no closing mark of a comment in a text. -/
def Unclosed (cs : List Char) : Prop :=
  ¬ ['*', ')'] <:+: cs

/-- A lexeme that is cut off in front of a rest: its text is of its kind, and it ends where the rest
begins. -/
inductive CutsOff (rest : List Char) : Lexeme → Prop
  | blank {cs : List Char} (hne : cs ≠ []) (hcs : ∀ c ∈ cs, Text.isBlank c = true)
      (hrest : ∀ c ∈ rest.head?, Text.isBlank c = false) : CutsOff rest ⟨.blank, cs⟩
  | comment {body : List Char} (hbody : Unclosed body) :
      CutsOff rest ⟨.comment, '(' :: '*' :: body ++ ['*', ')']⟩
  | token {kind : TokenKind} {cs : List Char} (hword : Lexical ⟨kind, String.ofList cs⟩)
      (hends : Word.EndsBefore ⟨kind, String.ofList cs⟩ rest) : CutsOff rest ⟨.token kind, cs⟩

/-- A text is split from left to right into lexemes, up to a rest. -/
inductive Splits (rest : List Char) : List Char → List Lexeme → Prop
  | nil : Splits rest rest []
  | cons {l : Lexeme} {ls : List Lexeme} {cs : List Char} (hl : CutsOff cs l)
      (hls : Splits rest cs ls) : Splits rest (l.text ++ cs) (l :: ls)

/-- A text starts neither with a blank nor with a word. -/
def StartsNothing (cs : List Char) : Prop :=
  (∀ c ∈ cs.head?, Text.isBlank c = false) ∧ ∀ w, Lexical w → ¬ w.text.toList <+: cs

/-- A text at which splitting stops, and why: it opens a comment that is never closed, or nothing starts
with it. -/
inductive Stuck : List Char → ParseFault → Prop
  | comment {body : List Char} (hbody : Unclosed body) :
      Stuck ('(' :: '*' :: body) .unterminatedComment
  | sequence {mark : Char} {cs : List Char} (hmark : mark ∈ ['"', '\'', '?'])
      (hcs : StartsNothing (mark :: cs)) : Stuck (mark :: cs) (.unterminatedSequence mark)
  | character {c : Char} {cs : List Char} (hc : c ∉ ['"', '\'', '?'])
      (hcs : StartsNothing (c :: cs)) : Stuck (c :: cs) (.unexpectedCharacter c)

/-- The place of the character behind a text.  Lines and columns count from one, and only line feeds end
lines. -/
def Position.behind (before : List Char) : Position :=
  ⟨before.count '\n' + 1, (before.rtakeWhile (· ≠ '\n')).length + 1⟩

/-- The tokens among some lexemes that stand behind a text, each at the place of its first character. -/
def tokensBehind (before : List Char) : List Lexeme → List Token
  | [] => []
  | ⟨.token kind, cs⟩ :: ls =>
      ⟨kind, String.ofList cs, .behind before⟩ :: tokensBehind (before ++ cs) ls
  | ⟨_, cs⟩ :: ls => tokensBehind (before ++ cs) ls

section Comments

variable {c : Char} {cs body rest : List Char} {n : Nat}

theorem unclosed_nil : Unclosed [] := by
  simp [Unclosed]

theorem unclosed_cons_iff :
    Unclosed (c :: cs) ↔ ¬ (c = '*' ∧ cs.head? = some ')') ∧ Unclosed cs := by
  have hhead : [')'] <+: cs ↔ cs.head? = some ')' := by
    cases cs <;> simp [List.cons_prefix_cons, eq_comm]
  rw [Unclosed, List.infix_cons_iff, List.cons_prefix_cons, hhead, not_or, eq_comm, Unclosed]

theorem commentEnd?_cons (h : ¬ (c = '*' ∧ cs.head? = some ')')) :
    commentEnd? (c :: cs) = (commentEnd? cs).map (· + 1) := by
  rw [commentEnd?.eq_def]
  split
  · rename_i heq
    cases heq
    exact absurd ⟨rfl, rfl⟩ h
  · rename_i heq
    cases heq
    rfl
  · rename_i heq
    cases heq

theorem commentEnd?_of_unclosed (rest : List Char) (h : Unclosed body) :
    commentEnd? (body ++ '*' :: ')' :: rest) = some (body.length + 2) := by
  induction body with
  | nil => rfl
  | cons c body ih =>
      rw [unclosed_cons_iff] at h
      rw [List.cons_append, commentEnd?_cons, ih h.2]
      · rfl
      · rintro ⟨hc, hhead⟩
        cases body with
        | nil => simp at hhead
        | cons d body => exact h.1 ⟨hc, hhead⟩

theorem exists_of_commentEnd? (h : commentEnd? cs = some n) :
    ∃ body rest, cs = body ++ '*' :: ')' :: rest ∧ Unclosed body ∧ n = body.length + 2 := by
  induction cs generalizing n with
  | nil => cases h
  | cons c cs ih =>
      by_cases hclosed : c = '*' ∧ cs.head? = some ')'
      · obtain ⟨rfl, hhead⟩ := hclosed
        obtain ⟨rest, rfl⟩ := List.head?_eq_some_iff.mp hhead
        cases h
        exact ⟨[], rest, rfl, unclosed_nil, rfl⟩
      · rw [commentEnd?_cons hclosed] at h
        obtain ⟨m, hm, rfl⟩ := Option.map_eq_some_iff.mp h
        obtain ⟨body, rest, rfl, hbody, rfl⟩ := ih hm
        refine ⟨c :: body, rest, rfl, unclosed_cons_iff.mpr ⟨?_, hbody⟩, rfl⟩
        rintro ⟨hc, hhead⟩
        cases body with
        | nil => cases hhead
        | cons d body => exact hclosed ⟨hc, hhead⟩

theorem commentEnd?_eq_none_iff : commentEnd? cs = none ↔ Unclosed cs := by
  induction cs with
  | nil => exact iff_of_true rfl unclosed_nil
  | cons c cs ih =>
      rw [unclosed_cons_iff]
      by_cases hclosed : c = '*' ∧ cs.head? = some ')'
      · obtain ⟨rfl, hhead⟩ := hclosed
        obtain ⟨rest, rfl⟩ := List.head?_eq_some_iff.mp hhead
        simp [commentEnd?]
      · rw [commentEnd?_cons hclosed, Option.map_eq_none_iff, ih]
        exact (and_iff_right hclosed).symm

/-- A comment is cut off at its first closing mark. -/
theorem extent?_comment (rest : List Char) (h : Unclosed body) :
    extent? '(' ('*' :: body ++ '*' :: ')' :: rest) = some (.comment, body.length + 3) := by
  have hend := commentEnd?_of_unclosed rest h
  simp [extent?, hend]

theorem extent?_open_iff : extent? '(' ('*' :: body) = none ↔ Unclosed body := by
  rw [← commentEnd?_eq_none_iff]
  simp [extent?]

end Comments

section Lexemes

variable {c : Char} {cs rest : List Char} {l : Lexeme} {kind : LexemeKind} {n : Nat}

theorem eq_false_of_mem_dropWhile {p : Char → Bool} (h : c ∈ (cs.dropWhile p).head?) :
    p c = false := by
  have hfirst := List.head?_dropWhile_not p cs
  rw [h] at hfirst
  simpa using hfirst

/-- Whatever is cut off as a token ends there. -/
theorem endsBefore_of_extent? {kind : TokenKind} (h : extent? c cs = some (.token kind, n)) :
    Word.EndsBefore ⟨kind, String.ofList (c :: cs.take n)⟩ (cs.drop n) := by
  -- The kinds in the order in which they are tried.  Strings and special words carry their own ends; only
  -- for a colon and a parenthesis that begin nothing longer it matters what was tried before.
  unfold extent? at h
  split at h
  · obtain ⟨_, -, hkind⟩ := Option.map_eq_some_iff.mp h
    cases hkind
  rename_i hcomment
  split at h
  · cases h
  split at h
  · obtain ⟨_, -, hkind⟩ := Option.map_eq_some_iff.mp h
    cases hkind
    trivial
  split at h
  · obtain ⟨_, -, hkind⟩ := Option.map_eq_some_iff.mp h
    cases hkind
    trivial
  split at h
  · rename_i hlong
    cases h
    rw [Bool.and_eq_true, decide_eq_true_eq, decide_eq_true_eq] at hlong
    intro htext
    rw [hlong.1, hlong.2] at htext
    exact absurd htext (by decide)
  rename_i hlong
  split at h
  · cases h
    rintro htext ⟨rest, hrest⟩
    rw [List.take_zero, ← String.ofList_toList (s := ":"), String.ofList_inj] at htext
    obtain rfl : c = ':' := List.head_eq_of_cons_eq htext
    refine hlong ?_
    rw [List.drop_zero] at hrest
    rw [← hrest]
    rfl
  split at h
  · cases h
    intro d hd
    rw [drop_length_takeWhile] at hd
    exact eq_false_of_mem_dropWhile hd
  split at h
  · cases h
    intro htext hhead
    rw [List.take_zero, ← String.ofList_toList (s := "("), String.ofList_inj] at htext
    obtain rfl : c = '(' := List.head_eq_of_cons_eq htext
    exact hcomment (by simpa using hhead)
  · cases h

/-- What is neither a blank nor opens a comment can only start a token. -/
theorem exists_token_of_extent? (hopen : ¬ (c = '(' ∧ cs.head? = some '*'))
    (hblank : ¬ Text.isBlank c = true) (h : extent? c cs = some (kind, n)) :
    ∃ k, kind = .token k := by
  rw [extent?, if_neg (by simpa using hopen), if_neg hblank] at h
  grind [Option.map_eq_some_iff]

/-- The kind and the length that a text starts with are those of a lexeme that is cut off. -/
theorem cutsOff_of_extent? (h : extent? c cs = some (kind, n)) :
    CutsOff (cs.drop n) ⟨kind, c :: cs.take n⟩ := by
  by_cases hopen : c = '(' ∧ cs.head? = some '*'
  · obtain ⟨rfl, hhead⟩ := hopen
    obtain ⟨ds, rfl⟩ := List.head?_eq_some_iff.mp hhead
    have hclosed : commentEnd? ds ≠ none := by
      rw [Ne, commentEnd?_eq_none_iff, ← extent?_open_iff, h]
      exact Option.some_ne_none _
    obtain ⟨m, hm⟩ := Option.ne_none_iff_exists'.mp hclosed
    obtain ⟨body, rest, rfl, hbody, rfl⟩ := exists_of_commentEnd? hm
    have hextent := extent?_comment rest hbody
    rw [List.cons_append, h] at hextent
    cases hextent
    have htake : ('*' :: (body ++ '*' :: ')' :: rest)).take (body.length + 3) =
        '*' :: body ++ ['*', ')'] := by
      simp [List.take_append, List.take_of_length_le]
    rw [htake]
    exact .comment hbody
  by_cases hblank : Text.isBlank c = true
  · rw [extent?_of_isBlank hblank] at h
    cases h
    rw [drop_length_takeWhile, ← List.prefix_iff_eq_take.mp (List.takeWhile_prefix _)]
    refine .blank (List.cons_ne_nil _ _) ?_ ?_
    · rw [List.forall_mem_cons]
      exact ⟨hblank, fun d hd => List.mem_takeWhile_imp hd⟩
    · exact fun d hd => eq_false_of_mem_dropWhile hd
  · obtain ⟨k, rfl⟩ := exists_token_of_extent? hopen hblank h
    exact .token (lexical_of_extent? h) (endsBefore_of_extent? h)

/-- A lexeme that is cut off is the one that the text starts with. -/
theorem CutsOff.extent?_eq (h : CutsOff rest l) :
    ∃ c body, l.text = c :: body ∧ extent? c (body ++ rest) = some (l.kind, body.length) := by
  cases h with
  | @blank cs hne hcs hrest =>
      obtain ⟨c, body, rfl⟩ := List.exists_cons_of_ne_nil hne
      rw [List.forall_mem_cons] at hcs
      refine ⟨c, body, rfl, ?_⟩
      rw [extent?_of_isBlank hcs.1, takeWhile_of_break hcs.2 hrest]
  | @comment body hbody =>
      refine ⟨'(', '*' :: body ++ ['*', ')'], rfl, ?_⟩
      have hextent := extent?_comment rest hbody
      simpa using hextent
  | @token kind cs hword hends =>
      obtain ⟨c, body, htext, hextent⟩ := hword.extent?_eq hends
      rw [String.toList_ofList] at htext
      exact ⟨c, body, htext, hextent⟩

/-- Every text is split by cutting it into lexemes. -/
theorem splits_lexemes (cs : List Char) : Splits (lexemes cs).2 cs (lexemes cs).1 := by
  induction cs using lexemes.induct with
  | case1 =>
      rw [lexemes]
      exact .nil
  | case2 c cs hextent =>
      rw [lexemes, hextent]
      exact .nil
  | case3 c cs kind n hextent _ _ _ ih =>
      rw [lexemes_cons hextent]
      have hsplits := Splits.cons (cutsOff_of_extent? hextent) ih
      rwa [List.cons_append, List.take_append_drop] at hsplits

/-- There is one way only to split a text up to a place. -/
theorem Splits.lexemes_eq {ls : List Lexeme} (h : Splits rest cs ls) :
    lexemes cs = (ls ++ (lexemes rest).1, (lexemes rest).2) := by
  induction h with
  | nil => rfl
  | @cons l ls cs hl _ ih =>
      obtain ⟨c, body, htext, hextent⟩ := hl.extent?_eq
      rw [htext, List.cons_append, lexemes_cons hextent, List.drop_left, List.take_left, ih, ← htext]
      rfl

end Lexemes

section Ends

variable {c : Char} {cs rest : List Char} {fault : ParseFault} {w : Word}

/-- Nothing but an open comment keeps a text from starting with a word that stands there. -/
theorem Lexical.opens_of_extent? (hw : Lexical w) (htext : w.text.toList ++ rest = c :: cs)
    (h : extent? c cs = none) : c = '(' ∧ cs.head? = some '*' := by
  have hends : ¬ w.EndsBefore rest := by
    intro hends
    obtain ⟨d, body, hd, hextent⟩ := hw.extent?_eq hends
    rw [hd, List.cons_append] at htext
    cases htext
    rw [h] at hextent
    cases hextent
  cases hw with
  | @ident d ds hd =>
      rw [String.toList_ofList] at htext
      cases htext
      -- Some identifier is cut off in any case, though not where `w` ends.
      have hpart : ∀ e ∈ (ds ++ rest).takeWhile isIdentPart, isIdentPart e = true :=
        fun e he => List.mem_takeWhile_imp he
      have hrest : ∀ e ∈ ((ds ++ rest).dropWhile isIdentPart).head?, isIdentPart e = false :=
        fun e he => eq_false_of_mem_dropWhile he
      have hextent := extent?_ident hd hpart hrest
      rw [List.takeWhile_append_dropWhile] at hextent
      exact absurd (hextent.symm.trans h) (Option.some_ne_none _)
  | string | special => exact absurd trivial hends
  | define hds =>
      rcases hds with rfl | rfl | rfl
      · exact absurd (fun h => absurd h (by decide)) hends
      · obtain ⟨tail, rfl⟩ : [':', '='] <+: rest := (Classical.not_imp.mp hends).2 |> not_not.mp
        cases htext
        cases h
      · exact absurd (fun h => absurd h (by decide)) hends
  | @punct d hd =>
      obtain ⟨hparen, hhead⟩ := Classical.not_imp.mp hends
      rw [String.toList_ofList] at htext
      cases htext
      rw [← String.ofList_toList (s := "("), String.ofList_inj] at hparen
      exact ⟨List.head_eq_of_cons_eq hparen, not_not.mp hhead⟩

theorem StartsNothing.ne_paren (h : StartsNothing (c :: cs)) : c ≠ '(' := by
  rintro rfl
  exact h.2 _ (.punct (c := '(') rfl) ⟨cs, by simp⟩

/-- A text starts with nothing if no lexeme is cut off, other than for an open comment. -/
theorem startsNothing_iff :
    StartsNothing (c :: cs) ↔ extent? c cs = none ∧ ¬ (c = '(' ∧ cs.head? = some '*') := by
  constructor
  · intro h
    refine ⟨?_, fun hopen => h.ne_paren hopen.1⟩
    by_contra hextent
    obtain ⟨⟨kind, n⟩, hextent⟩ := Option.ne_none_iff_exists'.mp hextent
    obtain ⟨k, rfl⟩ := exists_token_of_extent? (fun hopen => h.ne_paren hopen.1)
      (by simpa using h.1 c rfl) hextent
    refine h.2 _ (lexical_of_extent? hextent) ⟨cs.drop n, ?_⟩
    rw [String.toList_ofList, List.cons_append, List.take_append_drop]
  · rintro ⟨hextent, hopen⟩
    refine ⟨?_, ?_⟩
    · intro d hd
      obtain rfl := Option.some.inj hd
      rw [← Bool.not_eq_true]
      intro hblank
      rw [extent?_of_isBlank hblank] at hextent
      cases hextent
    · rintro w hw ⟨rest, htext⟩
      exact hopen (hw.opens_of_extent? htext hextent)

theorem unreadable_of_mem (h : c ∈ ['"', '\'', '?']) : unreadable c = .unterminatedSequence c := by
  simp only [List.mem_cons, List.not_mem_nil, or_false] at h
  rcases h with rfl | rfl | rfl <;> rfl

theorem unreadable_of_notMem (hparen : c ≠ '(') (h : c ∉ ['"', '\'', '?']) :
    unreadable c = .unexpectedCharacter c := by
  simp only [List.mem_cons, List.not_mem_nil, or_false, not_or] at h
  simp [unreadable, hparen, h]

/-- Splitting stops exactly where no lexeme is cut off. -/
theorem stuck_iff : Stuck (c :: cs) fault ↔ extent? c cs = none ∧ unreadable c = fault := by
  constructor
  · intro h
    cases h with
    | comment hbody => exact ⟨extent?_open_iff.mpr hbody, rfl⟩
    | sequence hmark hcs => exact ⟨(startsNothing_iff.mp hcs).1, unreadable_of_mem hmark⟩
    | character hmark hcs =>
        exact ⟨(startsNothing_iff.mp hcs).1, unreadable_of_notMem hcs.ne_paren hmark⟩
  · rintro ⟨hextent, rfl⟩
    by_cases hopen : c = '(' ∧ cs.head? = some '*'
    · obtain ⟨rfl, hhead⟩ := hopen
      obtain ⟨body, rfl⟩ := List.head?_eq_some_iff.mp hhead
      exact .comment (extent?_open_iff.mp hextent)
    · have hcs := startsNothing_iff.mpr ⟨hextent, hopen⟩
      by_cases hmark : c ∈ ['"', '\'', '?']
      · rw [unreadable_of_mem hmark]
        exact .sequence hmark hcs
      · rw [unreadable_of_notMem hcs.ne_paren hmark]
        exact .character hmark hcs

end Ends

section Places

variable {before : List Char}

theorem next_behind (before : List Char) (c : Char) :
    (Position.behind before).next c = .behind (before ++ [c]) := by
  by_cases hc : c = '\n'
  · simp [Position.next, Position.behind, hc]
  · simp [Position.next, Position.behind, hc]

theorem after_behind (before cs : List Char) :
    (Position.behind before).after cs = .behind (before ++ cs) := by
  induction cs generalizing before with
  | nil =>
      rw [List.append_nil]
      rfl
  | cons c cs ih =>
      have hnext := ih (before ++ [c])
      rw [Position.after] at hnext ⊢
      rw [List.foldl_cons, next_behind, hnext, List.append_assoc, List.singleton_append]

theorem tokensFrom_behind (before : List Char) (ls : List Lexeme) :
    tokensFrom (.behind before) ls =
      (tokensBehind before ls, .behind (before ++ ls.flatMap Lexeme.text)) := by
  induction ls generalizing before with
  | nil => simp [tokensFrom, tokensBehind]
  | cons l ls ih =>
      obtain ⟨kind, cs⟩ := l
      rw [tokensFrom, after_behind, ih]
      cases kind <;> simp [tokensBehind]

end Places

section Lexing

variable {c : Char} {cs ds rest : List Char} {ls : List Lexeme} {fault : ParseFault}

theorem extent?_of_rest (h : (lexemes cs).2 = c :: ds) : extent? c ds = none := by
  induction cs using lexemes.induct with
  | case1 =>
      rw [lexemes] at h
      cases h
  | case2 d cs hextent =>
      rw [lexemes, hextent] at h
      cases h
      exact hextent
  | case3 d cs kind n hextent _ _ _ ih =>
      rw [lexemes_cons hextent] at h
      exact ih h

/-- A split that comes to an end, or to a place at which it is stuck, is the one by cutting. -/
theorem Splits.lexemes_of_end (h : Splits [] cs ls) : lexemes cs = (ls, []) := by
  rw [h.lexemes_eq, lexemes, List.append_nil]

theorem Splits.lexemes_of_stuck (h : Splits rest cs ls) (hrest : Stuck rest fault) :
    lexemes cs = (ls, rest) ∧ ∃ c ds, rest = c :: ds ∧ unreadable c = fault := by
  obtain ⟨c, ds, rfl⟩ : ∃ c ds, rest = c :: ds := by cases hrest <;> exact ⟨_, _, rfl⟩
  obtain ⟨hextent, hfault⟩ := stuck_iff.mp hrest
  refine ⟨?_, c, ds, rfl, hfault⟩
  rw [h.lexemes_eq, lexemes, hextent, List.append_nil]

theorem tokenize_eq (text : String) :
    tokenize text =
      match (lexemes text.toList).2 with
      | [] => .ok (tokensBehind [] (lexemes text.toList).1)
      | c :: _ =>
          .error ⟨unreadable c, .behind ((lexemes text.toList).1.flatMap Lexeme.text)⟩ := by
  have hplaces := tokensFrom_behind [] (lexemes text.toList).1
  rw [List.nil_append] at hplaces
  rw [tokenize, show Position.start = .behind [] from rfl]
  cases hrest : (lexemes text.toList).2 with
  | nil => simp only [hplaces, hrest]
  | cons c cs => simp only [hplaces, hrest]

end Lexing

/-- The tokens of a text are those of a split up to its end, each at the place of its first character.
There is an error instead if a split gets stuck, and it stands at the place where it does. -/
theorem tokenize_splits (text : String) :
    (∀ tokens, tokenize text = .ok tokens ↔
      ∃ ls, Splits [] text.toList ls ∧ tokens = tokensBehind [] ls) ∧
    ∀ e, tokenize text = .error e ↔ ∃ ls rest, Splits rest text.toList ls ∧ Stuck rest e.fault ∧
      e.position = .behind (ls.flatMap Lexeme.text) := by
  have hsplits := splits_lexemes text.toList
  refine ⟨fun tokens => ⟨fun h => ?_, ?_⟩, fun e => ⟨fun h => ?_, ?_⟩⟩
  · rw [tokenize_eq] at h
    split at h
    · rename_i hrest
      cases h
      rw [hrest] at hsplits
      exact ⟨_, hsplits, rfl⟩
    · cases h
  · rintro ⟨ls, hls, rfl⟩
    rw [tokenize_eq, hls.lexemes_of_end]
  · rw [tokenize_eq] at h
    split at h
    · cases h
    · rename_i hrest
      cases h
      exact ⟨_, _, hsplits, hrest ▸ stuck_iff.mpr ⟨extent?_of_rest hrest, rfl⟩, rfl⟩
  · rintro ⟨ls, rest, hls, hstuck, hposition⟩
    obtain ⟨hlexemes, c, ds, rfl, hfault⟩ := hls.lexemes_of_stuck hstuck
    rw [tokenize_eq, hlexemes]
    simp only [hfault, ← hposition]

end Railroad.Ebnf
