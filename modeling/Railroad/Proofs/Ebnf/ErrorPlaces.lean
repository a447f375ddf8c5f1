import Mathlib
import Railroad.Text.Lines
import Railroad.Proofs.Ebnf.Splitting
import Railroad.Proofs.Ebnf.Whereabouts
/-!
Where the error of a text stands that is no grammar: at a token, at the character that starts nothing, or
behind the last token.

The place behind the last token is counted on from its first character along the line.  That is no place
of the text if the token goes on in another line, as a special sequence may.
-/
namespace Railroad.Ebnf

/-- The places of a text at which an error may stand. -/
inductive Marks (text : List Char) : Position → Prop
  /-- The first character of a token. -/
  | token {rest : List Char} {ls : List Lexeme} {kind : TokenKind} {cs : List Char}
      (h : Splits rest text (ls ++ [⟨.token kind, cs⟩])) :
      Marks text (.behind (ls.flatMap Lexeme.text))
  /-- A character that starts nothing. -/
  | unreadable {rest : List Char} {ls : List Lexeme} {fault : ParseFault} (h : Splits rest text ls)
      (hrest : Stuck rest fault) : Marks text (.behind (ls.flatMap Lexeme.text))
  /-- The character behind the last token. -/
  | lastEnd {ls gaps : List Lexeme} {kind : TokenKind} {cs : List Char}
      (h : Splits [] text (ls ++ ⟨.token kind, cs⟩ :: gaps)) (hgaps : ∀ l ∈ gaps, l.word? = none) :
      Marks text (.behind (ls.flatMap Lexeme.text ++ cs))
  /-- The first place of a text without tokens. -/
  | start {gaps : List Lexeme} (h : Splits [] text gaps) (hgaps : ∀ l ∈ gaps, l.word? = none) :
      Marks text ⟨1, 1⟩

/-- The place is in a line of the text, or right behind its last character. -/
def Position.On (p : Position) (text : List Char) : Prop :=
  ∃ line, 0 < p.line ∧ (Text.splitLines text)[p.line - 1]? = some line ∧
    0 < p.column ∧ p.column ≤ line.length + 1

/-- The last token of a text goes on in another line. -/
def EndsOverLines (text : String) : Prop :=
  ∃ tokens last, tokenize text = .ok tokens ∧ tokens.getLast? = some last ∧ '\n' ∈ last.text.toList

section Lines

variable {before cs rest : List Char}

theorem head?_splitLines (cs : List Char) :
    (Text.splitLines cs).head? = some (cs.takeWhile (· ≠ '\n')) := by
  induction cs with
  | nil => rfl
  | cons c cs ih =>
      by_cases hc : c = '\n'
      · simp [Text.splitLines, hc]
      · obtain ⟨lines, hlines⟩ := List.head?_eq_some_iff.mp ih
        simp [Text.splitLines, hc, hlines]

/-- The line of the character behind a text goes back to the last line feed and on to the next. -/
theorem drop_splitLines {line : List Char} {lines : List (List Char)}
    (h : Text.splitLines rest = line :: lines) :
    (Text.splitLines (before ++ rest)).drop (before.count '\n') =
      (before.rtakeWhile (· ≠ '\n') ++ line) :: lines := by
  induction before using List.reverseRecOn generalizing rest line lines with
  | nil => exact h
  | append_singleton before c ih =>
      rw [List.append_assoc, List.singleton_append]
      by_cases hc : c = '\n'
      · have hrest : Text.splitLines (c :: rest) = [] :: line :: lines := by
          simp [Text.splitLines, hc, h]
        have hnext := ih hrest
        have hdrop := congrArg (List.drop 1) hnext
        simpa [List.drop_drop, hc, Nat.add_comm] using hdrop
      · have hrest : Text.splitLines (c :: rest) = (c :: line) :: lines := by
          simp [Text.splitLines, hc, h]
        have hnext := ih hrest
        simpa [hc] using hnext

theorem getElem?_splitLines (before rest : List Char) :
    (Text.splitLines (before ++ rest))[before.count '\n']? =
      some (before.rtakeWhile (· ≠ '\n') ++ rest.takeWhile (· ≠ '\n')) := by
  obtain ⟨lines, hlines⟩ := List.head?_eq_some_iff.mp (head?_splitLines rest)
  rw [← List.head?_drop, drop_splitLines hlines, List.head?_cons]

/-- How far a line goes on that a text ends in. -/
theorem on_iff (before rest : List Char) (column : Nat) :
    (⟨(Position.behind before).line, column⟩ : Position).On (before ++ rest) ↔
      0 < column ∧ column ≤ (before.rtakeWhile (· ≠ '\n')).length +
        (rest.takeWhile (· ≠ '\n')).length + 1 := by
  simp [Position.On, Position.behind, getElem?_splitLines]

theorem behind_on (before rest : List Char) : (Position.behind before).On (before ++ rest) := by
  exact (on_iff before rest _).mpr ⟨Nat.succ_pos _, Nat.succ_le_succ (Nat.le_add_right _ _)⟩

theorem after_of_notMem (p : Position) (h : '\n' ∉ cs) :
    p.after cs = ⟨p.line, p.column + cs.length⟩ := by
  induction cs generalizing p with
  | nil => rfl
  | cons c cs ih =>
      rw [List.mem_cons, not_or] at h
      have hnext : p.next c = ⟨p.line, p.column + 1⟩ := if_neg (Ne.symm h.1)
      have hrest := ih (p.next c) h.2
      rw [Position.after] at hrest ⊢
      rw [List.foldl_cons, hrest, hnext, List.length_cons]
      simp only [Nat.add_assoc, Nat.add_comm 1]

theorem length_takeWhile_lt (rest : List Char) (h : '\n' ∈ cs) :
    ((cs ++ rest).takeWhile (· ≠ '\n')).length < cs.length := by
  induction cs with
  | nil => cases h
  | cons c cs ih =>
      by_cases hc : c = '\n'
      · simp [hc]
      · have hrest := ih ((List.mem_cons.mp h).resolve_left (Ne.symm hc))
        simpa [hc] using hrest

/-- The place behind some characters is counted on along their line if they stay in it, and what is counted
on is no place of the text otherwise. -/
theorem countedOn_on_iff (before cs rest : List Char) :
    (⟨(Position.behind before).line, (Position.behind before).column + cs.length⟩ : Position).On
      (before ++ (cs ++ rest)) ↔ '\n' ∉ cs := by
  constructor
  · intro hon hmem
    have hcolumn := ((on_iff before (cs ++ rest) _).mp hon).2
    have hshort := length_takeWhile_lt rest hmem
    simp only [Position.behind] at hcolumn
    omega
  · intro hmem
    rw [← after_of_notMem _ hmem, after_behind, ← List.append_assoc]
    exact behind_on (before ++ cs) rest

end Lines

section Tokens

variable {before : List Char} {ls : List Lexeme} {t : Token}

theorem word?_of_tokensBehind (h : tokensBehind before ls = []) : ∀ l ∈ ls, l.word? = none := by
  induction ls generalizing before with
  | nil => nofun
  | cons l ls ih =>
      obtain ⟨kind, cs⟩ := l
      cases kind with
      | blank | comment => exact List.forall_mem_cons.mpr ⟨rfl, ih h⟩
      | token kind => cases h

/-- Every token is a lexeme, and those before and behind it are the tokens before and behind. -/
theorem exists_of_tokensBehind {ts ts' : List Token} (h : tokensBehind before ls = ts ++ t :: ts') :
    ∃ ls₁ cs ls₂, ls = ls₁ ++ ⟨.token t.kind, cs⟩ :: ls₂ ∧
      t = ⟨t.kind, String.ofList cs, .behind (before ++ ls₁.flatMap Lexeme.text)⟩ ∧
      ∃ before', tokensBehind before' ls₂ = ts' := by
  induction ls generalizing before ts with
  | nil => cases (List.append_eq_nil_iff.mp h.symm).2
  | cons l ls ih =>
      -- Those before the lexeme `l` are nothing new, whatever it is, once the others have been found.
      have hlater : ∀ {ts : List Token}, tokensBehind (before ++ l.text) ls = ts ++ t :: ts' →
          ∃ ls₁ cs ls₂, l :: ls = ls₁ ++ ⟨.token t.kind, cs⟩ :: ls₂ ∧
            t = ⟨t.kind, String.ofList cs, .behind (before ++ ls₁.flatMap Lexeme.text)⟩ ∧
            ∃ before', tokensBehind before' ls₂ = ts' := by
        intro ts h
        obtain ⟨ls₁, cs, ls₂, rfl, ht, hts'⟩ := ih h
        refine ⟨l :: ls₁, cs, ls₂, rfl, ?_, hts'⟩
        rwa [List.flatMap_cons, ← List.append_assoc]
      obtain ⟨kind, cs⟩ := l
      cases kind with
      | blank | comment => exact hlater h
      | token kind =>
          cases ts with
          | cons s ts => exact hlater (List.cons.inj h).2
          | nil =>
              obtain ⟨rfl, hts'⟩ := List.cons.inj h
              exact ⟨[], cs, ls, rfl, by simp, before ++ cs, hts'⟩

variable {rest text : List Char}

theorem Splits.append_iff {ls ls' : List Lexeme} :
    Splits rest text (ls ++ ls') ↔ ∃ mid, Splits mid text ls ∧ Splits rest mid ls' := by
  induction ls generalizing text with
  | nil =>
      constructor
      · exact fun h => ⟨text, .nil, h⟩
      · rintro ⟨mid, hnil, h⟩
        cases hnil
        exact h
  | cons l ls ih =>
      constructor
      · intro h
        cases h with
        | cons hl hls =>
            obtain ⟨mid, hls, hls'⟩ := ih.mp hls
            exact ⟨mid, .cons hl hls, hls'⟩
      · rintro ⟨mid, h, hls'⟩
        cases h with
        | cons hl hls => exact .cons hl (ih.mpr ⟨mid, hls, hls'⟩)

theorem Splits.text_eq (h : Splits rest text ls) : text = ls.flatMap Lexeme.text ++ rest := by
  induction h with
  | nil => rfl
  | cons _ _ ih => rw [List.flatMap_cons, List.append_assoc, ← ih]

end Tokens

/-- All the places at which an error may stand are places of the text. -/
theorem Marks.on {text : List Char} {p : Position} (h : Marks text p) : p.On text := by
  cases h with
  | token h =>
      rw [h.text_eq, List.flatMap_append, List.append_assoc]
      exact behind_on _ _
  | unreadable h =>
      rw [h.text_eq]
      exact behind_on _ _
  | @lastEnd ls gaps kind cs h =>
      rw [h.text_eq, List.flatMap_append, List.flatMap_cons, List.append_nil, ← List.append_assoc]
      exact behind_on _ _
  | start => exact behind_on [] text

section Errors

variable {text : String} {tokens : List Token} {e : ParseError} {s : Stop} {t : Token}

theorem splits_of_tokenize (h : tokenize text = .ok tokens) :
    ∃ ls, Splits [] text.toList ls ∧ tokens = tokensBehind [] ls := by
  have hsplits := splits_lexemes text.toList
  rw [tokenize_eq] at h
  split at h
  · rename_i hrest
    cases h
    rw [hrest] at hsplits
    exact ⟨_, hsplits, rfl⟩
  · cases h

theorem atEnd_unreadable (c : Char) : (unreadable c).atEnd = false := by
  unfold unreadable
  split
  · rfl
  · split <;> rfl

theorem marks_of_uncut (h : tokenize text = .error e) :
    Marks text.toList e.position ∧ e.fault.atEnd = false := by
  rw [tokenize_eq] at h
  split at h
  · cases h
  · rename_i hrest
    cases h
    exact ⟨.unreadable (splits_lexemes text.toList)
      (hrest ▸ stuck_iff.mpr ⟨extent?_of_rest hrest, rfl⟩), atEnd_unreadable _⟩

theorem marks_of_token (h : tokenize text = .ok tokens) (ht : t ∈ tokens) :
    Marks text.toList t.position := by
  obtain ⟨ls, hsplits, rfl⟩ := splits_of_tokenize h
  obtain ⟨ts, ts', htokens⟩ := List.append_of_mem ht
  obtain ⟨ls₁, cs, ls₂, rfl, hplace, -⟩ := exists_of_tokensBehind htokens
  rw [← List.singleton_append, ← List.append_assoc] at hsplits
  obtain ⟨rest, hsplits, -⟩ := Splits.append_iff.mp hsplits
  rw [hplace]
  exact .token hsplits

/-- The end of the text is told by its last token, rightly if that token stays in its line. -/
theorem marks_of_end (h : tokenize text = .ok tokens) (hnone : s.token = none) :
    ((s.position tokens).On text.toList → ¬ EndsOverLines text) ∧
      (¬ EndsOverLines text → Marks text.toList (s.position tokens)) := by
  obtain ⟨ls, hsplits, rfl⟩ := splits_of_tokenize h
  rcases List.eq_nil_or_concat' (tokensBehind [] ls) with hnil | ⟨ts, last, hlast⟩
  · rw [hnil] at h ⊢
    have hover : ¬ EndsOverLines text := by
      rintro ⟨tokens, last, htokens, hlast, -⟩
      cases h.symm.trans htokens
      cases hlast
    rw [Stop.position, hnone]
    exact ⟨fun _ => hover, fun _ => .start hsplits (word?_of_tokensBehind hnil)⟩
  · obtain ⟨ls₁, cs, gaps, rfl, hplace, before, hgaps⟩ := exists_of_tokensBehind hlast
    have htext : last.text = String.ofList cs := congrArg Token.text hplace
    have hbehind : last.position = .behind (ls₁.flatMap Lexeme.text) := congrArg Token.position hplace
    rw [hlast] at h ⊢
    have hover : EndsOverLines text ↔ '\n' ∈ cs := by
      constructor
      · rintro ⟨tokens, last', htokens, hlast', hmem⟩
        cases h.symm.trans htokens
        rw [List.getLast?_concat] at hlast'
        cases hlast'
        rwa [htext, String.toList_ofList] at hmem
      · intro hmem
        exact ⟨_, last, h, List.getLast?_concat, by rwa [htext, String.toList_ofList]⟩
    -- The place that is told is counted on from the start of the last token, as if the token stayed in its line.
    have hposition : s.position (ts ++ [last]) =
        ⟨(Position.behind (ls₁.flatMap Lexeme.text)).line,
          (Position.behind (ls₁.flatMap Lexeme.text)).column + cs.length⟩ := by
      rw [Stop.position, hnone, List.getLast?_concat]
      simp only [hbehind, htext, String.length_ofList]
    rw [hover, hposition]
    constructor
    · have hsplit := hsplits.text_eq
      rw [List.flatMap_append, List.flatMap_cons, List.append_nil] at hsplit
      rw [hsplit]
      exact (countedOn_on_iff _ _ _).mp
    · intro hmem
      rw [← after_of_notMem _ hmem, after_behind]
      exact .lastEnd hsplits (word?_of_tokensBehind hgaps)

/-- The error of a text stands at one of its tokens, at a character that starts nothing or behind the last
token, and so in a line of the text; but if the text ends where more of it was expected, and its last token
goes on in another line, then the error stands at no place of the text. -/
theorem error_marks_iff {reader : Reader} {nextId : Nat}
    (h : (reader.read nextId text).result = .error e) :
    (Marks text.toList e.position ↔ ¬ (e.fault.atEnd = true ∧ EndsOverLines text)) ∧
      (e.position.On text.toList ↔ ¬ (e.fault.atEnd = true ∧ EndsOverLines text)) := by
  suffices hmarks : (e.position.On text.toList → ¬ (e.fault.atEnd = true ∧ EndsOverLines text)) ∧
      (¬ (e.fault.atEnd = true ∧ EndsOverLines text) → Marks text.toList e.position) from
    ⟨⟨fun h => hmarks.1 h.on, hmarks.2⟩, hmarks.1, fun h => (hmarks.2 h).on⟩
  have houtcome := reader.read_outcome nextId text
  generalize reader.read nextId text = r at h houtcome
  cases houtcome with
  | uncut htokens =>
      cases h
      obtain ⟨hmarks, hend⟩ := marks_of_uncut htokens
      exact ⟨fun _ hbad => absurd hbad.1 (by rw [hend]; nofun), fun _ => hmarks⟩
  | tree => cases h
  | @stop tokens s c htokens hc htoken hend =>
      cases h
      cases hnext : s.token with
      | none =>
          rw [hnext] at hend
          have hmarks := marks_of_end htokens hnext
          simpa only [hend, Option.isNone_none, true_and] using hmarks
      | some t =>
          rw [hnext] at hend htoken
          have ht : t ∈ tokens := by
            rw [hc.rest] at htoken
            exact List.mem_of_mem_drop (List.mem_of_head? htoken.symm)
          have hposition : s.position tokens = t.position := by
            rw [Stop.position, hnext]
          dsimp only
          rw [hposition]
          exact ⟨fun _ hbad => absurd hbad.1 (by rw [hend]; nofun), fun _ => marks_of_token htokens ht⟩

/-- The end of a text whose last token is an identifier after a special sequence over two lines. -/
theorem error_marks_iff_unfinished :
    (Reader.new.read 0 "a = ?x\ny? b").result =
        .error ⟨.expected (.terminator "a") none, ⟨2, 5⟩⟩ ∧
      Marks "a = ?x\ny? b".toList ⟨2, 5⟩ ∧ (⟨2, 5⟩ : Position).On "a = ?x\ny? b".toList := by
  have hread : (Reader.new.read 0 "a = ?x\ny? b").result =
      .error ⟨.expected (.terminator "a") none, ⟨2, 5⟩⟩ := by cbv
  have htokens : tokenize "a = ?x\ny? b" = .ok [⟨.ident, "a", ⟨1, 1⟩⟩, ⟨.define, "=", ⟨1, 3⟩⟩,
      ⟨.special, "?x\ny?", ⟨1, 5⟩⟩, ⟨.ident, "b", ⟨2, 4⟩⟩] := by cbv
  have hover : ¬ EndsOverLines "a = ?x\ny? b" := by
    rintro ⟨tokens, last, htokens', hlast, hmem⟩
    cases htokens.symm.trans htokens'
    cases hlast
    exact absurd hmem (by decide)
  obtain ⟨hmarks, hon⟩ := error_marks_iff hread
  exact ⟨hread, hmarks.mpr fun hbad => hover hbad.2, hon.mpr fun hbad => hover hbad.2⟩

/-- The last token of this text ends in its second line, and the error stands behind the end of the first. -/
theorem error_strays :
    parse "a = ?x\ny?" = .error ⟨.expected (.terminator "a") none, ⟨1, 10⟩⟩ ∧
      ¬ Marks "a = ?x\ny?".toList ⟨1, 10⟩ ∧ ¬ (⟨1, 10⟩ : Position).On "a = ?x\ny?".toList := by
  have hoff : ¬ (⟨1, 10⟩ : Position).On "a = ?x\ny?".toList := by
    rintro ⟨line, -, hline, -, hcolumn⟩
    have hfirst : (Text.splitLines "a = ?x\ny?".toList)[0]? = some ['a', ' ', '=', ' ', '?', 'x'] := by
      decide
    cases hline.symm.trans hfirst
    exact absurd hcolumn (by decide)
  exact ⟨by cbv, fun h => hoff h.on, hoff⟩

end Errors

end Railroad.Ebnf
