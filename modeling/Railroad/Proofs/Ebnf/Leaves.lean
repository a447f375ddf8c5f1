import Railroad.Proofs.Ebnf.Reading
import Railroad.Proofs.Ebnf.Spelling
import Railroad.Proofs.Grammar.Shape
/-!
Single leaves: which of them are written as a token that is read as the same leaf again.  Those are the
leaves that can be read from any text at all.  Of the others, quoted ones are refused; names and special
sequences are written nevertheless, as a text that is read otherwise or not at all.
-/
namespace Railroad

open Ebnf Word

/-- The kind of token that a leaf is written as; a title has a place of its own before a block. -/
def Node.tokenKind? : Node → Option TokenKind
  | .literal _ _ .quoted | .other .. => some .string
  | .literal _ _ .special => some .special
  | .identifier .. => some .ident
  | _ => none

/-- The step of reading that makes leaves like a node: a comment is read behind a block, all others are
factors. -/
def Node.leafReading (bracket : Token → Reading Node) : Node → Reading (Option Node)
  | .other .. => closingComment
  | _ => some <$> factor bracket

/-- Wherever the token comes next, it is read as the same leaf. -/
def Node.IsReadFrom (n : Node) (t : Token) : Prop :=
  ∀ (bracket : Token → Reading Node) (c : Cursor), c.rest.head? = some t →
    ∃ m c', n.leafReading bracket c = .ok (some m) c' ∧ m.unnumbered = n.unnumbered ∧
      c'.rest = c.rest.tail

namespace Ebnf

/-- What a word says: a string without its quotes, a special sequence without its marks and the blanks
inside them. -/
def Word.content (w : Word) : List Char :=
  match w.kind with
  | .string => unmarked w.text
  | .special => Text.strip (unmarked w.text)
  | _ => w.text.toList

/-- The texts that tokens can say: names have the letters of names, special sequences no question mark and
no blanks at their ends, and strings stand in one line and lack one kind of quotes. -/
def IsSayable (kind : TokenKind) (cs : List Char) : Prop :=
  match kind with
  | .ident => ∃ d ds, cs = d :: ds ∧ isIdentStart d = true ∧ ∀ e ∈ ds, isIdentPart e = true
  | .special => '?' ∉ cs ∧ Text.strip cs = cs
  | .string => '\n' ∉ cs ∧ ('"' ∉ cs ∨ '\'' ∉ cs)
  | .define | .punct => False

section Leaves

variable {n : Node} {t : Token} {kind : TokenKind} {text : String}

theorem map_some_eq_ok {x : Reading Node} {m : Node} {c c' : Cursor} :
    (some <$> x) c = .ok (some m) c' ↔ x c = .ok m c' := by
  change EStateM.map some x c = _ ↔ _
  rw [EStateM.map]
  cases x c <;> simp

/-- A token that says the text of a leaf is read as that leaf. -/
theorem isReadFrom_of_content (hkind : n.tokenKind? = some t.kind)
    (htext : n.text? = some (String.ofList t.word.content)) : n.IsReadFrom t := by
  intro bracket c hc
  obtain ⟨ts, hrest⟩ := List.head?_eq_some_iff.mp hc
  have hfactor := factor_eq bracket hrest
  cases n with
  | literal _ text sort =>
      cases sort with
      | quoted | special =>
          have hk := (Option.some.inj hkind).symm
          simp only [content, Token.word, hk] at htext
          obtain rfl := Option.some.inj htext
          rw [hk] at hfactor
          exact ⟨_, _, map_some_eq_ok.mpr hfactor, rfl, rfl⟩
      | title => cases hkind
  | identifier _ text =>
      have hk := (Option.some.inj hkind).symm
      simp only [content, Token.word, hk, String.ofList_toList] at htext
      obtain rfl := Option.some.inj htext
      rw [hk] at hfactor
      exact ⟨_, _, map_some_eq_ok.mpr hfactor, rfl, rfl⟩
  | other _ text =>
      have hk := (Option.some.inj hkind).symm
      simp only [content, Token.word, hk] at htext
      obtain rfl := Option.some.inj htext
      have hwords : c.words = ⟨.string, t.text⟩ :: c.advanced.words := by
        rw [Cursor.words_of_rest hrest, Token.word, hk]
      exact ⟨_, _, closingComment_present hwords, rfl, rfl⟩
  | _ => cases hkind

/-- A factor that is a token of its own is a leaf that says what the token says. -/
theorem content_of_factor {refuse : Token → Reading Node} {c c' : Cursor} {m : Node}
    {ts : List Token} (hrefuse : ∀ t c m c', refuse t c ≠ .ok m c') (hrest : c.rest = t :: ts)
    (hm : factor refuse c = .ok m c') :
    m.tokenKind? = some t.kind ∧ m.text? = some (String.ofList t.word.content) := by
  rw [factor_eq refuse hrest] at hm
  split at hm <;> rename_i hkind
  · cases hm
    simp [Node.tokenKind?, Node.text?, content, Token.word, hkind]
  · cases hm
    simp only [Node.tokenKind?, Node.text?, content, Token.word, hkind]
    exact ⟨trivial, rfl⟩
  · cases hm
    simp only [Node.tokenKind?, Node.text?, content, Token.word, hkind]
    exact ⟨trivial, rfl⟩
  · split at hm
    · exact absurd hm (hrefuse t c m c')
    · exact absurd hm (expected_ne_ok _ _)

theorem tokenKind?_unnumbered (n : Node) : n.unnumbered.tokenKind? = n.tokenKind? := by
  cases n with
  | literal _ _ sort => cases sort <;> rfl
  | _ => rfl

/-- What is read as a leaf says the text of the leaf. -/
theorem content_of_isReadFrom (hkind : n.tokenKind? = some kind) (hread : n.IsReadFrom t) :
    n.tokenKind? = some t.kind ∧ n.text? = some (String.ofList t.word.content) := by
  obtain ⟨m, c', hm, hsame, -⟩ := hread (fun t => throw ⟨.tooDeep, some t⟩) ⟨[t], 0, 0, 0⟩ rfl
  have hkinds : m.tokenKind? = n.tokenKind? := by
    rw [← tokenKind?_unnumbered, hsame, tokenKind?_unnumbered]
  have htexts : m.text? = n.text? := by
    rw [← Node.text?_unnumbered, hsame, Node.text?_unnumbered]
  rw [← hkinds, ← htexts]
  cases n with
  | literal | identifier =>
      exact content_of_factor (by rintro _ _ _ _ ⟨⟩) rfl (map_some_eq_ok.mp hm)
  | other _ text =>
      have hstring : t.kind = .string := by
        by_contra hother
        rw [Node.leafReading, closingComment_missing (by simpa [Cursor.words, Token.word] using hother)]
          at hm
        cases hm
      have hwords : (⟨[t], 0, 0, 0⟩ : Cursor).words = [⟨.string, t.text⟩] := by
        simp [Cursor.words, Token.word, hstring]
      rw [Node.leafReading, closingComment_present hwords] at hm
      cases hm
      simp only [Node.tokenKind?, Node.text?, content, Token.word, hstring, and_self]
  | _ => cases hkind

theorem isReadFrom_iff (hkind : n.tokenKind? = some kind) (htext : n.text? = some text) :
    n.IsReadFrom t ↔ t.kind = kind ∧ t.word.content = text.toList := by
  have htold : n.text? = some (String.ofList t.word.content) ↔ t.word.content = text.toList := by
    rw [htext, Option.some_inj, ← String.toList_inj, String.toList_ofList, eq_comm]
  constructor
  · intro hread
    obtain ⟨hk, hcontent⟩ := content_of_isReadFrom hkind hread
    exact ⟨Option.some.inj (hk.symm.trans hkind), htold.mp hcontent⟩
  · rintro ⟨rfl, hcontent⟩
    exact isReadFrom_of_content hkind (htold.mpr hcontent)

end Leaves

section Words

variable {n : Node} {w : Word} {kind : TokenKind} {text : String}

theorem isSayable_string_iff {cs : List Char} : IsSayable .string cs ↔ ¬ IsUnquotable cs := by
  simp only [IsSayable, IsUnquotable, not_or, not_and_or]

/-- Whatever text a word is cut from, it says a text of its kind. -/
theorem isSayable_of_lexical (hw : Lexical w) (hkind : n.tokenKind? = some w.kind) :
    IsSayable w.kind w.content := by
  cases hw with
  | @ident c cs hc hcs => exact ⟨c, cs, by simp [content], hc, hcs⟩
  | @string mark body hmark hbody =>
      exact isSayable_string_iff.mpr (not_isUnquotable_of_lexical (.string hmark hbody))
  | @special body hbody =>
      simp only [IsSayable, content, unmarked_ofList]
      exact ⟨fun hmem => hbody _ (mem_of_mem_strip hmem) rfl, strip_strip body⟩
  | define | punct =>
      cases n with
      | literal _ _ sort => cases sort <;> cases hkind
      | _ => cases hkind

/-- What is written for a leaf, by the kind of token that it is written as. -/
theorem written_leaf (hkind : n.tokenKind? = some kind) (htext : n.text? = some text) :
    written n = match kind with
      | .string => (quote text).map String.ofList
      | .special => .ok (String.ofList ('?' :: (' ' :: text.toList ++ [' ']) ++ ['?']))
      | _ => .ok text := by
  cases n with
  | literal _ _ sort =>
      cases htext
      cases sort with
      | quoted =>
          cases hkind
          rw [written, writeFault?, quoteFault?, writeOnto, quoteOnto]
          · cases quote text <;> simp [Except.map]
          all_goals rintro ⟨⟩
      | special =>
          cases hkind
          simp [written, writeFault?, writeOnto]
      | title => cases hkind
  | identifier =>
      cases htext
      cases hkind
      simp [written, writeFault?, writeOnto]
  | other =>
      cases htext
      cases hkind
      rw [written, writeFault?, quoteFault?, writeOnto, quoteOnto]
      cases quote text <;> simp [Except.map]
  | _ => cases hkind

/-- A leaf whose text can be said is written as a word that says it. -/
theorem exists_written (hkind : n.tokenKind? = some kind) (htext : n.text? = some text)
    (h : IsSayable kind text.toList) :
    ∃ w : Word, Lexical w ∧ w.kind = kind ∧ w.content = text.toList ∧ written n = .ok w.text := by
  have hwritten := written_leaf hkind htext
  cases kind with
  | string =>
      obtain ⟨spelling, hquote⟩ := exists_quote (isSayable_string_iff.mp h)
      obtain ⟨hw, hcontent⟩ := lexical_of_quote hquote
      exact ⟨_, hw, rfl, hcontent, by rw [hwritten, hquote]; rfl⟩
  | special =>
      have hlexical : Lexical ⟨.special, String.ofList ('?' :: text.toList ++ ['?'])⟩ :=
        .special fun d hd heq => h.1 (heq ▸ hd)
      have hinner : Text.strip (unmarked (String.ofList ('?' :: text.toList ++ ['?']))) = text.toList := by
        rw [unmarked_ofList, h.2]
      obtain ⟨hw, hcontent⟩ := special_of_lexical hlexical hinner
      exact ⟨_, hw, rfl, hcontent, hwritten⟩
  | ident =>
      obtain ⟨c, cs, hcs, hc, hpart⟩ := h
      have hw : Lexical ⟨.ident, text⟩ := by
        have hident := Lexical.ident hc hpart
        rwa [← hcs, String.ofList_toList] at hident
      exact ⟨_, hw, rfl, rfl, hwritten⟩
  | define | punct => cases h

end Words

section Printing

variable {n : Node} {kind : TokenKind} {text : String}

/-- What any text is cut into says nothing but texts of its kind. -/
theorem isSayable_of_mem {source : String} {tokens : List Token} {t : Token}
    (htokens : tokenize source = .ok tokens) (ht : t ∈ tokens) (hkind : n.tokenKind? = some kind)
    (htext : n.text? = some text) (hread : n.IsReadFrom t) : IsSayable kind text.toList := by
  obtain ⟨rfl, hcontent⟩ := (isReadFrom_iff hkind htext).mp hread
  have hlexical : Lexical t.word :=
    lexical_of_cuts (cuts_of_tokenize htokens) _ (List.mem_map_of_mem ht)
  rw [← hcontent]
  exact isSayable_of_lexical hlexical hkind

/-- A leaf whose text can be said is written as one token that is read as it. -/
theorem written_reads_back (hkind : n.tokenKind? = some kind) (htext : n.text? = some text)
    (h : IsSayable kind text.toList) :
    ∃ printed, written n = .ok printed ∧
      ∃ t, tokenize printed = .ok [t] ∧ t.kind = kind ∧ n.IsReadFrom t := by
  obtain ⟨w, hw, hword, hcontent, hwritten⟩ := exists_written hkind htext h
  exact ⟨_, hwritten, _, tokenize_of_lexical hw, hword,
    (isReadFrom_iff hkind htext).mpr ⟨hword, hcontent⟩⟩

theorem written_eq_error_iff (hkind : n.tokenKind? = some kind) (htext : n.text? = some text)
    (fault : WriteFault) : written n = .error fault ↔
      fault = .unquotable text ∧ kind = .string ∧ ¬ IsSayable kind text.toList := by
  by_cases hsay : IsSayable kind text.toList
  · obtain ⟨w, -, -, -, hwritten⟩ := exists_written hkind htext hsay
    simp [hwritten, hsay]
  · have hwritten := written_leaf hkind htext
    by_cases hstring : kind = .string
    · subst hstring
      have hrefused : IsUnquotable text.toList := not_not.mp (mt isSayable_string_iff.mpr hsay)
      rw [hwritten, quote_eq_error_iff.mpr ⟨rfl, hrefused⟩]
      simp [Except.map, hsay, eq_comm]
    · have hok : ∃ printed, written n = .ok printed := by
        rw [hwritten]
        cases kind with
        | string => exact absurd rfl hstring
        | _ => exact ⟨_, rfl⟩
      obtain ⟨printed, hok⟩ := hok
      simp [hok, hstring]

end Printing

/-- A quoted leaf, a special sequence, a name or a comment is refused, or it is written as one token of its
kind that is read as the same leaf again, exactly if it is one of those between quotes or has a text that
tokens of its kind can say.  These are the leaves that can be read from any text at all; and what is refused
is what is neither, of the leaves between quotes. -/
theorem leaf_reads_back_iff {n : Node} {kind : TokenKind} {text : String}
    (hkind : n.tokenKind? = some kind) (htext : n.text? = some text) :
    ((written n = .error (.unquotable text) ∨ ∃ printed, written n = .ok printed ∧
        ∃ t, tokenize printed = .ok [t] ∧ t.kind = kind ∧ n.IsReadFrom t) ↔
      kind = .string ∨ IsSayable kind text.toList) ∧
    (IsSayable kind text.toList ↔
      ∃ source tokens, tokenize source = .ok tokens ∧ ∃ t ∈ tokens, n.IsReadFrom t) ∧
    ∀ fault, written n = .error fault ↔
      fault = .unquotable text ∧ kind = .string ∧ ¬ IsSayable kind text.toList := by
  have herror := written_eq_error_iff hkind htext
  refine ⟨⟨?settled, ?settles⟩, ⟨?readable, ?readFrom⟩, herror⟩
  case settled =>
    rintro (hrefused | ⟨printed, -, t, htokens, -, hread⟩)
    · exact .inl ((herror _).mp hrefused).2.1
    · exact .inr (isSayable_of_mem htokens List.mem_cons_self hkind htext hread)
  case settles =>
    intro h
    by_cases hsay : IsSayable kind text.toList
    · exact .inr (written_reads_back hkind htext hsay)
    · exact .inl ((herror _).mpr ⟨rfl, h.resolve_right hsay, hsay⟩)
  case readable =>
    intro hsay
    obtain ⟨printed, -, t, htokens, -, hread⟩ := written_reads_back hkind htext hsay
    exact ⟨printed, [t], htokens, t, List.mem_cons_self, hread⟩
  case readFrom =>
    rintro ⟨source, tokens, htokens, t, ht, hread⟩
    exact isSayable_of_mem htokens ht hkind htext hread

/-- Quotes of one kind are put between those of the other. -/
theorem leaf_reads_back_iff_inQuotes :
    (Node.literal 7 "say \"hi\"" .quoted).tokenKind? = some .string ∧
    (Node.literal 7 "say \"hi\"" .quoted).text? = some "say \"hi\"" ∧
    (∃ printed, written (.literal 7 "say \"hi\"" .quoted) = .ok printed ∧
      ∃ t, tokenize printed = .ok [t] ∧ t.kind = .string ∧
        (Node.literal 7 "say \"hi\"" .quoted).IsReadFrom t) ∧
    ∀ fault, written (.literal 7 "say \"hi\"" .quoted) ≠ .error fault := by
  obtain ⟨hsettled, -, herror⟩ :=
    leaf_reads_back_iff (n := .literal 7 "say \"hi\"" .quoted) rfl rfl
  have hsay : IsSayable .string "say \"hi\"".toList := by
    simp [IsSayable]
  have hunrefused : ∀ fault, written (.literal 7 "say \"hi\"" .quoted) ≠ .error fault :=
    fun fault hfault => ((herror fault).mp hfault).2.2 hsay
  exact ⟨rfl, rfl, (hsettled.mpr (.inl rfl)).resolve_left (hunrefused _), hunrefused⟩

/-- A question mark ends a special sequence early, so that what is written here cannot be read; a name with a
blank in it is read as two names. -/
theorem leaf_strays :
    (written (.literal 0 "a?b" .special) = .ok "? a?b ?" ∧ ∀ tokens, tokenize "? a?b ?" ≠ .ok tokens) ∧
      written (.identifier 0 "a b") = .ok "a b" ∧ ∀ t, tokenize "a b" ≠ .ok [t] := by
  refine ⟨⟨by cbv, ?unread⟩, by cbv, ?two⟩
  case unread =>
    intro tokens htokens
    have hcut : tokenize "? a?b ?" = .error ⟨.unterminatedSequence '?', ⟨1, 7⟩⟩ := by cbv
    cases htokens.symm.trans hcut
  case two =>
    intro t htokens
    have hcut : tokenize "a b" = .ok [⟨.ident, "a", ⟨1, 1⟩⟩, ⟨.ident, "b", ⟨1, 3⟩⟩] := by cbv
    cases htokens.symm.trans hcut

end Ebnf

end Railroad
