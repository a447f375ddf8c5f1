import Railroad.Ebnf.Written
import Railroad.Proofs.Ebnf.Cutting
/-!
Texts between quotes: which texts can be put there, and that each of them is cut out again as it was.
-/
namespace Railroad.Ebnf

open Word

/-- Texts with a line feed or with both kinds of quotes. -/
def IsUnquotable (cs : List Char) : Prop :=
  '\n' ∈ cs ∨ '"' ∈ cs ∧ '\'' ∈ cs

section Strings

variable {text : String} {cs : List Char} {mark : Char} {w : Word}

/-- The text between the marks of a string or special sequence. -/
theorem unmarked_ofList (left right : Char) (body : List Char) :
    unmarked (String.ofList (left :: body ++ [right])) = body := by
  simp [unmarked]

theorem lexical_between (hmark : mark = '"' ∨ mark = '\'') (hfree : mark ∉ cs) (hline : '\n' ∉ cs) :
    Lexical ⟨.string, String.ofList (mark :: cs ++ [mark])⟩ := by
  refine .string hmark fun d hd => ⟨?_, ?_⟩
  · rintro rfl
    exact hfree hd
  · rintro rfl
    exact hline hd

/-- What a string says stands in one line and lacks the quotes that are around it. -/
theorem not_isUnquotable_of_lexical (h : Lexical ⟨.string, text⟩) : ¬ IsUnquotable (unmarked text) := by
  cases h with
  | @string mark body hmark hbody =>
      rw [unmarked_ofList]
      rintro (hline | ⟨hdouble, hsingle⟩)
      · exact (hbody _ hline).2 rfl
      · rcases hmark with rfl | rfl
        · exact (hbody _ hdouble).1 rfl
        · exact (hbody _ hsingle).1 rfl

/-- A word by itself is cut into this one word. -/
theorem tokenize_of_lexical (hw : Lexical w) : tokenize w.text = .ok [⟨w.kind, w.text, .start⟩] := by
  have hends : w.EndsBefore [] := Breaks.endsBefore (by simp [Breaks]) w
  obtain ⟨c, body, htext, hextent⟩ := hw.extent?_eq hends
  rw [List.append_nil] at hextent
  have hlexemes : lexemes w.text.toList = ([⟨.token w.kind, w.text.toList⟩], []) := by
    rw [htext, lexemes_cons hextent, List.drop_length, List.take_length, lexemes]
  simp [tokenize, hlexemes, tokensFrom]

end Strings

section Quoting

variable {text : String} {cs spelling : List Char}

theorem quoteChars?_eq_none_iff : quoteChars? cs = none ↔ IsUnquotable cs := by
  rw [quoteChars?, IsUnquotable]
  split
  · rename_i hrefused
    simpa [or_comm] using hrefused
  · rename_i hquotable
    have hnone : ¬ ('\n' ∈ cs ∨ '"' ∈ cs ∧ '\'' ∈ cs) := by
      simpa [or_comm] using hquotable
    split <;> simp [hnone]

/-- The quotes that are put around a text are of a kind that it lacks. -/
theorem exists_mark (h : quoteChars? cs = some spelling) :
    ∃ mark, (mark = '"' ∨ mark = '\'') ∧ mark ∉ cs ∧ spelling = mark :: cs ++ [mark] := by
  have hquotable : ¬ IsUnquotable cs := by
    rw [← quoteChars?_eq_none_iff, h]
    exact Option.some_ne_none _
  rw [quoteChars?, if_neg (by simpa [IsUnquotable, or_comm] using hquotable)] at h
  split at h
  · rename_i hdouble
    rw [List.contains_iff_mem] at hdouble
    refine ⟨'\'', .inr rfl, fun hsingle => ?_, (Option.some.inj h).symm⟩
    exact hquotable (.inr ⟨hdouble, hsingle⟩)
  · rename_i hdouble
    rw [List.contains_iff_mem] at hdouble
    exact ⟨'"', .inl rfl, hdouble, (Option.some.inj h).symm⟩

theorem quote_eq_error_iff {fault : WriteFault} :
    quote text = .error fault ↔ fault = .unquotable text ∧ IsUnquotable text.toList := by
  rw [← quoteChars?_eq_none_iff, quote]
  cases quoteChars? text.toList <;> simp [eq_comm]

theorem exists_quote (h : ¬ IsUnquotable text.toList) : ∃ spelling, quote text = .ok spelling := by
  cases hquote : quote text with
  | ok spelling => exact ⟨spelling, rfl⟩
  | error fault => exact absurd (quote_eq_error_iff.mp hquote).2 h

/-- What a text becomes between quotes is a string that says the text. -/
theorem lexical_of_quote (h : quote text = .ok spelling) :
    Lexical ⟨.string, String.ofList spelling⟩ ∧ unmarked (String.ofList spelling) = text.toList := by
  have hchars : quoteChars? text.toList = some spelling := by
    rw [quote] at h
    split at h
    · rw [← Except.ok.inj h]
      assumption
    · cases h
  have hline : '\n' ∉ text.toList := by
    intro hbreak
    rw [quoteChars?_eq_none_iff.mpr (.inl hbreak)] at hchars
    cases hchars
  obtain ⟨mark, hmark, hfree, rfl⟩ := exists_mark hchars
  exact ⟨lexical_between hmark hfree hline, unmarked_ofList _ _ _⟩

/-- The text of a string word can be put between quotes again. -/
theorem quote_of_lexical (h : Lexical ⟨.string, text⟩) :
    ∃ spelling, quote (String.ofList (unmarked text)) = .ok spelling ∧
      Lexical ⟨.string, String.ofList spelling⟩ ∧
      unmarked (String.ofList spelling) = unmarked text := by
  have hquotable : ¬ IsUnquotable (String.ofList (unmarked text)).toList := by
    rw [String.toList_ofList]
    exact not_isUnquotable_of_lexical h
  obtain ⟨spelling, hquote⟩ := exists_quote hquotable
  obtain ⟨hlexical, hinner⟩ := lexical_of_quote hquote
  exact ⟨spelling, hquote, hlexical, by rw [hinner, String.toList_ofList]⟩

/-- What the strings among the tokens of a text say can be put between quotes. -/
theorem not_isUnquotable_of_mem {source : String} {tokens : List Token} {t : Token}
    (htokens : tokenize source = .ok tokens) (ht : t ∈ tokens) (hkind : t.kind = .string) :
    ¬ IsUnquotable (unmarked t.text) := by
  have hlexical := lexical_of_cuts (cuts_of_tokenize htokens) _ (List.mem_map_of_mem ht)
  rw [Token.word, hkind] at hlexical
  exact not_isUnquotable_of_lexical hlexical

theorem exists_cut (h : ¬ IsUnquotable text.toList) :
    ∃ spelling, quote text = .ok spelling ∧
      tokenize (String.ofList spelling) = .ok [⟨.string, String.ofList spelling, .start⟩] ∧
      unmarked (String.ofList spelling) = text.toList := by
  obtain ⟨spelling, hquote⟩ := exists_quote h
  obtain ⟨hlexical, hinner⟩ := lexical_of_quote hquote
  exact ⟨spelling, hquote, tokenize_of_lexical hlexical, hinner⟩

end Quoting

/-- A text is refused exactly if it has a line feed or both kinds of quotes.  Any other text is put between
quotes so that all of it is cut out as one string, which says the text; and the texts that are refused are
those that no string says in any source at all. -/
theorem quoted_cut_back (text : String) :
    (∀ fault, quote text = .error fault ↔ fault = .unquotable text ∧ IsUnquotable text.toList) ∧
    ((∃ spelling, quote text = .ok spelling ∧
        tokenize (String.ofList spelling) = .ok [⟨.string, String.ofList spelling, .start⟩] ∧
        unmarked (String.ofList spelling) = text.toList) ↔ ¬ IsUnquotable text.toList) ∧
    ((∃ source tokens, tokenize source = .ok tokens ∧
        ∃ t ∈ tokens, t.kind = .string ∧ unmarked t.text = text.toList) ↔
      ¬ IsUnquotable text.toList) := by
  refine ⟨fun fault => quote_eq_error_iff, ⟨?quotable, exists_cut⟩, ⟨?said, ?sayable⟩⟩
  case quotable =>
    rintro ⟨spelling, -, htokens, hinner⟩
    have hquotable := not_isUnquotable_of_mem htokens List.mem_cons_self rfl
    rwa [hinner] at hquotable
  case said =>
    rintro ⟨source, tokens, htokens, t, ht, hkind, hinner⟩
    have hquotable := not_isUnquotable_of_mem htokens ht hkind
    rwa [hinner] at hquotable
  case sayable =>
    intro hquotable
    obtain ⟨spelling, -, htokens, hinner⟩ := exists_cut hquotable
    exact ⟨String.ofList spelling, [⟨.string, String.ofList spelling, .start⟩], htokens,
      ⟨.string, String.ofList spelling, .start⟩, List.mem_cons_self, rfl, hinner⟩

end Railroad.Ebnf
