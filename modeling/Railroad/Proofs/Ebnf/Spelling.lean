import Mathlib.Data.List.DropRight
import Railroad.Proofs.Ebnf.Quotes
/-!
Writers whose text is cut into given words, whatever text follows after a blank.
-/
namespace Railroad.Ebnf

open Word

/-- What is written in front of any text that breaks is cut into these words. -/
def Spells (write : List Char → List Char) (ws : List Word) : Prop :=
  ∀ (rest : List Char) (us : List Word), Breaks rest → Cuts rest us → Cuts (write rest) (ws ++ us)

section Writers

variable {f g : List Char → List Char} {ws us : List Word} {w : Word}

theorem Lexical.spells (hw : Lexical w) : Spells (w.text.toList ++ ·) [w] :=
  fun _ _ hrest h => h.word hw hrest

theorem spells_mark (c : Char) (hc : isPunct c = true) : Spells (c :: ·) [punct (String.ofList [c])] := by
  intro rest us hrest h
  have hword := h.word (Lexical.punct hc) hrest
  rwa [String.toList_ofList] at hword

/-- A blank keeps the words of two writers apart. -/
theorem Spells.spaced (hf : Spells f ws) (hg : Spells g us) :
    Spells (fun rest => f (' ' :: g rest)) (ws ++ us) := by
  intro rest vs hrest h
  rw [List.append_assoc]
  exact hf _ _ (breaks_cons rfl) ((cuts_blank_iff rfl).mpr (hg _ _ hrest h))

theorem Spells.between (hf : Spells f ws) (left right : Char) (hleft : isPunct left = true)
    (hright : isPunct right = true) :
    Spells (fun rest => left :: ' ' :: f (' ' :: right :: rest))
      (punct (String.ofList [left]) :: ws ++ [punct (String.ofList [right])]) :=
  (spells_mark left hleft).spaced (hf.spaced (spells_mark right hright))

/-- A line is cut into the words that stand in it. -/
theorem Spells.line {rest : List Char} (hf : Spells f ws) (h : Cuts rest us) :
    Cuts (f ('\n' :: rest)) (ws ++ us) :=
  hf _ _ (breaks_cons rfl) ((cuts_blank_iff rfl).mpr h)

end Writers

section Strip

variable {c d : Char} {cs : List Char}

/-- Blanks around a text are stripped. -/
theorem strip_padded (hc : Text.isBlank c = true) (hd : Text.isBlank d = true) :
    Text.strip (c :: cs ++ [d]) = Text.strip cs := by
  rw [Text.strip, Text.strip, List.cons_append, List.dropWhile_cons_of_pos hc, List.dropWhile_append]
  cases hdrop : cs.dropWhile Text.isBlank with
  | nil => simp [hd]
  | cons e es => simp [hd, List.dropWhile_append]

/-- There are no blanks left at the ends of a stripped text. -/
theorem strip_strip (cs : List Char) : Text.strip (Text.strip cs) = Text.strip cs := by
  change List.rdropWhile _ ((Text.strip cs).dropWhile _) = _
  have hstrip : Text.strip cs = (cs.dropWhile Text.isBlank).rdropWhile Text.isBlank := rfl
  have hhead : (Text.strip cs).dropWhile Text.isBlank = Text.strip cs := by
    cases htext : Text.strip cs with
    | nil => rfl
    | cons c ds =>
        have hfirst := List.head?_dropWhile_not Text.isBlank cs
        obtain ⟨es, hes⟩ := List.rdropWhile_prefix Text.isBlank (l := cs.dropWhile Text.isBlank)
        rw [← hes, ← hstrip, htext] at hfirst
        rw [List.dropWhile_cons_of_neg (by simpa using hfirst)]
  rw [hhead, hstrip]
  exact List.rdropWhile_idempotent _ _

theorem mem_of_mem_strip (h : c ∈ Text.strip cs) : c ∈ cs := by
  rw [Text.strip, List.mem_reverse] at h
  have hinner := List.mem_reverse.mp ((List.dropWhile_sublist _).subset h)
  exact (List.dropWhile_sublist _).subset hinner

end Strip

section Marks

/-- The stripped text of a special word can be put between question marks again. -/
theorem special_of_lexical {text : String} {inner : List Char} (h : Lexical ⟨.special, text⟩)
    (hinner : Text.strip (unmarked text) = inner) :
    Lexical ⟨.special, String.ofList ('?' :: (' ' :: inner ++ [' ']) ++ ['?'])⟩ ∧
      Text.strip (unmarked (String.ofList ('?' :: (' ' :: inner ++ [' ']) ++ ['?']))) = inner := by
  cases h with
  | @special body hbody =>
      rw [unmarked_ofList] at hinner
      subst hinner
      refine ⟨.special ?_, ?_⟩
      · intro d hd
        rw [List.cons_append, List.mem_cons, List.mem_append, List.mem_singleton] at hd
        rcases hd with rfl | hd | rfl
        · decide
        · exact hbody d (mem_of_mem_strip hd)
        · decide
      · rw [unmarked_ofList, strip_padded rfl rfl, strip_strip]

end Marks

end Railroad.Ebnf
