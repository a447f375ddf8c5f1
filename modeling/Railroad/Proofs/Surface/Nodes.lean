import Railroad.Proofs.Surface.Documents
import Railroad.Surface.Surface
/-!
Texts inside TikZ nodes.  Backslashes are dropped and braces escaped, so the braces of a text never count as
those of a group.  Of the other characters that TeX treats specially only the underscore is taken care of: a
comment sign goes into the node as it is and swallows the brace that ends it.
-/
namespace Railroad

namespace Tex

/-- The characters that open and close groups. -/
def IsBrace (c : Char) : Prop :=
  c = '\x7b' ∨ c = '\x7d'

/-- The other characters that TeX treats specially. -/
def specials : List Char :=
  ['_', '%', '#', '$', '&', '^']

/-- Backslashes stand before braces alone, and there is exactly one before every brace. -/
structure Escaped (cs : List Char) : Prop where
  backslash : ∀ l r, cs = l ++ '\\' :: r → ∃ c ∈ r.head?, IsBrace c
  brace : ∀ l c r, cs = l ++ c :: r → IsBrace c → ∃ l', l = l' ++ ['\\'] ∧ l'.getLast? ≠ some '\\'

/-- In addition, nothing that TeX treats specially stands there without a backslash before it. -/
structure Safe (cs : List Char) : Prop extends Escaped cs where
  special : ∀ l c r, cs = l ++ c :: r → c ∈ specials → l.getLast? = some '\\'

/-- The characters that the end of a group depends on. -/
def marks : List Char :=
  ['\n', '%', '\\', '\x7b', '\x7d']

/-- A text that leaves groups as they are. -/
def IsPlain (cs : List Char) : Prop :=
  ∀ c ∈ cs, c ∉ marks

instance (cs : List Char) : Decidable (IsPlain cs) :=
  List.decidableBAll _ cs

/-- Reads a line as far as the end of the first group on it, and tells what stands behind the brace that closes
the group; `depth` groups are open, and `escaped` says that a backslash stands before.  A comment sign ends the
line.  Circumflexes, which in pairs can spell any character by its code, are not looked at. -/
def behindGroup? (depth : Nat) (escaped : Bool) : List Char → Option (List Char)
  | [] => none
  | c :: cs =>
      if c = '\n' then none
      else if escaped then behindGroup? depth false cs
      else if c = '%' then none
      else if c = '\\' then behindGroup? depth true cs
      else if c = '\x7b' then behindGroup? (depth + 1) false cs
      else if c = '\x7d' then
        if depth = 0 then none else if depth = 1 then some cs else behindGroup? (depth - 1) false cs
      else behindGroup? depth false cs

/-- Characters that stand for themselves, and braces with a backslash each. -/
inductive Spelled : List Char → Prop
  | nil : Spelled []
  | plain {c : Char} {cs : List Char} (hbackslash : c ≠ '\\') (hbrace : ¬ IsBrace c) (h : Spelled cs) :
      Spelled (c :: cs)
  | brace {c : Char} {cs : List Char} (hbrace : IsBrace c) (h : Spelled cs) : Spelled ('\\' :: c :: cs)

section Escapes

variable {cs l r rest : List Char} {c d : Char} {depth : Nat} {content : String}

theorem IsBrace.ne_backslash (h : IsBrace c) : c ≠ '\\' := by
  rcases h with rfl | rfl <;> decide

theorem Spelled.exists_brace (h : Spelled (l ++ '\\' :: r)) : ∃ c ∈ r.head?, IsBrace c := by
  generalize hcs : l ++ '\\' :: r = cs at h
  induction h generalizing l with
  | nil => simp at hcs
  | plain hbackslash _ _ ih =>
      cases l with
      | nil => exact absurd (List.cons.inj hcs).1.symm hbackslash
      | cons x l => exact ih (List.cons.inj hcs).2
  | @brace c cs hbrace _ ih =>
      rcases l with _ | ⟨x, _ | ⟨y, l⟩⟩
      · obtain ⟨-, rfl⟩ := List.cons.inj hcs
        exact ⟨c, rfl, hbrace⟩
      · exact absurd (List.cons.inj (List.cons.inj hcs).2).1.symm hbrace.ne_backslash
      · exact ih (List.cons.inj (List.cons.inj hcs).2).2

theorem getLast?_cons_ne (hc : c ≠ d) (h : l.getLast? ≠ some d) : (c :: l).getLast? ≠ some d := by
  cases l with
  | nil => simpa using hc
  | cons x l => rwa [List.getLast?_cons_cons]

theorem Spelled.exists_backslash (h : Spelled (l ++ c :: r)) (hc : IsBrace c) :
    ∃ l', l = l' ++ ['\\'] ∧ l'.getLast? ≠ some '\\' := by
  generalize hcs : l ++ c :: r = cs at h
  induction h generalizing l with
  | nil => simp at hcs
  | plain hbackslash hbrace _ ih =>
      cases l with
      | nil => exact absurd ((List.cons.inj hcs).1 ▸ hc) hbrace
      | cons x l =>
          obtain ⟨rfl, htail⟩ := List.cons.inj hcs
          obtain ⟨l', rfl, hlast⟩ := ih htail
          exact ⟨x :: l', rfl, getLast?_cons_ne hbackslash hlast⟩
  | @brace b cs hbrace _ ih =>
      rcases l with _ | ⟨x, _ | ⟨y, l⟩⟩
      · exact absurd (List.cons.inj hcs).1 hc.ne_backslash
      · obtain ⟨rfl, -⟩ := List.cons.inj hcs
        exact ⟨[], rfl, by simp⟩
      · obtain ⟨rfl, htail⟩ := List.cons.inj hcs
        obtain ⟨rfl, hrest⟩ := List.cons.inj htail
        obtain ⟨l', rfl, hlast⟩ := ih hrest
        refine ⟨'\\' :: y :: l', rfl, ?_⟩
        rw [List.getLast?_cons_cons]
        exact getLast?_cons_ne hbrace.ne_backslash hlast

theorem Spelled.escaped (h : Spelled cs) : Escaped cs where
  backslash _ _ hcs := (hcs ▸ h).exists_brace
  brace _ _ _ hcs hc := (hcs ▸ h).exists_backslash hc

/-- A text is spelled out character by character. -/
theorem spelled_flatMap_texChar (cs : List Char) : Spelled (cs.flatMap texChar) := by
  induction cs with
  | nil => exact .nil
  | cons c cs ih =>
      rw [List.flatMap_cons, texChar]
      split_ifs with hbrace hbackslash
      · exact .brace (by simpa [IsBrace] using hbrace) ih
      · exact ih
      · exact .plain (by decide) (by unfold IsBrace; decide) ih
      · exact .plain hbackslash (by simpa [IsBrace] using hbrace) ih

/-- What is neither escaped, dropped nor replaced is left as it is. -/
theorem mem_flatMap_texChar (hc : c ∉ ['\\', '\x7b', '\x7d', '_', ' ']) :
    c ∈ cs.flatMap texChar ↔ c ∈ cs := by
  have hchar : ∀ d, c ∈ texChar d ↔ c = d := by
    intro d
    simp only [List.mem_cons, List.not_mem_nil, or_false, not_or] at hc
    unfold texChar
    split_ifs with hbrace hbackslash hline
    · simp [hc.1]
    · simp [hbackslash, hc.1]
    · simp [hline, hc]
    · simp
  simp [hchar]

theorem underscore_notMem_texChar : '_' ∉ cs.flatMap texChar := by
  rw [List.mem_flatMap]
  rintro ⟨d, -, hd⟩
  unfold texChar at hd
  split_ifs at hd with hbrace hbackslash hline
  · have : '_' = d := by simpa using hd
    subst this
    simp at hbrace
  · cases hd
  · simp at hd
  · exact hline (List.mem_singleton.mp hd).symm

end Escapes

section Groups

variable {cs rest : List Char} {c : Char} {depth : Nat}

theorem behindGroup?_plain (hc : c ∉ marks) :
    behindGroup? depth false (c :: cs) = behindGroup? depth false cs := by
  simp only [marks, List.mem_cons, List.not_mem_nil, or_false, not_or] at hc
  simp [behindGroup?, hc]

theorem behindGroup?_backslash (hc : c ≠ '\n') :
    behindGroup? depth false ('\\' :: c :: cs) = behindGroup? depth false cs := by
  simp [behindGroup?, hc]

theorem behindGroup?_append_plain (h : IsPlain cs) :
    behindGroup? depth false (cs ++ rest) = behindGroup? depth false rest := by
  induction cs with
  | nil => rfl
  | cons c cs ih =>
      rw [IsPlain, List.forall_mem_cons] at h
      rw [List.cons_append, behindGroup?_plain h.1, ih h.2]

/-- Spelled out text leaves the groups as they are, unless it holds a comment sign. -/
theorem Spelled.behindGroup?_append (h : Spelled cs) (hline : '\n' ∉ cs) :
    behindGroup? depth false (cs ++ rest) =
      if '%' ∈ cs then none else behindGroup? depth false rest := by
  induction h with
  | nil => rfl
  | @plain c cs hbackslash hbrace _ ih =>
      rw [List.mem_cons, not_or] at hline
      by_cases hc : c = '%'
      · simp [behindGroup?, hc]
      · have hplain : c ∉ marks := by
          simp only [marks, List.mem_cons, List.not_mem_nil, or_false, not_or]
          exact ⟨Ne.symm hline.1, hc, hbackslash, not_or.mp hbrace⟩
        rw [List.cons_append, behindGroup?_plain hplain, ih hline.2]
        simp [Ne.symm hc]
  | @brace c cs hbrace _ ih =>
      simp only [List.mem_cons, not_or] at hline
      have hc : c ≠ '%' := by
        rintro rfl
        rcases hbrace with h | h <;> cases h
      rw [List.cons_append, List.cons_append, behindGroup?_backslash (Ne.symm hline.2.1), ih hline.2.2]
      simp [Ne.symm hc]

end Groups

end Tex

section Lengths

theorem plain_tikzLength (x : Float) : Tex.IsPlain (tikzLength x).toList := by
  have hnumeral : Decimal.IsNumeral (tikzLength x) := by
    rw [tikzLength, svgNumber]
    refine .append ?_ (by decide)
    split
    · decide
    · exact Decimal.isNumeral_compact _
  intro c hc hspecial
  have := hnumeral c hc
  simp only [Tex.marks, List.mem_cons, List.not_mem_nil, or_false] at hspecial
  rcases hspecial with rfl | rfl | rfl | rfl | rfl <;> simp [Decimal.isNumeral] at this

theorem plain_coordinate (p : Point Float) :
    Tex.IsPlain (TikzPiece.coordinate tikzLength p).toList := by
  have hparts : ∀ t ∈ ["(", tikzLength p.x, ",", tikzLength p.y, ")"], Tex.IsPlain t.toList := by
    intro t ht
    rcases ht with _ | ⟨_, _ | ⟨_, _ | ⟨_, _ | ⟨_, _ | ⟨_, ht⟩⟩⟩⟩⟩
    · decide
    · exact plain_tikzLength _
    · decide
    · exact plain_tikzLength _
    · decide
    · cases ht
  intro c hc
  rw [TikzPiece.coordinate, String.toList_join] at hc
  obtain ⟨t, ht, hc⟩ := List.mem_flatMap.mp hc
  exact hparts t ht c hc

end Lengths

section Nodes

variable {content : String} (p : Point Float) (centered : Bool)

/-- What stands before the brace that opens a node. -/
def nodeOpening : String :=
  String.join ["  \\draw ", TikzPiece.coordinate tikzLength p,
    if centered then " node " else " node[anchor=west] "]

theorem toList_node (content : String) :
    ((TikzPiece.text p centered content).print tikzLength).toList =
      (nodeOpening p centered).toList ++
        '\x7b' :: (content.toList.flatMap texChar ++ ['\x7d', ';', '\n']) := by
  have hopen : (if centered then " node \x7b" else " node[anchor=west] \x7b").toList =
      (if centered then " node " else " node[anchor=west] ").toList ++ ['\x7b'] := by
    cases centered <;> decide
  have hclose : "\x7d;\n".toList = ['\x7d', ';', '\n'] := by decide
  rw [TikzPiece.print, nodeOpening, String.toList_join, String.toList_join]
  simp only [List.flatMap_cons, List.flatMap_nil, hopen, hclose, texText, String.toList_ofList,
    List.append_assoc, List.singleton_append, List.append_nil]

/-- The brace of a node is the first one on its line. -/
theorem behindGroup?_nodeOpening (rest : List Char) :
    Tex.behindGroup? 0 false ((nodeOpening p centered).toList ++ '\x7b' :: rest) =
      Tex.behindGroup? 1 false rest := by
  have hdraw : ∀ cs, Tex.behindGroup? 0 false ("  \\draw ".toList ++ cs) = Tex.behindGroup? 0 false cs := by
    intro cs
    have hchars : "  \\draw ".toList = [' ', ' '] ++ '\\' :: 'd' :: ['r', 'a', 'w', ' '] := by decide
    rw [hchars, List.append_assoc, Tex.behindGroup?_append_plain (by decide), List.cons_append,
      List.cons_append, Tex.behindGroup?_backslash (by decide), Tex.behindGroup?_append_plain (by decide)]
  have hnode : Tex.IsPlain (if centered then " node " else " node[anchor=west] ").toList := by
    cases centered <;> decide
  rw [nodeOpening, String.toList_join]
  simp only [List.flatMap_cons, List.flatMap_nil, List.append_assoc, List.nil_append]
  rw [hdraw, Tex.behindGroup?_append_plain (plain_coordinate p), Tex.behindGroup?_append_plain hnode]
  simp [Tex.behindGroup?]

/-- A node is closed on its line by the brace behind its text, unless a comment sign swallows that. -/
theorem behindGroup?_node (hline : '\n' ∉ content.toList) :
    Tex.behindGroup? 0 false ((TikzPiece.text p centered content).print tikzLength).toList =
      if '%' ∈ content.toList then none else some [';', '\n'] := by
  have hline' : '\n' ∉ content.toList.flatMap texChar := by
    rwa [Tex.mem_flatMap_texChar (by decide)]
  rw [toList_node, behindGroup?_nodeOpening,
    (Tex.spelled_flatMap_texChar content.toList).behindGroup?_append hline']
  have hcomment : '%' ∈ content.toList.flatMap texChar ↔ '%' ∈ content.toList :=
    Tex.mem_flatMap_texChar (by decide)
  simp only [hcomment]
  rfl

/-- A node stands on a line of its own. -/
theorem exists_line (hline : '\n' ∉ content.toList) :
    ∃ front, ((TikzPiece.text p centered content).print tikzLength).toList = front ++ ['\n'] ∧
      '\n' ∉ front := by
  have hopening : '\n' ∉ (nodeOpening p centered).toList := by
    rw [nodeOpening, String.toList_join]
    simp only [List.flatMap_cons, List.flatMap_nil, List.append_nil, List.mem_append, not_or]
    exact ⟨by decide, fun h => plain_coordinate p _ h (by decide), by cases centered <;> decide⟩
  have htext : '\n' ∉ content.toList.flatMap texChar := by
    rwa [Tex.mem_flatMap_texChar (by decide)]
  refine ⟨(nodeOpening p centered).toList ++
    '\x7b' :: (content.toList.flatMap texChar ++ ['\x7d', ';']), ?_, ?_⟩
  · rw [toList_node]
    simp
  · simp [hopening, htext]

end Nodes

/-- A text is safe exactly if nothing is in it that is neither escaped nor dropped. -/
theorem Tex.safe_iff (cs : List Char) :
    Tex.Safe (cs.flatMap texChar) ↔ ∀ c ∈ cs, c ∉ ['%', '#', '$', '&', '^'] := by
  have hescaped := (Tex.spelled_flatMap_texChar cs).escaped
  constructor
  · intro hsafe c hc hspecial
    have hleft : c ∉ ['\\', '\x7b', '\x7d', '_', ' '] ∧ c ∈ Tex.specials ∧ ¬ Tex.IsBrace c := by
      unfold Tex.IsBrace
      simp only [List.mem_cons, List.not_mem_nil, or_false] at hspecial
      rcases hspecial with rfl | rfl | rfl | rfl | rfl <;> decide
    obtain ⟨l, r, hcs⟩ := List.append_of_mem ((Tex.mem_flatMap_texChar hleft.1).mpr hc)
    -- a backslash before it would have to stand before a brace
    obtain ⟨l, rfl⟩ := List.getLast?_eq_some_iff.mp (hsafe.special l c r hcs hleft.2.1)
    rw [List.append_assoc, List.singleton_append] at hcs
    obtain ⟨_, ⟨rfl⟩, hbrace⟩ := hsafe.backslash _ _ hcs
    exact hleft.2.2 hbrace
  · refine fun hplain => ⟨hescaped, fun l c r hcs hspecial => ?_⟩
    have hc : c ∈ cs.flatMap texChar := by simp [hcs]
    simp only [Tex.specials, List.mem_cons, List.not_mem_nil, or_false] at hspecial
    rcases hspecial with rfl | hspecial
    · exact absurd hc Tex.underscore_notMem_texChar
    · have hleft : c ∉ ['\\', '\x7b', '\x7d', '_', ' '] := by
        rcases hspecial with rfl | rfl | rfl | rfl | rfl <;> decide
      refine absurd ((Tex.mem_flatMap_texChar hleft).mp hc) fun hmem => hplain c hmem ?_
      simpa using hspecial

/-- Whatever a text is, backslashes stand before braces alone in it once it is escaped, one before each, and there
is no underscore.  Of the characters that TeX treats specially the other five are left as they are, so that the
text is safe exactly if it has none of them.  A text in one line is written as a node on a line of its own, and
unless circumflexes spell other characters the brace behind the text closes the node there exactly if there is no
comment sign in the text. -/
theorem texText_safe_iff (content : String) :
    Tex.Escaped (texText content).toList ∧ '_' ∉ (texText content).toList ∧
    (Tex.Safe (texText content).toList ↔ ∀ c ∈ content.toList, c ∉ ['%', '#', '$', '&', '^']) ∧
    ∀ (s : Tikz Float) (p : Primitive Float) (anchor : Option String),
      p.inscription? = some (.text anchor content) → '\n' ∉ content.toList →
        ∃ (s' : Tikz Float) (line : String), s.primitive p = .ok s' ∧
          (Surface.tikz s').written = (Surface.tikz s).written ++ [line] ∧
          (∃ front, line.toList = front ++ ['\n'] ∧ '\n' ∉ front) ∧
          ('^' ∉ content.toList →
            (Tex.behindGroup? 0 false line.toList = some [';', '\n'] ↔ '%' ∉ content.toList)) := by
  have htext : (texText content).toList = content.toList.flatMap texChar := by
    rw [texText, String.toList_ofList]
  rw [htext]
  refine ⟨(Tex.spelled_flatMap_texChar _).escaped, Tex.underscore_notMem_texChar, Tex.safe_iff _, ?_⟩
  intro s p anchor hp hline
  have hpiece : ∃ q centered, s.primitive p = .ok (s.write (.text q centered content)) := by
    cases p with
    | text => cases hp; exact ⟨_, false, rfl⟩
    | centeredText => cases hp; exact ⟨_, true, rfl⟩
    | _ => cases hp
  obtain ⟨q, centered, hpiece⟩ := hpiece
  refine ⟨_, _, hpiece, ?_, exists_line q centered hline, fun _ => ?_⟩
  · simp [Surface.written, Tikz.write]
  · rw [behindGroup?_node q centered hline]
    split <;> simp_all

/-- A text with a brace of either kind, a backslash and an underscore. -/
def bracedText : String :=
  "\x7ba_\\b\x7d"

theorem texText_safe_iff_braced :
    (∀ c ∈ bracedText.toList, c ∉ ['%', '#', '$', '&', '^']) ∧ '\n' ∉ bracedText.toList ∧
    (Primitive.centeredText 0 0 10 20 bracedText .literal : Primitive Float).inscription? =
      some (.text none bracedText) ∧
    Tex.Safe (texText bracedText).toList ∧
    ∃ (s' : Tikz Float) (line : String),
      (Tikz.start ⟨"Figure", "fig:picture"⟩).primitive
        (.centeredText 0 0 10 20 bracedText .literal : Primitive Float) = .ok s' ∧
      (Surface.tikz s').written = (Surface.tikz (.start ⟨"Figure", "fig:picture"⟩)).written ++ [line] ∧
      (∃ front, line.toList = front ++ ['\n'] ∧ '\n' ∉ front) ∧
      Tex.behindGroup? 0 false line.toList = some [';', '\n'] := by
  have hplain : ∀ c ∈ bracedText.toList, c ∉ ['%', '#', '$', '&', '^'] := by
    simp [bracedText]
  have hline : '\n' ∉ bracedText.toList := by decide
  obtain ⟨-, -, hsafe, hnode⟩ := texText_safe_iff bracedText
  obtain ⟨s', line, hs, hwritten, hsingle, hclosed⟩ := hnode (.start ⟨"Figure", "fig:picture"⟩)
    (.centeredText 0 0 10 20 bracedText .literal) none rfl hline
  exact ⟨hplain, hline, rfl, hsafe.mpr hplain, s', line, hs, hwritten, hsingle,
    (hclosed (by decide)).mpr (by decide)⟩

/-- A comment sign is left as it is, and swallows the brace behind it. -/
theorem comment_sign_left : texText "50%" = "50%" ∧ ¬ Tex.Safe (texText "50%").toList ∧
    Tex.behindGroup? 0 false
      ((TikzPiece.text (⟨0, 0⟩ : Point Float) false "50%").print tikzLength).toList = none := by
  have htext : (texText "50%").toList = "50%".toList.flatMap texChar := by
    rw [texText, String.toList_ofList]
  refine ⟨by decide, ?_, ?_⟩
  · rw [htext, Tex.safe_iff]
    exact fun hplain => hplain '%' (by decide) (by decide)
  · rw [behindGroup?_node _ _ (by decide), if_pos (by decide)]

end Railroad
