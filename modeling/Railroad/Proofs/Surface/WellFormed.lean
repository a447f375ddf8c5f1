import Railroad.Proofs.Drawing.Texts
import Railroad.Proofs.Surface.Documents
import Railroad.Proofs.Surface.Markup
/-!
SVG documents and HTML pages are well formed, whatever texts stand in them.
-/
namespace Railroad

open Markup

/-- The text that is said. -/
def Inscription.content? : Inscription → Option String
  | text _ content => some content
  | linkStart _ | linkEnd => none

namespace SvgPiece

variable {α : Type} (number : α → String) (inlineStyle : Bool)

/-- The class and the looks of a shape, as attributes. -/
def shapeAttributes (style : Style) : List (String × String) :=
  ("class", style.className) ::
    if !inlineStyle then []
    else if style.isFilled then [("stroke", "none"), ("fill", "black")]
    else [("stroke", "black"), ("fill", "none"), ("stroke-width", "2px")]

/-- The class and the looks of a text, as attributes. -/
def textAttributes (style : Style) : List (String × String) :=
  ("class", style.className) ::
    if !inlineStyle then []
    else [("fill", style.textFill), ("stroke", "none"), ("font-family", "Courier,monospace"),
      ("font-weight", "bold"), ("font-size", "20px")]

/-- How a page is encoded. -/
def encodingTokens : List Token :=
  plain "  " ++ hollow "meta" [("http-equiv", "Content-Type"),
    ("content", "application/xhtml+xml; charset=UTF-8")] ++ plain "\n"

/-- The attributes of all drawings. -/
def svgAttributes : List (String × String) :=
  [("overflow", "visible"), ("xmlns", "http://www.w3.org/2000/svg"), ("version", "1.1")]

/-- The names of the vocabularies in a drawing. -/
def vocabularyAttributes : List (String × String) :=
  [("xmlns:svg", "http://www.w3.org/2000/svg"), ("xmlns:xlink", "http://www.w3.org/1999/xlink")]

/-- The data of a path. -/
def pathData (first : Point α) (segments : List (SvgSegment α)) : String :=
  String.join ["M ", number first.x, " ", number first.y, String.join (segments.map (segmentText number))]

/-- The tags and the character data of a piece. -/
def tokens : SvgPiece α → List Token
  | pageStart title sheet =>
      start "html" [] ++ plain "\n" ++ start "head" [] ++ plain "\n  " ++ start "title" [] ++
        plain title ++ stop "title" ++ plain "\n" ++ encodingTokens ++
        (sheet.toList.flatMap fun href => plain "  " ++
          hollow "link" [("type", "text/css"), ("rel", "stylesheet"), ("href", href)] ++ plain "\n") ++
        stop "head" ++ plain "\n" ++ start "body" [] ++ plain "\n"
  | pageEnd => stop "body" ++ plain "\n" ++ stop "html" ++ plain "\n"
  | frameStart name => start "div" [] ++ start "a" [("name", name)] ++ plain "\n"
  | frameEnd => stop "a" ++ stop "div" ++ plain "\n"
  | declaration => instruction "xml" [("version", "1.0"), ("encoding", "UTF-8")] ++ plain "\n"
  | stylesheet href =>
      instruction "xml-stylesheet" [("href", href), ("type", "text/css")] ++ plain "\n"
  | svgStart width height =>
      start "svg" (svgAttributes ++ vocabularyAttributes ++ [("width", number width ++ "px"),
        ("height", number height ++ "px")]) ++ plain "\n"
  | svgEnd => stop "svg" ++ plain "\n"
  | linkStart name => plain "  " ++ start "a" [("xlink:href", "#" ++ name)] ++ plain "\n"
  | linkEnd => plain "  " ++ stop "a" ++ plain "\n"
  | rect x y w h style =>
      plain "  " ++ hollow "rect" ([("x", number x), ("y", number y), ("width", number w),
        ("height", number h)] ++ shapeAttributes inlineStyle style) ++ plain "\n"
  | roundRect rounding x y w h style =>
      plain "  " ++ hollow "rect" ([("rx", number rounding), ("ry", number rounding), ("x", number x),
        ("y", number y), ("width", number w), ("height", number h)] ++
          shapeAttributes inlineStyle style) ++ plain "\n"
  | circle x y r style =>
      plain "  " ++ single true "circle" ([("cx", number x), ("cy", number y), ("r", number r)] ++
        shapeAttributes inlineStyle style) ++ plain "\n"
  | text anchor x y centered content style =>
      plain "  " ++ start "text" ((anchor.toList.map ("id", ·)) ++ [("x", number x), ("y", number y)] ++
        (if centered then [("text-anchor", "middle")] else []) ++
        [("alignment-baseline", "central")] ++ textAttributes inlineStyle style) ++
        plain content ++ stop "text" ++ plain "\n"
  | path style first segments =>
      plain "  " ++ single false "path" (shapeAttributes inlineStyle style ++
        [("d", pathData number first segments)]) ++ plain "\n"

end SvgPiece

section Rendering

variable {s t : String}

/-- A text that needs no escapes in the value of an attribute. -/
def IsVerbatim (text : String) : Prop :=
  ∀ c ∈ text.toList, Text.attributeChar c = [c]

instance (text : String) : Decidable (IsVerbatim text) :=
  List.decidableBAll (fun c => Text.attributeChar c = [c]) text.toList

theorem IsVerbatim.flatMap_attributeChar (h : IsVerbatim s) :
    s.toList.flatMap Text.attributeChar = s.toList := by
  rw [List.flatMap_congr h, List.flatMap_singleton']

theorem IsVerbatim.append (hs : IsVerbatim s) (ht : IsVerbatim t) : IsVerbatim (s ++ t) := by
  intro c hc
  rw [String.toList_append] at hc
  exact (List.mem_append.mp hc).elim (hs c) (ht c)

theorem IsVerbatim.join {texts : List String} (h : ∀ t ∈ texts, IsVerbatim t) :
    IsVerbatim (String.join texts) := by
  intro c hc
  rw [String.toList_join] at hc
  obtain ⟨t, ht, hc⟩ := List.mem_flatMap.mp hc
  exact h t ht c hc

theorem isVerbatim_of_isNumeral (h : Decimal.IsNumeral s) : IsVerbatim s := by
  intro c hc
  have hother : ∀ d, Decimal.isNumeral d = false → c ≠ d := by
    rintro d hd rfl
    exact absurd (hd.symm.trans (h c hc)) (by decide)
  simp [Text.attributeChar, Text.dataChar, hother '"' (by decide), hother '\'' (by decide),
    hother '&' (by decide), hother '<' (by decide), hother '>' (by decide)]

theorem isVerbatim_svgNumber (x : Float) : IsVerbatim (svgNumber x) := by
  rw [svgNumber]
  split
  · decide
  · exact isVerbatim_of_isNumeral (Decimal.isNumeral_compact x)

/-- An attribute is written with its value escaped. -/
theorem SvgPiece.toList_attr_markup (name value : String) :
    (attr name (Text.markupAttribute value)).toList = attributeChars (name, value) := by
  simp [attr, attributeChars, Text.markupAttribute]

theorem SvgPiece.toList_attr (name : String) {value : String} (h : IsVerbatim value) :
    (attr name value).toList = attributeChars (name, value) := by
  simp [attr, attributeChars, h.flatMap_attributeChar]

end Rendering

namespace SvgPiece

section Printing

variable {α : Type} {number : α → String} {inlineStyle : Bool}

theorem toList_shapeLooks (style : Style) : (shapeLooks inlineStyle style).toList =
    (shapeAttributes inlineStyle style).flatMap attributeChars := by
  have hclass : IsVerbatim style.className := by cases style <;> decide
  rw [shapeLooks, String.toList_append, toList_attr "class" hclass, shapeAttributes, List.flatMap_cons]
  congr 1
  cases inlineStyle with
  | false => rfl
  | true => cases style.isFilled <;> rfl

theorem toList_textLooks (style : Style) : (textLooks inlineStyle style).toList =
    (textAttributes inlineStyle style).flatMap attributeChars := by
  have hclass : IsVerbatim style.className := by cases style <;> decide
  have hfill : IsVerbatim style.textFill := by cases style <;> decide
  rw [textLooks, String.toList_append, toList_attr "class" hclass, textAttributes, List.flatMap_cons]
  congr 1
  cases inlineStyle with
  | false => rfl
  | true =>
      rw [if_neg (by simp), String.toList_append, String.toList_append, toList_attr "fill" hfill]
      simp [attributeChars, Text.attributeChar, Text.dataChar]

variable (hnumber : ∀ x, IsVerbatim (number x))
include hnumber

theorem isVerbatim_segmentText (segment : SvgSegment α) : IsVerbatim (segmentText number segment) := by
  cases segment with
  | horizontal | vertical => exact .append (by decide) (hnumber _)
  | arc radius sweep delta =>
      refine .join ?_
      simp only [List.forall_mem_cons]
      refine ⟨by decide, hnumber _, by decide, hnumber _, by decide, ?_, by decide, hnumber _, by decide,
        hnumber _, List.forall_mem_nil _⟩
      split <;> decide
  | head steps =>
      refine .append (.append (by decide) (.join fun t ht => ?_)) (by decide)
      obtain ⟨p, -, rfl⟩ := List.mem_map.mp ht
      exact .append (.append (.append (hnumber _) (by decide)) (hnumber _)) (by decide)

theorem isVerbatim_pathData (first : Point α) (segments : List (SvgSegment α)) :
    IsVerbatim (pathData number first segments) := by
  refine .join ?_
  simp only [List.forall_mem_cons]
  refine ⟨by decide, hnumber _, by decide, hnumber _, .join fun t ht => ?_, List.forall_mem_nil _⟩
  obtain ⟨segment, -, rfl⟩ := List.mem_map.mp ht
  exact isVerbatim_segmentText hnumber segment

/-- A piece is written tag by tag and character by character. -/
theorem toList_print (p : SvgPiece α) :
    (p.print number inlineStyle).toList = render (p.tokens number inlineStyle) := by
  -- Numbers with a unit stand in attributes as they are.
  have hsize : ∀ x, IsVerbatim (number x ++ "px") := fun x => (hnumber x).append (by decide)
  rw [print.eq_def, tokens.eq_def]
  cases p with
  | pageStart title sheet =>
      -- Long constant texts are taken as lists of characters at once; to decode them is slow.
      have hencoding :
          "  <meta http-equiv=\"Content-Type\" content=\"application/xhtml+xml; charset=UTF-8\"></meta>\n".toList =
            render encodingTokens :=
        String.toList_ofList
      cases sheet <;> simp only [String.toList_join, List.flatMap_cons, hencoding] <;>
        simp [hollow, toList_attr_markup, attributeChars, Text.attributeChar, Text.markupData, Text.dataChar]
  | pageEnd | frameEnd | svgEnd | linkEnd => simp [Text.markupData, Text.dataChar]
  | frameStart => simp [toList_attr_markup, Text.markupData, Text.dataChar]
  | linkStart | declaration | stylesheet =>
      simp [attr, attributeChars, Text.markupAttribute, Text.attributeChar, Text.markupData, Text.dataChar]
  | svgStart width height =>
      have hfirst : "<svg overflow=\"visible\" xmlns=\"http://www.w3.org/2000/svg\" version=\"1.1\"".toList
          = '<' :: "svg".toList ++ svgAttributes.flatMap attributeChars :=
        String.toList_ofList
      have hsecond :
          " xmlns:svg=\"http://www.w3.org/2000/svg\" xmlns:xlink=\"http://www.w3.org/1999/xlink\"".toList =
            vocabularyAttributes.flatMap attributeChars :=
        String.toList_ofList
      simp only [String.toList_join, List.flatMap_cons, hfirst, hsecond]
      simp [toList_attr, hsize, Text.markupData, Text.dataChar]
  | rect | roundRect =>
      simp [hollow, toList_shapeLooks, toList_attr, hnumber, Text.markupData, Text.dataChar]
  | circle => simp [toList_shapeLooks, toList_attr, hnumber, Text.markupData, Text.dataChar]
  | text anchor x y centered =>
      cases anchor <;> cases centered <;>
        simp [toList_textLooks, toList_attr, toList_attr_markup, hnumber, attributeChars, Text.attributeChar,
          Text.markupData, Text.dataChar]
  | path style first segments =>
      have hdata : attributeChars ("d", pathData number first segments) =
          " d=\"".toList ++ (pathData number first segments).toList ++ ['"'] := by
        simp [attributeChars, (isVerbatim_pathData hnumber first segments).flatMap_attributeChar]
      simp only [render_append, render_single, List.flatMap_append, List.flatMap_cons, hdata]
      simp [toList_shapeLooks, pathData, Text.markupData, Text.dataChar]

end Printing

section Tokens

variable {α : Type} (number : α → String) (inlineStyle : Bool)

theorem all_shapeAttributes (style : Style) :
    (shapeAttributes inlineStyle style).all (isName ·.1) = true := by
  cases inlineStyle <;> cases style <;> decide

theorem all_textAttributes (style : Style) :
    (textAttributes inlineStyle style).all (isName ·.1) = true := by
  cases inlineStyle <;> cases style <;> decide

theorem sound_tokens (p : SvgPiece α) : Sound (p.tokens number inlineStyle) := by
  rw [tokens.eq_def]
  cases p with
  | pageStart title sheet => cases sheet <;> simp [hollow, encodingTokens] <;> decide
  | pageEnd | frameEnd | svgEnd | linkEnd => simp; decide
  | frameStart | linkStart | declaration | stylesheet => simp; decide
  | svgStart => simp [svgAttributes, vocabularyAttributes]; decide
  | rect | roundRect => simp [hollow, all_shapeAttributes]; decide
  | circle | path => simp [all_shapeAttributes]; decide
  | text anchor x y centered => cases anchor <;> cases centered <;> simp [all_textAttributes] <;> decide

/-- A piece with the empty text in the place of every text. -/
def withoutTexts : SvgPiece α → SvgPiece α
  | pageStart _ sheet => pageStart "" (sheet.map fun _ => "")
  | frameStart _ => frameStart ""
  | stylesheet _ => stylesheet ""
  | linkStart _ => linkStart ""
  | text anchor x y centered _ style => text (anchor.map fun _ => "") x y centered "" style
  | p => p

/-- Texts bear neither on the tags of a piece nor on the names of their attributes. -/
theorem outline_withoutTexts (p : SvgPiece α) :
    (p.withoutTexts.tokens number inlineStyle).filterMap Token.outline? =
      (p.tokens number inlineStyle).filterMap Token.outline? := by
  cases p with
  | pageStart title sheet => cases sheet <;> simp [withoutTexts, tokens.eq_def, hollow]
  | frameStart | stylesheet | linkStart => simp [withoutTexts, tokens.eq_def]
  | text anchor => cases anchor <;> simp [withoutTexts, tokens.eq_def]
  | _ => rfl

variable {number inlineStyle} {p : SvgPiece α} {opened : List String} {ts : List Token}

theorem nests_tokens (hp : p.isInner = true) (hlink : ∀ name, p ≠ linkStart name) (hend : p ≠ linkEnd) :
    nests opened (p.tokens number inlineStyle ++ ts) = nests opened ts := by
  cases p with
  | linkStart name => exact absurd rfl (hlink name)
  | linkEnd => exact absurd rfl hend
  | rect | roundRect | circle | text | path => simp [tokens.eq_def, hollow, List.append_assoc]
  | _ => cases hp

/-- The title that a piece sets. -/
def title? : SvgPiece α → Option String
  | pageStart title _ => some title
  | _ => none

theorem title?_of_isInner (hp : p.isInner = true) : p.title? = none := by
  cases p with
  | pageStart => cases hp
  | _ => rfl

theorem contents_title_tokens (p : SvgPiece α) :
    contents "title" none (p.tokens number inlineStyle ++ ts) =
      p.title?.toList ++ contents "title" none ts := by
  cases p with
  | pageStart title sheet =>
      cases sheet <;> simp [tokens.eq_def, hollow, encodingTokens, List.append_assoc, title?]
  | _ => simp [tokens.eq_def, hollow, List.append_assoc, title?]

theorem contents_text_tokens (p : SvgPiece α) :
    contents "text" none (p.tokens number inlineStyle ++ ts) =
      (p.inscription?.bind Inscription.content?).toList ++ contents "text" none ts := by
  cases p with
  | pageStart title sheet =>
      cases sheet <;> simp [tokens.eq_def, hollow, encodingTokens, List.append_assoc, inscription?]
  | _ => simp [tokens.eq_def, hollow, List.append_assoc, inscription?, Inscription.content?]

end Tokens

end SvgPiece

section Links

/-- Whether every link that starts ends before the next one starts; `linked` says whether one is open. -/
def linksClose (linked : Bool) : List Inscription → Bool
  | [] => !linked
  | .text .. :: said => linksClose linked said
  | .linkStart _ :: said => !linked && linksClose true said
  | .linkEnd :: said => linked && linksClose false said

theorem linksClose_inscribe (links : List String) (leaf : Node × Direction) (said : List Inscription) :
    linksClose false (inscribe links leaf ++ said) = linksClose false said := by
  obtain ⟨n, direction⟩ := leaf
  cases n with
  | literal id text kind => cases kind <;> cases direction <;> rfl
  | other => cases direction <;> rfl
  | identifier id text =>
      cases direction with
      | none => rfl
      | _ =>
          simp only [inscribe]
          split <;> rfl
  | _ => rfl

theorem linksClose_flatMap_inscribe (links : List String) (leaves : List (Node × Direction)) :
    linksClose false (leaves.flatMap (inscribe links)) = true := by
  induction leaves with
  | nil => rfl
  | cons leaf leaves ih => rw [List.flatMap_cons, linksClose_inscribe, ih]

theorem filterMap_content?_inscribe (links : List String) (leaf : Node × Direction) :
    (inscribe links leaf).filterMap Inscription.content? = leaf.1.text?.toList := by
  obtain ⟨n, direction⟩ := leaf
  cases n with
  | literal id text kind => cases kind <;> cases direction <;> rfl
  | other => cases direction <;> rfl
  | identifier id text =>
      cases direction with
      | none => rfl
      | _ =>
          simp only [inscribe]
          split <;> rfl
  | _ => rfl

end Links

section Documents

variable {α : Type} {number : α → String} {inlineStyle : Bool} {pieces body : List (SvgPiece α)}
  {opened : List String} {ts : List Token} {name : String}

theorem scan_document (hnumber : ∀ x, IsVerbatim (number x)) (pieces : List (SvgPiece α)) :
    scan (String.join (pieces.map (·.print number inlineStyle))) =
      some (pieces.flatMap (SvgPiece.tokens number inlineStyle)) := by
  refine scan_of_render ?_ ?_
  · intro t ht
    obtain ⟨p, -, hp⟩ := List.mem_flatMap.mp ht
    exact p.sound_tokens number inlineStyle t hp
  · rw [String.toList_join, List.flatMap_map, render, List.flatMap_assoc]
    exact List.flatMap_congr fun p _ => p.toList_print hnumber

/-- Inside a diagram every element is closed, if the links are. -/
theorem nests_body (hinner : ∀ p ∈ body, p.isInner = true) {linked : Bool}
    (hlinks : linksClose linked (body.filterMap SvgPiece.inscription?) = true) :
    nests ((if linked then ["a"] else []) ++ opened)
      (body.flatMap (SvgPiece.tokens number inlineStyle) ++ ts) = nests opened ts := by
  induction body generalizing linked with
  | nil =>
      cases linked with
      | false => rfl
      | true => cases hlinks
  | cons p body ih =>
      rw [List.forall_mem_cons] at hinner
      rw [List.flatMap_cons, List.append_assoc]
      cases p with
      | linkStart name =>
          obtain ⟨hlinked, hlinks⟩ := Bool.and_eq_true_iff.mp hlinks
          obtain rfl : linked = false := by simpa using hlinked
          have hrest := ih hinner.2 hlinks
          simpa [SvgPiece.tokens.eq_def, List.append_assoc] using hrest
      | linkEnd =>
          obtain ⟨rfl, hlinks⟩ := Bool.and_eq_true_iff.mp hlinks
          have hrest := ih hinner.2 hlinks
          simpa [SvgPiece.tokens.eq_def, List.append_assoc] using hrest
      | _ =>
          rw [SvgPiece.nests_tokens hinner.1 (by simp) (by simp)]
          exact ih hinner.2 hlinks

theorem contents_title (pieces : List (SvgPiece α)) :
    contents "title" none (pieces.flatMap (SvgPiece.tokens number inlineStyle)) =
      pieces.filterMap SvgPiece.title? := by
  induction pieces with
  | nil => rfl
  | cons p pieces ih =>
      rw [List.flatMap_cons, SvgPiece.contents_title_tokens, ih]
      cases h : p.title? <;> simp [h]

theorem contents_text (pieces : List (SvgPiece α)) :
    contents "text" none (pieces.flatMap (SvgPiece.tokens number inlineStyle)) =
      (pieces.filterMap SvgPiece.inscription?).filterMap Inscription.content? := by
  rw [List.filterMap_filterMap]
  induction pieces with
  | nil => rfl
  | cons p pieces ih =>
      rw [List.flatMap_cons, SvgPiece.contents_text_tokens, ih]
      cases h : p.inscription?.bind Inscription.content? <;> simp [h]

variable {o : SvgOptions} {width height : α}

theorem nests_document (hinner : ∀ p ∈ body, p.isInner = true)
    (hlinks : linksClose false (body.filterMap SvgPiece.inscription?) = true) :
    nests [] ((o.opening width height ++ body ++ o.closing).flatMap
      (SvgPiece.tokens number inlineStyle)) = true := by
  have hbody : ∀ opened ts, nests opened (body.flatMap (SvgPiece.tokens number inlineStyle) ++ ts) =
      nests opened ts := fun opened ts => nests_body hinner hlinks
  rw [List.flatMap_append, List.flatMap_append, List.append_assoc]
  cases hpage : o.page <;> cases hhref : Svg.href? o <;>
    simp [SvgOptions.opening, SvgOptions.closing, hpage, hhref, SvgPiece.tokens.eq_def, hollow,
      SvgPiece.encodingTokens, List.append_assoc, hbody]

theorem inscriptions_document :
    (o.opening width height ++ body ++ o.closing).filterMap SvgPiece.inscription? =
      body.filterMap SvgPiece.inscription? := by
  have hopening : (o.opening width height).filterMap SvgPiece.inscription? = [] := by
    cases hpage : o.page <;> cases hhref : Svg.href? o <;>
      simp [SvgOptions.opening, hpage, hhref, SvgPiece.inscription?]
  have hclosing : (o.closing (α := α)).filterMap SvgPiece.inscription? = [] := by
    cases hpage : o.page <;> simp [SvgOptions.closing, hpage, SvgPiece.inscription?]
  rw [List.filterMap_append, List.filterMap_append, hopening, hclosing, List.append_nil, List.nil_append]

theorem titles_document (hinner : ∀ p ∈ body, p.isInner = true) :
    (o.opening width height ++ body ++ o.closing).filterMap SvgPiece.title? = o.page.toList := by
  have hbody : body.filterMap SvgPiece.title? = [] :=
    List.filterMap_eq_nil_iff.mpr fun p hp => SvgPiece.title?_of_isInner (hinner p hp)
  rw [List.filterMap_append, List.filterMap_append, hbody, List.append_nil]
  cases hpage : o.page <;> cases hhref : Svg.href? o <;>
    simp [SvgOptions.opening, SvgOptions.closing, hpage, hhref, SvgPiece.title?]

end Documents

/-- The document of a grammar that has been laid out is well formed, whatever texts stand in the grammar and
in the options.

It can be read: no angle bracket stands in character data, neither angle brackets that open nor quotes
in values of attributes, and every ampersand in character data begins an entity.  Its elements are nested.
The characters between the tags of the text elements are the texts of the leaves, those of the title
element are the title of the page; and the tags and the names of their attributes are the same if all
texts are left out. -/
theorem document_wellFormed {root : Node} {table : BoxTable Float}
    (hlayout : layoutGrammar root = .ok table) (links : List String) (o : SvgOptions) :
    ∃ (session : DrawingSession Float) (s : Svg Float) (tokens : List Token),
      drawDocument (.direct (.svg (.start o))) root table links = (.ok session, .direct (.svg s)) ∧
      scan (Surface.svg s).document = some tokens ∧ nests [] tokens = true ∧
      contents "text" none tokens = root.walk.filterMap Node.text? ∧
      contents "title" none tokens = o.page.toList ∧
      ∃ blank, scan (Surface.svg { s with pieces := s.pieces.map (·.withoutTexts) }).document = some blank ∧
        blank.filterMap Token.outline? = tokens.filterMap Token.outline? := by
  obtain ⟨session, s, width, height, body, leaves, hdraw, hoptions, hpieces, hinner, hsaid, hleaves, -⟩ :=
    exists_document hlayout links o
  have hlinks : linksClose false (body.filterMap SvgPiece.inscription?) = true := by
    rw [hsaid]
    exact linksClose_flatMap_inscribe links leaves
  refine ⟨session, s, s.pieces.toList.flatMap (SvgPiece.tokens svgNumber s.options.inlineStyle), hdraw,
    scan_document isVerbatim_svgNumber _, ?_, ?_, ?_,
    s.pieces.toList.flatMap fun p => p.withoutTexts.tokens svgNumber s.options.inlineStyle, ?_, ?_⟩
  · rw [hpieces]
    exact nests_document hinner hlinks
  · rw [contents_text, hpieces, inscriptions_document, hsaid, List.filterMap_flatMap]
    calc leaves.flatMap (fun leaf => (inscribe links leaf).filterMap Inscription.content?)
        = leaves.flatMap fun leaf => leaf.1.text?.toList :=
          List.flatMap_congr fun leaf _ => filterMap_content?_inscribe links leaf
      _ = (root.walk.filter Node.isLeaf).flatMap (·.text?.toList) := by
          rw [← hleaves, List.flatMap_map]
      _ = root.walk.filterMap Node.text? := Node.flatMap_text?_filter_isLeaf _
  · rw [contents_title, hpieces, titles_document hinner]
  · have hscan : scan (String.join ((s.pieces.toList.map (·.withoutTexts)).map
        (·.print svgNumber s.options.inlineStyle))) = some _ := scan_document isVerbatim_svgNumber _
    simpa [Surface.document, Surface.written, List.flatMap_map, Array.toList_map] using hscan
  · rw [List.filterMap_flatMap, List.filterMap_flatMap]
    exact List.flatMap_congr fun p _ => p.outline_withoutTexts _ _

/-- A grammar with texts that look like markup. -/
def hostileTree : Node :=
  .grammar 6 (some (.literal 0 "</text></svg>" .title)) (some (.productionList 4
    [.production 3 (some (.identifier 2 "a\"b")) (some (.literal 1 "<x y='&lt;'>" .quoted))]))
    (some (.other 5 "&amp; <!-- ]]>"))

theorem document_wellFormed_hostile : ∃ table : BoxTable Float,
    layoutGrammar hostileTree = .ok table ∧
    hostileTree.walk.filterMap Node.text? =
      ["</text></svg>", "a\"b", "<x y='&lt;'>", "&amp; <!-- ]]>"] ∧
    let o : SvgOptions := ⟨some "\"/><script>", true, some "</title>"⟩
    ∃ (session : DrawingSession Float) (s : Svg Float) (tokens : List Token),
      drawDocument (.direct (.svg (.start o))) hostileTree table ["a\"b"] =
        (.ok session, .direct (.svg s)) ∧
      scan (Surface.svg s).document = some tokens ∧ nests [] tokens = true ∧
      contents "text" none tokens = hostileTree.walk.filterMap Node.text? ∧
      contents "title" none tokens = o.page.toList ∧
      ∃ blank, scan (Surface.svg { s with pieces := s.pieces.map (·.withoutTexts) }).document = some blank ∧
        blank.filterMap Token.outline? = tokens.filterMap Token.outline? := by
  obtain ⟨table, engine, hlayout⟩ := Engine.layout_of_complete (α := Float)
    (by decide : hostileTree.isComplete = true) (by decide) (by decide) .none
  have htable := layoutGrammar_of_layout rfl hlayout
  exact ⟨table, htable, by rw [Node.walk_eq_preorder]; decide, document_wellFormed htable _ _⟩

end Railroad
