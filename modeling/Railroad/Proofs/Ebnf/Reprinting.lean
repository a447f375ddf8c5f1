import Railroad.Proofs.Ebnf.ReadTrees
import Railroad.Proofs.Ebnf.Spelling
import Railroad.Proofs.Ebnf.WrittenText
/-!
What is written for a derived tree derives the tree with its sequences and alternations spliced.

The brackets of the written text nest no deeper than those of the words that the tree came from: a node
is put between parentheses only where these stood around it in the first place.
-/
namespace Railroad.Ebnf

open Railroad.Ebnf.Derivation Word Node

theorem Derivation.Terms.append {k : Nat} {ws us : List Word} {ns ms : List Node}
    (h : Terms k ws ns) (h' : Terms k us ms) :
    Terms k (ws ++ us) (ns ++ ms) := by
  induction ns generalizing ws with
  | nil =>
      cases h
      exact h'
  | cons _ _ ih =>
      cases h with
      | bar first rest =>
          rw [List.append_assoc]
          exact .bar first (ih rest)

section Joining

variable {k : Nat} {ws us : List Word} {n : Node} {ns ms : List Node}

/-- Factors side by side, without commas. -/
inductive Derivation.Juxtaposed (k : Nat) : List Word → List Node → Prop
  | nil : Juxtaposed k [] []
  | next {ws us : List Word} {n : Node} {ns : List Node} (first : Factor k ws n)
      (rest : Juxtaposed k us ns) : Juxtaposed k (ws ++ us) (n :: ns)

theorem Derivation.Juxtaposed.append (h : Juxtaposed k ws ns) (h' : Juxtaposed k us ms) :
    Juxtaposed k (ws ++ us) (ns ++ ms) := by
  induction h with
  | nil => exact h'
  | next first _ ih =>
      rw [List.append_assoc]
      exact .next first ih

theorem Derivation.Factor.juxtaposed (h : Factor k ws n) : Juxtaposed k ws [n] := by
  rw [← List.append_nil ws]
  exact .next h .nil

theorem Derivation.Juxtaposed.factors (h : Juxtaposed k ws ns) : Factors k ws ns := by
  induction h with
  | nil => exact .nil
  | next first _ ih => exact .next first ih

theorem Derivation.Juxtaposed.term (h : Juxtaposed k ws ns) (hne : ns ≠ []) :
    Term k ws (bundle (.sequence 0) ns) := by
  cases h with
  | nil => exact absurd rfl hne
  | next first rest => exact .intro first rest.factors

theorem Derivation.Term.terms (h : Term k ws n) : Terms k (punct "|" :: ws) [n] := by
  have hbar := Terms.bar h .nil
  rwa [List.append_nil] at hbar

theorem Derivation.Terms.expression (h : Terms k (punct "|" :: ws) ns) :
    Expression k ws (bundle (.alternation 0) ns) := by
  generalize hws : punct "|" :: ws = vs at h
  cases h with
  | nil => cases hws
  | bar first rest =>
      obtain rfl := List.tail_eq_of_cons_eq hws
      exact .intro first rest

end Joining

mutual
/-- What derives within some nesting derives within any larger one. -/
theorem Derivation.Factor.weaken {k : Nat} {ws : List Word} {n : Node} (h : Factor k ws n) :
    Factor (k + 1) ws n := by
  match h with
  | .identifier text => exact .identifier text
  | .string text => exact .string text
  | .special text => exact .special text
  | .group body => exact .group body.weaken
  | .optional body => exact .optional body.weaken
  | .repetition body => exact .repetition body.weaken
  | .loop body => exact .loop body.weaken
  | .separatedLoop body separator => exact .separatedLoop body.weaken separator.weaken

theorem Derivation.Factors.weaken {k : Nat} {ws : List Word} {ns : List Node}
    (h : Factors k ws ns) : Factors (k + 1) ws ns := by
  match h with
  | .nil => exact .nil
  | .next first rest => exact .next first.weaken rest.weaken
  | .comma first rest => exact .comma first.weaken rest.weaken

theorem Derivation.Term.weaken {k : Nat} {ws : List Word} {n : Node} (h : Term k ws n) :
    Term (k + 1) ws n := by
  match h with
  | .intro first rest => exact .intro first.weaken rest.weaken

theorem Derivation.Terms.weaken {k : Nat} {ws : List Word} {ns : List Node}
    (h : Terms k ws ns) : Terms (k + 1) ws ns := by
  match h with
  | .nil => exact .nil
  | .bar first rest => exact .bar first.weaken rest.weaken

theorem Derivation.Expression.weaken {k : Nat} {ws : List Word} {n : Node}
    (h : Expression k ws n) : Expression (k + 1) ws n := by
  match h with
  | .intro first rest => exact .intro first.weaken rest.weaken
end

theorem Derivation.Juxtaposed.weaken {k : Nat} {ws : List Word} {ns : List Node}
    (h : Juxtaposed k ws ns) : Juxtaposed (k + 1) ws ns := by
  induction h with
  | nil => exact .nil
  | next first _ ih => exact .next first.weaken ih

section Bundles

variable {n : Node}

theorem bundle_of_two {make : List Node → Node} {ns : List Node} (h : 2 ≤ ns.length) :
    bundle make ns = make ns := by
  match ns with
  | [] => rfl
  | [n] => simp at h
  | _ :: _ :: _ => rfl

/-- A node is made of what it adds to the items of a sequence. -/
theorem bundle_itemsOf (h : n.IsExpression) (hid : n.id = 0) :
    bundle (.sequence 0) (itemsOf n) = n := by
  cases h with
  | sequence id hmany =>
      obtain rfl : id = 0 := hid
      exact bundle_of_two hmany
  | _ => rfl

/-- A node is made of what it adds to the alternatives of an alternation. -/
theorem bundle_alternativesOf (h : n.IsExpression) (hid : n.id = 0) :
    bundle (.alternation 0) (alternativesOf n) = n := by
  cases h with
  | alternation id hmany =>
      obtain rfl : id = 0 := hid
      exact bundle_of_two hmany
  | _ => rfl

end Bundles

/-- A node can be written, and the words of what is written derive its spliced form again: within `i`
brackets as items of a sequence, and within `b` as alternatives of an alternation. -/
structure Reprints (i b : Nat) (n : Node) : Prop where
  faultless : writeFault? n = none
  item : ∃ ws, Spells (itemOnto n) ws ∧ Juxtaposed i ws (itemsOf n.spliced)
  alternative : ∃ ws, Spells (writeOnto n) ws ∧
    Terms b (punct "|" :: ws) (alternativesOf n.spliced)

section Reprints

variable {k i b : Nat} {n : Node} {ns : List Node}

theorem Reprints.weaken_item (h : Reprints i b n) : Reprints (i + 1) b n := by
  obtain ⟨ws, hspells, hitem⟩ := h.item
  exact ⟨h.faultless, ⟨ws, hspells, hitem.weaken⟩, h.alternative⟩

theorem Reprints.weaken_alternative (h : Reprints i b n) : Reprints i (b + 1) n := by
  obtain ⟨ws, hspells, hterms⟩ := h.alternative
  exact ⟨h.faultless, h.item, ⟨ws, hspells, hterms.weaken⟩⟩

/-- What stands between brackets derives the spliced node. -/
theorem Reprints.body (h : Reprints i b n) (hn : n.IsExpression) (hid : n.id = 0) :
    ∃ ws, Spells (writeOnto n) ws ∧ Expression b ws n.spliced := by
  obtain ⟨ws, hspells, hterms⟩ := h.alternative
  refine ⟨ws, hspells, ?_⟩
  rw [← bundle_alternativesOf hn.spliced (by rw [id_spliced, hid])]
  exact hterms.expression

/-- A node that needs no parentheses is an alternative by being items. -/
theorem Reprints.of_item (hn : n.IsExpression) (hid : n.id = 0) (hnot : n.isAlternation = false)
    (hfault : writeFault? n = none)
    (hitem : ∃ ws, Spells (writeOnto n) ws ∧ Juxtaposed k ws (itemsOf n.spliced)) :
    Reprints k k n := by
  obtain ⟨ws, hspells, hjuxtaposed⟩ := hitem
  refine ⟨hfault, ⟨ws, ?_, hjuxtaposed⟩, ws, hspells, ?_⟩
  · rwa [itemOnto_of_not_alternation hnot]
  · rw [alternativesOf_eq_singleton (by rw [isAlternation_spliced, hnot])]
    have hterm := hjuxtaposed.term hn.spliced.itemsOf_ne_nil
    rw [bundle_itemsOf hn.spliced (by rw [id_spliced, hid])] at hterm
    exact hterm.terms

/-- Items are written side by side. -/
theorem items_reprint (hne : ns ≠ []) (h : ∀ n ∈ ns, Reprints k k n) :
    ∃ ws, Spells (listOnto .items true ns) ws ∧
      Juxtaposed k ws ((ns.map spliced).flatMap itemsOf) := by
  induction ns with
  | nil => exact absurd rfl hne
  | cons n ns ih =>
      obtain ⟨ws, hspells, hitem⟩ := (h n List.mem_cons_self).item
      by_cases hns : ns = []
      · subst hns
        refine ⟨ws, hspells, ?_⟩
        simpa using hitem
      · obtain ⟨us, hrest, hitems⟩ := ih hns fun m hm => h m (List.mem_cons_of_mem _ hm)
        refine ⟨ws ++ us, ?_, ?_⟩
        · have hlist : listOnto .items true (n :: ns) =
              fun rest => itemOnto n (' ' :: listOnto .items true ns rest) :=
            funext fun rest => listOnto_items_cons hns
          rw [hlist]
          exact hspells.spaced hrest
        · rw [List.map_cons, List.flatMap_cons]
          exact hitem.append hitems

/-- Alternatives are written with bars between them. -/
theorem alternatives_reprint (hne : ns ≠ []) (h : ∀ n ∈ ns, Reprints k k n) :
    ∃ ws, Spells (listOnto .alternatives true ns) ws ∧
      Terms k (punct "|" :: ws) ((ns.map spliced).flatMap alternativesOf) := by
  induction ns with
  | nil => exact absurd rfl hne
  | cons n ns ih =>
      obtain ⟨ws, hspells, hterms⟩ := (h n List.mem_cons_self).alternative
      by_cases hns : ns = []
      · subst hns
        refine ⟨ws, hspells, ?_⟩
        simpa using hterms
      · obtain ⟨us, hrest, hmore⟩ := ih hns fun m hm => h m (List.mem_cons_of_mem _ hm)
        refine ⟨ws ++ ([punct "|"] ++ us), ?_, ?_⟩
        · have hlist : listOnto .alternatives true (n :: ns) = fun rest =>
              writeOnto n (' ' :: '|' :: ' ' :: listOnto .alternatives true ns rest) :=
            funext fun rest => listOnto_alternatives_cons hns
          rw [hlist]
          exact hspells.spaced ((spells_mark '|' rfl).spaced hrest)
        · rw [List.map_cons, List.flatMap_cons]
          exact hterms.append hmore

theorem listFault?_eq_none (h : ∀ n ∈ ns, writeFault? n = none) : listFault? ns = none := by
  induction ns with
  | nil => rfl
  | cons n ns ih =>
      rw [listFault?, h n List.mem_cons_self, ih fun m hm => h m (List.mem_cons_of_mem _ hm)]
      rfl

end Reprints

section Reprints

variable {k i b : Nat} {n m : Node} {ns : List Node} {ws : List Word}

theorem Reprints.of_factor (hn : n.IsExpression) (hid : n.id = 0) (hnot : n.isAlternation = false)
    (hfault : writeFault? n = none) (hsingle : itemsOf n.spliced = [n.spliced])
    (hfactor : ∃ ws, Spells (writeOnto n) ws ∧ Factor k ws n.spliced) : Reprints k k n := by
  obtain ⟨ws, hspells, hfactor⟩ := hfactor
  refine .of_item hn hid hnot hfault ⟨ws, hspells, ?_⟩
  rw [hsingle]
  exact hfactor.juxtaposed

theorem reprints_sequence (hns : 2 ≤ ns.length) (hexpressions : ∀ n ∈ ns, n.IsExpression)
    (h : ∀ n ∈ ns, Reprints k k n) : Reprints k k (.sequence 0 ns) := by
  have hne : ns ≠ [] := by
    rintro rfl
    simp at hns
  obtain ⟨ws, hspells, hitems⟩ := items_reprint hne h
  refine .of_item (.sequence 0 hns hexpressions) rfl rfl ?_ ⟨ws, hspells, ?_⟩
  · exact listFault?_eq_none fun n hn => (h n hn).faultless
  · rw [spliced, splicedList_eq_map]
    exact hitems

theorem reprints_alternation (hns : 2 ≤ ns.length) (hexpressions : ∀ n ∈ ns, n.IsExpression)
    (h : ∀ n ∈ ns, Reprints k k n) : Reprints (k + 1) k (.alternation 0 ns) := by
  have hne : ns ≠ [] := by
    rintro rfl
    simp at hns
  obtain ⟨ws, hspells, hterms⟩ := alternatives_reprint hne h
  have hnode : (Node.alternation 0 ns).IsExpression := .alternation 0 hns hexpressions
  have hterms' : Terms k (punct "|" :: ws) (alternativesOf (Node.alternation 0 ns).spliced) := by
    rw [spliced, splicedList_eq_map]
    exact hterms
  have hexpression := hterms'.expression
  rw [bundle_alternativesOf hnode.spliced rfl] at hexpression
  refine ⟨?_, ⟨_, ?_, (Factor.group hexpression).juxtaposed⟩, ws, hspells, hterms'⟩
  · exact listFault?_eq_none fun n hn => (h n hn).faultless
  · rw [itemOnto_alternation]
    exact hspells.between '(' ')' rfl rfl

theorem reprints_bundle_sequence (hexpressions : ∀ m ∈ n :: ns, m.IsExpression)
    (h : ∀ m ∈ n :: ns, Reprints k k m) : Reprints k k (bundle (.sequence 0) (n :: ns)) := by
  cases ns with
  | nil => exact h n List.mem_cons_self
  | cons m ms => exact reprints_sequence (by simp) hexpressions h

theorem reprints_bundle_alternation (hexpressions : ∀ m ∈ n :: ns, m.IsExpression)
    (h : ∀ m ∈ n :: ns, Reprints k k m) :
    Reprints (k + 1) k (bundle (.alternation 0) (n :: ns)) := by
  cases ns with
  | nil => exact (h n List.mem_cons_self).weaken_item
  | cons m ms => exact reprints_alternation (by simp) hexpressions h

end Reprints

theorem forall_mem_between {P : Word → Prop} {left right : Word} {ws : List Word}
    (h : ∀ w ∈ left :: ws ++ [right], P w) : ∀ w ∈ ws, P w := by
  intro w hw
  exact h w (List.mem_append_left _ (List.mem_cons_of_mem _ hw))

mutual
theorem Derivation.Factor.reprints {k : Nat} {ws : List Word} {n : Node} (h : Factor k ws n)
    (hw : ∀ w ∈ ws, Lexical w) : Reprints k k n := by
  match h with
  | .identifier text =>
      have hword := hw _ (List.mem_singleton_self _)
      exact .of_factor (.identifier 0 text) rfl rfl rfl rfl ⟨_, hword.spells, .identifier text⟩
  | .string text =>
      -- The quotes that are written need not be those that were read, but they are of a kind that the text lacks.
      obtain ⟨spelling, hquote, hlexical, htext⟩ := quote_of_lexical (hw _ (List.mem_singleton_self _))
      refine .of_factor (.literal 0 _ (by decide)) rfl rfl ?_ rfl
        ⟨[⟨.string, String.ofList spelling⟩], ?_, ?_⟩
      · change quoteFault? _ = none
        rw [quoteFault?, hquote]
      · have hwrite : writeOnto (.literal 0 (String.ofList (unmarked text)) .quoted) =
            (spelling ++ ·) := by
          funext rest
          change quoteOnto _ rest = _
          rw [quoteOnto, hquote]
        rw [hwrite]
        simpa using hlexical.spells
      · have hfactor := Factor.string (k := k) (String.ofList spelling)
        rwa [htext] at hfactor
  | .special text =>
      generalize hinner : Text.strip (unmarked text) = inner
      obtain ⟨hlexical, hspelled⟩ := special_of_lexical (hw _ (List.mem_singleton_self _)) hinner
      have hspells := hlexical.spells
      have hfactor := Factor.special (k := k) (String.ofList ('?' :: (' ' :: inner ++ [' ']) ++ ['?']))
      rw [hspelled] at hfactor
      refine .of_factor (.literal 0 _ (by decide)) rfl rfl rfl rfl ⟨_, ?_, hfactor⟩
      have hwrite : writeOnto (.literal 0 (String.ofList inner) .special) =
          ('?' :: (' ' :: inner ++ [' ']) ++ ['?'] ++ ·) := by
        funext rest
        simp [writeOnto]
      rw [hwrite]
      simpa using hspells
  -- Parentheses leave no trace in the tree; they are written again where it needs them.
  | .group body => exact (body.reprints (forall_mem_between hw)).weaken_alternative
  | .optional body =>
      have hbody := body.reprints (forall_mem_between hw)
      obtain ⟨hexpression, hid⟩ := body.isExpression
      obtain ⟨us, hspells, hus⟩ := hbody.body hexpression hid
      exact .of_factor (.optional 0 hexpression) rfl rfl hbody.faultless rfl
        ⟨_, hspells.between '[' ']' rfl rfl, .optional hus⟩
  | .repetition body =>
      have hbody := body.reprints (forall_mem_between hw)
      obtain ⟨hexpression, hid⟩ := body.isExpression
      obtain ⟨us, hspells, hus⟩ := hbody.body hexpression hid
      exact .of_factor (.repetition 0 hexpression) rfl rfl hbody.faultless rfl
        ⟨_, hspells.between '\x7b' '\x7d' rfl rfl, .repetition hus⟩
  | .loop body =>
      have hbody := body.reprints (forall_mem_between hw)
      obtain ⟨hexpression, hid⟩ := body.isExpression
      obtain ⟨us, hspells, hus⟩ := hbody.body hexpression hid
      exact .of_factor (.loop 0 hexpression) rfl rfl hbody.faultless rfl
        ⟨_, hspells.between '<' '>' rfl rfl, .loop hus⟩
  | .separatedLoop body separator =>
      rw [List.forall_mem_append, List.forall_mem_append] at hw
      obtain ⟨⟨hleft, hright⟩, -⟩ := hw
      have hbody := body.reprints fun w hm => hleft w (List.mem_cons_of_mem _ hm)
      have hseparator := separator.reprints fun w hm => hright w (List.mem_cons_of_mem _ hm)
      obtain ⟨hexpression, hid⟩ := body.isExpression
      obtain ⟨hexpression', hid'⟩ := separator.isExpression
      obtain ⟨us, hspells, hus⟩ := hbody.body hexpression hid
      obtain ⟨vs, hspells', hvs⟩ := hseparator.body hexpression' hid'
      have hwhole := (spells_mark '<' rfl).spaced (hspells.spaced
        ((spells_mark '/' rfl).spaced (hspells'.spaced (spells_mark '>' rfl))))
      refine .of_factor (.separatedLoop 0 hexpression hexpression') rfl rfl ?_ rfl
        ⟨_, ?_, .separatedLoop hus hvs⟩
      · rw [writeFault?, requiredFault?, hbody.faultless, hseparator.faultless]
        rfl
      · rw [List.append_assoc]
        exact hwhole

theorem Derivation.Factors.reprint {k : Nat} {ws : List Word} {ns : List Node}
    (h : Factors k ws ns) (hw : ∀ w ∈ ws, Lexical w) : ∀ n ∈ ns, Reprints k k n := by
  match h with
  | .nil => simp
  | .next first rest =>
      rw [List.forall_mem_append] at hw
      exact List.forall_mem_cons.mpr ⟨first.reprints hw.1, rest.reprint hw.2⟩
  | .comma first rest =>
      rw [List.forall_mem_append, List.forall_mem_cons] at hw
      exact List.forall_mem_cons.mpr ⟨first.reprints hw.1.2, rest.reprint hw.2⟩

theorem Derivation.Term.reprints {k : Nat} {ws : List Word} {n : Node} (h : Term k ws n)
    (hw : ∀ w ∈ ws, Lexical w) : Reprints k k n := by
  match h with
  | .intro first rest =>
      rw [List.forall_mem_append] at hw
      apply reprints_bundle_sequence
      · exact List.forall_mem_cons.mpr ⟨first.isExpression.1, rest.areExpressions⟩
      · exact List.forall_mem_cons.mpr ⟨first.reprints hw.1, rest.reprint hw.2⟩

theorem Derivation.Terms.reprint {k : Nat} {ws : List Word} {ns : List Node}
    (h : Terms k ws ns) (hw : ∀ w ∈ ws, Lexical w) : ∀ n ∈ ns, Reprints k k n := by
  match h with
  | .nil => simp
  | .bar first rest =>
      rw [List.forall_mem_append, List.forall_mem_cons] at hw
      exact List.forall_mem_cons.mpr ⟨first.reprints hw.1.2, rest.reprint hw.2⟩

theorem Derivation.Expression.reprints {k : Nat} {ws : List Word} {n : Node}
    (h : Expression k ws n) (hw : ∀ w ∈ ws, Lexical w) : Reprints (k + 1) k n := by
  match h with
  | .intro first rest =>
      rw [List.forall_mem_append] at hw
      apply reprints_bundle_alternation
      · exact List.forall_mem_cons.mpr ⟨first.isExpression.1, rest.areExpressions⟩
      · exact List.forall_mem_cons.mpr ⟨first.reprints hw.1, rest.reprint hw.2⟩
end

theorem Derivation.Production.reprints {k : Nat} {ws : List Word} {n : Node}
    (h : Production k ws n) (hw : ∀ w ∈ ws, Lexical w) :
    writeFault? n = none ∧ ∃ us, Spells (writeOnto n) us ∧ Production k us n.spliced := by
  cases h with
  | intro name sign stop body hstop =>
      rw [List.forall_mem_append, List.forall_mem_cons, List.forall_mem_cons] at hw
      obtain ⟨⟨hname, -, hbody⟩, -⟩ := hw
      have hreprints := body.reprints hbody
      obtain ⟨hexpression, hid⟩ := body.isExpression
      obtain ⟨us, hspells, hus⟩ := hreprints.body hexpression hid
      have hsign : Spells _ [⟨.define, String.ofList ['=']⟩] :=
        (Lexical.define (.inr (.inr rfl))).spells
      have hwhole := hname.spells.spaced (hsign.spaced
        (hspells.spaced (spells_mark '.' rfl)))
      refine ⟨?_, _, ?_, .intro name "=" "." hus (.inl rfl)⟩
      · rw [writeFault?, requiredFault?, hreprints.faultless]
        rfl
      · rw [String.toList_ofList] at hwhole
        exact hwhole

/-- Rules are written one on each line. -/
theorem Derivation.Productions.reprint {k : Nat} {ws : List Word} {ns : List Node}
    (h : Productions k ws ns) (hw : ∀ w ∈ ws, Lexical w) :
    productionsFault? ns = none ∧ ∃ us, Productions k us (ns.map spliced) ∧
      ∀ rest vs, Cuts rest vs → Cuts (productionLinesOnto ns rest) (us ++ vs) := by
  induction h with
  | nil => exact ⟨rfl, [], .nil, fun _ _ hrest => hrest⟩
  | next first rest ih =>
      rw [List.forall_mem_append] at hw
      obtain ⟨hfault, us, hspells, hus⟩ := first.reprints hw.1
      obtain ⟨hfaults, vs, hvs, hlines⟩ := ih hw.2
      refine ⟨?_, us ++ vs, .next hus hvs, ?_⟩
      · cases first.isProduction with
        | intro =>
            rw [productionsFault?, ← Option.or_assoc, hfaults]
            rw [writeFault?] at hfault
            rw [hfault]
            rfl
      · intro rest ts hrest
        have hline := hspells.line (hlines rest ts hrest)
        rw [productionLinesOnto, List.append_assoc]
        iterate 4 rw [cuts_blank_iff rfl]
        exact hline

/-- A title or comment is written on a line of its own. -/
theorem Derivation.Caption.reprints {make : String → Node} {ws : List Word} {leaf : Option Node}
    (h : Caption make ws leaf) (hmake : ∀ text, (make text).text? = some text)
    (hw : ∀ w ∈ ws, Lexical w) :
    leafFault? quoteFault? leaf = none ∧ ∃ us, Caption make us leaf ∧
      ∀ rest vs, Cuts rest vs → Cuts (lineOnto leaf rest) (us ++ vs) := by
  cases h with
  | missing => exact ⟨rfl, [], .missing, fun _ _ hrest => hrest⟩
  | present text =>
      obtain ⟨spelling, hquote, hlexical, htext⟩ :=
        quote_of_lexical (hw _ (List.mem_singleton_self _))
      have hcaption : Caption make _ _ := .present (String.ofList spelling)
      rw [htext] at hcaption
      refine ⟨?_, _, hcaption, ?_⟩
      · simp only [leafFault?, hmake, quoteFault?, hquote]
      · intro rest vs hrest
        have hline := hlexical.spells.line hrest
        rw [String.toList_ofList] at hline
        simpa only [lineOnto, Option.bind_some, hmake, quoteOnto, hquote] using hline

theorem Derivation.Caption.spliced_eq {make : String → Node} {ws : List Word} {leaf : Option Node}
    (h : Caption make ws leaf) (hmake : ∀ text, (make text).spliced = make text) :
    leaf.map spliced = leaf := by
  cases h with
  | missing => rfl
  | present text => rw [Option.map_some, hmake]

theorem block_reprints {k : Nat} {ts ws us : List Word} {title comment : Option Node}
    {ps : List Node} (heading : Caption (.literal 0 · .title) ts title)
    (rules : Productions k ws ps) (closing : Caption (.other 0) us comment)
    (htitle : ∀ w ∈ ts, Lexical w) (hrules : ∀ w ∈ ws, Lexical w) (hcomment : ∀ w ∈ us, Lexical w) :
    let n := Node.grammar 0 title (some (.productionList 0 ps)) comment
    writeFault? n = none ∧ ∃ vs, Cuts (writeOnto n []) vs ∧ Grammar k vs n.spliced := by
  intro n
  obtain ⟨htitleFault, ts', hts, htitleLine⟩ := heading.reprints (fun _ => rfl) htitle
  obtain ⟨hrulesFault, ws', hws, hlines⟩ := rules.reprint hrules
  obtain ⟨hcommentFault, us', hus, hcommentLine⟩ := closing.reprints (fun _ => rfl) hcomment
  refine ⟨?_, ts' ++ punct "\x7b" :: ws' ++ punct "\x7d" :: us', ?_, ?_⟩
  · rw [writeFault?, htitleFault, hrulesFault, hcommentFault]
    rfl
  · have hend := (spells_mark '\x7d' rfl).line (hcommentLine [] [] .nil)
    have hstart := (spells_mark '\x7b' rfl).line (hlines _ _ hend)
    have hwhole := htitleLine _ _ hstart
    rw [List.append_nil] at hwhole
    rw [List.append_assoc]
    exact hwhole
  · have hsplice : n.spliced =
        .grammar 0 title (some (.productionList 0 (ps.map spliced))) comment := by
      simp only [n, spliced, splicedOption_eq_map, Option.map_some, splicedList_eq_map,
        heading.spliced_eq fun _ => rfl, closing.spliced_eq fun _ => rfl]
    rw [hsplice]
    exact .block hts hws hus

/-- The text that is written for a derived tree derives the spliced tree within the same nesting. -/
theorem Derivation.Grammar.reprints {k : Nat} {ws : List Word} {n : Node} (h : Grammar k ws n)
    (hw : ∀ w ∈ ws, Lexical w) :
    writeFault? n = none ∧ ∃ us, Cuts (writeOnto n []) us ∧ Grammar k us n.spliced := by
  cases h with
  | block heading rules closing =>
      simp only [List.forall_mem_append, List.forall_mem_cons] at hw
      obtain ⟨⟨htitle, -, hrules⟩, -, hcomment⟩ := hw
      exact block_reprints heading rules closing htitle hrules hcomment
  | bare rules => exact block_reprints .missing rules .missing (by simp) hw (by simp)

end Railroad.Ebnf
