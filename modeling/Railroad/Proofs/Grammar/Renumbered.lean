import Railroad.Proofs.Grammar.Preorder
import Railroad.Proofs.Grammar.Unnumbered
/-!
Trees with other numbers.  Two trees of the same structure differ by a renumbering, if the nodes of one of
them have ids of their own.
-/
namespace Railroad.Node

mutual
/-- The tree with other ids. -/
def renumber (r : Nat → Nat) : Node → Node
  | grammar id title productions comment =>
      grammar (r id) (renumberOption r title) (renumberOption r productions)
        (renumberOption r comment)
  | productionList id productions => productionList (r id) (renumberList r productions)
  | production id name expression =>
      production (r id) (renumberOption r name) (renumberOption r expression)
  | alternation id alternatives => alternation (r id) (renumberList r alternatives)
  | sequence id items => sequence (r id) (renumberList r items)
  | repetition id body => repetition (r id) (renumberOption r body)
  | oneOrMore id body separator =>
      oneOrMore (r id) (renumberOption r body) (renumberOption r separator)
  | optional id body => optional (r id) (renumberOption r body)
  | literal id text kind => literal (r id) text kind
  | identifier id text => identifier (r id) text
  | other id text => other (r id) text
  | foreign id name => foreign (r id) name

def renumberList (r : Nat → Nat) : List Node → List Node
  | [] => []
  | n :: ns => renumber r n :: renumberList r ns

def renumberOption (r : Nat → Nat) : Option Node → Option Node
  | none => none
  | some n => some (renumber r n)
end

variable (r : Nat → Nat)

@[simp] theorem renumberList_eq_map (ns : List Node) : renumberList r ns = ns.map (renumber r) := by
  induction ns with
  | nil => rfl
  | cons n ns ih => rw [renumberList, ih, List.map_cons]

@[simp] theorem id_renumber (n : Node) : (n.renumber r).id = r n.id := by
  cases n <;> rfl

@[simp] theorem typeName_renumber (n : Node) : (n.renumber r).typeName = n.typeName := by
  cases n <;> rfl

@[simp] theorem isKnown_renumber (n : Node) : (n.renumber r).isKnown = n.isKnown := by
  cases n <;> rfl

@[simp] theorem isGrammar_renumber (n : Node) : (n.renumber r).isGrammar = n.isGrammar := by
  cases n <;> rfl

@[simp] theorem text?_renumber (n : Node) : (n.renumber r).text? = n.text? := by
  cases n <;> rfl

@[simp] theorem isShortLiteral_renumber (n : Node) :
    (n.renumber r).isShortLiteral = n.isShortLiteral := by
  cases n <;> rfl

theorem isFan_renumberList (ns : List Node) : isFan (renumberList r ns) = isFan ns := by
  simp [isFan, Function.comp_def]

mutual
/-- Renumbering leaves the order of the nodes. -/
theorem preorder_renumber : ∀ n : Node, (n.renumber r).preorder = n.preorder.map (renumber r)
  | grammar _ title productions comment => by
      simp only [renumber, preorder, List.map_cons, List.map_append, preorderOption_renumber title,
        preorderOption_renumber productions, preorderOption_renumber comment]
  | productionList _ productions => by
      simp only [renumber, preorder, List.map_cons, preorderList_renumber productions]
  | production _ name expression => by
      simp only [renumber, preorder, List.map_cons, List.map_append, preorderOption_renumber name,
        preorderOption_renumber expression]
  | alternation _ alternatives => by
      simp only [renumber, preorder, List.map_cons, preorderList_renumber alternatives]
  | sequence _ items => by
      simp only [renumber, preorder, List.map_cons, preorderList_renumber items]
  | repetition _ body => by
      simp only [renumber, preorder, List.map_cons, preorderOption_renumber body]
  | oneOrMore _ body separator => by
      simp only [renumber, preorder, List.map_cons, List.map_append, preorderOption_renumber body,
        preorderOption_renumber separator]
  | optional _ body => by
      simp only [renumber, preorder, List.map_cons, preorderOption_renumber body]
  | literal .. | identifier .. | other .. | foreign .. => rfl

theorem preorderList_renumber : ∀ ns : List Node,
    preorderList (renumberList r ns) = (preorderList ns).map (renumber r)
  | [] => rfl
  | n :: ns => by
      rw [renumberList, preorderList_cons, preorder_renumber n, preorderList_renumber ns,
        preorderList_cons, List.map_append]

theorem preorderOption_renumber : ∀ o : Option Node,
    preorderOption (renumberOption r o) = (preorderOption o).map (renumber r)
  | none => rfl
  | some n => preorder_renumber n
end

mutual
theorem unnumbered_eq_renumber : ∀ n : Node, n.unnumbered = n.renumber fun _ => 0
  | grammar _ title productions comment => by
      rw [unnumbered, renumber, unnumberedOption_eq_renumber title,
        unnumberedOption_eq_renumber productions, unnumberedOption_eq_renumber comment]
  | productionList _ productions => by
      rw [unnumbered, renumber, unnumberedList_eq_renumber productions]
  | production _ name expression => by
      rw [unnumbered, renumber, unnumberedOption_eq_renumber name,
        unnumberedOption_eq_renumber expression]
  | alternation _ alternatives => by
      rw [unnumbered, renumber, unnumberedList_eq_renumber alternatives]
  | sequence _ items => by rw [unnumbered, renumber, unnumberedList_eq_renumber items]
  | repetition _ body => by rw [unnumbered, renumber, unnumberedOption_eq_renumber body]
  | oneOrMore _ body separator => by
      rw [unnumbered, renumber, unnumberedOption_eq_renumber body,
        unnumberedOption_eq_renumber separator]
  | optional _ body => by rw [unnumbered, renumber, unnumberedOption_eq_renumber body]
  | literal .. | identifier .. | other .. | foreign .. => rfl

theorem unnumberedList_eq_renumber : ∀ ns : List Node,
    unnumberedList ns = renumberList (fun _ => 0) ns
  | [] => rfl
  | n :: ns => by
      rw [unnumberedList, renumberList, unnumbered_eq_renumber n, unnumberedList_eq_renumber ns]

theorem unnumberedOption_eq_renumber : ∀ o : Option Node,
    unnumberedOption o = renumberOption (fun _ => 0) o
  | none => rfl
  | some n => by rw [unnumberedOption, renumberOption, unnumbered_eq_renumber n]
end

mutual
theorem unnumbered_renumber : ∀ n : Node, (n.renumber r).unnumbered = n.unnumbered
  | grammar _ title productions comment => by
      rw [renumber, unnumbered, unnumberedOption_renumber title,
        unnumberedOption_renumber productions, unnumberedOption_renumber comment, unnumbered]
  | productionList _ productions => by
      rw [renumber, unnumbered, unnumberedList_renumber productions, unnumbered]
  | production _ name expression => by
      rw [renumber, unnumbered, unnumberedOption_renumber name, unnumberedOption_renumber expression,
        unnumbered]
  | alternation _ alternatives => by
      rw [renumber, unnumbered, unnumberedList_renumber alternatives, unnumbered]
  | sequence _ items => by rw [renumber, unnumbered, unnumberedList_renumber items, unnumbered]
  | repetition _ body => by rw [renumber, unnumbered, unnumberedOption_renumber body, unnumbered]
  | oneOrMore _ body separator => by
      rw [renumber, unnumbered, unnumberedOption_renumber body, unnumberedOption_renumber separator,
        unnumbered]
  | optional _ body => by rw [renumber, unnumbered, unnumberedOption_renumber body, unnumbered]
  | literal .. | identifier .. | other .. | foreign .. => rfl

theorem unnumberedList_renumber : ∀ ns : List Node,
    unnumberedList (renumberList r ns) = unnumberedList ns
  | [] => rfl
  | n :: ns => by
      rw [renumberList, unnumberedList, unnumbered_renumber n, unnumberedList_renumber ns,
        unnumberedList]

theorem unnumberedOption_renumber : ∀ o : Option Node,
    unnumberedOption (renumberOption r o) = unnumberedOption o
  | none => rfl
  | some n => by rw [renumberOption, unnumberedOption, unnumbered_renumber n, unnumberedOption]
end

section Structure

variable {n m : Node} {ns ms : List Node} {o o' : Option Node}

theorem length_preorder_eq (h : n.unnumbered = m.unnumbered) :
    n.preorder.length = m.preorder.length := by
  have hlength := congrArg (fun n => n.preorder.length) h
  simpa only [unnumbered_eq_renumber, preorder_renumber, List.length_map] using hlength

theorem length_preorderOption_eq (h : unnumberedOption o = unnumberedOption o') :
    (preorderOption o).length = (preorderOption o').length := by
  have hlength := congrArg (fun o => (preorderOption o).length) h
  simpa only [unnumberedOption_eq_renumber, preorderOption_renumber, List.length_map] using hlength

/-- The ids of two trees side by side tell those of each. -/
theorem ids_append_inj {ks ks' ls ls' : List Node} (hlength : ks.length = ks'.length)
    (h : (ks ++ ls).map id = (ks' ++ ls').map id) :
    ks.map id = ks'.map id ∧ ls.map id = ls'.map id := by
  rw [List.map_append, List.map_append] at h
  exact List.append_inj h (by rw [List.length_map, List.length_map, hlength])

mutual
/-- A tree is known by its structure and the ids of its nodes. -/
theorem eq_of_ids : ∀ n m : Node, n.unnumbered = m.unnumbered →
    n.preorder.map id = m.preorder.map id → n = m
  | grammar i title productions comment, m, h, hids => by
      cases m with
      | grammar j title' productions' comment' =>
          simp only [unnumbered, grammar.injEq, true_and] at h
          obtain ⟨htitle, hproductions, hcomment⟩ := h
          simp only [preorder, List.map_cons, List.cons.injEq] at hids
          obtain ⟨hid, hids⟩ := hids
          obtain ⟨hids₁, hids⟩ := ids_append_inj (length_preorderOption_eq htitle) hids
          obtain ⟨hids₂, hids₃⟩ := ids_append_inj (length_preorderOption_eq hproductions) hids
          rw [show i = j from hid, eqOption_of_ids _ _ htitle hids₁,
            eqOption_of_ids _ _ hproductions hids₂, eqOption_of_ids _ _ hcomment hids₃]
      | _ => simp [unnumbered] at h
  | productionList i productions, m, h, hids => by
      cases m with
      | productionList j productions' =>
          simp only [unnumbered, productionList.injEq, true_and] at h
          simp only [preorder, List.map_cons, List.cons.injEq] at hids
          rw [show i = j from hids.1, eqList_of_ids _ _ h hids.2]
      | _ => simp [unnumbered] at h
  | production i name expression, m, h, hids => by
      cases m with
      | production j name' expression' =>
          simp only [unnumbered, production.injEq, true_and] at h
          obtain ⟨hname, hexpression⟩ := h
          simp only [preorder, List.map_cons, List.cons.injEq] at hids
          obtain ⟨hid, hids⟩ := hids
          obtain ⟨hids₁, hids₂⟩ := ids_append_inj (length_preorderOption_eq hname) hids
          rw [show i = j from hid, eqOption_of_ids _ _ hname hids₁,
            eqOption_of_ids _ _ hexpression hids₂]
      | _ => simp [unnumbered] at h
  | alternation i alternatives, m, h, hids => by
      cases m with
      | alternation j alternatives' =>
          simp only [unnumbered, alternation.injEq, true_and] at h
          simp only [preorder, List.map_cons, List.cons.injEq] at hids
          rw [show i = j from hids.1, eqList_of_ids _ _ h hids.2]
      | _ => simp [unnumbered] at h
  | sequence i items, m, h, hids => by
      cases m with
      | sequence j items' =>
          simp only [unnumbered, sequence.injEq, true_and] at h
          simp only [preorder, List.map_cons, List.cons.injEq] at hids
          rw [show i = j from hids.1, eqList_of_ids _ _ h hids.2]
      | _ => simp [unnumbered] at h
  | repetition i body, m, h, hids => by
      cases m with
      | repetition j body' =>
          simp only [unnumbered, repetition.injEq, true_and] at h
          simp only [preorder, List.map_cons, List.cons.injEq] at hids
          rw [show i = j from hids.1, eqOption_of_ids _ _ h hids.2]
      | _ => simp [unnumbered] at h
  | oneOrMore i body separator, m, h, hids => by
      cases m with
      | oneOrMore j body' separator' =>
          simp only [unnumbered, oneOrMore.injEq, true_and] at h
          obtain ⟨hbody, hseparator⟩ := h
          simp only [preorder, List.map_cons, List.cons.injEq] at hids
          obtain ⟨hid, hids⟩ := hids
          obtain ⟨hids₁, hids₂⟩ := ids_append_inj (length_preorderOption_eq hbody) hids
          rw [show i = j from hid, eqOption_of_ids _ _ hbody hids₁,
            eqOption_of_ids _ _ hseparator hids₂]
      | _ => simp [unnumbered] at h
  | optional i body, m, h, hids => by
      cases m with
      | optional j body' =>
          simp only [unnumbered, optional.injEq, true_and] at h
          simp only [preorder, List.map_cons, List.cons.injEq] at hids
          rw [show i = j from hids.1, eqOption_of_ids _ _ h hids.2]
      | _ => simp [unnumbered] at h
  | literal .., m, h, hids | identifier .., m, h, hids | other .., m, h, hids
  | foreign .., m, h, hids => by
      cases m <;> simp_all [unnumbered, preorder, id]

theorem eqList_of_ids : ∀ ns ms : List Node, unnumberedList ns = unnumberedList ms →
    (preorderList ns).map id = (preorderList ms).map id → ns = ms
  | [], ms, h, _ => by
      cases ms with
      | nil => rfl
      | cons => simp [unnumberedList] at h
  | n :: ns, ms, h, hids => by
      cases ms with
      | nil => simp [unnumberedList] at h
      | cons m ms =>
          simp only [unnumberedList, List.cons.injEq] at h
          obtain ⟨hids₁, hids₂⟩ := ids_append_inj (length_preorder_eq h.1) hids
          rw [eq_of_ids n m h.1 hids₁, eqList_of_ids ns ms h.2 hids₂]

theorem eqOption_of_ids : ∀ o o' : Option Node, unnumberedOption o = unnumberedOption o' →
    (preorderOption o).map id = (preorderOption o').map id → o = o'
  | none, o', h, _ => by
      cases o' with
      | none => rfl
      | some => simp [unnumberedOption] at h
  | some n, o', h, hids => by
      cases o' with
      | none => simp [unnumberedOption] at h
      | some m =>
          simp only [unnumberedOption, Option.some.injEq] at h
          rw [eq_of_ids n m h hids]
end

/-- Trees of one structure differ by a renumbering, if the nodes of one of them have ids of their own. -/
theorem exists_renumber (h : n.unnumbered = m.unnumbered) (hnodup : (n.preorder.map id).Nodup) :
    ∃ r, n.renumber r = m := by
  have hlength : (n.preorder.map id).length = (m.preorder.map id).length := by
    rw [List.length_map, List.length_map, length_preorder_eq h]
  refine ⟨fun i => (m.preorder.map id).getD ((n.preorder.map id).idxOf i) 0, ?_⟩
  apply eq_of_ids _ _ (by rw [unnumbered_renumber, h])
  rw [preorder_renumber, List.map_map]
  apply List.ext_getElem (by simpa using hlength)
  intro k hk hk'
  have hlt : k < (n.preorder.map id).length := hlength ▸ hk'
  have hat : (n.preorder.map id).idxOf (n.preorder.map id)[k] = k := hnodup.idxOf_getElem k hlt
  simp only [List.getElem_map] at hat
  rw [List.getElem_map, Function.comp_apply, id_renumber, hat, List.getD_eq_getElem?_getD,
    List.getElem?_eq_getElem hk', Option.getD_some]

end Structure

end Railroad.Node
