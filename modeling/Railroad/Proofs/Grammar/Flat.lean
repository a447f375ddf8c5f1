import Railroad.Proofs.Grammar.Spliced
/-!
Flat trees, which are those that splicing leaves as they are.
-/
namespace Railroad.Node

def isSequence : Node → Bool
  | sequence .. => true
  | _ => false

mutual
/-- Whether no sequence is directly an item of a sequence, and no alternation directly an alternative of
an alternation. -/
def isFlat : Node → Bool
  | grammar _ title productions comment =>
      isFlatOption title && isFlatOption productions && isFlatOption comment
  | productionList _ productions => isFlatList productions
  | production _ name expression => isFlatOption name && isFlatOption expression
  | alternation _ alternatives => alternatives.all (!·.isAlternation) && isFlatList alternatives
  | sequence _ items => items.all (!·.isSequence) && isFlatList items
  | repetition _ body => isFlatOption body
  | oneOrMore _ body separator => isFlatOption body && isFlatOption separator
  | optional _ body => isFlatOption body
  | literal .. | identifier .. | other .. | foreign .. => true

def isFlatList : List Node → Bool
  | [] => true
  | n :: ns => isFlat n && isFlatList ns

def isFlatOption : Option Node → Bool
  | none => true
  | some n => isFlat n
end

theorem isFlatList_iff (ns : List Node) : isFlatList ns = true ↔ ∀ n ∈ ns, n.isFlat = true := by
  induction ns with
  | nil => simp [isFlatList]
  | cons n ns ih => simp [isFlatList, ih]

theorem itemsOf_eq_singleton {n : Node} (h : n.isSequence = false) : itemsOf n = [n] := by
  cases n with
  | sequence => cases h
  | _ => rfl

@[simp] theorem isSequence_spliced (n : Node) : n.spliced.isSequence = n.isSequence := by
  cases n <;> rfl

section Lists

variable {f : Node → List Node} {ns : List Node}

/-- Parts that each add something, and together no more than there are of them, add one each. -/
theorem length_eq_one_of_length_flatMap (h : ∀ n ∈ ns, f n ≠ [])
    (hlength : (ns.flatMap f).length = ns.length) : ∀ n ∈ ns, (f n).length = 1 := by
  induction ns with
  | nil => simp
  | cons n ns ih =>
      rw [List.forall_mem_cons] at h ⊢
      have hhead : 0 < (f n).length := List.length_pos_iff.mpr h.1
      have htail := length_le_length_flatMap h.2
      rw [List.flatMap_cons, List.length_append, List.length_cons] at hlength
      exact ⟨by omega, ih h.2 (by omega)⟩

theorem flatMap_spliced (h : ∀ n ∈ ns, f n.spliced = [n.spliced]) :
    (ns.map spliced).flatMap f = ns.map spliced := by
  induction ns with
  | nil => rfl
  | cons n ns ih =>
      rw [List.forall_mem_cons] at h
      rw [List.map_cons, List.flatMap_cons, h.1, ih h.2, List.singleton_append]

/-- Spliced parts are the parts themselves exactly if nothing is spliced, neither among nor inside of
them; `p` tells the parts that are spliced. -/
theorem map_spliced_flatMap_iff {p : Node → Bool} (hne : ∀ n ∈ ns, f n.spliced ≠ [])
    (hone : ∀ n ∈ ns, (f n.spliced).length = 1 ↔ p n = false)
    (hsingle : ∀ n ∈ ns, p n = false → f n.spliced = [n.spliced]) :
    ((ns.map spliced).flatMap f).map unnumbered = ns.map unnumbered ↔
      (∀ n ∈ ns, p n = false) ∧ ∀ n ∈ ns, n.spliced.unnumbered = n.unnumbered := by
  constructor
  · intro h
    have hlength := congrArg List.length h
    rw [List.length_map, List.length_map, List.flatMap_map] at hlength
    have hp : ∀ n ∈ ns, p n = false := fun n hn =>
      (hone n hn).mp (length_eq_one_of_length_flatMap hne hlength n hn)
    rw [flatMap_spliced fun n hn => hsingle n hn (hp n hn), List.map_map] at h
    exact ⟨hp, List.map_inj_left.mp h⟩
  · rintro ⟨hp, hsame⟩
    rw [flatMap_spliced fun n hn => hsingle n hn (hp n hn), List.map_map]
    exact List.map_inj_left.mpr hsame

end Lists

section Expressions

variable {n : Node}

theorem IsExpression.length_alternativesOf (h : n.IsExpression) :
    (alternativesOf n).length = 1 ↔ n.isAlternation = false := by
  cases h with
  | alternation _ hmany =>
      simp only [alternativesOf, isAlternation, Bool.true_eq_false, iff_false]
      omega
  | _ => simp [alternativesOf, isAlternation]

theorem IsExpression.length_itemsOf (h : n.IsExpression) :
    (itemsOf n).length = 1 ↔ n.isSequence = false := by
  cases h with
  | sequence _ hmany =>
      simp only [itemsOf, isSequence, Bool.true_eq_false, iff_false]
      omega
  | _ => simp [itemsOf, isSequence]

/-- Splicing leaves an expression as it is, up to numbering, exactly if the expression is flat. -/
theorem IsExpression.spliced_eq_iff (h : n.IsExpression) :
    n.spliced.unnumbered = n.unnumbered ↔ n.isFlat = true := by
  induction h with
  | literal | identifier => simp [Node.spliced, isFlat]
  | @alternation id as _ halternatives ih =>
      have hparts := map_spliced_flatMap_iff (p := isAlternation)
        (fun a ha => (halternatives a ha).spliced.alternativesOf_ne_nil)
        (fun a ha => by rw [(halternatives a ha).spliced.length_alternativesOf, isAlternation_spliced])
        fun a _ hp => alternativesOf_eq_singleton (by rw [isAlternation_spliced, hp])
      simp only [Node.spliced, unnumbered, splicedList_eq_map, unnumberedList_eq_map,
        Node.alternation.injEq, true_and, hparts, isFlat, Bool.and_eq_true, List.all_eq_true,
        Bool.not_eq_true', isFlatList_iff]
      exact and_congr_right fun _ => forall₂_congr ih
  | @sequence id items _ hitems ih =>
      have hparts := map_spliced_flatMap_iff (p := isSequence)
        (fun a ha => (hitems a ha).spliced.itemsOf_ne_nil)
        (fun a ha => by rw [(hitems a ha).spliced.length_itemsOf, isSequence_spliced])
        fun a _ hp => itemsOf_eq_singleton (by rw [isSequence_spliced, hp])
      simp only [Node.spliced, unnumbered, splicedList_eq_map, unnumberedList_eq_map,
        Node.sequence.injEq, true_and, hparts, isFlat, Bool.and_eq_true, List.all_eq_true,
        Bool.not_eq_true', isFlatList_iff]
      exact and_congr_right fun _ => forall₂_congr ih
  | repetition _ _ ih | optional _ _ ih | loop _ _ ih =>
      simp [Node.spliced, unnumbered, isFlat, isFlatOption, ih]
  | separatedLoop _ _ _ ih ih' =>
      simp [Node.spliced, unnumbered, isFlat, isFlatOption, ih, ih']

theorem IsProduction.spliced_eq_iff (h : n.IsProduction) :
    n.spliced.unnumbered = n.unnumbered ↔ n.isFlat = true := by
  cases h with
  | intro _ _ _ hexpression =>
      simp [Node.spliced, unnumbered, isFlat, isFlatOption, hexpression.spliced_eq_iff]

/-- Splicing leaves a grammar as it is, up to numbering, exactly if the grammar is flat. -/
theorem IsGrammar.spliced_eq_iff (h : n.IsGrammar) :
    n.spliced.unnumbered = n.unnumbered ↔ n.isFlat = true := by
  cases h with
  | @intro _ _ title comment productions htitle hproductions hcomment =>
      have htitleFlat : (title.map Node.spliced).map unnumbered = title.map unnumbered ∧
          isFlatOption title = true := by
        cases title with
        | none => exact ⟨rfl, rfl⟩
        | some leaf =>
            obtain ⟨i, text, rfl⟩ := htitle leaf rfl
            exact ⟨rfl, rfl⟩
      have hcommentFlat : (comment.map Node.spliced).map unnumbered = comment.map unnumbered ∧
          isFlatOption comment = true := by
        cases comment with
        | none => exact ⟨rfl, rfl⟩
        | some leaf =>
            obtain ⟨i, text, rfl⟩ := hcomment leaf rfl
            exact ⟨rfl, rfl⟩
      have hrules : (productions.map Node.spliced).map unnumbered = productions.map unnumbered ↔
          isFlatList productions = true := by
        rw [isFlatList_iff, List.map_map, List.map_inj_left]
        exact forall₂_congr fun p hp => (hproductions p hp).spliced_eq_iff
      simp only [Node.spliced, unnumbered, splicedOption_eq_map, unnumberedOption_eq_map,
        Option.map_some, splicedList_eq_map, unnumberedList_eq_map, htitleFlat.1, hcommentFlat.1,
        isFlat, isFlatOption, htitleFlat.2, hcommentFlat.2, Bool.true_and, Bool.and_true, ← hrules]
      simp

end Expressions

end Railroad.Node
