import Railroad.Proofs.Grammar.Preorder
/-!
Walks over a tree, round by round, and the places of the tree in the order in which a walk comes to them.
-/
namespace Railroad.Node

theorem countList_eq_zero_iff {ns : List Node} : countList ns = 0 ↔ ns = [] := by
  cases ns with
  | nil => simp [countList]
  | cons n ns => simp [countList, count_eq]

/-- A walk under way: the nodes seen so far, and the stack of trees still to be walked, its top last. -/
structure Walk where
  seen : Array Node
  stack : Array Node

namespace Walk

def start (n : Node) : Walk :=
  ⟨#[], #[n]⟩

/-- One round: the tree on top is taken off the stack, its root is seen, and its children are put on the
stack, the last one first.  There is no further round when the stack is empty. -/
def round? (w : Walk) : Option Walk :=
  w.stack.back?.map fun n => ⟨w.seen.push n, w.stack.pop ++ n.children.reverse⟩

/-- A walk after some more rounds, if it takes so many. -/
def after? (w : Walk) : Nat → Option Walk
  | 0 => some w
  | k + 1 => w.round?.bind (·.after? k)

/-- The trees still to be walked, the next one first. -/
def pending (w : Walk) : List Node :=
  w.stack.toList.reverse

section Rounds

variable {w w' : Walk} {n : Node} {rest : List Node}

theorem round?_eq_none_iff : w.round? = none ↔ w.pending = [] := by
  simp [round?, pending]

/-- What a round does to the trees that are to be walked. -/
theorem exists_round (h : w.pending = n :: rest) :
    ∃ w', w.round? = some w' ∧ w'.seen = w.seen.push n ∧ w'.pending = n.children ++ rest := by
  obtain ⟨below, hstack⟩ : ∃ below : Array Node, w.stack = below.push n := by
    refine ⟨rest.reverse.toArray, Array.toList_inj.mp ?_⟩
    rw [pending, List.reverse_eq_cons_iff] at h
    rw [h, Array.toList_push]
  have hrest : below.toList.reverse = rest := by
    rw [pending, hstack, Array.toList_push, List.reverse_append] at h
    exact (List.cons.inj h).2
  refine ⟨⟨w.seen.push n, below ++ n.children.reverse⟩, ?_, rfl, ?_⟩
  · rw [round?, hstack, Array.back?_push, Array.pop_push, Option.map_some]
  · rw [pending, Array.toList_appendList, List.reverse_append, List.reverse_reverse, hrest]

/-- A walk sees everything in as many rounds as there are nodes in the trees to be walked. -/
theorem exists_end (w : Walk) : ∃ e, w.after? (countList w.pending) = some e ∧ e.pending = [] ∧
    e.seen = walkStack w.seen w.pending := by
  generalize hk : countList w.pending = k
  -- Every round takes one node off those to be seen, and leaves what is seen in the end.
  induction k generalizing w with
  | zero =>
      have hdone : w.pending = [] := countList_eq_zero_iff.mp hk
      exact ⟨w, rfl, hdone, by rw [hdone, walkStack]⟩
  | succ k ih =>
      cases hpending : w.pending with
      | nil =>
          rw [hpending, countList] at hk
          cases hk
      | cons n rest =>
          obtain ⟨w', hround, hseen, hpending'⟩ := exists_round hpending
          have hk' : countList w'.pending = k := by
            rw [hpending, countList, count_eq] at hk
            rw [hpending', countList_append]
            omega
          obtain ⟨e, hend, hdone, hall⟩ := ih w' hk'
          refine ⟨e, ?_, hdone, ?_⟩
          · rw [after?, hround, Option.bind_some, hend]
          · rw [hall, hseen, hpending', walkStack]

end Rounds

end Walk

/-- The node at a place: which child to take, at every step of the way down from the root. -/
def at? (n : Node) : List Nat → Option Node
  | [] => some n
  | i :: p => n.children[i]?.bind (·.at? p)

/-- The places of a tree: first the root, then what is below the first child, and so on. -/
def places (n : Node) : List (List Nat) :=
  [] :: n.children.attach.zipIdx.flatMap fun x => (places x.1.1).map (x.2 :: ·)
termination_by n.count
decreasing_by exact count_lt_of_mem_children x.1.2

section Places

variable {n : Node} {p : List Nat}

theorem places_eq (n : Node) :
    n.places = [] :: n.children.zipIdx.flatMap fun x => x.1.places.map (x.2 :: ·) := by
  have hchildren : n.children.zipIdx = n.children.attach.zipIdx.map fun x => (x.1.1, x.2) :=
    calc
      n.children.zipIdx = (n.children.attach.map Subtype.val).zipIdx := by
        rw [List.attach_map_subtype_val]
      _ = n.children.attach.zipIdx.map fun x => (x.1.1, x.2) := List.zipIdx_map
  rw [places, hchildren, List.flatMap_map]

theorem cons_mem_places_iff {i : Nat} :
    i :: p ∈ n.places ↔ ∃ m, n.children[i]? = some m ∧ p ∈ m.places := by
  rw [places_eq]
  simp only [List.mem_cons, reduceCtorEq, false_or, List.mem_flatMap, List.mem_map,
    List.cons.injEq, List.mem_zipIdx_iff_getElem?]
  constructor
  · rintro ⟨⟨m, j⟩, hm, q, hq, rfl, rfl⟩
    exact ⟨m, hm, hq⟩
  · rintro ⟨m, hm, hp⟩
    exact ⟨(m, i), hm, p, hp, rfl, rfl⟩

theorem mem_places_iff : p ∈ n.places ↔ (n.at? p).isSome = true := by
  induction p generalizing n with
  | nil => simp [places_eq n, at?]
  | cons i p ih =>
      rw [cons_mem_places_iff, at?]
      cases n.children[i]? with
      | none => simp
      | some m => simp [ih]

/-- At the places of a tree are the nodes to which a walk comes, one after the other. -/
theorem map_at?_places (n : Node) : n.places.map n.at? = n.preorder.map some := by
  induction n using descend with
  | _ n ih =>
      have hbelow : ∀ x ∈ n.children.zipIdx,
          (x.1.places.map (x.2 :: ·)).map n.at? = x.1.preorder.map some := by
        rintro ⟨m, i⟩ hx
        have hm : n.children[i]? = some m := List.mem_zipIdx_iff_getElem?.mp hx
        rw [← ih m (List.mem_of_getElem? hm), List.map_map]
        refine List.map_congr_left fun p _ => ?_
        rw [Function.comp_apply, at?, hm, Option.bind_some]
      calc
        n.places.map n.at?
          = some n :: n.children.zipIdx.flatMap fun x => x.1.preorder.map some := by
            rw [places_eq, List.map_cons, at?, List.map_flatMap, List.flatMap_congr hbelow]
        _ = some n :: (n.children.zipIdx.map Prod.fst).flatMap fun m => m.preorder.map some := by
            rw [List.flatMap_map]
        _ = n.preorder.map some := by
            rw [List.zipIdx_map_fst, preorder_eq, preorderList_eq_flatMap, List.map_cons,
              List.map_flatMap]

/-- Places come before those below them, and those below a child before those below the next. -/
theorem pairwise_places (n : Node) : n.places.Pairwise (· < ·) := by
  induction n using descend with
  | _ n ih =>
      have hindices : n.children.zipIdx.Pairwise fun x y => x.2 < y.2 := by
        rw [← List.pairwise_map (f := Prod.snd) (R := (· < ·)), List.zipIdx_map_snd]
        exact List.pairwise_lt_range'
      rw [places_eq, List.pairwise_cons, List.pairwise_flatMap]
      refine ⟨?root, ?child, hindices.imp ?children⟩
      case root =>
        intro p hp
        obtain ⟨x, -, hp⟩ := List.mem_flatMap.mp hp
        obtain ⟨q, -, rfl⟩ := List.mem_map.mp hp
        exact List.nil_lt_cons _ _
      case child =>
        intro x hx
        have hm := List.mem_of_getElem? (List.mem_zipIdx_iff_getElem?.mp hx)
        rw [List.pairwise_map]
        exact (ih x.1 hm).imp fun hpq => List.cons_lt_cons_iff.mpr (.inr ⟨rfl, hpq⟩)
      case children =>
        intro x y hxy p hp q hq
        obtain ⟨p, -, rfl⟩ := List.mem_map.mp hp
        obtain ⟨q, -, rfl⟩ := List.mem_map.mp hq
        exact List.cons_lt_cons_iff.mpr (.inl hxy)

end Places

/-- A walk ends after as many rounds as the tree has nodes.  It sees the root, and then what the walks over
the children see, in their order.  These are the nodes at the places of the tree, in the order of the
places: every place is come to once, so that a shared node is seen as often as there are places where it
stands. -/
theorem walk_in_preorder (n : Node) :
    (∃ w, (Walk.start n).after? n.count = some w ∧ w.round? = none ∧ w.seen.toList = n.walk) ∧
    n.walk = n :: n.children.flatMap walk ∧
    (n.walk.map some = n.places.map n.at? ∧ n.places.Pairwise (· < ·) ∧
      ∀ p, p ∈ n.places ↔ (n.at? p).isSome = true) ∧
    ∀ i, (n.walk.map Node.id).count i = n.places.countP fun p => (n.at? p).map Node.id = some i := by
  have hplaces : n.walk.map some = n.places.map n.at? := by
    rw [walk_eq_preorder, map_at?_places]
  refine ⟨?ends, ?unfolds, ⟨hplaces, pairwise_places n, fun p => mem_places_iff⟩, ?shared⟩
  case ends =>
    have hcount : countList (Walk.start n).pending = n.count := by
      simp [Walk.start, Walk.pending, countList]
    obtain ⟨w, hend, hdone, hseen⟩ := (Walk.start n).exists_end
    rw [hcount] at hend
    refine ⟨w, hend, Walk.round?_eq_none_iff.mpr hdone, ?_⟩
    rw [hseen]
    rfl
  case unfolds =>
    rw [walk_eq_preorder, preorder_eq, preorderList_eq_flatMap, ← funext walk_eq_preorder]
  case shared =>
    intro i
    calc
      (n.walk.map Node.id).count i
        = (n.walk.map some).countP fun m? => m?.map Node.id = some i := by
          rw [List.count_eq_countP, List.countP_map, List.countP_map]
          exact List.countP_congr fun m _ => by simp
      _ = n.places.countP fun p => (n.at? p).map Node.id = some i := by
          rw [hplaces, List.countP_map]
          rfl

/-- A part that stands in two places is walked twice. -/
example :
    (sequence 0 [optional 1 (some (identifier 2 "a")), optional 1 (some (identifier 2 "a"))]).walk.map
      Node.id = [0, 1, 2, 1, 2] := by cbv

end Railroad.Node
