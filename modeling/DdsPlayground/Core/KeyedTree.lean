import Mathlib.Data.List.Pairwise
import Mathlib.Data.List.TakeWhile
import Mathlib.Order.Lattice

/-!
# Search trees as lists

A search tree is the list of its nodes in the order of their keys. A node is found, left
out, exchanged or put in by its key; where the list is split at the place of the key, each
of these is the plain list operation there.
-/

namespace KeyedTree

variable {ι κ : Type*} [LinearOrder κ] (key : ι → κ)

/-! ## Operations -/

/-- The node with a key. -/
def lookup (k : κ) (t : List ι) : Option ι := t.find? fun i => key i = k

/-- The last node up to a key. -/
def lookupPredEq (k : κ) (t : List ι) : Option ι := (t.takeWhile fun i => key i ≤ k).getLast?

/-- The first node behind a key. -/
def findSucc (k : κ) (t : List ι) : Option ι := t.find? fun i => k < key i

/-- The last node in front of a key. -/
def findPred (k : κ) (t : List ι) : Option ι := (t.takeWhile fun i => key i < k).getLast?

/-- Leave out the node with a key. -/
def delete (k : κ) (t : List ι) : List ι := t.filter fun i => key i ≠ k

/-- Exchange the node with a key. -/
def swapNode (k : κ) (x : ι) (t : List ι) : List ι := t.map fun i => if key i = k then x else i

/-- Put in a node in front of the ones with larger keys. -/
def insert (x : ι) (t : List ι) : List ι :=
  (t.takeWhile fun i => key i < key x) ++ x :: t.dropWhile fun i => key i < key x

/-! ## Sorted lists -/

/-- The nodes are in the order of their keys. -/
def Sorted (t : List ι) : Prop := t.Pairwise fun i j => key i < key j

variable {key} {before after t : List ι} {x y : ι} {k : κ}

theorem sorted_middle : Sorted key (before ++ x :: after) ↔
    Sorted key (before ++ after) ∧ (∀ i ∈ before, key i < key x) ∧ ∀ i ∈ after, key x < key i := by
  simp only [Sorted, List.pairwise_append, List.pairwise_cons, List.mem_cons, forall_eq_or_imp]
  constructor
  · rintro ⟨hb, ⟨hx, ha⟩, hba⟩
    exact ⟨⟨hb, ha, fun i hi => (hba i hi).2⟩, fun i hi => (hba i hi).1, hx⟩
  · rintro ⟨⟨hb, ha, hba⟩, hbx, hx⟩
    exact ⟨hb, ⟨hx, ha⟩, fun i hi => ⟨hbx i hi, hba i hi⟩⟩

theorem Sorted.lookup_middle (h : Sorted key (before ++ x :: after)) :
    lookup key (key x) (before ++ x :: after) = some x := by
  obtain ⟨-, hbefore, -⟩ := sorted_middle.mp h
  rw [lookup, List.find?_append, List.find?_eq_none.mpr, Option.none_or, List.find?_cons_of_pos]
  · exact decide_eq_true rfl
  · intro i hi
    simp only [decide_eq_true_eq]
    exact (hbefore i hi).ne

theorem Sorted.delete_middle (h : Sorted key (before ++ x :: after)) :
    delete key (key x) (before ++ x :: after) = before ++ after := by
  obtain ⟨-, hbefore, hafter⟩ := sorted_middle.mp h
  rw [delete, List.filter_append, List.filter_cons_of_neg, List.filter_eq_self.mpr,
    List.filter_eq_self.mpr]
  · exact fun i hi => decide_eq_true (hafter i hi).ne'
  · exact fun i hi => decide_eq_true (hbefore i hi).ne
  · simp only [ne_eq, not_true_eq_false, decide_false, Bool.false_eq_true, not_false_eq_true]

theorem Sorted.swapNode_middle (h : Sorted key (before ++ x :: after)) (y : ι) :
    swapNode key (key x) y (before ++ x :: after) = before ++ y :: after := by
  obtain ⟨-, hbefore, hafter⟩ := sorted_middle.mp h
  have hmap : ∀ l : List ι, (∀ i ∈ l, key i ≠ key x) →
      l.map (fun i => if key i = key x then y else i) = l := by
    intro l hl
    exact (List.map_congr_left fun i hi => if_neg (hl i hi)).trans (List.map_id l)
  rw [swapNode, List.map_append, List.map_cons, if_pos rfl,
    hmap before fun i hi => (hbefore i hi).ne, hmap after fun i hi => (hafter i hi).ne']

theorem Sorted.findSucc_middle (h : Sorted key (before ++ x :: after)) :
    findSucc key (key x) (before ++ x :: after) = after.head? := by
  obtain ⟨-, hbefore, hafter⟩ := sorted_middle.mp h
  have hnone : before.find? (fun i => decide (key x < key i)) = none := by
    refine List.find?_eq_none.mpr fun i hi => ?_
    simp only [decide_eq_true_eq]
    exact (hbefore i hi).not_gt
  rw [findSucc, List.find?_append, hnone, Option.none_or, List.find?_cons_of_neg]
  · cases after with
    | nil => rfl
    | cons a after =>
      have ha : decide (key x < key a) = true := decide_eq_true (hafter a List.mem_cons_self)
      exact List.find?_cons_of_pos (p := fun i => decide (key x < key i)) ha
  · simp only [decide_eq_true_eq]
    exact lt_irrefl (key x)

theorem Sorted.findPred_middle (h : Sorted key (before ++ x :: after)) :
    findPred key (key x) (before ++ x :: after) = before.getLast? := by
  obtain ⟨-, hbefore, -⟩ := sorted_middle.mp h
  have hx : ¬ decide (key x < key x) = true := by
    rw [decide_eq_true_eq]
    exact lt_irrefl (key x)
  rw [findPred, List.takeWhile_append_of_pos fun i hi => decide_eq_true (hbefore i hi),
    List.takeWhile_cons_of_neg (p := fun i => decide (key i < key x)) hx, List.append_nil]

theorem Sorted.lt_of_mem_dropWhile (h : Sorted key t) :
    ∀ i ∈ t.dropWhile fun i => key i ≤ k, k < key i := by
  induction t with
  | nil => nofun
  | cons a t ih =>
    obtain ⟨ha, ht⟩ := List.pairwise_cons.mp h
    by_cases hk : key a ≤ k
    · rw [List.dropWhile_cons_of_pos (by simpa only [decide_eq_true_eq] using hk)]
      exact ih ht
    · rw [List.dropWhile_cons_of_neg (by simpa only [decide_eq_true_eq] using hk)]
      intro i hi
      rcases List.mem_cons.mp hi with rfl | hi
      · exact not_le.mp hk
      · exact (not_le.mp hk).trans (ha i hi)

/-- The last node up to a key splits the list at the key. -/
theorem Sorted.lookupPredEq_cases (h : Sorted key t) (k : κ) :
    (lookupPredEq key k t = none ∧ ∀ i ∈ t, k < key i) ∨
      ∃ before x after, lookupPredEq key k t = some x ∧ t = before ++ x :: after ∧ key x ≤ k ∧
        ∀ i ∈ after, k < key i := by
  have hsplit := List.takeWhile_append_dropWhile (p := fun i => decide (key i ≤ k)) (l := t)
  have hafter := h.lt_of_mem_dropWhile (k := k)
  rcases List.eq_nil_or_concat (t.takeWhile fun i => key i ≤ k) with hnil | ⟨before, x, hx⟩
  · rw [hnil, List.nil_append] at hsplit
    refine .inl ⟨by rw [lookupPredEq, hnil, List.getLast?_nil], ?_⟩
    rwa [hsplit] at hafter
  · rw [List.concat_eq_append] at hx
    refine .inr ⟨before, x, _, ?_, ?_, ?_, hafter⟩
    · rw [lookupPredEq, hx, List.getLast?_append, List.getLast?_singleton, Option.some_or]
    · rw [hx, List.append_assoc, List.singleton_append] at hsplit
      exact hsplit.symm
    · have hmem : x ∈ t.takeWhile fun i => key i ≤ k := by
        rw [hx]
        exact List.mem_append_right _ (List.mem_singleton_self x)
      simpa only [decide_eq_true_eq] using List.mem_takeWhile_imp hmem

theorem Sorted.key_le_of_lookupPredEq (h : Sorted key t) (hx : lookupPredEq key k t = some x) :
    key x ≤ k := by
  rcases h.lookupPredEq_cases k with ⟨hnone, -⟩ | ⟨before, y, after, hsome, -, hy, -⟩
  · exact absurd (hnone.symm.trans hx) (Option.some_ne_none x).symm
  · exact Option.some.inj (hsome.symm.trans hx) ▸ hy

theorem insert_middle (hbefore : ∀ i ∈ before, key i < key x)
    (hafter : ∀ i ∈ after, key x ≤ key i) :
    insert key x (before ++ after) = before ++ x :: after := by
  have hb : ∀ i ∈ before, decide (key i < key x) = true := fun i hi => decide_eq_true (hbefore i hi)
  rw [insert, List.takeWhile_append_of_pos hb, List.dropWhile_append_of_pos hb]
  cases after with
  | nil => rw [List.takeWhile_nil, List.dropWhile_nil, List.append_nil]
  | cons a after =>
    have ha : ¬ decide (key a < key x) = true := by
      rw [decide_eq_true_eq, not_lt]
      exact hafter a List.mem_cons_self
    rw [List.takeWhile_cons, List.dropWhile_cons, if_neg ha, if_neg ha, List.append_nil]

end KeyedTree
