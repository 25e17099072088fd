import DdsPlayground.Core.KeyedTree

/-!
# Separated intervals

A list of half-open intervals of numbers, in order and with at least one number between
each two, and things that have their places inside the intervals, in order and some of
them at known numbers.
-/

namespace Intervals

/-! ## Places -/

section

variable {β : Type*} (place : β → Option Nat)

/-- Distinct places from `lo` to in front of `hi` hold the things, in order, each at its own
number if it has one. -/
def Fits : List β → Nat → Nat → Prop
  | [], lo, hi => lo ≤ hi
  | x :: xs, lo, hi => ∃ p, lo ≤ p ∧ (∀ n ∈ place x, n = p) ∧ Fits xs (p + 1) hi

variable {place} {xs ys : List β} {lo lo' hi hi' : Nat}

theorem Fits.mono (h : Fits place xs lo hi) (hlo : lo' ≤ lo) (hhi : hi ≤ hi') :
    Fits place xs lo' hi' := by
  induction xs generalizing lo lo' with
  | nil => exact hlo.trans (Nat.le_trans h hhi)
  | cons x xs ih =>
    obtain ⟨p, hp, hx, hrest⟩ := h
    exact ⟨p, hlo.trans hp, hx, ih hrest le_rfl⟩

theorem Fits.length_le (h : Fits place xs lo hi) : lo + xs.length ≤ hi := by
  induction xs generalizing lo with
  | nil => exact h
  | cons x xs ih =>
    obtain ⟨p, hp, -, hrest⟩ := h
    have hlen := ih hrest
    rw [List.length_cons]
    omega

theorem fits_append :
    Fits place (xs ++ ys) lo hi ↔ ∃ mid, Fits place xs lo mid ∧ Fits place ys mid hi := by
  induction xs generalizing lo with
  | nil => exact ⟨fun h => ⟨lo, le_rfl, h⟩, fun ⟨_, hlo, h⟩ => h.mono hlo le_rfl⟩
  | cons x xs ih =>
    simp only [List.cons_append, Fits, ih]
    constructor
    · rintro ⟨p, hp, hx, mid, hxs, hys⟩
      exact ⟨mid, ⟨p, hp, hx, hxs⟩, hys⟩
    · rintro ⟨mid, ⟨p, hp, hx, hxs⟩, hys⟩
      exact ⟨p, hp, hx, mid, hxs, hys⟩

theorem Fits.append {mid : Nat} (hx : Fits place xs lo mid) (hy : Fits place ys mid hi) :
    Fits place (xs ++ ys) lo hi := fits_append.mpr ⟨mid, hx, hy⟩

theorem fits_singleton {x : β} {n : Nat} (h : place x = some n) : Fits place [x] n (n + 1) :=
  ⟨n, le_rfl, fun _ hm => Option.some.inj (hm.symm.trans h), le_rfl⟩

/-- A number that a thing has is one of its places. -/
theorem Fits.bounds (h : Fits place xs lo hi) {x : β} {n : Nat} (hx : x ∈ xs)
    (hn : place x = some n) : lo ≤ n ∧ n < hi := by
  induction xs generalizing lo with
  | nil => cases hx
  | cons y xs ih =>
    obtain ⟨p, hp, hy, hrest⟩ := h
    rcases List.mem_cons.mp hx with rfl | hx
    · have hlen := hrest.length_le
      have hnp := hy n hn
      omega
    · have hbounds := ih hrest hx
      omega

/-- The numbers of the things go up. -/
theorem Fits.increasing (h : Fits place xs lo hi) : (xs.filterMap place).Pairwise (· < ·) := by
  induction xs generalizing lo with
  | nil => exact List.Pairwise.nil
  | cons x xs ih =>
    obtain ⟨p, hp, hx, hrest⟩ := h
    rw [List.filterMap_cons]
    cases hplace : place x with
    | none => exact ih hrest
    | some n =>
      refine List.pairwise_cons.mpr ⟨?_, ih hrest⟩
      intro m hm
      obtain ⟨y, hy, hym⟩ := List.mem_filterMap.mp hm
      have hbounds := hrest.bounds hy hym
      have hnp := hx n hplace
      omega

end

/-! ## Intervals -/

section

variable {ι β : Type*} (lo hi : ι → Nat) (P : ι → Prop)

/-- The intervals are of a kind, lie behind a number, and are separated. -/
def Separated : Nat → List ι → Prop
  | _, [] => True
  | n, i :: rest => n < lo i ∧ P i ∧ Separated (hi i) rest

/-- The end of the last interval, or the number where there is none. -/
def stop : Nat → List ι → Nat
  | n, [] => n
  | _, i :: rest => stop (hi i) rest

variable {lo hi P} {n m : Nat} {t before after : List ι} {i : ι}

theorem stop_append (n : Nat) (before after : List ι) :
    stop hi n (before ++ after) = stop hi (stop hi n before) after := by
  induction before generalizing n with
  | nil => rfl
  | cons i before ih => exact ih (hi i)

theorem exists_stop_eq (hi : ι → Nat) (i : ι) (rest : List ι) : ∃ j ∈ i :: rest, hi j = stop hi (hi i) rest := by
  induction rest generalizing i with
  | nil => exact ⟨i, List.mem_singleton_self i, rfl⟩
  | cons k rest ih =>
    obtain ⟨j, hj, heq⟩ := ih k
    exact ⟨j, List.mem_cons_of_mem i hj, heq⟩

theorem separated_append : Separated lo hi P n (before ++ after) ↔
    Separated lo hi P n before ∧ Separated lo hi P (stop hi n before) after := by
  induction before generalizing n with
  | nil => simp only [List.nil_append, Separated, stop, true_and]
  | cons i before ih => simp only [List.cons_append, Separated, stop, ih, and_assoc]

theorem Separated.mono (h : Separated lo hi P n t) (hm : m ≤ n) : Separated lo hi P m t := by
  cases t with
  | nil => trivial
  | cons i rest => exact ⟨hm.trans_lt h.1, h.2⟩

theorem Separated.behind (h : Separated lo hi P n t) (hm : ∀ i ∈ t, m < lo i) :
    Separated lo hi P m t := by
  cases t with
  | nil => trivial
  | cons i rest => exact ⟨hm i List.mem_cons_self, h.2⟩

theorem Separated.kind (h : Separated lo hi P n t) : ∀ i ∈ t, P i := by
  induction t generalizing n with
  | nil => nofun
  | cons i rest ih => exact List.forall_mem_cons.mpr ⟨h.2.1, ih h.2.2⟩

variable (hP : ∀ i, P i → lo i < hi i)

include hP

theorem Separated.lt_lo (h : Separated lo hi P n t) : ∀ i ∈ t, n < lo i := by
  induction t generalizing n with
  | nil => nofun
  | cons i rest ih =>
    refine List.forall_mem_cons.mpr ⟨h.1, ?_⟩
    intro j hj
    exact (h.1.trans (hP i h.2.1)).trans (ih h.2.2 j hj)

theorem Separated.le_stop (h : Separated lo hi P n t) : n ≤ stop hi n t := by
  induction t generalizing n with
  | nil => exact le_rfl
  | cons i rest ih => exact ((h.1.trans (hP i h.2.1)).le).trans (ih h.2.2)

theorem Separated.hi_le_stop (h : Separated lo hi P n t) : ∀ i ∈ t, hi i ≤ stop hi n t := by
  induction t generalizing n with
  | nil => nofun
  | cons i rest ih =>
    refine List.forall_mem_cons.mpr ⟨h.2.2.le_stop hP, ?_⟩
    exact ih h.2.2

theorem Separated.sorted (h : Separated lo hi P n t) : KeyedTree.Sorted lo t := by
  induction t generalizing n with
  | nil => exact List.Pairwise.nil
  | cons i rest ih =>
    refine List.pairwise_cons.mpr ⟨?_, ih h.2.2⟩
    intro j hj
    exact (hP i h.2.1).trans (h.2.2.lt_lo hP j hj)

/-- The intervals in front of one end before it. -/
theorem Separated.hi_lt (h : Separated lo hi P n (before ++ i :: after)) :
    ∀ j ∈ before, hi j < lo i := by
  obtain ⟨hbefore, hi', -⟩ := separated_append.mp h
  exact fun j hj => (hbefore.hi_le_stop hP j hj).trans_lt hi'

/-- The intervals behind one begin behind its end. -/
theorem Separated.lt_of_after (h : Separated lo hi P n (before ++ i :: after)) :
    ∀ j ∈ after, hi i < lo j := by
  obtain ⟨-, -, -, hafter⟩ := separated_append.mp h
  exact hafter.lt_lo hP

omit hP

/-- The things in separated intervals fit from the first to the last. -/
theorem Separated.fits {place : β → Option Nat} {things : ι → List β}
    (hfits : ∀ i, P i → Fits place (things i) (lo i) (hi i)) (h : Separated lo hi P n t) :
    Fits place (t.flatMap things) n (stop hi n t) := by
  induction t generalizing n with
  | nil => exact le_rfl
  | cons i rest ih =>
    rw [List.flatMap_cons]
    exact ((hfits i h.2.1).mono h.1.le le_rfl).append (ih h.2.2)

end

end Intervals
