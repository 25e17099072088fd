import Mathlib.Data.List.Basic

/-!
# Cutting a list into items from the front

A length-prefixed format is read by cutting one item after the other off the
front until the rule refuses. A cutter carries the proof that each cut makes
the list shorter, so the number of cuts needs no bound from outside: `items`
and `remainder` run on the length of the list, and their equations hold with
no fuel in them.
-/

variable {α β : Type*}

/-- A rule for the first item of a list and the rest behind it. -/
structure Cutter (α β : Type*) where
  /-- The first item and the rest, or `none` where no item begins. -/
  cut : List α → Option (β × List α)
  /-- An item is never empty. -/
  shrinks : ∀ {xs : List α} {b : β} {rest : List α},
    cut xs = some (b, rest) → rest.length < xs.length

namespace Cutter

variable (c : Cutter α β)

/-- The items cut in at most `fuel` cuts. -/
def itemsWith : Nat → List α → List β
  | 0, _ => []
  | fuel + 1, xs =>
    match c.cut xs with
    | none => []
    | some (b, rest) => b :: itemsWith fuel rest

/-- What is left after at most `fuel` cuts. -/
def remainderWith : Nat → List α → List α
  | 0, xs => xs
  | fuel + 1, xs =>
    match c.cut xs with
    | none => xs
    | some (_, rest) => remainderWith fuel rest

/-- All items of a list. -/
def items (xs : List α) : List β := c.itemsWith (xs.length + 1) xs

/-- What stands behind the last item. -/
def remainder (xs : List α) : List α := c.remainderWith (xs.length + 1) xs

/-- Fuel above the length of the list changes nothing. -/
theorem itemsWith_eq {fuel more : Nat} {xs : List α} (h : xs.length < fuel)
    (h' : xs.length < more) : c.itemsWith fuel xs = c.itemsWith more xs := by
  induction fuel generalizing xs more with
  | zero => omega
  | succ fuel ih =>
    obtain ⟨k, rfl⟩ : ∃ k, more = k + 1 := ⟨more - 1, by omega⟩
    simp only [itemsWith]
    cases hc : c.cut xs with
    | none => rfl
    | some p =>
      have hlt := c.shrinks hc
      have htail : c.itemsWith fuel p.2 = c.itemsWith k p.2 := ih (by omega) (by omega)
      simp only [htail]

theorem remainderWith_eq {fuel more : Nat} {xs : List α} (h : xs.length < fuel)
    (h' : xs.length < more) : c.remainderWith fuel xs = c.remainderWith more xs := by
  induction fuel generalizing xs more with
  | zero => omega
  | succ fuel ih =>
    obtain ⟨k, rfl⟩ : ∃ k, more = k + 1 := ⟨more - 1, by omega⟩
    simp only [remainderWith]
    cases hc : c.cut xs with
    | none => rfl
    | some p =>
      have hlt := c.shrinks hc
      have htail : c.remainderWith fuel p.2 = c.remainderWith k p.2 := ih (by omega) (by omega)
      simp only [htail]

variable {c}

theorem items_of_none {xs : List α} (h : c.cut xs = none) : c.items xs = [] := by
  simp only [items, itemsWith, h]

theorem items_of_some {xs rest : List α} {b : β} (h : c.cut xs = some (b, rest)) :
    c.items xs = b :: c.items rest := by
  have hlt := c.shrinks h
  simp only [items, itemsWith, h]
  have hfuel : c.itemsWith xs.length rest = c.itemsWith (rest.length + 1) rest :=
    c.itemsWith_eq hlt (by omega)
  rw [hfuel]
  rfl

theorem remainder_of_none {xs : List α} (h : c.cut xs = none) : c.remainder xs = xs := by
  simp only [remainder, remainderWith, h]

theorem remainder_of_some {xs rest : List α} {b : β} (h : c.cut xs = some (b, rest)) :
    c.remainder xs = c.remainder rest := by
  have hlt := c.shrinks h
  simp only [remainder, remainderWith, h]
  have hfuel : c.remainderWith xs.length rest = c.remainderWith (rest.length + 1) rest :=
    c.remainderWith_eq hlt (by omega)
  rw [hfuel]
  rfl

/-- Induction along the cuts of a list. -/
theorem induction {motive : List α → Prop} (xs : List α)
    (stop : ∀ xs, c.cut xs = none → motive xs)
    (more : ∀ xs b rest, c.cut xs = some (b, rest) → motive rest → motive xs) : motive xs := by
  induction hn : xs.length using Nat.strongRecOn generalizing xs with
  | ind n ih =>
    cases hc : c.cut xs with
    | none => exact stop xs hc
    | some p =>
      have hlt := c.shrinks hc
      exact more xs p.1 p.2 hc (ih p.2.length (by omega) p.2 rfl)

/-- Nothing can be cut off what stands behind the last item. -/
theorem cut_remainder (xs : List α) : c.cut (c.remainder xs) = none := by
  induction xs using Cutter.induction (c := c) with
  | stop xs hc => rwa [remainder_of_none hc]
  | more xs b rest hc ih => rwa [remainder_of_some hc]

/-- Items that are cut off wherever they stand are the first items of a list that
begins with them, and the rest is cut as it is on its own. -/
theorem cut_flatMap_append {ι : Type*} {enc : ι → List α} {dec : ι → β}
    (h : ∀ i rest, c.cut (enc i ++ rest) = some (dec i, rest)) (is : List ι) (tail : List α) :
    c.items (is.flatMap enc ++ tail) = is.map dec ++ c.items tail ∧
      c.remainder (is.flatMap enc ++ tail) = c.remainder tail := by
  induction is with
  | nil => exact ⟨rfl, rfl⟩
  | cons i is ih =>
    have hcut := h i (is.flatMap enc ++ tail)
    rw [List.flatMap_cons, List.append_assoc, items_of_some hcut, remainder_of_some hcut, ih.1,
      ih.2]
    exact ⟨rfl, rfl⟩

/-- Where each item is written as the bytes that it was cut from, a list is its items and
its remainder. -/
theorem exists_eq_flatMap {ι : Type*} {enc : ι → List α}
    (h : ∀ {xs : List α} {b : β} {rest : List α}, c.cut xs = some (b, rest) →
      ∃ i, xs = enc i ++ rest) (xs : List α) :
    ∃ is : List ι, xs = is.flatMap enc ++ c.remainder xs := by
  induction xs using Cutter.induction (c := c) with
  | stop xs hc => exact ⟨[], by rw [remainder_of_none hc]; rfl⟩
  | more xs b rest hc ih =>
    obtain ⟨i, hi⟩ := h hc
    obtain ⟨is, his⟩ := ih
    refine ⟨i :: is, ?_⟩
    rw [remainder_of_some hc, List.flatMap_cons, List.append_assoc, ← his]
    exact hi

/-- Whether an item begins is decided by the item alone: what a prefix of a list begins
with, the list begins with. -/
def Local (c : Cutter α β) : Prop :=
  ∀ {ys xs : List α} {b : β} {rest : List α}, ys <+: xs → c.cut ys = some (b, rest) →
    ∃ rest', c.cut xs = some (b, rest') ∧ rest <+: rest'

/-- The items of a prefix are the first items of the list. -/
theorem Local.items_prefix (h : c.Local) {ys xs : List α} (hp : ys <+: xs) :
    c.items ys <+: c.items xs := by
  induction ys using Cutter.induction (c := c) generalizing xs with
  | stop ys hc =>
    rw [items_of_none hc]
    exact List.nil_prefix
  | more ys b rest hc ih =>
    obtain ⟨rest', hc', hrest⟩ := h hp hc
    rw [items_of_some hc, items_of_some hc']
    exact List.prefix_cons_inj b |>.mpr (ih hrest)

end Cutter
