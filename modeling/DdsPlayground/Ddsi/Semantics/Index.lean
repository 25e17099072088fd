import DdsPlayground.Core.Intervals
import DdsPlayground.Ddsi.Native.Reorder
import Mathlib.Data.Option.Basic

/-!
# What the reorder admin holds

The intervals of a valid admin are separated, lie behind the next number to deliver, and
each has its samples at places of their numbers. The operations on the tree are described
by where they split it.
-/

namespace DdsPlayground.Ddsi

open Intervals

variable {α : Type}

/-- An assertion that holds goes on. -/
theorem guard_bind {β : Type} {p : Prop} [Decidable p] (h : p) (f : Unit → Option β) :
    ((guard p : Option Unit) >>= f) = f () := by
  have hguard : (guard p : Option Unit) = some () := if_pos h
  rw [hguard]
  rfl

/-- An assertion that does not hold fails. -/
theorem guard_fail {β : Type} {p : Prop} [Decidable p] (h : ¬ p) (f : Unit → Option β) :
    ((guard p : Option Unit) >>= f) = none := by
  have hguard : (guard p : Option Unit) = none := if_neg h
  rw [hguard]
  rfl

/-! ## Valid states -/

/-- The sequence number of an element that is a sample. -/
def ChainElem.seq? (e : ChainElem α) : Option Nat := e.sampleinfo.map (·.seq)

/-- The chain of an interval has an element, its length is noted, and it fits inside. -/
structure Interval.Valid (iv : Interval α) : Prop where
  fits : Fits ChainElem.seq? iv.sc iv.min iv.maxp1
  nonempty : iv.sc ≠ []
  nSamples : iv.nSamples = iv.sc.length

theorem Interval.Valid.length_le {iv : Interval α} (h : iv.Valid) :
    iv.min + iv.nSamples ≤ iv.maxp1 := h.nSamples ▸ h.fits.length_le

theorem Interval.Valid.lt {iv : Interval α} (h : iv.Valid) : iv.min < iv.maxp1 := by
  have hlen := h.fits.length_le
  have hpos := List.length_pos_iff.mpr h.nonempty
  omega

theorem Interval.valid_ofSample (info : SampleInfo) (fragchain : α) :
    (Interval.ofSample info fragchain).Valid :=
  ⟨fits_singleton rfl, List.cons_ne_nil _ _, rfl⟩

theorem Interval.Valid.append {a b : Interval α} (ha : a.Valid) (hb : b.Valid)
    (h : a.maxp1 ≤ b.min) : (appendRsampleInterval a b).Valid := by
  refine ⟨(ha.fits.mono le_rfl h).append hb.fits, ?_, ?_⟩
  · exact List.append_ne_nil_of_left_ne_nil ha.nonempty b.sc
  · rw [appendRsampleInterval, ha.nSamples, hb.nSamples, List.length_append]

/-- Valid intervals, separated, behind a number. -/
abbrev Spaced (n : Nat) (t : List (Interval α)) : Prop :=
  Separated Interval.min Interval.maxp1 Interval.Valid n t

/-- The end of the last interval. -/
abbrev endOf (n : Nat) (t : List (Interval α)) : Nat := stop Interval.maxp1 n t

theorem Spaced.sorted {n : Nat} {t : List (Interval α)} (h : Spaced n t) :
    KeyedTree.Sorted Interval.min t := Separated.sorted (fun _ hi => hi.lt) h

theorem Spaced.lt_min {n : Nat} {t : List (Interval α)} (h : Spaced n t) :
    ∀ iv ∈ t, n < iv.min := Separated.lt_lo (fun _ hi => hi.lt) h

/-- A number in one of some intervals. -/
def CoversIn (t : List (Interval α)) (n : Nat) : Prop := ∃ iv ∈ t, iv.min ≤ n ∧ n < iv.maxp1

instance (t : List (Interval α)) (n : Nat) : Decidable (CoversIn t n) :=
  inferInstanceAs (Decidable (∃ iv ∈ t, _))

theorem coversIn_append {t u : List (Interval α)} {n : Nat} :
    CoversIn (t ++ u) n ↔ CoversIn t n ∨ CoversIn u n := by
  simp only [CoversIn, List.mem_append, or_and_right, exists_or]

/-- The samples of some intervals. -/
def chain (t : List (Interval α)) : List (ChainElem α) := t.flatMap (·.sc)

theorem chain_append (t u : List (Interval α)) : chain (t ++ u) = chain t ++ chain u :=
  List.flatMap_append

theorem chain_cons (iv : Interval α) (t : List (Interval α)) :
    chain (iv :: t) = iv.sc ++ chain t := List.flatMap_cons

theorem chain_singleton (iv : Interval α) : chain [iv] = iv.sc := List.append_nil iv.sc

theorem Spaced.fits {n : Nat} {t : List (Interval α)} (h : Spaced n t) :
    Fits ChainElem.seq? (chain t) n (endOf n t) :=
  Separated.fits (fun _ hi => hi.fits) h

namespace Reorder

/-- The samples in the admin, in order. -/
def stored (r : Reorder α) : List (ChainElem α) := chain r.sampleivtree

/-- A number in one of the intervals. -/
def Covers (r : Reorder α) (n : Nat) : Prop := CoversIn r.sampleivtree n

instance (r : Reorder α) (n : Nat) : Decidable (r.Covers n) :=
  inferInstanceAs (Decidable (CoversIn r.sampleivtree n))

/-- A number that the admin does not wait for any more. -/
def Held (r : Reorder α) (n : Nat) : Prop := n < r.nextSeq ∨ r.Covers n

/-- The invariant of the admin. -/
structure Valid (r : Reorder α) : Prop where
  spaced : Spaced r.nextSeq r.sampleivtree
  max : r.maxSampleiv = r.findMax.map (·.min)
  nSamples : r.nSamples = r.stored.length
  le : r.nSamples ≤ r.maxSamples
  /-- Only in normal mode anything is stored. -/
  mode : r.mode ≠ .normal → r.sampleivtree = []
  pos : 1 ≤ r.nextSeq

theorem Valid.consistent {r : Reorder α} (h : r.Valid) : r.Consistent := by
  refine ⟨?_, h.max, h.le⟩
  intro iv hiv
  exact h.spaced.lt_min iv (List.mem_of_mem_head? hiv)

/-! ## Operations at a split of the tree -/

variable {r : Reorder α} {before after : List (Interval α)} {x : Interval α}

theorem lookup_of_split (hs : KeyedTree.Sorted Interval.min r.sampleivtree)
    (ht : r.sampleivtree = before ++ x :: after) : r.lookup x.min = some x := by
  rw [ht] at hs
  rw [lookup, ht, hs.lookup_middle]

theorem delete_of_split (hs : KeyedTree.Sorted Interval.min r.sampleivtree)
    (ht : r.sampleivtree = before ++ x :: after) :
    r.delete x = { r with sampleivtree := before ++ after } := by
  rw [ht] at hs
  rw [delete, ht, hs.delete_middle]

theorem assign_of_split (hs : KeyedTree.Sorted Interval.min r.sampleivtree)
    (ht : r.sampleivtree = before ++ x :: after) (y : Interval α) :
    r.assign x.min y = { r with sampleivtree := before ++ y :: after } := by
  rw [ht] at hs
  rw [assign, ht, hs.swapNode_middle]

theorem addRsampleiv_of_split (ht : r.sampleivtree = before ++ after)
    (hbefore : ∀ iv ∈ before, iv.min < x.min) (hafter : ∀ iv ∈ after, x.min < iv.min) :
    r.addRsampleiv x = some { r with sampleivtree := before ++ x :: after } := by
  have hnone : (r.lookup x.min).isNone := by
    rw [Option.isNone_iff_eq_none, lookup, ht]
    refine List.find?_eq_none.mpr ?_
    intro iv hiv
    rw [decide_eq_true_eq]
    rcases List.mem_append.mp hiv with hiv | hiv
    · exact (hbefore iv hiv).ne
    · exact (hafter iv hiv).ne'
  rw [addRsampleiv, guard_bind hnone, ht,
    KeyedTree.insert_middle hbefore fun iv hiv => (hafter iv hiv).le]
  rfl

/-- An interval knows a number if the last one up to the number does. -/
theorem covers_iff {n seq : Nat} (hs : Spaced n r.sampleivtree) :
    r.Covers seq ↔ ∃ iv ∈ r.lookupPredEq seq, iv.min ≤ seq ∧ seq < iv.maxp1 := by
  rcases hs.sorted.lookupPredEq_cases seq with
    ⟨hpred, hall⟩ | ⟨before, p, after, hpred, ht, hp, hall⟩
  · rw [lookupPredEq, hpred]
    constructor
    · rintro ⟨iv, hiv, hle, -⟩
      exact absurd hle (not_le.mpr (hall iv hiv))
    · rintro ⟨iv, hiv, -⟩
      cases hiv
  · rw [lookupPredEq, hpred]
    constructor
    · rintro ⟨iv, hiv, hle, hlt⟩
      rw [ht] at hs hiv
      rcases List.mem_append.mp hiv with hiv | hiv
      · have hend := Separated.hi_lt (fun _ hi => hi.lt) hs iv hiv
        exact absurd ((hlt.trans hend).trans_le hp) (lt_irrefl seq)
      · rcases List.mem_cons.mp hiv with rfl | hiv
        · exact ⟨iv, rfl, hle, hlt⟩
        · exact absurd hle (not_le.mpr (hall iv hiv))
    · rintro ⟨iv, hiv, hin⟩
      rcases Option.some.inj hiv with rfl
      exact ⟨p, ht ▸ List.mem_append_right _ List.mem_cons_self, hin⟩

theorem findMax_append (h : r.sampleivtree = before ++ [x]) : r.findMax = some x := by
  rw [findMax, h, List.getLast?_append, List.getLast?_singleton, Option.some_or]

end Reorder

end DdsPlayground.Ddsi
