import DdsPlayground.Ddsi.Correctness.Delivery

/-!
# Dropping what is stored

When the last reliable reader goes, the proxy writer drops everything that it has heard of.
-/

namespace DdsPlayground.Ddsi

open Intervals

variable {α : Type} {r : Reorder α} {maxp1 : Nat}

/-- `nn_reorder_drop_upto` on a valid admin of a reliable writer. -/
theorem nnReorderDropUpto_eq (hr : r.Valid) (hmode : r.mode = .normal) (gap : α)
    (hnext : r.nextSeq ≤ maxp1) (hends : ∀ iv ∈ r.sampleivtree, iv.maxp1 ≤ maxp1) :
    ∃ out, nnReorderDropUpto r gap maxp1 = some out ∧ out.reorder.sampleivtree = [] ∧
      out.reorder.nextSeq = maxp1 ∧ out.reorder.nSamples = 0 ∧ out.unref = r.stored := by
  obtain ⟨last, hlast, hmem⟩ := Reorder.exists_followMax hr
  have hassert : last.all fun max => max.maxp1 ≤ maxp1 := by
    rw [Option.all_eq_true]
    exact fun iv hiv => decide_eq_true (hends iv (hmem iv hiv))
  rw [nnReorderDropUpto, hlast, Option.bind_eq_bind, Option.bind_some, guard_bind hassert]
  rcases hnext.eq_or_lt with heq | hlt
  · -- nothing lies behind the next number
    have hnil : r.sampleivtree = [] := by
      refine List.eq_nil_iff_forall_not_mem.mpr fun iv hiv => ?_
      have hlo := hr.spaced.lt_min iv hiv
      have hvalid := Separated.kind hr.spaced iv hiv
      exact absurd (hends iv hiv) (not_le.mpr (heq ▸ hlo.trans hvalid.lt))
    have hgap : nnReorderGap r gap 1 maxp1 = some ⟨r, reorderTooOld, [], 0, []⟩ :=
      if_pos heq.ge
    rw [hgap, Option.bind_eq_bind, Option.bind_some]
    refine ⟨_, (guard_bind rfl _).trans (guard_bind heq.ge _), hnil, heq, ?_, ?_⟩
    · rw [hr.nSamples, Reorder.stored, hnil]
      rfl
    · rw [Reorder.stored, hnil]
      rfl
  · obtain ⟨front, rest, next, hgap, hsound, ht, hrest, hcases⟩ :=
      nnReorderGap_reached hr gap hmode hr.pos hlt
    have hnil : rest = [] := by
      refine List.eq_nil_iff_forall_not_mem.mpr fun iv hiv => ?_
      have hmem : iv ∈ r.sampleivtree := ht ▸ List.mem_append_right front hiv
      have hvalid := Separated.kind hr.spaced iv hmem
      exact absurd (hends iv hmem) (not_le.mpr ((hrest iv hiv).trans hvalid.lt))
    subst hnil
    have hstored : r.stored = chain front := by rw [Reorder.stored, ht, List.append_nil]
    have hnext' : next = maxp1 := by
      rcases hcases with heq | ⟨hle, iv, hiv, heq⟩
      · exact heq
      · exact Nat.le_antisymm (heq ▸ hends iv (ht ▸ List.mem_append_left [] hiv)) hle
    have hunref : (if ((chain front).length : Int) > 0 then chain front else []) = chain front := by
      split_ifs with hpos
      · rfl
      · refine (List.length_eq_zero_iff.mp ?_).symm
        omega
    rw [hgap, Option.bind_eq_bind, Option.bind_some]
    refine ⟨_, (guard_bind rfl _).trans (guard_bind hnext'.ge _), rfl, hnext', ?_, ?_⟩
    · change r.nSamples - (chain front).length = 0
      rw [hr.nSamples, hstored, Nat.sub_self]
    · rw [hstored]
      exact hunref

/-- In every run of a reliable admin in which all numbers lie in front of a bound, dropping up
to it gives up exactly what is stored, and goes on at the bound. -/
theorem dropUpto_empties {maxSamples : Nat} {lateAckMode : Bool} {arrivals : List (Arrival α)}
    {t : Trace α} (hbound : 1 ≤ maxp1) (harrivals : ∀ a ∈ arrivals, a.Admissible ∧ a.Below maxp1)
    (h : (Trace.init .normal maxSamples lateAckMode).run arrivals = some t) (gap : α) :
    ∃ out, nnReorderDropUpto t.reorder gap maxp1 = some out ∧ out.reorder.sampleivtree = [] ∧
      out.reorder.nextSeq = maxp1 ∧ out.reorder.nSamples = 0 ∧
      (t.delivered ++ (out.unref ++ t.evicted)).Perm t.accepted := by
  obtain ⟨ht, hmode, -⟩ := Trace.sound_of_run (by decide) (fun a ha => (harrivals a ha).1) h
  have hheld := Trace.bounded_of_run (by decide) hbound harrivals h
  have hpos := ht.valid.pos
  have hnext : t.reorder.nextSeq - 1 < maxp1 := hheld _ (.inl (by omega))
  have hends : ∀ iv ∈ t.reorder.sampleivtree, iv.maxp1 ≤ maxp1 := by
    intro iv hiv
    have hlt := (Separated.kind ht.valid.spaced iv hiv).lt
    have hlast := hheld (iv.maxp1 - 1) (.inr ⟨iv, hiv, by omega, by omega⟩)
    omega
  obtain ⟨out, heq, hnil, hend, hzero, hunref⟩ :=
    nnReorderDropUpto_eq ht.valid hmode gap (by omega) hends
  exact ⟨out, heq, hnil, hend, hzero, hunref ▸ ht.conserved⟩

/-- A reader goes that the sample 1 has not reached. -/
theorem dropUpto_empties_waiting :
    ∃ t ∈ (Trace.init .normal 4 false).run [.sample ⟨2, 1⟩ 'b' false, .gap 'g' 4 6],
      ∃ out, nnReorderDropUpto t.reorder 'g' 6 = some out ∧ out.reorder.sampleivtree = [] ∧
        out.reorder.nextSeq = 6 ∧ out.reorder.nSamples = 0 ∧
        (t.delivered ++ (out.unref ++ t.evicted)).Perm t.accepted := by
  have hrun : ∃ t, (Trace.init .normal 4 false).run [.sample ⟨2, 1⟩ 'b' false, .gap 'g' 4 6] =
      some t := ⟨_, rfl⟩
  obtain ⟨t, ht⟩ := hrun
  exact ⟨t, ht, dropUpto_empties (by decide) (by decide) ht 'g'⟩

end DdsPlayground.Ddsi
