import DdsPlayground.Ddsi.Semantics.Receiving
import Mathlib.Data.List.Nodup
import Mathlib.Data.List.Sort

/-!
# Delivery in order

What the readers behind a reorder admin get, whatever order the network brings samples and
gaps in: no assertion fails, the numbers go up, nothing gets lost on the way but by eviction,
and without gaps the delivered samples are a prefix of what the writer wrote.
-/

namespace DdsPlayground.Ddsi

open Intervals

variable {α : Type} {mode : ReorderMode} {maxSamples : Nat} {lateAckMode : Bool}
  {arrivals : List (Arrival α)} {t : Trace α}

/-! ## Assertions -/

theorem Trace.exists_step {a : Arrival α} (ht : t.Sound) (hbound : t.Bounded 2147483648)
    (ha : a.Admissible) (hbelow : a.Below 2147483648) :
    ∃ t', t.step a = some t' ∧ t'.Sound ∧ t'.Bounded 2147483648 := by
  obtain ⟨out, hsound, hout | ⟨-, hspan⟩⟩ := Arrival.call_returns ht.valid ht.mode ha
  · exact ⟨t.after a out, Option.map_eq_some_iff.mpr ⟨out, hout, rfl⟩, ht.after hsound,
      hbound.after hbelow hsound⟩
  · -- a longer delivery would reach a number beyond the bound
    have hpos := ht.valid.pos
    have hlt : out.reorder.nextSeq - 1 < 2147483648 :=
      hbound.after hbelow hsound _ (.inl (Nat.sub_one_lt_of_lt (m := 0) (by omega)))
    rw [int32Max] at hspan
    omega

/-- While the sequence numbers fit in 31 bits, no assertion of the admin fails and it follows
no null pointer, whatever arrives and in whatever order. -/
theorem reorder_total (hmode : mode ≠ .alwaysDeliver) (maxSamples : Nat) (lateAckMode : Bool)
    (harrivals : ∀ a ∈ arrivals, a.Admissible ∧ a.Below 2147483648) :
    ∃ t, (Trace.init mode maxSamples lateAckMode).run arrivals = some t ∧
      t.reorder.Consistent := by
  obtain ⟨t, hrun, ht, -⟩ := History.exists_run
    (P := fun t : Trace α => t.Sound ∧ t.Bounded 2147483648)
    (A := fun a : Arrival α => a.Admissible ∧ a.Below 2147483648)
    (fun t a ht ha => Trace.exists_step ht.1 ht.2 ha.1 ha.2)
    ⟨Trace.sound_init hmode maxSamples lateAckMode, Trace.bounded_init (by decide)⟩ harrivals
  exact ⟨t, hrun, ht.valid.consistent⟩

/-- Five samples and a gap in some order, for an admin with room for two. -/
theorem reorder_total_reordered :
    ∃ t, (Trace.init .normal 2 false).run [.sample ⟨3, 1⟩ 'c' false, .sample ⟨2, 1⟩ 'b' false,
      .gap 'g' 5 7, .sample ⟨3, 1⟩ 'd' false, .sample ⟨1, 1⟩ 'a' false] = some t ∧
      t.reorder.Consistent :=
  reorder_total (by decide) 2 false (by decide)

/-! ## Order -/

/-- The numbers of what a run delivers go up, lie between the first and the next number, and
are numbers of samples that the admin has taken. -/
theorem delivered_increasing (hmode : mode ≠ .alwaysDeliver)
    (harrivals : ∀ a ∈ arrivals, a.Admissible)
    (h : (Trace.init mode maxSamples lateAckMode).run arrivals = some t) :
    (t.delivered.filterMap ChainElem.seq?).Pairwise (· < ·) ∧
      ∀ e ∈ t.delivered, e ∈ t.accepted ∧
        ∀ n, e.seq? = some n → 1 ≤ n ∧ n < t.reorder.nextSeq := by
  obtain ⟨ht, -⟩ := Trace.sound_of_run hmode harrivals h
  refine ⟨ht.fits.increasing, fun e he => ⟨?_, fun n hn => ht.fits.bounds he hn⟩⟩
  exact ht.conserved.mem_iff.mp (List.mem_append_left _ he)

/-- A run of an unreliable writer that loses the second sample. -/
theorem delivered_increasing_unreliable :
    ∃ t ∈ (Trace.init .monotonicallyIncreasing 4 false).run [.sample ⟨1, 1⟩ 'a' false,
        .sample ⟨3, 1⟩ 'c' false, .sample ⟨2, 1⟩ 'b' false],
      (t.delivered.filterMap ChainElem.seq?).Pairwise (· < ·) ∧
        ∀ e ∈ t.delivered, e ∈ t.accepted ∧
          ∀ n, e.seq? = some n → 1 ≤ n ∧ n < t.reorder.nextSeq := by
  have hrun : ∃ t, (Trace.init .monotonicallyIncreasing 4 false).run [.sample ⟨1, 1⟩ 'a' false,
      .sample ⟨3, 1⟩ 'c' false, .sample ⟨2, 1⟩ 'b' false] = some t := ⟨_, rfl⟩
  obtain ⟨t, ht⟩ := hrun
  exact ⟨t, ht, delivered_increasing (by decide) (by decide) ht⟩

/-! ## Conservation -/

/-- Every element that the admin has taken is delivered, stored or given up, and nothing else
is, with nothing twice; and never more is stored than there may be. -/
theorem accepted_conserved (hmode : mode ≠ .alwaysDeliver)
    (harrivals : ∀ a ∈ arrivals, a.Admissible)
    (h : (Trace.init mode maxSamples lateAckMode).run arrivals = some t) :
    (t.delivered ++ (t.reorder.stored ++ t.evicted)).Perm t.accepted ∧
      t.reorder.nSamples = t.reorder.stored.length ∧ t.reorder.stored.length ≤ maxSamples := by
  obtain ⟨ht, -, hmax⟩ := Trace.sound_of_run hmode harrivals h
  exact ⟨ht.conserved, ht.valid.nSamples, hmax ▸ ht.valid.nSamples ▸ ht.valid.le⟩

/-- Three samples ahead of the next one, for an admin with room for two. -/
theorem accepted_conserved_full :
    ∃ t ∈ (Trace.init .normal 2 false).run [.sample ⟨5, 1⟩ 'e' false, .sample ⟨6, 1⟩ 'f' false,
        .sample ⟨3, 1⟩ 'c' false],
      (t.delivered ++ (t.reorder.stored ++ t.evicted)).Perm t.accepted ∧
        t.reorder.nSamples = t.reorder.stored.length ∧ t.reorder.stored.length ≤ 2 := by
  have hrun : ∃ t, (Trace.init .normal 2 false).run [.sample ⟨5, 1⟩ 'e' false,
      .sample ⟨6, 1⟩ 'f' false, .sample ⟨3, 1⟩ 'c' false] = some t := ⟨_, rfl⟩
  obtain ⟨t, ht⟩ := hrun
  exact ⟨t, ht, accepted_conserved (by decide) (by decide) ht⟩

/-! ## What is not waited for -/

theorem wantsample_eq_false {r : Reorder α} (hr : r.Valid) (n : Nat) :
    nnReorderWantsample r n = false ↔ r.Held n := by
  rw [nnReorderWantsample, Reorder.Held, Reorder.covers_iff hr.spaced]
  by_cases hn : n < r.nextSeq
  · rw [if_pos hn]
    exact iff_of_true rfl (.inl hn)
  · rw [if_neg hn, or_iff_right hn]
    cases hpred : r.lookupPredEq n with
    | none => simp
    | some iv =>
      have hmin : iv.min ≤ n := hr.spaced.sorted.key_le_of_lookupPredEq hpred
      simp [hmin]

/-- A number that is not waited for has been delivered, is stored, has been declared
unavailable, or is that of a sample that was given up. -/
theorem no_silent_loss (harrivals : ∀ a ∈ arrivals, a.Admissible)
    (h : (Trace.init .normal maxSamples lateAckMode).run arrivals = some t) {n : Nat} (hn : 1 ≤ n)
    (hwant : nnReorderWantsample t.reorder n = false) :
    InRanges t.declared n ∨
      ∃ e ∈ t.delivered ++ (t.reorder.stored ++ t.evicted), e.seq? = some n := by
  obtain ⟨ht, hmode, -⟩ := Trace.sound_of_run (by decide) harrivals h
  rcases ht.held hmode n hn ((wantsample_eq_false ht.valid n).mp hwant) with hn | ⟨e, he, hseq⟩
  · exact .inl hn
  · exact .inr ⟨e, ht.conserved.mem_iff.mpr he, hseq⟩

/-- The last case is real: a gap joins the interval of the samples 5 and 6, and when the admin
is full the sample 6 is given up, but its number stays in the interval that is left. -/
theorem no_silent_loss_stranded :
    ∃ t ∈ (Trace.init .normal 2 false).run [.sample ⟨5, 1⟩ 'e' false, .sample ⟨6, 1⟩ 'f' false,
        .gap 'g' 7 10, .sample ⟨3, 1⟩ 'c' false],
      (∀ e ∈ t.delivered ++ t.reorder.stored, e.seq? ≠ some 6) ∧
        (InRanges t.declared 6 ∨
          ∃ e ∈ t.delivered ++ (t.reorder.stored ++ t.evicted), e.seq? = some 6) := by
  have hrun : ∃ t ∈ (Trace.init .normal 2 false).run [.sample ⟨5, 1⟩ 'e' false,
      .sample ⟨6, 1⟩ 'f' false, .gap 'g' 7 10, .sample ⟨3, 1⟩ 'c' false],
      nnReorderWantsample t.reorder 6 = false ∧
        ∀ e ∈ t.delivered ++ t.reorder.stored, e.seq? ≠ some 6 := by decide
  obtain ⟨t, ht, hwant, hgone⟩ := hrun
  exact ⟨t, ht, hgone, no_silent_loss (by decide) ht (by decide) hwant⟩

/-! ## Without gaps -/

theorem Trace.Sound.mem_delivered (ht : t.Sound) (hmode : t.reorder.mode = .normal)
    (hgaps : t.declared = []) {n : Nat} :
    n ∈ t.delivered.filterMap ChainElem.seq? ↔ 1 ≤ n ∧ n < t.reorder.nextSeq := by
  constructor
  · intro hn
    obtain ⟨e, he, hseq⟩ := List.mem_filterMap.mp hn
    exact ht.fits.bounds he hseq
  · rintro ⟨hn, hlt⟩
    obtain ⟨e, he, hseq⟩ := ht.present hmode hgaps n hn (.inl hlt)
    rcases List.mem_append.mp he with he | he
    · exact List.mem_filterMap.mpr ⟨e, he, hseq⟩
    · exact absurd hlt (not_lt.mpr (ht.valid.spaced.fits.bounds he hseq).1)

theorem covers_of_stored {r : Reorder α} (hr : r.Valid) {e : ChainElem α} {n : Nat}
    (he : e ∈ r.stored) (hn : e.seq? = some n) : r.Covers n := by
  obtain ⟨iv, hiv, he⟩ := List.mem_flatMap.mp he
  exact ⟨iv, hiv, (Separated.kind hr.spaced iv hiv).fits.bounds he hn⟩

/-- A run that has been told of no gap delivers a prefix of the samples of the writer, each
once and in order, and waits exactly for the numbers whose samples it does not have. -/
theorem delivered_prefix (harrivals : ∀ a ∈ arrivals, a.Admissible)
    (h : (Trace.init .normal maxSamples lateAckMode).run arrivals = some t)
    (hgaps : t.declared = []) :
    t.delivered.filterMap ChainElem.seq? = List.range' 1 (t.reorder.nextSeq - 1) ∧
      ∀ n, 1 ≤ n → (nnReorderWantsample t.reorder n = false ↔
        ∃ e ∈ t.delivered ++ t.reorder.stored, e.seq? = some n) := by
  obtain ⟨ht, hmode, -⟩ := Trace.sound_of_run (by decide) harrivals h
  have hpos := ht.valid.pos
  constructor
  · refine ht.fits.increasing.eq_of_mem_iff List.pairwise_lt_range' fun n => ?_
    rw [ht.mem_delivered hmode hgaps, List.mem_range'_1]
    omega
  · intro n hn
    rw [wantsample_eq_false ht.valid]
    refine ⟨ht.present hmode hgaps n hn, ?_⟩
    rintro ⟨e, he, hseq⟩
    rcases List.mem_append.mp he with he | he
    · exact .inl (ht.fits.bounds he hseq).2
    · exact .inr (covers_of_stored ht.valid he hseq)

/-- Four samples, the second one last, for an admin with room for one. -/
theorem delivered_prefix_late :
    ∃ t ∈ (Trace.init .normal 1 false).run [.sample ⟨1, 1⟩ 'a' false, .sample ⟨4, 1⟩ 'd' false,
        .sample ⟨3, 1⟩ 'c' false, .sample ⟨2, 1⟩ 'b' false],
      t.delivered.filterMap ChainElem.seq? = List.range' 1 (t.reorder.nextSeq - 1) ∧
        ∀ n, 1 ≤ n → (nnReorderWantsample t.reorder n = false ↔
          ∃ e ∈ t.delivered ++ t.reorder.stored, e.seq? = some n) := by
  have hrun : ∃ t, (Trace.init .normal 1 false).run [.sample ⟨1, 1⟩ 'a' false,
      .sample ⟨4, 1⟩ 'd' false, .sample ⟨3, 1⟩ 'c' false, .sample ⟨2, 1⟩ 'b' false] = some t ∧
      t.declared = [] := ⟨_, rfl, rfl⟩
  obtain ⟨t, ht, hgaps⟩ := hrun
  exact ⟨t, ht, delivered_prefix (by decide) ht hgaps⟩

end DdsPlayground.Ddsi
