import DdsPlayground.Ddsi.Correctness.Delivery

/-!
# Retransmission

However often samples are lost, given up or come in the wrong order: once the first numbers
have each arrived behind the one in front of them, with room in the delivery queue, they are
behind the admin.
-/

namespace DdsPlayground.Ddsi

open Intervals

variable {α : Type} {maxSamples : Nat} {lateAckMode : Bool} {arrivals : List (Arrival α)}
  {t t' : Trace α}

/-- The number of a sample that arrives while there is room in the delivery queue. -/
def Arrival.offers : Arrival α → Option Nat
  | .sample info _ false => some info.seq
  | _ => none

/-- The next sample moves the next number behind it. -/
theorem nextSeq_of_next {r : Reorder α} (hr : r.Valid) {info : SampleInfo} {fragchain : α}
    (hseq : info.seq = r.nextSeq) {out : Outcome α}
    (h : nnReorderRsample r (Interval.ofSample info fragchain) false = some out) :
    info.seq < out.reorder.nextSeq := by
  have hsingle : rsampleIsSingleton (Interval.ofSample info fragchain) :=
    ⟨Nat.lt_succ_self _, rfl, rfl, rfl⟩
  have hdeliver : (Interval.ofSample info fragchain).min = r.nextSeq ∨
      ((Interval.ofSample info fragchain).min > r.nextSeq ∧
        r.mode = .monotonicallyIncreasing) ∨ r.mode = .alwaysDeliver := .inl hseq
  rw [nnReorderRsample, guard_bind hsingle, guard_bind hr.consistent, if_pos hdeliver,
    if_neg Bool.false_ne_true] at h
  obtain ⟨front, rest, -, -, hfits, -, heq⟩ :=
    Reorder.deliver_eq hr info fragchain fun iv hiv => hseq ▸ hr.spaced.lt_min iv hiv
  rw [heq] at h
  split_ifs at h
  obtain rfl := Option.some.inj h
  exact (Nat.le_add_right _ _).trans hfits.length_le

theorem Trace.Sound.step_nextSeq (ht : t.Sound) {a : Arrival α} (ha : a.Admissible)
    (h : t.step a = some t') :
    t'.Sound ∧ t'.reorder.mode = t.reorder.mode ∧ t.reorder.nextSeq ≤ t'.reorder.nextSeq ∧
      ∀ n, a.offers = some n → n ≤ t.reorder.nextSeq → n < t'.reorder.nextSeq := by
  obtain ⟨res, hres, rfl⟩ := Option.map_eq_some_iff.mp h
  obtain ⟨out, hsound, hout | ⟨hout, -⟩⟩ := Arrival.call_returns ht.valid ht.mode ha
  · obtain rfl := Option.some.inj (hres.symm.trans hout)
    refine ⟨ht.after hsound, hsound.mode, hsound.next, fun n hn hle => ?_⟩
    rcases hle.lt_or_eq with hlt | heq
    · exact hlt.trans_le hsound.next
    · cases a with
      | gap => cases hn
      | sample info fragchain full =>
        cases full with
        | true => cases hn
        | false =>
          obtain rfl := Option.some.inj hn
          exact nextSeq_of_next ht.valid heq hres
  · exact absurd (hres.symm.trans hout) (Option.some_ne_none res)

/-- A run over arrivals among which some numbers from the next one on follow each other moves
the next number behind them. -/
theorem Trace.Sound.run_nextSeq (ht : t.Sound) (harrivals : ∀ a ∈ arrivals, a.Admissible)
    (h : t.run arrivals = some t') {first n : Nat} (hfirst : first ≤ t.reorder.nextSeq)
    (hsub : (List.range' first n).Sublist (arrivals.filterMap Arrival.offers)) :
    first + n ≤ t'.reorder.nextSeq := by
  induction arrivals generalizing t first n with
  | nil =>
    obtain rfl := Option.some.inj h
    have hn := List.length_eq_zero_iff.mpr (List.sublist_nil.mp hsub)
    rw [List.length_range'] at hn
    omega
  | cons a arrivals ih =>
    obtain ⟨ha, harrivals⟩ := List.forall_mem_cons.mp harrivals
    obtain ⟨t₁, hstep, hrun⟩ := Option.bind_eq_some_iff.mp h
    obtain ⟨ht₁, -, hnext, hoffers⟩ := ht.step_nextSeq ha hstep
    rw [List.filterMap_cons] at hsub
    cases hoffer : a.offers with
    | none =>
      rw [hoffer] at hsub
      exact ih ht₁ harrivals hrun (hfirst.trans hnext) hsub
    | some m =>
      rw [hoffer] at hsub
      rcases List.sublist_cons_iff.mp hsub with hsub | ⟨rest, hrange, hsub⟩
      · exact ih ht₁ harrivals hrun (hfirst.trans hnext) hsub
      · -- the first of the numbers is offered now
        cases n with
        | zero => cases hrange
        | succ n =>
          rw [List.range'_succ] at hrange
          obtain ⟨rfl, rfl⟩ := List.cons.inj hrange
          have hlt := hoffers first hoffer hfirst
          have hle := ih ht₁ harrivals hrun hlt hsub
          omega

/-- Once the samples `1` to `n` have been offered in this order, whatever else arrived between
them, each of them is delivered, or its number was declared unavailable or had its sample
given up. -/
theorem delivered_of_offered (harrivals : ∀ a ∈ arrivals, a.Admissible)
    (h : (Trace.init .normal maxSamples lateAckMode).run arrivals = some t) {n : Nat}
    (hsub : (List.range' 1 n).Sublist (arrivals.filterMap Arrival.offers)) :
    n < t.reorder.nextSeq ∧
      ∀ k, 1 ≤ k → k ≤ n → InRanges t.declared k ∨
        ∃ e ∈ t.delivered ++ t.evicted, e.seq? = some k := by
  obtain ⟨ht, hmode, -⟩ := Trace.sound_of_run (by decide) harrivals h
  have hinit : (Trace.init .normal maxSamples lateAckMode : Trace α).Sound :=
    Trace.sound_init (by decide) maxSamples lateAckMode
  have hnext : 1 + n ≤ t.reorder.nextSeq := hinit.run_nextSeq harrivals h le_rfl hsub
  refine ⟨by omega, fun k hk hkn => ?_⟩
  have hlt : k < t.reorder.nextSeq := by omega
  rcases ht.held hmode k hk (.inl hlt) with hk | ⟨e, he, hseq⟩
  · exact .inl hk
  · refine .inr ⟨e, ?_, hseq⟩
    rcases List.mem_append.mp (ht.conserved.mem_iff.mpr he) with he | he
    · exact List.mem_append_left _ he
    rcases List.mem_append.mp he with he | he
    · exact absurd hlt (not_lt.mpr (ht.valid.spaced.fits.bounds he hseq).1)
    · exact List.mem_append_right _ he

/-- Three samples that come backwards, and again, for an admin without room. -/
theorem delivered_of_offered_backwards :
    ∃ t ∈ (Trace.init .normal 0 false).run [.sample ⟨3, 1⟩ 'c' false, .sample ⟨2, 1⟩ 'b' false,
        .sample ⟨1, 1⟩ 'a' false, .sample ⟨3, 1⟩ 'c' false, .sample ⟨2, 1⟩ 'b' false,
        .sample ⟨3, 1⟩ 'c' false],
      3 < t.reorder.nextSeq ∧ ∀ k, 1 ≤ k → k ≤ 3 → InRanges t.declared k ∨
        ∃ e ∈ t.delivered ++ t.evicted, e.seq? = some k := by
  have hrun : ∃ t, (Trace.init .normal 0 false).run [.sample ⟨3, 1⟩ 'c' false,
      .sample ⟨2, 1⟩ 'b' false, .sample ⟨1, 1⟩ 'a' false, .sample ⟨3, 1⟩ 'c' false,
      .sample ⟨2, 1⟩ 'b' false, .sample ⟨3, 1⟩ 'c' false] = some t := ⟨_, rfl⟩
  obtain ⟨t, ht⟩ := hrun
  exact ⟨t, ht, delivered_of_offered (by decide) ht (by decide)⟩

end DdsPlayground.Ddsi
