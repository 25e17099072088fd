import DdsPlayground.Core.History
import DdsPlayground.Ddsi.Semantics.Gaps
import Mathlib.Algebra.Order.Group.Multiset
import Mathlib.Tactic.Abel

/-!
# Receiving from a writer

A run of the reorder admin of a proxy writer over what arrives from the writer, with what
has been delivered, taken and given up on the way. One call keeps the account, whatever it
is; a run keeps it by induction.
-/

namespace DdsPlayground.Ddsi

open Intervals

/-- What arrives: a complete sample, or a gap, by itself or from a heartbeat. -/
inductive Arrival (α : Type) where
  | sample (info : SampleInfo) (fragchain : α) (deliveryQueueFull : Bool)
  | gap (rdata : α) (min maxp1 : Nat)
  deriving DecidableEq, Repr

variable {α : Type}

namespace Arrival

/-- The call that is made for it. -/
def call (r : Reorder α) : Arrival α → Option (Outcome α)
  | sample info fragchain full => nnReorderRsample r (Interval.ofSample info fragchain) full
  | gap rdata min maxp1 => nnReorderGap r rdata min maxp1

/-- The element that the admin may take. -/
def offered : Arrival α → List (ChainElem α)
  | sample info fragchain _ => [⟨fragchain, some info⟩]
  | gap rdata _ _ => [⟨rdata, none⟩]

/-- The numbers that it declares unavailable. -/
def ranges : Arrival α → List (Nat × Nat)
  | sample .. => []
  | gap _ min maxp1 => [(min, maxp1)]

/-- The callers skip empty gaps, and the gap of a heartbeat begins at the first number. -/
def Admissible : Arrival α → Prop
  | sample .. => True
  | gap _ min maxp1 => min < maxp1 ∨ maxp1 ≤ 1

instance : DecidablePred (Admissible (α := α))
  | sample .. => inferInstanceAs (Decidable True)
  | gap .. => inferInstanceAs (Decidable (_ ∨ _))

/-- Its numbers are below a bound. -/
def Below (bound : Nat) : Arrival α → Prop
  | sample info _ _ => info.seq < bound
  | gap _ _ maxp1 => maxp1 ≤ bound

instance (bound : Nat) : DecidablePred (Below (α := α) bound)
  | sample .. => inferInstanceAs (Decidable (_ < _))
  | gap .. => inferInstanceAs (Decidable (_ ≤ _))

end Arrival

/-- Some ranges contain a number. -/
def InRanges (ranges : List (Nat × Nat)) (n : Nat) : Prop := ∃ p ∈ ranges, p.1 ≤ n ∧ n < p.2

/-- What arrives does to a valid admin what an outcome says, or fails for the length of what
it would deliver. -/
theorem Arrival.call_returns {r : Reorder α} (hr : r.Valid) (hmode : r.mode ≠ .alwaysDeliver)
    {a : Arrival α} (ha : a.Admissible) :
    Outcome.Returns r a.offered (InRanges a.ranges) (a.call r) := by
  cases a with
  | sample info fragchain full =>
    have hnone : InRanges (Arrival.sample info fragchain full).ranges = fun _ => False := by
      funext n
      exact eq_false fun ⟨_, hp, _⟩ => absurd hp List.not_mem_nil
    rw [hnone]
    exact nnReorderRsample_returns hr hmode info fragchain full
  | gap rdata min maxp1 =>
    have hone : InRanges (Arrival.gap rdata min maxp1).ranges = fun n => min ≤ n ∧ n < maxp1 := by
      funext n
      refine propext ⟨?_, fun h => ⟨(min, maxp1), List.mem_singleton_self _, h⟩⟩
      rintro ⟨p, hp, hn⟩
      rcases List.mem_singleton.mp hp with rfl
      exact hn
    rw [hone]
    obtain ⟨out, hsound, heq⟩ := nnReorderGap_sound hr rdata ha
    exact ⟨out, hsound, .inl heq⟩

/-! ## Traces -/

/-- The admin, with the elements it has delivered, taken and given up, in order, and the
ranges it has been told. -/
structure Trace (α : Type) where
  reorder : Reorder α
  delivered : List (ChainElem α)
  accepted : List (ChainElem α)
  evicted : List (ChainElem α)
  declared : List (Nat × Nat)
  deriving DecidableEq, Repr

namespace Trace

/-- A new admin. -/
def init (mode : ReorderMode) (maxSamples : Nat) (lateAckMode : Bool) : Trace α :=
  ⟨nnReorderNew mode maxSamples lateAckMode, [], [], [], []⟩

/-- The trace behind an outcome. -/
def after (t : Trace α) (a : Arrival α) (out : Outcome α) : Trace α where
  reorder := out.reorder
  delivered := t.delivered ++ out.sc
  accepted := t.accepted ++ out.taken a.offered
  evicted := t.evicted ++ out.unref
  declared := t.declared ++ a.ranges

/-- The step for one arrival. -/
def step (t : Trace α) (a : Arrival α) : Option (Trace α) := (a.call t.reorder).map (t.after a)

/-- The run over all arrivals. -/
def run (t : Trace α) (arrivals : List (Arrival α)) : Option (Trace α) := arrivals.foldlM step t

/-! ## The account of a run -/

/-- The account of a trace: what has been delivered went up in number, nothing has got lost
or come from nowhere, and a number that is not waited for is known from somewhere. -/
structure Sound (t : Trace α) : Prop where
  valid : t.reorder.Valid
  mode : t.reorder.mode ≠ .alwaysDeliver
  fits : Fits ChainElem.seq? t.delivered 1 t.reorder.nextSeq
  conserved : (t.delivered ++ (t.reorder.stored ++ t.evicted)).Perm t.accepted
  held : t.reorder.mode = .normal → ∀ n, 1 ≤ n → t.reorder.Held n →
    InRanges t.declared n ∨ ∃ e ∈ t.accepted, e.seq? = some n
  /-- Without gaps, what has been given up is waited for again. -/
  present : t.reorder.mode = .normal → t.declared = [] → ∀ n, 1 ≤ n → t.reorder.Held n →
    ∃ e ∈ t.delivered ++ t.reorder.stored, e.seq? = some n

theorem sound_init {mode : ReorderMode} (hmode : mode ≠ .alwaysDeliver) (maxSamples : Nat)
    (lateAckMode : Bool) : (init mode maxSamples lateAckMode : Trace α).Sound := by
  have hheld : ∀ n, 1 ≤ n → ¬ (nnReorderNew mode maxSamples lateAckMode : Reorder α).Held n := by
    rintro n hn (hlt | ⟨_, hiv, _⟩)
    · exact absurd hn (not_le.mpr hlt)
    · exact absurd hiv List.not_mem_nil
  exact ⟨⟨trivial, rfl, rfl, Nat.zero_le _, fun _ => rfl, le_rfl⟩, hmode, le_rfl, List.Perm.refl _,
    fun _ n hn h => absurd h (hheld n hn), fun _ _ n hn h => absurd h (hheld n hn)⟩

theorem inRanges_append {xs ys : List (Nat × Nat)} {n : Nat} :
    InRanges (xs ++ ys) n ↔ InRanges xs n ∨ InRanges ys n := by
  simp only [InRanges, List.mem_append, or_and_right, exists_or]

section

variable {t : Trace α} {a : Arrival α} {out : Outcome α}

theorem conserved_after (ht : t.Sound)
    (h : Outcome.Sound t.reorder a.offered (InRanges a.ranges) out) :
    ((t.after a out).delivered ++ ((t.after a out).reorder.stored ++ (t.after a out).evicted)).Perm
      (t.after a out).accepted := by
  have hcall := Multiset.coe_eq_coe.mpr h.conserved
  have hold := Multiset.coe_eq_coe.mpr ht.conserved
  rw [← Multiset.coe_eq_coe]
  simp only [Trace.after, ← Multiset.coe_add] at hcall hold ⊢
  calc
    _ = (t.delivered : Multiset (ChainElem α)) + t.evicted +
        (out.sc + (out.reorder.stored + out.unref)) := by abel
    _ = t.delivered + (t.reorder.stored + t.evicted) + out.taken a.offered := by rw [hcall]; abel
    _ = _ := by rw [hold]

/-- Without gaps, a number that the admin covers is one of its elements. -/
theorem Sound.stored_of_covers (ht : t.Sound) (hmode : t.reorder.mode = .normal)
    (hnone : t.declared = []) {m : Nat} (hm : t.reorder.Covers m) :
    ∃ e ∈ t.reorder.stored, e.seq? = some m := by
  have hlt : t.reorder.nextSeq < m := by
    obtain ⟨iv, hiv, hle, -⟩ := hm
    exact (ht.valid.spaced.lt_min iv hiv).trans_le hle
  obtain ⟨e, he, hseq⟩ := ht.present hmode hnone m (Nat.one_le_of_lt hlt) (.inr hm)
  rcases List.mem_append.mp he with he | he
  · exact absurd (ht.fits.bounds he hseq).2 hlt.not_gt
  · exact ⟨e, he, hseq⟩

theorem Sound.present_after (ht : t.Sound)
    (h : Outcome.Sound t.reorder a.offered (InRanges a.ranges) out)
    (hmode : t.reorder.mode = .normal) (hnone : t.declared = []) (hranges : a.ranges = []) {n : Nat}
    (hn : 1 ≤ n) (hheld : out.reorder.Held n) :
    ∃ e ∈ t.delivered ++ out.sc ++ out.reorder.stored, e.seq? = some n := by
  have hundeclared : ∀ m, ¬ InRanges a.ranges m := by
    rw [hranges]
    rintro m ⟨p, hp, -⟩
    cases hp
  -- the number is of an element that the call has found, or of one delivered before
  obtain ⟨e, he, hseq⟩ : ∃ e ∈ t.delivered ++ (out.taken a.offered ++ t.reorder.stored),
      e.seq? = some n := by
    rcases h.held hmode n hheld with hold | htold | ⟨e, he, hseq⟩
    · obtain ⟨e, he, hseq⟩ := ht.present hmode hnone n hn hold
      refine ⟨e, ?_, hseq⟩
      rcases List.mem_append.mp he with he | he
      · exact List.mem_append_left _ he
      · exact List.mem_append_right _ (List.mem_append_right _ he)
    · exact absurd htold (hundeclared n)
    · exact ⟨e, List.mem_append_right _ (List.mem_append_left _ he), hseq⟩
  rcases List.mem_append.mp he with he | he
  · exact ⟨e, List.mem_append_left _ (List.mem_append_left _ he), hseq⟩
  rcases List.mem_append.mp (h.conserved.mem_iff.mpr he) with hsc | hrest
  · exact ⟨e, List.mem_append_left _ (List.mem_append_right _ hsc), hseq⟩
  rcases List.mem_append.mp hrest with hstored | hunref
  · exact ⟨e, List.mem_append_right _ hstored, hseq⟩
  -- it cannot have been given up: there is no hole behind it
  rcases h.evicted e hunref n hseq hheld with htold | ⟨m, -, hm, hall⟩
  · exact absurd htold (hundeclared n)
  rcases hm with hm | htold | ⟨x, hx, hxseq⟩
  · obtain ⟨x, hx, hxseq⟩ := ht.stored_of_covers hmode hnone hm
    exact absurd hxseq (hall x (List.mem_append_right _ hx))
  · exact absurd htold (hundeclared m)
  · exact absurd hxseq (hall x (List.mem_append_left _ hx))

/-- What one arrival does keeps the account. -/
theorem Sound.after (ht : t.Sound)
    (h : Outcome.Sound t.reorder a.offered (InRanges a.ranges) out) : (t.after a out).Sound := by
  refine ⟨h.valid, ?_, ?_, conserved_after ht h, ?_, ?_⟩
  · exact h.mode ▸ ht.mode
  · exact ht.fits.append h.fits
  · intro hmode n hn hheld
    have hnormal : t.reorder.mode = .normal := h.mode ▸ hmode
    change InRanges (t.declared ++ a.ranges) n ∨ ∃ e ∈ t.accepted ++ out.taken a.offered, _
    rw [inRanges_append]
    rcases h.held hnormal n hheld with hold | htold | ⟨e, he, hseq⟩
    · rcases ht.held hnormal n hn hold with hdeclared | ⟨e, he, hseq⟩
      · exact .inl (.inl hdeclared)
      · exact .inr ⟨e, List.mem_append_left _ he, hseq⟩
    · exact .inl (.inr htold)
    · exact .inr ⟨e, List.mem_append_right _ he, hseq⟩
  · intro hmode hnone n hn hheld
    obtain ⟨hdeclared, hranges⟩ := List.append_eq_nil_iff.mp hnone
    exact ht.present_after h (h.mode ▸ hmode) hdeclared hranges hn hheld

end

/-! ## Runs -/

variable {mode : ReorderMode} {maxSamples : Nat} {lateAckMode : Bool} {arrivals : List (Arrival α)}
  {t : Trace α}

/-- Every run from a new admin keeps the account. -/
theorem sound_of_run (hmode : mode ≠ .alwaysDeliver) (harrivals : ∀ a ∈ arrivals, a.Admissible)
    (h : (init mode maxSamples lateAckMode).run arrivals = some t) :
    t.Sound ∧ t.reorder.mode = mode ∧ t.reorder.maxSamples = maxSamples := by
  refine History.run_invariant (A := Arrival.Admissible) (P := fun t : Trace α =>
    t.Sound ∧ t.reorder.mode = mode ∧ t.reorder.maxSamples = maxSamples) ?_
    ⟨sound_init hmode maxSamples lateAckMode, rfl, rfl⟩ harrivals h
  rintro t a t' ⟨ht, hkeep, hmax⟩ ha hstep
  obtain ⟨res, hres, rfl⟩ := Option.map_eq_some_iff.mp hstep
  obtain ⟨out, hsound, hout | ⟨hout, -⟩⟩ := Arrival.call_returns ht.valid ht.mode ha
  · obtain rfl := Option.some.inj (hres.symm.trans hout)
    exact ⟨ht.after hsound, hsound.mode.trans hkeep, hsound.maxSamples.trans hmax⟩
  · exact absurd (hres.symm.trans hout) (Option.some_ne_none res)

/-- The admin knows of numbers below a bound only. -/
def Bounded (bound : Nat) (t : Trace α) : Prop := ∀ n, t.reorder.Held n → n < bound

theorem Bounded.after {bound : Nat} {a : Arrival α} {out : Outcome α} (ht : t.Bounded bound)
    (ha : a.Below bound) (h : Outcome.Sound t.reorder a.offered (InRanges a.ranges) out) :
    (t.after a out).Bounded bound := by
  intro n hn
  obtain ⟨m, hnm, hm | ⟨p, hp, -, hlt⟩ | ⟨e, he, hseq⟩⟩ := h.bounded n hn
  · exact hnm.trans_lt (ht m hm)
  · cases a with
    | sample => cases hp
    | gap rdata min maxp1 =>
      rcases List.mem_singleton.mp hp with rfl
      exact hnm.trans_lt (hlt.trans_le ha)
  · rw [Outcome.taken] at he
    split_ifs at he
    · cases he
    · cases a with
      | sample info fragchain full =>
        rcases List.mem_singleton.mp he with rfl
        exact hnm.trans_lt (Option.some.inj hseq ▸ ha)
      | gap rdata min maxp1 =>
        rcases List.mem_singleton.mp he with rfl
        cases hseq

theorem bounded_init {bound : Nat} (hbound : 1 ≤ bound) :
    (init mode maxSamples lateAckMode : Trace α).Bounded bound := by
  rintro n (hn | ⟨_, hiv, _⟩)
  · exact hn.trans_le hbound
  · cases hiv

/-- What arrives bounds the numbers that the admin knows of. -/
theorem bounded_of_run (hmode : mode ≠ .alwaysDeliver) {bound : Nat} (hbound : 1 ≤ bound)
    (harrivals : ∀ a ∈ arrivals, a.Admissible ∧ a.Below bound)
    (h : (init mode maxSamples lateAckMode).run arrivals = some t) : t.Bounded bound := by
  refine (History.run_invariant (P := fun t : Trace α => t.Sound ∧ t.Bounded bound)
    (A := fun a : Arrival α => a.Admissible ∧ a.Below bound) ?_
    ⟨sound_init hmode maxSamples lateAckMode, bounded_init hbound⟩ harrivals h).2
  rintro t a t' ⟨ht, hknown⟩ ⟨ha, hbelow⟩ hstep
  obtain ⟨res, hres, rfl⟩ := Option.map_eq_some_iff.mp hstep
  obtain ⟨out, hsound, hout | ⟨hout, -⟩⟩ := Arrival.call_returns ht.valid ht.mode ha
  · obtain rfl := Option.some.inj (hres.symm.trans hout)
    exact ⟨ht.after hsound, hknown.after hbelow hsound⟩
  · exact absurd (hres.symm.trans hout) (Option.some_ne_none res)

end Trace

end DdsPlayground.Ddsi
