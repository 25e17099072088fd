import DdsPlayground.Ddsi.Semantics.Outcome

/-!
# Storing a sample in front of the end

The hard case of `nn_reorder_rsample` finds the intervals around the sample by two lookups.
They are neighbours in the tree, and what the case does to them is an insertion in the sense
of the intervals.
-/

namespace DdsPlayground.Ddsi

open Intervals

variable {α : Type} {r : Reorder α} {before after : List (Interval α)} {p x g s : Interval α}

/-! ## The last interval -/

theorem lastKey_append_cons (t u : List (Interval α)) (iv : Interval α) :
    lastKey (t ++ iv :: u) = lastKey (iv :: u) := lastKey_append t (iv :: u) (List.cons_ne_nil _ _)

theorem lastKey_cons_ne (iv : Interval α) (h : after ≠ []) :
    lastKey (iv :: after) = lastKey after := lastKey_append [iv] after h

/-- Where an interval has others behind it, it is not the last. -/
theorem lastKey_cons_cases (hs : KeyedTree.Sorted Interval.min (x :: after)) :
    (after = [] ∧ lastKey (x :: after) = some x.min) ∨
      (∀ iv, lastKey (iv :: after) = lastKey after) ∧ lastKey after ≠ some x.min := by
  rcases List.eq_nil_or_concat after with rfl | ⟨front, last, rfl⟩
  · exact .inl ⟨rfl, rfl⟩
  · rw [List.concat_eq_append] at hs ⊢
    have hlt : x.min < last.min :=
      (List.pairwise_cons.mp hs).1 last (List.mem_append_right _ (List.mem_singleton_self _))
    refine .inr ⟨fun iv => lastKey_cons_ne iv (List.append_ne_nil_of_right_ne_nil front
      (List.cons_ne_nil last [])), ?_⟩
    rw [lastKey_append_cons]
    exact fun h => hlt.ne' (Option.some.inj h)

/-- The pointer to the last interval follows an interval that another one replaces. -/
theorem lastKey_exchange (hs : KeyedTree.Sorted Interval.min (x :: after)) (g : Interval α) :
    (if lastKey (x :: after) = some x.min then some g.min else lastKey (x :: after)) =
      lastKey (g :: after) := by
  rcases lastKey_cons_cases hs with ⟨rfl, hkey⟩ | ⟨hkey, hne⟩
  · exact if_pos hkey
  · rw [hkey, hkey, if_neg hne]

/-- The pointer to the last interval is null, or leads to one. -/
theorem Reorder.exists_followMax (hr : r.Valid) :
    ∃ last, r.followMax = some last ∧ ∀ iv ∈ last, iv ∈ r.sampleivtree := by
  have hmax : r.maxSampleiv = lastKey r.sampleivtree := hr.max
  rcases List.eq_nil_or_concat r.sampleivtree with hnil | ⟨front, iv, ht⟩
  · rw [hnil] at hmax
    exact ⟨none, by rw [followMax, hmax]; rfl, nofun⟩
  · rw [List.concat_eq_append] at ht
    rw [ht, lastKey_append_cons] at hmax
    refine ⟨some iv, ?_, ?_⟩
    · rw [followMax, hmax]
      change (r.lookup iv.min).map some = _
      rw [lookup_of_split hr.spaced.sorted ht]
      rfl
    · rintro _ ⟨rfl⟩
      rw [ht]
      exact List.mem_append_right _ (List.mem_singleton_self iv)

/-! ## The cases of `Reorder.store` -/

section

variable (hs : KeyedTree.Sorted Interval.min r.sampleivtree)
  (hmax : r.maxSampleiv = lastKey r.sampleivtree)

include hs hmax

/-- A sample at the end of an interval, with a hole behind it. -/
theorem Reorder.store_append (ht : r.sampleivtree = before ++ p :: after) (hp : s.min = p.maxp1)
    (hafter : after ≠ []) :
    r.store s (some p) none =
      some (Outcome.withTree r (before ++ appendRsampleInterval p s :: after)) := by
  have hkey : lastKey (before ++ p :: after) =
      lastKey (before ++ appendRsampleInterval p s :: after) := by
    rw [lastKey_append_cons, lastKey_append_cons, lastKey_cons_ne p hafter, lastKey_cons_ne _ hafter]
  have hfilter : (some p).filter (fun iv => decide (s.min = iv.maxp1)) = some p :=
    if_pos (decide_eq_true hp)
  simp only [store, hfilter, reorderTryAppendAndDiscard, Option.bind_eq_bind, Option.bind_some, Option.pure_def,
    Bool.false_eq_true, if_false, assign_of_split hs ht]
  rw [Outcome.withTree, ← hkey, ← ht, ← hmax]

/-- A sample that closes the hole between two intervals. -/
theorem Reorder.store_join (ht : r.sampleivtree = before ++ p :: x :: after)
    (hp : s.min = p.maxp1) (hsc : s.maxp1 = x.min) :
    r.store s (some p) (some x) = some (Outcome.withTree r (before ++
      appendRsampleInterval (appendRsampleInterval p s) x :: after)) := by
  have hsplit : r.sampleivtree = (before ++ [p]) ++ x :: after := by
    rw [ht, List.append_assoc, List.singleton_append]
  have hsorted := hs
  rw [hsplit] at hsorted
  have hdelete : r.delete x = { r with sampleivtree := before ++ p :: after } := by
    rw [delete_of_split hs hsplit, List.append_assoc, List.singleton_append]
  have hrest : KeyedTree.Sorted Interval.min (r.delete x).sampleivtree := by
    rw [hdelete, ← List.singleton_append, ← List.append_assoc]
    exact (KeyedTree.sorted_middle.mp hsorted).1
  have hexchange := lastKey_exchange (List.pairwise_append.mp hsorted).2.1
    (appendRsampleInterval (appendRsampleInterval p s) x)
  have hkey : r.maxSampleiv = lastKey (x :: after) := by
    rw [hmax, hsplit, lastKey_append_cons]
  have hne : ¬ (appendRsampleInterval p s).maxp1 < x.min := not_lt.mpr hsc.ge
  have heq : x.min = (appendRsampleInterval p s).maxp1 := hsc.symm
  have hassign := assign_of_split hrest (congrArg sampleivtree hdelete)
    (appendRsampleInterval (appendRsampleInterval p s) x)
  have hfilter : (some p).filter (fun iv => decide (s.min = iv.maxp1)) = some p :=
    if_pos (decide_eq_true hp)
  simp only [store, hfilter, reorderTryAppendAndDiscard, if_neg hne, guard_bind heq, Option.bind_eq_bind,
    Option.bind_some, Option.pure_def, decide_eq_true_eq, hassign]
  rw [Outcome.withTree, lastKey_append_cons, ← hexchange, ← hkey, hdelete]
  by_cases hlast : r.maxSampleiv = some x.min
  · rw [if_pos hlast, if_pos hlast.symm]
  · rw [if_neg hlast, if_neg (Ne.symm hlast)]

/-- A sample in front of an interval, with a hole before it. -/
theorem Reorder.store_prepend {predeq : Option (Interval α)}
    (ht : r.sampleivtree = before ++ x :: after)
    (hp : predeq.filter (fun iv => s.min = iv.maxp1) = none) :
    r.store s predeq (some x) =
      some (Outcome.withTree r (before ++ appendRsampleInterval s x :: after)) := by
  have hsorted := hs
  rw [ht] at hsorted
  have hgrown : { x with sc := s.sc ++ x.sc, min := s.min, nSamples := x.nSamples + s.nSamples } =
      appendRsampleInterval s x := by
    rw [appendRsampleInterval, Nat.add_comm x.nSamples]
  have hexchange := lastKey_exchange (List.pairwise_append.mp hsorted).2.1
    (appendRsampleInterval s x)
  have hkey : r.maxSampleiv = lastKey (x :: after) := by
    rw [hmax, ht, lastKey_append_cons]
  simp only [store, hp, hgrown, assign_of_split hs ht, Option.pure_def]
  rw [Outcome.withTree, lastKey_append_cons, ← hexchange, ← hkey]
  by_cases hlast : r.maxSampleiv = some x.min
  · rw [if_pos hlast, if_pos hlast]
    rfl
  · rw [if_neg hlast, if_neg hlast]

omit hs in
/-- A sample that touches no interval. -/
theorem Reorder.store_alone {predeq : Option (Interval α)}
    (ht : r.sampleivtree = before ++ after)
    (hp : predeq.filter (fun iv => s.min = iv.maxp1) = none)
    (hbefore : ∀ iv ∈ before, iv.min < s.min) (hafter : ∀ iv ∈ after, s.min < iv.min)
    (hne : after ≠ []) :
    r.store s predeq none = some (Outcome.withTree r (before ++ s :: after)) := by
  simp only [store, hp]
  rw [addRsampleiv_of_split ht hbefore hafter, Outcome.withTree, lastKey_append_cons,
    lastKey_cons_ne s hne, ← lastKey_append before after hne, ← ht, ← hmax]

end

/-! ## Where the sample goes -/

/-- The interval behind a number begins at the next one, or none does. -/
theorem Reorder.lookup_next {n seq : Nat} (hs : Spaced n r.sampleivtree)
    (ht : r.sampleivtree = before ++ x :: after) (hbefore : ∀ iv ∈ before, iv.min ≤ seq)
    (hx : seq < x.min) :
    (x.min = seq + 1 ∧ r.lookup (seq + 1) = some x) ∨
      (∀ iv ∈ x :: after, seq + 1 < iv.min) ∧ r.lookup (seq + 1) = none := by
  by_cases hmin : x.min = seq + 1
  · exact .inl ⟨hmin, hmin ▸ lookup_of_split hs.sorted ht⟩
  have hlt : ∀ iv ∈ x :: after, seq + 1 < iv.min := by
    have hxlt : seq + 1 < x.min := Nat.lt_of_le_of_ne hx (Ne.symm hmin)
    refine List.forall_mem_cons.mpr ⟨hxlt, ?_⟩
    intro iv hiv
    have hsorted := hs.sorted
    rw [ht] at hsorted
    exact hxlt.trans ((KeyedTree.sorted_middle.mp hsorted).2.2 iv hiv)
  refine .inr ⟨hlt, ?_⟩
  rw [lookup, ht]
  refine List.find?_eq_none.mpr ?_
  intro iv hiv
  rw [decide_eq_true_eq]
  rcases List.mem_append.mp hiv with hiv | hiv
  · exact (Nat.lt_succ_of_le (hbefore iv hiv)).ne
  · exact (hlt iv hiv).ne'

/-- A sample of which nothing in front of it knows: it extends the interval behind it, or is
one of its own. -/
theorem Reorder.store_apart (hr : r.Valid) (info : SampleInfo) (fragchain : α)
    {predeq : Option (Interval α)}
    (hp : predeq.filter (fun iv => info.seq = iv.maxp1) = none)
    (ht : r.sampleivtree = before ++ x :: after) (hbefore : endOf r.nextSeq before < info.seq)
    (hx : info.seq < x.min) :
    ∃ t, Inserted r.nextSeq [⟨fragchain, some info⟩] (· = info.seq) r.sampleivtree t ∧
      r.store (Interval.ofSample info fragchain) predeq (r.lookup (info.seq + 1)) =
        some (Outcome.withTree r t) := by
  have hspaced := hr.spaced
  rw [ht] at hspaced
  have hmins : ∀ iv ∈ before, iv.min < info.seq := by
    intro iv hiv
    have hkind := Separated.kind (separated_append.mp hspaced).1 iv hiv
    have hstop := Separated.hi_le_stop (fun _ hi => hi.lt) (separated_append.mp hspaced).1 iv hiv
    exact (hkind.lt.trans_le hstop).trans hbefore
  rcases lookup_next hr.spaced ht (fun iv hiv => (hmins iv hiv).le) hx with
    ⟨hmin, hlookup⟩ | ⟨hlt, hlookup⟩
  · refine ⟨_, ht ▸ inserted_prepend hspaced hmin hbefore, ?_⟩
    rw [hlookup]
    exact store_prepend hr.spaced.sorted hr.max ht hp
  · have halone := inserted_alone hspaced (Interval.valid_ofSample info fragchain) rfl hbefore hlt
    have hins := halone.mono (q := (· = info.seq)) fun k hk =>
      Nat.le_antisymm (Nat.lt_succ_iff.mp hk.2) hk.1
    refine ⟨_, ht ▸ hins, ?_⟩
    rw [hlookup]
    refine store_alone hr.max ht hp hmins ?_ (List.cons_ne_nil x after)
    exact fun iv hiv => (Nat.lt_succ_self _).trans (hlt iv hiv)

/-- A sample right behind an interval extends it, and may close the hole to the next. -/
theorem Reorder.store_touching (hr : r.Valid) (info : SampleInfo) (fragchain : α)
    (ht : r.sampleivtree = before ++ p :: x :: after) (hp : info.seq = p.maxp1)
    (hx : info.seq < x.min) :
    ∃ t, Inserted r.nextSeq [⟨fragchain, some info⟩] (· = info.seq) r.sampleivtree t ∧
      r.store (Interval.ofSample info fragchain) (some p) (r.lookup (info.seq + 1)) =
        some (Outcome.withTree r t) := by
  have hspaced := hr.spaced
  have hsplit : r.sampleivtree = (before ++ [p]) ++ x :: after := by
    rw [ht, List.append_assoc, List.singleton_append]
  rw [hsplit] at hspaced
  have hmins : ∀ iv ∈ before ++ [p], iv.min ≤ info.seq := by
    intro iv hiv
    have hkind := Separated.kind (separated_append.mp hspaced).1 iv hiv
    have hstop := Separated.hi_le_stop (fun _ hi => hi.lt) (separated_append.mp hspaced).1 iv hiv
    rw [stop_append, stop, stop, ← hp] at hstop
    exact hkind.lt.le.trans hstop
  rw [← hsplit, ht] at hspaced
  rcases lookup_next hr.spaced hsplit hmins hx with ⟨hmin, hlookup⟩ | ⟨hlt, hlookup⟩
  · have hjoin : Spaced r.nextSeq (before ++ ([p, x] ++ after)) := hspaced
    refine ⟨_, ht ▸ inserted_join hjoin hp.symm hmin, ?_⟩
    rw [hlookup]
    exact store_join hr.spaced.sorted hr.max ht hp hmin.symm
  · have happend : Spaced r.nextSeq (before ++ ([p] ++ x :: after)) := hspaced
    refine ⟨_, ht ▸ inserted_append happend hp.symm hlt, ?_⟩
    rw [hlookup]
    exact store_append hr.spaced.sorted hr.max ht hp (List.cons_ne_nil x after)

/-- A sample that no interval knows, in front of the end, is stored. -/
theorem Reorder.store_inserted (hr : r.Valid) (info : SampleInfo) (fragchain : α)
    (hnext : r.nextSeq < info.seq) (hnew : ¬ r.Covers info.seq)
    (hend : info.seq < endOf r.nextSeq r.sampleivtree) :
    ∃ t, Inserted r.nextSeq [⟨fragchain, some info⟩] (· = info.seq) r.sampleivtree t ∧
      r.store (Interval.ofSample info fragchain) (r.lookupPredEq info.seq)
        (r.lookup (info.seq + 1)) = some (Outcome.withTree r t) := by
  rcases hr.spaced.sorted.lookupPredEq_cases info.seq with
    ⟨hpred, hall⟩ | ⟨before, p, after, hpred, ht, hp, hall⟩
  · rcases ht : r.sampleivtree with _ | ⟨x, after⟩
    · rw [ht] at hend
      exact absurd hnext hend.le.not_gt
    · rw [lookupPredEq, hpred, ← ht]
      exact store_apart hr info fragchain rfl (ht.trans (List.nil_append _).symm) hnext
        (hall x (ht ▸ List.mem_cons_self))
  · have hle : p.maxp1 ≤ info.seq := by
      refine not_lt.mp fun hlt => hnew ⟨p, ?_, hp, hlt⟩
      rw [ht]
      exact List.mem_append_right _ List.mem_cons_self
    rw [lookupPredEq, hpred]
    rcases after with _ | ⟨x, after⟩
    · rw [ht, endOf, stop_append, stop, stop] at hend
      exact absurd hle (not_le.mpr hend)
    · have hx := hall x List.mem_cons_self
      by_cases htouch : info.seq = p.maxp1
      · exact store_touching hr info fragchain ht htouch hx
      · have hsplit : r.sampleivtree = (before ++ [p]) ++ x :: after := by
          rw [ht, List.append_assoc, List.singleton_append]
        refine store_apart hr info fragchain ?_ hsplit ?_ hx
        · exact if_neg (by rwa [decide_eq_true_eq])
        · rw [endOf, stop_append, stop, stop]
          exact Nat.lt_of_le_of_ne hle (Ne.symm htouch)

end DdsPlayground.Ddsi
