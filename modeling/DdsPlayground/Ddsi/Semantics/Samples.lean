import DdsPlayground.Ddsi.Semantics.Storing

/-!
# Samples in the reorder admin

What `nn_reorder_rsample` does to a valid admin: it refuses the sample, delivers it with
the first interval if that follows, or stores it in an interval or between two, for the
price of the last sample where the admin is full.
-/

namespace DdsPlayground.Ddsi

open Intervals

variable {α : Type}

/-! ## Delivery -/

theorem Reorder.returnChain_eq {r : Reorder α} {s : Interval α} (hs : s.Valid)
    (hn : s.nSamples - 1 ≤ r.nSamples) : r.returnChain s =
      if s.maxp1 - s.min ≤ int32Max then
        some ⟨{ r with nextSeq := s.maxp1, nSamples := r.nSamples - (s.nSamples - 1) },
          s.nSamples, s.sc, 1, []⟩
      else none := by
  have hlt := hs.lt
  rw [returnChain, guard_bind (by omega)]
  by_cases hspan : s.maxp1 - s.min ≤ int32Max
  · rw [guard_bind hspan, guard_bind hs.length_le, guard_bind hn, if_pos hspan]
    rfl
  · rw [guard_fail hspan, if_neg hspan]

theorem Outcome.behind_nil {r : Reorder α} (hr : r.Valid) (nextSeq : Nat) :
    behind r nextSeq [] r.sampleivtree = { r with nextSeq := nextSeq } := by
  have hmax : r.maxSampleiv = lastKey r.sampleivtree := hr.max
  rw [behind, ← hmax]
  rfl

/-- The pointer to the last interval is given up with the last interval. -/
theorem Outcome.behind_singleton {r : Reorder α} (hr : r.Valid) (nextSeq : Nat) {iv : Interval α}
    {rest : List (Interval α)} (ht : r.sampleivtree = iv :: rest) :
    behind r nextSeq [iv] rest =
      { (if some iv.min = r.maxSampleiv then { r.delete iv with maxSampleiv := none }
          else r.delete iv) with
        nextSeq := nextSeq
        nSamples := r.nSamples - iv.nSamples } := by
  have hsorted := hr.spaced.sorted
  have hmax : r.maxSampleiv = lastKey r.sampleivtree := hr.max
  have hiv : iv.Valid := Separated.kind hr.spaced iv (ht ▸ List.mem_cons_self)
  have hdelete : r.delete iv = { r with sampleivtree := rest } :=
    Reorder.delete_of_split hsorted (ht.trans (List.nil_append _).symm)
  have hchain : (chain [iv]).length = iv.nSamples := by
    rw [hiv.nSamples, chain_singleton]
  rw [ht] at hsorted hmax
  rw [behind, hdelete, hchain]
  rcases lastKey_cons_cases hsorted with ⟨rfl, hkey⟩ | ⟨hkey, hne⟩
  · rw [if_pos (hmax.trans hkey).symm]
    rfl
  · rw [hkey] at hmax
    rw [if_neg (hmax ▸ hne.symm), ← hmax]

/-- A sample in front of all intervals is delivered with the first one, if that follows. -/
theorem Reorder.deliver_eq {r : Reorder α} (hr : r.Valid) (info : SampleInfo) (fragchain : α)
    (hlt : ∀ iv ∈ r.sampleivtree, info.seq < iv.min) :
    ∃ front rest, r.sampleivtree = front ++ rest ∧ Spaced (endOf (info.seq + 1) front) rest ∧
      Fits ChainElem.seq? (chain front) (info.seq + 1) (endOf (info.seq + 1) front) ∧
      (∀ n, info.seq < n → n < endOf (info.seq + 1) front → r.Covers n) ∧
      r.deliver (Interval.ofSample info fragchain) =
        if endOf (info.seq + 1) front - info.seq ≤ int32Max then
          some ⟨Outcome.behind r (endOf (info.seq + 1) front) front rest, ((chain front).length + 1 : Nat),
            ⟨fragchain, some info⟩ :: chain front, 1, []⟩
        else none := by
  have hs := Interval.valid_ofSample info fragchain
  have halone : r.returnChain (Interval.ofSample info fragchain) =
      if info.seq + 1 - info.seq ≤ int32Max then
        some ⟨Outcome.behind r (info.seq + 1) [] r.sampleivtree, ((chain ([] : List (Interval α))).length + 1 : Nat),
          [⟨fragchain, some info⟩], 1, []⟩
      else none := by
    rw [returnChain_eq hs (Nat.zero_le _), Outcome.behind_nil hr]
    rfl
  cases ht : r.sampleivtree with
  | nil =>
    have hnone : ¬ r.maxSampleiv.isSome := by
      rw [hr.max, findMax, ht]
      exact Bool.false_ne_true
    refine ⟨[], [], rfl, trivial, le_rfl, fun n hlo hhi => absurd hhi (not_lt.mpr hlo), ?_⟩
    rw [deliver, if_neg hnone, halone, ht]
    rfl
  | cons iv rest =>
    have hspaced := hr.spaced
    rw [ht] at hspaced
    have hsome : r.maxSampleiv.isSome := by
      rw [hr.max, findMax, ht, Option.isSome_map, List.getLast?_isSome]
      exact List.cons_ne_nil iv rest
    have hseq : info.seq < iv.min := hlt iv (ht ▸ List.mem_cons_self)
    rw [deliver, if_pos hsome, findMin, ht, List.head?_cons, reorderTryAppendAndDiscard]
    by_cases hgap : info.seq + 1 < iv.min
    · refine ⟨[], iv :: rest, rfl, ⟨hgap, hspaced.2⟩, le_rfl,
        fun n hlo hhi => absurd hhi (not_lt.mpr hlo), ?_⟩
      rw [if_pos (show (Interval.ofSample info fragchain).maxp1 < iv.min from hgap), ← ht]
      exact halone
    · have hmin : iv.min = info.seq + 1 := by omega
      have happend : (appendRsampleInterval (Interval.ofSample info fragchain) iv).Valid :=
        hs.append hspaced.2.1 hmin.ge
      refine ⟨[iv], rest, rfl, hspaced.2.2, ?_, ?_, ?_⟩
      · rw [chain_singleton]
        exact hspaced.2.1.fits.mono hmin.ge le_rfl
      · intro n hlo hhi
        exact ⟨iv, ht ▸ List.mem_cons_self, hmin.trans_le hlo, hhi⟩
      · rw [if_neg (show ¬ (Interval.ofSample info fragchain).maxp1 < iv.min from hgap),
          guard_bind (show iv.min = (Interval.ofSample info fragchain).maxp1 from hmin),
          Outcome.behind_singleton hr _ ht]
        have hcount : (appendRsampleInterval (Interval.ofSample info fragchain) iv).nSamples - 1 =
            iv.nSamples := Nat.add_sub_cancel_left 1 iv.nSamples
        have hle : iv.nSamples ≤ r.nSamples := by
          rw [hr.nSamples, stored, ht, chain_cons, List.length_append, hspaced.2.1.nSamples]
          exact Nat.le_add_right _ _
        have hchain : (chain [iv]).length + 1 =
            (appendRsampleInterval (Interval.ofSample info fragchain) iv).nSamples := by
          rw [chain_singleton, ← hspaced.2.1.nSamples]
          exact Nat.add_comm _ 1
        rw [hchain, chain_singleton]
        simp only [Option.pure_def, Option.bind_eq_bind, Option.bind_some, decide_eq_true_eq]
        by_cases hlast : some iv.min = r.maxSampleiv
        · rw [if_pos hlast, returnChain_eq happend (by rw [hcount]; exact hle), hcount]
          rfl
        · rw [if_neg hlast, returnChain_eq happend (by rw [hcount]; exact hle), hcount]
          rfl

/-! ## The branches of `nn_reorder_rsample` -/

section

variable {r : Reorder α} (hr : r.Valid) (info : SampleInfo) (fragchain : α)

include hr

theorem Outcome.returns_of_discard (result : Int) :
    Returns r [⟨fragchain, some info⟩] (fun _ => False)
      (r.discard (Interval.ofSample info fragchain) result) :=
  ⟨_, sound_of_refused hr result _ _ rfl, .inl rfl⟩

theorem Outcome.returns_of_deliver (hmode : r.mode ≠ .normal → r.nextSeq ≤ info.seq)
    (hnormal : r.mode = .normal → info.seq = r.nextSeq) :
    Returns r [⟨fragchain, some info⟩] (fun _ => False)
      (r.deliver (Interval.ofSample info fragchain)) := by
  have hle : r.nextSeq ≤ info.seq := by
    by_cases h : r.mode = .normal
    · exact (hnormal h).ge
    · exact hmode h
  have hlt : ∀ iv ∈ r.sampleivtree, info.seq < iv.min := by
    by_cases h : r.mode = .normal
    · exact hnormal h ▸ hr.spaced.lt_min
    · rw [hr.mode h]
      exact fun iv hiv => absurd hiv List.not_mem_nil
  obtain ⟨front, rest, ht, hrest, hfits, hcovers, heq⟩ := Reorder.deliver_eq hr info fragchain hlt
  have hend : info.seq + 1 ≤ endOf (info.seq + 1) front :=
    (Nat.le_add_right _ _).trans hfits.length_le
  refine ⟨⟨behind r (endOf (info.seq + 1) front) front rest, ((chain front).length + 1 : Nat),
    ⟨fragchain, some info⟩ :: chain front, 1, []⟩,
    sound_of_delivered rfl hr ht hrest rfl ?_ ?_ ?_, ?_⟩
  · exact ⟨info.seq, hle, fun n hn => (Option.some.inj hn).symm, hfits⟩
  · intro h n hn
    rcases Nat.lt_trichotomy n info.seq with hlt | rfl | hlt
    · exact .inl (.inl (hnormal h ▸ hlt))
    · exact .inr (.inr ⟨_, List.mem_singleton_self _, rfl⟩)
    · exact .inl (.inr (hcovers n hlt hn))
  · rcases hend.eq_or_lt with hnext | hnext
    · exact ⟨info.seq, hnext.ge, .inr (.inr ⟨_, List.mem_singleton_self _, rfl⟩)⟩
    · refine ⟨endOf (info.seq + 1) front - 1, by omega, .inl (.inr (hcovers _ ?_ ?_))⟩
      · omega
      · omega
  · rw [heq]
    by_cases hspan : endOf (info.seq + 1) front - info.seq ≤ int32Max
    · rw [if_pos hspan]
      exact .inl rfl
    · rw [if_neg hspan]
      refine .inr ⟨rfl, ?_⟩
      change int32Max < endOf (info.seq + 1) front - r.nextSeq
      omega

variable (hmode : r.mode = .normal)

include hmode

/-- The sample becomes the last of the admin, if there is room. -/
theorem Outcome.returns_of_extended {t : List (Interval α)}
    (ht : Inserted r.nextSeq [⟨fragchain, some info⟩] (· = info.seq) r.sampleivtree t)
    (hroom : r.nSamples < r.maxSamples) :
    Returns r [⟨fragchain, some info⟩] (fun _ => False)
      (some ⟨{ withTree r t with nSamples := r.nSamples + 1 }, reorderAccept, [], 1, []⟩) :=
  ⟨_, sound_of_inserted hr hmode (ht.mono fun _ h => .inr (congrArg some h.symm)) hroom, .inl rfl⟩

omit hmode in
/-- A sample behind the last interval. -/
theorem Reorder.inserted_end (h : endOf r.nextSeq r.sampleivtree < info.seq) :
    Inserted r.nextSeq [⟨fragchain, some info⟩] (· = info.seq) r.sampleivtree
      (r.sampleivtree ++ [Interval.ofSample info fragchain]) := by
  have hs : Spaced r.nextSeq (r.sampleivtree ++ []) := (List.append_nil _).symm ▸ hr.spaced
  have hins := inserted_alone hs (Interval.valid_ofSample info fragchain) rfl h
    fun iv hiv => absurd hiv List.not_mem_nil
  rw [List.append_nil] at hins
  exact hins.mono fun k hk => Nat.le_antisymm (Nat.lt_succ_iff.mp hk.2) hk.1

/-- A sample right behind the last interval grows it. -/
theorem Outcome.returns_of_grown {before : List (Interval α)} {last : Interval α}
    (ht : r.sampleivtree = before ++ [last]) (hlast : last.maxp1 = info.seq)
    (hroom : r.nSamples < r.maxSamples) :
    Returns r [⟨fragchain, some info⟩] (fun _ => False)
      (some ⟨{ r.assign last.min (appendRsampleInterval last (Interval.ofSample info fragchain)) with
        nSamples := r.nSamples + 1 }, reorderAccept, [], 1, []⟩) := by
  have hspaced : Spaced r.nextSeq (before ++ ([last] ++ [])) := ht ▸ hr.spaced
  have hins : Inserted r.nextSeq [⟨fragchain, some info⟩] (· = info.seq) (before ++ [last])
      (before ++ [appendRsampleInterval last (Interval.ofSample info fragchain)]) :=
    inserted_append hspaced hlast fun _ h => absurd h List.not_mem_nil
  have hkey : lastKey (before ++ [appendRsampleInterval last (Interval.ofSample info fragchain)]) =
      r.maxSampleiv := by
    rw [lastKey_append_cons, hr.max, Reorder.findMax_append ht]
    rfl
  have h := returns_of_extended hr info fragchain hmode (ht ▸ hins) hroom
  rw [withTree, hkey] at h
  rwa [Reorder.assign_of_split hr.spaced.sorted ht]

/-- A sample behind the last interval, and a hole, is one of its own. -/
theorem Outcome.returns_of_end (h : endOf r.nextSeq r.sampleivtree < info.seq)
    (hroom : r.nSamples < r.maxSamples) :
    Returns r [⟨fragchain, some info⟩] (fun _ => False)
      (r.addRsampleiv (Interval.ofSample info fragchain) >>= fun r =>
        some ⟨{ r with maxSampleiv := some info.seq, nSamples := r.nSamples + 1 },
          reorderAccept, [], 1, []⟩) := by
  have hbefore : ∀ iv ∈ r.sampleivtree, iv.min < info.seq := by
    intro iv hiv
    have hstop := Separated.hi_le_stop (fun _ hi => hi.lt) hr.spaced iv hiv
    exact ((Separated.kind hr.spaced iv hiv).lt.trans_le hstop).trans h
  have hret := returns_of_extended hr info fragchain hmode
    (Reorder.inserted_end hr info fragchain h) hroom
  rw [withTree, lastKey_append_cons] at hret
  rw [Reorder.addRsampleiv_of_split (List.append_nil _).symm hbefore
    fun _ hiv => absurd hiv List.not_mem_nil]
  exact hret

/-- A sample in front of the end that nobody knows of is stored, for the price of the last one
where there is no room. -/
theorem Outcome.returns_of_store (hnext : r.nextSeq < info.seq) (hnew : ¬ r.Covers info.seq)
    (hend : info.seq < endOf r.nextSeq r.sampleivtree) :
    Returns r [⟨fragchain, some info⟩] (fun _ => False)
      (r.store (Interval.ofSample info fragchain) (r.lookupPredEq info.seq)
          (r.lookup (info.seq + 1)) >>= fun r =>
        if r.nSamples < r.maxSamples then
          some ⟨{ r with nSamples := r.nSamples + 1 }, reorderAccept, [], 1, []⟩
        else deleteLastSample r >>= fun x => some ⟨x.1, reorderAccept, [], 1, [x.2]⟩) := by
  obtain ⟨t, hins, hstore⟩ := Reorder.store_inserted hr info fragchain hnext hnew hend
  rw [hstore, Option.bind_eq_bind, Option.bind_some]
  by_cases hroom : r.nSamples < r.maxSamples
  · rw [if_pos (show (withTree r t).nSamples < (withTree r t).maxSamples from hroom)]
    exact returns_of_extended hr info fragchain hmode hins hroom
  · rw [if_neg (show ¬ (withTree r t).nSamples < (withTree r t).maxSamples from hroom)]
    have hne : r.sampleivtree ≠ [] := by
      intro hnil
      rw [hnil] at hend
      exact absurd hnext hend.le.not_gt
    obtain ⟨r', x, hdelete, -, hsound⟩ := sound_of_exchanged hr hmode
      (hins.mono fun _ h => .inr (congrArg some h.symm)) hne
    rw [hdelete]
    exact ⟨_, hsound, .inl rfl⟩

end

/-- `nn_reorder_rsample` on a valid admin. -/
theorem nnReorderRsample_returns {r : Reorder α} (hr : r.Valid) (hmode : r.mode ≠ .alwaysDeliver)
    (info : SampleInfo) (fragchain : α) (deliveryQueueFull : Bool) :
    Outcome.Returns r [⟨fragchain, some info⟩] (fun _ => False)
      (nnReorderRsample r (Interval.ofSample info fragchain) deliveryQueueFull) := by
  have hdiscard := Outcome.returns_of_discard hr info fragchain
  have hsingle : rsampleIsSingleton (Interval.ofSample info fragchain) :=
    ⟨Nat.lt_succ_self _, rfl, rfl, rfl⟩
  rw [nnReorderRsample, guard_bind hsingle, guard_bind hr.consistent]
  by_cases hdeliver : (Interval.ofSample info fragchain).min = r.nextSeq ∨
      ((Interval.ofSample info fragchain).min > r.nextSeq ∧
        r.mode = .monotonicallyIncreasing) ∨ r.mode = .alwaysDeliver
  · rw [if_pos hdeliver]
    split_ifs
    · exact hdiscard reorderReject
    · refine Outcome.returns_of_deliver hr info fragchain ?_ ?_
      · rcases hdeliver with h | ⟨h, -⟩ | h
        · exact fun _ => h.ge
        · exact fun _ => le_of_lt h
        · exact absurd h hmode
      · rcases hdeliver with h | ⟨-, h⟩ | h
        · exact fun _ => h
        · exact fun h' => absurd (h.symm.trans h') (by decide)
        · exact absurd h hmode
  rw [if_neg hdeliver]
  by_cases hold : (Interval.ofSample info fragchain).min < r.nextSeq
  · rw [if_pos hold]
    exact hdiscard reorderTooOld
  rw [if_neg hold]
  -- what is left is a sample behind the next number, in normal mode
  obtain ⟨hne, hmono, -⟩ : info.seq ≠ r.nextSeq ∧ ¬(info.seq > r.nextSeq ∧
      r.mode = .monotonicallyIncreasing) ∧ r.mode ≠ .alwaysDeliver :=
    ⟨fun h => hdeliver (.inl h), fun h => hdeliver (.inr (.inl h)), hmode⟩
  have hnext : r.nextSeq < info.seq := Nat.lt_of_le_of_ne (not_lt.mp hold) hne.symm
  have hnormal : r.mode = .normal := by
    cases h : r.mode with
    | normal => rfl
    | monotonicallyIncreasing => exact absurd ⟨hnext, h⟩ hmono
    | alwaysDeliver => exact absurd h hmode
  rcases List.eq_nil_or_concat r.sampleivtree with hnil | ⟨before, last, ht⟩
  · have hzero : r.nSamples = 0 := by
      rw [hr.nSamples, Reorder.stored, hnil]
      rfl
    have hadd : r.addRsampleiv (Interval.ofSample info fragchain) =
        some { r with sampleivtree := [Interval.ofSample info fragchain] } :=
      Reorder.addRsampleiv_of_split (hnil.trans (List.nil_append []).symm)
        (fun _ h => absurd h List.not_mem_nil) fun _ h => absurd h List.not_mem_nil
    rw [if_pos (List.isEmpty_iff.mpr hnil), guard_bind hzero]
    by_cases hroom : r.maxSamples = 0
    · rw [if_pos hroom]
      exact hdiscard reorderReject
    · rw [if_neg hroom, hadd]
      have hins := Reorder.inserted_end hr info fragchain (by rw [hnil]; exact hnext)
      rw [hnil, List.nil_append] at hins
      exact Outcome.returns_of_extended hr info fragchain hnormal (hnil ▸ hins) (by omega)
  · rw [List.concat_eq_append] at ht
    have hcons : ¬ r.sampleivtree.isEmpty := by
      rw [ht, List.isEmpty_iff]
      exact List.append_ne_nil_of_right_ne_nil before (List.cons_ne_nil last [])
    have hmax : r.maxSampleiv = some last.min := by
      rw [hr.max, Reorder.findMax_append ht]
      rfl
    have hend : endOf r.nextSeq r.sampleivtree = last.maxp1 := by
      rw [ht, endOf, stop_append]
      rfl
    rw [if_neg hcons, hmax]
    simp only [Option.bind_eq_bind, Option.bind_some, Reorder.lookup_of_split hr.spaced.sorted ht]
    split_ifs with hgrow hfull hroom hbehind hfull' hroom' hlate hknown
    · exact hdiscard reorderReject
    · exact Outcome.returns_of_grown hr info fragchain hnormal ht hgrow.symm hroom
    · exact hdiscard reorderReject
    · exact hdiscard reorderReject
    · exact Outcome.returns_of_end hr info fragchain hnormal (hend ▸ hbehind) hroom'
    · exact hdiscard reorderReject
    · exact hdiscard reorderReject
    · exact hdiscard reorderReject
    · refine Outcome.returns_of_store hr info fragchain hnormal hnext ?_ ?_
      · intro hcovers
        obtain ⟨iv, hiv, hin⟩ := (Reorder.covers_iff hr.spaced).mp hcovers
        have hfilter : (r.lookupPredEq info.seq).filter (fun iv =>
            decide (info.seq ≥ iv.min ∧ info.seq < iv.maxp1)) = some iv := by
          rw [Option.mem_def.mp hiv]
          exact if_pos (decide_eq_true hin)
        exact hknown (Option.isSome_of_mem hfilter)
      · rw [hend]
        exact Nat.lt_of_le_of_ne (not_lt.mp hbehind) hgrow

end DdsPlayground.Ddsi
