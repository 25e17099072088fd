import DdsPlayground.Ddsi.Semantics.Samples

/-!
# Gaps in the reorder admin

A gap splits the intervals of a valid admin into those in front of it, those that it touches
and those behind it. The touched ones are joined to one, which the gap widens.
-/

namespace DdsPlayground.Ddsi

open Intervals BoundedLoop

variable {α : Type} {r : Reorder α} {before rest after : List (Interval α)} {s t : Interval α}
  {n min maxp1 : Nat}

/-! ## Joining intervals -/

/-- An interval with all that follow appended. -/
def joinAll (s : Interval α) (joined : List (Interval α)) : Interval α :=
  joined.foldl appendRsampleInterval s

theorem joinAll_min (s : Interval α) (joined : List (Interval α)) :
    (joinAll s joined).min = s.min := by
  induction joined generalizing s with
  | nil => rfl
  | cons t joined ih => exact ih (appendRsampleInterval s t)

theorem joinAll_maxp1 (s : Interval α) (joined : List (Interval α)) :
    (joinAll s joined).maxp1 = endOf s.maxp1 joined := by
  induction joined generalizing s with
  | nil => rfl
  | cons t joined ih => exact ih (appendRsampleInterval s t)

theorem joinAll_sc (s : Interval α) (joined : List (Interval α)) :
    (joinAll s joined).sc = s.sc ++ chain joined := by
  induction joined generalizing s with
  | nil => exact (List.append_nil s.sc).symm
  | cons t joined ih =>
    rw [chain_cons, ← List.append_assoc]
    exact ih (appendRsampleInterval s t)

theorem Spaced.join (hs : Spaced n (before ++ s :: t :: rest)) :
    Spaced n (before ++ appendRsampleInterval s t :: rest) := by
  obtain ⟨hbefore, hmin, hvalids, hlt, hvalidt, hrest⟩ := separated_append.mp hs
  exact separated_append.mpr ⟨hbefore, hmin, hvalids.append hvalidt hlt.le, hrest⟩

/-! ## The loop -/

theorem coalescePass_join (hs : Spaced n r.sampleivtree)
    (ht : r.sampleivtree = before ++ s :: t :: rest) (htouch : t.min ≤ maxp1) (valuable : Bool) :
    coalescePass maxp1 ⟨r, s, valuable⟩ =
      some (.again ⟨{ r with sampleivtree := before ++ appendRsampleInterval s t :: rest },
        appendRsampleInterval s t, true⟩) := by
  have hsorted := hs.sorted
  have hsplit : r.sampleivtree = (before ++ [s]) ++ t :: rest := by
    rw [ht, List.append_assoc, List.singleton_append]
  have hdelete : r.delete t = { r with sampleivtree := before ++ s :: rest } := by
    rw [Reorder.delete_of_split hsorted hsplit, List.append_assoc, List.singleton_append]
  have hvalid : t.Valid :=
    Separated.kind hs t (hsplit ▸ List.mem_append_right _ List.mem_cons_self)
  have hsucc : r.findSucc (some s) = some t := by
    rw [ht] at hsorted
    rw [Reorder.findSucc, ht, hsorted.findSucc_middle, List.head?_cons]
  have hsorted' : KeyedTree.Sorted Interval.min (r.delete t).sampleivtree := by
    rw [hsplit] at hsorted
    rw [hdelete, ← List.singleton_append, ← List.append_assoc]
    exact (KeyedTree.sorted_middle.mp hsorted).1
  -- the key of the node stays the same
  have hassign : (r.delete t).assign (appendRsampleInterval s t).min (appendRsampleInterval s t) =
      { r.delete t with sampleivtree := before ++ appendRsampleInterval s t :: rest } :=
    Reorder.assign_of_split hsorted' (congrArg Reorder.sampleivtree hdelete) _
  simp only [coalescePass, hsucc, if_pos htouch, guard_bind hvalid.length_le, hassign]
  rw [hdelete]
  rfl

theorem coalescePass_stop (hs : Spaced n r.sampleivtree) (ht : r.sampleivtree = before ++ s :: rest)
    (hrest : ∀ t ∈ rest, maxp1 < t.min) (valuable : Bool) :
    coalescePass maxp1 ⟨r, s, valuable⟩ = some (.leave ⟨r, s, valuable⟩) := by
  have hsorted := hs.sorted
  rw [ht] at hsorted
  have hsucc : r.findSucc (some s) = rest.head? := by
    rw [Reorder.findSucc, ht, hsorted.findSucc_middle]
  cases rest with
  | nil => simp only [coalescePass, hsucc, List.head?_nil]
  | cons t rest =>
    simp only [coalescePass, hsucc, List.head?_cons]
    exact if_neg (hrest t List.mem_cons_self).not_ge

/-- The loop appends the intervals that begin up to the end of the range. -/
theorem run_coalescePass (maxp1 : Nat) (hs : Spaced n r.sampleivtree) (ht : r.sampleivtree = before ++ s :: rest)
    (valuable : Bool) {fuel : Nat} (hfuel : rest.length < fuel) :
    ∃ joined after valuable', rest = joined ++ after ∧ (∀ t ∈ joined, t.min ≤ maxp1) ∧
      (∀ t ∈ after, maxp1 < t.min) ∧ Spaced n (before ++ joinAll s joined :: after) ∧
      run (coalescePass maxp1) fuel ⟨r, s, valuable⟩ =
        some ⟨{ r with sampleivtree := before ++ joinAll s joined :: after }, joinAll s joined,
          valuable'⟩ := by
  induction rest generalizing r s valuable fuel with
  | nil =>
    obtain ⟨fuel, rfl⟩ : ∃ k, fuel = k + 1 := Nat.exists_eq_add_one.mpr hfuel
    refine ⟨[], [], valuable, rfl, nofun, nofun, ht ▸ hs, ?_⟩
    rw [run_leave (coalescePass_stop hs ht nofun valuable), joinAll, List.foldl_nil, ← ht]
  | cons t rest ih =>
    obtain ⟨fuel, rfl⟩ : ∃ k, fuel = k + 1 := Nat.exists_eq_add_one.mpr (Nat.zero_lt_of_lt hfuel)
    by_cases htouch : t.min ≤ maxp1
    · have hjoin : Spaced n (before ++ appendRsampleInterval s t :: rest) := (ht ▸ hs).join
      obtain ⟨joined, after, valuable', hrest, hjoined, hafter, hspaced, hrun⟩ :=
        ih (r := { r with sampleivtree := before ++ appendRsampleInterval s t :: rest }) hjoin rfl
          true (Nat.lt_of_succ_lt_succ hfuel)
      refine ⟨t :: joined, after, valuable', congrArg (t :: ·) hrest,
        List.forall_mem_cons.mpr ⟨htouch, hjoined⟩, hafter, hspaced, ?_⟩
      rw [run_again (coalescePass_join hs ht htouch valuable)]
      exact hrun
    · have hsorted := hs.sorted
      rw [ht] at hsorted
      have hafter : ∀ iv ∈ t :: rest, maxp1 < iv.min := by
        have hpairs := List.pairwise_cons.mp (List.pairwise_cons.mp
          (List.pairwise_append.mp hsorted).2.1).2
        exact List.forall_mem_cons.mpr
          ⟨not_le.mp htouch, fun iv hiv => (not_le.mp htouch).trans (hpairs.1 iv hiv)⟩
      refine ⟨[], t :: rest, valuable, rfl, nofun, hafter, ht ▸ hs, ?_⟩
      rw [run_leave (coalescePass_stop hs ht hafter valuable), joinAll, List.foldl_nil, ← ht]

/-! ## The intervals around a range -/

/-- The intervals in front of a range, those that touch it, and those behind it. -/
structure Touched (min maxp1 : Nat) (t before mid after : List (Interval α)) : Prop where
  split : t = before ++ (mid ++ after)
  before : ∀ iv ∈ before, iv.maxp1 < min
  mid : ∀ iv ∈ mid, min ≤ iv.maxp1 ∧ iv.min ≤ maxp1
  after : ∀ iv ∈ after, maxp1 < iv.min

/-- An interval that a range widens. -/
def hull (min maxp1 : Nat) (iv : Interval α) : Interval α :=
  { iv with
    min := if min < iv.min then min else iv.min
    maxp1 := if maxp1 > iv.maxp1 then maxp1 else iv.maxp1 }

theorem hull_min_le (min maxp1 : Nat) (iv : Interval α) : (hull min maxp1 iv).min ≤ iv.min := by
  change (if min < iv.min then min else iv.min) ≤ iv.min
  split_ifs with h
  · exact le_of_lt h
  · exact le_rfl

theorem le_hull_maxp1 (min maxp1 : Nat) (iv : Interval α) : iv.maxp1 ≤ (hull min maxp1 iv).maxp1 := by
  change iv.maxp1 ≤ if maxp1 > iv.maxp1 then maxp1 else iv.maxp1
  split_ifs with h
  · exact le_of_lt h
  · exact le_rfl

theorem hull_maxp1_cases (min maxp1 : Nat) (iv : Interval α) :
    (hull min maxp1 iv).maxp1 = maxp1 ∨
      maxp1 ≤ (hull min maxp1 iv).maxp1 ∧ (hull min maxp1 iv).maxp1 = iv.maxp1 := by
  by_cases h : maxp1 > iv.maxp1
  · exact .inl (if_pos h)
  · have heq : (hull min maxp1 iv).maxp1 = iv.maxp1 := if_neg h
    exact .inr ⟨heq ▸ not_lt.mp h, heq⟩

theorem Interval.Valid.hull {iv : Interval α} (h : iv.Valid) :
    (hull min maxp1 iv).Valid :=
  ⟨h.fits.mono (hull_min_le min maxp1 iv) (le_hull_maxp1 min maxp1 iv), h.nonempty, h.nSamples⟩

/-- The first interval that touches the range is joined with the others that do. -/
theorem coalesce_of_first (hs : Spaced n r.sampleivtree)
    (ht : r.sampleivtree = before ++ s :: rest) (hbefore : ∀ iv ∈ before, iv.maxp1 < min)
    (hmaxp1 : min ≤ s.maxp1) (hmin : s.min ≤ maxp1)
    (hfirst : firstTouchingRange r min maxp1 = some (some s)) :
    ∃ joined after valuable, Touched min maxp1 r.sampleivtree before (s :: joined) after ∧
      (joinAll s joined).Valid ∧
      coalesceIntervalsTouchingRange r min maxp1 = some (some
        ⟨{ r with sampleivtree := before ++ hull min maxp1 (joinAll s joined) :: after },
          hull min maxp1 (joinAll s joined), valuable⟩) := by
  have hlen : rest.length < r.sampleivtree.length + 1 := by
    rw [ht, List.length_append, List.length_cons]
    omega
  obtain ⟨joined, after, valuable, hrest, hjoined, hafter, hspaced, hrun⟩ :=
    run_coalescePass maxp1 hs ht false hlen
  have hs' := hs
  rw [ht] at hs'
  obtain ⟨-, -, hvalid, -⟩ := separated_append.mp hs'
  have hmid : ∀ iv ∈ joined, min ≤ iv.maxp1 ∧ iv.min ≤ maxp1 := by
    intro iv hiv
    have hmem : iv ∈ rest := hrest ▸ List.mem_append_left after hiv
    have hlt := Separated.lt_of_after (fun _ hi => hi.lt) hs' iv hmem
    have hkind := Separated.kind hs' iv (List.mem_append_right _ (List.mem_cons_of_mem s hmem))
    exact ⟨(hmaxp1.trans_lt (hlt.trans hkind.lt)).le, hjoined iv hiv⟩
  refine ⟨joined, after, valuable || decide (min < (joinAll s joined).min) ||
    decide (maxp1 > (joinAll s joined).maxp1), ⟨?_, hbefore, List.forall_mem_cons.mpr ⟨⟨hmaxp1, hmin⟩, hmid⟩, hafter⟩,
    (separated_append.mp hspaced).2.2.1, ?_⟩
  · rw [ht, hrest, List.cons_append]
  · rw [coalesceIntervalsTouchingRange, hfirst]
    simp only [Option.bind_eq_bind, Option.bind_some, hrun]
    rw [Reorder.assign_of_split (Spaced.sorted hspaced) rfl]
    exact guard_bind hvalid.length_le _

/-- What coalescing comes to: no interval touches the range, or those that do are joined. -/
def Coalesced (r : Reorder α) (min maxp1 : Nat) : Prop :=
  ∃ before mid after, Touched min maxp1 r.sampleivtree before mid after ∧
    ((mid = [] ∧ coalesceIntervalsTouchingRange r min maxp1 = some none) ∨
      ∃ s joined valuable, mid = s :: joined ∧ (joinAll s joined).Valid ∧
        coalesceIntervalsTouchingRange r min maxp1 = some (some
          ⟨{ r with sampleivtree := before ++ hull min maxp1 (joinAll s joined) :: after },
            hull min maxp1 (joinAll s joined), valuable⟩))

/-- Where nothing up to the range reaches it, the next interval is the first candidate. -/
theorem coalesced_of_succ (hs : Spaced n r.sampleivtree) (ht : r.sampleivtree = before ++ rest)
    (hbefore : ∀ iv ∈ before, iv.maxp1 < min) (hrest : ∀ iv ∈ rest, min < iv.min)
    (hfirst : firstTouchingRange r min maxp1 = some (rest.head?.filter fun s => s.min ≤ maxp1)) :
    Coalesced r min maxp1 := by
  have hnone : ∀ s : Interval α, ¬ s.min ≤ maxp1 →
      (some s).filter (fun s => decide (s.min ≤ maxp1)) = none :=
    fun s h => if_neg (by rwa [decide_eq_true_eq])
  rcases rest with _ | ⟨s, rest⟩
  · refine ⟨before, [], [], ⟨ht, hbefore, nofun, nofun⟩, .inl ⟨rfl, ?_⟩⟩
    rw [coalesceIntervalsTouchingRange, hfirst]
    rfl
  have hs' := hs
  rw [ht] at hs'
  obtain ⟨-, -, hvalid, -⟩ := separated_append.mp hs'
  by_cases htouch : s.min ≤ maxp1
  · have hsome : firstTouchingRange r min maxp1 = some (some s) :=
      hfirst.trans (congrArg some (if_pos (decide_eq_true htouch)))
    have hmaxp1 : min ≤ s.maxp1 := ((hrest s List.mem_cons_self).trans hvalid.lt).le
    obtain ⟨joined, after, valuable, htouched, hjoin, heq⟩ :=
      coalesce_of_first hs ht hbefore hmaxp1 htouch hsome
    exact ⟨before, s :: joined, after, htouched, .inr ⟨s, joined, valuable, rfl, hjoin, heq⟩⟩
  · have hafter : ∀ iv ∈ s :: rest, maxp1 < iv.min := by
      refine List.forall_mem_cons.mpr ⟨not_le.mp htouch, fun iv hiv => ?_⟩
      exact ((not_le.mp htouch).trans hvalid.lt).trans
        (Separated.lt_of_after (fun _ hi => hi.lt) hs' iv hiv)
    refine ⟨before, [], s :: rest, ⟨ht, hbefore, nofun, hafter⟩, .inl ⟨rfl, ?_⟩⟩
    rw [coalesceIntervalsTouchingRange, hfirst, List.head?_cons, hnone s htouch]
    rfl

/-- Coalescing finds all intervals that touch the range. -/
theorem coalesced (hs : Spaced n r.sampleivtree) (hlt : min < maxp1) : Coalesced r min maxp1 := by
  have hsorted := hs.sorted
  rcases hsorted.lookupPredEq_cases min with
    ⟨hpred, hall⟩ | ⟨before, p, after, hpred, ht, hp, hall⟩
  · refine coalesced_of_succ hs (List.nil_append _).symm nofun hall ?_
    simp only [firstTouchingRange, Reorder.lookupPredEq, hpred, Option.filter_none,
      Reorder.findSucc, Reorder.findMin]
  have hsorted' := hsorted
  have hs' := hs
  rw [ht] at hsorted' hs'
  by_cases hreach : p.maxp1 ≥ min
  · have hbefore : ∀ iv ∈ before, iv.maxp1 < min :=
      fun iv hiv => (Separated.hi_lt (fun _ hi => hi.lt) hs' iv hiv).trans_le hp
    have hpred' : r.findPred p = before.getLast? := by
      rw [Reorder.findPred, ht, hsorted'.findPred_middle]
    have hassert : (r.findPred p).all fun q => q.maxp1 < min := by
      rw [hpred', Option.all_eq_true]
      exact fun q hq => decide_eq_true (hbefore q (List.mem_of_mem_getLast? hq))
    have hfirst : firstTouchingRange r min maxp1 = some (some p) := by
      have hfilter : (some p).filter (fun s => decide (s.maxp1 ≥ min)) = some p :=
        if_pos (decide_eq_true hreach)
      simp only [firstTouchingRange, Reorder.lookupPredEq, hpred, hfilter]
      exact guard_bind hassert _
    obtain ⟨joined, after, valuable, htouched, hjoin, heq⟩ :=
      coalesce_of_first hs ht hbefore hreach (hp.trans hlt.le) hfirst
    exact ⟨before, p :: joined, after, htouched, .inr ⟨p, joined, valuable, rfl, hjoin, heq⟩⟩
  · have hbefore : ∀ iv ∈ before ++ [p], iv.maxp1 < min := by
      intro iv hiv
      rcases List.mem_append.mp hiv with hiv | hiv
      · exact (Separated.hi_lt (fun _ hi => hi.lt) hs' iv hiv).trans_le hp
      · rcases List.mem_singleton.mp hiv with rfl
        exact not_le.mp hreach
    have hsplit : r.sampleivtree = (before ++ [p]) ++ after := by
      rw [ht, List.append_assoc, List.singleton_append]
    have hsucc : r.findSucc (some p) = after.head? := by
      rw [Reorder.findSucc, ht, hsorted'.findSucc_middle]
    have hfilter : (some p).filter (fun s => decide (s.maxp1 ≥ min)) = none :=
      if_neg (by rwa [decide_eq_true_eq])
    refine coalesced_of_succ hs hsplit hbefore hall ?_
    simp only [firstTouchingRange, Reorder.lookupPredEq, hpred, hfilter, hsucc]

/-! ## Around a valid admin -/

section

variable {mid : List (Interval α)} {joined : List (Interval α)}

theorem Touched.before_eq_nil (h : Touched min maxp1 r.sampleivtree before mid after)
    (hr : r.Valid) (hmin : min ≤ r.nextSeq) : before = [] := by
  refine List.eq_nil_iff_forall_not_mem.mpr fun iv hiv => ?_
  have hmem : iv ∈ r.sampleivtree := h.split ▸ List.mem_append_left _ hiv
  have hlt := hr.spaced.lt_min iv hmem
  have hvalid := Separated.kind hr.spaced iv hmem
  exact absurd (h.before iv hiv) (((hmin.trans_lt hlt).trans hvalid.lt).not_gt)

/-- A widened interval covers the range, and what its parts did. -/
theorem Touched.covers_hull (h : Touched min maxp1 r.sampleivtree before (s :: joined) after)
    {k : Nat} (hlo : (hull min maxp1 (joinAll s joined)).min ≤ k)
    (hhi : k < (hull min maxp1 (joinAll s joined)).maxp1) :
    (min ≤ k ∧ k < maxp1) ∨ CoversIn (s :: joined) k := by
  change (if min < (joinAll s joined).min then min else (joinAll s joined).min) ≤ k at hlo
  change k < (if maxp1 > (joinAll s joined).maxp1 then maxp1 else (joinAll s joined).maxp1) at hhi
  rw [joinAll_min] at hlo
  rw [joinAll_maxp1] at hhi
  by_cases hmin : min ≤ k
  · by_cases hmaxp1 : k < maxp1
    · exact .inl ⟨hmin, hmaxp1⟩
    · -- behind the range the last interval reaches on
      obtain ⟨iv, hiv, heq⟩ := exists_stop_eq Interval.maxp1 s joined
      refine .inr ⟨iv, hiv, (h.mid iv hiv).2.trans (not_lt.mp hmaxp1), ?_⟩
      rw [heq]
      split_ifs at hhi with hgt
      · exact absurd hhi hmaxp1
      · exact hhi
  · -- in front of the range the first interval begins
    refine .inr ⟨s, List.mem_cons_self, ?_, ?_⟩
    · split_ifs at hlo with hlt
      · exact absurd hlo hmin
      · exact hlo
    · exact (not_le.mp hmin).trans_le (h.mid s List.mem_cons_self).1

theorem Touched.after_spaced (h : Touched min maxp1 r.sampleivtree before (s :: joined) after)
    (hs : Spaced n r.sampleivtree) :
    Spaced (hull min maxp1 (joinAll s joined)).maxp1 after := by
  rw [h.split] at hs
  obtain ⟨-, hrest⟩ := separated_append.mp (separated_append.mp hs).2
  refine hrest.behind fun iv hiv => ?_
  change (if maxp1 > (joinAll s joined).maxp1 then maxp1 else (joinAll s joined).maxp1) < iv.min
  rw [joinAll_maxp1]
  split_ifs with hgt
  · exact h.after iv hiv
  · exact hrest.lt_lo (fun _ hi => hi.lt) iv hiv

/-- A widened interval behind the next number takes the place of its parts. -/
theorem Touched.widened (h : Touched min maxp1 r.sampleivtree before (s :: joined) after)
    (hr : r.Valid) (hvalid : (joinAll s joined).Valid)
    (hnext : r.nextSeq < (hull min maxp1 (joinAll s joined)).min) :
    Inserted r.nextSeq [] (fun k => min ≤ k ∧ k < maxp1) r.sampleivtree
      (before ++ hull min maxp1 (joinAll s joined) :: after) := by
  have hs := hr.spaced
  rw [h.split] at hs
  rw [h.split]
  refine inserted_of_joined hs hvalid.hull ?_ (h.after_spaced hr.spaced) ?_
    fun k hlo hhi => h.covers_hull hlo hhi
  · -- both the range and its first interval lie behind the ones in front
    change _ < if min < (joinAll s joined).min then min else (joinAll s joined).min
    split_ifs with hlt
    · rcases before with _ | ⟨iv, rest⟩
      · change r.nextSeq < if _ then _ else _ at hnext
        rwa [if_pos hlt] at hnext
      · obtain ⟨j, hj, heq⟩ := exists_stop_eq Interval.maxp1 iv rest
        exact lt_of_eq_of_lt heq.symm (h.before j hj)
    · rw [joinAll_min]
      exact (separated_append.mp hs).2.1
  · change (joinAll s joined).sc.Perm _
    rw [joinAll_sc, chain_cons]
    exact List.Perm.refl _

end

/-! ## `nn_reorder_gap` -/

section

variable (hr : r.Valid) (rdata : α) {mid : List (Interval α)} {joined : List (Interval α)}

include hr

/-- A gap up to the next number hands over what it touches. -/
theorem Outcome.sound_of_gap_delivered
    (h : Touched min maxp1 r.sampleivtree before (s :: joined) after)
    (hvalid : (joinAll s joined).Valid) (hmin : min ≤ r.nextSeq) (result : Int) :
    Sound r [⟨rdata, none⟩] (fun k => min ≤ k ∧ k < maxp1)
      ⟨behind r (hull min maxp1 (joinAll s joined)).maxp1 (s :: joined) after, result,
        (joinAll s joined).sc, 0, []⟩ := by
  have hnil := h.before_eq_nil hr hmin
  have hsplit := h.split
  rw [hnil, List.nil_append] at hsplit
  have hs := hr.spaced
  rw [hsplit, List.cons_append] at hs
  have htold : ∀ k, k < (hull min maxp1 (joinAll s joined)).maxp1 →
      r.Held k ∨ min ≤ k ∧ k < maxp1 := by
    intro k hk
    by_cases hnext : k < r.nextSeq
    · exact .inl (.inl hnext)
    by_cases hlo : (hull min maxp1 (joinAll s joined)).min ≤ k
    · rcases h.covers_hull hlo hk with hrange | ⟨iv, hiv, hin⟩
      · exact .inr hrange
      · exact .inl (.inr ⟨iv, hsplit ▸ List.mem_append_left after hiv, hin⟩)
    · -- the range begins up to the next number
      refine absurd ?_ hlo
      change (if min < (joinAll s joined).min then min else (joinAll s joined).min) ≤ k
      have hlt : min < (joinAll s joined).min := by
        rw [joinAll_min]
        exact hmin.trans_lt hs.1
      rw [if_pos hlt]
      exact hmin.trans (not_lt.mp hnext)
  have hlt : r.nextSeq < (hull min maxp1 (joinAll s joined)).maxp1 := by
    have hle := le_hull_maxp1 min maxp1 (joinAll s joined)
    have hnext := hs.1
    rw [← joinAll_min s joined] at hnext
    exact (hnext.trans hvalid.lt).trans_le hle
  refine sound_of_delivered rfl hr hsplit (h.after_spaced hr.spaced) ?_ ?_ ?_ ?_
  · rw [joinAll_sc, chain_cons]
    rfl
  · have hfits := hvalid.fits
    rw [joinAll_min] at hfits
    exact hfits.mono hs.1.le (le_hull_maxp1 min maxp1 _)
  · exact fun _ k hk => (htold k hk).imp id .inl
  · refine ⟨(hull min maxp1 (joinAll s joined)).maxp1 - 1, by omega, ?_⟩
    exact (htold _ (by omega)).imp id .inl

/-- A gap up to the next number that touches nothing moves the next number. -/
theorem Outcome.sound_of_gap_skipped (h : Touched min maxp1 r.sampleivtree before [] after)
    (hnext : r.nextSeq < maxp1) (hmin : min ≤ r.nextSeq) :
    Sound r [⟨rdata, none⟩] (fun k => min ≤ k ∧ k < maxp1)
      ⟨behind r maxp1 [] r.sampleivtree, reorderAccept, [], 0, []⟩ := by
  have hsplit : r.sampleivtree = after := by
    rw [h.split, h.before_eq_nil hr hmin]
    rfl
  have hrest : Spaced maxp1 r.sampleivtree := hr.spaced.behind (hsplit ▸ h.after)
  refine sound_of_delivered rfl hr rfl hrest rfl hnext.le ?_ ?_
  · intro _ k hk
    by_cases hold : k < r.nextSeq
    · exact .inl (.inl hold)
    · exact .inr (.inl ⟨hmin.trans (not_lt.mp hold), hk⟩)
  · exact ⟨maxp1 - 1, by omega, .inr (.inl ⟨by omega, by omega⟩)⟩

/-- A gap that does not lie behind the last interval lies in front of its end. -/
theorem Reorder.gapAtEnd_eq (min : Nat) :
    ∃ atEnd, r.gapAtEnd min = some atEnd ∧
      (atEnd = false → ∃ last ∈ r.sampleivtree, min ≤ last.maxp1) := by
  obtain ⟨last, hlast, hmem⟩ := exists_followMax hr
  refine ⟨last.all fun last => min > last.maxp1, by rw [gapAtEnd, hlast]; rfl, fun h => ?_⟩
  obtain ⟨iv, hiv, hle⟩ := Option.all_eq_false _ _ |>.mp h
  exact ⟨iv, hmem iv hiv, not_lt.mp (of_decide_eq_false hle)⟩

/-- A gap that touches nothing, behind the next number, is stored as an element, if there is
room or it lies in front of others. -/
theorem Outcome.sound_of_gap_stored (h : Touched min maxp1 r.sampleivtree before [] after)
    (hmode : r.mode = .normal) (hnext : r.nextSeq < min) (hlt : min < maxp1) :
    ∃ out, Sound r [⟨rdata, none⟩] (fun k => min ≤ k ∧ k < maxp1) out ∧
      r.storeGap rdata min maxp1 = some out := by
  have hsplit : r.sampleivtree = before ++ after := h.split
  have hs := hr.spaced
  rw [hsplit] at hs
  have hgap : Interval.Valid (⟨min, maxp1, [⟨rdata, none⟩], 1⟩ : Interval α) :=
    ⟨⟨min, le_rfl, nofun, hlt⟩, List.cons_ne_nil _ _, rfl⟩
  have hend : endOf r.nextSeq before < min := by
    rcases before with _ | ⟨iv, rest⟩
    · exact hnext
    · obtain ⟨j, hj, heq⟩ := exists_stop_eq Interval.maxp1 iv rest
      exact lt_of_eq_of_lt heq.symm (h.before j hj)
  have hins : Inserted r.nextSeq [⟨rdata, none⟩] (fun k => min ≤ k ∧ k < maxp1) r.sampleivtree
      (before ++ ⟨min, maxp1, [⟨rdata, none⟩], 1⟩ :: after) :=
    hsplit ▸ inserted_alone hs hgap rfl hend h.after
  have hbefore : ∀ iv ∈ before, iv.min < min := by
    intro iv hiv
    have hvalid := Separated.kind (separated_append.mp hs).1 iv hiv
    exact hvalid.lt.trans (h.before iv hiv)
  have hadd : reorderInsertGap r rdata min maxp1 =
      some { r with sampleivtree := before ++ ⟨min, maxp1, [⟨rdata, none⟩], 1⟩ :: after } :=
    Reorder.addRsampleiv_of_split hsplit hbefore fun iv hiv => hlt.trans (h.after iv hiv)
  obtain ⟨atEnd, hatEnd, hlast⟩ := Reorder.gapAtEnd_eq hr min
  rw [Reorder.storeGap, hatEnd, Option.bind_eq_bind, Option.bind_some]
  by_cases hreject : r.nSamples = r.maxSamples ∧ atEnd = true
  · rw [if_pos hreject]
    refine ⟨_, sound_of_refused hr reorderReject _ _ ?_, rfl⟩
    have hmax := hr.max
    rw [Reorder.setMax, ← hmax]
  rw [if_neg hreject, hadd, Option.bind_eq_bind, Option.bind_some]
  by_cases hroom : r.nSamples < r.maxSamples
  · have hsound := sound_of_inserted hr hmode (hins.mono fun _ hk => .inl hk) hroom
    exact ⟨_, hsound, if_pos hroom⟩
  · have hfull : r.nSamples = r.maxSamples := Nat.le_antisymm hr.le (not_lt.mp hroom)
    obtain ⟨last, hmem, hle⟩ := hlast (Bool.eq_false_iff.mpr fun h => hreject ⟨hfull, h⟩)
    have hafter : after ≠ [] := by
      rintro rfl
      rw [hsplit, List.append_nil] at hmem
      exact absurd (h.before last hmem) (not_lt.mpr hle)
    have hne : r.sampleivtree ≠ [] := List.ne_nil_of_mem hmem
    obtain ⟨r', x, hdelete, hmax, hsound⟩ := sound_of_exchanged hr hmode
      (hins.mono fun _ hk => .inl hk) hne
    -- the pointer to the last interval is not stale, as the gap is not at the end
    have hkey : r.maxSampleiv = lastKey (before ++ ⟨min, maxp1, [⟨rdata, none⟩], 1⟩ :: after) := by
      rw [show r.maxSampleiv = lastKey r.sampleivtree from hr.max, hsplit, lastKey_append_cons,
        lastKey_append before after hafter, lastKey_cons_ne _ hafter]
    rw [withTree, ← hkey] at hdelete
    refine ⟨_, hsound, (if_neg hroom).trans ?_⟩
    rw [hdelete, Option.bind_eq_bind, Option.bind_some]
    have hset : r'.setMax = r' := by
      have hmax' : r'.maxSampleiv = r'.findMax.map (·.min) := hmax
      rw [Reorder.setMax, ← hmax']
    exact congrArg some (by rw [hset])

end

/-- What `Reorder.deliverCoalesced` returns for a widened interval. -/
theorem Reorder.deliverCoalesced_eq {joined : List (Interval α)} (hr : r.Valid)
    (h : Touched min maxp1 r.sampleivtree [] (s :: joined) after)
    (hvalid : (joinAll s joined).Valid) (hmin : min ≤ r.nextSeq) :
    deliverCoalesced { r with sampleivtree := hull min maxp1 (joinAll s joined) :: after } min
        (hull min maxp1 (joinAll s joined)) =
      some ⟨Outcome.behind r (hull min maxp1 (joinAll s joined)).maxp1 (s :: joined) after,
        (joinAll s joined).nSamples, (joinAll s joined).sc, 0, []⟩ := by
  have hafter := h.after_spaced hr.spaced
  have hsorted : KeyedTree.Sorted Interval.min (hull min maxp1 (joinAll s joined) :: after) :=
    List.pairwise_cons.mpr ⟨fun iv hiv => (hvalid.hull.lt).trans
      (hafter.lt_lo (fun _ hi => hi.lt) iv hiv), hafter.sorted⟩
  have hchain : (joinAll s joined).nSamples = (chain (s :: joined)).length := by
    rw [hvalid.nSamples, joinAll_sc, chain_cons]
  have hle : (joinAll s joined).nSamples ≤ r.nSamples := by
    rw [hchain, hr.nSamples, stored, h.split, List.nil_append, chain_append, List.length_append]
    exact Nat.le_add_right _ _
  have hdelete := delete_of_split
    (r := { r with sampleivtree := hull min maxp1 (joinAll s joined) :: after }) hsorted
    (List.nil_append _).symm
  rw [deliverCoalesced, guard_bind hmin, hdelete]
  refine (guard_bind hvalid.hull.length_le _).trans ((guard_bind hle _).trans ?_)
  rw [Outcome.behind, ← hchain]
  rfl

/-- A widened interval that the next number has reached is one that the range reaches. -/
theorem Touched.min_le {joined : List (Interval α)} (hr : r.Valid)
    (h : Touched min maxp1 r.sampleivtree before (s :: joined) after)
    (hreach : (hull min maxp1 (joinAll s joined)).min ≤ r.nextSeq) : min ≤ r.nextSeq := by
  have hmem : s ∈ r.sampleivtree :=
    h.split ▸ List.mem_append_right _ (List.mem_append_left _ List.mem_cons_self)
  have hs := hr.spaced.lt_min s hmem
  change (if min < (joinAll s joined).min then min else (joinAll s joined).min) ≤ _ at hreach
  rw [joinAll_min] at hreach
  split_ifs at hreach with hlow
  · exact hreach
  · exact absurd hreach (not_le.mpr hs)

/-- A gap up to the next number takes the intervals that it touches off the front, and stores
nothing. -/
theorem nnReorderGap_reached (hr : r.Valid) (rdata : α) (hmode : r.mode = .normal)
    (hmin : min ≤ r.nextSeq) (hnext : r.nextSeq < maxp1) :
    ∃ front rest next, nnReorderGap r rdata min maxp1 =
        some ⟨Outcome.behind r next front rest, ((chain front).length : Nat), chain front, 0, []⟩ ∧
      Outcome.Sound r [⟨rdata, none⟩] (fun k => min ≤ k ∧ k < maxp1)
        ⟨Outcome.behind r next front rest, ((chain front).length : Nat), chain front, 0, []⟩ ∧
      r.sampleivtree = front ++ rest ∧ (∀ iv ∈ rest, maxp1 < iv.min) ∧
      (next = maxp1 ∨ maxp1 ≤ next ∧ ∃ iv ∈ front, next = iv.maxp1) := by
  simp only [nnReorderGap, if_neg (not_le.mpr hnext), if_neg (not_not.mpr hmode)]
  obtain ⟨before, mid, after, h, ⟨rfl, heq⟩ | ⟨s, joined, valuable, rfl, hvalid, heq⟩⟩ :=
    coalesced hr.spaced (hmin.trans_lt hnext)
  · rw [heq, Option.bind_eq_bind, Option.bind_some]
    dsimp only
    obtain rfl := h.before_eq_nil hr hmin
    have hsplit : r.sampleivtree = after := h.split
    rw [if_pos hmin]
    exact ⟨[], r.sampleivtree, maxp1, rfl, Outcome.sound_of_gap_skipped hr rdata h hnext hmin, rfl,
      hsplit ▸ h.after, .inl rfl⟩
  · rw [heq, Option.bind_eq_bind, Option.bind_some]
    dsimp only
    obtain rfl := h.before_eq_nil hr hmin
    have hreach : (hull min maxp1 (joinAll s joined)).min ≤ r.nextSeq := by
      have hs := hr.spaced
      rw [h.split] at hs
      change (if min < (joinAll s joined).min then min else (joinAll s joined).min) ≤ r.nextSeq
      rw [joinAll_min, if_pos (hmin.trans_lt hs.1)]
      exact hmin
    have hsc : (joinAll s joined).sc = chain (s :: joined) := by rw [joinAll_sc, chain_cons]
    have hcount : (joinAll s joined).nSamples = (chain (s :: joined)).length := by
      rw [hvalid.nSamples, hsc]
    have hsound := Outcome.sound_of_gap_delivered hr rdata h hvalid hmin
      ((chain (s :: joined)).length : Nat)
    rw [hsc] at hsound
    refine ⟨s :: joined, after, (hull min maxp1 (joinAll s joined)).maxp1, ?_, hsound, h.split,
      h.after, ?_⟩
    · rw [if_pos hreach]
      refine (Reorder.deliverCoalesced_eq hr h hvalid hmin).trans ?_
      rw [hcount, hsc]
    · obtain ⟨iv, hiv, hlast⟩ := exists_stop_eq Interval.maxp1 s joined
      rcases hull_maxp1_cases min maxp1 (joinAll s joined) with hmaxp1 | ⟨hle, hmaxp1⟩
      · exact .inl hmaxp1
      · refine .inr ⟨hle, iv, hiv, ?_⟩
        rw [hmaxp1, joinAll_maxp1, hlast]

/-- `nn_reorder_gap` on a valid admin, for a range with a number in it, or up to the first. -/
theorem nnReorderGap_sound (hr : r.Valid) (rdata : α) (hrange : min < maxp1 ∨ maxp1 ≤ 1) :
    ∃ out, Outcome.Sound r [⟨rdata, none⟩] (fun k => min ≤ k ∧ k < maxp1) out ∧
      nnReorderGap r rdata min maxp1 = some out := by
  by_cases hold : maxp1 ≤ r.nextSeq
  · exact ⟨_, Outcome.sound_of_refused hr reorderTooOld _ _ rfl, if_pos hold⟩
  by_cases hmode : r.mode = .normal
  · have hlt : min < maxp1 := hrange.resolve_right fun h => hold (h.trans hr.pos)
    by_cases hmin : min ≤ r.nextSeq
    · obtain ⟨front, rest, next, heq, hsound, -⟩ :=
        nnReorderGap_reached hr rdata hmode hmin (not_le.mp hold)
      exact ⟨_, hsound, heq⟩
    simp only [nnReorderGap, if_neg hold, if_neg (not_not.mpr hmode)]
    obtain ⟨before, mid, after, h, ⟨rfl, heq⟩ | ⟨s, joined, valuable, rfl, hvalid, heq⟩⟩ :=
      coalesced hr.spaced hlt
    · rw [heq, Option.bind_eq_bind, Option.bind_some]
      dsimp only
      rw [if_neg hmin]
      exact Outcome.sound_of_gap_stored hr rdata h hmode (not_le.mp hmin) hlt
    · rw [heq, Option.bind_eq_bind, Option.bind_some]
      dsimp only
      have hreach : ¬ (hull min maxp1 (joinAll s joined)).min ≤ r.nextSeq :=
        fun hle => hmin (h.min_le hr hle)
      rw [if_neg hreach]
      exact ⟨_, Outcome.sound_of_widened hr hmode (h.widened hr hvalid (not_le.mp hreach)), rfl⟩
  · exact ⟨_, Outcome.sound_of_refused hr reorderReject _ _ rfl,
      (if_neg hold).trans (if_pos hmode)⟩

end DdsPlayground.Ddsi
