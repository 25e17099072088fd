import DdsPlayground.Ddsi.Correctness.Delivery

/-!
# Requests for retransmission

The bitmap of `nn_reorder_nackmap` asks for the holes between the intervals. Where it begins
at the next number, these are the numbers that `nn_reorder_wantsample` wants.
-/

namespace DdsPlayground.Ddsi

open Intervals

variable {α : Type} {base i stop : Nat} {mapbits : List Bool}

/-! ## Setting bits -/

theorem getElem?_foldl_set (hbase : base ≤ i) (n j : Nat) :
    ((List.range' i n).foldl (fun mapbits i => mapbits.set (i - base) true) mapbits)[j]? =
      if i ≤ base + j ∧ base + j < i + n then mapbits[j]?.map fun _ => true else mapbits[j]? := by
  induction n generalizing i mapbits with
  | zero => rw [if_neg (by omega), List.range'_zero, List.foldl_nil]
  | succ n ih =>
    rw [List.range'_succ, List.foldl_cons, ih (by omega), List.getElem?_set]
    by_cases hj : i - base = j
    · have hin : i ≤ base + j ∧ base + j < i + (n + 1) := by omega
      rw [if_neg (by omega), if_pos hj, if_pos hin]
      by_cases hlen : i - base < mapbits.length
      · rw [if_pos hlen, List.getElem?_eq_getElem (hj ▸ hlen)]
        rfl
      · rw [if_neg hlen, List.getElem?_eq_none (hj ▸ not_lt.mp hlen)]
        rfl
    · rw [if_neg hj]
      by_cases hin : i + 1 ≤ base + j ∧ base + j < i + 1 + n
      · rw [if_pos hin, if_pos (by omega)]
      · rw [if_neg hin, if_neg (by omega)]

theorem getElem?_setBits (hbase : base ≤ i) (j : Nat) :
    (setBits base i stop mapbits)[j]? =
      if i ≤ base + j ∧ base + j < stop then mapbits[j]?.map fun _ => true else mapbits[j]? := by
  rw [setBits, getElem?_foldl_set hbase]
  by_cases hin : i ≤ base + j ∧ base + j < stop
  · rw [if_pos hin, if_pos (by omega)]
  · rw [if_neg hin, if_neg (by omega)]

/-! ## The loop -/

/-- The loop ends at the end of the intervals or of the map, and sets the bits of the holes
up to there. -/
theorem nackIntervals_spec (stop : Nat) (mapbits : List Bool) {t : List (Interval α)} (hs : Spaced i t) (hbase : base ≤ i) :
    (i ≤ (nackIntervals base stop t i mapbits).1 ∧
      (nackIntervals base stop t i mapbits).1 ≤ endOf i t) ∧
      ((nackIntervals base stop t i mapbits).1 = endOf i t ∨
        stop ≤ (nackIntervals base stop t i mapbits).1) ∧
      ∀ j, base + j < stop → (nackIntervals base stop t i mapbits).2[j]? =
        if i ≤ base + j ∧ base + j < (nackIntervals base stop t i mapbits).1 ∧
            ¬ CoversIn t (base + j) then mapbits[j]?.map fun _ => true
        else mapbits[j]? := by
  induction t generalizing i mapbits with
  | nil =>
    refine ⟨⟨le_rfl, le_rfl⟩, .inl rfl, fun j _ => ?_⟩
    rw [nackIntervals, if_neg (by omega)]
  | cons iv rest ih =>
    obtain ⟨hmin, hvalid, hrest⟩ := hs
    by_cases hi : i < stop
    · have hlt := hvalid.lt
      obtain ⟨⟨hlo, hhi⟩, hend, hbits⟩ :=
        ih (setBits base i (min stop iv.min) mapbits) hrest (by omega)
      have hcovers : ∀ k, CoversIn (iv :: rest) k ↔ (iv.min ≤ k ∧ k < iv.maxp1) ∨ CoversIn rest k := by
        intro k
        rw [← List.singleton_append, coversIn_append]
        simp only [CoversIn, List.mem_singleton, exists_eq_left]
      have hbehind : ∀ k, CoversIn rest k → iv.maxp1 < k := by
        rintro k ⟨jv, hjv, hle, -⟩
        exact (Spaced.lt_min hrest jv hjv).trans_le hle
      rw [nackIntervals, if_pos hi]
      refine ⟨⟨by omega, hhi⟩, hend, fun j hj => ?_⟩
      rw [hbits j hj, getElem?_setBits hbase]
      by_cases hfront : base + j < iv.min
      · -- in front of the interval nothing is covered
        have hnone : ¬ CoversIn (iv :: rest) (base + j) := by
          rw [hcovers]
          rintro (⟨hle, -⟩ | hrest)
          · omega
          · have hlt' := hbehind _ hrest
            omega
        rw [if_neg (fun h => by omega)]
        by_cases hij : i ≤ base + j
        · rw [if_pos ⟨hij, lt_min hj hfront⟩, if_pos ⟨hij, by omega, hnone⟩]
        · rw [if_neg (fun h => hij h.1), if_neg (fun h => hij h.1)]
      have hinner : ¬ (i ≤ base + j ∧ base + j < min stop iv.min) :=
        fun h => hfront (lt_min_iff.mp h.2).2
      simp only [if_neg hinner]
      by_cases hin : base + j < iv.maxp1
      · -- the interval itself is left out
        rw [if_neg (fun h => by omega), if_neg]
        exact fun h => h.2.2 ((hcovers _).mpr (.inl ⟨not_lt.mp hfront, hin⟩))
      by_cases hcond : base + j < (nackIntervals base stop rest iv.maxp1
          (setBits base i (min stop iv.min) mapbits)).1 ∧ ¬ CoversIn rest (base + j)
      · have hnone : ¬ CoversIn (iv :: rest) (base + j) :=
          fun h => ((hcovers _).mp h).elim (fun h => hin h.2) hcond.2
        rw [if_pos ⟨not_lt.mp hin, hcond⟩, if_pos ⟨by omega, hcond.1, hnone⟩]
      · rw [if_neg (fun h => hcond h.2), if_neg fun h => hcond ⟨h.2.1, fun hc =>
          h.2.2 ((hcovers _).mpr (.inr hc))⟩]
    · rw [nackIntervals, if_neg hi]
      refine ⟨⟨le_rfl, ?_⟩, .inr (not_lt.mp hi), fun j hj => ?_⟩
      · exact Separated.le_stop (fun _ hi => hi.lt) (⟨hmin, hvalid, hrest⟩ : Spaced i (iv :: rest))
      · rw [if_neg (by omega)]

/-! ## The map -/

/-- `nn_reorder_nackmap` on a valid admin: the map begins at the given number, or at the next
one if that is smaller, and asks for what no interval covers. -/
theorem nnReorderNackmap_eq {r : Reorder α} (hr : r.Valid) (base maxseq : Nat) {maxsz : Nat}
    (hmaxsz : maxsz ≤ 256) (notail : Bool) :
    ∃ map, nnReorderNackmap r base maxseq maxsz notail = some map ∧
      map.bitmapBase = min base r.nextSeq ∧
      map.numbits ≤ min (maxseq + 1 - map.bitmapBase) (min maxsz r.maxSamples) ∧
      (map.numbits < min (maxseq + 1 - map.bitmapBase) (min maxsz r.maxSamples) →
        notail = true ∧
          endOf map.bitmapBase r.sampleivtree = map.bitmapBase + map.numbits) ∧
      ∀ j < map.numbits, map.mapbits[j]? = some (decide (¬ r.Covers (map.bitmapBase + j))) := by
  obtain ⟨b, hb⟩ : ∃ b, b = min base r.nextSeq := ⟨_, rfl⟩
  obtain ⟨n, hn⟩ : ∃ n, n = min (maxseq + 1 - b) (min maxsz r.maxSamples) := ⟨_, rfl⟩
  have hbase : (if base > r.nextSeq then r.nextSeq else base) = b := by
    split_ifs <;> omega
  have hsz : (if maxsz > r.maxSamples then r.maxSamples else maxsz) = min maxsz r.maxSamples := by
    split_ifs <;> omega
  have hnum : (if (if maxseq + 1 < b then b - 1 else maxseq) + 1 - b > min maxsz r.maxSamples then
      min maxsz r.maxSamples else (if maxseq + 1 < b then b - 1 else maxseq) + 1 - b) = n := by
    split_ifs <;> omega
  have hs : Spaced b r.sampleivtree := hr.spaced.mono (by omega)
  have hassert : r.findMin.all fun iv => iv.min > b := by
    rw [Option.all_eq_true]
    exact fun iv hiv => decide_eq_true (hs.lt_min iv (List.mem_of_mem_head? hiv))
  obtain ⟨⟨hlo, hhi⟩, hend, hbits⟩ :=
    nackIntervals_spec (b + n) (List.replicate n false) hs le_rfl
  have hbehind : ∀ k, endOf b r.sampleivtree ≤ k → ¬ CoversIn r.sampleivtree k := by
    rintro k hk ⟨iv, hiv, -, hlt⟩
    exact absurd (hlt.trans_le (Separated.hi_le_stop (fun _ hi => hi.lt) hs iv hiv)) hk.not_gt
  have hclear : ∀ j, j < n → (List.replicate n false)[j]? = some false :=
    fun j hj => List.getElem?_replicate.trans (if_pos hj)
  simp only [nnReorderNackmap, guard_bind hmaxsz, hbase, hsz, hnum, guard_bind hassert]
  generalize nackIntervals b (b + n) r.sampleivtree b (List.replicate n false) = out at *
  by_cases htail : notail = true ∧ out.1 < b + n
  · rw [if_pos htail]
    have hout : out.1 = endOf b r.sampleivtree := hend.resolve_right (not_le.mpr htail.2)
    refine ⟨_, rfl, hb, by dsimp only; omega, fun _ => ⟨htail.1, by dsimp only; omega⟩, ?_⟩
    intro j hj
    dsimp only at hj ⊢
    rw [hbits j (by omega), hclear j (by omega)]
    by_cases hcovers : r.Covers (b + j)
    · rw [if_neg (fun h => h.2.2 hcovers), decide_eq_false (not_not.mpr hcovers)]
    · rw [if_pos ⟨by omega, by omega, hcovers⟩, decide_eq_true hcovers]
      rfl
  · rw [if_neg htail]
    refine ⟨_, rfl, hb, hn.le, fun h => absurd hn h.ne, ?_⟩
    intro j hj
    dsimp only at hj ⊢
    rw [getElem?_setBits hlo, hbits j (by omega), hclear j hj]
    by_cases hcovers : r.Covers (b + j)
    · have hfront : ¬ (out.1 ≤ b + j ∧ b + j < b + n) := by
        rintro ⟨hle, hlt⟩
        exact hbehind _ ((hend.resolve_right (by omega)) ▸ hle) hcovers
      rw [if_neg hfront, if_neg (fun h => h.2.2 hcovers), decide_eq_false (not_not.mpr hcovers)]
    · rw [decide_eq_true hcovers]
      by_cases hlt : b + j < out.1
      · rw [if_neg (by omega), if_pos ⟨by omega, hlt, hcovers⟩]
        rfl
      · rw [if_pos ⟨not_lt.mp hlt, by omega⟩, if_neg (fun h => hlt h.2.1)]
        rfl

/-- In every run, a map that begins at the next number asks exactly for the wanted ones among
its numbers, and it stops before what it may ask for only at the end of what has arrived. -/
theorem nackmap_wanted {mode : ReorderMode} {maxSamples : Nat} {lateAckMode : Bool}
    {arrivals : List (Arrival α)} {t : Trace α} (hmode : mode ≠ .alwaysDeliver)
    (harrivals : ∀ a ∈ arrivals, a.Admissible)
    (h : (Trace.init mode maxSamples lateAckMode).run arrivals = some t) (maxseq : Nat)
    {maxsz : Nat} (hmaxsz : maxsz ≤ 256) (notail : Bool) :
    ∃ map, nnReorderNackmap t.reorder t.reorder.nextSeq maxseq maxsz notail = some map ∧
      map.bitmapBase = t.reorder.nextSeq ∧
      (∀ j < map.numbits,
        map.mapbits[j]? = some (nnReorderWantsample t.reorder (map.bitmapBase + j))) ∧
      ∀ n, t.reorder.nextSeq + map.numbits ≤ n → n ≤ maxseq →
        n < t.reorder.nextSeq + min maxsz maxSamples →
          notail = true ∧ nnReorderWantsample t.reorder n = true := by
  obtain ⟨ht, -, hmax⟩ := Trace.sound_of_run hmode harrivals h
  obtain ⟨map, heq, hbase, hle, hcut, hbits⟩ :=
    nnReorderNackmap_eq ht.valid t.reorder.nextSeq maxseq hmaxsz notail
  rw [min_self] at hbase
  have hwant : ∀ n, t.reorder.nextSeq ≤ n →
      nnReorderWantsample t.reorder n = decide (¬ t.reorder.Covers n) := by
    intro n hn
    rw [Bool.eq_iff_iff, decide_eq_true_eq, ← not_iff_not, not_not, Bool.not_eq_true,
      wantsample_eq_false ht.valid]
    exact ⟨fun h => h.resolve_left hn.not_gt, .inr⟩
  refine ⟨map, heq, hbase, fun j hj => ?_, fun n hlo hhi hroom => ?_⟩
  · rw [hbits j hj, hwant _ (hbase ▸ Nat.le_add_right _ _)]
  · rw [hbase, hmax] at hcut
    obtain ⟨htail, hend⟩ := hcut (by omega)
    refine ⟨htail, ?_⟩
    rw [hwant n (by omega), decide_eq_true_eq]
    rintro ⟨iv, hiv, -, hlt⟩
    have hstop := Separated.hi_le_stop (fun _ hi => hi.lt) ht.valid.spaced iv hiv
    exact absurd (hlt.trans_le (hstop.trans hend.le)) hlo.not_gt

/-- A map behind a reordered start: the numbers 1 and 4 are missing. -/
theorem nackmap_wanted_holes :
    ∃ t ∈ (Trace.init .normal 8 false).run [.sample ⟨2, 1⟩ 'b' false, .gap 'g' 3 4,
        .sample ⟨5, 1⟩ 'e' false],
      ∃ map, nnReorderNackmap t.reorder t.reorder.nextSeq 6 256 true = some map ∧
        map.bitmapBase = t.reorder.nextSeq ∧
        (∀ j < map.numbits,
          map.mapbits[j]? = some (nnReorderWantsample t.reorder (map.bitmapBase + j))) ∧
        ∀ n, t.reorder.nextSeq + map.numbits ≤ n → n ≤ 6 →
          n < t.reorder.nextSeq + min 256 8 →
            true = true ∧ nnReorderWantsample t.reorder n = true := by
  have hrun : ∃ t, (Trace.init .normal 8 false).run [.sample ⟨2, 1⟩ 'b' false, .gap 'g' 3 4,
      .sample ⟨5, 1⟩ 'e' false] = some t := ⟨_, rfl⟩
  obtain ⟨t, ht⟩ := hrun
  exact ⟨t, ht, nackmap_wanted (by decide) (by decide) ht 6 (by decide) true⟩

end DdsPlayground.Ddsi
