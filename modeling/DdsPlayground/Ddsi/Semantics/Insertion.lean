import DdsPlayground.Ddsi.Semantics.Index
import Mathlib.Data.List.Basic

/-!
# Insertion and eviction

Storing a sample exchanges at most two intervals in the middle of the tree, which it joins
or extends, for one. Evicting the last sample takes it off the last interval, or takes away
an interval that holds nothing else.
-/

namespace DdsPlayground.Ddsi

open Intervals

variable {α : Type}

/-- The key of the last interval. -/
def lastKey (t : List (Interval α)) : Option Nat := t.getLast?.map (·.min)

theorem lastKey_append (t u : List (Interval α)) (hu : u ≠ []) : lastKey (t ++ u) = lastKey u := by
  rw [lastKey, List.getLast?_append_of_ne_nil _ hu, lastKey]

/-! ## Exchanging intervals for one -/

/-- The intervals with further elements and numbers. -/
structure Inserted (n : Nat) (es : List (ChainElem α)) (numbers : Nat → Prop)
    (t t' : List (Interval α)) : Prop where
  spaced : Spaced n t'
  perm : (chain t').Perm (es ++ chain t)
  covers : ∀ k, CoversIn t' k → numbers k ∨ CoversIn t k

/-- An interval takes the place of some neighbours with whose samples, and further ones, it
is filled. -/
theorem inserted_of_joined {n : Nat} {es : List (ChainElem α)} {numbers : Nat → Prop}
    {before mid after : List (Interval α)} {g : Interval α}
    (hs : Spaced n (before ++ (mid ++ after))) (hg : g.Valid)
    (hbefore : endOf n before < g.min) (hafter : Spaced g.maxp1 after)
    (hperm : g.sc.Perm (es ++ chain mid))
    (hcovers : ∀ k, g.min ≤ k → k < g.maxp1 → numbers k ∨ CoversIn mid k) :
    Inserted n es numbers (before ++ (mid ++ after)) (before ++ g :: after) := by
  refine ⟨?_, ?_, ?_⟩
  · exact separated_append.mpr ⟨(separated_append.mp hs).1, hbefore, hg, hafter⟩
  · rw [chain_append, chain_append, chain_append, chain_cons]
    have hgrown := (hperm.append_right (chain after)).append_left (chain before)
    rw [List.append_assoc] at hgrown
    exact hgrown.trans (List.perm_append_comm_assoc _ _ _)
  · intro k hk
    simp only [coversIn_append] at hk ⊢
    rcases hk with hk | ⟨iv, hiv, hlo, hhi⟩
    · exact .inr (.inl hk)
    · rcases List.mem_cons.mp hiv with rfl | hiv
      · exact (hcovers k hlo hhi).imp id fun hmid => .inr (.inl hmid)
      · exact .inr (.inr (.inr ⟨iv, hiv, hlo, hhi⟩))

section

variable {n : Nat} {info : SampleInfo} {fragchain : α} {before after : List (Interval α)}
  {p x : Interval α}

/-- A sample at the end of an interval extends it. -/
theorem inserted_append (hs : Spaced n (before ++ ([p] ++ after))) (hp : p.maxp1 = info.seq)
    (hafter : ∀ iv ∈ after, info.seq + 1 < iv.min) :
    Inserted n [⟨fragchain, some info⟩] (· = info.seq) (before ++ ([p] ++ after))
      (before ++ appendRsampleInterval p (Interval.ofSample info fragchain) :: after) := by
  obtain ⟨-, hmin, hvalid, hrest⟩ := separated_append.mp hs
  refine inserted_of_joined hs (hvalid.append (Interval.valid_ofSample info fragchain) hp.le)
    hmin (hrest.behind hafter) ?_ ?_
  · rw [chain_singleton]
    exact List.perm_append_comm
  · intro k hlo hhi
    by_cases hk : k < p.maxp1
    · exact .inr ⟨p, List.mem_singleton_self p, hlo, hk⟩
    · have hle : k < info.seq + 1 := hhi
      exact .inl (by omega)

/-- A sample in front of an interval extends it. -/
theorem inserted_prepend (hs : Spaced n (before ++ ([x] ++ after))) (hx : x.min = info.seq + 1)
    (hbefore : endOf n before < info.seq) :
    Inserted n [⟨fragchain, some info⟩] (· = info.seq) (before ++ ([x] ++ after))
      (before ++ appendRsampleInterval (Interval.ofSample info fragchain) x :: after) := by
  obtain ⟨-, -, hvalid, hrest⟩ := separated_append.mp hs
  refine inserted_of_joined hs ((Interval.valid_ofSample info fragchain).append hvalid hx.ge)
    hbefore hrest ?_ ?_
  · rw [chain_singleton]
    exact List.Perm.refl _
  · intro k hlo hhi
    by_cases hk : k = info.seq
    · exact .inl hk
    · have hle : info.seq ≤ k := hlo
      exact .inr ⟨x, List.mem_singleton_self x, by omega, hhi⟩

/-- A sample between two intervals joins them. -/
theorem inserted_join (hs : Spaced n (before ++ ([p, x] ++ after))) (hp : p.maxp1 = info.seq)
    (hx : x.min = info.seq + 1) :
    Inserted n [⟨fragchain, some info⟩] (· = info.seq) (before ++ ([p, x] ++ after))
      (before ++ appendRsampleInterval
        (appendRsampleInterval p (Interval.ofSample info fragchain)) x :: after) := by
  obtain ⟨-, hmin, hvalidp, -, hvalidx, hrest⟩ := separated_append.mp hs
  have hjoin := hvalidp.append (Interval.valid_ofSample info fragchain) hp.le
  refine inserted_of_joined hs (hjoin.append hvalidx hx.ge) hmin hrest ?_ ?_
  · rw [chain_cons, chain_singleton]
    simp only [appendRsampleInterval, Interval.ofSample, List.append_assoc, List.singleton_append]
    exact List.perm_middle
  · intro k hlo hhi
    have hlo' : p.min ≤ k := hlo
    have hhi' : k < x.maxp1 := hhi
    rcases Nat.lt_trichotomy k info.seq with hk | hk | hk
    · exact .inr ⟨p, List.mem_cons_self, hlo', hp ▸ hk⟩
    · exact .inl hk
    · exact .inr ⟨x, List.mem_cons_of_mem _ (List.mem_singleton_self x), by omega, hhi'⟩

/-- An element that touches no interval is one of its own. -/
theorem inserted_alone {g : Interval α} {e : ChainElem α} (hs : Spaced n (before ++ after))
    (hg : g.Valid) (hsc : g.sc = [e]) (hbefore : endOf n before < g.min)
    (hafter : ∀ iv ∈ after, g.maxp1 < iv.min) :
    Inserted n [e] (fun k => g.min ≤ k ∧ k < g.maxp1) (before ++ after) (before ++ g :: after) := by
  obtain ⟨-, hrest⟩ := separated_append.mp hs
  have hsplit : Spaced n (before ++ ([] ++ after)) := hs
  refine inserted_of_joined hsplit hg hbefore (hrest.behind hafter) ?_ ?_
  · rw [hsc]
    exact List.Perm.refl _
  · exact fun k hlo hhi => .inl ⟨hlo, hhi⟩

end

theorem Inserted.mono {n : Nat} {e : List (ChainElem α)} {p q : Nat → Prop} {t t' : List (Interval α)}
    (h : Inserted n e p t t') (hpq : ∀ k, p k → q k) : Inserted n e q t t' :=
  ⟨h.spaced, h.perm, fun k hk => (h.covers k hk).imp (hpq k) id⟩

/-! ## Taking off the last element -/

/-- The intervals without their last element. Its number stays covered only where a hole
lies behind it. -/
structure Dropped (n : Nat) (e : ChainElem α) (t t' : List (Interval α)) : Prop where
  spaced : Spaced n t'
  chain_eq : chain t = chain t' ++ [e]
  covers : ∀ k, CoversIn t' k → CoversIn t k
  behind : ∀ k, e.seq? = some k → CoversIn t' k →
    ∃ m, k < m ∧ CoversIn t m ∧ ∀ x ∈ chain t, x.seq? ≠ some m

section

variable {n : Nat} {before : List (Interval α)} {last : Interval α} {e : ChainElem α}

theorem dropped_interval (hs : Spaced n (before ++ [last])) (hsc : last.sc = [e]) :
    Dropped n e (before ++ [last]) before := by
  refine ⟨(separated_append.mp hs).1, ?_, ?_, ?_⟩
  · rw [chain_append, chain_singleton, hsc]
  · exact fun k hk => coversIn_append.mpr (.inl hk)
  · rintro k he ⟨iv, hiv, -, hhi⟩
    have hlt : iv.maxp1 < last.min := Separated.hi_lt (fun _ hi => hi.lt) hs iv hiv
    have hlast : last.Valid :=
      Separated.kind hs last (List.mem_append_right _ (List.mem_singleton_self _))
    have hmin : last.min ≤ k :=
      (hlast.fits.bounds (hsc ▸ List.mem_singleton_self e) he).1
    omega

theorem dropped_last {front : List (ChainElem α)} (hs : Spaced n (before ++ [last]))
    (hsc : last.sc = front ++ [e]) (hfront : front ≠ []) :
    Dropped n e (before ++ [last]) (before ++ [{ last with
      sc := front, maxp1 := last.maxp1 - 1, nSamples := last.nSamples - 1 }]) := by
  obtain ⟨hbefore, hmin, hvalid, -⟩ := separated_append.mp hs
  have hfits := hvalid.fits
  rw [hsc] at hfits
  obtain ⟨mid, hin, p, hp, hplace, hend⟩ := fits_append.mp hfits
  have hpend : p + 1 ≤ last.maxp1 := hend
  have hlast : Interval.Valid { last with
      sc := front, maxp1 := last.maxp1 - 1, nSamples := last.nSamples - 1 } := by
    refine ⟨hin.mono le_rfl ?_, hfront, ?_⟩
    · change mid ≤ last.maxp1 - 1
      omega
    · change last.nSamples - 1 = front.length
      rw [hvalid.nSamples, hsc, List.length_append, List.length_singleton, Nat.add_sub_cancel]
  refine ⟨separated_append.mpr ⟨hbefore, hmin, hlast, trivial⟩, ?_, ?_, ?_⟩
  · rw [chain_append, chain_append, chain_singleton, chain_singleton, hsc, List.append_assoc]
  · intro k hk
    rcases coversIn_append.mp hk with hk | ⟨iv, hiv, hlo, hhi⟩
    · exact coversIn_append.mpr (.inl hk)
    · rcases List.mem_singleton.mp hiv with rfl
      exact ⟨last, List.mem_append_right _ (List.mem_singleton_self _), hlo,
        hhi.trans_le (Nat.sub_le _ _)⟩
  · intro k he hk
    have hkp : k = p := hplace k he
    have hkhi : k < last.maxp1 - 1 := by
      rcases coversIn_append.mp hk with ⟨iv, hiv, -, hhi⟩ | ⟨iv, hiv, -, hhi⟩
      · have hlt : iv.maxp1 < last.min := Separated.hi_lt (fun _ hi => hi.lt) hs iv hiv
        have hfront := hin.length_le
        omega
      · rcases List.mem_singleton.mp hiv with rfl
        exact hhi
    have hlen := hin.length_le
    -- the number in front of the end has nobody: it would lie behind the last element
    refine ⟨last.maxp1 - 1, hkhi, ?_, ?_⟩
    · exact ⟨last, List.mem_append_right _ (List.mem_singleton_self _), by omega, by omega⟩
    · intro x hx hseq
      have hall : Fits ChainElem.seq? (chain (before ++ [last])) n last.maxp1 := by
        have h := Spaced.fits hs
        rwa [endOf, stop_append] at h
      rw [chain_append, chain_singleton, hsc, ← List.append_assoc] at hall hx
      rcases List.mem_append.mp hx with hx | hx
      · have hmidp : Fits ChainElem.seq? (chain before ++ front) n mid := by
          have h := (Spaced.fits hbefore).mono le_rfl hmin.le
          exact h.append hin
        have hlt := (hmidp.bounds hx hseq).2
        omega
      · rcases List.mem_singleton.mp hx with rfl
        rw [he, Option.some.injEq] at hseq
        omega

/-- `delete_last_sample` where the last interval holds nothing else. -/
theorem deleteLastSample_of_singleton {r : Reorder α} (hs : Spaced n r.sampleivtree)
    (ht : r.sampleivtree = before ++ [last]) (hmax : r.maxSampleiv = some last.min)
    (hpos : 0 < r.nSamples) (hsc : last.sc = [e]) (hne : before ≠ []) :
    deleteLastSample r = some ({ r with
      sampleivtree := before
      maxSampleiv := lastKey before
      discardedBytes := r.discardedBytes + e.size }, e) := by
  have hdelete : r.delete last = { r with sampleivtree := before } := by
    rw [Reorder.delete_of_split hs.sorted ht, List.append_nil]
  have hsome : (lastKey before).isSome := by
    rw [lastKey, Option.isSome_map, List.getLast?_isSome]
    exact hne
  simp only [deleteLastSample, guard_bind hpos, hmax, Reorder.lookup_of_split hs.sorted ht, hsc,
    hdelete, List.reverse_singleton, Option.bind_eq_bind, Option.bind_some]
  exact guard_bind hsome _

/-- `delete_last_sample` where the last interval keeps other elements. -/
theorem deleteLastSample_of_concat {r : Reorder α} {front : List (ChainElem α)}
    (hs : Spaced n r.sampleivtree) (ht : r.sampleivtree = before ++ [last])
    (hmax : r.maxSampleiv = some last.min) (hpos : 0 < r.nSamples) (hvalid : last.Valid)
    (hsc : last.sc = front ++ [e]) (hfront : front ≠ []) :
    deleteLastSample r = some ({ r with
      sampleivtree := before ++ [{ last with
        sc := front, maxp1 := last.maxp1 - 1, nSamples := last.nSamples - 1 }]
      maxSampleiv := some last.min
      discardedBytes := r.discardedBytes + e.size }, e) := by
  rcases List.eq_nil_or_concat front with rfl | ⟨front, pe, rfl⟩
  · exact absurd rfl hfront
  rw [List.concat_eq_append] at hsc
  have hn : 1 ≤ last.nSamples := by
    rw [hvalid.nSamples, hsc, List.length_append]
    exact Nat.le_add_left 1 _
  have hpe : pe.sampleinfo.all fun info => info.seq + 1 < last.maxp1 := by
    rw [Option.all_eq_true]
    intro info hinfo
    have hfits := hvalid.fits
    rw [hsc] at hfits
    obtain ⟨mid, hin, p, hp, -, hend⟩ := fits_append.mp hfits
    have hseq : pe.seq? = some info.seq := by rw [ChainElem.seq?, hinfo]; rfl
    have hlt := (hin.bounds (List.mem_append_right _ (List.mem_singleton_self pe)) hseq).2
    have hpend : p + 1 ≤ last.maxp1 := hend
    rw [decide_eq_true_eq]
    omega
  have hrev : last.sc.reverse = e :: pe :: front.reverse := by
    rw [hsc, List.reverse_append, List.reverse_append]
    rfl
  simp only [deleteLastSample, guard_bind hpos, hmax, Reorder.lookup_of_split hs.sorted ht, hrev,
    Reorder.assign_of_split hs.sorted ht, List.reverse_cons, List.reverse_reverse,
    List.concat_eq_append, Option.bind_eq_bind, Option.bind_some, Option.pure_def]
  exact (guard_bind hn _).trans ((guard_bind hvalid.length_le _).trans (guard_bind hpe _))

end

/-- `delete_last_sample` takes off the last element, where there are two. -/
theorem deleteLastSample_eq {r : Reorder α} {n : Nat} (hs : Spaced n r.sampleivtree)
    (hmax : r.maxSampleiv = lastKey r.sampleivtree) (hpos : 0 < r.nSamples)
    (hlen : 2 ≤ (chain r.sampleivtree).length) :
    ∃ e t', Dropped n e r.sampleivtree t' ∧ deleteLastSample r =
      some ({ r with
        sampleivtree := t'
        maxSampleiv := lastKey t'
        discardedBytes := r.discardedBytes + e.size }, e) := by
  rcases List.eq_nil_or_concat r.sampleivtree with ht | ⟨before, last, ht⟩
  · rw [ht] at hlen
    exact absurd (show 2 ≤ 0 from hlen) (by omega)
  rw [List.concat_eq_append] at ht
  have hkey : r.maxSampleiv = some last.min := by
    rw [hmax, ht, lastKey, List.getLast?_append, List.getLast?_singleton]
    rfl
  have hvalid : last.Valid :=
    Separated.kind hs last (ht ▸ List.mem_append_right _ (List.mem_singleton_self _))
  rcases List.eq_nil_or_concat last.sc with hnil | ⟨front, e, hsc⟩
  · exact absurd hnil hvalid.nonempty
  rw [List.concat_eq_append] at hsc
  by_cases hfront : front = []
  · rw [hfront, List.nil_append] at hsc
    have hne : before ≠ [] := by
      rintro rfl
      rw [ht, List.nil_append, chain_singleton, hsc] at hlen
      exact absurd (show 2 ≤ 1 from hlen) (by omega)
    exact ⟨e, before, ht ▸ dropped_interval (ht ▸ hs) hsc,
      deleteLastSample_of_singleton hs ht hkey hpos hsc hne⟩
  · refine ⟨e, _, ht ▸ dropped_last (ht ▸ hs) hsc hfront, ?_⟩
    rw [deleteLastSample_of_concat hs ht hkey hpos hvalid hsc hfront, lastKey,
      List.getLast?_append, List.getLast?_singleton]
    rfl

end DdsPlayground.Ddsi
