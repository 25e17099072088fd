import DdsPlayground.Ddsi.Semantics.Insertion

/-!
# Outcomes of the reorder admin

What every call does to a valid admin: which elements it takes, hands over, keeps and gives
up, and which numbers it does not wait for any more. A call that only refuses, and a call
that only stores, are described here once for samples and gaps.
-/

namespace DdsPlayground.Ddsi

open Intervals

variable {α : Type}

namespace Outcome

/-- The offered elements that the admin has taken. -/
def taken (out : Outcome α) (offered : List (ChainElem α)) : List (ChainElem α) :=
  if out.refcountAdjust = 0 then [] else offered

/-- A number that the call has told the admin about. -/
def Tells (out : Outcome α) (offered : List (ChainElem α)) (declared : Nat → Prop) (n : Nat) :
    Prop :=
  declared n ∨ ∃ e ∈ out.taken offered, e.seq? = some n

/-- What a call that offers elements, and declares numbers unavailable, does to a valid
admin. -/
structure Sound (r : Reorder α) (offered : List (ChainElem α)) (declared : Nat → Prop)
    (out : Outcome α) : Prop where
  valid : out.reorder.Valid
  mode : out.reorder.mode = r.mode
  maxSamples : out.reorder.maxSamples = r.maxSamples
  next : r.nextSeq ≤ out.reorder.nextSeq
  /-- What is delivered has its places between the old and the new next number. -/
  fits : Fits ChainElem.seq? out.sc r.nextSeq out.reorder.nextSeq
  /-- No element gets lost or comes from nowhere. -/
  conserved : (out.sc ++ (out.reorder.stored ++ out.unref)).Perm
    (out.taken offered ++ r.stored)
  /-- In normal mode the admin gives up waiting only for what it has been told about. -/
  held : r.mode = .normal → ∀ n, out.reorder.Held n → r.Held n ∨ out.Tells offered declared n
  bounded : ∀ n, out.reorder.Held n → ∃ m, n ≤ m ∧ (r.Held m ∨ out.Tells offered declared m)
  /-- What is given up is waited for again, but for a hole behind it. -/
  evicted : ∀ e ∈ out.unref, ∀ n, e.seq? = some n → out.reorder.Held n → declared n ∨
    ∃ m, n < m ∧ (r.Covers m ∨ out.Tells offered declared m) ∧
      ∀ x ∈ out.taken offered ++ r.stored, x.seq? ≠ some m

/-- A call returns a sound outcome, or it fails, and would have moved the next number by more
than the assertions admit. -/
def Returns (r : Reorder α) (offered : List (ChainElem α)) (declared : Nat → Prop)
    (res : Option (Outcome α)) : Prop :=
  ∃ out, Sound r offered declared out ∧
    (res = some out ∨ res = none ∧ int32Max < out.reorder.nextSeq - r.nextSeq)

variable {r r' : Reorder α} {declared : Nat → Prop}

/-- A call that leaves the intervals alone. -/
theorem sound_of_refused (hr : r.Valid) (result : Int) (offered : List (ChainElem α))
    (declared : Nat → Prop) (h : r' = { r with discardedBytes := r'.discardedBytes }) :
    Sound r offered declared ⟨r', result, [], 0, []⟩ := by
  rw [h]
  refine ⟨⟨hr.spaced, hr.max, hr.nSamples, hr.le, hr.mode, hr.pos⟩, rfl, rfl, le_rfl, le_rfl, ?_,
    fun _ _ hn => .inl hn, fun n hn => ⟨n, le_rfl, .inl hn⟩, fun _ he => absurd he List.not_mem_nil⟩
  rw [Reorder.stored, List.append_nil]
  exact List.Perm.refl _

/-- The admin behind the delivery of its first intervals. -/
def behind (r : Reorder α) (nextSeq : Nat) (front rest : List (Interval α)) : Reorder α :=
  { r with
    sampleivtree := rest
    maxSampleiv := lastKey rest
    nextSeq := nextSeq
    nSamples := r.nSamples - (chain front).length }

/-- A call that delivers the first intervals, and the offered elements in front of them if
it takes them. -/
theorem sound_of_delivered {front rest : List (Interval α)} {offered sc : List (ChainElem α)}
    {next refcountAdjust : Nat} {result : Int} {out : Outcome α}
    (hout : out = ⟨behind r next front rest, result, sc, refcountAdjust, []⟩) (hr : r.Valid)
    (ht : r.sampleivtree = front ++ rest) (hrest : Spaced next rest)
    (hsc : sc = out.taken offered ++ chain front) (hfits : Fits ChainElem.seq? sc r.nextSeq next)
    (hheld : r.mode = .normal → ∀ n, n < next → r.Held n ∨ out.Tells offered declared n)
    (hbounded : ∃ m, next ≤ m + 1 ∧ (r.Held m ∨ out.Tells offered declared m)) :
    Sound r offered declared out := by
  have hchain : r.stored = chain front ++ chain rest := by
    rw [Reorder.stored, ht, chain_append]
  have hcovers : ∀ n, CoversIn rest n → r.Held n := by
    rintro n ⟨iv, hiv, hin⟩
    exact .inr ⟨iv, ht ▸ List.mem_append_right _ hiv, hin⟩
  have hlen : r.nSamples - (chain front).length = (chain rest).length := by
    rw [hr.nSamples, hchain, List.length_append, Nat.add_sub_cancel_left]
  have hnext : r.nextSeq ≤ next := (Nat.le_add_right _ _).trans hfits.length_le
  refine ⟨?_, ?_, ?_, ?_, ?_, ?_, ?_, ?_, ?_⟩
  · rw [hout]
    refine ⟨hrest, rfl, hlen, (Nat.sub_le _ _).trans hr.le, ?_, hr.pos.trans hnext⟩
    intro hmode
    exact (List.append_eq_nil_iff.mp (ht ▸ hr.mode hmode)).2
  · rw [hout]
    rfl
  · rw [hout]
    rfl
  · rw [hout]
    exact hnext
  · rw [hout]
    exact hfits
  · have hall : sc ++ (chain rest ++ []) = out.taken offered ++ r.stored := by
      rw [hchain, List.append_nil, hsc, List.append_assoc]
    rw [← hall, hout]
    exact List.Perm.refl _
  · intro hmode n hn
    rw [hout] at hn
    rcases hn with hn | hn
    · exact hheld hmode n hn
    · exact .inl (hcovers n hn)
  · intro n hn
    rw [hout] at hn
    rcases hn with hn | hn
    · obtain ⟨m, hm, htold⟩ := hbounded
      exact ⟨m, Nat.lt_succ_iff.mp (hn.trans_le hm), htold⟩
    · exact ⟨n, le_rfl, .inl (hcovers n hn)⟩
  · intro e he
    rw [hout] at he
    cases he

/-- The admin with other intervals. -/
def withTree (r : Reorder α) (t : List (Interval α)) : Reorder α :=
  { r with sampleivtree := t, maxSampleiv := lastKey t }

variable {e : ChainElem α} {t : List (Interval α)}

theorem held_of_covers {n : Nat}
    (h : CoversIn t n → (declared n ∨ e.seq? = some n) ∨ r.Covers n)
    (hn : (withTree r t).Held n) :
    r.Held n ∨ declared n ∨ ∃ x ∈ [e], x.seq? = some n := by
  rcases hn with hn | hn
  · exact .inl (.inl hn)
  · rcases h hn with (hn | hn) | hn
    · exact .inr (.inl hn)
    · exact .inr (.inr ⟨e, List.mem_singleton_self e, hn⟩)
    · exact .inl (.inr hn)

/-- A call that stores an element where there is room. -/
theorem sound_of_inserted (hr : r.Valid) (hmode : r.mode = .normal)
    (ht : Inserted r.nextSeq [e] (fun k => declared k ∨ e.seq? = some k) r.sampleivtree t)
    (hroom : r.nSamples < r.maxSamples) :
    Sound r [e] declared
      ⟨{ withTree r t with nSamples := r.nSamples + 1 }, reorderAccept, [], 1, []⟩ := by
  have hheld : ∀ n, (withTree r t).Held n →
      r.Held n ∨ declared n ∨ ∃ x ∈ [e], x.seq? = some n :=
    fun n hn => held_of_covers (ht.covers n) hn
  refine ⟨⟨ht.spaced, rfl, ?_, hroom, fun h => absurd hmode h, hr.pos⟩, rfl, rfl, le_rfl, le_rfl, ?_,
    fun _ => hheld, fun n hn => ⟨n, le_rfl, hheld n hn⟩, fun _ he => absurd he List.not_mem_nil⟩
  · have hlen := ht.perm.length_eq
    rw [List.singleton_append, List.length_cons] at hlen
    exact (congrArg (· + 1) hr.nSamples).trans hlen.symm
  · rw [List.append_nil]
    exact ht.perm

/-- A call that only widens intervals. -/
theorem sound_of_widened {offered : List (ChainElem α)} {result : Int} (hr : r.Valid)
    (hmode : r.mode = .normal) (ht : Inserted r.nextSeq [] declared r.sampleivtree t) :
    Sound r offered declared ⟨withTree r t, result, [], 0, []⟩ := by
  have hheld : ∀ n, (withTree r t).Held n → r.Held n ∨ declared n := by
    rintro n (hn | hn)
    · exact .inl (.inl hn)
    · exact (ht.covers n hn).symm.imp .inr id
  refine ⟨⟨ht.spaced, rfl, ?_, hr.le, fun h => absurd hmode h, hr.pos⟩, rfl, rfl, le_rfl, le_rfl, ?_,
    fun _ n hn => (hheld n hn).imp id .inl,
    fun n hn => ⟨n, le_rfl, (hheld n hn).imp id .inl⟩, fun _ he => absurd he List.not_mem_nil⟩
  · exact hr.nSamples.trans ht.perm.length_eq.symm
  · rw [List.append_nil]
    exact ht.perm

/-- A call that stores an element and gives up the last one. -/
theorem sound_of_exchanged (hr : r.Valid) (hmode : r.mode = .normal)
    (ht : Inserted r.nextSeq [e] (fun k => declared k ∨ e.seq? = some k) r.sampleivtree t)
    (hne : r.sampleivtree ≠ []) :
    ∃ r' x, deleteLastSample (withTree r t) = some (r', x) ∧
      r'.maxSampleiv = lastKey r'.sampleivtree ∧
      Sound r [e] declared ⟨r', reorderAccept, [], 1, [x]⟩ := by
  have hlen := ht.perm.length_eq
  rw [List.singleton_append, List.length_cons] at hlen
  have hstored : 0 < r.stored.length := by
    obtain ⟨iv, rest, hcons⟩ := List.exists_cons_of_ne_nil hne
    have hiv := Separated.kind hr.spaced iv (hcons ▸ List.mem_cons_self)
    rw [Reorder.stored, hcons, chain_cons, List.length_append]
    exact Nat.add_pos_left (List.length_pos_iff.mpr hiv.nonempty) _
  have hpos : 0 < (withTree r t).nSamples := hr.nSamples ▸ hstored
  obtain ⟨x, t', hdropped, heq⟩ := deleteLastSample_eq (r := withTree r t) ht.spaced rfl hpos
    (by rw [show chain (withTree r t).sampleivtree = chain t from rfl, hlen]
        exact Nat.succ_le_succ hstored)
  have hcovers : ∀ n, CoversIn t' n → (declared n ∨ e.seq? = some n) ∨ r.Covers n :=
    fun n hn => ht.covers n (hdropped.covers n hn)
  have hheld : ∀ n, (withTree r t').Held n →
      r.Held n ∨ declared n ∨ ∃ y ∈ [e], y.seq? = some n :=
    fun n hn => held_of_covers (hcovers n) hn
  have hperm : (chain t' ++ [x]).Perm (e :: r.stored) := hdropped.chain_eq ▸ ht.perm
  refine ⟨_, x, heq, rfl, ⟨hdropped.spaced, rfl, ?_, hr.le, fun h => absurd hmode h, hr.pos⟩, rfl,
    rfl, le_rfl, le_rfl, hperm, fun _ => hheld, fun n hn => ⟨n, le_rfl, hheld n hn⟩, ?_⟩
  · have hlen' := hperm.length_eq
    rw [List.length_append, List.length_singleton, List.length_cons] at hlen'
    exact hr.nSamples.trans (Nat.succ.inj hlen').symm
  · intro y hy n hseq hn
    rcases List.mem_singleton.mp hy with rfl
    rcases hn with hn | hn
    · -- the elements given up lie behind the next number
      have hmem : y ∈ chain t := hdropped.chain_eq ▸ List.mem_append_right _ hy
      have hle := ((Spaced.fits ht.spaced).bounds hmem hseq).1
      exact absurd hn (not_lt.mpr hle)
    · obtain ⟨m, hnm, hm, hall⟩ := hdropped.behind n hseq hn
      refine .inr ⟨m, hnm, ?_, ?_⟩
      · exact (ht.covers m hm).symm.imp id fun h => h.imp id fun h =>
          ⟨e, List.mem_singleton_self e, h⟩
      · exact fun z hz => hall z (ht.perm.mem_iff.mpr hz)

end Outcome

end DdsPlayground.Ddsi
