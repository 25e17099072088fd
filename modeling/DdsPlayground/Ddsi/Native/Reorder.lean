import DdsPlayground.Core.KeyedTree
import DdsPlayground.Core.Loop

/-!
# The reorder admin

The index of `q_radmin.c` that puts the samples of a writer in the order of their sequence
numbers. The tree of intervals is the list of its nodes by `min`, and a pointer to a node is
its key. An assertion that fails, or a null pointer that is followed, is `none`. Sequence
numbers stay below `2 ^ 63`, and a chain has less than `2 ^ 32` elements, so that natural
numbers are exact for both.
-/

namespace DdsPlayground.Ddsi

open BoundedLoop

/-- `struct nn_rsample_info`, as far as the admin reads it. -/
structure SampleInfo where
  seq : Nat
  size : Nat
  deriving DecidableEq, Repr

/-- `struct nn_rsample_chain_elem`. A gap has no sample info. -/
structure ChainElem (α : Type) where
  fragchain : α
  sampleinfo : Option SampleInfo
  deriving DecidableEq, Repr

/-- `struct nn_rsample_reorder`: an interval from `min` to in front of `maxp1`, possibly with
holes, and the chain of its samples. -/
structure Interval (α : Type) where
  min : Nat
  maxp1 : Nat
  sc : List (ChainElem α)
  nSamples : Nat
  deriving DecidableEq, Repr

/-- `enum nn_reorder_mode`. -/
inductive ReorderMode where
  | normal
  | monotonicallyIncreasing
  | alwaysDeliver
  deriving DecidableEq, Repr

/-- `struct nn_reorder`. -/
structure Reorder (α : Type) where
  sampleivtree : List (Interval α)
  /-- The key of the interval that `max_sampleiv` points to. -/
  maxSampleiv : Option Nat
  nextSeq : Nat
  mode : ReorderMode
  maxSamples : Nat
  nSamples : Nat
  discardedBytes : Nat
  lateAckMode : Bool
  deriving DecidableEq, Repr

/-- `NN_REORDER_ACCEPT`. -/
def reorderAccept : Int := 0

/-- `NN_REORDER_TOO_OLD`. -/
def reorderTooOld : Int := -1

/-- `NN_REORDER_REJECT`. -/
def reorderReject : Int := -2

/-- `INT32_MAX`. -/
def int32Max : Nat := 2147483647

/-- What a call leaves behind, and what it returns: the result with the chain that goes with
a positive one, and what it adds to `refcount_adjust`. -/
structure Outcome (α : Type) where
  reorder : Reorder α
  result : Int
  sc : List (ChainElem α)
  refcountAdjust : Nat
  /-- The elements whose fragment chains are unreferenced. -/
  unref : List (ChainElem α)
  deriving DecidableEq, Repr

variable {α : Type}

/-- `nn_reorder_new`. -/
def nnReorderNew (mode : ReorderMode) (maxSamples : Nat) (lateAckMode : Bool) : Reorder α :=
  ⟨[], none, 1, mode, maxSamples, 0, 0, lateAckMode⟩

/-- A sample as `reorder_rsample_new` and `rsample_convert_defrag_to_reorder` make it. -/
def Interval.ofSample (info : SampleInfo) (fragchain : α) : Interval α :=
  ⟨info.seq, info.seq + 1, [⟨fragchain, some info⟩], 1⟩

/-! ## The tree -/

namespace Reorder

/-- `ddsrt_avl_find_min`. -/
def findMin (r : Reorder α) : Option (Interval α) := r.sampleivtree.head?

/-- `ddsrt_avl_find_max`. -/
def findMax (r : Reorder α) : Option (Interval α) := r.sampleivtree.getLast?

/-- `ddsrt_avl_lookup`, or following a pointer to a node. -/
def lookup (r : Reorder α) (k : Nat) : Option (Interval α) :=
  KeyedTree.lookup Interval.min k r.sampleivtree

/-- `ddsrt_avl_lookup_pred_eq`. -/
def lookupPredEq (r : Reorder α) (k : Nat) : Option (Interval α) :=
  KeyedTree.lookupPredEq Interval.min k r.sampleivtree

/-- `ddsrt_avl_find_succ` of a node, or the first node for the null pointer. -/
def findSucc (r : Reorder α) : Option (Interval α) → Option (Interval α)
  | none => r.findMin
  | some iv => KeyedTree.findSucc Interval.min iv.min r.sampleivtree

/-- `ddsrt_avl_find_pred`. -/
def findPred (r : Reorder α) (iv : Interval α) : Option (Interval α) :=
  KeyedTree.findPred Interval.min iv.min r.sampleivtree

/-- `ddsrt_avl_delete`. -/
def delete (r : Reorder α) (iv : Interval α) : Reorder α :=
  { r with sampleivtree := KeyedTree.delete Interval.min iv.min r.sampleivtree }

/-- The node at a key as an assignment through a pointer to it leaves it. -/
def assign (r : Reorder α) (k : Nat) (iv : Interval α) : Reorder α :=
  { r with sampleivtree := KeyedTree.swapNode Interval.min k iv r.sampleivtree }

/-- `reorder_add_rsampleiv`. -/
def addRsampleiv (r : Reorder α) (iv : Interval α) : Option (Reorder α) := do
  guard ((r.lookup iv.min).isNone)
  return { r with sampleivtree := KeyedTree.insert Interval.min iv r.sampleivtree }

/-- What `max_sampleiv` points to, if it is not null. -/
def followMax (r : Reorder α) : Option (Option (Interval α)) :=
  match r.maxSampleiv with
  | none => some none
  | some k => (r.lookup k).map some

/-- Set `max_sampleiv` to the last node of the tree. -/
def setMax (r : Reorder α) : Reorder α := { r with maxSampleiv := r.findMax.map (·.min) }

end Reorder

/-! ## Samples -/

/-- `rsample_is_singleton`. -/
def rsampleIsSingleton (s : Interval α) : Prop :=
  s.min < s.maxp1 ∧ s.nSamples = 1 ∧ s.min + 1 = s.maxp1 ∧ s.sc.length = 1

instance (s : Interval α) : Decidable (rsampleIsSingleton s) :=
  inferInstanceAs (Decidable (_ ∧ _))

/-- `append_rsample_interval`. -/
def appendRsampleInterval (a b : Interval α) : Interval α :=
  { a with sc := a.sc ++ b.sc, maxp1 := b.maxp1, nSamples := a.nSamples + b.nSamples }

/-- `reorder_try_append_and_discard`, with the interval appended to as it is afterwards, and
whether the one that has gone was the last. -/
def reorderTryAppendAndDiscard (r : Reorder α) (appendto : Interval α) :
    Option (Interval α) → Option (Reorder α × Interval α × Bool)
  | none => some (r, appendto, false)
  | some todiscard =>
    if appendto.maxp1 < todiscard.min then some (r, appendto, false)
    else do
      guard (todiscard.min = appendto.maxp1)
      return (r.delete todiscard, appendRsampleInterval appendto todiscard,
        todiscard.min = r.maxSampleiv)

/-- The bytes of a chain element that count as discarded. -/
def ChainElem.size (e : ChainElem α) : Nat := e.sampleinfo.elim 0 (·.size)

/-- `delete_last_sample`. -/
def deleteLastSample (r : Reorder α) : Option (Reorder α × ChainElem α) := do
  guard (0 < r.nSamples)
  let last ← r.lookup (← r.maxSampleiv)
  match last.sc.reverse with
  | [] => none
  | [e] =>
    let r := { r.delete last with discardedBytes := r.discardedBytes + e.size }.setMax
    guard r.maxSampleiv.isSome
    return (r, e)
  | e :: pe :: rest =>
    guard (1 ≤ last.nSamples)
    guard (last.min + last.nSamples ≤ last.maxp1)
    guard (pe.sampleinfo.all fun info => info.seq + 1 < last.maxp1)
    let last' := { last with
      sc := (pe :: rest).reverse, maxp1 := last.maxp1 - 1, nSamples := last.nSamples - 1 }
    return ({ r.assign last.min last' with discardedBytes := r.discardedBytes + e.size }, e)

/-- The assertions at the start of `nn_reorder_rsample`. -/
def Reorder.Consistent (r : Reorder α) : Prop :=
  (∀ iv ∈ r.findMin, r.nextSeq < iv.min) ∧ r.maxSampleiv = r.findMax.map (·.min) ∧
    r.nSamples ≤ r.maxSamples

instance (r : Reorder α) : Decidable r.Consistent := inferInstanceAs (Decidable (_ ∧ _))

/-- Discard the sample, with a result. -/
def Reorder.discard (r : Reorder α) (s : Interval α) (result : Int) : Option (Outcome α) := do
  let info ← (← s.sc.head?).sampleinfo
  return ⟨{ r with discardedBytes := r.discardedBytes + info.size }, result, [], 0, []⟩

/-- Return an interval that is not in the tree as the samples to deliver. -/
def Reorder.returnChain (r : Reorder α) (s : Interval α) : Option (Outcome α) := do
  guard (1 ≤ s.maxp1 - s.min)
  guard (s.maxp1 - s.min ≤ int32Max)
  guard (s.min + s.nSamples ≤ s.maxp1)
  guard (s.nSamples - 1 ≤ r.nSamples)
  return ⟨{ r with nextSeq := s.maxp1, nSamples := r.nSamples - (s.nSamples - 1) },
    s.nSamples, s.sc, 1, []⟩

/-- Deliver the sample, with the first interval if it follows. -/
def Reorder.deliver (r : Reorder α) (s : Interval α) : Option (Outcome α) :=
  if r.maxSampleiv.isSome then do
    let (r, s, last) ← reorderTryAppendAndDiscard r s r.findMin
    (if last then { r with maxSampleiv := none } else r).returnChain s
  else r.returnChain s

/-- Store the sample in front of the end: at an interval, between two, or on its own. -/
def Reorder.store (r : Reorder α) (s : Interval α) (predeq immsucc : Option (Interval α)) :
    Option (Reorder α) :=
  match predeq.filter fun predeq => s.min = predeq.maxp1, immsucc with
  | some predeq, immsucc => do
    let (r, grown, last) ← reorderTryAppendAndDiscard r (appendRsampleInterval predeq s) immsucc
    let r := r.assign predeq.min grown
    return if last then { r with maxSampleiv := some grown.min } else r
  | none, some immsucc =>
    let grown := { immsucc with
      sc := s.sc ++ immsucc.sc, min := s.min, nSamples := immsucc.nSamples + s.nSamples }
    let r' := r.assign immsucc.min grown
    return if r.maxSampleiv = some immsucc.min then { r' with maxSampleiv := some s.min } else r'
  | none, none => r.addRsampleiv s

/-- `nn_reorder_rsample`. -/
def nnReorderRsample (r : Reorder α) (s : Interval α) (deliveryQueueFull : Bool) :
    Option (Outcome α) := do
  guard (rsampleIsSingleton s)
  guard r.Consistent
  if s.min = r.nextSeq ∨ (s.min > r.nextSeq ∧ r.mode = .monotonicallyIncreasing) ∨
      r.mode = .alwaysDeliver then
    if deliveryQueueFull then r.discard s reorderReject
    else r.deliver s
  else if s.min < r.nextSeq then r.discard s reorderTooOld
  else if r.sampleivtree.isEmpty then
    guard (r.nSamples = 0)
    if r.maxSamples = 0 then r.discard s reorderReject
    else
      let r ← r.addRsampleiv s
      return ⟨{ r with maxSampleiv := some s.min, nSamples := r.nSamples + 1 },
        reorderAccept, [], 1, []⟩
  else
    let max ← r.lookup (← r.maxSampleiv)
    if s.min = max.maxp1 then
      if deliveryQueueFull then r.discard s reorderReject
      else if r.nSamples < r.maxSamples then
        return ⟨{ r.assign max.min (appendRsampleInterval max s) with
          nSamples := r.nSamples + 1 }, reorderAccept, [], 1, []⟩
      else r.discard s reorderReject
    else if s.min > max.maxp1 then
      if deliveryQueueFull then r.discard s reorderReject
      else if r.nSamples < r.maxSamples then
        let r ← r.addRsampleiv s
        return ⟨{ r with maxSampleiv := some s.min, nSamples := r.nSamples + 1 },
          reorderAccept, [], 1, []⟩
      else r.discard s reorderReject
    else if r.lateAckMode ∧ deliveryQueueFull then r.discard s reorderReject
    else
      let predeq := r.lookupPredEq s.min
      if (predeq.filter fun iv => s.min ≥ iv.min ∧ s.min < iv.maxp1).isSome then
        r.discard s reorderReject
      else
        let r ← r.store s predeq (r.lookup s.maxp1)
        if r.nSamples < r.maxSamples then
          return ⟨{ r with nSamples := r.nSamples + 1 }, reorderAccept, [], 1, []⟩
        else
          let (r, e) ← deleteLastSample r
          return ⟨r, reorderAccept, [], 1, [e]⟩

/-! ## Gaps -/

/-- The locals of `coalesce_intervals_touching_range` that its loop updates. -/
structure Coalescing (α : Type) where
  reorder : Reorder α
  s : Interval α
  valuable : Bool

/-- One pass of the loop that appends successors. -/
def coalescePass (maxp1 : Nat) (c : Coalescing α) : Option (Pass (Coalescing α)) :=
  match c.reorder.findSucc (some c.s) with
  | none => some (.leave c)
  | some t =>
    if t.min ≤ maxp1 then do
      guard (t.min + t.nSamples ≤ t.maxp1)
      let s := appendRsampleInterval c.s t
      return .again ⟨(c.reorder.delete t).assign s.min s, s, true⟩
    else some (.leave c)

/-- The first interval `[m, n)` with `n ≥ min` and `m ≤ maxp1`. -/
def firstTouchingRange (r : Reorder α) (min maxp1 : Nat) : Option (Option (Interval α)) :=
  let s := r.lookupPredEq min
  match s.filter fun s => s.maxp1 ≥ min with
  | some s => do
    guard ((r.findPred s).all fun q => q.maxp1 < min)
    return some s
  | none => some ((r.findSucc s).filter fun s => s.min ≤ maxp1)

/-- `coalesce_intervals_touching_range`: no interval, or the coalesced one. -/
def coalesceIntervalsTouchingRange (r : Reorder α) (min maxp1 : Nat) :
    Option (Option (Coalescing α)) := do
  match ← firstTouchingRange r min maxp1 with
  | none => return none
  | some s =>
    guard (s.min + s.nSamples ≤ s.maxp1)
    let c ← run (coalescePass maxp1) (r.sampleivtree.length + 1) ⟨r, s, false⟩
    let grown := { c.s with
      min := if min < c.s.min then min else c.s.min
      maxp1 := if maxp1 > c.s.maxp1 then maxp1 else c.s.maxp1 }
    return some ⟨c.reorder.assign c.s.min grown, grown,
      c.valuable || decide (min < c.s.min) || decide (maxp1 > c.s.maxp1)⟩

/-- `reorder_insert_gap`, where the memory for it is there. -/
def reorderInsertGap (r : Reorder α) (rdata : α) (min maxp1 : Nat) : Option (Reorder α) :=
  r.addRsampleiv ⟨min, maxp1, [⟨rdata, none⟩], 1⟩

/-- A gap from `min` on lies behind the last interval, if there is one. -/
def Reorder.gapAtEnd (r : Reorder α) (min : Nat) : Option Bool :=
  r.followMax.map fun max => max.all fun max => min > max.maxp1

/-- Store a gap that touches no interval, but for the end of a full admin. -/
def Reorder.storeGap (r : Reorder α) (rdata : α) (min maxp1 : Nat) : Option (Outcome α) := do
  if r.nSamples = r.maxSamples ∧ (← r.gapAtEnd min) then
    return ⟨r.setMax, reorderReject, [], 0, []⟩
  else
    let r ← reorderInsertGap r rdata min maxp1
    if r.nSamples < r.maxSamples then
      return ⟨{ r with nSamples := r.nSamples + 1 }.setMax, reorderAccept, [], 1, []⟩
    else
      let (r, e) ← deleteLastSample r
      return ⟨r.setMax, reorderAccept, [], 1, [e]⟩

/-- Deliver the samples of the coalesced interval, which the next number has reached. -/
def Reorder.deliverCoalesced (r : Reorder α) (min : Nat) (coalesced : Interval α) :
    Option (Outcome α) := do
  guard (min ≤ r.nextSeq)
  let r := { r.delete coalesced with nextSeq := coalesced.maxp1 }.setMax
  guard (coalesced.min + coalesced.nSamples ≤ coalesced.maxp1)
  guard (coalesced.nSamples ≤ r.nSamples)
  return ⟨{ r with nSamples := r.nSamples - coalesced.nSamples }, coalesced.nSamples,
    coalesced.sc, 0, []⟩

/-- `nn_reorder_gap`. -/
def nnReorderGap (r : Reorder α) (rdata : α) (min maxp1 : Nat) : Option (Outcome α) :=
  if maxp1 ≤ r.nextSeq then some ⟨r, reorderTooOld, [], 0, []⟩
  else if r.mode ≠ .normal then some ⟨r, reorderReject, [], 0, []⟩
  else do
    match ← coalesceIntervalsTouchingRange r min maxp1 with
    | none =>
      if min ≤ r.nextSeq then
        return ⟨{ r with nextSeq := maxp1 }.setMax, reorderAccept, [], 0, []⟩
      else r.storeGap rdata min maxp1
    | some ⟨r, coalesced, valuable⟩ =>
      if coalesced.min ≤ r.nextSeq then r.deliverCoalesced min coalesced
      else return ⟨r.setMax, if valuable then reorderAccept else reorderReject, [], 0, []⟩

/-- `nn_reorder_drop_upto`: what it delivers is unreferenced. -/
def nnReorderDropUpto (r : Reorder α) (gap : α) (maxp1 : Nat) : Option (Outcome α) := do
  guard ((← r.followMax).all fun max => max.maxp1 ≤ maxp1)
  let out ← nnReorderGap r gap 1 maxp1
  guard (out.refcountAdjust = 0)
  guard (out.reorder.nextSeq ≥ maxp1)
  return { out with sc := [], unref := out.unref ++ if out.result > 0 then out.sc else [] }

/-! ## What is wanted -/

/-- `nn_reorder_wantsample`. -/
def nnReorderWantsample (r : Reorder α) (seq : Nat) : Bool :=
  if seq < r.nextSeq then false
  else (r.lookupPredEq seq).all fun s => s.maxp1 ≤ seq

/-- `nn_bitset_set` for the numbers from `i` to in front of `stop`. -/
def setBits (base i stop : Nat) (mapbits : List Bool) : List Bool :=
  (List.range' i (stop - i)).foldl (fun mapbits i => mapbits.set (i - base) true) mapbits

/-- The loop over the intervals, with the bits of the holes in front of each: the number it
ends at, and the bitmap. -/
def nackIntervals (base stop : Nat) : List (Interval α) → Nat → List Bool → Nat × List Bool
  | iv :: rest, i, mapbits =>
    if i < stop then
      nackIntervals base stop rest iv.maxp1 (setBits base i (min stop iv.min) mapbits)
    else (i, mapbits)
  | [], i, mapbits => (i, mapbits)

/-- `struct nn_sequence_number_set_header` with its bitmap. -/
structure SequenceNumberSet where
  bitmapBase : Nat
  numbits : Nat
  mapbits : List Bool
  deriving DecidableEq, Repr

/-- `nn_reorder_nackmap`. -/
def nnReorderNackmap (r : Reorder α) (base maxseq maxsz : Nat) (notail : Bool) :
    Option SequenceNumberSet := do
  guard (maxsz ≤ 256)
  let maxsz := if maxsz > r.maxSamples then r.maxSamples else maxsz
  let base := if base > r.nextSeq then r.nextSeq else base
  let maxseq := if maxseq + 1 < base then base - 1 else maxseq
  let numbits := if maxseq + 1 - base > maxsz then maxsz else maxseq + 1 - base
  guard (r.findMin.all fun iv => iv.min > base)
  let (i, mapbits) :=
    nackIntervals base (base + numbits) r.sampleivtree base (List.replicate numbits false)
  if notail ∧ i < base + numbits then return ⟨base, i - base, mapbits⟩
  else return ⟨base, numbits, setBits base i (base + numbits) mapbits⟩

end DdsPlayground.Ddsi
