import Mathlib.Data.List.Perm.Subperm

/-!
# Channels that lose samples

A channel keeps the samples of one writer for one reader: those in flight, and those
that have arrived and wait to be taken. It may lose samples, and its reader keeps a
bounded history; it never duplicates, reorders or invents any. What has been handled,
and what is still on its way behind it, is therefore always a subsequence of what the
sender set out to write, and all of it as long as nothing is lost.
-/

namespace Delivery

variable {α β : Type*}

/-! ## Channels -/

/-- The samples of a writer for a reader, the oldest first. -/
structure Channel (α : Type*) where
  /-- Written, and not arrived. -/
  flight : List α
  /-- Arrived, and not taken. -/
  cache : List α
  deriving DecidableEq, Repr

/-- An entry that a take returns; only a valid one carries a sample. -/
structure Entry (α : Type*) where
  valid : Bool
  data : α
  deriving DecidableEq, Repr

/-- The samples of a batch. -/
def validData (es : List (Entry α)) : List α :=
  es.filterMap fun e => if e.valid then some e.data else none

namespace Channel

/-- Nothing is on its way. -/
def empty : Channel α := ⟨[], []⟩

/-- What is on its way, the oldest first. -/
def pending (c : Channel α) : List α := c.cache ++ c.flight

/-- The writer writes a sample. -/
def write (c : Channel α) (x : α) : Channel α := { c with flight := c.flight ++ [x] }

/-- The oldest sample in flight arrives at a reader that keeps the last `depth` samples. -/
def arrive (depth : Nat) (c : Channel α) : Option (Channel α) :=
  match c.flight with
  | [] => none
  | x :: rest => some ⟨rest, (c.cache ++ [x]).drop (c.cache.length + 1 - depth)⟩

/-- A sample on its way gets lost. -/
def lose (i : Nat) (c : Channel α) : Channel α :=
  if i < c.cache.length then { c with cache := c.cache.eraseIdx i }
  else { c with flight := c.flight.eraseIdx (i - c.cache.length) }

/-- Take a batch: the next sample for each `none`, and an invalid entry with data of any
kind for each `some`. -/
def takeFrom : List (Option α) → List α → Option (List (Entry α) × List α)
  | [], xs => some ([], xs)
  | some junk :: ps, xs => (takeFrom ps xs).map fun r => (⟨false, junk⟩ :: r.1, r.2)
  | none :: ps, x :: xs => (takeFrom ps xs).map fun r => (⟨true, x⟩ :: r.1, r.2)
  | none :: _, [] => none

/-- The reader takes a batch out of its cache. -/
def take (pattern : List (Option α)) (c : Channel α) : Option (List (Entry α) × Channel α) :=
  (takeFrom pattern c.cache).map fun r => (r.1, { c with cache := r.2 })

theorem pending_write (c : Channel α) (x : α) : (c.write x).pending = c.pending ++ [x] := by
  simp only [pending, write, List.append_assoc]

/-- An arrival loses at most samples of the cache. -/
theorem pending_arrive {depth : Nat} {c c' : Channel α} (h : c.arrive depth = some c') :
    c'.pending.Sublist c.pending := by
  unfold arrive at h
  split at h
  · cases h
  · next x rest hf =>
    obtain rfl := Option.some.inj h
    simp only [pending, hf]
    have hdrop := List.drop_sublist (c.cache.length + 1 - depth) (c.cache ++ [x])
    simpa only [List.append_assoc, List.singleton_append] using hdrop.append_right rest

/-- An arrival at a history with room loses nothing. -/
theorem pending_arrive_of_lt {depth : Nat} {c c' : Channel α} (h : c.arrive depth = some c')
    (hroom : c.cache.length < depth) : c'.pending = c.pending := by
  unfold arrive at h
  split at h
  · cases h
  · next x rest hf =>
    obtain rfl := Option.some.inj h
    simp only [pending, hf, Nat.sub_eq_zero_of_le hroom, List.drop_zero, List.append_assoc,
      List.singleton_append]

/-- An arrival at a full history loses a sample. -/
theorem length_pending_arrive {depth : Nat} {c c' : Channel α} (h : c.arrive depth = some c')
    (hfull : depth ≤ c.cache.length) : c'.pending.length < c.pending.length := by
  unfold arrive at h
  split at h
  · cases h
  · next x rest hf =>
    obtain rfl := Option.some.inj h
    simp only [pending, hf, List.length_append, List.length_drop, List.length_cons,
      List.length_nil]
    omega

theorem pending_lose (i : Nat) (c : Channel α) : (c.lose i).pending.Sublist c.pending := by
  unfold lose
  split
  · exact (List.eraseIdx_sublist c.cache i).append_right c.flight
  · exact (List.eraseIdx_sublist c.flight _).append_left c.cache

/-- The samples of a batch and those that stay behind are those of before. -/
theorem takeFrom_eq_some {pattern : List (Option α)} {xs rest : List α} {es : List (Entry α)}
    (h : takeFrom pattern xs = some (es, rest)) :
    validData es ++ rest = xs ∧ es.length = pattern.length := by
  induction pattern generalizing xs es rest with
  | nil =>
    obtain ⟨rfl, rfl⟩ := Prod.mk.inj (Option.some.inj h)
    exact ⟨rfl, rfl⟩
  | cons p ps ih =>
    cases p with
    | some junk =>
      obtain ⟨⟨es', rest'⟩, htake, heq⟩ := Option.map_eq_some_iff.mp h
      obtain ⟨rfl, rfl⟩ := Prod.mk.inj heq
      obtain ⟨hxs, hlen⟩ := ih htake
      exact ⟨hxs, by rw [List.length_cons, List.length_cons, hlen]⟩
    | none =>
      cases xs with
      | nil => cases h
      | cons x xs =>
        obtain ⟨⟨es', rest'⟩, htake, heq⟩ := Option.map_eq_some_iff.mp h
        obtain ⟨rfl, rfl⟩ := Prod.mk.inj heq
        obtain ⟨hxs, hlen⟩ := ih htake
        refine ⟨?_, by rw [List.length_cons, List.length_cons, hlen]⟩
        rw [← hxs]
        rfl

theorem pending_take {pattern : List (Option α)} {c c' : Channel α} {es : List (Entry α)}
    (h : c.take pattern = some (es, c')) :
    validData es ++ c'.pending = c.pending ∧ es.length = pattern.length := by
  obtain ⟨⟨es', rest⟩, htake, heq⟩ := Option.map_eq_some_iff.mp h
  obtain ⟨rfl, rfl⟩ := Prod.mk.inj heq
  obtain ⟨hcache, hlen⟩ := takeFrom_eq_some htake
  refine ⟨?_, hlen⟩
  simp only [pending]
  rw [← List.append_assoc, hcache]

end Channel

/-! ## Hops -/

/-- One hop of a relay. -/
structure Hop (α : Type*) where
  /-- What the sender set out to write, in order. -/
  source : List α
  /-- What the receiver has handled, and behind it what is still on its way, in order. -/
  account : List α

namespace Hop

/-- Everything in the account of a hop, from the handled end to the one not yet written. -/
def fold (f : α → β) (handled todo : List β) (c : Channel α) (unsent : List β) : List β :=
  handled ++ (todo ++ (c.pending.map f ++ unsent))

/-- Nothing is invented, duplicated or reordered. -/
def InOrder (h : Hop α) : Prop := h.account.Sublist h.source

/-- Nothing is lost. -/
def Complete (h : Hop α) : Prop := h.account = h.source

/-- Something is lost. -/
def Short (h : Hop α) : Prop := h.account.length < h.source.length

/-- New values join the source and the end of the account, and the account may lose some
values unless the move is lossless. -/
def Moves (lossless : Prop) (h h' : Hop α) : Prop :=
  ∃ new, h'.source = h.source ++ new ∧ h'.account.Sublist (h.account ++ new) ∧
    (lossless → h'.account = h.account ++ new)

variable {lossless : Prop} {h h' : Hop α}

/-- A move that hands values on inside the account. -/
theorem Moves.of_eq (hs : h'.source = h.source) (ha : h'.account = h.account) :
    Moves lossless h h' :=
  ⟨[], by rw [hs, List.append_nil], by rw [ha, List.append_nil], fun _ => by
    rw [ha, List.append_nil]⟩

theorem Moves.refl (h : Hop α) : Moves lossless h h := Moves.of_eq rfl rfl

/-- A move that adds values. -/
theorem Moves.of_append {xs : List α} (hs : h'.source = h.source ++ xs)
    (ha : h'.account = h.account ++ xs) : Moves lossless h h' :=
  ⟨xs, hs, by rw [ha], fun _ => ha⟩

/-- A move that loses values, unless it is lossless. -/
theorem Moves.of_sublist (hs : h'.source = h.source) (ha : h'.account.Sublist h.account)
    (heq : lossless → h'.account = h.account) : Moves lossless h h' :=
  ⟨[], by rw [hs, List.append_nil], by rwa [List.append_nil], fun hl => by
    rw [heq hl, List.append_nil]⟩

theorem Moves.inOrder (hm : Moves lossless h h') (hi : h.InOrder) : h'.InOrder := by
  obtain ⟨new, hs, ha, -⟩ := hm
  rw [InOrder, hs]
  exact ha.trans (hi.append_right new)

theorem Moves.complete (hm : Moves lossless h h') (hl : lossless) (hc : h.Complete) :
    h'.Complete := by
  obtain ⟨new, hs, -, heq⟩ := hm
  rw [Complete, hs, heq hl, hc]

/-- What is lost stays lost. -/
theorem Moves.short (hm : Moves lossless h h') (hs : h.Short) : h'.Short := by
  obtain ⟨new, hsource, ha, -⟩ := hm
  have hle := ha.length_le
  unfold Short at hs ⊢
  rw [hsource]
  simp only [List.length_append] at hle ⊢
  omega

/-! ### The account of a hop -/

variable (f : α → β) (handled todo unsent : List β) (c : Channel α)

theorem fold_write (x : α) :
    fold f handled todo (c.write x) unsent = fold f handled todo c (f x :: unsent) := by
  simp only [fold, Channel.pending_write, List.map_append, List.map_cons, List.map_nil,
    List.append_assoc, List.singleton_append]

/-- A value that is not written is lost. -/
theorem fold_skip (y : β) :
    (fold f handled todo c unsent).Sublist (fold f handled todo c (y :: unsent)) :=
  (((List.sublist_cons_self y unsent).append_left _).append_left todo).append_left handled

theorem fold_append (ys : List β) :
    fold f handled todo c (unsent ++ ys) = fold f handled todo c unsent ++ ys := by
  simp only [fold, List.append_assoc]

theorem fold_of_sublist {c' : Channel α} (h : c'.pending.Sublist c.pending) :
    (fold f handled todo c' unsent).Sublist (fold f handled todo c unsent) :=
  (((h.map f).append_right unsent).append_left todo).append_left handled

theorem fold_of_eq {c' : Channel α} (h : c'.pending = c.pending) :
    fold f handled todo c' unsent = fold f handled todo c unsent := by
  rw [fold, h, fold]

theorem length_fold {c' : Channel α} (h : c'.pending.length < c.pending.length) :
    (fold f handled todo c' unsent).length < (fold f handled todo c unsent).length := by
  simp only [fold, List.length_append, List.length_map]
  omega

/-- Of a hop in order, what is handled or at hand is a subsequence of the source. -/
theorem InOrder.of_fold {source : List β}
    (h : InOrder ⟨source, fold f handled todo c unsent⟩) : (handled ++ todo).Sublist source := by
  unfold InOrder fold at h
  rw [← List.append_assoc] at h
  exact (List.sublist_append_left _ _).trans h

/-- Where all values of the source are handled, nothing is lost, and nothing is on its way. -/
theorem InOrder.of_subset {source : List β}
    (h : InOrder ⟨source, fold f handled todo c unsent⟩) (hnodup : source.Nodup)
    (hall : source ⊆ handled) :
    ¬ Short ⟨source, fold f handled todo c unsent⟩ ∧ todo = [] ∧ c.pending = [] ∧ unsent = [] := by
  have hle := (List.subperm_of_subset hnodup hall).length_le
  have hlength := h.length_le
  refine ⟨?_, ?_⟩
  · unfold Short
    simp only [fold, List.length_append] at hlength ⊢
    omega
  · simp only [fold, List.length_append, List.length_map] at hlength
    refine ⟨?_, ?_, ?_⟩ <;> exact List.eq_nil_of_length_eq_zero (by omega)

theorem fold_take {pattern : List (Option α)} {c c' : Channel α} {es : List (Entry α)}
    (h : c.take pattern = some (es, c')) :
    fold f handled ((validData es).map f) c' unsent = fold f handled [] c unsent := by
  simp only [fold, ← (Channel.pending_take h).1, List.map_append, List.append_assoc,
    List.nil_append]

theorem fold_handle (ys : List β) :
    fold f (handled ++ ys) todo c unsent = fold f handled (ys ++ todo) c unsent := by
  simp only [fold, List.append_assoc]

end Hop

end Delivery
