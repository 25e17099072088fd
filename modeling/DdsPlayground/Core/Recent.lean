import DdsPlayground.Core.Channel
import Mathlib.Data.List.DropRight

/-!
# The newest samples

A reader that keeps the last `depth` samples drops the oldest ones. On a hop where nothing
else is lost the last values of the account are therefore the last values of the source,
however far the two are apart behind them.
-/

namespace Delivery

variable {α β : Type*}

/-! ## The end of a list -/

theorem rtake_append_of_le {d : Nat} (xs : List α) {ys : List α} (h : d ≤ ys.length) :
    (xs ++ ys).rtake d = ys.rtake d := by
  rw [List.rtake_eq_reverse_take_reverse, List.rtake_eq_reverse_take_reverse, List.reverse_append,
    List.take_append_of_le_length (by rwa [List.length_reverse])]

/-- Lists that end alike do so with the same list behind them. -/
theorem rtake_append_congr {d : Nat} {xs ys : List α} (h : xs.rtake d = ys.rtake d)
    (zs : List α) : (xs ++ zs).rtake d = (ys ++ zs).rtake d := by
  have hrev : xs.reverse.take d = ys.reverse.take d := by
    simpa only [List.rtake_eq_reverse_take_reverse, List.reverse_inj] using h
  have hrest : xs.reverse.take (d - zs.length) = ys.reverse.take (d - zs.length) := by
    have htake := congrArg (List.take (d - zs.length)) hrev
    simpa only [List.take_take, Nat.min_eq_left (Nat.sub_le d zs.length)] using htake
  rw [List.rtake_eq_reverse_take_reverse, List.rtake_eq_reverse_take_reverse, List.reverse_append,
    List.reverse_append, List.take_append, List.take_append, List.length_reverse, hrest]

theorem rtake_map (f : α → β) (d : Nat) (xs : List α) : (xs.map f).rtake d = (xs.rtake d).map f := by
  rw [List.rtake, List.rtake, List.map_drop, List.length_map]

/-- What is left of a suffix of `d` or more elements. -/
theorem rtake_middle {d : Nat} {ys ys' : List α} (hsuffix : ys' <:+ ys) (hlen : d ≤ ys'.length)
    (xs zs : List α) : (xs ++ (ys' ++ zs)).rtake d = (xs ++ (ys ++ zs)).rtake d := by
  obtain ⟨lost, rfl⟩ := hsuffix
  have hle : d ≤ (ys' ++ zs).length := by rw [List.length_append]; omega
  rw [rtake_append_of_le xs hle, List.append_assoc, ← List.append_assoc,
    rtake_append_of_le (xs ++ lost) hle]

/-! ## Arrivals -/

/-- An arrival loses nothing, or leaves the `depth` newest samples. -/
theorem Channel.pending_arrive_cases {depth : Nat} {c c' : Channel α}
    (h : c.arrive depth = some c') :
    c'.pending = c.pending ∨ c'.pending <:+ c.pending ∧ depth ≤ c'.pending.length := by
  by_cases hroom : c.cache.length < depth
  · exact .inl (Channel.pending_arrive_of_lt h hroom)
  · unfold Channel.arrive at h
    split at h
    · cases h
    · next x rest hf =>
      obtain rfl := Option.some.inj h
      refine .inr ⟨?_, ?_⟩
      · have hdrop := List.drop_suffix (c.cache.length + 1 - depth) (c.cache ++ [x])
        obtain ⟨lost, hlost⟩ := hdrop
        refine ⟨lost, ?_⟩
        simp only [Channel.pending, hf]
        rw [← List.append_assoc, hlost, List.append_assoc, List.singleton_append]
      · simp only [Channel.pending, List.length_append, List.length_drop, List.length_cons,
          List.length_nil]
        omega

/-! ## Hops -/

namespace Hop

/-- The last `d` values of the source are the last of the account. -/
def Recent (d : Nat) (h : Hop α) : Prop := h.account.rtake d = h.source.rtake d

variable {lossless : Prop} {h h' : Hop α} {d : Nat}

theorem Moves.recent (hm : Moves lossless h h') (hl : lossless) (hr : h.Recent d) :
    h'.Recent d := by
  obtain ⟨new, hs, -, heq⟩ := hm
  rw [Recent, hs, heq hl]
  exact rtake_append_congr hr new

/-- An arrival at a reader that keeps `d` samples keeps the last `d` values. -/
theorem rtake_fold_arrive (f : α → β) (handled todo unsent : List β) {depth : Nat}
    {c c' : Channel α} (h : c.arrive depth = some c') (hd : d ≤ depth) :
    (fold f handled todo c' unsent).rtake d = (fold f handled todo c unsent).rtake d := by
  rcases Channel.pending_arrive_cases h with heq | ⟨hsuffix, hlen⟩
  · rw [fold_of_eq f handled todo unsent c heq]
  · have hmap : d ≤ (c'.pending.map f).length := by rw [List.length_map]; omega
    simp only [fold]
    rw [← List.append_assoc, rtake_middle (hsuffix.map f) hmap, List.append_assoc]

end Hop

end Delivery
