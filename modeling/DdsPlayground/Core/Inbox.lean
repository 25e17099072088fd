import DdsPlayground.Core.Channel

/-!
# Batches in a pair of arrays

A program takes a batch into two parallel arrays and walks it by index. What it has
still to handle at an index is a list: the data of the valid entries from there on.
-/

namespace Delivery

variable {α : Type*}

/-- The two arrays: pointers to samples, and the validity of each entry. -/
structure Inbox (α : Type*) where
  samples : List (Option α)
  infos : List Bool
  deriving DecidableEq, Repr

namespace Inbox

/-- A batch in arrays of `cap` places: the pointers behind it are null, and the rest of the
other array is left as it is. -/
def fill (cap : Nat) (b : Inbox α) (es : List (Entry α)) : Inbox α :=
  { samples := es.map (fun e => some e.data) ++ List.replicate (cap - es.length) none
    infos := es.map (·.valid) ++ b.infos.drop es.length }

/-- Read an entry: `none` where the arrays do not have it or the pointer is null, and no
data where it is invalid. -/
def read (b : Inbox α) (i : Nat) : Option (Option α) :=
  match b.infos[i]? with
  | none => none
  | some false => some none
  | some true => b.samples[i]?.join.map some

/-- The data of the valid entries from `i` on in a batch of `n`. -/
def todo (b : Inbox α) (i n : Nat) : List α :=
  (((b.infos.zip b.samples).take n).drop i).filterMap fun e => if e.1 then e.2 else none

theorem todo_fill (cap : Nat) (b : Inbox α) (es : List (Entry α)) :
    (b.fill cap es).todo 0 es.length = validData es := by
  have hzip : ((b.fill cap es).infos.zip (b.fill cap es).samples).take es.length =
      es.map fun e => (e.valid, some e.data) := by
    rw [fill, List.zip_append (by simp), List.take_left' (by simp), List.zip_map']
  rw [todo, hzip, List.drop_zero, List.filterMap_map]
  rfl

theorem todo_of_le (b : Inbox α) {i n : Nat} (h : n ≤ i) : b.todo i n = [] := by
  rw [todo, List.drop_eq_nil_of_le (by rw [List.length_take]; omega)]
  rfl

/-- An entry that is read as invalid is passed over. -/
theorem todo_of_read_none {b : Inbox α} {i n : Nat} (h : b.read i = some none) :
    b.todo i n = b.todo (i + 1) n := by
  have hv : b.infos[i]? = some false := by
    unfold read at h
    split at h
    · cases h
    · assumption
    · cases hs : b.samples[i]?.join <;> simp [hs] at h
  by_cases hlt : i < ((b.infos.zip b.samples).take n).length
  · have hget : (((b.infos.zip b.samples).take n)[i]).1 = false := by
      obtain ⟨_, hinfo⟩ := List.getElem?_eq_some_iff.mp hv
      rw [List.getElem_take, List.getElem_zip]
      exact hinfo
    rw [todo, List.drop_eq_getElem_cons hlt, List.filterMap_cons]
    simp only [hget, Bool.false_eq_true, if_false]
    rfl
  · rw [todo, todo, List.drop_eq_nil_of_le (by omega), List.drop_eq_nil_of_le (by omega)]

/-- An entry that is read as valid is the next to handle. -/
theorem todo_of_read_some {b : Inbox α} {i n : Nat} {x : α} (hi : i < n)
    (h : b.read i = some (some x)) : b.todo i n = x :: b.todo (i + 1) n := by
  have hz : ((b.infos.zip b.samples).take n)[i]? = some (true, some x) := by
    unfold read at h
    split at h
    · cases h
    · cases h
    · next hv =>
      obtain ⟨y, hs, hy⟩ := Option.map_eq_some_iff.mp h
      obtain rfl := Option.some.inj hy
      rw [List.getElem?_take_of_lt hi, List.getElem?_zip_eq_some]
      exact ⟨hv, Option.join_eq_some_iff.mp hs⟩
  obtain ⟨hlt, hget⟩ := List.getElem?_eq_some_iff.mp hz
  rw [todo, List.drop_eq_getElem_cons hlt, hget]
  rfl

theorem read_fill (cap : Nat) (b : Inbox α) {es : List (Entry α)} {i : Nat}
    (hi : i < es.length) :
    (b.fill cap es).read i = some (if es[i].valid then some es[i].data else none) := by
  have hinfo : (b.fill cap es).infos[i]? = some es[i].valid := by
    simp [fill, List.getElem?_append_left, hi]
  have hsample : (b.fill cap es).samples[i]? = some (some es[i].data) := by
    simp [fill, List.getElem?_append_left, hi]
  unfold read
  rw [hinfo, hsample]
  cases es[i].valid <;> rfl

/-- Every entry of a batch of `n` can be read, and its data is of a kind. -/
def Holds (P : α → Prop) (b : Inbox α) (n : Nat) : Prop :=
  ∀ i < n, ∃ d, b.read i = some d ∧ ∀ x ∈ d, P x

theorem holds_fill {P : α → Prop} (cap : Nat) (b : Inbox α) {es : List (Entry α)}
    (hes : ∀ e ∈ es, P e.data) : (b.fill cap es).Holds P es.length := by
  intro i hi
  refine ⟨_, read_fill cap b hi, ?_⟩
  intro x hx
  cases hvalid : es[i].valid with
  | false => simp [hvalid] at hx
  | true =>
    rw [hvalid, if_pos rfl] at hx
    obtain rfl := Option.some.inj hx
    exact hes _ (List.getElem_mem hi)

end Inbox

end Delivery
