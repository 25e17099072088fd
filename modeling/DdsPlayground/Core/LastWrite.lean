import Mathlib.Data.Finmap

/-!
# A finite map as the history of its writes

Writing a list of key-value pairs one after the other leaves, under each key,
the value written last. The history therefore determines the map, a renaming
of the keys by an injection goes through it, and a history whose writes agree
on every key counts only as a set.
-/

namespace LastWrite

variable {κ κ' ν : Type*} [DecidableEq κ] [DecidableEq κ']

/-- Perform writes in order. -/
def writeAll (m : Finmap fun _ : κ => ν) (ws : List (κ × ν)) : Finmap fun _ : κ => ν :=
  ws.foldl (fun m w => m.insert w.1 w.2) m

/-- The value written last under a key. -/
def lastWrite (k : κ) : List (κ × ν) → Option ν
  | [] => none
  | w :: ws => (lastWrite k ws).or (if w.1 = k then some w.2 else none)

@[simp] theorem writeAll_nil (m : Finmap fun _ : κ => ν) : writeAll m [] = m := rfl

@[simp] theorem writeAll_cons (m : Finmap fun _ : κ => ν) (w : κ × ν) (ws : List (κ × ν)) :
    writeAll m (w :: ws) = writeAll (m.insert w.1 w.2) ws := rfl

@[simp] theorem writeAll_append (m : Finmap fun _ : κ => ν) (ws vs : List (κ × ν)) :
    writeAll m (ws ++ vs) = writeAll (writeAll m ws) vs := List.foldl_append ..

@[simp] theorem lastWrite_nil (k : κ) : lastWrite k ([] : List (κ × ν)) = none := rfl

/-- Later writes take precedence over earlier ones. -/
theorem lastWrite_append (k : κ) (ws vs : List (κ × ν)) :
    lastWrite k (ws ++ vs) = (lastWrite k vs).or (lastWrite k ws) := by
  induction ws with
  | nil => simp
  | cons w ws ih => simp only [List.cons_append, lastWrite, ih, Option.or_assoc]

/-- The map after a history holds the last value written, or what it held before. -/
theorem lookup_writeAll (m : Finmap fun _ : κ => ν) (ws : List (κ × ν)) (k : κ) :
    (writeAll m ws).lookup k = (lastWrite k ws).or (m.lookup k) := by
  induction ws generalizing m with
  | nil => simp
  | cons w ws ih =>
    rw [writeAll_cons, ih, lastWrite, Option.or_assoc]
    congr 1
    by_cases hk : w.1 = k
    · subst hk
      simp
    · rw [Finmap.lookup_insert_of_ne m (Ne.symm hk), if_neg hk, Option.none_or]

/-- The last value of a key was written under it. -/
theorem mem_of_lastWrite {k : κ} {ws : List (κ × ν)} {v : ν} (h : lastWrite k ws = some v) :
    (k, v) ∈ ws := by
  induction ws with
  | nil => simp at h
  | cons w ws ih =>
    rw [lastWrite, Option.or_eq_some_iff] at h
    rcases h with h | ⟨_, h⟩
    · exact List.mem_cons_of_mem w (ih h)
    · by_cases hk : w.1 = k
      · rw [if_pos hk, Option.some.injEq] at h
        exact List.mem_cons.mpr (Or.inl (Prod.ext hk.symm h.symm))
      · simp [hk] at h

/-- A key has no last value exactly when nothing was written under it. -/
theorem lastWrite_eq_none_iff {k : κ} {ws : List (κ × ν)} :
    lastWrite k ws = none ↔ ∀ w ∈ ws, w.1 ≠ k := by
  induction ws with
  | nil => simp
  | cons w ws ih => simp [lastWrite, Option.or_eq_none_iff, ih, and_comm]

/-- The last write of a key has no other one behind it. -/
theorem exists_split_of_lastWrite {k : κ} {ws : List (κ × ν)} {v : ν}
    (h : lastWrite k ws = some v) : ∃ before after, ws = before ++ (k, v) :: after ∧
      ∀ w ∈ after, w.1 ≠ k := by
  induction ws with
  | nil => simp at h
  | cons w ws ih =>
    rw [lastWrite, Option.or_eq_some_iff] at h
    rcases h with h | ⟨hnone, h⟩
    · obtain ⟨before, after, rfl, hafter⟩ := ih h
      exact ⟨w :: before, after, rfl, hafter⟩
    · by_cases hk : w.1 = k
      · rw [if_pos hk, Option.some.injEq] at h
        exact ⟨[], ws, by rw [← hk, ← h]; rfl, lastWrite_eq_none_iff.mp hnone⟩
      · simp [hk] at h

/-- Writes that are not the last one of the key may be dropped. -/
theorem lastWrite_filter {p : κ × ν → Bool} {k : κ} {ws : List (κ × ν)}
    (h : ∀ v, lastWrite k ws = some v → p (k, v) = true) :
    lastWrite k (ws.filter p) = lastWrite k ws := by
  cases hl : lastWrite k ws with
  | none =>
    refine lastWrite_eq_none_iff.mpr fun w hw => ?_
    exact lastWrite_eq_none_iff.mp hl w (List.mem_of_mem_filter hw)
  | some v =>
    obtain ⟨before, after, rfl, hafter⟩ := exists_split_of_lastWrite hl
    have hnone : lastWrite k (after.filter p) = none :=
      lastWrite_eq_none_iff.mpr fun w hw => hafter w (List.mem_of_mem_filter hw)
    rw [List.filter_append, List.filter_cons_of_pos (h v hl), lastWrite_append, lastWrite, hnone,
      if_pos rfl]
    rfl

/-- Renaming the keys by an injection renames the history. -/
theorem lastWrite_map {f : κ → κ'} (hf : Function.Injective f) (k : κ) (ws : List (κ × ν)) :
    lastWrite (f k) (ws.map fun w => (f w.1, w.2)) = lastWrite k ws := by
  induction ws with
  | nil => rfl
  | cons w ws ih => simp only [List.map_cons, lastWrite, ih, hf.eq_iff]

/-- The writes under one key all carry one value. -/
def Consistent (ws : List (κ × ν)) : Prop :=
  ∀ w ∈ ws, ∀ w' ∈ ws, w.1 = w'.1 → w.2 = w'.2

/-- In a consistent history any write is the last one. -/
theorem Consistent.lastWrite_eq {ws : List (κ × ν)} (h : Consistent ws) {k : κ} {v : ν}
    (hm : (k, v) ∈ ws) : lastWrite k ws = some v := by
  cases hl : lastWrite k ws with
  | none => exact absurd rfl (lastWrite_eq_none_iff.mp hl (k, v) hm)
  | some u => exact congrArg some (h _ (mem_of_lastWrite hl) _ hm rfl)

/-- A consistent history acts through its set of writes alone: neither the
order nor a repetition shows in the map. -/
theorem Consistent.writeAll_eq {ws vs : List (κ × ν)} (h : Consistent ws)
    (hset : ∀ w, w ∈ ws ↔ w ∈ vs) (m : Finmap fun _ : κ => ν) :
    writeAll m ws = writeAll m vs := by
  apply Finmap.ext_lookup
  intro k
  rw [lookup_writeAll, lookup_writeAll]
  congr 1
  cases hl : lastWrite k vs with
  | none =>
    refine lastWrite_eq_none_iff.mpr fun w hw => ?_
    exact lastWrite_eq_none_iff.mp hl w ((hset w).mp hw)
  | some v => exact h.lastWrite_eq ((hset _).mpr (mem_of_lastWrite hl))

end LastWrite
