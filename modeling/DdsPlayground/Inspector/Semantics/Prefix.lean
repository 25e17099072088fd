import DdsPlayground.Inspector.Semantics.Message

/-!
# Messages that are cut off

A capture may hold only the first bytes of a message. The walk visits the same
submessages up to the cut, and decodes the last of them from the bytes that are
there: the fixed fields are those of the whole submessage, and the payload is a
prefix of its payload, or shorter than a CDR header.
-/

namespace DdsPlayground.Inspector

open ByteWire

/-! ## Lists of parameters -/

theorem paramCutter_local (le : Bool) : (paramCutter le).Local := by
  rintro ys xs b rest ⟨tail, rfl⟩ h
  simp only [paramCutter] at h ⊢
  split at h
  · next hc =>
    obtain ⟨h4, hpid, hfit⟩ := hc
    obtain ⟨rfl, rfl⟩ := Prod.mk.inj (Option.some.inj h)
    have hp : u16At le (ys ++ tail) 0 = u16At le ys 0 := u16At_append_left (by omega)
    have hl : u16At le (ys ++ tail) 2 = u16At le ys 2 := u16At_append_left (by omega)
    refine ⟨ys.drop (4 + (u16At le ys 2).toNat) ++ tail, ?_, List.prefix_append _ _⟩
    rw [hp, hl, if_pos ⟨by rw [List.length_append]; omega, hpid, by
      rw [List.length_append]; omega⟩, List.drop_append_of_le_length hfit,
      List.drop_append_of_le_length h4, List.take_append_of_le_length (by
        rw [List.length_drop]; omega)]
  · cases h

/-- The parameters of a payload that is cut off are the first ones of the payload. -/
theorem sedpParams_prefix {pl pl' : Bytes} (h : pl' <+: pl) (hlen : 4 ≤ pl'.length) :
    payloadLe pl' = payloadLe pl ∧ sedpParams pl' <+: sedpParams pl := by
  obtain ⟨tail, rfl⟩ := h
  have hle : payloadLe (pl' ++ tail) = payloadLe pl' := by
    simp only [payloadLe, peek_append_left (show 1 < pl'.length by omega)]
  refine ⟨hle.symm, ?_⟩
  rw [sedpParams, sedpParams, hle]
  exact Cutter.Local.items_prefix (paramCutter_local _) ((List.prefix_append pl' tail).drop 4)

/-! ## Inline QoS -/

/-- Behind the inline QoS of a prefix stands a prefix, or less than four bytes. -/
theorem skipQos_prefix {le : Bool} {ys xs : Bytes} (h : ys <+: xs) :
    (skipQos le ys).length < 4 ∨ skipQos le ys <+: skipQos le xs := by
  induction hn : ys.length using Nat.strongRecOn generalizing ys xs with
  | ind n ih =>
    by_cases h4 : 4 ≤ ys.length
    · obtain ⟨tail, rfl⟩ := h
      have hp : u16At le (ys ++ tail) 0 = u16At le ys 0 := u16At_append_left (by omega)
      have hl : u16At le (ys ++ tail) 2 = u16At le ys 2 := u16At_append_left (by omega)
      have hlong : 4 ≤ (ys ++ tail).length := by
        rw [List.length_append]
        omega
      have hdrop := (List.prefix_append ys tail).drop (4 + (u16At le ys 2).toNat)
      by_cases hs : u16At le ys 0 = pidSentinel
      · rw [skipQos_of_sentinel h4 hs, skipQos_of_sentinel hlong (hp.trans hs), hl]
        exact Or.inr hdrop
      · rw [skipQos_of_param h4 hs, skipQos_of_param hlong (by rw [hp]; exact hs), hl]
        exact ih _ (by rw [List.length_drop]; omega) hdrop rfl
    · rw [skipQos_of_short (by omega)]
      exact Or.inl (by omega)

/-! ## One submessage -/

theorem submsgLen_take (rest : Bytes) {j : Nat} (h : 4 ≤ j) :
    submsgLe (rest.take j) = submsgLe rest ∧ submsgLen (rest.take j) = submsgLen rest := by
  have hle : submsgLe (rest.take j) = submsgLe rest := by
    simp only [submsgLe, peek_take (show 1 < j by omega)]
  refine ⟨hle, ?_⟩
  rw [submsgLen, hle, u16At_take (by omega), submsgLen]

/-- The cut bounds the extent. -/
theorem extent_take (rest : Bytes) {j : Nat} (h : 4 ≤ j) :
    extent (rest.take j) = min (extent rest) j := by
  rw [extent, extent, (submsgLen_take rest h).2, List.length_take]
  split <;> omega

/-- A DATA that is cut off behind its fixed fields has the same fields, and a payload
that is a prefix or shorter than a CDR header. -/
theorem decodeData_take (rest : Bytes) {j : Nat} (h : 24 ≤ j) :
    (decodeData (rest.take j)).writer = (decodeData rest).writer ∧
      (decodeData (rest.take j)).hasData = (decodeData rest).hasData ∧
      ((decodeData (rest.take j)).payload.length < 4 ∨
        (decodeData (rest.take j)).payload <+: (decodeData rest).payload) := by
  have h4 : 4 ≤ j := by omega
  have hle := (submsgLen_take rest h4).1
  have hext := extent_take rest h4
  have hflags : peek (rest.take j) 1 = peek rest 1 := peek_take (by omega)
  have hoct (le : Bool) : u16At le (rest.take j) 6 = u16At le rest 6 := u16At_take (by omega)
  refine ⟨window_take (by omega), by simp only [decodeData, hflags], ?_⟩
  have hregion : ((rest.take j).take (extent (rest.take j))).drop
        (8 + (u16At (submsgLe rest) rest 6).toNat) <+:
      (rest.take (extent rest)).drop (8 + (u16At (submsgLe rest) rest 6).toNat) := by
    refine List.IsPrefix.drop ?_ _
    rw [List.take_take, hext]
    exact List.take_prefix_take_left (by omega)
  simp only [decodeData, hle, hflags, hoct]
  split
  · exact skipQos_prefix hregion
  · exact Or.inr hregion

/-- A DATA that the cut leaves whole is the same. -/
theorem decodeData_take_of_le {rest : Bytes} {j : Nat} (h : 24 ≤ j) (hext : extent rest ≤ j) :
    decodeData (rest.take j) = decodeData rest := by
  have h4 : 4 ≤ j := by omega
  refine decodeData_congr (fun i hi => peek_take (by omega)) ?_
  rw [List.take_take, extent_take rest h4, Nat.min_eq_left hext, Nat.min_eq_left hext]

/-- What is decoded as DATA in a message that is cut off is DATA in the message. -/
theorem decodeContent_take {rest : Bytes} {j : Nat} {d : DataSub} (hj : 4 ≤ j)
    (h : decodeContent (rest.take j) = .data d) :
    24 ≤ j ∧ d = decodeData (rest.take j) ∧ decodeContent rest = .data (decodeData rest) := by
  have hid : peek (rest.take j) 0 = peek rest 0 := peek_take (by omega)
  rw [decodeContent, hid] at h
  split at h
  · next hdata =>
    split at h
    · cases h
    · next hlen =>
      rw [List.length_take] at hlen
      exact ⟨by omega, (Content.data.inj h).symm, by rw [decodeContent, if_pos hdata,
        if_neg (by omega)]⟩
  · split at h <;> cases h

/-! ## The walk -/

theorem length_of_mem_items {xs rest : Bytes} (h : rest ∈ submsgCutter.items xs) :
    4 ≤ rest.length ∧ rest.length ≤ xs.length := by
  induction xs using Cutter.induction (c := submsgCutter) with
  | stop xs hc => rw [Cutter.items_of_none hc] at h; simp at h
  | more xs b tail hc ih =>
    have hlt := submsgCutter.shrinks hc
    rw [Cutter.items_of_some hc] at h
    rcases List.mem_cons.mp h with rfl | htail
    · simp only [submsgCutter] at hc
      split at hc
      · next h4 =>
        obtain ⟨rfl, -⟩ := Prod.mk.inj (Option.some.inj hc)
        exact ⟨h4, le_rfl⟩
      · cases hc
    · obtain ⟨h4, hle⟩ := ih htail
      exact ⟨h4, by omega⟩

/-- The walk over the first bytes visits the submessages whose header is there, each
with the bytes that are there. -/
theorem items_take (xs : Bytes) (n : Nat) :
    submsgCutter.items (xs.take n) =
      ((submsgCutter.items xs).filter fun rest => xs.length - rest.length + 4 ≤ n).map
        fun rest => rest.take (n - (xs.length - rest.length)) := by
  induction hlen : xs.length using Nat.strongRecOn generalizing xs n with
  | ind len ih =>
    subst hlen
    by_cases h4 : 4 ≤ xs.length
    · have hcut := submsgCutter_cut xs h4
      have hext := four_le_extent xs h4
      have hext' := extent_le xs
      have htail : ∀ rest ∈ submsgCutter.items (xs.drop (extent xs)),
          rest.length + extent xs ≤ xs.length := by
        intro rest hrest
        have hle := (length_of_mem_items hrest).2
        rw [List.length_drop] at hle
        omega
      rw [Cutter.items_of_some hcut]
      by_cases hn : 4 ≤ n
      · have hcut' := submsgCutter_cut (xs.take n) (by rw [List.length_take]; omega)
        rw [Cutter.items_of_some hcut', extent_take xs hn,
          List.filter_cons_of_pos (by simpa using hn),
          List.map_cons, Nat.sub_self, Nat.sub_zero]
        congr 1
        by_cases he : extent xs ≤ n
        · rw [Nat.min_eq_left he, List.drop_take,
            ih (xs.drop (extent xs)).length (by rw [List.length_drop]; omega) _ _ rfl]
          rw [List.filter_congr (q := fun rest => decide (xs.length - rest.length + 4 ≤ n))]
          · refine List.map_congr_left fun rest hrest => ?_
            have := htail rest (List.mem_of_mem_filter hrest)
            rw [List.length_drop]
            congr 1
            omega
          · intro rest hrest
            have := htail rest hrest
            rw [List.length_drop, decide_eq_decide]
            omega
        · have hnil : (xs.take n).drop (min (extent xs) n) = [] := by
            rw [List.drop_eq_nil_iff, List.length_take]
            omega
          have hnone : (submsgCutter.items (xs.drop (extent xs))).filter
              (fun rest => decide (xs.length - rest.length + 4 ≤ n)) = [] := by
            refine List.filter_eq_nil_iff.mpr fun rest hrest => ?_
            have := htail rest hrest
            simp only [decide_eq_true_eq]
            omega
          rw [hnil, hnone, Cutter.items_of_none (submsgCutter_cut_of_short (by simp))]
          rfl
      · have hnone : ((xs :: submsgCutter.items (xs.drop (extent xs))).filter
            fun rest => decide (xs.length - rest.length + 4 ≤ n)) = [] := by
          refine List.filter_eq_nil_iff.mpr fun rest _ => ?_
          simp only [decide_eq_true_eq]
          omega
        rw [hnone, Cutter.items_of_none (submsgCutter_cut_of_short
          (by rw [List.length_take]; omega))]
        rfl
    · rw [Cutter.items_of_none (submsgCutter_cut_of_short (by rw [List.length_take]; omega)),
        Cutter.items_of_none (submsgCutter_cut_of_short h4)]
      rfl

/-- Where a submessage starts in its message. -/
def startOf (m rest : Bytes) : Nat := m.length - rest.length

/-- The submessages visited in a message that is cut off behind its header. -/
theorem submsgRests_take {m : Bytes} {k : Nat} (h : 20 ≤ k) (hm : 20 ≤ m.length) :
    submsgRests (m.take k) =
      ((submsgRests m).filter fun rest => startOf m rest + 4 ≤ k).map
        fun rest => rest.take (k - startOf m rest) := by
  have hstart : ∀ rest ∈ submsgCutter.items (m.drop 20),
      startOf m rest = 20 + ((m.drop 20).length - rest.length) := by
    intro rest hrest
    have hle := (length_of_mem_items hrest).2
    rw [List.length_drop] at hle ⊢
    rw [startOf]
    omega
  rw [submsgRests, submsgRests, List.drop_take, items_take]
  rw [List.filter_congr (q := fun rest => decide (startOf m rest + 4 ≤ k))]
  · refine List.map_congr_left fun rest hrest => ?_
    rw [hstart rest (List.mem_of_mem_filter hrest)]
    congr 1
    omega
  · intro rest hrest
    rw [hstart rest hrest, decide_eq_decide]
    omega

end DdsPlayground.Inspector
