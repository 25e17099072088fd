import DdsPlayground.Inspector.Native.Packet
import DdsPlayground.Inspector.Semantics.Submessage

/-!
# Messages as lists of submessages

The submessage loop visits the positions that cutting the message yields, and
`handle_rtps` is the left fold of the submessages' effects. A run over captured
frames is the fold over the messages found in them. With these equations every
native function is total: no checked read fails and no loop runs out of fuel.
-/

namespace DdsPlayground.Inspector

open ByteWire BoundedLoop

/-! ## The submessage walk -/

/-- Cut one submessage off the front; the item is everything from its header on. -/
def submsgCutter : Cutter UInt8 Bytes where
  cut xs := if 4 ≤ xs.length then some (xs, xs.drop (extent xs)) else none
  shrinks {xs b rest} h := by
    split at h
    · next hc =>
      obtain ⟨-, rfl⟩ := Prod.mk.inj (Option.some.inj h)
      have := four_le_extent xs hc
      simp only [List.length_drop]
      omega
    · cases h

/-- The rests of a message at which the walk decodes a submessage. -/
def submsgRests (data : Bytes) : List Bytes := submsgCutter.items (data.drop 20)

/-- The submessages of a message as the walk decodes them. -/
def submsgs (data : Bytes) : List Submsg := (submsgRests data).map decodeSubmsg

/-- The submessages act in order. -/
def Globals.visitAll (cfg : Config) (o : Origin) (p : GuidPrefix) (g : Globals)
    (ss : List Submsg) : Globals := ss.foldl (fun g s => g.visit cfg o p s) g

theorem submsgCutter_cut_of_short {xs : Bytes} (h : ¬ 4 ≤ xs.length) :
    submsgCutter.cut xs = none := if_neg h

theorem submsgCutter_cut (xs : Bytes) (h : 4 ≤ xs.length) :
    submsgCutter.cut xs = some (xs, xs.drop (extent xs)) := if_pos h

/-- One pass of the loop visits the submessage at its offset. -/
theorem submsgPass_again (cfg : Config) (o : Origin) (data : Bytes) (p : GuidPrefix) {off : Nat}
    (h : off + 4 ≤ data.length) (g : Globals) :
    submsgPass cfg o data p ⟨off, g⟩ = some (.again
      ⟨off + extent (data.drop off), g.visit cfg o p (decodeSubmsg (data.drop off))⟩) := by
  have h0 := getElem?_eq_peek data off (by omega)
  have h1 := getElem?_eq_peek data (off + 1) (by omega)
  have hlen := u16_eq (p := data) (i := off + 2) (by omega) (submsgLe (data.drop off))
  have hle : (peek data (off + 1) &&& 0x01 != 0) = submsgLe (data.drop off) := by
    rw [submsgLe, peek_drop]
  have hsm : u16At (submsgLe (data.drop off)) data (off + 2) = submsgLen (data.drop off) := by
    rw [submsgLen, u16At_drop]
  have hnext : (if (if submsgLen (data.drop off) = 0 then data.length
        else off + 4 + (submsgLen (data.drop off)).toNat) > data.length then data.length
      else if submsgLen (data.drop off) = 0 then data.length
        else off + 4 + (submsgLen (data.drop off)).toNat) = off + extent (data.drop off) := by
    simp only [extent, List.length_drop]
    split <;> split <;> omega
  simp only [submsgPass, h, not_true_eq_false, if_false, h0, h1, hle, hlen, hsm, hnext,
    Option.bind_eq_bind, Option.bind_some, Globals.visit, decodeSubmsg, decodeContent, peek_drop,
    Nat.add_zero, List.length_drop]
  by_cases hid : peek data off = smData
  · rw [if_pos hid, if_pos hid]
    by_cases hfix : off + 24 ≤ data.length
    · rw [if_neg (by omega), if_neg (by omega), handleData_eq cfg o data p hfix]
      rfl
    · rw [if_pos (by omega), if_pos (by omega)]
      rfl
  · rw [if_neg hid, if_neg hid]
    by_cases hhb : peek data off = smHeartbeat ∧ off + 4 + 28 ≤ data.length
    · have hw := fetch_eq 4 data (off + 4 + 4) (by omega)
      rw [if_pos hhb, if_pos ⟨hhb.1, by omega⟩]
      simp only [handleHeartbeat, hw, Option.bind_eq_bind, Option.bind_some, window_drop]
      rfl
    · rw [if_neg hhb, if_neg fun hc => hhb ⟨hc.1, by omega⟩]
      rfl

theorem submsgPass_leave (cfg : Config) (o : Origin) (data : Bytes) (p : GuidPrefix) {off : Nat}
    (h : ¬ off + 4 ≤ data.length) (g : Globals) :
    submsgPass cfg o data p ⟨off, g⟩ = some (.leave ⟨off, g⟩) := by
  simp only [submsgPass, h, not_false_eq_true, if_true]

/-- The loop ends and is the fold over the submessages of the message. -/
theorem submsgLoop_eq (cfg : Config) (o : Origin) (data : Bytes) (p : GuidPrefix)
    (h : 20 ≤ data.length) (g : Globals) :
    submsgLoop cfg o data p g = some (g.visitAll cfg o p (submsgs data)) := by
  have hbody : ∀ w : Walk, w.off ≤ data.length →
      (∃ r, submsgPass cfg o data p w = some (.leave r) ∧ r.globals =
        w.globals.visitAll cfg o p ((submsgCutter.items (data.drop w.off)).map decodeSubmsg)) ∨
      ∃ w', submsgPass cfg o data p w = some (.again w') ∧ w'.off ≤ data.length ∧
        data.length - w'.off < data.length - w.off ∧
        w'.globals.visitAll cfg o p ((submsgCutter.items (data.drop w'.off)).map decodeSubmsg) =
          w.globals.visitAll cfg o p ((submsgCutter.items (data.drop w.off)).map decodeSubmsg) := by
    rintro ⟨off, g⟩ hoff
    dsimp only at hoff
    by_cases h4 : off + 4 ≤ data.length
    · have hext := four_le_extent (data.drop off) (by simp only [List.length_drop]; omega)
      have hle := extent_le (data.drop off)
      rw [List.length_drop] at hle
      refine Or.inr ⟨_, submsgPass_again cfg o data p h4 g, by dsimp only; omega,
        by dsimp only; omega, ?_⟩
      rw [Cutter.items_of_some (submsgCutter_cut (data.drop off)
        (by simp only [List.length_drop]; omega)), List.drop_drop]
      rfl
    · refine Or.inl ⟨_, submsgPass_leave cfg o data p h4 g, ?_⟩
      rw [Cutter.items_of_none (submsgCutter_cut_of_short (by simp only [List.length_drop]; omega))]
      rfl
  obtain ⟨r, hr, hg⟩ := exists_run_eq _ (fun w : Walk => data.length - w.off) _ _ hbody
    (data.length + 1) ⟨20, g⟩ h (by dsimp only; omega)
  simp only [submsgLoop, hr, Option.map_some, hg]
  rfl

/-- The offsets at which the loop decodes a submessage. -/
def visitedOffsets (cfg : Config) (o : Origin) (data : Bytes) (p : GuidPrefix) (g : Globals) :
    List Nat :=
  (visited (submsgPass cfg o data p) (data.length + 1) ⟨20, g⟩).map (·.off)

/-- The loop visits exactly the rests that cutting the message yields. -/
theorem visited_submsgPass (cfg : Config) (o : Origin) (data : Bytes) (p : GuidPrefix)
    (fuel off : Nat) (g : Globals) (hoff : off ≤ data.length) (hfuel : data.length - off < fuel) :
    (visited (submsgPass cfg o data p) fuel ⟨off, g⟩).map (·.off) =
      (submsgCutter.items (data.drop off)).map fun rest => data.length - rest.length := by
  induction fuel generalizing off g with
  | zero => omega
  | succ fuel ih =>
    by_cases h4 : off + 4 ≤ data.length
    · have hext := four_le_extent (data.drop off) (by simp only [List.length_drop]; omega)
      have hle := extent_le (data.drop off)
      rw [List.length_drop] at hle
      rw [visited_again (submsgPass_again cfg o data p h4 g), List.map_cons,
        ih _ _ (by omega) (by omega), Cutter.items_of_some (submsgCutter_cut (data.drop off)
          (by simp only [List.length_drop]; omega)), List.map_cons, List.drop_drop,
        List.length_drop]
      congr 1
      dsimp only
      omega
    · rw [visited_leave (submsgPass_leave cfg o data p h4 g),
        Cutter.items_of_none (submsgCutter_cut_of_short (by simp only [List.length_drop]; omega))]
      rfl

theorem visitedOffsets_eq (cfg : Config) (o : Origin) (data : Bytes) (p : GuidPrefix)
    (g : Globals) (h : 20 ≤ data.length) :
    visitedOffsets cfg o data p g =
      (submsgRests data).map fun rest => data.length - rest.length :=
  visited_submsgPass cfg o data p _ 20 g h (by omega)

/-! ## Messages -/

/-- The header check of `handle_rtps`. -/
def isRtps (data : Bytes) : Bool := 20 ≤ data.length ∧ data.take 4 = rtpsMagic

theorem length_of_isRtps {data : Bytes} (h : isRtps data = true) : 20 ≤ data.length := by
  simp only [isRtps, Bool.decide_and, Bool.and_eq_true, decide_eq_true_eq] at h
  exact h.1

/-- The GUID prefix of the message header. -/
def headerPrefix (data : Bytes) : GuidPrefix := window 12 data 8

/-- A message acts on the globals. -/
def Globals.receive (cfg : Config) (o : Origin) (data : Bytes) (g : Globals) : Globals :=
  if isRtps data then
    Globals.visitAll cfg o (headerPrefix data) { g with cntRtps := g.cntRtps + 1 } (submsgs data)
  else g.diag cfg.verbose (.noMagic o data.length ((List.range 4).map (peek data)))

/-- `handle_rtps` reads only inside the message, ends, and acts as its submessages. -/
theorem handleRtps_eq (cfg : Config) (o : Origin) (data : Bytes) (g : Globals) :
    handleRtps cfg o data g = some (g.receive cfg o data) := by
  have hfirst : ((List.range 4).mapM fun i => if data.length > i then data[i]? else some 0) =
      some ((List.range 4).map (peek data)) := by
    have hread (i : Nat) : (if data.length > i then data[i]? else some 0) = some (peek data i) := by
      by_cases hi : i < data.length
      · rw [if_pos hi, getElem?_eq_peek data i hi]
      · rw [if_neg hi]
        simp [peek, show data.length ≤ i by omega]
    simp only [hread]
    rfl
  by_cases h20 : 20 ≤ data.length
  · have hmagic : slice data 0 4 = some (data.take 4) := slice_eq (by omega)
    have hp := fetch_eq 12 data 8 (by omega)
    simp only [handleRtps, show ¬ data.length < 20 by omega, if_false, hmagic, Option.map_some,
      Option.bind_eq_bind, Option.bind_some, hp, submsgLoop_eq cfg o data _ h20]
    by_cases hm : data.take 4 = rtpsMagic
    · simp [Globals.receive, isRtps, h20, hm, headerPrefix]
    · cases hv : cfg.verbose <;>
        simp [Globals.receive, isRtps, h20, hm, hv, Globals.diag, hfirst]
  · cases hv : cfg.verbose <;>
      simp [handleRtps, Globals.receive, isRtps, h20, show data.length < 20 by omega, hv,
        Globals.diag, hfirst]

end DdsPlayground.Inspector
