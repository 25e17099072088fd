import DdsPlayground.Inspector.Semantics.Encoding

/-!
# The walk and zero length fields

The protocol gives a length field of zero two meanings: an empty body on PAD and
INFO_TS, and a body up to the end of the message on any other kind. The parser
knows the second one alone, so an empty PAD or INFO_TS hides what follows it.
-/

namespace DdsPlayground.Inspector

open ByteWire

/-- The submessages of a well-formed message: a zero length field is an empty PAD or
INFO_TS, or stands on the last submessage. -/
structure RtpsSubmsgs where
  list : List WireSubmsg
  empty : ∀ s ∈ list, s.len = 0 → s.id = smPad ∨ s.id = smInfoTs → s.bytes.length = 4
  toEnd : ∀ s ∈ list.dropLast, s.len = 0 → s.id = smPad ∨ s.id = smInfoTs

/-- A DATA with its fixed fields is decoded from its own bytes wherever it stands. -/
theorem RtpsSubmsgs.decodeContent_data (ss : RtpsSubmsgs) {before after : List WireSubmsg}
    {s : WireSubmsg} (hsplit : ss.list = before ++ s :: after) (hid : s.id = smData)
    (hlen : 24 ≤ s.bytes.length) :
    decodeContent (s.bytes ++ wire after) = .data (decodeData s.bytes) := by
  have hlast : s.len = 0 → wire after = [] := by
    intro hz
    cases after with
    | nil => rfl
    | cons t ts =>
      have hmem : s ∈ ss.list.dropLast := by
        rw [hsplit, List.dropLast_append_of_ne_nil (List.cons_ne_nil s (t :: ts)),
          List.dropLast_cons_cons]
        exact List.mem_append_cons_self
      have hpad : smData ≠ smPad := by decide
      have hts : smData ≠ smInfoTs := by decide
      rcases ss.toEnd s hmem hz with h | h
      · exact absurd (hid.symm.trans h) hpad
      · exact absurd (hid.symm.trans h) hts
  exact s.decodeContent_append hid hlen hlast

/-- `handle_rtps` visits exactly the submessages of a well-formed message, each at its
offset, if and only if no empty PAD or INFO_TS with a length field of zero comes
before another submessage. The effect of the message is then that of all of them, and
every DATA with its fixed fields is decoded from its own bytes. -/
theorem walk_visits_submsgs_iff (cfg : Config) (g : Globals) (o : Origin) (h : MessageHeader)
    (ss : RtpsSubmsgs) :
    ((messageSteps cfg g (o, message h ss.list)).map (fun s => s.walk.off) = offsets 20 ss.list ↔
      ∀ s ∈ ss.list.dropLast, s.id = smPad ∨ s.id = smInfoTs → s.len ≠ 0) ∧
    ((∀ s ∈ ss.list.dropLast, s.id = smPad ∨ s.id = smInfoTs → s.len ≠ 0) →
      ∃ g', handleRtps cfg o (message h ss.list) g = some g' ∧
        Globals.Ran cfg g
          ((suffixes ss.list).map fun rest => ⟨o, h.guidPrefix, decodeSubmsg rest⟩) g' ∧
        ∀ before s after, ss.list = before ++ s :: after → s.id = smData → 24 ≤ s.bytes.length →
          decodeContent (s.bytes ++ wire after) = .data (decodeData s.bytes)) := by
  have hcond : reach ss.list = ss.list.length ↔
      ∀ s ∈ ss.list.dropLast, s.id = smPad ∨ s.id = smInfoTs → s.len ≠ 0 := by
    rw [reach_eq_length_iff]
    constructor
    · exact fun hall s hs _ => hall s hs
    · exact fun hempty s hs hz => hempty s hs (ss.toEnd s hs hz) hz
  have hreach : (offsets 20 ss.list).take (reach ss.list) = offsets 20 ss.list ↔
      reach ss.list = ss.list.length := by
    rw [List.take_eq_self_iff, length_offsets]
    have := reach_le_length ss.list
    omega
  refine ⟨?_, fun hall => ?_⟩
  · rw [map_off_messageSteps, hreach, hcond]
  · have hran := Globals.ran_receive cfg g (o, message h ss.list)
    rw [messageVisits_message, hcond.mpr hall, ← length_suffixes, List.take_length] at hran
    exact ⟨_, handleRtps_eq .., hran, fun _ _ _ hsplit hid hlen =>
      ss.decodeContent_data hsplit hid hlen⟩

/-- An INFO_TS with the Invalidate flag and an empty body. -/
def invalidateTimestamp : WireSubmsg where
  bytes := [0x0C, 0x03, 0x00, 0x00]
  header := by decide
  measured := by decide

/-- User data of the writer `000001|03`. -/
def userSample : WireSubmsg where
  bytes := [0x15, 0x05, 0x1C, 0x00, 0x00, 0x00, 0x10, 0x00, 0x00, 0x00, 0x00, 0x00,
    0x00, 0x00, 0x01, 0x03, 0x00, 0x00, 0x00, 0x00, 0x01, 0x00, 0x00, 0x00,
    0x00, 0x01, 0x00, 0x00, 0x2A, 0x00, 0x00, 0x00]
  header := by decide
  measured := by decide

/-- An INFO_TS that invalidates the timestamp, and user data. -/
def invalidatedSample : RtpsSubmsgs where
  list := [invalidateTimestamp, userSample]
  empty := by decide
  toEnd := by decide

/-- The user data behind the INFO_TS is not visited, counted or printed. -/
theorem invalidated_sample_lost :
    (messageSteps ⟨.both, false, true⟩ Globals.init (⟨[], 7400, 7400, ⟨0, 0⟩⟩,
        message ⟨List.Vector.replicate 4 0x02, List.Vector.replicate 12 0x11⟩
          invalidatedSample.list)).map (fun s => s.walk.off) = [20] ∧
    offsets 20 invalidatedSample.list = [20, 24] ∧
    (handleRtps ⟨.both, false, true⟩ ⟨[], 7400, 7400, ⟨0, 0⟩⟩
        (message ⟨List.Vector.replicate 4 0x02, List.Vector.replicate 12 0x11⟩
          invalidatedSample.list) Globals.init).map (fun g => (g.cntData, g.cout)) =
      some (0, []) := by
  decide +kernel

end DdsPlayground.Inspector
