import DdsPlayground.Inspector.Semantics.Steps

/-!
# Messages put together from submessages

A message is a header and the bytes of its submessages, one behind the other.
The walk follows them up to the first length field of zero, which it reads as
the end of the message.
-/

namespace DdsPlayground.Inspector

open ByteWire BoundedLoop

/-- A submessage on the wire: four header bytes, and a body whose length stands in
the length field unless the field is zero. -/
structure WireSubmsg where
  bytes : Bytes
  header : 4 ≤ bytes.length
  measured : submsgLen bytes ≠ 0 → 4 + (submsgLen bytes).toNat = bytes.length

/-- The submessage kind. -/
def WireSubmsg.id (s : WireSubmsg) : UInt8 := peek s.bytes 0

/-- `octetsToNextHeader`. -/
def WireSubmsg.len (s : WireSubmsg) : UInt16 := submsgLen s.bytes

/-- Submessages one behind the other. -/
def wire (ss : List WireSubmsg) : Bytes := ss.flatMap WireSubmsg.bytes

/-- What stands from each submessage on. -/
def suffixes : List WireSubmsg → List Bytes
  | [] => []
  | s :: ss => (s.bytes ++ wire ss) :: suffixes ss

/-- Where each submessage starts, the first one at `base`. -/
def offsets (base : Nat) : List WireSubmsg → List Nat
  | [] => []
  | s :: ss => base :: offsets (base + s.bytes.length) ss

/-- How many submessages there are up to the first length field of zero. -/
def reach : List WireSubmsg → Nat
  | [] => 0
  | s :: ss => if s.len = 0 then 1 else reach ss + 1

/-- The RTPS header: version and vendor identifier, and the GUID prefix. -/
structure MessageHeader where
  version : List.Vector UInt8 4
  guidPrefix : GuidPrefix

def MessageHeader.bytes (h : MessageHeader) : Bytes :=
  rtpsMagic ++ (h.version.toList ++ h.guidPrefix.toList)

/-- A header with submessages behind it. -/
def message (h : MessageHeader) (ss : List WireSubmsg) : Bytes := h.bytes ++ wire ss

@[simp] theorem wire_nil : wire [] = [] := rfl

@[simp] theorem wire_cons (s : WireSubmsg) (ss : List WireSubmsg) :
    wire (s :: ss) = s.bytes ++ wire ss := List.flatMap_cons

@[simp] theorem length_suffixes (ss : List WireSubmsg) : (suffixes ss).length = ss.length := by
  induction ss with
  | nil => rfl
  | cons s ss ih => rw [suffixes, List.length_cons, ih, List.length_cons]

@[simp] theorem length_offsets (base : Nat) (ss : List WireSubmsg) :
    (offsets base ss).length = ss.length := by
  induction ss generalizing base with
  | nil => rfl
  | cons s ss ih => rw [offsets, List.length_cons, ih, List.length_cons]

/-! ## Header -/

@[simp] theorem MessageHeader.length_bytes (h : MessageHeader) : h.bytes.length = 20 := by
  simp [MessageHeader.bytes, rtpsMagic]

theorem isRtps_append (h : MessageHeader) (xs : Bytes) : isRtps (h.bytes ++ xs) = true := by
  have hlen : 20 ≤ (h.bytes ++ xs).length := by
    rw [List.length_append, h.length_bytes]
    omega
  have hmagic : (h.bytes ++ xs).take 4 = rtpsMagic := by simp [MessageHeader.bytes, rtpsMagic]
  simp only [isRtps, hlen, hmagic, and_self, decide_true]

theorem headerPrefix_append (h : MessageHeader) (xs : Bytes) :
    headerPrefix (h.bytes ++ xs) = h.guidPrefix := by
  have hbytes : h.bytes ++ xs =
      (rtpsMagic ++ h.version.toList) ++ (h.guidPrefix.toList ++ xs) := by
    simp only [MessageHeader.bytes, List.append_assoc]
  have hlen : (rtpsMagic ++ h.version.toList).length = 8 := by simp [rtpsMagic]
  have hskip := window_append_right 12 (rtpsMagic ++ h.version.toList) (h.guidPrefix.toList ++ xs) 0
  rw [hlen, window_toList_append] at hskip
  rw [headerPrefix, hbytes]
  exact hskip

theorem drop_header (h : MessageHeader) (xs : Bytes) : (h.bytes ++ xs).drop 20 = xs := by
  rw [← h.length_bytes, List.drop_left]

/-! ## Walk -/

theorem submsgLe_append {a : Bytes} (h : 4 ≤ a.length) (rest : Bytes) :
    submsgLe (a ++ rest) = submsgLe a := by
  simp only [submsgLe, peek_append_left (show 1 < a.length by omega)]

theorem submsgLen_append {a : Bytes} (h : 4 ≤ a.length) (rest : Bytes) :
    submsgLen (a ++ rest) = submsgLen a := by
  rw [submsgLen, submsgLe_append h, u16At_append_left (by omega), submsgLen]

/-- A nonzero length field leads to the end of its submessage. -/
theorem WireSubmsg.extent_append (s : WireSubmsg) (h : s.len ≠ 0) (rest : Bytes) :
    extent (s.bytes ++ rest) = s.bytes.length := by
  have hm := s.measured h
  have hlen : submsgLen s.bytes ≠ 0 := h
  rw [extent, submsgLen_append s.header, if_neg hlen, List.length_append]
  omega

/-- A length field of zero leads to the end of the message. -/
theorem WireSubmsg.extent_append_of_zero (s : WireSubmsg) (h : s.len = 0) (rest : Bytes) :
    extent (s.bytes ++ rest) = (s.bytes ++ rest).length := by
  have hlen : submsgLen s.bytes = 0 := h
  rw [extent, submsgLen_append s.header, if_pos hlen]

/-- A DATA with its fixed fields is decoded from its own bytes. -/
theorem WireSubmsg.decodeData_append (s : WireSubmsg) {rest : Bytes} (h : 24 ≤ s.bytes.length)
    (hz : s.len = 0 → rest = []) : decodeData (s.bytes ++ rest) = decodeData s.bytes := by
  by_cases hlen : s.len = 0
  · rw [hz hlen, List.append_nil]
  · have hext := s.extent_append hlen rest
    have hown : extent s.bytes = s.bytes.length := by simpa using s.extent_append hlen []
    refine decodeData_congr (fun i hi => peek_append_left (by omega)) ?_
    rw [hext, hown, List.take_left, List.take_length]

/-- A DATA with its fixed fields is one to the parser wherever it stands. -/
theorem WireSubmsg.decodeContent_append (s : WireSubmsg) {rest : Bytes} (hid : s.id = smData)
    (h : 24 ≤ s.bytes.length) (hz : s.len = 0 → rest = []) :
    decodeContent (s.bytes ++ rest) = .data (decodeData s.bytes) := by
  have hpeek : peek (s.bytes ++ rest) 0 = smData := (peek_append_left (by omega)).trans hid
  rw [decodeContent, if_pos hpeek, if_neg (by rw [List.length_append]; omega),
    s.decodeData_append h hz]

/-- The walk visits the submessages up to the first length field of zero. -/
theorem items_wire (ss : List WireSubmsg) :
    submsgCutter.items (wire ss) = (suffixes ss).take (reach ss) := by
  induction ss with
  | nil => rfl
  | cons s ss ih =>
    have hcut := submsgCutter_cut (s.bytes ++ wire ss) (by
      have := s.header
      rw [List.length_append]
      omega)
    rw [wire_cons, Cutter.items_of_some hcut, suffixes, reach]
    by_cases hz : s.len = 0
    · rw [s.extent_append_of_zero hz, List.drop_length, if_pos hz]
      rfl
    · rw [s.extent_append hz, List.drop_left, ih, if_neg hz, List.take_succ_cons]

/-- Every submessage is reached exactly when only the last one has a length field
of zero. -/
theorem reach_eq_length_iff (ss : List WireSubmsg) :
    reach ss = ss.length ↔ ∀ s ∈ ss.dropLast, s.len ≠ 0 := by
  induction ss with
  | nil => simp [reach]
  | cons s ss ih =>
    cases ss with
    | nil =>
      simp only [reach, List.dropLast_singleton, List.not_mem_nil, false_implies, implies_true,
        iff_true, List.length_singleton]
      split <;> rfl
    | cons t ts =>
      rw [List.dropLast_cons_cons, List.forall_mem_cons, ← ih, reach, List.length_cons (a := s)]
      by_cases hz : s.len = 0
      · simp [hz]
      · simp [hz]

theorem reach_le_length (ss : List WireSubmsg) : reach ss ≤ ss.length := by
  induction ss with
  | nil => rfl
  | cons s ss ih =>
    rw [reach, List.length_cons]
    split <;> omega

/-- The start of a submessage is what is missing from its suffix to the whole. -/
theorem map_suffixes (base : Nat) (ss : List WireSubmsg) :
    (suffixes ss).map (fun rest => base + (wire ss).length - rest.length) = offsets base ss := by
  induction ss generalizing base with
  | nil => rfl
  | cons s ss ih =>
    have htail : (suffixes ss).map (fun rest =>
        base + (wire (s :: ss)).length - rest.length) = offsets (base + s.bytes.length) ss := by
      rw [← ih]
      refine List.map_congr_left fun rest _ => ?_
      rw [wire_cons, List.length_append]
      omega
    rw [suffixes, List.map_cons, htail, offsets]
    congr 1
    rw [wire_cons]
    omega

/-- The rests that `handle_rtps` visits in a message put together. -/
theorem submsgRests_message (h : MessageHeader) (ss : List WireSubmsg) :
    submsgRests (message h ss) = (suffixes ss).take (reach ss) := by
  rw [submsgRests, message, drop_header, items_wire]

/-- The offsets that `handle_rtps` visits in a message put together. -/
theorem map_off_messageSteps (cfg : Config) (g : Globals) (o : Origin) (h : MessageHeader)
    (ss : List WireSubmsg) :
    (messageSteps cfg g (o, message h ss)).map (fun s => s.walk.off) =
      (offsets 20 ss).take (reach ss) := by
  have hlen : (message h ss).length = 20 + (wire ss).length := by
    rw [message, List.length_append, h.length_bytes]
  have hoff := visitedOffsets_eq cfg o (message h ss) (headerPrefix (message h ss))
    { g with cntRtps := g.cntRtps + 1 } (by omega)
  rw [submsgRests_message, List.map_take, hlen, map_suffixes] at hoff
  have hr : isRtps (message h ss) = true := isRtps_append h (wire ss)
  simp only [messageSteps, hr, if_true, List.map_map]
  exact hoff

/-- The submessages that a message put together visits. -/
theorem messageVisits_message (o : Origin) (h : MessageHeader) (ss : List WireSubmsg) :
    messageVisits (o, message h ss) = ((suffixes ss).take (reach ss)).map fun rest =>
      ⟨o, h.guidPrefix, decodeSubmsg rest⟩ := by
  have hr : isRtps (message h ss) = true := isRtps_append h (wire ss)
  have hp : headerPrefix (message h ss) = h.guidPrefix := headerPrefix_append h (wire ss)
  simp only [messageVisits, hr, if_true, hp, submsgs, submsgRests_message, List.map_map]
  rfl

end DdsPlayground.Inspector
