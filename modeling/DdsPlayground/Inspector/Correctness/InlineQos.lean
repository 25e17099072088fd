import DdsPlayground.Inspector.Semantics.Effects
import DdsPlayground.Inspector.Semantics.Parameters

/-!
# The payload behind inline QoS

The inline-QoS loop adds the length of a parameter before it looks for the sentinel,
and leaves alike at a sentinel and where the bytes run out. It finds the payload
behind a list that is closed, but for the length field of the sentinel; where the
list is not closed, one to three left-over bytes pass for a payload.
-/

namespace DdsPlayground.Inspector

open ByteWire

/-- `octetsToInlineQos` of the DATA submessage at the front. -/
def octetsToInlineQos (rest : Bytes) : Nat := (u16At (submsgLe rest) rest 6).toNat

/-- A DATA submessage with the Q and D flags, whose inline QoS starts inside it and not
before the end of the fixed fields. -/
structure HasInlineQos (rest : Bytes) : Prop where
  isData : peek rest 0 = smData
  qFlag : (peek rest 1 &&& 0x02 != 0) = true
  dFlag : (peek rest 1 &&& 0x04 != 0) = true
  behind : 16 ≤ octetsToInlineQos rest
  inside : 8 + octetsToInlineQos rest ≤ extent rest

/-- The bytes from the inline-QoS position to the end of the submessage. -/
def qosRegion (rest : Bytes) : Bytes :=
  (rest.take (extent rest)).drop (8 + octetsToInlineQos rest)

/-- The payload that a DATA submessage hands to `decode_sedp` or to `decode_payload`. -/
def DataSub.handed (d : DataSub) : Option Bytes :=
  match d.role with
  | .sedp _ => some d.payload
  | .user => some d.payload
  | _ => none

/-- The globals behind a DATA submessage that hands on `b`, or nothing. -/
def HandedOn (cfg : Config) (o : Origin) (p : GuidPrefix) (d : DataSub) (g g' : Globals) :
    Option Bytes → Prop
  | none =>
    g'.endpoints = g.endpoints ∧ g'.cntSedp = g.cntSedp ∧ g'.cntData = g.cntData
  | some b =>
    if d.writer = eidSedpPubWriter ∨ d.writer = eidSedpSubWriter then
      ∃ cerr, decodeSedp cfg p d.writer b (d.writer = eidSedpPubWriter)
        { g with cntSedp := g.cntSedp + 1, cerr := cerr } = some g'
    else
      g'.endpoints = g.endpoints ∧ g'.cntSedp = g.cntSedp ∧ g'.cntData = g.cntData + 1 ∧
      (cfg.printMode ≠ .reannounce → ∃ payload,
        decodePayload ((g.endpoints.lookup (fmtGuid ⟨p, d.writer⟩)).elim [] (·.topic)) b =
          some payload ∧
        g'.cout = g.cout ++ [.data o (fmtGuid ⟨p, d.writer⟩) (fmtEntity d.reader)
          ((g.endpoints.lookup (fmtGuid ⟨p, d.writer⟩)).elim
            (text "(unknown – SEDP not yet seen)") (·.topic)) d.seq payload])

/-- The bytes behind a closed list are handed on, unless there are none or the writer is
that of participants; without a closed list nothing is. -/
structure HandsTail (rest : Bytes) : Prop where
  closed : ∀ qs len tail, qosRegion rest = closedList (submsgLe rest) qs len tail →
    (decodeData rest).handed =
      if (decodeData rest).writer = eidSpdpWriter ∨ tail = [] then none else some tail
  unclosed : (∀ qs len tail, qosRegion rest ≠ closedList (submsgLe rest) qs len tail) →
    (decodeData rest).handed = none

/-- The writer is that of participants; or the sentinel of a closed list has no length or
nothing behind its header, and parameters that are not closed leave no short rest. -/
def QosHarmless (rest : Bytes) : Prop :=
  (decodeData rest).writer = eidSpdpWriter ∨
    (∀ qs len tail, qosRegion rest = closedList (submsgLe rest) qs len tail →
      len = 0 ∨ tail = []) ∧
    ∀ qs left, qosRegion rest = paramBytes (submsgLe rest) qs ++ left → left.length < 4 →
      left = []

theorem HasInlineQos.length {rest : Bytes} (h : HasInlineQos rest) : 24 ≤ rest.length := by
  have := h.behind
  have := h.inside
  have := extent_le rest
  omega

/-- Only a payload that is there is handed on, and none of the writer of participants. -/
theorem DataSub.handed_eq {d : DataSub} (h : d.hasData = true) :
    d.handed = if d.writer = eidSpdpWriter ∨ d.payload = [] then none else some d.payload := by
  by_cases hs : d.writer = eidSpdpWriter
  · simp [DataSub.handed, DataSub.role, hs]
  · by_cases hp : d.payload = []
    · simp [DataSub.handed, DataSub.role, hs, hp]
    · by_cases hd : d.writer = eidSedpPubWriter ∨ d.writer = eidSedpSubWriter
      · simp [DataSub.handed, DataSub.role, hs, hp, h, hd]
      · have hu := not_or.mp hd
        simp [DataSub.handed, DataSub.role, hs, hp, h, hu.1, hu.2]

/-- What is handed on when the writer is not that of participants. -/
theorem HasInlineQos.handed_eq {rest : Bytes} (h : HasInlineQos rest)
    (hs : (decodeData rest).writer ≠ eidSpdpWriter) :
    (decodeData rest).handed =
      if skipQos (submsgLe rest) (qosRegion rest) = [] then none
      else some (skipQos (submsgLe rest) (qosRegion rest)) := by
  have hpay : (decodeData rest).payload = skipQos (submsgLe rest) (qosRegion rest) :=
    if_pos h.qFlag
  rw [DataSub.handed_eq h.dFlag, hpay]
  simp only [hs, false_or]

/-- A DATA submessage acts on the globals through what it hands on. -/
theorem handedOn_visitData (cfg : Config) (o : Origin) (p : GuidPrefix) (d : DataSub)
    (g : Globals) : HandedOn cfg o p d g (g.visitData cfg o p d) d.handed := by
  cases hr : d.role with
  | spdp => simp [DataSub.handed, Globals.visitData, HandedOn, hr]
  | silent => simp [DataSub.handed, Globals.visitData, HandedOn, hr]
  | sedp isPub =>
    obtain ⟨hw, rfl⟩ := DataSub.of_role_sedp hr
    simp only [DataSub.handed, Globals.visitData, HandedOn, hr, hw, if_true]
    rw [Globals.diag_eq]
    exact ⟨_, decodeSedp_eq ..⟩
  | user =>
    have hw := DataSub.of_role_user hr
    simp only [DataSub.handed, Globals.visitData, HandedOn, hr, hw, if_false]
    refine ⟨by simp, by simp, by simp, fun hm => ⟨_, decodePayload_eq .., ?_⟩⟩
    simp [DataSub.userRecord, hm]

/-- Dropping bytes changes a string unless there is nothing to drop. -/
theorem drop_eq_self_iff {xs : Bytes} {n : Nat} : xs.drop n = xs ↔ n = 0 ∨ xs = [] := by
  constructor
  · intro h
    have hlen := congrArg List.length h
    rw [List.length_drop] at hlen
    by_cases hn : n = 0
    · exact Or.inl hn
    · exact Or.inr (List.length_eq_zero_iff.mp (by omega))
  · rintro (rfl | rfl) <;> simp

/-- Behind a closed list the tail is handed on unless its sentinel takes some of it. -/
theorem handsTail_iff_of_closed {rest : Bytes} (h : HasInlineQos rest)
    (hs : (decodeData rest).writer ≠ eidSpdpWriter) {qs : List QosParam} {len : UInt16}
    {tail : Bytes} (heq : qosRegion rest = closedList (submsgLe rest) qs len tail) :
    HandsTail rest ↔ QosHarmless rest := by
  have hinj (qs' len' tail') (h' : qosRegion rest = closedList (submsgLe rest) qs' len' tail') :
      len' = len ∧ tail' = tail := closedList_inj (h'.symm.trans heq)
  have hhanded : (decodeData rest).handed = (if tail = [] then none else some tail) ↔
      len = 0 ∨ tail = [] := by
    rw [h.handed_eq hs, heq, skipQos_closedList]
    by_cases ht : tail = []
    · simp [ht]
    · have hself : tail.drop len.toNat = tail ↔ len = 0 := by
        rw [drop_eq_self_iff, or_iff_left ht, ← UInt16.toNat_inj]
        rfl
      rw [if_neg ht, or_iff_left ht, ← hself]
      split
      · next hd => simp [hd, Ne.symm ht]
      · rw [Option.some.injEq]
  constructor
  · intro ht
    refine Or.inr ⟨fun qs' len' tail' h' => ?_, fun qs' left h' hl => ?_⟩
    · obtain ⟨rfl, rfl⟩ := hinj qs' len' tail' h'
      have hc := ht.closed qs' len' tail' h'
      simp only [hs, false_or] at hc
      exact hhanded.mp hc
    · exact absurd (heq.symm.trans h') (closedList_ne_of_short hl)
  · intro hq
    refine ⟨fun qs' len' tail' h' => ?_, fun hno => absurd heq (hno qs len tail)⟩
    obtain ⟨rfl, rfl⟩ := hinj qs' len' tail' h'
    simp only [hs, false_or]
    exact hhanded.mpr ((hq.resolve_left hs).1 qs' len' tail' h')

/-- Less than a header is handed on unless it is nothing. -/
theorem handsTail_iff_of_short {rest : Bytes} (h : HasInlineQos rest)
    (hs : (decodeData rest).writer ≠ eidSpdpWriter) {qs : List QosParam} {left : Bytes}
    (heq : qosRegion rest = paramBytes (submsgLe rest) qs ++ left) (hlen : left.length < 4) :
    HandsTail rest ↔ QosHarmless rest := by
  have hopen (qs' len' tail') : qosRegion rest ≠ closedList (submsgLe rest) qs' len' tail' :=
    fun h' => closedList_ne_of_short hlen (h'.symm.trans heq)
  have hhanded := h.handed_eq hs
  rw [heq, skipQos_paramBytes_append, skipQos_of_short hlen] at hhanded
  constructor
  · intro ht
    have hnone := ht.unclosed hopen
    refine Or.inr ⟨fun qs' len' tail' h' => absurd h' (hopen qs' len' tail'), ?_⟩
    intro qs' left' h' hlen'
    obtain rfl : left' = left := paramBytes_append_inj (Or.inl hlen') (Or.inl hlen)
      (h'.symm.trans heq)
    by_contra hl
    rw [hhanded, if_neg hl] at hnone
    cases hnone
  · intro hq
    refine ⟨fun qs' len' tail' h' => absurd h' (hopen qs' len' tail'), fun _ => ?_⟩
    rw [hhanded, if_pos ((hq.resolve_left hs).2 qs left heq hlen)]

/-- Nothing is handed on behind a parameter that does not fit. -/
theorem handsTail_of_overrun {rest : Bytes} (h : HasInlineQos rest)
    (hs : (decodeData rest).writer ≠ eidSpdpWriter) {qs : List QosParam} {left : Bytes}
    (heq : qosRegion rest = paramBytes (submsgLe rest) qs ++ left) (h4 : 4 ≤ left.length)
    (hpid : u16At (submsgLe rest) left 0 ≠ pidSentinel)
    (hfit : left.length < 4 + (u16At (submsgLe rest) left 2).toNat) :
    HandsTail rest ∧ QosHarmless rest := by
  have hopen (qs' len' tail') : qosRegion rest ≠ closedList (submsgLe rest) qs' len' tail' := by
    intro h'
    have hsent := (u16At_paramHeader (submsgLe rest) pidSentinel len' tail').1
    have hleft := paramBytes_append_inj (Or.inr (Or.inr hfit)) (Or.inr (Or.inl hsent))
      (heq.symm.trans h')
    rw [hleft] at hpid
    exact hpid hsent
  have hhanded := h.handed_eq hs
  rw [heq, skipQos_paramBytes_append, skipQos_of_overrun h4 hpid hfit, if_pos rfl] at hhanded
  refine ⟨⟨fun qs' len' tail' h' => absurd h' (hopen qs' len' tail'), fun _ => hhanded⟩,
    Or.inr ⟨fun qs' len' tail' h' => absurd h' (hopen qs' len' tail'), ?_⟩⟩
  intro qs' left' h' hlen'
  have hleft := paramBytes_append_inj (Or.inl hlen') (Or.inr (Or.inr hfit)) (h'.symm.trans heq)
  rw [hleft] at hlen'
  omega

theorem handsTail_iff {rest : Bytes} (h : HasInlineQos rest) :
    HandsTail rest ↔ QosHarmless rest := by
  by_cases hs : (decodeData rest).writer = eidSpdpWriter
  · have hnone : (decodeData rest).handed = none := by
      rw [DataSub.handed_eq h.dFlag, if_pos (Or.inl hs)]
    exact ⟨fun _ => Or.inl hs,
      fun _ => ⟨fun _ _ _ _ => by rw [hnone, if_pos (Or.inl hs)], fun _ => hnone⟩⟩
  · cases listEnd (submsgLe rest) (qosRegion rest) with
    | closed qs len tail heq => exact handsTail_iff_of_closed h hs heq
    | short qs left heq hlen => exact handsTail_iff_of_short h hs heq hlen
    | overrun qs left heq h4 hpid hfit =>
      obtain ⟨ht, hq⟩ := handsTail_of_overrun h hs heq h4 hpid hfit
      exact ⟨fun _ => hq, fun _ => ht⟩

/-- A DATA submessage with inline QoS hands on exactly what stands behind the header of
the list's sentinel, and nothing where the list is not closed, if and only if the list is
harmless. What it hands on is all that it changes. -/
theorem inline_qos_exact_iff (cfg : Config) (o : Origin) (data : Bytes) (p : GuidPrefix)
    (off : Nat) (g : Globals) (h : HasInlineQos (data.drop off)) :
    (∃ g', submsgPass cfg o data p ⟨off, g⟩ =
        some (.again ⟨off + extent (data.drop off), g'⟩) ∧
      HandedOn cfg o p (decodeData (data.drop off)) g g' (decodeData (data.drop off)).handed) ∧
    (HandsTail (data.drop off) ↔ QosHarmless (data.drop off)) := by
  have hlen := h.length
  rw [List.length_drop] at hlen
  have hcontent : decodeContent (data.drop off) = .data (decodeData (data.drop off)) := by
    rw [decodeContent, if_pos h.isData, if_neg (by rw [List.length_drop]; omega)]
  refine ⟨⟨_, submsgPass_again cfg o data p (by omega) g, ?_⟩, ?_⟩
  · simp only [Globals.visit, decodeSubmsg, hcontent, h.isData, bne_self_eq_false, Bool.and_false]
    exact handedOn_visitData cfg o p (decodeData (data.drop off)) g
  · exact handsTail_iff h

/-- User data of a writer that nobody announced, with the given bytes where its inline
QoS starts. -/
def qosMessage (region : Bytes) : Bytes :=
  rtpsMagic ++ [0x02, 0x05, 0x01, 0x10] ++ List.replicate 12 0x11 ++
    [0x15, 0x07, 0x00, 0x00, 0x00, 0x00, 0x10, 0x00, 0x00, 0x00, 0x00, 0x00,
      0x00, 0x00, 0x01, 0x03, 0x00, 0x00, 0x00, 0x00, 0x01, 0x00, 0x00, 0x00] ++ region

/-- A sentinel with length field 4, and the payload of the value 42. -/
def longSentinel : Bytes :=
  [0x01, 0x00, 0x04, 0x00, 0x00, 0x01, 0x00, 0x00, 0x2A, 0x00, 0x00, 0x00]

/-- One parameter, and two bytes. -/
def unclosedQos : Bytes := [0x70, 0x00, 0x00, 0x00, 0xAA, 0xBB]

theorem inline_qos_exact_iff_longSentinel :
    (∃ g', submsgPass ⟨.both, false, true⟩ ⟨[], 7400, 7400, ⟨0, 0⟩⟩ (qosMessage longSentinel)
        (List.Vector.replicate 12 0x11) ⟨20, Globals.init⟩ =
          some (.again ⟨20 + extent ((qosMessage longSentinel).drop 20), g'⟩) ∧
      HandedOn ⟨.both, false, true⟩ ⟨[], 7400, 7400, ⟨0, 0⟩⟩ (List.Vector.replicate 12 0x11)
        (decodeData ((qosMessage longSentinel).drop 20)) Globals.init g'
        (decodeData ((qosMessage longSentinel).drop 20)).handed) ∧
    (HandsTail ((qosMessage longSentinel).drop 20) ↔
      QosHarmless ((qosMessage longSentinel).drop 20)) :=
  inline_qos_exact_iff _ _ _ _ _ _
    ⟨by decide +kernel, by decide +kernel, by decide +kernel, by decide +kernel, by decide +kernel⟩

/-- The length field of a sentinel takes the header of the payload away, and two bytes
behind an unclosed list pass for user data. -/
theorem sentinel_length_shifts_payload :
    (handleRtps ⟨.both, false, true⟩ ⟨[], 7400, 7400, ⟨0, 0⟩⟩ (qosMessage longSentinel)
        Globals.init).map (·.cout) =
      some [.data ⟨[], 7400, 7400, ⟨0, 0⟩⟩ (text "11111111:11111111:11111111:000001|03")
        (text "000000|00") (text "(unknown – SEDP not yet seen)") 1 (text "2a000000")] ∧
    (handleRtps ⟨.both, false, true⟩ ⟨[], 7400, 7400, ⟨0, 0⟩⟩ (qosMessage unclosedQos)
        Globals.init).map (·.cout) =
      some [.data ⟨[], 7400, 7400, ⟨0, 0⟩⟩ (text "11111111:11111111:11111111:000001|03")
        (text "000000|00") (text "(unknown – SEDP not yet seen)") 1 (text "aabb")] ∧
    ¬ ∀ rest, HasInlineQos rest → HandsTail rest := by
  refine ⟨by decide +kernel, by decide +kernel, fun h => ?_⟩
  have hclosed := (h ((qosMessage longSentinel).drop 20)
    ⟨by decide +kernel, by decide +kernel, by decide +kernel, by decide +kernel, by decide +kernel⟩).closed
    [] 4 [0x00, 0x01, 0x00, 0x00, 0x2A, 0x00, 0x00, 0x00] (by decide +kernel)
  exact absurd hclosed (by decide +kernel)

end DdsPlayground.Inspector
