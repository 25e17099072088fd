import DdsPlayground.Inspector.Semantics.Steps

/-!
# The source prefix

A receiver of the protocol keeps a source GUID prefix that INFO_SRC replaces
within a message. The parser keeps none: INFO_SRC is one of the submessages that
it ignores, and every writer is named under the prefix of the message header.
-/

namespace DdsPlayground.Inspector

open ByteWire LastWrite

/-- The prefix that a complete INFO_SRC carries in octets 8 to 19 of its body. -/
def infoSrcPrefix (rest : Bytes) : Option GuidPrefix :=
  if peek rest 0 = smInfoSrc ∧ 24 ≤ extent rest then some (window 12 rest 12) else none

/-- The source prefix that the protocol has in force behind some submessages. -/
def sourcePrefix (header : GuidPrefix) (rests : List Bytes) : GuidPrefix :=
  rests.foldl (fun p rest => (infoSrcPrefix rest).getD p) header

/-- The prefix in force is that of the last INFO_SRC, or that of the header. -/
theorem sourcePrefix_eq (header : GuidPrefix) (rests : List Bytes) :
    sourcePrefix header rests = ((rests.filterMap infoSrcPrefix).getLast?).getD header := by
  induction rests using List.reverseRecOn with
  | nil => rfl
  | append_singleton rests rest ih =>
    rw [sourcePrefix, List.foldl_append, List.filterMap_append]
    change (infoSrcPrefix rest).getD (sourcePrefix header rests) = _
    rw [ih]
    cases h : infoSrcPrefix rest with
    | none => simp [h]
    | some p => simp [h]

/-- INFO_SRC is nothing to the parser. -/
theorem decodeContent_infoSrc {rest : Bytes} (h : peek rest 0 = smInfoSrc) :
    decodeContent rest = .other := by
  have hdata : smInfoSrc ≠ smData := by decide
  have hhb : smInfoSrc ≠ smHeartbeat := by decide
  simp [decodeContent, h, hdata, hhb]

/-- A visited submessage that is nothing to the parser leaves no trace. -/
theorem Globals.ran_apply_other {cfg : Config} (g : Globals) {v : Visit}
    (h : v.submsg.content = .other) : Globals.Ran cfg g [] (g.apply cfg v) := by
  obtain ⟨hend, -, -, hsedp, hdata, hout⟩ := Globals.stepped_apply cfg g v
  refine ⟨?_, ?_, ?_, ?_⟩
  · simpa [Visit.registration, h] using hend
  · simpa [Visit.isSedp, Visit.role, h] using hsedp
  · simpa [Visit.isUser, Visit.role, h] using hdata
  · simpa [Visit.records, runRecords, h] using hout

/-- In every message each DATA submessage is handled under the prefix of the
message header: the record of user data and the lookup for it, and the key of an
announcement that names no GUID. INFO_SRC leaves no trace, so that prefix is the
source prefix in force exactly when the last complete INFO_SRC before the
submessage, if there is one, carries it. -/
theorem writer_guid_of_header (cfg : Config) (g : Globals) (m : Origin × Bytes) :
    (∀ before s after, messageSteps cfg g m = before ++ s :: after →
      ∀ d, s.visit.submsg.content = .data d → ∃ g', s.next cfg = some g' ∧
        (d.role = .user → cfg.printMode ≠ .reannounce → g'.cout = s.walk.globals.cout ++
          [d.userRecord m.1 (headerPrefix m.2)
            (s.walk.globals.endpoints.lookup (fmtGuid ⟨headerPrefix m.2, d.writer⟩))]) ∧
        (∀ isPub, d.role = .sedp isPub → g'.endpoints = writeAll s.walk.globals.endpoints
          ((announcement ⟨headerPrefix m.2, d.writer⟩ d.payload isPub).toList.map keyed)) ∧
        (headerPrefix m.2 = sourcePrefix (headerPrefix m.2) (before.map Step.rest) ↔
          ∀ p, ((before.map Step.rest).filterMap infoSrcPrefix).getLast? = some p →
            p = headerPrefix m.2)) ∧
    (∀ s ∈ messageSteps cfg g m, peek s.rest 0 = smInfoSrc →
      ∃ g', s.next cfg = some g' ∧ Globals.Ran cfg s.walk.globals [] g') := by
  refine ⟨?_, ?_⟩
  · intro before s after hsplit d hd
    obtain ⟨-, hnext⟩ := linked_messageSteps cfg g m before s after hsplit
    have hmem : s ∈ messageSteps cfg g m := hsplit ▸ List.mem_append_cons_self
    obtain ⟨ho, hm, -⟩ := mem_messageSteps hmem
    have hstep := Globals.stepped_apply cfg s.walk.globals s.visit
    have hvisit : s.visit.guidPrefix = headerPrefix m.2 := by rw [Step.visit, hm]
    have horigin : s.visit.origin = m.1 := ho
    refine ⟨_, hnext, ?_, ?_, ?_⟩
    · intro hr hmode
      rw [hstep.cout]
      simp [Visit.records, hd, hr, hmode, hvisit, horigin, directory]
    · intro isPub hr
      rw [hstep.endpoints]
      simp [Visit.registration, hd, hr, hvisit]
    · rw [sourcePrefix_eq]
      cases ((before.map Step.rest).filterMap infoSrcPrefix).getLast? with
      | none => simp
      | some p => simp [eq_comm]
  · intro s hs hid
    obtain ⟨before, after, hsplit⟩ := List.append_of_mem hs
    obtain ⟨-, hnext⟩ := linked_messageSteps cfg g m before s after hsplit
    exact ⟨_, hnext, Globals.ran_apply_other _ (decodeContent_infoSrc hid)⟩

/-- An INFO_SRC of the prefix `22…22` and user data, under the header prefix `11…11`. -/
def relayedMessage : Bytes :=
  rtpsMagic ++ [0x02, 0x05, 0x01, 0x10] ++ List.replicate 12 0x11 ++
    [0x0E, 0x01, 0x14, 0x00, 0x00, 0x00, 0x00, 0x00, 0x02, 0x05, 0x01, 0x10] ++
    List.replicate 12 0x22 ++
    [0x15, 0x05, 0x1C, 0x00, 0x00, 0x00, 0x10, 0x00, 0x00, 0x00, 0x00, 0x00,
      0x00, 0x00, 0x01, 0x03, 0x00, 0x00, 0x00, 0x00, 0x01, 0x00, 0x00, 0x00,
      0x00, 0x01, 0x00, 0x00, 0x2A, 0x00, 0x00, 0x00]

/-- The relayed data is printed under the prefix of the header, and the prefix in
force is the other one. -/
theorem relayed_data_misnamed :
    (handleRtps ⟨.both, false, true⟩ ⟨[], 7400, 7400, ⟨0, 0⟩⟩ relayedMessage Globals.init).map
        (·.cout) =
      some [.data ⟨[], 7400, 7400, ⟨0, 0⟩⟩ (text "11111111:11111111:11111111:000001|03")
        (text "000000|00") (text "(unknown – SEDP not yet seen)") 1 (text "000100002a000000")] ∧
    (submsgRests relayedMessage).map infoSrcPrefix =
      [some (List.Vector.replicate 12 0x22), none] ∧
    fmtGuid ⟨sourcePrefix (headerPrefix relayedMessage) ((submsgRests relayedMessage).take 1),
        window 4 relayedMessage 56⟩ = text "22222222:22222222:22222222:000001|03" := by
  decide +kernel

end DdsPlayground.Inspector
