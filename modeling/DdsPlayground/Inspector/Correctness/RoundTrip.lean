import DdsPlayground.Inspector.Correctness.Classification
import DdsPlayground.Inspector.Correctness.Registry
import DdsPlayground.Inspector.Semantics.DataEncoding

/-!
# Decoding undoes encoding

An encoder of whole messages, with a byte order for each submessage, optional
inline QoS and a last length field that may be zero. What the parser prints of
an encoded message is computed from what was encoded, not from the bytes.
-/

namespace DdsPlayground.Inspector

open ByteWire LastWrite

/-- What an encoded submessage carries. -/
inductive EncodedBody where
  | data (d : DataFields)
  /-- Any other kind with a body that is not empty. -/
  | other (smId flags : UInt8) (body : Bytes) (smId_ne : smId ≠ smData) (body_ne : body ≠ [])

def EncodedBody.smId : EncodedBody → UInt8
  | .data _ => smData
  | .other smId .. => smId

def EncodedBody.flags : EncodedBody → UInt8
  | .data d => d.flags
  | .other _ flags .. => flags

def EncodedBody.bytes : EncodedBody → Bytes
  | .data d => d.body
  | .other _ _ body .. => body

/-- An encoded submessage: its length field is the length of its body, or zero. -/
structure EncodedSubmsg where
  body : EncodedBody
  zeroLen : Bool
  fits : zeroLen = false → body.bytes.length ≤ 65535

def EncodedSubmsg.len (s : EncodedSubmsg) : UInt16 :=
  if s.zeroLen then 0 else UInt16.ofNat s.body.bytes.length

theorem EncodedBody.bytes_ne (b : EncodedBody) : 0 < b.bytes.length := by
  cases b with
  | data d =>
    have := d.le_length_body
    exact Nat.lt_of_lt_of_le (by decide) this
  | other smId flags body smId_ne body_ne => exact List.length_pos_iff.mpr body_ne

/-- The length field of a submessage is zero only where the encoder put a zero. -/
theorem EncodedSubmsg.toNat_len (s : EncodedSubmsg) :
    s.len.toNat = if s.zeroLen then 0 else s.body.bytes.length := by
  unfold EncodedSubmsg.len
  split
  · rfl
  · next hz => exact toNat_ofNat_length (s.fits (by simpa using hz))

theorem EncodedSubmsg.len_eq_zero_iff (s : EncodedSubmsg) : s.len = 0 ↔ s.zeroLen = true := by
  have hpos := s.body.bytes_ne
  rw [← UInt16.toNat_inj, s.toNat_len]
  cases s.zeroLen with
  | false => simpa using Nat.pos_iff_ne_zero.mp hpos
  | true => simp

/-- The bytes of an encoded submessage. -/
def EncodedSubmsg.toWire (s : EncodedSubmsg) : WireSubmsg where
  bytes := submsgBytes s.body.smId s.body.flags s.len s.body.bytes
  header := by
    rw [length_submsgBytes]
    omega
  measured := by
    rw [submsgLen_submsgBytes, length_submsgBytes, s.toNat_len, ne_eq, s.len_eq_zero_iff]
    intro hz
    rw [if_neg hz]

theorem EncodedSubmsg.len_toWire (s : EncodedSubmsg) : s.toWire.len = s.len :=
  submsgLen_submsgBytes ..

/-- A message as encoded: only the last length field may be zero. -/
structure EncodedMessage where
  header : MessageHeader
  submsgs : List EncodedSubmsg
  zeroLast : ∀ s ∈ submsgs.dropLast, s.zeroLen = false

def EncodedMessage.bytes (m : EncodedMessage) : Bytes :=
  message m.header (m.submsgs.map EncodedSubmsg.toWire)

/-! ## What an encoded message has printed -/

/-- A user sample: a D flag, a payload, and a user-defined writer. -/
def DataFields.isSample (d : DataFields) : Bool :=
  (d.flags &&& 0x04 != 0) && d.payload ≠ [] && isUserDefined d.writer

/-- The record of a sample whose writer has the entry `it` in the registry. -/
def DataFields.record (o : Origin) (p : GuidPrefix) (it : Option EndpointInfo) (d : DataFields) :
    Record :=
  .data o (fmtGuid ⟨p, d.writer⟩) (fmtEntity d.reader)
    (it.elim (text "(unknown – SEDP not yet seen)") (·.topic)) d.seq
    (payloadText (it.elim [] (·.topic)) d.payload)

/-- What an SEDP announcement with a payload registers. -/
def DataFields.registration (p : GuidPrefix) (d : DataFields) : Option (Guid × EndpointInfo) :=
  if (d.flags &&& 0x04 != 0) ∧ d.payload ≠ [] then
    if d.writer = eidSedpPubWriter then announcement ⟨p, d.writer⟩ d.payload true
    else if d.writer = eidSedpSubWriter then announcement ⟨p, d.writer⟩ d.payload false
    else none
  else none

/-- The user-data record of a submessage. -/
def EncodedBody.records (o : Origin) (p : GuidPrefix) (endpoints : Registry) :
    EncodedBody → List Record
  | .data d =>
    if d.isSample then [d.record o p (endpoints.lookup (fmtGuid ⟨p, d.writer⟩))] else []
  | .other .. => []

/-- What a submessage registers. -/
def EncodedBody.registration (p : GuidPrefix) : EncodedBody → Option (Guid × EndpointInfo)
  | .data d => d.registration p
  | .other .. => none

/-- The user-data records of submessages in order, each with the topic that the
registry has for its writer after the announcements before it. -/
def sampleRecords (o : Origin) (p : GuidPrefix) : Registry → List EncodedSubmsg → List Record
  | _, [] => []
  | endpoints, s :: ss =>
    s.body.records o p endpoints ++
      sampleRecords o p (writeAll endpoints ((s.body.registration p).toList.map keyed)) ss

/-! ## Decoding -/

/-- An encoded DATA is decoded to its fields wherever it stands. -/
theorem decodeContent_data {s : EncodedSubmsg} {d : DataFields} (hs : s.body = .data d)
    {rest : Bytes} (hz : s.zeroLen = true → rest = []) :
    decodeContent (s.toWire.bytes ++ rest) = .data d.decoded := by
  have hbytes : s.toWire.bytes = submsgBytes smData d.flags s.len d.body := by
    simp only [EncodedSubmsg.toWire, hs, EncodedBody.smId, EncodedBody.flags, EncodedBody.bytes]
  have hlen : 24 ≤ s.toWire.bytes.length := by
    have := d.le_length_body
    rw [hbytes, length_submsgBytes]
    omega
  have hid : s.toWire.id = smData := by
    rw [WireSubmsg.id, hbytes]
    rfl
  have hmeasured : s.len ≠ 0 → s.len.toNat = d.body.length := by
    rw [ne_eq, s.len_eq_zero_iff, s.toNat_len, hs]
    intro hne
    rw [if_neg hne]
    rfl
  rw [s.toWire.decodeContent_append hid hlen fun h =>
    hz (s.len_eq_zero_iff.mp (s.len_toWire ▸ h)), hbytes, decodeData_submsgBytes d hmeasured]

/-- A submessage of another kind is no DATA to the parser. -/
theorem decodeContent_other {s : EncodedSubmsg} {smId flags : UInt8} {body : Bytes}
    {hid : smId ≠ smData} {hbody : body ≠ []} (hs : s.body = .other smId flags body hid hbody)
    (rest : Bytes) (d : DataSub) : decodeContent (s.toWire.bytes ++ rest) ≠ .data d := by
  have hpeek : peek (s.toWire.bytes ++ rest) 0 = smId := by
    simp only [EncodedSubmsg.toWire, hs, EncodedBody.smId]
    rfl
  rw [decodeContent, hpeek, if_neg hid]
  split <;> simp

/-- A writer of the encoder is user-defined exactly when it is no discovery writer. -/
theorem DataFields.isUserDefined_writer (d : DataFields) :
    isUserDefined d.writer = !isDiscoveryWriter d.writer := by
  rcases d.kind with hu | hw | hw | hw
  · have hspdp : d.writer ≠ eidSpdpWriter := by
      rintro hw
      rw [hw] at hu
      exact absurd hu (by decide)
    have hpub : d.writer ≠ eidSedpPubWriter := by
      rintro hw
      rw [hw] at hu
      exact absurd hu (by decide)
    have hsub : d.writer ≠ eidSedpSubWriter := by
      rintro hw
      rw [hw] at hu
      exact absurd hu (by decide)
    simp [hu, isDiscoveryWriter, hspdp, hpub, hsub]
  · rw [hw]
    decide
  · rw [hw]
    decide
  · rw [hw]
    decide

/-- The samples are what the parser takes for user data. -/
theorem DataFields.role_decoded_eq_user_iff (d : DataFields) :
    d.decoded.role = .user ↔ d.isSample = true := by
  rw [DataSub.role_eq_user_iff, DataFields.isSample, d.isUserDefined_writer]
  simp only [DataFields.decoded, Bool.and_eq_true, decide_eq_true_eq, Bool.not_eq_true']
  tauto

/-- An encoded DATA registers what its announcement says. -/
theorem DataFields.registration_eq (p : GuidPrefix) (d : DataFields) {v : Visit}
    (hp : v.guidPrefix = p) (hv : v.submsg.content = .data d.decoded) :
    v.registration = d.registration p := by
  have hpub := eidSedpPubWriter_ne_spdp
  have hsub := eidSedpSubWriter_ne_spdp
  have hne : eidSedpSubWriter ≠ eidSedpPubWriter := by decide
  have hwriter : d.decoded.writer = d.writer := rfl
  have hpayload : d.decoded.payload = d.payload := rfl
  have hflag : d.decoded.hasData = (d.flags &&& 0x04 != 0) := rfl
  simp only [Visit.registration, hv, hp, DataFields.registration, DataSub.role, hwriter, hpayload,
    hflag]
  by_cases hd : (d.flags &&& 0x04 != 0) = true ∧ d.payload ≠ []
  · obtain ⟨hflag, hpay⟩ := hd
    simp only [hflag, true_and]
    by_cases hw : d.writer = eidSedpPubWriter
    · simp [hw, hpub, hpay]
    · by_cases hw' : d.writer = eidSedpSubWriter
      · simp [hw', hsub, hne, hpay]
      · by_cases hs : d.writer = eidSpdpWriter
        · simp [hs, hpub.symm, hsub.symm]
        · simp [hw, hw', hs, hpay]
  · simp only [hd, and_false, if_false]
    by_cases hs : d.writer = eidSpdpWriter
    · rw [if_pos hs]
    · rw [if_neg hs]

/-- A submessage of another kind registers nothing and is no user data. -/
theorem Visit.not_data {v : Visit} (h : ∀ d, v.submsg.content ≠ .data d) :
    v.registration = none ∧ v.isUser = false := by
  cases hc : v.submsg.content with
  | data d => exact absurd hc (h d)
  | other => simp [Visit.registration, Visit.isUser, Visit.role, hc]
  | shortData => simp [Visit.registration, Visit.isUser, Visit.role, hc]
  | heartbeat writer => simp [Visit.registration, Visit.isUser, Visit.role, hc]

/-- The parser prints and registers for an encoded submessage what was encoded. -/
theorem visit_encoded (cfg : Config) (hm : cfg.printMode ≠ .reannounce) (o : Origin)
    (p : GuidPrefix) (s : EncodedSubmsg) {rest : Bytes} (hz : s.zeroLen = true → rest = [])
    (endpoints : Registry) :
    (Visit.records cfg (directory endpoints) ⟨o, p, decodeSubmsg (s.toWire.bytes ++ rest)⟩).filter
        Record.isUserData = s.body.records o p endpoints ∧
      Visit.registration ⟨o, p, decodeSubmsg (s.toWire.bytes ++ rest)⟩ =
        s.body.registration p := by
  cases hs : s.body with
  | data d =>
    have hc := decodeContent_data hs hz
    refine ⟨?_, d.registration_eq p rfl hc⟩
    simp only [EncodedBody.records]
    by_cases hsample : d.isSample = true
    · have hr := d.role_decoded_eq_user_iff.mpr hsample
      rw [records_of_user cfg hc hr hm, if_pos hsample]
      rfl
    · rw [if_neg hsample]
      refine Visit.filter_records cfg _ ?_
      rw [Visit.isUser, decide_eq_false_iff_not]
      intro hr
      simp only [Visit.role, decodeSubmsg, hc] at hr
      exact hsample (d.role_decoded_eq_user_iff.mp hr)
  | other smId flags body hid hbody =>
    obtain ⟨hreg, huser⟩ := Visit.not_data (v := ⟨o, p, decodeSubmsg (s.toWire.bytes ++ rest)⟩)
      (decodeContent_other hs rest)
    exact ⟨Visit.filter_records cfg _ huser, hreg⟩

/-- The user-data records of a run over encoded submessages are those of the samples. -/
theorem filter_runRecords_encoded (cfg : Config) (hm : cfg.printMode ≠ .reannounce) (o : Origin)
    (p : GuidPrefix) (ss : List EncodedSubmsg) (hz : ∀ s ∈ ss.dropLast, s.zeroLen = false)
    (endpoints : Registry) :
    (runRecords cfg endpoints ((suffixes (ss.map EncodedSubmsg.toWire)).map fun rest =>
        ⟨o, p, decodeSubmsg rest⟩)).filter Record.isUserData = sampleRecords o p endpoints ss := by
  induction ss generalizing endpoints with
  | nil => rfl
  | cons s ss ih =>
    have hlast : s.zeroLen = true → wire (ss.map EncodedSubmsg.toWire) = [] := by
      intro hzero
      cases ss with
      | nil => rfl
      | cons t ts =>
        have := hz s (by rw [List.dropLast_cons_cons]; exact List.mem_cons_self ..)
        rw [hzero] at this
        cases this
    have htail : ∀ t ∈ ss.dropLast, t.zeroLen = false := by
      intro t ht
      cases ss with
      | nil => simp at ht
      | cons u us => exact hz t (by rw [List.dropLast_cons_cons]; exact List.mem_cons_of_mem s ht)
    obtain ⟨hrec, hreg⟩ := visit_encoded cfg hm o p s hlast endpoints
    rw [List.map_cons, suffixes, List.map_cons, runRecords, List.filter_append, hrec, ih htail,
      sampleRecords, registryAfter, registrations_singleton, hreg]

/-- What the parser prints of an encoded message, in a mode that shows user data and
from any globals, is a record for each user sample, in order, with its reader, its
writer's GUID, its sequence number and its payload; and the two application payloads
are shown as the values that were encoded. -/
theorem handleRtps_encoded (cfg : Config) (o : Origin) (m : EncodedMessage) (g : Globals) :
    (cfg.printMode ≠ .reannounce → ∃ g' printed, handleRtps cfg o m.bytes g = some g' ∧
      g'.cout = g.cout ++ printed ∧ printed.filter Record.isUserData =
        sampleRecords o m.header.guidPrefix g.endpoints m.submsgs) ∧
    (∀ le options value pad,
      payloadText (text "PingPongTopic") (encodePingPongMsg le options value pad) =
          text "value=" ++ toText value.toInt ∧
        payloadText (text "PongBazTopic") (encodePingPongMsg le options value pad) =
          text "value=" ++ toText value.toInt) ∧
    (∀ le options s pad, s.length + 1 < 2 ^ 32 →
      payloadText (text "BazPongTopic") (encodeBazResponseMsg le options s pad) =
        text "text=\"" ++ s ++ text "\"") := by
  refine ⟨fun hm => ?_, ?_, ?_⟩
  · have hran := Globals.ran_receive cfg g (o, m.bytes)
    refine ⟨_, _, handleRtps_eq cfg o m.bytes g, hran.cout, ?_⟩
    have hreach : reach (m.submsgs.map EncodedSubmsg.toWire) =
        (suffixes (m.submsgs.map EncodedSubmsg.toWire)).length := by
      rw [length_suffixes, reach_eq_length_iff, ← List.map_dropLast]
      intro w hw
      obtain ⟨s, hs, rfl⟩ := List.mem_map.mp hw
      rw [s.len_toWire, ne_eq, s.len_eq_zero_iff, m.zeroLast s hs]
      decide
    rw [EncodedMessage.bytes, messageVisits_message, hreach, List.take_length]
    exact filter_runRecords_encoded cfg hm o _ m.submsgs m.zeroLast g.endpoints
  · intro le options value pad
    have hping : text "PongBazTopic" ≠ text "PingPongTopic" := by decide
    rw [payloadText, if_pos (Or.inl rfl), payloadText, if_pos (Or.inr rfl)]
    exact ⟨pingPongText_encode .., pingPongText_encode ..⟩
  · intro le options s pad h
    rw [payloadText, if_neg (by decide), if_pos rfl]
    exact bazResponseText_encode le options pad h

/-- The announcement of a publication, in big-endian fields. -/
def publicationFields : DataFields where
  flags := 0x04
  extraFlags := .replicate 2 0
  reader := ⟨[0x00, 0x00, 0x03, 0xC7], rfl⟩
  writer := eidSedpPubWriter
  seq := 1
  qos := none
  payload := [0x00, 0x03, 0x00, 0x00, 0x05, 0x00, 0x14, 0x00, 0x0E, 0x00, 0x00, 0x00] ++
    text "PingPongTopic" ++ [0x00, 0x00, 0x00, 0x5A, 0x00, 0x10, 0x00] ++ List.replicate 12 0x11 ++
    [0x00, 0x00, 0x02, 0x03, 0x01, 0x00, 0x00, 0x00]
  qFlag := by decide
  kind := .inr (.inr (.inl rfl))

/-- A sample of that publication in little-endian fields, with inline QoS and a payload of the
other byte order. -/
def sampleFields : DataFields where
  flags := 0x07
  extraFlags := .replicate 2 0
  reader := ⟨[0x00, 0x00, 0x02, 0x04], rfl⟩
  writer := ⟨[0x00, 0x00, 0x02, 0x03], rfl⟩
  seq := 8589934597
  qos := some [⟨0x0070, [1, 2, 3, 4], by decide, by decide⟩]
  payload := encodePingPongMsg false (.replicate 2 0) (-7) []
  qFlag := by decide
  kind := .inl (by decide)

/-- Both behind a timestamp, the sample with a length field of zero. -/
def announcedMessage : EncodedMessage where
  header := ⟨⟨[0x02, 0x05, 0x01, 0x10], rfl⟩, .replicate 12 0x11⟩
  submsgs :=
    [⟨.other 0x09 0x01 (List.replicate 8 0x5A) (by decide) (by decide), false, by decide⟩,
      ⟨.data publicationFields, false, by decide⟩, ⟨.data sampleFields, true, by decide⟩]
  zeroLast := by decide

theorem handleRtps_encoded_announced :
    ∃ g' printed,
      handleRtps ⟨.both, false, true⟩ ⟨[], 7400, 7400, ⟨0, 0⟩⟩ announcedMessage.bytes
          Globals.init = some g' ∧
        g'.cout = printed ∧
        printed.filter Record.isUserData =
          [.data ⟨[], 7400, 7400, ⟨0, 0⟩⟩ (text "11111111:11111111:11111111:000002|03")
            (text "000002|04") (text "PingPongTopic") 8589934597 (text "value=-7")] := by
  obtain ⟨g', printed, hrun, hcout, hrecords⟩ :=
    (handleRtps_encoded ⟨.both, false, true⟩ ⟨[], 7400, 7400, ⟨0, 0⟩⟩ announcedMessage
      Globals.init).1 (by decide)
  refine ⟨g', printed, hrun, hcout, hrecords.trans ?_⟩
  decide +kernel

end DdsPlayground.Inspector
