import DdsPlayground.Inspector.Semantics.Encoding
import DdsPlayground.Inspector.Semantics.Parameters

/-!
# Encoding of DATA submessages

The encoder that the DATA branch of the parser undoes: fixed fields in the byte
order of the E flag, an inline-QoS list closed by its sentinel, and the payload.
The payloads of the two message types are CDR in a byte order of their own.
-/

namespace DdsPlayground.Inspector

open ByteWire

/-! ## Sequence numbers -/

/-- The high word of a sequence number. -/
def seqHi (seq : Int64) : UInt32 := (seq.toUInt64 >>> 32).toUInt32

/-- The low word of a sequence number. -/
def seqLo (seq : Int64) : UInt32 := seq.toUInt64.toUInt32

/-- The parser puts the two words of a sequence number together again. -/
theorem sequenceNumber_seqHi_seqLo (seq : Int64) : sequenceNumber (seqHi seq) (seqLo seq) = seq := by
  apply Int64.toBitVec_inj.mp
  have hlow : seq.toBitVec % 4294967296#64 = (seq.toBitVec.setWidth 32).setWidth 64 := by
    apply BitVec.eq_of_toNat_eq
    simp
    omega
  apply BitVec.eq_of_getLsbD_eq
  intro i hi
  simp only [sequenceNumber, seqHi, seqLo]
  by_cases h : i < 32
  · simp [hlow, h, hi]
  · have hshift : 32 + (i - 32) = i := by omega
    simp [hlow, h, hi]
    rw [← BitVec.getLsbD_eq_getElem, BitVec.getLsbD_signExtend]
    simp [hshift, show i - 32 < 32 by omega, show i - 32 < 64 by omega, hi,
      BitVec.getLsbD_eq_getElem]

/-! ## DATA -/

/-- A user-defined entity: both top bits of the entity kind are clear. -/
def isUserDefined (e : EntityId) : Bool := e.kind &&& 0xC0 == 0

/-- The fields of an encoded DATA submessage. Its writer is user-defined, or one of the
discovery writers. -/
structure DataFields where
  flags : UInt8
  extraFlags : List.Vector UInt8 2
  reader : EntityId
  writer : EntityId
  seq : Int64
  qos : Option (List QosParam)
  payload : Bytes
  qFlag : (flags &&& 0x02 != 0) = qos.isSome
  kind : isUserDefined writer ∨ writer = eidSpdpWriter ∨ writer = eidSedpPubWriter ∨
    writer = eidSedpSubWriter

def DataFields.le (d : DataFields) : Bool := d.flags &&& 0x01 != 0

/-- The body of a DATA submessage; the inline QoS starts 16 octets behind the field. -/
def DataFields.body (d : DataFields) : Bytes :=
  d.extraFlags.toList ++ (put16 d.le 16 ++ (d.reader.toList ++ (d.writer.toList ++
    (put32 d.le (seqHi d.seq) ++ (put32 d.le (seqLo d.seq) ++
      (d.qos.elim [] (qosBytes d.le) ++ d.payload))))))

/-- What the parser is to find in the submessage. -/
def DataFields.decoded (d : DataFields) : DataSub :=
  ⟨d.reader, d.writer, d.seq, d.flags &&& 0x02 != 0, d.flags &&& 0x04 != 0, d.payload⟩

/-- A submessage with the given kind, flags and length field. -/
def submsgBytes (smId flags : UInt8) (len : UInt16) (body : Bytes) : Bytes :=
  smId :: flags :: (put16 (flags &&& 0x01 != 0) len ++ body)

theorem submsgLen_submsgBytes (smId flags : UInt8) (len : UInt16) (body : Bytes) :
    submsgLen (submsgBytes smId flags len body) = len :=
  u16At_of_drop (i := 2) rfl

theorem length_submsgBytes (smId flags : UInt8) (len : UInt16) (body : Bytes) :
    (submsgBytes smId flags len body).length = 4 + body.length := by
  simp [submsgBytes]
  omega

theorem DataFields.le_length_body (d : DataFields) : 20 ≤ d.body.length := by
  simp [DataFields.body]
  omega

/-- The parser decodes the submessage to its fields. -/
theorem decodeData_submsgBytes (d : DataFields) {len : UInt16}
    (h : len ≠ 0 → len.toNat = d.body.length) :
    decodeData (submsgBytes smData d.flags len d.body) = d.decoded := by
  have hle : submsgLe (submsgBytes smData d.flags len d.body) = d.le := rfl
  have hext : extent (submsgBytes smData d.flags len d.body) =
      (submsgBytes smData d.flags len d.body).length := by
    rw [extent, submsgLen_submsgBytes, length_submsgBytes]
    split
    · rfl
    · next hz =>
      have := h hz
      omega
  have h4 : (submsgBytes smData d.flags len d.body).drop 4 = d.body :=
    drop_behind (i := 2) rfl (length_put16 _ len)
  have h6 := drop_behind h4 d.extraFlags.toList_length
  have h8 := drop_behind h6 (length_put16 _ _)
  have h12 := drop_behind h8 d.reader.toList_length
  have h16 := drop_behind h12 d.writer.toList_length
  have h20 := drop_behind h16 (length_put32 _ _)
  have h24 := drop_behind h20 (length_put32 _ _)
  have hpayload : (if d.flags &&& 0x02 != 0 then
      skipQos d.le (d.qos.elim [] (qosBytes d.le) ++ d.payload)
      else d.qos.elim [] (qosBytes d.le) ++ d.payload) = d.payload := by
    rw [d.qFlag]
    cases d.qos with
    | none => rfl
    | some qs => exact skipQos_qosBytes d.le qs d.payload
  have hpeek : peek (submsgBytes smData d.flags len d.body) 1 = d.flags := rfl
  have hoct := u16At_of_drop h6
  simp only [decodeData, hle, hext, List.take_length, hpeek, window_of_drop h8,
    window_of_drop h12, hoct, u32At_of_drop h16, u32At_of_drop h20, sequenceNumber_seqHi_seqLo]
  rw [show 8 + UInt16.toNat 16 = 24 from rfl, h24, hpayload]
  rfl

/-! ## Application payloads -/

/-- The four bytes in front of a CDR payload: the representation in the given byte
order, and two bytes of options. -/
def cdrHeader (le : Bool) (options : List.Vector UInt8 2) : Bytes :=
  0x00 :: (if le then 0x01 else 0x00) :: options.toList

/-- A `PingPong::Msg` in CDR, with what may stand behind it. -/
def encodePingPongMsg (le : Bool) (options : List.Vector UInt8 2) (value : Int32) (pad : Bytes) :
    Bytes :=
  cdrHeader le options ++ (put32 le value.toUInt32 ++ pad)

/-- A `BazResponse::Msg` in CDR, with what may stand behind it. -/
def encodeBazResponseMsg (le : Bool) (options : List.Vector UInt8 2) (s : Text) (pad : Bytes) :
    Bytes :=
  cdrHeader le options ++ (put32 le (UInt32.ofNat (s.length + 1)) ++ (s ++ 0x00 :: pad))

theorem length_cdrHeader (le : Bool) (options : List.Vector UInt8 2) :
    (cdrHeader le options).length = 4 := by
  simp [cdrHeader]

theorem payloadLe_cdrHeader (le : Bool) (options : List.Vector UInt8 2) (xs : Bytes) :
    payloadLe (cdrHeader le options ++ xs) = le := by
  have hpeek : peek (cdrHeader le options ++ xs) 1 = if le then 0x01 else 0x00 := rfl
  rw [payloadLe, hpeek]
  cases le <;> decide

/-- An integer payload is shown as its value, in either byte order. -/
theorem pingPongText_encode (le : Bool) (options : List.Vector UInt8 2) (value : Int32)
    (pad : Bytes) :
    pingPongText (encodePingPongMsg le options value pad) =
      text "value=" ++ toText value.toInt := by
  have hlen : ¬ (encodePingPongMsg le options value pad).length < 8 := by
    simp only [encodePingPongMsg, List.length_append, length_cdrHeader, length_put32]
    omega
  have hvalue : u32At le (encodePingPongMsg le options value pad) 4 = value.toUInt32 :=
    u32At_of_drop (List.drop_left' (length_cdrHeader le options))
  have hle : payloadLe (encodePingPongMsg le options value pad) = le :=
    payloadLe_cdrHeader le options _
  rw [pingPongText, if_neg hlen, hle, hvalue, Int32.toInt32_toUInt32]

/-- A string payload is shown as its text, in either byte order. -/
theorem bazResponseText_encode (le : Bool) (options : List.Vector UInt8 2) {s : Text} (pad : Bytes)
    (h : s.length + 1 < 2 ^ 32) :
    bazResponseText (encodeBazResponseMsg le options s pad) =
      text "text=\"" ++ s ++ text "\"" := by
  have hlen : ¬ (encodeBazResponseMsg le options s pad).length < 8 := by
    simp only [encodeBazResponseMsg, List.length_append, length_cdrHeader, length_put32]
    omega
  have hle : payloadLe (encodeBazResponseMsg le options s pad) = le :=
    payloadLe_cdrHeader le options _
  have hcount : (UInt32.ofNat (s.length + 1)).toNat = s.length + 1 := by
    rw [UInt32.toNat_ofNat']
    omega
  have hdrop : (encodeBazResponseMsg le options s pad).drop 4 =
      put32 le (UInt32.ofNat (s.length + 1)) ++ (s ++ 0x00 :: pad) :=
    List.drop_left' (length_cdrHeader le options)
  have hne : UInt32.ofNat (s.length + 1) ≠ 0 := by
    intro hz
    rw [hz] at hcount
    simp at hcount
  rw [bazResponseText, if_neg hlen, hle, hdrop, cdrText, u32At_put32_append, hcount,
    if_pos ⟨by simp, hne, by simp⟩, List.drop_left' (length_put32 le _),
    Nat.add_sub_cancel, List.take_left]

end DdsPlayground.Inspector
