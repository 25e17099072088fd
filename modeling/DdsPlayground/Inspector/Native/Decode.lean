import DdsPlayground.Core.Loop
import DdsPlayground.Inspector.Native.State

/-!
# Byte-order helpers and CDR decoders

Every byte of a buffer is read with a checked index, so `none` is a read
outside the buffer, or a loop that does not end. Offsets are `size_t`: a
capture has less than `2 ^ 32` bytes and a length field at most 32 bits, so a
sum of an offset and a length stays far below the 64-bit limit and natural
numbers are exact for it.
-/

namespace DdsPlayground.Inspector

open ByteWire BoundedLoop

/-! ## Byte-order helpers -/

/-- `u16_le`. -/
def u16Le (p : Bytes) (i : Nat) : Option UInt16 := do
  let b0 ← p[i]?
  let b1 ← p[i + 1]?
  return b0.toUInt16 ||| (b1.toUInt16 <<< 8)

/-- `u16_be`. -/
def u16Be (p : Bytes) (i : Nat) : Option UInt16 := do
  let b0 ← p[i]?
  let b1 ← p[i + 1]?
  return (b0.toUInt16 <<< 8) ||| b1.toUInt16

/-- `u32_le`. -/
def u32Le (p : Bytes) (i : Nat) : Option UInt32 := do
  let b0 ← p[i]?
  let b1 ← p[i + 1]?
  let b2 ← p[i + 2]?
  let b3 ← p[i + 3]?
  return b0.toUInt32 ||| (b1.toUInt32 <<< 8) ||| (b2.toUInt32 <<< 16) ||| (b3.toUInt32 <<< 24)

/-- `u32_be`. -/
def u32Be (p : Bytes) (i : Nat) : Option UInt32 := do
  let b0 ← p[i]?
  let b1 ← p[i + 1]?
  let b2 ← p[i + 2]?
  let b3 ← p[i + 3]?
  return (b0.toUInt32 <<< 24) ||| (b1.toUInt32 <<< 16) ||| (b2.toUInt32 <<< 8) ||| b3.toUInt32

/-- `u16`. -/
def u16 (p : Bytes) (i : Nat) (le : Bool) : Option UInt16 := if le then u16Le p i else u16Be p i

/-- `u32`. -/
def u32 (p : Bytes) (i : Nat) (le : Bool) : Option UInt32 := if le then u32Le p i else u32Be p i

/-! ## CDR strings -/

/-- `cdr_string`. No caller asks for the end offset, so it is not returned. -/
def cdrString (buf : Bytes) (bufLen off : Nat) (le : Bool) : Option Text :=
  if off + 4 > bufLen then some []
  else do
    let slen ← u32 buf off le
    let off := off + 4
    if slen = 0 ∨ off + slen.toNat > bufLen then return []
    else slice buf off (if slen > 0 then slen.toNat - 1 else 0)

/-! ## SEDP parameter lists -/

/-- The locals of `decode_sedp` that its loop updates. -/
structure SedpScan where
  off : Nat
  topic : Text
  typeName : Text
  epPrefix : GuidPrefix
  epEntity : EntityId
  haveEpGuid : Bool

/-- One pass of the parameter loop of `decode_sedp`. -/
def sedpPass (payload : Bytes) (le : Bool) (s : SedpScan) : Option (Pass SedpScan) :=
  if ¬ s.off + 4 ≤ payload.length then some (.leave s)
  else do
    let pid ← u16 payload s.off le
    let plen ← u16 payload (s.off + 2) le
    let off := s.off + 4
    if pid = pidSentinel then return .leave { s with off := off }
    else
      let paramEnd := off + plen.toNat
      if paramEnd > payload.length then return .leave { s with off := off }
      else if pid = pidTopicName then
        let topic ← cdrString payload paramEnd off le
        return .again { s with topic := topic, off := paramEnd }
      else if pid = pidTypeName then
        let typeName ← cdrString payload paramEnd off le
        return .again { s with typeName := typeName, off := paramEnd }
      else if pid = pidEndpointGuid ∧ plen ≥ 16 then
        let epPrefix ← fetch 12 payload off
        let epEntity ← fetch 4 payload (off + 12)
        return .again { s with
          epPrefix := epPrefix, epEntity := epEntity, haveEpGuid := true, off := paramEnd }
      else return .again { s with off := paramEnd }

/-- The end of `decode_sedp`: insert the endpoint and print the announcement. -/
def Globals.register (cfg : Config) (g : Globals) (guid : Guid) (info : EndpointInfo) : Globals :=
  let guidStr := fmtGuid guid
  let reannounce := (g.endpoints.lookup guidStr).isSome
  let g := { g with endpoints := g.endpoints.insert guidStr info }
  g.print (cfg.printMode != .traffic)
    (.sedp info.isWriter reannounce guidStr info.topic info.typeName
      (info.isWriter && cfg.printMode != .reannounce))

/-- `decode_sedp`. -/
def decodeSedp (cfg : Config) (senderPrefix : GuidPrefix) (writerEid : EntityId)
    (payload : Bytes) (isPub : Bool) (g : Globals) : Option Globals :=
  if payload.length < 4 then some g
  else do
    let b1 ← payload[1]?
    let le := b1 &&& 0x01 != 0
    let s ← run (sedpPass payload le) (payload.length + 1)
      ⟨4, [], [], List.Vector.replicate 12 0, List.Vector.replicate 4 0, false⟩
    let guid : Guid := if s.haveEpGuid then ⟨s.epPrefix, s.epEntity⟩ else ⟨senderPrefix, writerEid⟩
    if s.topic.isEmpty then return g
    else return g.register cfg guid ⟨s.topic, s.typeName, isPub⟩

/-! ## Application payloads -/

/-- `decode_ping_pong_msg`. -/
def decodePingPongMsg (pl : Bytes) : Option Text :=
  if pl.length < 8 then some (text "(too short)")
  else do
    let b1 ← pl[1]?
    let le := b1 &&& 0x01 != 0
    let val ← u32 pl 4 le
    return text "value=" ++ toText val.toInt32.toInt

/-- `decode_baz_response_msg`. -/
def decodeBazResponseMsg (pl : Bytes) : Option Text :=
  if pl.length < 8 then some (text "(too short)")
  else do
    let b1 ← pl[1]?
    let le := b1 &&& 0x01 != 0
    let s ← cdrString pl pl.length 4 le
    return text "text=\"" ++ s ++ text "\""

/-- `decode_payload`. -/
def decodePayload (topic : Text) (pl : Bytes) : Option Text :=
  if topic = text "PingPongTopic" ∨ topic = text "PongBazTopic" then decodePingPongMsg pl
  else if topic = text "BazPongTopic" then decodeBazResponseMsg pl
  else do
    let shown ← (List.range (min pl.length 24)).mapM fun i => pl[i]?
    return shown.flatMap hex02 ++ (if pl.length > 24 then text "…" else [])

end DdsPlayground.Inspector
