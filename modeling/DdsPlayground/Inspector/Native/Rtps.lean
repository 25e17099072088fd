import DdsPlayground.Inspector.Native.Decode

/-!
# RTPS message parser

`handle_rtps` with its submessage loop and the loop over the inline QoS of a
DATA submessage. The buffer `data` is the one the caller hands over, and the
payload of a DATA submessage is handed on as a checked slice of it.
-/

namespace DdsPlayground.Inspector

open ByteWire BoundedLoop

/-- The 64-bit sequence number: high signed word, low unsigned word. -/
def sequenceNumber (snHi snLo : UInt32) : Int64 :=
  (snHi.toInt32.toInt64 <<< 32) ||| snLo.toUInt64.toInt64

/-- One pass of the inline-QoS loop. -/
def qosPass (data : Bytes) (le : Bool) (nextOff q : Nat) : Option (Pass Nat) :=
  if ¬ q + 4 ≤ nextOff then some (.leave q)
  else do
    let pid ← u16 data q le
    let plen ← u16 data (q + 2) le
    let q := q + (4 + plen.toNat)
    if pid = pidSentinel then return .leave q
    else return .again q

/-- Skip the inline QoS of a DATA submessage if it has any. -/
def skipInlineQos (data : Bytes) (le hasQos : Bool) (nextOff qosOff : Nat) : Option Nat :=
  if hasQos ∧ qosOff + 4 ≤ nextOff then run (qosPass data le nextOff) (data.length + 1) qosOff
  else some qosOff

/-- Classify a DATA submessage by its writer entity identifier, and act on it. -/
def classifyData (cfg : Config) (o : Origin) (data : Bytes) (senderPrefix : GuidPrefix)
    (readerEid writerEid : EntityId) (seq : Int64) (hasQos hasData : Bool) (plOff plLen : Nat)
    (g : Globals) : Option Globals :=
  let isSpdp : Bool := writerEid = eidSpdpWriter
  let isSedpPub : Bool := writerEid = eidSedpPubWriter
  let isSedpSub : Bool := writerEid = eidSedpSubWriter
  let g := g.diag cfg.verbose (.data writerEid hasData hasQos plLen isSpdp isSedpPub isSedpSub)
  if isSpdp then some (g.print (cfg.printMode != .traffic) (.spdp o (fmtPrefix senderPrefix)))
  else if (isSedpPub ∨ isSedpSub) ∧ hasData ∧ plLen > 0 then do
    let g := { g with cntSedp := g.cntSedp + 1 }
    let payload ← slice data plOff plLen
    decodeSedp cfg senderPrefix writerEid payload isSedpPub g
  else if ¬ isSedpPub ∧ ¬ isSedpSub ∧ hasData ∧ plLen > 0 then
    let g := { g with cntData := g.cntData + 1 }
    if cfg.printMode != .reannounce then do
      let writerGuid := fmtGuid ⟨senderPrefix, writerEid⟩
      let it := g.endpoints.lookup writerGuid
      let topic := it.elim (text "(unknown – SEDP not yet seen)") (·.topic)
      let pl ← slice data plOff plLen
      let payload ← decodePayload (it.elim [] (·.topic)) pl
      return g.print true (.data o writerGuid (fmtEntity readerEid) topic seq payload)
    else some g
  else some g

/-- The DATA branch of `handle_rtps`, behind the guard on its fixed fields. -/
def handleData (cfg : Config) (o : Origin) (data : Bytes) (senderPrefix : GuidPrefix)
    (smFlags : UInt8) (le : Bool) (bodyOff nextOff : Nat) (g : Globals) : Option Globals := do
  let hasQos := smFlags &&& 0x02 != 0
  let hasData := smFlags &&& 0x04 != 0
  let octToIqos ← u16 data (bodyOff + 2) le
  let readerEid ← fetch 4 data (bodyOff + 4)
  let writerEid ← fetch 4 data (bodyOff + 8)
  let snHi ← u32 data (bodyOff + 12) le
  let snLo ← u32 data (bodyOff + 16) le
  let seq := sequenceNumber snHi snLo
  let qosOff := bodyOff + 4 + octToIqos.toNat
  let plOff ← skipInlineQos data le hasQos nextOff qosOff
  let plLen := if plOff < nextOff then nextOff - plOff else 0
  classifyData cfg o data senderPrefix readerEid writerEid seq hasQos hasData plOff plLen g

/-- The HEARTBEAT branch of `handle_rtps`, behind the guard on its fixed fields. -/
def handleHeartbeat (cfg : Config) (data : Bytes) (bodyOff : Nat) (g : Globals) :
    Option Globals := do
  let hbWriter ← fetch 4 data (bodyOff + 4)
  let sedpHb : Bool := hbWriter = eidSedpPubWriter ∨ hbWriter = eidSedpSubWriter
  return g.print (sedpHb && g.endpoints = ∅ && cfg.printMode != .traffic) .missedSedp

/-- The state of the submessage loop: the offset and the globals. -/
structure Walk where
  off : Nat
  globals : Globals

/-- One pass of the submessage loop of `handle_rtps`. -/
def submsgPass (cfg : Config) (o : Origin) (data : Bytes) (senderPrefix : GuidPrefix) (w : Walk) :
    Option (Pass Walk) :=
  if ¬ w.off + 4 ≤ data.length then some (.leave w)
  else do
    let smId ← data[w.off]?
    let smFlags ← data[w.off + 1]?
    let le := smFlags &&& 0x01 != 0
    let smLen ← u16 data (w.off + 2) le
    let bodyOff := w.off + 4
    let nextOff := if smLen = 0 then data.length else w.off + 4 + smLen.toNat
    let nextOff := if nextOff > data.length then data.length else nextOff
    let g := w.globals.diag (cfg.verbose && smId != smData) (.submsg smId smFlags smLen)
    if smId = smData then
      if bodyOff + 20 > data.length then return .again ⟨nextOff, g⟩
      else
        let g ← handleData cfg o data senderPrefix smFlags le bodyOff nextOff g
        return .again ⟨nextOff, g⟩
    else if smId = smHeartbeat ∧ bodyOff + 28 ≤ data.length then
      let g ← handleHeartbeat cfg data bodyOff g
      return .again ⟨nextOff, g⟩
    else return .again ⟨nextOff, g⟩

/-- The submessage loop of `handle_rtps` with the prefix read from the header. -/
def submsgLoop (cfg : Config) (o : Origin) (data : Bytes) (senderPrefix : GuidPrefix)
    (g : Globals) : Option Globals :=
  (run (submsgPass cfg o data senderPrefix) (data.length + 1) ⟨20, g⟩).map (·.globals)

/-- `handle_rtps`. -/
def handleRtps (cfg : Config) (o : Origin) (data : Bytes) (g : Globals) : Option Globals := do
  -- `memcmp` is reached only with the 20 header bytes at hand.
  let reject ←
    if data.length < 20 then some true else (slice data 0 4).map (· != rtpsMagic)
  if reject then
    if cfg.verbose then
      let first4 ← (List.range 4).mapM fun i => if data.length > i then data[i]? else some 0
      return g.diag true (.noMagic o data.length first4)
    else return g
  else
    let g := { g with cntRtps := g.cntRtps + 1 }
    let senderPrefix ← fetch 12 data 8
    submsgLoop cfg o data senderPrefix g

end DdsPlayground.Inspector
