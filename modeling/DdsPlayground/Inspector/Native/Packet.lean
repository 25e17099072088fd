import DdsPlayground.Inspector.Native.Rtps

/-!
# Link-layer stripper and capture callback

`packet_handler` finds the UDP payload of a captured frame and hands it to
`handle_rtps`. A capture carries the bytes it has: `caplen` is the length of
`pkt`, as libpcap promises of its callback arguments.
-/

namespace DdsPlayground.Inspector

open ByteWire

def dltNull : Int := 0
def dltEn10mb : Int := 1
def dltLoop : Int := 108
def afInet : UInt32 := 2
def ipprotoUdp : UInt8 := 17

/-- `struct IfaceCtx`. -/
structure IfaceCtx where
  datalink : Int
  name : Text
  deriving DecidableEq

/-- A captured frame with the header fields that the callback reads. -/
structure Capture where
  ts : Timeval
  caplen : UInt32
  pkt : Bytes
  /-- The buffer holds the captured bytes. -/
  size : pkt.length = caplen.toNat
  deriving DecidableEq

/-- `inet_ntop` of an IPv4 address. -/
def inetNtop (a : List.Vector UInt8 4) : Text :=
  (text ".").intercalate (a.toList.map fun b => toText (Int.ofNat b.toNat))

/-- The link-layer part of `packet_handler`: the offset of the IP header and the
bytes captured from there on, or `some none` where the callback returns. -/
def stripLink (cfg : Config) (ctx : IfaceCtx) (pkt : Bytes) (cap : Nat) :
    Option (Option (Nat × Nat)) :=
  if ctx.datalink = dltEn10mb then
    if cap < 14 then some none
    else do
      let etype ← u16Be pkt 12
      if etype = 0x8100 ∧ cap ≥ 18 then
        let etype ← u16Be pkt 16
        if etype ≠ 0x0800 then return none
        else return some (18, cap - 18)
      else if etype ≠ 0x0800 then return none
      else return some (14, cap - 14)
  else if ctx.datalink = dltNull then
    if cap < 4 then some none
    else do
      let family ← u32 pkt 0 cfg.hostLe
      if family ≠ afInet then return none
      else return some (4, cap - 4)
  else if ctx.datalink = dltLoop then
    if cap < 4 then some none
    else do
      let family ← u32Be pkt 0
      if family ≠ afInet then return none
      else return some (4, cap - 4)
  else some none

/-- The verbose report of a captured packet. -/
def Globals.report (g : Globals) (cfg : Config) (ctx : IfaceCtx) (o : Origin) (udpPayload : Nat) :
    Globals :=
  let g := g.diag cfg.verbose (.packet g.cntCaptured ctx.name o udpPayload)
  g.diag (cfg.verbose && g.cntCaptured % 10 == 0)
    (.stats g.cntCaptured g.cntRtps g.cntSedp g.cntData g.endpoints.keys.card)

/-- The IPv4 and UDP part of `packet_handler`, from the offset `ip` on. -/
def handleIp (cfg : Config) (ctx : IfaceCtx) (ts : Timeval) (pkt : Bytes) (ip cap : Nat)
    (g : Globals) : Option Globals :=
  if cap < 20 then some g
  else do
    let b0 ← pkt[ip]?
    if b0 >>> 4 ≠ 4 then return g
    else
      let ihl := (b0 &&& 0x0F).toNat * 4
      if ihl < 20 ∨ ihl > cap then return g
      else
        let proto ← pkt[ip + 9]?
        if proto ≠ ipprotoUdp then return g
        else
          let srcIp := inetNtop (← fetch 4 pkt (ip + 12))
          let udp := ip + ihl
          let udpCap := cap - ihl
          if udpCap < 8 then return g
          else
            let srcPort ← u16Be pkt udp
            let dstPort ← u16Be pkt (udp + 2)
            let udpPlLen ← u16Be pkt (udp + 4)
            if udpPlLen < 8 then return g
            else
              let rtpsLen := min (udpPlLen.toNat - 8) (udpCap - 8)
              let g := { g with cntCaptured := g.cntCaptured + 1 }
              let o : Origin := ⟨srcIp, srcPort, dstPort, ts⟩
              let g := g.report cfg ctx o (udpPlLen.toNat - 8)
              let data ← slice pkt (udp + 8) rtpsLen
              handleRtps cfg o data g

/-- `packet_handler`. -/
def packetHandler (cfg : Config) (ctx : IfaceCtx) (c : Capture) (g : Globals) : Option Globals := do
  match ← stripLink cfg ctx c.pkt c.caplen.toNat with
  | none => return g
  | some (ip, cap) => handleIp cfg ctx c.ts c.pkt ip cap g

/-- The captures of a run, in the order in which `main` has them dispatched. -/
def capture (cfg : Config) (run : List (IfaceCtx × Capture)) (g : Globals) : Option Globals :=
  run.foldlM (fun g p => packetHandler cfg p.1 p.2 g) g

end DdsPlayground.Inspector
