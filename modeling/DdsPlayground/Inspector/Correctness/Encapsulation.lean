import DdsPlayground.Inspector.Semantics.Framing

/-!
# Encapsulation undone

`packet_handler` hands the captured part of a UDP payload to `handle_rtps`, behind
every supported link-layer header and every IPv4 header. Padding behind the datagram
is cut off by the length that the UDP header declares.
-/

namespace DdsPlayground.Inspector

open ByteWire

/-- Where the UDP payload starts in a frame. -/
def payloadStart (hostLe : Bool) (f : Framing) (d : UdpDatagram) : Nat :=
  (f.header hostLe).length + (20 + 4 * d.words) + 8

/-- A capture that covers the headers is the headers and the first bytes behind them. -/
theorem exists_captured {hostLe : Bool} {f : Framing} {d : UdpDatagram} {padding pkt : Bytes}
    (hpkt : pkt <+: f.header hostLe ++ (d.bytes ++ padding))
    (hcap : payloadStart hostLe f d ≤ pkt.length) :
    pkt = f.header hostLe ++ (d.ipHeader ++ (d.udpHeader ++
      (d.payload ++ padding).take (pkt.length - payloadStart hostLe f d))) := by
  have hframe : f.header hostLe ++ (d.bytes ++ padding) =
      (f.header hostLe ++ (d.ipHeader ++ d.udpHeader)) ++ (d.payload ++ padding) := by
    simp only [UdpDatagram.bytes, List.append_assoc]
  have hlen : (f.header hostLe ++ (d.ipHeader ++ d.udpHeader)).length =
      payloadStart hostLe f d := by
    simp only [List.length_append, UdpDatagram.length_ipHeader, UdpDatagram.length_udpHeader,
      payloadStart]
    omega
  have htake := List.prefix_iff_eq_take.mp hpkt
  rw [hframe, List.take_append, hlen, List.take_of_length_le (by omega)] at htake
  simpa only [List.append_assoc] using htake

/-- The captured bytes behind the headers are, up to the length of the payload, its first
ones. -/
theorem take_take_append (xs padding : Bytes) (k : Nat) :
    ((xs ++ padding).take k).take xs.length = xs.take k := by
  rw [List.take_take, Nat.min_comm, ← List.take_take, List.take_left]

/-- Behind each framing, with any options, padding and capture length that covers the UDP
header, `packet_handler` counts and reports the packet and hands exactly the captured
part of the payload to `handle_rtps`, with the ports of the UDP header; it is the whole
payload where the capture covers the datagram. -/
theorem packetHandler_undoes_encapsulation (cfg : Config) (ctx : IfaceCtx) (f : Framing)
    (d : UdpDatagram) (padding : Bytes) (c : Capture) (g : Globals)
    (hlink : ctx.datalink = f.datalink)
    (hpkt : c.pkt <+: f.header cfg.hostLe ++ (d.bytes ++ padding))
    (hcap : payloadStart cfg.hostLe f d ≤ c.caplen.toNat) :
    packetHandler cfg ctx c g =
        handleRtps cfg ⟨inetNtop d.srcAddr, d.srcPort, d.dstPort, c.ts⟩
          (d.payload.take (c.caplen.toNat - payloadStart cfg.hostLe f d))
          (Globals.report { g with cntCaptured := g.cntCaptured + 1 } cfg ctx
            ⟨inetNtop d.srcAddr, d.srcPort, d.dstPort, c.ts⟩ d.payload.length) ∧
      (payloadStart cfg.hostLe f d + d.payload.length ≤ c.caplen.toNat →
        d.payload.take (c.caplen.toNat - payloadStart cfg.hostLe f d) = d.payload) := by
  rw [← c.size] at hcap ⊢
  have hcaptured := exists_captured hpkt hcap
  have hdatagram : datagram cfg ctx c =
      some ⟨⟨inetNtop d.srcAddr, d.srcPort, d.dstPort, c.ts⟩, d.payload.length,
        d.payload.take (c.pkt.length - payloadStart cfg.hostLe f d)⟩ := by
    have hip : ipOffset cfg ctx c.pkt = some (f.header cfg.hostLe).length := by
      rw [hcaptured]
      exact ipOffset_header cfg ctx f _ hlink
    have hdrop : c.pkt.drop (f.header cfg.hostLe).length = d.ipHeader ++ (d.udpHeader ++
        (d.payload ++ padding).take (c.pkt.length - payloadStart cfg.hostLe f d)) := by
      conv_lhs => rw [hcaptured]
      exact List.drop_left
    rw [datagram, hip, Option.bind_some, datagramAt_drop, hdrop, datagramAt_bytes,
      take_take_append]
  refine ⟨?_, fun hfull => List.take_of_length_le (by omega)⟩
  rw [packetHandler_eq, Globals.capture, hdatagram, Option.elim_some, handleRtps_eq]

/-- A message of one byte behind a tagged Ethernet header and one word of options. -/
def taggedDatagram : UdpDatagram where
  tos := 0x00
  ident := List.Vector.replicate 2 0x00
  fragment := List.Vector.replicate 2 0x00
  ttl := 0x40
  checksum := List.Vector.replicate 2 0x00
  srcAddr := List.Vector.replicate 4 0x0A
  dstAddr := List.Vector.replicate 4 0x0B
  words := 1
  words_le := by decide
  options := List.Vector.replicate 4 0x01
  srcPort := 7411
  dstPort := 7400
  udpChecksum := List.Vector.replicate 2 0x00
  payload := [0x52]
  fits := by decide

/-- The tagged frame with two bytes of padding. -/
def taggedCapture : Capture where
  ts := ⟨0, 0⟩
  caplen := 53
  pkt := (Framing.vlan (List.Vector.replicate 12 0x02) (List.Vector.replicate 2 0x00)).header true ++
    (taggedDatagram.bytes ++ [0x00, 0x00])
  size := by decide +kernel

theorem packetHandler_taggedCapture :
    packetHandler ⟨.both, false, true⟩ ⟨dltEn10mb, text "en0"⟩ taggedCapture Globals.init =
        handleRtps ⟨.both, false, true⟩ ⟨inetNtop taggedDatagram.srcAddr, 7411, 7400, ⟨0, 0⟩⟩
          (taggedDatagram.payload.take (53 - 50))
          (Globals.report { Globals.init with cntCaptured := 1 } ⟨.both, false, true⟩
            ⟨dltEn10mb, text "en0"⟩ ⟨inetNtop taggedDatagram.srcAddr, 7411, 7400, ⟨0, 0⟩⟩ 1) ∧
      (50 + 1 ≤ 53 → taggedDatagram.payload.take (53 - 50) = taggedDatagram.payload) :=
  packetHandler_undoes_encapsulation ⟨.both, false, true⟩ ⟨dltEn10mb, text "en0"⟩
    (.vlan (List.Vector.replicate 12 0x02) (List.Vector.replicate 2 0x00)) taggedDatagram
    [0x00, 0x00] taggedCapture Globals.init rfl (List.prefix_refl _) (by decide +kernel)

end DdsPlayground.Inspector
