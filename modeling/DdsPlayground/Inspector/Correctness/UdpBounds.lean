import DdsPlayground.Inspector.Semantics.Framing

/-!
# Bytes that are no UDP payload

`packet_handler` reads neither the fragment offset nor the total length of the IPv4
header. The middle of a datagram, and the trailer behind an IPv4 packet, are parsed as
messages wherever the length that stands in the place of the UDP length covers them.
-/

namespace DdsPlayground.Inspector

open ByteWire

/-- The fragment offset of an IPv4 packet. -/
def fragmentOffset (packet : Bytes) : UInt16 := u16At false packet 6 &&& 0x1FFF

/-- The total length of an IPv4 packet. -/
def totalLength (packet : Bytes) : Nat := (u16At false packet 2).toNat

/-- The length in the UDP header of an IPv4 packet. -/
def udpLength (packet : Bytes) : Nat := (u16At false packet (ihl packet 0 + 4)).toNat

/-- The bytes and the ports are those of the first fragment of a UDP datagram, and the
bytes lie in its payload by the UDP length and by the total length. -/
structure IsUdpPayload (packet : Bytes) (o : Origin) (b : Bytes) : Prop where
  version : peek packet 0 >>> 4 = 4
  protocol : peek packet 9 = ipprotoUdp
  unfragmented : fragmentOffset packet = 0
  srcPort : o.srcPort = u16At false packet (ihl packet 0)
  dstPort : o.dstPort = u16At false packet (ihl packet 0 + 2)
  placed : b <+: packet.drop (ihl packet 0 + 8)
  inUdp : 8 + b.length ≤ udpLength packet
  inTotal : ihl packet 0 + 8 + b.length ≤ totalLength packet

/-- The frame carries an IPv4 packet, behind a link-layer header of its link type, with
what is handed on as UDP payload. -/
def CarriesPayload (cfg : Config) (ctx : IfaceCtx) (c : Capture) (d : Datagram) : Prop :=
  ∃ (f : Framing) (packet : Bytes), ctx.datalink = f.datalink ∧
    c.pkt = f.header cfg.hostLe ++ packet ∧ IsUdpPayload packet d.origin d.data

/-- What `packet_handler` asks of an IPv4 packet: its version, a header length that is one
and lies in the capture, UDP, and a UDP header with its length in the capture. -/
structure PassesChecks (packet : Bytes) : Prop where
  header : 20 ≤ packet.length
  version : peek packet 0 >>> 4 = 4
  minimal : 20 ≤ ihl packet 0
  captured : ihl packet 0 ≤ packet.length
  protocol : peek packet 9 = ipprotoUdp
  udpHeader : 8 ≤ packet.length - ihl packet 0
  udpLength : 8 ≤ udpLength packet

/-- An IPv4 packet that passes the checks has fragment offset zero, and its total length
covers the UDP length or what is captured of it. -/
def Delimited (cfg : Config) (ctx : IfaceCtx) (c : Capture) : Prop :=
  ∀ (f : Framing) (packet : Bytes), ctx.datalink = f.datalink →
    c.pkt = f.header cfg.hostLe ++ packet → PassesChecks packet →
      fragmentOffset packet = 0 ∧
      ihl packet 0 + min (udpLength packet) (packet.length - ihl packet 0) ≤ totalLength packet

/-- The datagram of a packet that passes the checks. -/
def checkedDatagram (ts : Timeval) (packet : Bytes) : Datagram where
  origin := ⟨inetNtop (window 4 packet 12), u16At false packet (ihl packet 0),
    u16At false packet (ihl packet 0 + 2), ts⟩
  udpPayload := udpLength packet - 8
  data := (packet.drop (ihl packet 0 + 8)).take
    (min (udpLength packet - 8) (packet.length - ihl packet 0 - 8))

theorem datagramAt_eq_some_iff (ts : Timeval) (packet : Bytes) (d : Datagram) :
    datagramAt ts packet 0 = some d ↔ PassesChecks packet ∧ d = checkedDatagram ts packet := by
  simp only [datagramAt, Nat.zero_add, Nat.sub_zero]
  constructor
  · intro h
    split at h
    · next hc =>
      obtain ⟨h1, h2, h3, h4, h5, h6, h7⟩ := hc
      exact ⟨⟨h1, h2, h3, h4, h5, h6, h7⟩, (Option.some.inj h).symm⟩
    · cases h
  · rintro ⟨⟨h1, h2, h3, h4, h5, h6, h7⟩, rfl⟩
    exact if_pos ⟨h1, h2, h3, h4, h5, h6, h7⟩

/-- The datagram of a frame is that of the packet behind its link-layer header. -/
theorem datagram_of_framing {cfg : Config} {ctx : IfaceCtx} {c : Capture} {f : Framing}
    {packet : Bytes} (hlink : ctx.datalink = f.datalink)
    (hpkt : c.pkt = f.header cfg.hostLe ++ packet) :
    datagram cfg ctx c = datagramAt c.ts packet 0 := by
  have hip : ipOffset cfg ctx c.pkt = some (f.header cfg.hostLe).length := by
    rw [hpkt]
    exact ipOffset_header cfg ctx f packet hlink
  rw [datagram, hip, Option.bind_some, datagramAt_drop, hpkt, List.drop_left]

/-- A frame with a datagram has a link-layer header in front of the packet. -/
theorem exists_packet {cfg : Config} {ctx : IfaceCtx} {c : Capture} {d : Datagram}
    (h : datagram cfg ctx c = some d) :
    ∃ (f : Framing) (packet : Bytes), ctx.datalink = f.datalink ∧
      c.pkt = f.header cfg.hostLe ++ packet ∧ datagramAt c.ts packet 0 = some d := by
  obtain ⟨ip, hip, hd⟩ := Option.bind_eq_some_iff.mp h
  obtain ⟨f, hlink, hpkt, -⟩ := exists_framing hip
  exact ⟨f, c.pkt.drop ip, hlink, hpkt, by rw [← datagramAt_drop]; exact hd⟩

/-- A packet that passes the checks hands on UDP payload exactly when it is delimited. -/
theorem isUdpPayload_checkedDatagram_iff {ts : Timeval} {packet : Bytes}
    (h : PassesChecks packet) :
    IsUdpPayload packet (checkedDatagram ts packet).origin (checkedDatagram ts packet).data ↔
      fragmentOffset packet = 0 ∧
      ihl packet 0 + min (udpLength packet) (packet.length - ihl packet 0) ≤
        totalLength packet := by
  have hlen : (checkedDatagram ts packet).data.length =
      min (udpLength packet - 8) (packet.length - ihl packet 0 - 8) := by
    simp only [checkedDatagram, List.length_take, List.length_drop]
    omega
  have hudp := h.udpLength
  have hcap := h.udpHeader
  constructor
  · intro hp
    have htotal := hp.inTotal
    rw [hlen] at htotal
    exact ⟨hp.unfragmented, by omega⟩
  · rintro ⟨hfrag, htotal⟩
    exact ⟨h.version, h.protocol, hfrag, rfl, rfl, List.take_prefix _ _, by rw [hlen]; omega,
      by rw [hlen]; omega⟩

/-- What a frame hands on is UDP payload exactly when the frame is delimited. -/
theorem carriesPayload_iff (cfg : Config) (ctx : IfaceCtx) (c : Capture) :
    (∀ d, datagram cfg ctx c = some d → CarriesPayload cfg ctx c d) ↔ Delimited cfg ctx c := by
  constructor
  · intro h f packet hlink hpkt hchecks
    have hd := (datagramAt_eq_some_iff c.ts packet _).mpr ⟨hchecks, rfl⟩
    rw [← datagram_of_framing hlink hpkt] at hd
    obtain ⟨f', packet', hlink', hpkt', hpayload⟩ := h _ hd
    have hlen : (f.header cfg.hostLe).length = (f'.header cfg.hostLe).length := by
      have hip := ipOffset_header cfg ctx f packet hlink
      rw [← hpkt, hpkt', ipOffset_header cfg ctx f' packet' hlink'] at hip
      exact (Option.some.inj hip).symm
    obtain ⟨-, rfl⟩ := List.append_inj (hpkt.symm.trans hpkt') hlen
    exact (isUdpPayload_checkedDatagram_iff hchecks).mp hpayload
  · intro h d hd
    obtain ⟨f, packet, hlink, hpkt, hat⟩ := exists_packet hd
    obtain ⟨hchecks, rfl⟩ := (datagramAt_eq_some_iff _ _ _).mp hat
    exact ⟨f, packet, hlink, hpkt,
      (isUdpPayload_checkedDatagram_iff hchecks).mpr (h f packet hlink hpkt hchecks)⟩

/-- `packet_handler` calls `handle_rtps` for the datagram of a frame and for nothing else;
and what it hands on is UDP payload, with the ports of its header, if and only if the
packet has fragment offset zero and its total length covers the bytes handed on. -/
theorem udp_payload_only_iff (cfg : Config) (ctx : IfaceCtx) (c : Capture) :
    (∀ g, packetHandler cfg ctx c g = (datagram cfg ctx c).elim (some g) fun d =>
      handleRtps cfg d.origin d.data (Globals.report
        { g with cntCaptured := g.cntCaptured + 1 } cfg ctx d.origin d.udpPayload)) ∧
    ((∀ d, datagram cfg ctx c = some d → CarriesPayload cfg ctx c d) ↔
      Delimited cfg ctx c) := by
  refine ⟨fun g => ?_, carriesPayload_iff cfg ctx c⟩
  rw [packetHandler_eq, Globals.capture]
  cases datagram cfg ctx c with
  | none => rfl
  | some d => rw [Option.elim_some, Option.elim_some, handleRtps_eq]

/-- A publication of topic `X`, in the middle of a datagram. -/
def middleFragment : UdpDatagram where
  tos := 0x00
  ident := List.Vector.replicate 2 0x00
  fragment := ⟨[0x00, 0x01], rfl⟩
  ttl := 0x40
  checksum := List.Vector.replicate 2 0x00
  srcAddr := List.Vector.replicate 4 0x0A
  dstAddr := List.Vector.replicate 4 0x0B
  words := 0
  words_le := by decide
  options := List.Vector.nil
  srcPort := 7411
  dstPort := 7400
  udpChecksum := List.Vector.replicate 2 0x00
  payload := rtpsMagic ++ [0x02, 0x05, 0x01, 0x10] ++ List.replicate 12 0x11 ++
    [0x15, 0x05, 0x00, 0x00, 0x00, 0x00, 0x10, 0x00, 0x00, 0x00, 0x03, 0xC7,
      0x00, 0x00, 0x03, 0xC2, 0x00, 0x00, 0x00, 0x00, 0x01, 0x00, 0x00, 0x00,
      0x00, 0x03, 0x00, 0x00,
      0x05, 0x00, 0x08, 0x00, 0x02, 0x00, 0x00, 0x00, 0x58, 0x00, 0x00, 0x00,
      0x01, 0x00, 0x00, 0x00]
  fits := by decide +kernel

/-- An Ethernet frame with bytes behind its link-layer header. -/
def ethernetFrame (packet : Bytes) : Bytes :=
  (Framing.ethernet (List.Vector.replicate 12 0x02)).header true ++ packet

theorem length_ethernetFrame {packet : Bytes} (h : packet.length < 65536) :
    (ethernetFrame packet).length = (UInt32.ofNat (14 + packet.length)).toNat := by
  rw [UInt32.toNat_ofNat', ethernetFrame, List.length_append, Framing.header, List.length_append,
    List.Vector.toList_length, length_put16]
  omega

/-- The frame is captured whole. -/
def ethernetCapture (packet : Bytes) (h : packet.length < 65536) : Capture where
  ts := ⟨0, 0⟩
  caplen := UInt32.ofNat (14 + packet.length)
  pkt := ethernetFrame packet
  size := length_ethernetFrame h

/-- An empty UDP datagram by its total length, whose UDP length covers a trailer of 20
bytes. -/
def trailerPacket : Bytes :=
  [0x45, 0x00, 0x00, 0x1C, 0x00, 0x00, 0x00, 0x00, 0x40, 0x11, 0x00, 0x00,
    0x0A, 0x0A, 0x0A, 0x0A, 0x0B, 0x0B, 0x0B, 0x0B,
    0x1C, 0xF3, 0x1C, 0xE8, 0x00, 0x1C, 0x00, 0x00] ++
  rtpsMagic ++ [0x02, 0x05, 0x01, 0x10] ++ List.replicate 12 0x11

/-- The middle of a datagram registers an endpoint, and a trailer counts as a message. -/
theorem middle_fragment_registers :
    (packetHandler ⟨.both, false, true⟩ ⟨dltEn10mb, text "en0"⟩
        (ethernetCapture middleFragment.bytes (by decide +kernel)) Globals.init).map
        (fun g => g.endpoints.lookup
          (fmtGuid ⟨List.Vector.replicate 12 0x11, eidSedpPubWriter⟩)) =
      some (some ⟨text "X", [], true⟩) ∧
    (packetHandler ⟨.both, false, true⟩ ⟨dltEn10mb, text "en0"⟩
        (ethernetCapture trailerPacket (by decide)) Globals.init).map (·.cntRtps) = some 1 ∧
    ¬ ∀ cfg ctx c d, datagram cfg ctx c = some d → CarriesPayload cfg ctx c d := by
  refine ⟨by decide +kernel, by decide +kernel, fun h => ?_⟩
  have hdelim := (carriesPayload_iff ⟨.both, false, true⟩ ⟨dltEn10mb, text "en0"⟩
    (ethernetCapture middleFragment.bytes (by decide +kernel))).mp fun d => h _ _ _ d
  have hchecks : PassesChecks middleFragment.bytes :=
    ⟨by decide +kernel, by decide +kernel, by decide +kernel, by decide +kernel,
      by decide +kernel, by decide +kernel, by decide +kernel⟩
  have hfirst := (hdelim (.ethernet (List.Vector.replicate 12 0x02)) middleFragment.bytes rfl rfl
    hchecks).1
  exact absurd hfirst (by decide +kernel)

end DdsPlayground.Inspector
