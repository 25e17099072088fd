import DdsPlayground.Inspector.Semantics.Frame

/-!
# Encapsulation of a UDP payload

The encoder that `packet_handler` undoes: a link-layer header of one of the supported
kinds, an IPv4 header with options, a UDP header, and the payload. The link-layer
headers are exactly those behind which the parser finds an IPv4 packet.
-/

namespace DdsPlayground.Inspector

open ByteWire

/-! ## Link layer -/

/-- A link-layer header in front of an IPv4 packet. -/
inductive Framing where
  /-- Ethernet, with its two hardware addresses. -/
  | ethernet (addresses : List.Vector UInt8 12)
  /-- Ethernet with one 802.1Q tag. -/
  | vlan (addresses : List.Vector UInt8 12) (tag : List.Vector UInt8 2)
  /-- The address family in host byte order. -/
  | null
  /-- The address family in network byte order. -/
  | loop

/-- The link type of a framing. -/
def Framing.datalink : Framing → Int
  | .ethernet _ => dltEn10mb
  | .vlan _ _ => dltEn10mb
  | .null => dltNull
  | .loop => dltLoop

/-- The bytes of a link-layer header. -/
def Framing.header (hostLe : Bool) : Framing → Bytes
  | .ethernet addresses => addresses.toList ++ put16 false 0x0800
  | .vlan addresses tag =>
    addresses.toList ++ (put16 false 0x8100 ++ (tag.toList ++ put16 false 0x0800))
  | .null => put32 hostLe afInet
  | .loop => put32 false afInet

/-- The parser finds the IPv4 packet behind each link-layer header. -/
theorem ipOffset_header (cfg : Config) (ctx : IfaceCtx) (f : Framing) (rest : Bytes)
    (h : ctx.datalink = f.datalink) :
    ipOffset cfg ctx (f.header cfg.hostLe ++ rest) = some (f.header cfg.hostLe).length := by
  cases f with
  | ethernet addresses =>
    have htype : u16At false (Framing.header cfg.hostLe (.ethernet addresses) ++ rest) 12 =
        0x0800 := by
      rw [Framing.header, List.append_assoc]
      exact u16At_of_drop (List.drop_left' addresses.toList_length)
    have hlen : (Framing.header cfg.hostLe (.ethernet addresses)).length = 14 := by
      simp [Framing.header]
    rw [ipOffset, if_pos (show ctx.datalink = dltEn10mb from h), htype, hlen,
      if_neg (by rw [List.length_append]; omega), if_neg fun hc => absurd hc.1 (by decide),
      if_pos rfl]
  | vlan addresses tag =>
    have h12 : (Framing.header cfg.hostLe (.vlan addresses tag) ++ rest).drop 12 =
        put16 false 0x8100 ++ (tag.toList ++ (put16 false 0x0800 ++ rest)) := by
      simp only [Framing.header, List.append_assoc]
      exact List.drop_left' addresses.toList_length
    have h14 := drop_behind h12 (length_put16 _ _)
    have h16 := drop_behind h14 tag.toList_length
    have hlen : (Framing.header cfg.hostLe (.vlan addresses tag)).length = 18 := by
      simp [Framing.header]
    rw [ipOffset, if_pos (show ctx.datalink = dltEn10mb from h), u16At_of_drop h12,
      u16At_of_drop h16, hlen, if_neg (by rw [List.length_append]; omega),
      if_pos ⟨rfl, by rw [List.length_append]; omega⟩, if_pos rfl]
  | null =>
    have hlink : ctx.datalink = dltNull := h
    have hlen : (Framing.header cfg.hostLe .null).length = 4 := length_put32 _ _
    rw [ipOffset, if_neg (by rw [hlink]; decide), if_pos hlink, hlen,
      if_neg (by rw [List.length_append]; omega)]
    exact if_pos (u32At_put32_append cfg.hostLe afInet rest)
  | loop =>
    have hlink : ctx.datalink = dltLoop := h
    have hlen : (Framing.header cfg.hostLe .loop).length = 4 := length_put32 _ _
    rw [ipOffset, if_neg (by rw [hlink]; decide), if_neg (by rw [hlink]; decide), if_pos hlink,
      hlen, if_neg (by rw [List.length_append]; omega)]
    exact if_pos (u32At_put32_append false afInet rest)

/-- The parser finds an IPv4 packet behind nothing but a link-layer header. -/
theorem exists_framing {cfg : Config} {ctx : IfaceCtx} {pkt : Bytes} {ip : Nat}
    (h : ipOffset cfg ctx pkt = some ip) :
    ∃ f : Framing, ctx.datalink = f.datalink ∧ pkt = f.header cfg.hostLe ++ pkt.drop ip ∧
      (f.header cfg.hostLe).length = ip := by
  have haddr : 12 ≤ pkt.length → pkt = (window 12 pkt 0).toList ++ pkt.drop 12 := fun h12 =>
    drop_eq_window 12 pkt 0 (by omega)
  unfold ipOffset at h
  split at h
  · next hlink =>
    split at h
    · cases h
    · next h14 =>
      have h12 := drop_eq_put16 false pkt 12 (by omega)
      split at h
      · next hv =>
        split at h
        · next htype =>
          obtain rfl := Option.some.inj h
          have h16 := drop_eq_put16 false pkt 16 (by omega)
          have htag := drop_eq_window 2 pkt 14 (by omega)
          rw [hv.1] at h12
          rw [htype] at h16
          refine ⟨.vlan (window 12 pkt 0) (window 2 pkt 14), hlink, ?_, by simp [Framing.header]⟩
          simp only [Framing.header, List.append_assoc]
          rw [← h16, ← htag, ← h12]
          exact haddr (by omega)
        · cases h
      · next hv =>
        split at h
        · next htype =>
          obtain rfl := Option.some.inj h
          rw [htype] at h12
          refine ⟨.ethernet (window 12 pkt 0), hlink, ?_, by simp [Framing.header]⟩
          rw [Framing.header, List.append_assoc, ← h12]
          exact haddr (by omega)
        · cases h
  · split at h
    · next hlink =>
      split at h
      · cases h
      · next h4 =>
        split at h
        · next hfam =>
          obtain rfl := Option.some.inj h
          have h0 := drop_eq_put32 cfg.hostLe pkt 0 (by omega)
          rw [hfam] at h0
          exact ⟨.null, hlink, h0, length_put32 _ _⟩
        · cases h
    · split at h
      · next hlink =>
        split at h
        · cases h
        · next h4 =>
          split at h
          · next hfam =>
            obtain rfl := Option.some.inj h
            have h0 := drop_eq_put32 false pkt 0 (by omega)
            rw [hfam] at h0
            exact ⟨.loop, hlink, h0, length_put32 _ _⟩
          · cases h
      · cases h

/-! ## IPv4 and UDP -/

/-- A UDP datagram in an IPv4 packet whose length fits its field. -/
structure UdpDatagram where
  tos : UInt8
  ident : List.Vector UInt8 2
  /-- The flags and the fragment offset. -/
  fragment : List.Vector UInt8 2
  ttl : UInt8
  checksum : List.Vector UInt8 2
  srcAddr : List.Vector UInt8 4
  dstAddr : List.Vector UInt8 4
  /-- The four-byte words of options. -/
  words : Nat
  words_le : words ≤ 10
  options : List.Vector UInt8 (4 * words)
  srcPort : UInt16
  dstPort : UInt16
  udpChecksum : List.Vector UInt8 2
  payload : Bytes
  fits : 20 + 4 * words + 8 + payload.length ≤ 65535

/-- The IPv4 header. -/
def UdpDatagram.ipHeader (d : UdpDatagram) : Bytes :=
  (0x45 + UInt8.ofNat d.words) :: d.tos ::
    (put16 false (UInt16.ofNat (20 + 4 * d.words + 8 + d.payload.length)) ++
      (d.ident.toList ++ (d.fragment.toList ++ (d.ttl :: ipprotoUdp ::
        (d.checksum.toList ++ (d.srcAddr.toList ++ (d.dstAddr.toList ++ d.options.toList)))))))

/-- The UDP header. -/
def UdpDatagram.udpHeader (d : UdpDatagram) : Bytes :=
  put16 false d.srcPort ++ (put16 false d.dstPort ++
    (put16 false (UInt16.ofNat (8 + d.payload.length)) ++ d.udpChecksum.toList))

/-- The IPv4 packet. -/
def UdpDatagram.bytes (d : UdpDatagram) : Bytes := d.ipHeader ++ (d.udpHeader ++ d.payload)

@[simp] theorem UdpDatagram.length_ipHeader (d : UdpDatagram) :
    d.ipHeader.length = 20 + 4 * d.words := by
  simp [UdpDatagram.ipHeader]
  omega

@[simp] theorem UdpDatagram.length_udpHeader (d : UdpDatagram) : d.udpHeader.length = 8 := by
  simp [UdpDatagram.udpHeader]

/-- The version and the header length that the first byte of the header says. -/
theorem first_octet {words : Nat} (h : words ≤ 10) :
    (0x45 + UInt8.ofNat words) >>> 4 = 4 ∧
      ((0x45 + UInt8.ofNat words) &&& 0x0F).toNat * 4 = 20 + 4 * words := by
  revert words
  decide

/-- The datagram of an IPv4 packet is read from the packet alone. -/
theorem datagramAt_drop (ts : Timeval) (pkt : Bytes) (ip : Nat) :
    datagramAt ts pkt ip = datagramAt ts (pkt.drop ip) 0 := by
  simp only [datagramAt, ihl, peek_drop, window_drop, u16At_drop, List.drop_drop,
    List.length_drop, Nat.zero_add, Nat.add_zero, Nat.sub_zero, Nat.add_assoc]

/-- Behind the two headers the parser finds as many bytes as there are of the payload. -/
theorem datagramAt_bytes (ts : Timeval) (d : UdpDatagram) (behind : Bytes) :
    datagramAt ts (d.ipHeader ++ (d.udpHeader ++ behind)) 0 =
      some ⟨⟨inetNtop d.srcAddr, d.srcPort, d.dstPort, ts⟩, d.payload.length,
        behind.take d.payload.length⟩ := by
  have hfits := d.fits
  obtain ⟨hversion, hwords⟩ := first_octet d.words_le
  have hbytes : d.ipHeader ++ (d.udpHeader ++ behind) = (0x45 + UInt8.ofNat d.words) :: d.tos ::
      (put16 false (UInt16.ofNat (20 + 4 * d.words + 8 + d.payload.length)) ++
        (d.ident.toList ++ (d.fragment.toList ++ ([d.ttl, ipprotoUdp] ++ (d.checksum.toList ++
          (d.srcAddr.toList ++ (d.dstAddr.toList ++ (d.options.toList ++
            (d.udpHeader ++ behind))))))))) := by
    simp only [UdpDatagram.ipHeader, List.cons_append, List.nil_append, List.append_assoc]
  have hlen : (d.ipHeader ++ (d.udpHeader ++ behind)).length =
      20 + 4 * d.words + 8 + behind.length := by
    simp only [List.length_append, UdpDatagram.length_ipHeader, UdpDatagram.length_udpHeader]
    omega
  obtain ⟨xs, hxs⟩ : ∃ xs, xs = d.ipHeader ++ (d.udpHeader ++ behind) := ⟨_, rfl⟩
  rw [← hxs] at hbytes hlen ⊢
  have h0 : peek xs 0 = 0x45 + UInt8.ofNat d.words := by rw [hbytes, peek_cons_zero]
  have h2 := congrArg (List.drop 2) hbytes
  simp only [List.drop_succ_cons, List.drop_zero] at h2
  have h4 := drop_behind h2 (length_put16 _ _)
  have h6 := drop_behind h4 d.ident.toList_length
  have h8 := drop_behind h6 d.fragment.toList_length
  have h9 : peek xs 9 = ipprotoUdp := by
    rw [← peek_drop xs 8 1, h8]
    rfl
  have h10 : xs.drop 10 = _ := drop_behind h8 rfl
  have h12 := drop_behind h10 d.checksum.toList_length
  have h16 := drop_behind h12 d.srcAddr.toList_length
  have h20 := drop_behind h16 d.dstAddr.toList_length
  have hudp := drop_behind h20 d.options.toList_length
  rw [show 10 + 2 + 4 + 4 + 4 * d.words = 20 + 4 * d.words by omega] at hudp
  simp only [UdpDatagram.udpHeader, List.append_assoc] at hudp
  have hudp2 := drop_behind hudp (length_put16 _ _)
  have hudp4 := drop_behind hudp2 (length_put16 _ _)
  have hudp6 := drop_behind hudp4 (length_put16 _ _)
  have hbehind := drop_behind hudp6 d.udpChecksum.toList_length
  rw [show 20 + 4 * d.words + 2 + 2 + 2 + 2 = 20 + 4 * d.words + 8 by omega] at hbehind
  have hcount : (UInt16.ofNat (8 + d.payload.length)).toNat = 8 + d.payload.length := by
    rw [UInt16.toNat_ofNat']
    omega
  simp only [datagramAt, ihl, Nat.zero_add, Nat.sub_zero, h0, hversion, hwords, h9, hlen,
    window_of_drop h12, u16At_of_drop hudp, u16At_of_drop hudp2, u16At_of_drop hudp4, hcount,
    hbehind]
  rw [if_pos ⟨by omega, trivial, by omega, by omega, trivial, by omega, by omega⟩,
    Nat.add_sub_cancel_left, show 20 + 4 * d.words + 8 + behind.length - (20 + 4 * d.words) - 8 =
      behind.length by omega, ← List.take_eq_take_min]

end DdsPlayground.Inspector
