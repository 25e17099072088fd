import DdsPlayground.Inspector.Semantics.Message

/-!
# The datagram in a captured frame

Which bytes of a frame are the UDP payload, and with which addressing, is a
function of the frame alone. `packet_handler` counts and reports the frame that
has one and receives the message in it; any other frame leaves the globals
unchanged.
-/

namespace DdsPlayground.Inspector

open ByteWire

/-- What a captured frame hands to `handle_rtps`. -/
structure Datagram where
  origin : Origin
  /-- The payload length that the UDP header declares. -/
  udpPayload : Nat
  data : Bytes
  deriving DecidableEq

/-- The offset of the IPv4 header behind the link-layer header. -/
def ipOffset (cfg : Config) (ctx : IfaceCtx) (pkt : Bytes) : Option Nat :=
  if ctx.datalink = dltEn10mb then
    if pkt.length < 14 then none
    else if u16At false pkt 12 = 0x8100 ∧ 18 ≤ pkt.length then
      if u16At false pkt 16 = 0x0800 then some 18 else none
    else if u16At false pkt 12 = 0x0800 then some 14 else none
  else if ctx.datalink = dltNull then
    if pkt.length < 4 then none else if u32At cfg.hostLe pkt 0 = afInet then some 4 else none
  else if ctx.datalink = dltLoop then
    if pkt.length < 4 then none else if u32At false pkt 0 = afInet then some 4 else none
  else none

/-- The header length that an IPv4 header declares. -/
def ihl (pkt : Bytes) (ip : Nat) : Nat := (peek pkt ip &&& 0x0F).toNat * 4

/-- The datagram of an IPv4 packet that starts at `ip`. -/
def datagramAt (ts : Timeval) (pkt : Bytes) (ip : Nat) : Option Datagram :=
  let udp := ip + ihl pkt ip
  if 20 ≤ pkt.length - ip ∧ peek pkt ip >>> 4 = 4 ∧ 20 ≤ ihl pkt ip ∧
      ihl pkt ip ≤ pkt.length - ip ∧ peek pkt (ip + 9) = ipprotoUdp ∧
      8 ≤ pkt.length - ip - ihl pkt ip ∧ 8 ≤ (u16At false pkt (udp + 4)).toNat then
    some
      { origin := ⟨inetNtop (window 4 pkt (ip + 12)), u16At false pkt udp,
          u16At false pkt (udp + 2), ts⟩
        udpPayload := (u16At false pkt (udp + 4)).toNat - 8
        data := (pkt.drop (udp + 8)).take
          (min ((u16At false pkt (udp + 4)).toNat - 8) (pkt.length - ip - ihl pkt ip - 8)) }
  else none

/-- The datagram of a captured frame. -/
def datagram (cfg : Config) (ctx : IfaceCtx) (c : Capture) : Option Datagram :=
  (ipOffset cfg ctx c.pkt).bind (datagramAt c.ts c.pkt)

/-- A captured frame acts on the globals. -/
def Globals.capture (cfg : Config) (ctx : IfaceCtx) (c : Capture) (g : Globals) : Globals :=
  (datagram cfg ctx c).elim g fun d =>
    (Globals.report { g with cntCaptured := g.cntCaptured + 1 } cfg ctx d.origin
      d.udpPayload).receive cfg d.origin d.data

theorem u16Be_eq {p : Bytes} {i : Nat} (h : i + 2 ≤ p.length) :
    u16Be p i = some (u16At false p i) := u16_eq h false

theorem u32Be_eq {p : Bytes} {i : Nat} (h : i + 4 ≤ p.length) :
    u32Be p i = some (u32At false p i) := u32_eq h false

/-- The link-layer part reads only inside the frame. -/
theorem stripLink_eq (cfg : Config) (ctx : IfaceCtx) (pkt : Bytes) :
    stripLink cfg ctx pkt pkt.length =
      some ((ipOffset cfg ctx pkt).map fun ip => (ip, pkt.length - ip)) := by
  unfold stripLink ipOffset
  split
  · by_cases h14 : pkt.length < 14
    · simp only [h14, if_true, Option.map_none]
    · simp only [h14, if_false, u16Be_eq (p := pkt) (i := 12) (by omega), Option.bind_eq_bind,
        Option.bind_some, ge_iff_le]
      by_cases hv : u16At false pkt 12 = 0x8100 ∧ 18 ≤ pkt.length
      · simp only [if_pos hv, u16Be_eq (p := pkt) (i := 16) (by omega), Option.bind_some]
        split <;> simp_all
      · simp only [if_neg hv]
        split <;> simp_all
  · split
    · by_cases h4 : pkt.length < 4
      · simp only [h4, if_true, Option.map_none]
      · simp only [h4, if_false, u32_eq (p := pkt) (i := 0) (by omega), Option.bind_eq_bind,
          Option.bind_some]
        split <;> simp_all
    · split
      · by_cases h4 : pkt.length < 4
        · simp only [h4, if_true, Option.map_none]
        · simp only [h4, if_false, u32Be_eq (p := pkt) (i := 0) (by omega), Option.bind_eq_bind,
            Option.bind_some]
          split <;> simp_all
      · rfl

/-- The IPv4 and UDP part reads only inside the frame and hands on its datagram. -/
theorem handleIp_eq (cfg : Config) (ctx : IfaceCtx) (ts : Timeval) (pkt : Bytes) (ip : Nat)
    (g : Globals) :
    handleIp cfg ctx ts pkt ip (pkt.length - ip) g =
      some ((datagramAt ts pkt ip).elim g fun d =>
        (Globals.report { g with cntCaptured := g.cntCaptured + 1 } cfg ctx d.origin
          d.udpPayload).receive cfg d.origin d.data) := by
  by_cases h20 : 20 ≤ pkt.length - ip
  swap
  · simp only [handleIp, datagramAt, h20, false_and, if_false, Option.elim_none,
      if_pos (show pkt.length - ip < 20 by omega)]
  have hb0 := getElem?_eq_peek pkt ip (by omega)
  have hb9 := getElem?_eq_peek pkt (ip + 9) (by omega)
  have hsrc := fetch_eq 4 pkt (ip + 12) (by omega)
  simp only [handleIp, datagramAt, ihl, show ¬ pkt.length - ip < 20 by omega, if_false, hb0, hb9,
    hsrc, h20, true_and, Option.bind_eq_bind, Option.bind_some, ne_eq]
  by_cases hv : peek pkt ip >>> 4 = 4
  swap
  · simp only [hv, not_false_eq_true, if_true, false_and, if_false, Option.elim_none]
    rfl
  simp only [hv, not_true_eq_false, if_false, true_and]
  by_cases hihl : 20 ≤ (peek pkt ip &&& 0x0F).toNat * 4 ∧
      (peek pkt ip &&& 0x0F).toNat * 4 ≤ pkt.length - ip
  swap
  · rw [if_pos (by omega), if_neg fun hc => hihl ⟨hc.1, hc.2.1⟩]
    rfl
  rw [if_neg (by omega)]
  simp only [hihl, true_and]
  by_cases hp : peek pkt (ip + 9) = ipprotoUdp
  swap
  · simp only [hp, not_false_eq_true, if_true, false_and, if_false, Option.elim_none]
    rfl
  simp only [hp, not_true_eq_false, if_false, true_and]
  by_cases h8 : 8 ≤ pkt.length - ip - (peek pkt ip &&& 0x0F).toNat * 4
  swap
  · simp only [h8, false_and, if_false, Option.elim_none,
      if_pos (show pkt.length - ip - (peek pkt ip &&& 0x0F).toNat * 4 < 8 by omega)]
    rfl
  have hsp := u16Be_eq (p := pkt) (i := ip + (peek pkt ip &&& 0x0F).toNat * 4) (by omega)
  have hdp := u16Be_eq (p := pkt) (i := ip + (peek pkt ip &&& 0x0F).toNat * 4 + 2) (by omega)
  have hul := u16Be_eq (p := pkt) (i := ip + (peek pkt ip &&& 0x0F).toNat * 4 + 4) (by omega)
  simp only [show ¬ pkt.length - ip - (peek pkt ip &&& 0x0F).toNat * 4 < 8 by omega, if_false,
    hsp, hdp, hul, h8, true_and, Option.bind_some]
  have hlt : u16At false pkt (ip + (peek pkt ip &&& 0x0F).toNat * 4 + 4) < 8 ↔
      ¬ 8 ≤ (u16At false pkt (ip + (peek pkt ip &&& 0x0F).toNat * 4 + 4)).toNat := by
    rw [UInt16.lt_iff_toNat_lt, not_le]
    rfl
  by_cases hlen : 8 ≤ (u16At false pkt (ip + (peek pkt ip &&& 0x0F).toNat * 4 + 4)).toNat
  · rw [if_neg (by rw [hlt]; exact not_not_intro hlen), if_pos hlen, slice_eq (by omega)]
    exact handleRtps_eq ..
  · rw [if_pos (hlt.mpr hlen), if_neg hlen]
    rfl

/-- `packet_handler` reads only inside the frame, ends, and acts as the frame does. -/
theorem packetHandler_eq (cfg : Config) (ctx : IfaceCtx) (c : Capture) (g : Globals) :
    packetHandler cfg ctx c g = some (g.capture cfg ctx c) := by
  simp only [packetHandler, ← c.size, stripLink_eq, Option.bind_eq_bind, Option.bind_some,
    Globals.capture, datagram]
  cases ipOffset cfg ctx c.pkt with
  | none => rfl
  | some ip => exact handleIp_eq ..

/-- A run over captured frames is the fold of their effects. -/
theorem capture_eq (cfg : Config) (run : List (IfaceCtx × Capture)) (g : Globals) :
    capture cfg run g = some (run.foldl (fun g f => g.capture cfg f.1 f.2) g) := by
  induction run generalizing g with
  | nil => rfl
  | cons f run ih =>
    rw [capture, List.foldlM_cons, packetHandler_eq]
    exact ih _

end DdsPlayground.Inspector
