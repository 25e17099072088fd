import DdsPlayground.Inspector.Native.Rtps
import DdsPlayground.Inspector.Semantics.Listing

/-!
# Submessages as values

A submessage is decoded from the bytes between its header and the end of the
message, with no globals in sight; what it does to the globals is a second,
total function. `handle_rtps` is the walk that applies the second to the
results of the first, in message order.
-/

namespace DdsPlayground.Inspector

open ByteWire BoundedLoop

/-! ## Application payloads -/

/-- The text of a `PingPong::Msg` payload. -/
def pingPongText (pl : Bytes) : Text :=
  if pl.length < 8 then text "(too short)"
  else text "value=" ++ toText (u32At (payloadLe pl) pl 4).toInt32.toInt

/-- The text of a `BazResponse::Msg` payload. -/
def bazResponseText (pl : Bytes) : Text :=
  if pl.length < 8 then text "(too short)"
  else text "text=\"" ++ cdrText (payloadLe pl) (pl.drop 4) ++ text "\""

/-- The text shown for a payload of a topic. -/
def payloadText (topic : Text) (pl : Bytes) : Text :=
  if topic = text "PingPongTopic" ∨ topic = text "PongBazTopic" then pingPongText pl
  else if topic = text "BazPongTopic" then bazResponseText pl
  else (pl.take 24).flatMap hex02 ++ (if pl.length > 24 then text "…" else [])

/-- Reading a range of positions inside a buffer gives its first bytes. -/
theorem mapM_range_getElem? (pl : Bytes) {n : Nat} (h : n ≤ pl.length) :
    ((List.range n).mapM fun i => pl[i]?) = some (pl.take n) := by
  induction n with
  | zero => simp
  | succ n ih =>
    have hlt : n < pl.length := h
    simp [List.range_succ, List.mapM_append, ih (by omega), hlt]

/-- `decode_payload` reads only inside the payload, whatever the topic. -/
theorem decodePayload_eq (topic : Text) (pl : Bytes) :
    decodePayload topic pl = some (payloadText topic pl) := by
  have hle : ¬ pl.length < 8 → pl[1]? = some (peek pl 1) :=
    fun h => getElem?_eq_peek pl 1 (by omega)
  have hping : decodePingPongMsg pl = some (pingPongText pl) := by
    by_cases hlen : pl.length < 8
    · simp [decodePingPongMsg, pingPongText, hlen]
    · have hu (le : Bool) := u32_eq (p := pl) (i := 4) (by omega) le
      simp [decodePingPongMsg, pingPongText, hlen, hle hlen, hu, payloadLe]
  have hbaz : decodeBazResponseMsg pl = some (bazResponseText pl) := by
    by_cases hlen : pl.length < 8
    · simp [decodeBazResponseMsg, bazResponseText, hlen]
    · have hs (le : Bool) : cdrString pl (4 + (pl.length - 4)) 4 le = _ :=
        cdrString_eq (by omega) le
      rw [show 4 + (pl.length - 4) = pl.length by omega, List.take_of_length_le (by simp)] at hs
      simp [decodeBazResponseMsg, bazResponseText, hlen, hle hlen, hs, payloadLe]
  have hhex : ((List.range (min pl.length 24)).mapM fun i => pl[i]?) = some (pl.take 24) := by
    rw [mapM_range_getElem? pl (Nat.min_le_left ..), Nat.min_comm, ← List.take_eq_take_min]
  simp only [decodePayload, payloadText, hping, hbaz, hhex, Option.bind_eq_bind, Option.bind_some]
  split
  · rfl
  · split <;> rfl

/-! ## Inline QoS -/

/-- Cut one inline-QoS parameter off the front; one that is too long takes all. -/
def qosCutter (le : Bool) : Cutter UInt8 Unit where
  cut xs :=
    if 4 ≤ xs.length ∧ u16At le xs 0 ≠ pidSentinel then
      some ((), xs.drop (4 + (u16At le xs 2).toNat))
    else none
  shrinks {xs b rest} h := by
    split at h
    · next hc =>
      obtain ⟨-, rfl⟩ := Prod.mk.inj (Option.some.inj h)
      simp only [List.length_drop]
      omega
    · cases h

/-- What stands behind an inline-QoS list: the sentinel is skipped with the
length it declares, and a tail of less than four bytes is left as it is. -/
def skipQos (le : Bool) (xs : Bytes) : Bytes :=
  let ys := (qosCutter le).remainder xs
  if ys.length < 4 then ys else ys.drop (4 + (u16At le ys 2).toNat)

theorem skipQos_of_short {le : Bool} {xs : Bytes} (h : xs.length < 4) : skipQos le xs = xs := by
  have hc : (qosCutter le).cut xs = none := if_neg (by omega)
  simp only [skipQos, Cutter.remainder_of_none hc, h, if_true]

theorem skipQos_of_sentinel {le : Bool} {xs : Bytes} (h : 4 ≤ xs.length)
    (hs : u16At le xs 0 = pidSentinel) : skipQos le xs = xs.drop (4 + (u16At le xs 2).toNat) := by
  have hc : (qosCutter le).cut xs = none := if_neg (by simp [hs])
  simp only [skipQos, Cutter.remainder_of_none hc, show ¬ xs.length < 4 by omega, if_false]

theorem skipQos_of_param {le : Bool} {xs : Bytes} (h : 4 ≤ xs.length)
    (hs : u16At le xs 0 ≠ pidSentinel) :
    skipQos le xs = skipQos le (xs.drop (4 + (u16At le xs 2).toNat)) := by
  have hc : (qosCutter le).cut xs = some ((), xs.drop (4 + (u16At le xs 2).toNat)) :=
    if_pos ⟨h, hs⟩
  simp only [skipQos, Cutter.remainder_of_some hc]

/-- The inline-QoS loop ends and reads only before `nextOff`. -/
theorem exists_run_qosPass {data : Bytes} {nextOff : Nat} (hn : nextOff ≤ data.length) (le : Bool)
    (q : Nat) :
    ∃ r, run (qosPass data le nextOff) (data.length + 1) q = some r ∧
      (data.take nextOff).drop r = skipQos le ((data.take nextOff).drop q) := by
  refine exists_run_eq (fun _ => True) (fun q => data.length - q)
    (fun q => (data.take nextOff).drop q)
    (fun q => skipQos le ((data.take nextOff).drop q)) ?_ (data.length + 1) q trivial
    (by omega)
  intro q _
  have hlen : ((data.take nextOff).drop q).length = nextOff - q := by
    simp only [List.length_drop, List.length_take]
    omega
  by_cases hq : q + 4 ≤ nextOff
  · have hfield (i : Nat) (hi : i ≤ 2) :
        u16At le ((data.take nextOff).drop q) i = u16At le data (q + i) := by
      rw [u16At_drop, u16At_take (by omega)]
    have hpid := u16_eq (p := data) (i := q) (by omega) le
    have hplen := u16_eq (p := data) (i := q + 2) (by omega) le
    simp only [qosPass, hq, hpid, hplen, not_true_eq_false, if_false, Option.bind_eq_bind,
      Option.bind_some]
    by_cases hs : u16At le data q = pidSentinel
    · refine Or.inl ⟨q + (4 + (u16At le data (q + 2)).toNat), by rw [if_pos hs]; rfl, ?_⟩
      rw [skipQos_of_sentinel (by omega) (by rw [hfield 0 (by omega)]; exact hs),
        hfield 2 le_rfl, List.drop_drop]
    · refine Or.inr ⟨q + (4 + (u16At le data (q + 2)).toNat), by rw [if_neg hs]; rfl, trivial,
        by omega, ?_⟩
      have hskip := skipQos_of_param (show 4 ≤ ((data.take nextOff).drop q).length by omega)
        (show u16At le ((data.take nextOff).drop q) 0 ≠ pidSentinel by
          rw [hfield 0 (by omega)]
          exact hs)
      rw [hskip, hfield 2 le_rfl, List.drop_drop]
  · refine Or.inl ⟨q, by simp only [qosPass, hq, not_false_eq_true, if_true], ?_⟩
    exact (skipQos_of_short (by omega)).symm

/-! ## Decoding a submessage -/

/-- The fields of a DATA submessage that the parser uses. -/
structure DataSub where
  reader : EntityId
  writer : EntityId
  seq : Int64
  hasQos : Bool
  hasData : Bool
  payload : Bytes
  deriving DecidableEq

/-- What a submessage is to the parser. -/
inductive Content where
  /-- A kind that is not decoded, or a HEARTBEAT without its fixed fields. -/
  | other
  /-- A DATA submessage without its fixed fields. -/
  | shortData
  | heartbeat (writer : EntityId)
  | data (d : DataSub)
  deriving DecidableEq

/-- A submessage with the header fields that the diagnostics show. -/
structure Submsg where
  id : UInt8
  flags : UInt8
  len : UInt16
  content : Content
  deriving DecidableEq

/-- The E flag of the submessage at the front. -/
def submsgLe (rest : Bytes) : Bool := peek rest 1 &&& 0x01 != 0

/-- `octetsToNextHeader` of the submessage at the front. -/
def submsgLen (rest : Bytes) : UInt16 := u16At (submsgLe rest) rest 2

/-- The bytes up to where the walk goes on: to the end of the message for a zero
length field, and never beyond it. -/
def extent (rest : Bytes) : Nat :=
  if submsgLen rest = 0 then rest.length else min (4 + (submsgLen rest).toNat) rest.length

theorem extent_le (rest : Bytes) : extent rest ≤ rest.length := by
  unfold extent
  split <;> omega

theorem four_le_extent (rest : Bytes) (h : 4 ≤ rest.length) : 4 ≤ extent rest := by
  unfold extent
  split <;> omega

/-- A DATA submessage: the fixed fields may lie behind its extent, the payload cannot. -/
def decodeData (rest : Bytes) : DataSub :=
  let le := submsgLe rest
  let hasQos := peek rest 1 &&& 0x02 != 0
  let behind := (rest.take (extent rest)).drop (8 + (u16At le rest 6).toNat)
  { reader := window 4 rest 8
    writer := window 4 rest 12
    seq := sequenceNumber (u32At le rest 16) (u32At le rest 20)
    hasQos := hasQos
    hasData := peek rest 1 &&& 0x04 != 0
    payload := if hasQos then skipQos le behind else behind }

/-- What is decoded as DATA depends on its fixed fields and on the bytes up to its extent. -/
theorem decodeData_congr {xs ys : Bytes} (h : ∀ i < 24, peek xs i = peek ys i)
    (hregion : xs.take (extent xs) = ys.take (extent ys)) : decodeData xs = decodeData ys := by
  have hpeek : peek xs 1 = peek ys 1 := h 1 (by omega)
  have hle : submsgLe xs = submsgLe ys := by rw [submsgLe, hpeek, submsgLe]
  have hu16 (le : Bool) : u16At le xs 6 = u16At le ys 6 := u16At_congr fun k _ => h _ (by omega)
  have hhigh (le : Bool) : u32At le xs 16 = u32At le ys 16 :=
    u32At_congr fun k _ => h _ (by omega)
  have hlow (le : Bool) : u32At le xs 20 = u32At le ys 20 :=
    u32At_congr fun k _ => h _ (by omega)
  have hreader : window 4 xs 8 = window 4 ys 8 := window_congr fun k _ => h _ (by omega)
  have hwriter : window 4 xs 12 = window 4 ys 12 := window_congr fun k _ => h _ (by omega)
  simp only [decodeData, hpeek, hle, hu16, hhigh, hlow, hreader, hwriter, hregion]

/-- What the submessage at the front is. -/
def decodeContent (rest : Bytes) : Content :=
  if peek rest 0 = smData then
    if rest.length < 24 then .shortData else .data (decodeData rest)
  else if peek rest 0 = smHeartbeat ∧ 32 ≤ rest.length then .heartbeat (window 4 rest 8)
  else .other

/-- The submessage at the front of the bytes up to the end of the message. -/
def decodeSubmsg (rest : Bytes) : Submsg :=
  ⟨peek rest 0, peek rest 1, submsgLen rest, decodeContent rest⟩

/-! ## Effects -/

theorem eidSedpPubWriter_ne_spdp : eidSedpPubWriter ≠ eidSpdpWriter := by decide

theorem eidSedpSubWriter_ne_spdp : eidSedpSubWriter ≠ eidSpdpWriter := by decide

/-- What the parser does with a DATA submessage. -/
inductive Role where
  | spdp
  | sedp (isPub : Bool)
  | user
  | silent
  deriving DecidableEq

/-- The classification by the writer entity identifier. -/
def DataSub.role (d : DataSub) : Role :=
  if d.writer = eidSpdpWriter then .spdp
  else if (d.writer = eidSedpPubWriter ∨ d.writer = eidSedpSubWriter) ∧
      d.hasData ∧ d.payload ≠ [] then .sedp (d.writer = eidSedpPubWriter)
  else if ¬ d.writer = eidSedpPubWriter ∧ ¬ d.writer = eidSedpSubWriter ∧
      d.hasData ∧ d.payload ≠ [] then .user
  else .silent

/-- An announcement comes from one of the two SEDP writers, whose direction it has. -/
theorem DataSub.of_role_sedp {d : DataSub} {isPub : Bool} (h : d.role = .sedp isPub) :
    (d.writer = eidSedpPubWriter ∨ d.writer = eidSedpSubWriter) ∧
      isPub = decide (d.writer = eidSedpPubWriter) := by
  unfold DataSub.role at h
  split at h
  · cases h
  · split at h
    · next hs => exact ⟨hs.1, (Role.sedp.inj h).symm⟩
    · split at h <;> cases h

/-- User data comes from none of the two SEDP writers. -/
theorem DataSub.of_role_user {d : DataSub} (h : d.role = .user) :
    ¬ (d.writer = eidSedpPubWriter ∨ d.writer = eidSedpSubWriter) := by
  unfold DataSub.role at h
  split at h
  · cases h
  · split at h
    · cases h
    · split at h
      · next hu => exact not_or.mpr ⟨hu.1, hu.2.1⟩
      · cases h

/-- The record of a user-data submessage; `it` is what the registry holds for its writer. -/
def DataSub.userRecord (o : Origin) (p : GuidPrefix) (it : Option EndpointInfo) (d : DataSub) :
    Record :=
  .data o (fmtGuid ⟨p, d.writer⟩) (fmtEntity d.reader)
    (it.elim (text "(unknown – SEDP not yet seen)") (·.topic)) d.seq
    (payloadText (it.elim [] (·.topic)) d.payload)

/-- A DATA submessage acts on the globals. -/
def Globals.visitData (cfg : Config) (o : Origin) (p : GuidPrefix) (g : Globals) (d : DataSub) :
    Globals :=
  let g := g.diag cfg.verbose (.data d.writer d.hasData d.hasQos d.payload.length
    (d.writer = eidSpdpWriter) (d.writer = eidSedpPubWriter) (d.writer = eidSedpSubWriter))
  match d.role with
  | .spdp => g.print (cfg.printMode != .traffic) (.spdp o (fmtPrefix p))
  | .sedp isPub =>
    let g := { g with cntSedp := g.cntSedp + 1 }
    (announcement ⟨p, d.writer⟩ d.payload isPub).elim g fun a => g.register cfg a.1 a.2
  | .user =>
    let g := { g with cntData := g.cntData + 1 }
    g.print (cfg.printMode != .reannounce)
      (d.userRecord o p (g.endpoints.lookup (fmtGuid ⟨p, d.writer⟩)))
  | .silent => g

/-- A HEARTBEAT acts on the globals. -/
def Globals.visitHeartbeat (cfg : Config) (g : Globals) (writer : EntityId) : Globals :=
  g.print ((writer = eidSedpPubWriter ∨ writer = eidSedpSubWriter) && g.endpoints = ∅ &&
    cfg.printMode != .traffic) .missedSedp

/-- A submessage acts on the globals. -/
def Globals.visit (cfg : Config) (o : Origin) (p : GuidPrefix) (g : Globals) (s : Submsg) :
    Globals :=
  let g := g.diag (cfg.verbose && s.id != smData) (.submsg s.id s.flags s.len)
  match s.content with
  | .other => g
  | .shortData => g
  | .heartbeat writer => g.visitHeartbeat cfg writer
  | .data d => g.visitData cfg o p d

/-- The payload offset of a DATA submessage is found, and its payload stands there. -/
theorem exists_skipInlineQos {data : Bytes} {off : Nat} (h : off ≤ data.length) (le : Bool)
    (hasQos : Bool) (oct : Nat) :
    ∃ plOff, skipInlineQos data le hasQos (off + extent (data.drop off)) (off + 4 + 4 + oct) =
        some plOff ∧
      (data.take (off + extent (data.drop off))).drop plOff =
        if hasQos then skipQos le (((data.drop off).take (extent (data.drop off))).drop (8 + oct))
        else ((data.drop off).take (extent (data.drop off))).drop (8 + oct) := by
  have hext := extent_le (data.drop off)
  rw [List.length_drop] at hext
  have hregion : ((data.drop off).take (extent (data.drop off))).drop (8 + oct) =
      (data.take (off + extent (data.drop off))).drop (off + 4 + 4 + oct) := by
    rw [List.take_drop, List.drop_drop]
    congr 1
    omega
  rw [hregion]
  cases hasQos with
  | false => exact ⟨_, rfl, rfl⟩
  | true =>
    by_cases hq : off + 4 + 4 + oct + 4 ≤ off + extent (data.drop off)
    · simp only [skipInlineQos, true_and, hq, if_true]
      exact exists_run_qosPass (by omega) le _
    · simp only [skipInlineQos, true_and, hq, if_false, if_true]
      refine ⟨_, rfl, (skipQos_of_short ?_).symm⟩
      simp only [List.length_drop, List.length_take]
      omega

/-- A DATA submessage whose payload stands at `plOff` acts as its decoded value. -/
theorem classifyData_eq (cfg : Config) (o : Origin) (data : Bytes) (p : GuidPrefix)
    (nextOff plOff : Nat) (hn : nextOff ≤ data.length) (d : DataSub)
    (hpl : (data.take nextOff).drop plOff = d.payload) (g : Globals) :
    classifyData cfg o data p d.reader d.writer d.seq d.hasQos d.hasData plOff
      (if plOff < nextOff then nextOff - plOff else 0) g = some (g.visitData cfg o p d) := by
  have hlen : (if plOff < nextOff then nextOff - plOff else 0) = d.payload.length := by
    rw [← hpl]
    simp only [List.length_drop, List.length_take]
    split <;> omega
  have hslice (hpos : d.payload ≠ []) : slice data plOff d.payload.length = some d.payload := by
    have hlt : plOff < nextOff := by
      by_contra hge
      rw [if_neg hge] at hlen
      exact hpos (List.length_eq_zero_iff.mp hlen.symm)
    rw [← hlen, if_pos hlt, slice_eq (by omega), ← hpl, List.drop_take]
  have hpos : d.payload.length > 0 ↔ d.payload ≠ [] := List.length_pos_iff
  rw [hlen]
  simp only [classifyData, Globals.visitData, DataSub.role, decide_eq_true_eq, hpos]
  split
  · rfl
  · split
    · next hc =>
      rw [hslice hc.2.2]
      exact decodeSedp_eq ..
    · split
      · next hc =>
        rw [hslice hc.2.2.2]
        cases hm : cfg.printMode != .reannounce with
        | false => rfl
        | true => simp [decodePayload_eq, DataSub.userRecord]
      · rfl

/-- The DATA branch acts as its decoded submessage. -/
theorem handleData_eq (cfg : Config) (o : Origin) (data : Bytes) (p : GuidPrefix) {off : Nat}
    (h : off + 24 ≤ data.length) (g : Globals) :
    handleData cfg o data p (peek data (off + 1)) (submsgLe (data.drop off)) (off + 4)
      (off + extent (data.drop off)) g = some (g.visitData cfg o p (decodeData (data.drop off))) := by
  have hext := extent_le (data.drop off)
  rw [List.length_drop] at hext
  obtain ⟨plOff, hskip, hregion⟩ := exists_skipInlineQos (show off ≤ data.length by omega)
    (submsgLe (data.drop off)) (peek data (off + 1) &&& 0x02 != 0)
    (u16At (submsgLe (data.drop off)) data (off + 4 + 2)).toNat
  have hact := classifyData_eq cfg o data p (off + extent (data.drop off)) plOff
    (by omega) (decodeData (data.drop off))
    (by rw [hregion]; simp only [decodeData, u16At_drop, peek_drop]) g
  simp only [handleData, u16_eq (p := data) (i := off + 4 + 2) (by omega),
    fetch_eq 4 data (off + 4 + 4) (by omega),
    fetch_eq 4 data (off + 4 + 8) (by omega),
    u32_eq (p := data) (i := off + 4 + 12) (by omega),
    u32_eq (p := data) (i := off + 4 + 16) (by omega), Option.bind_eq_bind, Option.bind_some,
    hskip]
  simpa only [decodeData, window_drop, u32At_drop, peek_drop] using hact

end DdsPlayground.Inspector
