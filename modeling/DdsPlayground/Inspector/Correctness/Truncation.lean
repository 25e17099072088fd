import DdsPlayground.Inspector.Correctness.Registry
import DdsPlayground.Inspector.Semantics.Prefix

/-!
# Announcements that are cut off

The parameter loop of `decode_sedp` leaves at a parameter that is not complete and
registers what it has by then. A message that is cut off in an announcement can
therefore register an endpoint that the announcement does not name: the writer that
sent it in place of the endpoint GUID behind the cut, or an empty type name.
-/

namespace DdsPlayground.Inspector

open ByteWire LastWrite

/-! ## Lost parameters -/

/-- No parameter behind the cut changes what the ones before it announce: the last topic
name, type name and endpoint GUID among them, if there is one, is the one in force. -/
structure Repeats (le : Bool) (sender : Guid) (l : Listing) (lost : List Param) : Prop where
  topic : ∀ t, lastParam (textParam le pidTopicName) lost = some t → t = l.topic
  typeName : ∀ t, lastParam (textParam le pidTypeName) lost = some t → t = l.typeName
  guid : ∀ u, lastParam guidParam lost = some u → u = l.guid.getD sender

theorem repeats_iff (le : Bool) (sender : Guid) (l : Listing) (lost : List Param) :
    Repeats le sender l lost ↔ (lost.foldl (Listing.add le) l).topic = l.topic ∧
      (lost.foldl (Listing.add le) l).typeName = l.typeName ∧
      (lost.foldl (Listing.add le) l).guid.getD sender = l.guid.getD sender := by
  rw [foldl_add_eq]
  dsimp only
  constructor
  · rintro ⟨ht, hn, hg⟩
    refine ⟨?_, ?_, ?_⟩
    · cases hl : lastParam (textParam le pidTopicName) lost with
      | none => rfl
      | some t => exact ht t hl
    · cases hl : lastParam (textParam le pidTypeName) lost with
      | none => rfl
      | some t => exact hn t hl
    · cases hl : lastParam guidParam lost with
      | none => rw [Option.none_or]
      | some u => exact hg u hl
  · rintro ⟨ht, hn, hg⟩
    refine ⟨fun t hl => ?_, fun t hl => ?_, fun u hl => ?_⟩
    · rw [hl] at ht
      exact ht
    · rw [hl] at hn
      exact hn
    · rw [hl] at hg
      exact hg

/-! ## One announcement -/

/-- The whole announcement registers the same exactly when the lost parameters repeat
what the kept ones say. -/
theorem announcement_eq_some_iff (sender : Guid) {payload kept : Bytes} (hp : kept <+: payload)
    (hlen : 4 ≤ kept.length) (isPub : Bool)
    (ht : (collected (payloadLe kept) (sedpParams kept)).topic ≠ []) :
    announcement sender payload isPub =
        some ((collected (payloadLe kept) (sedpParams kept)).guid.getD sender,
          ⟨(collected (payloadLe kept) (sedpParams kept)).topic,
            (collected (payloadLe kept) (sedpParams kept)).typeName, isPub⟩) ↔
      Repeats (payloadLe kept) sender (collected (payloadLe kept) (sedpParams kept))
        ((sedpParams payload).drop (sedpParams kept).length) := by
  have hlong := hp.length_le
  obtain ⟨hle, lost, hlost⟩ := sedpParams_prefix hp hlen
  have hcollected : collected (payloadLe kept) (sedpParams payload) =
      lost.foldl (Listing.add (payloadLe kept)) (collected (payloadLe kept) (sedpParams kept)) := by
    rw [← hlost, collected, List.foldl_append, collected]
  rw [announcement_eq sender (by omega), ← hle, hcollected, ← hlost, List.drop_left, repeats_iff]
  split
  · next hnil =>
    refine ⟨fun h => (by cases h), fun h => absurd (h.1.symm.trans hnil) ht⟩
  · rw [Option.some.injEq, Prod.mk.injEq, EndpointInfo.mk.injEq]
    tauto

/-- A role depends on the writer, the D flag, and whether there is a payload. -/
theorem DataSub.role_congr {d d' : DataSub} (hw : d.writer = d'.writer)
    (hd : d.hasData = d'.hasData) (hp : d.payload ≠ [] ↔ d'.payload ≠ []) : d.role = d'.role := by
  simp only [DataSub.role, hw, hd, hp]

/-- A submessage with an announcement in it registers the announcement. -/
theorem registration_of_sedp {o : Origin} {p : GuidPrefix} {rest : Bytes} {d : DataSub}
    {isPub : Bool} (hc : decodeContent rest = .data d) (hr : d.role = .sedp isPub) :
    Visit.registration ⟨o, p, decodeSubmsg rest⟩ =
      announcement ⟨p, d.writer⟩ d.payload isPub := by
  simp only [Visit.registration, decodeSubmsg, hc, hr]

/-- A submessage that the cut leaves whole registers the same. -/
theorem registration_take_of_le {o : Origin} {p : GuidPrefix} {rest : Bytes} {j : Nat}
    (hj : 4 ≤ j) (hext : extent rest ≤ j) {a : Guid × EndpointInfo}
    (h : Visit.registration ⟨o, p, decodeSubmsg (rest.take j)⟩ = some a) :
    Visit.registration ⟨o, p, decodeSubmsg rest⟩ = some a := by
  obtain ⟨d, isPub, hd, hr, ha⟩ := Visit.registration_eq_some h
  obtain ⟨h24, rfl, hc⟩ := decodeContent_take hj hd
  rw [decodeData_take_of_le h24 hext] at hr ha
  rw [registration_of_sedp hc hr]
  exact ha

/-- A submessage that the cut goes through registers what its first parameters announce;
the whole of it registers the same exactly when the other parameters repeat that. -/
theorem registration_take_of_lt {o : Origin} {p : GuidPrefix} {rest : Bytes} {j : Nat}
    (hj : 4 ≤ j) {d : DataSub} (hd : decodeContent (rest.take j) = .data d) {isPub : Bool}
    (hr : d.role = .sedp isPub) (hlen : 4 ≤ d.payload.length)
    (ht : (collected (payloadLe d.payload) (sedpParams d.payload)).topic ≠ []) :
    Visit.registration ⟨o, p, decodeSubmsg rest⟩ =
        some ((collected (payloadLe d.payload) (sedpParams d.payload)).guid.getD ⟨p, d.writer⟩,
          ⟨(collected (payloadLe d.payload) (sedpParams d.payload)).topic,
            (collected (payloadLe d.payload) (sedpParams d.payload)).typeName, isPub⟩) ↔
      Repeats (payloadLe d.payload) ⟨p, d.writer⟩
        (collected (payloadLe d.payload) (sedpParams d.payload))
        ((sedpParams (decodeData rest).payload).drop (sedpParams d.payload).length) := by
  obtain ⟨h24, rfl, hc⟩ := decodeContent_take hj hd
  obtain ⟨hw, hdata, hpay⟩ := decodeData_take rest h24
  rcases hpay with hshort | hprefix
  · omega
  · have hlong := hprefix.length_le
    have hrole : (decodeData rest).role = .sedp isPub := by
      rw [← hr]
      refine (DataSub.role_congr hw hdata ?_).symm
      rw [ne_eq, ne_eq, ← List.length_eq_zero_iff, ← List.length_eq_zero_iff]
      omega
    rw [registration_of_sedp hc hrole, ← hw]
    exact announcement_eq_some_iff _ hprefix hlen isPub ht

/-! ## Messages -/

/-- The cut after `k` bytes does no harm: where it goes through an SEDP announcement that
has named its topic, the parameters behind the cut repeat what the ones before it say, or
another submessage of the message announces the same. -/
def CutHarmless (o : Origin) (m : Bytes) (k : Nat) : Prop :=
  ∀ rest ∈ submsgRests m, isRtps m = true → k < startOf m rest + extent rest →
    ∀ d, decodeContent (rest.take (k - startOf m rest)) = .data d →
    ∀ isPub, d.role = .sedp isPub → 4 ≤ d.payload.length →
    let l := collected (payloadLe d.payload) (sedpParams d.payload)
    l.topic ≠ [] →
      Repeats (payloadLe d.payload) ⟨headerPrefix m, d.writer⟩ l
        ((sedpParams (decodeData rest).payload).drop (sedpParams d.payload).length) ∨
      ∃ other ∈ submsgRests m, other ≠ rest ∧
        Visit.registration ⟨o, headerPrefix m, decodeSubmsg other⟩ =
          some (l.guid.getD ⟨headerPrefix m, d.writer⟩, ⟨l.topic, l.typeName, isPub⟩)

/-- A DATA with its fields has the bytes for them. -/
theorem length_of_decodeContent {xs : Bytes} {d : DataSub} (h : decodeContent xs = .data d) :
    24 ≤ xs.length := by
  unfold decodeContent at h
  split at h
  · split at h
    · cases h
    · omega
  · split at h <;> cases h

/-- No submessage starts in the header. -/
theorem le_startOf {m rest : Bytes} (hm : isRtps m = true) (h : rest ∈ submsgRests m) :
    20 ≤ startOf m rest := by
  have hlen := length_of_isRtps hm
  have hle := (length_of_mem_items h).2
  rw [List.length_drop] at hle
  rw [startOf]
  omega

theorem isRtps_take {m : Bytes} {k : Nat} (h : 20 ≤ k) : isRtps (m.take k) = isRtps m := by
  simp only [isRtps, List.length_take, List.take_take, Nat.min_eq_left (show 4 ≤ k by omega),
    show 20 ≤ min k m.length ↔ 20 ≤ m.length by omega]

/-- The registrations of a message are those of its submessages. -/
theorem mem_registrations_message {o : Origin} {m : Bytes} {a : Guid × EndpointInfo} :
    a ∈ registrations (messageVisits (o, m)) ↔ isRtps m = true ∧ ∃ rest ∈ submsgRests m,
      Visit.registration ⟨o, headerPrefix m, decodeSubmsg rest⟩ = some a := by
  cases h : isRtps m with
  | false => simp [messageVisits, registrations, h]
  | true => simp [messageVisits, registrations, submsgs, h]

/-- The registrations of a message that is cut off are those of the bytes that are left
of its submessages. -/
theorem mem_registrations_take {o : Origin} {m : Bytes} {k : Nat} {a : Guid × EndpointInfo} :
    a ∈ registrations (messageVisits (o, m.take k)) ↔ isRtps m = true ∧
      ∃ rest ∈ submsgRests m, 4 ≤ k - startOf m rest ∧
        Visit.registration ⟨o, headerPrefix m, decodeSubmsg (rest.take (k - startOf m rest))⟩ =
          some a := by
  by_cases hk : 20 ≤ k
  · have hp : headerPrefix (m.take k) = headerPrefix m := window_take (by omega)
    rw [mem_registrations_message, isRtps_take hk, hp]
    refine and_congr_right fun hm => ?_
    rw [submsgRests_take hk (length_of_isRtps hm)]
    constructor
    · rintro ⟨_, hmem, hreg⟩
      obtain ⟨rest, hrest, rfl⟩ := List.mem_map.mp hmem
      obtain ⟨hrest, hstart⟩ := List.mem_filter.mp hrest
      rw [decide_eq_true_eq] at hstart
      exact ⟨rest, hrest, by omega, hreg⟩
    · rintro ⟨rest, hrest, hj, hreg⟩
      refine ⟨_, List.mem_map.mpr ⟨rest, List.mem_filter.mpr ⟨hrest, ?_⟩, rfl⟩, hreg⟩
      rw [decide_eq_true_eq]
      omega
  · have hshort : isRtps (m.take k) = false := by
      simp only [isRtps, List.length_take, decide_eq_false_iff_not, not_and]
      omega
    rw [mem_registrations_message, hshort]
    constructor
    · rintro ⟨hfalse, -⟩
      cases hfalse
    · rintro ⟨hm, rest, hrest, hj, -⟩
      have := le_startOf hm hrest
      omega

/-- Each endpoint that the first `k` bytes of a message insert is inserted by the whole
message too, exactly when the cut is harmless. What they insert does not depend on the
registry. -/
theorem truncation_iff (cfg : Config) (o : Origin) (m : Bytes) (k : Nat) (g : Globals) :
    (∃ g₁ g₂, handleRtps cfg o (m.take k) g = some g₁ ∧ handleRtps cfg o m g = some g₂ ∧
      g₁.endpoints = writeAll g.endpoints
        ((registrations (messageVisits (o, m.take k))).map keyed) ∧
      g₂.endpoints = writeAll g.endpoints ((registrations (messageVisits (o, m))).map keyed)) ∧
    ((∀ a ∈ registrations (messageVisits (o, m.take k)),
        a ∈ registrations (messageVisits (o, m))) ↔ CutHarmless o m k) := by
  refine ⟨⟨_, _, handleRtps_eq .., handleRtps_eq .., ?_, ?_⟩, ?_⟩
  · exact (Globals.ran_receive cfg g (o, m.take k)).endpoints
  · exact (Globals.ran_receive cfg g (o, m)).endpoints
  constructor
  · intro h rest hrest hm hlt d hd isPub hr hlen l ht
    have hj := length_of_decodeContent hd
    rw [List.length_take] at hj
    have hcut : Visit.registration
        ⟨o, headerPrefix m, decodeSubmsg (rest.take (k - startOf m rest))⟩ =
        some (l.guid.getD ⟨headerPrefix m, d.writer⟩, ⟨l.topic, l.typeName, isPub⟩) := by
      rw [registration_of_sedp hd hr, announcement_eq _ hlen, if_neg ht]
    have hmem := h _ (mem_registrations_take.mpr ⟨hm, rest, hrest, by omega, hcut⟩)
    obtain ⟨-, other, hother, hreg⟩ := mem_registrations_message.mp hmem
    by_cases heq : other = rest
    · rw [heq] at hreg
      exact Or.inl ((registration_take_of_lt (by omega) hd hr hlen ht).mp hreg)
    · exact Or.inr ⟨other, hother, heq, hreg⟩
  · intro h a ha
    obtain ⟨hm, rest, hrest, hj, hreg⟩ := mem_registrations_take.mp ha
    refine mem_registrations_message.mpr ⟨hm, ?_⟩
    by_cases hext : extent rest ≤ k - startOf m rest
    · exact ⟨rest, hrest, registration_take_of_le hj hext hreg⟩
    · obtain ⟨d, isPub, hd, hr, hann⟩ := Visit.registration_eq_some hreg
      have hlen : 4 ≤ d.payload.length := by
        by_contra hshort
        rw [announcement, if_pos (Or.inl (by omega))] at hann
        cases hann
      rw [announcement_eq _ hlen] at hann
      split at hann
      · cases hann
      · next ht =>
        obtain rfl := Option.some.inj hann
        rcases h rest hrest hm (by omega) d hd isPub hr hlen ht with hrep | ⟨other, hother, -, hreg'⟩
        · exact ⟨rest, hrest, (registration_take_of_lt hj hd hr hlen ht).mpr hrep⟩
        · exact ⟨other, hother, hreg'⟩

/-- A publication that names its topic `X` before its endpoint GUID `000001|03`. -/
def announcingMessage : Bytes :=
  rtpsMagic ++ [0x02, 0x05, 0x01, 0x10] ++ List.replicate 12 0x11 ++
    [0x15, 0x05, 0x3C, 0x00, 0x00, 0x00, 0x10, 0x00, 0x00, 0x00, 0x03, 0xC7,
      0x00, 0x00, 0x03, 0xC2, 0x00, 0x00, 0x00, 0x00, 0x01, 0x00, 0x00, 0x00,
      0x00, 0x03, 0x00, 0x00,
      0x05, 0x00, 0x08, 0x00, 0x02, 0x00, 0x00, 0x00, 0x58, 0x00, 0x00, 0x00,
      0x5A, 0x00, 0x10, 0x00] ++ List.replicate 12 0x11 ++ [0x00, 0x00, 0x01, 0x03,
      0x01, 0x00, 0x00, 0x00]

/-- Cut off behind the topic, the publication registers the discovery writer itself. -/
theorem cut_announcement_invents :
    registrations (messageVisits (⟨[], 7400, 7400, ⟨0, 0⟩⟩, announcingMessage.take 60)) =
      [(⟨List.Vector.replicate 12 0x11, eidSedpPubWriter⟩, ⟨text "X", [], true⟩)] ∧
    registrations (messageVisits (⟨[], 7400, 7400, ⟨0, 0⟩⟩, announcingMessage)) =
      [(⟨List.Vector.replicate 12 0x11, ⟨[0x00, 0x00, 0x01, 0x03], rfl⟩⟩,
        ⟨text "X", [], true⟩)] ∧
    (handleRtps ⟨.both, false, true⟩ ⟨[], 7400, 7400, ⟨0, 0⟩⟩ (announcingMessage.take 60)
      Globals.init).map (fun g => g.endpoints.lookup
        (fmtGuid ⟨List.Vector.replicate 12 0x11, eidSedpPubWriter⟩)) =
      some (some ⟨text "X", [], true⟩) ∧
    (handleRtps ⟨.both, false, true⟩ ⟨[], 7400, 7400, ⟨0, 0⟩⟩ announcingMessage
      Globals.init).map (fun g => g.endpoints.lookup
        (fmtGuid ⟨List.Vector.replicate 12 0x11, eidSedpPubWriter⟩)) = some none := by
  decide +kernel

end DdsPlayground.Inspector
