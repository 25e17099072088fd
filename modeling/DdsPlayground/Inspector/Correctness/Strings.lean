import DdsPlayground.Inspector.Semantics.Effects

/-!
# Strings that are none

`cdr_string` answers the empty text for a length that is zero or too large, and drops
the last byte without looking at it. Its callers show and store what it answers, so a
value that is no CDR string passes for one exactly when it is not terminated by NUL
inside its bounds.
-/

namespace DdsPlayground.Inspector

open ByteWire

/-- The value starts with the CDR string of the text: its length with the terminator,
its bytes, and NUL. -/
def Encodes (le : Bool) (value : Bytes) (s : Text) : Prop :=
  ∃ (n : UInt32) (rest : Bytes), n.toNat = s.length + 1 ∧ value = put32 le n ++ (s ++ 0x00 :: rest)

/-- The length of a string lies in its value and counts a NUL at the end. -/
def Terminated (le : Bool) (value : Bytes) : Prop :=
  4 ≤ value.length ∧ 1 ≤ (u32At le value 0).toNat ∧
    4 + (u32At le value 0).toNat ≤ value.length ∧
    peek value (4 + ((u32At le value 0).toNat - 1)) = 0x00

/-- The length of a string lies in its value and counts more than a terminator. -/
def NamesText (le : Bool) (value : Bytes) : Prop :=
  4 ≤ value.length ∧ 2 ≤ (u32At le value 0).toNat ∧ 4 + (u32At le value 0).toNat ≤ value.length

/-- The value of a parameter of the given kind. -/
def valueParam (pid : UInt16) (p : Param) : Option Bytes :=
  if p.pid = pid then some p.value else none

/-- The value of the last parameter of a kind in an SEDP payload. -/
def lastValue (pid : UInt16) (payload : Bytes) : Option Bytes :=
  lastParam (valueParam pid) (sedpParams payload)

/-- The payload holds the names: its last topic name encodes the topic, and its last type
name, if there is one, the type name. -/
structure NamesEncoded (payload : Bytes) (info : EndpointInfo) : Prop where
  topic : ∃ value, lastValue pidTopicName payload = some value ∧
    Encodes (payloadLe payload) value info.topic
  typeName : ∀ value, lastValue pidTypeName payload = some value →
    Encodes (payloadLe payload) value info.typeName
  noTypeName : lastValue pidTypeName payload = none → info.typeName = []

/-- Where the last topic name names a text, it and the last type name are terminated. -/
def NamesTerminated (payload : Bytes) : Prop :=
  ∀ value, lastValue pidTopicName payload = some value → NamesText (payloadLe payload) value →
    Terminated (payloadLe payload) value ∧
    ∀ typeValue, lastValue pidTypeName payload = some typeValue →
      Terminated (payloadLe payload) typeValue

/-! ## Values -/

theorem u32At_ne_zero_iff (le : Bool) (xs : Bytes) (i : Nat) :
    u32At le xs i ≠ 0 ↔ 1 ≤ (u32At le xs i).toNat := by
  rw [Nat.one_le_iff_ne_zero, ne_eq, ne_eq, ← UInt32.toNat_inj]
  rfl

/-- What `cdr_string` answers is encoded in the value exactly when the value is terminated. -/
theorem encodes_cdrText_iff {le : Bool} {value : Bytes} :
    Encodes le value (cdrText le value) ↔ Terminated le value := by
  constructor
  · rintro ⟨n, rest, hn, hvalue⟩
    have hlen := congrArg List.length hvalue
    have hu : u32At le value 0 = n := by rw [hvalue, u32At_put32_append]
    simp only [List.length_append, length_put32, List.length_cons] at hlen
    refine ⟨by omega, by rw [hu]; omega, by rw [hu]; omega, ?_⟩
    have hpeek := peek_append_right (put32 le n ++ cdrText le value) (0x00 :: rest) 0
    rw [List.append_assoc, ← hvalue, List.length_append, length_put32] at hpeek
    rw [hu, hn]
    exact hpeek
  · rintro ⟨h4, h1, hfit, hnul⟩
    have htext : cdrText le value = (value.drop 4).take ((u32At le value 0).toNat - 1) :=
      if_pos ⟨h4, (u32At_ne_zero_iff le value 0).mpr h1, hfit⟩
    have hlen : (cdrText le value).length = (u32At le value 0).toNat - 1 := by
      rw [htext, List.length_take, List.length_drop]
      omega
    have hlast : (value.drop 4).drop ((u32At le value 0).toNat - 1) =
        0x00 :: value.drop (4 + (u32At le value 0).toNat) := by
      rw [List.drop_drop, List.drop_eq_getElem_cons (by omega)]
      have hget : value[4 + ((u32At le value 0).toNat - 1)] = 0x00 := by
        rw [← hnul]
        simp [peek, show 4 + ((u32At le value 0).toNat - 1) < value.length by omega]
      rw [hget]
      congr 2
      omega
    refine ⟨u32At le value 0, value.drop (4 + (u32At le value 0).toNat), by omega, ?_⟩
    rw [htext, ← hlast, List.take_append_drop]
    exact drop_eq_put32 le value 0 (by omega)

/-- The text of a value is not empty exactly when the value names one. -/
theorem cdrText_ne_nil_iff {le : Bool} {value : Bytes} :
    cdrText le value ≠ [] ↔ NamesText le value := by
  have hne := u32At_ne_zero_iff le value 0
  unfold cdrText NamesText
  split
  · next h =>
    have hone := hne.mp h.2.1
    rw [← List.length_pos_iff, List.length_take, List.length_drop]
    omega
  · next h =>
    refine ⟨fun hc => absurd rfl hc, fun hc => absurd ⟨hc.1, hne.mpr (by omega), hc.2.2⟩ h⟩

/-! ## The last parameter of a kind -/

theorem lastParam_textParam (le : Bool) (pid : UInt16) (ps : List Param) :
    lastParam (textParam le pid) ps = (lastParam (valueParam pid) ps).map (cdrText le) := by
  have hmap : textParam le pid = fun p => (valueParam pid p).map (cdrText le) := by
    funext p
    simp only [textParam, valueParam]
    split <;> rfl
  rw [lastParam, lastParam, hmap, ← List.getLast?_map, List.map_filterMap]

theorem lastValue_of_short {payload : Bytes} (h : payload.length < 4) (pid : UInt16) :
    lastValue pid payload = none := by
  rw [lastValue, sedpParams, List.drop_eq_nil_of_le (by omega),
    Cutter.items_of_none (by simp [paramCutter])]
  rfl

/-- What a payload announces, from the values of its last names. -/
theorem announcement_eq_lastValue (sender : Guid) (payload : Bytes) (isPub : Bool) :
    ∃ guid, announcement sender payload isPub =
      ((lastValue pidTopicName payload).map (cdrText (payloadLe payload))).bind fun topic =>
        if topic = [] then none
        else some (guid, ⟨topic,
          ((lastValue pidTypeName payload).map (cdrText (payloadLe payload))).getD [], isPub⟩) := by
  by_cases h : 4 ≤ payload.length
  · refine ⟨(lastParam guidParam (sedpParams payload)).getD sender, ?_⟩
    rw [announcement_eq sender h, collected, foldl_add_eq, lastParam_textParam,
      lastParam_textParam]
    simp only [Listing.empty, Option.or_none, lastValue]
    cases lastParam (valueParam pidTopicName) (sedpParams payload) with
    | none => rfl
    | some value => rfl
  · refine ⟨sender, ?_⟩
    rw [lastValue_of_short (by omega), announcement, if_pos (Or.inl (by omega))]
    rfl

/-! ## Soundness -/

/-- Every text that `decode_payload` shows for a reply is encoded in the payload. -/
def ShowsEncoded (pl : Bytes) : Prop :=
  ∀ s, decodePayload (text "BazPongTopic") pl = some (text "text=\"" ++ s ++ text "\"") →
    Encodes (payloadLe pl) (pl.drop 4) s

/-- Every name that `decode_sedp` stores is encoded in its parameter. -/
def StoresEncoded (cfg : Config) (sender : Guid) (payload : Bytes) (isPub : Bool) : Prop :=
  ∀ g g' key info,
    decodeSedp cfg sender.guidPrefix sender.entity payload isPub g = some g' →
    g'.endpoints.lookup key = some info →
    g.endpoints.lookup key = some info ∨ NamesEncoded payload info

theorem payloadText_bazPongTopic (pl : Bytes) :
    payloadText (text "BazPongTopic") pl = bazResponseText pl := by
  have hping : text "BazPongTopic" ≠ text "PingPongTopic" := by decide +kernel
  have hbaz : text "BazPongTopic" ≠ text "PongBazTopic" := by decide +kernel
  rw [payloadText, if_neg (not_or.mpr ⟨hping, hbaz⟩), if_pos rfl]

theorem showsEncoded_iff (pl : Bytes) :
    ShowsEncoded pl ↔ (8 ≤ pl.length → Terminated (payloadLe pl) (pl.drop 4)) := by
  unfold ShowsEncoded
  rw [← encodes_cdrText_iff, decodePayload_eq, payloadText_bazPongTopic, bazResponseText]
  by_cases h : pl.length < 8
  · have hshort (s : Text) : text "(too short)" ≠ text "text=\"" ++ s ++ text "\"" := by
      intro heq
      have hhead := congrArg List.head? heq
      simp [show text "(too short)" = 0x28 :: text "too short)" by decide +kernel,
        show text "text=\"" = 0x74 :: text "ext=\"" by decide +kernel] at hhead
    rw [if_pos h]
    refine ⟨fun _ h8 => absurd h8 (by omega), fun _ s hs => ?_⟩
    exact absurd (Option.some.inj hs) (hshort s)
  · rw [if_neg h]
    constructor
    · exact fun hs _ => hs _ rfl
    · intro henc s hs
      have heq := List.append_cancel_left (List.append_cancel_right (Option.some.inj hs))
      rw [← heq]
      exact henc (by omega)

/-- An announcement of a GUID is encoded exactly when its names are terminated. -/
theorem namesEncoded_iff {payload : Bytes} {value : Bytes}
    (h : lastValue pidTopicName payload = some value) (isPub : Bool) :
    NamesEncoded payload ⟨cdrText (payloadLe payload) value,
        ((lastValue pidTypeName payload).map (cdrText (payloadLe payload))).getD [], isPub⟩ ↔
      Terminated (payloadLe payload) value ∧
        ∀ typeValue, lastValue pidTypeName payload = some typeValue →
          Terminated (payloadLe payload) typeValue := by
  constructor
  · rintro ⟨⟨value', hvalue', htopic⟩, htype, -⟩
    obtain rfl := Option.some.inj (hvalue'.symm.trans h)
    refine ⟨encodes_cdrText_iff.mp htopic, fun typeValue ht => encodes_cdrText_iff.mp ?_⟩
    have henc := htype typeValue ht
    rw [ht] at henc
    exact henc
  · rintro ⟨htopic, htype⟩
    refine ⟨⟨value, h, encodes_cdrText_iff.mpr htopic⟩, fun typeValue ht => ?_, fun ht => ?_⟩
    · rw [ht]
      exact encodes_cdrText_iff.mpr (htype typeValue ht)
    · rw [ht]
      rfl

theorem storesEncoded_iff (cfg : Config) (sender : Guid) (payload : Bytes) (isPub : Bool) :
    StoresEncoded cfg sender payload isPub ↔ NamesTerminated payload := by
  obtain ⟨guid, hann⟩ := announcement_eq_lastValue sender payload isPub
  constructor
  · intro h value hvalue hnames
    rw [hvalue, Option.map_some, Option.bind_some, if_neg (cdrText_ne_nil_iff.mpr hnames)] at hann
    refine (namesEncoded_iff hvalue isPub).mp ((h Globals.init _ (fmtGuid guid) _
      (decodeSedp_eq ..) ?_).resolve_left (by simp [Globals.init]))
    rw [hann, Option.elim_some, Globals.register, Globals.print_endpoints, Finmap.lookup_insert]
  · intro h g g' key info hg hlook
    rw [decodeSedp_eq, Option.some.injEq, hann] at hg
    subst hg
    cases hvalue : lastValue pidTopicName payload with
    | none =>
      rw [hvalue] at hlook
      exact Or.inl hlook
    | some value =>
      rw [hvalue, Option.map_some, Option.bind_some] at hlook
      by_cases ht : cdrText (payloadLe payload) value = []
      · rw [if_pos ht] at hlook
        exact Or.inl hlook
      · rw [if_neg ht, Option.elim_some, Globals.register, Globals.print_endpoints] at hlook
        by_cases hk : key = fmtGuid guid
        · rw [hk, Finmap.lookup_insert, Option.some.injEq] at hlook
          rw [← hlook]
          exact Or.inr ((namesEncoded_iff hvalue isPub).mpr
            (h value hvalue (cdrText_ne_nil_iff.mp ht)))
        · rw [Finmap.lookup_insert_of_ne _ hk] at hlook
          exact Or.inl hlook

/-- A reply is shown with a text that its payload encodes exactly when it is too short or
its string is terminated; and an announcement stores names that its parameters encode
exactly when its last topic name names no text, or it and the last type name are
terminated. -/
theorem strings_sound_iff (pl : Bytes) (cfg : Config) (sender : Guid) (payload : Bytes)
    (isPub : Bool) :
    (ShowsEncoded pl ↔ (8 ≤ pl.length → Terminated (payloadLe pl) (pl.drop 4))) ∧
      (StoresEncoded cfg sender payload isPub ↔ NamesTerminated payload) :=
  ⟨showsEncoded_iff pl, storesEncoded_iff cfg sender payload isPub⟩

/-- A reply with length 3 and no NUL. -/
def unterminatedReply : Bytes :=
  [0x00, 0x01, 0x00, 0x00, 0x03, 0x00, 0x00, 0x00, 0x61, 0x62, 0x63]

/-- An announcement with a topic name of length 3 and no NUL. -/
def unterminatedTopic : Bytes :=
  [0x00, 0x03, 0x00, 0x00, 0x05, 0x00, 0x08, 0x00, 0x03, 0x00, 0x00, 0x00, 0x61, 0x62, 0x63,
    0x00, 0x01, 0x00, 0x00, 0x00]

/-- A byte that is no terminator is dropped from a reply and from a topic name, and a reply
of length zero is shown as the empty text. -/
theorem unterminated_strings_shown :
    decodePayload (text "BazPongTopic") unterminatedReply = some (text "text=\"ab\"") ∧
    decodePayload (text "BazPongTopic") [0x00, 0x01, 0x00, 0x00, 0x00, 0x00, 0x00, 0x00] =
      some (text "text=\"\"") ∧
    (decodeSedp ⟨.both, false, true⟩ (List.Vector.replicate 12 0x11) eidSedpPubWriter
        unterminatedTopic true Globals.init).map (fun g => g.endpoints.lookup
          (fmtGuid ⟨List.Vector.replicate 12 0x11, eidSedpPubWriter⟩)) =
      some (some ⟨text "ab", [], true⟩) ∧
    ¬ ((∀ pl, ShowsEncoded pl) ∧
      ∀ cfg sender payload isPub, StoresEncoded cfg sender payload isPub) := by
  refine ⟨by decide +kernel, by decide +kernel, by decide +kernel, fun h => ?_⟩
  have hterm := (showsEncoded_iff unterminatedReply).mp (h.1 unterminatedReply) (by decide)
  unfold Terminated at hterm
  exact absurd hterm (by decide +kernel)

end DdsPlayground.Inspector
