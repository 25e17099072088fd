import DdsPlayground.Inspector.Correctness.Registry
import DdsPlayground.Inspector.Semantics.Difference
import DdsPlayground.Inspector.Semantics.Encoding

/-!
# Messages and their submessages one by one

The guards on the fixed fields of DATA and HEARTBEAT look at the end of the
message, the payload ends with the submessage. A submessage that is too short
for its fixed fields is ignored at the end of a message and reads on into the
next one elsewhere; a message has the effect of its submessages one by one
exactly when nothing comes of that.
-/

namespace DdsPlayground.Inspector

open ByteWire

/-- A submessage whose length field is the length of its body, and not zero. -/
structure CompleteSubmsg extends WireSubmsg where
  nonzero : submsgLen bytes ≠ 0

/-- The submessages as parts of one message. -/
def parts (as : List CompleteSubmsg) : List WireSubmsg := as.map CompleteSubmsg.toWireSubmsg

/-- Each submessage with the bytes behind it. -/
def behind : List CompleteSubmsg → List (CompleteSubmsg × Bytes)
  | [] => []
  | a :: as => (a, wire (parts as)) :: behind as

/-- A submessage alone in its message. -/
def CompleteSubmsg.alone (o : Origin) (h : MessageHeader) (a : CompleteSubmsg) : Visit :=
  ⟨o, h.guidPrefix, decodeSubmsg a.bytes⟩

/-- The fixed fields of a DATA or HEARTBEAT do not fit into it, and are read from the
bytes behind it. -/
def ReadsOn (a : CompleteSubmsg) (rest : Bytes) : Prop :=
  (a.id = smData ∧ a.bytes.length < 24 ∧ 24 ≤ a.bytes.length + rest.length) ∨
  (a.id = smHeartbeat ∧ a.bytes.length < 32 ∧ 32 ≤ a.bytes.length + rest.length)

/-- Something comes of fields read behind the submessage: a DATA counts as one of the
SPDP writer, or has a D flag and a payload inside its extent; a HEARTBEAT counts as
one of an SEDP writer while no endpoint is known. -/
def Spills (cfg : Config) (known : Prop) (a : CompleteSubmsg) (rest : Bytes) : Prop :=
  (a.id = smData ∧ a.bytes.length < 24 ∧ 24 ≤ a.bytes.length + rest.length ∧
    ((decodeData (a.bytes ++ rest)).writer = eidSpdpWriter ∧ cfg.printMode ≠ .traffic ∨
      (decodeData (a.bytes ++ rest)).writer ≠ eidSpdpWriter ∧
      (decodeData (a.bytes ++ rest)).hasData = true ∧
      (decodeData (a.bytes ++ rest)).payload ≠ [])) ∨
  (a.id = smHeartbeat ∧ a.bytes.length < 32 ∧ 32 ≤ a.bytes.length + rest.length ∧
    (window 4 (a.bytes ++ rest) 8 = eidSedpPubWriter ∨
      window 4 (a.bytes ++ rest) 8 = eidSedpSubWriter) ∧ ¬ known ∧ cfg.printMode ≠ .traffic)

/-! ## One submessage -/

/-- A submessage that does not read on is decoded from its own bytes. -/
theorem decodeSubmsg_append {a : CompleteSubmsg} {rest : Bytes} (h : ¬ ReadsOn a rest) :
    decodeSubmsg (a.bytes ++ rest) = decodeSubmsg a.bytes := by
  have hid : peek (a.bytes ++ rest) 0 = a.id :=
    peek_append_left (show 0 < a.bytes.length by have := a.header; omega)
  have hflags : peek (a.bytes ++ rest) 1 = peek a.bytes 1 :=
    peek_append_left (by have := a.header; omega)
  have hown : peek a.bytes 0 = a.id := rfl
  have hcontent : decodeContent (a.bytes ++ rest) = decodeContent a.bytes := by
    simp only [ReadsOn, not_or, not_and] at h
    simp only [decodeContent, hid, hown, List.length_append]
    by_cases hd : a.id = smData
    · have hread := h.1 hd
      by_cases hshort : a.bytes.length < 24
      · rw [if_pos hd, if_pos hd, if_pos (by omega), if_pos hshort]
      · rw [if_pos hd, if_pos hd, if_neg (by omega), if_neg hshort,
          a.decodeData_append (by omega) fun hz => absurd hz a.nonzero]
    · rw [if_neg hd, if_neg hd]
      by_cases hb : a.id = smHeartbeat
      · have hread := h.2 hb
        by_cases hshort : a.bytes.length < 32
        · rw [if_neg (by omega), if_neg (by omega)]
        · rw [if_pos ⟨hb, by omega⟩, if_pos ⟨hb, by omega⟩, window_append_left (by omega)]
      · rw [if_neg (by simp [hb]), if_neg (by simp [hb])]
  simp only [decodeSubmsg, hid, hflags, submsgLen_append a.header, hcontent, hown]

/-- A submessage that reads on is ignored alone and decoded in the message. -/
theorem decodeContent_of_readsOn {a : CompleteSubmsg} {rest : Bytes} (h : ReadsOn a rest) :
    (a.id = smData ∧ decodeContent a.bytes = .shortData ∧
      decodeContent (a.bytes ++ rest) = .data (decodeData (a.bytes ++ rest))) ∨
    (a.id = smHeartbeat ∧ decodeContent a.bytes = .other ∧
      decodeContent (a.bytes ++ rest) = .heartbeat (window 4 (a.bytes ++ rest) 8)) := by
  have hid : peek (a.bytes ++ rest) 0 = a.id :=
    peek_append_left (show 0 < a.bytes.length by have := a.header; omega)
  have hown : peek a.bytes 0 = a.id := rfl
  rcases h with ⟨hd, hshort, hlong⟩ | ⟨hb, hshort, hlong⟩
  · refine Or.inl ⟨hd, ?_, ?_⟩
    · rw [decodeContent, hown, if_pos hd, if_pos hshort]
    · rw [decodeContent, hid, if_pos hd, if_neg (by rw [List.length_append]; omega)]
  · have hne : ¬ a.id = smData := by rw [hb]; decide
    refine Or.inr ⟨hb, ?_, ?_⟩
    · rw [decodeContent, hown, if_neg hne, if_neg (by omega)]
    · rw [decodeContent, hid, if_neg hne, if_pos ⟨hb, by rw [List.length_append]; omega⟩]

/-- Decoding does not depend on the bytes behind exactly when no field is read there. -/
theorem decodeSubmsg_append_iff (a : CompleteSubmsg) (rest : Bytes) :
    decodeSubmsg (a.bytes ++ rest) = decodeSubmsg a.bytes ↔ ¬ ReadsOn a rest := by
  refine ⟨fun h hread => ?_, decodeSubmsg_append⟩
  have hcontent : decodeContent (a.bytes ++ rest) = decodeContent a.bytes :=
    congrArg Submsg.content h
  rcases decodeContent_of_readsOn hread with ⟨-, hs, hd⟩ | ⟨-, hs, hd⟩ <;>
    rw [hs, hd] at hcontent <;> cases hcontent

/-- A DATA has no effect exactly when it is no notice that is shown and has no
announcement or user data in it. -/
theorem quiet_data_iff (cfg : Config) (endpoints : Registry) {v : Visit} {d : DataSub}
    (h : v.submsg.content = .data d) :
    v.Quiet cfg endpoints ↔ ¬ (d.writer = eidSpdpWriter ∧ cfg.printMode ≠ .traffic ∨
      d.writer ≠ eidSpdpWriter ∧ d.hasData = true ∧ d.payload ≠ []) := by
  have hquiet : v.Quiet cfg endpoints ↔
      d.role = .silent ∨ (d.role = .spdp ∧ cfg.printMode = .traffic) := by
    constructor
    · rintro ⟨hsedp, huser, hrec⟩
      cases hr : d.role with
      | spdp => simpa [Visit.records, h, hr] using hrec
      | sedp isPub => cases isPub <;> simp [Visit.isSedp, Visit.role, h, hr] at hsedp
      | user => simp [Visit.isUser, Visit.role, h, hr] at huser
      | silent => exact Or.inl rfl
    · rintro (hr | ⟨hr, hm⟩)
      · exact ⟨by simp [Visit.isSedp, Visit.role, h, hr], by simp [Visit.isUser, Visit.role, h, hr],
          by simp [Visit.records, h, hr]⟩
      · exact ⟨by simp [Visit.isSedp, Visit.role, h, hr], by simp [Visit.isUser, Visit.role, h, hr],
          by simp [Visit.records, h, hr, hm]⟩
  rw [hquiet]
  unfold DataSub.role
  by_cases hspdp : d.writer = eidSpdpWriter
  · simp [hspdp]
  · by_cases hdata : d.hasData = true ∧ d.payload ≠ []
    · by_cases hw : d.writer = eidSedpPubWriter ∨ d.writer = eidSedpSubWriter
      · rw [if_neg hspdp, if_pos ⟨hw, hdata⟩]
        simp [hspdp, hdata]
      · rw [if_neg hspdp, if_neg fun hc => hw hc.1, if_pos ⟨fun hc => hw (Or.inl hc),
          fun hc => hw (Or.inr hc), hdata⟩]
        simp [hspdp, hdata]
    · rw [if_neg hspdp, if_neg fun hc => hdata hc.2, if_neg fun hc => hdata hc.2.2]
      simp [hspdp, hdata]

/-- A HEARTBEAT has no effect exactly when it gives no warning. -/
theorem quiet_heartbeat_iff (cfg : Config) (endpoints : Registry) {v : Visit} {writer : EntityId}
    (h : v.submsg.content = .heartbeat writer) :
    v.Quiet cfg endpoints ↔ ¬ ((writer = eidSedpPubWriter ∨ writer = eidSedpSubWriter) ∧
      endpoints = ∅ ∧ cfg.printMode ≠ .traffic) := by
  have hrec : v.Quiet cfg endpoints ↔ v.records cfg (directory endpoints) = [] :=
    ⟨fun hq => hq.records, fun hr => ⟨by simp [Visit.isSedp, Visit.role, h],
      by simp [Visit.isUser, Visit.role, h], hr⟩⟩
  rw [hrec]
  simp [Visit.records, h, directory, and_assoc]

/-- In a message a submessage differs from itself alone only quietly, exactly when it
does not spill. -/
theorem not_spills_iff (cfg : Config) (o : Origin) (h : MessageHeader) (endpoints : Registry)
    (a : CompleteSubmsg) (rest : Bytes) :
    (⟨o, h.guidPrefix, decodeSubmsg (a.bytes ++ rest)⟩ = a.alone o h ∨
      Visit.Quiet cfg endpoints ⟨o, h.guidPrefix, decodeSubmsg (a.bytes ++ rest)⟩) ↔
      ¬ Spills cfg (endpoints ≠ ∅) a rest := by
  have heq : (⟨o, h.guidPrefix, decodeSubmsg (a.bytes ++ rest)⟩ = a.alone o h) ↔
      ¬ ReadsOn a rest := by
    rw [← decodeSubmsg_append_iff, CompleteSubmsg.alone, Visit.mk.injEq]
    simp
  rw [heq]
  by_cases hread : ReadsOn a rest
  · simp only [hread, not_true_eq_false, false_or]
    rcases decodeContent_of_readsOn hread with ⟨hd, -, hc⟩ | ⟨hb, -, hc⟩
    · have hne : ¬ smData = smHeartbeat := by decide
      have hlen : a.bytes.length < 24 ∧ 24 ≤ a.bytes.length + rest.length := by
        simpa [ReadsOn, hd, hne] using hread
      rw [quiet_data_iff cfg endpoints (v := ⟨o, h.guidPrefix, decodeSubmsg (a.bytes ++ rest)⟩) hc]
      simp only [Spills, hd, hlen, hne, true_and, false_and, or_false]
    · have hne : ¬ smHeartbeat = smData := by decide
      have hlen : a.bytes.length < 32 ∧ 32 ≤ a.bytes.length + rest.length := by
        simpa [ReadsOn, hb, hne] using hread
      rw [quiet_heartbeat_iff cfg endpoints
        (v := ⟨o, h.guidPrefix, decodeSubmsg (a.bytes ++ rest)⟩) hc]
      simp only [Spills, hb, hlen, hne, true_and, false_and, false_or, ne_eq, not_not]
  · simp only [hread, not_false_eq_true, true_or, true_iff]
    rintro (⟨hd, hshort, hlong, -⟩ | ⟨hb, hshort, hlong, -⟩)
    · exact hread (Or.inl ⟨hd, hshort, hlong⟩)
    · exact hread (Or.inr ⟨hb, hshort, hlong⟩)

/-! ## Messages -/

@[simp] theorem parts_cons (a : CompleteSubmsg) (as : List CompleteSubmsg) :
    parts (a :: as) = a.toWireSubmsg :: parts as := rfl

theorem map_behind (as : List CompleteSubmsg) :
    (behind as).map (fun x => x.1.bytes ++ x.2) = suffixes (parts as) ∧
      (behind as).map Prod.fst = as := by
  induction as with
  | nil => exact ⟨rfl, rfl⟩
  | cons a as ih =>
    rw [behind, List.map_cons, List.map_cons, ih.1, ih.2, parts_cons, suffixes]
    exact ⟨rfl, rfl⟩

/-- A split of the submessages is a split of the submessages with what is behind them. -/
theorem behind_eq_append_iff {as : List CompleteSubmsg} (before after : List CompleteSubmsg)
    (x : CompleteSubmsg × Bytes) :
    (∃ bs cs, behind as = bs ++ x :: cs ∧ bs.map Prod.fst = before ∧ cs.map Prod.fst = after) ↔
      as = before ++ x.1 :: after ∧ x.2 = wire (parts after) := by
  induction as generalizing before with
  | nil => simp [behind]
  | cons a as ih =>
    constructor
    · rintro ⟨bs, cs, hsplit, rfl, rfl⟩
      cases bs with
      | nil =>
        obtain ⟨rfl, rfl⟩ := List.cons.inj hsplit
        rw [(map_behind as).2]
        exact ⟨rfl, rfl⟩
      | cons b bs =>
        obtain ⟨rfl, htail⟩ := List.cons.inj hsplit
        obtain ⟨has, hx⟩ := (ih (bs.map Prod.fst)).mp ⟨bs, cs, htail, rfl, rfl⟩
        rw [has]
        exact ⟨rfl, hx⟩
    · rintro ⟨hsplit, hx⟩
      cases before with
      | nil =>
        obtain ⟨rfl, rfl⟩ := List.cons.inj hsplit
        refine ⟨[], behind as, ?_, rfl, (map_behind as).2⟩
        rw [behind, ← hx]
        rfl
      | cons b before =>
        obtain ⟨rfl, has⟩ := List.cons.inj hsplit
        obtain ⟨bs, cs, htail, hbs, hcs⟩ := (ih before).mpr ⟨has, hx⟩
        refine ⟨(a, wire (parts as)) :: bs, cs, ?_, ?_, hcs⟩
        · rw [behind, htail]
          rfl
        · rw [List.map_cons, hbs]

/-- In one message every complete submessage is visited. -/
theorem messageVisits_parts (o : Origin) (h : MessageHeader) (as : List CompleteSubmsg) :
    messageVisits (o, message h (parts as)) = (behind as).map fun x =>
      ⟨o, h.guidPrefix, decodeSubmsg (x.1.bytes ++ x.2)⟩ := by
  have hall : reach (parts as) = (suffixes (parts as)).length := by
    rw [length_suffixes, reach_eq_length_iff]
    intro s hs
    obtain ⟨a, -, rfl⟩ := List.mem_map.mp (List.mem_of_mem_dropLast hs)
    exact a.nonzero
  rw [messageVisits_message, hall, List.take_length, ← (map_behind as).1, List.map_map]
  rfl

/-- In messages of its own every submessage is visited alone. -/
theorem runVisits_parts (o : Origin) (h : MessageHeader) (as : List CompleteSubmsg) :
    runVisits (as.map fun a => (o, message h (parts [a]))) =
      (behind as).map fun x => x.1.alone o h := by
  have hone (a : CompleteSubmsg) : messageVisits (o, message h (parts [a])) = [a.alone o h] := by
    rw [messageVisits_parts]
    simp [behind, parts, CompleteSubmsg.alone]
  have hall : (behind as).map (fun x => x.1.alone o h) = as.map (CompleteSubmsg.alone o h) := by
    conv_rhs => rw [← (map_behind as).2, List.map_map]
    rfl
  rw [runVisits, List.flatMap_map, hall]
  simp only [hone]
  exact List.flatMap_pure_eq_map ..

/-- An endpoint is known behind some submessages if one was known before them or one of
them registers one. -/
theorem registryAfter_ne_empty_iff (o : Origin) (h : MessageHeader) (endpoints : Registry)
    (before : List CompleteSubmsg) :
    registryAfter endpoints (before.map (CompleteSubmsg.alone o h)) ≠ ∅ ↔
      (endpoints ≠ ∅ ∨ ∃ b ∈ before, (b.alone o h).registration ≠ none) := by
  rw [ne_eq, registryAfter_eq_empty_iff, registrations, List.filterMap_eq_nil_iff,
    Classical.not_and_iff_not_or_not]
  simp

/-- The messages have the same effect exactly when the runs of their submessages have. -/
theorem exists_handle_iff (cfg : Config) (o : Origin) (data : Bytes) (msgs : List (Origin × Bytes))
    (g : Globals) :
    (∃ g₁ g₂, handleRtps cfg o data g = some g₁ ∧ handleAll cfg msgs g = some g₂ ∧
        g₁.endpoints = g₂.endpoints ∧ g₁.cntSedp = g₂.cntSedp ∧ g₁.cntData = g₂.cntData ∧
        g₁.cout = g₂.cout) ↔
      SameEffect cfg g.endpoints (messageVisits (o, data)) (runVisits msgs) := by
  have hone := Globals.ran_receive cfg g (o, data)
  obtain ⟨g₂, hg₂, hall⟩ := exists_handleAll cfg msgs g
  constructor
  · rintro ⟨_, _, hr, ha, hend, hsedp, hdata, hout⟩
    obtain rfl := Option.some.inj ((handleRtps_eq cfg o data g).symm.trans hr)
    obtain rfl := Option.some.inj (hg₂.symm.trans ha)
    rw [hone.endpoints, hall.endpoints] at hend
    rw [hone.cntSedp, hall.cntSedp, Nat.add_left_cancel_iff] at hsedp
    rw [hone.cntData, hall.cntData, Nat.add_left_cancel_iff] at hdata
    rw [hone.cout, hall.cout, List.append_cancel_left_eq] at hout
    exact ⟨hend, hsedp, hdata, hout⟩
  · intro hsame
    refine ⟨_, g₂, handleRtps_eq cfg o data g, hg₂, ?_, ?_, ?_, ?_⟩
    · rw [hone.endpoints, hall.endpoints, hsame.endpoints]
    · rw [hone.cntSedp, hall.cntSedp, hsame.cntSedp]
    · rw [hone.cntData, hall.cntData, hsame.cntData]
    · rw [hone.cout, hall.cout, hsame.cout]

/-- Processing submessages in one message and in messages of their own leaves the same
endpoints, counters and output exactly when none of them spills over its end; and each
is decoded alike exactly when none reads on. -/
theorem compositional_iff (cfg : Config) (o : Origin) (h : MessageHeader)
    (as : List CompleteSubmsg) (g : Globals) :
    ((∃ g₁ g₂, handleRtps cfg o (message h (parts as)) g = some g₁ ∧
        handleAll cfg (as.map fun a => (o, message h (parts [a]))) g = some g₂ ∧
        g₁.endpoints = g₂.endpoints ∧ g₁.cntSedp = g₂.cntSedp ∧ g₁.cntData = g₂.cntData ∧
        g₁.cout = g₂.cout) ↔
      ∀ before a after, as = before ++ a :: after → ¬ Spills cfg
        (g.endpoints ≠ ∅ ∨ ∃ b ∈ before, (b.alone o h).registration ≠ none) a
        (wire (parts after))) ∧
    ((∀ before a after, as = before ++ a :: after →
        decodeSubmsg (a.bytes ++ wire (parts after)) = decodeSubmsg a.bytes) ↔
      ∀ before a after, as = before ++ a :: after → ¬ ReadsOn a (wire (parts after))) := by
  refine ⟨?_, by simp only [decodeSubmsg_append_iff]⟩
  have hmute : ∀ x ∈ behind as,
      (⟨o, h.guidPrefix, decodeSubmsg (x.1.bytes ++ x.2)⟩ : Visit) = x.1.alone o h ∨
        (x.1.alone o h).Mute := by
    intro x _
    by_cases hread : ReadsOn x.1 x.2
    · rcases decodeContent_of_readsOn hread with ⟨-, hs, -⟩ | ⟨-, hs, -⟩
      · exact Or.inr (Or.inr hs)
      · exact Or.inr (Or.inl hs)
    · rw [decodeSubmsg_append hread]
      exact Or.inl rfl
  rw [exists_handle_iff, messageVisits_parts, runVisits_parts, sameEffect_iff hmute]
  simp only [not_spills_iff]
  have hmap (bs : List (CompleteSubmsg × Bytes)) : bs.map (fun x => x.1.alone o h) =
      (bs.map Prod.fst).map (CompleteSubmsg.alone o h) := by
    rw [List.map_map]
    rfl
  constructor
  · intro hall before a after has
    obtain ⟨bs, cs, hsplit, rfl, -⟩ :=
      (behind_eq_append_iff before after (a, wire (parts after))).mpr ⟨has, rfl⟩
    have hspill := hall bs (a, wire (parts after)) cs hsplit
    rwa [hmap, registryAfter_ne_empty_iff] at hspill
  · intro hall bs x cs hsplit
    obtain ⟨has, hx⟩ := (behind_eq_append_iff (bs.map Prod.fst) (cs.map Prod.fst) x).mp
      ⟨bs, cs, hsplit, rfl, rfl⟩
    have hspill := hall _ x.1 _ has
    rwa [hmap, registryAfter_ne_empty_iff, hx]

/-- A DATA of twelve body bytes with a D flag, that stops behind its writer. -/
def stoppedData : CompleteSubmsg where
  bytes := [0x15, 0x05, 0x0C, 0x00, 0x00, 0x00, 0x04, 0x00, 0x00, 0x00, 0x00, 0x00,
    0x00, 0x00, 0x01, 0x03]
  header := by decide
  measured := by decide
  nonzero := by decide

/-- A PAD of four body bytes. -/
def padding : CompleteSubmsg where
  bytes := [0x01, 0x01, 0x04, 0x00, 0x00, 0x00, 0x00, 0x00]
  header := by decide
  measured := by decide
  nonzero := by decide

/-- The stopped DATA counts as user data in front of a PAD and is ignored alone. -/
theorem stopped_data_spills :
    (handleRtps ⟨.both, false, true⟩ ⟨[], 7400, 7400, ⟨0, 0⟩⟩
      (message ⟨List.Vector.replicate 4 0x02, List.Vector.replicate 12 0x11⟩
        (parts [stoppedData, padding])) Globals.init).map (fun g => (g.cntData, g.cout.length)) =
      some (1, 1) ∧
    (handleAll ⟨.both, false, true⟩ ([stoppedData, padding].map fun a =>
      (⟨[], 7400, 7400, ⟨0, 0⟩⟩,
        message ⟨List.Vector.replicate 4 0x02, List.Vector.replicate 12 0x11⟩ (parts [a])))
      Globals.init).map (fun g => (g.cntData, g.cout.length)) = some (0, 0) := by
  decide +kernel

end DdsPlayground.Inspector
