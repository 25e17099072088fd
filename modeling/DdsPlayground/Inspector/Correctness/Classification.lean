import DdsPlayground.Inspector.Semantics.Steps

/-!
# Built-in writers and user data

A DATA submessage counts as user data by exclusion: its writer is none of the
three discovery writers that the parser names. Every other built-in writer, the
participant-message writer for one, is taken for an application as soon as its
submessage has a payload.
-/

namespace DdsPlayground.Inspector

open ByteWire

/-- A built-in entity: both top bits of the entity kind are set. -/
def isBuiltin (e : EntityId) : Bool := e.kind &&& 0xC0 == 0xC0

/-- The writers that the parser tells from user data. -/
def isDiscoveryWriter (e : EntityId) : Bool :=
  e = eidSpdpWriter ∨ e = eidSedpPubWriter ∨ e = eidSedpSubWriter

/-- The record shows a user-data message. -/
def Record.isUserData : Record → Bool
  | .data .. => true
  | _ => false

/-- A pass neither counts nor prints user data. -/
def Step.NoUserData (cfg : Config) (s : Step) : Prop :=
  ∃ g, s.next cfg = some g ∧ g.cntData = s.walk.globals.cntData ∧
    g.cout.filter Record.isUserData = s.walk.globals.cout.filter Record.isUserData

/-- The writers of user data are all the others with a payload. -/
theorem DataSub.role_eq_user_iff (d : DataSub) :
    d.role = .user ↔ isDiscoveryWriter d.writer = false ∧ d.hasData = true ∧ d.payload ≠ [] := by
  simp only [isDiscoveryWriter, decide_eq_false_iff_not]
  unfold DataSub.role
  split
  · next hp => simp [hp]
  · next hp =>
    split
    · next hs => simp [hs.1]
    · next hs =>
      split
      · next hu => exact ⟨fun _ => ⟨by simp [hp, hu.1, hu.2.1], hu.2.2⟩, fun _ => rfl⟩
      · next hu =>
        refine ⟨fun h => (by cases h), fun h => absurd ⟨?_, ?_, h.2⟩ hu⟩
        · exact fun hw => h.1 (Or.inr (Or.inl hw))
        · exact fun hw => h.1 (Or.inr (Or.inr hw))

/-- Only a user-data message prints a user-data record. -/
theorem Visit.filter_records (cfg : Config) (dir : Directory) {v : Visit} (h : v.isUser = false) :
    (v.records cfg dir).filter Record.isUserData = [] := by
  simp only [Visit.isUser, Visit.role] at h
  cases hc : v.submsg.content with
  | other => simp [Visit.records, hc]
  | shortData => simp [Visit.records, hc]
  | heartbeat writer =>
    simp only [Visit.records, hc]
    split <;> simp [Record.isUserData]
  | data d =>
    simp only [hc] at h
    cases hr : d.role with
    | spdp =>
      simp only [Visit.records, hc, hr]
      split <;> simp [Record.isUserData]
    | sedp isPub =>
      simp only [Visit.records, hc, hr]
      cases announcement ⟨v.guidPrefix, d.writer⟩ d.payload isPub with
      | none => simp
      | some a =>
        simp only [Option.elim_some]
        split <;> simp [Record.isUserData, registrationRecord]
    | user => simp [hr] at h
    | silent => simp [Visit.records, hc, hr]

/-- A pass leaves user data alone exactly when its submessage is no user data. -/
theorem Linked.noUserData_iff {cfg : Config} {g : Globals} {ss : List Step} (h : Linked cfg g ss)
    {s : Step} (hs : s ∈ ss) : s.NoUserData cfg ↔ s.visit.isUser = false := by
  obtain ⟨before, after, hsplit⟩ := List.append_of_mem hs
  have hstep := Globals.stepped_apply cfg s.walk.globals s.visit
  simp only [Step.NoUserData, (h before s after hsplit).2, Option.some.injEq, exists_eq_left']
  rw [hstep.cntData, hstep.cout, List.filter_append]
  constructor
  · rintro ⟨hcnt, -⟩
    cases hu : s.visit.isUser with
    | false => rfl
    | true => simp [hu] at hcnt
  · intro hu
    rw [Visit.filter_records cfg _ hu, hu]
    simp

/-- Built-in traffic stays out of the user data of a run exactly when each DATA
submessage of a built-in writer comes from one of the three discovery writers,
has no D flag, or has no payload. -/
theorem builtin_not_user_iff (cfg : Config) (msgs : List (Origin × Bytes)) (g : Globals) :
    (∀ s ∈ steps cfg msgs g, ∀ d, s.visit.submsg.content = .data d → isBuiltin d.writer →
        s.NoUserData cfg) ↔
      ∀ v ∈ runVisits msgs, ∀ d, v.submsg.content = .data d → isBuiltin d.writer →
        isDiscoveryWriter d.writer ∨ d.hasData = false ∨ d.payload = [] := by
  have hlink := linked_steps cfg msgs g
  have hiff (v : Visit) (d : DataSub) (hd : v.submsg.content = .data d) :
      v.isUser = false ↔ isDiscoveryWriter d.writer ∨ d.hasData = false ∨ d.payload = [] := by
    rw [Visit.isUser, decide_eq_false_iff_not, Visit.role, hd]
    simp only [DataSub.role_eq_user_iff]
    cases isDiscoveryWriter d.writer <;> cases d.hasData <;> simp
  rw [← map_visit_steps cfg msgs g]
  constructor
  · intro h v hv d hd hb
    obtain ⟨s, hs, rfl⟩ := List.mem_map.mp hv
    exact (hiff _ d hd).mp ((hlink.noUserData_iff hs).mp (h s hs d hd hb))
  · intro h s hs d hd hb
    exact (hlink.noUserData_iff hs).mpr
      ((hiff _ d hd).mpr (h _ (List.mem_map_of_mem hs) d hd hb))

/-- A liveliness message of the participant-message writer `000200C2`. -/
def livelinessMessage : Bytes :=
  rtpsMagic ++ [0x02, 0x05, 0x01, 0x10] ++ List.replicate 12 0x11 ++
    [0x15, 0x05, 0x18, 0x00, 0x00, 0x00, 0x10, 0x00, 0x00, 0x02, 0x00, 0xC7,
      0x00, 0x02, 0x00, 0xC2, 0x00, 0x00, 0x00, 0x00, 0x01, 0x00, 0x00, 0x00,
      0x00, 0x01, 0x00, 0x00]

/-- The liveliness message counts as a user-data message and is printed as one. -/
theorem liveliness_counted_as_user :
    (handleRtps ⟨.both, false, true⟩ ⟨[], 7400, 7400, ⟨0, 0⟩⟩ livelinessMessage Globals.init).map
        (fun g => (g.cntData, g.cout.map Record.isUserData)) = some (1, [true]) ∧
    ¬ ∀ s ∈ steps ⟨.both, false, true⟩ [(⟨[], 7400, 7400, ⟨0, 0⟩⟩, livelinessMessage)] Globals.init,
      ∀ d, s.visit.submsg.content = .data d → isBuiltin d.writer →
        s.NoUserData ⟨.both, false, true⟩ := by
  refine ⟨by decide +kernel, fun h => ?_⟩
  have hmem : (⟨⟨[], 7400, 7400, ⟨0, 0⟩⟩, headerPrefix livelinessMessage,
      decodeSubmsg (livelinessMessage.drop 20)⟩ : Visit) ∈
      runVisits [(⟨[], 7400, 7400, ⟨0, 0⟩⟩, livelinessMessage)] := by decide +kernel
  rw [← map_visit_steps ⟨.both, false, true⟩ _ Globals.init] at hmem
  obtain ⟨s, hs, hv⟩ := List.mem_map.mp hmem
  have hsilent := h s hs (decodeData (livelinessMessage.drop 20)) (by rw [hv]; decide +kernel)
    (by decide +kernel)
  rw [(linked_steps _ _ _).noUserData_iff hs, hv] at hsilent
  exact absurd hsilent (by decide +kernel)

end DdsPlayground.Inspector
