import DdsPlayground.Inspector.Correctness.Registry
import DdsPlayground.Inspector.Semantics.Steps

/-!
# The warning of missed discovery

The registry is never emptied, so the warning comes only before the first
registration. A HEARTBEAT is taken as a sign that announcements were missed by its
writer alone: the sequence numbers that it advertises are not read, nor is its own
length.
-/

namespace DdsPlayground.Inspector

open ByteWire

/-- A submessage where it stands: its message, and the bytes from its header on. -/
structure Placed where
  origin : Origin
  data : Bytes
  rest : Bytes
  deriving DecidableEq

/-- What a pass of the loop works on. -/
def Placed.visit (p : Placed) : Visit := ⟨p.origin, headerPrefix p.data, decodeSubmsg p.rest⟩

/-- The submessages of a message where they stand. -/
def messagePlaces (m : Origin × Bytes) : List Placed :=
  if isRtps m.2 then (submsgRests m.2).map fun rest => ⟨m.1, m.2, rest⟩ else []

/-- The submessages of a sequence of messages where they stand. -/
def places (msgs : List (Origin × Bytes)) : List Placed := msgs.flatMap messagePlaces

def Step.placed (s : Step) : Placed := ⟨s.origin, s.data, s.rest⟩

/-- A HEARTBEAT of an SEDP writer with its fixed fields in the message. -/
def Placed.IsSedpHeartbeat (p : Placed) : Prop :=
  ∃ writer, decodeContent p.rest = .heartbeat writer ∧
    (writer = eidSedpPubWriter ∨ writer = eidSedpSubWriter)

/-- `firstSN` of the HEARTBEAT at the front. -/
def firstSN (rest : Bytes) : Int64 :=
  sequenceNumber (u32At (submsgLe rest) rest 12) (u32At (submsgLe rest) rest 16)

/-- `lastSN` of the HEARTBEAT at the front. -/
def lastSN (rest : Bytes) : Int64 :=
  sequenceNumber (u32At (submsgLe rest) rest 20) (u32At (submsgLe rest) rest 24)

/-- The HEARTBEAT has its 28 bytes within its own extent, and advertises a sample. -/
def Advertises (rest : Bytes) : Prop := 32 ≤ extent rest ∧ firstSN rest ≤ lastSN rest

/-- A pass prints the warning. -/
def Step.Warns (cfg : Config) (s : Step) : Prop :=
  ∃ g, s.next cfg = some g ∧ g.cout = s.walk.globals.cout ++ [.missedSedp]

/-- A warning for a HEARTBEAT of an SEDP writer that advertises a sample, at a point of the
run where nothing has been registered. -/
structure Step.Genuine (before : List Step) (s : Step) : Prop where
  heartbeat : s.placed.IsSedpHeartbeat
  advertises : Advertises s.rest
  unregistered : ∀ b ∈ before, b.visit.registration = none

/-! ## Passes and places -/

theorem map_placed_messageSteps (cfg : Config) (g : Globals) (m : Origin × Bytes) :
    (messageSteps cfg g m).map Step.placed = messagePlaces m := by
  have hplaced : (messageSteps cfg g m).map Step.placed =
      ((messageSteps cfg g m).map Step.rest).map fun rest => ⟨m.1, m.2, rest⟩ := by
    rw [List.map_map]
    refine List.map_congr_left fun s hs => ?_
    obtain ⟨ho, hd, -⟩ := mem_messageSteps hs
    rw [Step.placed, ho, hd]
    rfl
  rw [hplaced, map_rest_messageSteps, messagePlaces]
  split <;> rfl

/-- The passes of a run work on its submessages where they stand. -/
theorem map_placed_steps (cfg : Config) (msgs : List (Origin × Bytes)) (g : Globals) :
    (steps cfg msgs g).map Step.placed = places msgs := by
  induction msgs generalizing g with
  | nil => rfl
  | cons m msgs ih =>
    rw [steps, handleRtps_eq, Option.elim_some, List.map_append, map_placed_messageSteps, ih]
    rfl

/-! ## When the warning is printed -/

/-- A submessage prints the warning alone exactly when it is a HEARTBEAT of an SEDP writer
and the registry is empty. -/
theorem Visit.records_eq_missedSedp_iff (cfg : Config) (dir : Directory) (v : Visit) :
    v.records cfg dir = [.missedSedp] ↔
      (∃ writer, v.submsg.content = .heartbeat writer ∧
        (writer = eidSedpPubWriter ∨ writer = eidSedpSubWriter)) ∧
      dir.isEmpty = true ∧ cfg.printMode ≠ .traffic := by
  cases hc : v.submsg.content with
  | other => simp [Visit.records, hc]
  | shortData => simp [Visit.records, hc]
  | heartbeat writer => simp [Visit.records, hc, and_assoc]
  | data d =>
    cases hr : d.role with
    | spdp =>
      simp only [Visit.records, hc, hr]
      split <;> simp
    | sedp isPub =>
      simp only [Visit.records, hc, hr]
      cases announcement ⟨v.guidPrefix, d.writer⟩ d.payload isPub with
      | none => simp
      | some a =>
        simp only [Option.elim_some, registrationRecord]
        split <;> simp
    | user =>
      simp only [Visit.records, hc, hr, DataSub.userRecord]
      split <;> simp
    | silent => simp [Visit.records, hc, hr]

/-- A pass warns exactly when it works on a HEARTBEAT of an SEDP writer and no pass before
it has registered anything. -/
theorem warns_iff {cfg : Config} {msgs : List (Origin × Bytes)} {before after : List Step}
    {s : Step} (hsplit : steps cfg msgs Globals.init = before ++ s :: after) :
    s.Warns cfg ↔ s.placed.IsSedpHeartbeat ∧ cfg.printMode ≠ .traffic ∧
      ∀ b ∈ before, b.visit.registration = none := by
  obtain ⟨hran, hnext⟩ := linked_steps cfg msgs Globals.init before s after hsplit
  have hstep := Globals.stepped_apply cfg s.walk.globals s.visit
  have hempty : (directory s.walk.globals.endpoints).isEmpty = true ↔
      ∀ b ∈ before, b.visit.registration = none := by
    have hnone : registrations (before.map Step.visit) = [] ↔
        ∀ b ∈ before, b.visit.registration = none := by
      simp [registrations, List.filterMap_eq_nil_iff]
    rw [directory, decide_eq_true_iff, hran.endpoints, registryAfter_eq_empty_iff, hnone]
    exact and_iff_right rfl
  simp only [Step.Warns, hnext, Option.some.injEq, exists_eq_left', hstep.cout,
    List.append_cancel_left_eq]
  rw [Visit.records_eq_missedSedp_iff, hempty]
  rw [and_comm (b := cfg.printMode ≠ .traffic)]
  rfl

/-- In a run from program start every warning is for a HEARTBEAT that advertises a sample,
before anything is registered, if and only if the mode shows no warnings or each SEDP
HEARTBEAT before the first registration has its length and a sample to advertise. -/
theorem warning_genuine_iff (cfg : Config) (msgs : List (Origin × Bytes)) :
    (∀ before s after, steps cfg msgs Globals.init = before ++ s :: after →
        s.Warns cfg → s.Genuine before) ↔
      (cfg.printMode ≠ .traffic → ∀ before p after, places msgs = before ++ p :: after →
        p.IsSedpHeartbeat → (∀ b ∈ before, b.visit.registration = none) →
          Advertises p.rest) := by
  constructor
  · intro h hm before p after hsplit hp hnone
    rw [← map_placed_steps cfg msgs Globals.init] at hsplit
    obtain ⟨bs, rest, hsteps, rfl, hrest⟩ := List.map_eq_append_iff.mp hsplit
    obtain ⟨s, as, rfl, rfl, -⟩ := List.map_eq_cons_iff.mp hrest
    have hbs : ∀ b ∈ bs, b.visit.registration = none :=
      fun b hb => hnone b.placed (List.mem_map_of_mem hb)
    exact (h bs s as hsteps ((warns_iff hsteps).mpr ⟨hp, hm, hbs⟩)).advertises
  · intro h before s after hsplit hwarns
    obtain ⟨hp, hm, hnone⟩ := (warns_iff hsplit).mp hwarns
    refine ⟨hp, h hm (before.map Step.placed) s.placed (after.map Step.placed) ?_ hp ?_, hnone⟩
    · rw [← map_placed_steps cfg msgs Globals.init, hsplit, List.map_append, List.map_cons]
    · intro b hb
      obtain ⟨t, ht, rfl⟩ := List.mem_map.mp hb
      exact hnone t ht

/-- A HEARTBEAT of the publications writer of a participant without writers: `firstSN` is 1
and `lastSN` is 0. -/
def emptyWriterMessage : Bytes :=
  rtpsMagic ++ [0x02, 0x05, 0x01, 0x10] ++ List.replicate 12 0x11 ++
    [0x07, 0x01, 0x1C, 0x00, 0x00, 0x00, 0x03, 0xC7, 0x00, 0x00, 0x03, 0xC2,
      0x00, 0x00, 0x00, 0x00, 0x01, 0x00, 0x00, 0x00, 0x00, 0x00, 0x00, 0x00,
      0x00, 0x00, 0x00, 0x00, 0x01, 0x00, 0x00, 0x00]

/-- The HEARTBEAT of an empty writer triggers the warning. -/
theorem empty_writer_warns :
    (handleRtps ⟨.both, false, true⟩ ⟨[], 7400, 7400, ⟨0, 0⟩⟩ emptyWriterMessage
        Globals.init).map (·.cout) = some [.missedSedp] ∧
    lastSN (emptyWriterMessage.drop 20) + 1 = firstSN (emptyWriterMessage.drop 20) ∧
    ¬ ∀ before s after, steps ⟨.both, false, true⟩
        [(⟨[], 7400, 7400, ⟨0, 0⟩⟩, emptyWriterMessage)] Globals.init = before ++ s :: after →
        s.Warns ⟨.both, false, true⟩ → s.Genuine before := by
  refine ⟨by decide +kernel, by decide +kernel, fun h => ?_⟩
  have hplaces : places [(⟨[], 7400, 7400, ⟨0, 0⟩⟩, emptyWriterMessage)] =
      [⟨⟨[], 7400, 7400, ⟨0, 0⟩⟩, emptyWriterMessage, emptyWriterMessage.drop 20⟩] := by
    decide +kernel
  rw [← map_placed_steps ⟨.both, false, true⟩ _ Globals.init] at hplaces
  obtain ⟨s, hsteps, hplaced⟩ := List.map_eq_singleton_iff.mp hplaces
  have hrest : s.rest = emptyWriterMessage.drop 20 := congrArg Placed.rest hplaced
  have hwarns : s.Warns ⟨.both, false, true⟩ := by
    have hfirst : steps ⟨.both, false, true⟩ [(⟨[], 7400, 7400, ⟨0, 0⟩⟩, emptyWriterMessage)]
        Globals.init = [] ++ s :: [] := hsteps
    refine (warns_iff hfirst).mpr ⟨?_, by decide, by simp⟩
    rw [hplaced]
    exact ⟨eidSedpPubWriter, by decide +kernel, Or.inl rfl⟩
  have hadv := (h [] s [] hsteps hwarns).advertises
  rw [hrest] at hadv
  exact absurd hadv.2 (by decide +kernel)

end DdsPlayground.Inspector
