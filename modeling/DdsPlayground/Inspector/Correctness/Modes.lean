import DdsPlayground.Inspector.Correctness.Classification
import DdsPlayground.Inspector.Correctness.Order

/-!
# Print modes

No update of the registry or of a counter looks at the print mode or at the
verbosity, and each record is printed in the modes of its own kind. The output in
one of the narrow modes is therefore a part of the output in the wide one.
-/

namespace DdsPlayground.Inspector

open ByteWire LastWrite

/-- The record belongs to discovery: a notice, an announcement, or the warning. -/
def Record.isDiscovery : Record → Bool
  | .spdp .. => true
  | .sedp .. => true
  | .data .. => false
  | .missedSedp => true

/-- The record without the line on traffic tracking. -/
def Record.untracked : Record → Record
  | .sedp isPub reannounce guid topic typeName _ =>
    .sedp isPub reannounce guid topic typeName false
  | r => r

/-- What a mode other than the widest one shows of a record. -/
def PrintMode.shown : PrintMode → List Record → List Record
  | .both, rs => rs
  | .reannounce, rs => (rs.filter Record.isDiscovery).map Record.untracked
  | .traffic, rs => rs.filter Record.isUserData

theorem PrintMode.shown_append (mode : PrintMode) (rs rs' : List Record) :
    mode.shown (rs ++ rs') = mode.shown rs ++ mode.shown rs' := by
  cases mode <;> simp [PrintMode.shown]

@[simp] theorem PrintMode.shown_nil (mode : PrintMode) : mode.shown [] = [] := by
  cases mode <;> rfl

/-- In a narrow mode a submessage prints what that mode shows of its records. -/
theorem Visit.records_mode (mode : PrintMode) (verbose verbose' hostLe : Bool) (dir : Directory)
    (v : Visit) :
    v.records ⟨mode, verbose, hostLe⟩ dir =
      mode.shown (v.records ⟨.both, verbose', hostLe⟩ dir) := by
  cases hc : v.submsg.content with
  | other => simp [Visit.records, hc]
  | shortData => simp [Visit.records, hc]
  | heartbeat writer =>
    simp only [Visit.records, hc]
    cases (writer = eidSedpPubWriter ∨ writer = eidSedpSubWriter) && dir.isEmpty <;>
      cases mode <;> rfl
  | data d =>
    cases hr : d.role with
    | spdp =>
      simp only [Visit.records, hc, hr]
      cases mode <;> rfl
    | sedp isPub =>
      simp only [Visit.records, hc, hr]
      cases announcement ⟨v.guidPrefix, d.writer⟩ d.payload isPub with
      | none => simp
      | some a =>
        obtain ⟨guid, ⟨topic, typeName, isWriter⟩⟩ := a
        cases mode <;> cases isWriter <;> rfl
    | user =>
      simp only [Visit.records, hc, hr]
      cases mode <;> rfl
    | silent => simp [Visit.records, hc, hr]

/-- In a narrow mode a run prints what that mode shows of its records. -/
theorem runRecords_mode (mode : PrintMode) (verbose verbose' hostLe : Bool) (endpoints : Registry)
    (vs : List Visit) :
    runRecords ⟨mode, verbose, hostLe⟩ endpoints vs =
      mode.shown (runRecords ⟨.both, verbose', hostLe⟩ endpoints vs) := by
  induction vs generalizing endpoints with
  | nil => cases mode <;> rfl
  | cons v vs ih =>
    rw [runRecords, runRecords, PrintMode.shown_append, ih,
      Visit.records_mode mode verbose verbose']

/-- Which submessages a frame visits, and its payload, depend on the host alone. -/
theorem frameVisits_mode (mode mode' : PrintMode) (verbose verbose' hostLe : Bool) :
    frameVisits ⟨mode, verbose, hostLe⟩ = frameVisits ⟨mode', verbose', hostLe⟩ ∧
      payloads ⟨mode, verbose, hostLe⟩ = payloads ⟨mode', verbose', hostLe⟩ :=
  ⟨rfl, rfl⟩

/-- Over every run of captured frames, the registry and the four counters end alike in
every print mode, verbose or not; and what is printed in the narrow modes is what is
printed in the wide one, restricted to discovery (up to the line on traffic tracking)
or to user data. -/
theorem print_modes_filter (hostLe : Bool) (fs : List Frame) (g : Globals) :
    ∃ (final : PrintMode → Bool → Globals) (printed : PrintMode → List Record),
      (∀ mode verbose, capture ⟨mode, verbose, hostLe⟩ fs g = some (final mode verbose) ∧
        (final mode verbose).cout = g.cout ++ printed mode) ∧
      (∀ mode verbose mode' verbose',
        (final mode verbose).endpoints = (final mode' verbose').endpoints ∧
        (final mode verbose).cntCaptured = (final mode' verbose').cntCaptured ∧
        (final mode verbose).cntRtps = (final mode' verbose').cntRtps ∧
        (final mode verbose).cntSedp = (final mode' verbose').cntSedp ∧
        (final mode verbose).cntData = (final mode' verbose').cntData) ∧
      ((printed .both).filter Record.isDiscovery).map Record.untracked = printed .reannounce ∧
      (printed .both).filter Record.isUserData = printed .traffic := by
  have hran (cfg : Config) := Globals.Ran.foldl (Globals.ran_capture cfg) fs g
  refine ⟨fun mode verbose => fs.foldl
      (fun g f => g.capture ⟨mode, verbose, hostLe⟩ f.1 f.2) g,
    fun mode => runRecords ⟨mode, false, hostLe⟩ g.endpoints
      (fs.flatMap (frameVisits ⟨mode, false, hostLe⟩)), ?_, ?_, ?_, ?_⟩
  · intro mode verbose
    refine ⟨capture_eq ⟨mode, verbose, hostLe⟩ fs g, ?_⟩
    rw [(hran ⟨mode, verbose, hostLe⟩).cout, runRecords_mode mode verbose false]
    exact congrArg (g.cout ++ ·) (runRecords_mode mode false false hostLe g.endpoints _).symm
  · intro mode verbose mode' verbose'
    have hcount (cfg : Config) := capture_counts cfg fs g
    have h := hran ⟨mode, verbose, hostLe⟩
    have h' := hran ⟨mode', verbose', hostLe⟩
    obtain ⟨hvisits, hpayloads⟩ := frameVisits_mode mode mode' verbose verbose' hostLe
    refine ⟨?_, ?_, ?_, ?_, ?_⟩
    · rw [h.endpoints, h'.endpoints, hvisits]
    · rw [(hcount _).1, (hcount _).1, hpayloads]
    · rw [(hcount _).2, (hcount _).2, hpayloads]
    · rw [h.cntSedp, h'.cntSedp, hvisits]
    · rw [h.cntData, h'.cntData, hvisits]
  · exact (runRecords_mode .reannounce false false hostLe g.endpoints _).symm
  · exact (runRecords_mode .traffic false false hostLe g.endpoints _).symm

end DdsPlayground.Inspector
