import DdsPlayground.Inspector.Semantics.Effects
import DdsPlayground.Inspector.Semantics.Guid

/-!
# Capture order and duplication

What a frame contributes is a function of the frame alone. The registry after
a run is the history of the contributed registrations, which counts only as a
set where the announcements agree; the counters are sums over the frames.
-/

namespace DdsPlayground.Inspector

open ByteWire LastWrite

/-- A captured frame with the interface it was captured on. -/
abbrev Frame := IfaceCtx × Capture

/-- The submessages that a captured frame visits. -/
def frameVisits (cfg : Config) (f : Frame) : List Visit :=
  (datagram cfg f.1 f.2).elim [] fun d => messageVisits (d.origin, d.data)

/-- The UDP payloads that frames carry, whatever interface, time and addresses they have. -/
def payloads (cfg : Config) (fs : List Frame) : List Bytes :=
  fs.filterMap fun f => (datagram cfg f.1 f.2).map (·.data)

/-- A visit without its origin, which only the records show. -/
def Visit.unplaced (v : Visit) : Visit := { v with origin := ⟨[], 0, 0, ⟨0, 0⟩⟩ }

/-- The submessages that a UDP payload visits, wherever it comes from. -/
def payloadVisits (data : Bytes) : List Visit := messageVisits (⟨[], 0, 0, ⟨0, 0⟩⟩, data)

/-- The verbose report shows on standard error alone. -/
theorem Globals.report_eq (g : Globals) (cfg : Config) (ctx : IfaceCtx) (o : Origin) (n : Nat) :
    g.report cfg ctx o n = { g with cerr := (g.report cfg ctx o n).cerr } := by
  rw [Globals.report, Globals.diag_eq, Globals.diag_eq]

/-- A run leaves the packet counters to its caller. -/
theorem Globals.foldl_apply_counters (cfg : Config) (vs : List Visit) (g : Globals) :
    (vs.foldl (Globals.apply cfg) g).cntCaptured = g.cntCaptured ∧
      (vs.foldl (Globals.apply cfg) g).cntRtps = g.cntRtps := by
  induction vs generalizing g with
  | nil => exact ⟨rfl, rfl⟩
  | cons v vs ih =>
    have h := Globals.stepped_apply cfg g v
    rw [List.foldl_cons, (ih _).1, (ih _).2]
    exact ⟨h.cntCaptured, h.cntRtps⟩

/-- A message counts itself, and as RTPS by its header. -/
theorem Globals.receive_counters (cfg : Config) (o : Origin) (data : Bytes) (g : Globals) :
    (g.receive cfg o data).cntCaptured = g.cntCaptured ∧
      (g.receive cfg o data).cntRtps = g.cntRtps + if isRtps data then 1 else 0 := by
  cases h : isRtps data with
  | false => simp [Globals.receive, h]
  | true =>
    have hc := Globals.foldl_apply_counters cfg
      ((submsgs data).map fun s => ⟨o, headerPrefix data, s⟩) { g with cntRtps := g.cntRtps + 1 }
    rw [List.foldl_map] at hc
    simp only [Globals.receive, h, if_true]
    exact hc

theorem Globals.ran_capture (cfg : Config) (g : Globals) (f : Frame) :
    Globals.Ran cfg g (frameVisits cfg f) (g.capture cfg f.1 f.2) := by
  cases h : datagram cfg f.1 f.2 with
  | none =>
    simp only [frameVisits, Globals.capture, h, Option.elim_none]
    exact Globals.Ran.nil cfg g
  | some d =>
    simp only [frameVisits, Globals.capture, h, Option.elim_some]
    rw [Globals.report_eq]
    have hran := Globals.ran_receive cfg { g with
      cntCaptured := g.cntCaptured + 1
      cerr := (Globals.report { g with cntCaptured := g.cntCaptured + 1 } cfg f.1 d.origin
        d.udpPayload).cerr } (d.origin, d.data)
    exact ⟨hran.endpoints, hran.cntSedp, hran.cntData, hran.cout⟩

theorem Globals.capture_counters (cfg : Config) (g : Globals) (f : Frame) :
    (g.capture cfg f.1 f.2).cntCaptured = g.cntCaptured + (payloads cfg [f]).length ∧
      (g.capture cfg f.1 f.2).cntRtps = g.cntRtps + (payloads cfg [f]).countP isRtps := by
  cases h : datagram cfg f.1 f.2 with
  | none => simp [Globals.capture, payloads, h]
  | some d =>
    have hone : payloads cfg [f] = [d.data] := by simp [payloads, h]
    rw [hone, List.countP_singleton]
    simp only [Globals.capture, h, Option.elim_some]
    rw [Globals.report_eq]
    have hc := Globals.receive_counters cfg d.origin d.data { g with
      cntCaptured := g.cntCaptured + 1
      cerr := (Globals.report { g with cntCaptured := g.cntCaptured + 1 } cfg f.1 d.origin
        d.udpPayload).cerr }
    exact hc

/-! ## Payloads of a run -/

theorem payloads_cons (cfg : Config) (f : Frame) (fs : List Frame) :
    payloads cfg (f :: fs) = payloads cfg [f] ++ payloads cfg fs := by
  simp only [payloads, List.filterMap_cons, List.filterMap_nil]
  cases (datagram cfg f.1 f.2).map (·.data) <;> rfl

/-- The two packet counters after a run count its payloads. -/
theorem capture_counts (cfg : Config) (fs : List Frame) (g : Globals) :
    (fs.foldl (fun g f => g.capture cfg f.1 f.2) g).cntCaptured =
        g.cntCaptured + (payloads cfg fs).length ∧
      (fs.foldl (fun g f => g.capture cfg f.1 f.2) g).cntRtps =
        g.cntRtps + (payloads cfg fs).countP isRtps := by
  induction fs generalizing g with
  | nil => exact ⟨rfl, rfl⟩
  | cons f fs ih =>
    have h := Globals.capture_counters cfg g f
    rw [List.foldl_cons, (ih _).1, (ih _).2, h.1, h.2, payloads_cons cfg f fs, List.length_append,
      List.countP_append]
    omega

/-- Up to their origins, the submessages of a run are those of its payloads. -/
theorem map_unplaced_frameVisits (cfg : Config) (fs : List Frame) :
    (fs.flatMap (frameVisits cfg)).map Visit.unplaced =
      (payloads cfg fs).flatMap payloadVisits := by
  induction fs with
  | nil => rfl
  | cons f fs ih =>
    rw [List.flatMap_cons, List.map_append, ih, payloads_cons cfg f fs, List.flatMap_append]
    congr 1
    cases h : datagram cfg f.1 f.2 with
    | none => simp [frameVisits, payloads, h]
    | some d =>
      cases hr : isRtps d.data <;>
        simp [frameVisits, payloads, payloadVisits, messageVisits, Visit.unplaced, h, hr]

/-- What is registered does not depend on the origins. -/
theorem registrations_map_unplaced (vs : List Visit) :
    registrations (vs.map Visit.unplaced) = registrations vs := by
  rw [registrations, List.filterMap_map]
  rfl

/-- The announcements in a run of frames agree on every GUID they name. -/
def AnnouncementsAgree (cfg : Config) (fs : List Frame) : Prop :=
  Consistent (registrations (fs.flatMap (frameVisits cfg)))

/-- Agreement on raw GUIDs is agreement on the registry keys. -/
theorem consistent_map_keyed {as : List (Guid × EndpointInfo)} (h : Consistent as) :
    Consistent (as.map keyed) := by
  intro w hw w' hw' hk
  obtain ⟨a, ha, rfl⟩ := List.mem_map.mp hw
  obtain ⟨b, hb, rfl⟩ := List.mem_map.mp hw'
  exact h a ha b hb (fmtGuid_injective hk)

/-- Frames with the same payloads contribute the same registrations. -/
theorem mem_registrations_congr (cfg : Config) {fs fs' : List Frame}
    (h : ∀ data, data ∈ payloads cfg fs ↔ data ∈ payloads cfg fs') (w : Text × EndpointInfo) :
    w ∈ (registrations (fs.flatMap (frameVisits cfg))).map keyed ↔
      w ∈ (registrations (fs'.flatMap (frameVisits cfg))).map keyed := by
  rw [← registrations_map_unplaced, ← registrations_map_unplaced (fs'.flatMap _),
    map_unplaced_frameVisits, map_unplaced_frameVisits]
  simp only [registrations, List.mem_map, List.mem_filterMap, List.mem_flatMap, h]

/-- The learned topology depends neither on the order in which datagrams are
captured nor on how often, when and on which interface each is seen, as long as the
announcements agree; the four counters do not depend on the order. -/
theorem capture_order_irrelevant (cfg : Config) (fs fs' : List Frame) (g : Globals) :
    ∃ g₁ g₂, capture cfg fs g = some g₁ ∧ capture cfg fs' g = some g₂ ∧
      ((∀ data, data ∈ payloads cfg fs ↔ data ∈ payloads cfg fs') →
        AnnouncementsAgree cfg fs → g₁.endpoints = g₂.endpoints) ∧
      ((payloads cfg fs).Perm (payloads cfg fs') →
        g₁.cntCaptured = g₂.cntCaptured ∧ g₁.cntRtps = g₂.cntRtps ∧
        g₁.cntSedp = g₂.cntSedp ∧ g₁.cntData = g₂.cntData) := by
  have hran (fs : List Frame) := Globals.Ran.foldl (Globals.ran_capture cfg) fs g
  refine ⟨_, _, capture_eq cfg fs g, capture_eq cfg fs' g, ?_, ?_⟩
  · intro hset hagree
    rw [(hran fs).endpoints, (hran fs').endpoints]
    exact (consistent_map_keyed hagree).writeAll_eq (mem_registrations_congr cfg hset) g.endpoints
  · intro hperm
    have hvisits := hperm.flatMap_right payloadVisits
    rw [← map_unplaced_frameVisits, ← map_unplaced_frameVisits] at hvisits
    have hsedp := hvisits.countP_eq Visit.isSedp
    have hdata := hvisits.countP_eq Visit.isUser
    rw [List.countP_map, List.countP_map] at hsedp hdata
    refine ⟨?_, ?_, ?_, ?_⟩
    · rw [(capture_counts cfg fs g).1, (capture_counts cfg fs' g).1, hperm.length_eq]
    · rw [(capture_counts cfg fs g).2, (capture_counts cfg fs' g).2, hperm.countP_eq]
    · rw [(hran fs).cntSedp, (hran fs').cntSedp]
      exact congrArg (g.cntSedp + ·) hsedp
    · rw [(hran fs).cntData, (hran fs').cntData]
      exact congrArg (g.cntData + ·) hdata

end DdsPlayground.Inspector
