import DdsPlayground.Inspector.Semantics.Effects
import DdsPlayground.Inspector.Semantics.Guid

/-!
# The registry as a map over raw GUIDs

The history of registrations answers, for a raw GUID, what `g_endpoints`
answers under its text: the simulation is the injectivity of the text, carried
through a whole run by the history. What is printed is therefore what a parser
with a map over raw GUIDs prints.
-/

namespace DdsPlayground.Inspector

open ByteWire LastWrite

/-- The questions of the parser answered by the history of registrations. -/
def historyDirectory (hist : List (Guid × EndpointInfo)) : Directory :=
  ⟨fun guid => lastWrite guid hist, hist.isEmpty⟩

/-- The records of a run, each computed from the history before it. -/
def historyRecords (cfg : Config) : List (Guid × EndpointInfo) → List Visit → List Record
  | _, [] => []
  | hist, v :: vs =>
    v.records cfg (historyDirectory hist) ++
      historyRecords cfg (hist ++ registrations [v]) vs

/-- The registry holds under the text of a GUID what was registered last for the GUID. -/
theorem lookup_registryAfter (vs : List Visit) (guid : Guid) :
    (registryAfter ∅ vs).lookup (fmtGuid guid) = lastWrite guid (registrations vs) := by
  rw [registryAfter, lookup_writeAll, Finmap.lookup_empty, Option.or_none]
  exact lastWrite_map fmtGuid_injective guid (registrations vs)

/-- A write leaves the registry nonempty, and no registration ever empties it. -/
theorem writeAll_eq_empty_iff (endpoints : Registry) (ws : List (Text × EndpointInfo)) :
    writeAll endpoints ws = ∅ ↔ endpoints = ∅ ∧ ws = [] := by
  constructor
  · intro h
    have hlook (k : Text) : (lastWrite k ws).or (endpoints.lookup k) = none := by
      rw [← lookup_writeAll, h, Finmap.lookup_empty]
    have hnil : ws = [] := by
      cases ws with
      | nil => rfl
      | cons w ws =>
        have hw := (Option.or_eq_none_iff.mp (hlook w.1)).1
        exact absurd rfl (lastWrite_eq_none_iff.mp hw w (List.mem_cons_self ..))
    subst hnil
    exact ⟨h, rfl⟩
  · rintro ⟨rfl, rfl⟩
    rfl

theorem registryAfter_eq_empty_iff (endpoints : Registry) (vs : List Visit) :
    registryAfter endpoints vs = ∅ ↔ endpoints = ∅ ∧ registrations vs = [] := by
  rw [registryAfter, writeAll_eq_empty_iff, List.map_eq_nil_iff]

/-- The map over texts and the history answer every question alike. -/
theorem directory_registryAfter (vs : List Visit) :
    directory (registryAfter ∅ vs) = historyDirectory (registrations vs) := by
  have hfind : (fun guid => (registryAfter ∅ vs).lookup (fmtGuid guid)) =
      fun guid => lastWrite guid (registrations vs) :=
    funext (lookup_registryAfter vs)
  have hempty : decide (registryAfter ∅ vs = ∅) = (registrations vs).isEmpty := by
    rw [Bool.eq_iff_iff, decide_eq_true_iff, registryAfter_eq_empty_iff, List.isEmpty_iff]
    exact and_iff_right rfl
  simp only [directory, historyDirectory, hfind, hempty]

/-- A run prints what the history of its registrations determines. -/
theorem runRecords_eq_historyRecords (cfg : Config) (before vs : List Visit) :
    runRecords cfg (registryAfter ∅ before) vs =
      historyRecords cfg (registrations before) vs := by
  induction vs generalizing before with
  | nil => rfl
  | cons v vs ih =>
    rw [runRecords, historyRecords, directory_registryAfter, ← registryAfter_append, ih,
      registrations_append]

theorem historyRecords_append (cfg : Config) (hist : List (Guid × EndpointInfo))
    (vs ws : List Visit) :
    historyRecords cfg hist (vs ++ ws) =
      historyRecords cfg hist vs ++ historyRecords cfg (hist ++ registrations vs) ws := by
  induction vs generalizing hist with
  | nil => simp [historyRecords]
  | cons v vs ih =>
    rw [List.cons_append, historyRecords, ih, historyRecords, List.append_assoc, List.append_assoc,
      ← registrations_append]
    rfl

/-- Only an announcement with a topic registers. -/
theorem topic_ne_nil_of_announcement {sender : Guid} {payload : Bytes} {isPub : Bool}
    {a : Guid × EndpointInfo} (h : announcement sender payload isPub = some a) :
    a.2.topic ≠ [] ∧ a.2.isWriter = isPub := by
  simp only [announcement] at h
  split at h
  · cases h
  · next hn =>
    cases h
    exact ⟨fun ht => hn (Or.inr ht), rfl⟩

/-- A registration is the announcement of an SEDP submessage. -/
theorem Visit.registration_eq_some {v : Visit} {a : Guid × EndpointInfo}
    (h : v.registration = some a) : ∃ d isPub, v.submsg.content = .data d ∧ d.role = .sedp isPub ∧
      announcement ⟨v.guidPrefix, d.writer⟩ d.payload isPub = some a := by
  unfold Visit.registration at h
  split at h
  · next d hd =>
    split at h
    · next isPub hr => exact ⟨d, isPub, hd, hr, h⟩
    · cases h
  · cases h

/-- Every registered topic is nonempty. -/
theorem topic_ne_nil_of_mem_registrations {vs : List Visit} {a : Guid × EndpointInfo}
    (h : a ∈ registrations vs) : a.2.topic ≠ [] := by
  obtain ⟨v, _, hv⟩ := List.mem_filterMap.mp h
  obtain ⟨d, isPub, _, _, ha⟩ := Visit.registration_eq_some hv
  exact (topic_ne_nil_of_announcement ha).1

/-- Every entry of the registry was registered under the text of its GUID. -/
theorem exists_mem_registrations {vs : List Visit} {key : Text} {info : EndpointInfo}
    (h : (registryAfter ∅ vs).lookup key = some info) :
    ∃ guid, key = fmtGuid guid ∧ (guid, info) ∈ registrations vs := by
  rw [registryAfter, lookup_writeAll, Finmap.lookup_empty, Option.or_none] at h
  obtain ⟨a, ha, he⟩ := List.mem_map.mp (mem_of_lastWrite h)
  obtain ⟨rfl, rfl⟩ := Prod.mk.inj he
  exact ⟨a.1, rfl, ha⟩

/-- The record of a registration says RE-ANNOUNCE exactly when its GUID was
registered before. -/
theorem records_of_registration (cfg : Config) {v : Visit} {a : Guid × EndpointInfo}
    (h : v.registration = some a) (hm : cfg.printMode ≠ .traffic)
    (hist : List (Guid × EndpointInfo)) :
    v.records cfg (historyDirectory hist) =
      [registrationRecord cfg (decide (∃ b ∈ hist, b.1 = a.1)) a] := by
  obtain ⟨d, isPub, hd, hr, ha⟩ := Visit.registration_eq_some h
  have hknown : (lastWrite a.1 hist).isSome = decide (∃ b ∈ hist, b.1 = a.1) := by
    cases hl : lastWrite a.1 hist with
    | none =>
      have hnone := lastWrite_eq_none_iff.mp hl
      simp only [Option.isSome_none, Bool.false_eq, decide_eq_false_iff_not]
      rintro ⟨b, hb, hba⟩
      exact hnone b hb hba
    | some info =>
      have hsome : ∃ b ∈ hist, b.1 = a.1 := ⟨_, mem_of_lastWrite hl, rfl⟩
      simp only [Option.isSome_some, hsome, decide_true]
  simp [Visit.records, hd, hr, ha, hm, historyDirectory, hknown]

/-- The record of a user-data message shows the topic that its writer's GUID has. -/
theorem records_of_user (cfg : Config) {v : Visit} {d : DataSub}
    (h : v.submsg.content = .data d) (hr : d.role = .user) (hm : cfg.printMode ≠ .reannounce)
    (dir : Directory) :
    v.records cfg dir =
      [d.userRecord v.origin v.guidPrefix (dir.find ⟨v.guidPrefix, d.writer⟩)] := by
  simp [Visit.records, h, hr, hm]

/-- `g_endpoints` under the texts of `fmt_guid` refines a finite map over raw
GUIDs, over whole runs of messages from program start: distinct GUIDs have
distinct keys that no buffer truncates; a lookup yields the last registration
of the GUID, at the end and at every submessage on the way; no stored topic is
empty; an announcement is labelled as new exactly when its GUID had not been
registered. -/
theorem endpoints_refine_guid_map (cfg : Config) (msgs : List (Origin × Bytes)) :
    Function.Injective fmtGuid ∧
    (∀ p, fmtPrefix p = prefixFormat p) ∧ (∀ e, fmtEntity e = entityFormat e) ∧
    ∃ g, handleAll cfg msgs Globals.init = some g ∧
      (∀ guid, g.endpoints.lookup (fmtGuid guid) =
        lastWrite guid (registrations (runVisits msgs))) ∧
      (∀ key info, g.endpoints.lookup key = some info →
        info.topic ≠ [] ∧ ∃ guid, key = fmtGuid guid) ∧
      ∀ before v after, runVisits msgs = before ++ v :: after →
        g.cout = historyRecords cfg [] before ++
          v.records cfg (historyDirectory (registrations before)) ++
          historyRecords cfg (registrations (before ++ [v])) after ∧
        (∀ d, v.submsg.content = .data d → d.role = .user → cfg.printMode ≠ .reannounce →
          v.records cfg (historyDirectory (registrations before)) =
            [d.userRecord v.origin v.guidPrefix
              (lastWrite ⟨v.guidPrefix, d.writer⟩ (registrations before))]) ∧
        (∀ a, v.registration = some a → cfg.printMode ≠ .traffic →
          v.records cfg (historyDirectory (registrations before)) =
            [registrationRecord cfg (decide (∃ b ∈ registrations before, b.1 = a.1)) a]) := by
  refine ⟨fmtGuid_injective, fmtPrefix_eq, fmtEntity_eq, ?_⟩
  obtain ⟨g, hg, hran⟩ := exists_handleAll cfg msgs Globals.init
  have hend : g.endpoints = registryAfter ∅ (runVisits msgs) := hran.endpoints
  have hout : g.cout = historyRecords cfg [] (runVisits msgs) :=
    hran.cout.trans (runRecords_eq_historyRecords cfg [] (runVisits msgs))
  refine ⟨g, hg, ?_, ?_, ?_⟩
  · intro guid
    rw [hend, lookup_registryAfter]
  · intro key info hlook
    rw [hend] at hlook
    obtain ⟨guid, hkey, hmem⟩ := exists_mem_registrations hlook
    exact ⟨topic_ne_nil_of_mem_registrations hmem, guid, hkey⟩
  · intro before v after hsplit
    refine ⟨?_, ?_, ?_⟩
    · rw [hout, hsplit, historyRecords_append, historyRecords, List.nil_append,
        ← registrations_append, List.append_assoc]
    · exact fun d hd hr hm => records_of_user cfg hd hr hm _
    · exact fun a ha hm => records_of_registration cfg ha hm _

end DdsPlayground.Inspector
