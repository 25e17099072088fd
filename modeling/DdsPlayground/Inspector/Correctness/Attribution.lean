import DdsPlayground.Inspector.Correctness.Registry
import DdsPlayground.Inspector.Semantics.Steps

/-!
# The topic of user data

Publications and subscriptions are kept in one map under the GUIDs that they
name. The direction of an announcement is stored with it and never asked for, so
a subscription that names the GUID of a writer stands in for its publication.
-/

namespace DdsPlayground.Inspector

open ByteWire LastWrite

/-- The registered announcements of publications. -/
def publications (vs : List Visit) : List (Guid × EndpointInfo) :=
  (registrations vs).filter (·.2.isWriter)

/-- The last announcement registered for the GUID came from the publications
writer and carried the topic. -/
def FromPublication (before : List Step) (guid : Guid) (topic : Text) : Prop :=
  ∃ b p a d info, before = b ++ p :: a ∧ p.visit.submsg.content = .data d ∧
    d.writer = eidSedpPubWriter ∧ p.visit.registration = some (guid, info) ∧ info.topic = topic ∧
    ∀ q ∈ a, ∀ r, q.visit.registration = some r → r.1 ≠ guid

/-- A pass over user data shows the topic of a publication: a registered topic is
that of the last announcement of the writer's GUID, a publication, and the record
is the one that the publications alone determine. -/
structure Step.Attributed (cfg : Config) (before : List Step) (s : Step) (d : DataSub) :
    Prop where
  known : ∀ info, s.walk.globals.endpoints.lookup (fmtGuid ⟨headerPrefix s.data, d.writer⟩) =
    some info → FromPublication before ⟨headerPrefix s.data, d.writer⟩ info.topic
  shown : ∃ g, s.next cfg = some g ∧ g.cout = s.walk.globals.cout ++
    [d.userRecord s.origin (headerPrefix s.data)
      (lastWrite ⟨headerPrefix s.data, d.writer⟩ (publications (before.map Step.visit)))]

/-- A subscription names the GUID and no publication does after it. -/
def Shadowed (guid : Guid) (vs : List Visit) : Prop :=
  ∃ before s after info, vs = before ++ s :: after ∧ s.registration = some (guid, info) ∧
    info.isWriter = false ∧
    ∀ v ∈ after, ∀ info', v.registration = some (guid, info') → info'.isWriter = false

/-- The direction of a registration tells the writer that it came from. -/
theorem Visit.isWriter_of_registration {v : Visit} {a : Guid × EndpointInfo}
    (h : v.registration = some a) :
    ∃ d, v.submsg.content = .data d ∧ a.2.isWriter = decide (d.writer = eidSedpPubWriter) := by
  obtain ⟨d, isPub, hd, hr, ha⟩ := Visit.registration_eq_some h
  refine ⟨d, hd, ?_⟩
  rw [(topic_ne_nil_of_announcement ha).2]
  unfold DataSub.role at hr
  split at hr
  · cases hr
  · split at hr
    · exact (Role.sedp.inj hr).symm
    · split at hr <;> cases hr

/-- The last registration of a GUID stands at a visit with no other one behind it. -/
theorem exists_visit_of_lastWrite {vs : List Visit} {guid : Guid} {info : EndpointInfo}
    (h : lastWrite guid (registrations vs) = some info) :
    ∃ before v after, vs = before ++ v :: after ∧ v.registration = some (guid, info) ∧
      ∀ u ∈ after, ∀ r, u.registration = some r → r.1 ≠ guid := by
  obtain ⟨ws, us, hsplit, hus⟩ := exists_split_of_lastWrite h
  obtain ⟨before, rest, rfl, -, hrest⟩ := List.filterMap_eq_append_iff.mp hsplit
  obtain ⟨skip, v, after, rfl, hskip, hv, hafter⟩ := List.filterMap_eq_cons_iff.mp hrest
  refine ⟨before ++ skip, v, after, by simp, hv, fun u hu r hr => ?_⟩
  exact hus r (hafter ▸ List.mem_filterMap.mpr ⟨u, hu, hr⟩)

/-- A registration with no other one of its GUID behind it is the last one. -/
theorem lastWrite_of_visit {before after : List Visit} {v : Visit} {guid : Guid}
    {info : EndpointInfo} (hv : v.registration = some (guid, info))
    (h : ∀ u ∈ after, ∀ r, u.registration = some r → r.1 ≠ guid) :
    lastWrite guid (registrations (before ++ v :: after)) = some info := by
  have hnone : lastWrite guid (registrations after) = none := by
    refine lastWrite_eq_none_iff.mpr fun r hr => ?_
    obtain ⟨u, hu, hur⟩ := List.mem_filterMap.mp hr
    exact h u hu r hur
  have hcons : registrations (v :: after) = (guid, info) :: registrations after :=
    List.filterMap_cons_some hv
  rw [registrations_append, lastWrite_append, hcons, lastWrite, hnone, if_pos rfl]
  rfl

/-- A GUID is shadowed exactly when its last registration is a subscription. -/
theorem shadowed_iff {guid : Guid} {vs : List Visit} :
    Shadowed guid vs ↔
      ∃ info, lastWrite guid (registrations vs) = some info ∧ info.isWriter = false := by
  constructor
  · rintro ⟨before, s, after, info, rfl, hs, hsub, hafter⟩
    have hcons : registrations (s :: after) = (guid, info) :: registrations after :=
      List.filterMap_cons_some hs
    rw [registrations_append, lastWrite_append, hcons, lastWrite, if_pos rfl]
    cases hl : lastWrite guid (registrations after) with
    | none => exact ⟨info, rfl, hsub⟩
    | some info' =>
      obtain ⟨v, hv, hr⟩ := List.mem_filterMap.mp (mem_of_lastWrite hl)
      exact ⟨info', rfl, hafter v hv info' hr⟩
  · rintro ⟨info, hl, hsub⟩
    obtain ⟨before, v, after, hvs, hv, hafter⟩ := exists_visit_of_lastWrite hl
    exact ⟨before, v, after, info, hvs, hv, hsub, fun u hu info' hr =>
      absurd rfl (hafter u hu _ hr)⟩

/-- A last registration that is a publication came from the publications writer. -/
theorem fromPublication_iff {before : List Step} {guid : Guid} {info : EndpointInfo}
    (h : lastWrite guid (registrations (before.map Step.visit)) = some info) :
    FromPublication before guid info.topic ↔ info.isWriter = true := by
  constructor
  · rintro ⟨b, p, a, d, info', rfl, hd, hw, hp, -, ha⟩
    have hlast : lastWrite guid (registrations ((b ++ p :: a).map Step.visit)) = some info' := by
      rw [List.map_append, List.map_cons]
      refine lastWrite_of_visit hp fun u hu r hr => ?_
      obtain ⟨q, hq, rfl⟩ := List.mem_map.mp hu
      exact ha q hq r hr
    obtain rfl : info' = info := Option.some.inj (hlast.symm.trans h)
    obtain ⟨d', hd', hdir⟩ := Visit.isWriter_of_registration hp
    obtain rfl : d = d' := by simpa [hd] using hd'
    simpa [hw] using hdir
  · intro hpub
    obtain ⟨b, v, a, hvs, hv, ha⟩ := exists_visit_of_lastWrite h
    obtain ⟨bs, rest, rfl, rfl, hrest⟩ := List.map_eq_append_iff.mp hvs
    obtain ⟨p, as, rfl, rfl, rfl⟩ := List.map_eq_cons_iff.mp hrest
    obtain ⟨d, hd, hdir⟩ := Visit.isWriter_of_registration hv
    refine ⟨bs, p, as, d, info, rfl, hd, by simpa [hpub] using hdir.symm, hv, rfl, ?_⟩
    exact fun q hq => ha q.visit (List.mem_map_of_mem hq)

/-- A pass over user data is attributed exactly when its GUID is not shadowed. -/
theorem attributed_iff {cfg : Config} {msgs : List (Origin × Bytes)} {before after : List Step}
    {s : Step} (hsplit : steps cfg msgs Globals.init = before ++ s :: after) {d : DataSub}
    (hd : s.visit.submsg.content = .data d) (hr : d.role = .user)
    (hm : cfg.printMode ≠ .reannounce) :
    s.Attributed cfg before d ↔
      ¬ Shadowed ⟨headerPrefix s.data, d.writer⟩ (before.map Step.visit) := by
  obtain ⟨hran, hnext⟩ := linked_steps cfg msgs Globals.init before s after hsplit
  have hlook : s.walk.globals.endpoints.lookup (fmtGuid ⟨headerPrefix s.data, d.writer⟩) =
      lastWrite ⟨headerPrefix s.data, d.writer⟩ (registrations (before.map Step.visit)) := by
    rw [hran.endpoints]
    exact lookup_registryAfter _ _
  have hout : (s.walk.globals.apply cfg s.visit).cout = s.walk.globals.cout ++
      [d.userRecord s.origin (headerPrefix s.data) (lastWrite ⟨headerPrefix s.data, d.writer⟩
        (registrations (before.map Step.visit)))] := by
    rw [(Globals.stepped_apply cfg s.walk.globals s.visit).cout,
      records_of_user cfg hd hr hm, ← hlook]
    rfl
  rw [shadowed_iff]
  constructor
  · rintro ⟨hknown, -⟩ ⟨info, hl, hsub⟩
    have hpub := (fromPublication_iff hl).mp (hknown info (hlook.trans hl))
    simp [hsub] at hpub
  · intro hpub
    have hall : ∀ info, lastWrite ⟨headerPrefix s.data, d.writer⟩
        (registrations (before.map Step.visit)) = some info → info.isWriter = true := by
      intro info hl
      by_contra hsub
      exact hpub ⟨info, hl, by simpa using hsub⟩
    refine ⟨fun info hl => ?_, _, hnext, ?_⟩
    · rw [hlook] at hl
      exact (fromPublication_iff hl).mpr (hall info hl)
    · rw [hout, publications, lastWrite_filter hall]

/-- In a run from program start every user-data record is attributed to a topic
through publications exactly when no user-data message comes while a subscription
shadows its writer's GUID. -/
theorem data_attributed_iff (cfg : Config) (msgs : List (Origin × Bytes)) :
    (cfg.printMode ≠ .reannounce → ∀ before s after,
        steps cfg msgs Globals.init = before ++ s :: after →
        ∀ d, s.visit.submsg.content = .data d → d.role = .user → s.Attributed cfg before d) ↔
      (cfg.printMode ≠ .reannounce → ∀ before v after,
        runVisits msgs = before ++ v :: after →
        ∀ d, v.submsg.content = .data d → d.role = .user →
          ¬ Shadowed ⟨v.guidPrefix, d.writer⟩ before) := by
  constructor
  · intro h hm before v after hsplit d hd hr
    obtain ⟨bs, s, as, hsteps, rfl, rfl⟩ := exists_split_steps cfg Globals.init hsplit
    exact (attributed_iff hsteps hd hr hm).mp (h hm bs s as hsteps d hd hr)
  · intro h hm before s after hsplit d hd hr
    refine (attributed_iff hsplit hd hr hm).mpr (h hm (before.map Step.visit) s.visit
      (after.map Step.visit) ?_ d hd hr)
    rw [← map_visit_steps cfg msgs Globals.init, hsplit, List.map_append, List.map_cons]

/-- A writer of the participant `11111111:11111111:11111111`. -/
def shadowedWriter : Guid := ⟨List.Vector.replicate 12 0x11, ⟨[0x00, 0x00, 0x01, 0x03], rfl⟩⟩

/-- A subscription of topic `X` under the GUID of the writer, and data of the writer. -/
def shadowingRun : List (Origin × Bytes) :=
  [(⟨[], 7400, 7400, ⟨0, 0⟩⟩,
    rtpsMagic ++ [0x02, 0x05, 0x01, 0x10] ++ List.replicate 12 0x11 ++
      [0x15, 0x05, 0x3C, 0x00, 0x00, 0x00, 0x10, 0x00, 0x00, 0x00, 0x04, 0xC7,
        0x00, 0x00, 0x04, 0xC2, 0x00, 0x00, 0x00, 0x00, 0x01, 0x00, 0x00, 0x00,
        0x00, 0x03, 0x00, 0x00,
        0x05, 0x00, 0x08, 0x00, 0x02, 0x00, 0x00, 0x00, 0x58, 0x00, 0x00, 0x00,
        0x5A, 0x00, 0x10, 0x00] ++ List.replicate 12 0x11 ++ [0x00, 0x00, 0x01, 0x03,
        0x01, 0x00, 0x00, 0x00]),
   (⟨[], 7400, 7400, ⟨1, 0⟩⟩,
    rtpsMagic ++ [0x02, 0x05, 0x01, 0x10] ++ List.replicate 12 0x11 ++
      [0x15, 0x05, 0x1C, 0x00, 0x00, 0x00, 0x10, 0x00, 0x00, 0x00, 0x00, 0x00,
        0x00, 0x00, 0x01, 0x03, 0x00, 0x00, 0x00, 0x00, 0x01, 0x00, 0x00, 0x00,
        0x00, 0x01, 0x00, 0x00, 0x2A, 0x00, 0x00, 0x00])]

/-- The writer's data is shown under the topic of the subscription. -/
theorem shadowed_data_misattributed :
    (handleAll ⟨.both, false, true⟩ shadowingRun Globals.init).map (·.cout) =
      some [.sedp false false (fmtGuid shadowedWriter) (text "X") [] false,
        .data ⟨[], 7400, 7400, ⟨1, 0⟩⟩ (fmtGuid shadowedWriter) (text "000000|00") (text "X") 1
          (text "000100002a000000")] ∧
    ¬ ((⟨.both, false, true⟩ : Config).printMode ≠ .reannounce → ∀ before s after,
        steps ⟨.both, false, true⟩ shadowingRun Globals.init = before ++ s :: after →
        ∀ d, s.visit.submsg.content = .data d → d.role = .user →
          s.Attributed ⟨.both, false, true⟩ before d) := by
  refine ⟨by decide +kernel, fun h => ?_⟩
  obtain ⟨v, w, hrun, hv, hw⟩ : ∃ v w, runVisits shadowingRun = [v] ++ w :: [] ∧
      v.registration = some (shadowedWriter, ⟨text "X", [], false⟩) ∧
      ∃ d, w.submsg.content = .data d ∧ d.role = .user ∧
        (⟨w.guidPrefix, d.writer⟩ : Guid) = shadowedWriter := by
    refine ⟨(runVisits shadowingRun).get ⟨0, by decide +kernel⟩,
      (runVisits shadowingRun).get ⟨1, by decide +kernel⟩, by decide +kernel, by decide +kernel, ?_⟩
    exact ⟨decodeData ((shadowingRun.get ⟨1, by decide⟩).2.drop 20), by decide +kernel,
      by decide +kernel, by decide +kernel⟩
  obtain ⟨d, hd, hr, hguid⟩ := hw
  obtain ⟨bs, s, as, hsteps, hbs, rfl⟩ :=
    exists_split_steps ⟨.both, false, true⟩ Globals.init hrun
  have hatt := h (by decide) bs s as hsteps d hd hr
  refine (attributed_iff hsteps hd hr (by decide)).mp hatt ?_
  rw [hbs]
  exact ⟨[], v, [], ⟨text "X", [], false⟩, rfl, hguid ▸ hv, rfl, by simp⟩

end DdsPlayground.Inspector
