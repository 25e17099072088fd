import DdsPlayground.Core.LastWrite
import DdsPlayground.Inspector.Semantics.Frame

/-!
# What a run leaves in the globals

A run is the list of the submessages that it visits. What each of them
registers, counts and prints is stated once, and the globals after a run are
the fold of these contributions: the registry is the history of the
registrations, the counters are counts, and standard output is the
concatenation of the records, each computed in the registry of its moment.
-/

namespace DdsPlayground.Inspector

open ByteWire LastWrite

/-! ## One submessage -/

/-- A submessage in its message: what a pass of the submessage loop works on. -/
structure Visit where
  origin : Origin
  guidPrefix : GuidPrefix
  submsg : Submsg
  deriving DecidableEq

/-- A visited submessage acts on the globals. -/
def Globals.apply (cfg : Config) (g : Globals) (v : Visit) : Globals :=
  g.visit cfg v.origin v.guidPrefix v.submsg

/-- The role of a visited submessage; only a complete DATA submessage has one. -/
def Visit.role (v : Visit) : Role :=
  match v.submsg.content with
  | .data d => d.role
  | _ => .silent

/-- What a visited submessage registers. -/
def Visit.registration (v : Visit) : Option (Guid × EndpointInfo) :=
  match v.submsg.content with
  | .data d =>
    match d.role with
    | .sedp isPub => announcement ⟨v.guidPrefix, d.writer⟩ d.payload isPub
    | _ => none
  | _ => none

/-- An SEDP announcement is counted, with or without a topic. -/
def Visit.isSedp (v : Visit) : Bool := v.role = .sedp true ∨ v.role = .sedp false

/-- A user-data message is counted. -/
def Visit.isUser (v : Visit) : Bool := v.role = .user

/-- What the parser asks of the registry. -/
structure Directory where
  /-- The entry of a GUID. -/
  find : Guid → Option EndpointInfo
  /-- No endpoint is known. -/
  isEmpty : Bool

/-- The questions answered by the map under the text of a GUID. -/
def directory (endpoints : Registry) : Directory :=
  ⟨fun guid => endpoints.lookup (fmtGuid guid), endpoints = ∅⟩

/-- The record of a registration; `known` says that the GUID has an entry. -/
def registrationRecord (cfg : Config) (known : Bool) (a : Guid × EndpointInfo) : Record :=
  .sedp a.2.isWriter known (fmtGuid a.1) a.2.topic a.2.typeName
    (a.2.isWriter && cfg.printMode != .reannounce)

/-- What a visited submessage prints on standard output. -/
def Visit.records (cfg : Config) (dir : Directory) (v : Visit) : List Record :=
  match v.submsg.content with
  | .heartbeat writer =>
    if (writer = eidSedpPubWriter ∨ writer = eidSedpSubWriter) && dir.isEmpty &&
      cfg.printMode != .traffic then [.missedSedp] else []
  | .data d =>
    match d.role with
    | .spdp =>
      if cfg.printMode != .traffic then [.spdp v.origin (fmtPrefix v.guidPrefix)] else []
    | .sedp isPub =>
      (announcement ⟨v.guidPrefix, d.writer⟩ d.payload isPub).elim [] fun a =>
        if cfg.printMode != .traffic then
          [registrationRecord cfg (dir.find a.1).isSome a] else []
    | .user =>
      if cfg.printMode != .reannounce then
        [d.userRecord v.origin v.guidPrefix (dir.find ⟨v.guidPrefix, d.writer⟩)] else []
    | .silent => []
  | _ => []

/-- The key of a registration. -/
def keyed (a : Guid × EndpointInfo) : Text × EndpointInfo := (fmtGuid a.1, a.2)

@[simp] theorem Globals.print_endpoints (g : Globals) (b : Bool) (r : Record) :
    (g.print b r).endpoints = g.endpoints := by cases b <;> rfl

@[simp] theorem Globals.print_cntCaptured (g : Globals) (b : Bool) (r : Record) :
    (g.print b r).cntCaptured = g.cntCaptured := by cases b <;> rfl

@[simp] theorem Globals.print_cntRtps (g : Globals) (b : Bool) (r : Record) :
    (g.print b r).cntRtps = g.cntRtps := by cases b <;> rfl

@[simp] theorem Globals.print_cntSedp (g : Globals) (b : Bool) (r : Record) :
    (g.print b r).cntSedp = g.cntSedp := by cases b <;> rfl

@[simp] theorem Globals.print_cntData (g : Globals) (b : Bool) (r : Record) :
    (g.print b r).cntData = g.cntData := by cases b <;> rfl

@[simp] theorem Globals.print_cout (g : Globals) (b : Bool) (r : Record) :
    (g.print b r).cout = g.cout ++ if b then [r] else [] := by
  cases b <;> simp [Globals.print]

/-- A diagnostic shows on standard error alone. -/
theorem Globals.diag_eq (g : Globals) (b : Bool) (d : Diag) :
    g.diag b d = { g with cerr := (g.diag b d).cerr } := by cases b <;> rfl

@[simp] theorem Globals.diag_endpoints (g : Globals) (b : Bool) (d : Diag) :
    (g.diag b d).endpoints = g.endpoints := by rw [Globals.diag_eq]

@[simp] theorem Globals.diag_cntCaptured (g : Globals) (b : Bool) (d : Diag) :
    (g.diag b d).cntCaptured = g.cntCaptured := by rw [Globals.diag_eq]

@[simp] theorem Globals.diag_cntRtps (g : Globals) (b : Bool) (d : Diag) :
    (g.diag b d).cntRtps = g.cntRtps := by rw [Globals.diag_eq]

@[simp] theorem Globals.diag_cntSedp (g : Globals) (b : Bool) (d : Diag) :
    (g.diag b d).cntSedp = g.cntSedp := by rw [Globals.diag_eq]

@[simp] theorem Globals.diag_cntData (g : Globals) (b : Bool) (d : Diag) :
    (g.diag b d).cntData = g.cntData := by rw [Globals.diag_eq]

@[simp] theorem Globals.diag_cout (g : Globals) (b : Bool) (d : Diag) :
    (g.diag b d).cout = g.cout := by rw [Globals.diag_eq]

/-- The endpoints, counters and output that a visited submessage leaves. -/
structure Globals.Stepped (cfg : Config) (g : Globals) (v : Visit) (g' : Globals) : Prop where
  endpoints : g'.endpoints = writeAll g.endpoints (v.registration.toList.map keyed)
  cntCaptured : g'.cntCaptured = g.cntCaptured
  cntRtps : g'.cntRtps = g.cntRtps
  cntSedp : g'.cntSedp = g.cntSedp + if v.isSedp then 1 else 0
  cntData : g'.cntData = g.cntData + if v.isUser then 1 else 0
  cout : g'.cout = g.cout ++ v.records cfg (directory g.endpoints)

section

attribute [local simp] Globals.apply Globals.visit Globals.visitData Globals.visitHeartbeat
  Visit.registration Visit.isSedp Visit.isUser Visit.role Visit.records directory

/-- What one visited submessage can do. -/
theorem Globals.stepped_apply (cfg : Config) (g : Globals) (v : Visit) :
    Globals.Stepped cfg g v (g.apply cfg v) := by
  obtain ⟨o, p, ⟨id, flags, len, content⟩⟩ := v
  cases content with
  | other => constructor <;> simp
  | shortData => constructor <;> simp
  | heartbeat writer => constructor <;> simp
  | data d =>
    cases hr : d.role with
    | spdp => constructor <;> simp [hr]
    | sedp isPub =>
      cases ha : announcement ⟨p, d.writer⟩ d.payload isPub with
      | none => constructor <;> cases isPub <;> simp [hr, ha]
      | some a =>
        constructor <;> cases isPub <;> simp [Globals.register, registrationRecord, keyed, hr, ha]
    | user => constructor <;> simp [hr]
    | silent => constructor <;> simp [hr]

end

/-! ## Runs -/

/-- The registrations of a run, in order. -/
def registrations (vs : List Visit) : List (Guid × EndpointInfo) := vs.filterMap Visit.registration

/-- The registry after a run. -/
def registryAfter (endpoints : Registry) (vs : List Visit) : Registry :=
  writeAll endpoints ((registrations vs).map keyed)

/-- The records of a run, each computed in the registry of its moment. -/
def runRecords (cfg : Config) : Registry → List Visit → List Record
  | _, [] => []
  | endpoints, v :: vs =>
    v.records cfg (directory endpoints) ++ runRecords cfg (registryAfter endpoints [v]) vs

@[simp] theorem registrations_nil : registrations [] = [] := rfl

@[simp] theorem registrations_append (vs ws : List Visit) :
    registrations (vs ++ ws) = registrations vs ++ registrations ws := List.filterMap_append ..

theorem registrations_singleton (v : Visit) : registrations [v] = v.registration.toList := by
  cases h : v.registration <;> simp [registrations, h]

@[simp] theorem registryAfter_nil (endpoints : Registry) : registryAfter endpoints [] = endpoints :=
  rfl

theorem registryAfter_append (endpoints : Registry) (vs ws : List Visit) :
    registryAfter endpoints (vs ++ ws) = registryAfter (registryAfter endpoints vs) ws := by
  simp only [registryAfter, registrations_append, List.map_append, writeAll_append]

theorem runRecords_append (cfg : Config) (endpoints : Registry) (vs ws : List Visit) :
    runRecords cfg endpoints (vs ++ ws) =
      runRecords cfg endpoints vs ++ runRecords cfg (registryAfter endpoints vs) ws := by
  induction vs generalizing endpoints with
  | nil => rfl
  | cons v vs ih =>
    rw [List.cons_append, runRecords, ih, runRecords, List.append_assoc, ← registryAfter_append]
    rfl

/-- The globals after a run, up to the packet counters and standard error. -/
structure Globals.Ran (cfg : Config) (g : Globals) (vs : List Visit) (g' : Globals) : Prop where
  endpoints : g'.endpoints = registryAfter g.endpoints vs
  cntSedp : g'.cntSedp = g.cntSedp + vs.countP Visit.isSedp
  cntData : g'.cntData = g.cntData + vs.countP Visit.isUser
  cout : g'.cout = g.cout ++ runRecords cfg g.endpoints vs

theorem Globals.Ran.nil (cfg : Config) (g : Globals) : Globals.Ran cfg g [] g :=
  ⟨rfl, rfl, rfl, (List.append_nil _).symm⟩

/-- Runs compose. -/
theorem Globals.Ran.append {cfg : Config} {g g' g'' : Globals} {vs ws : List Visit}
    (h : Globals.Ran cfg g vs g') (h' : Globals.Ran cfg g' ws g'') :
    Globals.Ran cfg g (vs ++ ws) g'' where
  endpoints := by rw [h'.endpoints, h.endpoints, registryAfter_append]
  cntSedp := by rw [h'.cntSedp, h.cntSedp, List.countP_append, Nat.add_assoc]
  cntData := by rw [h'.cntData, h.cntData, List.countP_append, Nat.add_assoc]
  cout := by rw [h'.cout, h.cout, h.endpoints, runRecords_append, List.append_assoc]

/-- A fold of steps that each run some submessages runs all of them. -/
theorem Globals.Ran.foldl {ι : Type*} {cfg : Config} {f : Globals → ι → Globals}
    {visits : ι → List Visit} (h : ∀ g i, Globals.Ran cfg g (visits i) (f g i)) (l : List ι)
    (g : Globals) : Globals.Ran cfg g (l.flatMap visits) (l.foldl f g) := by
  induction l generalizing g with
  | nil => exact Globals.Ran.nil cfg g
  | cons i l ih => exact (h g i).append (ih (f g i))

theorem Globals.ran_apply (cfg : Config) (g : Globals) (v : Visit) :
    Globals.Ran cfg g [v] (g.apply cfg v) := by
  have h := Globals.stepped_apply cfg g v
  refine ⟨?_, ?_, ?_, ?_⟩
  · rw [h.endpoints, registryAfter, registrations_singleton]
  · rw [h.cntSedp, List.countP_singleton]
  · rw [h.cntData, List.countP_singleton]
  · rw [h.cout, runRecords, runRecords, List.append_nil]

/-- The submessages that a message visits. -/
def messageVisits (m : Origin × Bytes) : List Visit :=
  if isRtps m.2 then (submsgs m.2).map fun s => ⟨m.1, headerPrefix m.2, s⟩ else []

/-- A message runs its submessages. -/
theorem Globals.ran_receive (cfg : Config) (g : Globals) (m : Origin × Bytes) :
    Globals.Ran cfg g (messageVisits m) (g.receive cfg m.1 m.2) := by
  cases h : isRtps m.2 with
  | false =>
    simp only [messageVisits, Globals.receive, h, Bool.false_eq_true, if_false]
    exact ⟨Globals.diag_endpoints .., Globals.diag_cntSedp .., Globals.diag_cntData ..,
      by simp [runRecords]⟩
  | true =>
    have hrun : Globals.Ran cfg { g with cntRtps := g.cntRtps + 1 }
        ((messageVisits m).flatMap fun v => [v])
        ((messageVisits m).foldl (Globals.apply cfg) { g with cntRtps := g.cntRtps + 1 }) :=
      Globals.Ran.foldl (Globals.ran_apply cfg) (messageVisits m) _
    rw [List.flatMap_singleton'] at hrun
    have hg : g.receive cfg m.1 m.2 =
        (messageVisits m).foldl (Globals.apply cfg) { g with cntRtps := g.cntRtps + 1 } := by
      simp only [Globals.receive, messageVisits, h, if_true, List.foldl_map]
      rfl
    rw [hg]
    exact ⟨hrun.endpoints, hrun.cntSedp, hrun.cntData, hrun.cout⟩

/-- A sequence of messages through `handle_rtps`. -/
def handleAll (cfg : Config) (msgs : List (Origin × Bytes)) (g : Globals) : Option Globals :=
  msgs.foldlM (fun g m => handleRtps cfg m.1 m.2 g) g

/-- The submessages that a sequence of messages visits. -/
def runVisits (msgs : List (Origin × Bytes)) : List Visit := msgs.flatMap messageVisits

/-- A sequence of messages ends, and runs its submessages. -/
theorem handleAll_eq (cfg : Config) (msgs : List (Origin × Bytes)) (g : Globals) :
    handleAll cfg msgs g = some (msgs.foldl (fun g m => g.receive cfg m.1 m.2) g) := by
  induction msgs generalizing g with
  | nil => rfl
  | cons m msgs ih =>
    rw [handleAll, List.foldlM_cons, handleRtps_eq]
    exact ih _

theorem exists_handleAll (cfg : Config) (msgs : List (Origin × Bytes)) (g : Globals) :
    ∃ g', handleAll cfg msgs g = some g' ∧ Globals.Ran cfg g (runVisits msgs) g' :=
  ⟨_, handleAll_eq cfg msgs g, Globals.Ran.foldl (Globals.ran_receive cfg) msgs g⟩

end DdsPlayground.Inspector
