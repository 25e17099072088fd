import DdsPlayground.Inspector.Semantics.Effects

/-!
# Runs that differ in mute submessages

Two runs over one list of positions, where each position visits the same
submessage in both or one without any effect in the second, leave the same
exactly when the first does nothing at the positions where they differ. The
counters tell which positions are counted, the registries then agree at every
position, and the length of the output tells which positions print.
-/

namespace DdsPlayground.Inspector

variable {ι : Type*}

/-- The submessage has no effect in any registry. -/
def Visit.Mute (v : Visit) : Prop :=
  v.submsg.content = .other ∨ v.submsg.content = .shortData

/-- The submessage has no effect in the given registry. -/
structure Visit.Quiet (cfg : Config) (endpoints : Registry) (v : Visit) : Prop where
  isSedp : v.isSedp = false
  isUser : v.isUser = false
  records : v.records cfg (directory endpoints) = []

/-- Two runs have the same effect on the registry, the counters and the output. -/
structure SameEffect (cfg : Config) (start : Registry) (vs ws : List Visit) : Prop where
  endpoints : registryAfter start vs = registryAfter start ws
  cntSedp : vs.countP Visit.isSedp = ws.countP Visit.isSedp
  cntData : vs.countP Visit.isUser = ws.countP Visit.isUser
  cout : runRecords cfg start vs = runRecords cfg start ws

theorem Visit.Mute.quiet {v : Visit} (h : v.Mute) (cfg : Config) (endpoints : Registry) :
    v.Quiet cfg endpoints := by
  rcases h with h | h <;>
    exact ⟨by simp [Visit.isSedp, Visit.role, h], by simp [Visit.isUser, Visit.role, h],
      by simp [Visit.records, h]⟩

/-- Only a counted announcement registers. -/
theorem Visit.registration_eq_none {v : Visit} (h : v.isSedp = false) : v.registration = none := by
  simp only [Visit.isSedp, Visit.role] at h
  unfold Visit.registration
  split
  · next d hd =>
    simp only [hd] at h
    split
    · next isPub hr => cases isPub <;> simp [hr] at h
    · rfl
  · rfl

theorem registryAfter_cons (endpoints : Registry) (v : Visit) (vs : List Visit) :
    registryAfter endpoints (v :: vs) = registryAfter (registryAfter endpoints [v]) vs :=
  registryAfter_append endpoints [v] vs

theorem registryAfter_singleton_of_none {v : Visit} (h : v.registration = none)
    (endpoints : Registry) : registryAfter endpoints [v] = endpoints := by
  rw [registryAfter, registrations_singleton, h]
  rfl

/-- Submessages that register the same leave the same registry. -/
theorem registryAfter_map_congr {l : List ι} {f g : ι → Visit}
    (h : ∀ i ∈ l, (f i).registration = (g i).registration) (endpoints : Registry) :
    registryAfter endpoints (l.map f) = registryAfter endpoints (l.map g) := by
  have hreg : registrations (l.map f) = registrations (l.map g) := by
    simp only [registrations, List.filterMap_map]
    exact List.filterMap_congr h
  rw [registryAfter, registryAfter, hreg]

/-- Equal counts of two predicates, one below the other, are counts of the same elements. -/
theorem eq_of_countP_eq {l : List ι} {p q : ι → Bool} (hle : ∀ i ∈ l, q i → p i)
    (h : l.countP p = l.countP q) : ∀ i ∈ l, p i = q i := by
  induction l with
  | nil => simp
  | cons a l ih =>
    obtain ⟨ha, hl⟩ := List.forall_mem_cons.mp hle
    have hmono := List.countP_mono_left hl
    rw [List.countP_cons, List.countP_cons] at h
    have hhead : p a = q a := by
      cases hp : p a with
      | true =>
        cases hq : q a with
        | true => rfl
        | false =>
          simp only [hp, hq, if_true, Bool.false_eq_true, if_false] at h
          omega
      | false =>
        cases hq : q a with
        | true => simp [ha hq] at hp
        | false => rfl
    rw [hhead] at h
    exact List.forall_mem_cons.mpr ⟨hhead, ih hl (by omega)⟩

/-- Where the registrations agree, equal outputs come from equal records at every position. -/
theorem records_eq_nil_of_runRecords_eq {cfg : Config} {l : List ι} {f g : ι → Visit}
    (hmute : ∀ i ∈ l, f i = g i ∨ (g i).Mute)
    (hreg : ∀ i ∈ l, (f i).registration = (g i).registration) (endpoints : Registry) :
    (runRecords cfg endpoints (l.map g)).length ≤ (runRecords cfg endpoints (l.map f)).length ∧
      ((runRecords cfg endpoints (l.map f)).length = (runRecords cfg endpoints (l.map g)).length →
        ∀ before i after, l = before ++ i :: after → f i = g i ∨
          (f i).records cfg (directory (registryAfter endpoints (before.map g))) = []) := by
  induction l generalizing endpoints with
  | nil => simp
  | cons a l ih =>
    obtain ⟨hma, hml⟩ := List.forall_mem_cons.mp hmute
    obtain ⟨hra, hrl⟩ := List.forall_mem_cons.mp hreg
    have hend : registryAfter endpoints [f a] = registryAfter endpoints [g a] :=
      registryAfter_map_congr (l := [a]) (f := f) (g := g) (by simpa using hra) endpoints
    obtain ⟨hle, heq⟩ := ih hml hrl (registryAfter endpoints [g a])
    have hhead : ((g a).records cfg (directory endpoints)).length ≤
        ((f a).records cfg (directory endpoints)).length := by
      rcases hma with hfg | hm
      · rw [hfg]
      · simp [(hm.quiet cfg endpoints).records]
    simp only [List.map_cons, runRecords, List.length_append, hend]
    refine ⟨by omega, fun hlen before i after hsplit => ?_⟩
    cases before with
    | nil =>
      obtain ⟨rfl, -⟩ := List.cons.inj hsplit
      rcases hma with hfg | hm
      · exact Or.inl hfg
      · have hnil : ((g a).records cfg (directory endpoints)).length = 0 := by
          rw [(hm.quiet cfg endpoints).records, List.length_nil]
        refine Or.inr (List.length_eq_zero_iff.mp ?_)
        simp only [List.map_nil, registryAfter_nil]
        omega
    | cons b before =>
      obtain ⟨rfl, htail⟩ := List.cons.inj hsplit
      rw [List.map_cons, registryAfter_cons]
      exact heq (by omega) before i after htail

/-- A run that differs only where it is quiet has the same effect. -/
theorem sameEffect_of_quiet {cfg : Config} {l : List ι} {f g : ι → Visit}
    (hmute : ∀ i ∈ l, f i = g i ∨ (g i).Mute) (endpoints : Registry)
    (h : ∀ before i after, l = before ++ i :: after →
      f i = g i ∨ (f i).Quiet cfg (registryAfter endpoints (before.map g))) :
    SameEffect cfg endpoints (l.map f) (l.map g) := by
  induction l generalizing endpoints with
  | nil => exact ⟨rfl, rfl, rfl, rfl⟩
  | cons a l ih =>
    obtain ⟨hma, hml⟩ := List.forall_mem_cons.mp hmute
    have htail := ih hml (registryAfter endpoints [g a]) fun before i after hsplit => by
      have := h (a :: before) i after (by rw [hsplit]; rfl)
      rwa [List.map_cons, registryAfter_cons] at this
    have hend : registryAfter endpoints [f a] = registryAfter endpoints [g a] ∧
        (f a).isSedp = (g a).isSedp ∧ (f a).isUser = (g a).isUser ∧
        (f a).records cfg (directory endpoints) = (g a).records cfg (directory endpoints) := by
      rcases hma with hfg | hm
      · rw [hfg]
        exact ⟨rfl, rfl, rfl, rfl⟩
      · rcases h [] a l rfl with hfg | hq
        · rw [hfg]
          exact ⟨rfl, rfl, rfl, rfl⟩
        · have hg := hm.quiet cfg endpoints
          rw [registryAfter_singleton_of_none (Visit.registration_eq_none hq.isSedp),
            registryAfter_singleton_of_none (Visit.registration_eq_none hg.isSedp), hq.isSedp,
            hq.isUser, hg.isSedp, hg.isUser, hg.records]
          exact ⟨rfl, rfl, rfl, hq.records⟩
    obtain ⟨hreg, hsedp, huser, hrec⟩ := hend
    refine ⟨?_, ?_, ?_, ?_⟩
    · rw [List.map_cons, List.map_cons, registryAfter_cons, hreg, htail.endpoints,
        ← registryAfter_cons]
    · rw [List.map_cons, List.map_cons, List.countP_cons, List.countP_cons, htail.cntSedp, hsedp]
    · rw [List.map_cons, List.map_cons, List.countP_cons, List.countP_cons, htail.cntData, huser]
    · rw [List.map_cons, List.map_cons, runRecords, runRecords, hreg, htail.cout, hrec]

/-- Two runs that differ only in mute submessages have the same effect exactly when
the first is quiet wherever they differ. -/
theorem sameEffect_iff {cfg : Config} {l : List ι} {f g : ι → Visit}
    (hmute : ∀ i ∈ l, f i = g i ∨ (g i).Mute) (endpoints : Registry) :
    SameEffect cfg endpoints (l.map f) (l.map g) ↔
      ∀ before i after, l = before ++ i :: after →
        f i = g i ∨ (f i).Quiet cfg (registryAfter endpoints (before.map g)) := by
  refine ⟨fun h => ?_, sameEffect_of_quiet hmute endpoints⟩
  have hcount {q : Visit → Bool} (hq : ∀ v : Visit, v.Mute → q v = false)
      (hc : (l.map f).countP q = (l.map g).countP q) : ∀ i ∈ l, q (f i) = q (g i) := by
    rw [List.countP_map, List.countP_map] at hc
    refine eq_of_countP_eq (p := q ∘ f) (q := q ∘ g) (fun i hi hgi => ?_) hc
    rcases hmute i hi with hfg | hm
    · simpa [hfg] using hgi
    · simp [hq _ hm] at hgi
  have hsedp := hcount (fun v hm => (hm.quiet cfg ∅).isSedp) h.cntSedp
  have huser := hcount (fun v hm => (hm.quiet cfg ∅).isUser) h.cntData
  have hreg : ∀ i ∈ l, (f i).registration = (g i).registration := by
    intro i hi
    rcases hmute i hi with hfg | hm
    · rw [hfg]
    · have hg := (hm.quiet cfg ∅).isSedp
      rw [Visit.registration_eq_none hg, Visit.registration_eq_none ((hsedp i hi).trans hg)]
  intro before i after hsplit
  have hi : i ∈ l := hsplit ▸ List.mem_append_cons_self
  rcases hmute i hi with hfg | hm
  · exact Or.inl hfg
  · have hrec := (records_eq_nil_of_runRecords_eq hmute hreg endpoints).2
      (congrArg List.length h.cout) before i after hsplit
    rcases hrec with hfg | hnil
    · exact Or.inl hfg
    · exact Or.inr ⟨(hsedp i hi).trans (hm.quiet cfg ∅).isSedp,
        (huser i hi).trans (hm.quiet cfg ∅).isUser, hnil⟩

end DdsPlayground.Inspector
