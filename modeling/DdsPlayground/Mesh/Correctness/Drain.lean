import DdsPlayground.Mesh.Correctness.Loss
import DdsPlayground.Mesh.Correctness.Progress
import DdsPlayground.Mesh.Semantics.Work

/-!
# The mesh comes to rest

Once ping has written its last value, every schedule of the other steps ends, and it can
only end where nothing is on its way and every program waits: there is neither a livelock
nor a deadlock.
-/

namespace DdsPlayground.Mesh

open Delivery

/-! ## Every schedule ends -/

/-- A line of pong takes its sample a step further. -/
theorem State.work_prints {m : State} {pong : Pong} {lines : List PongLine}
    (h : m.pong.Prints pong lines)
    (hrank : pong.rank + m.pong.cout.length < m.pong.rank + pong.cout.length) :
    State.work { m with pong := pong } < m.work := by
  have hcout := congrArg List.length h.cout
  have hping := congrArg List.length h.todoPing
  have hbaz := congrArg List.length h.todoBaz
  have hunsent := congrArg List.length h.unsent
  have hunsent' := congrArg List.length h.unsent'
  have hlines := length_lines lines
  simp only [List.length_append, List.length_nil] at hcout hping hbaz hunsent
  simp only [State.work, State.load]
  omega

/-- While DDS serves the programs, every action but those of ping lowers the work ahead. -/
theorem State.work_step {m m' : State} {a : Action} (hm : m.Attended) (ha : m.Serves a)
    (hping : ¬ a.OfPing) (h : m.step a = some m') : m'.work < m.work := by
  cases a with
  | pingPoll currentCount => exact absurd trivial hping
  | pingWrite rc => exact absurd trivial hping
  | pongWake triggered =>
    obtain ⟨pong, hpong, rfl⟩ := Option.map_eq_some_iff.mp h
    have hrank := (Pong.wake_rank hpong ha.1).1
    have hprints := Pong.wake_eq_some hpong
    refine State.work_prints hprints ?_
    rw [hprints.cout, List.append_nil]
    omega
  | pongNext =>
    obtain ⟨pong, hpong, rfl⟩ := Option.map_eq_some_iff.mp h
    have hprints := Pong.next_eq_some hpong
    rcases Pong.next_rank hpong with ⟨hrank, -⟩ | ⟨t, hzero, hone, hts⟩
    · refine State.work_prints hprints ?_
      rw [hprints.cout, List.append_nil]
      omega
    · have htriggered := hm.2 t (hts ▸ List.mem_cons_self)
      rcases htriggered with ⟨rfl, -⟩ | ⟨rfl, -⟩
      · exact absurd rfl hzero
      · exact absurd rfl hone
  | pongTakePing pattern =>
    obtain ⟨⟨es, c⟩, htake, hrest⟩ := Option.bind_eq_some_iff.mp h
    obtain ⟨pong, hpong, rfl⟩ := Option.map_eq_some_iff.mp hrest
    obtain ⟨htodo, htodo', -, hbaz, hbaz', hunsent, hunsent'⟩ := Pong.takePing_eq_some hpong
    obtain ⟨hpos, hcache, hflight⟩ := length_ddsTake htake ha
    have hlen := length_of_ddsTake htake
    have hrank := (Pong.takePing_rank hpong).1
    simp only [State.work, State.load, htodo, htodo', hbaz, hbaz', hunsent, hunsent', hcache,
      hflight, hrank, List.length_map, List.length_nil]
    simp only [kMaxSamples] at hlen
    omega
  | pongTakeBaz pattern =>
    obtain ⟨⟨es, c⟩, htake, hrest⟩ := Option.bind_eq_some_iff.mp h
    obtain ⟨pong, hpong, rfl⟩ := Option.map_eq_some_iff.mp hrest
    obtain ⟨htodo, htodo', -, hping', hping'', hunsent, hunsent'⟩ := Pong.takeBaz_eq_some hpong
    obtain ⟨hpos, hcache, hflight⟩ := length_ddsTake htake ha
    have hlen := length_of_ddsTake htake
    have hrank := (Pong.takeBaz_rank hpong).1
    simp only [State.work, State.load, htodo, htodo', hping', hping'', hunsent, hunsent', hcache,
      hflight, hrank, List.length_map, List.length_nil]
    simp only [kMaxSamples] at hlen
    omega
  | pongPass answers =>
    obtain ⟨pong, hpong, rfl⟩ := Option.map_eq_some_iff.mp h
    obtain ⟨lines, hprints⟩ := Pong.pass_eq_some hpong
    exact State.work_prints hprints (Pong.pass_rank hpong).1
  | pongWrite rc =>
    obtain ⟨⟨pong, msg⟩, hpong, rfl⟩ := Option.map_eq_some_iff.mp h
    obtain ⟨htodo, -, hunsent, hunsent', hbaz⟩ := Pong.write_eq_some hpong
    obtain ⟨hflight, hcache⟩ := length_ddsWrite m.pongBaz rc msg
    have hrank := (Pong.write_rank hpong).1
    simp only [State.work, State.load, htodo, hunsent, hunsent', hbaz, hcache, List.length_cons,
      List.length_nil]
    omega
  | bazTake pattern =>
    obtain ⟨⟨es, c⟩, htake, hrest⟩ := Option.bind_eq_some_iff.mp h
    obtain ⟨baz, hbaz, rfl⟩ := Option.map_eq_some_iff.mp hrest
    obtain ⟨htodo, htodo', -, hunsent, hunsent'⟩ := Baz.take_eq_some hbaz
    obtain ⟨hpos, hcache, hflight⟩ := length_ddsTake htake ha
    have hlen := length_of_ddsTake htake
    have hrank := Baz.take_rank hbaz
    simp only [State.work, State.load, htodo, htodo', hunsent, hunsent', hcache, hflight, hrank,
      List.length_map, List.length_nil]
    simp only [kMaxSamples] at hlen
    omega
  | bazPass =>
    obtain ⟨baz, hbaz, rfl⟩ := Option.map_eq_some_iff.mp h
    obtain ⟨xs, htodo, hreceived, hunsent, hunsent'⟩ := Baz.pass_eq_some hbaz
    have hrank := Baz.pass_rank hbaz
    rw [hreceived, List.length_append] at hrank
    simp only [State.work, State.load, htodo, hunsent, hunsent', List.length_append,
      List.length_map, List.length_nil]
    omega
  | bazWrite rc =>
    obtain ⟨⟨baz, msg⟩, hbaz, rfl⟩ := Option.map_eq_some_iff.mp h
    obtain ⟨htodo, -, hunsent, hunsent'⟩ := Baz.write_eq_some hbaz
    obtain ⟨hflight, hcache⟩ := length_ddsWrite m.bazPong rc msg
    have hrank := Baz.write_rank hbaz
    simp only [State.work, State.load, htodo, hunsent, hunsent', hcache, List.length_cons,
      List.length_nil]
    omega
  | hogeTake pattern =>
    obtain ⟨⟨es, c⟩, htake, hrest⟩ := Option.bind_eq_some_iff.mp h
    obtain ⟨hoge, hhoge, rfl⟩ := Option.map_eq_some_iff.mp hrest
    obtain ⟨htodo, htodo', -⟩ := Hoge.take_eq_some hhoge
    obtain ⟨hpos, hcache, hflight⟩ := length_ddsTake htake ha
    have hlen := length_of_ddsTake htake
    have hrank := Hoge.take_rank hhoge
    simp only [State.work, State.load, htodo, htodo', hcache, hflight, hrank, List.length_map,
      List.length_nil]
    simp only [kMaxSamples] at hlen
    omega
  | hogePass =>
    obtain ⟨hoge, hhoge, rfl⟩ := Option.map_eq_some_iff.mp h
    obtain ⟨xs, htodo, -⟩ := Hoge.pass_eq_some hhoge
    have hrank := Hoge.pass_rank hhoge
    simp only [State.work, State.load, htodo, List.length_append]
    omega
  | arrive l depth =>
    cases l <;> obtain ⟨c, hc, rfl⟩ := Option.map_eq_some_iff.mp h <;>
      obtain ⟨hflight, hcache, -⟩ := length_arrive hc <;>
        simp only [State.work, State.load] <;> omega
  | lose l i => exact ha.elim

/-- DDS serves the programs in every step of a run. -/
abbrev Served (m : State) (actions : List Action) : Prop :=
  History.Guarded State.step State.Serves m actions

theorem State.attended_init : State.init.Attended := ⟨List.nodup_nil, nofun⟩

theorem State.attended_of_run {actions : List Action} {m : State}
    (h : State.init.run actions = some m) (hserved : Served State.init actions) : m.Attended :=
  hserved.invariant (fun _ _ _ hm ha hstep => State.attended_of_step hm ha hstep) h
    State.attended_init

/-- The steps behind the last write of ping are bounded by the work ahead of it. -/
theorem schedule_bounded {before after : List Action} {m m' : State}
    (h : State.init.run before = some m) (h' : m.run after = some m')
    (hserved : Served State.init (before ++ after)) (hping : ∀ a ∈ after, ¬ a.OfPing) :
    after.length + m'.work ≤ m.work := by
  obtain ⟨hbefore, hafter⟩ := (History.guarded_append h).mp hserved
  refine (hafter.and_forall hping).length_add_le ?_ ?_ h' (State.attended_of_run h hbefore)
  · exact fun _ _ _ hm ha hstep => State.attended_of_step hm ha.1 hstep
  · exact fun _ _ _ hm ha hstep => State.work_step hm ha.1 ha.2 hstep

/-- Ping has written a value, and it has arrived at its two readers. -/
def writtenActions : List Action :=
  [.pingPoll 2, .pingWrite 0, .arrive .pingHoge 1, .arrive .pingPong 1]

set_option maxRecDepth 4000 in
theorem schedule_bounded_relay : ∃ m m', State.init.run writtenActions = some m ∧
    m.run relayActions = some m' ∧ relayActions.length + m'.work ≤ m.work := by
  obtain ⟨m, hm, m', hm', hserved⟩ : ∃ m ∈ State.init.run writtenActions,
      ∃ m' ∈ m.run relayActions, Served State.init (writtenActions ++ relayActions) := by decide
  exact ⟨m, m', hm, hm', schedule_bounded hm hm' hserved (by decide)⟩

/-! ## Every end is at rest -/

/-- Nothing is on its way, and the three programs behind ping wait. -/
structure State.AtRest (m : State) : Prop where
  quiet : m.Quiet
  hoge : m.hoge.pc = .wait
  baz : m.baz.pc = .wait
  pong : m.pong.pc = .wait

/-- No step is left but those of ping. -/
def State.Stuck (m : State) : Prop := ∀ a, ¬ a.OfPing → m.Serves a → m.step a = none

theorem State.Stuck.false {m : State} (h : m.Stuck) {a : Action} (hping : ¬ a.OfPing)
    (ha : m.Serves a) (hstep : (m.step a).isSome) : False := by
  rw [h a hping ha] at hstep
  cases hstep

/-- What is in flight can arrive. -/
theorem arrive_isSome {α : Type} {c : Channel α} (h : c.flight ≠ []) : (c.arrive 1).isSome := by
  unfold Channel.arrive
  split
  · next hf => exact absurd hf h
  · rfl

/-- What has arrived can be taken. -/
theorem ddsTake_isSome {α : Type} {c : Channel α} (h : c.cache ≠ []) :
    ∃ es c', ddsTake c [none] = some (es, c') := by
  obtain ⟨x, xs, hc⟩ := List.exists_cons_of_ne_nil h
  refine ⟨[⟨true, x⟩], { c with cache := xs }, ?_⟩
  simp [ddsTake, kMaxSamples, Channel.take, hc, Channel.takeFrom]

/-- From an empty cache no sample can be taken. -/
theorem ddsTake_eq_none {α : Type} {c : Channel α} {pattern : List (Option α)}
    (h : c.cache = []) (hnone : none ∈ pattern) : ddsTake c pattern = none := by
  cases htake : ddsTake c pattern with
  | none => rfl
  | some r =>
    obtain ⟨hpos, hlen, -⟩ := length_ddsTake htake hnone
    rw [h, List.length_nil] at hlen
    omega

theorem State.Stuck.flight {m : State} (h : m.Stuck) :
    m.pingPong.flight = [] ∧ m.pingHoge.flight = [] ∧ m.pongBaz.flight = [] ∧
      m.bazPong.flight = [] := by
  have harrive : ∀ l, ¬ (m.step (.arrive l 1)).isSome :=
    fun l hstep => h.false (a := .arrive l 1) id Nat.one_pos hstep
  refine ⟨?_, ?_, ?_, ?_⟩ <;> by_contra hne <;> have hsome := arrive_isSome hne
  · exact harrive .pingPong (by rw [State.step, Option.isSome_map, hsome])
  · exact harrive .pingHoge (by rw [State.step, Option.isSome_map, hsome])
  · exact harrive .pongBaz (by rw [State.step, Option.isSome_map, hsome])
  · exact harrive .bazPong (by rw [State.step, Option.isSome_map, hsome])

theorem State.Stuck.hoge {m : State} (h : m.Stuck) (hfilled : m.hoge.Filled) :
    m.hoge.pc = .wait ∧ m.pingHoge.cache = [] := by
  have hpc : m.hoge.pc = .wait := by
    cases hpc : m.hoge.pc with
    | wait => rfl
    | loop i n =>
      have hpass := hfilled.pass_isSome hpc
      exact (h.false (a := .hogePass) id trivial (by rw [State.step, Option.isSome_map, hpass])).elim
  refine ⟨hpc, ?_⟩
  by_contra hne
  obtain ⟨es, c, htake⟩ := ddsTake_isSome hne
  refine h.false (a := .hogeTake [none]) id List.mem_cons_self ?_
  simp [State.step, htake, Hoge.take, hpc]

theorem State.Stuck.baz {m : State} (h : m.Stuck) (hfilled : m.baz.Filled) :
    m.baz.pc = .wait ∧ m.pongBaz.cache = [] := by
  have hpc : m.baz.pc = .wait := by
    cases hpc : m.baz.pc with
    | wait => rfl
    | loop i n =>
      have hpass := hfilled.pass_isSome hpc
      exact (h.false (a := .bazPass) id trivial (by rw [State.step, Option.isSome_map, hpass])).elim
    | respond reply i n =>
      refine (h.false (a := .bazWrite 0) id trivial ?_).elim
      simp [State.step, Baz.write, hpc]
  refine ⟨hpc, ?_⟩
  by_contra hne
  obtain ⟨es, c, htake⟩ := ddsTake_isSome hne
  refine h.false (a := .bazTake [none]) id List.mem_cons_self ?_
  simp [State.step, htake, Baz.take, hpc]

/-- Pong is in no loop: there is a batch for each attachment that it has still to look at. -/
theorem State.Stuck.pong_pc {m : State} (h : m.Stuck) (hfilled : m.pong.Filled)
    (hm : m.Attended) : m.pong.pc = .wait := by
  have hpass : ∀ i n ts, ¬ (m.pong.pc = .ping i n ts ∨ m.pong.pc = .baz i n ts) := by
    intro i n ts hpc
    have hpass := hfilled.pass_isSome ⟨none, ""⟩ hpc
    exact h.false (a := .pongPass ⟨none, ""⟩) id trivial (by rw [State.step, Option.isSome_map, hpass])
  cases hpc : m.pong.pc with
  | wait => rfl
  | dispatch ts =>
    cases ts with
    | nil =>
      refine (h.false (a := .pongNext) id trivial ?_).elim
      simp [State.step, Pong.next, hpc]
    | cons t ts =>
      have ht : m.Triggered t := hm.2 t (by rw [Pong.attachments, hpc]; exact List.mem_cons_self)
      rcases ht with ⟨rfl, hcache⟩ | ⟨rfl, hcache⟩
      · obtain ⟨es, c, htake⟩ := ddsTake_isSome hcache
        refine (h.false (a := .pongTakePing [none]) id List.mem_cons_self ?_).elim
        simp [State.step, htake, Pong.takePing, hpc]
      · obtain ⟨es, c, htake⟩ := ddsTake_isSome hcache
        refine (h.false (a := .pongTakeBaz [none]) id List.mem_cons_self ?_).elim
        simp [State.step, htake, Pong.takeBaz, hpc]
  | ping i n ts => exact absurd (.inl hpc) (hpass i n ts)
  | forward fwd i n ts =>
    refine (h.false (a := .pongWrite 0) id trivial ?_).elim
    simp [State.step, Pong.write, hpc]
  | baz i n ts => exact absurd (.inr hpc) (hpass i n ts)

theorem State.Stuck.pong_cache {m : State} (h : m.Stuck) (hpc : m.pong.pc = .wait) :
    m.pingPong.cache = [] ∧ m.bazPong.cache = [] := by
  have hwake : ∀ t, ¬ m.Triggered t := by
    intro t ht
    have hserves : m.Serves (.pongWake [t]) :=
      ⟨List.cons_ne_nil t [], List.nodup_singleton t, fun u hu => List.mem_singleton.mp hu ▸ ht⟩
    refine h.false (a := .pongWake [t]) id hserves ?_
    simp [State.step, Pong.wake, hpc]
  constructor <;> by_contra hne
  · exact hwake 0 (.inl ⟨rfl, hne⟩)
  · exact hwake 1 (.inr ⟨rfl, hne⟩)

/-- Where everything rests, there is nothing to arrive, to take or to go on with. -/
theorem State.AtRest.stuck {m : State} (h : m.AtRest) : m.Stuck := by
  obtain ⟨hquiet, hhoge, hbaz, hpong⟩ := h
  obtain ⟨hcPong, hfPong⟩ := List.append_eq_nil_iff.mp hquiet.pingPong
  obtain ⟨hcHoge, hfHoge⟩ := List.append_eq_nil_iff.mp hquiet.pingHoge
  obtain ⟨hcBaz, hfBaz⟩ := List.append_eq_nil_iff.mp hquiet.pongBaz
  obtain ⟨hcText, hfText⟩ := List.append_eq_nil_iff.mp hquiet.bazPong
  intro a hping ha
  cases a with
  | pingPoll currentCount => exact absurd trivial hping
  | pingWrite rc => exact absurd trivial hping
  | pongWake triggered =>
    obtain ⟨hne, -, htriggered⟩ := ha
    obtain ⟨t, ts, rfl⟩ := List.exists_cons_of_ne_nil hne
    rcases htriggered t List.mem_cons_self with ⟨-, hcache⟩ | ⟨-, hcache⟩
    · exact absurd hcPong hcache
    · exact absurd hcText hcache
  | pongNext => simp [State.step, Pong.next, hpong]
  | pongTakePing pattern => simp [State.step, Pong.takePing, hpong]
  | pongTakeBaz pattern => simp [State.step, Pong.takeBaz, hpong]
  | pongPass answers => simp [State.step, Pong.pass, hpong]
  | pongWrite rc => simp [State.step, Pong.write, hpong]
  | bazTake pattern => rw [State.step, ddsTake_eq_none hcBaz ha, Option.bind_none]
  | bazPass => simp [State.step, Baz.pass, hbaz]
  | bazWrite rc => simp [State.step, Baz.write, hbaz]
  | hogeTake pattern => rw [State.step, ddsTake_eq_none hcHoge ha, Option.bind_none]
  | hogePass => simp [State.step, Hoge.pass, hhoge]
  | arrive l depth =>
    cases l <;> simp [State.step, Channel.arrive, hfPong, hfHoge, hfBaz, hfText]
  | lose l i => exact ha.elim

/-- The schedule of the steps behind ping can stop exactly where everything rests. -/
theorem stuck_iff_atRest {actions : List Action} {m : State}
    (h : State.init.run actions = some m) (hserved : Served State.init actions) :
    m.Stuck ↔ m.AtRest := by
  constructor
  · intro hstuck
    obtain ⟨hfilledHoge, hfilledBaz, hfilledPong⟩ := State.filled_of_run h
    obtain ⟨hfPong, hfHoge, hfBaz, hfText⟩ := hstuck.flight
    obtain ⟨hhoge, hcHoge⟩ := hstuck.hoge hfilledHoge
    obtain ⟨hbaz, hcBaz⟩ := hstuck.baz hfilledBaz
    have hpong := hstuck.pong_pc hfilledPong (State.attended_of_run h hserved)
    obtain ⟨hcPong, hcText⟩ := hstuck.pong_cache hpong
    refine ⟨⟨?_, ?_, ?_, ?_⟩, hhoge, hbaz, hpong⟩
    · rw [Channel.pending, hcPong, hfPong, List.append_nil]
    · rw [Channel.pending, hcHoge, hfHoge, List.append_nil]
    · rw [Channel.pending, hcBaz, hfBaz, List.append_nil]
    · rw [Channel.pending, hcText, hfText, List.append_nil]
  · exact State.AtRest.stuck

set_option maxRecDepth 4000 in
theorem stuck_iff_atRest_relay : ∃ m, State.init.run (writtenActions ++ relayActions) = some m ∧
    m.hoge.cout = [0] ∧ m.Stuck := by
  obtain ⟨m, hm, hserved, hcout, hquiet, hhoge, hbaz, hpong⟩ :
      ∃ m ∈ State.init.run (writtenActions ++ relayActions),
        Served State.init (writtenActions ++ relayActions) ∧ m.hoge.cout = [0] ∧ m.Quiet ∧
          m.hoge.pc = .wait ∧ m.baz.pc = .wait ∧ m.pong.pc = .wait := by decide
  exact ⟨m, hm, hcout, (stuck_iff_atRest hm hserved).mpr ⟨hquiet, hhoge, hbaz, hpong⟩⟩

end DdsPlayground.Mesh
