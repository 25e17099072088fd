import DdsPlayground.Core.History
import DdsPlayground.Mesh.Semantics.Hops
import Mathlib

/-!
# Runs of the mesh

Every action is a step of at most one program, and what a program does on its own is a
relation on its own states. In every state of every run the counter of ping is ahead of
all that it has sent, and no hop has got out of order.
-/

namespace DdsPlayground.Mesh

open Delivery

/-! ## The steps of each program -/

/-- The steps of ping. -/
inductive Ping.Step (p p' : Ping) : Prop where
  | poll (currentCount : Nat) (h : p.poll currentCount = some p')
  | write (rc : Int) (msg : PingPongMsg) (h : p.write rc = some (p', msg))

/-- The steps of hoge. -/
inductive Hoge.Step (p p' : Hoge) : Prop where
  | take (es : List (Entry PingPongMsg)) (hlen : es.length ≤ kMaxSamples) (h : p.take es = some p')
  | pass (h : p.pass = some p')

/-- The steps of baz. -/
inductive Baz.Step (p p' : Baz) : Prop where
  | take (es : List (Entry PingPongMsg)) (hlen : es.length ≤ kMaxSamples) (h : p.take es = some p')
  | pass (h : p.pass = some p')
  | write (msg : BazResponseMsg) (h : p.write = some (p', msg))

/-- The steps of pong. -/
inductive Pong.Step (p p' : Pong) : Prop where
  | wake (triggered : List Int) (h : p.wake triggered = some p')
  | next (h : p.next = some p')
  | takePing (es : List (Entry PingPongMsg)) (hlen : es.length ≤ kMaxSamples)
      (h : p.takePing es = some p')
  | takeBaz (es : List (Entry BazResponseMsg)) (hlen : es.length ≤ kMaxSamples)
      (h : p.takeBaz es = some p')
  | pass (a : TopicAnswers) (h : p.pass a = some p')
  | write (msg : PingPongMsg) (h : p.write = some (p', msg))

/-- Each program makes a step or stays as it is. -/
structure State.Local (m m' : State) : Prop where
  ping : Relation.ReflGen Ping.Step m.ping m'.ping
  pong : Relation.ReflGen Pong.Step m.pong m'.pong
  baz : Relation.ReflGen Baz.Step m.baz m'.baz
  hoge : Relation.ReflGen Hoge.Step m.hoge m'.hoge

/-- `dds_take` returns no more entries than the arrays have places. -/
theorem length_of_ddsTake {α : Type} {c c' : Channel α} {pattern : List (Option α)}
    {es : List (Entry α)} (h : ddsTake c pattern = some (es, c')) : es.length ≤ kMaxSamples := by
  unfold ddsTake at h
  split at h
  · next hle =>
    rw [(Channel.pending_take h).2]
    exact hle
  · cases h

theorem State.local_of_step {m m' : State} {a : Action} (h : m.step a = some m') :
    m.Local m' := by
  cases a with
  | pingPoll currentCount =>
    obtain ⟨ping, hping, rfl⟩ := Option.map_eq_some_iff.mp h
    exact ⟨.single (.poll currentCount hping), .refl, .refl, .refl⟩
  | pingWrite rc =>
    obtain ⟨⟨ping, msg⟩, hping, rfl⟩ := Option.map_eq_some_iff.mp h
    exact ⟨.single (.write rc msg hping), .refl, .refl, .refl⟩
  | pongWake triggered =>
    obtain ⟨pong, hpong, rfl⟩ := Option.map_eq_some_iff.mp h
    exact ⟨.refl, .single (.wake triggered hpong), .refl, .refl⟩
  | pongNext =>
    obtain ⟨pong, hpong, rfl⟩ := Option.map_eq_some_iff.mp h
    exact ⟨.refl, .single (.next hpong), .refl, .refl⟩
  | pongTakePing pattern =>
    obtain ⟨⟨es, c⟩, htake, hrest⟩ := Option.bind_eq_some_iff.mp h
    obtain ⟨pong, hpong, rfl⟩ := Option.map_eq_some_iff.mp hrest
    exact ⟨.refl, .single (.takePing es (length_of_ddsTake htake) hpong), .refl, .refl⟩
  | pongTakeBaz pattern =>
    obtain ⟨⟨es, c⟩, htake, hrest⟩ := Option.bind_eq_some_iff.mp h
    obtain ⟨pong, hpong, rfl⟩ := Option.map_eq_some_iff.mp hrest
    exact ⟨.refl, .single (.takeBaz es (length_of_ddsTake htake) hpong), .refl, .refl⟩
  | pongPass answers =>
    obtain ⟨pong, hpong, rfl⟩ := Option.map_eq_some_iff.mp h
    exact ⟨.refl, .single (.pass answers hpong), .refl, .refl⟩
  | pongWrite rc =>
    obtain ⟨⟨pong, msg⟩, hpong, rfl⟩ := Option.map_eq_some_iff.mp h
    exact ⟨.refl, .single (.write msg hpong), .refl, .refl⟩
  | bazTake pattern =>
    obtain ⟨⟨es, c⟩, htake, hrest⟩ := Option.bind_eq_some_iff.mp h
    obtain ⟨baz, hbaz, rfl⟩ := Option.map_eq_some_iff.mp hrest
    exact ⟨.refl, .refl, .single (.take es (length_of_ddsTake htake) hbaz), .refl⟩
  | bazPass =>
    obtain ⟨baz, hbaz, rfl⟩ := Option.map_eq_some_iff.mp h
    exact ⟨.refl, .refl, .single (.pass hbaz), .refl⟩
  | bazWrite rc =>
    obtain ⟨⟨baz, msg⟩, hbaz, rfl⟩ := Option.map_eq_some_iff.mp h
    exact ⟨.refl, .refl, .single (.write msg hbaz), .refl⟩
  | hogeTake pattern =>
    obtain ⟨⟨es, c⟩, htake, hrest⟩ := Option.bind_eq_some_iff.mp h
    obtain ⟨hoge, hhoge, rfl⟩ := Option.map_eq_some_iff.mp hrest
    exact ⟨.refl, .refl, .refl, .single (.take es (length_of_ddsTake htake) hhoge)⟩
  | hogePass =>
    obtain ⟨hoge, hhoge, rfl⟩ := Option.map_eq_some_iff.mp h
    exact ⟨.refl, .refl, .refl, .single (.pass hhoge)⟩
  | arrive l depth =>
    cases l <;> obtain ⟨c, -, rfl⟩ := Option.map_eq_some_iff.mp h <;>
      exact ⟨.refl, .refl, .refl, .refl⟩
  | lose l i =>
    cases l <;> obtain rfl := Option.some.inj h <;> exact ⟨.refl, .refl, .refl, .refl⟩

/-! ## The counter of ping -/

/-- What ping has sent are values of its counter from before, in order. -/
structure Ping.Counts (p : Ping) : Prop where
  bound : p.i ≤ 2 ^ 31
  below : ∀ v ∈ p.cout, v.toInt < p.i
  increasing : p.cout.Pairwise (· < ·)

theorem Ping.Step.counts {p p' : Ping} (h : p.Step p') (hp : p.Counts) : p'.Counts := by
  cases h with
  | poll currentCount h =>
    obtain ⟨hi, hcout⟩ := Ping.poll_eq_some h
    exact ⟨hi ▸ hp.bound, by rw [hi, hcout]; exact hp.below, hcout ▸ hp.increasing⟩
  | write rc msg h =>
    obtain ⟨hlt, hi, hmsg, hcout⟩ := Ping.write_eq_some h
    have hval : msg.value.toInt = p.i := by
      rw [hmsg]
      exact Int32.toInt_ofNat_of_lt hlt
    have hbelow : ∀ v ∈ p.cout, v.toInt < (p'.i : Int) := by
      intro v hv
      have := hp.below v hv
      omega
    by_cases hrc : rc = ddsRetcodeOk
    · rw [if_pos hrc] at hcout
      refine ⟨by omega, ?_, ?_⟩
      · intro v hv
        rw [hcout, List.mem_append, List.mem_singleton] at hv
        rcases hv with hv | rfl
        · exact hbelow v hv
        · omega
      · rw [hcout, List.pairwise_append]
        refine ⟨hp.increasing, List.pairwise_singleton _ _, ?_⟩
        intro v hv w hw
        rw [List.mem_singleton.mp hw, Int32.lt_iff_toInt_lt, hval]
        exact hp.below v hv
    · rw [if_neg hrc, List.append_nil] at hcout
      exact ⟨by omega, hcout ▸ hbelow, hcout ▸ hp.increasing⟩

theorem State.counts_of_run {actions : List Action} {m : State}
    (h : State.init.run actions = some m) : m.ping.Counts := by
  refine History.run_induction (P := fun _ m => m.ping.Counts) ?_ ?_ h
  · exact ⟨Nat.zero_le _, fun _ hv => absurd hv List.not_mem_nil, List.Pairwise.nil⟩
  · intro _ a m m' _ hm hstep
    rcases (Relation.reflGen_iff _ _ _).mp (State.local_of_step hstep).ping with heq | hping
    · rwa [heq]
    · exact hping.counts hm

/-- Values that ping has sent are distinct. -/
theorem Ping.Counts.nodup {p : Ping} (h : p.Counts) : p.cout.Nodup :=
  h.increasing.imp fun hlt => Int32.ne_of_lt hlt

/-- Distinct values have distinct responses. -/
theorem response_injective : Function.Injective response := by
  intro v w h
  have hdigits : v.toInt.repr = w.toInt.repr := (String.append_right_inj "baz:").mp h
  exact Int32.toInt_inj.mp (Int.repr_injective hdigits)

/-! ## The hops along a run -/

/-- Every hop is in order. -/
structure State.InOrder (m : State) : Prop where
  pingPong : m.pingPongHop.InOrder
  pingHoge : m.pingHogeHop.InOrder
  pongBaz : m.pongBazHop.InOrder
  bazPong : m.bazPongHop.InOrder

theorem State.InOrder.fromPing {m : State} (h : m.InOrder) : m.pong.fromPing.Sublist m.ping.cout :=
  (List.sublist_append_left _ _).trans h.pingPong.of_fold

theorem State.InOrder.received {m : State} (h : m.InOrder) :
    m.baz.received.Sublist m.pong.fromPing :=
  (List.sublist_append_left _ _).trans h.pongBaz.of_fold

theorem State.InOrder.fromBaz {m : State} (h : m.InOrder) :
    m.pong.fromBaz.Sublist (m.baz.received.map response) :=
  (List.sublist_append_left _ _).trans h.bazPong.of_fold

theorem State.inOrder_of_run {actions : List Action} {m : State}
    (h : State.init.run actions = some m) : m.InOrder := by
  refine History.run_induction (P := fun _ m => m.InOrder) ?_ ?_ h
  · exact ⟨.refl _, .refl _, .refl _, .refl _⟩
  · intro _ a m m' _ hm hstep
    have hmoves := State.moves_of_step hstep
    exact ⟨hmoves.pingPong.inOrder hm.pingPong, hmoves.pingHoge.inOrder hm.pingHoge,
      hmoves.pongBaz.inOrder hm.pongBaz, hmoves.bazPong.inOrder hm.bazPong⟩

end DdsPlayground.Mesh
