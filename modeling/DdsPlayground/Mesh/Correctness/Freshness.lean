import DdsPlayground.Core.Recent
import DdsPlayground.Mesh.Correctness.Loss

/-!
# What the mesh keeps

Where readers keep at least the last `d` samples and DDS does not fail, a value can get
lost only behind `d` newer ones. However slow the programs are, the last `d` values that
ping has sent come through.
-/

namespace DdsPlayground.Mesh

open Delivery

/-- The history of every reader is KEEP_LAST with at least a depth. -/
def Action.KeepsAtLeast (d : Nat) : Action → Prop
  | .arrive _ depth => d ≤ depth
  | _ => True

/-- On every hop the last `d` values are not lost. -/
structure State.Recent (d : Nat) (m : State) : Prop where
  pingPong : m.pingPongHop.Recent d
  pingHoge : m.pingHogeHop.Recent d
  pongBaz : m.pongBazHop.Recent d
  bazPong : m.bazPongHop.Recent d

theorem State.recent_of_arrive {d depth : Nat} {m m' : State} {l : Link}
    (h : m.step (.arrive l depth) = some m') (hd : d ≤ depth) (hr : m.Recent d) :
    m'.Recent d := by
  obtain ⟨hpingPong, hpingHoge, hpongBaz, hbazPong⟩ := hr
  cases l with
  | pingPong =>
    obtain ⟨c, hc, rfl⟩ := Option.map_eq_some_iff.mp h
    exact ⟨(Hop.rtake_fold_arrive _ _ _ _ hc hd).trans hpingPong, hpingHoge, hpongBaz, hbazPong⟩
  | pingHoge =>
    obtain ⟨c, hc, rfl⟩ := Option.map_eq_some_iff.mp h
    exact ⟨hpingPong, (Hop.rtake_fold_arrive _ _ _ _ hc hd).trans hpingHoge, hpongBaz, hbazPong⟩
  | pongBaz =>
    obtain ⟨c, hc, rfl⟩ := Option.map_eq_some_iff.mp h
    exact ⟨hpingPong, hpingHoge, (Hop.rtake_fold_arrive _ _ _ _ hc hd).trans hpongBaz, hbazPong⟩
  | bazPong =>
    obtain ⟨c, hc, rfl⟩ := Option.map_eq_some_iff.mp h
    exact ⟨hpingPong, hpingHoge, hpongBaz, (Hop.rtake_fold_arrive _ _ _ _ hc hd).trans hbazPong⟩

/-- A reliable action keeps the last values of every hop. -/
theorem State.recent_of_step {d : Nat} {m m' : State} {a : Action} (h : m.step a = some m')
    (hreliable : a.Reliable) (hkeeps : a.KeepsAtLeast d) (hr : m.Recent d) : m'.Recent d := by
  by_cases harrive : ∃ l depth, a = .arrive l depth
  · obtain ⟨l, depth, rfl⟩ := harrive
    exact State.recent_of_arrive h hkeeps hr
  · have hlossless : m.Lossless a :=
      State.lossless_of_reliable hreliable fun l depth heq => absurd ⟨l, depth, heq⟩ harrive
    have hmoves := State.moves_of_step h
    exact ⟨hmoves.pingPong.recent hlossless hr.pingPong,
      hmoves.pingHoge.recent hlossless hr.pingHoge,
      hmoves.pongBaz.recent hlossless hr.pongBaz, hmoves.bazPong.recent hlossless hr.bazPong⟩

theorem State.recent_of_run {d : Nat} {actions : List Action} {m : State}
    (h : State.init.run actions = some m)
    (hdds : ∀ a ∈ actions, a.Reliable ∧ a.KeepsAtLeast d) : m.Recent d := by
  refine History.run_induction (P := fun actions m =>
    (∀ a ∈ actions, a.Reliable ∧ a.KeepsAtLeast d) → m.Recent d) ?_ ?_ h hdds
  · exact fun _ => ⟨rfl, rfl, rfl, rfl⟩
  · intro actions a m m' _ ih hstep hall
    obtain ⟨hreliable, hkeeps⟩ := hall a (List.mem_append_right _ (List.mem_singleton_self a))
    exact State.recent_of_step hstep hreliable hkeeps
      (ih fun b hb => hall b (List.mem_append_left _ hb))

/-- The last `d` values of every program, and of the responses, are those of ping. -/
structure State.UpToDate (d : Nat) (m : State) : Prop where
  hoge : m.hoge.cout.rtake d = m.ping.cout.rtake d
  pong : m.pong.fromPing.rtake d = m.ping.cout.rtake d
  baz : m.baz.received.rtake d = m.ping.cout.rtake d
  answer : m.pong.fromBaz.rtake d = (m.ping.cout.rtake d).map response

theorem State.Recent.upToDate {d : Nat} {m : State} (h : m.Recent d) (hquiet : m.Quiet)
    (hidle : m.Idle) : m.UpToDate d := by
  have hhoge : m.hoge.cout.rtake d = m.ping.cout.rtake d := by
    simpa [Hop.Recent, State.pingHogeHop, Hop.fold, hidle.hoge, hquiet.pingHoge] using h.pingHoge
  have hpong : m.pong.fromPing.rtake d = m.ping.cout.rtake d := by
    simpa [Hop.Recent, State.pingPongHop, Hop.fold, hidle.pongPing, hquiet.pingPong]
      using h.pingPong
  have hbaz : m.baz.received.rtake d = m.pong.fromPing.rtake d := by
    simpa [Hop.Recent, State.pongBazHop, Hop.fold, hidle.baz, hidle.pongUnsent, hquiet.pongBaz]
      using h.pongBaz
  have hanswer : m.pong.fromBaz.rtake d = (m.baz.received.map response).rtake d := by
    simpa [Hop.Recent, State.bazPongHop, Hop.fold, hidle.pongBaz, hidle.bazUnsent,
      hquiet.bazPong] using h.bazPong
  refine ⟨hhoge, hpong, hbaz.trans hpong, ?_⟩
  rw [hanswer, rtake_map, hbaz, hpong]

/-- In a run in which DDS does not fail and readers keep at least `d` samples, every program
has the last `d` values of ping as soon as nothing is on its way any more. -/
theorem lastValues_delivered {d : Nat} {actions : List Action} {m : State}
    (h : State.init.run actions = some m)
    (hdds : ∀ a ∈ actions, a.Reliable ∧ a.KeepsAtLeast d) (hquiet : m.Quiet) (hidle : m.Idle) :
    m.UpToDate d :=
  (State.recent_of_run h hdds).upToDate hquiet hidle

set_option maxRecDepth 4000 in
/-- The readers of ping are too slow for the first value, and the last one comes through. -/
theorem lastValues_delivered_overrun : ∃ m, State.init.run overrunActions = some m ∧
    m.ping.cout = [0, 1] ∧ m.UpToDate 1 := by
  obtain ⟨m, hm, hquiet, hidle, hping⟩ : ∃ m ∈ State.init.run overrunActions,
      m.Quiet ∧ m.Idle ∧ m.ping.cout = [0, 1] := by decide
  have hdds : ∀ a ∈ overrunActions, a.Reliable ∧ a.KeepsAtLeast 1 := by
    simp [overrunActions, relayActions, Action.Reliable, Action.KeepsAtLeast, ddsRetcodeOk]
  exact ⟨m, hm, hping, lastValues_delivered hm hdds hquiet hidle⟩

end DdsPlayground.Mesh
