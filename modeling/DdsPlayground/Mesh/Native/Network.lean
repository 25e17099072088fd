import DdsPlayground.Mesh.Native.Programs

/-!
# The mesh

One process of each program, and a channel for each pair of a writer and a reader. An
action is one step of one program or of the network; it carries what DDS decides: the
return codes of writes, what a wait and a take return, which sample arrives or gets lost.
-/

namespace DdsPlayground.Mesh

open Delivery

/-- A writer and a reader of one topic. -/
inductive Link where
  /-- `PingPongTopic`, from ping to pong. -/
  | pingPong
  /-- `PingPongTopic`, from ping to hoge. -/
  | pingHoge
  /-- `PongBazTopic`. -/
  | pongBaz
  /-- `BazPongTopic`. -/
  | bazPong
  deriving DecidableEq, Repr

/-- The programs and what is on its way between them. -/
structure State where
  ping : Ping
  pong : Pong
  baz : Baz
  hoge : Hoge
  pingPong : Channel PingPongMsg
  pingHoge : Channel PingPongMsg
  pongBaz : Channel PingPongMsg
  bazPong : Channel BazResponseMsg
  deriving DecidableEq, Repr

/-- All programs at the start of their loops. -/
def State.init : State :=
  ⟨Ping.start, Pong.start, Baz.start, Hoge.start, .empty, .empty, .empty, .empty⟩

/-- One step of a program, or of the network. -/
inductive Action where
  | pingPoll (currentCount : Nat)
  | pingWrite (rc : Int)
  | pongWake (triggered : List Int)
  | pongNext
  | pongTakePing (pattern : List (Option PingPongMsg))
  | pongTakeBaz (pattern : List (Option BazResponseMsg))
  | pongPass (a : TopicAnswers)
  | pongWrite (rc : Int)
  | bazTake (pattern : List (Option PingPongMsg))
  | bazPass
  | bazWrite (rc : Int)
  | hogeTake (pattern : List (Option PingPongMsg))
  | hogePass
  /-- The oldest sample in flight arrives at a reader that keeps the last `depth`. -/
  | arrive (l : Link) (depth : Nat)
  /-- A sample on its way gets lost. -/
  | lose (l : Link) (i : Nat)
  deriving DecidableEq, Repr

/-- `dds_write`: only a write that returns without an error reaches the channel. -/
def ddsWrite {α : Type} (c : Channel α) (rc : Int) (msg : α) : Channel α :=
  if rc = ddsRetcodeOk then c.write msg else c

/-- `dds_take` of at most `kMaxSamples` entries. -/
def ddsTake {α : Type} (c : Channel α) (pattern : List (Option α)) :
    Option (List (Entry α) × Channel α) :=
  if pattern.length ≤ kMaxSamples then c.take pattern else none

/-- An action in the mesh, where it is possible. -/
def State.step (m : State) : Action → Option State
  | .pingPoll currentCount => (m.ping.poll currentCount).map fun ping => { m with ping := ping }
  | .pingWrite rc => (m.ping.write rc).map fun r => { m with
      ping := r.1
      pingPong := ddsWrite m.pingPong rc r.2
      pingHoge := ddsWrite m.pingHoge rc r.2 }
  | .pongWake triggered => (m.pong.wake triggered).map fun pong => { m with pong := pong }
  | .pongNext => m.pong.next.map fun pong => { m with pong := pong }
  | .pongTakePing pattern => (ddsTake m.pingPong pattern).bind fun r =>
      (m.pong.takePing r.1).map fun pong => { m with pong := pong, pingPong := r.2 }
  | .pongTakeBaz pattern => (ddsTake m.bazPong pattern).bind fun r =>
      (m.pong.takeBaz r.1).map fun pong => { m with pong := pong, bazPong := r.2 }
  | .pongPass a => (m.pong.pass a).map fun pong => { m with pong := pong }
  | .pongWrite rc => m.pong.write.map fun r => { m with
      pong := r.1
      pongBaz := ddsWrite m.pongBaz rc r.2 }
  | .bazTake pattern => (ddsTake m.pongBaz pattern).bind fun r =>
      (m.baz.take r.1).map fun baz => { m with baz := baz, pongBaz := r.2 }
  | .bazPass => m.baz.pass.map fun baz => { m with baz := baz }
  | .bazWrite rc => m.baz.write.map fun r => { m with
      baz := r.1
      bazPong := ddsWrite m.bazPong rc r.2 }
  | .hogeTake pattern => (ddsTake m.pingHoge pattern).bind fun r =>
      (m.hoge.take r.1).map fun hoge => { m with hoge := hoge, pingHoge := r.2 }
  | .hogePass => m.hoge.pass.map fun hoge => { m with hoge := hoge }
  | .arrive .pingPong depth => (m.pingPong.arrive depth).map fun c => { m with pingPong := c }
  | .arrive .pingHoge depth => (m.pingHoge.arrive depth).map fun c => { m with pingHoge := c }
  | .arrive .pongBaz depth => (m.pongBaz.arrive depth).map fun c => { m with pongBaz := c }
  | .arrive .bazPong depth => (m.bazPong.arrive depth).map fun c => { m with bazPong := c }
  | .lose .pingPong i => some { m with pingPong := m.pingPong.lose i }
  | .lose .pingHoge i => some { m with pingHoge := m.pingHoge.lose i }
  | .lose .pongBaz i => some { m with pongBaz := m.pongBaz.lose i }
  | .lose .bazPong i => some { m with bazPong := m.bazPong.lose i }

/-- A run of actions, where each is possible. -/
def State.run (m : State) (as : List Action) : Option State := as.foldlM State.step m

end DdsPlayground.Mesh
