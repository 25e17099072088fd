import DdsPlayground.Core.Inbox
import Mathlib.Algebra.Group.Nat.Defs

/-!
# The programs of the mesh

The loops of `ping`, `pong`, `baz` and `hoge`, behind the creation of their entities. A
program is its local variables with a program counter, and a step is what it does up to
its next call into DDS, or one pass of a loop. A step is `none` where the program is
elsewhere, or where it would read what is not there.
-/

namespace DdsPlayground.Mesh

open Delivery

/-- `PingPong::Msg`. -/
structure PingPongMsg where
  value : Int32
  deriving DecidableEq, Repr

/-- `BazResponse::Msg`; the text is a pointer. -/
structure BazResponseMsg where
  text : Option String
  deriving DecidableEq, Repr

def kMaxSamples : Nat := 16
def ddsRetcodeOk : Int := 0

/-! ## ping -/

/-- `ping`, with its counter and what it has printed. -/
structure Ping where
  /-- A subscriber has matched. -/
  matched : Bool
  i : Nat
  /-- The values of the lines "Sent". -/
  cout : List Int32
  /-- The return codes of the lines on a write error. -/
  cerr : List Int
  deriving DecidableEq, Repr

def Ping.start : Ping := ⟨false, 0, [], []⟩

/-- Ask for the number of matched subscribers. -/
def Ping.poll (p : Ping) (currentCount : Nat) : Option Ping :=
  if p.matched then none else some { p with matched := currentCount ≠ 0 }

/-- One pass of the publish loop, with the return code of `dds_write`. Behind the largest
`int32_t` the increment is undefined. -/
def Ping.write (p : Ping) (rc : Int) : Option (Ping × PingPongMsg) :=
  if p.matched ∧ p.i < 2 ^ 31 then
    let msg : PingPongMsg := ⟨Int32.ofNat p.i⟩
    let p := if rc ≠ ddsRetcodeOk then { p with cerr := p.cerr ++ [rc] }
      else { p with cout := p.cout ++ [msg.value] }
    some ({ p with i := p.i + 1 }, msg)
  else none

/-! ## hoge -/

/-- Where a program is that takes batches and walks them. -/
inductive HogePc where
  /-- At `dds_waitset_wait`. -/
  | wait
  /-- In the loop over a batch of `n`. -/
  | loop (i n : Nat)
  deriving DecidableEq, Repr

/-- `hoge`, with the values that it has printed. -/
structure Hoge where
  pc : HogePc
  inbox : Inbox PingPongMsg
  cout : List Int32
  deriving DecidableEq, Repr

def Hoge.start : Hoge := ⟨.wait, ⟨[], []⟩, []⟩

/-- Wake up and take a batch. -/
def Hoge.take (p : Hoge) (es : List (Entry PingPongMsg)) : Option Hoge :=
  match p.pc with
  | .wait => some { p with pc := .loop 0 es.length, inbox := p.inbox.fill kMaxSamples es }
  | _ => none

/-- One pass of the loop over the batch. -/
def Hoge.pass (p : Hoge) : Option Hoge :=
  match p.pc with
  | .loop i n =>
    if i < n then
      match p.inbox.read i with
      | none => none
      | some none => some { p with pc := .loop (i + 1) n }
      | some (some msg) => some { p with pc := .loop (i + 1) n, cout := p.cout ++ [msg.value] }
    else some { p with pc := .wait }
  | _ => none

/-! ## baz -/

/-- Where `baz` is. -/
inductive BazPc where
  | wait
  | loop (i n : Nat)
  /-- At `dds_write`, with the reply. -/
  | respond (reply : BazResponseMsg) (i n : Nat)
  deriving DecidableEq, Repr

/-- A line on a value and the response to it. -/
structure BazLine where
  value : Int32
  response : String
  deriving DecidableEq, Repr

/-- `baz`, with the lines that it has printed. -/
structure Baz where
  pc : BazPc
  inbox : Inbox PingPongMsg
  cout : List BazLine
  deriving DecidableEq, Repr

def Baz.start : Baz := ⟨.wait, ⟨[], []⟩, []⟩

/-- The response to a value. -/
def response (value : Int32) : String := "baz:" ++ toString value.toInt

/-- Wake up and take a batch. -/
def Baz.take (p : Baz) (es : List (Entry PingPongMsg)) : Option Baz :=
  match p.pc with
  | .wait => some { p with pc := .loop 0 es.length, inbox := p.inbox.fill kMaxSamples es }
  | _ => none

/-- One pass of the loop over the batch, up to the write. -/
def Baz.pass (p : Baz) : Option Baz :=
  match p.pc with
  | .loop i n =>
    if i < n then
      match p.inbox.read i with
      | none => none
      | some none => some { p with pc := .loop (i + 1) n }
      | some (some msg) =>
        let response := response msg.value
        some { p with
          pc := .respond ⟨some response⟩ i n, cout := p.cout ++ [⟨msg.value, response⟩] }
    else some { p with pc := .wait }
  | _ => none

/-- Write the reply; its return code is not looked at. -/
def Baz.write (p : Baz) : Option (Baz × BazResponseMsg) :=
  match p.pc with
  | .respond reply i n => some ({ p with pc := .loop (i + 1) n }, reply)
  | _ => none

/-! ## pong -/

/-- What a pointer of the shared array points to. -/
inductive Loan where
  | pingPong (msg : PingPongMsg)
  | bazResponse (msg : BazResponseMsg)
  deriving DecidableEq, Repr

/-- The cast to `PingPong_Msg`; any other sample is not one. -/
def Loan.pingPong? : Loan → Option PingPongMsg
  | .pingPong msg => some msg
  | .bazResponse _ => none

/-- The cast to `BazResponse_Msg`. -/
def Loan.bazResponse? : Loan → Option BazResponseMsg
  | .pingPong _ => none
  | .bazResponse msg => some msg

/-- What DDS answers to the questions about the topics of a sample. -/
structure TopicAnswers where
  /-- The endpoint that published it, if DDS knows it, with its topic name if it has one. -/
  endpoint : Option (Option String)
  /-- The name of the reader's topic. -/
  readerTopic : String
  deriving DecidableEq, Repr

/-- `sender_topic`. -/
def TopicAnswers.senderTopic (a : TopicAnswers) : String :=
  match a.endpoint with
  | none => "(unknown)"
  | some name => name.getD "(unknown)"

/-- `receiver_topic`. -/
def TopicAnswers.receiverTopic (a : TopicAnswers) : String := a.readerTopic

/-- A line on a message. -/
inductive PongLine where
  | fromPing (value : Int32) (senderTopic receiverTopic : String)
  | fromBaz (text : String) (senderTopic receiverTopic : String)
  deriving DecidableEq, Repr

/-- Where `pong` is. `triggered` are the attachments that are still to be looked at. -/
inductive PongPc where
  | wait
  /-- In the loop over the triggered attachments. -/
  | dispatch (triggered : List Int)
  /-- In the loop over a batch of `n` from ping. -/
  | ping (i n : Nat) (triggered : List Int)
  /-- At `dds_write`, with the value to forward. -/
  | forward (fwd : PingPongMsg) (i n : Nat) (triggered : List Int)
  /-- In the loop over a batch of `n` from baz. -/
  | baz (i n : Nat) (triggered : List Int)
  deriving DecidableEq, Repr

/-- `pong`, with the lines that it has printed. -/
structure Pong where
  pc : PongPc
  inbox : Inbox Loan
  cout : List PongLine
  deriving DecidableEq, Repr

def Pong.start : Pong := ⟨.wait, ⟨[], []⟩, []⟩

/-- `dds_waitset_wait` returns with at most four triggered attachments. -/
def Pong.wake (p : Pong) (triggered : List Int) : Option Pong :=
  match p.pc with
  | .wait => if triggered.length ≤ 4 then some { p with pc := .dispatch triggered } else none
  | _ => none

/-- Pass over an attachment that is none of the two, or leave the loop over them. -/
def Pong.next (p : Pong) : Option Pong :=
  match p.pc with
  | .dispatch [] => some { p with pc := .wait }
  | .dispatch (t :: ts) => if t ≠ 0 ∧ t ≠ 1 then some { p with pc := .dispatch ts } else none
  | _ => none

/-- Take a batch from ping for the attachment 0. -/
def Pong.takePing (p : Pong) (es : List (Entry PingPongMsg)) : Option Pong :=
  match p.pc with
  | .dispatch (t :: ts) =>
    if t = 0 then
      some { p with
        pc := .ping 0 es.length ts
        inbox := p.inbox.fill kMaxSamples (es.map fun e => ⟨e.valid, .pingPong e.data⟩) }
    else none
  | _ => none

/-- Take a batch from baz for the attachment 1. -/
def Pong.takeBaz (p : Pong) (es : List (Entry BazResponseMsg)) : Option Pong :=
  match p.pc with
  | .dispatch (t :: ts) =>
    if t = 1 then
      some { p with
        pc := .baz 0 es.length ts
        inbox := p.inbox.fill kMaxSamples (es.map fun e => ⟨e.valid, .bazResponse e.data⟩) }
    else none
  | _ => none

/-- One pass of the loop over a batch, up to the write. -/
def Pong.pass (p : Pong) (a : TopicAnswers) : Option Pong :=
  match p.pc with
  | .ping i n ts =>
    if i < n then
      match p.inbox.read i with
      | none => none
      | some none => some { p with pc := .ping (i + 1) n ts }
      | some (some loan) => loan.pingPong?.map fun msg => { p with
          pc := .forward ⟨msg.value⟩ i n ts
          cout := p.cout ++ [.fromPing msg.value a.senderTopic a.receiverTopic] }
    else some { p with pc := .dispatch ts }
  | .baz i n ts =>
    if i < n then
      match p.inbox.read i with
      | none => none
      | some none => some { p with pc := .baz (i + 1) n ts }
      | some (some loan) => loan.bazResponse?.map fun msg => { p with
          pc := .baz (i + 1) n ts
          cout := p.cout ++ [.fromBaz (msg.text.getD "") a.senderTopic a.receiverTopic] }
    else some { p with pc := .dispatch ts }
  | _ => none

/-- Forward the value; the return code is not looked at. -/
def Pong.write (p : Pong) : Option (Pong × PingPongMsg) :=
  match p.pc with
  | .forward fwd i n ts => some ({ p with pc := .ping (i + 1) n ts }, fwd)
  | _ => none

end DdsPlayground.Mesh
