import DdsPlayground.Mesh.Native.Programs

/-!
# What the programs do with values

Of a program only four lists matter to the relay: the values it has printed, the ones of
its batch that it has still to handle, and the one that it has printed and not yet
written. Each step of a program moves values from one of these to the next, in order.
-/

namespace DdsPlayground.Mesh

open Delivery

/-- The text that is printed for a message. -/
def BazResponseMsg.shown (msg : BazResponseMsg) : String := msg.text.getD ""

/-! ## ping -/

/-- What a pass of the publish loop does. -/
theorem Ping.write_eq_some {p p' : Ping} {rc : Int} {msg : PingPongMsg}
    (h : p.write rc = some (p', msg)) :
    p.i < 2 ^ 31 ∧ p'.i = p.i + 1 ∧ msg.value = Int32.ofNat p.i ∧
      p'.cout = p.cout ++ if rc = ddsRetcodeOk then [msg.value] else [] := by
  unfold Ping.write at h
  split at h
  · next hc =>
    obtain ⟨rfl, rfl⟩ := Prod.mk.inj (Option.some.inj h)
    refine ⟨hc.2, ?_, rfl, ?_⟩ <;> by_cases hrc : rc = ddsRetcodeOk <;> simp [hrc]
  · cases h

theorem Ping.poll_eq_some {p p' : Ping} {currentCount : Nat} (h : p.poll currentCount = some p') :
    p'.i = p.i ∧ p'.cout = p.cout := by
  unfold Ping.poll at h
  split at h
  · cases h
  · obtain rfl := Option.some.inj h
    exact ⟨rfl, rfl⟩

/-! ## hoge -/

/-- The values of the batch that are still to be printed. -/
def Hoge.todo (p : Hoge) : List Int32 :=
  match p.pc with
  | .wait => []
  | .loop i n => (p.inbox.todo i n).map (·.value)

theorem Hoge.take_eq_some {p p' : Hoge} {es : List (Entry PingPongMsg)} (h : p.take es = some p') :
    p.todo = [] ∧ p'.todo = (validData es).map (·.value) ∧ p'.cout = p.cout := by
  unfold Hoge.take at h
  split at h
  · next hpc =>
    obtain rfl := Option.some.inj h
    refine ⟨by simp only [Hoge.todo, hpc], ?_, rfl⟩
    simp only [Hoge.todo, Inbox.todo_fill]
  · cases h

/-- A pass prints what it takes off the batch. -/
theorem Hoge.pass_eq_some {p p' : Hoge} (h : p.pass = some p') :
    ∃ xs, p.todo = xs ++ p'.todo ∧ p'.cout = p.cout ++ xs := by
  unfold Hoge.pass at h
  split at h
  · next i n hpc =>
    split at h
    · next hi =>
      split at h
      · cases h
      · next hread =>
        obtain rfl := Option.some.inj h
        refine ⟨[], ?_, (List.append_nil _).symm⟩
        simp only [Hoge.todo, hpc, Inbox.todo_of_read_none hread, List.nil_append]
      · next msg hread =>
        obtain rfl := Option.some.inj h
        refine ⟨[msg.value], ?_, rfl⟩
        simp only [Hoge.todo, hpc, Inbox.todo_of_read_some hi hread, List.map_cons,
          List.singleton_append]
    · next hi =>
      obtain rfl := Option.some.inj h
      refine ⟨[], ?_, (List.append_nil _).symm⟩
      simp only [Hoge.todo, hpc, Inbox.todo_of_le p.inbox (Nat.le_of_not_lt hi), List.map_nil,
        List.nil_append]
  · cases h

/-! ## baz -/

/-- The values that `baz` has printed. -/
def Baz.received (p : Baz) : List Int32 := p.cout.map (·.value)

/-- The values of the batch that are still to be printed. -/
def Baz.todo (p : Baz) : List Int32 :=
  match p.pc with
  | .wait => []
  | .loop i n => (p.inbox.todo i n).map (·.value)
  | .respond _ i n => (p.inbox.todo (i + 1) n).map (·.value)

/-- The reply that is printed and not yet written. -/
def Baz.unsent (p : Baz) : List String :=
  match p.pc with
  | .respond reply _ _ => [reply.shown]
  | _ => []

theorem Baz.take_eq_some {p p' : Baz} {es : List (Entry PingPongMsg)} (h : p.take es = some p') :
    p.todo = [] ∧ p'.todo = (validData es).map (·.value) ∧ p'.received = p.received ∧
      p.unsent = [] ∧ p'.unsent = [] := by
  unfold Baz.take at h
  split at h
  · next hpc =>
    obtain rfl := Option.some.inj h
    refine ⟨by simp only [Baz.todo, hpc], ?_, rfl, by simp only [Baz.unsent, hpc], rfl⟩
    simp only [Baz.todo, Inbox.todo_fill]
  · cases h

/-- A pass prints what it takes off the batch, and has its response at hand. -/
theorem Baz.pass_eq_some {p p' : Baz} (h : p.pass = some p') :
    ∃ xs, p.todo = xs ++ p'.todo ∧ p'.received = p.received ++ xs ∧ p.unsent = [] ∧
      p'.unsent = xs.map response := by
  unfold Baz.pass at h
  split at h
  · next i n hpc =>
    have hunsent : p.unsent = [] := by simp only [Baz.unsent, hpc]
    split at h
    · next hi =>
      split at h
      · cases h
      · next hread =>
        obtain rfl := Option.some.inj h
        refine ⟨[], ?_, (List.append_nil _).symm, hunsent, rfl⟩
        simp only [Baz.todo, hpc, Inbox.todo_of_read_none hread, List.nil_append]
      · next msg hread =>
        obtain rfl := Option.some.inj h
        refine ⟨[msg.value], ?_, ?_, hunsent, rfl⟩
        · simp only [Baz.todo, hpc, Inbox.todo_of_read_some hi hread, List.map_cons,
            List.singleton_append]
        · simp only [Baz.received, List.map_append, List.map_cons, List.map_nil]
    · next hi =>
      obtain rfl := Option.some.inj h
      refine ⟨[], ?_, (List.append_nil _).symm, hunsent, rfl⟩
      simp only [Baz.todo, hpc, Inbox.todo_of_le p.inbox (Nat.le_of_not_lt hi), List.map_nil,
        List.nil_append]
  · cases h

theorem Baz.write_eq_some {p p' : Baz} {msg : BazResponseMsg} (h : p.write = some (p', msg)) :
    p'.todo = p.todo ∧ p'.received = p.received ∧ p.unsent = [msg.shown] ∧ p'.unsent = [] := by
  unfold Baz.write at h
  split at h
  · next reply i n hpc =>
    obtain ⟨rfl, rfl⟩ := Prod.mk.inj (Option.some.inj h)
    exact ⟨by simp only [Baz.todo, hpc], rfl, by simp only [Baz.unsent, hpc], rfl⟩
  · cases h

/-! ## pong -/

/-- The value of a line on a message from ping. -/
def PongLine.value? : PongLine → Option Int32
  | .fromPing value _ _ => some value
  | .fromBaz _ _ _ => none

/-- The text of a line on a message from baz. -/
def PongLine.text? : PongLine → Option String
  | .fromPing _ _ _ => none
  | .fromBaz text _ _ => some text

/-- The integers that `pong` has printed. -/
def Pong.fromPing (p : Pong) : List Int32 := p.cout.filterMap PongLine.value?

/-- The strings that `pong` has printed. -/
def Pong.fromBaz (p : Pong) : List String := p.cout.filterMap PongLine.text?

/-- The values of samples that are messages from ping. -/
def pingValues (loans : List Loan) : List Int32 :=
  loans.filterMap fun loan => loan.pingPong?.map (·.value)

/-- The texts of samples that are messages from baz. -/
def bazTexts (loans : List Loan) : List String :=
  loans.filterMap fun loan => loan.bazResponse?.map (·.shown)

/-- The integers of the batch that are still to be printed. -/
def Pong.todoPing (p : Pong) : List Int32 :=
  match p.pc with
  | .ping i n _ => pingValues (p.inbox.todo i n)
  | .forward _ i n _ => pingValues (p.inbox.todo (i + 1) n)
  | _ => []

/-- The strings of the batch that are still to be printed. -/
def Pong.todoBaz (p : Pong) : List String :=
  match p.pc with
  | .baz i n _ => bazTexts (p.inbox.todo i n)
  | _ => []

/-- The integer that is printed and not yet forwarded. -/
def Pong.unsent (p : Pong) : List Int32 :=
  match p.pc with
  | .forward fwd _ _ _ => [fwd.value]
  | _ => []

/-- A step of `pong` that prints some lines, and takes what they show off the batches. -/
structure Pong.Prints (p p' : Pong) (lines : List PongLine) : Prop where
  cout : p'.cout = p.cout ++ lines
  todoPing : p.todoPing = lines.filterMap PongLine.value? ++ p'.todoPing
  todoBaz : p.todoBaz = lines.filterMap PongLine.text? ++ p'.todoBaz
  unsent : p.unsent = []
  unsent' : p'.unsent = lines.filterMap PongLine.value?

theorem Pong.Prints.fromPing {p p' : Pong} {lines : List PongLine} (h : p.Prints p' lines) :
    p'.fromPing = p.fromPing ++ lines.filterMap PongLine.value? := by
  rw [Pong.fromPing, h.cout, List.filterMap_append, Pong.fromPing]

theorem Pong.Prints.fromBaz {p p' : Pong} {lines : List PongLine} (h : p.Prints p' lines) :
    p'.fromBaz = p.fromBaz ++ lines.filterMap PongLine.text? := by
  rw [Pong.fromBaz, h.cout, List.filterMap_append, Pong.fromBaz]

theorem Pong.wake_eq_some {p p' : Pong} {triggered : List Int} (h : p.wake triggered = some p') :
    p.Prints p' [] := by
  unfold Pong.wake at h
  split at h
  · next hpc =>
    split at h
    · obtain rfl := Option.some.inj h
      constructor <;> simp [Pong.todoPing, Pong.todoBaz, Pong.unsent, hpc]
    · cases h
  · cases h

theorem Pong.next_eq_some {p p' : Pong} (h : p.next = some p') : p.Prints p' [] := by
  unfold Pong.next at h
  split at h
  · next hpc =>
    obtain rfl := Option.some.inj h
    constructor <;> simp [Pong.todoPing, Pong.todoBaz, Pong.unsent, hpc]
  · next t ts hpc =>
    split at h
    · obtain rfl := Option.some.inj h
      constructor <;> simp [Pong.todoPing, Pong.todoBaz, Pong.unsent, hpc]
    · cases h
  · cases h

/-- A batch from ping is a batch of messages from ping. -/
theorem validData_pingPong (es : List (Entry PingPongMsg)) :
    pingValues (validData (es.map fun e => (⟨e.valid, .pingPong e.data⟩ : Entry Loan))) =
      (validData es).map (·.value) := by
  induction es with
  | nil => rfl
  | cons e es ih =>
    obtain ⟨valid, data⟩ := e
    cases valid with
    | false => exact ih
    | true => exact congrArg (data.value :: ·) ih

theorem validData_bazResponse (es : List (Entry BazResponseMsg)) :
    bazTexts (validData (es.map fun e => (⟨e.valid, .bazResponse e.data⟩ : Entry Loan))) =
      (validData es).map (·.shown) := by
  induction es with
  | nil => rfl
  | cons e es ih =>
    obtain ⟨valid, data⟩ := e
    cases valid with
    | false => exact ih
    | true => exact congrArg (data.shown :: ·) ih

theorem Pong.takePing_eq_some {p p' : Pong} {es : List (Entry PingPongMsg)}
    (h : p.takePing es = some p') :
    p.todoPing = [] ∧ p'.todoPing = (validData es).map (·.value) ∧ p'.cout = p.cout ∧
      p.todoBaz = [] ∧ p'.todoBaz = [] ∧ p.unsent = [] ∧ p'.unsent = [] := by
  unfold Pong.takePing at h
  split at h
  · next t ts hpc =>
    split at h
    · obtain rfl := Option.some.inj h
      have htodo := Inbox.todo_fill kMaxSamples p.inbox
        (es.map fun e => (⟨e.valid, .pingPong e.data⟩ : Entry Loan))
      rw [List.length_map] at htodo
      refine ⟨by simp only [Pong.todoPing, hpc], ?_, rfl, by simp only [Pong.todoBaz, hpc], rfl,
        by simp only [Pong.unsent, hpc], rfl⟩
      simp only [Pong.todoPing, htodo, validData_pingPong]
    · cases h
  · cases h

theorem Pong.takeBaz_eq_some {p p' : Pong} {es : List (Entry BazResponseMsg)}
    (h : p.takeBaz es = some p') :
    p.todoBaz = [] ∧ p'.todoBaz = (validData es).map (·.shown) ∧ p'.cout = p.cout ∧
      p.todoPing = [] ∧ p'.todoPing = [] ∧ p.unsent = [] ∧ p'.unsent = [] := by
  unfold Pong.takeBaz at h
  split at h
  · next t ts hpc =>
    split at h
    · obtain rfl := Option.some.inj h
      have htodo := Inbox.todo_fill kMaxSamples p.inbox
        (es.map fun e => (⟨e.valid, .bazResponse e.data⟩ : Entry Loan))
      rw [List.length_map] at htodo
      refine ⟨by simp only [Pong.todoBaz, hpc], ?_, rfl, by simp only [Pong.todoPing, hpc], rfl,
        by simp only [Pong.unsent, hpc], rfl⟩
      simp only [Pong.todoBaz, htodo, validData_bazResponse]
    · cases h
  · cases h

/-- A pass prints what it takes off the batch at hand. -/
theorem Pong.pass_eq_some {p p' : Pong} {a : TopicAnswers} (h : p.pass a = some p') :
    ∃ lines, p.Prints p' lines := by
  unfold Pong.pass at h
  split at h
  · next i n ts hpc =>
    split at h
    · next hi =>
      split at h
      · cases h
      · next hread =>
        obtain rfl := Option.some.inj h
        refine ⟨[], ?_⟩
        constructor <;>
          simp [Pong.todoPing, Pong.todoBaz, Pong.unsent, hpc, Inbox.todo_of_read_none hread]
      · next loan hread =>
        obtain ⟨msg, hmsg, rfl⟩ := Option.map_eq_some_iff.mp h
        refine ⟨[.fromPing msg.value a.senderTopic a.receiverTopic], ?_⟩
        constructor <;>
          simp [Pong.todoPing, Pong.todoBaz, Pong.unsent, hpc, Inbox.todo_of_read_some hi hread,
            pingValues, hmsg, PongLine.value?, PongLine.text?]
    · next hi =>
      obtain rfl := Option.some.inj h
      refine ⟨[], ?_⟩
      constructor <;> simp [Pong.todoPing, Pong.todoBaz, Pong.unsent, hpc, pingValues,
        Inbox.todo_of_le p.inbox (Nat.le_of_not_lt hi)]
  · next i n ts hpc =>
    split at h
    · next hi =>
      split at h
      · cases h
      · next hread =>
        obtain rfl := Option.some.inj h
        refine ⟨[], ?_⟩
        constructor <;>
          simp [Pong.todoPing, Pong.todoBaz, Pong.unsent, hpc, Inbox.todo_of_read_none hread]
      · next loan hread =>
        obtain ⟨msg, hmsg, rfl⟩ := Option.map_eq_some_iff.mp h
        refine ⟨[.fromBaz (msg.text.getD "") a.senderTopic a.receiverTopic], ?_⟩
        constructor <;>
          simp [Pong.todoPing, Pong.todoBaz, Pong.unsent, hpc, Inbox.todo_of_read_some hi hread,
            bazTexts, hmsg, PongLine.value?, PongLine.text?, BazResponseMsg.shown]
    · next hi =>
      obtain rfl := Option.some.inj h
      refine ⟨[], ?_⟩
      constructor <;> simp [Pong.todoPing, Pong.todoBaz, Pong.unsent, hpc, bazTexts,
        Inbox.todo_of_le p.inbox (Nat.le_of_not_lt hi)]
  · cases h

theorem Pong.write_eq_some {p p' : Pong} {msg : PingPongMsg} (h : p.write = some (p', msg)) :
    p'.todoPing = p.todoPing ∧ p'.cout = p.cout ∧ p.unsent = [msg.value] ∧ p'.unsent = [] ∧
      p'.todoBaz = p.todoBaz := by
  unfold Pong.write at h
  split at h
  · next fwd i n ts hpc =>
    obtain ⟨rfl, rfl⟩ := Prod.mk.inj (Option.some.inj h)
    exact ⟨by simp only [Pong.todoPing, hpc], rfl, by simp only [Pong.unsent, hpc], rfl,
      by simp only [Pong.todoBaz, hpc]⟩
  · cases h

end DdsPlayground.Mesh
