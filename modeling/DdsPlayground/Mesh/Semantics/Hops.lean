import DdsPlayground.Mesh.Native.Network
import DdsPlayground.Mesh.Semantics.Programs

/-!
# The mesh as four hops

The values on their way from a program to the next form a hop: what the sender has
printed, and what the receiver has printed of it with everything in between. Every action
of the mesh moves each of the four hops, and is lossless where no sample is lost,
replaced or refused by DDS.
-/

namespace DdsPlayground.Mesh

open Delivery

namespace State

/-- From what ping wrote to what pong printed of it. -/
def pingPongHop (m : State) : Hop Int32 :=
  ⟨m.ping.cout, Hop.fold (·.value) m.pong.fromPing m.pong.todoPing m.pingPong []⟩

/-- From what ping wrote to what hoge printed. -/
def pingHogeHop (m : State) : Hop Int32 :=
  ⟨m.ping.cout, Hop.fold (·.value) m.hoge.cout m.hoge.todo m.pingHoge []⟩

/-- From what pong printed of ping to what baz printed. -/
def pongBazHop (m : State) : Hop Int32 :=
  ⟨m.pong.fromPing, Hop.fold (·.value) m.baz.received m.baz.todo m.pongBaz m.pong.unsent⟩

/-- From the responses to what baz printed to what pong printed of baz. -/
def bazPongHop (m : State) : Hop String :=
  ⟨m.baz.received.map response,
    Hop.fold (·.shown) m.pong.fromBaz m.pong.todoBaz m.bazPong m.baz.unsent⟩

/-- The samples that have arrived on a link and are not taken. -/
def untaken (m : State) : Link → Nat
  | .pingPong => m.pingPong.cache.length
  | .pingHoge => m.pingHoge.cache.length
  | .pongBaz => m.pongBaz.cache.length
  | .bazPong => m.bazPong.cache.length

/-- An action loses no sample: no write fails, and a sample arrives at a reader that has
room for it in its history. -/
def Lossless (m : State) : Action → Prop
  | .pingWrite rc => rc = ddsRetcodeOk
  | .pongWrite rc => rc = ddsRetcodeOk
  | .bazWrite rc => rc = ddsRetcodeOk
  | .arrive l depth => m.untaken l < depth
  | .lose _ _ => False
  | _ => True

/-- Each hop moves. -/
structure Moves (lossless : Prop) (m m' : State) : Prop where
  pingPong : m.pingPongHop.Moves lossless m'.pingPongHop
  pingHoge : m.pingHogeHop.Moves lossless m'.pingHogeHop
  pongBaz : m.pongBazHop.Moves lossless m'.pongBazHop
  bazPong : m.bazPongHop.Moves lossless m'.bazPongHop

end State

/-! ## Writes and takes -/

section

variable {α β : Type} (f : α → β) (handled todo unsent : List β) (c : Channel α)

/-- A write hands the value over to the channel, or loses it with an error. -/
theorem fold_ddsWrite (rc : Int) (msg : α) :
    (Hop.fold f handled todo (ddsWrite c rc msg) unsent).Sublist
        (Hop.fold f handled todo c (f msg :: unsent)) ∧
      (rc = ddsRetcodeOk → Hop.fold f handled todo (ddsWrite c rc msg) unsent =
        Hop.fold f handled todo c (f msg :: unsent)) := by
  by_cases hrc : rc = ddsRetcodeOk
  · have hwrite := Hop.fold_write f handled todo unsent c msg
    rw [ddsWrite, if_pos hrc, hwrite]
    exact ⟨List.Sublist.refl _, fun _ => rfl⟩
  · rw [ddsWrite, if_neg hrc]
    exact ⟨Hop.fold_skip f handled todo unsent c (f msg), fun h => absurd h hrc⟩

theorem fold_ddsTake {pattern : List (Option α)} {c c' : Channel α} {es : List (Entry α)}
    (h : ddsTake c pattern = some (es, c')) :
    Hop.fold f handled ((validData es).map f) c' unsent = Hop.fold f handled [] c unsent := by
  unfold ddsTake at h
  split at h
  · exact Hop.fold_take f handled unsent h
  · cases h

/-- A sample of ping joins both what was written and what is on its way. -/
theorem moves_pingWrite {lossless : Prop} {p p' : Ping} {rc : Int} {msg : PingPongMsg}
    (h : p.write rc = some (p', msg)) (handled todo : List Int32) (c : Channel PingPongMsg) :
    Hop.Moves lossless ⟨p.cout, Hop.fold (·.value) handled todo c []⟩
      ⟨p'.cout, Hop.fold (·.value) handled todo (ddsWrite c rc msg) []⟩ := by
  obtain ⟨-, -, -, hcout⟩ := Ping.write_eq_some h
  by_cases hrc : rc = ddsRetcodeOk
  · rw [if_pos hrc] at hcout
    refine Hop.Moves.of_append hcout ?_
    rw [ddsWrite, if_pos hrc, Hop.fold_write, ← Hop.fold_append]
    rfl
  · rw [if_neg hrc, List.append_nil] at hcout
    refine Hop.Moves.of_eq hcout ?_
    rw [ddsWrite, if_neg hrc]

/-- An arrival loses what it replaces. -/
theorem moves_arrive {source : List β} {depth : Nat} {c c' : Channel α}
    (h : c.arrive depth = some c') :
    Hop.Moves (c.cache.length < depth) ⟨source, Hop.fold f handled todo c unsent⟩
      ⟨source, Hop.fold f handled todo c' unsent⟩ := by
  refine Hop.Moves.of_sublist rfl
    (Hop.fold_of_sublist f handled todo unsent c (Channel.pending_arrive h)) ?_
  intro hroom
  exact Hop.fold_of_eq f handled todo unsent c (Channel.pending_arrive_of_lt h hroom)

theorem moves_lose {source : List β} (i : Nat) :
    Hop.Moves False ⟨source, Hop.fold f handled todo c unsent⟩
      ⟨source, Hop.fold f handled todo (c.lose i) unsent⟩ :=
  Hop.Moves.of_sublist rfl (Hop.fold_of_sublist f handled todo unsent c (Channel.pending_lose i c))
    False.elim

end

/-! ## Steps -/

/-- A step of pong that prints moves its two hops, and hands the values on to the third. -/
theorem State.moves_prints {lossless : Prop} {m : State} {pong : Pong} {lines : List PongLine}
    (h : m.pong.Prints pong lines) : State.Moves lossless m { m with pong := pong } := by
  refine ⟨?_, Hop.Moves.refl _, ?_, ?_⟩
  · refine Hop.Moves.of_eq rfl ?_
    simp only [State.pingPongHop, h.fromPing, h.todoPing, Hop.fold_handle]
  · refine Hop.Moves.of_append h.fromPing ?_
    simp only [State.pongBazHop, h.unsent, h.unsent']
    rw [← Hop.fold_append, List.nil_append]
  · refine Hop.Moves.of_eq rfl ?_
    simp only [State.bazPongHop, h.fromBaz, h.todoBaz, Hop.fold_handle]

/-- Every action moves the four hops, without a loss where it is lossless. -/
theorem State.moves_of_step {m m' : State} {a : Action} (h : m.step a = some m') :
    State.Moves (m.Lossless a) m m' := by
  cases a with
  | pingPoll currentCount =>
    obtain ⟨ping, hping, rfl⟩ := Option.map_eq_some_iff.mp h
    have hcout := (Ping.poll_eq_some hping).2
    exact ⟨Hop.Moves.of_eq hcout rfl, Hop.Moves.of_eq hcout rfl, Hop.Moves.refl _,
      Hop.Moves.refl _⟩
  | pingWrite rc =>
    obtain ⟨⟨ping, msg⟩, hping, rfl⟩ := Option.map_eq_some_iff.mp h
    exact ⟨moves_pingWrite hping _ _ _, moves_pingWrite hping _ _ _, Hop.Moves.refl _,
      Hop.Moves.refl _⟩
  | pongWake triggered =>
    obtain ⟨pong, hpong, rfl⟩ := Option.map_eq_some_iff.mp h
    exact State.moves_prints (Pong.wake_eq_some hpong)
  | pongNext =>
    obtain ⟨pong, hpong, rfl⟩ := Option.map_eq_some_iff.mp h
    exact State.moves_prints (Pong.next_eq_some hpong)
  | pongTakePing pattern =>
    obtain ⟨⟨es, c⟩, htake, hrest⟩ := Option.bind_eq_some_iff.mp h
    obtain ⟨pong, hpong, rfl⟩ := Option.map_eq_some_iff.mp hrest
    obtain ⟨htodo, htodo', hcout, hbaz, hbaz', hunsent, hunsent'⟩ := Pong.takePing_eq_some hpong
    have hfold := fold_ddsTake (·.value) m.pong.fromPing [] htake
    refine ⟨Hop.Moves.of_eq rfl ?_, Hop.Moves.refl _, Hop.Moves.of_eq ?_ ?_,
      Hop.Moves.of_eq rfl ?_⟩
    · simpa only [State.pingPongHop, Pong.fromPing, hcout, htodo, htodo'] using hfold
    · simp only [State.pongBazHop, Pong.fromPing, hcout]
    · simp only [State.pongBazHop, hunsent, hunsent']
    · simp only [State.bazPongHop, Pong.fromBaz, hcout, hbaz, hbaz']
  | pongTakeBaz pattern =>
    obtain ⟨⟨es, c⟩, htake, hrest⟩ := Option.bind_eq_some_iff.mp h
    obtain ⟨pong, hpong, rfl⟩ := Option.map_eq_some_iff.mp hrest
    obtain ⟨htodo, htodo', hcout, hping, hping', hunsent, hunsent'⟩ := Pong.takeBaz_eq_some hpong
    have hfold := fold_ddsTake (·.shown) m.pong.fromBaz m.baz.unsent htake
    refine ⟨Hop.Moves.of_eq rfl ?_, Hop.Moves.refl _, Hop.Moves.of_eq ?_ ?_,
      Hop.Moves.of_eq rfl ?_⟩
    · simp only [State.pingPongHop, Pong.fromPing, hcout, hping, hping']
    · simp only [State.pongBazHop, Pong.fromPing, hcout]
    · simp only [State.pongBazHop, hunsent, hunsent']
    · simpa only [State.bazPongHop, Pong.fromBaz, hcout, htodo, htodo'] using hfold
  | pongPass a =>
    obtain ⟨pong, hpong, rfl⟩ := Option.map_eq_some_iff.mp h
    obtain ⟨lines, hprints⟩ := Pong.pass_eq_some hpong
    exact State.moves_prints hprints
  | pongWrite rc =>
    obtain ⟨⟨pong, msg⟩, hpong, rfl⟩ := Option.map_eq_some_iff.mp h
    obtain ⟨htodo, hcout, hunsent, hunsent', hbaz⟩ := Pong.write_eq_some hpong
    obtain ⟨hsub, heq⟩ := fold_ddsWrite (·.value) m.baz.received m.baz.todo [] m.pongBaz rc msg
    refine ⟨Hop.Moves.of_eq rfl ?_, Hop.Moves.refl _, Hop.Moves.of_sublist ?_ ?_ ?_,
      Hop.Moves.of_eq rfl ?_⟩
    · simp only [State.pingPongHop, Pong.fromPing, hcout, htodo]
    · simp only [State.pongBazHop, Pong.fromPing, hcout]
    · simpa only [State.pongBazHop, hunsent, hunsent'] using hsub
    · intro hrc
      simpa only [State.pongBazHop, hunsent, hunsent'] using heq hrc
    · simp only [State.bazPongHop, Pong.fromBaz, hcout, hbaz]
  | bazTake pattern =>
    obtain ⟨⟨es, c⟩, htake, hrest⟩ := Option.bind_eq_some_iff.mp h
    obtain ⟨baz, hbaz, rfl⟩ := Option.map_eq_some_iff.mp hrest
    obtain ⟨htodo, htodo', hreceived, hunsent, hunsent'⟩ := Baz.take_eq_some hbaz
    have hfold := fold_ddsTake (·.value) m.baz.received m.pong.unsent htake
    refine ⟨Hop.Moves.refl _, Hop.Moves.refl _, Hop.Moves.of_eq rfl ?_, Hop.Moves.of_eq ?_ ?_⟩
    · simpa only [State.pongBazHop, hreceived, htodo, htodo'] using hfold
    · simp only [State.bazPongHop, hreceived]
    · simp only [State.bazPongHop, hunsent, hunsent']
  | bazPass =>
    obtain ⟨baz, hbaz, rfl⟩ := Option.map_eq_some_iff.mp h
    obtain ⟨xs, htodo, hreceived, hunsent, hunsent'⟩ := Baz.pass_eq_some hbaz
    have hsource : baz.received.map response = m.baz.received.map response ++ xs.map response := by
      rw [hreceived, List.map_append]
    refine ⟨Hop.Moves.refl _, Hop.Moves.refl _, Hop.Moves.of_eq rfl ?_,
      Hop.Moves.of_append hsource ?_⟩
    · simp only [State.pongBazHop, hreceived, htodo, Hop.fold_handle]
    · simp only [State.bazPongHop, hunsent, hunsent']
      rw [← Hop.fold_append, List.nil_append]
  | bazWrite rc =>
    obtain ⟨⟨baz, msg⟩, hbaz, rfl⟩ := Option.map_eq_some_iff.mp h
    obtain ⟨htodo, hreceived, hunsent, hunsent'⟩ := Baz.write_eq_some hbaz
    obtain ⟨hsub, heq⟩ := fold_ddsWrite (·.shown) m.pong.fromBaz m.pong.todoBaz [] m.bazPong rc msg
    refine ⟨Hop.Moves.refl _, Hop.Moves.refl _, Hop.Moves.of_eq rfl ?_,
      Hop.Moves.of_sublist ?_ ?_ ?_⟩
    · simp only [State.pongBazHop, hreceived, htodo]
    · simp only [State.bazPongHop, hreceived]
    · simpa only [State.bazPongHop, hunsent, hunsent'] using hsub
    · intro hrc
      simpa only [State.bazPongHop, hunsent, hunsent'] using heq hrc
  | hogeTake pattern =>
    obtain ⟨⟨es, c⟩, htake, hrest⟩ := Option.bind_eq_some_iff.mp h
    obtain ⟨hoge, hhoge, rfl⟩ := Option.map_eq_some_iff.mp hrest
    obtain ⟨htodo, htodo', hcout⟩ := Hoge.take_eq_some hhoge
    have hfold := fold_ddsTake (·.value) m.hoge.cout [] htake
    refine ⟨Hop.Moves.refl _, Hop.Moves.of_eq rfl ?_, Hop.Moves.refl _, Hop.Moves.refl _⟩
    simpa only [State.pingHogeHop, hcout, htodo, htodo'] using hfold
  | hogePass =>
    obtain ⟨hoge, hhoge, rfl⟩ := Option.map_eq_some_iff.mp h
    obtain ⟨xs, htodo, hcout⟩ := Hoge.pass_eq_some hhoge
    refine ⟨Hop.Moves.refl _, Hop.Moves.of_eq rfl ?_, Hop.Moves.refl _, Hop.Moves.refl _⟩
    simp only [State.pingHogeHop, hcout, htodo, Hop.fold_handle]
  | arrive l depth =>
    cases l with
    | pingPong =>
      obtain ⟨c, hc, rfl⟩ := Option.map_eq_some_iff.mp h
      exact ⟨moves_arrive _ _ _ _ hc, Hop.Moves.refl _, Hop.Moves.refl _, Hop.Moves.refl _⟩
    | pingHoge =>
      obtain ⟨c, hc, rfl⟩ := Option.map_eq_some_iff.mp h
      exact ⟨Hop.Moves.refl _, moves_arrive _ _ _ _ hc, Hop.Moves.refl _, Hop.Moves.refl _⟩
    | pongBaz =>
      obtain ⟨c, hc, rfl⟩ := Option.map_eq_some_iff.mp h
      exact ⟨Hop.Moves.refl _, Hop.Moves.refl _, moves_arrive _ _ _ _ hc, Hop.Moves.refl _⟩
    | bazPong =>
      obtain ⟨c, hc, rfl⟩ := Option.map_eq_some_iff.mp h
      exact ⟨Hop.Moves.refl _, Hop.Moves.refl _, Hop.Moves.refl _, moves_arrive _ _ _ _ hc⟩
  | lose l i =>
    cases l with
    | pingPong =>
      obtain rfl := Option.some.inj h
      exact ⟨moves_lose _ _ _ _ _ i, Hop.Moves.refl _, Hop.Moves.refl _, Hop.Moves.refl _⟩
    | pingHoge =>
      obtain rfl := Option.some.inj h
      exact ⟨Hop.Moves.refl _, moves_lose _ _ _ _ _ i, Hop.Moves.refl _, Hop.Moves.refl _⟩
    | pongBaz =>
      obtain rfl := Option.some.inj h
      exact ⟨Hop.Moves.refl _, Hop.Moves.refl _, moves_lose _ _ _ _ _ i, Hop.Moves.refl _⟩
    | bazPong =>
      obtain rfl := Option.some.inj h
      exact ⟨Hop.Moves.refl _, Hop.Moves.refl _, Hop.Moves.refl _, moves_lose _ _ _ _ _ i⟩

end DdsPlayground.Mesh
