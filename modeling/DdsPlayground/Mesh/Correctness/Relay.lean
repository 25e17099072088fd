import DdsPlayground.Mesh.Semantics.Runs

/-!
# What the relay prints

Whatever DDS loses, each program prints a subsequence of what the program before it has
printed, and pong prints a response only behind the value that it answers.
-/

namespace DdsPlayground.Mesh

open Delivery

/-- Every response that `pong` has printed answers a value that it has printed before. -/
def Pong.Answered (p : Pong) : Prop :=
  ∀ before text senderTopic receiverTopic after,
    p.cout = before ++ .fromBaz text senderTopic receiverTopic :: after →
      ∃ v ∈ before.filterMap PongLine.value?, text = response v

/-- What `pong` prints of baz is in its batch. -/
theorem Pong.Step.exists_lines {p p' : Pong} (h : p.Step p') :
    ∃ lines, p'.cout = p.cout ++ lines ∧
      ∀ text ∈ lines.filterMap PongLine.text?, text ∈ p.todoBaz := by
  have hprints : ∀ lines, p.Prints p' lines → ∃ lines, p'.cout = p.cout ++ lines ∧
      ∀ text ∈ lines.filterMap PongLine.text?, text ∈ p.todoBaz := by
    intro lines hp
    refine ⟨lines, hp.cout, ?_⟩
    intro text htext
    rw [hp.todoBaz]
    exact List.mem_append_left _ htext
  have hsilent : p'.cout = p.cout → ∃ lines, p'.cout = p.cout ++ lines ∧
      ∀ text ∈ lines.filterMap PongLine.text?, text ∈ p.todoBaz := by
    intro hcout
    refine ⟨[], by rw [hcout, List.append_nil], ?_⟩
    intro text htext
    cases htext
  cases h with
  | wake triggered h => exact hprints _ (Pong.wake_eq_some h)
  | next h => exact hprints _ (Pong.next_eq_some h)
  | takePing es _ h =>
    obtain ⟨-, -, hcout, -⟩ := Pong.takePing_eq_some h
    exact hsilent hcout
  | takeBaz es _ h =>
    obtain ⟨-, -, hcout, -⟩ := Pong.takeBaz_eq_some h
    exact hsilent hcout
  | pass a h =>
    obtain ⟨lines, hp⟩ := Pong.pass_eq_some h
    exact hprints lines hp
  | write msg h =>
    obtain ⟨-, hcout, -⟩ := Pong.write_eq_some h
    exact hsilent hcout

/-- Lines stay answered with further ones that show responses to printed values. -/
theorem Pong.Answered.append {p p' : Pong} {lines : List PongLine} (hp : p.Answered)
    (hcout : p'.cout = p.cout ++ lines)
    (hnew : ∀ text ∈ lines.filterMap PongLine.text?, ∃ v ∈ p.fromPing, text = response v) :
    p'.Answered := by
  intro before text senderTopic receiverTopic after heq
  rw [hcout] at heq
  rcases History.split_append heq with ⟨mid, hold⟩ | ⟨mid, hbefore, hlines⟩
  · exact hp before text senderTopic receiverTopic mid hold
  · have htext : text ∈ lines.filterMap PongLine.text? := by
      rw [hlines, List.mem_filterMap]
      exact ⟨_, List.mem_append_right _ List.mem_cons_self, rfl⟩
    obtain ⟨v, hv, hresponse⟩ := hnew text htext
    refine ⟨v, ?_, hresponse⟩
    rw [hbefore, List.filterMap_append]
    exact List.mem_append_left _ hv

/-- A text from baz that `pong` has at hand answers a value that `pong` has printed. -/
theorem State.InOrder.answers {m : State} (h : m.InOrder) {text : String}
    (htext : text ∈ m.pong.todoBaz) : ∃ v ∈ m.pong.fromPing, text = response v := by
  have hsource := h.bazPong.of_fold.subset (List.mem_append_right _ htext)
  obtain ⟨v, hv, rfl⟩ := List.mem_map.mp hsource
  exact ⟨v, h.pongBaz.of_fold.subset (List.mem_append_left _ hv), rfl⟩

theorem State.answered_of_run {actions : List Action} {m : State}
    (h : State.init.run actions = some m) : m.pong.Answered := by
  refine History.run_induction (P := fun _ m => m.pong.Answered) ?_ ?_ h
  · intro before text senderTopic receiverTopic after heq
    exact absurd heq.symm (List.append_ne_nil_of_right_ne_nil _ (List.cons_ne_nil _ _))
  · intro _ a m m' hrun hm hstep
    rcases (Relation.reflGen_iff _ _ _).mp (State.local_of_step hstep).pong with heq | hpong
    · rwa [heq]
    · obtain ⟨lines, hcout, htodo⟩ := hpong.exists_lines
      refine hm.append hcout ?_
      intro text htext
      exact (State.inOrder_of_run hrun).answers (htodo text htext)

/-- What the programs have printed is what one value after the other would make them
print, with gaps. -/
structure State.Faithful (m : State) : Prop where
  /-- Pong prints a subsequence of what ping sent. -/
  fromPing : m.pong.fromPing.Sublist m.ping.cout
  increasing : m.pong.fromPing.Pairwise (· < ·)
  /-- Baz prints a subsequence of what pong printed. -/
  received : m.baz.received.Sublist m.pong.fromPing
  /-- Pong prints the responses to a subsequence of what baz printed. -/
  fromBaz : ∃ vs : List Int32, vs.Sublist m.baz.received ∧ m.pong.fromBaz = vs.map response
  /-- Each response is printed behind the value that it answers. -/
  answered : m.pong.Answered
  /-- No value is answered twice. -/
  once : m.pong.fromBaz.Nodup

/-- The relay never fabricates, duplicates or reorders, in any state of any run: DDS may
lose samples and fail writes wherever it likes. -/
theorem relay_faithful {actions : List Action} {m : State} (h : State.init.run actions = some m) :
    m.Faithful := by
  have horder := State.inOrder_of_run h
  have hcounts := State.counts_of_run h
  obtain ⟨vs, hvs, hmap⟩ := List.sublist_map_iff.mp horder.fromBaz
  have hdistinct : vs.Nodup := ((hvs.trans horder.received).trans horder.fromPing).nodup
    hcounts.nodup
  refine ⟨horder.fromPing, hcounts.increasing.sublist horder.fromPing, horder.received,
    ⟨vs, hvs, hmap⟩, State.answered_of_run h, ?_⟩
  rw [hmap]
  exact hdistinct.map response_injective

/-- What DDS tells of both topics where it knows neither endpoint. -/
def unknownTopics : TopicAnswers := ⟨none, "PingPongTopic"⟩

/-- Ping fails to write 1, 0 makes the round, and pong forwards 2 behind an invalid entry. -/
def gapActions : List Action :=
  [.pingPoll 0, .pingPoll 2, .pingWrite 0, .pingWrite (-10), .pingWrite 0, .lose .pingHoge 0,
    .arrive .pingPong 1, .pongWake [0], .pongTakePing [none, some ⟨7⟩], .arrive .pingPong 1,
    .pongPass unknownTopics, .pongWrite 0, .pongPass unknownTopics, .pongPass unknownTopics,
    .pongNext, .arrive .pongBaz 1, .bazTake [none], .bazPass, .bazWrite 0, .arrive .bazPong 1,
    .pongWake [1, 0], .pongTakeBaz [none], .pongPass unknownTopics, .pongPass unknownTopics,
    .pongTakePing [some ⟨9⟩, none], .pongPass unknownTopics, .pongPass unknownTopics]

theorem relay_faithful_gap : ∃ m, State.init.run gapActions = some m ∧ m.ping.cout = [0, 2] ∧
    m.pong.fromPing = [0, 2] ∧ m.pong.fromBaz = ["baz:0"] ∧ m.Faithful := by
  obtain ⟨m, hm⟩ := Option.isSome_iff_exists.mp
    (by decide : (State.init.run gapActions).isSome)
  have hprinted : (State.init.run gapActions).map
      (fun m => (m.ping.cout, m.pong.fromPing, m.pong.fromBaz)) =
        some ([0, 2], [0, 2], ["baz:0"]) := by decide
  rw [hm] at hprinted
  obtain ⟨hping, hpong⟩ := Prod.mk.inj (Option.some.inj hprinted)
  obtain ⟨hfrom, hbaz⟩ := Prod.mk.inj hpong
  exact ⟨m, hm, hping, hfrom, hbaz, relay_faithful hm⟩

end DdsPlayground.Mesh
