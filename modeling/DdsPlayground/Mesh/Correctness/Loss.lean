import DdsPlayground.Mesh.Semantics.Runs

/-!
# What the mesh loses

The programs request reliability and leave the history as it is, so that a reader keeps
one sample. A run in which DDS itself does not fail delivers every value exactly if no
sample arrives at a reader before it has taken the one before.
-/

namespace DdsPlayground.Mesh

open Delivery

/-! ## Runs -/

/-- DDS does not fail: no write returns an error, and no sample gets lost on its way. -/
def Action.Reliable : Action → Prop
  | .pingWrite rc => rc = ddsRetcodeOk
  | .pongWrite rc => rc = ddsRetcodeOk
  | .bazWrite rc => rc = ddsRetcodeOk
  | .lose _ _ => False
  | _ => True

/-- The history of every reader is KEEP_LAST with a depth. -/
def Action.KeepsLast (depth : Nat) : Action → Prop
  | .arrive _ d => d = depth
  | _ => True

/-- Every arrival finds room in the history of its reader, and replaces no sample there. -/
def NoReplacement (actions : List Action) : Prop :=
  ∀ before l depth after m, actions = before ++ .arrive l depth :: after →
    State.init.run before = some m → m.untaken l < depth

theorem noReplacement_concat {actions : List Action} {a : Action} {m : State}
    (h : State.init.run actions = some m) :
    NoReplacement (actions ++ [a]) ↔
      NoReplacement actions ∧ ∀ l depth, a = .arrive l depth → m.untaken l < depth := by
  constructor
  · intro hroom
    refine ⟨?_, ?_⟩
    · intro before l depth after m' hsplit hrun
      exact hroom before l depth (after ++ [a]) m' (by rw [hsplit, List.append_assoc]; rfl) hrun
    · rintro l depth rfl
      exact hroom actions l depth [] m rfl h
  · rintro ⟨hroom, hlast⟩ before l depth after m' hsplit hrun
    rcases History.split_append hsplit with ⟨mid, hold⟩ | ⟨mid, hbefore, hnew⟩
    · exact hroom before l depth mid m' hold hrun
    · rcases List.append_eq_singleton_iff.mp hnew.symm with ⟨rfl, harrive⟩ | ⟨-, hnil⟩
      · rw [hbefore, List.append_nil, h] at hrun
        obtain rfl := Option.some.inj hrun
        exact hlast l depth (List.cons.inj harrive).1.symm
      · cases hnil

/-! ## States -/

/-- No sample is in flight or untaken. -/
structure State.Quiet (m : State) : Prop where
  pingPong : m.pingPong.pending = []
  pingHoge : m.pingHoge.pending = []
  pongBaz : m.pongBaz.pending = []
  bazPong : m.bazPong.pending = []

/-- Each program has printed all that it took, and written what it has to hand on. -/
structure State.Idle (m : State) : Prop where
  hoge : m.hoge.todo = []
  pongPing : m.pong.todoPing = []
  pongUnsent : m.pong.unsent = []
  baz : m.baz.todo = []
  bazUnsent : m.baz.unsent = []
  pongBaz : m.pong.todoBaz = []

/-- Every integer that ping has sent is printed by the others, and its response by pong. -/
structure State.Delivered (m : State) : Prop where
  hoge : ∀ v ∈ m.ping.cout, v ∈ m.hoge.cout
  pong : ∀ v ∈ m.ping.cout, v ∈ m.pong.fromPing
  baz : ∀ v ∈ m.ping.cout, v ∈ m.baz.received
  answer : ∀ v ∈ m.ping.cout, response v ∈ m.pong.fromBaz

instance (m : State) : Decidable m.Quiet :=
  decidable_of_iff (m.pingPong.pending = [] ∧ m.pingHoge.pending = [] ∧ m.pongBaz.pending = [] ∧
    m.bazPong.pending = []) ⟨fun ⟨h₁, h₂, h₃, h₄⟩ => ⟨h₁, h₂, h₃, h₄⟩, fun h =>
      ⟨h.pingPong, h.pingHoge, h.pongBaz, h.bazPong⟩⟩

instance (m : State) : Decidable m.Idle :=
  decidable_of_iff (m.hoge.todo = [] ∧ m.pong.todoPing = [] ∧ m.pong.unsent = [] ∧
    m.baz.todo = [] ∧ m.baz.unsent = [] ∧ m.pong.todoBaz = [])
    ⟨fun ⟨h₁, h₂, h₃, h₄, h₅, h₆⟩ => ⟨h₁, h₂, h₃, h₄, h₅, h₆⟩, fun h =>
      ⟨h.hoge, h.pongPing, h.pongUnsent, h.baz, h.bazUnsent, h.pongBaz⟩⟩

/-- Nothing is lost on the hop that ends with a link. -/
def State.Complete (m : State) : Link → Prop
  | .pingPong => m.pingPongHop.Complete
  | .pingHoge => m.pingHogeHop.Complete
  | .pongBaz => m.pongBazHop.Complete
  | .bazPong => m.bazPongHop.Complete

/-- Something is lost on the hop that ends with a link. -/
def State.Short (m : State) : Link → Prop
  | .pingPong => m.pingPongHop.Short
  | .pingHoge => m.pingHogeHop.Short
  | .pongBaz => m.pongBazHop.Short
  | .bazPong => m.bazPongHop.Short

/-! ## Losses along a run -/

theorem State.Moves.complete {lossless : Prop} {m m' : State} (h : State.Moves lossless m m')
    (hl : lossless) {l : Link} (hc : m.Complete l) : m'.Complete l := by
  cases l with
  | pingPong => exact h.pingPong.complete hl hc
  | pingHoge => exact h.pingHoge.complete hl hc
  | pongBaz => exact h.pongBaz.complete hl hc
  | bazPong => exact h.bazPong.complete hl hc

theorem State.Moves.short {lossless : Prop} {m m' : State} (h : State.Moves lossless m m')
    {l : Link} (hs : m.Short l) : m'.Short l := by
  cases l with
  | pingPong => exact h.pingPong.short hs
  | pingHoge => exact h.pingHoge.short hs
  | pongBaz => exact h.pongBaz.short hs
  | bazPong => exact h.bazPong.short hs

/-- An arrival at a full history loses a sample of its hop. -/
theorem State.short_of_arrive {m m' : State} {l : Link} {depth : Nat}
    (h : m.step (.arrive l depth) = some m') (hc : m.Complete l) (hfull : depth ≤ m.untaken l) :
    m'.Short l := by
  cases l <;> obtain ⟨c, harrive, rfl⟩ := Option.map_eq_some_iff.mp h <;>
    exact lt_of_lt_of_eq
      (Hop.length_fold _ _ _ _ _ (Channel.length_pending_arrive harrive hfull))
      (congrArg List.length hc)

theorem State.lossless_of_reliable {m : State} {a : Action} (h : a.Reliable)
    (hroom : ∀ l depth, a = .arrive l depth → m.untaken l < depth) : m.Lossless a := by
  cases a with
  | arrive l depth => exact hroom l depth rfl
  | _ => exact h

/-- A reliable run loses nothing as long as no arrival replaces a sample; what the first
replacement loses is never made up for. -/
theorem State.losses_of_run {actions : List Action} {m : State}
    (h : State.init.run actions = some m) (hreliable : ∀ a ∈ actions, a.Reliable) :
    (NoReplacement actions ∧ ∀ l, m.Complete l) ∨
      (¬ NoReplacement actions ∧ ∃ l, m.Short l) := by
  refine History.run_induction (P := fun actions m => (∀ a ∈ actions, a.Reliable) →
    (NoReplacement actions ∧ ∀ l, m.Complete l) ∨
      (¬ NoReplacement actions ∧ ∃ l, m.Short l)) ?_ ?_ h hreliable
  · refine fun _ => .inl ⟨?_, ?_⟩
    · intro before l depth after m hsplit
      exact absurd hsplit.symm (List.append_ne_nil_of_right_ne_nil _ (List.cons_ne_nil _ _))
    · intro l
      cases l <;> rfl
  · intro actions a m m' hrun ih hstep hall
    have hmoves := State.moves_of_step hstep
    have ha := hall a (List.mem_append_right _ (List.mem_singleton_self a))
    rw [noReplacement_concat hrun]
    rcases ih fun b hb => hall b (List.mem_append_left _ hb) with ⟨hno, hc⟩ | ⟨hno, l, hs⟩
    · by_cases hroom : ∀ l depth, a = .arrive l depth → m.untaken l < depth
      · have hlossless := State.lossless_of_reliable ha hroom
        exact .inl ⟨⟨hno, hroom⟩, fun l => hmoves.complete hlossless (hc l)⟩
      · refine .inr ⟨fun hand => hroom hand.2, ?_⟩
        simp only [not_forall, not_lt] at hroom
        obtain ⟨l, depth, rfl, hfull⟩ := hroom
        exact ⟨l, State.short_of_arrive hstep (hc l) hfull⟩
    · exact .inr ⟨fun hand => hno hand.1, l, hmoves.short hs⟩

/-! ## Quiet states -/

/-- What comes through four complete hops is delivered. -/
theorem State.delivered_of_complete {m : State} (hc : ∀ l, m.Complete l) (hquiet : m.Quiet)
    (hidle : m.Idle) : m.Delivered := by
  have hhoge : m.hoge.cout = m.ping.cout := by
    simpa [State.Complete, State.pingHogeHop, Hop.Complete, Hop.fold, hidle.hoge,
      hquiet.pingHoge] using hc .pingHoge
  have hpong : m.pong.fromPing = m.ping.cout := by
    simpa [State.Complete, State.pingPongHop, Hop.Complete, Hop.fold, hidle.pongPing,
      hquiet.pingPong] using hc .pingPong
  have hbaz : m.baz.received = m.pong.fromPing := by
    simpa [State.Complete, State.pongBazHop, Hop.Complete, Hop.fold, hidle.baz,
      hidle.pongUnsent, hquiet.pongBaz] using hc .pongBaz
  have hresponse : m.pong.fromBaz = m.baz.received.map response := by
    simpa [State.Complete, State.bazPongHop, Hop.Complete, Hop.fold, hidle.pongBaz,
      hidle.bazUnsent, hquiet.bazPong] using hc .bazPong
  refine ⟨?_, ?_, ?_, ?_⟩
  · exact fun v hv => hhoge ▸ hv
  · exact fun v hv => hpong ▸ hv
  · exact fun v hv => hbaz ▸ hpong ▸ hv
  · intro v hv
    rw [hresponse, hbaz, hpong]
    exact List.mem_map_of_mem hv

/-- Where all is delivered, no hop has lost anything and no program has anything left. -/
theorem State.Delivered.exact {m : State} (h : m.Delivered) (horder : m.InOrder)
    (hcounts : m.ping.Counts) : (∀ l, ¬ m.Short l) ∧ m.Idle := by
  have hpong := horder.fromPing
  have hbaz := horder.received
  have hnodup := hcounts.nodup
  obtain ⟨hpingPong, htodoPing, -, -⟩ :=
    Hop.InOrder.of_subset _ _ _ _ m.pingPong horder.pingPong hnodup h.pong
  obtain ⟨hpingHoge, htodoHoge, -, -⟩ :=
    Hop.InOrder.of_subset _ _ _ _ m.pingHoge horder.pingHoge hnodup h.hoge
  obtain ⟨hpongBaz, htodoBaz, -, hunsentPong⟩ :=
    Hop.InOrder.of_subset _ _ _ _ m.pongBaz horder.pongBaz (hpong.nodup hnodup)
      fun v hv => h.baz v (hpong.subset hv)
  have hreplies : m.baz.received.map response ⊆ m.pong.fromBaz := by
    intro text htext
    obtain ⟨v, hv, rfl⟩ := List.mem_map.mp htext
    exact h.answer v (hpong.subset (hbaz.subset hv))
  obtain ⟨hbazPong, htodoText, -, hunsentBaz⟩ :=
    Hop.InOrder.of_subset _ _ _ _ m.bazPong horder.bazPong
      (((hbaz.trans hpong).nodup hnodup).map response_injective) hreplies
  refine ⟨?_, ⟨htodoHoge, htodoPing, hunsentPong, htodoBaz, hunsentBaz, htodoText⟩⟩
  intro l
  cases l <;> assumption

/-- In a run in which DDS does not fail and a reader keeps one sample, all is delivered as
soon as no sample is in flight or untaken and no program is within a batch, exactly if no
sample has arrived at a reader that had not taken the one before. -/
theorem delivered_iff_noReplacement {actions : List Action} {m : State}
    (h : State.init.run actions = some m)
    (hdds : ∀ a ∈ actions, a.Reliable ∧ a.KeepsLast 1) (hquiet : m.Quiet) :
    m.Delivered ↔ NoReplacement actions ∧ m.Idle := by
  constructor
  · intro hdelivered
    obtain ⟨hshort, hidle⟩ :=
      hdelivered.exact (State.inOrder_of_run h) (State.counts_of_run h)
    rcases State.losses_of_run h fun a ha => (hdds a ha).1 with ⟨hno, -⟩ | ⟨-, l, hs⟩
    · exact ⟨hno, hidle⟩
    · exact absurd hs (hshort l)
  · rintro ⟨hno, hidle⟩
    rcases State.losses_of_run h fun a ha => (hdds a ha).1 with ⟨-, hc⟩ | ⟨hreplaced, -⟩
    · exact State.delivered_of_complete hc hquiet hidle
    · exact absurd hno hreplaced

/-- What DDS tells where it knows both endpoints. -/
def knownTopics : TopicAnswers := ⟨some (some "PingPongTopic"), "PingPongTopic"⟩

/-- A value on its way through the mesh, from its arrival at hoge and pong. -/
def relayActions : List Action :=
  [.hogeTake [none], .hogePass, .hogePass, .pongWake [0], .pongTakePing [none],
    .pongPass knownTopics, .pongWrite 0, .pongPass knownTopics, .pongNext, .arrive .pongBaz 1,
    .bazTake [none], .bazPass, .bazWrite 0, .bazPass, .arrive .bazPong 1, .pongWake [1],
    .pongTakeBaz [none], .pongPass knownTopics, .pongPass knownTopics, .pongNext]

theorem reliable_relayActions : ∀ a ∈ relayActions, a.Reliable ∧ a.KeepsLast 1 := by
  simp [relayActions, Action.Reliable, Action.KeepsLast, ddsRetcodeOk]

/-- The readers of ping take one value before the next arrives. -/
def promptActions : List Action :=
  [.pingPoll 2, .pingWrite 0, .arrive .pingHoge 1, .arrive .pingPong 1] ++ relayActions ++
    [.pingWrite 0, .arrive .pingHoge 1, .arrive .pingPong 1] ++ relayActions

/-- The readers of ping are too slow for the first value. -/
def overrunActions : List Action :=
  [.pingPoll 2, .pingWrite 0, .arrive .pingHoge 1, .arrive .pingPong 1, .pingWrite 0,
    .arrive .pingHoge 1, .arrive .pingPong 1] ++ relayActions

set_option maxRecDepth 4000 in
theorem delivered_iff_noReplacement_prompt : ∃ m, State.init.run promptActions = some m ∧
    m.ping.cout = [0, 1] ∧ m.Delivered ∧ NoReplacement promptActions := by
  obtain ⟨m, hm, hquiet, hping, hhoge, hpong, hbaz, htexts⟩ : ∃ m ∈ State.init.run promptActions,
      m.Quiet ∧ m.ping.cout = [0, 1] ∧ m.hoge.cout = [0, 1] ∧ m.pong.fromPing = [0, 1] ∧
        m.baz.received = [0, 1] ∧ m.pong.fromBaz = [0, 1].map response := by decide
  have hdds : ∀ a ∈ promptActions, a.Reliable ∧ a.KeepsLast 1 := by
    simp only [promptActions, List.forall_mem_append]
    refine ⟨⟨⟨?_, reliable_relayActions⟩, ?_⟩, reliable_relayActions⟩ <;>
      simp [Action.Reliable, Action.KeepsLast, ddsRetcodeOk]
  have hdelivered : m.Delivered := by
    constructor <;> rw [hping]
    · rw [hhoge]
      exact fun _ hv => hv
    · rw [hpong]
      exact fun _ hv => hv
    · rw [hbaz]
      exact fun _ hv => hv
    · rw [htexts]
      exact fun _ hv => List.mem_map_of_mem hv
  exact ⟨m, hm, hping, hdelivered, ((delivered_iff_noReplacement hm hdds hquiet).mp hdelivered).1⟩

set_option maxRecDepth 4000 in
/-- A value that waits at hoge and pong when the next one arrives is printed by none. -/
theorem overrun_not_delivered : ∃ m, State.init.run overrunActions = some m ∧
    (∀ a ∈ overrunActions, a.Reliable ∧ a.KeepsLast 1) ∧ m.Quiet ∧ m.Idle ∧
      m.ping.cout = [0, 1] ∧ m.hoge.cout = [1] ∧ m.pong.fromPing = [1] ∧ ¬ m.Delivered := by
  obtain ⟨m, hm, hquiet, hidle, hping, hhoge, hpong⟩ : ∃ m ∈ State.init.run overrunActions,
      m.Quiet ∧ m.Idle ∧ m.ping.cout = [0, 1] ∧ m.hoge.cout = [1] ∧ m.pong.fromPing = [1] := by
    decide
  refine ⟨m, hm, ?_, hquiet, hidle, hping, hhoge, hpong, ?_⟩
  · rw [overrunActions, List.forall_mem_append]
    refine ⟨?_, reliable_relayActions⟩
    simp [Action.Reliable, Action.KeepsLast, ddsRetcodeOk]
  · intro h
    have hzero : (0 : Int32) ∈ m.hoge.cout := h.hoge 0 (by rw [hping]; exact List.mem_cons_self)
    rw [hhoge] at hzero
    exact absurd hzero (by decide)

end DdsPlayground.Mesh
