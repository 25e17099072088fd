import DdsPlayground.Core.Ranking
import DdsPlayground.Mesh.Semantics.Runs

/-!
# The work ahead

Each sample has some steps ahead of it until the last program has printed it, and each
program some until it waits again. The two make a rank of the mesh: while DDS serves the
programs, every action lowers it but those of ping.
-/

namespace DdsPlayground.Mesh

open Delivery

/-! ## What DDS does for the programs -/

/-- There is something to take for an attachment of pong. -/
def State.Triggered (m : State) (t : Int) : Prop :=
  t = 0 ∧ m.pingPong.cache ≠ [] ∨ t = 1 ∧ m.bazPong.cache ≠ []

/-- DDS serves the programs: a wait ends for what there is to take, a take returns a sample,
and no sample that has arrived goes away. -/
def State.Serves (m : State) : Action → Prop
  | .pongWake triggered => triggered ≠ [] ∧ triggered.Nodup ∧ ∀ t ∈ triggered, m.Triggered t
  | .pongTakePing pattern => none ∈ pattern
  | .pongTakeBaz pattern => none ∈ pattern
  | .bazTake pattern => none ∈ pattern
  | .hogeTake pattern => none ∈ pattern
  | .arrive _ depth => 0 < depth
  | .lose _ _ => False
  | _ => True

/-- The action is a step of ping. -/
def Action.OfPing : Action → Prop
  | .pingPoll _ => True
  | .pingWrite _ => True
  | _ => False

instance (m : State) (t : Int) : Decidable (m.Triggered t) :=
  inferInstanceAs (Decidable (_ ∨ _))

instance (m : State) : (a : Action) → Decidable (m.Serves a)
  | .pongWake _ => inferInstanceAs (Decidable (_ ∧ _ ∧ _))
  | .pongTakePing _ => inferInstanceAs (Decidable (_ ∈ _))
  | .pongTakeBaz _ => inferInstanceAs (Decidable (_ ∈ _))
  | .bazTake _ => inferInstanceAs (Decidable (_ ∈ _))
  | .hogeTake _ => inferInstanceAs (Decidable (_ ∈ _))
  | .arrive _ _ => inferInstanceAs (Decidable (_ < _))
  | .lose _ _ => inferInstanceAs (Decidable False)
  | .pingPoll _ => inferInstanceAs (Decidable True)
  | .pingWrite _ => inferInstanceAs (Decidable True)
  | .pongNext => inferInstanceAs (Decidable True)
  | .pongPass _ => inferInstanceAs (Decidable True)
  | .pongWrite _ => inferInstanceAs (Decidable True)
  | .bazPass => inferInstanceAs (Decidable True)
  | .bazWrite _ => inferInstanceAs (Decidable True)
  | .hogePass => inferInstanceAs (Decidable True)

instance : (a : Action) → Decidable a.OfPing
  | .pingPoll _ | .pingWrite _ => inferInstanceAs (Decidable True)
  | .pongWake _ | .pongNext | .pongTakePing _ | .pongTakeBaz _ | .pongPass _ | .pongWrite _
  | .bazTake _ | .bazPass | .bazWrite _ | .hogeTake _ | .hogePass | .arrive _ _ | .lose _ _ =>
    inferInstanceAs (Decidable False)

/-! ## Channels -/

section

variable {α : Type}

theorem length_ddsWrite (c : Channel α) (rc : Int) (msg : α) :
    (ddsWrite c rc msg).flight.length ≤ c.flight.length + 1 ∧
      (ddsWrite c rc msg).cache = c.cache := by
  unfold ddsWrite
  split
  · exact ⟨by simp only [Channel.write, List.length_append, List.length_cons, List.length_nil,
      Nat.zero_add, Nat.le_refl], rfl⟩
  · exact ⟨Nat.le_succ _, rfl⟩

theorem validData_ne_nil {pattern : List (Option α)} {xs rest : List α} {es : List (Entry α)}
    (h : Channel.takeFrom pattern xs = some (es, rest)) (hnone : none ∈ pattern) :
    validData es ≠ [] := by
  induction pattern generalizing xs es rest with
  | nil => cases hnone
  | cons p ps ih =>
    cases p with
    | some junk =>
      obtain ⟨⟨es', rest'⟩, htake, heq⟩ := Option.map_eq_some_iff.mp h
      obtain ⟨rfl, rfl⟩ := Prod.mk.inj heq
      have htail := ih htake ((List.mem_cons.mp hnone).resolve_left nofun)
      exact htail
    | none =>
      cases xs with
      | nil => cases h
      | cons x xs =>
        obtain ⟨⟨es', rest'⟩, htake, heq⟩ := Option.map_eq_some_iff.mp h
        obtain ⟨rfl, rfl⟩ := Prod.mk.inj heq
        exact List.cons_ne_nil x (validData es')

/-- A take of a sample moves what it returns out of the cache. -/
theorem length_ddsTake {c c' : Channel α} {pattern : List (Option α)} {es : List (Entry α)}
    (h : ddsTake c pattern = some (es, c')) (hnone : none ∈ pattern) :
    0 < (validData es).length ∧ c.cache.length = (validData es).length + c'.cache.length ∧
      c'.flight = c.flight := by
  unfold ddsTake at h
  split at h
  · obtain ⟨⟨es', rest⟩, htake, heq⟩ := Option.map_eq_some_iff.mp h
    obtain ⟨rfl, rfl⟩ := Prod.mk.inj heq
    obtain ⟨hcache, -⟩ := Channel.takeFrom_eq_some htake
    refine ⟨List.length_pos_of_ne_nil (validData_ne_nil htake hnone), ?_, rfl⟩
    rw [← List.length_append, hcache]
  · cases h

theorem length_arrive {c c' : Channel α} {depth : Nat} (h : c.arrive depth = some c') :
    c.flight.length = c'.flight.length + 1 ∧ c'.cache.length ≤ c.cache.length + 1 ∧
      (0 < depth → c'.cache ≠ []) := by
  unfold Channel.arrive at h
  split at h
  · cases h
  · next x rest hf =>
    obtain rfl := Option.some.inj h
    refine ⟨by rw [hf, List.length_cons], ?_, ?_⟩
    · simp only [List.length_drop, List.length_append, List.length_cons, List.length_nil]
      omega
    · intro hdepth hnil
      have hlen := congrArg List.length hnil
      simp only [List.length_drop, List.length_append, List.length_cons, List.length_nil] at hlen
      omega

end

/-! ## hoge -/

/-- The steps ahead until hoge waits, the samples of its batch apart. -/
def Hoge.rank (p : Hoge) : Nat :=
  match p.pc with
  | .wait => 0
  | .loop i n => n - i + 1

theorem Hoge.take_rank {p p' : Hoge} {es : List (Entry PingPongMsg)} (h : p.take es = some p') :
    p'.rank = es.length + 1 := by
  unfold Hoge.take at h
  split at h
  · obtain rfl := Option.some.inj h
    rfl
  · cases h

theorem Hoge.pass_rank {p p' : Hoge} (h : p.pass = some p') : p'.rank < p.rank := by
  unfold Hoge.pass at h
  split at h
  · next i n hpc =>
    split at h
    · split at h
      · cases h
      · obtain rfl := Option.some.inj h
        simp only [Hoge.rank, hpc]
        omega
      · obtain rfl := Option.some.inj h
        simp only [Hoge.rank, hpc]
        omega
    · obtain rfl := Option.some.inj h
      simp only [Hoge.rank, hpc]
      omega
  · cases h

/-! ## baz -/

/-- The steps ahead until baz waits, the samples of its batch apart. -/
def Baz.rank (p : Baz) : Nat :=
  match p.pc with
  | .wait => 0
  | .loop i n => n - i + 1
  | .respond _ i n => n - i + 1

theorem Baz.take_rank {p p' : Baz} {es : List (Entry PingPongMsg)} (h : p.take es = some p') :
    p'.rank = es.length + 1 := by
  unfold Baz.take at h
  split at h
  · obtain rfl := Option.some.inj h
    rfl
  · cases h

/-- A pass takes a step of the loop, or prints a line. -/
theorem Baz.pass_rank {p p' : Baz} (h : p.pass = some p') :
    p'.rank + p.received.length < p.rank + p'.received.length := by
  unfold Baz.pass at h
  split at h
  · next i n hpc =>
    split at h
    · split at h
      · cases h
      · obtain rfl := Option.some.inj h
        simp only [Baz.rank, Baz.received, hpc]
        omega
      · obtain rfl := Option.some.inj h
        simp only [Baz.rank, Baz.received, hpc, List.length_map, List.length_append,
          List.length_cons, List.length_nil]
        omega
    · obtain rfl := Option.some.inj h
      simp only [Baz.rank, Baz.received, hpc]
      omega
  · cases h

theorem Baz.write_rank {p p' : Baz} {msg : BazResponseMsg} (h : p.write = some (p', msg)) :
    p'.rank ≤ p.rank := by
  unfold Baz.write at h
  split at h
  · next reply i n hpc =>
    obtain ⟨rfl, -⟩ := Prod.mk.inj (Option.some.inj h)
    simp only [Baz.rank, hpc]
    omega
  · cases h

/-! ## pong -/

/-- The steps ahead until pong waits, the samples of its batch and the batches that it is
about to take apart. -/
def Pong.rank (p : Pong) : Nat :=
  match p.pc with
  | .dispatch (_ :: _) => 0
  | .wait => 1
  | .dispatch [] => 2
  | .ping i n _ => n - i + 3
  | .forward _ i n _ => n - i + 3
  | .baz i n _ => n - i + 3

/-- The attachments that pong has still to look at. -/
def Pong.attachments (p : Pong) : List Int :=
  match p.pc with
  | .wait => []
  | .dispatch ts => ts
  | .ping _ _ ts => ts
  | .forward _ _ _ ts => ts
  | .baz _ _ ts => ts

theorem Pong.wake_rank {p p' : Pong} {triggered : List Int} (h : p.wake triggered = some p')
    (hne : triggered ≠ []) : p'.rank < p.rank ∧ p'.attachments = triggered := by
  unfold Pong.wake at h
  split at h
  · next hpc =>
    split at h
    · obtain rfl := Option.some.inj h
      refine ⟨?_, rfl⟩
      cases triggered with
      | nil => exact absurd rfl hne
      | cons t ts => simp only [Pong.rank, hpc, Nat.zero_lt_one]
    · cases h
  · cases h

/-- Pong passes over nothing but attachments that it does not know. -/
theorem Pong.next_rank {p p' : Pong} (h : p.next = some p') :
    (p'.rank < p.rank ∧ p'.attachments = []) ∨
      ∃ t, t ≠ 0 ∧ t ≠ 1 ∧ p.attachments = t :: p'.attachments := by
  unfold Pong.next at h
  split at h
  · next hpc =>
    obtain rfl := Option.some.inj h
    exact .inl ⟨by simp only [Pong.rank, hpc, Nat.one_lt_two], rfl⟩
  · next t ts hpc =>
    split at h
    · next hne =>
      obtain rfl := Option.some.inj h
      exact .inr ⟨t, hne.1, hne.2, by simp only [Pong.attachments, hpc]⟩
    · cases h
  · cases h

theorem Pong.takePing_rank {p p' : Pong} {es : List (Entry PingPongMsg)}
    (h : p.takePing es = some p') :
    p'.rank = es.length + 3 ∧ p.attachments = 0 :: p'.attachments := by
  unfold Pong.takePing at h
  split at h
  · next t ts hpc =>
    split at h
    · next ht =>
      obtain rfl := Option.some.inj h
      exact ⟨rfl, by simp only [Pong.attachments, hpc, ht]⟩
    · cases h
  · cases h

theorem Pong.takeBaz_rank {p p' : Pong} {es : List (Entry BazResponseMsg)}
    (h : p.takeBaz es = some p') :
    p'.rank = es.length + 3 ∧ p.attachments = 1 :: p'.attachments := by
  unfold Pong.takeBaz at h
  split at h
  · next t ts hpc =>
    split at h
    · next ht =>
      obtain rfl := Option.some.inj h
      exact ⟨rfl, by simp only [Pong.attachments, hpc, ht]⟩
    · cases h
  · cases h

theorem Pong.rank_dispatch (p : Pong) {ts : List Int} (hpc : p.pc = .dispatch ts) :
    p.rank ≤ 2 := by
  cases ts <;> simp only [Pong.rank, hpc, Nat.le_refl, Nat.zero_le]

/-- A pass takes a step of the loop, or prints a line. -/
theorem Pong.pass_rank {p p' : Pong} {a : TopicAnswers} (h : p.pass a = some p') :
    p'.rank + p.cout.length < p.rank + p'.cout.length ∧ p'.attachments = p.attachments := by
  unfold Pong.pass at h
  split at h
  · next i n ts hpc =>
    split at h
    · split at h
      · cases h
      · obtain rfl := Option.some.inj h
        simp only [Pong.rank, Pong.attachments, hpc, and_true]
        omega
      · obtain ⟨msg, -, rfl⟩ := Option.map_eq_some_iff.mp h
        simp only [Pong.rank, Pong.attachments, hpc, List.length_append, List.length_cons,
          List.length_nil, and_true]
        omega
    · obtain rfl := Option.some.inj h
      refine ⟨?_, by simp only [Pong.attachments, hpc]⟩
      have hrank : p.rank = n - i + 3 := by simp only [Pong.rank, hpc]
      have hle := Pong.rank_dispatch { p with pc := .dispatch ts } rfl
      rw [hrank]
      simp only at hle ⊢
      omega
  · next i n ts hpc =>
    split at h
    · split at h
      · cases h
      · obtain rfl := Option.some.inj h
        simp only [Pong.rank, Pong.attachments, hpc, and_true]
        omega
      · obtain ⟨msg, -, rfl⟩ := Option.map_eq_some_iff.mp h
        simp only [Pong.rank, Pong.attachments, hpc, List.length_append, List.length_cons,
          List.length_nil, and_true]
        omega
    · obtain rfl := Option.some.inj h
      refine ⟨?_, by simp only [Pong.attachments, hpc]⟩
      have hrank : p.rank = n - i + 3 := by simp only [Pong.rank, hpc]
      have hle := Pong.rank_dispatch { p with pc := .dispatch ts } rfl
      rw [hrank]
      simp only at hle ⊢
      omega
  · cases h

theorem Pong.write_rank {p p' : Pong} {msg : PingPongMsg} (h : p.write = some (p', msg)) :
    p'.rank ≤ p.rank ∧ p'.attachments = p.attachments := by
  unfold Pong.write at h
  split at h
  · next fwd i n ts hpc =>
    obtain ⟨rfl, -⟩ := Prod.mk.inj (Option.some.inj h)
    refine ⟨?_, by simp only [Pong.attachments, hpc]⟩
    simp only [Pong.rank, hpc]
    omega
  · cases h

/-- A line of pong shows a value or a text. -/
theorem length_lines (lines : List PongLine) :
    lines.length =
      (lines.filterMap PongLine.value?).length + (lines.filterMap PongLine.text?).length := by
  induction lines with
  | nil => rfl
  | cons line lines ih =>
    cases line <;>
      simp only [List.filterMap_cons, PongLine.value?, PongLine.text?, List.length_cons, ih] <;>
      omega

/-! ## The mesh -/

/-- The steps that the samples in the mesh have ahead of them. -/
def State.load (m : State) : Nat :=
  11 * m.pingPong.flight.length + 10 * m.pingPong.cache.length +
    9 * m.pong.todoPing.length + 8 * m.pong.unsent.length +
    7 * m.pongBaz.flight.length + 6 * m.pongBaz.cache.length +
    5 * m.baz.todo.length + 4 * m.baz.unsent.length +
    3 * m.bazPong.flight.length + 2 * m.bazPong.cache.length + m.pong.todoBaz.length +
    3 * m.pingHoge.flight.length + 2 * m.pingHoge.cache.length + m.hoge.todo.length

/-- The work ahead, where a step of a sample outweighs what it does to the programs. -/
def State.work (m : State) : Nat := 32 * m.load + m.pong.rank + m.baz.rank + m.hoge.rank

/-- Pong has still to look at attachments for which there is something to take, each once. -/
def State.Attended (m : State) : Prop :=
  m.pong.attachments.Nodup ∧ ∀ t ∈ m.pong.attachments, m.Triggered t

theorem State.Triggered.of_cache {m m' : State} {t : Int} (h : m.Triggered t)
    (hping : m.pingPong.cache ≠ [] → m'.pingPong.cache ≠ [])
    (hbaz : m.bazPong.cache ≠ [] → m'.bazPong.cache ≠ []) : m'.Triggered t :=
  h.imp (And.imp_right hping) (And.imp_right hbaz)

theorem State.Attended.of_cache {m m' : State} (h : m.Attended)
    (hts : m'.pong.attachments = m.pong.attachments)
    (hping : m.pingPong.cache ≠ [] → m'.pingPong.cache ≠ [])
    (hbaz : m.bazPong.cache ≠ [] → m'.bazPong.cache ≠ []) : m'.Attended := by
  rw [State.Attended, hts]
  exact ⟨h.1, fun t ht => (h.2 t ht).of_cache hping hbaz⟩

/-- What is left to look at stays attended while pong takes the batch for another. -/
theorem State.Attended.of_cons {m m' : State} {t : Int} (h : m.Attended)
    (hts : m.pong.attachments = t :: m'.pong.attachments)
    (hping : t ≠ 0 → m.pingPong.cache ≠ [] → m'.pingPong.cache ≠ [])
    (hbaz : t ≠ 1 → m.bazPong.cache ≠ [] → m'.bazPong.cache ≠ []) : m'.Attended := by
  obtain ⟨hnodup, htriggered⟩ := h
  rw [hts] at hnodup htriggered
  obtain ⟨hnotin, hnodup'⟩ := List.nodup_cons.mp hnodup
  refine ⟨hnodup', ?_⟩
  intro u hu
  have hne : t ≠ u := fun heq => hnotin (heq ▸ hu)
  rcases htriggered u (List.mem_cons_of_mem _ hu) with ⟨rfl, hcache⟩ | ⟨rfl, hcache⟩
  · exact .inl ⟨rfl, hping hne hcache⟩
  · exact .inr ⟨rfl, hbaz hne hcache⟩

/-- While DDS serves the programs, pong looks at nothing in vain. -/
theorem State.attended_of_step {m m' : State} {a : Action} (hm : m.Attended) (ha : m.Serves a)
    (h : m.step a = some m') : m'.Attended := by
  cases a with
  | pingPoll currentCount =>
    obtain ⟨ping, -, rfl⟩ := Option.map_eq_some_iff.mp h
    exact hm
  | pingWrite rc =>
    obtain ⟨⟨ping, msg⟩, -, rfl⟩ := Option.map_eq_some_iff.mp h
    refine hm.of_cache rfl ?_ id
    intro hcache
    rwa [(length_ddsWrite m.pingPong rc msg).2]
  | pongWake triggered =>
    obtain ⟨pong, hpong, rfl⟩ := Option.map_eq_some_iff.mp h
    obtain ⟨hne, hnodup, htriggered⟩ := ha
    rw [State.Attended, (Pong.wake_rank hpong hne).2]
    exact ⟨hnodup, fun t ht => (htriggered t ht).of_cache id id⟩
  | pongNext =>
    obtain ⟨pong, hpong, rfl⟩ := Option.map_eq_some_iff.mp h
    rcases Pong.next_rank hpong with ⟨-, hnil⟩ | ⟨t, -, -, hts⟩
    · rw [State.Attended, hnil]
      exact ⟨List.nodup_nil, nofun⟩
    · exact hm.of_cons hts (fun _ => id) fun _ => id
  | pongTakePing pattern =>
    obtain ⟨⟨es, c⟩, -, hrest⟩ := Option.bind_eq_some_iff.mp h
    obtain ⟨pong, hpong, rfl⟩ := Option.map_eq_some_iff.mp hrest
    exact hm.of_cons (Pong.takePing_rank hpong).2 (fun hne => absurd rfl hne) fun _ => id
  | pongTakeBaz pattern =>
    obtain ⟨⟨es, c⟩, -, hrest⟩ := Option.bind_eq_some_iff.mp h
    obtain ⟨pong, hpong, rfl⟩ := Option.map_eq_some_iff.mp hrest
    exact hm.of_cons (Pong.takeBaz_rank hpong).2 (fun _ => id) fun hne => absurd rfl hne
  | pongPass answers =>
    obtain ⟨pong, hpong, rfl⟩ := Option.map_eq_some_iff.mp h
    exact hm.of_cache (Pong.pass_rank hpong).2 id id
  | pongWrite rc =>
    obtain ⟨⟨pong, msg⟩, hpong, rfl⟩ := Option.map_eq_some_iff.mp h
    exact hm.of_cache (Pong.write_rank hpong).2 id id
  | bazTake pattern =>
    obtain ⟨⟨es, c⟩, -, hrest⟩ := Option.bind_eq_some_iff.mp h
    obtain ⟨baz, -, rfl⟩ := Option.map_eq_some_iff.mp hrest
    exact hm
  | bazPass =>
    obtain ⟨baz, -, rfl⟩ := Option.map_eq_some_iff.mp h
    exact hm
  | bazWrite rc =>
    obtain ⟨⟨baz, msg⟩, -, rfl⟩ := Option.map_eq_some_iff.mp h
    refine hm.of_cache rfl id ?_
    intro hcache
    rwa [(length_ddsWrite m.bazPong rc msg).2]
  | hogeTake pattern =>
    obtain ⟨⟨es, c⟩, -, hrest⟩ := Option.bind_eq_some_iff.mp h
    obtain ⟨hoge, -, rfl⟩ := Option.map_eq_some_iff.mp hrest
    exact hm
  | hogePass =>
    obtain ⟨hoge, -, rfl⟩ := Option.map_eq_some_iff.mp h
    exact hm
  | arrive l depth =>
    cases l with
    | pingPong =>
      obtain ⟨c, hc, rfl⟩ := Option.map_eq_some_iff.mp h
      exact hm.of_cache rfl (fun _ => (length_arrive hc).2.2 ha) id
    | pingHoge =>
      obtain ⟨c, -, rfl⟩ := Option.map_eq_some_iff.mp h
      exact hm
    | pongBaz =>
      obtain ⟨c, -, rfl⟩ := Option.map_eq_some_iff.mp h
      exact hm
    | bazPong =>
      obtain ⟨c, hc, rfl⟩ := Option.map_eq_some_iff.mp h
      exact hm.of_cache rfl id fun _ => (length_arrive hc).2.2 ha
  | lose l i => exact ha.elim

end DdsPlayground.Mesh
