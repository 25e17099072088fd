import DdsPlayground.Mesh.Semantics.Runs

/-!
# The loops go on

A program walks a batch by an index into arrays that it shares between batches. In every
state of every run the entries up to the end of the batch are the ones that the last take
has written, so that no pass of a loop reads what is not there, and each goes on.
-/

namespace DdsPlayground.Mesh

open Delivery

/-! ## Batches at hand -/

section

variable {α : Type} {P : α → Prop}

/-- The batch at hand, if there is one, is in the arrays, and its data of a kind. -/
def Filled (P : α → Prop) (b : Inbox α) (batch : Option Nat) : Prop :=
  ∀ n ∈ batch, n ≤ kMaxSamples ∧ b.Holds P n

theorem filled_none (b : Inbox α) : Filled P b none := fun _ hn => nomatch hn

/-- A take that has found room leaves its batch in the arrays. -/
theorem filled_fill (b : Inbox α) {es : List (Entry α)} (hlen : es.length ≤ kMaxSamples)
    (hes : ∀ e ∈ es, P e.data) : Filled P (b.fill kMaxSamples es) (some es.length) := by
  intro n hn
  obtain rfl := Option.some.inj hn
  exact ⟨hlen, Inbox.holds_fill kMaxSamples b hes⟩

end

/-! ## hoge -/

/-- The length of the batch at hand. -/
def Hoge.batch (p : Hoge) : Option Nat :=
  match p.pc with
  | .wait => none
  | .loop _ n => some n

/-- The batch at hand is in the arrays. -/
def Hoge.Filled (p : Hoge) : Prop := Mesh.Filled (fun _ => True) p.inbox p.batch

theorem Hoge.Step.filled {p p' : Hoge} (h : p.Step p') (hp : p.Filled) : p'.Filled := by
  cases h with
  | take es hlen h =>
    unfold Hoge.take at h
    split at h
    · obtain rfl := Option.some.inj h
      exact filled_fill p.inbox hlen fun _ _ => trivial
    · cases h
  | pass h =>
    unfold Hoge.pass at h
    split at h
    · next i n hpc =>
      have hbatch : p.batch = some n := by simp only [Hoge.batch, hpc]
      rw [Hoge.Filled, hbatch] at hp
      split at h
      · split at h
        · cases h
        · obtain rfl := Option.some.inj h
          exact hp
        · obtain rfl := Option.some.inj h
          exact hp
      · obtain rfl := Option.some.inj h
        exact filled_none p.inbox
    · cases h

/-- A pass of the loop over a batch in the arrays reads an entry or leaves the loop. -/
theorem Hoge.Filled.pass_isSome {p : Hoge} (hp : p.Filled) {i n : Nat} (hpc : p.pc = .loop i n) :
    p.pass.isSome := by
  have hbatch : p.batch = some n := by simp only [Hoge.batch, hpc]
  by_cases hi : i < n
  · obtain ⟨d, hread, -⟩ := (hp n hbatch).2 i hi
    cases d <;> simp [Hoge.pass, hpc, hi, hread]
  · simp [Hoge.pass, hpc, hi]

/-! ## baz -/

/-- The length of the batch at hand. -/
def Baz.batch (p : Baz) : Option Nat :=
  match p.pc with
  | .wait => none
  | .loop _ n => some n
  | .respond _ _ n => some n

/-- The batch at hand is in the arrays. -/
def Baz.Filled (p : Baz) : Prop := Mesh.Filled (fun _ => True) p.inbox p.batch

theorem Baz.Step.filled {p p' : Baz} (h : p.Step p') (hp : p.Filled) : p'.Filled := by
  cases h with
  | take es hlen h =>
    unfold Baz.take at h
    split at h
    · obtain rfl := Option.some.inj h
      exact filled_fill p.inbox hlen fun _ _ => trivial
    · cases h
  | pass h =>
    unfold Baz.pass at h
    split at h
    · next i n hpc =>
      have hbatch : p.batch = some n := by simp only [Baz.batch, hpc]
      rw [Baz.Filled, hbatch] at hp
      split at h
      · split at h
        · cases h
        · obtain rfl := Option.some.inj h
          exact hp
        · obtain rfl := Option.some.inj h
          exact hp
      · obtain rfl := Option.some.inj h
        exact filled_none p.inbox
    · cases h
  | write msg h =>
    unfold Baz.write at h
    split at h
    · next reply i n hpc =>
      have hbatch : p.batch = some n := by simp only [Baz.batch, hpc]
      rw [Baz.Filled, hbatch] at hp
      obtain ⟨rfl, -⟩ := Prod.mk.inj (Option.some.inj h)
      exact hp
    · cases h

theorem Baz.Filled.pass_isSome {p : Baz} (hp : p.Filled) {i n : Nat} (hpc : p.pc = .loop i n) :
    p.pass.isSome := by
  have hbatch : p.batch = some n := by simp only [Baz.batch, hpc]
  by_cases hi : i < n
  · obtain ⟨d, hread, -⟩ := (hp n hbatch).2 i hi
    cases d <;> simp [Baz.pass, hpc, hi, hread]
  · simp [Baz.pass, hpc, hi]

/-! ## pong -/

/-- The length of the batch from ping at hand. -/
def Pong.batchPing (p : Pong) : Option Nat :=
  match p.pc with
  | .ping _ n _ => some n
  | .forward _ _ n _ => some n
  | _ => none

/-- The length of the batch from baz at hand. -/
def Pong.batchBaz (p : Pong) : Option Nat :=
  match p.pc with
  | .baz _ n _ => some n
  | _ => none

/-- The batch at hand is in the shared arrays, and of messages from the reader it was taken
from. -/
structure Pong.Filled (p : Pong) : Prop where
  ping : Mesh.Filled (fun loan => loan.pingPong?.isSome) p.inbox p.batchPing
  baz : Mesh.Filled (fun loan => loan.bazResponse?.isSome) p.inbox p.batchBaz

/-- A state with no batch at hand. -/
theorem Pong.Filled.of_none {p : Pong} (hping : p.batchPing = none) (hbaz : p.batchBaz = none) :
    p.Filled :=
  ⟨hping ▸ filled_none p.inbox, hbaz ▸ filled_none p.inbox⟩

/-- A state with the same batch at hand. -/
theorem Pong.Filled.of_eq {p p' : Pong} (hp : p.Filled) (hinbox : p'.inbox = p.inbox)
    (hping : p'.batchPing = p.batchPing) (hbaz : p'.batchBaz = p.batchBaz) : p'.Filled :=
  ⟨by rw [hping, hinbox]; exact hp.ping, by rw [hbaz, hinbox]; exact hp.baz⟩

/-- A batch behind the pointers of the shared array is as long and of their kind. -/
theorem filled_loans {β : Type} {P : Loan → Prop} (loan : β → Loan) (hkind : ∀ x, P (loan x))
    (b : Inbox Loan) {es : List (Entry β)} (hlen : es.length ≤ kMaxSamples) :
    Filled P (b.fill kMaxSamples (es.map fun e => ⟨e.valid, loan e.data⟩)) (some es.length) := by
  rw [← List.length_map fun e : Entry β => (⟨e.valid, loan e.data⟩ : Entry Loan)] at hlen ⊢
  refine filled_fill b hlen ?_
  intro e he
  obtain ⟨x, -, rfl⟩ := List.mem_map.mp he
  exact hkind x.data

theorem Pong.pass_filled {p p' : Pong} {a : TopicAnswers} (h : p.pass a = some p')
    (hp : p.Filled) : p'.Filled := by
  unfold Pong.pass at h
  split at h
  · next i n ts hpc =>
    split at h
    · split at h
      · cases h
      · obtain rfl := Option.some.inj h
        exact hp.of_eq rfl (by simp only [Pong.batchPing, hpc]) (by simp only [Pong.batchBaz, hpc])
      · obtain ⟨msg, -, rfl⟩ := Option.map_eq_some_iff.mp h
        exact hp.of_eq rfl (by simp only [Pong.batchPing, hpc]) (by simp only [Pong.batchBaz, hpc])
    · obtain rfl := Option.some.inj h
      exact .of_none rfl rfl
  · next i n ts hpc =>
    split at h
    · split at h
      · cases h
      · obtain rfl := Option.some.inj h
        exact hp.of_eq rfl (by simp only [Pong.batchPing, hpc]) (by simp only [Pong.batchBaz, hpc])
      · obtain ⟨msg, -, rfl⟩ := Option.map_eq_some_iff.mp h
        exact hp.of_eq rfl (by simp only [Pong.batchPing, hpc]) (by simp only [Pong.batchBaz, hpc])
    · obtain rfl := Option.some.inj h
      exact .of_none rfl rfl
  · cases h

theorem Pong.Step.filled {p p' : Pong} (h : p.Step p') (hp : p.Filled) : p'.Filled := by
  cases h with
  | wake triggered h =>
    unfold Pong.wake at h
    split at h
    · split at h
      · obtain rfl := Option.some.inj h
        exact .of_none rfl rfl
      · cases h
    · cases h
  | next h =>
    unfold Pong.next at h
    split at h
    · obtain rfl := Option.some.inj h
      exact .of_none rfl rfl
    · split at h
      · obtain rfl := Option.some.inj h
        exact .of_none rfl rfl
      · cases h
    · cases h
  | takePing es hlen h =>
    unfold Pong.takePing at h
    split at h
    · split at h
      · obtain rfl := Option.some.inj h
        exact ⟨filled_loans .pingPong (fun _ => rfl) p.inbox hlen, filled_none _⟩
      · cases h
    · cases h
  | takeBaz es hlen h =>
    unfold Pong.takeBaz at h
    split at h
    · split at h
      · obtain rfl := Option.some.inj h
        exact ⟨filled_none _, filled_loans .bazResponse (fun _ => rfl) p.inbox hlen⟩
      · cases h
    · cases h
  | pass a h => exact Pong.pass_filled h hp
  | write msg h =>
    unfold Pong.write at h
    split at h
    · next fwd i n ts hpc =>
      obtain ⟨rfl, -⟩ := Prod.mk.inj (Option.some.inj h)
      exact hp.of_eq rfl (by simp only [Pong.batchPing, hpc]) (by simp only [Pong.batchBaz, hpc])
    · cases h

/-- A pass of either loop reads a message of its own reader, or leaves the loop. -/
theorem Pong.Filled.pass_isSome {p : Pong} (hp : p.Filled) (a : TopicAnswers) {i n : Nat}
    {ts : List Int} (hpc : p.pc = .ping i n ts ∨ p.pc = .baz i n ts) : (p.pass a).isSome := by
  rcases hpc with hpc | hpc <;> by_cases hi : i < n
  · have hbatch : p.batchPing = some n := by simp only [Pong.batchPing, hpc]
    obtain ⟨d, hread, hkind⟩ := (hp.ping n hbatch).2 i hi
    cases d with
    | none => simp [Pong.pass, hpc, hi, hread]
    | some loan => simpa [Pong.pass, hpc, hi, hread] using hkind loan rfl
  · simp [Pong.pass, hpc, hi]
  · have hbatch : p.batchBaz = some n := by simp only [Pong.batchBaz, hpc]
    obtain ⟨d, hread, hkind⟩ := (hp.baz n hbatch).2 i hi
    cases d with
    | none => simp [Pong.pass, hpc, hi, hread]
    | some loan => simpa [Pong.pass, hpc, hi, hread] using hkind loan rfl
  · simp [Pong.pass, hpc, hi]

/-! ## The mesh -/

/-- In every state of every run, the batches at hand are in the arrays. -/
theorem State.filled_of_run {actions : List Action} {m : State}
    (h : State.init.run actions = some m) : m.hoge.Filled ∧ m.baz.Filled ∧ m.pong.Filled := by
  refine History.run_induction
    (P := fun _ m => m.hoge.Filled ∧ m.baz.Filled ∧ m.pong.Filled) ?_ ?_ h
  · exact ⟨filled_none _, filled_none _, .of_none rfl rfl⟩
  · rintro _ a m m' _ ⟨hhoge, hbaz, hpong⟩ hstep
    have hlocal := State.local_of_step hstep
    refine ⟨?_, ?_, ?_⟩
    · rcases (Relation.reflGen_iff _ _ _).mp hlocal.hoge with heq | hs
      · rwa [heq]
      · exact hs.filled hhoge
    · rcases (Relation.reflGen_iff _ _ _).mp hlocal.baz with heq | hs
      · rwa [heq]
      · exact hs.filled hbaz
    · rcases (Relation.reflGen_iff _ _ _).mp hlocal.pong with heq | hs
      · rwa [heq]
      · exact hs.filled hpong

/-- No loop of a program reads what is not there. -/
theorem State.passes_of_run {actions : List Action} {m : State}
    (h : State.init.run actions = some m) (a : TopicAnswers) (i n : Nat) (ts : List Int) :
    (m.hoge.pc = .loop i n → m.hoge.pass.isSome) ∧ (m.baz.pc = .loop i n → m.baz.pass.isSome) ∧
      (m.pong.pc = .ping i n ts ∨ m.pong.pc = .baz i n ts → (m.pong.pass a).isSome) := by
  obtain ⟨hhoge, hbaz, hpong⟩ := State.filled_of_run h
  exact ⟨hhoge.pass_isSome, hbaz.pass_isSome, hpong.pass_isSome a⟩

set_option maxRecDepth 4000 in
/-- hoge stands in front of the value that it has taken. -/
theorem State.passes_of_run_taken :
    ∃ m ∈ State.init.run [.pingPoll 2, .pingWrite 0, .arrive .pingHoge 1, .hogeTake [none]],
      m.hoge.pc = .loop 0 1 ∧ ∀ (a : TopicAnswers) (i n : Nat) (ts : List Int),
        (m.hoge.pc = .loop i n → m.hoge.pass.isSome) ∧ (m.baz.pc = .loop i n → m.baz.pass.isSome) ∧
          (m.pong.pc = .ping i n ts ∨ m.pong.pc = .baz i n ts → (m.pong.pass a).isSome) := by
  obtain ⟨m, hm, hpc⟩ : ∃ m ∈ State.init.run [.pingPoll 2, .pingWrite 0, .arrive .pingHoge 1,
      .hogeTake [none]], m.hoge.pc = .loop 0 1 := by decide
  exact ⟨m, hm, hpc, fun a i n ts => State.passes_of_run hm a i n ts⟩

end DdsPlayground.Mesh
