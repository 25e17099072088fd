import DdsPlayground.Core.History
import DdsPlayground.Inspector.Semantics.Effects

/-!
# The passes of a run

A statement about what the loop does at one submessage is one about a pass of
the native loop body, in the state in which the run reaches it. The passes of a
run are read off the native loops; each of them starts from what the ones before
it have left, and works on the submessage that the message visits there.
-/

namespace DdsPlayground.Inspector

open ByteWire BoundedLoop

/-- One pass of the submessage loop: the message and the state of the loop. -/
structure Step where
  origin : Origin
  data : Bytes
  walk : Walk

/-- The submessage that a pass works on, from its header to the end of the message. -/
def Step.rest (s : Step) : Bytes := s.data.drop s.walk.off

/-- The submessage that a pass works on. -/
def Step.visit (s : Step) : Visit := ⟨s.origin, headerPrefix s.data, decodeSubmsg s.rest⟩

/-- The globals that the loop body leaves. -/
def Step.next (cfg : Config) (s : Step) : Option Globals :=
  (submsgPass cfg s.origin s.data (headerPrefix s.data) s.walk).map fun
    | .again w => w.globals
    | .leave w => w.globals

/-- The passes that `handle_rtps` makes over a message. -/
def messageSteps (cfg : Config) (g : Globals) (m : Origin × Bytes) : List Step :=
  if isRtps m.2 then
    (visited (submsgPass cfg m.1 m.2 (headerPrefix m.2)) (m.2.length + 1)
      ⟨20, { g with cntRtps := g.cntRtps + 1 }⟩).map fun w => ⟨m.1, m.2, w⟩
  else []

/-- The passes over a sequence of messages. -/
def steps (cfg : Config) : List (Origin × Bytes) → Globals → List Step
  | [], _ => []
  | m :: msgs, g => messageSteps cfg g m ++ (handleRtps cfg m.1 m.2 g).elim [] (steps cfg msgs)

/-- Each pass starts from what the passes before it have left, and the loop body
acts as its submessage. -/
def Linked (cfg : Config) (g : Globals) (ss : List Step) : Prop :=
  ∀ before s after, ss = before ++ s :: after →
    Globals.Ran cfg g (before.map Step.visit) s.walk.globals ∧
      s.next cfg = some (s.walk.globals.apply cfg s.visit)

theorem linked_nil (cfg : Config) (g : Globals) : Linked cfg g [] := by
  intro before s after h
  simp at h

theorem Linked.cons {cfg : Config} {g : Globals} {s : Step} {ss : List Step}
    (hrun : Globals.Ran cfg g [] s.walk.globals)
    (hnext : s.next cfg = some (s.walk.globals.apply cfg s.visit))
    (h : Linked cfg (s.walk.globals.apply cfg s.visit) ss) : Linked cfg g (s :: ss) := by
  intro before t after hsplit
  cases before with
  | nil =>
    obtain ⟨rfl, rfl⟩ := List.cons.inj hsplit
    exact ⟨hrun, hnext⟩
  | cons b before =>
    obtain ⟨rfl, htail⟩ := List.cons.inj hsplit
    obtain ⟨hran, ht⟩ := h before t after htail
    exact ⟨(hrun.append (Globals.ran_apply cfg _ s.visit)).append hran, ht⟩

/-- Passes that start where others have ended continue them. -/
theorem Linked.append {cfg : Config} {g g' : Globals} {ss ts : List Step} (h : Linked cfg g ss)
    (hran : Globals.Ran cfg g (ss.map Step.visit) g') (h' : Linked cfg g' ts) :
    Linked cfg g (ss ++ ts) := by
  intro before s after hsplit
  rcases History.split_append hsplit with ⟨mid, rfl⟩ | ⟨mid, rfl, hts⟩
  · exact h before s mid rfl
  · obtain ⟨hrest, hs⟩ := h' mid s after hts
    rw [List.map_append]
    exact ⟨hran.append hrest, hs⟩

/-- A pass with a submessage header in front of it acts as its submessage. -/
theorem Step.next_eq (cfg : Config) {s : Step} (h : s.walk.off + 4 ≤ s.data.length) :
    s.next cfg = some (s.walk.globals.apply cfg s.visit) := by
  obtain ⟨o, data, ⟨off, g⟩⟩ := s
  simp only [Step.next, submsgPass_again cfg o data (headerPrefix data) h g, Option.map_some]
  rfl

/-- The passes of the loop are linked and visit the rests of the message. -/
theorem linked_visited (cfg : Config) (o : Origin) (data : Bytes) (fuel off : Nat) (g : Globals)
    (hoff : off ≤ data.length) (hfuel : data.length - off < fuel) :
    Linked cfg g ((visited (submsgPass cfg o data (headerPrefix data)) fuel ⟨off, g⟩).map
        fun w => ⟨o, data, w⟩) ∧
      ((visited (submsgPass cfg o data (headerPrefix data)) fuel ⟨off, g⟩).map
        fun w => Step.rest ⟨o, data, w⟩) = submsgCutter.items (data.drop off) := by
  induction fuel generalizing off g with
  | zero => omega
  | succ fuel ih =>
    by_cases h4 : off + 4 ≤ data.length
    · have hext := four_le_extent (data.drop off) (by simp only [List.length_drop]; omega)
      have hle := extent_le (data.drop off)
      rw [List.length_drop] at hle
      have hpass := submsgPass_again cfg o data (headerPrefix data) h4 g
      obtain ⟨hlink, hrests⟩ := ih (off + extent (data.drop off))
        (g.visit cfg o (headerPrefix data) (decodeSubmsg (data.drop off))) (by omega) (by omega)
      rw [visited_again hpass, List.map_cons, List.map_cons]
      refine ⟨Linked.cons (Globals.Ran.nil cfg g) (Step.next_eq cfg h4) hlink, ?_⟩
      rw [hrests, Cutter.items_of_some (submsgCutter_cut (data.drop off)
        (by simp only [List.length_drop]; omega)), List.drop_drop]
      rfl
    · rw [visited_leave (submsgPass_leave cfg o data (headerPrefix data) h4 g),
        Cutter.items_of_none (submsgCutter_cut_of_short (by simp only [List.length_drop]; omega))]
      exact ⟨linked_nil cfg g, rfl⟩

/-- The passes over a message visit its submessages. -/
theorem map_rest_messageSteps (cfg : Config) (g : Globals) (m : Origin × Bytes) :
    (messageSteps cfg g m).map Step.rest = if isRtps m.2 then submsgRests m.2 else [] := by
  cases h : isRtps m.2 with
  | false => simp only [messageSteps, h, Bool.false_eq_true, if_false, List.map_nil]
  | true =>
    have hlen := length_of_isRtps h
    have hrests := (linked_visited cfg m.1 m.2 (m.2.length + 1) 20
      { g with cntRtps := g.cntRtps + 1 } hlen (by omega)).2
    simp only [messageSteps, h, if_true, List.map_map]
    exact hrests

/-- Every pass over a message carries the message. -/
theorem mem_messageSteps {cfg : Config} {g : Globals} {m : Origin × Bytes} {s : Step}
    (h : s ∈ messageSteps cfg g m) : s.origin = m.1 ∧ s.data = m.2 ∧ isRtps m.2 := by
  unfold messageSteps at h
  split at h
  · next hr =>
    obtain ⟨w, _, rfl⟩ := List.mem_map.mp h
    exact ⟨rfl, rfl, hr⟩
  · simp at h

theorem map_visit_messageSteps (cfg : Config) (g : Globals) (m : Origin × Bytes) :
    (messageSteps cfg g m).map Step.visit = messageVisits m := by
  have hvisit : (messageSteps cfg g m).map Step.visit = (messageSteps cfg g m).map fun s =>
      ⟨m.1, headerPrefix m.2, decodeSubmsg s.rest⟩ := by
    refine List.map_congr_left fun s hs => ?_
    obtain ⟨ho, hd, _⟩ := mem_messageSteps hs
    rw [Step.visit, ho, hd]
  have hrest := congrArg (List.map fun rest => (⟨m.1, headerPrefix m.2, decodeSubmsg rest⟩ : Visit))
    (map_rest_messageSteps cfg g m)
  rw [List.map_map] at hrest
  rw [hvisit]
  refine hrest.trans ?_
  unfold messageVisits
  split
  · rw [submsgs, List.map_map]
    rfl
  · rfl

theorem linked_messageSteps (cfg : Config) (g : Globals) (m : Origin × Bytes) :
    Linked cfg g (messageSteps cfg g m) := by
  cases h : isRtps m.2 with
  | false =>
    simp only [messageSteps, h, Bool.false_eq_true, if_false]
    exact linked_nil cfg g
  | true =>
    have hlen := length_of_isRtps h
    have hlink := (linked_visited cfg m.1 m.2 (m.2.length + 1) 20
      { g with cntRtps := g.cntRtps + 1 } hlen (by omega)).1
    simp only [messageSteps, h, if_true]
    intro before s after hsplit
    obtain ⟨hran, hnext⟩ := hlink before s after hsplit
    exact ⟨⟨hran.endpoints, hran.cntSedp, hran.cntData, hran.cout⟩, hnext⟩

/-- The passes of a run visit its submessages. -/
theorem map_visit_steps (cfg : Config) (msgs : List (Origin × Bytes)) (g : Globals) :
    (steps cfg msgs g).map Step.visit = runVisits msgs := by
  induction msgs generalizing g with
  | nil => rfl
  | cons m msgs ih =>
    rw [steps, handleRtps_eq, Option.elim_some, List.map_append, map_visit_messageSteps, ih]
    rfl

/-- A submessage of a run is visited by a pass of it. -/
theorem exists_split_steps (cfg : Config) {msgs : List (Origin × Bytes)} (g : Globals)
    {before after : List Visit} {v : Visit} (h : runVisits msgs = before ++ v :: after) :
    ∃ bs s as, steps cfg msgs g = bs ++ s :: as ∧ bs.map Step.visit = before ∧ s.visit = v := by
  rw [← map_visit_steps cfg msgs g] at h
  obtain ⟨bs, rest, hsteps, hbs, hrest⟩ := List.map_eq_append_iff.mp h
  obtain ⟨s, as, rfl, hs, -⟩ := List.map_eq_cons_iff.mp hrest
  exact ⟨bs, s, as, hsteps, hbs, hs⟩

/-- The passes of a run are linked. -/
theorem linked_steps (cfg : Config) (msgs : List (Origin × Bytes)) (g : Globals) :
    Linked cfg g (steps cfg msgs g) := by
  induction msgs generalizing g with
  | nil => exact linked_nil cfg g
  | cons m msgs ih =>
    rw [steps, handleRtps_eq, Option.elim_some]
    refine (linked_messageSteps cfg g m).append ?_ (ih _)
    rw [map_visit_messageSteps]
    exact Globals.ran_receive cfg g m

end DdsPlayground.Inspector
