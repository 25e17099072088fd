import DdsPlayground.Cdr.Semantics.Carrying
import DdsPlayground.Cdr.Semantics.Reading

/-!
# Normalizing along a program

Member by member, what is written along a program is accepted by normalizing along the same
program. The values of an enumeration have to fit in the bytes that the program gives them, and
the strings of the sample must have a length that fits in the stream.
-/

namespace DdsPlayground.Cdr

open ByteWire HostOrder Replay

/-! ## Samples -/

/-- The length of a string fits in the 32 bits that the stream has for it. -/
def Cell.Short : Cell → Prop
  | .str _ (some s) | .chars s => s.chars.length < 4294967295
  | _ => True

def Sample.Short (m : Sample) : Prop := ∀ p c, m p = some c → c.Short

theorem Sample.Short.set {m : Sample} (hm : m.Short) (p : Place) {c : Cell} (hc : c.Short) :
    (m.set p c).Short := by
  intro q d h
  unfold Sample.set at h
  split_ifs at h
  · exact Option.some.inj h ▸ hc
  · exact hm q d h

variable {data : Bytes} {hostLe swap : Bool} {m : Sample}

/-! ## Values -/

section

variable (hsize : data.length ≤ cdrSizeMax)
include hsize

end

/-! ## Members -/

theorem followExternal_eq_ok {isExternal : Bool} {p p' : Place} {s s' : Bytes}
    (h : followExternal m isExternal p s = .ok (p', s')) :
    s' = s ∧ ∀ t, followExternal m isExternal p t = .ok (p', t) := by
  unfold followExternal at h ⊢
  cases isExternal with
  | false =>
    obtain ⟨rfl, rfl⟩ := pure_eq_ok.mp h
    exact ⟨rfl, fun _ => rfl⟩
  | true =>
    obtain ⟨set, s₁, hptr, h⟩ := bind_eq_ok.mp h
    obtain ⟨hset, rfl⟩ := lift_eq_ok.mp hptr
    cases set with
    | false => cases h
    | true =>
      obtain ⟨rfl, rfl⟩ := pure_eq_ok.mp h
      exact ⟨rfl, fun t => bind_eq_ok.mpr ⟨true, t, lift_eq_ok.mpr ⟨hset, rfl⟩, rfl⟩⟩

theorem Carries.external {α γ : Type} {V : α → γ → Prop} {f : Bool → Place → Write α}
    {y : Normalize γ} {isExternal : Bool} {p : Place}
    (h : ∀ p', Carries data swap V (fun b => f b p') y) :
    Carries data swap V (fun b => followExternal m isExternal p >>= f b) y := by
  intro b s c a s' hx hdata hmeet
  obtain ⟨p', s₁, hp, hf⟩ := bind_eq_ok.mp hx
  obtain ⟨rfl, hagain⟩ := followExternal_eq_ok hp
  refine (h p' hf hdata hmeet).imp_left ?_
  rintro ⟨v, c', hy, hV, hmeet', hrest⟩
  refine ⟨v, c', hy, hV, hmeet', fun b' hfit => ⟨(hrest b' hfit).1, ?_⟩⟩
  exact bind_eq_ok.mpr ⟨p', _, hagain _, (hrest b' hfit).2⟩

section

variable {ops : Ops} {nested : Bool → Nat → Place → Write Unit}
  {nestedNormalize : Nat → Normalize Unit} (hsize : data.length ≤ cdrSizeMax) (hm : m.Short)
  (hgrow : ∀ b pc p, Grows id (nested b pc p))
  (hnested : ∀ pc p, Reached ops pc →
    Carries data swap Eq (fun b => nested b pc p) (nestedNormalize pc))
include hsize hm hgrow hnested

end

end DdsPlayground.Cdr
