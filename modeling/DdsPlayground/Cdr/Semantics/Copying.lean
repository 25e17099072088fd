import DdsPlayground.Cdr.Semantics.Restoring

/-!
# Copying a sample along a program

Member by member, the reader restores what writing along the same program has put out.
-/

namespace DdsPlayground.Cdr

open ByteWire HostOrder Replay

variable {final : Bytes} {hostLe : Bool}

/-! ## Collections -/

theorem ptr_eq_ok {m : Sample} {p : Place} {b : Bool} (h : m.ptr p = .ok b) :
    m p = some (.ptr b) := by
  unfold Sample.ptr at h
  split at h
  · next b hb => exact hb.trans (by rw [Except.ok.inj h])
  · cases h

theorem ptr_of_cell {m : Sample} {p : Place} {b : Bool} (h : m p = some (.ptr b)) :
    m.ptr p = .ok b := by
  rw [Sample.ptr, h]

theorem followExternal_true {m : Sample} {p p' : Place} {s s' : Bytes}
    (h : followExternal m true p s = .ok (p', s')) :
    m.ptr p = .ok true ∧ p' = p.deref ∧ s' = s := by
  obtain ⟨set, s₁, hptr, h⟩ := bind_eq_ok.mp h
  obtain ⟨hset, rfl⟩ := lift_eq_ok.mp hptr
  cases set with
  | false => cases h
  | true =>
    obtain ⟨rfl, rfl⟩ := pure_eq_ok.mp h
    exact ⟨hset, rfl, rfl⟩

/-- What a pointer points to gets an object at the same place. -/
theorem Restores.external {α γ : Type} {V : α → γ → Prop} {f : Sample → Place → Write α}
    {g : Place → Read γ} {size : Except Stop Nat} {isExternal : Bool}
    (hsize : isExternal → Sized size) (p : Place)
    (h : ∀ p', Restores final V (fun m => f m p') (g p')) :
    Restores final V (fun m => followExternal m isExternal p >>= f m)
      (allocExternal size isExternal p >>= g) := by
  cases isExternal with
  | false => exact h p
  | true =>
    simp only [allocExternal, if_true, bind_assoc, pure_bind]
    refine Replays.excused (hsize rfl).lift fun _ => ?_
    rintro m s r a s' hx hfinal ⟨hm, hr, hcopies⟩
    obtain ⟨p', s₁, hfollow, hf⟩ := bind_eq_ok.mp hx
    obtain ⟨hptr, rfl, rfl⟩ := followExternal_true hfollow
    have hcell := ptr_eq_ok hptr
    refine (h p.deref hf hfinal (t := ⟨r.index, r.sample.set p (.ptr true)⟩)
      ⟨hm, hr, hcopies.set hcell⟩).imp_left ?_
    rintro ⟨c, r', hg, hV, hmeet, hagain⟩
    refine ⟨c, r', hg, hV, hmeet, fun m' hfit => ?_⟩
    obtain ⟨hfit₁, hf'⟩ := hagain m' hfit
    obtain ⟨hwithin, hm'⟩ := Sample.Within.of_set hcopies hcell hfit₁
    have hlift : (StateT.lift (m'.ptr p) : Write Bool) s₁ = .ok (true, s₁) :=
      lift_eq_ok.mpr ⟨ptr_of_cell hm', rfl⟩
    exact ⟨hwithin, bind_eq_ok.mpr ⟨p.deref, s₁, bind_eq_ok.mpr ⟨true, s₁, hlift, rfl⟩, hf'⟩⟩

/-! ## Optional members -/

section

variable {α γ : Type} {V : α → γ → Prop} {p : Place}

end

/-! ## Optional strings -/

section

variable {args : WriteArgs} {m : Sample} {buf : Bytes} {ops : Ops} {pc : Nat}

end

/-! ## Members -/

section

variable {ops : Ops} {nested : Sample → Nat → Place → Write Unit}
  {nestedRead : Nat → Place → Read Unit}
  (hgrow : ∀ m pc p, Grows id (nested m pc p))
  (hnested : ∀ pc p, Reached ops pc →
    Restores final Eq (fun m => nested m pc p) (nestedRead pc p))
include hgrow hnested

end

end DdsPlayground.Cdr
