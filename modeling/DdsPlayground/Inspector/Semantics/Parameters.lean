import DdsPlayground.Inspector.Semantics.Submessage

/-!
# Parameter lists on the wire

SEDP payloads and inline QoS carry lists of one format: parameters, and a sentinel
whose length field says nothing. A list ends in one of three ways: with a sentinel,
with a parameter that does not fit, or with less than a header. The two walkers find
the same parameters, and part where the list ends.
-/

namespace DdsPlayground.Inspector

open ByteWire

/-- A parameter of an inline-QoS list. -/
structure QosParam where
  pid : UInt16
  value : Bytes
  pid_ne : pid ≠ pidSentinel
  fits : value.length ≤ 65535

def QosParam.bytes (le : Bool) (q : QosParam) : Bytes :=
  put16 le q.pid ++ (put16 le (UInt16.ofNat q.value.length) ++ q.value)

/-- An inline-QoS list, closed by a sentinel without a value. -/
def qosBytes (le : Bool) : List QosParam → Bytes
  | [] => put16 le pidSentinel ++ put16 le 0
  | q :: qs => q.bytes le ++ qosBytes le qs

theorem toNat_ofNat_length {n : Nat} (h : n ≤ 65535) : (UInt16.ofNat n).toNat = n := by
  rw [UInt16.toNat_ofNat']
  omega

/-- The parameter that a walker is to find. -/
def QosParam.param (q : QosParam) : Param := ⟨q.pid, q.value⟩

/-- Parameters one behind the other. -/
def paramBytes (le : Bool) (qs : List QosParam) : Bytes := qs.flatMap (QosParam.bytes le)

/-- The header of a parameter or of a sentinel. -/
def paramHeader (le : Bool) (pid len : UInt16) : Bytes := put16 le pid ++ put16 le len

/-- A closed list and what stands behind it: parameters, a sentinel with any length
field, and the tail. -/
def closedList (le : Bool) (qs : List QosParam) (len : UInt16) (tail : Bytes) : Bytes :=
  paramBytes le qs ++ (paramHeader le pidSentinel len ++ tail)

/-! ## Headers -/

@[simp] theorem length_paramHeader (le : Bool) (pid len : UInt16) :
    (paramHeader le pid len).length = 4 := by
  simp [paramHeader]

theorem drop_paramHeader_append (le : Bool) (pid len : UInt16) (xs : Bytes) :
    (paramHeader le pid len ++ xs).drop 4 = xs :=
  List.drop_left' (length_paramHeader le pid len)

theorem u16At_paramHeader (le : Bool) (pid len : UInt16) (xs : Bytes) :
    u16At le (paramHeader le pid len ++ xs) 0 = pid ∧
      u16At le (paramHeader le pid len ++ xs) 2 = len := by
  rw [paramHeader, List.append_assoc]
  exact ⟨u16At_put16_append le pid _, u16At_of_drop (List.drop_left' (length_put16 le pid))⟩

/-- The first four bytes of a string are a header. -/
theorem eq_paramHeader_append (le : Bool) {xs : Bytes} (h : 4 ≤ xs.length) :
    xs = paramHeader le (u16At le xs 0) (u16At le xs 2) ++ xs.drop 4 := by
  have h0 := drop_eq_put16 le xs 0 (by omega)
  have h2 := drop_eq_put16 le xs 2 (by omega)
  rw [paramHeader, List.append_assoc, ← h2]
  exact h0

theorem QosParam.bytes_append (le : Bool) (q : QosParam) (rest : Bytes) :
    q.bytes le ++ rest =
      paramHeader le q.pid (UInt16.ofNat q.value.length) ++ (q.value ++ rest) := by
  simp only [QosParam.bytes, paramHeader, List.append_assoc]

/-! ## The parameters of a list -/

/-- A parameter is cut off wherever it stands. -/
theorem paramCutter_cut (le : Bool) (q : QosParam) (rest : Bytes) :
    (paramCutter le).cut (q.bytes le ++ rest) = some (q.param, rest) := by
  obtain ⟨hpid, hlen⟩ :=
    u16At_paramHeader le q.pid (UInt16.ofNat q.value.length) (q.value ++ rest)
  have hcount := toNat_ofNat_length q.fits
  have hdrop := drop_paramHeader_append le q.pid (UInt16.ofNat q.value.length) (q.value ++ rest)
  rw [q.bytes_append]
  simp only [paramCutter, hpid, hlen, hcount, List.length_append, length_paramHeader]
  rw [if_pos ⟨by omega, q.pid_ne, by omega⟩, hdrop, ← List.drop_drop, hdrop, List.drop_left,
    List.take_left]
  rfl

/-- Where a parameter is cut off, its bytes stand. -/
theorem exists_of_paramCutter_cut {le : Bool} {xs rest : Bytes} {b : Param}
    (h : (paramCutter le).cut xs = some (b, rest)) :
    ∃ q : QosParam, xs = q.bytes le ++ rest := by
  simp only [paramCutter] at h
  split at h
  · next hc =>
    obtain ⟨h4, hpid, hfit⟩ := hc
    obtain ⟨rfl, rfl⟩ := Prod.mk.inj (Option.some.inj h)
    have hlt := (u16At le xs 2).toNat_lt
    have hlen : ((xs.drop 4).take (u16At le xs 2).toNat).length = (u16At le xs 2).toNat := by
      rw [List.length_take, List.length_drop]
      omega
    refine ⟨⟨u16At le xs 0, (xs.drop 4).take (u16At le xs 2).toNat, hpid, by omega⟩, ?_⟩
    rw [QosParam.bytes_append]
    dsimp only
    rw [hlen, UInt16.ofNat_toNat, ← List.drop_drop, List.take_append_drop]
    exact eq_paramHeader_append le h4
  · cases h

/-- No parameter begins where a list ends. -/
theorem paramCutter_cut_eq_none_iff {le : Bool} {xs : Bytes} :
    (paramCutter le).cut xs = none ↔ xs.length < 4 ∨ u16At le xs 0 = pidSentinel ∨
      xs.length < 4 + (u16At le xs 2).toNat := by
  simp only [paramCutter, ite_eq_right_iff, reduceCtorEq, imp_false]
  constructor
  · intro h
    by_contra hc
    simp only [not_or, not_lt] at hc
    exact h ⟨hc.1, hc.2.1, hc.2.2⟩
  · rintro (h | h | h) ⟨h4, hpid, hfit⟩
    · omega
    · exact hpid h
    · omega

/-- A string is the parameters that fit, and a remainder. -/
theorem exists_eq_paramBytes_append (le : Bool) (xs : Bytes) :
    ∃ qs, xs = paramBytes le qs ++ (paramCutter le).remainder xs :=
  Cutter.exists_eq_flatMap exists_of_paramCutter_cut xs

/-- The walkers find the parameters in front of whatever ends the list. -/
theorem paramCutter_paramBytes_append (le : Bool) (qs : List QosParam) {tail : Bytes}
    (h : (paramCutter le).cut tail = none) :
    (paramCutter le).items (paramBytes le qs ++ tail) = qs.map QosParam.param ∧
      (paramCutter le).remainder (paramBytes le qs ++ tail) = tail := by
  obtain ⟨hitems, hrem⟩ := Cutter.cut_flatMap_append (paramCutter_cut le) qs tail
  rw [Cutter.items_of_none h, List.append_nil] at hitems
  rw [Cutter.remainder_of_none h] at hrem
  exact ⟨hitems, hrem⟩

theorem paramCutter_cut_sentinel (le : Bool) (len : UInt16) (tail : Bytes) :
    (paramCutter le).cut (paramHeader le pidSentinel len ++ tail) = none :=
  paramCutter_cut_eq_none_iff.mpr (Or.inr (Or.inl (u16At_paramHeader le pidSentinel len tail).1))

/-- The parameters of a closed list. -/
theorem items_closedList (le : Bool) (qs : List QosParam) (len : UInt16) (tail : Bytes) :
    (paramCutter le).items (closedList le qs len tail) = qs.map QosParam.param :=
  (paramCutter_paramBytes_append le qs (paramCutter_cut_sentinel le len tail)).1

/-- What ends the parameters of a string is determined. -/
theorem paramBytes_append_inj {le : Bool} {qs qs' : List QosParam} {tail tail' : Bytes}
    (h : tail.length < 4 ∨ u16At le tail 0 = pidSentinel ∨
      tail.length < 4 + (u16At le tail 2).toNat)
    (h' : tail'.length < 4 ∨ u16At le tail' 0 = pidSentinel ∨
      tail'.length < 4 + (u16At le tail' 2).toNat)
    (heq : paramBytes le qs ++ tail = paramBytes le qs' ++ tail') : tail = tail' := by
  rw [← (paramCutter_paramBytes_append le qs (paramCutter_cut_eq_none_iff.mpr h)).2, heq,
    (paramCutter_paramBytes_append le qs' (paramCutter_cut_eq_none_iff.mpr h')).2]

theorem closedList_inj {le : Bool} {qs qs' : List QosParam} {len len' : UInt16}
    {tail tail' : Bytes} (h : closedList le qs len tail = closedList le qs' len' tail') :
    len = len' ∧ tail = tail' := by
  have hp := u16At_paramHeader le pidSentinel len tail
  have hp' := u16At_paramHeader le pidSentinel len' tail'
  have heq := paramBytes_append_inj (Or.inr (Or.inl hp.1)) (Or.inr (Or.inl hp'.1)) h
  refine ⟨?_, ?_⟩
  · rw [← hp.2, heq, hp'.2]
  · rw [← drop_paramHeader_append le pidSentinel len tail, heq, drop_paramHeader_append]

/-- A list does not end in two ways: one that is closed leaves no short remainder. -/
theorem closedList_ne_of_short {le : Bool} {qs qs' : List QosParam} {len : UInt16}
    {tail left : Bytes} (h : left.length < 4) :
    closedList le qs len tail ≠ paramBytes le qs' ++ left := by
  intro heq
  have hrem := paramBytes_append_inj (Or.inr (Or.inl (u16At_paramHeader le pidSentinel len tail).1))
    (Or.inl h) heq
  have hlen := congrArg List.length hrem
  rw [List.length_append, length_paramHeader] at hlen
  omega

/-- The ways in which a list ends. -/
inductive ListEnd (le : Bool) (xs : Bytes) : Prop
  /-- With a sentinel. -/
  | closed (qs : List QosParam) (len : UInt16) (tail : Bytes) (h : xs = closedList le qs len tail)
  /-- With less than a header. -/
  | short (qs : List QosParam) (left : Bytes) (h : xs = paramBytes le qs ++ left)
    (hlen : left.length < 4)
  /-- With a parameter that does not fit. -/
  | overrun (qs : List QosParam) (left : Bytes) (h : xs = paramBytes le qs ++ left)
    (h4 : 4 ≤ left.length) (hpid : u16At le left 0 ≠ pidSentinel)
    (hfit : left.length < 4 + (u16At le left 2).toNat)

/-- Every list ends. -/
theorem listEnd (le : Bool) (xs : Bytes) : ListEnd le xs := by
  obtain ⟨qs, hqs⟩ := exists_eq_paramBytes_append le xs
  have hend := paramCutter_cut_eq_none_iff.mp (Cutter.cut_remainder (c := paramCutter le) xs)
  by_cases h4 : 4 ≤ ((paramCutter le).remainder xs).length
  · by_cases hpid : u16At le ((paramCutter le).remainder xs) 0 = pidSentinel
    · refine .closed qs (u16At le ((paramCutter le).remainder xs) 2)
        (((paramCutter le).remainder xs).drop 4) ?_
      have hhead := eq_paramHeader_append le h4
      rw [hpid] at hhead
      rw [closedList, ← hhead]
      exact hqs
    · exact .overrun qs _ hqs h4 hpid
        ((hend.resolve_left (by omega)).resolve_left hpid)
  · exact .short qs _ hqs (by omega)

/-! ## Behind the inline QoS -/

theorem skipQos_bytes_append (le : Bool) (q : QosParam) (rest : Bytes) :
    skipQos le (q.bytes le ++ rest) = skipQos le rest := by
  obtain ⟨hpid, hlen⟩ :=
    u16At_paramHeader le q.pid (UInt16.ofNat q.value.length) (q.value ++ rest)
  rw [q.bytes_append, skipQos_of_param (by rw [List.length_append, length_paramHeader]; omega)
    (by rw [hpid]; exact q.pid_ne), hlen, toNat_ofNat_length q.fits, ← List.drop_drop,
    drop_paramHeader_append, List.drop_left]

/-- The parameters of the inline QoS are skipped. -/
theorem skipQos_paramBytes_append (le : Bool) (qs : List QosParam) (rest : Bytes) :
    skipQos le (paramBytes le qs ++ rest) = skipQos le rest := by
  induction qs with
  | nil => rfl
  | cons q qs ih =>
    rw [paramBytes, List.flatMap_cons, List.append_assoc, skipQos_bytes_append]
    exact ih

/-- Behind a closed list the sentinel takes as many bytes as its length field says. -/
theorem skipQos_closedList (le : Bool) (qs : List QosParam) (len : UInt16) (tail : Bytes) :
    skipQos le (closedList le qs len tail) = tail.drop len.toNat := by
  obtain ⟨hpid, hlen⟩ := u16At_paramHeader le pidSentinel len tail
  rw [closedList, skipQos_paramBytes_append,
    skipQos_of_sentinel (by rw [List.length_append, length_paramHeader]; omega) hpid, hlen,
    ← List.drop_drop, drop_paramHeader_append]

theorem qosBytes_append (le : Bool) (qs : List QosParam) (rest : Bytes) :
    qosBytes le qs ++ rest = closedList le qs 0 rest := by
  induction qs with
  | nil => rfl
  | cons q qs ih =>
    rw [qosBytes, List.append_assoc, ih]
    simp only [closedList, paramBytes, List.flatMap_cons, List.append_assoc]

/-- The parser leaves what stands behind an inline QoS whose sentinel has no value. -/
theorem skipQos_qosBytes (le : Bool) (qs : List QosParam) (rest : Bytes) :
    skipQos le (qosBytes le qs ++ rest) = rest := by
  rw [qosBytes_append, skipQos_closedList]
  rfl

/-- Nothing stands behind a parameter that does not fit. -/
theorem skipQos_of_overrun {le : Bool} {xs : Bytes} (h4 : 4 ≤ xs.length)
    (hpid : u16At le xs 0 ≠ pidSentinel) (hfit : xs.length < 4 + (u16At le xs 2).toNat) :
    skipQos le xs = [] := by
  rw [skipQos_of_param h4 hpid, List.drop_eq_nil_of_le (by omega), skipQos_of_short (by simp)]

end DdsPlayground.Inspector
