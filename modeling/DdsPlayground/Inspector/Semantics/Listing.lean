import DdsPlayground.Core.Cutter
import DdsPlayground.Inspector.Native.Decode

/-!
# SEDP parameter lists as lists

The announcement that an SEDP payload carries, read from the bytes as a list of
parameters and folded from the left. `decode_sedp` computes exactly this: its
byte offset is the position in the list, and each checked read inside a
parameter is the field there.
-/

namespace DdsPlayground.Inspector

open ByteWire BoundedLoop

/-! ## Checked reads inside a buffer -/

private theorem or_reverse (a b c d : UInt32) : a ||| b ||| c ||| d = d ||| c ||| b ||| a := by
  ac_rfl

theorem u16_eq {p : Bytes} {i : Nat} (h : i + 2 ≤ p.length) (le : Bool) :
    u16 p i le = some (u16At le p i) := by
  have h0 := getElem?_eq_peek p i (by omega)
  have h1 := getElem?_eq_peek p (i + 1) (by omega)
  cases le with
  | true => simp [u16, u16Le, u16At, word16, h0, h1]
  | false => simp [u16, u16Be, u16At, word16, h0, h1, UInt16.or_comm]

theorem u32_eq {p : Bytes} {i : Nat} (h : i + 4 ≤ p.length) (le : Bool) :
    u32 p i le = some (u32At le p i) := by
  have h0 := getElem?_eq_peek p i (by omega)
  have h1 := getElem?_eq_peek p (i + 1) (by omega)
  have h2 := getElem?_eq_peek p (i + 2) (by omega)
  have h3 := getElem?_eq_peek p (i + 3) (by omega)
  cases le with
  | true => simp [u32, u32Le, u32At, word32, h0, h1, h2, h3]
  | false =>
    simp only [u32, u32Be, u32At, word32, h0, h1, h2, h3, Option.bind_eq_bind, Option.bind_some,
      Bool.false_eq_true, if_false]
    exact congrArg some (or_reverse _ _ _ _)

/-! ## Strings -/

/-- The text of a CDR string: a count `n` and, where they fit, `n - 1` bytes. A
count that is zero or too large stands for the empty text. -/
def cdrText (le : Bool) (value : Bytes) : Text :=
  if 4 ≤ value.length ∧ u32At le value 0 ≠ 0 ∧ 4 + (u32At le value 0).toNat ≤ value.length then
    (value.drop 4).take ((u32At le value 0).toNat - 1)
  else []

/-- The bound `bufLen` makes `cdr_string` read the bytes before it and no others. -/
theorem cdrString_eq {buf : Bytes} {off n : Nat} (h : off + n ≤ buf.length) (le : Bool) :
    cdrString buf (off + n) off le = some (cdrText le ((buf.drop off).take n)) := by
  have hlen : ((buf.drop off).take n).length = n := by
    simp only [List.length_take, List.length_drop]
    omega
  by_cases h4 : 4 ≤ n
  · have hslen : u32At le ((buf.drop off).take n) 0 = u32At le buf off := by
      rw [u32At_take (by omega), u32At_drop, Nat.add_zero]
    have hu := u32_eq (p := buf) (i := off) (by omega) le
    simp only [cdrString, cdrText, hlen, hslen, hu, h4, true_and, show ¬ off + 4 > off + n by omega,
      if_false, Option.bind_eq_bind, Option.bind_some]
    by_cases hz : u32At le buf off = 0
    · simp [hz]
    · by_cases hfit : 4 + (u32At le buf off).toNat ≤ n
      · have hpos : u32At le buf off > 0 := by
          simpa only [gt_iff_lt, UInt32.pos_iff_ne_zero] using hz
        have hshort : (u32At le buf off).toNat - 1 ≤ n - 4 := by omega
        rw [if_neg (by simp only [hz, false_or]; omega), if_pos hpos, slice_eq (by omega),
          if_pos ⟨hz, hfit⟩, List.drop_take, List.drop_drop, List.take_take,
          Nat.min_eq_left hshort]
      · rw [if_pos (Or.inr (by omega)), if_neg (by simp only [hfit, and_false, not_false_eq_true])]
        rfl
  · have hend : off + 4 > off + n := by omega
    simp only [cdrString, cdrText, hlen, h4, false_and, if_false, if_pos hend]

/-! ## Parameters -/

/-- One parameter of a list: its identifier and the bytes of its value. -/
structure Param where
  pid : UInt16
  value : Bytes
  deriving DecidableEq

/-- Cut one parameter off the front. A sentinel, a header that is not complete
and a value that does not fit are no parameters. -/
def paramCutter (le : Bool) : Cutter UInt8 Param where
  cut xs :=
    if 4 ≤ xs.length ∧ u16At le xs 0 ≠ pidSentinel ∧ 4 + (u16At le xs 2).toNat ≤ xs.length then
      some (⟨u16At le xs 0, (xs.drop 4).take (u16At le xs 2).toNat⟩,
        xs.drop (4 + (u16At le xs 2).toNat))
    else none
  shrinks {xs b rest} h := by
    split at h
    · next hc =>
      obtain ⟨-, rfl⟩ := Prod.mk.inj (Option.some.inj h)
      simp only [List.length_drop]
      omega
    · cases h

/-- What a list of parameters announces. -/
structure Listing where
  topic : Text
  typeName : Text
  guid : Option Guid
  deriving DecidableEq

/-- Nothing announced yet. -/
def Listing.empty : Listing := ⟨[], [], none⟩

/-- One more parameter: the last topic, type and complete GUID count. -/
def Listing.add (le : Bool) (l : Listing) (p : Param) : Listing :=
  if p.pid = pidTopicName then { l with topic := cdrText le p.value }
  else if p.pid = pidTypeName then { l with typeName := cdrText le p.value }
  else if p.pid = pidEndpointGuid ∧ 16 ≤ p.value.length then
    { l with guid := some ⟨window 12 p.value 0, window 4 p.value 12⟩ }
  else l

/-- The byte order of a payload: the low bit of its second byte. -/
def payloadLe (payload : Bytes) : Bool := peek payload 1 &&& 0x01 != 0

/-- The parameters of an SEDP payload, behind its four header bytes. -/
def sedpParams (payload : Bytes) : List Param :=
  (paramCutter (payloadLe payload)).items (payload.drop 4)

/-- The announcement of a payload; `none` where it names no topic. The GUID of
the sending writer stands in for a missing endpoint GUID. -/
def announcement (sender : Guid) (payload : Bytes) (isPub : Bool) : Option (Guid × EndpointInfo) :=
  let l := (sedpParams payload).foldl (Listing.add (payloadLe payload)) Listing.empty
  if payload.length < 4 ∨ l.topic = [] then none
  else some (l.guid.getD sender, ⟨l.topic, l.typeName, isPub⟩)

/-! ## The parameter loop computes the fold -/

/-- What the locals of `decode_sedp` have collected. -/
def SedpScan.listing (s : SedpScan) : Listing :=
  ⟨s.topic, s.typeName, if s.haveEpGuid then some ⟨s.epPrefix, s.epEntity⟩ else none⟩

/-- Where no parameter begins the loop leaves with what it has. -/
theorem sedpPass_leave {payload : Bytes} {le : Bool} {s : SedpScan}
    (h : (paramCutter le).cut (payload.drop s.off) = none) :
    ∃ r, sedpPass payload le s = some (.leave r) ∧ r.listing = s.listing := by
  by_cases hoff : s.off + 4 ≤ payload.length
  · have hpid := u16_eq (p := payload) (i := s.off) (by omega) le
    have hplen := u16_eq (p := payload) (i := s.off + 2) (by omega) le
    simp only [paramCutter, u16At_drop, List.length_drop, Nat.add_zero, ite_eq_right_iff,
      reduceCtorEq, imp_false, not_and, not_le] at h
    simp only [sedpPass, hoff, hpid, hplen, not_true_eq_false, if_false, Option.bind_eq_bind,
      Option.bind_some]
    by_cases hs : u16At le payload s.off = pidSentinel
    · rw [if_pos hs]
      exact ⟨_, rfl, rfl⟩
    · have hlong := h (by omega) hs
      rw [if_neg hs, if_pos (by omega)]
      exact ⟨_, rfl, rfl⟩
  · exact ⟨s, by simp only [sedpPass, hoff, not_false_eq_true, if_true], rfl⟩

/-- Where a parameter begins the loop adds it and goes on behind it. -/
theorem sedpPass_again {payload : Bytes} {le : Bool} {s : SedpScan} {p : Param} {rest : Bytes}
    (h : (paramCutter le).cut (payload.drop s.off) = some (p, rest)) :
    ∃ s', sedpPass payload le s = some (.again s') ∧ s.off < s'.off ∧
      s'.off ≤ payload.length ∧ payload.drop s'.off = rest ∧
      s'.listing = s.listing.add le p := by
  simp only [paramCutter, u16At_drop, List.length_drop, Nat.add_zero, List.drop_drop] at h
  split at h
  · next hc =>
    obtain ⟨hhead, hs, hfit⟩ := hc
    obtain ⟨rfl, rfl⟩ := Prod.mk.inj (Option.some.inj h)
    have hpid := u16_eq (p := payload) (i := s.off) (by omega) le
    have hplen := u16_eq (p := payload) (i := s.off + 2) (by omega) le
    have hend : s.off + 4 + (u16At le payload (s.off + 2)).toNat ≤ payload.length := by omega
    have hlen : ((payload.drop (s.off + 4)).take (u16At le payload (s.off + 2)).toNat).length =
        (u16At le payload (s.off + 2)).toNat := by
      simp only [List.length_take, List.length_drop]
      omega
    have hstr := cdrString_eq hend le
    simp only [sedpPass, hpid, hplen, hs, hstr, show s.off + 4 ≤ payload.length by omega,
      not_true_eq_false, if_false, Option.bind_eq_bind, Option.bind_some,
      if_neg (show ¬ s.off + 4 + (u16At le payload (s.off + 2)).toNat > payload.length by omega),
      Listing.add, hlen, ← Nat.add_assoc]
    by_cases ht : u16At le payload s.off = pidTopicName
    · simp only [ht, if_true]
      exact ⟨_, rfl, by dsimp only; omega, hend, rfl, rfl⟩
    · by_cases hn : u16At le payload s.off = pidTypeName
      · simp only [hn, if_true]
        exact ⟨_, rfl, by dsimp only; omega, hend, rfl, rfl⟩
      · have hge : u16At le payload (s.off + 2) ≥ 16 ↔
            16 ≤ (u16At le payload (s.off + 2)).toNat := by
          rw [ge_iff_le, UInt16.le_iff_toNat_le]
          rfl
        by_cases hg : u16At le payload s.off = pidEndpointGuid ∧
            16 ≤ (u16At le payload (s.off + 2)).toNat
        · have hp := fetch_eq 12 payload (s.off + 4) (by omega)
          have he := fetch_eq 4 payload (s.off + 4 + 12) (by omega)
          have hwp : window 12 ((payload.drop (s.off + 4)).take
              (u16At le payload (s.off + 2)).toNat) 0 = window 12 payload (s.off + 4) := by
            rw [window_take (by omega), window_drop, Nat.add_zero]
          have hwe : window 4 ((payload.drop (s.off + 4)).take
              (u16At le payload (s.off + 2)).toNat) 12 = window 4 payload (s.off + 4 + 12) := by
            rw [window_take (by omega), window_drop]
          simp only [hge, hg, hp, he, hwp, hwe, and_self, if_true, Option.bind_some]
          exact ⟨_, rfl, by dsimp only; omega, hend, rfl, rfl⟩
        · simp only [ht, hn, hge, hg, if_false]
          exact ⟨_, rfl, by dsimp only; omega, hend, rfl, rfl⟩
  · cases h

/-- The parameter loop ends, reads only inside the payload, and folds the
parameters from its offset on. -/
theorem exists_run_sedpPass (payload : Bytes) (le : Bool) (s : SedpScan)
    (hs : s.off ≤ payload.length) :
    ∃ r, run (sedpPass payload le) (payload.length + 1) s = some r ∧
      r.listing = ((paramCutter le).items (payload.drop s.off)).foldl (Listing.add le) s.listing := by
  refine exists_run_eq (fun s => s.off ≤ payload.length)
    (fun s => payload.length - s.off) SedpScan.listing
    (fun s => ((paramCutter le).items (payload.drop s.off)).foldl (Listing.add le) s.listing)
    ?_ (payload.length + 1) s hs (by omega)
  intro s hs
  cases hc : (paramCutter le).cut (payload.drop s.off) with
  | none =>
    obtain ⟨r, hr, hl⟩ := sedpPass_leave hc
    exact Or.inl ⟨r, hr, by rw [Cutter.items_of_none hc, hl]; rfl⟩
  | some c =>
    obtain ⟨s', hs', hlt, hle, hrest, hl⟩ := sedpPass_again hc
    exact Or.inr ⟨s', hs', hle, by omega, by
      rw [Cutter.items_of_some hc, hrest, hl, List.foldl_cons]⟩

/-- `decode_sedp` registers the announcement of its payload, if there is one. -/
theorem decodeSedp_eq (cfg : Config) (senderPrefix : GuidPrefix) (writerEid : EntityId)
    (payload : Bytes) (isPub : Bool) (g : Globals) :
    decodeSedp cfg senderPrefix writerEid payload isPub g =
      some ((announcement ⟨senderPrefix, writerEid⟩ payload isPub).elim g
        fun a => g.register cfg a.1 a.2) := by
  by_cases hlen : payload.length < 4
  · simp [decodeSedp, announcement, hlen]
  · have hb := getElem?_eq_peek payload 1 (by omega)
    obtain ⟨r, hr, hl⟩ := exists_run_sedpPass payload (payloadLe payload)
      ⟨4, [], [], List.Vector.replicate 12 0, List.Vector.replicate 4 0, false⟩
      (by dsimp only; omega)
    have hfold : (sedpParams payload).foldl (Listing.add (payloadLe payload)) Listing.empty =
        r.listing := hl.symm
    simp only [decodeSedp, hlen, if_false, hb, Option.bind_eq_bind, Option.bind_some]
    change (run (sedpPass payload (payloadLe payload)) _ _).bind _ = _
    rw [hr]
    simp only [Option.bind_some, announcement, hfold, hlen, false_or, List.isEmpty_iff,
      SedpScan.listing]
    by_cases ht : r.topic = []
    · simp [ht]
    · cases hg : r.haveEpGuid <;> simp [ht]

/-! ## The last parameter of a kind -/

/-- The text of a parameter of the given kind. -/
def textParam (le : Bool) (pid : UInt16) (p : Param) : Option Text :=
  if p.pid = pid then some (cdrText le p.value) else none

/-- The GUID of a complete endpoint-GUID parameter. -/
def guidParam (p : Param) : Option Guid :=
  if p.pid = pidEndpointGuid ∧ 16 ≤ p.value.length then
    some ⟨window 12 p.value 0, window 4 p.value 12⟩
  else none

/-- The value of the last parameter that has one. -/
def lastParam {γ : Type} (f : Param → Option γ) (ps : List Param) : Option γ :=
  (ps.filterMap f).getLast?

/-- What some parameters announce. -/
def collected (le : Bool) (ps : List Param) : Listing := ps.foldl (Listing.add le) Listing.empty

theorem lastParam_append_singleton {γ : Type} (f : Param → Option γ) (ps : List Param) (p : Param) :
    lastParam f (ps ++ [p]) = (f p).or (lastParam f ps) := by
  rw [lastParam, List.filterMap_append]
  cases h : f p with
  | none => simp [h, lastParam]
  | some v => simp [h]

/-- One more parameter counts for the field of its kind. -/
theorem Listing.add_eq (le : Bool) (l : Listing) (p : Param) :
    l.add le p = ⟨(textParam le pidTopicName p).getD l.topic,
      (textParam le pidTypeName p).getD l.typeName, (guidParam p).or l.guid⟩ := by
  have htype : pidTypeName ≠ pidTopicName := by decide
  have hguid : pidEndpointGuid ≠ pidTopicName := by decide
  have hguid' : pidEndpointGuid ≠ pidTypeName := by decide
  by_cases ht : p.pid = pidTopicName
  · simp [Listing.add, textParam, guidParam, ht, htype.symm, hguid.symm]
  · by_cases hn : p.pid = pidTypeName
    · simp [Listing.add, textParam, guidParam, hn, htype, hguid'.symm]
    · by_cases hg : p.pid = pidEndpointGuid ∧ 16 ≤ p.value.length
      · simp [Listing.add, textParam, guidParam, hg, hguid, hguid']
      · simp [Listing.add, textParam, guidParam, ht, hn, hg]

/-- The last parameter of each kind counts. -/
theorem foldl_add_eq (le : Bool) (l : Listing) (ps : List Param) :
    ps.foldl (Listing.add le) l = ⟨(lastParam (textParam le pidTopicName) ps).getD l.topic,
      (lastParam (textParam le pidTypeName) ps).getD l.typeName,
      (lastParam guidParam ps).or l.guid⟩ := by
  induction ps using List.reverseRecOn with
  | nil => rfl
  | append_singleton ps p ih =>
    rw [List.foldl_append, ih, List.foldl_cons, List.foldl_nil, Listing.add_eq,
      lastParam_append_singleton, lastParam_append_singleton, lastParam_append_singleton,
      Option.or_assoc]
    congr 1
    · cases textParam le pidTopicName p <;> rfl
    · cases textParam le pidTypeName p <;> rfl

/-- What an announcement registers, from its parameters. -/
theorem announcement_eq (sender : Guid) {payload : Bytes} (h : 4 ≤ payload.length) (isPub : Bool) :
    announcement sender payload isPub =
      if (collected (payloadLe payload) (sedpParams payload)).topic = [] then none
      else some ((collected (payloadLe payload) (sedpParams payload)).guid.getD sender,
        ⟨(collected (payloadLe payload) (sedpParams payload)).topic,
          (collected (payloadLe payload) (sedpParams payload)).typeName, isPub⟩) := by
  unfold announcement collected
  dsimp only
  split
  · next hc => rw [if_pos (hc.resolve_left (by omega))]
  · next hc => rw [if_neg fun ht => hc (Or.inr ht)]

end DdsPlayground.Inspector
