import DdsPlayground.Inspector.Semantics.Effects
import DdsPlayground.Inspector.Semantics.Parameters

/-!
# The fold of an announcement

An SEDP payload is four header bytes, parameters, and a sentinel with whatever stands
behind it. `decode_sedp` inserts what the last topic name, the last type name and the
last complete endpoint GUID say, each read from the value of its own parameter.
-/

namespace DdsPlayground.Inspector

open ByteWire

/-- An SEDP payload. The second header byte tells the byte order of the list. -/
def sedpPayload (header : List.Vector UInt8 4) (qs : List QosParam) (len : UInt16)
    (tail : Bytes) : Bytes :=
  header.toList ++ closedList (payloadLe header.toList) qs len tail

/-- The text of the last parameter of a kind, empty where there is none. -/
def lastText (le : Bool) (pid : UInt16) (qs : List QosParam) : Text :=
  (lastParam (textParam le pid) (qs.map QosParam.param)).getD []

/-- The last complete endpoint GUID, or that of the sending writer. -/
def announcedGuid (sender : Guid) (qs : List QosParam) : Guid :=
  (lastParam guidParam (qs.map QosParam.param)).getD sender

theorem payloadLe_append {xs : Bytes} (h : 4 ≤ xs.length) (ys : Bytes) :
    payloadLe (xs ++ ys) = payloadLe xs := by
  simp only [payloadLe, peek_append_left (show 1 < xs.length by omega)]

/-- The parameters of a payload, whatever the sentinel and the bytes behind it. -/
theorem sedpParams_sedpPayload (header : List.Vector UInt8 4) (qs : List QosParam) (len : UInt16)
    (tail : Bytes) :
    payloadLe (sedpPayload header qs len tail) = payloadLe header.toList ∧
      sedpParams (sedpPayload header qs len tail) = qs.map QosParam.param := by
  have hle : payloadLe (sedpPayload header qs len tail) = payloadLe header.toList :=
    payloadLe_append (by simp) _
  refine ⟨hle, ?_⟩
  rw [sedpParams, hle, sedpPayload, List.drop_left' header.toList_length]
  exact items_closedList _ qs len tail

/-- The announcement of a payload is the fold of its parameters. -/
theorem announcement_sedpPayload (sender : Guid) (header : List.Vector UInt8 4)
    (qs : List QosParam) (len : UInt16) (tail : Bytes) (isPub : Bool) :
    announcement sender (sedpPayload header qs len tail) isPub =
      if lastText (payloadLe header.toList) pidTopicName qs = [] then none
      else some (announcedGuid sender qs,
        ⟨lastText (payloadLe header.toList) pidTopicName qs,
          lastText (payloadLe header.toList) pidTypeName qs, isPub⟩) := by
  have hlen : 4 ≤ (sedpPayload header qs len tail).length := by
    simp [sedpPayload]
  obtain ⟨hle, hparams⟩ := sedpParams_sedpPayload header qs len tail
  rw [announcement_eq sender hlen, hle, hparams, collected, foldl_add_eq]
  simp only [Listing.empty, Option.or_none]
  rfl

/-- For every list of parameters `decode_sedp` leaves the same globals, whatever the
length field of the sentinel and the bytes behind it are; and the registry it leaves has
the announced topic and type under the announced GUID, and is else unchanged, if there is
a topic, and is unchanged if there is none. -/
theorem decodeSedp_folds_announcement (cfg : Config) (senderPrefix : GuidPrefix)
    (writerEid : EntityId) (isPub : Bool) (g : Globals) (header : List.Vector UInt8 4)
    (qs : List QosParam) :
    ∃ g', (∀ len tail, decodeSedp cfg senderPrefix writerEid (sedpPayload header qs len tail)
        isPub g = some g') ∧
      ∀ key, g'.endpoints.lookup key =
        if lastText (payloadLe header.toList) pidTopicName qs ≠ [] ∧
          key = fmtGuid (announcedGuid ⟨senderPrefix, writerEid⟩ qs) then
          some ⟨lastText (payloadLe header.toList) pidTopicName qs,
            lastText (payloadLe header.toList) pidTypeName qs, isPub⟩
        else g.endpoints.lookup key := by
  refine ⟨_, fun len tail => by rw [decodeSedp_eq, announcement_sedpPayload], fun key => ?_⟩
  by_cases ht : lastText (payloadLe header.toList) pidTopicName qs = []
  · simp only [ht, if_true, Option.elim_none, ne_eq, not_true_eq_false, false_and, if_false]
  · simp only [ht, if_false, Option.elim_some, ne_eq, not_false_eq_true, true_and,
      Globals.register, Globals.print_endpoints]
    by_cases hk : key = fmtGuid (announcedGuid ⟨senderPrefix, writerEid⟩ qs)
    · rw [if_pos hk, hk, Finmap.lookup_insert]
    · rw [if_neg hk, Finmap.lookup_insert_of_ne _ hk]

/-- A topic name whose length exceeds its own parameter is none, though a type name
stands behind it. -/
example : lastText true pidTopicName
    [⟨pidTopicName, [0x09, 0x00, 0x00, 0x00, 0x58, 0x00], by decide, by decide⟩,
      ⟨pidTypeName, [0x02, 0x00, 0x00, 0x00, 0x59, 0x00], by decide, by decide⟩] = [] := by
  decide

end DdsPlayground.Inspector
