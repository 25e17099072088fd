import DdsPlayground.Cdr.Semantics.Reading

/-!
# Accepted data can be read

Normalizing is the only check between the network and the reader, which aborts or leaves its
buffer when the data is not what the program says. It does not look at the sizes in memory.
-/

namespace DdsPlayground.Cdr

open ByteWire Replay

/-- What normalizing accepts is converted in place, and on every stream that begins with the
outcome the reader comes to the end that normalizing has found, or to elements that have more
bytes than it can count in 32 bits. -/
theorem read_of_normalize {ops : Ops} (hops : ReadableProgram ops) {hostLe bswap : Bool}
    {fuel : Nat} {data : Bytes} {c : Cursor}
    (h : ddsStreamNormalize hostLe ops fuel data bswap = .ok c) :
    (∃ old, data = old ++ c.rest ∧ c.done.length = old.length ∧ (bswap = false → c.done = old)) ∧
      ∀ buf, c.done <+: buf →
        (∃ r, ddsStreamRead hostLe ops fuel buf = .ok r ∧ r.index = c.done.length) ∨
          ∃ num elemSize, 4294967296 ≤ num * elemSize ∧
            ddsStreamRead hostLe ops fuel buf = .error (.overflow num elemSize) := by
  unfold ddsStreamNormalize at h
  split_ifs at h
  obtain ⟨u, hrun⟩ := map_snd_eq_ok.mp h
  constructor
  · obtain ⟨old, new, hrest, hdone, hlen, hsame⟩ := moves_streamNormalizeDataImpl ops fuel 0 hrun
    rw [List.nil_append] at hdone
    exact ⟨old, hrest, hdone ▸ hlen, fun hb => hdone ▸ hsame hb⟩
  · intro buf hbuf
    obtain ⟨v, r, hr, -, hindex⟩ | ⟨e, he, hexcess⟩ :=
      (follows_streamNormalizeDataImpl hops fuel .top .start).run hrun hbuf
        (r := ⟨0, fun _ => none⟩) rfl
    · exact .inl ⟨r, map_snd_eq_ok.mpr ⟨v, hr⟩, hindex⟩
    · obtain ⟨num, elemSize, hlarge, rfl⟩ := hexcess.overflow
      exact .inr ⟨num, elemSize, hlarge, map_snd_eq_error.mpr he⟩

/-- A sequence of strings from a host with the other byte order. -/
def stringsOps : Ops := .ofList [0x01070500, 0, 0]

theorem stringsOps_sound : SoundProgram stringsOps := soundProgram_ofList (by decide)

theorem read_of_normalize_strings :
    ddsStreamNormalize true stringsOps 4 [0, 0, 0, 1, 0, 0, 0, 3, 104, 105, 0, 9] true =
        .ok ⟨[1, 0, 0, 0, 3, 0, 0, 0, 104, 105, 0], [9]⟩ ∧
      ∃ r, ddsStreamRead true stringsOps 4 [1, 0, 0, 0, 3, 0, 0, 0, 104, 105, 0, 9] = .ok r ∧
        r.index = 11 := by
  have h : ddsStreamNormalize true stringsOps 4 [0, 0, 0, 1, 0, 0, 0, 3, 104, 105, 0, 9] true =
      .ok ⟨[1, 0, 0, 0, 3, 0, 0, 0, 104, 105, 0], [9]⟩ := by decide
  refine ⟨h, ((read_of_normalize stringsOps_sound.readable h).2 _ ⟨[9], rfl⟩).resolve_right ?_⟩
  rintro ⟨num, elemSize, -, hread⟩
  have hok : (ddsStreamRead true stringsOps 4 [1, 0, 0, 0, 3, 0, 0, 0, 104, 105, 0, 9]).isOk := by
    decide
  exact Bool.false_ne_true ((congrArg Except.isOk hread).symm.trans hok)

/-- A sequence of strings that have room for two gigabytes each. -/
def roomyOps : Ops := .ofList [0x01070600, 0, 0x7fffffff, 0]

/-- Three empty strings are accepted, but their room is more than the reader can ask for. -/
theorem read_of_normalize_roomy :
    ddsStreamNormalize true roomyOps 4
        [3, 0, 0, 0, 1, 0, 0, 0, 0, 0, 0, 0, 1, 0, 0, 0, 0, 0, 0, 0, 1, 0, 0, 0, 0] false =
      .ok ⟨[3, 0, 0, 0, 1, 0, 0, 0, 0, 0, 0, 0, 1, 0, 0, 0, 0, 0, 0, 0, 1, 0, 0, 0, 0], []⟩ ∧
    (ddsStreamRead true roomyOps 4
        [3, 0, 0, 0, 1, 0, 0, 0, 0, 0, 0, 0, 1, 0, 0, 0, 0, 0, 0, 0, 1, 0, 0, 0, 0]).map
        Reader.index = .error (.overflow 3 0x7fffffff) := by
  decide +kernel

end DdsPlayground.Cdr
