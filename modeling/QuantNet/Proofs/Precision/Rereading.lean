import QuantNet.Precision.Basic
import QuantNet.Proofs.Precision.Suffix

/-!
# Reading a rewritten text

A text whose modes were set is split again into the parts that it was written from, with one
exception: a bit count that is the first mode token of a type with a free dimension is read as that
dimension.  Setting the modes of such a text once more is enough to make them present.
-/

namespace QuantNet

namespace Bracketed

/-! ## Taking the tokens of a written text -/

/-- What is needed to split a text that is written from these parts. -/
structure Readable (parts : Bracketed) : Prop where
  head : '<' ∉ parts.head
  tail : '>' ∉ parts.tail
  blank : (Text.trim parts.tail).isEmpty = true
  dims : parts.dims ≠ []
  short : parts.dims.length ≤ dimLimit parts.head

/-- The bit count read as a dimension, where it is the first mode token and a dimension is free. -/
def freeDim? (parts : Bracketed) : Option Int32 :=
  if { parts.modes with bits := none }.isEmpty && parts.dims.length < dimLimit parts.head then
    parts.modes.bits.bind fun bits => Text.signed32? (Text.naturalText bits.toNat)
  else
    none

/-- What is read from the text with these parts. -/
def reread (parts : Bracketed) : Bracketed :=
  match parts.freeDim? with
  | some dim => { parts with dims := parts.dims ++ [dim], modes := .unset }
  | none => parts

theorem freeDim?_eq_some_iff {parts : Bracketed} {dim : Int32} :
    parts.freeDim? = some dim ↔
      ∃ bits : UInt32, parts.modes = ⟨none, none, some bits⟩ ∧
        parts.dims.length < dimLimit parts.head ∧
          Text.signed32? (Text.naturalText bits.toNat) = some dim := by
  obtain ⟨head, dims, ⟨rounding, saturation, bits⟩, tail⟩ := parts
  unfold freeDim?
  constructor
  · intro free
    split at free
    · next conditions =>
        simp only [Modes.isEmpty, Modes.unset, Bool.and_eq_true, decide_eq_true_eq,
          Modes.mk.injEq, and_true] at conditions
        obtain ⟨⟨rfl, rfl⟩, room⟩ := conditions
        obtain ⟨count, rfl, numeral⟩ := Option.bind_eq_some_iff.mp free
        exact ⟨count, rfl, room, numeral⟩
    · cases free
  · rintro ⟨count, same, room, numeral⟩
    obtain ⟨rfl, rfl, rfl⟩ := Modes.mk.inj same
    rw [if_pos (by simpa [Modes.isEmpty, Modes.unset] using room)]
    exact numeral

private theorem foldlM_dims (limit : Nat) (dims : List Int32) :
    ∀ read : List Int32,
      read.length + dims.length ≤ limit →
        (dims.map fun dim => Text.integerText dim.toInt).foldlM (addToken? limit)
            (read, Modes.unset) =
          some (read ++ dims, Modes.unset) := by
  induction dims with
  | nil =>
      intro read _
      simp
  | cons dim rest inductionHypothesis =>
      intro read room
      rw [List.length_cons] at room
      have free : read.length < limit := by omega
      have here := addToken?_of_numeral free (Text.signed32?_integerText dim)
      have later := inductionHypothesis (read ++ [dim]) (by simp; omega)
      rw [List.map_cons, List.foldlM_cons, here]
      simpa using later

/-- A numeral in front of all modes is written for a bit count that is the only mode. -/
private theorem numeral_of_head? {modes : Modes} {marked : Bool} {first : List Char}
    (member : first ∈ (modes.tokens marked).head?) (numeral : Text.signed32? first ≠ none) :
    ∃ bits : UInt32, modes = ⟨none, none, some bits⟩ ∧ first = Text.naturalText bits.toNat := by
  obtain ⟨rounding, saturation, bits⟩ := modes
  have words : (∀ mode : Rounding, Text.signed32?
        ((if marked then ['A', 'P', '_'] else []) ++ mode.mnemonic.toList) = none) ∧
      ∀ mode : Saturation, Text.signed32?
        ((if marked then ['A', 'P', '_'] else []) ++ mode.mnemonic.toList) = none := by
    constructor <;> intro mode <;> cases mode <;> cases marked <;> decide
  cases rounding with
  | some mode =>
      obtain rfl := Option.some.inj member
      exact absurd (words.1 mode) numeral
  | none =>
      cases saturation with
      | some mode =>
          obtain rfl := Option.some.inj member
          exact absurd (words.2 mode) numeral
      | none =>
          cases bits with
          | some bits => exact ⟨bits, rfl, (Option.some.inj member).symm⟩
          | none => cases member

private theorem foldlM_modes (parts : Bracketed) :
    (parts.modes.tokens parts.marked).foldlM (addToken? (dimLimit parts.head))
        (parts.dims, Modes.unset) =
      some (parts.reread.dims, parts.reread.modes) := by
  cases free : parts.freeDim? with
  | some dim =>
      obtain ⟨bits, modes, room, numeral⟩ := freeDim?_eq_some_iff.mp free
      have tokens : parts.modes.tokens parts.marked = [Text.naturalText bits.toNat] := by
        rw [modes]
        rfl
      rw [tokens, List.foldlM_cons, addToken?_of_numeral room numeral, reread, free]
      rfl
  | none =>
      have same : parts.reread = parts := by
        rw [reread, free]
      rw [same, foldlM_of_head?, Modes.foldlM_tokens, Option.map_some]
      intro first member
      by_contra dimension
      rw [not_or, not_not] at dimension
      obtain ⟨bits, modes, rfl⟩ := numeral_of_head? member dimension.1
      obtain ⟨dim, numeral⟩ := Option.ne_none_iff_exists'.mp dimension.1
      have taken := freeDim?_eq_some_iff.mpr ⟨bits, modes, dimension.2, numeral⟩
      rw [free] at taken
      cases taken

/-! ## Splitting a written text -/

theorem readable_of_split? {text : List Char} {parts : Bracketed}
    (split : split? text = some parts) : parts.Readable := by
  obtain ⟨tokens, frame, _, taken, dims⟩ := split?_eq_some_iff_framed.mp split
  exact {
    head := frame.head
    tail := fun closing => absurd (frame.tail '>' closing) (by decide)
    blank := List.isEmpty_iff.mpr (Text.trim_eq_nil_iff.mpr frame.tail)
    dims := dims
    short := length_of_foldlM taken (Nat.zero_le _) }

@[simp]
theorem head_reread (parts : Bracketed) : parts.reread.head = parts.head := by
  unfold reread
  split <;> rfl

@[simp]
theorem tail_reread (parts : Bracketed) : parts.reread.tail = parts.tail := by
  unfold reread
  split <;> rfl

theorem split?_chars {parts : Bracketed} (readable : parts.Readable) :
    split? parts.chars = some parts.reread := by
  let numerals := parts.dims.map fun dim => Text.integerText dim.toInt
  let tokens := numerals ++ parts.modes.tokens parts.marked
  have plain : ∀ token ∈ tokens, token.all Text.isPlain = true := by
    intro token member
    rcases List.mem_append.mp member with dim | mode
    · obtain ⟨value, _, rfl⟩ := List.mem_map.mp dim
      exact Text.plain_integerText value.toInt
    · exact Modes.plain_tokens parts.modes parts.marked token mode
  have taken : tokens.foldlM (addToken? (dimLimit parts.head)) ([], Modes.unset) =
      some (parts.reread.dims, parts.reread.modes) := by
    have first := foldlM_dims (dimLimit parts.head) parts.dims []
      (by simpa using readable.short)
    rw [List.foldlM_append, first]
    exact foldlM_modes parts
  have dims : parts.reread.dims ≠ [] := by
    unfold reread
    split
    · simp
    · exact readable.dims
  rw [split?_eq_some_iff_framed, head_reread, tail_reread]
  refine ⟨tokens, ⟨readable.head, ?_, ?_, ?_⟩, rfl, ?_, dims⟩
  · simp [tokens, numerals, readable.dims]
  · exact fun token member => Text.not_mem_of_plain (plain token member)
  · exact Text.trim_eq_nil_iff.mp (List.isEmpty_iff.mp readable.blank)
  · rw [Text.map_trim_of_plain plain]
    exact taken

theorem Readable.setModes {parts : Bracketed} (readable : parts.Readable) (modes : Modes) :
    ({ parts with modes } : Bracketed).Readable :=
  ⟨readable.head, readable.tail, readable.blank, readable.dims, readable.short⟩

theorem dimLimit_le (head : List Char) : dimLimit head ≤ 2 := by
  unfold dimLimit
  split <;> decide

/-- A text is read as it was meant, or it has no dimension left to be filled. -/
theorem Readable.reread_cases {parts : Bracketed} (readable : parts.Readable) :
    parts.reread = parts ∨
      dimLimit parts.head ≤ parts.reread.dims.length ∧ parts.reread.head = parts.head := by
  unfold reread
  cases free : parts.freeDim? with
  | none =>
      exact Or.inl rfl
  | some dim =>
      obtain ⟨_, _, room, _⟩ := freeDim?_eq_some_iff.mp free
      have positive := List.length_pos_iff.mpr readable.dims
      have limit := dimLimit_le parts.head
      refine Or.inr ⟨?_, rfl⟩
      simp only [List.length_append, List.length_singleton]
      omega

theorem reread_of_full {parts : Bracketed} (full : dimLimit parts.head ≤ parts.dims.length) :
    parts.reread = parts := by
  unfold reread
  cases free : parts.freeDim? with
  | none => rfl
  | some dim =>
      obtain ⟨_, _, room, _⟩ := freeDim?_eq_some_iff.mp free
      exact absurd room (Nat.not_lt.mpr full)

end Bracketed

/-! ## Setting modes twice -/

theorem Modes.merge_covers (base update : Modes) : (base.merge update).covers update = true := by
  obtain ⟨rounding, saturation, bits⟩ := update
  cases rounding <;> cases saturation <;> cases bits <;> simp [merge, covers, agrees]

@[simp]
theorem Modes.merge_merge (base update : Modes) :
    (base.merge update).merge update = base.merge update := by
  obtain ⟨rounding, saturation, bits⟩ := update
  cases rounding <;> cases saturation <;> cases bits <;> simp [merge]

namespace Precision

theorem setModes_raw {text : String} {parts : Bracketed} {update : Modes}
    (split : Bracketed.split? text.toList = some parts) :
    (raw text).setModes update =
      .ok (.raw (String.ofList
        ({ parts with modes := parts.modes.merge update } : Bracketed).chars)) := by
  simp only [setModes, split]

theorem setModes_raw_eq_ok {text : String} {update : Modes} {changed : Precision}
    (set : (raw text).setModes update = .ok changed) :
    ∃ parts, Bracketed.split? text.toList = some parts ∧ parts.Readable := by
  cases split : Bracketed.split? text.toList with
  | none => simp [setModes, split] at set
  | some parts => exact ⟨parts, rfl, Bracketed.readable_of_split? split⟩

/-- A precision whose modes were set twice in the same way has them. -/
theorem covers_of_setModes_twice {precision once twice : Precision} {update : Modes}
    (first : precision.setModes update = .ok once) (second : once.setModes update = .ok twice) :
    twice.covers update = true := by
  cases precision with
  | int width signed modes =>
      obtain rfl := Except.ok.inj first
      obtain rfl := Except.ok.inj second
      exact Modes.merge_covers (modes.merge update) update
  | fixed width integer signed modes =>
      obtain rfl := Except.ok.inj first
      obtain rfl := Except.ok.inj second
      exact Modes.merge_covers (modes.merge update) update
  | raw text =>
      obtain ⟨parts, split, readable⟩ := setModes_raw_eq_ok first
      rw [setModes_raw split] at first
      obtain rfl := Except.ok.inj first
      have written := readable.setModes (parts.modes.merge update)
      have again := Bracketed.split?_chars written
      rw [setModes_raw (by rw [String.toList_ofList]; exact again)] at second
      obtain rfl := Except.ok.inj second
      have rewritten := (Bracketed.readable_of_split? again).setModes
        ((Bracketed.reread { parts with modes := parts.modes.merge update }).modes.merge update)
      have last := Bracketed.split?_chars rewritten
      simp only [covers, String.toList_ofList, last]
      rcases written.reread_cases with same | ⟨full, head⟩
      · rw [same, Modes.merge_merge, same]
        exact Modes.merge_covers parts.modes update
      · rw [Bracketed.reread_of_full (by rw [head]; exact full)]
        exact Modes.merge_covers _ update

end Precision

end QuantNet
