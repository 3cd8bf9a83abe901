import Mathlib.Data.Option.Basic
import QuantNet.Proofs.Precision.ModeTokens

/-!
# Texts around a suffix

How a text is parted into a head, tokens and a tail, and what the tokens are taken for: first
dimensions, as many as the head allows, and then modes.
-/

namespace QuantNet

/-! ## The parts of a text -/

/-- The text `head<token,…,token>tail`. -/
def framed (head : List Char) (tokens : List (List Char)) (tail : List Char) : List Char :=
  head ++ '<' :: [','].intercalate tokens ++ '>' :: tail

/-- These parts are told apart in the text: the head ends at the first `<`, the tail is blank, and
the tokens are parted by commas. -/
structure Framed (head : List Char) (tokens : List (List Char)) (tail : List Char) : Prop where
  head : '<' ∉ head
  nonempty : tokens ≠ []
  tokens : ∀ token ∈ tokens, ',' ∉ token
  tail : ∀ c ∈ tail, Text.isBlank c = true

namespace Framed

variable {head tail : List Char} {tokens : List (List Char)}

theorem opened (frame : Framed head tokens tail) :
    Text.splitFirst? '<' (framed head tokens tail) =
      some (head, [','].intercalate tokens ++ '>' :: tail) := by
  rw [framed, List.append_assoc]
  exact Text.splitFirst?_append _ frame.head

theorem closed (frame : Framed head tokens tail) :
    Text.splitLast? '>' ([','].intercalate tokens ++ '>' :: tail) =
      some ([','].intercalate tokens, tail) := by
  refine Text.splitLast?_append _ fun closing => ?_
  exact absurd (frame.tail '>' closing) (by decide)

/-- There is one way to tell the parts of a text apart. -/
theorem unique {head' tail' : List Char} {tokens' : List (List Char)}
    (frame : Framed head tokens tail) (other : Framed head' tokens' tail')
    (same : framed head tokens tail = framed head' tokens' tail') :
    head = head' ∧ tokens = tokens' ∧ tail = tail' := by
  have opened := frame.opened.symm.trans ((congrArg _ same).trans other.opened)
  obtain ⟨heads, rests⟩ := Prod.mk.inj (Option.some.inj opened)
  have closed := frame.closed.symm.trans ((congrArg _ rests).trans other.closed)
  obtain ⟨bodies, tails⟩ := Prod.mk.inj (Option.some.inj closed)
  refine ⟨heads, ?_, tails⟩
  rw [← Text.fields_intercalate frame.nonempty frame.tokens, bodies,
    Text.fields_intercalate other.nonempty other.tokens]

theorem perm {dims shuffled : List (List Char)} (frame : Framed head (dims ++ tokens) tail)
    (perm : tokens.Perm shuffled) :
    Framed head (dims ++ shuffled) tail := by
  have same := perm.append_left dims
  refine ⟨frame.head, fun none => frame.nonempty ?_, fun token member => ?_, frame.tail⟩
  · rw [none] at same
    exact List.perm_nil.mp same
  · exact frame.tokens token (same.mem_iff.mpr member)

end Framed

namespace Bracketed

variable {text : List Char} {parts : Bracketed}

theorem split?_eq_some_iff :
    split? text = some parts ↔
      ∃ rest body,
        Text.splitFirst? '<' text = some (parts.head, rest) ∧
          Text.splitLast? '>' rest = some (body, parts.tail) ∧
            (Text.trim parts.tail).isEmpty = true ∧
              (tokensOf body).foldlM (addToken? (dimLimit parts.head)) ([], Modes.unset) =
                  some (parts.dims, parts.modes) ∧
                parts.dims ≠ [] := by
  obtain ⟨head, dims, modes, tail⟩ := parts
  have guarded : ∀ condition : Bool,
      (∃ answer, (guard condition : Option Unit) = some answer) ↔ condition = true := by
    intro condition
    unfold guard
    by_cases holds : condition = true
    · rw [if_pos holds]
      exact ⟨fun _ => holds, fun _ => ⟨(), rfl⟩⟩
    · rw [if_neg holds]
      constructor
      · rintro ⟨_, held⟩
        cases held
      · exact fun held => absurd held holds
  simp only [split?, Option.bind_eq_bind, Option.bind_eq_some_iff, Prod.exists]
  constructor
  · rintro ⟨before, rest, opened, body, after, closed, first, blank, read, set, taken, second,
      nonempty, result⟩
    obtain ⟨rfl, rfl, rfl, rfl⟩ := Bracketed.mk.inj (Option.some.inj result)
    refine ⟨rest, body, opened, closed, (guarded _).mp ⟨first, blank⟩, taken, ?_⟩
    simpa using (guarded _).mp ⟨second, nonempty⟩
  · rintro ⟨rest, body, opened, closed, blank, taken, nonempty⟩
    obtain ⟨first, held⟩ := (guarded _).mpr blank
    obtain ⟨second, other⟩ := (guarded (!dims.isEmpty)).mpr (by simpa using nonempty)
    exact ⟨head, rest, opened, body, tail, closed, first, held, dims, modes, taken, second, other,
      rfl⟩

/-- A text is split into its head, its tail and what the tokens between them say. -/
theorem split?_eq_some_iff_framed :
    split? text = some parts ↔
      ∃ tokens, Framed parts.head tokens parts.tail ∧ text = framed parts.head tokens parts.tail ∧
        (tokens.map Text.trim).foldlM (addToken? (dimLimit parts.head)) ([], Modes.unset) =
            some (parts.dims, parts.modes) ∧
          parts.dims ≠ [] := by
  rw [split?_eq_some_iff]
  constructor
  · rintro ⟨rest, body, opened, closed, blank, taken, nonempty⟩
    obtain ⟨rfl, head⟩ := Text.splitFirst?_eq_some_iff.mp opened
    obtain ⟨rfl, tail⟩ := Text.splitLast?_eq_some_iff.mp closed
    refine ⟨Text.fields body, ⟨head, Text.fields_ne_nil body, fun _ => Text.not_mem_of_mem_fields,
      Text.trim_eq_nil_iff.mp (List.isEmpty_iff.mp blank)⟩, ?_, taken, nonempty⟩
    simp [framed, Text.intercalate_fields]
  · rintro ⟨tokens, frame, rfl, taken, nonempty⟩
    refine ⟨_, _, frame.opened, frame.closed, ?_, ?_, nonempty⟩
    · exact List.isEmpty_iff.mpr (Text.trim_eq_nil_iff.mpr frame.tail)
    · rw [tokensOf, Text.fields_intercalate frame.nonempty frame.tokens]
      exact taken

/-! ## Taking tokens -/

variable {limit : Nat} {read next : List Int32 × Modes}

theorem addMode?_ne_unset {set added : Modes} {token : List Char}
    (taken : addMode? set token = some added) :
    added ≠ .unset := by
  unfold addMode? at taken
  split at taken
  all_goals try split at taken
  all_goals cases taken
  all_goals simp [Modes.unset]

/-- No dimension is taken when there is a mode or there are dimensions enough. -/
private theorem addToken?_of_closed (closed : ¬ (read.1.length < limit ∧ read.2 = .unset))
    (token : List Char) :
    addToken? limit read token = (addMode? read.2 token).map fun modes => (read.1, modes) := by
  have blocked : ¬ (read.1.length < limit && read.2.isEmpty) = true := by
    simpa [Modes.isEmpty] using closed
  unfold addToken?
  split
  · rw [if_neg blocked]
  · rfl

theorem foldlM_of_closed {tokens : List (List Char)}
    (closed : ¬ (read.1.length < limit ∧ read.2 = .unset)) :
    tokens.foldlM (addToken? limit) read =
      (tokens.foldlM addMode? read.2).map fun modes => (read.1, modes) := by
  induction tokens generalizing read with
  | nil => rfl
  | cons token rest inductionHypothesis =>
      rw [List.foldlM_cons, List.foldlM_cons, addToken?_of_closed closed]
      cases taken : addMode? read.2 token with
      | none => rfl
      | some added =>
          exact inductionHypothesis fun still => addMode?_ne_unset taken still.2

/-- An integer is taken as a dimension when there is no mode and room for it. -/
theorem addToken?_of_numeral {held : List Int32} {dim : Int32} {token : List Char}
    (free : held.length < limit) (numeral : Text.signed32? token = some dim) :
    addToken? limit (held, .unset) token = some (held ++ [dim], .unset) := by
  simp [addToken?, numeral, free, Modes.isEmpty]

theorem addToken?_of_not_numeral {token : List Char} (other : Text.signed32? token = none) :
    addToken? limit read token = (addMode? read.2 token).map fun modes => (read.1, modes) := by
  simp [addToken?, other]

/-- Dimensions are only added at the end. -/
private theorem prefix_of_addToken? {token : List Char}
    (taken : addToken? limit read token = some next) :
    read.1 <+: next.1 := by
  have kept : ∀ modes? : Option Modes,
      modes?.map (fun modes => (read.1, modes)) = some next → read.1 <+: next.1 := by
    intro modes? mapped
    obtain ⟨modes, _, rfl⟩ := Option.map_eq_some_iff.mp mapped
    exact List.prefix_rfl
  unfold addToken? at taken
  split at taken
  · split at taken
    · obtain rfl := Option.some.inj taken
      exact List.prefix_append _ _
    · exact kept _ taken
  · exact kept _ taken

theorem prefix_of_foldlM {tokens : List (List Char)}
    (taken : tokens.foldlM (addToken? limit) read = some next) :
    read.1 <+: next.1 := by
  induction tokens generalizing read with
  | nil =>
      obtain rfl := Option.some.inj taken
      exact List.prefix_rfl
  | cons token rest inductionHypothesis =>
      rw [List.foldlM_cons] at taken
      obtain ⟨middle, first, later⟩ := Option.bind_eq_some_iff.mp taken
      exact (prefix_of_addToken? first).trans (inductionHypothesis later)

/-- All tokens are taken for modes when the first of them is no dimension. -/
theorem foldlM_of_head? {tokens : List (List Char)} {dims : List Int32}
    (other : ∀ first ∈ tokens.head?, Text.signed32? first = none ∨ ¬ dims.length < limit) :
    tokens.foldlM (addToken? limit) (dims, .unset) =
      (tokens.foldlM addMode? .unset).map fun modes => (dims, modes) := by
  by_cases room : dims.length < limit
  · cases tokens with
    | nil => rfl
    | cons first rest =>
        have word := (other first rfl).resolve_right (not_not.mpr room)
        rw [List.foldlM_cons, List.foldlM_cons, addToken?_of_not_numeral word]
        cases taken : addMode? .unset first with
        | none => rfl
        | some set => exact foldlM_of_closed fun still => addMode?_ne_unset taken still.2
  · exact foldlM_of_closed fun still => room still.1

private theorem length_of_addToken? {token : List Char}
    (taken : addToken? limit read token = some next) (short : read.1.length ≤ limit) :
    next.1.length ≤ limit := by
  have kept : ∀ modes? : Option Modes,
      modes?.map (fun modes => (read.1, modes)) = some next → next.1.length ≤ limit := by
    intro modes? mapped
    obtain ⟨modes, _, rfl⟩ := Option.map_eq_some_iff.mp mapped
    exact short
  unfold addToken? at taken
  split at taken
  · split at taken
    · next free =>
        simp only [Bool.and_eq_true, decide_eq_true_eq] at free
        rw [← Option.some.inj taken, List.length_append, List.length_singleton]
        exact free.1
    · exact kept _ taken
  · exact kept _ taken

/-- There are never more dimensions than the head allows. -/
theorem length_of_foldlM {tokens : List (List Char)} :
    ∀ {read next : List Int32 × Modes},
      tokens.foldlM (addToken? limit) read = some next → read.1.length ≤ limit →
        next.1.length ≤ limit := by
  induction tokens with
  | nil =>
      intro read next taken short
      rw [← Option.some.inj taken]
      exact short
  | cons token rest inductionHypothesis =>
      intro read next taken short
      rw [List.foldlM_cons] at taken
      obtain ⟨middle, first, later⟩ := Option.bind_eq_some_iff.mp taken
      exact inductionHypothesis later (length_of_addToken? first short)

end Bracketed

end QuantNet
