import Mathlib.Data.List.Perm.Basic
import QuantNet.Precision.Bracketed
import QuantNet.Proofs.Text.Literals

/-!
# Mode tokens

Which tokens name a mode, and which modes a list of tokens sets.  Every token sets one mode, no mode
is set twice, and the order of the tokens does not matter.
-/

namespace QuantNet

/-- The token has this mnemonic, perhaps with the mark `AP_`, between blanks. -/
def Mentions (token : List Char) (mnemonic : String) : Prop :=
  Text.trim token = mnemonic.toList ∨ Text.trim token = ['A', 'P', '_'] ++ mnemonic.toList

/-- A mode that is set: one of the tokens in the suffix of a type. -/
inductive ModeItem where
  | rounding (mode : Rounding)
  | saturation (mode : Saturation)
  | bits (count : UInt32)
deriving DecidableEq, Repr

namespace ModeItem

def rounding? : ModeItem → Option Rounding
  | rounding mode => some mode
  | _ => none

def saturation? : ModeItem → Option Saturation
  | saturation mode => some mode
  | _ => none

def bits? : ModeItem → Option UInt32
  | bits count => some count
  | _ => none

/-- The token sets this mode: a mnemonic, or a literal of the bit count. -/
def SetBy (token : List Char) : ModeItem → Prop
  | rounding mode => Mentions token mode.mnemonic
  | saturation mode => Mentions token mode.mnemonic
  | bits count => Text.Natural (Text.trim token) count.toNat

end ModeItem

namespace Modes

/-- The items are the set modes, each of them once, in any order. -/
structure Collects (modes : Modes) (items : List ModeItem) : Prop where
  rounding : items.filterMap ModeItem.rounding? = modes.rounding.toList
  saturation : items.filterMap ModeItem.saturation? = modes.saturation.toList
  bits : items.filterMap ModeItem.bits? = modes.bits.toList

/-- The tokens set these modes and no others, one mode each. -/
def SetBy (tokens : List (List Char)) (modes : Modes) : Prop :=
  ∃ items, List.Forall₂ ModeItem.SetBy tokens items ∧ modes.Collects items

end Modes

/-! ## Reading one token -/

variable {token : List Char}

/-- A word is the name in a token that has the word, marked or not. -/
theorem modeName_eq_iff {mnemonic : String} (unmarked : ¬ ['A', 'P', '_'] <+: mnemonic.toList) :
    modeName token = mnemonic.toList ↔ Mentions token mnemonic :=
  Text.dropMark_eq_iff unmarked

@[simp]
theorem Rounding.unmarked_mnemonic (mode : Rounding) :
    ¬ ['A', 'P', '_'] <+: mode.mnemonic.toList := by
  cases mode <;> decide

@[simp]
theorem Saturation.unmarked_mnemonic (mode : Saturation) :
    ¬ ['A', 'P', '_'] <+: mode.mnemonic.toList := by
  cases mode <;> decide

theorem Rounding.ofChars?_eq_some_iff {mode : Rounding} :
    Rounding.ofChars? token = some mode ↔ Mentions token mode.mnemonic := by
  rw [← modeName_eq_iff mode.unmarked_mnemonic]
  constructor
  · intro found
    unfold ofChars? at found
    have same := List.find?_some found
    exact (of_decide_eq_true same).symm
  · intro named
    rw [Rounding.ofChars?, named]
    cases mode <;> decide

theorem Saturation.ofChars?_eq_some_iff {mode : Saturation} :
    Saturation.ofChars? token = some mode ↔ Mentions token mode.mnemonic := by
  rw [← modeName_eq_iff mode.unmarked_mnemonic]
  constructor
  · intro found
    unfold ofChars? at found
    have same := List.find?_some found
    exact (of_decide_eq_true same).symm
  · intro named
    rw [Saturation.ofChars?, named]
    cases mode <;> decide

/-- No token names a rounding and a saturation. -/
theorem Rounding.ofChars?_of_saturation {mode : Saturation}
    (mentions : Mentions token mode.mnemonic) :
    Rounding.ofChars? token = none := by
  rw [Rounding.ofChars?, (modeName_eq_iff mode.unmarked_mnemonic).mpr mentions]
  cases mode <;> decide

/-- The name in a token is no literal. -/
private theorem not_mentions_of_natural {value : Nat} {mnemonic : String} {c : Char}
    (literal : Text.Natural (Text.trim token) value) (starts : mnemonic.toList.head? = some c)
    (letter : c.isDigit = false) (unsigned : c ≠ '+') :
    ¬ Mentions token mnemonic := by
  have headed : ∀ {first : Char}, (Text.trim token).head? = some first →
      first.isDigit = true ∨ first = '+' :=
    fun first => literal.digit_or_plus _ (List.mem_of_mem_head? first)
  rintro (same | same)
  · rcases headed (same ▸ starts) with digit | plus
    · rw [letter] at digit
      cases digit
    · exact unsigned plus
  · have marked : (Text.trim token).head? = some 'A' := by
      rw [same]
      rfl
    rcases headed marked with digit | plus
    · cases digit
    · cases plus

theorem Rounding.ofChars?_of_natural {value : Nat}
    (literal : Text.Natural (Text.trim token) value) :
    Rounding.ofChars? token = none := by
  rw [Option.eq_none_iff_forall_ne_some]
  intro mode found
  have mentions := Rounding.ofChars?_eq_some_iff.mp found
  cases mode <;> exact not_mentions_of_natural literal rfl rfl (by decide) mentions

theorem Saturation.ofChars?_of_natural {value : Nat}
    (literal : Text.Natural (Text.trim token) value) :
    Saturation.ofChars? token = none := by
  rw [Option.eq_none_iff_forall_ne_some]
  intro mode found
  have mentions := Saturation.ofChars?_eq_some_iff.mp found
  cases mode <;> exact not_mentions_of_natural literal rfl rfl (by decide) mentions

@[simp]
theorem mentions_trim {mnemonic : String} :
    Mentions (Text.trim token) mnemonic ↔ Mentions token mnemonic := by
  rw [Mentions, Text.trim_trim, Mentions]

/-! ## Taking tokens -/

namespace Modes

/-- The modes with one more, which must not be set yet. -/
inductive Gains (modes : Modes) : ModeItem → Modes → Prop
  | rounding {mode : Rounding} (free : modes.rounding = none) :
      Gains modes (.rounding mode) { modes with rounding := some mode }
  | saturation {mode : Saturation} (free : modes.saturation = none) :
      Gains modes (.saturation mode) { modes with saturation := some mode }
  | bits {count : UInt32} (free : modes.bits = none) :
      Gains modes (.bits count) { modes with bits := some count }

variable {modes next : Modes} {item : ModeItem}

end Modes

namespace Bracketed

variable {modes next : Modes}

/-- A token is taken if it sets a mode that is not set yet. -/
theorem addMode?_trim_eq_some_iff :
    addMode? modes (Text.trim token) = some next ↔
      ∃ item, item.SetBy token ∧ modes.Gains item next := by
  constructor
  · intro taken
    unfold addMode? at taken
    split at taken
    · next mode found =>
        split at taken
        · next free =>
            obtain rfl := Option.some.inj taken
            exact ⟨.rounding mode, mentions_trim.mp (Rounding.ofChars?_eq_some_iff.mp found),
              .rounding (Option.isNone_iff_eq_none.mp free)⟩
        · cases taken
    · next mode _ found =>
        split at taken
        · next free =>
            obtain rfl := Option.some.inj taken
            exact ⟨.saturation mode, mentions_trim.mp (Saturation.ofChars?_eq_some_iff.mp found),
              .saturation (Option.isNone_iff_eq_none.mp free)⟩
        · cases taken
    · next count _ _ read =>
        split at taken
        · next free =>
            obtain rfl := Option.some.inj taken
            exact ⟨.bits count, Text.unsigned32?_iff_natural.mp read,
              .bits (Option.isNone_iff_eq_none.mp free)⟩
        · cases taken
    · cases taken
  · rintro ⟨item, sets, gains⟩
    cases gains with
    | rounding free =>
        have found := Rounding.ofChars?_eq_some_iff.mpr (mentions_trim.mpr sets)
        simp [addMode?, found, free]
    | saturation free =>
        have mentions := mentions_trim.mpr sets
        simp [addMode?, Rounding.ofChars?_of_saturation mentions,
          Saturation.ofChars?_eq_some_iff.mpr mentions, free]
    | @bits count free =>
        have literal : Text.Natural (Text.trim (Text.trim token)) count.toNat := by
          rw [Text.trim_trim]
          exact sets
        simp [addMode?, Rounding.ofChars?_of_natural literal,
          Saturation.ofChars?_of_natural literal, Text.unsigned32?_iff_natural.mpr sets, free]

end Bracketed

/-! ## Taking all tokens -/

private theorem toList_injective {β : Type} {held total : Option β}
    (same : held.toList = total.toList) : held = total := by
  cases held <;> cases total <;> simp_all

/-- A list with one more item than an optional value has no value yet. -/
private theorem toList_append_cons {β : Type} {held total : Option β} {added : β} {rest : List β} :
    held.toList ++ added :: rest = total.toList ↔
      held = none ∧ (some added).toList ++ rest = total.toList := by
  cases held with
  | none => simp
  | some value => cases total <;> simp

namespace Modes

/-- The items are what is set beyond `base`, each mode once, in any order. -/
structure Adds (base : Modes) (items : List ModeItem) (modes : Modes) : Prop where
  rounding : base.rounding.toList ++ items.filterMap ModeItem.rounding? = modes.rounding.toList
  saturation : base.saturation.toList ++ items.filterMap ModeItem.saturation? =
    modes.saturation.toList
  bits : base.bits.toList ++ items.filterMap ModeItem.bits? = modes.bits.toList

variable {base modes : Modes} {item : ModeItem} {items others : List ModeItem}

theorem adds_unset_iff : unset.Adds items modes ↔ modes.Collects items :=
  ⟨fun ⟨rounding, saturation, bits⟩ => ⟨rounding, saturation, bits⟩,
    fun ⟨rounding, saturation, bits⟩ => ⟨rounding, saturation, bits⟩⟩

private theorem adds_nil_iff : base.Adds [] modes ↔ base = modes := by
  constructor
  · rintro ⟨rounding, saturation, bits⟩
    simp only [List.filterMap_nil, List.append_nil] at rounding saturation bits
    obtain ⟨_, _, _⟩ := base
    rw [Modes.mk.injEq]
    exact ⟨toList_injective rounding, toList_injective saturation, toList_injective bits⟩
  · rintro rfl
    exact ⟨by simp, by simp, by simp⟩

private theorem adds_cons_iff :
    base.Adds (item :: items) modes ↔
      ∃ middle, base.Gains item middle ∧ middle.Adds items modes := by
  constructor
  · rintro ⟨rounding, saturation, bits⟩
    cases item with
    | rounding mode =>
        obtain ⟨free, rounding⟩ := toList_append_cons.mp rounding
        exact ⟨_, .rounding free, rounding, saturation, bits⟩
    | saturation mode =>
        obtain ⟨free, saturation⟩ := toList_append_cons.mp saturation
        exact ⟨_, .saturation free, rounding, saturation, bits⟩
    | bits count =>
        obtain ⟨free, bits⟩ := toList_append_cons.mp bits
        exact ⟨_, .bits free, rounding, saturation, bits⟩
  · rintro ⟨middle, gains, rounding, saturation, bits⟩
    cases gains with
    | rounding free =>
        exact ⟨toList_append_cons.mpr ⟨free, rounding⟩, saturation, bits⟩
    | saturation free =>
        exact ⟨rounding, toList_append_cons.mpr ⟨free, saturation⟩, bits⟩
    | bits free =>
        exact ⟨rounding, saturation, toList_append_cons.mpr ⟨free, bits⟩⟩

/-- The order of the items does not matter. -/
theorem Collects.perm (collects : modes.Collects items) (perm : items.Perm others) :
    modes.Collects others := by
  have single : ∀ {β : Type} {value : Option β} {list : List β}, value.toList.Perm list →
      list = value.toList := by
    intro β value list same
    cases value with
    | none => exact List.nil_perm.mp same
    | some value => exact (List.singleton_perm.mp same).symm
  exact {
    rounding := single (collects.rounding ▸ perm.filterMap _)
    saturation := single (collects.saturation ▸ perm.filterMap _)
    bits := single (collects.bits ▸ perm.filterMap _) }

/-- The order of the tokens does not matter. -/
theorem SetBy.perm {tokens shuffled : List (List Char)} (sets : SetBy tokens modes)
    (perm : tokens.Perm shuffled) :
    SetBy shuffled modes := by
  obtain ⟨items, named, collects⟩ := sets
  obtain ⟨others, others_named, same⟩ := List.perm_comp_forall₂ perm.symm named
  exact ⟨_, others_named, collects.perm same.symm⟩

end Modes

namespace Bracketed

/-- Tokens are taken one after the other if each sets a mode that is not set by then. -/
theorem foldlM_addMode?_iff {tokens : List (List Char)} {base modes : Modes} :
    (tokens.map Text.trim).foldlM addMode? base = some modes ↔
      ∃ items, List.Forall₂ (fun token item => ModeItem.SetBy token item) tokens items ∧
        base.Adds items modes := by
  induction tokens generalizing base with
  | nil =>
      simp [Modes.adds_nil_iff]
  | cons token rest inductionHypothesis =>
      simp only [List.map_cons, List.foldlM_cons, Option.bind_eq_bind, Option.bind_eq_some_iff,
        addMode?_trim_eq_some_iff, inductionHypothesis]
      constructor
      · rintro ⟨middle, ⟨item, sets, gains⟩, items, named, adds⟩
        exact ⟨item :: items, .cons sets named, Modes.adds_cons_iff.mpr ⟨middle, gains, adds⟩⟩
      · rintro ⟨_, named, adds⟩
        cases named with
        | cons sets named =>
            obtain ⟨middle, gains, adds⟩ := Modes.adds_cons_iff.mp adds
            exact ⟨middle, ⟨_, sets, gains⟩, _, named, adds⟩

theorem foldlM_addMode?_unset_iff {tokens : List (List Char)} {modes : Modes} :
    (tokens.map Text.trim).foldlM addMode? .unset = some modes ↔ Modes.SetBy tokens modes := by
  simp only [foldlM_addMode?_iff, Modes.adds_unset_iff, Modes.SetBy]

end Bracketed

/-! ## Written modes -/

/-- A mnemonic is written with the mark or without it. -/
private theorem mentions_of_plain {mnemonic : String}
    (plain : mnemonic.toList.all Text.isPlain = true) (marked : Bool) :
    Mentions ((if marked then ['A', 'P', '_'] else []) ++ mnemonic.toList) mnemonic := by
  cases marked with
  | false => exact Or.inl (Text.trim_of_plain plain)
  | true => exact Or.inr (Text.trim_of_plain plain)

@[simp]
theorem Rounding.plain_mnemonic (mode : Rounding) :
    mode.mnemonic.toList.all Text.isPlain = true := by
  cases mode <;> decide

@[simp]
theorem Saturation.plain_mnemonic (mode : Saturation) :
    mode.mnemonic.toList.all Text.isPlain = true := by
  cases mode <;> decide

namespace Modes

variable (modes : Modes) (marked : Bool)

theorem plain_tokens :
    ∀ token ∈ modes.tokens marked, token.all Text.isPlain = true := by
  have marks : (if marked then ['A', 'P', '_'] else [] : List Char).all Text.isPlain = true := by
    cases marked <;> rfl
  intro token member
  simp only [tokens, List.mem_append, Option.mem_toList, Option.map_eq_some_iff] at member
  rcases member with (⟨mode, _, rfl⟩ | ⟨mode, _, rfl⟩) | ⟨bits, _, rfl⟩
  · rw [List.all_append, marks, mode.plain_mnemonic, Bool.and_true]
  · rw [List.all_append, marks, mode.plain_mnemonic, Bool.and_true]
  · exact Text.plain_naturalText bits.toNat

/-- The tokens that are written for modes set these modes. -/
theorem setBy_tokens : SetBy (modes.tokens marked) modes := by
  obtain ⟨rounding, saturation, bits⟩ := modes
  refine ⟨rounding.toList.map .rounding ++ saturation.toList.map .saturation ++
    bits.toList.map .bits, ?_, ?_⟩
  · refine List.rel_append (List.rel_append ?_ ?_) ?_
    · cases rounding with
      | none => exact .nil
      | some mode => exact .cons (mentions_of_plain mode.plain_mnemonic marked) .nil
    · cases saturation with
      | none => exact .nil
      | some mode => exact .cons (mentions_of_plain mode.plain_mnemonic marked) .nil
    · cases bits with
      | none => exact .nil
      | some count =>
          refine .cons ?_ .nil
          rw [ModeItem.SetBy, Text.trim_of_plain (Text.plain_naturalText _)]
          exact Text.natural_naturalText _
  · cases rounding <;> cases saturation <;> cases bits <;> exact ⟨rfl, rfl, rfl⟩

/-- Modes are read as they are written. -/
theorem foldlM_tokens : (modes.tokens marked).foldlM Bracketed.addMode? .unset = some modes := by
  rw [← Text.map_trim_of_plain (modes.plain_tokens marked)]
  exact Bracketed.foldlM_addMode?_unset_iff.mpr (modes.setBy_tokens marked)

end Modes

end QuantNet
