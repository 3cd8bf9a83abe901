import Mathlib.Data.List.DropRight
import QuantNet.Text.Blank

/-!
# Splitting and joining

Where exactly a text is split, and that nothing is lost: the parts of a text put together give the
text again.
-/

namespace QuantNet.Text

variable {sep c : Char} {text before after field : List Char}

/-! ## The first and the last separator -/

theorem splitFirst?_eq_some_iff :
    splitFirst? sep text = some (before, after) ↔ text = before ++ sep :: after ∧ sep ∉ before := by
  constructor
  · intro split
    unfold splitFirst? at split
    have whole : text.takeWhile (· != sep) ++ text.dropWhile (· != sep) = text :=
      List.takeWhile_append_dropWhile
    cases dropped : text.dropWhile (· != sep) with
    | nil => simp [dropped] at split
    | cons first rest =>
        -- The search stops at the separator and nowhere else.
        have nonempty : 0 < (text.dropWhile (· != sep)).length := by simp [dropped]
        have stopped := List.dropWhile_get_zero_not (p := (· != sep)) text nonempty
        simp only [dropped, List.get_eq_getElem, List.getElem_cons_zero, bne_iff_ne, ne_eq,
          not_not] at stopped
        rw [dropped] at split whole
        obtain ⟨rfl, rfl⟩ := Prod.mk.inj (Option.some.inj split)
        refine ⟨stopped ▸ whole.symm, fun member => ?_⟩
        have passed := List.all_eq_true.mp List.all_takeWhile sep member
        simp at passed
  · rintro ⟨rfl, absent⟩
    exact splitFirst?_append after absent

theorem splitLast?_eq_some_iff :
    splitLast? sep text = some (before, after) ↔ text = before ++ sep :: after ∧ sep ∉ after := by
  constructor
  · intro split
    obtain ⟨⟨behind, front⟩, reversed, shape⟩ := Option.map_eq_some_iff.mp split
    obtain ⟨whole, absent⟩ := splitFirst?_eq_some_iff.mp reversed
    obtain ⟨rfl, rfl⟩ := Prod.mk.inj shape
    refine ⟨?_, by simpa using absent⟩
    rw [← List.reverse_reverse text, whole]
    simp
  · rintro ⟨rfl, absent⟩
    exact splitLast?_append before absent

/-! ## Blanks -/

theorem trim_eq_nil_iff : trim text = [] ↔ ∀ c ∈ text, isBlank c = true := by
  change (text.dropWhile isBlank).rdropWhile isBlank = [] ↔ _
  rw [List.rdropWhile_eq_nil_iff]
  constructor
  · intro blank
    have rest : text.dropWhile isBlank = [] := by
      by_contra nonempty
      have positive := List.length_pos_iff.mpr nonempty
      exact List.dropWhile_get_zero_not (p := isBlank) text positive (blank _ (List.get_mem _ _))
    exact List.dropWhile_eq_nil_iff.mp rest
  · intro blank c member
    exact blank c ((List.dropWhile_suffix isBlank).subset member)

/-- What was trimmed has no blanks at its ends. -/
theorem trim_trim (text : List Char) : trim (trim text) = trim text := by
  change ((List.rdropWhile isBlank (text.dropWhile isBlank)).dropWhile isBlank).rdropWhile isBlank =
    (text.dropWhile isBlank).rdropWhile isBlank
  have front : ((text.dropWhile isBlank).rdropWhile isBlank).dropWhile isBlank =
      (text.dropWhile isBlank).rdropWhile isBlank := by
    rw [List.dropWhile_eq_self_iff]
    intro nonempty
    have kept := List.rdropWhile_prefix isBlank (text.dropWhile isBlank)
    rw [kept.getElem nonempty]
    exact List.dropWhile_get_zero_not (p := isBlank) text (nonempty.trans_le kept.length_le)
  rw [front, List.rdropWhile_idempotent]

/-! ## Fields -/

private theorem fields_of_not_mem {field : List Char} (absent : ',' ∉ field) :
    fields field = [field] := by
  induction field with
  | nil => rfl
  | cons c rest inductionHypothesis =>
      rw [List.mem_cons, not_or] at absent
      simp only [fields, inductionHypothesis absent.2, if_neg (Ne.symm absent.1)]

private theorem fields_append {field : List Char} (absent : ',' ∉ field) (text : List Char) :
    fields (field ++ ',' :: text) = field :: fields text := by
  induction field with
  | nil => simp [fields]
  | cons c rest inductionHypothesis =>
      rw [List.mem_cons, not_or] at absent
      simp only [List.cons_append, fields, inductionHypothesis absent.2, if_neg (Ne.symm absent.1)]

/-- Fields that were joined by commas are found again. -/
theorem fields_intercalate {tokens : List (List Char)} (nonempty : tokens ≠ [])
    (absent : ∀ token ∈ tokens, ',' ∉ token) :
    fields ([','].intercalate tokens) = tokens := by
  induction tokens with
  | nil => exact absurd rfl nonempty
  | cons first rest inductionHypothesis =>
      have firstAbsent := absent first List.mem_cons_self
      cases rest with
      | nil =>
          rw [List.intercalate_singleton, fields_of_not_mem firstAbsent]
      | cons second others =>
          have later := inductionHypothesis (List.cons_ne_nil second others)
            fun token member => absent token (List.mem_cons_of_mem first member)
          rw [List.intercalate_cons_cons, List.append_assoc, List.singleton_append,
            fields_append firstAbsent, later]

theorem fields_ne_nil (text : List Char) : fields text ≠ [] := by
  cases text with
  | nil => simp [fields]
  | cons c rest =>
      unfold fields
      split
      · simp
      · split <;> simp

theorem not_mem_of_mem_fields : ∀ {text field : List Char}, field ∈ fields text → ',' ∉ field := by
  intro text
  induction text with
  | nil => simp [fields]
  | cons c rest inductionHypothesis =>
      intro field member
      unfold fields at member
      split at member
      · rcases List.mem_cons.mp member with rfl | later
        · exact List.not_mem_nil
        · exact inductionHypothesis later
      · next other =>
          cases parted : fields rest with
          | nil => exact absurd parted (fields_ne_nil rest)
          | cons first others =>
              rw [parted] at member inductionHypothesis
              rcases List.mem_cons.mp member with rfl | later
              · rw [List.mem_cons, not_or]
                exact ⟨Ne.symm other, inductionHypothesis List.mem_cons_self⟩
              · exact inductionHypothesis (List.mem_cons_of_mem first later)

/-- Of joined tokens all but the first follow a separator. -/
theorem intercalate_cons (sep first : List Char) (rest : List (List Char)) :
    sep.intercalate (first :: rest) = first ++ rest.flatMap fun token => sep ++ token := by
  induction rest generalizing first with
  | nil =>
      rw [List.intercalate_singleton, List.flatMap_nil, List.append_nil]
  | cons second others inductionHypothesis =>
      rw [List.intercalate_cons_cons, inductionHypothesis, List.flatMap_cons, List.append_assoc,
        List.append_assoc]

/-- The fields of a text joined by commas are the text. -/
theorem intercalate_fields (text : List Char) : [','].intercalate (fields text) = text := by
  induction text with
  | nil => rfl
  | cons c rest inductionHypothesis =>
      unfold fields
      cases parted : fields rest with
      | nil => exact absurd parted (fields_ne_nil rest)
      | cons first others =>
          rw [parted] at inductionHypothesis
          split
          · next comma =>
              rw [List.intercalate_cons_cons, inductionHypothesis, comma]
              rfl
          · cases others with
            | nil =>
                rw [List.intercalate_singleton] at inductionHypothesis ⊢
                rw [inductionHypothesis]
            | cons second more =>
                rw [List.intercalate_cons_cons] at inductionHypothesis ⊢
                rw [← inductionHypothesis]
                rfl

/-! ## Marks -/

theorem dropMark_suffix (mark text : List Char) : dropMark mark text <:+ text := by
  unfold dropMark
  split
  · exact List.drop_suffix mark.length text
  · exact List.suffix_rfl

/-- A mark in front of a word that does not start with it may be left out. -/
theorem dropMark_eq_iff {mark word : List Char} (unmarked : ¬ mark <+: word) :
    dropMark mark text = word ↔ text = word ∨ text = mark ++ word := by
  unfold dropMark
  split
  · next marked =>
      obtain ⟨rest, rfl⟩ := List.isPrefixOf_iff_prefix.mp marked
      rw [List.drop_left, List.append_cancel_left_eq]
      refine ⟨Or.inr, Or.rec (fun same => ?_) id⟩
      exact absurd (same ▸ List.prefix_append mark rest) unmarked
  · next plain =>
      refine ⟨Or.inl, Or.rec id fun same => ?_⟩
      exact absurd (List.isPrefixOf_iff_prefix.mpr (same ▸ List.prefix_append mark word)) plain

/-! ## Plain texts -/

/-- A character that neither parts fields nor is trimmed from them. -/
def isPlain (c : Char) : Bool :=
  c != ',' && !isBlank c

theorem trim_of_plain {text : List Char} (plain : text.all isPlain = true) : trim text = text := by
  have kept : ∀ part : List Char, part.all isPlain = true → part.dropWhile isBlank = part := by
    intro part plain
    cases part with
    | nil => rfl
    | cons c rest =>
        simp only [List.all_cons, isPlain, Bool.and_eq_true, Bool.not_eq_true'] at plain
        rw [List.dropWhile_cons_of_neg (by simp [plain.1.2])]
  have reversed : text.reverse.all isPlain = true := by
    rwa [List.all_reverse]
  rw [trim, kept text plain, kept _ reversed, List.reverse_reverse]

theorem map_trim_of_plain {tokens : List (List Char)}
    (plain : ∀ token ∈ tokens, token.all isPlain = true) : tokens.map trim = tokens := by
  rw [List.map_congr_left fun token member => trim_of_plain (plain token member), List.map_id']

theorem not_mem_of_plain {text : List Char} (plain : text.all isPlain = true) : ',' ∉ text := by
  intro member
  have holds := List.all_eq_true.mp plain ',' member
  simp [isPlain] at holds

end QuantNet.Text
