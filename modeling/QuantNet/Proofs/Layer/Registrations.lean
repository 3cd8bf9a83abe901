import QuantNet.Layer.Templates
import QuantNet.Proofs.Computation

/-!
# Registrations

A call that fills a registry of templates is accepted only for a kind that has none, and an alias is
stored with the kind whose own templates it shares, whatever kind the call names.  So every alias
leads to templates in one step, and what a kind is answered once it is answered for good.

The calls are also given as steps on one registry, in the order in which they ask and store.
Executed in this way they answer as they do as maps between registries, and end with the same
registry.
-/

namespace QuantNet

namespace TemplateRegistry

variable {registry : TemplateRegistry} {kind target : LayerKind}

/-! ## What a registry answers -/

/-- The kind that an alias leads to, and any other kind itself. -/
def holder (registry : TemplateRegistry) (kind : LayerKind) : LayerKind :=
  (registry.aliases.get? kind).getD kind

theorem resolve?_eq (registry : TemplateRegistry) (kind : LayerKind) :
    registry.resolve? kind =
      if registry.templates.contains (registry.holder kind) then some (registry.holder kind)
      else none :=
  rfl

/-- A kind has the templates of its holder. -/
theorem get?_eq (registry : TemplateRegistry) (kind : LayerKind) :
    registry.get? kind = registry.templates.get? (registry.holder kind) := by
  rw [get?, resolve?_eq]
  split
  · rfl
  · next missing => exact (Option.not_isSome_iff_eq_none.mp missing).symm

theorem resolve?_eq_some_iff :
    registry.resolve? kind = some target ↔
      registry.templates.contains target = true ∧ registry.holder kind = target := by
  rw [resolve?_eq, Option.ite_none_right_eq_some, Option.some.injEq]
  exact and_congr_left fun held => by rw [held]

theorem resolve?_eq_none_iff : registry.resolve? kind = none ↔ registry.get? kind = none := by
  rw [get?_eq, resolve?_eq]
  split
  · next stored =>
      have held := Option.isSome_iff_ne_none.mp stored
      exact ⟨fun same => absurd same (Option.some_ne_none _), fun missing => absurd missing held⟩
  · next missing => exact ⟨fun _ => Option.not_isSome_iff_eq_none.mp missing, fun _ => rfl⟩

/-- The registry with templates for a kind of its own. -/
def store (registry : TemplateRegistry) (kind : LayerKind) (given : LayerTemplates) :
    TemplateRegistry :=
  { registry with templates := registry.templates.insert kind given }

/-- The registry with an alias. -/
def share (registry : TemplateRegistry) (kind target : LayerKind) : TemplateRegistry :=
  { registry with aliases := registry.aliases.insert kind target }

@[simp]
theorem contains_store (registry : TemplateRegistry) (kind other : LayerKind)
    (given : LayerTemplates) :
    (registry.store kind given).templates.contains other =
      (decide (kind = other) || registry.templates.contains other) :=
  Table.contains_insert ..

@[simp]
theorem isAlias_share (registry : TemplateRegistry) (kind target other : LayerKind) :
    (registry.share kind target).isAlias other =
      (decide (kind = other) || registry.isAlias other) :=
  Table.contains_insert ..

theorem get?_store (registry : TemplateRegistry) (kind other : LayerKind)
    (given : LayerTemplates) :
    (registry.store kind given).get? other =
      if kind = registry.holder other then some given else registry.get? other := by
  rw [get?_eq, get?_eq registry]
  exact Table.get?_insert ..

theorem get?_share (registry : TemplateRegistry) (kind target other : LayerKind) :
    (registry.share kind target).get? other =
      if other = kind then registry.templates.get? target else registry.get? other := by
  have held : (registry.share kind target).holder other =
      (if kind = other then some target else registry.aliases.get? other).getD other := by
    rw [← Table.get?_insert]
    rfl
  rw [get?_eq, held]
  by_cases same : other = kind
  · rw [if_pos same, if_pos same.symm]
    rfl
  · rw [if_neg same, if_neg (Ne.symm same), get?_eq registry]
    rfl

/-! ## Accepted and refused registrations -/

section Registering

variable {existing : LayerKind}

theorem register_of_present (present : (registry.get? kind).isSome = true)
    (given : LayerTemplates) :
    registry.register kind given = .error (.alreadyRegistered kind) :=
  if_pos present

theorem register_of_absent (absent : registry.get? kind = none) (given : LayerTemplates) :
    registry.register kind given = .ok (registry.store kind given) :=
  if_neg (Option.not_isSome_iff_eq_none.mpr absent)

theorem registerAlias_of_present (present : (registry.get? kind).isSome = true)
    (existing : LayerKind) :
    registry.registerAlias kind existing = .error (.alreadyRegistered kind) :=
  if_pos present

theorem registerAlias_of_unknown (absent : registry.get? kind = none)
    (unknown : registry.get? existing = none) :
    registry.registerAlias kind existing = .error (.unregistered existing) := by
  simp only [registerAlias, absent, resolve?_eq_none_iff.mpr unknown]
  rfl

theorem registerAlias_of_leads (absent : registry.get? kind = none)
    (leads : registry.resolve? existing = some target) :
    registry.registerAlias kind existing = .ok (registry.share kind target) := by
  simp only [registerAlias, absent, leads]
  rfl

end Registering

end TemplateRegistry

namespace Registration

/-! ## What a call comes to -/

/-- The kind that a call is to give templates to. -/
def kind : Registration → LayerKind
  | templates kind _ => kind
  | sharing kind _ => kind

/-- The templates that a call asks for. -/
def asked? (call : Registration) (registry : TemplateRegistry) : Option LayerTemplates :=
  match call with
  | templates _ given => some given
  | sharing _ existing => registry.get? existing

/-- All that a call can come to. -/
inductive Outcome (registry : TemplateRegistry) :
    Registration → Except TemplateError TemplateRegistry → Prop
  | taken {call : Registration} (present : (registry.get? call.kind).isSome = true) :
      Outcome registry call (.error (.alreadyRegistered call.kind))
  | missing {kind existing : LayerKind} (absent : registry.get? kind = none)
      (unknown : registry.get? existing = none) :
      Outcome registry (.sharing kind existing) (.error (.unregistered existing))
  | stored {kind : LayerKind} {given : LayerTemplates} (absent : registry.get? kind = none) :
      Outcome registry (.templates kind given) (.ok (registry.store kind given))
  | shared {kind existing target : LayerKind} (absent : registry.get? kind = none)
      (leads : registry.resolve? existing = some target) :
      Outcome registry (.sharing kind existing) (.ok (registry.share kind target))

variable {registry changed : TemplateRegistry} {call : Registration} {error : TemplateError}

private theorem outcome_of_present (present : (registry.get? call.kind).isSome = true) :
    Outcome registry call (call.change registry) := by
  have refused : call.change registry = .error (.alreadyRegistered call.kind) := by
    cases call with
    | templates kind given => exact registry.register_of_present present given
    | sharing kind existing => exact registry.registerAlias_of_present present existing
  rw [refused]
  exact .taken present

theorem outcome (call : Registration) (registry : TemplateRegistry) :
    Outcome registry call (call.change registry) := by
  by_cases present : (registry.get? call.kind).isSome = true
  · exact outcome_of_present present
  · cases call with
    | templates kind given =>
        have absent : registry.get? kind = none := Option.not_isSome_iff_eq_none.mp present
        rw [change, TemplateRegistry.register_of_absent absent]
        exact .stored absent
    | sharing kind existing =>
        have absent : registry.get? kind = none := Option.not_isSome_iff_eq_none.mp present
        rw [change]
        cases leads : registry.resolve? existing with
        | none =>
            have unknown := TemplateRegistry.resolve?_eq_none_iff.mp leads
            rw [TemplateRegistry.registerAlias_of_unknown absent unknown]
            exact .missing absent unknown
        | some target =>
            rw [TemplateRegistry.registerAlias_of_leads absent leads]
            exact .shared absent leads

/-- Only a kind without an answer is given templates. -/
theorem get?_of_ok (accepted : call.change registry = .ok changed) :
    registry.get? call.kind = none := by
  have outcome := call.outcome registry
  rw [accepted] at outcome
  cases outcome with
  | stored absent => exact absent
  | shared absent leads => exact absent

theorem perform_of_ok (accepted : call.change registry = .ok changed) :
    call.perform registry = (changed, .ok ()) := by
  rw [perform, accepted]

theorem perform_of_error (refused : call.change registry = .error error) :
    call.perform registry = (registry, .error error) := by
  rw [perform, refused]

/-! ## Calls in place -/

/-- Steps that change a registry in place and may fail on the way. -/
abbrev Procedure :=
  EStateM TemplateError TemplateRegistry Unit

/-- Asks that a kind has no templates yet. -/
def requireAbsent (kind : LayerKind) : Procedure := do
  if ((← get).get? kind).isSome then
    throw (.alreadyRegistered kind)

/-- Stores what a call is for. -/
def settle (call : Registration) : Procedure := do
  match call with
  | templates kind given => modify fun registry => registry.store kind given
  | sharing kind existing =>
      match (← get).resolve? existing with
      | none => throw (.unregistered existing)
      | some target => modify fun registry => registry.share kind target

/-- A call, executed in place. -/
def execute (call : Registration) : Procedure := do
  requireAbsent call.kind
  call.settle

private theorem requireAbsent_eq (kind : LayerKind) (registry : TemplateRegistry) :
    requireAbsent kind registry =
      if (registry.get? kind).isSome then .error (.alreadyRegistered kind) registry
      else .ok () registry := by
  have asked : requireAbsent kind registry =
      (if (registry.get? kind).isSome then throw (.alreadyRegistered kind) else pure () :
        Procedure) registry :=
    rfl
  rw [asked]
  split <;> rfl

private theorem execute_of_present (present : (registry.get? call.kind).isSome = true) :
    call.execute registry = .error (.alreadyRegistered call.kind) registry := by
  have refused : requireAbsent call.kind registry =
      .error (.alreadyRegistered call.kind) registry := by
    rw [requireAbsent_eq, if_pos present]
  exact bind_of_error _ refused

private theorem execute_of_absent (call : Registration) (absent : registry.get? call.kind = none) :
    call.execute registry = call.settle registry := by
  have free : ¬ (registry.get? call.kind).isSome = true := Option.not_isSome_iff_eq_none.mpr absent
  have passed : requireAbsent call.kind registry = .ok () registry := by
    rw [requireAbsent_eq, if_neg free]
  exact bind_of_ok _ passed

private theorem settle_sharing (kind existing : LayerKind) (registry : TemplateRegistry) :
    (sharing kind existing).settle registry =
      (match registry.resolve? existing with
      | none => throw (.unregistered existing)
      | some target => modify fun registry => registry.share kind target : Procedure) registry :=
  rfl

/-- A call that is executed in place answers as it does as a map between registries.  Refused, it
leaves the registry as it was. -/
theorem execute_eq (call : Registration) (registry : TemplateRegistry) :
    call.execute registry =
      match call.change registry with
      | .ok changed => .ok () changed
      | .error error => .error error registry := by
  have outcome := call.outcome registry
  generalize call.change registry = result at outcome
  cases outcome with
  | taken present => exact execute_of_present present
  | @missing kind existing absent unknown =>
      have leads := TemplateRegistry.resolve?_eq_none_iff.mpr unknown
      rw [execute_of_absent (sharing kind existing) absent, settle_sharing, leads]
      rfl
  | @stored kind given absent => exact execute_of_absent (templates kind given) absent
  | @shared kind existing target absent leads =>
      rw [execute_of_absent (sharing kind existing) absent, settle_sharing, leads]
      rfl

end Registration

namespace TemplateRegistry

/-! ## When a registration is refused -/

section Deciding

variable {registry changed : TemplateRegistry} {kind existing : LayerKind}
  {given : LayerTemplates} {error : TemplateError}

theorem register_eq_error_iff :
    registry.register kind given = .error error ↔
      (registry.get? kind).isSome = true ∧ error = .alreadyRegistered kind := by
  have outcome := (Registration.templates kind given).outcome registry
  constructor
  · intro refused
    rw [Registration.change, refused] at outcome
    cases outcome with
    | taken present => exact ⟨present, rfl⟩
  · intro refused
    obtain ⟨present, rfl⟩ := refused
    exact register_of_present present given

theorem registerAlias_eq_error_iff :
    registry.registerAlias kind existing = .error error ↔
      ((registry.get? kind).isSome = true ∧ error = .alreadyRegistered kind) ∨
        (registry.get? kind = none ∧ registry.get? existing = none ∧
          error = .unregistered existing) := by
  have outcome := (Registration.sharing kind existing).outcome registry
  constructor
  · intro refused
    rw [Registration.change, refused] at outcome
    cases outcome with
    | taken present => exact .inl ⟨present, rfl⟩
    | missing absent unknown => exact .inr ⟨absent, unknown, rfl⟩
  · intro refused
    rcases refused with ⟨present, rfl⟩ | ⟨absent, unknown, rfl⟩
    · exact registerAlias_of_present present existing
    · exact registerAlias_of_unknown absent unknown

theorem exists_get?_of_registerAlias
    (accepted : registry.registerAlias kind existing = .ok changed) :
    ∃ given, registry.get? existing = some given := by
  have aliased : (Registration.sharing kind existing).change registry = .ok changed := accepted
  have outcome := (Registration.sharing kind existing).outcome registry
  rw [aliased] at outcome
  cases outcome with
  | shared absent leads =>
      apply Option.ne_none_iff_exists'.mp
      intro missing
      rw [resolve?_eq_none_iff.mpr missing] at leads
      cases leads

end Deciding

/-! ## Aliases that lead to templates -/

/-- Every alias leads to a kind with templates of its own, and has none itself. -/
structure Direct (registry : TemplateRegistry) : Prop where
  leads : ∀ ⦃kind target⦄, registry.aliases.get? kind = some target →
    registry.templates.contains target = true
  apart : ∀ ⦃kind⦄, registry.isAlias kind = true → registry.templates.contains kind = false

namespace Direct

variable {registry changed : TemplateRegistry} {kind other target : LayerKind}
  {given : LayerTemplates} {call : Registration}

theorem empty : Direct empty where
  leads := nofun
  apart := nofun

/-- A kind without an answer is no alias and has no templates. -/
theorem unused (direct : registry.Direct) (absent : registry.get? kind = none) :
    registry.aliases.get? kind = none ∧ registry.templates.get? kind = none := by
  rw [get?_eq, holder] at absent
  cases entry : registry.aliases.get? kind with
  | none =>
      rw [entry, Option.getD_none] at absent
      exact ⟨rfl, absent⟩
  | some target =>
      rw [entry, Option.getD_some] at absent
      have stored := direct.leads entry
      rw [Table.contains, absent] at stored
      cases stored

/-- A kind without an answer holds no templates for other kinds. -/
theorem holder_eq_iff (direct : registry.Direct) (absent : registry.get? kind = none)
    (other : LayerKind) :
    registry.holder other = kind ↔ other = kind := by
  obtain ⟨alone, vacant⟩ := direct.unused absent
  constructor
  · intro held
    unfold holder at held
    cases entry : registry.aliases.get? other with
    | none => rwa [entry, Option.getD_none] at held
    | some target =>
        rw [entry, Option.getD_some] at held
        have stored := direct.leads entry
        rw [Table.contains, held, vacant] at stored
        cases stored
  · intro same
    rw [same, holder, alone, Option.getD_none]

theorem store (direct : registry.Direct) (absent : registry.get? kind = none)
    (given : LayerTemplates) : (registry.store kind given).Direct := by
  obtain ⟨alone, _⟩ := direct.unused absent
  constructor
  · intro other target leads
    rw [contains_store, direct.leads leads, Bool.or_true]
  · intro other shares
    have former : registry.isAlias other = true := shares
    have distinct : kind ≠ other := by
      intro same
      rw [isAlias, Table.contains, ← same, alone] at former
      cases former
    rw [contains_store, direct.apart former, decide_eq_false distinct, Bool.or_false]

theorem share (direct : registry.Direct) (absent : registry.get? kind = none)
    (stored : registry.templates.contains target = true) :
    (registry.share kind target).Direct := by
  obtain ⟨_, vacant⟩ := direct.unused absent
  constructor
  · intro other holder leads
    have answer := (Table.get?_insert registry.aliases kind other target).symm.trans leads
    split at answer
    · obtain rfl := Option.some.inj answer
      exact stored
    · exact direct.leads answer
  · intro other shares
    rw [isAlias_share, Bool.or_eq_true, decide_eq_true_iff] at shares
    rcases shares with rfl | former
    · exact Option.isSome_eq_false_iff.mpr (Option.isNone_iff_eq_none.mpr vacant)
    · exact direct.apart former

/-- A call keeps aliases direct. -/
theorem perform (direct : registry.Direct) (call : Registration) :
    (call.perform registry).1.Direct := by
  have outcome := call.outcome registry
  unfold Registration.perform
  generalize call.change registry = result at outcome
  cases outcome with
  | taken _ => exact direct
  | missing _ _ => exact direct
  | stored absent => exact direct.store absent _
  | shared absent leads => exact direct.share absent (resolve?_eq_some_iff.mp leads).1

/-- A call that is accepted gives its kind the templates that it asks for, and every other kind is
answered as before. -/
theorem get?_change (direct : registry.Direct) (accepted : call.change registry = .ok changed)
    (other : LayerKind) :
    changed.get? other =
      if other = call.kind then call.asked? registry else registry.get? other := by
  have outcome := call.outcome registry
  rw [accepted] at outcome
  cases outcome with
  | @stored kind given absent =>
      have held := direct.holder_eq_iff absent other
      rw [get?_store, Registration.kind, Registration.asked?]
      simp only [eq_comm (a := kind), held]
  | @shared kind existing target absent leads =>
      obtain ⟨_, held⟩ := resolve?_eq_some_iff.mp leads
      rw [get?_share, Registration.kind, Registration.asked?, get?_eq registry existing, held]

/-- What a kind is answered it is answered after every further call. -/
theorem get?_perform (direct : registry.Direct) (found : registry.get? kind = some given)
    (call : Registration) : (call.perform registry).1.get? kind = some given := by
  cases result : call.change registry with
  | error error => rwa [Registration.perform_of_error result]
  | ok changed =>
      have distinct : kind ≠ call.kind := by
        intro same
        rw [same, Registration.get?_of_ok result] at found
        cases found
      rw [Registration.perform_of_ok result, direct.get?_change result, if_neg distinct, found]

theorem replay (direct : registry.Direct) (calls : List Registration) :
    (registry.replay calls).Direct := by
  induction calls generalizing registry with
  | nil => exact direct
  | cons call rest inductionHypothesis => exact inductionHypothesis (direct.perform call)

theorem get?_replay (direct : registry.Direct) (found : registry.get? kind = some given)
    (calls : List Registration) : (registry.replay calls).get? kind = some given := by
  induction calls generalizing registry with
  | nil => exact found
  | cons call rest inductionHypothesis =>
      exact inductionHypothesis (direct.perform call) (direct.get?_perform found call)

/-- An alias that is accepted has the same answer as the kind that it was given, then and after
every further call. -/
theorem get?_replay_alias (direct : registry.Direct)
    (accepted : registry.registerAlias kind other = .ok changed) (later : List Registration) :
    (changed.replay later).get? kind = (changed.replay later).get? other := by
  have aliased : (Registration.sharing kind other).change registry = .ok changed := accepted
  have after : changed.Direct := by
    have performed := direct.perform (.sharing kind other)
    rwa [Registration.perform_of_ok aliased] at performed
  obtain ⟨given, found⟩ := exists_get?_of_registerAlias accepted
  have distinct : other ≠ kind := by
    intro same
    have absent := Registration.get?_of_ok aliased
    rw [Registration.kind] at absent
    rw [same, absent] at found
    cases found
  have here : changed.get? kind = some given := by
    rw [direct.get?_change aliased, Registration.kind, if_pos rfl]
    exact found
  have there : changed.get? other = some given := by
    rw [direct.get?_change aliased, Registration.kind, if_neg distinct, found]
  rw [after.get?_replay here, after.get?_replay there]

end Direct

/-! ## Any calls -/

/-- The calls that list the templates of a registry and then its aliases. -/
def calls (registry : TemplateRegistry) : List Registration :=
  registry.templates.entries.map (fun entry => .templates entry.1 entry.2) ++
    registry.aliases.entries.map fun entry => .sharing entry.1 entry.2

/-- The built-in templates are what calls build. -/
theorem replay_calls_builtin : empty.replay builtin.calls = builtin := by
  rfl

/-- What can be relied on in a registry: its aliases lead to templates, and its answers stay. -/
structure Steady (registry : TemplateRegistry) : Prop where
  /-- No kind has templates of its own and is an alias. -/
  apart : ∀ kind, ¬ (registry.templates.contains kind = true ∧ registry.isAlias kind = true)
  /-- Every alias leads to a kind with templates of its own. -/
  leads : ∀ kind target, registry.aliases.get? kind = some target →
    registry.templates.contains target = true
  /-- A kind with an answer has it after every further call. -/
  keeps : ∀ kind given, registry.get? kind = some given →
    ∀ later, (registry.replay later).get? kind = some given
  /-- An alias that is accepted has the answer of the kind that it was given, then and after every
  further call. -/
  shares : ∀ kind existing changed, registry.registerAlias kind existing = .ok changed →
    ∀ later, (changed.replay later).get? kind = (changed.replay later).get? existing
  /-- Templates are refused exactly for a kind with an answer. -/
  refuses : ∀ kind given error, registry.register kind given = .error error ↔
    (registry.get? kind).isSome = true ∧ error = .alreadyRegistered kind
  /-- An alias is refused exactly for a kind with an answer, or if the other kind has none. -/
  refusesAlias : ∀ kind existing error, registry.registerAlias kind existing = .error error ↔
    ((registry.get? kind).isSome = true ∧ error = .alreadyRegistered kind) ∨
      (registry.get? kind = none ∧ registry.get? existing = none ∧
        error = .unregistered existing)
  /-- A call that is accepted changes the answer for its kind only. -/
  accepted : ∀ (call : Registration) changed, call.change registry = .ok changed →
    call.perform registry = (changed, .ok ()) ∧ call.execute registry = .ok () changed ∧
      ∀ kind, changed.get? kind =
        if kind = call.kind then call.asked? registry else registry.get? kind
  /-- A call that is refused changes nothing. -/
  refused : ∀ (call : Registration) error, call.change registry = .error error →
    call.perform registry = (registry, .error error) ∧
      call.execute registry = .error error registry

theorem Direct.steady {registry : TemplateRegistry} (direct : registry.Direct) :
    registry.Steady where
  apart kind both := by
    rw [direct.apart both.2] at both
    cases both.1
  leads _ _ found := direct.leads found
  keeps _ _ found later := direct.get?_replay found later
  shares _ _ _ accepted later := direct.get?_replay_alias accepted later
  refuses _ _ _ := register_eq_error_iff
  refusesAlias _ _ _ := registerAlias_eq_error_iff
  accepted call changed accepted :=
    ⟨Registration.perform_of_ok accepted, by rw [call.execute_eq, accepted],
      direct.get?_change accepted⟩
  refused call error refused :=
    ⟨Registration.perform_of_error refused, by rw [call.execute_eq, refused]⟩

end TemplateRegistry

/-- Whatever calls have been made, from an empty registry on or from the built-in templates, aliases
lead to templates in one step and no further call changes an answer. -/
theorem registry_answers_stay (calls : List Registration) :
    (TemplateRegistry.empty.replay calls).Steady ∧
      (TemplateRegistry.builtin.replay calls).Steady := by
  have direct := TemplateRegistry.Direct.empty
  have builtin := direct.replay TemplateRegistry.builtin.calls
  rw [TemplateRegistry.replay_calls_builtin] at builtin
  exact ⟨(direct.replay calls).steady, (builtin.replay calls).steady⟩

/-- An alias of an alias leads to the templates, and neither can be given templates again. -/
example :
    let registry := TemplateRegistry.builtin.replay
      [.sharing .input .applyAlpha, .templates .applyAlpha ⟨"nnet::scale", "scale_config"⟩]
    registry.aliases.get? .input = some .batchNormalization ∧
      registry.get? .applyAlpha = some ⟨"nnet::normalize", "batchnorm_config"⟩ := by
  decide

end QuantNet
