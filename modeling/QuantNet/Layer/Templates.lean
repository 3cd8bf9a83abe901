import QuantNet.Layer.Kind
import QuantNet.Table

/-!
# Code generation templates

A registry maps layer kinds to their templates.  A kind that is computed exactly like another one
is an alias of it and shares its templates.
-/

namespace QuantNet

structure LayerTemplates where
  function : String
  config : String
deriving DecidableEq, Repr

inductive TemplateError where
  | unregistered (kind : LayerKind)
  | alreadyRegistered (kind : LayerKind)
deriving DecidableEq, Repr

def TemplateError.message : TemplateError → String
  | unregistered kind => s!"no templates registered for `{kind.name}`"
  | alreadyRegistered kind => s!"`{kind.name}` already has templates"

/-- The templates of some kinds and the kinds that share them. -/
structure TemplateRegistry where
  templates : Table LayerKind LayerTemplates := .empty
  aliases : Table LayerKind LayerKind := .empty
deriving DecidableEq, Repr

namespace TemplateRegistry

def empty : TemplateRegistry :=
  {}

def resolve? (registry : TemplateRegistry) (kind : LayerKind) : Option LayerKind :=
  let target := (registry.aliases.get? kind).getD kind
  if registry.templates.contains target then some target else none

def get? (registry : TemplateRegistry) (kind : LayerKind) : Option LayerTemplates :=
  (registry.resolve? kind).bind registry.templates.get?

def isAlias (registry : TemplateRegistry) (kind : LayerKind) : Bool :=
  registry.aliases.contains kind

def register (registry : TemplateRegistry) (kind : LayerKind) (templates : LayerTemplates) :
    Except TemplateError TemplateRegistry :=
  if (registry.get? kind).isSome then
    .error (.alreadyRegistered kind)
  else
    .ok { registry with templates := registry.templates.insert kind templates }

def registerAlias (registry : TemplateRegistry) (kind existing : LayerKind) :
    Except TemplateError TemplateRegistry :=
  if (registry.get? kind).isSome then
    .error (.alreadyRegistered kind)
  else
    match registry.resolve? existing with
    | none => .error (.unregistered existing)
    | some target => .ok { registry with aliases := registry.aliases.insert kind target }

/-- The built-in templates.  The node that multiplies a scale back in shares those of batch
normalization. -/
def builtin : TemplateRegistry where
  templates := .ofList
    [(.dense, ⟨"nnet::dense", "dense_config"⟩),
      (.conv1D, ⟨"nnet::conv_1d_cl", "conv1d_config"⟩),
      (.conv2D, ⟨"nnet::conv_2d_cl", "conv2d_config"⟩),
      (.batchNormalization, ⟨"nnet::normalize", "batchnorm_config"⟩),
      (.activation, ⟨"nnet::activation", "activ_config"⟩)]
  aliases := .ofList [(.applyAlpha, .batchNormalization)]

end TemplateRegistry

/-- A call that registers templates for a kind, itself or as an alias. -/
inductive Registration where
  | templates (kind : LayerKind) (templates : LayerTemplates)
  | sharing (kind existing : LayerKind)
deriving DecidableEq, Repr

namespace Registration

/-- The registry that a call asks for. -/
def change (call : Registration) (registry : TemplateRegistry) :
    Except TemplateError TemplateRegistry :=
  match call with
  | templates kind given => registry.register kind given
  | sharing kind existing => registry.registerAlias kind existing

/-- The registry after a call, and the answer.  A call that is refused changes nothing. -/
def perform (call : Registration) (registry : TemplateRegistry) :
    TemplateRegistry × Except TemplateError Unit :=
  match call.change registry with
  | .ok changed => (changed, .ok ())
  | .error error => (registry, .error error)

end Registration

/-- The registry after a list of calls, refused ones included. -/
def TemplateRegistry.replay (registry : TemplateRegistry) (calls : List Registration) :
    TemplateRegistry :=
  calls.foldl (fun registry call => (call.perform registry).1) registry

end QuantNet
