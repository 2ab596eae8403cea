/-!
# The resolved tree and its identifier occurrences (`sigil/src/resolved.rs`)

Spans, type syntax, literal values and labels carry no unique id and are left out;
a list of parameters, variants or captures that only holds ids is a list of ids.
-/

namespace Surtr.Sigil

structure ResolvedId where
  name : String
  qualifiedName : Option String
  uniqueId : Nat
  compilerGenerated : Bool
deriving DecidableEq, Repr

structure ResolvedSignatureTy where
  directConstructorTrait : Option ResolvedId
deriving DecidableEq, Repr

structure ResolvedDoContract where
  monadFailTrait : Option ResolvedId
  monadTrait : Option ResolvedId
  alternativeTrait : Option ResolvedId
deriving DecidableEq, Repr

structure ResolvedReturnTypeArgument where
  ordinal : Nat
  ty : ResolvedSignatureTy
deriving DecidableEq, Repr

structure ResolvedValueParameter where
  id : ResolvedId
  ty : ResolvedSignatureTy
deriving DecidableEq, Repr

structure ResolvedField where
  id : Option ResolvedId
  name : String
deriving DecidableEq, Repr

inductive ResolvedWhereConstraintRhs where
  | trait (traitId : ResolvedId)
  | typeConstructor
  | traitSlot (traitId : ResolvedId) (slotName : String) (slotOrdinal : Nat)
deriving DecidableEq, Repr

structure ResolvedWhereConstraint where
  bounds : List ResolvedWhereConstraintRhs
deriving DecidableEq, Repr

structure ResolvedWhereClause where
  constraints : List ResolvedWhereConstraint
deriving DecidableEq, Repr

structure ResolvedPatternBinding where
  proxy : ResolvedId
  outer : Option ResolvedId
deriving DecidableEq, Repr

mutual
inductive Resolved where
  | applyPattern (value : Resolved) (pattern : ResolvedPattern)
  | lit
  | var (id : ResolvedId)
  | app (func : Resolved) (args : List Resolved)
  | lazyApp (func : Resolved) (args : List Resolved)
  | returnTypeArgumentApply (target : Resolved) (arguments : List ResolvedReturnTypeArgument)
  | block (nodes : List Resolved)
  | bind (pattern : ResolvedPattern) (rhs : Resolved)
  | safeBind (pattern : ResolvedPattern) (rhs : Resolved)
  | statementQuestion (inner : Resolved)
  | «do» (contract : ResolvedDoContract) (arguments : List ResolvedReturnTypeArgument)
      (statements : List ResolvedDoStatement)
  | binOp (left right : Resolved)
  | pipe (left right : Resolved)
  | contextMap (left right : Resolved)
  | contextApply (left right : Resolved)
  | contextBind (left right : Resolved)
  | compose (left right : Resolved)
  | liftedCompose (left right : Resolved)
  | kleisliCompose (left right : Resolved)
  | listNil
  | listCons (left right : Resolved)
  | listLiteral (nodes : List Resolved)
  | rangeLiteral (start stop : Resolved)
  | tupleLiteral (nodes : List Resolved)
  | grouped (inner : Resolved)
  | cond (clauses : List (Resolved × Resolved))
  | interpolatedStr (parts : List ResolvedInterpolatedPart)
  | dbg (nodes : List Resolved)
  | «if» (cond thenBranch : Resolved) (elseBranch : Option Resolved)
  | cause (value err : Resolved)
  | errorKind (id : ResolvedId)
  | «match» (scrutinee : Resolved) (arms : List ResolvedMatchArm)
  | isMatch (scrutinee : Resolved) (arms : List ResolvedMatchArm)
  | ifLet (scrutinee : Resolved) (arms : List ResolvedMatchArm) (lazy : Bool)
  | assertErrorMatches (input : Resolved) (arm : ResolvedMatchArm)
  | fieldAccess (inner : Resolved) (field : String)
  | facetSegmentAccess (inner : Resolved) (segment : ResolvedFacetPathSegment)
  | inferredFacetCapture (segments : List ResolvedFacetPathSegment)
  | facetCapture (inner : Resolved)
  | processContextHandler (slot : String)
  | structLit (id : ResolvedId) (fields : List Resolved)
  | constructorCall (id : ResolvedId) (args : List Resolved)
  | enumConstructorCall (id : ResolvedId) (args : List Resolved)
  | enumErrorConstructorCall (owner id : ResolvedId) (args : List Resolved)
  | structDef (id : ResolvedId) (fields : List ResolvedField)
  | recordDef (id : ResolvedId) (fields : List ResolvedField)
  | deferrorDef (id : ResolvedId) (fields : List ResolvedField) (showExpr : Resolved)
  | enumDef (id : ResolvedId) (variants : List ResolvedId)
  | def_ (id : ResolvedId) (returnTypeArguments : List ResolvedReturnTypeArgument)
      (params : List ResolvedValueParameter) (ret : Option ResolvedSignatureTy)
      (whereClause : Option ResolvedWhereClause) (body : Resolved)
  | constDef (id : ResolvedId) (value : Resolved)
  | extractorDef (id : ResolvedId) (params : List ResolvedId) (body : Resolved)
  | traitDef (id : ResolvedId) (whereClause : Option ResolvedWhereClause)
      (methods : List ResolvedTraitMethodSig)
  | traitImplDef (declarationId : Nat) (id : ResolvedId)
      (whereClause : Option ResolvedWhereClause) (methods : List ResolvedTraitImplMethod)
  | builtinDecl (id : ResolvedId) (returnTypeArguments : List ResolvedReturnTypeArgument)
      (params : List ResolvedValueParameter) (ret : Option ResolvedSignatureTy)
      (whereClause : Option ResolvedWhereClause)
  | builtinExtractorDecl (id : ResolvedId) (params : List ResolvedId)
  | builtinTypeDecl (id : ResolvedId)
  | typeAlias (name : String)
  | closure (params captures : List ResolvedId) (body : Resolved)
  | extractorClosure (params captures : List ResolvedId) (body : Resolved)
  | captureClosure (params captures : List ResolvedId) (body : Resolved)
  | capture (target : Resolved) (args : List Resolved)
  | semi (inner : Resolved)
  | hashMapLiteral (entries : List (Resolved × Resolved))

inductive ResolvedDoStatement where
  | extract (pattern : ResolvedPattern) (rhs : Resolved)
  | safeBind (pattern : ResolvedPattern) (rhs : Resolved)
  | statement (rhs : Resolved)

inductive ResolvedInterpolatedPart where
  | text (text : String)
  | expr (expr : Resolved)

inductive ResolvedMatchArm where
  | mk (pattern : ResolvedPattern) (guard : Option Resolved) (body : Resolved)

inductive ResolvedFacetPathSegment where
  | field (name : String) (optional : Bool)
  | bracket (expr : Resolved) (display : String)

inductive ResolvedTraitMethodSig where
  | mk (id : ResolvedId) (returnTypeArguments : List ResolvedReturnTypeArgument)
      (params : List ResolvedValueParameter) (ret : ResolvedSignatureTy)
      (whereClause : Option ResolvedWhereClause) (body : Option Resolved)

inductive ResolvedTraitImplMethod where
  | mk (functionId : ResolvedId) (returnTypeArguments : List ResolvedReturnTypeArgument)
      (params : List ResolvedValueParameter) (ret : Option ResolvedSignatureTy)
      (whereClause : Option ResolvedWhereClause) (body : Resolved)

/-- Each of the two roles is `none` where the source keeps a resolve error. -/
inductive ResolvedPatternArgument where
  | mk (expr : Option Resolved) (pattern : Option ResolvedPattern)

inductive ResolvedPattern where
  | located (inner : ResolvedPattern)
  | projection (index : Nat) (id : ResolvedId) (inner : ResolvedPattern)
  | deferred (pattern : ResolvedPattern) (bindings : List ResolvedPatternBinding)
      (allowBindings : Bool)
  | extractorApplication (head : ResolvedId) (args : List ResolvedPatternArgument)
  | var (id : ResolvedId)
  | annotated (id : ResolvedId)
  | pin (id : ResolvedId)
  | wildcard
  | annotatedWildcard
  | listNil
  | listCons (head tail : ResolvedPattern)
  | intLit (value : Int)
  | strLit (value : String)
  | boolLit (value : Bool)
  | durationLit (value : Int)
  | constructor (id : ResolvedId) (inners : List ResolvedPattern)
  | enumErrorOther (candidates : List ResolvedId) (inners : List ResolvedPattern)
  | hashMap (entries : List (Resolved × ResolvedPattern))
  | record (id : ResolvedId) (fields : List ResolvedPattern)
  | extractor (id : ResolvedId) (preArgs : List Resolved) (inners : List ResolvedPattern)
  | tuple (inners : List ResolvedPattern)
  | or (inners : List ResolvedPattern)
  | as (inner : ResolvedPattern) (id : ResolvedId)
end

section
variable (ρ : Nat → Nat)

def ResolvedId.rename (id : ResolvedId) : ResolvedId :=
  { id with uniqueId := ρ id.uniqueId }

def ResolvedSignatureTy.rename (ty : ResolvedSignatureTy) : ResolvedSignatureTy :=
  { directConstructorTrait := ty.directConstructorTrait.map (·.rename ρ) }

def ResolvedDoContract.rename (contract : ResolvedDoContract) : ResolvedDoContract where
  monadFailTrait := contract.monadFailTrait.map (·.rename ρ)
  monadTrait := contract.monadTrait.map (·.rename ρ)
  alternativeTrait := contract.alternativeTrait.map (·.rename ρ)

def ResolvedReturnTypeArgument.rename (argument : ResolvedReturnTypeArgument) :
    ResolvedReturnTypeArgument :=
  { argument with ty := argument.ty.rename ρ }

def ResolvedValueParameter.rename (param : ResolvedValueParameter) : ResolvedValueParameter where
  id := param.id.rename ρ
  ty := param.ty.rename ρ

def ResolvedField.rename (field : ResolvedField) : ResolvedField :=
  { field with id := field.id.map (·.rename ρ) }

def ResolvedWhereConstraintRhs.rename : ResolvedWhereConstraintRhs → ResolvedWhereConstraintRhs
  | .trait traitId => .trait (traitId.rename ρ)
  | .typeConstructor => .typeConstructor
  | .traitSlot traitId slotName slotOrdinal => .traitSlot (traitId.rename ρ) slotName slotOrdinal

def ResolvedWhereClause.rename (clause : ResolvedWhereClause) : ResolvedWhereClause where
  constraints := clause.constraints.map fun constraint =>
    { bounds := constraint.bounds.map (·.rename ρ) }

def ResolvedPatternBinding.rename (binding : ResolvedPatternBinding) : ResolvedPatternBinding where
  proxy := binding.proxy.rename ρ
  outer := binding.outer.map (·.rename ρ)

mutual
@[simp]
def renameNode : Resolved → Resolved
  | .applyPattern value pattern => .applyPattern (renameNode value) (renamePattern pattern)
  | .lit => .lit
  | .var id => .var (id.rename ρ)
  | .app func args => .app (renameNode func) (renameNodes args)
  | .lazyApp func args => .lazyApp (renameNode func) (renameNodes args)
  | .returnTypeArgumentApply target arguments =>
    .returnTypeArgumentApply (renameNode target) (arguments.map (·.rename ρ))
  | .block nodes => .block (renameNodes nodes)
  | .bind pattern rhs => .bind (renamePattern pattern) (renameNode rhs)
  | .safeBind pattern rhs => .safeBind (renamePattern pattern) (renameNode rhs)
  | .statementQuestion inner => .statementQuestion (renameNode inner)
  | .do contract arguments statements =>
    .do (contract.rename ρ) (arguments.map (·.rename ρ)) (renameStatements statements)
  | .binOp left right => .binOp (renameNode left) (renameNode right)
  | .pipe left right => .pipe (renameNode left) (renameNode right)
  | .contextMap left right => .contextMap (renameNode left) (renameNode right)
  | .contextApply left right => .contextApply (renameNode left) (renameNode right)
  | .contextBind left right => .contextBind (renameNode left) (renameNode right)
  | .compose left right => .compose (renameNode left) (renameNode right)
  | .liftedCompose left right => .liftedCompose (renameNode left) (renameNode right)
  | .kleisliCompose left right => .kleisliCompose (renameNode left) (renameNode right)
  | .listNil => .listNil
  | .listCons left right => .listCons (renameNode left) (renameNode right)
  | .listLiteral nodes => .listLiteral (renameNodes nodes)
  | .rangeLiteral start stop => .rangeLiteral (renameNode start) (renameNode stop)
  | .tupleLiteral nodes => .tupleLiteral (renameNodes nodes)
  | .grouped inner => .grouped (renameNode inner)
  | .cond clauses => .cond (renameNodePairs clauses)
  | .interpolatedStr parts => .interpolatedStr (renameParts parts)
  | .dbg nodes => .dbg (renameNodes nodes)
  | .if cond thenBranch elseBranch =>
    .if (renameNode cond) (renameNode thenBranch) (renameNode? elseBranch)
  | .cause value err => .cause (renameNode value) (renameNode err)
  | .errorKind id => .errorKind (id.rename ρ)
  | .match scrutinee arms => .match (renameNode scrutinee) (renameArms arms)
  | .isMatch scrutinee arms => .isMatch (renameNode scrutinee) (renameArms arms)
  | .ifLet scrutinee arms lazy => .ifLet (renameNode scrutinee) (renameArms arms) lazy
  | .assertErrorMatches input arm => .assertErrorMatches (renameNode input) (renameArm arm)
  | .fieldAccess inner field => .fieldAccess (renameNode inner) field
  | .facetSegmentAccess inner segment =>
    .facetSegmentAccess (renameNode inner) (renameSegment segment)
  | .inferredFacetCapture segments => .inferredFacetCapture (renameSegments segments)
  | .facetCapture inner => .facetCapture (renameNode inner)
  | .processContextHandler slot => .processContextHandler slot
  | .structLit id fields => .structLit (id.rename ρ) (renameNodes fields)
  | .constructorCall id args => .constructorCall (id.rename ρ) (renameNodes args)
  | .enumConstructorCall id args => .enumConstructorCall (id.rename ρ) (renameNodes args)
  | .enumErrorConstructorCall owner id args =>
    .enumErrorConstructorCall (owner.rename ρ) (id.rename ρ) (renameNodes args)
  | .structDef id fields => .structDef (id.rename ρ) (fields.map (·.rename ρ))
  | .recordDef id fields => .recordDef (id.rename ρ) (fields.map (·.rename ρ))
  | .deferrorDef id fields showExpr =>
    .deferrorDef (id.rename ρ) (fields.map (·.rename ρ)) (renameNode showExpr)
  | .enumDef id variants => .enumDef (id.rename ρ) (variants.map (·.rename ρ))
  | .def_ id returnTypeArguments params ret whereClause body =>
    .def_ (id.rename ρ) (returnTypeArguments.map (·.rename ρ)) (params.map (·.rename ρ))
      (ret.map (·.rename ρ)) (whereClause.map (·.rename ρ)) (renameNode body)
  | .constDef id value => .constDef (id.rename ρ) (renameNode value)
  | .extractorDef id params body =>
    .extractorDef (id.rename ρ) (params.map (·.rename ρ)) (renameNode body)
  | .traitDef id whereClause methods =>
    .traitDef (id.rename ρ) (whereClause.map (·.rename ρ)) (renameMethodSigs methods)
  | .traitImplDef declarationId id whereClause methods =>
    .traitImplDef (ρ declarationId) (id.rename ρ) (whereClause.map (·.rename ρ))
      (renameImplMethods methods)
  | .builtinDecl id returnTypeArguments params ret whereClause =>
    .builtinDecl (id.rename ρ) (returnTypeArguments.map (·.rename ρ)) (params.map (·.rename ρ))
      (ret.map (·.rename ρ)) (whereClause.map (·.rename ρ))
  | .builtinExtractorDecl id params =>
    .builtinExtractorDecl (id.rename ρ) (params.map (·.rename ρ))
  | .builtinTypeDecl id => .builtinTypeDecl (id.rename ρ)
  | .typeAlias name => .typeAlias name
  | .closure params captures body =>
    .closure (params.map (·.rename ρ)) (captures.map (·.rename ρ)) (renameNode body)
  | .extractorClosure params captures body =>
    .extractorClosure (params.map (·.rename ρ)) (captures.map (·.rename ρ)) (renameNode body)
  | .captureClosure params captures body =>
    .captureClosure (params.map (·.rename ρ)) (captures.map (·.rename ρ)) (renameNode body)
  | .capture target args => .capture (renameNode target) (renameNodes args)
  | .semi inner => .semi (renameNode inner)
  | .hashMapLiteral entries => .hashMapLiteral (renameNodePairs entries)

@[simp]
def renameNodes : List Resolved → List Resolved
  | [] => []
  | node :: nodes => renameNode node :: renameNodes nodes

@[simp]
def renameNode? : Option Resolved → Option Resolved
  | none => none
  | some node => some (renameNode node)

@[simp]
def renameNodePairs : List (Resolved × Resolved) → List (Resolved × Resolved)
  | [] => []
  | (first, second) :: pairs => (renameNode first, renameNode second) :: renameNodePairs pairs

@[simp]
def renameStatement : ResolvedDoStatement → ResolvedDoStatement
  | .extract pattern rhs => .extract (renamePattern pattern) (renameNode rhs)
  | .safeBind pattern rhs => .safeBind (renamePattern pattern) (renameNode rhs)
  | .statement rhs => .statement (renameNode rhs)

@[simp]
def renameStatements : List ResolvedDoStatement → List ResolvedDoStatement
  | [] => []
  | statement :: statements => renameStatement statement :: renameStatements statements

@[simp]
def renamePart : ResolvedInterpolatedPart → ResolvedInterpolatedPart
  | .text text => .text text
  | .expr expr => .expr (renameNode expr)

@[simp]
def renameParts : List ResolvedInterpolatedPart → List ResolvedInterpolatedPart
  | [] => []
  | part :: parts => renamePart part :: renameParts parts

@[simp]
def renameArm : ResolvedMatchArm → ResolvedMatchArm
  | .mk pattern guard body => .mk (renamePattern pattern) (renameNode? guard) (renameNode body)

@[simp]
def renameArms : List ResolvedMatchArm → List ResolvedMatchArm
  | [] => []
  | arm :: arms => renameArm arm :: renameArms arms

@[simp]
def renameSegment : ResolvedFacetPathSegment → ResolvedFacetPathSegment
  | .field name optional => .field name optional
  | .bracket expr display => .bracket (renameNode expr) display

@[simp]
def renameSegments : List ResolvedFacetPathSegment → List ResolvedFacetPathSegment
  | [] => []
  | segment :: segments => renameSegment segment :: renameSegments segments

@[simp]
def renameMethodSig : ResolvedTraitMethodSig → ResolvedTraitMethodSig
  | .mk id returnTypeArguments params ret whereClause body =>
    .mk (id.rename ρ) (returnTypeArguments.map (·.rename ρ)) (params.map (·.rename ρ))
      (ret.rename ρ) (whereClause.map (·.rename ρ)) (renameNode? body)

@[simp]
def renameMethodSigs : List ResolvedTraitMethodSig → List ResolvedTraitMethodSig
  | [] => []
  | method :: methods => renameMethodSig method :: renameMethodSigs methods

@[simp]
def renameImplMethod : ResolvedTraitImplMethod → ResolvedTraitImplMethod
  | .mk functionId returnTypeArguments params ret whereClause body =>
    .mk (functionId.rename ρ) (returnTypeArguments.map (·.rename ρ)) (params.map (·.rename ρ))
      (ret.map (·.rename ρ)) (whereClause.map (·.rename ρ)) (renameNode body)

@[simp]
def renameImplMethods : List ResolvedTraitImplMethod → List ResolvedTraitImplMethod
  | [] => []
  | method :: methods => renameImplMethod method :: renameImplMethods methods

@[simp]
def renameArgument : ResolvedPatternArgument → ResolvedPatternArgument
  | .mk expr pattern => .mk (renameNode? expr) (renamePattern? pattern)

@[simp]
def renameArguments : List ResolvedPatternArgument → List ResolvedPatternArgument
  | [] => []
  | argument :: arguments => renameArgument argument :: renameArguments arguments

@[simp]
def renamePattern : ResolvedPattern → ResolvedPattern
  | .located inner => .located (renamePattern inner)
  | .projection index id inner => .projection index (id.rename ρ) (renamePattern inner)
  | .deferred pattern bindings allowBindings =>
    .deferred (renamePattern pattern) (bindings.map (·.rename ρ)) allowBindings
  | .extractorApplication head args =>
    .extractorApplication (head.rename ρ) (renameArguments args)
  | .var id => .var (id.rename ρ)
  | .annotated id => .annotated (id.rename ρ)
  | .pin id => .pin (id.rename ρ)
  | .wildcard => .wildcard
  | .annotatedWildcard => .annotatedWildcard
  | .listNil => .listNil
  | .listCons head tail => .listCons (renamePattern head) (renamePattern tail)
  | .intLit value => .intLit value
  | .strLit value => .strLit value
  | .boolLit value => .boolLit value
  | .durationLit value => .durationLit value
  | .constructor id inners => .constructor (id.rename ρ) (renamePatterns inners)
  | .enumErrorOther candidates inners =>
    .enumErrorOther (candidates.map (·.rename ρ)) (renamePatterns inners)
  | .hashMap entries => .hashMap (renameEntries entries)
  | .record id fields => .record (id.rename ρ) (renamePatterns fields)
  | .extractor id preArgs inners =>
    .extractor (id.rename ρ) (renameNodes preArgs) (renamePatterns inners)
  | .tuple inners => .tuple (renamePatterns inners)
  | .or inners => .or (renamePatterns inners)
  | .as inner id => .as (renamePattern inner) (id.rename ρ)

@[simp]
def renamePatterns : List ResolvedPattern → List ResolvedPattern
  | [] => []
  | pattern :: patterns => renamePattern pattern :: renamePatterns patterns

@[simp]
def renamePattern? : Option ResolvedPattern → Option ResolvedPattern
  | none => none
  | some pattern => some (renamePattern pattern)

@[simp]
def renameEntries : List (Resolved × ResolvedPattern) → List (Resolved × ResolvedPattern)
  | [] => []
  | (key, child) :: entries => (renameNode key, renamePattern child) :: renameEntries entries
end

end

end Surtr.Sigil
