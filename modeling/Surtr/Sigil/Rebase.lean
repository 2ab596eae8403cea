import Surtr.Sigil.Resolved

/-!
# Rebasing local ids of a stage (`sigil/src/resolver/mod.rs`)

The occurrences of a tree record, next to each unique id, whether the traversal
reaches it.
-/

namespace Surtr.Sigil
open List

def u32Max : Nat := 4294967295

def saturatingAdd (a b : Nat) : Nat := min (a + b) u32Max

section
variable (base offset : Nat)

def rebaseUid (uid : Nat) : Nat :=
  if base ≤ uid then saturatingAdd uid offset else uid

def rebaseResolvedId (id : ResolvedId) : ResolvedId :=
  { id with uniqueId := rebaseUid base offset id.uniqueId }

def rebaseBound : ResolvedWhereConstraintRhs → ResolvedWhereConstraintRhs
  | .trait traitId => .trait (rebaseResolvedId base offset traitId)
  | .traitSlot traitId slotName slotOrdinal =>
    .traitSlot (rebaseResolvedId base offset traitId) slotName slotOrdinal
  | .typeConstructor => .typeConstructor

def rebaseWhereClause (clause : ResolvedWhereClause) : ResolvedWhereClause where
  constraints := clause.constraints.map fun constraint =>
    { bounds := constraint.bounds.map (rebaseBound base offset) }

def rebaseFields (fields : List ResolvedField) : List ResolvedField :=
  fields.map fun field => { field with id := field.id.map (rebaseResolvedId base offset) }

def rebaseValueParameters (params : List ResolvedValueParameter) : List ResolvedValueParameter :=
  params.map fun param => { param with id := rebaseResolvedId base offset param.id }

def rebaseIds (ids : List ResolvedId) : List ResolvedId :=
  ids.map (rebaseResolvedId base offset)

def rebaseBindings (bindings : List ResolvedPatternBinding) : List ResolvedPatternBinding :=
  bindings.map fun binding =>
    { proxy := rebaseResolvedId base offset binding.proxy
      outer := binding.outer.map (rebaseResolvedId base offset) }

mutual
@[simp]
def rebaseResolvedNode : Resolved → Resolved
  | .applyPattern value pattern =>
    .applyPattern (rebaseResolvedNode value) (rebasePattern pattern)
  | .lit => .lit
  | .listNil => .listNil
  | .var id => .var (rebaseResolvedId base offset id)
  | .errorKind id => .errorKind (rebaseResolvedId base offset id)
  | .app func args => .app (rebaseResolvedNode func) (rebaseNodes args)
  | .returnTypeArgumentApply target arguments =>
    .returnTypeArgumentApply (rebaseResolvedNode target) arguments
  | .block nodes => .block (rebaseNodes nodes)
  | .listLiteral nodes => .listLiteral (rebaseNodes nodes)
  | .tupleLiteral nodes => .tupleLiteral (rebaseNodes nodes)
  | .hashMapLiteral entries => .hashMapLiteral (rebaseNodePairs entries)
  | .rangeLiteral start stop => .rangeLiteral (rebaseResolvedNode start) (rebaseResolvedNode stop)
  | .bind pattern rhs => .bind (rebasePattern pattern) (rebaseResolvedNode rhs)
  | .safeBind pattern rhs => .safeBind (rebasePattern pattern) (rebaseResolvedNode rhs)
  | .do contract arguments statements => .do contract arguments (rebaseStatements statements)
  | .binOp left right => .binOp (rebaseResolvedNode left) (rebaseResolvedNode right)
  | .pipe left right => .pipe (rebaseResolvedNode left) (rebaseResolvedNode right)
  | .contextMap left right => .contextMap (rebaseResolvedNode left) (rebaseResolvedNode right)
  | .contextApply left right => .contextApply (rebaseResolvedNode left) (rebaseResolvedNode right)
  | .contextBind left right => .contextBind (rebaseResolvedNode left) (rebaseResolvedNode right)
  | .compose left right => .compose (rebaseResolvedNode left) (rebaseResolvedNode right)
  | .liftedCompose left right => .liftedCompose (rebaseResolvedNode left) (rebaseResolvedNode right)
  | .kleisliCompose left right =>
    .kleisliCompose (rebaseResolvedNode left) (rebaseResolvedNode right)
  | .listCons left right => .listCons (rebaseResolvedNode left) (rebaseResolvedNode right)
  | .grouped inner => .grouped (rebaseResolvedNode inner)
  | .fieldAccess inner field => .fieldAccess (rebaseResolvedNode inner) field
  -- the index or key expression of a bracket segment stays as it is
  | .facetSegmentAccess inner segment => .facetSegmentAccess (rebaseResolvedNode inner) segment
  | .facetCapture inner => .facetCapture (rebaseResolvedNode inner)
  | .statementQuestion inner => .statementQuestion (rebaseResolvedNode inner)
  | .semi inner => .semi (rebaseResolvedNode inner)
  | .inferredFacetCapture segments => .inferredFacetCapture segments
  | .processContextHandler slot => .processContextHandler slot
  | .dbg nodes => .dbg (rebaseNodes nodes)
  | .interpolatedStr parts => .interpolatedStr (rebaseParts parts)
  | .cond clauses => .cond (rebaseNodePairs clauses)
  | .if cond thenBranch elseBranch =>
    .if (rebaseResolvedNode cond) (rebaseResolvedNode thenBranch) (rebaseNode? elseBranch)
  | .lazyApp func args => .lazyApp (rebaseResolvedNode func) (rebaseNodes args)
  | .cause value err => .cause (rebaseResolvedNode value) (rebaseResolvedNode err)
  | .assertErrorMatches input arm =>
    .assertErrorMatches (rebaseResolvedNode input) (rebaseAssertedArm arm)
  | .match scrutinee arms => .match (rebaseResolvedNode scrutinee) (rebaseArms arms)
  | .isMatch scrutinee arms => .isMatch (rebaseResolvedNode scrutinee) (rebaseArms arms)
  | .ifLet scrutinee arms lazy => .ifLet (rebaseResolvedNode scrutinee) (rebaseArms arms) lazy
  | .structLit id fields => .structLit (rebaseResolvedId base offset id) (rebaseNodes fields)
  | .constructorCall id args =>
    .constructorCall (rebaseResolvedId base offset id) (rebaseNodes args)
  | .enumConstructorCall id args =>
    .enumConstructorCall (rebaseResolvedId base offset id) (rebaseNodes args)
  | .enumErrorConstructorCall owner id args =>
    .enumErrorConstructorCall owner (rebaseResolvedId base offset id) (rebaseNodes args)
  | .structDef id fields =>
    .structDef (rebaseResolvedId base offset id) (rebaseFields base offset fields)
  | .recordDef id fields =>
    .recordDef (rebaseResolvedId base offset id) (rebaseFields base offset fields)
  | .deferrorDef id fields showExpr =>
    .deferrorDef (rebaseResolvedId base offset id) (rebaseFields base offset fields)
      (rebaseResolvedNode showExpr)
  | .enumDef id variants =>
    .enumDef (rebaseResolvedId base offset id) (rebaseIds base offset variants)
  | .def_ id returnTypeArguments params ret whereClause body =>
    .def_ (rebaseResolvedId base offset id) returnTypeArguments
      (rebaseValueParameters base offset params) ret
      (whereClause.map (rebaseWhereClause base offset)) (rebaseResolvedNode body)
  | .constDef id value => .constDef (rebaseResolvedId base offset id) (rebaseResolvedNode value)
  | .extractorDef id params body =>
    .extractorDef (rebaseResolvedId base offset id) (rebaseIds base offset params)
      (rebaseResolvedNode body)
  | .traitDef id whereClause methods =>
    .traitDef (rebaseResolvedId base offset id) (whereClause.map (rebaseWhereClause base offset))
      (rebaseMethodSigs methods)
  | .traitImplDef declarationId id whereClause methods =>
    .traitImplDef (rebaseUid base offset declarationId) (rebaseResolvedId base offset id)
      (whereClause.map (rebaseWhereClause base offset)) (rebaseImplMethods methods)
  | .builtinDecl id returnTypeArguments params ret whereClause =>
    .builtinDecl (rebaseResolvedId base offset id) returnTypeArguments
      (rebaseValueParameters base offset params) ret
      (whereClause.map (rebaseWhereClause base offset))
  | .builtinExtractorDecl id params =>
    .builtinExtractorDecl (rebaseResolvedId base offset id) (rebaseIds base offset params)
  | .builtinTypeDecl id => .builtinTypeDecl (rebaseResolvedId base offset id)
  | .typeAlias name => .typeAlias name
  | .closure params captures body =>
    .closure (rebaseIds base offset params) (rebaseIds base offset captures)
      (rebaseResolvedNode body)
  | .extractorClosure params captures body =>
    .extractorClosure (rebaseIds base offset params) (rebaseIds base offset captures)
      (rebaseResolvedNode body)
  | .captureClosure params captures body =>
    .captureClosure (rebaseIds base offset params) (rebaseIds base offset captures)
      (rebaseResolvedNode body)
  | .capture target args => .capture (rebaseResolvedNode target) (rebaseNodes args)

@[simp]
def rebaseNodes : List Resolved → List Resolved
  | [] => []
  | node :: nodes => rebaseResolvedNode node :: rebaseNodes nodes

@[simp]
def rebaseNode? : Option Resolved → Option Resolved
  | none => none
  | some node => some (rebaseResolvedNode node)

@[simp]
def rebaseNodePairs : List (Resolved × Resolved) → List (Resolved × Resolved)
  | [] => []
  | (first, second) :: pairs =>
    (rebaseResolvedNode first, rebaseResolvedNode second) :: rebaseNodePairs pairs

@[simp]
def rebaseStatement : ResolvedDoStatement → ResolvedDoStatement
  | .extract pattern rhs => .extract (rebasePattern pattern) (rebaseResolvedNode rhs)
  | .safeBind pattern rhs => .safeBind (rebasePattern pattern) (rebaseResolvedNode rhs)
  | .statement rhs => .statement (rebaseResolvedNode rhs)

@[simp]
def rebaseStatements : List ResolvedDoStatement → List ResolvedDoStatement
  | [] => []
  | statement :: statements => rebaseStatement statement :: rebaseStatements statements

@[simp]
def rebasePart : ResolvedInterpolatedPart → ResolvedInterpolatedPart
  | .text text => .text text
  | .expr expr => .expr (rebaseResolvedNode expr)

@[simp]
def rebaseParts : List ResolvedInterpolatedPart → List ResolvedInterpolatedPart
  | [] => []
  | part :: parts => rebasePart part :: rebaseParts parts

@[simp]
def rebaseArm : ResolvedMatchArm → ResolvedMatchArm
  | .mk pattern guard body =>
    .mk (rebasePattern pattern) (rebaseNode? guard) (rebaseResolvedNode body)

@[simp]
def rebaseArms : List ResolvedMatchArm → List ResolvedMatchArm
  | [] => []
  | arm :: arms => rebaseArm arm :: rebaseArms arms

-- an asserted arm's guard is not visited
@[simp]
def rebaseAssertedArm : ResolvedMatchArm → ResolvedMatchArm
  | .mk pattern guard body => .mk (rebasePattern pattern) guard (rebaseResolvedNode body)

@[simp]
def rebaseMethodSig : ResolvedTraitMethodSig → ResolvedTraitMethodSig
  | .mk id returnTypeArguments params ret whereClause body =>
    .mk (rebaseResolvedId base offset id) returnTypeArguments
      (rebaseValueParameters base offset params) ret
      (whereClause.map (rebaseWhereClause base offset)) (rebaseNode? body)

@[simp]
def rebaseMethodSigs : List ResolvedTraitMethodSig → List ResolvedTraitMethodSig
  | [] => []
  | method :: methods => rebaseMethodSig method :: rebaseMethodSigs methods

@[simp]
def rebaseImplMethod : ResolvedTraitImplMethod → ResolvedTraitImplMethod
  | .mk functionId returnTypeArguments params ret whereClause body =>
    .mk (rebaseResolvedId base offset functionId) returnTypeArguments
      (rebaseValueParameters base offset params) ret
      (whereClause.map (rebaseWhereClause base offset)) (rebaseResolvedNode body)

@[simp]
def rebaseImplMethods : List ResolvedTraitImplMethod → List ResolvedTraitImplMethod
  | [] => []
  | method :: methods => rebaseImplMethod method :: rebaseImplMethods methods

@[simp]
def rebaseArgument : ResolvedPatternArgument → ResolvedPatternArgument
  | .mk expr pattern => .mk (rebaseNode? expr) (rebasePattern? pattern)

@[simp]
def rebaseArguments : List ResolvedPatternArgument → List ResolvedPatternArgument
  | [] => []
  | argument :: arguments => rebaseArgument argument :: rebaseArguments arguments

@[simp]
def rebasePattern : ResolvedPattern → ResolvedPattern
  | .located inner => .located (rebasePattern inner)
  | .projection index id inner =>
    .projection index (rebaseResolvedId base offset id) (rebasePattern inner)
  | .deferred pattern bindings allowBindings =>
    .deferred (rebasePattern pattern) (rebaseBindings base offset bindings) allowBindings
  | .extractorApplication head args =>
    .extractorApplication (rebaseResolvedId base offset head) (rebaseArguments args)
  | .var id => .var (rebaseResolvedId base offset id)
  | .annotated id => .annotated (rebaseResolvedId base offset id)
  | .pin id => .pin (rebaseResolvedId base offset id)
  | .wildcard => .wildcard
  | .annotatedWildcard => .annotatedWildcard
  | .listNil => .listNil
  | .intLit value => .intLit value
  | .strLit value => .strLit value
  | .boolLit value => .boolLit value
  | .durationLit value => .durationLit value
  | .listCons head tail => .listCons (rebasePattern head) (rebasePattern tail)
  | .extractor id preArgs inners =>
    .extractor (rebaseResolvedId base offset id) (rebaseNodes preArgs) (rebasePatterns inners)
  | .enumErrorOther candidates inners =>
    .enumErrorOther (rebaseIds base offset candidates) (rebasePatterns inners)
  | .constructor id inners => .constructor (rebaseResolvedId base offset id) (rebasePatterns inners)
  | .hashMap entries => .hashMap (rebaseEntries entries)
  | .record id fields => .record (rebaseResolvedId base offset id) (rebasePatterns fields)
  | .tuple inners => .tuple (rebasePatterns inners)
  | .or inners => .or (rebasePatterns inners)
  | .as inner id => .as (rebasePattern inner) (rebaseResolvedId base offset id)

@[simp]
def rebasePatterns : List ResolvedPattern → List ResolvedPattern
  | [] => []
  | pattern :: patterns => rebasePattern pattern :: rebasePatterns patterns

@[simp]
def rebasePattern? : Option ResolvedPattern → Option ResolvedPattern
  | none => none
  | some pattern => some (rebasePattern pattern)

@[simp]
def rebaseEntries : List (Resolved × ResolvedPattern) → List (Resolved × ResolvedPattern)
  | [] => []
  | (key, child) :: entries =>
    (rebaseResolvedNode key, rebasePattern child) :: rebaseEntries entries
end

/-- `rebase_resolved_nodes`: an offset of zero leaves the nodes alone. -/
def rebaseResolvedNodes (nodes : List Resolved) : List Resolved :=
  if offset = 0 then nodes else rebaseNodes base offset nodes

end

/-! ## Occurrences -/

structure Occurrence where
  uniqueId : Nat
  rebased : Bool
deriving DecidableEq, Repr

def Occurrence.skip (occurrence : Occurrence) : Occurrence :=
  { occurrence with rebased := false }

def Occurrence.Agrees (shift ρ : Nat → Nat) (occurrence : Occurrence) : Prop :=
  (if occurrence.rebased then shift occurrence.uniqueId else occurrence.uniqueId) =
    ρ occurrence.uniqueId

def reached (ids : List ResolvedId) : List Occurrence :=
  ids.map fun id => ⟨id.uniqueId, true⟩

def skipped (ids : List ResolvedId) : List Occurrence :=
  ids.map fun id => ⟨id.uniqueId, false⟩

def ResolvedSignatureTy.ids (ty : ResolvedSignatureTy) : List ResolvedId :=
  ty.directConstructorTrait.toList

def ResolvedDoContract.ids (contract : ResolvedDoContract) : List ResolvedId :=
  contract.monadFailTrait.toList ++ contract.monadTrait.toList ++ contract.alternativeTrait.toList

def ResolvedWhereConstraintRhs.ids : ResolvedWhereConstraintRhs → List ResolvedId
  | .trait traitId => [traitId]
  | .typeConstructor => []
  | .traitSlot traitId _ _ => [traitId]

def ResolvedWhereClause.ids (clause : ResolvedWhereClause) : List ResolvedId :=
  clause.constraints.flatMap fun constraint => constraint.bounds.flatMap (·.ids)

def ResolvedPatternBinding.ids (binding : ResolvedPatternBinding) : List ResolvedId :=
  binding.proxy :: binding.outer.toList

def argumentIds (arguments : List ResolvedReturnTypeArgument) : List ResolvedId :=
  arguments.flatMap (·.ty.ids)

def fieldIds (fields : List ResolvedField) : List ResolvedId :=
  fields.flatMap (·.id.toList)

def whereIds (clause : Option ResolvedWhereClause) : List ResolvedId :=
  clause.toList.flatMap (·.ids)

/-- Of a callable's head its own id, parameters and where clause are reached, its
type arguments and the types of its signature are not. -/
def signatureOccurrences (id : ResolvedId) (returnTypeArguments : List ResolvedReturnTypeArgument)
    (params : List ResolvedValueParameter) (ret : Option ResolvedSignatureTy)
    (whereClause : Option ResolvedWhereClause) : List Occurrence :=
  reached [id] ++ skipped (argumentIds returnTypeArguments) ++ reached (params.map (·.id)) ++
    skipped (params.flatMap (·.ty.ids)) ++ skipped (ret.toList.flatMap (·.ids)) ++
    reached (whereIds whereClause)

mutual
@[simp]
def occurrences : Resolved → List Occurrence
  | .lit | .listNil | .processContextHandler _ | .typeAlias _ => []
  | .var id | .errorKind id | .builtinTypeDecl id => reached [id]
  | .grouped inner | .fieldAccess inner _ | .facetCapture inner | .statementQuestion inner
  | .semi inner => occurrences inner
  | .binOp left right | .pipe left right | .contextMap left right | .contextApply left right
  | .contextBind left right | .compose left right | .liftedCompose left right
  | .kleisliCompose left right | .listCons left right | .rangeLiteral left right
  | .cause left right => occurrences left ++ occurrences right
  | .block nodes | .listLiteral nodes | .tupleLiteral nodes | .dbg nodes => nodesOccurrences nodes
  | .app func args | .lazyApp func args | .capture func args =>
    occurrences func ++ nodesOccurrences args
  | .structLit id args | .constructorCall id args | .enumConstructorCall id args =>
    reached [id] ++ nodesOccurrences args
  | .enumErrorConstructorCall owner id args =>
    skipped [owner] ++ reached [id] ++ nodesOccurrences args
  | .cond pairs | .hashMapLiteral pairs => nodePairsOccurrences pairs
  | .if cond thenBranch elseBranch =>
    occurrences cond ++ occurrences thenBranch ++ node?Occurrences elseBranch
  | .interpolatedStr parts => partsOccurrences parts
  | .applyPattern value pattern => occurrences value ++ patternOccurrences pattern
  | .bind pattern rhs | .safeBind pattern rhs => patternOccurrences pattern ++ occurrences rhs
  | .match scrutinee arms | .isMatch scrutinee arms | .ifLet scrutinee arms _ =>
    occurrences scrutinee ++ armsOccurrences arms
  | .assertErrorMatches input arm => occurrences input ++ assertedArmOccurrences arm
  | .returnTypeArgumentApply target arguments =>
    occurrences target ++ skipped (argumentIds arguments)
  | .do contract arguments statements =>
    skipped contract.ids ++ skipped (argumentIds arguments) ++ statementsOccurrences statements
  | .facetSegmentAccess inner segment =>
    occurrences inner ++ (segmentOccurrences segment).map Occurrence.skip
  | .inferredFacetCapture segments => (segmentsOccurrences segments).map Occurrence.skip
  | .closure params captures body | .extractorClosure params captures body
  | .captureClosure params captures body => reached params ++ reached captures ++ occurrences body
  | .structDef id fields | .recordDef id fields => reached [id] ++ reached (fieldIds fields)
  | .deferrorDef id fields showExpr =>
    reached [id] ++ reached (fieldIds fields) ++ occurrences showExpr
  | .enumDef id ids | .builtinExtractorDecl id ids => reached [id] ++ reached ids
  | .extractorDef id params body => reached [id] ++ reached params ++ occurrences body
  | .constDef id value => reached [id] ++ occurrences value
  | .def_ id returnTypeArguments params ret whereClause body =>
    signatureOccurrences id returnTypeArguments params ret whereClause ++ occurrences body
  | .builtinDecl id returnTypeArguments params ret whereClause =>
    signatureOccurrences id returnTypeArguments params ret whereClause
  | .traitDef id whereClause methods =>
    reached [id] ++ reached (whereIds whereClause) ++ methodSigsOccurrences methods
  | .traitImplDef declarationId id whereClause methods =>
    [⟨declarationId, true⟩] ++ reached [id] ++ reached (whereIds whereClause) ++
      implMethodsOccurrences methods

@[simp]
def nodesOccurrences : List Resolved → List Occurrence
  | [] => []
  | node :: nodes => occurrences node ++ nodesOccurrences nodes

@[simp]
def node?Occurrences : Option Resolved → List Occurrence
  | none => []
  | some node => occurrences node

@[simp]
def nodePairsOccurrences : List (Resolved × Resolved) → List Occurrence
  | [] => []
  | (first, second) :: pairs =>
    occurrences first ++ occurrences second ++ nodePairsOccurrences pairs

@[simp]
def statementOccurrences : ResolvedDoStatement → List Occurrence
  | .extract pattern rhs | .safeBind pattern rhs =>
    patternOccurrences pattern ++ occurrences rhs
  | .statement rhs => occurrences rhs

@[simp]
def statementsOccurrences : List ResolvedDoStatement → List Occurrence
  | [] => []
  | statement :: statements => statementOccurrences statement ++ statementsOccurrences statements

@[simp]
def partOccurrences : ResolvedInterpolatedPart → List Occurrence
  | .text _ => []
  | .expr expr => occurrences expr

@[simp]
def partsOccurrences : List ResolvedInterpolatedPart → List Occurrence
  | [] => []
  | part :: parts => partOccurrences part ++ partsOccurrences parts

@[simp]
def armOccurrences : ResolvedMatchArm → List Occurrence
  | .mk pattern guard body =>
    patternOccurrences pattern ++ node?Occurrences guard ++ occurrences body

@[simp]
def armsOccurrences : List ResolvedMatchArm → List Occurrence
  | [] => []
  | arm :: arms => armOccurrences arm ++ armsOccurrences arms

@[simp]
def assertedArmOccurrences : ResolvedMatchArm → List Occurrence
  | .mk pattern guard body =>
    patternOccurrences pattern ++ (node?Occurrences guard).map Occurrence.skip ++ occurrences body

@[simp]
def segmentOccurrences : ResolvedFacetPathSegment → List Occurrence
  | .field _ _ => []
  | .bracket expr _ => occurrences expr

@[simp]
def segmentsOccurrences : List ResolvedFacetPathSegment → List Occurrence
  | [] => []
  | segment :: segments => segmentOccurrences segment ++ segmentsOccurrences segments

@[simp]
def methodSigOccurrences : ResolvedTraitMethodSig → List Occurrence
  | .mk id returnTypeArguments params ret whereClause body =>
    signatureOccurrences id returnTypeArguments params (some ret) whereClause ++
      node?Occurrences body

@[simp]
def methodSigsOccurrences : List ResolvedTraitMethodSig → List Occurrence
  | [] => []
  | method :: methods => methodSigOccurrences method ++ methodSigsOccurrences methods

@[simp]
def implMethodOccurrences : ResolvedTraitImplMethod → List Occurrence
  | .mk functionId returnTypeArguments params ret whereClause body =>
    signatureOccurrences functionId returnTypeArguments params ret whereClause ++ occurrences body

@[simp]
def implMethodsOccurrences : List ResolvedTraitImplMethod → List Occurrence
  | [] => []
  | method :: methods => implMethodOccurrences method ++ implMethodsOccurrences methods

@[simp]
def argumentOccurrences : ResolvedPatternArgument → List Occurrence
  | .mk expr pattern => node?Occurrences expr ++ pattern?Occurrences pattern

@[simp]
def argumentsOccurrences : List ResolvedPatternArgument → List Occurrence
  | [] => []
  | argument :: arguments => argumentOccurrences argument ++ argumentsOccurrences arguments

@[simp]
def patternOccurrences : ResolvedPattern → List Occurrence
  | .wildcard | .annotatedWildcard | .listNil | .intLit _ | .strLit _ | .boolLit _
  | .durationLit _ => []
  | .var id | .annotated id | .pin id => reached [id]
  | .located inner => patternOccurrences inner
  | .projection _ id inner => reached [id] ++ patternOccurrences inner
  | .as inner id => patternOccurrences inner ++ reached [id]
  | .deferred pattern bindings _ =>
    patternOccurrences pattern ++ reached (bindings.flatMap (·.ids))
  | .listCons head tail => patternOccurrences head ++ patternOccurrences tail
  | .tuple inners | .or inners => patternsOccurrences inners
  | .constructor id inners | .record id inners => reached [id] ++ patternsOccurrences inners
  | .enumErrorOther candidates inners => reached candidates ++ patternsOccurrences inners
  | .extractor id preArgs inners =>
    reached [id] ++ nodesOccurrences preArgs ++ patternsOccurrences inners
  | .extractorApplication head args => reached [head] ++ argumentsOccurrences args
  | .hashMap entries => entriesOccurrences entries

@[simp]
def patternsOccurrences : List ResolvedPattern → List Occurrence
  | [] => []
  | pattern :: patterns => patternOccurrences pattern ++ patternsOccurrences patterns

@[simp]
def pattern?Occurrences : Option ResolvedPattern → List Occurrence
  | none => []
  | some pattern => patternOccurrences pattern

@[simp]
def entriesOccurrences : List (Resolved × ResolvedPattern) → List Occurrence
  | [] => []
  | (key, child) :: entries =>
    occurrences key ++ patternOccurrences child ++ entriesOccurrences entries
end

/-! ## Where the traversal is a renaming -/

def AllAgree (shift ρ : Nat → Nat) (os : List Occurrence) : Prop :=
  ∀ o ∈ os, o.Agrees shift ρ

def Sends (shift ρ : Nat → Nat) (ids : List ResolvedId) : Prop :=
  ∀ id ∈ ids, shift id.uniqueId = ρ id.uniqueId

section
variable {shift ρ : Nat → Nat}

@[simp]
theorem sends_nil : Sends shift ρ [] := by
  simp [Sends]

@[simp]
theorem sends_cons (x : ResolvedId) (ids : List ResolvedId) :
    Sends shift ρ (x :: ids) ↔ shift x.uniqueId = ρ x.uniqueId ∧ Sends shift ρ ids := by
  simp [Sends]

@[simp]
theorem sends_append (ids more : List ResolvedId) :
    Sends shift ρ (ids ++ more) ↔ Sends shift ρ ids ∧ Sends shift ρ more := by
  simp [Sends, or_imp, forall_and]

@[simp]
theorem allAgree_nil : AllAgree shift ρ [] := by
  simp [AllAgree]

@[simp]
theorem allAgree_cons (o : Occurrence) (os : List Occurrence) :
    AllAgree shift ρ (o :: os) ↔ o.Agrees shift ρ ∧ AllAgree shift ρ os := by
  simp [AllAgree]

@[simp]
theorem allAgree_append (os more : List Occurrence) :
    AllAgree shift ρ (os ++ more) ↔ AllAgree shift ρ os ∧ AllAgree shift ρ more := by
  simp [AllAgree, or_imp, forall_and]

@[simp]
theorem allAgree_reached (ids : List ResolvedId) :
    AllAgree shift ρ (reached ids) ↔ Sends shift ρ ids := by
  simp [AllAgree, reached, Occurrence.Agrees, Sends]

@[simp]
theorem allAgree_skipped (ids : List ResolvedId) :
    AllAgree shift ρ (skipped ids) ↔ Sends id ρ ids := by
  simp [AllAgree, skipped, Occurrence.Agrees, Sends]

@[simp]
theorem allAgree_skip (os : List Occurrence) :
    AllAgree shift ρ (os.map Occurrence.skip) ↔ AllAgree id ρ os := by
  simp [AllAgree, Occurrence.Agrees, Occurrence.skip]

theorem map_eq_map_iff {α : Type} {f g : α → α} {ids : α → List ResolvedId}
    (h : ∀ a, f a = g a ↔ Sends shift ρ (ids a)) (as : List α) :
    as.map f = as.map g ↔ Sends shift ρ (as.flatMap ids) := by
  induction as with
  | nil => simp [sends_nil]
  | cons a as ih =>
    rw [map_cons, map_cons, List.cons.injEq, h a, ih, flatMap_cons, sends_append]

theorem eq_map_iff {α : Type} {g : α → α} {ids : α → List ResolvedId}
    (h : ∀ a, a = g a ↔ Sends id ρ (ids a)) (as : List α) :
    as = as.map g ↔ Sends id ρ (as.flatMap ids) := by
  simpa using map_eq_map_iff (f := id) h as

@[simp]
theorem allAgree_signature (x : ResolvedId) (arguments : List ResolvedReturnTypeArgument)
    (params : List ResolvedValueParameter) (ret : Option ResolvedSignatureTy)
    (clause : Option ResolvedWhereClause) :
    AllAgree shift ρ (signatureOccurrences x arguments params ret clause) ↔
      Sends shift ρ [x] ∧ Sends id ρ (argumentIds arguments) ∧
        (Sends shift ρ (params.map (·.id)) ∧ Sends id ρ (params.flatMap (·.ty.ids))) ∧
        Sends id ρ (ret.toList.flatMap (·.ids)) ∧ Sends shift ρ (whereIds clause) := by
  simp [signatureOccurrences, and_assoc]

@[simp]
theorem id_eq_rename_iff (x : ResolvedId) : x = x.rename ρ ↔ id x.uniqueId = ρ x.uniqueId := by
  cases x
  simp [ResolvedId.rename]

@[simp]
theorem id?_eq_rename_iff (x : Option ResolvedId) :
    x = x.map (·.rename ρ) ↔ Sends id ρ x.toList := by
  cases x <;> simp

@[simp]
theorem signatureTy_eq_rename_iff (ty : ResolvedSignatureTy) :
    ty = ty.rename ρ ↔ Sends id ρ ty.ids := by
  cases ty
  simp [ResolvedSignatureTy.rename, ResolvedSignatureTy.ids]

@[simp]
theorem doContract_eq_rename_iff (contract : ResolvedDoContract) :
    contract = contract.rename ρ ↔ Sends id ρ contract.ids := by
  cases contract
  simp [ResolvedDoContract.rename, ResolvedDoContract.ids]

@[simp]
theorem arguments_eq_rename_iff (arguments : List ResolvedReturnTypeArgument) :
    arguments = arguments.map (·.rename ρ) ↔ Sends id ρ (argumentIds arguments) := by
  apply eq_map_iff
  rintro ⟨ordinal, ty⟩
  simp [ResolvedReturnTypeArgument.rename]

@[simp]
theorem ret_eq_rename_iff (ret : Option ResolvedSignatureTy) :
    ret = ret.map (·.rename ρ) ↔ Sends id ρ (ret.toList.flatMap (·.ids)) := by
  cases ret <;> simp

/-! The parts of a node that the traversal reaches in some places. -/

section Parts
variable (base offset : Nat)

abbrev Sent (ρ : Nat → Nat) {α : Type} (rebase rename : α → α) (ids : α → List ResolvedId)
    (a : α) : Prop :=
  (a = rename a ↔ Sends id ρ (ids a)) ∧
    (rebase a = rename a ↔ Sends (rebaseUid base offset) ρ (ids a))

theorem Sent.map {α : Type} {f g : α → α} {ids : α → List ResolvedId}
    (h : ∀ a, Sent base offset ρ f g ids a) (as : List α) :
    Sent base offset ρ (List.map f) (List.map g) (flatMap ids) as :=
  ⟨eq_map_iff (fun a => (h a).1) as, map_eq_map_iff (fun a => (h a).2) as⟩

@[simp]
theorem rebaseId_eq_rename_iff (x : ResolvedId) : rebaseResolvedId base offset x = x.rename ρ ↔
    rebaseUid base offset x.uniqueId = ρ x.uniqueId := by
  simp [rebaseResolvedId, ResolvedId.rename]

@[simp]
theorem rebaseId?_eq_rename_iff (x : Option ResolvedId) :
    x.map (rebaseResolvedId base offset) = x.map (·.rename ρ) ↔
      Sends (rebaseUid base offset) ρ x.toList := by
  cases x <;> simp

theorem ids_sent (xs : List ResolvedId) :
    Sent base offset ρ (rebaseIds base offset) (·.map (·.rename ρ)) (fun xs => xs) xs := by
  induction xs with
  | nil => simp [Sent, rebaseIds]
  | cons x xs ih => simp_all [Sent, rebaseIds]

-- the ids of the parameters and of their types are looked at apart, as the
-- traversal reaches only the former
theorem params_sent (params : List ResolvedValueParameter) : (params = params.map (·.rename ρ) ↔
      Sends id ρ (params.map (·.id)) ∧ Sends id ρ (params.flatMap (·.ty.ids))) ∧
    (rebaseValueParameters base offset params = params.map (·.rename ρ) ↔
      Sends (rebaseUid base offset) ρ (params.map (·.id)) ∧
        Sends id ρ (params.flatMap (·.ty.ids))) := by
  induction params with
  | nil => simp [rebaseValueParameters]
  | cons param params ih =>
    have hparam : param.rename ρ = ⟨param.id.rename ρ, param.ty.rename ρ⟩ := rfl
    obtain ⟨x, ty⟩ := param
    unfold rebaseValueParameters at ih ⊢
    simp [hparam, ih, and_assoc, and_left_comm]

theorem bound_sent (bound : ResolvedWhereConstraintRhs) :
    Sent base offset ρ (rebaseBound base offset) (·.rename ρ) (·.ids) bound := by
  cases bound <;>
    simp [rebaseBound, ResolvedWhereConstraintRhs.rename, ResolvedWhereConstraintRhs.ids, Sent]

theorem whereClause_sent (clause : ResolvedWhereClause) :
    Sent base offset ρ (rebaseWhereClause base offset) (·.rename ρ) (·.ids) clause := by
  obtain ⟨constraints⟩ := clause
  simp only [Sent, rebaseWhereClause, ResolvedWhereClause.rename, ResolvedWhereClause.mk.injEq]
  apply Sent.map
  rintro ⟨bounds⟩
  simp only [Sent, ResolvedWhereConstraint.mk.injEq]
  exact Sent.map _ _ (bound_sent base offset) bounds

theorem where_sent (clause : Option ResolvedWhereClause) :
    Sent base offset ρ (·.map (rebaseWhereClause base offset)) (·.map (·.rename ρ)) whereIds
      clause := by
  cases clause with
  | none => simp [whereIds, Sent]
  | some clause => simpa [whereIds, Sent] using whereClause_sent base offset clause

theorem fields_sent (fields : List ResolvedField) :
    Sent base offset ρ (rebaseFields base offset) (·.map (·.rename ρ)) fieldIds fields := by
  apply Sent.map
  rintro ⟨x, name⟩
  simp [ResolvedField.rename, Sent]

theorem bindings_sent (bindings : List ResolvedPatternBinding) :
    Sent base offset ρ (rebaseBindings base offset) (·.map (·.rename ρ)) (·.flatMap (·.ids))
      bindings := by
  apply Sent.map
  rintro ⟨proxy, outer⟩
  simp [ResolvedPatternBinding.rename, ResolvedPatternBinding.ids, Sent]

end Parts

/-- The traversal is the renaming `ρ` where the occurrences agree with it. -/
def Traversed (base offset : Nat) (ρ : Nat → Nat) {α : Type} (rebase rename : α → α)
    (occurrences : α → List Occurrence) (a : α) : Prop :=
  (a = rename a ↔ AllAgree id ρ (occurrences a)) ∧
    (rebase a = rename a ↔ AllAgree (rebaseUid base offset) ρ (occurrences a))

-- Induction along `renameNodes`, with one predicate for each kind of tree. Facet
-- segments are never reached, and an arm is also met where its guard is skipped.
theorem rebaseNodes_traversed (base offset : Nat) : ∀ nodes : List Resolved,
    Traversed base offset ρ (rebaseNodes base offset) (renameNodes ρ) nodesOccurrences nodes := by
  apply renameNodes.induct
    (Traversed base offset ρ (rebaseResolvedNode base offset) (renameNode ρ) occurrences)
    (Traversed base offset ρ (rebaseImplMethods base offset) (renameImplMethods ρ)
      implMethodsOccurrences)
    (Traversed base offset ρ (rebaseImplMethod base offset) (renameImplMethod ρ)
      implMethodOccurrences)
    (Traversed base offset ρ (rebaseMethodSigs base offset) (renameMethodSigs ρ)
      methodSigsOccurrences)
    (Traversed base offset ρ (rebaseMethodSig base offset) (renameMethodSig ρ) methodSigOccurrences)
    (Traversed base offset ρ (rebaseNode? base offset) (renameNode? ρ) node?Occurrences)
    (fun segments => segments = renameSegments ρ segments ↔
      AllAgree id ρ (segmentsOccurrences segments))
    (fun segment => segment = renameSegment ρ segment ↔ AllAgree id ρ (segmentOccurrences segment))
    (fun arm => Traversed base offset ρ (rebaseArm base offset) (renameArm ρ) armOccurrences arm ∧
      (AllAgree id ρ (assertedArmOccurrences arm) ↔ AllAgree id ρ (armOccurrences arm)) ∧
      (rebaseAssertedArm base offset arm = renameArm ρ arm ↔
        AllAgree (rebaseUid base offset) ρ (assertedArmOccurrences arm)))
    (Traversed base offset ρ (rebasePattern base offset) (renamePattern ρ) patternOccurrences)
    (Traversed base offset ρ (rebaseNodes base offset) (renameNodes ρ) nodesOccurrences)
    (Traversed base offset ρ (rebaseEntries base offset) (renameEntries ρ) entriesOccurrences)
    (Traversed base offset ρ (rebasePatterns base offset) (renamePatterns ρ) patternsOccurrences)
    (Traversed base offset ρ (rebaseArguments base offset) (renameArguments ρ) argumentsOccurrences)
    (Traversed base offset ρ (rebaseArgument base offset) (renameArgument ρ) argumentOccurrences)
    (Traversed base offset ρ (rebasePattern? base offset) (renamePattern? ρ) pattern?Occurrences)
    (Traversed base offset ρ (rebaseArms base offset) (renameArms ρ) armsOccurrences)
    (Traversed base offset ρ (rebaseParts base offset) (renameParts ρ) partsOccurrences)
    (Traversed base offset ρ (rebasePart base offset) (renamePart ρ) partOccurrences)
    (Traversed base offset ρ (rebaseNodePairs base offset) (renameNodePairs ρ) nodePairsOccurrences)
    (Traversed base offset ρ (rebaseStatements base offset) (renameStatements ρ)
      statementsOccurrences)
    (Traversed base offset ρ (rebaseStatement base offset) (renameStatement ρ) statementOccurrences)
  -- A tree is renamed where its own ids and each of its parts are.
  all_goals
    intros
    simp_all [Traversed, Occurrence.Agrees, ids_sent base offset, params_sent base offset,
      where_sent base offset, fields_sent base offset, bindings_sent base offset, and_assoc]

end

end Surtr.Sigil
