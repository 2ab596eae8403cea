import Surtr.Sindr.Bytecode

/-!
# Runtime values (`sindr/src/runtime.rs`)

Lists stand for `ListHandle`, whose representation no instruction can observe. The
stack trace of a `RichError`, which only reports print, is left out.
-/

namespace Surtr.Sindr

structure Location where
  file : String
  func : String
  line : Nat
  column : Nat
  spanStart : Nat
  spanEnd : Nat
  deriving DecidableEq

inductive RuntimeErrorDiagnostic where
  | literalPatternMismatch (lhs rhs : String)
  | safeBindPatternFailure (rule : String) (inputSource : Option String)
  deriving DecidableEq

inductive PidKind where
  | singleton | worker | handler
  deriving DecidableEq

structure PidHandle where
  id : Nat
  processName : String
  kind : PidKind
  deriving DecidableEq

inductive CallableTarget where
  | builtin (id : Nat)
  | function (funIdx : Nat)
  | template (templateId : Nat)
  deriving DecidableEq

structure CallableMetadata where
  origin : CallableOrigin := .unknown
  moduleName : Option String := none
  name : Option String := none
  fullSignature : Option String := none
  originSource : Option Nat := none
  delegateFunction : Option Nat := none
  deriving DecidableEq

mutual
inductive Value where
  | int (n : Int)
  | tag (tag : Nat)
  | float (x : F64)
  | str (s : String)
  | bool (b : Bool)
  | unit
  | list (items : List Value)
  | hashMap (entries : List (String × Value))
  | tuple (items : List Value)
  | tagged (tag : Nat) (fields : List Value)
  | callable (c : Callable)
  | error (e : RichError)
  | errorKind (kind : String)
  | regex (pattern : String)
  | regexCaptures (input : String) (groups : List (Option (Nat × Nat)))
      (nameToIndex : List (String × Nat))
  | regexMatch (input : String) (start stop : Nat)
  | randomGenerator (state : Nat)
  | generator (producer : GeneratorProducer)
  | infiniteGenerator (state : Value) (step : Callable)
  | pid (handle : PidHandle)
  | fileHandle (id : Nat)
  | workers (id : Nat) (processName : String)
  | workerLease (workersId : Nat) (pid : PidHandle)
  | taskHandle (id : Nat)
  | pendingFuture (id : Nat)

inductive Callable where
  | mk (target : CallableTarget) (lexicalCaptures : List Value) (metadata : CallableMetadata)

inductive RichError where
  | mk (kind message : String) (payload : List Value) (location : Location)
      (cause : Option RichError) (diagnostic : Option RuntimeErrorDiagnostic)

inductive GeneratorProducer where
  | unfold (state : Value) (step : Callable)
  | range (current stop step : Int)
  | rangeChar (current stop step : Int)
  | terminal
end

namespace Callable

def target : Callable → CallableTarget
  | mk target _ _ => target

def lexicalCaptures : Callable → List Value
  | mk _ captures _ => captures

def metadata : Callable → CallableMetadata
  | mk _ _ metadata => metadata

end Callable

namespace RichError

def kind : RichError → String
  | mk kind _ _ _ _ _ => kind

def payload : RichError → List Value
  | mk _ _ payload _ _ _ => payload

def withDiagnostic (diagnostic : RuntimeErrorDiagnostic) : RichError → RichError
  | mk kind message payload location cause _ =>
    mk kind message payload location cause (some diagnostic)

def withLocation (location : Location) : RichError → RichError
  | mk kind message payload _ cause diagnostic =>
    mk kind message payload location cause diagnostic

end RichError

/-! ### The canonical `MatchResult` variants (`sindr/src/builtin.rs`) -/

structure MatchResultVariantMeta where
  qualifiedName : String
  discriminant : Int
  carriesError : Bool

def matchResultOkVariant : MatchResultVariantMeta := ⟨"MatchResult::Ok", 0, false⟩
def matchResultErrVariant : MatchResultVariantMeta := ⟨"MatchResult::Err", 1, true⟩

def matchResultVariantMeta (name : String) : Option MatchResultVariantMeta :=
  [matchResultOkVariant, matchResultErrVariant].find? fun variant =>
    surfacePathEq variant.qualifiedName name

end Surtr.Sindr
