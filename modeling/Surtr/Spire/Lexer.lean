import Surtr.Spire.StringLiteral

/-!
# The lexer (`spire/src/lexer.rs`, `spire/src/token.rs`)

`lexAt` is one round of the loop of `tokenize`. Which bodies a backtick literal
may have and how a float is read are parameters.
-/

namespace Surtr.Spire

inductive Reflection where
  | file | dir | line
  deriving DecidableEq

inductive ReservedCallName where
  | on | and | or | eq | neq | lt | lte | gt | gte
  deriving DecidableEq

inductive PatternConsumer where
  | ifLet | ifLetThen | isMatch | applyPattern | assertErrorMatches
  deriving DecidableEq

/-- `Token`; a float is its bit pattern. -/
inductive Token where
  | int (value : Nat)
  | float (bits : UInt64)
  | str (literal : StringLiteral)
  | docString (literal : RawStringLiteral)
  | trueWord | falseWord | unit
  | ident (name : String)
  | reflection (value : Reflection)
  | reservedEnv
  | reservedCallName (name : ReservedCallName)
  | patternConsumer (consumer : PatternConsumer)
  | numberedPlaceholder (digits : String)
  | funcLiteral (body : String)
  | plus | minus | star | slash | percent | concat
  | eqEq | bangEq | bang | lt | gt | ltEq | gtEq | andAnd | orOr
  | bind | safeBind
  | lParen | rParen | lBrack | rBrack | lBrace | rBrace
  | comma | colon | at | dot | question | dotDot | fatArrow | arrow | leftArrow | semicolon
  | pipe | pipeApply | pipeMap | pipeApplyContext | pipeBind | choice | compose | liftCompose
  | kleisliCompose | amp | tilde | dollar | caret
  | newline
  | annotator (name : String)
  | kwDef | kwDefp | kwDefagent | kwDefgenserver | kwDefsupervisor | kwDefdynamicSupervisor
  | kwSupervisorInit | kwDefmod | kwNamespace | kwDeftrait | kwImport | kwInclude | kwDefstruct
  | kwDefrecord | kwDeferror | kwDefenum | kwDefenumerror | kwDefextractor | kwImpl | kwFor
  | kwMatch | kwDo | kwWhen | kwCond | kwBulkUpdate | kwPrivate | kwPublic | kwReadonly
  | kwConst | kwType | kwWhere
  | eof
  deriving DecidableEq

structure Spanned where
  token : Token
  span : Span
  deriving DecidableEq

structure LexEnv where
  isValidFuncLiteralBody : String → Bool
  parseFloat : String → Option UInt64
  isFinite : UInt64 → Bool

/-- The words with a token of their own, in the order they are tried. -/
def wordTokens : List (String × Token) :=
  [("__FILE__", .reflection .file), ("__DIR__", .reflection .dir), ("__LINE__", .reflection .line),
    ("__ENV__", .reservedEnv), ("True", .trueWord), ("False", .falseWord), ("def", .kwDef),
    ("defp", .kwDefp), ("defagent", .kwDefagent), ("defgenserver", .kwDefgenserver),
    ("defsupervisor", .kwDefsupervisor), ("defdynamic_supervisor", .kwDefdynamicSupervisor),
    ("supervisor_init", .kwSupervisorInit), ("defmod", .kwDefmod), ("namespace", .kwNamespace),
    ("deftrait", .kwDeftrait), ("import", .kwImport), ("include", .kwInclude),
    ("defstruct", .kwDefstruct), ("defrecord", .kwDefrecord),
    ("deferror", .kwDeferror), ("defenumerror", .kwDefenumerror), ("defenum", .kwDefenum),
    ("defextractor", .kwDefextractor), ("impl", .kwImpl), ("for", .kwFor), ("match", .kwMatch),
    ("do", .kwDo), ("when", .kwWhen), ("cond", .kwCond), ("bulk_update", .kwBulkUpdate),
    ("private", .kwPrivate), ("public", .kwPublic), ("readonly", .kwReadonly), ("const", .kwConst),
    ("type", .kwType), ("Type", .kwType), ("where", .kwWhere), ("on", .reservedCallName .on),
    ("and", .reservedCallName .and), ("or", .reservedCallName .or), ("eq", .reservedCallName .eq),
    ("neq", .reservedCallName .neq), ("lt", .reservedCallName .lt),
    ("lte", .reservedCallName .lte), ("gt", .reservedCallName .gt),
    ("gte", .reservedCallName .gte), ("if_let", .patternConsumer .ifLet),
    ("if_let_then", .patternConsumer .ifLetThen), ("is_match", .patternConsumer .isMatch),
    ("apply_pattern", .patternConsumer .applyPattern),
    ("assert_error_matches", .patternConsumer .assertErrorMatches)]

def threeCharTokens : List (String × Token) :=
  [("|*>", .pipeMap), ("|>=", .pipeBind), ("|*|", .pipeApplyContext), ("<|>", .choice),
    (">=>", .kleisliCompose)]

def twoCharTokens : List (String × Token) :=
  [("++", .concat), ("=?", .safeBind), ("==", .eqEq), ("!=", .bangEq), ("<=", .ltEq),
    (">=", .gtEq), ("<-", .leftArrow), ("&&", .andAnd), ("||", .orOr), ("..", .dotDot),
    ("=>", .fatArrow), ("->", .arrow), ("|>", .pipeApply), (">>", .compose), (">*", .liftCompose)]

def singleCharTokens : List (Char × Token) :=
  [('+', .plus), ('-', .minus), ('*', .star), ('/', .slash), ('%', .percent), ('!', .bang),
    ('=', .bind), ('<', .lt), ('>', .gt), ('(', .lParen), (')', .rParen), ('[', .lBrack),
    (']', .rBrack), ('{', .lBrace), ('}', .rBrace), (',', .comma), (':', .colon), ('.', .dot),
    ('?', .question), (';', .semicolon), ('|', .pipe), ('&', .amp), ('~', .tilde),
    ('$', .dollar), ('^', .caret)]

def isAsciiDigit (ch : Char) : Bool := '0' ≤ ch && ch ≤ '9'

def isAsciiAlphabetic (ch : Char) : Bool := ('a' ≤ ch && ch ≤ 'z') || ('A' ≤ ch && ch ≤ 'Z')

def isAsciiAlphanumeric (ch : Char) : Bool := isAsciiAlphabetic ch || isAsciiDigit ch

def isWordChar (ch : Char) : Bool := isAsciiAlphanumeric ch || ch = '_'

def wordToken (text : List Char) : Token :=
  match wordTokens.lookup (String.ofList text) with
  | some token => token
  | none => match text with
    | '_' :: digit :: digits =>
      if (digit :: digits).all isAsciiDigit then
        .numberedPlaceholder (String.ofList (digit :: digits))
      else .ident (String.ofList text)
    | _ => .ident (String.ofList text)

structure IntLiteralBase where
  radix : Nat
  label : String
  deriving DecidableEq

def intLiteralBase : Char → Option IntLiteralBase
  | 'b' => some { radix := 2, label := "binary" }
  | 'o' => some { radix := 8, label := "octal" }
  | 'd' => some { radix := 10, label := "decimal" }
  | 'x' => some { radix := 16, label := "hexadecimal" }
  | _ => none

def isValidIntDigit (base : IntLiteralBase) (ch : Char) : Bool :=
  match hexDigit ch with
  | some digit => digit < base.radix
  | none => false

def digitsValue (radix : Nat) (text : List Char) : Nat :=
  text.foldl (fun value ch => value * radix + (hexDigit ch).getD 0) 0

def sliceChars (chars : List Char) (start stop : Nat) : List Char := (chars.take stop).drop start

/-- A base prefix takes every letter and digit behind it as its body, and one with a
capital letter is an error. -/
def lexIntegerLiteral (chars : List Char) (start decimalEnd : Nat) : Scan (Nat × Nat) :=
  let plain : Scan (Nat × Nat) :=
    .ok (digitsValue 10 (sliceChars chars start decimalEnd), decimalEnd)
  if chars[start]? = some '0' ∧ decimalEnd = start + 1 then match chars[decimalEnd]? with
    | none => plain
    | some marker =>
      let bodyStart := decimalEnd + 1
      let stop := skipUntil chars (fun ch => !isAsciiAlphanumeric ch) chars.length bodyStart
      if marker = 'B' ∨ marker = 'O' ∨ marker = 'D' ∨ marker = 'X' then
        invalid ("Invalid integer: " ++ String.ofList (sliceChars chars start stop)) start stop
      else match intLiteralBase marker with
        | none => plain
        | some base =>
          let body := sliceChars chars bodyStart stop
          if body = [] then
            invalid ("missing digits after integer base prefix: 0" ++ marker.toString) start
              bodyStart
          else match body.findIdx? fun ch => !isValidIntDigit base ch with
            | some offset =>
              invalid ("invalid digit for " ++ base.label ++ " integer literal: " ++
                String.ofList (body.drop offset |>.take 1)) (bodyStart + offset)
                (bodyStart + offset + 1)
            | none => .ok (digitsValue base.radix body, stop)
  else plain

def lexNumber (env : LexEnv) (chars : List Char) (start : Nat) : Scan (Token × Nat) :=
  let decimalEnd := skipUntil chars (fun ch => !isAsciiDigit ch) chars.length start
  if chars[decimalEnd]? = some '.' ∧ (chars[decimalEnd + 1]?).any isAsciiDigit then
    let stop := skipUntil chars (fun ch => !isAsciiDigit ch) chars.length (decimalEnd + 1)
    let text := String.ofList (sliceChars chars start stop)
    match env.parseFloat text with
    | none => invalid ("Invalid float: " ++ text) start stop
    | some value =>
      if env.isFinite value then .ok (.float value, stop)
      else invalid ("Float literal must be finite: " ++ text) start stop
  else do
    let (value, next) ← lexIntegerLiteral chars start decimalEnd
    .ok (.int value, next)

def spanned (token : Token) (start stop : Nat) : Spanned :=
  { token := token, span := { start := start, stop := stop } }

def lexAnnotator (chars : List Char) (i : Nat) : List Spanned × Nat :=
  if (chars[i + 1]?).any isWordChar then
    let stop := skipUntil chars (fun ch => !isWordChar ch) chars.length (i + 1)
    ([spanned (.annotator (String.ofList (sliceChars chars (i + 1) stop))) i stop], stop)
  else ([spanned .at i (i + 1)], i + 1)

def lexFuncLiteral (env : LexEnv) (chars : List Char) (i : Nat) : Scan (List Spanned × Nat) :=
  let close := skipUntil chars (· = '`') chars.length (i + 1)
  if chars.length ≤ close then incomplete "`" i close
  else
    let body := String.ofList (sliceChars chars (i + 1) close)
    if close = i + 1 then invalid "FuncLiteral body must not be empty" i (close + 1)
    else if env.isValidFuncLiteralBody body = false then
      invalid ("Unsupported FuncLiteral body: `" ++ body ++ "`") i (close + 1)
    else .ok ([spanned (.funcLiteral body) i (close + 1)], close + 1)

/-- Operators and punctuation; `last` is the token before. -/
def lexOperator (chars : List Char) (i : Nat) (c : Char) (last : Option Token) :
    Scan (List Spanned × Nat) :=
  let three := sliceChars chars i (i + 3)
  let two := sliceChars chars i (i + 2)
  match if i + 2 < chars.length then threeCharTokens.lookup (String.ofList three) else none with
  | some token => .ok ([spanned token i (i + 3)], i + 3)
  | none =>
    if two = ['|', '|'] ∧ last = some .lBrace then
      .ok ([spanned .pipe i (i + 1), spanned .pipe (i + 1) (i + 2)], i + 2)
    else match if i + 1 < chars.length then twoCharTokens.lookup (String.ofList two) else none with
      | some token => .ok ([spanned token i (i + 2)], i + 2)
      | none =>
        if two = ['(', ')'] then .ok ([spanned .unit i (i + 2)], i + 2)
        else match singleCharTokens.lookup c with
          | some token => .ok ([spanned token i (i + 1)], i + 1)
          | none => invalid ("Unexpected character: '" ++ c.toString ++ "'") i (i + 1)

/-- One round of the loop of `tokenize`: the tokens it pushes and the next
position. -/
def lexAt (env : LexEnv) (chars : List Char) (i : Nat) (c : Char) (last : Option Token) :
    Scan (List Spanned × Nat) :=
  if c = ' ' ∨ c = '\t' ∨ c = '\r' then .ok ([], i + 1)
  else if c = '#' then .ok ([], skipUntil chars (· = '\n') chars.length i)
  else if c = '\n' then .ok ([spanned .newline i (i + 1)], i + 1)
  else if c = '@' then .ok (lexAnnotator chars i)
  else if tripleQuoteAt chars i then do
    let (literal, next) ← lexRawTripleQuotedString chars i
    .ok ([spanned (.docString literal) i next], next)
  else if c = '"' ∨ c = '\'' then do
    let (literal, next) ← scanString chars i c
    .ok ([spanned (.str literal) i next], next)
  else if c = '`' then lexFuncLiteral env chars i
  else if isAsciiDigit c then do
    let (token, next) ← lexNumber env chars i
    .ok ([spanned token i next], next)
  else if isAsciiAlphabetic c ∨ c = '_' then
    let stop := skipUntil chars (fun ch => !isWordChar ch) chars.length i
    .ok ([spanned (wordToken (sliceChars chars i stop)) i stop], stop)
  else lexOperator chars i c last

def tokenizeLoop (env : LexEnv) (chars : List Char) : Nat → Nat → List Spanned → Scan (List Spanned)
  | 0, _, _ => .error .outOfFuel
  | fuel + 1, i, tokens => match chars[i]? with
    | none => .ok (tokens ++ [spanned .eof i i])
    | some c => do
      let (pushed, next) ← lexAt env chars i c (tokens.getLast?.map (·.token))
      tokenizeLoop env chars fuel next (tokens ++ pushed)

def tokenize (env : LexEnv) (source : String) : Scan (List Spanned) :=
  tokenizeLoop env source.toList (source.toList.length + 1) 0 []

end Surtr.Spire
