import Mathlib.Data.List.Basic

/-!
# String literals (`spire/src/string_literal.rs`, `spire/src/lexer.rs`)

Positions are indices into the characters of the source. A loop takes fuel.
-/

namespace Surtr.Spire

structure Span where
  start : Nat
  stop : Nat
  deriving DecidableEq

inductive ParseErrorReason where
  | literalSyntax | positionRule | compilerInvariant
  deriving DecidableEq

/-- `ParseError`, as `ParseError::incomplete` and `ParseError::syntax` build it. -/
inductive ParseError where
  | incomplete (expected : String) (span : Span)
  | syntaxError (reason : ParseErrorReason) (message : String) (span : Span)
  deriving DecidableEq

inductive ScanStop where
  | outOfFuel
  | error (error : ParseError)
  deriving DecidableEq

abbrev Scan (α : Type) := Except ScanStop α

def incomplete {α : Type} (expected : String) (start stop : Nat) : Scan α :=
  .error (.error (.incomplete expected { start := start, stop := stop }))

def invalid {α : Type} (message : String) (start stop : Nat) : Scan α :=
  .error (.error (.syntaxError .literalSyntax message { start := start, stop := stop }))

inductive StringPart where
  | text (text : String)
  | expr (source : String) (span : Span)
  deriving DecidableEq

inductive StringLiteral where
  | plain (value : String)
  | interpolated (parts : List StringPart)
  deriving DecidableEq

def hexDigit (ch : Char) : Option Nat :=
  if '0' ≤ ch ∧ ch ≤ '9' then some (ch.toNat - '0'.toNat)
  else if 'a' ≤ ch ∧ ch ≤ 'f' then some (ch.toNat - 'a'.toNat + 10)
  else if 'A' ≤ ch ∧ ch ≤ 'F' then some (ch.toNat - 'A'.toNat + 10)
  else none

def isSurrogate (value : Nat) : Bool := 0xd800 ≤ value && value ≤ 0xdfff

structure Escape where
  scalar : Nat
  stop : Nat
  deriving DecidableEq

/-- The digits of a Unicode escape, at most six of them, so that eight turns are enough. -/
def unicodeDigits (chars : List Char) (start : Nat) : Nat → Nat → Nat → Nat → Scan Escape
  | 0, _, _, _ => .error .outOfFuel
  | fuel + 1, i, digits, value => match chars[i]? with
    | none => incomplete "'\x7d' in Unicode escape" start i
    | some '}' =>
      if digits = 0 then
        invalid "Unicode escape requires at least one hexadecimal digit" start (i + 1)
      else if isSurrogate value then
        invalid "Unicode escape must not contain a surrogate value" start (i + 1)
      else if 0x10ffff < value then
        invalid "Unicode escape value is outside the Unicode scalar range" start (i + 1)
      else .ok { scalar := value, stop := i + 1 }
    | some ch =>
      if ch = '"' ∨ ch = '\'' then
        invalid "Expected '\x7d' in Unicode escape before closing quote" start i
      else match hexDigit ch with
        | none => invalid "Unicode escape requires hexadecimal digits" start (i + 1)
        | some digit =>
          let value := value * 16 + digit
          let stop := i + 1 + if chars[i + 1]? = some '}' then 1 else 0
          if 6 < digits + 1 then
            invalid "Unicode escape allows at most six hexadecimal digits" start (i + 1)
          else if digits + 1 = 6 ∧ 0x10ffff < value then
            invalid "Unicode escape value is outside the Unicode scalar range" start stop
          else if digits + 1 = 6 ∧ isSurrogate value then
            invalid "Unicode escape must not contain a surrogate value" start stop
          else unicodeDigits chars start fuel (i + 1) (digits + 1) value

def simpleEscape (kind : Char) (next : Option Char) : Option Char :=
  match kind with
  | 'n' => some '\n'
  | 't' => some '\t'
  | '\\' => some '\\'
  | '"' => some '"'
  | '\'' => some '\''
  | '#' => if next = some '{' then some '#' else none
  | _ => none

/-- The escape at `start`, the position of its backslash. `\#` escapes only an
interpolation. -/
def escape (chars : List Char) (start : Nat) : Scan Escape :=
  match chars[start + 1]? with
  | none => incomplete "string escape" start chars.length
  | some kind =>
    if kind = '#' ∧ chars[start + 2]? = none then
      incomplete "'\x7b' after \\#" start chars.length
    else match simpleEscape kind chars[start + 2]? with
      | some value => .ok { scalar := value.toNat, stop := start + 2 }
      | none =>
        if kind ≠ 'u' then
          invalid ("Unsupported string escape: \\" ++ kind.toString) start (start + 2)
        else match chars[start + 2]? with
          | none => incomplete "'\x7b' after \\u" start chars.length
          | some opening =>
            if opening ≠ '{' then invalid "Expected '\x7b' after \\u" start (start + 3)
            else unicodeDigits chars start 8 (start + 3) 0 0

structure RawStringLiteral where
  text : List Char
  sourcePositions : List Nat
  sourceEnd : Nat
  deriving DecidableEq

def RawStringLiteral.keep (literal : RawStringLiteral) (ch : Char) (i : Nat) : RawStringLiteral :=
  { literal with
    text := literal.text ++ [ch]
    sourcePositions := literal.sourcePositions ++ [i] }

def indentColumn (columns : Nat) : Char → Nat
  | ' ' => columns + 1
  | '\t' => columns + (4 - columns % 4)
  | _ => columns

variable (chars : List Char)

/-- `line_indent_before`: the width of the blanks the line of `idx` starts with. -/
def lineIndentBefore (idx : Nat) : Nat :=
  let line := ((chars.take idx).reverse.takeWhile (· ≠ '\n')).reverse
  (line.takeWhile fun ch => ch = ' ' ∨ ch = '\t' ∨ ch = '\r').foldl indentColumn 0

/-- `push_indent_after_base`: how many characters of the indentation are dropped. -/
def indentDropped (baseIndent : Nat) : List Char → Nat → Nat
  | [], _ => 0
  | ch :: rest, columns =>
    if baseIndent ≤ indentColumn columns ch then 1
    else 1 + indentDropped baseIndent rest (indentColumn columns ch)

def copyLine (chars : List Char) (contentEnd : Nat) :
    Nat → Nat → RawStringLiteral → Nat × RawStringLiteral × Bool
  | 0, i, literal => (i, literal, false)
  | fuel + 1, i, literal =>
    if i < contentEnd then match chars[i]? with
      | none => (i, literal, false)
      | some ch =>
        if ch = '\n' then (i + 1, literal.keep ch i, true)
        else copyLine chars contentEnd fuel (i + 1) (literal.keep ch i)
    else (i, literal, false)

def indentLine (chars : List Char) (contentEnd baseIndent : Nat) :
    Nat → Nat → Nat → List (Char × Nat) → RawStringLiteral → Scan (Nat × RawStringLiteral)
  | 0, _, _, _, _ => .error .outOfFuel
  | fuel + 1, i, columns, indent, literal =>
    if i < contentEnd then match chars[i]? with
      | none => .ok (i, literal)
      | some ' ' =>
        indentLine chars contentEnd baseIndent fuel (i + 1) (indentColumn columns ' ')
          (indent ++ [(' ', i)]) literal
      | some '\t' =>
        indentLine chars contentEnd baseIndent fuel (i + 1) (indentColumn columns '\t')
          (indent ++ [('\t', i)]) literal
      | some '\r' => indentLine chars contentEnd baseIndent fuel (i + 1) columns indent literal
      | some '\n' => .ok (i + 1, literal.keep '\n' i)
      | some _ =>
        if columns < baseIndent then
          invalid "Triple-quoted string content must be indented at least as far as the starting line"
            i (i + 1)
        else
          let kept := indent.drop (indentDropped baseIndent (indent.map (·.1)) 0)
          let literal := kept.foldl (fun literal (ch, at') => literal.keep ch at') literal
          let (i, literal, _) := copyLine chars contentEnd fuel i literal
          .ok (i, literal)
    else .ok (i, literal)

/-- The loop of `normalize_triple_quoted_string`. -/
def normalizeLines (chars : List Char) (contentEnd baseIndent : Nat) :
    Nat → Nat → Bool → RawStringLiteral → Scan RawStringLiteral
  | 0, _, _, _ => .error .outOfFuel
  | fuel + 1, i, atLineStart, literal =>
    if i < contentEnd then
      if atLineStart then do
        let (i, literal) ← indentLine chars contentEnd baseIndent (fuel + 1) i 0 [] literal
        normalizeLines chars contentEnd baseIndent fuel i true literal
      else
        let (i, literal, broken) := copyLine chars contentEnd fuel i literal
        normalizeLines chars contentEnd baseIndent fuel i broken literal
    else .ok literal

def normalizeTripleQuotedString (quoteStart contentStart contentEnd : Nat) :
    Scan RawStringLiteral :=
  let atLineStart := contentStart = 0 ∨ chars[contentStart - 1]? = some '\n'
  normalizeLines chars contentEnd (lineIndentBefore chars quoteStart) (chars.length + 2)
    contentStart atLineStart { text := [], sourcePositions := [], sourceEnd := contentEnd }

def tripleQuoteAt (i : Nat) : Bool :=
  chars[i]? = some '"' ∧ chars[i + 1]? = some '"' ∧ chars[i + 2]? = some '"'

def tripleQuoteEnd (chars : List Char) : Nat → Nat → Nat
  | 0, i => i
  | fuel + 1, i =>
    if i + 2 < chars.length ∧ tripleQuoteAt chars i = false then tripleQuoteEnd chars fuel (i + 1)
    else i

/-- `lex_raw_triple_quoted_string`: the literal and the position behind it. -/
def lexRawTripleQuotedString (start : Nat) : Scan (RawStringLiteral × Nat) :=
  let contentEnd := tripleQuoteEnd chars chars.length (start + 3)
  if chars.length ≤ contentEnd + 2 then incomplete "\"\"\"" start chars.length
  else do
    let content ← normalizeTripleQuotedString chars start (start + 3) contentEnd
    .ok (content, contentEnd + 3)

def maxParseNesting : Nat := 32

def checkNesting (depth start : Nat) : Scan Unit :=
  if maxParseNesting < depth then
    .error (.error (.syntaxError .positionRule "maximum parse nesting depth exceeded"
      { start := start, stop := start + 1 }))
  else .ok ()

def skipUntil (chars : List Char) (stop : Char → Bool) : Nat → Nat → Nat
  | 0, i => i
  | fuel + 1, i => match chars[i]? with
    | none => i
    | some ch => if stop ch then i else skipUntil chars stop fuel (i + 1)

mutual
def stringBoundary (chars : List Char) : Nat → Nat → Nat → Scan Nat
  | 0, _, _ => .error .outOfFuel
  | fuel + 1, start, nesting => do
    checkNesting nesting start
    match chars[start]? with
    | none => .error .outOfFuel
    | some quote => boundaryLoop chars fuel start quote (start + 1) nesting
def boundaryLoop (chars : List Char) : Nat → Nat → Char → Nat → Nat → Scan Nat
  | 0, _, _, _, _ => .error .outOfFuel
  | fuel + 1, start, quote, i, nesting => match chars[i]? with
    | none => incomplete quote.toString start i
    | some ch =>
      if ch = quote then .ok (i + 1)
      else if ch = '\\' then do
        let escaped ← escape chars i
        boundaryLoop chars fuel start quote escaped.stop nesting
      else if ch = '#' ∧ chars[i + 1]? = some '{' then do
        let stop ← interpolationEndNested chars fuel (i + 2) (nesting + 1)
        boundaryLoop chars fuel start quote (stop + 1) nesting
      else boundaryLoop chars fuel start quote (i + 1) nesting
def interpolationEndNested (chars : List Char) : Nat → Nat → Nat → Scan Nat
  | 0, _, _ => .error .outOfFuel
  | fuel + 1, start, nesting => do
    checkNesting nesting start
    interpolationLoop chars fuel start nesting start 1
def interpolationLoop (chars : List Char) : Nat → Nat → Nat → Nat → Nat → Scan Nat
  | 0, _, _, _, _ => .error .outOfFuel
  | fuel + 1, start, nesting, i, depth => match chars[i]? with
    | none => incomplete "\x7d" start i
    | some ch =>
      if tripleQuoteAt chars i then do
        let (_, next) ← lexRawTripleQuotedString chars i
        interpolationLoop chars fuel start nesting next depth
      else if ch = '"' ∨ ch = '\'' then do
        let next ← stringBoundary chars fuel i (nesting + depth - 1)
        interpolationLoop chars fuel start nesting next depth
      else if ch = '`' then
        let close := skipUntil chars (· = '`') chars.length (i + 1)
        if close = chars.length then incomplete "`" start close
        else interpolationLoop chars fuel start nesting (close + 1) depth
      else if ch = '#' then
        interpolationLoop chars fuel start nesting
          (skipUntil chars (· = '\n') chars.length i) depth
      else if ch = '{' then do
        checkNesting (nesting + (depth + 1) - 1) i
        interpolationLoop chars fuel start nesting (i + 1) (depth + 1)
      else if ch = '}' then
        if depth = 1 then .ok i
        else interpolationLoop chars fuel start nesting (i + 1) (depth - 1)
      else interpolationLoop chars fuel start nesting (i + 1) depth
end

def interpolationEnd (start : Nat) : Scan Nat :=
  interpolationEndNested chars (4 * chars.length + 8) start 1

def charFromU32 (scalar : Nat) : Option Char :=
  if h : scalar.isValidChar then some (Char.ofNatAux scalar h) else none

def flushText (text : List Char) (parts : List StringPart) : List StringPart :=
  if text = [] then parts else parts ++ [.text (String.ofList text)]

def scanLoop (chars : List Char) (start : Nat) (quote : Char) :
    Nat → Nat → List Char → List StringPart → Scan (StringLiteral × Nat)
  | 0, _, _, _ => .error .outOfFuel
  | fuel + 1, i, text, parts => match chars[i]? with
    | none => incomplete quote.toString start i
    | some ch =>
      if ch = quote then
        if parts = [] then .ok (.plain (String.ofList text), i + 1)
        else .ok (.interpolated (flushText text parts), i + 1)
      else if ch = '\\' then do
        let encoded ← escape chars i
        match charFromU32 encoded.scalar with
        | none =>
          .error (.error (.syntaxError .compilerInvariant
            "Validated string escape is not a Unicode scalar" { start := i, stop := encoded.stop }))
        | some decoded => scanLoop chars start quote fuel encoded.stop (text ++ [decoded]) parts
      else if ch = '#' ∧ chars[i + 1]? = some '{' then do
        let stop ← interpolationEnd chars (i + 2)
        let source := String.ofList ((chars.take stop).drop (i + 2))
        let parts := flushText text parts ++ [.expr source { start := i + 2, stop := stop }]
        scanLoop chars start quote fuel (stop + 1) [] parts
      else scanLoop chars start quote fuel (i + 1) (text ++ [ch]) parts

def scanString (start : Nat) (quote : Char) : Scan (StringLiteral × Nat) :=
  scanLoop chars start quote (chars.length + 1) (start + 1) [] []

end Surtr.Spire
