import Mathlib.Algebra.Order.Ring.Nat
import Mathlib.Data.List.Nodup

/-!
# The shared parse cache (`surtr-analysis/src/parse_cache.rs`)

A locked section is one step, and parsing happens between two. A path is a list of
components, as `Path` compares it.
-/

namespace Surtr.Analysis
open List

inductive SourceKind where
  | script | definitionSource | stdDefinitionSource | projectConfigSource | replChunk
  deriving DecidableEq

inductive CompileUnitKind where
  | script | definitionCheck | project | repl
  deriving DecidableEq

structure ParseInput where
  source : String
  sourceId : UInt32
  sourceKind : SourceKind
  compileUnitKind : CompileUnitKind
  modulePath : Option String
  deriving DecidableEq

/-- `parse_document` and `parse_document_tolerant`, each followed by
`materialize_reflections`. -/
structure Parser (Path S T : Type) where
  strict : Path → ParseInput → S
  tolerant : Path → ParseInput → Option Nat → T

structure CachedDocument (Path S T : Type) where
  path : Path
  input : ParseInput
  strict : Option S
  tolerant : Option (Option Nat × T)

def maxCachedDocuments : Nat := 64

inductive Call (Path : Type) where
  | strict (path : Path) (input : ParseInput)
  | tolerant (path : Path) (input : ParseInput) (cursor : Option Nat)
  | remove (path : Path)

inductive Reply (S T : Type) where
  | strict (result : S)
  | tolerant (result : T)
  | removed

/-- A call before its first locked section, between its two, and after it has returned. -/
inductive Phase (S T : Type) where
  | started
  | parsing
  | returned (reply : Reply S T)

variable {Path S T : Type}

structure Service (Path S T : Type) where
  documents : List (CachedDocument Path S T)
  calls : List (Call Path × Phase S T)

inductive Event (Path : Type) where
  | call (call : Call Path)
  | advance (i : Nat)

def Call.direct (parser : Parser Path S T) : Call Path → Reply S T
  | .strict path input => .strict (parser.strict path input)
  | .tolerant path input cursor => .tolerant (parser.tolerant path input cursor)
  | .remove _ => .removed

structure CachedDocument.Genuine (parser : Parser Path S T) (d : CachedDocument Path S T) :
    Prop where
  strict : ∀ result, d.strict = some result → result = parser.strict d.path d.input
  tolerant : ∀ cursor result, d.tolerant = some (cursor, result) →
    result = parser.tolerant d.path d.input cursor

structure Sound (parser : Parser Path S T) (documents : List (CachedDocument Path S T)) :
    Prop where
  distinct : (documents.map (·.path)).Nodup
  bounded : documents.length ≤ maxCachedDocuments
  genuine : ∀ d ∈ documents, d.Genuine parser

structure Transparent (parser : Parser Path S T) (s : Service Path S T) : Prop where
  sound : Sound parser s.documents
  replies : ∀ call reply, (call, .returned reply) ∈ s.calls → reply = call.direct parser

def Advances (parser : Parser Path S T) (call : Call Path) (phase : Phase S T)
    (r : Phase S T × List (CachedDocument Path S T)) : Prop :=
  Sound parser r.2 ∧ (r.1 = .returned (call.direct parser) ∨ phase = .started ∧ r.1 = .parsing)

variable [DecidableEq Path]

/-- `ParseEntries::current`; the document is at the front. -/
def current (path : Path) (input : ParseInput) (documents : List (CachedDocument Path S T)) :
    List (CachedDocument Path S T) :=
  let previous := documents.find? (·.path = path)
  let current := (previous.filter (·.input = input)).getD
    { path := path, input := input, strict := none, tolerant := none }
  (current :: documents.eraseP (·.path = path)).take maxCachedDocuments

/-- The next locked section of a call, with the parsing before it. -/
def Call.advance (parser : Parser Path S T) (call : Call Path) (phase : Phase S T)
    (documents : List (CachedDocument Path S T)) : Phase S T × List (CachedDocument Path S T) :=
  match phase, call with
  | .returned reply, _ => (.returned reply, documents)
  | .started, .strict path input =>
    let documents := current path input documents
    match documents.head?.bind (·.strict) with
    | some result => (.returned (.strict result), documents)
    | none => (.parsing, documents)
  | .parsing, .strict path input =>
    let result := parser.strict path input
    (.returned (.strict result),
      (current path input documents).modifyHead fun d => { d with strict := some result })
  | .started, .tolerant path input cursor =>
    let documents := current path input documents
    match (documents.head?.bind (·.tolerant)).filter (·.1 = cursor) with
    | some (_, result) => (.returned (.tolerant result), documents)
    | none => (.parsing, documents)
  | .parsing, .tolerant path input cursor =>
    let result := parser.tolerant path input cursor
    (.returned (.tolerant result), (current path input documents).modifyHead
      fun d => { d with tolerant := some (cursor, result) })
  | _, .remove path => (.returned .removed, documents.filter (·.path ≠ path))

def Service.step (parser : Parser Path S T) (s : Service Path S T) : Event Path → Service Path S T
  | .call call => { s with calls := s.calls ++ [(call, .started)] }
  | .advance i => match s.calls[i]? with
    | none => s
    | some (call, phase) =>
      let (phase, documents) := call.advance parser phase s.documents
      { documents := documents, calls := s.calls.set i (call, phase) }

def Service.run (parser : Parser Path S T) (events : List (Event Path)) : Service Path S T :=
  events.foldl (Service.step parser) { documents := [], calls := [] }

variable {parser : Parser Path S T} {documents : List (CachedDocument Path S T)} {path : Path}
  {input : ParseInput}

theorem not_mem_eraseP (h : (documents.map (·.path)).Nodup) :
    path ∉ (documents.eraseP (·.path = path)).map (·.path) := by
  induction documents with
  | nil => simp
  | cons d rest ih =>
    obtain ⟨hd, hrest⟩ := nodup_cons.mp h
    by_cases heq : d.path = path
    · subst heq
      simpa using hd
    · simpa [heq, Ne.symm heq] using ih hrest

theorem Sound.remove (h : Sound parser documents) :
    Sound parser (documents.filter (·.path ≠ path)) :=
  ⟨h.distinct.sublist (filter_sublist.map _), (length_filter_le ..).trans h.bounded,
    fun d hd => h.genuine d (mem_filter.mp hd).1⟩

theorem Sound.current (h : Sound parser documents) (path : Path) (input : ParseInput) :
    ∃ d rest, Analysis.current path input documents = d :: rest ∧ d.path = path ∧ d.input = input ∧
      Sound parser (d :: rest) := by
  have hfront : ∀ d, d = ((documents.find? (·.path = path)).filter (·.input = input)).getD
      { path := path, input := input, strict := none, tolerant := none } →
      d.path = path ∧ d.input = input ∧ d.Genuine parser := by
    rintro _ rfl
    cases hfind : documents.find? (·.path = path) with
    | none => exact ⟨rfl, rfl, by simp, by simp⟩
    | some d =>
      have hpath : d.path = path := by simpa using find?_some hfind
      by_cases hinput : d.input = input
      · simpa [Option.filter, hinput, hpath] using h.genuine d (mem_of_find?_eq_some hfind)
      · simp only [Option.filter, hinput, decide_false]
        exact ⟨rfl, rfl, by simp, by simp⟩
  obtain ⟨hpath, hinput, hgenuine⟩ := hfront _ rfl
  have hrest : (List.take 63 (documents.eraseP (·.path = path))).Sublist _ := take_sublist ..
  refine ⟨_, _, rfl, hpath, hinput, ?_, length_take_le maxCachedDocuments (_ :: _), ?_⟩
  · rw [map_cons, nodup_cons, hpath]
    exact ⟨fun hmem => not_mem_eraseP h.distinct ((hrest.map _).subset hmem),
      h.distinct.sublist ((hrest.trans eraseP_sublist).map _)⟩
  · rw [forall_mem_cons]
    exact ⟨hgenuine, fun d hd => h.genuine d (eraseP_subset (hrest.subset hd))⟩

theorem Sound.store {f : CachedDocument Path S T → CachedDocument Path S T}
    (h : Sound parser documents) (hpath : ∀ d, (f d).path = d.path)
    (hgenuine : ∀ d, d.path = path → d.input = input → d.Genuine parser → (f d).Genuine parser) :
    Sound parser ((Analysis.current path input documents).modifyHead f) := by
  obtain ⟨d, rest, hcurrent, hp, hi, hsound⟩ := h.current path input
  rw [hcurrent]
  refine ⟨by simpa [hpath] using hsound.distinct, hsound.bounded, ?_⟩
  obtain ⟨hd, hrest⟩ := forall_mem_cons.mp hsound.genuine
  exact forall_mem_cons.mpr ⟨hgenuine d hp hi hd, hrest⟩

theorem Sound.advance {call : Call Path} {phase : Phase S T} (h : Sound parser documents)
    (hphase : ∀ reply, phase = .returned reply → reply = call.direct parser) :
    Advances parser call phase (call.advance parser phase documents) := by
  cases phase with
  | returned reply => exact ⟨h, .inl (congrArg _ (hphase reply rfl))⟩
  | started =>
    cases call with
    | strict path input =>
      obtain ⟨d, rest, hcurrent, rfl, rfl, hsound⟩ := h.current path input
      have hd := hsound.genuine d mem_cons_self
      cases hstrict : d.strict with
      | none => simpa [Advances, Call.advance, hcurrent, hstrict] using hsound
      | some result =>
        simpa [Advances, Call.advance, hcurrent, hstrict, Call.direct, ← hd.strict result hstrict]
          using hsound
    | tolerant path input cursor =>
      obtain ⟨d, rest, hcurrent, rfl, rfl, hsound⟩ := h.current path input
      have hd := hsound.genuine d mem_cons_self
      rcases htolerant : d.tolerant with _ | ⟨cursor', result⟩
      · simpa [Advances, Call.advance, hcurrent, htolerant] using hsound
      by_cases hcursor : cursor' = cursor
      · subst hcursor
        simpa [Advances, Call.advance, hcurrent, htolerant, Call.direct, Option.filter,
          ← hd.tolerant _ result htolerant] using hsound
      · simpa [Advances, Call.advance, hcurrent, htolerant, Option.filter, hcursor] using hsound
    | remove path => exact ⟨h.remove, .inl rfl⟩
  | parsing =>
    cases call with
    | strict path input =>
      refine ⟨h.store (f := fun d => { d with strict := _ }) (fun _ => rfl)
        fun d hp hi hd => ⟨?_, hd.tolerant⟩, .inl rfl⟩
      rintro _ ⟨⟩
      rw [← hp, ← hi]
    | tolerant path input cursor =>
      refine ⟨h.store (f := fun d => { d with tolerant := _ }) (fun _ => rfl)
        fun d hp hi hd => ⟨hd.strict, ?_⟩, .inl rfl⟩
      rintro _ _ ⟨⟩
      rw [← hp, ← hi]
    | remove path => exact ⟨h.remove, .inl rfl⟩

variable {s : Service Path S T} {i : Nat} {call : Call Path} {phase : Phase S T}

theorem step_advance (h : s.calls[i]? = some (call, phase)) : s.step parser (.advance i) =
    { documents := (call.advance parser phase s.documents).2
      calls := s.calls.set i (call, (call.advance parser phase s.documents).1) } := by
  simp only [Service.step, h]

theorem Transparent.advance (h : Transparent parser s) (hcall : s.calls[i]? = some (call, phase)) :
    Advances parser call phase (call.advance parser phase s.documents) :=
  h.sound.advance fun reply hphase => h.replies call reply (hphase ▸ mem_of_getElem? hcall)

theorem Transparent.step (h : Transparent parser s) (event : Event Path) :
    Transparent parser (s.step parser event) := by
  cases event with
  | call call =>
    refine ⟨h.sound, fun call' reply hmem => h.replies call' reply ?_⟩
    simpa [Service.step] using hmem
  | advance i =>
    cases hcall : s.calls[i]? with
    | none => simpa only [Service.step, hcall] using h
    | some entry =>
      obtain ⟨hsound, hreply⟩ := h.advance hcall
      rw [step_advance hcall]
      refine ⟨hsound, fun call' reply hmem => ?_⟩
      rcases mem_or_eq_of_mem_set hmem with hmem | heq
      · exact h.replies call' reply hmem
      rcases hreply with hretd | ⟨-, hparsing⟩
      · rw [hretd] at heq
        cases heq
        rfl
      · rw [hparsing] at heq
        cases heq

theorem Transparent.steps (h : Transparent parser s) (events : List (Event Path)) :
    Transparent parser (events.foldl (Service.step parser) s) := by
  induction events generalizing s with
  | nil => exact h
  | cons event events ih => exact ih (h.step event)

/-- However the calls on a shared cache interleave, each one returns what parsing its own inputs
returns, in its second step at the latest, and the cache keeps to its bounds. -/
theorem parse_cache_transparent (parser : Parser Path S T) (events : List (Event Path)) :
    let s := Service.run parser events
    (s.documents.map (·.path)).Nodup ∧ s.documents.length ≤ maxCachedDocuments ∧
    (∀ call reply, (call, .returned reply) ∈ s.calls → reply = call.direct parser) ∧
    ∀ i call phase, s.calls[i]? = some (call, phase) →
      ∃ phase', (s.step parser (.advance i)).calls[i]? = some (call, phase') ∧
        (phase' = .returned (call.direct parser) ∨ phase = .started ∧ phase' = .parsing) := by
  intro s
  have hstart : Transparent parser ({ documents := [], calls := [] } : Service Path S T) :=
    ⟨⟨nodup_nil, Nat.zero_le _, by simp⟩, by simp⟩
  have hs : Transparent parser s := hstart.steps events
  refine ⟨hs.sound.distinct, hs.sound.bounded, hs.replies, fun i call phase hcall => ?_⟩
  refine ⟨_, ?_, (hs.advance hcall).2⟩
  rw [step_advance hcall]
  exact getElem?_set_self (List.getElem?_eq_some_iff.mp hcall).1

end Surtr.Analysis
