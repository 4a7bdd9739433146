-- Grammars in the object notation: a list of symbols, each a record of its name, its rules and
-- its line. Everything a grammar holds is kept, so that a saved grammar is loaded as it was.
import TextGrammar.Grammar
import TextGrammar.Ron.Reader

namespace TextGrammar

/-! ## Writing -/

/-- The name of a modifier as a variant. -/
def Modifier.variantName : Modifier → String
  | .article => "Article"
  | .plural => "Plural"
  | .ordinal => "Ordinal"
  | .capitalize => "Capitalize"
  | .lower => "Lower"
  | .upper => "Upper"
  | .title => "Title"

/-- A range as a value. -/
def DrawRange.toRon : DrawRange → Ron
  | .number low high =>
    .record "Numeric" [⟨"low", .integer low.toInt⟩, ⟨"high", .integer high.toInt⟩]
  | .letter low high => .record "Alpha" [⟨"low", .char low⟩, ⟨"high", .char high⟩]

mutual

/-- A segment as a value. -/
def Segment.toRon : Segment → Ron
  | .literal text => .variant "Literal" (.string text)
  | .reference target modifiers =>
    .variant "Reference" (.record "" [⟨"target", target.toRon⟩,
      ⟨"modifiers", .list (modifiers.map fun m => .unit m.variantName)⟩])
  | .choice branches => .variant "Choice" (.list (Rule.allToRon branches))

/-- A target as a value. -/
def Target.toRon : Target → Ron
  | .symbol name => .variant "Symbol" (.string name)
  | .dereference inner => .variant "Dereference" inner.toRon
  | .quoted text => .variant "Quoted" (.string text)
  | .pattern segments => .variant "Pattern" (.list (Segment.allToRon segments))
  | .range range => .variant "Range" range.toRon

/-- A rule as a value. -/
def Rule.toRon : Rule → Ron
  | ⟨segments, weight⟩ =>
    .record "" [⟨"segments", .list (Segment.allToRon segments)⟩, ⟨"weight", .float weight⟩]

/-- Segments as values. -/
def Segment.allToRon : List Segment → List Ron
  | [] => []
  | segment :: segments => segment.toRon :: Segment.allToRon segments

/-- Rules as values. -/
def Rule.allToRon : List Rule → List Ron
  | [] => []
  | rule :: rules => rule.toRon :: Rule.allToRon rules

end

/-- A symbol as a value. -/
def Symbol.toRon (symbol : Symbol) : Ron :=
  .record "" [⟨"name", .string symbol.name⟩, ⟨"rules", .list (Rule.allToRon symbol.rules)⟩,
    ⟨"line", .integer symbol.line⟩]

/-- A grammar as a value. -/
def Grammar.toRon (g : Grammar) : Ron := .list (g.symbols.map Symbol.toRon)

/-- The text of a grammar, unless it nests too deep. -/
def Grammar.save? (g : Grammar) : Option String := g.toRon.text?

/-! ## Reading -/

open Ron (Reader)

/-- Reads a modifier. -/
def Modifier.reader : Reader Modifier :=
  Ron.Reader.variant fun key =>
    match Modifier.all.find? (·.variantName == key) with
    | some modifier => pure modifier
    | none => failure

/-- Reads the two bounds of a range; fields of other names are skipped. -/
def boundsReader {α : Type} (bound : Reader α) : Reader (α × α) := do
  let fields ← Ron.Reader.variantFields (fun key (low, high) =>
    match key with
    | "low" => do pure (← Ron.Reader.once bound low, high)
    | "high" => do pure (low, ← Ron.Reader.once bound high)
    | _ => do
      Ron.Reader.skip
      pure (low, high)) (none, none)
  match fields with
  | (some low, some high) => pure (low, high)
  | _ => failure

/-- Reads a range. -/
def DrawRange.reader : Reader DrawRange :=
  Ron.Reader.variant fun key =>
    match key with
    | "Numeric" => do
      let (low, high) ← boundsReader Ron.Reader.signed
      pure (.number low high)
    | "Alpha" => do
      let (low, high) ← boundsReader Ron.Reader.char
      pure (.letter low high)
    | _ => failure

/-- Reads a target, given the reader of the segments in it. -/
def Target.reader (segment : Reader Segment) : Reader Target :=
  Ron.Reader.variant fun key =>
    match key with
    | "Symbol" => Target.symbol <$> Ron.Reader.payload fun _ => Ron.Reader.string
    | "Dereference" => Target.dereference <$> Ron.Reader.payload fun _ => segment
    | "Quoted" => Target.quoted <$> Ron.Reader.payload fun _ => Ron.Reader.string
    | "Pattern" => Target.pattern <$> Ron.Reader.payload fun _ => Ron.Reader.list segment
    | "Range" => Target.range <$> Ron.Reader.payload fun _ => DrawRange.reader
    | _ => failure

/-- Reads a reference, given the reader of the segments in it. -/
def referenceReader (segment : Reader Segment) (bare : Bool) : Reader Segment := do
  let fields ← Ron.Reader.record "Reference" bare (fun key (target, modifiers) =>
    match key with
    | "target" => do pure (← Ron.Reader.once (Target.reader segment) target, modifiers)
    | "modifiers" => do
      pure (target, ← Ron.Reader.once (Ron.Reader.list Modifier.reader) modifiers)
    | _ => do
      Ron.Reader.skip
      pure (target, modifiers)) (none, none)
  match fields with
  | (some target, some modifiers) => pure (.reference target modifiers)
  | _ => failure

/-- Reads a rule, given the reader of its segments. -/
def Rule.readerWith (segment : Reader Segment) : Reader Rule := do
  let fields ← Ron.Reader.record "Rule" false (fun key (segments, weight) =>
    match key with
    | "segments" => do pure (← Ron.Reader.once (Ron.Reader.list segment) segments, weight)
    | "weight" => do pure (segments, ← Ron.Reader.once Ron.Reader.float weight)
    | _ => do
      Ron.Reader.skip
      pure (segments, weight)) (none, none)
  match fields with
  | (some segments, some weight) => pure ⟨segments, weight⟩
  | _ => failure

/-- Reads a segment in which others stand at most `levels` deep. -/
def Segment.readerUpTo : (levels : Nat) → Reader Segment
  | 0 => failure
  | levels + 1 =>
    let inner := Segment.readerUpTo levels
    Ron.Reader.variant fun key =>
      match key with
      | "Literal" => Segment.literal <$> Ron.Reader.payload fun _ => Ron.Reader.string
      | "Reference" => Ron.Reader.payload (referenceReader inner)
      | "Choice" =>
        Segment.choice <$> Ron.Reader.payload fun _ => Ron.Reader.list (Rule.readerWith inner)
      | _ => failure

/-- Reads a rule. Its segments may nest as deep as values may. -/
def Rule.reader : Reader Rule := Rule.readerWith (Segment.readerUpTo Ron.nestingLimit)

/-- Reads a symbol. A symbol without a line gets line 0. -/
def Symbol.reader : Reader Symbol := do
  let fields ← Ron.Reader.record "Symbol" false (fun key (name, rules, line) =>
    match key with
    | "name" => do pure (← Ron.Reader.once Ron.Reader.string name, rules, line)
    | "rules" => do pure (name, ← Ron.Reader.once (Ron.Reader.list Rule.reader) rules, line)
    | "line" => do pure (name, rules, ← Ron.Reader.once Ron.Reader.word line)
    | _ => do
      Ron.Reader.skip
      pure (name, rules, line)) (none, none, none)
  match fields with
  | (some name, some rules, line) => pure ⟨name, rules, line.getD 0⟩
  | _ => failure

/-- Reads the text of a grammar. -/
def Grammar.load? (text : String) : Option Grammar :=
  Ron.Reader.readText (Grammar.mk <$> Ron.Reader.list Symbol.reader) text

end TextGrammar
