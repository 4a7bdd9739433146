-- The settings of a generator, and their text in the object notation. In that text every setting
-- may be left out.
import TextGrammar.Expansion.Basic
import TextGrammar.Ron.Reader

namespace TextGrammar

/-- What a generator can be told. -/
structure Settings where
  /-- What the random words start from. -/
  seed : UInt64 := 0
  /-- How many symbols may be open at once. -/
  maxDepth : Nat := 256
  /-- How many segments one expansion may visit. -/
  stepBudget : Option Nat := none
  inflector : InflectorKind := .full
deriving Repr, DecidableEq

namespace Settings

/-- How far the settings let one expansion go. -/
def limits (settings : Settings) : Limits := ⟨settings.maxDepth, settings.stepBudget⟩

/-! ## Text -/

/-- The settings as a value. -/
def toRon (settings : Settings) : Ron :=
  .record "" [⟨"seed", .integer settings.seed.toNat⟩, ⟨"max_depth", .integer settings.maxDepth⟩,
    ⟨"step_budget", match settings.stepBudget with
      | none => .unit "None"
      | some budget => .variant "Some" (.integer budget)⟩,
    ⟨"inflector", .unit settings.inflector.name⟩]

/-- The text of the settings. -/
def save (settings : Settings) : String := String.ofList (settings.toRon.write 0)

/-- The settings that a text has given so far. -/
structure Given where
  seed : Option Nat := none
  maxDepth : Option Nat := none
  stepBudget : Option (Option Nat) := none
  inflector : Option InflectorKind := none

/-- The settings of a text: those it gives, and the defaults of the others. -/
def Given.settings (given : Given) : Settings where
  seed := (given.seed.map UInt64.ofNat).getD 0
  maxDepth := given.maxDepth.getD 256
  stepBudget := given.stepBudget.getD none
  inflector := given.inflector.getD .full

/-- Reads the kind of an inflector. -/
def inflectorReader : Ron.Reader InflectorKind :=
  Ron.Reader.variant fun key =>
    match InflectorKind.ofName? key with
    | some kind => pure kind
    | none => failure

/-- Reads settings. -/
def reader : Ron.Reader Settings := do
  let given ← Ron.Reader.record "GeneratorConfig" false (fun key (given : Given) =>
    match key with
    | "seed" => do pure { given with seed := ← Ron.Reader.once Ron.Reader.word given.seed }
    | "max_depth" => do
      pure { given with maxDepth := ← Ron.Reader.once Ron.Reader.word given.maxDepth }
    | "step_budget" => do
      let budget ← Ron.Reader.once (Ron.Reader.optional Ron.Reader.word) given.stepBudget
      pure { given with stepBudget := budget }
    | "inflector" => do
      pure { given with inflector := ← Ron.Reader.once inflectorReader given.inflector }
    | _ => do
      Ron.Reader.skip
      pure given) {}
  pure given.settings

/-- Reads the text of settings. -/
def load? (text : String) : Option Settings := Ron.Reader.readText reader text

end Settings

end TextGrammar
