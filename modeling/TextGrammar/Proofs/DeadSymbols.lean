-- The laws of dead symbols. A symbol that is reported to weigh nothing or to have no exit is never
-- expanded to text, nor is anything at which it comes up; and in a compiled grammar without
-- computed names, in which nothing undeclared is referred to, every other symbol has a text.
import TextGrammar.Proofs.Compiled
import TextGrammar.Proofs.Derivations
import TextGrammar.Proofs.OpenSymbols
import TextGrammar.Proofs.Parts
import TextGrammar.Proofs.Productive
import TextGrammar.Proofs.ReadCanonical

namespace TextGrammar

variable {σ : Type} {g : Grammar} {inflector : Inflector}

/-! ## Symbols without a derivation -/

/-- What derives a text finishes with every closed set. -/
theorem finishes_of_derives {names : Set String} (hclosed : g.Closed names) {phrase : Phrase}
    {text : List Char} (h : Derives g inflector phrase text) :
    Finishes (g.InOrUndeclared names) phrase := by
  induction h with
  | literal text => exact .literal text
  | reference modifiers _ ih => exact .reference modifiers ih
  | choice mem positive _ ih => exact .choice mem positive ih
  | symbolTarget _ ih => exact .symbolTarget ih
  | dereference _ _ ihInner _ => exact .dereference ihInner
  | quoted text => exact .quoted text
  | pattern _ ih => exact .pattern ih
  | number _ _ => exact .range _
  | letter _ _ => exact .range _
  | nil => exact .nil
  | cons _ _ ihSegment ihRow => exact .cons ihSegment ihRow
  | body _ ih => exact .body ih
  | @symbol name symbol rule text declared mem positive _ ih =>
    have hname : symbol.name = name := by simpa using List.find?_some declared
    have hmember := hclosed symbol (List.mem_of_find?_eq_some declared) ⟨rule, mem, positive, ih⟩
    rw [hname] at hmember
    exact .symbol (Or.inl hmember)

/-- Only productive symbols derive a text. -/
theorem mem_productive_of_derives {name : String} {text : List Char}
    (h : Derives g inflector (.symbol name) text) : name ∈ g.productive := by
  have hfinishes := finishes_of_derives g.isLeast_productive.1 h
  cases hfinishes with
  | symbol known =>
    rcases known with hmem | hundeclared
    · exact hmem
    · cases h with
      | symbol declared _ _ _ =>
        rw [← Grammar.symbol?_isSome, declared] at hundeclared
        cases hundeclared

/-- A weight of zero or below is not above zero. -/
theorem not_positive_of_le {weight : Double} (h : weight.le .zero = true) :
    Double.zero.lt weight = false := by
  cases weight with
  | nan => rfl
  | infinite negative =>
    cases negative with
    | true => rfl
    | false => cases h
  | finite negative m =>
    simp only [Double.le, Double.compare?, Double.zero, Bool.or_eq_true, beq_iff_eq,
      Option.some.injEq, Int.compare_eq_lt, Int.compare_eq_eq] at h
    simp only [Double.lt, Double.compare?, Double.zero, beq_eq_false_iff_ne, ne_eq,
      Option.some.injEq, Int.compare_eq_lt]
    omega

/-- A symbol that is reported derives nothing. -/
theorem not_derives_of_reported (hnames : (g.symbols.map (·.name)).Nodup) {name : String}
    (h : (∃ line, LintIssue.noExit name line ∈ g.lint) ∨
      ∃ line, LintIssue.zeroWeight name line ∈ g.lint) (text : List Char) :
    ¬Derives g inflector (.symbol name) text := by
  intro hderives
  rcases h with ⟨line, h⟩ | ⟨line, h⟩
  · obtain ⟨symbol, _, hnot, _, rfl, _⟩ := Grammar.noExit_mem_lint.mp h
    exact hnot (mem_productive_of_derives hderives)
  · obtain ⟨symbol, hmem, hweighs, rfl, _⟩ := Grammar.zeroWeight_mem_lint.mp h
    cases hderives with
    | @symbol _ found rule _ declared mem positive _ =>
      rw [symbol?_of_nodup hnames hmem] at declared
      cases declared
      rw [not_positive_of_le (List.all_eq_true.mp hweighs rule mem)] at positive
      cases positive

/-! ## Runs at which a symbol comes up -/

/-- When a symbol never gives a text, neither does an expansion at which it comes up. -/
theorem not_ok_of_comesUp {e : Expander σ} {source : σ} {start : Start} {moment : Moment σ}
    {owner name : String} (hnever : ∀ room walk text last,
      (e.enter room name).along walk ≠ (.ok text, last))
    (hsteps : e.Steps (start.moment e source) moment)
    (hfocus : moment.focus = .phrase owner (.symbol name)) (text : String) :
    (start.outcome e source).result ≠ .ok text := by
  obtain ⟨last, hlast, hend, houtcome⟩ := exists_last e source start
  have hbalanced := balanced_steps hsteps (balanced_start source start)
  have hcounted := hbalanced.counted
  have hwithin := hbalanced.within
  obtain ⟨focus, frames, walk⟩ := moment
  cases hfocus
  -- From the moment on, the run is the expansion of the symbol with the room that is left.
  have hroom : walk.depth + (e.limits.maxDepth - walk.depth) = e.limits.maxDepth := by
    dsimp only at hcounted
    omega
  have harrives : Arrives e ⟨.phrase owner (.symbol name), frames, walk⟩ frames
      ((e.enter (e.limits.maxDepth - walk.depth) name).along walk) :=
    simulates_phrase (.symbol name) frames walk hroom
  cases hresult : (e.enter (e.limits.maxDepth - walk.depth) name).along walk with
  | mk result next =>
    rw [hresult] at harrives
    cases result with
    | ok text => exact absurd hresult (hnever _ _ _ _)
    | error error =>
      obtain ⟨left, hfails⟩ := harrives
      rw [hlast.last_unique e hend (hsteps.trans hfails) rfl] at houtcome
      rw [← Option.some.inj houtcome]
      rintro ⟨⟩

/-- The expander that draws by random words. -/
def Expander.byWords [WordSource σ] (g : Grammar) (inflector : Inflector) (limits : Limits) :
    Expander σ := ⟨g, .ofWords, inflector, limits⟩

/-- A symbol that is reported to have no exit or to weigh nothing never gives a text: not by
itself, and nothing does at which it comes up, be it by a reference or by a computed name. -/
theorem reported_symbols_never_finish (g : Grammar) (hnames : (g.symbols.map (·.name)).Nodup)
    (name : String) (hreported : (∃ line, LintIssue.noExit name line ∈ g.lint) ∨
      ∃ line, LintIssue.zeroWeight name line ∈ g.lint)
    (σ : Type) [WordSource σ] (inflector : Inflector) (limits : Limits) (source : σ) :
    let e : Expander σ := .byWords g inflector limits
    (∀ text, (e.expandSymbol name source).result ≠ .ok text) ∧
    ∀ (start : Start) (moment : Moment σ) (owner : String),
      e.Steps (start.moment e source) moment → moment.focus = .phrase owner (.symbol name) →
      ∀ text, (start.outcome e source).result ≠ .ok text := by
  intro e
  have hnever : ∀ room walk text last, (e.enter room name).along walk ≠ (.ok text, last) := by
    intro room walk text last h
    have hderives := givesDerivable_enter (e := e) (fun request _ => ofWords_obeys request)
      room name walk text last h
    exact not_derives_of_reported hnames hreported text hderives
  have hfirst : e.Steps ((Start.symbol name).moment e source)
      ((Start.symbol name).moment e source) := .refl
  refine ⟨not_ok_of_comesUp hnever hfirst rfl, ?_⟩
  intro start moment owner hsteps hfocus
  exact not_ok_of_comesUp hnever hsteps hfocus

/-- A grammar with a circle that has no way out, and a symbol that weighs nothing. -/
def circle : Grammar :=
  ⟨[⟨"round", [⟨[.literal "and ", .reference (.symbol "round") []], .one⟩,
      ⟨[.literal "stop"], .zero⟩], 1⟩,
    ⟨"mute", [⟨[.literal "hush"], .zero⟩], 4⟩]⟩

/-- A rule that comes to a name of the circle. -/
def toCircle : Start := .rule "tale" ⟨[.reference (.dereference (.literal " mute ")) []], .one⟩

/-- The law at the circle, and at a rule that computes the name of the symbol that weighs
nothing. -/
theorem circle_never_finishes :
    LintIssue.noExit "round" 1 ∈ circle.lint ∧ LintIssue.zeroWeight "mute" 4 ∈ circle.lint ∧
    (∀ text, ((Expander.byWords circle .english {}).expandSymbol "round"
      (⟨[7], 0⟩ : WordList)).result ≠ .ok text) ∧
    ∀ text, (toCircle.outcome (.byWords circle .english {}) (⟨[7], 0⟩ : WordList)).result ≠
      .ok text := by
  have hnames : (circle.symbols.map (·.name)).Nodup := by decide
  have hround : LintIssue.noExit "round" 1 ∈ circle.lint := by decide +kernel
  have hmute : LintIssue.zeroWeight "mute" 4 ∈ circle.lint := by decide +kernel
  refine ⟨hround, hmute, ?_, ?_⟩
  · exact (reported_symbols_never_finish circle hnames "round" (Or.inl ⟨1, hround⟩) WordList
      .english {} _).1
  · have hsteps : ∃ frames walk, (Expander.byWords circle .english {}).Steps
        (toCircle.moment (.byWords circle .english {}) (⟨[7], 0⟩ : WordList))
        ⟨.phrase "tale" (.symbol (String.ofList (trim " mute ".toList))), frames, walk⟩ :=
      ⟨_, _, .head rfl (.head rfl (.head rfl (.head rfl (.head rfl (.head rfl .refl)))))⟩
    have htrim : String.ofList (trim " mute ".toList) = "mute" := by decide +kernel
    obtain ⟨frames, walk, hsteps⟩ := hsteps
    rw [htrim] at hsteps
    exact (reported_symbols_never_finish circle hnames "mute" (Or.inr ⟨4, hmute⟩) WordList
      .english {} _).2 toCircle _ "tale" hsteps rfl

/-! ## Symbols with a derivation -/

/-- A part that stands in the way of no derivation: no computed name, no range that is empty, and
no symbol that is not declared. -/
def Phrase.Derivable (g : Grammar) : Phrase → Prop
  | .target (.dereference _) => False
  | .target (.range range) => range.Proper
  | .symbol name => g.contains name = true
  | _ => True

/-- The names of the symbols that derive a text. -/
def derivableNames (g : Grammar) (inflector : Inflector) : Set String :=
  {name | ∃ text, Derives g inflector (.symbol name) text}

theorem exists_derives_range {range : DrawRange} (h : range.Proper) :
    ∃ text, Derives g inflector (.target (.range range)) text := by
  cases range with
  | number low high => exact ⟨_, .number (Int64.le_refl low) h⟩
  | letter low high => exact ⟨_, .letter (Char.le_refl low) h.1⟩

/-- A phrase that finishes with the derivable names has a derivation. -/
theorem exists_derives_of_finishes {phrase : Phrase} (hall : phrase.All (Phrase.Derivable g))
    (h : Finishes (g.InOrUndeclared (derivableNames g inflector)) phrase) :
    ∃ text, Derives g inflector phrase text := by
  induction h with
  | literal text => exact ⟨_, .literal text⟩
  | reference modifiers _ ih =>
    obtain ⟨text, htext⟩ := ih (Phrase.all_reference.mp hall).2
    exact ⟨_, .reference modifiers htext⟩
  | choice mem positive _ ih =>
    obtain ⟨text, htext⟩ := ih ((Phrase.all_choice.mp hall).2 _ mem)
    exact ⟨_, .choice mem positive htext⟩
  | symbolTarget _ ih =>
    obtain ⟨text, htext⟩ := ih (Phrase.all_symbol.mpr (Phrase.all_symbolTarget.mp hall).2)
    exact ⟨_, .symbolTarget htext⟩
  | dereference _ _ => exact absurd (Phrase.all_dereference.mp hall).1 id
  | quoted text => exact ⟨_, .quoted text⟩
  | pattern _ ih =>
    obtain ⟨text, htext⟩ := ih (Phrase.all_pattern.mp hall).2
    exact ⟨_, .pattern htext⟩
  | range range => exact exists_derives_range (Phrase.all_range.mp hall)
  | nil => exact ⟨_, .nil⟩
  | cons _ _ ihSegment ihRow =>
    obtain ⟨first, hfirst⟩ := ihSegment (Phrase.all_cons.mp hall).1
    obtain ⟨rest, hrest⟩ := ihRow (Phrase.all_cons.mp hall).2
    exact ⟨_, .cons hfirst hrest⟩
  | body _ ih =>
    obtain ⟨text, htext⟩ := ih hall
    exact ⟨_, .body htext⟩
  | symbol known =>
    have hdeclared := Phrase.all_symbol.mp hall
    rcases known with hderives | hundeclared
    · exact hderives
    · rw [Phrase.Derivable, hundeclared] at hdeclared
      cases hdeclared

/-- Derivable names are closed: a rule of positive weight that finishes with them is one more
step of a derivation. -/
theorem closed_derivableNames (hnames : (g.symbols.map (·.name)).Nodup)
    (hparts : ∀ part ∈ g.parts, part.Derivable g) : g.Closed (derivableNames g inflector) := by
  rintro symbol hmem ⟨rule, hrule, hpositive, hfinishes⟩
  obtain ⟨text, htext⟩ :=
    exists_derives_of_finishes (Phrase.all_of_rule hparts hmem hrule) hfinishes
  exact ⟨text, .symbol (symbol?_of_nodup hnames hmem) hrule hpositive htext⟩

/-- In a compiled grammar every range is in order, and every choice is made by weights. -/
theorem proper_of_compile {source : String} (h : Grammar.compile source = .ok g) :
    ∀ part ∈ g.parts, part.Proper := by
  intro part hpart
  obtain ⟨symbol, hsymbol, rule, hrule, hpart⟩ := Phrase.mem_parts.mp hpart
  cases allCanonical_of_compile h symbol hsymbol rule hrule with
  | mk _ hsegments _ _ =>
    exact Phrase.all_proper_of_canonical.all (.body _) nestingLimit hsegments part hpart

/-- When no undefined reference is reported, every symbol that is referred to is declared. -/
theorem declared_of_lint
    (h : ∀ name line target, .undefinedReference name line target ∉ g.lint) {name : String}
    (hpart : .symbol name ∈ g.parts) : g.contains name = true := by
  obtain ⟨symbol, hsymbol, rule, hrule, hpart⟩ := Phrase.mem_parts.mp hpart
  have hreferences : ∀ target ∈ (Phrase.body rule.segments).references,
      g.contains target = true := by
    intro target htarget
    by_contra hundeclared
    have hundefined : target ∈ g.undefinedIn symbol :=
      Grammar.mem_undefinedIn.mpr
        ⟨⟨rule, hrule, Phrase.references_body rule ▸ htarget⟩, by simpa using hundeclared⟩
    exact h symbol.name symbol.line target
      (Grammar.undefinedReference_mem_lint.mpr ⟨symbol, hsymbol, hundefined, rfl, rfl⟩)
  exact Phrase.all_symbols_of_references.all (.body _) hreferences _ hpart name rfl

/-- What reading and the check of names say about the parts of a grammar without computed names. -/
theorem derivable_of_compile {source : String} (hcompile : Grammar.compile source = .ok g)
    (hdirect : g.Direct)
    (hdefined : ∀ name line target, .undefinedReference name line target ∉ g.lint) :
    ∀ part ∈ g.parts, part.Derivable g := by
  intro part hpart
  unfold Phrase.Derivable
  split
  · exact hdirect _ hpart
  · exact proper_of_compile hcompile _ hpart
  · exact declared_of_lint hdefined hpart
  · trivial

/-- Nothing is reported against a symbol that is not productive only when it weighs nothing. -/
theorem mem_productive_of_unreported {symbol : Symbol} (hmem : symbol ∈ g.symbols)
    (hexit : ∀ line, .noExit symbol.name line ∉ g.lint)
    (hweight : ∀ line, .zeroWeight symbol.name line ∉ g.lint) : symbol.name ∈ g.productive := by
  by_contra hnot
  apply hexit symbol.line
  refine Grammar.noExit_mem_lint.mpr ⟨symbol, hmem, hnot, ?_, rfl, rfl⟩
  intro other hother hweighs hname
  exact hweight other.line
    (Grammar.zeroWeight_mem_lint.mpr ⟨other, hother, hweighs, hname, rfl⟩)

/-- The check misses no dead symbol. The names that it finds productive are the least closed set,
in whatever order symbols are declared. And in a compiled grammar without computed names, in which
no undefined reference is reported, every symbol against which nothing is reported derives a text
by rules and branches of positive weight, and some script of draws expands it to one. -/
theorem check_misses_no_dead_symbol (g : Grammar) :
    IsLeast {names : Set String | g.Closed names} (Grammar.nameSet g.productive) ∧
    (∀ other : Grammar, other.symbols.Perm g.symbols →
      ∀ name, name ∈ other.productive ↔ name ∈ g.productive) ∧
    ∀ source, Grammar.compile source = .ok g →
      g.Direct →
      (∀ name line target, .undefinedReference name line target ∉ g.lint) →
      ∀ symbol ∈ g.symbols, (∀ line, .noExit symbol.name line ∉ g.lint) →
        (∀ line, .zeroWeight symbol.name line ∉ g.lint) →
        ∀ inflector, ∃ text : String, Derives g inflector (.symbol symbol.name) text.toList ∧
          ∃ maxDepth script, ((Expander.scripted g inflector maxDepth).expandSymbol symbol.name
            script).result = .ok text := by
  refine ⟨g.isLeast_productive, fun other => Grammar.mem_productive_perm, ?_⟩
  intro source hcompile hdirect hdefined symbol hmem hexit hweight inflector
  have hclosed : g.Closed (derivableNames g inflector) :=
    closed_derivableNames (nodup_names_of_compile hcompile)
      (derivable_of_compile hcompile hdirect hdefined)
  have hproductive := mem_productive_of_unreported hmem hexit hweight
  obtain ⟨text, htext⟩ := g.isLeast_productive.2 hclosed hproductive
  rw [← String.toList_ofList (l := text)] at htext
  exact ⟨String.ofList text, htext, derives_iff_scripted.mp htext⟩

/-- Two symbols that go round, each with a way out. -/
def echoSource : String := "echo\n  [again [call]|stop^0]\n  [1-6][a-f]\ncall\n  [no^0|[echo]] ^.5\n"

/-- The law at a source with circles, a range and choices. -/
theorem echo_derives_a_text : ∃ g symbol, Grammar.compile echoSource = .ok g ∧
    symbol ∈ g.symbols ∧ g.lint = [] ∧
    ∃ text : String, Derives g .english (.symbol symbol.name) text.toList := by
  have hcheck : (match Grammar.compile echoSource with
      | .ok g => decide (g.Direct ∧ g.lint = [] ∧ g.symbols.length = 2)
      | .error _ => false) = true := by decide +kernel
  cases hcompile : Grammar.compile echoSource with
  | error error =>
    rw [hcompile] at hcheck
    cases hcheck
  | ok g =>
    rw [hcompile] at hcheck
    obtain ⟨hdirect, hlint, hsize⟩ := of_decide_eq_true hcheck
    obtain ⟨symbol, hsymbol⟩ := List.exists_mem_of_length_pos (l := g.symbols) (by omega)
    obtain ⟨text, hderives, _⟩ := (check_misses_no_dead_symbol g).2.2 _ hcompile hdirect
      (by simp [hlint]) symbol hsymbol (by simp [hlint]) (by simp [hlint]) .english
    exact ⟨g, symbol, rfl, hsymbol, hlint, text, hderives⟩

end TextGrammar
