-- The outline of a source: each heading with the rules below it. An outline says the same as the
-- lines that it came from, and the indentation of a rule is judged within its block alone.
import Mathlib.Data.List.Basic
import TextGrammar.Source.Compiler

namespace TextGrammar

/-! ## Blocks -/

/-- A line with a rule. -/
structure RuleLine where
  number : Nat
  indent : Nat
  text : String

/-- A heading, and the rules between it and the next heading or the end. -/
structure Block where
  number : Nat
  name : String
  rules : List RuleLine

/-- What stands above the first heading, and the blocks from there on. -/
structure Outline where
  stray : List RuleLine
  blocks : List Block

/-- The line of a rule. -/
def RuleLine.line (rule : RuleLine) : Line := ⟨rule.number, .rule rule.indent rule.text⟩

namespace Block

/-- The line of the heading. -/
def heading (block : Block) : Line := ⟨block.number, .heading block.name⟩

/-- The lines of a block. -/
def lines (block : Block) : List Line := block.heading :: block.rules.map RuleLine.line

/-- The indentation that the first rule fixes; 0 where there is no rule to indent. -/
def indent (block : Block) : Nat :=
  match block.rules with
  | [] => 0
  | first :: _ => first.indent

end Block

namespace Outline

/-- The lines of an outline. -/
def lines (o : Outline) : List Line :=
  o.stray.map RuleLine.line ++ o.blocks.flatMap Block.lines

/-- The outline with one more line in front: a heading takes the rules that had none. -/
def cons (line : Line) (o : Outline) : Outline :=
  match line.kind with
  | .heading name => ⟨[], ⟨line.number, name, o.stray⟩ :: o.blocks⟩
  | .rule indent text => ⟨⟨line.number, indent, text⟩ :: o.stray, o.blocks⟩

/-- The outline of lines. -/
def ofLines (lines : List Line) : Outline := lines.foldr cons ⟨[], []⟩

theorem lines_cons (line : Line) (o : Outline) : (cons line o).lines = line :: o.lines := by
  obtain ⟨number, kind⟩ := line
  cases kind <;> rfl

/-- No line is lost, moved or repeated. -/
theorem lines_ofLines (lines : List Line) : (ofLines lines).lines = lines := by
  induction lines with
  | nil => rfl
  | cons line lines ih =>
    unfold ofLines at ih ⊢
    rw [List.foldr_cons, lines_cons, ih]

end Outline

/-- The lines of a source that mean something, well indented or not. -/
def plainLines (source : String) : List Line := Line.ofRaw 1 (rawLines source.toList)

/-- The outline of a source. -/
def outline (source : String) : Outline := .ofLines (plainLines source)

theorem lines_outline (source : String) : (outline source).lines = plainLines source :=
  Outline.lines_ofLines _

/-! ## Line numbers -/

theorem le_number_of_mem_ofRaw {number : Nat} {raws : List (List Char)} {line : Line}
    (h : line ∈ Line.ofRaw number raws) : number ≤ line.number := by
  induction raws generalizing number with
  | nil => cases h
  | cons raw raws ih =>
    unfold Line.ofRaw at h
    split at h
    · rcases List.mem_cons.mp h with rfl | h
      · exact Nat.le_refl _
      · exact Nat.le_of_succ_le (ih h)
    · exact Nat.le_of_succ_le (ih h)

theorem pairwise_number_ofRaw (number : Nat) (raws : List (List Char)) :
    (Line.ofRaw number raws).Pairwise (·.number < ·.number) := by
  induction raws generalizing number with
  | nil => exact .nil
  | cons raw raws ih =>
    unfold Line.ofRaw
    split
    · exact .cons (fun line h => le_number_of_mem_ofRaw h) (ih _)
    · exact ih _

/-- The numbers of a source's lines rise. -/
theorem pairwise_plainLines (source : String) :
    ((plainLines source).map (·.number)).Pairwise (· < ·) :=
  List.pairwise_map.mpr (pairwise_number_ofRaw 1 _)

/-! ## Indentation -/

namespace Block

/-- The error that a rule's indentation is. -/
def misindented (block : Block) (rule : RuleLine) : SyntaxError :=
  ⟨rule.number, some 1, .badIndentation block.name block.indent rule.indent⟩

/-- The line of a rule of the block, or the error that its indentation is. -/
def check (block : Block) (rule : RuleLine) : Except SyntaxError Line :=
  if rule.indent = block.indent then .ok rule.line else .error (block.misindented rule)

/-- The lines of a block with their indentation checked. -/
def checked (block : Block) : List (Except SyntaxError Line) :=
  .ok block.heading :: block.rules.map block.check

theorem checkIndents_rules (block : Block) (rules : List RuleLine) (rest : List Line) :
    checkIndents (some ⟨block.name, some block.indent⟩) (rules.map RuleLine.line ++ rest) =
      rules.map block.check ++ checkIndents (some ⟨block.name, some block.indent⟩) rest := by
  induction rules with
  | nil => rfl
  | cons rule rules ih =>
    simp only [List.map_cons, List.cons_append, checkIndents, RuleLine.line] at ih ⊢
    rw [ih]
    rfl

end Block

/-- What stands above a heading has no part in how its block is indented. -/
theorem checkIndents_blocks (current : Option OpenSymbol) (blocks : List Block) :
    checkIndents current (blocks.flatMap Block.lines) = blocks.flatMap Block.checked := by
  induction blocks generalizing current with
  | nil => rfl
  | cons block blocks ih =>
    obtain ⟨number, name, rules⟩ := block
    cases rules with
    | nil => exact congrArg _ (ih _)
    | cons first rules =>
      -- The first rule fixes the indentation, so it passes and the others are held to it.
      have hrules := Block.checkIndents_rules ⟨number, name, first :: rules⟩ rules
        (blocks.flatMap Block.lines)
      have hfirst : Block.check ⟨number, name, first :: rules⟩ first = .ok first.line :=
        if_pos rfl
      rw [ih] at hrules
      simp only [List.flatMap_cons, Block.lines, Block.checked, Block.heading, List.map_cons,
        List.cons_append, checkIndents, RuleLine.line, hfirst]
      exact congrArg _ (congrArg _ hrules)

theorem checkIndents_stray (stray : List RuleLine) (rest : List Line) :
    checkIndents none (stray.map RuleLine.line ++ rest) =
      stray.map (fun rule => .ok rule.line) ++ checkIndents none rest := by
  induction stray with
  | nil => rfl
  | cons rule stray ih => exact congrArg _ ih

/-- The lines of a source as they are compiled, by their outline. -/
theorem sourceLines_eq (source : String) :
    sourceLines source = (outline source).stray.map (fun rule => .ok rule.line) ++
      (outline source).blocks.flatMap Block.checked := by
  have hlines : sourceLines source = checkIndents none (outline source).lines := by
    rw [lines_outline]
    rfl
  rw [hlines, Outline.lines, checkIndents_stray, checkIndents_blocks]

end TextGrammar
