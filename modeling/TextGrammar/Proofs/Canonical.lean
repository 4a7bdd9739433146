-- Canonical rules: the rules that the notation can spell. What a canonical rule is on the
-- outside it is at every level of its brackets, so each predicate below carries the number of
-- levels that brackets may have.
import Mathlib.Data.List.Chain
import TextGrammar.Source.RuleReader

namespace TextGrammar

/-! ## Parts -/

/-- The segment is text that stands for itself. All other segments stand in brackets. -/
def Segment.isLiteral : Segment → Bool
  | .literal _ => true
  | _ => false

/-- No two literals stand side by side. -/
def Apart (segments : List Segment) : Prop :=
  segments.IsChain fun a b => ¬(a.isLiteral = true ∧ b.isLiteral = true)

/-- A literal at the end does not end in white space, unless that is a line feed or a tab, which
have escapes. In front of a weight the reader would take such white space for a blank. -/
def KeepsEnd (segments : List Segment) : Prop :=
  ∀ text c, segments.getLast? = some (.literal text) → text.toList.getLast? = some c →
    Unicode.isWhiteSpace c = true → c = '\n' ∨ c = '\t'

/-- The low bound is not above the high one; letters are those of ASCII, of one case. -/
def DrawRange.Proper : DrawRange → Prop
  | .number low high => low ≤ high
  | .letter low high =>
    low ≤ high ∧ low.isAlpha = true ∧ high.isAlpha = true ∧ low.isUpper = high.isUpper

instance : (range : DrawRange) → Decidable range.Proper
  | .number _ _ => inferInstanceAs (Decidable (_ ≤ _))
  | .letter _ _ => inferInstanceAs (Decidable (_ ∧ _ ∧ _ ∧ _))

/-- A finite number that is not negative; the negative zero is not one. -/
def Double.IsWeight (weight : Double) : Prop := ∃ m, weight = .finite false m

/-! ## Segments, targets and rules -/

mutual

/-- A segment as reading gives it, with no more than `levels` brackets around one another. -/
inductive Segment.Canonical : (levels : Nat) → Segment → Prop
  | literal {levels : Nat} {text : String} (nonempty : text ≠ "") :
      Segment.Canonical levels (.literal text)
  | reference {levels : Nat} {target : Target} {modifiers : List Modifier}
      (target_canonical : Target.Canonical levels target) :
      Segment.Canonical (levels + 1) (.reference target modifiers)
  | choice {levels : Nat} {branches : List Rule} (two : 2 ≤ branches.length)
      (branches_canonical : ∀ rule ∈ branches, Rule.Canonical levels rule) :
      Segment.Canonical (levels + 1) (.choice branches)

/-- A target as reading gives it, with no more than `levels` brackets inside. -/
inductive Target.Canonical : (levels : Nat) → Target → Prop
  | symbol {levels : Nat} {name : String} (valid : isSymbolName name.toList = true)
      (noRange : readRange name.toList = .noRange) : Target.Canonical levels (.symbol name)
  | dereference {levels : Nat} {inner : Segment} (bracketed : inner.isLiteral = false)
      (inner_canonical : Segment.Canonical levels inner) :
      Target.Canonical levels (.dereference inner)
  | quoted {levels : Nat} {text : String} : Target.Canonical levels (.quoted text)
  | pattern {levels : Nat} {segments : List Segment} (apart : Apart segments)
      (segments_canonical : ∀ segment ∈ segments, Segment.Canonical levels segment) :
      Target.Canonical levels (.pattern segments)
  | range {levels : Nat} {range : DrawRange} (proper : range.Proper) :
      Target.Canonical levels (.range range)

/-- A rule as reading gives it, with no more than `levels` brackets around one another. -/
inductive Rule.Canonical : (levels : Nat) → Rule → Prop
  | mk {levels : Nat} {segments : List Segment} {weight : Double} (apart : Apart segments)
      (segments_canonical : ∀ segment ∈ segments, Segment.Canonical levels segment)
      (isWeight : weight.IsWeight)
      (keepsEnd : weight ≠ defaultWeight → KeepsEnd segments) :
      Rule.Canonical levels ⟨segments, weight⟩

end

/-- Segments in a row as reading gives them. -/
structure CanonicalRow (levels : Nat) (segments : List Segment) : Prop where
  apart : Apart segments
  canonical : ∀ segment ∈ segments, segment.Canonical levels

/-! ## Rows -/

theorem apart_append_bracketed {a b : List Segment} {s : Segment} (hs : s.isLiteral = false)
    (ha : Apart a) (hb : Apart b) : Apart (a ++ s :: b) := by
  have hsb : Apart (s :: b) := List.IsChain.cons hb (by simp [hs])
  refine List.IsChain.append ha hsb ?_
  intro x _ y hy
  cases hy
  simp [hs]

theorem keepsEnd_append_bracketed {a b : List Segment} {s : Segment} (hs : s.isLiteral = false)
    (hb : KeepsEnd b) : KeepsEnd (a ++ s :: b) := by
  intro text c hlast
  rw [List.getLast?_append_cons, List.getLast?_cons] at hlast
  cases hl : b.getLast? with
  | none =>
    simp only [hl, Option.getD_none, Option.some.injEq] at hlast
    subst hlast
    simp [Segment.isLiteral] at hs
  | some last =>
    simp only [hl, Option.getD_some, Option.some.injEq] at hlast
    subst hlast
    exact hb text c hl

end TextGrammar
