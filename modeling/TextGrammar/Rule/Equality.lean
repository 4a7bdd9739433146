-- Equality of rules. Two rules are equal when they are built alike and their weights are equal
-- as numbers: a weight of either zero is one weight, and not-a-number makes a rule differ from
-- itself.
import TextGrammar.Rule.Basic

namespace TextGrammar

mutual

/-- Segments built alike, with equal weights. -/
def Segment.same : Segment → Segment → Bool
  | .literal a, .literal b => a == b
  | .reference s m, .reference t n => s.same t && m == n
  | .choice a, .choice b => Rule.allSame a b
  | _, _ => false

/-- Targets built alike, with equal weights. -/
def Target.same : Target → Target → Bool
  | .symbol a, .symbol b => a == b
  | .dereference a, .dereference b => a.same b
  | .quoted a, .quoted b => a == b
  | .pattern a, .pattern b => Segment.allSame a b
  | .range a, .range b => a == b
  | _, _ => false

/-- Rules built alike, with equal weights. -/
def Rule.same : Rule → Rule → Bool
  | ⟨a, v⟩, ⟨b, w⟩ => Segment.allSame a b && v.numEq w

/-- Rows of segments of one length, the same one by one. -/
def Segment.allSame : List Segment → List Segment → Bool
  | [], [] => true
  | a :: as, b :: bs => a.same b && Segment.allSame as bs
  | _, _ => false

/-- Lists of rules of one length, the same one by one. -/
def Rule.allSame : List Rule → List Rule → Bool
  | [], [] => true
  | a :: as, b :: bs => a.same b && Rule.allSame as bs
  | _, _ => false

end

instance : BEq Segment := ⟨Segment.same⟩
instance : BEq Rule := ⟨Rule.same⟩

end TextGrammar
