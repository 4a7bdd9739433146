-- Sources of random words. A list of words is one that the caller writes down; it counts the
-- words taken from it, and gives zeros after its end.

namespace TextGrammar

/-- A source of random words of 64 and of 32 bits. -/
class WordSource (σ : Type) where
  word64 : σ → UInt64 × σ
  word32 : σ → UInt32 × σ

/-- Words written down, and how many were taken so far. -/
structure WordList where
  words : List UInt64
  used : Nat := 0
deriving Repr, DecidableEq

namespace WordList

/-- Takes the next word. -/
def next (list : WordList) : UInt64 × WordList :=
  (list.words.headD 0, ⟨list.words.tail, list.used + 1⟩)

instance : WordSource WordList where
  word64 := next
  word32 list := (list.next.1.toUInt32, list.next.2)

end WordList

end TextGrammar
