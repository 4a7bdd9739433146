-- The law of joined patterns. Of two patterns that state no weights, one behind the other, each is
-- read as it would be alone: no scan that starts in the first reads on into the second, and what
-- stands in front of the second moves its columns, nothing else. Only where two literals meet do
-- they make one.
import TextGrammar.Proofs.Columns
import TextGrammar.Proofs.SealedRules

namespace TextGrammar

open SourceChar

/-! ## Joining rows of segments -/

/-- One row of segments behind another. Two literals that meet make one. -/
def Segment.join : List Segment → List Segment → List Segment
  | [], others => others
  | [.literal a], .literal b :: others => .literal (a ++ b) :: others
  | segment :: segments, others => segment :: Segment.join segments others

namespace Segment

variable {segment block : Segment} {a b c : List Segment}

theorem join_cons (h : a = [] → segment.isLiteral = true → ∀ s ∈ b.head?, s.isLiteral = false) :
    join (segment :: a) b = segment :: join a b := by
  cases segment with
  | reference target modifiers => rfl
  | choice branches => rfl
  | literal text =>
    cases a with
    | cons next a => rfl
    | nil =>
      cases b with
      | nil => rfl
      | cons s b =>
        have hs := h rfl rfl s rfl
        cases s with
        | literal other => cases hs
        | reference target modifiers => rfl
        | choice branches => rfl

theorem join_nil : join a [] = a := by
  induction a with
  | nil => rfl
  | cons segment a ih => rw [join_cons (by simp), ih]

/-- Where a row does not end with a literal, what follows it does not meet it. -/
theorem join_append (h : ∀ s ∈ a.getLast?, s.isLiteral = false) :
    join (a ++ b) c = a ++ join b c := by
  induction a with
  | nil => rfl
  | cons segment a ih =>
    cases a with
    | nil =>
      have hsegment : segment.isLiteral = false := h segment rfl
      exact join_cons (by simp [hsegment])
    | cons next a =>
      rw [List.cons_append, join_cons (by simp), ih h]
      rfl

/-- Where a row goes on with a block, what stands in front does not meet that. -/
theorem join_append_block (h : block.isLiteral = false) :
    join a (b ++ block :: c) = join a b ++ block :: c := by
  induction a with
  | nil => rfl
  | cons segment a ih =>
    cases b with
    | nil =>
      rw [List.nil_append, join_nil] at ih ⊢
      rw [join_cons (by simp [h]), ih, List.cons_append]
    | cons s b =>
      cases a with
      | nil => cases segment <;> cases s <;> rfl
      | cons next a =>
        have hcons (others : List Segment) : join (segment :: next :: a) others =
            segment :: join (next :: a) others := join_cons (by simp)
        rw [hcons, hcons, ih, List.cons_append]

end Segment

/-- The literal that characters make is that of the first of them and that of the others. -/
theorem literalSegment_append (a b : List SourceChar) :
    literalSegment (a ++ b) = Segment.join (literalSegment a) (literalSegment b) := by
  cases a with
  | nil => rfl
  | cons c a =>
    cases b with
    | nil => rw [List.append_nil]; rfl
    | cons d b =>
      change [Segment.literal (text ((c :: a) ++ (d :: b)))] =
        [Segment.literal (text (c :: a) ++ text (d :: b))]
      rw [text, text, text, SourceChar.plain, List.map_append, String.ofList_append]
      rfl

/-! ## Bodies in two parts -/

/-- Blocks are read as brackets. -/
def ReadsBrackets (readBlock : BlockReader) : Prop :=
  ∀ column interior segment, readBlock column interior = .ok segment → segment.isLiteral = false

/-- Puts segments in front of a body. -/
def RuleBody.behind (segments : List Segment) (body : RuleBody) : RuleBody :=
  ⟨segments ++ body.segments, body.weight⟩

section

variable {readBlock : BlockReader} {weighted : Bool} {literal cs : List SourceChar}
  {segments : List Segment}

theorem readBody_block {c closing : SourceChar} {interior rest : List SourceChar}
    {block : Segment} (hopen : c.is '[' = true)
    (hinside : interiorLength c (interior ++ closing :: rest) = .ok interior.length)
    (hblock : readBlock c.column interior = .ok block) :
    readBody readBlock weighted literal (c :: (interior ++ closing :: rest)) =
      (readBody readBlock weighted [] rest).map
        (RuleBody.behind (literalSegment literal.reverse ++ [block])) := by
  rw [readBody, if_pos hopen, hinside, ok_bind, List.take_left, drop_past, hblock, ok_bind]
  cases readBody readBlock weighted [] rest with
  | error fault => rfl
  | ok body =>
    rw [ok_bind, Except.map, RuleBody.behind, List.append_assoc]
    rfl

/-- A body that states no weight, in two parts: up to the last bracket, which is read as it is in
front of anything, and the literal characters behind that. -/
structure InTwo (readBlock : BlockReader) (weighted : Bool) (literal cs : List SourceChar)
    (front back : List SourceChar) (done : List Segment) : Prop where
  split : cs = front ++ back
  read : ∀ rest, readBody readBlock weighted literal (front ++ rest) =
    (readBody readBlock weighted [] rest).map (RuleBody.behind done)
  closes : ∀ c ∈ front.getLast?, c.is ']' = true
  blocks : ∀ s ∈ done.getLast?, s.isLiteral = false
  bare : Bare back

theorem inTwo_of_bare (h : Bare cs) : InTwo readBlock weighted [] cs [] cs [] where
  split := rfl
  read rest := by
    rw [List.nil_append]
    cases readBody readBlock weighted [] rest <;> rfl
  closes c hc := by cases hc
  blocks s hs := by cases hs
  bare := h

/-- A body is literal characters alone, or it has a bracket in front of them. -/
theorem bare_or_inTwo (hread : ReadsBrackets readBlock)
    (h : readBody readBlock weighted literal cs = .ok ⟨segments, none⟩) :
    Bare cs ∧ segments = literalSegment (literal.reverse ++ cs) ∨
    ∃ front back done, front ≠ [] ∧ InTwo readBlock weighted literal cs front back done ∧
      segments = done ++ literalSegment back := by
  fun_induction readBody readBlock weighted literal cs generalizing segments with
  | case1 literal =>
    cases h
    exact .inl ⟨by simp [Bare], by rw [List.append_nil]⟩
  | case2 literal c cs hopen ih =>
    obtain ⟨inside, hinside, h⟩ := bind_eq_ok.mp h
    obtain ⟨block, hblock, h⟩ := bind_eq_ok.mp h
    obtain ⟨⟨later, stated⟩, hlater, h⟩ := bind_eq_ok.mp h
    cases h
    obtain ⟨interior, closing, rest, rfl, rfl, hclosing, hclosed⟩ := exists_closed hinside
    rw [List.take_left] at hblock
    have hsplit : ∃ front back done, InTwo readBlock weighted [] rest front back done ∧
        later = done ++ literalSegment back := by
      have htwo := ih interior.length hlater
      rw [drop_past] at htwo
      obtain ⟨hbare, rfl⟩ | ⟨front, back, done, _, htwo, hsegments⟩ := htwo
      · exact ⟨[], rest, [], inTwo_of_bare hbare, rfl⟩
      · exact ⟨front, back, done, htwo, hsegments⟩
    obtain ⟨front, back, done, htwo, rfl⟩ := hsplit
    refine .inr ⟨c :: (interior ++ closing :: front), back,
      literalSegment literal.reverse ++ block :: done, by simp, ?_, by simp⟩
    refine ⟨?_, fun rest => ?_, fun d hd => ?_, fun s hs => ?_, htwo.bare⟩
    · rw [htwo.split, List.cons_append, List.append_assoc, List.cons_append]
    · rw [List.cons_append, List.append_assoc, List.cons_append,
        readBody_block hopen (hclosed _) hblock, htwo.read]
      cases readBody readBlock weighted [] rest with
      | error fault => rfl
      | ok body => simp [Except.map, RuleBody.behind]
    · rw [← List.cons_append, List.getLast?_append_cons] at hd
      obtain ⟨rfl, _⟩ | hd := mem_getLast?_cons hd
      · exact hclosing
      · exact htwo.closes d hd
    · rw [List.getLast?_append_cons] at hs
      obtain ⟨rfl, _⟩ | hs := mem_getLast?_cons hs
      · exact hread _ _ _ hblock
      · exact htwo.blocks s hs
  | case3 literal c cs hopen hclose => cases h
  | case4 literal c cs hopen hclose hcaret hweighted =>
    obtain ⟨weight, hweight, h⟩ := bind_eq_ok.mp h
    cases h
  | case5 literal c cs hopen hclose hcaret hunweighted => cases h
  | case6 literal c cs hopen hclose hcaret ih =>
    obtain ⟨hbare, rfl⟩ | ⟨front, back, done, hne, htwo, rfl⟩ := ih h
    · refine .inl ⟨?_, by simp⟩
      exact List.forall_mem_cons.mpr ⟨by simp [hopen, hclose, hcaret], hbare⟩
    · refine .inr ⟨c :: front, back, done, by simp, ?_, rfl⟩
      refine ⟨by rw [htwo.split, List.cons_append], fun rest => ?_, ?_, htwo.blocks, htwo.bare⟩
      · rw [List.cons_append, readBody, if_neg hopen, if_neg hclose, if_neg hcaret, htwo.read]
      · rw [List.getLast?_cons_of_ne_nil hne]
        exact htwo.closes

/-- Each body that states no weight is in two parts. -/
theorem exists_inTwo (hread : ReadsBrackets readBlock)
    (h : readBody readBlock weighted [] cs = .ok ⟨segments, none⟩) :
    ∃ front back done, InTwo readBlock weighted [] cs front back done ∧
      segments = done ++ literalSegment back := by
  obtain ⟨hbare, rfl⟩ | ⟨front, back, done, _, htwo, hsegments⟩ := bare_or_inTwo hread h
  · exact ⟨[], cs, [], inTwo_of_bare hbare, rfl⟩
  · exact ⟨front, back, done, htwo, hsegments⟩

/-- With literal characters in front, a body goes on from the literal that these make. -/
theorem readBody_behind (hread : ReadsBrackets readBlock) (earlier : List SourceChar)
    (h : readBody readBlock weighted literal cs = .ok ⟨segments, none⟩) :
    readBody readBlock weighted (literal ++ earlier) cs =
      .ok ⟨Segment.join (literalSegment earlier.reverse) segments, none⟩ := by
  fun_induction readBody readBlock weighted literal cs generalizing segments with
  | case1 literal =>
    cases h
    rw [readBody, List.reverse_append, literalSegment_append]
  | case2 literal c cs hopen ih =>
    obtain ⟨inside, hinside, h⟩ := bind_eq_ok.mp h
    obtain ⟨block, hblock, h⟩ := bind_eq_ok.mp h
    obtain ⟨⟨later, stated⟩, hlater, h⟩ := bind_eq_ok.mp h
    cases h
    rw [readBody, if_pos hopen, hinside, ok_bind, hblock, ok_bind, hlater, ok_bind,
      List.reverse_append, literalSegment_append,
      Segment.join_append_block (hread _ _ _ hblock)]
  | case3 literal c cs hopen hclose => cases h
  | case4 literal c cs hopen hclose hcaret hweighted =>
    obtain ⟨weight, hweight, h⟩ := bind_eq_ok.mp h
    cases h
  | case5 literal c cs hopen hclose hcaret hunweighted => cases h
  | case6 literal c cs hopen hclose hcaret ih =>
    rw [readBody, if_neg hopen, if_neg hclose, if_neg hcaret]
    exact ih h

/-- Bodies that state no weights, one behind the other. -/
theorem readBody_append {others : List SourceChar} {later : List Segment}
    (hread : ReadsBrackets readBlock)
    (hcs : readBody readBlock weighted [] cs = .ok ⟨segments, none⟩)
    (hothers : readBody readBlock weighted [] others = .ok ⟨later, none⟩) :
    readBody readBlock weighted [] (cs ++ others) = .ok ⟨Segment.join segments later, none⟩ := by
  obtain ⟨front, back, done, htwo, rfl⟩ := exists_inTwo hread hcs
  have hback := readBody_behind hread back.reverse hothers
  rw [List.nil_append, List.reverse_reverse] at hback
  rw [htwo.split, List.append_assoc, htwo.read, readBody_bare htwo.bare, List.append_nil, hback,
    Segment.join_append htwo.blocks]
  rfl

end

/-! ## The law -/

theorem readsBrackets_readBracket (readBlock : BlockReader) :
    ReadsBrackets (readBracket readBlock) := by
  have hreference {first : SourceChar} {cs : List SourceChar} {segment : Segment}
      (h : readReference readBlock first cs = .ok segment) : segment.isLiteral = false := by
    obtain ⟨_, _, h⟩ := bind_eq_ok.mp h
    obtain ⟨_, _, h⟩ := bind_eq_ok.mp h
    cases h
    rfl
  have hchoice {branches : List (List SourceChar)} {segment : Segment}
      (h : readChoice readBlock branches = .ok segment) : segment.isLiteral = false := by
    obtain ⟨_, _, h⟩ := bind_eq_ok.mp h
    cases h
    rfl
  intro column interior segment h
  unfold readBracket at h
  split at h
  · cases h
  split_ifs at h
  · split at h
    · rename_i hread
      cases h
      exact hreference hread
    · obtain ⟨parts, _, h⟩ := bind_eq_ok.mp h
      split at h
      · cases h
      · exact hchoice h
  · obtain ⟨parts, _, h⟩ := bind_eq_ok.mp h
    split at h
    · exact hreference h
    · exact hchoice h

theorem readsBrackets_readNested (levels : Nat) : ReadsBrackets (readNested levels) := by
  cases levels with
  | zero => exact fun column interior segment h => nomatch h
  | succ levels => exact readsBrackets_readBracket (readNested levels)

theorem RuleBody.read_eq_ok {column : Nat} {cs : List Char} {body : RuleBody} :
    RuleBody.read column cs = .ok body ↔ ∃ chars, resolve column cs = .ok chars ∧
      readBody (readNested nestingLimit) true [] chars = .ok body := bind_eq_ok

theorem RuleBody.read_append {column : Nat} {a b : List Char} {first second : List Segment}
    (ha : RuleBody.read column a = .ok ⟨first, none⟩)
    (hb : RuleBody.read column b = .ok ⟨second, none⟩) :
    RuleBody.read column (a ++ b) = .ok ⟨Segment.join first second, none⟩ := by
  have hmoved : RuleBody.read (column + a.length) b = .ok ⟨second, none⟩ := by
    rw [RuleBody.read_moved, hb]
    rfl
  obtain ⟨as, has, hfirst⟩ := RuleBody.read_eq_ok.mp ha
  obtain ⟨bs, hbs, hsecond⟩ := RuleBody.read_eq_ok.mp hmoved
  refine RuleBody.read_eq_ok.mpr ⟨as ++ bs, ?_,
    readBody_append (readsBrackets_readNested _) hfirst hsecond⟩
  rw [resolve_append has, hbs]
  rfl

/-- The pattern can be read, and states no weight outside of its brackets. -/
def StatesNoWeight (pattern : String) : Prop :=
  ∃ segments, RuleBody.read 1 pattern.toList = .ok ⟨segments, none⟩

theorem statesNoWeight_iff {pattern : String} : StatesNoWeight pattern ↔
    (RuleBody.read 1 pattern.toList).toOption.any (·.weight.isNone) = true := by
  unfold StatesNoWeight
  rcases RuleBody.read 1 pattern.toList with _ | ⟨segments, _ | weight⟩ <;>
    simp [Except.toOption]

instance : DecidablePred StatesNoWeight := fun _ => decidable_of_iff _ statesNoWeight_iff.symm

theorem ofPattern_eq (pattern : String) : Rule.ofPattern pattern =
    ((RuleBody.read 1 pattern.toList).map RuleBody.rule).mapError (Fault.onLine 1) := by
  rw [Rule.ofPattern, Rule.read_eq]

/-- Patterns that state no weights are read one after the other: their segments stand in a row,
with one literal for two that meet. -/
theorem patterns_are_read_one_after_the_other {p q : String} {first second : Rule}
    (hp : Rule.ofPattern p = .ok first) (hq : Rule.ofPattern q = .ok second)
    (hfirst : StatesNoWeight p) (hsecond : StatesNoWeight q) :
    Rule.ofPattern (p ++ q) = .ok ⟨Segment.join first.segments second.segments, .one⟩ ∧
      StatesNoWeight (p ++ q) := by
  obtain ⟨a, ha⟩ := hfirst
  obtain ⟨b, hb⟩ := hsecond
  rw [ofPattern_eq, ha] at hp
  rw [ofPattern_eq, hb] at hq
  cases hp
  cases hq
  have hjoined := RuleBody.read_append ha hb
  rw [← String.toList_append] at hjoined
  refine ⟨?_, _, hjoined⟩
  rw [ofPattern_eq, hjoined]
  rfl

/-- Two literals meet where the second pattern begins. -/
theorem salutation_is_read_in_one :
    Rule.ofPattern ("[day], " ++ "dear [friend]") = .ok ⟨[.reference (.symbol "day") [],
      .literal ", dear ", .reference (.symbol "friend") []], .one⟩ := by
  have hname (name : String) (hvalid : isSymbolName name.toList = true)
      (hrange : readRange name.toList = .noRange) :
      (Segment.reference (.symbol name) []).Canonical nestingLimit :=
    @Segment.Canonical.reference (nestingLimit - 1) _ _ (.symbol hvalid hrange)
  have hpair {a b : Segment} {pattern : String} (htext : Rule.text ⟨[a, b], .one⟩ = pattern)
      (ha : a.Canonical nestingLimit) (hb : b.Canonical nestingLimit)
      (hapart : ¬(a.isLiteral = true ∧ b.isLiteral = true)) :
      Rule.ofPattern pattern = .ok ⟨[a, b], .one⟩ := by
    rw [← htext]
    refine canonical_text_is_read_back _ (.mk ?_ ?_ ⟨_, rfl⟩ fun h => absurd rfl h)
    · exact List.isChain_pair.mpr hapart
    · exact List.forall_mem_cons.mpr ⟨ha, List.forall_mem_singleton.mpr hb⟩
  have hday : Rule.ofPattern "[day], " =
      .ok ⟨[.reference (.symbol "day") [], .literal ", "], .one⟩ :=
    hpair (by decide +kernel) (hname "day" (by decide) (by decide)) (.literal (by decide))
      (by decide)
  have hfriend : Rule.ofPattern "dear [friend]" =
      .ok ⟨[.literal "dear ", .reference (.symbol "friend") []], .one⟩ :=
    hpair (by decide +kernel) (.literal (by decide)) (hname "friend" (by decide) (by decide))
      (by decide)
  exact (patterns_are_read_one_after_the_other hday hfriend (by decide +kernel)
    (by decide +kernel)).1

end TextGrammar
