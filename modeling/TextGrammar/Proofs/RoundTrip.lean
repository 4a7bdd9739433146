-- The round trip: the text of a canonical rule is read back as the rule. What a reader needs to
-- know of the characters before it is said by one relation for each kind of text, and an
-- induction on the levels of brackets ties the relations to the writer.
import TextGrammar.Proofs.Spelling

namespace TextGrammar

open SourceChar

/-! ## Blanks at the ends -/

section

variable {c : SourceChar} {cs : List SourceChar}

theorem trimStart_of_head (h : ∀ c ∈ cs.head?, c.isBlank = false) :
    SourceChar.trimStart cs = cs := by
  cases cs with
  | nil => rfl
  | cons c cs => simp [SourceChar.trimStart, h c (by simp)]

theorem trimEnd_of_last (h : ∀ c ∈ cs.getLast?, c.isBlank = false) :
    SourceChar.trimEnd cs = cs := by
  have hreverse : SourceChar.trimStart cs.reverse = cs.reverse :=
    trimStart_of_head (by rwa [List.head?_reverse])
  unfold SourceChar.trimStart at hreverse
  rw [SourceChar.trimEnd, hreverse, List.reverse_reverse]

/-- Trimming does not go on into what does not end with a blank. -/
theorem trimEnd_append_of_last {a b : List SourceChar}
    (ha : ∀ c ∈ a.getLast?, c.isBlank = false) :
    SourceChar.trimEnd (a ++ b) = a ++ SourceChar.trimEnd b := by
  have hstop : SourceChar.trimStart a.reverse = a.reverse :=
    trimStart_of_head (by rwa [List.head?_reverse])
  unfold SourceChar.trimStart at hstop
  unfold SourceChar.trimEnd
  rw [List.reverse_append, List.dropWhile_append]
  split
  · rename_i hempty
    rw [List.isEmpty_iff.mp hempty, hstop, List.reverse_reverse, List.reverse_nil, List.append_nil]
  · rw [List.reverse_append, List.reverse_reverse]

theorem trimEnd_cons (hc : c.isBlank = false) :
    SourceChar.trimEnd (c :: cs) = c :: SourceChar.trimEnd cs := by
  have hlast : ∀ d ∈ [c].getLast?, d.isBlank = false := by simpa using hc
  exact trimEnd_append_of_last hlast

end

/-! ## Bodies -/

/-- Literal characters at the top of a body: neither brackets nor carets. -/
def Bare (cs : List SourceChar) : Prop :=
  ∀ c ∈ cs, c.is '[' = false ∧ c.is ']' = false ∧ c.is '^' = false

/-- The characters spell the segments, and behind them the weight when one is stated. -/
inductive BodyOf (readBlock : BlockReader) (weighted : Bool) :
    List Segment → Option Double → List SourceChar → Prop
  | done : BodyOf readBlock weighted [] none []
  | weight {caret : SourceChar} {cs : List SourceChar} {weight : Double}
      (allowed : weighted = true) (isCaret : caret.is '^' = true) (isPlain : ∀ c ∈ cs, c.IsPlain)
      (read : readWeight caret.column cs = .ok weight) :
      BodyOf readBlock weighted [] (some weight) (caret :: cs)
  | literal {text : String} {segments : List Segment} {stated : Option Double}
      {cs rest : List SourceChar} (nonempty : text ≠ "")
      (escaped : Escaped specialChars text.toList cs)
      (apart : ∀ s ∈ segments.head?, s.isLiteral = false)
      (keepsEnd : stated ≠ none → segments = [] → ∀ c ∈ cs.getLast?, c.isBlank = false)
      (body : BodyOf readBlock weighted segments stated rest) :
      BodyOf readBlock weighted (.literal text :: segments) stated (cs ++ rest)
  | block {segment : Segment} {segments : List Segment} {stated : Option Double}
      {opening closing : SourceChar} {interior rest : List SourceChar}
      (closed : Closed opening interior closing)
      (read : readBlock opening.column interior = .ok segment)
      (body : BodyOf readBlock weighted segments stated rest) :
      BodyOf readBlock weighted (segment :: segments) stated
        (opening :: (interior ++ closing :: rest))

section

variable {readBlock : BlockReader} {weighted : Bool} {segments : List Segment}
  {stated : Option Double} {cs : List SourceChar}

theorem StandsFor.isPlain {c : SourceChar} (h : StandsFor specialChars c) : c.IsPlain := by
  have hsub : scanMarks ⊆ specialChars := by decide
  exact fun mark hmark => h.noMark mark (hsub hmark)

theorem BodyOf.nested (h : BodyOf readBlock weighted segments stated cs) : Nested cs := by
  induction h with
  | done => exact .nil
  | weight _ hcaret hplain _ =>
    exact .plain (isPlain_of_is hcaret (by decide)) (.of_plain hplain)
  | literal _ hescaped _ _ _ ih =>
    exact (Nested.of_plain fun c hc => (hescaped.stands c hc).isPlain).append ih
  | block hclosed _ _ ih => exact .block hclosed ih

theorem readBody_bare {rest : List SourceChar} (h : Bare cs) :
    readBody readBlock weighted literal (cs ++ rest) =
      readBody readBlock weighted (cs.reverse ++ literal) rest := by
  induction cs generalizing literal with
  | nil => rfl
  | cons c cs ih =>
    obtain ⟨hopen, hclose, hcaret⟩ := h c List.mem_cons_self
    rw [List.cons_append, readBody]
    simp only [hopen, hclose, hcaret, Bool.false_eq_true, if_false]
    rw [ih fun d hd => h d (List.mem_cons_of_mem c hd), List.reverse_cons, List.append_assoc,
      List.singleton_append]

theorem readBody_pass {literal rest : List SourceChar}
    (h : ∀ c ∈ cs, StandsFor specialChars c) :
    readBody readBlock weighted literal (cs ++ rest) =
      readBody readBlock weighted (cs.reverse ++ literal) rest := by
  refine readBody_bare fun c hc => ?_
  have hmark := (h c hc).noMark
  exact ⟨hmark '[' (by decide), hmark ']' (by decide), hmark '^' (by decide)⟩

theorem literalSegment_of_escaped {text : String} (hne : text ≠ "")
    (h : Escaped specialChars text.toList cs) : literalSegment cs = [.literal text] := by
  have htext : SourceChar.text cs = text := by
    rw [SourceChar.text, h.plain, String.ofList_toList]
  have hcs : cs ≠ [] := by
    rintro rfl
    exact hne htext.symm
  rw [literalSegment, if_neg (by simpa using hcs), htext]

/-- A body is read back; the literal characters before it, if any, make a literal of their own,
which must not run into another literal nor lose its end to a weight. -/
theorem BodyOf.readBody (h : BodyOf readBlock weighted segments stated cs)
    (literal : List SourceChar)
    (hliteral : literal ≠ [] → (∀ s ∈ segments.head?, s.isLiteral = false) ∧
      (stated ≠ none → segments = [] → ∀ c ∈ literal.head?, c.isBlank = false)) :
    readBody readBlock weighted literal cs =
      .ok ⟨literalSegment literal.reverse ++ segments, stated⟩ := by
  induction h generalizing literal with
  | done => rw [TextGrammar.readBody, List.append_nil]
  | @weight caret cs weight hallowed hcaret _ hread =>
    have hopen := is_eq_false hcaret (by decide : '^' ≠ '[')
    have hclose := is_eq_false hcaret (by decide : '^' ≠ ']')
    have hend : SourceChar.trimEnd literal.reverse = literal.reverse := by
      apply trimEnd_of_last
      rw [List.getLast?_reverse]
      intro c hc
      by_cases hempty : literal = []
      · simp [hempty] at hc
      · exact (hliteral hempty).2 (by simp) rfl c hc
    rw [TextGrammar.readBody]
    simp only [hopen, hclose, hcaret, hallowed, hread, hend, Bool.false_eq_true, if_false, if_true,
      ok_bind, List.append_nil]
  | @literal text segments stated cs rest hne hescaped hapart hkeeps _ ih =>
    have hempty : literal = [] := by
      by_contra hne'
      have hhead := (hliteral hne').1 (.literal text) (by simp)
      cases hhead
    rw [hempty, readBody_pass hescaped.stands, List.append_nil, ih cs.reverse, List.reverse_reverse,
      literalSegment_of_escaped hne hescaped]
    · rfl
    · intro _
      rw [List.head?_reverse]
      exact ⟨hapart, hkeeps⟩
  | @block segment segments stated opening closing interior rest hclosed hread _ ih =>
    rw [TextGrammar.readBody]
    simp only [hclosed.opens, if_true, hclosed.interiorLength, ok_bind, List.take_left, drop_past,
      hread, ih [] (fun h => absurd rfl h)]
    rfl

end

/-! ## References -/

/-- A mark that opens quotes of either kind. -/
def SourceChar.opensQuotes (c : SourceChar) : Bool := c.is '\'' || c.is '"'

/-- The characters of a target: they are read whatever modifiers follow, they have no blanks at
the ends, and a bracket around them closes where it should. Only what stands in quotes may hold
marks that would be taken for the bars of a choice. -/
structure ReadsTarget (readBlock : BlockReader) (target : Target) (first : SourceChar)
    (cs : List SourceChar) : Prop where
  read : ∀ rest, Dotted rest → readTarget readBlock first (cs ++ rest) = .ok (target, rest)
  headBlank : first.isBlank = false
  lastBlank : ∀ c ∈ (first :: cs).getLast?, c.isBlank = false
  crosses : Crosses .opened (first :: cs)
  nested : first.opensQuotes = false → Nested (first :: cs)

section

variable {readBlock : BlockReader} {first last : SourceChar} {cs : List SourceChar}

theorem opensQuotes_eq_false {c : SourceChar} (h : c.IsPlain) : c.opensQuotes = false := by
  rw [SourceChar.opensQuotes, h '\'' (by decide), h '"' (by decide), Bool.or_self]

theorem getLast?_cons_append_singleton :
    (first :: (cs ++ [last])).getLast? = some last := by
  rw [← List.cons_append, List.getLast?_append]
  rfl

theorem readsTarget_word {word : List Char} {target : Target}
    (hcs : Unescaped word (first :: cs)) (hword : ∀ c ∈ word, IsNameChar c)
    (hread : ∀ column, readWord column word = .ok target) :
    ReadsTarget readBlock target first cs := by
  have hclean : ∀ c ∈ word, IsClean c := fun c hc => (hword c hc).clean.1
  have hplain := hcs.isPlain hclean
  have hblank := hcs.isBlank hclean
  have hfirst := hplain first List.mem_cons_self
  have hpoint : ∀ c ∈ first :: cs, c.is '.' = false := by
    intro c hc
    simp [is, (hword _ (hcs.mem hc)).clean.2]
  have hnested : Nested (first :: cs) := .of_plain hplain
  refine ⟨?_, hblank first List.mem_cons_self, ?_, hnested.passes _ rfl, fun _ => hnested⟩
  · intro rest hrest
    unfold readTarget
    rw [hfirst '[' (by decide), hfirst '\'' (by decide), hfirst '"' (by decide)]
    simp only [Bool.false_eq_true, if_false, ← List.cons_append]
    rw [takeWhile_dotted hpoint hrest, dropWhile_dotted hpoint hrest, hcs.plain, hread]
    rfl
  · intro c hc
    exact hblank c (List.mem_of_getLast? hc)

theorem readsTarget_dereference {inner : Segment} {interior : List SourceChar}
    (h : Closed first interior last) (hread : readBlock first.column interior = .ok inner) :
    ReadsTarget readBlock (.dereference inner) first (interior ++ [last]) := by
  refine ⟨?_, isBlank_of_is h.opens (by decide), ?_, h.passes _ rfl, fun _ => .block h .nil⟩
  · intro rest _
    unfold readTarget
    rw [if_pos h.opens, List.append_assoc, List.singleton_append, h.interiorLength]
    simp only [ok_bind, List.take_left, hread, drop_past]
  · intro c hc
    rw [getLast?_cons_append_singleton] at hc
    cases hc
    exact isBlank_of_is h.closes (by decide)

theorem quotedLength_append (h : ∀ c ∈ cs, c.is '\'' = false) (hlast : last.is '\'' = true)
    (column : Nat) (rest : List SourceChar) :
    quotedLength column (cs ++ last :: rest) = .ok cs.length := by
  induction cs with
  | nil => rw [List.nil_append, quotedLength, if_pos hlast, List.length_nil]
  | cons c cs ih =>
    have hc := h c List.mem_cons_self
    rw [List.cons_append, quotedLength, hc, if_neg Bool.false_ne_true,
      ih fun d hd => h d (List.mem_cons_of_mem c hd)]
    rfl

theorem readsTarget_quoted {text : String} (hfirst : first.is '\'' = true)
    (hlast : last.is '\'' = true) (hcs : Escaped ['\'', '\\'] text.toList cs) :
    ReadsTarget readBlock (.quoted text) first (cs ++ [last]) := by
  have hquote : ∀ c ∈ cs, c.is '\'' = false := fun c hc => (hcs.stands c hc).noMark _ (by decide)
  have hopen := is_eq_false hfirst (by decide : '\'' ≠ '[')
  have htext : SourceChar.text cs = text := by
    rw [SourceChar.text, hcs.plain, String.ofList_toList]
  refine ⟨?_, isBlank_of_is hfirst (by decide), ?_, crosses_quoted hfirst hlast hquote, ?_⟩
  · intro rest _
    unfold readTarget
    rw [hopen, if_neg Bool.false_ne_true, if_pos hfirst, List.append_assoc, List.singleton_append,
      quotedLength_append hquote hlast]
    simp only [ok_bind, List.take_left, drop_past, htext]
  · intro c hc
    rw [getLast?_cons_append_singleton] at hc
    cases hc
    exact isBlank_of_is hlast (by decide)
  · intro hnone
    rw [SourceChar.opensQuotes, hfirst, Bool.true_or] at hnone
    cases hnone

theorem readsTarget_pattern {segments : List Segment} (hfirst : first.is '"' = true)
    (hlast : last.is '"' = true) (hcs : BodyOf readBlock false segments none cs) :
    ReadsTarget readBlock (.pattern segments) first (cs ++ [last]) := by
  have hopen := is_eq_false hfirst (by decide : '"' ≠ '[')
  have hsingle := is_eq_false hfirst (by decide : '"' ≠ '\'')
  have hpasses {quote : SourceChar} (hquote : quote.is '"' = true) : Passes [quote] :=
    passes_singleton (is_eq_false hquote (by decide)) (is_eq_false hquote (by decide))
      (is_eq_false hquote (by decide))
  have hread : readBody readBlock false [] cs = .ok ⟨segments, none⟩ :=
    hcs.readBody [] fun h => absurd rfl h
  refine ⟨?_, isBlank_of_is hfirst (by decide), ?_, ?_, ?_⟩
  · intro rest _
    unfold readTarget
    rw [hopen, hsingle, if_neg Bool.false_ne_true, if_neg Bool.false_ne_true, if_pos hfirst,
      List.append_assoc, List.singleton_append, hcs.nested.patternLength, patternLength,
      if_pos hlast]
    simp only [Except.map, ok_bind, Nat.zero_add, List.take_left, drop_past, hread]
  · intro c hc
    rw [getLast?_cons_append_singleton] at hc
    cases hc
    exact isBlank_of_is hlast (by decide)
  · exact (hpasses hfirst).append (hcs.nested.passes.append (hpasses hlast)) _ rfl
  · intro hnone
    rw [SourceChar.opensQuotes, hfirst, Bool.or_true] at hnone
    cases hnone

/-- No blanks stand at the ends of a target and what follows it. -/
theorem ReadsTarget.trim {target : Target} {tail : List SourceChar}
    (h : ReadsTarget readBlock target first cs) (htail : ∀ c ∈ tail, c.isBlank = false) :
    SourceChar.trimEnd (SourceChar.trimStart (first :: (cs ++ tail))) = first :: (cs ++ tail) := by
  rw [trimStart_of_head (by simpa using h.headBlank), trimEnd_of_last]
  intro c hc
  rw [← List.cons_append, List.getLast?_append] at hc
  cases hlast : tail.getLast? with
  | none =>
    rw [hlast, Option.none_or] at hc
    exact h.lastBlank c hc
  | some d =>
    rw [hlast, Option.some_or] at hc
    cases hc
    exact htail _ (List.mem_of_getLast? hlast)

/-- A target and its modifiers between brackets are read as a reference. -/
theorem readBracket_reference {target : Target} {modifiers : List Modifier}
    {tail : List SourceChar} (htarget : ReadsTarget readBlock target first cs)
    (htail : ReadsModifiers modifiers tail) (column : Nat) :
    readBracket readBlock column (first :: (cs ++ tail)) = .ok (.reference target modifiers) := by
  have hreference :
      readReference readBlock first (cs ++ tail) = .ok (.reference target modifiers) := by
    unfold readReference
    rw [htarget.read tail htail.dotted]
    simp only [ok_bind, htail.read]
  unfold readBracket
  rw [htarget.trim htail.isBlank]
  dsimp only
  cases hquotes : first.opensQuotes with
  | true =>
    rw [SourceChar.opensQuotes] at hquotes
    rw [hquotes, if_pos rfl, hreference]
  | false =>
    have hnested := (htarget.nested hquotes).append (.of_plain htail.isPlain)
    rw [SourceChar.opensQuotes] at hquotes
    rw [hquotes, if_neg Bool.false_ne_true, ← List.cons_append, hnested.barless.single]
    exact hreference

end

/-! ## Choices -/

/-- The characters of a rule. -/
def RuleOf (readBlock : BlockReader) (rule : Rule) (cs : List SourceChar) : Prop :=
  ∃ stated : Option Double, BodyOf readBlock true rule.segments stated cs ∧
    stated.getD defaultWeight = rule.weight

/-- The characters of some rules, with bars between them. -/
inductive BranchesOf (readBlock : BlockReader) : List Rule → List SourceChar → Prop
  | last {rule : Rule} {cs : List SourceChar} (ruleOf : RuleOf readBlock rule cs) :
      BranchesOf readBlock [rule] cs
  | more {rule : Rule} {rules : List Rule} {bar : SourceChar} {cs rest : List SourceChar}
      (ruleOf : RuleOf readBlock rule cs) (isBar : bar.is '|' = true)
      (branches : BranchesOf readBlock rules rest) :
      BranchesOf readBlock (rule :: rules) (cs ++ bar :: rest)

section

variable {readBlock : BlockReader} {rule : Rule} {rules : List Rule} {cs : List SourceChar}

theorem RuleOf.nested (h : RuleOf readBlock rule cs) : Nested cs := by
  obtain ⟨_, hbody, _⟩ := h
  exact hbody.nested

theorem RuleOf.read (h : RuleOf readBlock rule cs) :
    ∃ body : RuleBody, readBody readBlock true [] cs = .ok body ∧ body.rule = rule := by
  obtain ⟨segments, weight⟩ := rule
  obtain ⟨stated, hbody, hweight⟩ := h
  exact ⟨⟨segments, stated⟩, hbody.readBody [] fun h => absurd rfl h,
    congrArg (Rule.mk segments) hweight⟩

theorem BranchesOf.passes (h : BranchesOf readBlock rules cs) : Passes cs := by
  induction h with
  | last hrule => exact hrule.nested.passes
  | @more _ _ bar _ rest hrule hbar _ ih =>
    have hsingle : Passes [bar] := passes_singleton (is_eq_false hbar (by decide))
      (is_eq_false hbar (by decide)) (is_eq_false hbar (by decide))
    exact hrule.nested.passes.append (hsingle.append ih)

/-- Each branch is a part between bars. -/
theorem BranchesOf.splitBars (h : BranchesOf readBlock rules cs) :
    ∃ parts, splitBars cs = .ok parts ∧
      List.Forall₂ (fun part rule => RuleOf readBlock rule part) parts rules := by
  induction h with
  | @last _ cs hrule => exact ⟨[cs], hrule.nested.barless.single, .cons hrule .nil⟩
  | @more rule rules bar cs rest hrule hbar _ ih =>
    obtain ⟨parts, hparts, hrules⟩ := ih
    refine ⟨cs :: parts, ?_, .cons hrule hrules⟩
    have hopen := is_eq_false hbar (by decide : '|' ≠ '[')
    have hclose := is_eq_false hbar (by decide : '|' ≠ ']')
    rw [hrule.nested.barless, TextGrammar.splitBars]
    simp only [hopen, hclose, hbar, Bool.false_eq_true, if_false, if_true, hparts]
    exact congrArg (fun branch => Except.ok (branch :: parts)) (List.append_nil cs)

theorem readChoice_of_forall₂ {parts : List (List SourceChar)}
    (h : List.Forall₂ (fun part rule => RuleOf readBlock rule part) parts rules) :
    readChoice readBlock parts = .ok (.choice rules) := by
  have hbodies : ∃ bodies : List RuleBody, List.Forall₂
      (fun part body => readBody readBlock true [] part = .ok body) parts bodies ∧
      bodies.map RuleBody.rule = rules := by
    induction h with
    | nil => exact ⟨[], .nil, rfl⟩
    | cons hrule _ ih =>
      obtain ⟨body, hread, hbody⟩ := hrule.read
      obtain ⟨bodies, hreads, hmap⟩ := ih
      refine ⟨body :: bodies, .cons hread hreads, ?_⟩
      rw [List.map_cons, hbody, hmap]
  obtain ⟨bodies, hreads, hmap⟩ := hbodies
  unfold readChoice
  rw [mapM_eq_ok.mpr hreads, ok_bind, hmap]

/-- Behind the blanks at the start of nested text and a bar there is no quote. -/
theorem Nested.trimStart_bar (h : Nested cs) {bar : SourceChar} (hbar : bar.is '|' = true)
    (rest : List SourceChar) : ∃ first tail,
      SourceChar.trimStart (cs ++ bar :: rest) = first :: tail ∧
        first.isBlank = false ∧ first.opensQuotes = false := by
  have hmark {c : SourceChar} {mark : Char} (hc : c.is mark = true) (hsingle : mark ≠ '\'')
      (hdouble : mark ≠ '"') : c.opensQuotes = false := by
    rw [SourceChar.opensQuotes, is_eq_false hc hsingle, is_eq_false hc hdouble, Bool.or_self]
  have hhere {c : SourceChar} (tail : List SourceChar) (hc : c.isBlank = false) :
      SourceChar.trimStart (c :: tail) = c :: tail :=
    trimStart_of_head (by simpa using hc)
  induction h with
  | nil =>
    have hblank := isBlank_of_is hbar (by decide)
    exact ⟨bar, rest, hhere rest hblank, hblank, hmark hbar (by decide) (by decide)⟩
  | @plain c cs hplain _ ih =>
    cases hc : c.isBlank with
    | true =>
      obtain ⟨first, tail, htrim, hfirst⟩ := ih
      refine ⟨first, tail, ?_, hfirst⟩
      rw [List.cons_append, SourceChar.trimStart, List.dropWhile_cons, hc, if_pos rfl]
      exact htrim
    | false =>
      rw [List.cons_append]
      exact ⟨c, _, hhere _ hc, hc, opensQuotes_eq_false hplain⟩
  | @block opening closing interior cs hclosed _ _ =>
    have hblank := isBlank_of_is hclosed.opens (by decide)
    rw [List.cons_append]
    exact ⟨opening, _, hhere _ hblank, hblank, hmark hclosed.opens (by decide) (by decide)⟩

/-- Two or more rules between brackets are read as a choice. -/
theorem readBracket_choice (h : BranchesOf readBlock rules cs) (htwo : 2 ≤ rules.length)
    (column : Nat) : readBracket readBlock column cs = .ok (.choice rules) := by
  obtain ⟨parts, hparts, hrules⟩ := h.splitBars
  have hmany : ∀ part, parts ≠ [part] := by
    rintro part rfl
    have hlength := hrules.length_eq
    rw [List.length_singleton] at hlength
    omega
  have hfirst : ∃ first tail, SourceChar.trimEnd (SourceChar.trimStart cs) = first :: tail ∧
      first.opensQuotes = false := by
    cases h with
    | last _ =>
      rw [List.length_singleton] at htwo
      omega
    | @more _ _ bar cs rest hrule hbar _ =>
      obtain ⟨first, tail, htrim, hblank, hquotes⟩ := hrule.nested.trimStart_bar hbar rest
      exact ⟨first, SourceChar.trimEnd tail, by rw [htrim, trimEnd_cons hblank], hquotes⟩
  obtain ⟨first, tail, htrim, hquotes⟩ := hfirst
  rw [SourceChar.opensQuotes] at hquotes
  unfold readBracket
  rw [htrim]
  dsimp only
  rw [hquotes, if_neg Bool.false_ne_true, hparts, ok_bind]
  split
  · rename_i part
    exact absurd rfl (hmany part)
  · exact readChoice_of_forall₂ hrules

end

/-! ## Writing, level by level -/

/-- The characters of a segment in brackets. -/
def BlockOf (readBlock : BlockReader) (segment : Segment) (cs : List SourceChar) : Prop :=
  ∃ opening interior closing, cs = opening :: (interior ++ [closing]) ∧
    Closed opening interior closing ∧ ∀ column, readBlock column interior = .ok segment

/-- The text of every canonical segment in brackets is read back as the segment. -/
def BlocksReadBack (levels : Nat) : Prop :=
  ∀ segment : Segment, segment.Canonical levels → segment.isLiteral = false →
    Yields segment.spell (BlockOf (readNested levels) segment)

theorem yields_bracketed {readBlock : BlockReader} {segment : Segment} {written : List Char}
    (h : Yields written fun cs => Crosses .opened cs ∧
      ∀ column, readBlock column cs = .ok segment) :
    Yields ('[' :: written ++ [']']) (BlockOf readBlock segment) := by
  have hopening : Yields ['['] fun cs => ∃ d, cs = [d] ∧ d.is '[' = true := .mark (by decide)
  have hclosing : Yields [']'] fun cs => ∃ d, cs = [d] ∧ d.is ']' = true := .mark (by decide)
  have htail : Yields (written ++ [']']) fun cs => ∃ interior closing,
      cs = interior ++ [closing] ∧ closing.is ']' = true ∧ Crosses .opened interior ∧
        ∀ column, readBlock column interior = .ok segment := by
    refine h.append hclosing ?_
    rintro interior _ ⟨hcrosses, hread⟩ ⟨closing, rfl, hclosing⟩
    exact ⟨interior, closing, rfl, hclosing, hcrosses, hread⟩
  refine hopening.append htail ?_
  rintro _ _ ⟨opening, rfl, hopening⟩ ⟨interior, closing, rfl, hclosing, hcrosses, hread⟩
  exact ⟨opening, interior, closing, rfl, ⟨hopening, hclosing, hcrosses⟩, hread⟩

section

variable {levels : Nat}

theorem keepsEnd_tail {segment : Segment} {segments : List Segment}
    (h : KeepsEnd (segment :: segments)) : KeepsEnd segments := by
  intro text c hlast hc
  refine h text c ?_ hc
  rw [List.getLast?_cons, hlast, Option.getD_some]

theorem last_not_blank {text : String} {cs : List SourceChar} (h : KeepsEnd [.literal text])
    (hcs : Escaped specialChars text.toList cs) : ∀ c ∈ cs.getLast?, c.isBlank = false := by
  intro c hc
  cases hspace : Unicode.isWhiteSpace c.char with
  | false => simp [SourceChar.isBlank, hspace]
  | true =>
    have hlast : text.toList.getLast? = some c.char := by
      rw [← hcs.plain, SourceChar.plain, List.getLast?_map, hc, Option.map_some]
    have hescaped : c.escaped = true :=
      (hcs.stands c (List.mem_of_getLast? hc)).escaped (h text c.char rfl hlast hspace)
    simp [SourceChar.isBlank, hescaped]

/-- A canonical row of segments, and behind it what states the weight. -/
theorem yields_body (hblocks : BlocksReadBack levels) {weighted : Bool} {stated : Option Double}
    {tail : List Char} (htail : Yields tail (BodyOf (readNested levels) weighted [] stated))
    {segments : List Segment} (hrow : CanonicalRow levels segments)
    (hkeeps : stated ≠ none → KeepsEnd segments) :
    Yields (Segment.spellAll segments ++ tail)
      (BodyOf (readNested levels) weighted segments stated) := by
  induction segments with
  | nil => exact htail
  | cons segment segments ih =>
    obtain ⟨hapart, hcanonical⟩ := hrow
    have hsegment := hcanonical segment List.mem_cons_self
    have hrest := ih ⟨hapart.tail, fun s hs => hcanonical s (List.mem_cons_of_mem _ hs)⟩
      fun h => keepsEnd_tail (hkeeps h)
    rw [Segment.spellAll, List.append_assoc]
    by_cases hliteral : segment.isLiteral = true
    · cases hsegment with
      | literal hne =>
        have htext := yields_escapeText (List.Subset.refl specialChars) (by decide)
        rw [Segment.spell]
        refine (htext _).append hrest ?_
        intro cs rest hcs hbody
        refine .literal hne hcs ?_ ?_ hbody
        · intro s hs
          have hpair := hapart.rel_head? hs
          simpa [Segment.isLiteral] using hpair
        · intro hstated hempty
          subst hempty
          exact last_not_blank (hkeeps hstated) hcs
      | reference _ => cases hliteral
      | choice _ _ => cases hliteral
    · rw [Bool.not_eq_true] at hliteral
      refine (hblocks segment hsegment hliteral).append hrest ?_
      rintro _ rest ⟨opening, interior, closing, rfl, hclosed, hread⟩ hbody
      rw [List.cons_append, List.append_assoc, List.singleton_append]
      exact .block hclosed (hread _) hbody

/-- Numbers that are not negative are equal as numbers only when they are the same double. -/
theorem numEq_finite {m n : Magnitude} :
    (Double.finite false m).numEq (.finite false n) = true ↔ m = n := by
  simp only [Double.numEq, Double.compare?, Double.signedUnits, beq_iff_eq, Option.some.injEq,
    Std.LawfulEqCmp.compare_eq_iff_eq, Int.ofNat_inj]
  constructor
  · intro h
    cases m
    cases n
    cases h
    rfl
  · rintro rfl
    rfl

theorem yields_weight {readBlock : BlockReader} {weight : Double} (h : weight.IsWeight) :
    ∃ stated : Option Double, stated.getD defaultWeight = weight ∧
      (stated ≠ none → weight ≠ defaultWeight) ∧
      Yields (spellWeight weight) (BodyOf readBlock true [] stated) := by
  obtain ⟨m, rfl⟩ := h
  have hdefault : (Double.finite false m).numEq defaultWeight = true ↔
      Double.finite false m = defaultWeight :=
    numEq_finite.trans ⟨congrArg (Double.finite false), fun h => (Double.finite.inj h).2⟩
  unfold spellWeight
  split
  · rename_i heq
    exact ⟨none, (hdefault.mp heq).symm, fun h => absurd rfl h, .nil .done⟩
  · rename_i hne
    refine ⟨some (.finite false m), rfl, fun _ heq => hne (hdefault.mpr heq), ?_⟩
    have hclean := isClean_of_isDecimal (Double.isDecimal_toText m)
    have hcaret : Yields ['^'] fun cs => ∃ d, cs = [d] ∧ d.is '^' = true := .mark (by decide)
    refine hcaret.append (yields_unescaped fun c hc => (hclean c hc).noEscape) ?_
    rintro _ cs ⟨caret, rfl, hcaret⟩ hcs
    exact .weight rfl hcaret (hcs.isPlain hclean) (readWeight_toText hcs)

theorem yields_rule (hblocks : BlocksReadBack levels) {rule : Rule}
    (h : rule.Canonical levels) : Yields rule.spell (RuleOf (readNested levels) rule) := by
  cases h with
  | mk hapart hcanonical hweight hkeeps =>
    obtain ⟨stated, hstated, hne, htail⟩ := yields_weight hweight
    rw [Rule.spell]
    refine (yields_body hblocks htail ⟨hapart, hcanonical⟩ fun h => hkeeps (hne h)).mono ?_
    exact fun cs hcs => ⟨stated, hcs, hstated⟩

theorem yields_branches (hblocks : BlocksReadBack levels) {rules : List Rule} (hne : rules ≠ [])
    (h : ∀ rule ∈ rules, rule.Canonical levels) :
    Yields (Rule.spellBranches rules) (BranchesOf (readNested levels) rules) := by
  induction rules with
  | nil => exact absurd rfl hne
  | cons rule rules ih =>
    have hrule := yields_rule hblocks (h rule List.mem_cons_self)
    cases rules with
    | nil => exact hrule.mono fun cs => .last
    | cons next rules =>
      have hbar : Yields ['|'] fun cs => ∃ d, cs = [d] ∧ d.is '|' = true := .mark (by decide)
      have hrest := ih (List.cons_ne_nil _ _) fun r hr => h r (List.mem_cons_of_mem _ hr)
      have htail : Yields ('|' :: Rule.spellBranches (next :: rules)) fun cs =>
          ∃ bar rest, cs = bar :: rest ∧ bar.is '|' = true ∧
            BranchesOf (readNested levels) (next :: rules) rest := by
        refine hbar.append hrest ?_
        rintro _ rest ⟨bar, rfl, hbar⟩ hbranches
        exact ⟨bar, rest, rfl, hbar, hbranches⟩
      rw [Rule.spellBranches]
      · refine hrule.append htail ?_
        rintro cs _ hcs ⟨bar, rest, rfl, hbar, hbranches⟩
        exact .more hcs hbar hbranches
      · simp

theorem yields_word {readBlock : BlockReader} {word : List Char} {target : Target}
    (hne : word ≠ []) (hword : ∀ c ∈ word, IsNameChar c)
    (hread : ∀ column, readWord column word = .ok target) :
    Yields word fun cs => ∃ first rest, cs = first :: rest ∧
      ReadsTarget readBlock target first rest := by
  refine (yields_unescaped fun c hc => (hword c hc).clean.1.noEscape).mono ?_
  intro cs hcs
  cases cs with
  | nil => exact absurd hcs.plain.symm hne
  | cons first rest => exact ⟨first, rest, rfl, readsTarget_word hcs hword hread⟩

/-- What stands between two quotes of one kind. -/
theorem yields_quoted {quote : Char} (hquote : quote ≠ escapeChar) {written : List Char}
    {P : List SourceChar → Prop} (h : Yields written P) :
    Yields (quote :: written ++ [quote]) fun cs => ∃ first interior last,
      cs = first :: (interior ++ [last]) ∧ first.is quote = true ∧ last.is quote = true ∧
        P interior := by
  have hmark : Yields [quote] fun cs => ∃ d, cs = [d] ∧ d.is quote = true := .mark hquote
  have htail : Yields (written ++ [quote]) fun cs => ∃ interior last,
      cs = interior ++ [last] ∧ last.is quote = true ∧ P interior := by
    refine h.append hmark ?_
    rintro interior _ hp ⟨last, rfl, hlast⟩
    exact ⟨interior, last, rfl, hlast, hp⟩
  refine hmark.append htail ?_
  rintro _ _ ⟨first, rfl, hfirst⟩ ⟨interior, last, rfl, hlast, hp⟩
  exact ⟨first, interior, last, rfl, hfirst, hlast, hp⟩

theorem yields_target (hblocks : BlocksReadBack levels) {target : Target}
    (h : target.Canonical levels) : Yields target.spell fun cs => ∃ first rest,
      cs = first :: rest ∧ ReadsTarget (readNested levels) target first rest := by
  cases h with
  | @symbol _ name hvalid hnoRange =>
    rw [Target.spell]
    have hparts := hvalid
    simp only [isSymbolName, Bool.and_eq_true, Bool.not_eq_true', List.isEmpty_eq_false_iff,
      List.all_eq_true] at hparts
    refine yields_word hparts.1 hparts.2 ?_
    intro column
    rw [readWord, hnoRange]
    simp only [hvalid, if_true, String.ofList_toList]
  | dereference hbracketed hinner =>
    rw [Target.spell]
    refine (hblocks _ hinner hbracketed).mono ?_
    rintro _ ⟨opening, interior, closing, rfl, hclosed, hread⟩
    exact ⟨opening, _, rfl, readsTarget_dereference hclosed (hread _)⟩
  | quoted =>
    rw [Target.spell]
    have htext := yields_escapeText (by decide : ['\'', '\\'] ⊆ specialChars) (by decide)
    refine (yields_quoted (by decide) (htext _)).mono ?_
    rintro _ ⟨first, interior, last, rfl, hfirst, hlast, hescaped⟩
    exact ⟨first, _, rfl, readsTarget_quoted hfirst hlast hescaped⟩
  | pattern hapart hcanonical =>
    rw [Target.spell]
    have hnone : Yields [] (BodyOf (readNested levels) false [] none) := .nil .done
    have hbody := yields_body hblocks hnone ⟨hapart, hcanonical⟩ fun h => absurd rfl h
    rw [List.append_nil] at hbody
    refine (yields_quoted (by decide) hbody).mono ?_
    rintro _ ⟨first, interior, last, rfl, hfirst, hlast, hbody⟩
    exact ⟨first, _, rfl, readsTarget_pattern hfirst hlast hbody⟩
  | @range _ range hproper =>
    rw [Target.spell]
    have hne : range.spell ≠ [] := by cases range <;> simp [DrawRange.spell]
    refine yields_word hne (fun c hc => isNameChar_of_mem_spell hproper hc) ?_
    intro column
    rw [readWord, readRange_spell hproper]

theorem blocksReadBack (levels : Nat) : BlocksReadBack levels := by
  induction levels with
  | zero =>
    intro segment h hliteral
    cases h
    cases hliteral
  | succ levels ih =>
    intro segment h hliteral
    cases h with
    | literal _ => cases hliteral
    | reference htarget =>
      rw [Segment.spell, List.cons_append]
      refine yields_bracketed ((yields_target ih htarget).append (yields_modifiers _) ?_)
      rintro _ mods ⟨first, rest, rfl, hreads⟩ hmods
      have hpasses : Passes mods := passes_of_plain hmods.isPlain
      exact ⟨hreads.crosses.append hpasses, readBracket_reference hreads hmods⟩
    | choice htwo hbranches =>
      rw [Segment.spell]
      refine yields_bracketed ((yields_branches ih ?_ hbranches).mono ?_)
      · rintro rfl
        cases htwo
      · exact fun cs hcs => ⟨hcs.passes _ rfl, readBracket_choice hcs htwo⟩

end

/-! ## The law -/

/-- What is written so that it has the characters of a rule is read as that rule. -/
theorem ofPattern_of_yields {rule : Rule} {written : List Char}
    (h : Yields written (RuleOf (readNested nestingLimit) rule)) :
    Rule.ofPattern (String.ofList written) = .ok rule := by
  obtain ⟨chars, hchars, hrule⟩ := h 1
  obtain ⟨body, hbody, rfl⟩ := hrule.read
  have hread : Rule.read 1 written = .ok body.rule := by
    unfold Rule.read
    rw [hchars, ok_bind, hbody, ok_bind]
  rw [Rule.ofPattern, String.toList_ofList, hread]
  rfl

/-- The text of a canonical rule is read back as the rule. -/
theorem canonical_text_is_read_back (rule : Rule) (h : rule.Canonical nestingLimit) :
    Rule.ofPattern rule.text = .ok rule :=
  ofPattern_of_yields (yields_rule (blocksReadBack nestingLimit) h)

/-- A rule with a bit of everything, marks and quotes in its texts included. -/
def medley : Rule :=
  let two : Double := .finite false ⟨twoPow 1075, fits_twoPow (by decide)⟩
  ⟨[.literal "a [b] ^2 \"",
    .reference (.dereference (.choice [⟨[.literal "kind "], defaultWeight⟩,
      ⟨[.literal "|\t"], two⟩])) [.title, .article],
    .literal " ",
    .reference (.pattern [.literal "'", .reference (.range (.letter 'a' 'f')) [],
      .reference (.range (.number (-3) 12)) [.ordinal]]) [],
    .reference (.symbol "noun-2") [.plural],
    .reference (.quoted "it's \\ a ]\n") []], two⟩

theorem medley_canonical : medley.Canonical nestingLimit := by
  have hsingle (text : String) : Apart [.literal text] := .singleton _
  refine .mk ?_ ?_ ⟨_, rfl⟩ ?_
  · unfold Apart
    simp [Segment.isLiteral]
  · simp only [List.forall_mem_cons, List.not_mem_nil, false_implies, implies_true, and_true]
    refine ⟨.literal (by decide), .reference (.dereference rfl (.choice (by decide) ?_)),
      .literal (by decide), .reference (.pattern ?_ ?_), .reference (.symbol ?_ ?_),
      .reference .quoted⟩
    · simp only [List.forall_mem_cons, List.not_mem_nil, false_implies, implies_true, and_true]
      refine ⟨.mk (hsingle _) ?_ ⟨_, rfl⟩ (fun h => absurd rfl h), .mk (hsingle _) ?_ ⟨_, rfl⟩ ?_⟩
      · simpa using Segment.Canonical.literal (by decide)
      · simpa using Segment.Canonical.literal (by decide)
      · intro _ text c hlast hc _
        cases hlast
        cases hc
        exact Or.inr rfl
    · unfold Apart
      simp [Segment.isLiteral]
    · simp only [List.forall_mem_cons, List.not_mem_nil, false_implies, implies_true, and_true]
      exact ⟨.literal (by decide), .reference (.range (by decide)), .reference (.range (by decide))⟩
    · decide
    · decide
  · intro _ text c hlast
    cases hlast

/-- The law at a rule with a bit of everything. -/
theorem text_of_medley_is_read_back :
    medley.Canonical nestingLimit ∧ Rule.ofPattern medley.text = .ok medley :=
  ⟨medley_canonical, canonical_text_is_read_back medley medley_canonical⟩

end TextGrammar
