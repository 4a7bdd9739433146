-- The law of stated weights. Behind a pattern that states no weight a caret may stand, and a
-- decimal with white space around it, but nothing else. The weight is the double nearest to the
-- decimal, and the pattern is read as if it ended before its last white space; line feeds and tabs
-- that were written as escapes are no white space for this.
import TextGrammar.Proofs.InflectionByPosition
import TextGrammar.Proofs.JoinedPatterns
import TextGrammar.Proofs.NearestDoubles

namespace TextGrammar

open SourceChar

/-! ## Decimals -/

/-- But for white space around it, the text is digits with at most one point, and the weight is the
double nearest to the number that they spell. -/
structure StatesWeight (text : List Char) (weight : Double) : Prop where
  unescaped : escapeChar ∉ text
  digitsAndPoints : ∀ c ∈ trim text, c.isDigit = true ∨ c = '.'
  someDigit : ∃ c ∈ trim text, c.isDigit = true
  onePoint : (trim text).count '.' ≤ 1
  nearest : ∃ m, weight = .finite false m ∧
    Nearest (Double.decimalValue (trim text) * Double.unitsPerOne) m.units

theorem isDecimal_iff {cs : List Char} : isDecimal cs = true ↔
    (∀ c ∈ cs, c.isDigit = true ∨ c = '.') ∧ (∃ c ∈ cs, c.isDigit = true) ∧
      cs.count '.' ≤ 1 := by
  simp only [isDecimal, Bool.and_eq_true, List.all_eq_true, Bool.or_eq_true, beq_iff_eq,
    List.any_eq_true, decide_eq_true_eq, and_assoc]

theorem statesWeight_iff {text : List Char} {weight : Double} : StatesWeight text weight ↔
    escapeChar ∉ text ∧ isDecimal (trim text) = true ∧ weight.isFinite = true ∧
      Double.ofDecimal false (trim text) 0 = weight := by
  rw [isDecimal_iff]
  constructor
  · rintro ⟨hescape, hall, hsome, hone, m, rfl, hnearest⟩
    have hdecimal := isDecimal_iff.mpr ⟨hall, hsome, hone⟩
    exact ⟨hescape, ⟨hall, hsome, hone⟩, rfl, (Double.ofDecimal_eq_finite hdecimal).mpr hnearest⟩
  · rintro ⟨hescape, ⟨hall, hsome, hone⟩, hfinite, rfl⟩
    have hdecimal := isDecimal_iff.mpr ⟨hall, hsome, hone⟩
    obtain ⟨m, hm⟩ := isWeight_ofScientific hfinite
    exact ⟨hescape, hall, hsome, hone, m, hm, (Double.ofDecimal_eq_finite hdecimal).mp hm⟩

/-! ## Behind the caret -/

section

variable {column other : Nat} {text : List Char} {cs : List SourceChar} {weight : Double}

theorem escaped_of_resolve (h : resolve column text = .ok cs) (hescape : escapeChar ∈ text) :
    cs.any (·.escaped) = true := by
  fun_induction resolve column text generalizing cs with
  | case1 => cases hescape
  | case2 => cases h
  | case3 column letter rest meant hmeant ih =>
    obtain ⟨tail, _, rfl⟩ := map_eq_ok.mp h
    rfl
  | case4 => cases h
  | case5 column c rest hne ih =>
    obtain ⟨tail, htail, rfl⟩ := map_eq_ok.mp h
    have hrest : escapeChar ∈ rest := (List.mem_cons.mp hescape).resolve_left (Ne.symm hne)
    rw [List.any_cons, ih htail hrest, Bool.or_true]

theorem readWeight_unescaped (h : Unescaped text cs) : readWeight column cs = .ok weight ↔
    isDecimal (trim text) = true ∧ weight.isFinite = true ∧
      Double.ofDecimal false (trim text) 0 = weight := by
  have hescaped : cs.any (·.escaped) = false := by simpa using h.unescaped
  unfold readWeight
  rw [h.plain]
  dsimp only
  rw [hescaped, if_neg Bool.false_ne_true]
  by_cases hdecimal : isDecimal (trim text) = true
  · have hminus : ∀ ds, trim text ≠ '-' :: ds := by
      intro ds heq
      rw [heq] at hdecimal
      simp [isDecimal] at hdecimal
    rw [if_neg, if_pos hdecimal, and_iff_right hdecimal]
    · split
      · rename_i hfinite
        rw [Except.ok.injEq]
        exact ⟨fun h => ⟨h ▸ hfinite, h⟩, fun h => h.2⟩
      · rename_i hinfinite
        exact iff_of_false (by simp) fun h => hinfinite (h.2 ▸ h.1)
    · split
      · rename_i ds heq
        exact absurd heq (hminus ds)
      · exact Bool.false_ne_true
  · refine iff_of_false ?_ fun h => hdecimal h.1
    rw [if_neg hdecimal]
    split_ifs <;> simp

/-- What stands behind the caret is a weight exactly when it states one. -/
theorem readWeight_eq_ok (h : resolve other text = .ok cs) :
    readWeight column cs = .ok weight ↔ StatesWeight text weight := by
  rw [statesWeight_iff]
  by_cases hescape : escapeChar ∈ text
  · have hescaped := escaped_of_resolve h hescape
    unfold readWeight
    rw [hescaped]
    exact iff_of_false (by simp) fun h => h.1 hescape
  · obtain ⟨chars, hchars, hunescaped⟩ :=
      yields_unescaped (fun c hc heq => hescape (heq ▸ hc)) other
    obtain rfl : chars = cs := Except.ok.inj (hchars.symm.trans h)
    rw [readWeight_unescaped hunescaped]
    exact (and_iff_right hescape).symm

end

/-! ## White space in front of the caret -/

theorem trimEnd_append_blanks {a b : List SourceChar} (hb : ∀ c ∈ b, c.isBlank = true) :
    SourceChar.trimEnd (a ++ b) = SourceChar.trimEnd a := by
  unfold SourceChar.trimEnd
  rw [List.reverse_append, List.dropWhile_append_of_pos fun c hc => hb c (List.mem_reverse.mp hc)]

/-- No escape ends with white space. -/
theorem escaped?_space {c : Char} (h : Unicode.isWhiteSpace c = true) : escaped? c = none := by
  have hletters : ∀ d ∈ 'n' :: 't' :: specialChars, Unicode.isWhiteSpace d = false := by decide
  have hc : c ∉ 'n' :: 't' :: specialChars := by
    intro hmem
    rw [hletters c hmem] at h
    cases h
  simp only [List.mem_cons, not_or] at hc
  unfold escaped?
  rw [if_neg hc.1, if_neg hc.2.1, if_neg (by simpa [specialChars] using hc.2.2)]

/-- White space does not belong to an escape that stands before it. -/
theorem resolve_spaces {column : Nat} {text spaces : List Char} {cs : List SourceChar}
    (hspaces : ∀ c ∈ spaces, Unicode.isWhiteSpace c = true)
    (h : resolve column (text ++ spaces) = .ok cs) :
    ∃ as bs, resolve column text = .ok as ∧ cs = as ++ bs ∧ Unescaped spaces bs := by
  have hplain : ∀ c ∈ spaces, c ≠ escapeChar := by
    intro c hc heq
    have hspace := hspaces c hc
    rw [heq] at hspace
    exact absurd hspace (by decide)
  suffices hfront : ∃ as, resolve column text = .ok as by
    obtain ⟨as, has⟩ := hfront
    obtain ⟨bs, hbs, hunescaped⟩ := yields_unescaped hplain (column + text.length)
    rw [resolve_append has, hbs] at h
    exact ⟨as, bs, has, (Except.ok.inj h).symm, hunescaped⟩
  fun_induction resolve column text generalizing cs with
  | case1 => exact ⟨[], rfl⟩
  | case2 column =>
    cases spaces with
    | nil => cases h
    | cons c spaces =>
      have hnone := escaped?_space (hspaces c List.mem_cons_self)
      simp [resolve, hnone] at h
  | case3 column letter rest meant hmeant ih =>
    rw [List.cons_append, List.cons_append, resolve_escape hmeant] at h
    obtain ⟨tail, htail, _⟩ := map_eq_ok.mp h
    obtain ⟨as, has⟩ := ih htail
    exact ⟨_, by rw [has]; rfl⟩
  | case4 column letter rest hnone => simp [resolve, hnone] at h
  | case5 column c rest hne ih =>
    rw [List.cons_append, resolve_cons hne] at h
    obtain ⟨tail, htail, _⟩ := map_eq_ok.mp h
    obtain ⟨as, has⟩ := ih htail
    exact ⟨_, by rw [has]; rfl⟩

/-! ## The law -/

/-- The literal that the text makes; no text makes none. -/
def textSegment (text : List Char) : List Segment :=
  if text.isEmpty then [] else [.literal (String.ofList text)]

theorem literalSegment_eq (cs : List SourceChar) :
    literalSegment cs = textSegment (SourceChar.plain cs) := by
  rw [literalSegment, textSegment, SourceChar.plain, List.isEmpty_map]
  rfl

theorem readBody_of_bare {readBlock : BlockReader} {weighted : Bool} {cs : List SourceChar}
    (h : Bare cs) : readBody readBlock weighted [] cs = .ok ⟨literalSegment cs, none⟩ := by
  have hread := @readBody_bare readBlock weighted cs [] [] h
  rwa [List.append_nil, List.append_nil, readBody, List.reverse_reverse] at hread

theorem readBody_caret {readBlock : BlockReader} {literal ws : List SourceChar}
    {caret : SourceChar} (h : caret.is '^' = true) :
    readBody readBlock true literal (caret :: ws) =
      (readWeight caret.column ws).map fun weight =>
        ⟨literalSegment (SourceChar.trimEnd literal.reverse), some weight⟩ := by
  have hopen := is_eq_false h (by decide : '^' ≠ '[')
  have hclose := is_eq_false h (by decide : '^' ≠ ']')
  rw [readBody]
  simp only [hopen, hclose, h, Bool.false_eq_true, if_false, if_true]
  cases readWeight caret.column ws <;> rfl

section

variable {column : Nat} {pattern : List Char} {segments : List Segment}

/-- The last bracket of a pattern, the literal characters behind it, and the white space at the end
of those, which a caret cuts off. -/
theorem exists_kept (h : RuleBody.read column pattern = .ok ⟨segments, none⟩) :
    ∃ chars front back done, resolve column pattern = .ok chars ∧
      InTwo (readNested nestingLimit) true [] chars front back done ∧
      RuleBody.read column (trimEnd pattern) =
        .ok ⟨done ++ literalSegment (SourceChar.trimEnd back), none⟩ ∧
      segments = Segment.join (done ++ literalSegment (SourceChar.trimEnd back))
        (textSegment (lastRun Unicode.isWhiteSpace pattern)) := by
  obtain ⟨chars, hchars, hbody⟩ := RuleBody.read_eq_ok.mp h
  obtain ⟨front, back, done, htwo, rfl⟩ := exists_inTwo (readsBrackets_readNested _) hbody
  have hpattern : trimEnd pattern ++ lastRun Unicode.isWhiteSpace pattern = pattern :=
    beforeRun_append_lastRun Unicode.isWhiteSpace pattern
  have hsplit := hchars
  rw [← hpattern] at hsplit
  obtain ⟨as, bs, has, rfl, hspaces⟩ := resolve_spaces (fun c hc => of_mem_lastRun hc) hsplit
  have hblanks : ∀ c ∈ bs, c.isBlank = true := by
    intro c hc
    have hspace : Unicode.isWhiteSpace c.char = true := of_mem_lastRun (hspaces.mem hc)
    simp [SourceChar.isBlank, hspaces.unescaped c hc, hspace]
  -- What is left of the characters is the bracket and what is left of those behind it.
  have hfront : as = front ++ SourceChar.trimEnd back := by
    have htrim : SourceChar.trimEnd (as ++ bs) = as := by
      rw [trimEnd_append_blanks hblanks,
        trimEnd_of_last (stop_of_resolve has (stop_trimEnd pattern))]
    rw [← htrim, htwo.split, trimEnd_append_of_last]
    exact fun c hc => isBlank_of_is (htwo.closes c hc) (by decide)
  have hback : back = SourceChar.trimEnd back ++ bs := by
    have hboth := htwo.split
    rw [hfront, List.append_assoc] at hboth
    exact (List.append_cancel_left hboth).symm
  have hbare : Bare (SourceChar.trimEnd back) := fun c hc =>
    htwo.bare c (SourceChar.trimEnd_subset back hc)
  refine ⟨as ++ bs, front, back, done, hchars, htwo, ?_, ?_⟩
  · refine RuleBody.read_eq_ok.mpr ⟨as, has, ?_⟩
    rw [hfront, htwo.read, readBody_of_bare hbare]
    rfl
  · rw [Segment.join_append htwo.blocks, ← hspaces.plain, ← literalSegment_eq,
      ← literalSegment_append, ← hback]

/-- Behind a pattern that states no weight, a caret and a text are read exactly when the text states
a weight. -/
theorem RuleBody.read_caret (h : RuleBody.read column pattern = .ok ⟨segments, none⟩) :
    ∃ kept, RuleBody.read column (trimEnd pattern) = .ok ⟨kept, none⟩ ∧
      segments = Segment.join kept (textSegment (lastRun Unicode.isWhiteSpace pattern)) ∧
      ∀ text body, RuleBody.read column (pattern ++ '^' :: text) = .ok body ↔
        ∃ weight, StatesWeight text weight ∧ body = ⟨kept, some weight⟩ := by
  obtain ⟨chars, front, back, done, hchars, htwo, hkept, hsegments⟩ := exists_kept h
  refine ⟨_, hkept, hsegments, fun text body => ?_⟩
  have hresolve : resolve column (pattern ++ '^' :: text) =
      (resolve (column + pattern.length + 1) text).map fun ws =>
        chars ++ ⟨'^', false, column + pattern.length⟩ :: ws := by
    rw [resolve_append hchars, resolve_cons (by decide)]
    cases resolve (column + pattern.length + 1) text <;> rfl
  rw [RuleBody.read, hresolve]
  cases hws : resolve (column + pattern.length + 1) text with
  | error fault =>
    refine iff_of_false (fun h => by cases h) ?_
    rintro ⟨weight, hweight, _⟩
    obtain ⟨ws, hok, _⟩ := yields_unescaped (fun c hc heq => hweight.unescaped (heq ▸ hc))
      (column + pattern.length + 1)
    rw [hws] at hok
    cases hok
  | ok ws =>
    have hbody : readBody (readNested nestingLimit) true []
        (chars ++ ⟨'^', false, column + pattern.length⟩ :: ws) =
          (readWeight (column + pattern.length) ws).map fun weight =>
            ⟨done ++ literalSegment (SourceChar.trimEnd back), some weight⟩ := by
      rw [htwo.split, List.append_assoc, htwo.read, readBody_bare htwo.bare, readBody_caret rfl,
        List.append_nil, List.reverse_reverse]
      cases readWeight (column + pattern.length) ws <;> rfl
    change readBody (readNested nestingLimit) true [] (chars ++ _ :: ws) = .ok body ↔ _
    rw [hbody, map_eq_ok]
    refine exists_congr fun weight => ?_
    rw [readWeight_eq_ok hws, eq_comm (a := body)]

end

/-- Behind a pattern that states no weight, a caret and a text make one exactly when that text is a
decimal, but for white space around it, and a double is nearest to that. The weight is this double.
The segments are those that the pattern has without the white space at its end. -/
theorem only_decimals_are_weights {pattern : String} {segments : List Segment}
    (h : RuleBody.read 1 pattern.toList = .ok ⟨segments, none⟩) :
    ∃ kept, RuleBody.read 1 (trimEnd pattern.toList) = .ok ⟨kept, none⟩ ∧
      segments = Segment.join kept (textSegment (lastRun Unicode.isWhiteSpace pattern.toList)) ∧
      ∀ (text : String) (rule : Rule), Rule.ofPattern (pattern ++ "^" ++ text) = .ok rule ↔
        rule.segments = kept ∧ StatesWeight text.toList rule.weight := by
  obtain ⟨kept, hkept, hsegments, hread⟩ := RuleBody.read_caret h
  refine ⟨kept, hkept, hsegments, fun text rule => ?_⟩
  have hwhole : (pattern ++ "^" ++ text).toList = pattern.toList ++ '^' :: text.toList := by
    rw [String.toList_append, String.toList_append, List.append_assoc]
    rfl
  obtain ⟨found, stated⟩ := rule
  rw [ofPattern_eq, mapError_eq_ok, map_eq_ok, hwhole]
  constructor
  · rintro ⟨body, hbody, hrule⟩
    obtain ⟨weight, hweight, rfl⟩ := (hread text.toList body).mp hbody
    cases hrule
    exact ⟨rfl, hweight⟩
  · rintro ⟨rfl, hweight⟩
    exact ⟨_, (hread text.toList _).mpr ⟨stated, hweight, rfl⟩, rfl⟩

/-- The characters of a pattern that ends with an escaped line feed. -/
def treeChars : List SourceChar :=
  [⟨'t', false, 1⟩, ⟨'r', false, 2⟩, ⟨'e', false, 3⟩, ⟨'e', false, 4⟩, ⟨'\n', true, 5⟩]

/-- The space in front of the caret is cut off, and the escaped line feed stays. -/
theorem half_is_the_weight_of_a_tree :
    Rule.ofPattern ("tree\\n " ++ "^" ++ " .5 ") =
      .ok ⟨[.literal "tree\n"], .finite false ⟨twoPow 1073, fits_twoPow (by decide)⟩⟩ := by
  have hread (meant : String) {text : List Char} {chars : List SourceChar}
      (hchars : resolve 1 text = .ok chars) (hbare : Bare chars) (hne : chars.isEmpty = false)
      (hmeant : SourceChar.text chars = meant) :
      RuleBody.read 1 text = .ok ⟨[.literal meant], none⟩ := by
    have hliteral : literalSegment chars = [.literal meant] := by
      rw [literalSegment, hne, if_neg Bool.false_ne_true, hmeant]
    exact RuleBody.read_eq_ok.mpr ⟨chars, hchars, hliteral ▸ readBody_of_bare hbare⟩
  have hspaced : resolve 1 "tree\\n ".toList = .ok (treeChars ++ [⟨' ', false, 7⟩]) := by
    decide +kernel
  have htrimmed : resolve 1 (trimEnd "tree\\n ".toList) = .ok treeChars := by decide +kernel
  have hbare : Bare (treeChars ++ [⟨' ', false, 7⟩]) := by
    unfold Bare
    decide
  have htree : Bare treeChars := fun c hc => hbare c (List.mem_append_left _ hc)
  have hhalf : StatesWeight " .5 ".toList
      (.finite false ⟨twoPow 1073, fits_twoPow (by decide)⟩) :=
    statesWeight_iff.mpr ⟨by decide, by decide, rfl, by decide +kernel⟩
  obtain ⟨kept, hkept, _, hall⟩ :=
    only_decimals_are_weights (hread "tree\n " hspaced hbare rfl (by decide +kernel))
  rw [hread "tree\n" htrimmed htree rfl (by decide +kernel)] at hkept
  cases hkept
  exact (hall " .5 " _).mpr ⟨rfl, hhalf⟩

end TextGrammar
