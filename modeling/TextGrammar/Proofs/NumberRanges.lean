-- The law of ranges of numbers. Two numbers in brackets are read as the range between the two,
-- whatever their signs and their order, and a rule of it gives the digits of a number that lies
-- between them.
import TextGrammar.Proofs.QuotedTexts
import TextGrammar.Proofs.UsableWords

namespace TextGrammar

/-! ## Reading -/

/-- Two numbers in brackets, with a hyphen between them. -/
def numbersPattern (a b : Int64) : String :=
  String.ofList ('[' :: (spellInt a.toInt ++ '-' :: spellInt b.toInt) ++ [']'])

theorem numberRange_eq (a b : Int64) : numberRange a b = .number (min a b) (max a b) := by
  have hmin : min a b = if a ≤ b then a else b := rfl
  have hmax : max a b = if a ≤ b then b else a := rfl
  rw [numberRange, hmin, hmax]
  split <;> rfl

/-- The lower number may stand on either side. -/
theorem ofPattern_numbersPattern (a b : Int64) :
    Rule.ofPattern (numbersPattern a b) = .ok (Target.range (.number (min a b) (max a b))).lone := by
  obtain ⟨levels, hlevels⟩ : ∃ levels, nestingLimit = levels + 1 := ⟨127, rfl⟩
  have hword : ∀ c ∈ spellInt a.toInt ++ '-' :: spellInt b.toInt, IsNameChar c := by
    intro c hc
    rcases List.mem_append.mp hc with hc | hc
    · exact isNameChar_of_mem_spellInt hc
    · rcases List.mem_cons.mp hc with rfl | hc
      · exact isNameChar_hyphen
      · exact isNameChar_of_mem_spellInt hc
  have hread (column : Nat) : readWord column (spellInt a.toInt ++ '-' :: spellInt b.toInt) =
      .ok (.range (.number (min a b) (max a b))) := by
    rw [readWord, readRange_numbers, numberRange_eq]
  have htarget := @yields_word (readNested levels) _ _ (by simp) hword hread
  have hrule := yields_lone htarget
  rw [← hlevels] at hrule
  exact ofPattern_of_yields hrule

/-! ## Expanding -/

section

variable {σ : Type} {e : Expander σ} {owner : String} {source : σ} {target : Target}

/-- A lone reference fails as its target does. -/
theorem expandRule_lone_error (hbudget : e.limits.stepBudget ≠ some 0) {error : ExpansionError}
    {last : Walk σ}
    (h : ((Phrase.target target).expand e (e.enter e.limits.maxDepth) owner).along
      (steppedWalk source) = (.error error, last)) :
    e.expandRule owner target.lone source = ⟨.error error, last⟩ := by
  have halong : (Focus.expand e (.phrase owner (.body target.lone.segments))).along
      (Walk.start source) = (.error error, last) := by
    rw [Focus.expand, Target.lone, expand_body, expand_cons, expand_reference]
    simp only [bind_assoc]
    rw [along_bind_ok (along_step_start hbudget source)]
    exact along_bind_error h
  rw [expandRule_eq, Expander.run_eq, halong]
  rfl

/-- There is no marker in the digits of a number. -/
theorem resolve_spellInt (inflector : Inflector) (n : Int) :
    Inline.resolve inflector (spellInt n) = spellInt n := by
  have hparen : ¬(spellInt n).contains '(' = true := by
    rw [List.contains_iff_mem]
    intro hmem
    have hname : IsNameChar '(' := isNameChar_of_mem_spellInt hmem
    unfold IsNameChar at hname
    exact absurd hname (by decide)
  exact if_neg hparen

theorem along_number (low high : Int64) (enter : String → Expansion σ (List Char)) (walk : Walk σ) :
    (((Phrase.target (.range (.number low high))).expand e enter owner).along walk).1 =
      ((e.chance.number low high walk.source).1.mapError .draw).map (spellInt ·.toInt) := by
  have hdraw : ((Phrase.target (.range (.number low high))).expand e enter owner).along walk =
      (Expander.drawBy (e.chance.number low high) >>= fun n =>
        pure (spellInt n.toInt)).along walk := by
    rw [expand_range]
    rfl
  rw [hdraw, along_bind, Expander.along_drawBy]
  generalize e.chance.number low high walk.source = drawn
  rcases drawn with ⟨_ | n, source⟩ <;> rfl

/-- A range of numbers by itself gives the digits of the number that is drawn. -/
theorem expandRule_number (hbudget : e.limits.stepBudget ≠ some 0) (low high : Int64) :
    (e.expandRule owner (Target.range (.number low high)).lone source).result =
      ((e.chance.number low high source).1.mapError .draw).map
        fun n => String.ofList (spellInt n.toInt) := by
  have hgives := @along_number _ e owner low high (e.enter e.limits.maxDepth) (steppedWalk source)
  change _ = ((e.chance.number low high source).1.mapError ExpansionError.draw).map _ at hgives
  rcases hwhole : ((Phrase.target (.range (.number low high))).expand e
      (e.enter e.limits.maxDepth) owner).along (steppedWalk source) with ⟨answer, last⟩
  rw [hwhole] at hgives
  rcases hdrawn : (e.chance.number low high source).1 with fault | n
  · rw [hdrawn] at hgives
    have hanswer : answer = .error (.draw fault) := hgives
    rw [hanswer] at hwhole
    rw [expandRule_lone_error hbudget hwhole]
    rfl
  · rw [hdrawn] at hgives
    have hanswer : answer = .ok (spellInt n.toInt) := hgives
    rw [hanswer] at hwhole
    rw [expandRule_lone hbudget hwhole, resolve_spellInt]
    rfl

end

/-! ## The law -/

/-- With the source a lone rule ends so, whatever the grammar and the language, on whosever behalf,
and wherever a step may be taken. -/
def Rule.EndsIn {σ : Type} [WordSource σ] (rule : Rule) (source : σ)
    (result : Except ExpansionError String) : Prop :=
  ∀ (g : Grammar) (inflector : Inflector) (limits : Limits) (owner : String),
    limits.stepBudget ≠ some 0 →
      (Expander.expandRule ⟨g, .ofWords, inflector, limits⟩ owner rule source).result = result

section

variable {σ : Type} [WordSource σ] {low high : Int64} {source : σ}

theorem endsIn_of_drawn {n : Int64} (h : (drawNumber low high source).1 = .ok n) :
    (Target.range (.number low high)).lone.EndsIn source
      (.ok (String.ofList (spellInt n.toInt))) := by
  intro g inflector limits owner hbudget
  rw [expandRule_number hbudget]
  change (((drawNumber low high source).1.mapError .draw).map _ : Except ExpansionError String) = _
  rw [h]
  rfl

theorem endsIn_of_exhausted (h : (drawNumber low high source).1 = .error .exhausted) :
    (Target.range (.number low high)).lone.EndsIn source (.error (.draw .exhausted)) := by
  intro g inflector limits owner hbudget
  rw [expandRule_number hbudget]
  change (((drawNumber low high source).1.mapError .draw).map _ : Except ExpansionError String) = _
  rw [h]
  rfl

end

/-- A lone rule that draws one of the numbers from `low` to `high`, and gives its digits. -/
structure Rule.Draws (rule : Rule) (low high : Int64) : Prop where
  /-- A source that gives a usable word draws a number. -/
  between : ∀ {σ : Type} [WordSource σ] (source : σ), GivesUsable (rangeSize low high) source →
    ∃ n, low ≤ n ∧ n ≤ high ∧ rule.EndsIn source (.ok (String.ofList (spellInt n.toInt)))
  /-- One that gives none has every word rejected. -/
  exhausts : ∀ {σ : Type} [WordSource σ] (source : σ), ¬GivesUsable (rangeSize low high) source →
    rule.EndsIn source (.error (.draw .exhausted))
  /-- Each of the numbers is drawn by some word. -/
  reaches : ∀ n, low ≤ n → n ≤ high → ∃ word,
    rule.EndsIn (σ := WordList) ⟨[word], 0⟩ (.ok (String.ofList (spellInt n.toInt)))

theorem draws_lone {low high : Int64} (hle : low ≤ high) :
    (Target.range (.number low high)).lone.Draws low high where
  between := by
    intro _ _ source hgives
    obtain ⟨n, hlow, hhigh, hdrawn⟩ := drawNumber_of_gives hle hgives
    exact ⟨n, hlow, hhigh, endsIn_of_drawn hdrawn⟩
  exhausts := fun source hgives => endsIn_of_exhausted (drawNumber_of_not_gives hle hgives)
  reaches := by
    intro n hlow hhigh
    obtain ⟨word, husable, hword⟩ := exists_word hlow hhigh
    let source : WordList := ⟨[word], 0⟩
    have hfirst : Usable (rangeSize low high) (wordAfter 0 source) := husable
    have hnone : ∀ m < 0, ¬Usable (rangeSize low high) (wordAfter m source) :=
      fun m hm => absurd hm (Nat.not_lt_zero m)
    have hdrawn := drawNumber_of_first hle (Nat.two_pow_pos 64) hfirst hnone
    exact ⟨word, endsIn_of_drawn (hword ▸ hdrawn)⟩

/-- Two numbers of 64 bits in brackets, with a hyphen between them, are read as the range from the
lower to the higher, in whatever order they stand. From a source that gives a usable word, this
expands to the digits of a number between the two; from one that gives none, every word is rejected.
Lists of words give one, and each number between the bounds is drawn by some word. -/
theorem ranges_of_numbers_mean_what_they_say (a b : Int64) :
    Rule.ofPattern (numbersPattern a b) =
      .ok ⟨[.reference (.range (.number (min a b) (max a b))) []], defaultWeight⟩ ∧
    (⟨[.reference (.range (.number (min a b) (max a b))) []], defaultWeight⟩ : Rule).Draws
      (min a b) (max a b) ∧
    ∀ list : WordList, list.words.length < rejectionLimit →
      GivesUsable (rangeSize (min a b) (max a b)) list := by
  have hle : min a b ≤ max a b := by
    have hproper := proper_numberRange a b
    rwa [numberRange_eq] at hproper
  exact ⟨ofPattern_numbersPattern a b, draws_lone hle, fun list =>
    givesUsable_list (rangeSize_pos hle)⟩

/-- The law at the two extremes, the higher one first: all three hyphens are read as they are meant,
and every word is usable. -/
theorem all_numbers_are_a_range :
    let whole : Rule := ⟨[.reference (.range (.number Int64.minValue Int64.maxValue)) []],
      defaultWeight⟩
    let source : WordList := ⟨[7], 0⟩
    Rule.ofPattern "[9223372036854775807--9223372036854775808]" = .ok whole ∧
    GivesUsable (rangeSize Int64.minValue Int64.maxValue) source ∧
    oneStep.limits.stepBudget ≠ some 0 ∧
    ∃ n, Int64.minValue ≤ n ∧ n ≤ Int64.maxValue ∧
      (oneStep.expandRule Expander.patternOwner whole source).result =
        .ok (String.ofList (spellInt n.toInt)) := by
  intro whole source
  have hpattern : numbersPattern Int64.maxValue Int64.minValue =
      "[9223372036854775807--9223372036854775808]" := by
    decide +kernel
  have hlow : min Int64.maxValue Int64.minValue = Int64.minValue := by decide
  have hhigh : max Int64.maxValue Int64.minValue = Int64.maxValue := by decide
  have hgives : GivesUsable (rangeSize Int64.minValue Int64.maxValue) source :=
    ⟨0, Nat.two_pow_pos 64, usable_all _⟩
  have hbudget : oneStep.limits.stepBudget ≠ some 0 := by decide
  have hlaw := ranges_of_numbers_mean_what_they_say Int64.maxValue Int64.minValue
  rw [hlow, hhigh, hpattern] at hlaw
  obtain ⟨hread, hdraws, _⟩ := hlaw
  obtain ⟨n, hmin, hmax, hends⟩ := hdraws.between source hgives
  exact ⟨hread, hgives, hbudget, n, hmin, hmax, hends ⟨[]⟩ .bySpelling _ _ hbudget⟩

end TextGrammar
