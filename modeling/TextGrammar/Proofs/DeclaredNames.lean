-- The law of declared names. A heading may declare every name, but in brackets the shape of a range
-- wins over that of a name: a declared name is referred to unless it has such a shape.
import TextGrammar.Proofs.Acceptance
import TextGrammar.Proofs.ReadCanonical
import TextGrammar.Proofs.RoundTrip

namespace TextGrammar

/-! ## The shape of a range -/

/-- Two letters of ASCII, or two numbers of 64 bits, with a hyphen between them. -/
def HasRangeShape (word : List Char) : Prop :=
  (∃ a b, word = [a, '-', b] ∧ a.isAlpha = true ∧ b.isAlpha = true) ∨
    ∃ low high, word = low ++ '-' :: high ∧ (readInt64? low).isSome = true ∧
      (readInt64? high).isSome = true

/-- Two numbers are read exactly when some hyphen stands between two. -/
theorem isSome_readNumbers? {before word : List Char} :
    (readNumbers? before word).isSome = true ↔ ∃ low high, word = low ++ '-' :: high ∧
      (readInt64? (before ++ low)).isSome = true ∧ (readInt64? high).isSome = true := by
  induction word generalizing before with
  | nil => simp [readNumbers?]
  | cons c word ih =>
    have hhere : (if c = '-' then (readInt64? before).bind fun a =>
          (readInt64? word).map (numberRange a) else none).isSome = true ↔
        c = '-' ∧ (readInt64? before).isSome = true ∧ (readInt64? word).isSome = true := by
      by_cases hc : c = '-'
      · cases readInt64? before <;> simp [hc]
      · simp [hc]
    -- The hyphen is this character, or stands further on with this one in front of it.
    rw [readNumbers?, Option.isSome_or, Bool.or_eq_true, hhere, ih]
    constructor
    · rintro (⟨rfl, hlow, hhigh⟩ | ⟨low, high, rfl, hlow, hhigh⟩)
      · exact ⟨[], word, rfl, by rwa [List.append_nil], hhigh⟩
      · exact ⟨c :: low, high, rfl, by simpa using hlow, hhigh⟩
    · rintro ⟨low, high, hsplit, hlow, hhigh⟩
      cases low with
      | nil =>
        cases hsplit
        exact Or.inl ⟨rfl, by rwa [List.append_nil] at hlow, hhigh⟩
      | cons _ low =>
        cases hsplit
        exact Or.inr ⟨low, high, rfl, by simpa using hlow, hhigh⟩

theorem readRange_letters {a b : Char} (ha : a.isAlpha = true) (hb : b.isAlpha = true) :
    readRange [a, '-', b] ≠ .noRange := by
  simp only [readRange, ha, hb, Bool.and_self, if_true, letterRange]
  split <;> simp

theorem readRange_of_not_letters {word : List Char}
    (h : ¬∃ a b, word = [a, '-', b] ∧ a.isAlpha = true ∧ b.isAlpha = true) :
    readRange word = (readNumbers? [] word).elim .noRange .range := by
  unfold readRange
  split
  · rename_i a b
    have hletters : (a.isAlpha && b.isAlpha) = false := by
      rw [← Bool.not_eq_true, Bool.and_eq_true]
      exact fun hboth => h ⟨a, b, rfl, hboth⟩
    simp [hletters]
  · rfl

/-- A word is no range exactly when it has not the shape of one. -/
theorem readRange_eq_noRange_iff {word : List Char} :
    readRange word = .noRange ↔ ¬HasRangeShape word := by
  have hnumbers : (readNumbers? [] word).isSome = true ↔ ∃ low high, word = low ++ '-' :: high ∧
      (readInt64? low).isSome = true ∧ (readInt64? high).isSome = true := isSome_readNumbers?
  by_cases hletters : ∃ a b, word = [a, '-', b] ∧ a.isAlpha = true ∧ b.isAlpha = true
  · have hshape : HasRangeShape word := Or.inl hletters
    obtain ⟨a, b, rfl, ha, hb⟩ := hletters
    simp [readRange_letters ha hb, hshape]
  · rw [readRange_of_not_letters hletters, HasRangeShape, or_iff_right hletters]
    rw [← hnumbers]
    cases readNumbers? [] word <;> simp

/-! ## Names in brackets -/

/-- A canonical rule is read back from its text, in whatever column that stands. -/
theorem read_spell {rule : Rule} (h : rule.Canonical nestingLimit) (column : Nat) :
    Rule.read column rule.spell = .ok rule := by
  obtain ⟨chars, hchars, hrule⟩ := yields_rule (blocksReadBack nestingLimit) h column
  obtain ⟨body, hbody, hrule⟩ := hrule.read
  unfold Rule.read
  rw [hchars, ok_bind, hbody, ok_bind, hrule]

/-- The rule that is a lone reference. -/
def Target.lone (target : Target) : Rule := ⟨[.reference target []], defaultWeight⟩

theorem spell_lone (target : Target) : target.lone.spell = '[' :: target.spell ++ [']'] := by
  have hweight : spellWeight defaultWeight = [] := by decide +kernel
  simp [Target.lone, Rule.spell, Segment.spellAll, Segment.spell, Modifier.spellAll, hweight]

theorem canonical_lone {target : Target} (h : ∀ levels, target.Canonical levels) :
    target.lone.Canonical nestingLimit := by
  refine .mk (.singleton _) ?_ ⟨_, rfl⟩ fun hweight => absurd rfl hweight
  intro segment hsegment
  rw [List.mem_singleton.mp hsegment]
  exact .reference (h _)

/-- A target in brackets is read back as a lone reference to it. -/
theorem ofPattern_lone {target : Target} (h : ∀ levels, target.Canonical levels) {word : String}
    (hword : target.spell = word.toList) :
    Rule.ofPattern ("[" ++ word ++ "]") = .ok target.lone := by
  have htext : ("[" ++ word ++ "]").toList = target.lone.spell := by
    simp [spell_lone, hword]
  rw [Rule.ofPattern, htext, read_spell (canonical_lone h)]
  rfl

/-- What is read as a symbol has not the shape of a range. -/
theorem noRange_of_ofPattern {pattern name : String}
    (h : Rule.ofPattern pattern = .ok (Target.symbol name).lone) :
    readRange name.toList = .noRange := by
  have hcanonical := canonical_of_read (mapError_eq_ok.mp h)
  cases hcanonical with
  | mk _ hsegments _ _ =>
    cases hsegments _ List.mem_cons_self with
    | reference htarget =>
      cases htarget with
      | symbol _ hnoRange => exact hnoRange

/-! ## The law -/

/-- A name that is declared, written in brackets, is read as a lone reference to its symbol, unless
it has the shape of a range; then it never is. -/
theorem declared_names_are_references (source : String) (g : Grammar)
    (hcompile : Grammar.compile source = .ok g) (symbol : Symbol) (hsymbol : symbol ∈ g.symbols) :
    Rule.ofPattern ("[" ++ symbol.name ++ "]") =
        .ok ⟨[.reference (.symbol symbol.name) []], defaultWeight⟩ ↔
      ¬HasRangeShape symbol.name.toList := by
  rw [← readRange_eq_noRange_iff]
  constructor
  · exact noRange_of_ofPattern
  · intro hnoRange
    obtain ⟨block, hblock, hmakes⟩ :=
      exists_of_mem_of_forall₂ (makes_of_compile hcompile) hsymbol
    have hvalid : isSymbolName symbol.name.toList = true :=
      hmakes.name ▸ (acceptable_of_compile hcompile).named block hblock
    exact ofPattern_lone (fun levels => .symbol hvalid hnoRange) rfl

/-- The law at a name with a hyphen that is neither between two letters nor between two numbers. -/
theorem ray_is_a_reference : ∃ g symbol, Grammar.compile "x-ray\n  [x-ray|4-a]\n" = .ok g ∧
    symbol ∈ g.symbols ∧ symbol.name = "x-ray" ∧
    Rule.ofPattern ("[" ++ symbol.name ++ "]") =
      .ok ⟨[.reference (.symbol symbol.name) []], defaultWeight⟩ := by
  have hcheck : (match Grammar.compile "x-ray\n  [x-ray|4-a]\n" with
      | .ok g => g.symbols.map (·.name) == ["x-ray"]
      | .error _ => false) = true := by decide +kernel
  have hshape : ¬HasRangeShape "x-ray".toList := readRange_eq_noRange_iff.mp (by decide +kernel)
  cases hcompile : Grammar.compile "x-ray\n  [x-ray|4-a]\n" with
  | error error =>
    rw [hcompile] at hcheck
    cases hcheck
  | ok g =>
    rw [hcompile] at hcheck
    have hnames : g.symbols.map (·.name) = ["x-ray"] := by simpa using hcheck
    obtain ⟨symbol, hsymbol, hname⟩ : ∃ symbol ∈ g.symbols, symbol.name = "x-ray" := by
      rw [← List.mem_map, hnames]
      exact List.mem_cons_self
    exact ⟨g, symbol, rfl, hsymbol, hname,
      (declared_names_are_references _ g hcompile symbol hsymbol).mpr (hname ▸ hshape)⟩

/-- A name that has the shape of a range can be declared; in brackets it is read as the range. -/
theorem range_shadows_a_declared_name : ∃ g, Grammar.compile "1-6\n  die\n" = .ok g ∧
    g.contains "1-6" = true ∧
    Rule.ofPattern ("[" ++ "1-6" ++ "]") =
      .ok ⟨[.reference (.range (.number 1 6)) []], defaultWeight⟩ ∧
    Rule.ofPattern ("[" ++ "1-6" ++ "]") ≠
      .ok ⟨[.reference (.symbol "1-6") []], defaultWeight⟩ := by
  have hcheck : (match Grammar.compile "1-6\n  die\n" with
      | .ok g => g.contains "1-6"
      | .error _ => false) = true := by decide +kernel
  have hread : Rule.ofPattern ("[" ++ "1-6" ++ "]") = .ok (Target.range (.number 1 6)).lone :=
    ofPattern_lone (fun levels => .range (by decide)) (by decide +kernel)
  cases hcompile : Grammar.compile "1-6\n  die\n" with
  | error error =>
    rw [hcompile] at hcheck
    cases hcheck
  | ok g =>
    rw [hcompile] at hcheck
    refine ⟨g, rfl, hcheck, hread, ?_⟩
    rw [hread]
    simp [Target.lone]

end TextGrammar
