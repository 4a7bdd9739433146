-- Brackets nest. The scan from a bracket to the one that closes it counts the brackets on its way
-- and passes quoted text that stands right behind a bracket. Where it ends goes by the text up to
-- there and no further, and each bracket that it counts is closed before it ends, wherever the
-- scan for that one is run: in the whole text, or in what stands between the two.
import TextGrammar.Proofs.ScansByPosition

namespace TextGrammar

/-! ## Marks -/

/-- The mark `mark` stands at a position, and is not escaped. -/
def Marked (cs : List SourceChar) (i : Nat) (mark : Char) : Prop :=
  ∃ c, cs[i]? = some c ∧ c.is mark = true

section

variable {cs : List SourceChar} {c : SourceChar} {mark : Char} {i k : Nat}

instance : Decidable (Marked cs i mark) :=
  decidable_of_iff (cs[i]?.any (·.is mark) = true) (by simp [Marked, Option.any_eq_true])

theorem not_marked_nil : ¬Marked [] i mark := by
  rintro ⟨c, hc, _⟩
  cases hc

theorem marked_cons_zero : Marked (c :: cs) 0 mark ↔ c.is mark = true := by
  simp [Marked]

theorem marked_cons_succ : Marked (c :: cs) (i + 1) mark ↔ Marked cs i mark := by
  simp [Marked]

theorem marked_drop : Marked (cs.drop k) i mark ↔ Marked cs (k + i) mark := by
  simp [Marked, List.getElem?_drop]

theorem Marked.ne {other : Char} (h : Marked cs i mark) (hne : mark ≠ other) :
    ¬Marked cs i other := by
  rintro ⟨c, hc, hother⟩
  obtain ⟨d, hd, hmark⟩ := h
  obtain rfl : d = c := Option.some.inj (hd.symm.trans hc)
  rw [SourceChar.is_eq_false hmark hne] at hother
  cases hother

end

/-! ## Quoted text behind a bracket -/

/-- The text starts with blanks and quoted text behind them, which opens at `first` and closes at
`last`. -/
structure QuotedAhead (cs : List SourceChar) (first last : Nat) : Prop where
  blank : ∀ c ∈ cs.take first, c.isBlank = true
  opens : Marked cs first '\''
  lt : first < last
  closes : Marked cs last '\''
  inside : ∀ i, first < i → i < last → ¬Marked cs i '\''

theorem quotedLength_eq_ok {column n : Nat} {cs : List SourceChar} :
    quotedLength column cs = .ok n ↔ Marked cs n '\'' ∧ ∀ i < n, ¬Marked cs i '\'' := by
  induction cs generalizing n with
  | nil =>
    constructor
    · intro h
      cases h
    · rintro ⟨h, _⟩
      exact (not_marked_nil h).elim
  | cons c cs ih =>
    rw [quotedLength]
    by_cases hquote : c.is '\'' = true
    · rw [if_pos hquote]
      constructor
      · intro h
        cases h
        exact ⟨marked_cons_zero.mpr hquote, fun i hi => absurd hi (Nat.not_lt_zero i)⟩
      · rintro ⟨_, hfirst⟩
        rcases Nat.eq_zero_or_pos n with rfl | hn
        · rfl
        · exact (hfirst 0 hn (marked_cons_zero.mpr hquote)).elim
    · rw [if_neg hquote, map_eq_ok]
      constructor
      · rintro ⟨m, hm, rfl⟩
        obtain ⟨hcloses, hfirst⟩ := ih.mp hm
        refine ⟨marked_cons_succ.mpr hcloses, ?_⟩
        intro i hi hmarked
        cases i with
        | zero => exact hquote (marked_cons_zero.mp hmarked)
        | succ i => exact hfirst i (Nat.lt_of_succ_lt_succ hi) (marked_cons_succ.mp hmarked)
      · rintro ⟨hcloses, hfirst⟩
        cases n with
        | zero => exact (hquote (marked_cons_zero.mp hcloses)).elim
        | succ n =>
          refine ⟨n, ih.mpr ⟨marked_cons_succ.mp hcloses, ?_⟩, rfl⟩
          intro i hi hmarked
          exact hfirst (i + 1) (Nat.succ_lt_succ hi) (marked_cons_succ.mpr hmarked)

section

variable {cs : List SourceChar} {c : SourceChar} {first last : Nat}

theorem quotedAhead_succ :
    QuotedAhead (c :: cs) (first + 1) (last + 1) ↔ c.isBlank = true ∧ QuotedAhead cs first last := by
  constructor
  · intro h
    refine ⟨h.blank c List.mem_cons_self, ?_⟩
    exact {
      blank := fun d hd => h.blank d (List.mem_cons_of_mem c hd)
      opens := marked_cons_succ.mp h.opens
      lt := Nat.lt_of_succ_lt_succ h.lt
      closes := marked_cons_succ.mp h.closes
      inside := fun i hfirst hlast hmarked => h.inside (i + 1) (Nat.succ_lt_succ hfirst)
        (Nat.succ_lt_succ hlast) (marked_cons_succ.mpr hmarked) }
  · rintro ⟨hblank, h⟩
    refine ⟨?_, marked_cons_succ.mpr h.opens, Nat.succ_lt_succ h.lt,
      marked_cons_succ.mpr h.closes, ?_⟩
    · intro d hd
      rcases List.mem_cons.mp hd with rfl | hd
      · exact hblank
      · exact h.blank d hd
    · intro i hfirst hlast hmarked
      obtain ⟨j, rfl⟩ := Nat.exists_eq_add_one_of_ne_zero (Nat.ne_zero_of_lt hfirst)
      exact h.inside j (Nat.lt_of_succ_lt_succ hfirst) (Nat.lt_of_succ_lt_succ hlast)
        (marked_cons_succ.mp hmarked)

theorem quotedAhead_zero {column : Nat} :
    QuotedAhead (c :: cs) 0 (last + 1) ↔
      c.is '\'' = true ∧ quotedLength column cs = .ok last := by
  rw [quotedLength_eq_ok]
  constructor
  · intro h
    refine ⟨marked_cons_zero.mp h.opens, marked_cons_succ.mp h.closes, ?_⟩
    intro i hi hmarked
    exact h.inside (i + 1) (Nat.succ_pos i) (Nat.succ_lt_succ hi) (marked_cons_succ.mpr hmarked)
  · rintro ⟨hquote, hcloses, hinside⟩
    refine ⟨by simp, marked_cons_zero.mpr hquote, Nat.succ_pos last,
      marked_cons_succ.mpr hcloses, ?_⟩
    intro i hfirst hlast hmarked
    obtain ⟨j, rfl⟩ := Nat.exists_eq_add_one_of_ne_zero (Nat.ne_zero_of_lt hfirst)
    exact hinside j (Nat.lt_of_succ_lt_succ hlast) (marked_cons_succ.mp hmarked)

end

theorem quoteAhead_eq_some {cs : List SourceChar} {last : Nat} :
    quoteAhead cs = .ok (some last) ↔ ∃ first, QuotedAhead cs first last := by
  induction cs generalizing last with
  | nil =>
    constructor
    · intro h
      cases h
    · rintro ⟨first, h⟩
      exact (not_marked_nil h.opens).elim
  | cons c cs ih =>
    rw [quoteAhead]
    by_cases hblank : c.isBlank = true
    · rw [if_pos hblank, map_eq_ok]
      constructor
      · rintro ⟨quote?, hquote?, h⟩
        obtain ⟨n, rfl, rfl⟩ := Option.map_eq_some_iff.mp h
        obtain ⟨first, hahead⟩ := ih.mp hquote?
        exact ⟨first + 1, quotedAhead_succ.mpr ⟨hblank, hahead⟩⟩
      · rintro ⟨first, h⟩
        obtain ⟨n, rfl⟩ := Nat.exists_eq_add_one_of_ne_zero (Nat.ne_zero_of_lt h.lt)
        cases first with
        | zero =>
          have hquote := marked_cons_zero.mp h.opens
          rw [isBlank_of_is hquote (by decide)] at hblank
          cases hblank
        | succ first => exact ⟨some n, ih.mpr ⟨first, (quotedAhead_succ.mp h).2⟩, rfl⟩
    rw [if_neg hblank]
    -- With no blank in front, quoted text can only open here.
    have hstart {first : Nat} (h : QuotedAhead (c :: cs) first last) : first = 0 := by
      cases first with
      | zero => rfl
      | succ first => exact (hblank (h.blank c List.mem_cons_self)).elim
    by_cases hquote : c.is '\'' = true
    · rw [if_pos hquote, map_eq_ok]
      constructor
      · rintro ⟨n, hn, h⟩
        cases h
        exact ⟨0, quotedAhead_zero.mpr ⟨hquote, hn⟩⟩
      · rintro ⟨first, h⟩
        obtain rfl := hstart h
        obtain ⟨n, rfl⟩ := Nat.exists_eq_add_one_of_ne_zero (Nat.ne_zero_of_lt h.lt)
        exact ⟨n, (quotedAhead_zero.mp h).2, rfl⟩
    · rw [if_neg hquote]
      constructor
      · intro h
        cases h
      · rintro ⟨first, h⟩
        obtain rfl := hstart h
        exact (hquote (marked_cons_zero.mp h.opens)).elim

theorem QuotedAhead.last_eq {cs : List SourceChar} {first last first' last' : Nat}
    (h : QuotedAhead cs first last) (h' : QuotedAhead cs first' last') : last = last' := by
  have hlast := quoteAhead_eq_some.mpr ⟨first, h⟩
  rw [quoteAhead_eq_some.mpr ⟨first', h'⟩] at hlast
  cases hlast
  rfl

theorem not_quotedAhead {cs : List SourceChar} (h : quoteAhead cs = .ok none) (first last : Nat) :
    ¬QuotedAhead cs first last := by
  intro hahead
  rw [quoteAhead_eq_some.mpr ⟨first, hahead⟩] at h
  cases h

/-- A bracket does not stand in front of the text that is quoted. -/
theorem QuotedAhead.first_lt {cs : List SourceChar} {first last i : Nat}
    (h : QuotedAhead cs first last) (hi : Marked cs i '[') : first < i := by
  by_contra hle
  rcases Nat.lt_or_eq_of_le (Nat.le_of_not_lt hle) with hlt | rfl
  · obtain ⟨c, hc, hopen⟩ := hi
    rw [← List.getElem?_take_of_lt hlt] at hc
    have hblank := h.blank c (List.mem_of_getElem? hc)
    rw [isBlank_of_is hopen (by decide)] at hblank
    cases hblank
  · exact hi.ne (by decide) h.opens

/-! ## The positions that the scan comes to -/

/-- At `i` stands a bracket with quoted text right behind it, where `first` and `last` count from
behind the bracket. -/
def QuotedBehind (cs : List SourceChar) (i first last : Nat) : Prop :=
  Marked cs i '[' ∧ QuotedAhead (cs.drop (i + 1)) first last

/-- The positions that the scan from `opening` looks at, up to the end of the text. -/
inductive ComesTo (cs : List SourceChar) (opening : Nat) : Nat → Prop
  | opening : ComesTo cs opening opening
  | next {i : Nat} (comes : ComesTo cs opening i)
      (plain : ∀ first last, ¬QuotedBehind cs i first last) : ComesTo cs opening (i + 1)
  | pass {i first last : Nat} (comes : ComesTo cs opening i)
      (quoted : QuotedBehind cs i first last) : ComesTo cs opening (i + 1 + last + 1)

/-- The position is inside of quoted text behind a bracket that the scan from `opening` looks at. -/
def InQuotes (cs : List SourceChar) (opening p : Nat) : Prop :=
  ∃ i first last, ComesTo cs opening i ∧ QuotedBehind cs i first last ∧
    i + 1 + first < p ∧ p < i + 1 + last

section

variable {cs : List SourceChar} {opening i p first last : Nat}

theorem ComesTo.le (h : ComesTo cs opening i) : opening ≤ i := by
  induction h with
  | opening => exact Nat.le_refl _
  | next _ _ ih => omega
  | pass _ _ ih => omega

/-- The scan looks at each position or passes it with quoted text. -/
theorem comesTo_or_passed (h : opening ≤ p) : ComesTo cs opening p ∨
    ∃ i first last, ComesTo cs opening i ∧ QuotedBehind cs i first last ∧
      i < p ∧ p ≤ i + 1 + last := by
  induction p, h using Nat.le_induction with
  | base => exact Or.inl .opening
  | succ p _ ih =>
    rcases ih with hp | ⟨i, first, last, hi, hquoted, hlt, hle⟩
    · by_cases hquoted : ∃ first last, QuotedBehind cs p first last
      · obtain ⟨first, last, hquoted⟩ := hquoted
        exact Or.inr ⟨p, first, last, hp, hquoted, Nat.lt_succ_self p, by omega⟩
      · exact Or.inl (hp.next fun first last h => hquoted ⟨first, last, h⟩)
    · rcases Nat.lt_or_eq_of_le hle with hbefore | rfl
      · exact Or.inr ⟨i, first, last, hi, hquoted, by omega, hbefore⟩
      · exact Or.inl (hi.pass hquoted)

/-- Of two positions that the scan looks at, the later one is behind what is passed at the other. -/
theorem ComesTo.passed (hp : ComesTo cs opening p) (hi : ComesTo cs opening i)
    (hquoted : QuotedBehind cs i first last) (hlt : i < p) : i + 1 + last < p := by
  induction p using Nat.strong_induction_on generalizing i first last with
  | _ p ih =>
    cases hp with
    | opening => exact absurd hi.le (Nat.not_le_of_lt hlt)
    | @next k hk plain =>
      rcases Nat.lt_or_eq_of_le (Nat.le_of_lt_succ hlt) with hbefore | rfl
      · exact Nat.lt_succ_of_lt (ih k (Nat.lt_succ_self k) hk hi hquoted hbefore)
      · exact (plain _ _ hquoted).elim
    | @pass k first' last' hk hpassed =>
      rcases Nat.lt_trichotomy i k with hbefore | rfl | hbehind
      · have := ih k (by omega) hk hi hquoted hbefore
        omega
      · rw [hquoted.2.last_eq hpassed.2]
        exact Nat.lt_succ_self _
      · have := ih i hlt hi hk hpassed hbehind
        omega

/-- A bracket is looked at unless it is quoted. -/
theorem comesTo_iff (hle : opening ≤ p) (hp : Marked cs p '[') :
    ComesTo cs opening p ↔ ¬InQuotes cs opening p := by
  constructor
  · rintro hcomes ⟨i, first, last, hi, hquoted, hfirst, hlast⟩
    have := hcomes.passed hi hquoted (by omega)
    omega
  · intro hnot
    rcases comesTo_or_passed hle with hcomes | ⟨i, first, last, hi, hquoted, hlt, hbefore⟩
    · exact hcomes
    obtain ⟨j, rfl⟩ := Nat.exists_eq_add_of_le hlt
    have hfirst := hquoted.2.first_lt (marked_drop.mpr hp)
    refine (hnot ⟨i, first, last, hi, hquoted, by omega, ?_⟩).elim
    refine Nat.lt_of_le_of_ne hbefore ?_
    intro heq
    obtain rfl : j = last := by omega
    exact hp.ne (by decide) (marked_drop.mp hquoted.2.closes)

end

/-! ## Where the scan ends -/

/-- The scan with `inner` brackets open ends at `closing` when it goes on from `i`. -/
def EndsAt (cs : List SourceChar) (column : Nat) (scan : BracketScan) (inner i closing : Nat) :
    Prop :=
  ∃ n, closingBracket column scan inner (cs.drop i) = .ok n ∧ closing = i + n

/-- The bracket at `opening` is closed by the one at `closing`. -/
def ClosesAt (cs : List SourceChar) (opening closing : Nat) : Prop :=
  ∃ bracket, cs[opening]? = some bracket ∧ bracket.is '[' = true ∧
    ∃ inside, interiorLength bracket (cs.drop (opening + 1)) = .ok inside ∧
      closing = opening + 1 + inside

/-- That is what the loop by positions finds. -/
theorem closesAt_iff_matching {cs : List SourceChar} {opening closing : Nat}
    (hopen : Marked cs opening '[') :
    ClosesAt cs opening closing ↔ ByPosition.matching cs opening = .whole (.ok closing) := by
  obtain ⟨bracket, hbracket, hopen⟩ := hopen
  rw [ByPosition.matching_eq hbracket hopen]
  constructor
  · rintro ⟨other, hother, _, inside, hinside, rfl⟩
    obtain rfl := Option.some.inj (hbracket.symm.trans hother)
    rw [hinside]
    rfl
  · intro h
    obtain ⟨inside, hinside, rfl⟩ := map_eq_ok.mp (Option.some.inj h)
    exact ⟨bracket, hbracket, hopen, inside, hinside, rfl⟩

/-- With fewer brackets open the scan ends earlier, whichever bracket it is for. -/
theorem closingBracket_fewer {column column' inner fewer n : Nat} {scan : BracketScan}
    {cs : List SourceChar} (h : closingBracket column scan inner cs = .ok n)
    (hfewer : fewer < inner) : ∃ m < n, closingBracket column' scan fewer cs = .ok m := by
  fun_induction closingBracket column scan inner cs generalizing fewer n with
  | case1 => cases h
  | case2 => cases h
  | case3 quote inner c cs ih =>
    obtain ⟨n, hn, rfl⟩ := map_eq_ok.mp h
    obtain ⟨m, hlt, hm⟩ := ih hn hfewer
    refine ⟨m + 1, Nat.succ_lt_succ hlt, ?_⟩
    rw [closingBracket, hm]
    rfl
  | case4 scan inner c cs hscan hopen ih =>
    obtain ⟨n, hn, rfl⟩ := map_eq_ok.mp h
    obtain ⟨m, hlt, hm⟩ := ih hn (Nat.succ_lt_succ hfewer)
    refine ⟨m + 1, Nat.succ_lt_succ hlt, ?_⟩
    rw [closingBracket_open (BracketScan.outside_of_unquoted hscan) hopen, hm]
    rfl
  | case5 => exact absurd hfewer (Nat.not_lt_zero _)
  | case6 scan c cs hscan hopen hclose inner ih =>
    have hout := BracketScan.outside_of_unquoted hscan
    obtain ⟨n, hn, rfl⟩ := map_eq_ok.mp h
    cases fewer with
    | zero => exact ⟨0, Nat.succ_pos _, closingBracket_close_last hout hclose⟩
    | succ fewer =>
      obtain ⟨m, hlt, hm⟩ := ih hn (Nat.lt_of_succ_lt_succ hfewer)
      refine ⟨m + 1, Nat.succ_lt_succ hlt, ?_⟩
      rw [closingBracket_close hout hclose, hm]
      rfl
  | case7 scan inner c cs hscan hopen hclose next =>
    rename_i ih
    obtain ⟨n, hn, rfl⟩ := map_eq_ok.mp h
    obtain ⟨m, hlt, hm⟩ := ih hn hfewer
    refine ⟨m + 1, Nat.succ_lt_succ hlt, ?_⟩
    rw [closingBracket_next (BracketScan.outside_of_unquoted hscan)
      (Bool.eq_false_iff.mpr hopen) (Bool.eq_false_iff.mpr hclose)]
    exact congrArg (Except.map (· + 1)) hm

section

variable {cs : List SourceChar} {column inner opening closing i p : Nat}

/-- What stands where the scan is, and what is left behind it. -/
theorem EndsAt.exists_drop {scan : BracketScan} (h : EndsAt cs column scan inner i closing) :
    ∃ c, cs[i]? = some c ∧ cs.drop i = c :: cs.drop (i + 1) := by
  obtain ⟨n, hn, _⟩ := h
  have hlength := (closingBracket_append hn []).1
  rw [List.length_drop] at hlength
  exact exists_of_lt_length (by omega)

/-- Behind a bracket on its way the scan has one more open. -/
theorem EndsAt.bracket (h : EndsAt cs column .text inner i closing) (hi : Marked cs i '[') :
    EndsAt cs column .opened (inner + 1) (i + 1) closing := by
  obtain ⟨c, hc, hdrop⟩ := h.exists_drop
  obtain ⟨d, hd, hopen⟩ := hi
  obtain rfl := Option.some.inj (hd.symm.trans hc)
  obtain ⟨n, hn, rfl⟩ := h
  rw [hdrop, closingBracket_open rfl hopen] at hn
  obtain ⟨m, hm, rfl⟩ := map_eq_ok.mp hn
  exact ⟨m, hm, by omega⟩

/-- Behind anything else but its end it has some open. -/
theorem EndsAt.text (h : EndsAt cs column .text inner i closing) (hlt : i < closing)
    (hi : ¬Marked cs i '[') : ∃ left, EndsAt cs column .text left (i + 1) closing := by
  obtain ⟨c, hc, hdrop⟩ := h.exists_drop
  have hopen : ¬c.is '[' = true := fun hopen => hi ⟨c, hc, hopen⟩
  obtain ⟨n, hn, rfl⟩ := h
  rw [hdrop] at hn
  by_cases hclose : c.is ']' = true
  · cases inner with
    | zero =>
      rw [closingBracket_close_last rfl hclose] at hn
      cases hn
      exact absurd hlt (Nat.lt_irrefl i)
    | succ inner =>
      rw [closingBracket_close rfl hclose] at hn
      obtain ⟨m, hm, rfl⟩ := map_eq_ok.mp hn
      exact ⟨inner, m, hm, by omega⟩
  · rw [closingBracket_text hopen hclose] at hn
    obtain ⟨m, hm, rfl⟩ := map_eq_ok.mp hn
    exact ⟨inner, m, hm, by omega⟩

/-- Right behind a bracket the scan passes quoted text, if there is any. -/
theorem EndsAt.opened (h : EndsAt cs column .opened inner i closing) :
    (∃ first last, QuotedAhead (cs.drop i) first last ∧
      EndsAt cs column .text inner (i + last + 1) closing) ∨
    ((∀ first last, ¬QuotedAhead (cs.drop i) first last) ∧
      EndsAt cs column .text inner i closing) := by
  obtain ⟨n, hn, rfl⟩ := h
  rw [closingBracket_opened] at hn
  obtain ⟨quote?, hquote?, hn⟩ := bind_eq_ok.mp hn
  cases quote? with
  | none => exact Or.inr ⟨not_quotedAhead hquote?, n, hn, rfl⟩
  | some last =>
    obtain ⟨first, hahead⟩ := quoteAhead_eq_some.mp hquote?
    obtain ⟨m, hm, rfl⟩ := map_eq_ok.mp hn
    rw [← ByPosition.drop_jump] at hm
    exact Or.inl ⟨first, last, hahead, m, hm, by omega⟩

/-- What the scan for one bracket has left at a position that it looks at. -/
def Underway (cs : List SourceChar) (column opening closing i : Nat) : Prop :=
  i = opening ∨ ∃ inner, EndsAt cs column .text inner i closing

/-- At each bracket that the scan looks at, the first apart, there is one more to close. -/
theorem Underway.bracket (hopening : EndsAt cs column .opened 0 (opening + 1) closing)
    (h : Underway cs column opening closing i) (hi : Marked cs i '[') :
    ∃ inner, (i ≠ opening → 0 < inner) ∧ EndsAt cs column .opened inner (i + 1) closing := by
  rcases h with rfl | ⟨inner, h⟩
  · exact ⟨0, fun hne => absurd rfl hne, hopening⟩
  · exact ⟨inner + 1, fun _ => Nat.succ_pos inner, h.bracket hi⟩

theorem ComesTo.underway (hmark : Marked cs opening '[')
    (hopening : EndsAt cs column .opened 0 (opening + 1) closing) (h : ComesTo cs opening i)
    (hle : i ≤ closing) : Underway cs column opening closing i := by
  induction h with
  | opening => exact Or.inl rfl
  | @next i _ plain ih =>
    have hbefore := ih (by omega)
    by_cases hi : Marked cs i '['
    · obtain ⟨inner, _, hend⟩ := hbefore.bracket hopening hi
      rcases hend.opened with ⟨first, last, hahead, _⟩ | ⟨_, hend⟩
      · exact (plain first last ⟨hi, hahead⟩).elim
      · exact Or.inr ⟨inner, hend⟩
    · rcases hbefore with rfl | ⟨inner, hend⟩
      · exact (hi hmark).elim
      · exact Or.inr (hend.text hle hi)
  | @pass i first last _ quoted ih =>
    obtain ⟨inner, _, hend⟩ := (ih (by omega)).bracket hopening quoted.1
    rcases hend.opened with ⟨first', last', hahead, hend⟩ | ⟨plain, _⟩
    · rw [quoted.2.last_eq hahead]
      exact Or.inr ⟨inner, hend⟩
    · exact (plain first last quoted.2).elim

theorem ClosesAt.lt (h : ClosesAt cs opening closing) : opening < closing := by
  obtain ⟨_, _, _, inside, _, rfl⟩ := h
  omega

/-- A bracket that the scan looks at is closed before the scan ends. -/
theorem ClosesAt.closes_before (h : ClosesAt cs opening closing) (hp : ComesTo cs opening p)
    (hmark : Marked cs p '[') (hne : p ≠ opening) (hlt : p < closing) :
    ∃ last < closing, ClosesAt cs p last := by
  obtain ⟨bracket, hbracket, hopen, inside, hinside, hclosing⟩ := h
  have hopening : EndsAt cs bracket.column .opened 0 (opening + 1) closing :=
    ⟨inside, hinside, hclosing⟩
  have hunderway := hp.underway ⟨bracket, hbracket, hopen⟩ hopening (Nat.le_of_lt hlt)
  obtain ⟨inner, hpos, n, hn, rfl⟩ := hunderway.bracket hopening hmark
  obtain ⟨other, hother, hopen'⟩ := hmark
  obtain ⟨m, hm, hlast⟩ := closingBracket_fewer hn (hpos hne)
  exact ⟨p + 1 + m, by omega, other, hother, hopen', m, hlast, rfl⟩

end

/-! ## What stands up to the end -/

/-- The text that is read between two brackets. -/
def interior (cs : List SourceChar) (opening closing : Nat) : List SourceChar :=
  (cs.drop (opening + 1)).take (closing - (opening + 1))

section

variable {cs : List SourceChar} {opening closing : Nat}

/-- The text in front of a bracket, in it, and behind it, which does not count for where the bracket
closes. -/
theorem ClosesAt.exists_split (h : ClosesAt cs opening closing) :
    ∃ front bracket inside last rest, cs = front ++ bracket :: (inside ++ last :: rest) ∧
      opening = front.length ∧ closing = front.length + 1 + inside.length ∧
      last.is ']' = true ∧ ∀ front' rest',
        ClosesAt (front' ++ bracket :: (inside ++ last :: rest')) front'.length
          (front'.length + 1 + inside.length) := by
  obtain ⟨bracket, hbracket, hopen, n, hn, rfl⟩ := h
  obtain ⟨hlt, hget⟩ := List.getElem?_eq_some_iff.mp hbracket
  obtain ⟨inside, last, rest, hsplit, rfl, hlast, hclosed⟩ := exists_closed hn
  have hlength : (cs.take opening).length = opening := List.length_take_of_le (Nat.le_of_lt hlt)
  refine ⟨cs.take opening, bracket, inside, last, rest, ?_, hlength.symm, by rw [hlength], hlast, ?_⟩
  · rw [← hsplit, ← hget, ← List.drop_eq_getElem_cons hlt, List.take_append_drop]
  · intro front' rest'
    refine ⟨bracket, by simp, hopen, inside.length, ?_, rfl⟩
    rw [drop_past]
    exact hclosed rest'

/-- What stands behind the end does not count. -/
theorem ClosesAt.take {stop : Nat} (h : ClosesAt cs opening closing) (hstop : closing < stop)
    (later : List SourceChar) : ClosesAt (cs.take stop ++ later) opening closing := by
  obtain ⟨front, bracket, inside, last, rest, rfl, rfl, rfl, _, hclosed⟩ := h.exists_split
  obtain ⟨n, rfl⟩ := Nat.exists_eq_add_of_lt hstop
  have hcount : front.length + 1 + inside.length + n + 1 =
      front.length + (inside.length + (n + 1) + 1) := by omega
  rw [hcount, List.take_length_add_append, List.take_succ_cons, List.take_length_add_append,
    List.take_succ_cons]
  simpa using hclosed front (rest.take n ++ later)

/-- Nor does what stands in front of the bracket. -/
theorem ClosesAt.drop {start : Nat} (h : ClosesAt cs opening closing) (hstart : start ≤ opening) :
    ClosesAt (cs.drop start) (opening - start) (closing - start) := by
  obtain ⟨front, bracket, inside, last, rest, rfl, rfl, rfl, _, hclosed⟩ := h.exists_split
  have hshort := hclosed (front.drop start) rest
  rw [List.length_drop] at hshort
  rw [List.drop_append_of_le_length hstart]
  convert hshort using 1
  omega

/-- A bracket that is closed between two positions is closed in the text between them, at the same
place. -/
theorem ClosesAt.interior {p last : Nat} (h : ClosesAt cs p last) (hopening : opening < p)
    (hclosing : last < closing) : ClosesAt (interior cs opening closing) (p - (opening + 1))
      (last - (opening + 1)) := by
  have hlt := h.lt
  have hstop : last - (opening + 1) < closing - (opening + 1) := by omega
  have hinside := (h.drop hopening).take hstop []
  rwa [List.append_nil] at hinside

theorem ClosesAt.length_interior (h : ClosesAt cs opening closing) :
    (TextGrammar.interior cs opening closing).length < cs.length := by
  obtain ⟨bracket, hbracket, _⟩ := h
  obtain ⟨hlt, _⟩ := List.getElem?_eq_some_iff.mp hbracket
  have hle := List.length_take_le' (closing - (opening + 1)) (cs.drop (opening + 1))
  rw [List.length_drop] at hle
  exact Nat.lt_of_le_of_lt hle (by omega)

theorem ClosesAt.marked_closing (h : ClosesAt cs opening closing) : Marked cs closing ']' := by
  obtain ⟨front, bracket, inside, last, rest, rfl, _, rfl, hlast, _⟩ := h.exists_split
  refine ⟨last, ?_, hlast⟩
  simp [Nat.add_assoc, Nat.add_comm 1]

/-- Where a bracket closes does not depend on the text behind that, which may be anything or
nothing. The scan looks at each bracket between the two that is not quoted right behind a bracket,
and such a bracket is closed between the two as well, at the same place in the whole text and in
the shorter text between the two. -/
theorem matching_brackets_nest (h : ClosesAt cs opening closing) :
    opening < closing ∧ Marked cs closing ']' ∧
      (∀ later, ClosesAt (cs.take (closing + 1) ++ later) opening closing) ∧
      (interior cs opening closing).length < cs.length ∧
      ∀ p, opening < p → p < closing → Marked cs p '[' →
        (ComesTo cs opening p ↔ ¬InQuotes cs opening p) ∧
        (ComesTo cs opening p → ∃ last < closing, ClosesAt cs p last ∧
          ClosesAt (interior cs opening closing) (p - (opening + 1)) (last - (opening + 1))) := by
  refine ⟨h.lt, h.marked_closing, h.take (Nat.lt_succ_self closing), h.length_interior, ?_⟩
  intro p hopening hclosing hmark
  refine ⟨comesTo_iff (Nat.le_of_lt hopening) hmark, ?_⟩
  intro hcomes
  obtain ⟨last, hlast, hcloses⟩ := h.closes_before hcomes hmark (Nat.ne_of_gt hopening) hclosing
  exact ⟨last, hlast, hcloses, hcloses.interior hopening hlast⟩

end

/-- A bracket with two brackets in it, the second one around quoted text. -/
def nestedText : List SourceChar :=
  "[a [b] ['c]'] d] e".toList.mapIdx fun i c => ⟨c, false, i + 1⟩

theorem nested_bracket_closes_inside :
    SourceChar.resolve 1 "[a [b] ['c]'] d] e".toList = .ok nestedText ∧
      ClosesAt nestedText 0 15 ∧ ComesTo nestedText 0 3 ∧
      ∃ last < 15, ClosesAt nestedText 3 last ∧
        ClosesAt (interior nestedText 0 15) 2 (last - 1) := by
  have hresolve : SourceChar.resolve 1 "[a [b] ['c]'] d] e".toList = .ok nestedText := by
    decide +kernel
  have hcloses : ClosesAt nestedText 0 15 := ⟨⟨'[', false, 1⟩, by decide +kernel, rfl, 14,
    by decide +kernel, rfl⟩
  have hplain {i : Nat} (hi : ¬Marked nestedText i '[') (first last : Nat) :
      ¬QuotedBehind nestedText i first last := fun h => hi h.1
  have hbehind (first last : Nat) : ¬QuotedBehind nestedText 0 first last := fun h =>
    not_quotedAhead (by decide +kernel) first last h.2
  have hcomes : ComesTo nestedText 0 3 :=
    ((ComesTo.opening.next hbehind).next (hplain (by decide +kernel))).next
      (hplain (by decide +kernel))
  have hnested := (matching_brackets_nest hcloses).2.2.2.2 3 (by decide) (by decide)
    (by decide +kernel)
  exact ⟨hresolve, hcloses, hcomes, hnested.2 hcomes⟩

end TextGrammar
