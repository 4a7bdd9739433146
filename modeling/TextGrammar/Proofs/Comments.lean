-- Where a comment starts on a line with the text of a rule. All that is written escapes the comment
-- mark, but for quoted text, which escapes no more than the quote and the escape character.
import TextGrammar.Proofs.Parts
import TextGrammar.Proofs.SealedRules

namespace TextGrammar

/-! ## Characters on a line -/

/-- The characters stand on one line, and a comment starts in them or not. -/
structure OnLine (cs : List Char) (commented : Prop) : Prop where
  noFeed : '\n' ∉ cs
  /-- What follows is stripped as if it stood alone. -/
  kept : ¬commented → ∀ rest, cutComment false (cs ++ rest) = cs ++ cutComment false rest
  cut : commented → ∃ before comment, cs = before ++ commentMark :: comment ∧
    ∀ rest, cutComment false (cs ++ rest) = before

theorem cutComment_isPrefix (escaped : Bool) (cs : List Char) : cutComment escaped cs <+: cs := by
  fun_induction cutComment escaped cs with
  | case1 => exact List.prefix_rfl
  | case2 c cs ih => exact (List.prefix_cons_inj c).mpr ih
  | case3 => exact List.nil_prefix
  | case4 escaped c cs _ _ ih => exact (List.prefix_cons_inj c).mpr ih

/-- The characters that mean something to the reader of lines. -/
def lineMarks : List Char := ['\n', commentMark, escapeChar]

namespace OnLine

variable {a b cs : List Char} {p q : Prop}

theorem iff (h : OnLine cs p) (hpq : p ↔ q) : OnLine cs q := propext hpq ▸ h

theorem nil : OnLine [] False := ⟨by simp, fun _ _ => rfl, False.elim⟩

theorem append (ha : OnLine a p) (hb : OnLine b q) : OnLine (a ++ b) (p ∨ q) := by
  refine ⟨?_, ?_, ?_⟩
  · rw [List.mem_append, not_or]
    exact ⟨ha.noFeed, hb.noFeed⟩
  · intro hnone rest
    obtain ⟨hp, hq⟩ := not_or.mp hnone
    rw [List.append_assoc, ha.kept hp, hb.kept hq, List.append_assoc]
  · intro hsome
    -- The first comment is the one that counts.
    by_cases hp : p
    · obtain ⟨before, comment, rfl, hcut⟩ := ha.cut hp
      refine ⟨before, comment ++ b, by simp, fun rest => ?_⟩
      rw [List.append_assoc, hcut]
    · obtain ⟨before, comment, rfl, hcut⟩ := hb.cut (hsome.resolve_left hp)
      refine ⟨a ++ before, comment, by simp, fun rest => ?_⟩
      rw [List.append_assoc, ha.kept hp, hcut]

theorem append_plain (ha : OnLine a p) (hb : OnLine b False) : OnLine (a ++ b) p :=
  (ha.append hb).iff (or_iff_left not_false)

theorem plain_append (ha : OnLine a False) (hb : OnLine b p) : OnLine (a ++ b) p :=
  (ha.append hb).iff (or_iff_right not_false)

/-- A character that means nothing to the reader of lines. -/
theorem singleton {c : Char} (h : c ∉ lineMarks) : OnLine [c] False := by
  simp only [lineMarks, List.mem_cons, List.not_mem_nil, or_false, not_or] at h
  obtain ⟨hfeed, hmark, hescape⟩ := h
  refine ⟨by simpa using Ne.symm hfeed, fun _ rest => ?_, False.elim⟩
  rw [List.singleton_append, cutComment, if_neg Bool.false_ne_true, if_neg hmark,
    beq_eq_false_iff_ne.mpr hescape, List.singleton_append]

theorem of_plain (h : ∀ c ∈ cs, c ∉ lineMarks) : OnLine cs False := by
  induction cs with
  | nil => exact nil
  | cons c cs ih =>
    have hc := singleton (h c List.mem_cons_self)
    exact hc.append_plain (ih fun d hd => h d (List.mem_cons_of_mem c hd))

/-- The escape character takes the meaning from the one behind it. -/
theorem escape {c : Char} (hc : c ≠ '\n') : OnLine [escapeChar, c] False := by
  refine ⟨by simpa [escapeChar] using Ne.symm hc, fun _ rest => ?_, False.elim⟩
  have hmark : escapeChar ≠ commentMark := by decide
  simp [cutComment, hmark]

/-- A comment starts at its mark. -/
theorem mark : OnLine [commentMark] True :=
  ⟨by decide, fun h => absurd trivial h, fun _ => ⟨[], [], rfl, fun _ => rfl⟩⟩

end OnLine

/-! ## Parts of a rule's text -/

theorem onLine_escapeOne {specials : List Char} (hescape : escapeChar ∈ specials) (c : Char) :
    OnLine (escapeOne specials c) (c = commentMark ∧ commentMark ∉ specials) := by
  unfold escapeOne
  split_ifs with hfeed htab hspecial
  · exact (OnLine.escape (by decide)).iff (by simp [hfeed, commentMark])
  · exact (OnLine.escape (by decide)).iff (by simp [htab, commentMark])
  · refine (OnLine.escape hfeed).iff (iff_of_false not_false ?_)
    rintro ⟨rfl, hnone⟩
    exact hnone hspecial
  · by_cases hmark : c = commentMark
    · subst hmark
      exact OnLine.mark.iff (iff_of_true trivial ⟨rfl, hspecial⟩)
    · have hne : c ≠ escapeChar := fun heq => hspecial (heq ▸ hescape)
      refine (OnLine.singleton ?_).iff (by simp [hmark])
      simp [lineMarks, hfeed, hmark, hne]

/-- A comment starts in a text whose comment marks are not escaped, if it has one. -/
theorem onLine_escapeText {specials : List Char} (hescape : escapeChar ∈ specials)
    (text : String) : OnLine (escapeText specials text)
      (commentMark ∈ text.toList ∧ commentMark ∉ specials) := by
  unfold escapeText
  induction text.toList with
  | nil => exact OnLine.nil.iff (by simp)
  | cons c cs ih =>
    rw [List.flatMap_cons]
    refine ((onLine_escapeOne hescape c).append ih).iff ?_
    rw [List.mem_cons, or_and_right, eq_comm]

/-- A name means nothing to the reader of lines. -/
theorem IsNameChar.not_mem_lineMarks {c : Char} (h : IsNameChar c) : c ∉ lineMarks :=
  h.not_mem (by decide)

theorem onLine_name {word : List Char} (h : ∀ c ∈ word, IsNameChar c) : OnLine word False :=
  .of_plain fun c hc => (h c hc).not_mem_lineMarks

theorem onLine_modifiers (modifiers : List Modifier) :
    OnLine (Modifier.spellAll modifiers) False := by
  refine .of_plain fun c hc => ?_
  obtain ⟨m, _, hm⟩ := List.mem_flatMap.mp hc
  rcases List.mem_cons.mp hm with rfl | hm
  · decide
  · exact (isNameChar_of_isAlpha (isAlpha_of_mem_token hm)).not_mem_lineMarks

theorem onLine_weight {weight : Double} (h : weight.IsWeight) :
    OnLine (spellWeight weight) False := by
  obtain ⟨m, rfl⟩ := h
  unfold spellWeight
  split
  · exact .nil
  · refine .of_plain fun c hc => ?_
    rcases List.mem_cons.mp hc with rfl | hc
    · decide
    · rcases mem_of_isDecimal (Double.isDecimal_toText m) hc with hdigit | rfl
      · exact (isNameChar_of_isDigit hdigit).not_mem_lineMarks
      · decide

/-- What stands between two marks of its own. -/
theorem OnLine.between {first last : Char} {cs : List Char} {p : Prop} (h : OnLine cs p)
    (hfirst : first ∉ lineMarks) (hlast : last ∉ lineMarks) :
    OnLine (first :: cs ++ [last]) p :=
  ((OnLine.singleton hfirst).plain_append h).append_plain (.singleton hlast)

/-! ## Rules -/

namespace Phrase

/-- The text of a phrase. A symbol that is opened has none of its own. -/
def spell : Phrase → List Char
  | segment s => s.spell
  | target t => t.spell
  | row ss => Segment.spellAll ss
  | body ss => Segment.spellAll ss
  | symbol _ => []

/-- The phrase is no quoted text with a comment mark in it. -/
def Uncommented : Phrase → Prop
  | target (.quoted text) => commentMark ∉ text.toList
  | _ => True

instance : (phrase : Phrase) → Decidable phrase.Uncommented
  | target (.quoted _) => inferInstanceAs (Decidable (_ ∉ _))
  | segment _ | row _ | body _ | symbol _ => inferInstanceAs (Decidable True)
  | target (.symbol _) | target (.dereference _) | target (.pattern _) | target (.range _) =>
    inferInstanceAs (Decidable True)

end Phrase

theorem onLine_rule {rule : Rule} (hweight : rule.weight.IsWeight) {p : Prop}
    (h : OnLine (Segment.spellAll rule.segments) p) : OnLine rule.spell p := by
  obtain ⟨segments, weight⟩ := rule
  exact h.append_plain (onLine_weight hweight)

theorem onLine_branches {p : Rule → Prop} {branches : List Rule}
    (h : ∀ rule ∈ branches, OnLine rule.spell (p rule)) :
    OnLine (Rule.spellBranches branches) (∃ rule ∈ branches, p rule) := by
  induction branches with
  | nil => exact OnLine.nil.iff (by simp)
  | cons rule branches ih =>
    obtain ⟨hrule, hbranches⟩ := List.forall_mem_cons.mp h
    cases branches with
    | nil => exact hrule.iff (by simp)
    | cons next branches =>
      have hbar : OnLine ['|'] False := .singleton (by decide)
      rw [Rule.spellBranches]
      · refine (hrule.append (hbar.plain_append (ih hbranches))).iff ?_
        simp only [List.mem_cons, exists_eq_or_imp]
      · simp

/-- A comment starts in the text of a phrase exactly when a quoted part has a comment mark. -/
theorem onLine_of_canonical : Phrase.Inductive fun phrase => ∀ levels, phrase.Canonical levels →
    OnLine phrase.spell (¬phrase.All Phrase.Uncommented) where
  literal text := by
    intro levels _
    refine (onLine_escapeText (by decide) text).iff (iff_of_false ?_ ?_)
    · exact fun h => h.2 (by decide)
    · simp [Phrase.Uncommented]
  reference target modifiers ih := by
    rintro _ (_ | h | _)
    have htarget := (ih _ h).append_plain (onLine_modifiers modifiers)
    refine (htarget.between (by decide) (by decide)).iff (not_congr ?_)
    simp [Phrase.Uncommented]
  choice branches ih := by
    rintro _ (_ | _ | ⟨_, h⟩)
    have hbranches : OnLine (Rule.spellBranches branches)
        (∃ rule ∈ branches, ¬(Phrase.body rule.segments).All Phrase.Uncommented) := by
      refine onLine_branches fun rule hmem => ?_
      cases h rule hmem with
      | mk _ hsegments isWeight _ => exact onLine_rule isWeight (ih _ hmem _ hsegments)
    refine (hbranches.between (by decide) (by decide)).iff ?_
    simp [Phrase.Uncommented]
  symbolTarget name _ := by
    rintro _ (⟨hvalid, _⟩ | _ | _ | _ | _)
    refine (onLine_name (isNameChar_of_isSymbolName hvalid)).iff ?_
    simp [Phrase.Uncommented]
  dereference inner ih := by
    rintro _ (_ | ⟨_, h⟩ | _ | _ | _)
    refine (ih _ h).iff (not_congr ?_)
    simp [Phrase.Uncommented]
  quoted text := by
    intro levels _
    have htext := onLine_escapeText (by decide : escapeChar ∈ ['\'', '\\']) text
    refine (htext.between (by decide) (by decide)).iff ?_
    simp [Phrase.Uncommented, commentMark]
  pattern segments ih := by
    rintro _ (_ | _ | _ | ⟨_, h⟩ | _)
    refine ((ih _ h).between (by decide) (by decide)).iff (not_congr ?_)
    simp [Phrase.Uncommented]
  range range := by
    rintro _ (_ | _ | _ | _ | h)
    refine (onLine_name fun c hc => isNameChar_of_mem_spell h hc).iff ?_
    simp [Phrase.Uncommented]
  nil := by
    intro levels _
    exact OnLine.nil.iff (by simp)
  cons segment segments ihSegment ihRow := by
    intro levels h
    have h := List.forall_mem_cons.mp h
    refine ((ihSegment levels h.1).append (ihRow levels h.2)).iff ?_
    rw [Phrase.all_cons, not_and_or]
  body segments ih := ih
  symbol name := by
    intro levels _
    exact OnLine.nil.iff (by simp [Phrase.Uncommented])

/-! ## Rules that break off -/

/-- The text of some segments, and behind it a segment in brackets without its end. -/
def BreaksOff (levels : Nat) (text : List Char) : Prop :=
  ∃ (before : List Segment) (s : Segment) (inside missing : List Char),
    CanonicalRow levels before ∧ s.Canonical levels ∧ s.isLiteral = false ∧
      s.spell = '[' :: (inside ++ missing) ∧ missing ≠ [] ∧
      text = Segment.spellAll before ++ '[' :: inside

theorem BreaksOff.ne_nil {levels : Nat} {text : List Char} (h : BreaksOff levels text) :
    text ≠ [] := by
  obtain ⟨_, _, _, _, _, _, _, _, _, rfl⟩ := h
  simp

/-- Trimming the end stops at a character that is no white space. -/
theorem trimEnd_append_cons {c : Char} (hc : Unicode.isWhiteSpace c = false) (a b : List Char) :
    trimEnd (a ++ c :: b) = a ++ c :: trimEnd b := by
  have hdrop : (b.reverse ++ c :: a.reverse).dropWhile Unicode.isWhiteSpace =
      b.reverse.dropWhile Unicode.isWhiteSpace ++ c :: a.reverse := by
    rw [List.dropWhile_append]
    split
    · rename_i hempty
      rw [List.isEmpty_iff.mp hempty, List.dropWhile_cons, hc]
      rfl
    · rfl
  simp [trimEnd, hdrop]

theorem trimEnd_isPrefix (cs : List Char) : trimEnd cs <+: cs := by
  have hsuffix := List.dropWhile_suffix (l := cs.reverse) Unicode.isWhiteSpace
  rwa [← List.reverse_prefix, List.reverse_reverse] at hsuffix

/-- White space that is lost at the end is missing too. -/
theorem BreaksOff.trimEnd {levels : Nat} {text : List Char} (h : BreaksOff levels text) :
    BreaksOff levels (trimEnd text) := by
  obtain ⟨before, s, inside, missing, hbefore, hs, hbracketed, hspell, hmissing, rfl⟩ := h
  obtain ⟨lost, hlost⟩ := trimEnd_isPrefix inside
  refine ⟨before, s, TextGrammar.trimEnd inside, lost ++ missing, hbefore, hs, hbracketed, ?_,
    by simp [hmissing], trimEnd_append_cons (by decide) _ _⟩
  rw [← List.append_assoc, hlost, hspell]

section

variable {readBlock : BlockReader} {weighted : Bool} {segments : List Segment}
  {stated : Option Double} {cs rest : List SourceChar}

/-- What cannot be read cannot be read behind other segments. -/
theorem BodyOf.unreadable (h : BodyOf readBlock weighted segments stated cs)
    (hstated : stated = none)
    (hrest : ∀ literal body, TextGrammar.readBody readBlock weighted literal rest ≠ .ok body) :
    ∀ literal body, TextGrammar.readBody readBlock weighted literal (cs ++ rest) ≠ .ok body := by
  induction h with
  | done => exact hrest
  | weight => cases hstated
  | literal _ hescaped _ _ _ ih =>
    intro literal body
    rw [List.append_assoc, readBody_pass hescaped.stands]
    exact ih hstated _ _
  | block hclosed hread _ ih =>
    intro literal body hbody
    rw [List.cons_append, List.append_assoc, List.cons_append, TextGrammar.readBody,
      if_pos hclosed.opens, hclosed.interiorLength, ok_bind, List.take_left, drop_past, hread,
      ok_bind] at hbody
    obtain ⟨tail, htail, _⟩ := bind_eq_ok.mp hbody
    exact ih hstated [] tail htail

end

/-- A rule that breaks off is not read. -/
theorem BreaksOff.unreadable {text : List Char} (h : BreaksOff nestingLimit text) (column : Nat)
    (rule : Rule) : Rule.read column text ≠ .ok rule := by
  obtain ⟨before, s, inside, missing, hbefore, hs, hbracketed, hspell, hmissing, rfl⟩ := h
  intro hread
  obtain ⟨chars, hchars, hread⟩ := bind_eq_ok.mp hread
  obtain ⟨body, hbody, _⟩ := bind_eq_ok.mp hread
  have hnone : Yields [] (BodyOf (readNested nestingLimit) true [] none) := .nil .done
  have hbodies := yields_body (blocksReadBack nestingLimit) hnone hbefore (fun h => absurd rfl h)
  rw [List.append_nil] at hbodies
  obtain ⟨as, has, hbodyOf⟩ := hbodies column
  rw [resolve_append has] at hchars
  obtain ⟨bs, hbs, rfl⟩ := map_eq_ok.mp hchars
  refine hbodyOf.unreadable rfl ?_ [] body hbody
  obtain ⟨_, hblock, opening, interior, closing, rfl, hclosed, _⟩ :=
    blocksReadBack nestingLimit s hs hbracketed (column + (Segment.spellAll before).length)
  rw [hspell, ← List.cons_append, resolve_append hbs] at hblock
  obtain ⟨ms, hms, hsplit⟩ := map_eq_ok.mp hblock
  have hne : ms ≠ [] := by
    rintro rfl
    exact hmissing (nil_of_resolve hms)
  rw [resolve_cons (by decide)] at hbs
  obtain ⟨inner, _, rfl⟩ := map_eq_ok.mp hbs
  rw [List.cons_append, List.cons.injEq] at hsplit
  obtain ⟨rfl, hsplit⟩ := hsplit
  intro literal body hbody
  rw [readBody, if_pos hclosed.opens] at hbody
  obtain ⟨n, hn, _⟩ := bind_eq_ok.mp hbody
  exact hclosed.not_closed hsplit hne n hn

/-! ## What is left of a rule -/

/-- A row with a part that lacks a property has a first segment with such a part. -/
theorem exists_first {F : Phrase → Prop} {segments : List Segment}
    (h : ¬(Phrase.row segments).All F) : ∃ before s after, segments = before ++ s :: after ∧
      (Phrase.row before).All F ∧ ¬(Phrase.segment s).All F := by
  induction segments with
  | nil => exact absurd Phrase.all_nil h
  | cons s segments ih =>
    by_cases hs : (Phrase.segment s).All F
    · obtain ⟨before, t, after, rfl, hbefore, ht⟩ :=
        ih fun hrest => h (Phrase.all_cons.mpr ⟨hs, hrest⟩)
      exact ⟨s :: before, t, after, rfl, Phrase.all_cons.mpr ⟨hs, hbefore⟩, ht⟩
    · exact ⟨[], s, segments, rfl, Phrase.all_nil, hs⟩

namespace Rule

variable {levels : Nat} {rule : Rule}

/-- No quoted text of the rule has a comment mark. -/
def Uncommented (rule : Rule) : Prop := (Phrase.body rule.segments).All Phrase.Uncommented

theorem onLine (h : rule.Canonical levels) : OnLine rule.spell (¬rule.Uncommented) := by
  obtain ⟨_, hsegments, hweight, _⟩ := h
  exact onLine_rule hweight (onLine_of_canonical.all (.body _) levels hsegments)

/-- A rule without comment marks in its quoted text is left as it is. -/
theorem stripComment_of_uncommented (h : rule.Canonical levels) (hnone : rule.Uncommented) :
    stripComment rule.spell = rule.spell := by
  have hkept := (onLine h).kept (not_not_intro hnone) []
  rwa [List.append_nil, cutComment, List.append_nil] at hkept

/-- Any other rule breaks off. -/
theorem breaksOff_of_commented (h : rule.Canonical levels) (hsome : ¬rule.Uncommented) :
    BreaksOff levels (stripComment rule.spell) := by
  obtain ⟨segments, weight⟩ := rule
  obtain ⟨hapart, hsegments, _, _⟩ := h
  obtain ⟨before, s, after, rfl, hbefore, hs⟩ := exists_first hsome
  have hcanonical := hsegments s (by simp)
  have hrow : CanonicalRow levels before :=
    ⟨hapart.left_of_append, fun t ht => hsegments t (List.mem_append_left _ ht)⟩
  obtain ⟨hbracketed, tail, htail⟩ : s.isLiteral = false ∧ ∃ tail, s.spell = '[' :: tail := by
    cases hcanonical with
    | literal _ => exact absurd (Phrase.all_literal.mpr trivial) hs
    | reference _ => exact ⟨rfl, _, rfl⟩
    | choice _ _ => exact ⟨rfl, _, rfl⟩
  have hline := onLine_of_canonical.all (.row before) levels hrow.canonical
  obtain ⟨kept, comment, hsplit, hcut⟩ :=
    (onLine_of_canonical.all (.segment s) levels hcanonical).cut hs
  have hspell : s.spell = kept ++ commentMark :: comment := hsplit
  -- The bracket is kept, for it is no comment mark.
  obtain ⟨inside, rfl⟩ : ∃ inside, kept = '[' :: inside := by
    cases kept with
    | nil =>
      rw [htail] at hspell
      cases hspell
    | cons c inside =>
      rw [htail, List.cons_append, List.cons.injEq] at hspell
      exact ⟨inside, by rw [hspell.1]⟩
  refine ⟨before, s, inside, commentMark :: comment, hrow, hcanonical, hbracketed, hspell,
    List.cons_ne_nil _ _, ?_⟩
  have hkept := hline.kept (not_not_intro hbefore)
    (s.spell ++ (Segment.spellAll after ++ spellWeight weight))
  have hstopped : cutComment false (s.spell ++ (Segment.spellAll after ++ spellWeight weight)) =
      '[' :: inside := hcut _
  rw [hstopped] at hkept
  rw [stripComment, Rule.spell, spellAll_append, Segment.spellAll, List.append_assoc,
    List.append_assoc]
  exact hkept

end Rule

end TextGrammar
