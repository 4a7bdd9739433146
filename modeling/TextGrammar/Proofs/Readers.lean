-- What the readers of the object notation take from the start of a text, and how much room they
-- need for it. A reader that has the room takes all of what it reads and nothing more; one that
-- has less fails. So the room that a whole value needs is known from the value alone.
import TextGrammar.Proofs.WrittenTokens
import TextGrammar.Ron.Reader

namespace TextGrammar

namespace Ron

/-! ## Blanks -/

/-- The text starts with a character that is no blank, opens no comment, and closes nothing. -/
def Opens (cs : List Char) : Prop :=
  ∃ c ds, cs = c :: ds ∧ isBlank c = false ∧ c ≠ '/' ∧ c ≠ ']' ∧ c ≠ ')'

theorem opens_cons {c : Char} (hc : (isBlank c || c == '/' || c == ']' || c == ')') = false)
    (cs : List Char) : Opens (c :: cs) := by
  simp only [Bool.or_eq_false_iff, beq_eq_false_iff_ne] at hc
  exact ⟨c, cs, rfl, hc.1.1.1, hc.1.1.2, hc.1.2, hc.2⟩

theorem Opens.append {cs : List Char} (h : Opens cs) (rest : List Char) : Opens (cs ++ rest) := by
  obtain ⟨c, ds, rfl, hc⟩ := h
  exact ⟨c, ds ++ rest, rfl, hc⟩

theorem opens_of_isPlainName {name : List Char} (h : isPlainName name = true) : Opens name := by
  unfold isPlainName at h
  simp only [Bool.and_eq_true] at h
  obtain ⟨c, cs, rfl⟩ : ∃ c cs, name = c :: cs := by
    cases name with
    | nil => exact absurd h.1.1 (by decide)
    | cons c cs => exact ⟨c, cs, rfl⟩
  have hstarts : startsName c = true := h.1.1
  refine opens_cons (Bool.eq_false_iff.mpr fun hother => ?_) cs
  simp only [isBlank, Bool.or_eq_true, beq_iff_eq] at hother
  rcases hother with (((((rfl | rfl) | rfl) | rfl) | rfl) | rfl) | rfl <;>
    exact absurd hstarts (by decide)

theorem skipBlanks_of_not_blank {c : Char} (hblank : isBlank c = false) (hslash : c ≠ '/')
    (cs : List Char) : skipBlanksFrom .between (c :: cs) = some (c :: cs) := by
  cases cs with
  | nil => simp [skipBlanksFrom, hblank, hslash]
  | cons d ds =>
    rw [skipBlanksFrom]
    · rw [if_neg (by simp [hblank]), if_neg hslash]
    · rintro _ rfl
      exact absurd rfl hslash
    · rintro _ rfl
      exact absurd rfl hslash

theorem skipBlanks_blank {c : Char} (hblank : isBlank c = true) (cs : List Char) :
    skipBlanksFrom .between (c :: cs) = skipBlanksFrom .between cs := by
  have hslash : c ≠ '/' := by
    rintro rfl
    exact absurd hblank (by decide)
  rw [skipBlanksFrom, if_pos hblank]
  · rintro _ rfl
    exact absurd rfl hslash
  · rintro _ rfl
    exact absurd rfl hslash

theorem skipBlanks_margin (indent : Nat) (cs : List Char) :
    skipBlanksFrom .between (margin indent ++ cs) = skipBlanksFrom .between cs := by
  unfold margin
  induction 4 * indent with
  | zero => rfl
  | succ n ih =>
    rw [List.replicate_succ, List.cons_append, skipBlanks_blank (by decide), ih]

theorem Opens.skipBlanks {cs : List Char} (h : Opens cs) (rest : List Char) :
    skipBlanksFrom .between (cs ++ rest) = some (cs ++ rest) := by
  obtain ⟨c, ds, rfl, hblank, hslash, _⟩ := h
  exact skipBlanks_of_not_blank hblank hslash (ds ++ rest)

/-- Behind blanks and comments stand no more of them. -/
theorem skipBlanks_skipped {scan : BlankScan} {cs ds : List Char}
    (h : skipBlanksFrom scan cs = some ds) : skipBlanksFrom .between ds = some ds := by
  fun_induction skipBlanksFrom scan cs with
  | case1 => exact absurd h (by simp)
  | case2 =>
    obtain rfl := Option.some.inj h
    rfl
  | case6 => exact absurd h (by simp)
  | case7 c cs _ _ hblank hslash =>
    obtain rfl := Option.some.inj h
    exact skipBlanks_of_not_blank (Bool.eq_false_iff.mpr hblank) hslash cs
  | _ =>
    -- The scan goes on.
    rename_i ih
    exact ih h

namespace Reader

variable {α β σ : Type} {most : Nat}

/-! ## Taking -/

/-- With room for `cost` levels the reader takes `x` and leaves `rest`; with less it fails. This is
said of contexts with no extensions and with room for at most `most` levels. -/
def Takes (most : Nat) (reader : Reader α) (cost : Nat) (cs : List Char) (x : α)
    (rest : List Char) : Prop :=
  ∀ room ≤ most, reader { room } cs = if cost ≤ room then some (x, rest) else none

theorem Takes.mono {less cost : Nat} {reader : Reader α} {cs rest : List Char} {x : α}
    (h : Takes most reader cost cs x rest) (hless : less ≤ most) :
    Takes less reader cost cs x rest :=
  fun room hroom => h room (Nat.le_trans hroom hless)

theorem run_bind (reader : Reader α) (next : α → Reader β) (context : Context) (cs : List Char) :
    (reader >>= next) context cs =
      (reader context cs).bind fun (x, rest) => next x context rest := rfl

theorem takes_pure (x : α) (cs : List Char) : Takes most (pure x) 0 cs x cs := fun _ _ => rfl

/-- What needs no room is taken first, and what follows needs the room. -/
theorem Takes.then {cost : Nat} {reader : Reader α} {next : α → Reader β}
    {cs ds rest : List Char} {x : α} {y : β} (h : Takes most reader 0 cs x ds)
    (hnext : Takes most (next x) cost ds y rest) : Takes most (reader >>= next) cost cs y rest := by
  intro room hroom
  rw [run_bind, h room hroom, if_pos (Nat.zero_le room)]
  exact hnext room hroom

/-- Of two readers in a row, the one that needs more room says how much both need. -/
theorem Takes.bind {cost cost' : Nat} {reader : Reader α} {next : α → Reader β}
    {cs ds rest : List Char} {x : α} {y : β} (h : Takes most reader cost cs x ds)
    (hnext : Takes most (next x) cost' ds y rest) :
    Takes most (reader >>= next) (max cost cost') cs y rest := by
  intro room hroom
  rw [run_bind, h room hroom]
  by_cases hcost : cost ≤ room
  · rw [if_pos hcost, Option.bind_some]
    refine (hnext room hroom).trans ?_
    simp only [Nat.max_le, hcost, true_and]
  · rw [if_neg hcost, Option.bind_none, if_neg fun hmax => hcost (Nat.max_le.mp hmax).1]

/-- What needs the room is taken first, and what follows needs none. -/
theorem Takes.followed {cost : Nat} {reader : Reader α} {next : α → Reader β}
    {cs ds rest : List Char} {x : α} {y : β} (h : Takes most reader cost cs x ds)
    (hnext : Takes most (next x) 0 ds y rest) : Takes most (reader >>= next) cost cs y rest := by
  have hbind := h.bind hnext
  rwa [Nat.max_zero] at hbind

theorem Takes.map {cost : Nat} {reader : Reader α} {cs rest : List Char} {x : α}
    (h : Takes most reader cost cs x rest) (f : α → β) :
    Takes most (f <$> reader) cost cs (f x) rest := by
  have hbind : Takes most (reader >>= fun a => pure (f a)) cost cs (f x) rest :=
    h.followed (takes_pure (f x) rest)
  exact hbind

/-- One level deeper takes one level of room, so there may be one more. -/
theorem Takes.below {cost : Nat} {reader : Reader α} {cs rest : List Char} {x : α}
    (h : Takes most reader cost cs x rest) :
    Takes (most + 1) (Reader.deeper reader) (cost + 1) cs x rest := by
  intro room hroom
  cases room with
  | zero => rfl
  | succ room =>
    refine (h room (Nat.le_of_succ_le_succ hroom)).trans ?_
    simp only [Nat.add_le_add_iff_right]

theorem Takes.deeper {cost : Nat} {reader : Reader α} {cs rest : List Char} {x : α}
    (h : Takes most reader cost cs x rest) :
    Takes most (Reader.deeper reader) (cost + 1) cs x rest := h.below.mono (Nat.le_succ most)

/-- What follows may look at the context, as long as it comes to the same in each. -/
theorem takes_read {cost : Nat} {next : Context → Reader α} {cs rest : List Char} {x : α}
    (h : ∀ room, Takes most (next { room }) cost cs x rest) :
    Takes most (read >>= next) cost cs x rest := fun room hroom => h room room hroom

/-! ## Single steps -/

theorem takes_ofText {read : List Char → Option (α × List Char)} {cs rest : List Char} {x : α}
    (h : read cs = some (x, rest)) : Takes most (ofText read) 0 cs x rest :=
  fun room _ => h.trans (if_pos (Nat.zero_le room)).symm

theorem takes_blanks {cs rest : List Char} (h : skipBlanksFrom .between cs = some rest) :
    Takes most blanks 0 cs () rest := by
  refine takes_ofText ?_
  dsimp only
  rw [h]
  rfl

theorem takes_peek {c : Char} {cs : List Char} (h : cs.head? = some c) :
    Takes most peek 0 cs c cs := by
  refine takes_ofText ?_
  rw [h, Option.map_some]

theorem takes_expect (c : Char) (cs : List Char) : Takes most (expect c) 0 (c :: cs) () cs := by
  refine takes_ofText ?_
  simp

theorem takes_name {key : String} {rest : List Char} (hkey : isPlainName key.toList = true)
    (h : rest.head?.any isRawNameChar = false) :
    Takes most name 0 (key.toList ++ rest) key rest := by
  refine takes_ofText ?_
  rw [readName_append hkey h, Option.map_some]
  dsimp only
  rw [String.ofList_toList]

/-- The comma behind an entry is taken with the blanks on both sides. -/
theorem takes_comma {cs rest : List Char} (h : skipBlanksFrom .between cs = some rest) :
    Takes most comma 0 (',' :: cs) true rest := by
  refine (takes_blanks (skipBlanks_of_not_blank (by decide) (by decide) cs)).then ?_
  have haccept : Takes most (accept ",") 0 (',' :: cs) true cs := by
    refine takes_ofText ?_
    simp [dropWord?]
  exact haccept.then ((takes_blanks h).then (takes_pure true rest))

/-- Behind the payload of a variant stands no comma. -/
theorem takes_no_comma (rest : List Char) :
    Takes most comma 0 (')' :: rest) false (')' :: rest) := by
  refine (takes_blanks (skipBlanks_of_not_blank (by decide) (by decide) rest)).then ?_
  have haccept : Takes most (accept ",") 0 (')' :: rest) false (')' :: rest) := by
    refine takes_ofText ?_
    simp [dropWord?]
  exact haccept.then (takes_pure false _)

/-! ## Entries -/

/-- Texts that are read as entries, one after the other, on the way from `first` to `last`. The
room they need is that of the one that needs the most. -/
inductive Entries (most : Nat) (entry : σ → Reader σ) : Nat → List (List Char) → σ → σ → Prop
  | nil (first : σ) : Entries most entry 0 [] first first
  | cons {cost cost' : Nat} {text : List Char} {texts : List (List Char)} {first next last : σ} :
      Opens text →
      (∀ rest, Ends rest → Takes most (entry first) cost (text ++ rest) next rest) →
      Entries most entry cost' texts next last →
      Entries most entry (max cost cost') (text :: texts) first last

/-- Texts on lines of their own, with a comma behind each. -/
def entryLines (indent : Nat) (texts : List (List Char)) : List Char :=
  texts.flatMap fun text => margin indent ++ text ++ [',', '\n']

theorem entryLines_cons (indent : Nat) (text : List Char) (texts : List (List Char))
    (rest : List Char) :
    entryLines indent (text :: texts) ++ rest =
      margin indent ++ (text ++ ',' :: '\n' :: (entryLines indent texts ++ rest)) := by
  simp [entryLines]

theorem length_le_entryLines (indent : Nat) (texts : List (List Char)) :
    texts.length ≤ (entryLines indent texts).length := by
  induction texts with
  | nil => exact Nat.zero_le _
  | cons text texts ih =>
    have hcons := congrArg List.length (entryLines_cons indent text texts [])
    simp only [List.length_append, List.length_cons, List.length_nil] at hcons ⊢
    omega

variable {entry : σ → Reader σ} {cost : Nat} {texts : List (List Char)} {first last : σ}
  {indent outer : Nat} {close : Char} {rest : List Char}

/-- Blanks in front of entries end before the first of them, or before the end of the list. -/
theorem Entries.exists_skipBlanks (h : Entries most entry cost texts first last)
    (hblank : isBlank close = false) (hslash : close ≠ '/') (indent outer : Nat)
    (rest : List Char) : ∃ cs,
      skipBlanksFrom .between (entryLines indent texts ++ (margin outer ++ close :: rest)) =
        some cs := by
  cases h with
  | nil => exact ⟨_, (skipBlanks_margin outer _).trans (skipBlanks_of_not_blank hblank hslash rest)⟩
  | cons hopens _ _ =>
    rw [entryLines_cons, skipBlanks_margin]
    exact ⟨_, hopens.skipBlanks _⟩

/-- All entries are taken up to the character that closes them. By induction on the entries; what
is carried is that only blanks stand between the reader and the next line. -/
theorem Entries.takes_upTo (h : Entries most entry cost texts first last)
    (hclose : close = ']' ∨ close = ')') {count : Nat} (hcount : texts.length < count)
    {cs : List Char} (hcs : skipBlanksFrom .between cs =
      skipBlanksFrom .between (entryLines indent texts ++ (margin outer ++ close :: rest))) :
    Takes most (entriesUpTo close entry count true first) cost cs last (close :: rest) := by
  have hblank : isBlank close = false := by rcases hclose with rfl | rfl <;> decide
  have hslash : close ≠ '/' := by rcases hclose with rfl | rfl <;> decide
  obtain ⟨count, rfl⟩ := Nat.exists_eq_succ_of_ne_zero (Nat.ne_zero_of_lt hcount)
  induction h generalizing cs count with
  | nil first =>
    have hskip : skipBlanksFrom .between cs = some (close :: rest) :=
      hcs.trans ((skipBlanks_margin outer _).trans (skipBlanks_of_not_blank hblank hslash rest))
    refine (takes_blanks hskip).then ((takes_peek rfl).then ?_)
    rw [if_pos rfl]
    exact takes_pure first _
  | @cons cost cost' text texts first next last hopens htakes hafter ih =>
    obtain ⟨ds, hds⟩ := hafter.exists_skipBlanks hblank hslash indent outer rest
    have hskip : skipBlanksFrom .between cs =
        some (text ++ ',' :: '\n' ::
          (entryLines indent texts ++ (margin outer ++ close :: rest))) := by
      rw [hcs, entryLines_cons, skipBlanks_margin]
      exact hopens.skipBlanks _
    obtain ⟨c, tail, htext, _, _, hbracket, hparen⟩ := hopens
    have hother : c ≠ close := by rcases hclose with rfl | rfl <;> assumption
    have hnext : Takes most (entriesUpTo close entry count true next) cost' ds last
        (close :: rest) := by
      obtain ⟨count, rfl⟩ := Nat.exists_eq_succ_of_ne_zero (n := count) (by simp at hcount; omega)
      exact ih ((skipBlanks_skipped hds).trans hds.symm) count (by simpa using hcount)
    have hcomma : Takes most comma 0
        (',' :: '\n' :: (entryLines indent texts ++ (margin outer ++ close :: rest))) true ds :=
      takes_comma ((skipBlanks_blank (by decide) _).trans hds)
    refine (takes_blanks hskip).then ((takes_peek (c := c) (by rw [htext]; rfl)).then ?_)
    rw [if_neg hother, if_pos rfl]
    exact (htakes _ (ends_comma _)).bind (hcomma.then hnext)

/-- Entries are read from the line behind the character that opens them. -/
theorem Entries.takes (h : Entries most entry cost texts first last)
    (hclose : close = ']' ∨ close = ')') :
    Takes most (entries close entry first) cost
      ('\n' :: (entryLines indent texts ++ (margin outer ++ close :: rest))) last
      (close :: rest) := by
  have hlength := length_le_entryLines indent texts
  refine h.takes_upTo hclose ?_ (skipBlanks_blank (by decide) _)
  simp only [List.length_cons, List.length_append]
  omega

/-- Between brackets that close at once stands no entry. -/
theorem takes_no_entries (entry : σ → Reader σ) (first : σ) (hclose : close = ']' ∨ close = ')')
    (rest : List Char) :
    Takes most (entries close entry first) 0 (close :: rest) first (close :: rest) := by
  have hskip : skipBlanksFrom .between (close :: rest) =
      skipBlanksFrom .between (entryLines 0 [] ++ (margin 0 ++ close :: rest)) := rfl
  exact (Entries.nil first).takes_upTo hclose (Nat.succ_pos _) hskip

/-! ## Lists, records and variants -/

theorem takes_between {openChar : Char} {inside : Reader α} {cs : List Char} {x : α}
    (hclose : close = ']' ∨ close = ')') (h : Takes most inside cost cs x (close :: rest)) :
    Takes most (between openChar close inside) (cost + 1) (openChar :: cs) x rest := by
  have hblank : isBlank close = false := by rcases hclose with rfl | rfl <;> decide
  have hslash : close ≠ '/' := by rcases hclose with rfl | rfl <;> decide
  have hend : Takes most (do blanks; expect close; pure x) 0 (close :: rest) x rest :=
    (takes_blanks (skipBlanks_of_not_blank hblank hslash rest)).then
      ((takes_expect close rest).then (takes_pure x rest))
  exact (takes_expect openChar cs).then (h.deeper.followed hend)

/-- A field: its key, a colon, and what is read for that key. -/
theorem takes_field {value : String → σ → Reader σ} {key : String} {cs : List Char}
    (hkey : isPlainName key.toList = true) (hopens : Opens cs)
    (h : Takes most (value key first) (cost + 1) (cs ++ rest) last rest) :
    Takes most (field value first) (cost + 1) (key.toList ++ ':' :: ' ' :: (cs ++ rest)) last
      rest := by
  have hname : Takes most (Reader.deeper name) 1 (key.toList ++ ':' :: ' ' :: (cs ++ rest)) key
      (':' :: ' ' :: (cs ++ rest)) := (takes_name hkey rfl).deeper
  have hspace : skipBlanksFrom .between (' ' :: (cs ++ rest)) = some (cs ++ rest) :=
    (skipBlanks_blank (by decide) _).trans (hopens.skipBlanks rest)
  have hvalue : Takes most (do blanks; expect ':'; blanks; value key first) (cost + 1)
      (':' :: ' ' :: (cs ++ rest)) last rest :=
    (takes_blanks (skipBlanks_of_not_blank (by decide) (by decide) _)).then
      ((takes_expect ':' _).then ((takes_blanks hspace).then h))
  have hboth : Takes most (field value first) (max 1 (cost + 1))
      (key.toList ++ ':' :: ' ' :: (cs ++ rest)) last rest := hname.bind hvalue
  rwa [Nat.max_eq_right (Nat.le_add_left 1 cost)] at hboth

theorem takes_once {reader : Reader α} {cs : List Char} {x : α}
    (h : Takes most reader cost cs x rest) :
    Takes most (once reader none) (cost + 1) cs (some x) rest := h.deeper.map some

/-- The payload of a variant, between its parentheses. -/
theorem takes_payload {reader : Bool → Reader α} {cs : List Char} {x : α} (hopens : Opens cs)
    (h : Takes most (reader false) cost (cs ++ ')' :: rest) x (')' :: rest)) :
    Takes most (payload reader) (cost + 1) ('(' :: (cs ++ ')' :: rest)) x rest := by
  have hend : Takes most (do let _ ← comma; expect ')'; pure x) 0 (')' :: rest) x rest :=
    (takes_no_comma rest).then ((takes_expect ')' rest).then (takes_pure x rest))
  refine (takes_blanks (skipBlanks_of_not_blank (by decide) (by decide) _)).then
    ((takes_expect '(' _).then ((takes_blanks (hopens.skipBlanks _)).then
      (takes_read fun room => ?_)))
  exact h.deeper.followed hend

/-- A variant, its name first. -/
theorem takes_variant {after : String → Reader α} {key : String} {cs : List Char} {x : α}
    (hkey : isPlainName key.toList = true)
    (hcs : cs.head?.any isRawNameChar = false) (h : Takes most (after key) cost cs x rest) :
    Takes (most + 1) (variant after) (max 1 cost + 1) (key.toList ++ cs) x rest := by
  have hname : Takes most (Reader.deeper name) 1 (key.toList ++ cs) key cs :=
    (takes_name hkey hcs).deeper
  have hboth : Takes most (do blanks; let key ← Reader.deeper name; after key) (max 1 cost)
      (key.toList ++ cs) x rest :=
    (takes_blanks ((opens_of_isPlainName hkey).skipBlanks cs)).then (hname.bind h)
  exact hboth.below

/-- A record that is not bare, without its name. -/
theorem takes_record {typeName : String} {value : String → σ → Reader σ} {cs : List Char}
    (h : Takes most (Reader.entries ')' (field value) first) cost cs last (')' :: rest)) :
    Takes most (record typeName false value first) (cost + 1) ('(' :: cs) last rest := by
  have hname : Takes most (recordName typeName) 0 ('(' :: cs) () ('(' :: cs) := by
    have hfree : Takes most inName 0 ('(' :: cs) false ('(' :: cs) := takes_ofText rfl
    exact hfree.then (takes_pure () _)
  exact hname.then ((takes_blanks (skipBlanks_of_not_blank (by decide) (by decide) cs)).then
    (takes_between (Or.inr rfl) h))

theorem takes_variantFields {value : String → σ → Reader σ} {cs : List Char}
    (h : Takes most (Reader.entries ')' (field value) first) cost cs last (')' :: rest)) :
    Takes most (variantFields value first) (cost + 1) ('(' :: cs) last rest :=
  (takes_blanks (skipBlanks_of_not_blank (by decide) (by decide) cs)).then
    (takes_between (Or.inr rfl) h)

/-! ## Whole texts -/

/-- A text that starts with no hash switches no extension on. -/
theorem takes_attributes {cs : List Char} (hopens : Opens cs) (hhash : cs.head? ≠ some '#')
    (context : Context) (count : Nat) :
    Takes most (attributes context (count + 1)) 0 cs context cs := by
  have hskip := hopens.skipBlanks []
  rw [List.append_nil] at hskip
  refine (takes_blanks hskip).then ?_
  have hget : ∀ next : List Char → Reader Context, Takes most (next cs) 0 cs context cs →
      Takes most (get >>= next) 0 cs context cs := fun next hnext room hroom => hnext room hroom
  refine hget _ ?_
  rw [if_neg hhash]
  exact takes_pure context cs

/-- A whole text is read when there is room for its value, and only then. -/
theorem readText_of_takes {reader : Reader α} {cs : List Char} {x : α} (hopens : Opens cs)
    (hhash : cs.head? ≠ some '#') (h : Takes nestingLimit reader cost cs x []) :
    readText reader (String.ofList cs) = if cost ≤ nestingLimit then some x else none := by
  have hattributes := takes_attributes hopens hhash {} cs.length nestingLimit (Nat.le_refl _)
  have hreader : Takes nestingLimit (do let x ← reader; blanks; pure x) cost cs x [] :=
    h.followed ((takes_blanks rfl).then (takes_pure x []))
  have hread := hreader nestingLimit (Nat.le_refl _)
  unfold readText
  rw [String.toList_ofList, String.length_ofList]
  rw [hattributes, if_pos (Nat.zero_le _), Option.bind_eq_bind, Option.bind_some]
  dsimp only
  rw [hread]
  split <;> rfl

end Reader

end Ron

end TextGrammar
