-- Values of the object notation, written and read again. The text of a value says all of it, so a
-- reader for values of its kind takes the text whole, given the room that the value needs.
import Mathlib.Data.List.Forall2
import TextGrammar.Proofs.Readers

namespace TextGrammar

namespace Ron

/-! ## The room that values need -/

mutual

/-- How much room a reader of the value needs: a list takes one level and one more for its items, a
variant takes two, the one of its name or of its payload, and a record one, or two with a name;
the fields take one more. -/
def readingDepth : Ron → Nat
  | .unit _ => 2
  | .variant _ payload => payload.readingDepth + 2
  | .record name fields => fieldReadingDepth fields + if name = "" then 1 else 2
  | .list items => itemReadingDepth items + 1
  | _ => 0

/-- The room for the item that needs the most. -/
def itemReadingDepth : List Ron → Nat
  | [] => 0
  | item :: items => max (item.readingDepth + 1) (itemReadingDepth items)

/-- The room for the field that needs the most. -/
def fieldReadingDepth : List RonField → Nat
  | [] => 0
  | ⟨_, value⟩ :: fields => max (value.readingDepth + 1) (fieldReadingDepth fields)

end

/-! ## Lines of entries -/

/-- A field as it stands on its line. -/
def fieldText (indent : Nat) (field : RonField) : List Char :=
  field.name.toList ++ ':' :: ' ' :: field.value.write indent

theorem writeItems_eq (indent : Nat) (items : List Ron) :
    writeItems indent items = Reader.entryLines indent (items.map (write indent)) := by
  induction items with
  | nil => rfl
  | cons item items ih => simp [writeItems, Reader.entryLines, ih]

theorem writeFields_eq (indent : Nat) (fields : List RonField) :
    writeFields indent fields = Reader.entryLines indent (fields.map (fieldText indent)) := by
  induction fields with
  | nil => rfl
  | cons field fields ih =>
    obtain ⟨name, value⟩ := field
    simp [writeFields, Reader.entryLines, fieldText, ih]

theorem write_list_append {items : List Ron} (hne : items ≠ []) (indent : Nat)
    (rest : List Char) : write indent (.list items) ++ rest =
      '[' :: '\n' :: (Reader.entryLines (indent + 1) (items.map (write (indent + 1))) ++
        (margin indent ++ ']' :: rest)) := by
  obtain ⟨item, items, rfl⟩ := List.exists_cons_of_ne_nil hne
  rw [write, writeItems_eq]
  simp

theorem write_record_append {fields : List RonField} (hne : fields ≠ []) (name : String)
    (indent : Nat) (rest : List Char) : write indent (.record name fields) ++ rest =
      name.toList ++ '(' :: '\n' ::
        (Reader.entryLines (indent + 1) (fields.map (fieldText (indent + 1))) ++
          (margin indent ++ ')' :: rest)) := by
  obtain ⟨field, fields, rfl⟩ := List.exists_cons_of_ne_nil hne
  rw [write, writeFields_eq]
  simp

/-! ## Reading back -/

/-- The reader takes the text of the value and gives `x`, with as much room as the value needs. -/
structure ReadsBack {α : Type} (most : Nat) (reader : Reader α) (value : Ron) (x : α) : Prop where
  opens : ∀ indent, Opens (value.write indent)
  takes : ∀ indent rest, Ends rest →
    Reader.Takes most reader value.readingDepth (value.write indent ++ rest) x rest

variable {α σ : Type} {most : Nat}

theorem ReadsBack.mono {less : Nat} {reader : Reader α} {value : Ron} {x : α}
    (h : ReadsBack most reader value x) (hless : less ≤ most) : ReadsBack less reader value x :=
  ⟨h.opens, fun indent rest hrest => (h.takes indent rest hrest).mono hless⟩

/-! ## Simple values -/

theorem readsBack_string (text : String) : ReadsBack most Reader.string (.string text) text where
  opens := fun _ => opens_cons (by decide) _
  takes := fun _ rest _ => by
    refine Reader.takes_ofText ?_
    rw [write, readString_writeString, Option.map_some]
    dsimp only
    rw [String.ofList_toList]

theorem readsBack_char (c : Char) : ReadsBack most Reader.char (.char c) c where
  opens := fun _ => by
    rw [write, writeChar]
    split <;> exact opens_cons (by decide) _
  takes := fun _ rest _ => Reader.takes_ofText (readChar_writeChar c rest)

theorem opens_digits {cs : List Char} (hne : cs ≠ []) (h : ∀ c ∈ cs, c.isDigit = true ∨ c = '.') :
    Opens cs := by
  obtain ⟨c, ds, rfl⟩ := List.exists_cons_of_ne_nil hne
  refine opens_cons (Bool.eq_false_iff.mpr fun hother => ?_) ds
  have hc := h c List.mem_cons_self
  simp only [isBlank, Bool.or_eq_true, beq_iff_eq] at hother
  rcases hother with (((((rfl | rfl) | rfl) | rfl) | rfl) | rfl) | rfl <;>
    exact absurd hc (by decide)

theorem opens_spellInt (n : Int) : Opens (spellInt n) := by
  unfold spellInt
  split
  · exact opens_cons (by decide) _
  · exact opens_digits (spellNat_ne_nil _) fun c hc => Or.inl (isDigit_of_mem_spellNat hc)

theorem readsBack_word {n : Nat} (hn : n < UInt64.size) :
    ReadsBack most Reader.word (.integer n) n where
  opens := fun _ => opens_spellInt n
  takes := fun _ _ hrest => Reader.takes_ofText (readWord_spellInt hn hrest)

theorem readsBack_signed (n : Int64) : ReadsBack most Reader.signed (.integer n.toInt) n where
  opens := fun _ => opens_spellInt n.toInt
  takes := fun _ _ hrest => Reader.takes_ofText (readSigned_spellInt n hrest)

theorem readsBack_float (x : Double) : ReadsBack most Reader.float (.float x) x where
  opens := fun _ => by
    rw [write]
    cases x with
    | nan => exact opens_cons (by decide) _
    | infinite negative => cases negative <;> exact opens_cons (by decide) _
    | finite negative m =>
      cases negative with
      | true =>
        rw [writeFloat_finite]
        exact opens_cons (by decide) _
      | false =>
        have hdecimal := isDecimal_writeFloat m
        refine opens_digits ?_ fun c hc => mem_of_isDecimal hdecimal hc
        intro hnil
        rw [hnil] at hdecimal
        exact absurd hdecimal (by decide)
  takes := fun _ _ hrest => Reader.takes_ofText (readFloat_writeFloat x hrest)

/-! ## Lists -/

theorem entries_items {item : Reader α} {values : List Ron} {xs : List α}
    (h : List.Forall₂ (ReadsBack most item) values xs) (indent : Nat) (before : List α) :
    Reader.Entries most (fun items => do
      let x ← Reader.deeper item
      pure (items ++ [x])) (itemReadingDepth values) (values.map (write indent)) before
      (before ++ xs) := by
  induction h generalizing before with
  | nil =>
    rw [List.append_nil]
    exact .nil before
  | @cons value x values xs hvalue _ ih =>
    have hrest := ih (before ++ [x])
    rw [List.append_assoc, List.singleton_append] at hrest
    refine .cons (hvalue.opens indent) (fun rest hends => ?_) hrest
    exact (hvalue.takes indent rest hends).deeper.followed (Reader.takes_pure _ rest)

/-- A list reads back when its items do. -/
theorem ReadsBack.list {item : Reader α} {values : List Ron} {xs : List α}
    (h : List.Forall₂ (ReadsBack most item) values xs) :
    ReadsBack most (Reader.list item) (.list values) xs where
  opens := fun _ => by
    cases values <;> rw [write] <;> exact opens_cons (by decide) _
  takes := fun indent rest _ => by
    rw [readingDepth]
    cases h with
    | nil =>
      exact Reader.takes_between (Or.inl rfl) (Reader.takes_no_entries _ [] (Or.inl rfl) rest)
    | @cons value x values xs hvalue hvalues =>
      rw [write_list_append (List.cons_ne_nil value values)]
      exact Reader.takes_between (Or.inl rfl)
        ((entries_items (.cons hvalue hvalues) (indent + 1) []).takes (Or.inl rfl))

theorem head?_write_list (items : List Ron) (indent : Nat) :
    (write indent (.list items)).head? = some '[' := by
  cases items <;> rfl

/-! ## Records -/

/-- Fields whose values are read back one after the other, each under its key for the first time,
on the way from `first` to `last`. -/
inductive ReadsFields (most : Nat) (value : String → σ → Reader σ) :
    List RonField → σ → σ → Prop
  | nil (first : σ) : ReadsFields most value [] first first
  | cons {α : Type} {reader : Reader α} {key : String} {written : Ron} {x : α}
      {fields : List RonField} {first last : σ} {set : Option α → σ} :
      isPlainName key.toList = true →
      ReadsBack most reader written x →
      (value key first = do
        let field ← Reader.once reader none
        pure (set field)) →
      ReadsFields most value fields (set (some x)) last →
      ReadsFields most value (⟨key, written⟩ :: fields) first last

theorem ReadsFields.entries {value : String → σ → Reader σ} {fields : List RonField}
    {first last : σ} (h : ReadsFields most value fields first last) (indent : Nat) :
    Reader.Entries most (Reader.field value) (fieldReadingDepth fields)
      (fields.map (fieldText indent)) first last := by
  induction h with
  | nil first => exact .nil first
  | @cons α reader key written x fields first last set hkey hreads hvalue _ ih =>
    refine .cons ((opens_of_isPlainName hkey).append _) (fun rest hends => ?_) ih
    have htakes : Reader.Takes most (value key first) (written.readingDepth + 1)
        (write indent written ++ rest) (set (some x)) rest := by
      rw [hvalue]
      exact (Reader.takes_once (hreads.takes indent rest hends)).followed
        (Reader.takes_pure _ rest)
    have hfield := Reader.takes_field hkey (hreads.opens indent) htakes
    rwa [fieldText, List.append_assoc, List.cons_append, List.cons_append]

variable {value : String → σ → Reader σ} {fields : List RonField} {first : σ}

/-- The fields of a record without a name. -/
theorem ReadsFields.takes_record {last : σ} (h : ReadsFields most value fields first last)
    (hne : fields ≠ []) (typeName : String) (indent : Nat) (rest : List Char) :
    Reader.Takes most (Reader.record typeName false value first)
      (readingDepth (.record "" fields)) (write indent (.record "" fields) ++ rest) last rest := by
  rw [write_record_append hne, readingDepth]
  exact Reader.takes_record ((h.entries (indent + 1)).takes (Or.inr rfl))

/-- A record without a name reads back when its fields do, and `build` makes the value of them. -/
theorem ReadsFields.readsBack (last : σ) {build : σ → Reader α} {x : α}
    (h : ReadsFields most value fields first last) (hne : fields ≠ []) {typeName : String}
    (hbuild : build last = pure x) :
    ReadsBack most (Reader.record typeName false value first >>= build) (.record "" fields) x where
  opens := fun indent => by
    have hopens := write_record_append hne "" indent []
    rw [List.append_nil] at hopens
    rw [hopens]
    exact opens_cons (by decide) _
  takes := fun indent rest _ => by
    refine (h.takes_record hne typeName indent rest).followed ?_
    rw [hbuild]
    exact Reader.takes_pure x rest

/-! ## Variants -/

/-- A name by itself reads back. -/
theorem readsBack_unit {after : String → Reader α} {name : String} {x : α}
    (hname : isPlainName name.toList = true)
    (hafter : after name = pure x) : ReadsBack most (Reader.variant after) (.unit name) x where
  opens := fun _ => opens_of_isPlainName hname
  takes := fun indent rest hends => by
    have hrest := hends.head?_any (p := isRawNameChar) (by decide) (by decide)
    have hpure : Reader.Takes most (after name) 0 rest x rest := by
      rw [hafter]
      exact Reader.takes_pure x rest
    exact (Reader.takes_variant hname hrest hpure).mono (Nat.le_succ most)

/-- A name with a payload reads back when the payload does. There may be one level more than the
payload allows. -/
theorem ReadsBack.variant {β : Type} {after : String → Reader β} {reader : Bool → Reader α}
    {name : String} {payload : Ron} {x : α} (h : ReadsBack most (reader false) payload x)
    (build : α → β) (hname : isPlainName name.toList = true)
    (hafter : after name = build <$> Reader.payload reader) :
    ReadsBack (most + 1) (Reader.variant after) (.variant name payload) (build x) where
  opens := fun _ => ((opens_of_isPlainName hname).append _).append _
  takes := fun indent rest _ => by
    have hpayload : Reader.Takes most (after name) (payload.readingDepth + 1)
        ('(' :: (payload.write indent ++ ')' :: rest)) (build x) rest := by
      rw [hafter]
      exact (Reader.takes_payload (h.opens indent) (h.takes indent _ (ends_close rest))).map build
    have hall := Reader.takes_variant hname (by rfl) hpayload
    rw [Nat.max_eq_right (Nat.le_add_left 1 _)] at hall
    have htext : write indent (.variant name payload) ++ rest =
        name.toList ++ '(' :: (payload.write indent ++ ')' :: rest) := by simp [write]
    rw [htext, readingDepth]
    exact hall

/-- A record with a name reads back as the variant of that name. -/
theorem ReadsFields.readsBack_named (last : σ) {after : String → Reader α}
    {build : σ → Reader α} {name : String} {x : α}
    (h : ReadsFields most value fields first last) (hne : fields ≠ [])
    (hname : isPlainName name.toList = true)
    (hafter : after name = Reader.variantFields value first >>= build)
    (hbuild : build last = pure x) :
    ReadsBack most (Reader.variant after) (.record name fields) x where
  opens := fun indent => by
    have htext := write_record_append hne name indent []
    rw [List.append_nil] at htext
    rw [htext]
    exact (opens_of_isPlainName hname).append _
  takes := fun indent rest _ => by
    have hfields : Reader.Takes most (after name) (fieldReadingDepth fields + 1) ('(' :: '\n' ::
        (Reader.entryLines (indent + 1) (fields.map (fieldText (indent + 1))) ++
          (margin indent ++ ')' :: rest))) x rest := by
      rw [hafter]
      refine (Reader.takes_variantFields ((h.entries (indent + 1)).takes (Or.inr rfl))).followed ?_
      rw [hbuild]
      exact Reader.takes_pure x rest
    have hall := Reader.takes_variant hname (by rfl) hfields
    have hnamed : name ≠ "" := by
      rintro rfl
      exact absurd hname (by decide)
    rw [Nat.max_eq_right (Nat.le_add_left 1 _)] at hall
    rw [write_record_append hne, readingDepth, if_neg hnamed]
    exact hall.mono (Nat.le_succ most)

end Ron

end TextGrammar
