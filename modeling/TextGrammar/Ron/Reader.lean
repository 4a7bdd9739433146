-- Readers of the object notation. A reader knows which extensions the text has switched on and
-- how much deeper values may nest; it takes its value from the start of the text, and fails on
-- anything that it does not expect.
import TextGrammar.Ron.Token
import TextGrammar.Ron.Value

namespace TextGrammar

namespace Ron

/-- What a reader goes by. -/
structure Context where
  /-- How many levels deeper values may nest. -/
  room : Nat := nestingLimit
  /-- An optional value may stand without its mark. -/
  implicitSome : Bool := false
  /-- A record in a variant stands without parentheses of its own. -/
  bareRecords : Bool := false

/-- A reader of values of type `α`. -/
abbrev Reader (α : Type) : Type := ReaderT Context (StateT (List Char) Option) α

namespace Reader

variable {α β σ : Type}

/-! ## Single steps -/

/-- Reads by a function on the text. -/
def ofText (read : List Char → Option (α × List Char)) : Reader α := fun _ cs => read cs

/-- Skips by a function on the text. -/
def skipBy (skip : List Char → Option (List Char)) : Reader Unit :=
  ofText fun cs => (skip cs).map ((), ·)

/-- Skips blanks and comments. -/
def blanks : Reader Unit := skipBy (skipBlanksFrom .between)

/-- The next character. -/
def peek : Reader Char := ofText fun cs => cs.head?.map (·, cs)

/-- Skips the word if it comes next, and tells whether it did. -/
def accept (word : String) : Reader Bool := ofText fun cs =>
  match dropWord? word.toList cs with
  | some rest => some (true, rest)
  | none => some (false, cs)

/-- Skips a character that has to come next. -/
def expect (c : Char) : Reader Unit := skipBy fun cs =>
  match cs with
  | d :: rest => if c = d then some rest else none
  | [] => none

/-- Reads a name. -/
def name : Reader String :=
  ofText fun cs => (readName cs).map fun (n, rest) => (String.ofList n, rest)

/-- A name goes on here. -/
def inName : Reader Bool := ofText fun cs => some (cs.head?.any isNameChar, cs)

/-- Skips a comma with blanks around it, and tells whether there was one. -/
def comma : Reader Bool := do
  blanks
  let found ← accept ","
  if found then blanks
  pure found

/-- Reads what stands one level deeper. -/
def deeper (reader : Reader α) : Reader α := fun context cs =>
  match context.room with
  | 0 => none
  | room + 1 => reader { context with room } cs

/-! ## Lists -/

/-- Reads entries with commas between them up to the character `close`, in at most `count`
rounds. `ready` says that an entry may come next. -/
def entriesUpTo (close : Char) (entry : σ → Reader σ) :
    (count : Nat) → (ready : Bool) → σ → Reader σ
  | 0, _, _ => failure
  | count + 1, ready, state => do
    blanks
    let c ← peek
    if c = close then pure state
    else if ready then
      let state ← entry state
      let found ← comma
      entriesUpTo close entry count found state
    else failure

/-- Reads entries with commas between them up to the character `close`. No text has more entries
than characters. -/
def entries (close : Char) (entry : σ → Reader σ) (start : σ) : Reader σ := do
  let text ← get
  entriesUpTo close entry (text.length + 1) true start

/-- Reads what `inside` reads between two characters. -/
def between (openChar close : Char) (inside : Reader α) : Reader α := do
  expect openChar
  let x ← deeper inside
  blanks
  expect close
  pure x

/-- Reads a list of items. -/
def list (item : Reader α) : Reader (List α) :=
  between '[' ']' (entries ']' (fun items => do
    let x ← deeper item
    pure (items ++ [x])) [])

/-! ## Records -/

/-- Reads a field: its key, a colon, and what `value` reads for that key. -/
def field (value : String → σ → Reader σ) (state : σ) : Reader σ := do
  let key ← deeper name
  blanks
  expect ':'
  blanks
  value key state

/-- Reads a value for a field that has none yet. -/
def once (reader : Reader α) : Option α → Reader (Option α)
  | some _ => failure
  | none => some <$> deeper reader

/-- Skips the name of a record, which may be left out. Like any name, it may be marked as raw. -/
def recordName (typeName : String) : Reader Unit := do
  if ← inName then
    if (← name) != typeName then failure

/-- Reads a record. One that is bare has neither name nor parentheses. -/
def record (typeName : String) (bare : Bool) (value : String → σ → Reader σ) (start : σ) :
    Reader σ := do
  if bare then
    blanks
    let fields ← deeper (entries ')' (field value) start)
    blanks
    pure fields
  else
    recordName typeName
    blanks
    between '(' ')' (entries ')' (field value) start)

/-! ## Variants -/

/-- Reads the name of a variant and what `payload` reads for it. -/
def variant (payload : String → Reader α) : Reader α := deeper do
  blanks
  let key ← deeper name
  payload key

/-- Reads the payload of a variant. The reader is told whether a record in it is bare. -/
def payload (reader : (bare : Bool) → Reader α) : Reader α := do
  blanks
  expect '('
  blanks
  let context ← read
  let x ← deeper (reader context.bareRecords)
  let _ ← comma
  expect ')'
  pure x

/-- Reads the fields of a variant. -/
def variantFields (value : String → σ → Reader σ) (start : σ) : Reader σ := do
  blanks
  between '(' ')' (entries ')' (field value) start)

/-- Reads a value that may be absent. -/
def optional (reader : Reader α) : Reader (Option α) := do
  if ← accept "None" then pure none
  else
    let marked ← accept "Some"
    if marked then blanks
    let opened ← if marked then accept "(" else pure false
    if opened then
      blanks
      let x ← deeper reader
      let _ ← comma
      expect ')'
      pure (some x)
    else
      let context ← read
      if context.implicitSome then some <$> deeper reader else failure

/-! ## Values of no interest -/

/-- The words that are values by themselves. -/
def plainWords : List String := ["true", "false", "None", "inf", "-inf", "NaN"]

/-- Skips one of the words that are values by themselves, if one comes next. -/
def plainWord : Reader Bool := ofText fun cs =>
  match plainWords.findSome? fun word => dropName? word.toList cs with
  | some rest => some (true, rest)
  | none => some (false, cs)

/-- The text goes on with the name `word`. -/
def atName (word : String) : Reader Bool := ofText fun cs =>
  some ((dropName? word.toList cs).isSome, cs)

/-- Skips a name, if one comes next. -/
def anyName : Reader Bool := ofText fun cs =>
  match readName cs with
  | some (_, rest) => some (true, rest)
  | none => some (false, cs)

/-- What opens at this parenthesis are fields and no items. -/
def atFields : Reader Bool := ofText fun cs => do
  let inside ← skipBlanksFrom .between (cs.drop 1)
  match readName inside with
  | none => some (false, cs)
  | some (_, rest) =>
    let next ← skipBlanksFrom .between rest
    let c ← next.head?
    some (c == ':', cs)

/-- Skips what may stand behind a name: items or fields in parentheses, or nothing. -/
def skipParentheses (skip : Reader Unit) : Reader Unit := do
  if (← get).head? = some '(' then
    if ← atFields then
      between '(' ')' (entries ')' (field fun _ _ => deeper skip) ())
    else
      between '(' ')' (entries ')' (fun _ => deeper skip) ())

/-- Skips a key and its value. -/
def skipPair (skip : Reader Unit) : Reader Unit := do
  deeper skip
  blanks
  expect ':'
  blanks
  deeper skip

/-- Skips a value of any kind that nests at most `levels` levels. -/
def skipUpTo : (levels : Nat) → Reader Unit
  | 0 => failure
  | levels + 1 => do
    let skip := skipUpTo levels
    if ← atName "Some" then
      let _ ← optional skip
    else if ← plainWord then pure ()
    else if ← accept "()" then pure ()
    else if ← anyName then
      blanks
      skipParentheses skip
    else
      let c ← peek
      if c = '(' then skipParentheses skip
      else if c = '[' then
        let _ ← list skip
      else if c = '\x7b' then
        between '\x7b' '\x7d' (entries '\x7d' (fun _ => skipPair skip) ())
      else if c.isDigit || c = '+' || c = '-' then skipBy skipNumber
      else if c = '.' then skipBy fun cs => (readFloat cs).map (·.2)
      else if c = '"' || c = 'r' then skipBy fun cs => (readString cs).map (·.2)
      else if c = '\'' then skipBy fun cs => (readChar cs).map (·.2)
      else failure

/-- Skips the value of an unknown field. -/
def skip : Reader Unit := deeper (skipUpTo (nestingLimit + 1))

/-! ## Simple values -/

/-- Reads a string. -/
def string : Reader String :=
  ofText fun cs => (readString cs).map fun (text, rest) => (String.ofList text, rest)

/-- Reads a character. -/
def char : Reader Char := ofText readChar

/-- Reads a double. -/
def float : Reader Double := ofText readFloat

/-- Reads a number of 64 bits without a sign. -/
def word : Reader Nat := ofText readWord

/-- Reads a number of 64 bits with a sign. -/
def signed : Reader Int64 := ofText readSigned

/-! ## Whole texts -/

/-- The context with an extension switched on. -/
def withExtension (context : Context) : String → Option Context
  | "implicit_some" => some { context with implicitSome := true }
  | "unwrap_variant_newtypes" => some { context with bareRecords := true }
  | "unwrap_newtypes" => some context
  | _ => none

/-- Reads the names of extensions in at most `count` rounds. -/
def extensionNames (context : Context) : (count : Nat) → Reader Context
  | 0 => failure
  | count + 1 => do
    let key ← name
    match withExtension context key with
    | none => failure
    | some context =>
      let found ← comma
      let more ← inName
      if found && more then extensionNames context count
      else if more then failure
      else pure context

/-- Skips words that have to come one after the other, with blanks behind each. -/
def expectAll : List String → Reader Unit
  | [] => pure ()
  | word :: words => do
    if ← accept word then
      blanks
      expectAll words
    else failure

/-- Reads the attributes that switch extensions on, in at most `count` rounds. -/
def attributes (context : Context) : (count : Nat) → Reader Context
  | 0 => failure
  | count + 1 => do
    blanks
    let text ← get
    if text.head? = some '#' then
      expectAll ["#", "!", "[", "enable", "("]
      let context ← extensionNames context text.length
      blanks
      expectAll [")", "]"]
      attributes context count
    else pure context

/-- Reads a text that holds one value and nothing else. -/
def readText (reader : Reader α) (text : String) : Option α := do
  let (context, rest) ← attributes {} (text.length + 1) {} text.toList
  let (x, rest) ← (do
    let x ← reader
    blanks
    pure x : Reader α) context rest
  if rest.isEmpty then some x else none

end Reader

end Ron

end TextGrammar
