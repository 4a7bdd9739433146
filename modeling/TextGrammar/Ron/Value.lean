-- Values of the object notation, and their text. Each item of a list and each field of a record
-- stands on a line of its own, four blanks deeper than the line that opens the list or record.
import TextGrammar.Double.Shortest
import TextGrammar.Ron.Quoted

namespace TextGrammar

mutual

/-- A value of the object notation. -/
inductive Ron where
  | string (text : String)
  | char (char : Char)
  | integer (number : Int)
  | float (number : Double)
  /-- A name by itself. -/
  | unit (name : String)
  /-- A name with one value in parentheses. -/
  | variant (name : String) (payload : Ron)
  /-- Fields in parentheses, after a name or none. -/
  | record (name : String) (fields : List RonField)
  | list (items : List Ron)

/-- A field of a record. -/
structure RonField where
  name : String
  value : Ron

end

namespace Ron

/-- How deep values may stand in one another. -/
def nestingLimit : Nat := 128

mutual

/-- How deep a value nests: a list or record counts one, and one more for what stands in it; a
variant counts one. -/
def nesting : Ron → Nat
  | .variant _ payload => payload.nesting + 1
  | .record _ fields => fieldNesting fields + 1
  | .list items => itemNesting items + 1
  | _ => 0

/-- How deep the deepest item nests. -/
def itemNesting : List Ron → Nat
  | [] => 0
  | item :: items => max (item.nesting + 1) (itemNesting items)

/-- How deep the value of the deepest field nests. -/
def fieldNesting : List RonField → Nat
  | [] => 0
  | ⟨_, value⟩ :: fields => max (value.nesting + 1) (fieldNesting fields)

end

/-! ## Writing -/

/-- A double; a whole number keeps a point and a zero. -/
def writeFloat (x : Double) : List Char :=
  x.toText ++ (match x with
    | .finite _ m => if m.units % Double.unitsPerOne = 0 then ['.', '0'] else []
    | _ => [])

/-- The blanks in front of a line. -/
def margin (indent : Nat) : List Char := List.replicate (4 * indent) ' '

mutual

/-- The text of a value whose first line is `indent` levels deep. -/
def write (indent : Nat) : Ron → List Char
  | .string text => writeString text.toList
  | .char c => writeChar c
  | .integer n => spellInt n
  | .float x => writeFloat x
  | .unit name => name.toList
  | .variant name payload => name.toList ++ '(' :: write indent payload ++ [')']
  | .record name [] => name.toList ++ ['(', ')']
  | .record name (field :: fields) =>
    name.toList ++ '(' :: '\n' :: writeFields (indent + 1) (field :: fields) ++
      margin indent ++ [')']
  | .list [] => ['[', ']']
  | .list (item :: items) =>
    '[' :: '\n' :: writeItems (indent + 1) (item :: items) ++ margin indent ++ [']']

/-- The lines of the items of a list. -/
def writeItems (indent : Nat) : List Ron → List Char
  | [] => []
  | item :: items => margin indent ++ write indent item ++ [',', '\n'] ++ writeItems indent items

/-- The lines of the fields of a record. -/
def writeFields (indent : Nat) : List RonField → List Char
  | [] => []
  | ⟨name, value⟩ :: fields =>
    margin indent ++ name.toList ++ [':', ' '] ++ write indent value ++ [',', '\n'] ++
      writeFields indent fields

end

/-- The text of a value, unless it nests too deep. -/
def text? (value : Ron) : Option String :=
  if value.nesting ≤ nestingLimit then some (String.ofList (write 0 value)) else none

end Ron

end TextGrammar
