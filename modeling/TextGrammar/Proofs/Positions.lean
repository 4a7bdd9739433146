-- Working by positions. A list can be worked on by the positions in it: by looking one up, by
-- cutting out what stands between two of them, by counting down from one. Such a step may be
-- missing: the position may lie behind the end, the bounds may be crossed, the count may be at
-- zero, or a position that counts bytes may fall inside of a character. Here are the steps, what
-- they give when they are not missing, and the computations that are made of them.
import TextGrammar.Proofs.Answers

namespace TextGrammar

variable {ε α β : Type}

/-! ## Steps -/

/-- The part of a list from one position up to another. -/
def cut? (xs : List α) (start stop : Nat) : Option (List α) :=
  if start ≤ stop ∧ stop ≤ xs.length then some ((xs.drop start).take (stop - start)) else none

/-- The difference of two counts. -/
def minus? (a b : Nat) : Option Nat := if b ≤ a then some (a - b) else none

theorem cut?_eq {xs : List α} {start stop : Nat} (hstart : start ≤ stop)
    (hstop : stop ≤ xs.length) : cut? xs start stop = some ((xs.drop start).take (stop - start)) :=
  if_pos ⟨hstart, hstop⟩

/-- The part from a position to the end. -/
theorem cut?_length {xs : List α} {start : Nat} (h : start ≤ xs.length) :
    cut? xs start xs.length = some (xs.drop start) := by
  rw [cut?_eq h (Nat.le_refl _), List.take_of_length_le (Nat.le_of_eq List.length_drop)]

/-- The part in front of a position. -/
theorem cut?_zero {xs : List α} {stop : Nat} (h : stop ≤ xs.length) :
    cut? xs 0 stop = some (xs.take stop) := by
  rw [cut?_eq (Nat.zero_le _) h, List.drop_zero, Nat.sub_zero]

/-- A part that is counted from a position on. -/
theorem cut?_add {xs : List α} {start count : Nat} (h : start + count ≤ xs.length) :
    cut? xs start (start + count) = some ((xs.drop start).take count) := by
  rw [cut?_eq (Nat.le_add_right _ _) h, Nat.add_sub_cancel_left]

/-- With one more in front, positions are one further on. -/
theorem cut?_succ (x : α) (xs : List α) (start stop : Nat) :
    cut? (x :: xs) (start + 1) (stop + 1) = cut? xs start stop := by
  simp [cut?]

theorem minus?_eq {a b : Nat} (h : b ≤ a) : minus? a b = some (a - b) := if_pos h

theorem minus?_succ (n : Nat) : minus? (n + 1) 1 = some n := minus?_eq (Nat.le_add_left 1 n)

/-- What stands from a position on, when that is not the end. -/
theorem exists_of_lt_length {xs : List α} {i : Nat} (h : i < xs.length) :
    ∃ x, xs[i]? = some x ∧ xs.drop i = x :: xs.drop (i + 1) :=
  ⟨xs[i], List.getElem?_eq_getElem h, List.drop_eq_getElem_cons h⟩

/-! ## Bytes -/

/-- The size of a text in bytes. -/
def byteSize : List Char → Nat
  | [] => 0
  | c :: cs => c.utf8Size + byteSize cs

@[simp] theorem byteSize_nil : byteSize [] = 0 := rfl

@[simp] theorem byteSize_cons (c : Char) (cs : List Char) :
    byteSize (c :: cs) = c.utf8Size + byteSize cs := rfl

@[simp] theorem byteSize_append (a b : List Char) :
    byteSize (a ++ b) = byteSize a + byteSize b := by
  induction a with
  | nil => exact (Nat.zero_add _).symm
  | cons c a ih => rw [List.cons_append, byteSize_cons, byteSize_cons, ih, Nat.add_assoc]

/-- A text in two at an offset in bytes, which has to fall between two characters. -/
def splitBytes? : (offset : Nat) → List Char → Option (List Char × List Char)
  | 0, cs => some ([], cs)
  | _ + 1, [] => none
  | offset + 1, c :: cs =>
    if c.utf8Size ≤ offset + 1 then
      (splitBytes? (offset + 1 - c.utf8Size) cs).map fun (before, after) => (c :: before, after)
    else none

/-- The part of a text between two offsets in bytes. -/
def cutBytes? (cs : List Char) (start stop : Nat) : Option (List Char) := do
  let (before, _) ← splitBytes? stop cs
  let (_, part) ← splitBytes? start before
  some part

theorem splitBytes?_append (a b : List Char) : splitBytes? (byteSize a) (a ++ b) = some (a, b) := by
  induction a with
  | nil =>
    rw [byteSize_nil, List.nil_append]
    cases b <;> rw [splitBytes?]
  | cons c a ih =>
    obtain ⟨size, hsize⟩ : ∃ n, byteSize (c :: a) = n + 1 :=
      Nat.exists_eq_add_one_of_ne_zero (Nat.ne_of_gt (Nat.add_pos_left c.utf8Size_pos _))
    rw [hsize, List.cons_append, splitBytes?, ← hsize, byteSize_cons,
      if_pos (Nat.le_add_right _ _), Nat.add_sub_cancel_left, ih]
    rfl

theorem cutBytes?_append (a b c : List Char) :
    cutBytes? (a ++ b ++ c) (byteSize a) (byteSize (a ++ b)) = some b := by
  rw [cutBytes?, splitBytes?_append]
  simp [splitBytes?_append]

theorem cutBytes?_before (a b : List Char) : cutBytes? (a ++ b) 0 (byteSize a) = some a := by
  have hcut := cutBytes?_append [] a b
  rwa [byteSize_nil, List.nil_append] at hcut

theorem cutBytes?_after (a b : List Char) :
    cutBytes? (a ++ b) (byteSize a) (byteSize (a ++ b)) = some b := by
  have hcut := cutBytes?_append a b []
  rwa [List.append_nil] at hcut

/-- No cut goes through a character of two bytes. -/
example : cutBytes? ['d', 'ö', 'r'] 1 3 = some ['ö'] ∧ cutBytes? ['d', 'ö', 'r'] 1 2 = none := by
  decide

/-! ## Computations made of steps -/

/-- A computation that can fail, and of which steps may be missing. -/
abbrev Attempt (ε α : Type) : Type := ExceptT ε Option α

namespace Attempt

/-- A step. -/
def step (x : Option α) : Attempt ε α := ExceptT.mk (x.map .ok)

/-- A computation of which no step is missing. -/
def whole (x : Except ε α) : Attempt ε α := ExceptT.mk (some x)

/-- How a computation ends, be it in an error, as something to go on with. -/
def outcome (x : Attempt ε α) : Attempt ε (Except ε α) := ExceptT.mk (x.run.map .ok)

theorem outcome_whole (x : Except ε α) : (whole x).outcome = whole (.ok x) := rfl

@[simp] theorem step_some_bind (a : α) (f : α → Attempt ε β) : (step (some a) >>= f) = f a := rfl

@[simp] theorem whole_ok_bind (a : α) (f : α → Attempt ε β) :
    (whole (.ok a) >>= f) = f a := rfl

/-- One after another, computations that miss no step miss none. -/
theorem whole_bind (x : Except ε α) (f : α → Except ε β) :
    (whole x >>= fun a => whole (f a)) = whole (x >>= f) := by
  cases x <;> rfl

/-- What comes after a computation need be whole only for what that gives. -/
theorem whole_bind_of_ok {x : Except ε α} {f : α → Attempt ε β} {g : α → Except ε β}
    (h : ∀ a, x = .ok a → f a = whole (g a)) : (whole x >>= f) = whole (x >>= g) := by
  cases x with
  | error error => rfl
  | ok a => exact h a rfl

end Attempt

/-- A count with one more in front. -/
theorem map_counted (x : Except ε Nat) (i n : Nat) :
    (x.map (· + n)).map (i + ·) = x.map (i + n + ·) := by
  cases x with
  | error error => rfl
  | ok m =>
    have hcount : i + (m + n) = i + n + m := by omega
    exact congrArg Except.ok hcount

end TextGrammar
