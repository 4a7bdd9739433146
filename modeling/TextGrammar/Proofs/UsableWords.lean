-- The words that draws can use. A draw from a range takes words until one is not at the rim; the
-- first such word settles the number. Every number of the range has such a word, and zero always is
-- one, so that a list of words, which zeros follow, makes every draw.
import Mathlib.Data.Nat.Find
import TextGrammar.Proofs.RangeDraw

namespace TextGrammar

/-! ## The first word within the zone -/

section

variable {σ : Type} {take : σ → Nat × σ} {bits size zone : Nat}

/-- What is taken from a source after so many others. -/
def takenAfter (take : σ → Nat × σ) : Nat → σ → Nat
  | 0, source => (take source).1
  | n + 1, source => takenAfter take n (take source).2

/-- The first word whose low part is within the zone makes the draw. -/
theorem drawBelow_of_first {n tries : Nat} {source : σ} (hn : n < tries)
    (hwithin : takenAfter take n source * size % Nat.pow 2 bits ≤ zone)
    (hfirst : ∀ m < n, ¬takenAfter take m source * size % Nat.pow 2 bits ≤ zone) :
    (drawBelow take bits size zone tries source).1 =
      .ok (takenAfter take n source * size / Nat.pow 2 bits) := by
  induction tries generalizing n source with
  | zero => cases hn
  | succ tries ih =>
    unfold drawBelow
    dsimp only
    cases n with
    | zero =>
      have hword : (take source).1 * size % Nat.pow 2 bits ≤ zone := hwithin
      rw [if_pos hword]
      rfl
    | succ n =>
      have hword : ¬(take source).1 * size % Nat.pow 2 bits ≤ zone := hfirst 0 (Nat.succ_pos n)
      rw [if_neg hword]
      exact ih (Nat.lt_of_succ_lt_succ hn) hwithin fun m hm => hfirst (m + 1) (Nat.succ_lt_succ hm)

/-- Words that are all outside of the zone make none. -/
theorem drawBelow_of_none {tries : Nat} {source : σ}
    (h : ∀ n < tries, ¬takenAfter take n source * size % Nat.pow 2 bits ≤ zone) :
    (drawBelow take bits size zone tries source).1 = .error .exhausted := by
  induction tries generalizing source with
  | zero => rfl
  | succ tries ih =>
    unfold drawBelow
    dsimp only
    have hword : ¬(take source).1 * size % Nat.pow 2 bits ≤ zone := h 0 (Nat.succ_pos tries)
    rw [if_neg hword]
    exact ih fun n hn => h (n + 1) (Nat.succ_lt_succ hn)

end

/-! ## Numbers drawn -/

/-- How many numbers there are from one bound to the other. -/
def rangeSize (low high : Int64) : Nat := (high.toInt - low.toInt + 1).toNat

/-- The word is not at the rim: the words up to it fall evenly into parts, one for each number. -/
def Usable (size : Nat) (word : UInt64) : Prop :=
  word.toNat * size % 2 ^ 64 < size * 2 ^ (63 - size.log2)

instance (size : Nat) (word : UInt64) : Decidable (Usable size word) :=
  inferInstanceAs (Decidable (_ < _))

section

variable {low high : Int64}

theorem rangeSize_pos (h : low ≤ high) : 0 < rangeSize low high := by
  have hle := Int64.le_iff_toInt_le.mp h
  unfold rangeSize
  omega

theorem rangeSize_le (low high : Int64) : rangeSize low high ≤ 2 ^ 64 := by
  have hmin := low.minValue_le_toInt
  have hmax := high.toInt_le
  rw [Int64.toInt_minValue] at hmin
  rw [Int64.toInt_maxValue] at hmax
  unfold rangeSize
  omega

/-- The size as a word; that of all numbers is one too many for a word. -/
theorem toNat_sizeWord (h : low ≤ high) :
    (high.toUInt64 - low.toUInt64 + 1).toNat = rangeSize low high % 2 ^ 64 := by
  have hsize := toNat_size h
  have hword := (high.toUInt64 - low.toUInt64 + 1).toNat_lt
  dsimp only at hsize
  unfold rangeSize
  omega

/-- The parts together take more than half of the words. -/
theorem parts_le {size : Nat} (hpos : size ≠ 0) (hlt : size < 2 ^ 64) :
    size * 2 ^ (63 - size.log2) < 2 ^ 64 := by
  have hlog : size.log2 < 64 := (Nat.log2_lt hpos).mpr hlt
  calc size * 2 ^ (63 - size.log2)
      < 2 ^ (size.log2 + 1) * 2 ^ (63 - size.log2) :=
        Nat.mul_lt_mul_of_pos_right Nat.lt_log2_self (Nat.two_pow_pos _)
    _ = 2 ^ (size.log2 + 1 + (63 - size.log2)) := (Nat.pow_add ..).symm
    _ = 2 ^ 64 := by
        congr 1
        omega

theorem toNat_zone {size : UInt64} (h : size.toNat ≠ 0) :
    ((size <<< (63 - size.log2)) - 1).toNat + 1 = size.toNat * 2 ^ (63 - size.toNat.log2) := by
  have hparts := parts_le h size.toNat_lt
  have hlog : size.log2.toNat < 64 := (Nat.log2_lt h).mpr size.toNat_lt
  have hshift : (63 - size.log2).toNat = 63 - size.toNat.log2 :=
    UInt64.toNat_sub_of_le _ _ (UInt64.le_iff_toNat_le.mpr (Nat.le_of_lt_succ hlog))
  have hmod : (63 - size.toNat.log2) % 64 = 63 - size.toNat.log2 := Nat.mod_eq_of_lt (by omega)
  have hshifted : (size <<< (63 - size.log2)).toNat = size.toNat * 2 ^ (63 - size.toNat.log2) := by
    rw [UInt64.toNat_shiftLeft, hshift, hmod, Nat.shiftLeft_eq, Nat.mod_eq_of_lt hparts]
  have hpos : 0 < size.toNat * 2 ^ (63 - size.toNat.log2) :=
    Nat.mul_pos (Nat.pos_of_ne_zero h) (Nat.two_pow_pos _)
  have hone : (1 : UInt64) ≤ size <<< (63 - size.log2) := by
    rw [UInt64.le_iff_toNat_le, hshifted]
    exact hpos
  rw [UInt64.toNat_sub_of_le _ _ hone, hshifted]
  exact Nat.sub_add_cancel hpos

/-- The number that a usable word stands for. Where there are as many numbers as words, it is the
word as it comes. -/
def numberAt (low high : Int64) (word : UInt64) : Int64 :=
  if rangeSize low high = 2 ^ 64 then word.toInt64
  else Int64.ofInt (low.toInt + (word.toNat * rangeSize low high / 2 ^ 64 : Nat))

/-- The word that a source gives after so many others. -/
def wordAfter {σ : Type} [WordSource σ] : Nat → σ → UInt64
  | 0, source => (WordSource.word64 source).1
  | n + 1, source => wordAfter n (WordSource.word64 source).2

/-- The source gives a usable word, and not too late. -/
def GivesUsable {σ : Type} [WordSource σ] (size : Nat) (source : σ) : Prop :=
  ∃ n < rejectionLimit, Usable size (wordAfter n source)

section

variable {σ : Type} [WordSource σ] {source : σ}

/-- Words as numbers. -/
def takeNumber (source : σ) : Nat × σ :=
  ((WordSource.word64 source).1.toNat, (WordSource.word64 source).2)

theorem takenAfter_takeNumber (n : Nat) (source : σ) :
    takenAfter takeNumber n source = (wordAfter n source).toNat := by
  induction n generalizing source with
  | zero => rfl
  | succ n ih => exact ih _

theorem drawNumber_eq (h : low ≤ high) : (drawNumber low high source).1 =
    if rangeSize low high = 2 ^ 64 then .ok (wordAfter 0 source).toInt64
    else (drawBelow takeNumber 64 (rangeSize low high)
      (rangeSize low high * 2 ^ (63 - (rangeSize low high).log2) - 1) rejectionLimit source).1.map
        fun offset => Int64.ofInt (low.toInt + offset) := by
  have hle := rangeSize_le low high
  have hpos := rangeSize_pos h
  have hword := toNat_sizeWord h
  unfold drawNumber
  obtain ⟨tries, htries⟩ : ∃ n, n = rejectionLimit := ⟨_, rfl⟩
  rw [← htries, if_neg (Int64.not_lt.mpr h)]
  clear htries
  dsimp only
  by_cases hall : rangeSize low high = 2 ^ 64
  · have hzero : high.toUInt64 - low.toUInt64 + 1 = 0 := by
      rw [← UInt64.toNat_inj, hword, hall]
      rfl
    rw [if_pos hzero, if_pos hall]
    rfl
  · rw [Nat.mod_eq_of_lt (Nat.lt_of_le_of_ne hle hall)] at hword
    have hne : high.toUInt64 - low.toUInt64 + 1 ≠ 0 := by
      intro hzero
      rw [hzero] at hword
      exact Nat.ne_of_lt hpos hword
    have hsize : (high.toUInt64 - low.toUInt64 + 1).toNat ≠ 0 := by omega
    have hzone := toNat_zone hsize
    rw [hword] at hzone
    rw [if_neg hne, if_neg hall, hword, ← hzone]
    rfl

/-- All words are usable where there are as many numbers. -/
theorem usable_all (word : UInt64) : Usable (2 ^ 64) word := by
  unfold Usable
  rw [Nat.mul_mod_left]
  exact Nat.mul_pos (Nat.two_pow_pos _) (Nat.two_pow_pos _)

/-- Zero is usable, whatever the size. -/
theorem usable_zero {size : Nat} (h : 0 < size) : Usable size 0 := by
  unfold Usable
  rw [UInt64.toNat_zero, Nat.zero_mul, Nat.zero_mod]
  exact Nat.mul_pos h (Nat.two_pow_pos _)

theorem within_zone_iff {size : Nat} (h : 0 < size) (n : Nat) (source : σ) :
    takenAfter takeNumber n source * size % Nat.pow 2 64 ≤ size * 2 ^ (63 - size.log2) - 1 ↔
      Usable size (wordAfter n source) := by
  rw [takenAfter_takeNumber]
  exact Nat.le_sub_one_iff_lt (Nat.mul_pos h (Nat.two_pow_pos _))

/-- The first usable word makes the draw. -/
theorem drawNumber_of_first (h : low ≤ high) {n : Nat} (hn : n < rejectionLimit)
    (husable : Usable (rangeSize low high) (wordAfter n source))
    (hfirst : ∀ m < n, ¬Usable (rangeSize low high) (wordAfter m source)) :
    (drawNumber low high source).1 = .ok (numberAt low high (wordAfter n source)) := by
  have hpos := rangeSize_pos h
  rw [drawNumber_eq h, numberAt]
  split
  · rename_i hall
    cases n with
    | zero => rfl
    | succ n =>
      rw [hall] at hfirst
      exact absurd (usable_all _) (hfirst 0 (Nat.succ_pos n))
  · rw [drawBelow_of_first hn ((within_zone_iff hpos n source).mpr husable) fun m hm hwithin =>
      hfirst m hm ((within_zone_iff hpos m source).mp hwithin), takenAfter_takeNumber]
    rfl

theorem drawNumber_of_gives (h : low ≤ high) (hgives : GivesUsable (rangeSize low high) source) :
    ∃ n, low ≤ n ∧ n ≤ high ∧ (drawNumber low high source).1 = .ok n := by
  obtain ⟨k, hk, husable⟩ := hgives
  have hexists : ∃ n, Usable (rangeSize low high) (wordAfter n source) := ⟨k, husable⟩
  have hdrawn := drawNumber_of_first h (Nat.lt_of_le_of_lt (Nat.find_min' hexists husable) hk)
    (Nat.find_spec hexists) fun m hm => Nat.find_min hexists hm
  obtain ⟨hlow, hhigh⟩ := between_of_drawNumber hdrawn
  exact ⟨_, hlow, hhigh, hdrawn⟩

/-- Without a usable word there is no number. -/
theorem drawNumber_of_not_gives (h : low ≤ high)
    (hgives : ¬GivesUsable (rangeSize low high) source) :
    (drawNumber low high source).1 = .error .exhausted := by
  have hpos := rangeSize_pos h
  have hnone : ∀ n < rejectionLimit, ¬Usable (rangeSize low high) (wordAfter n source) :=
    fun n hn husable => hgives ⟨n, hn, husable⟩
  rw [drawNumber_eq h]
  split
  · rename_i hall
    rw [hall] at hnone
    exact absurd (usable_all _) (hnone 0 (Nat.two_pow_pos 64))
  · rw [drawBelow_of_none fun n hn hwithin =>
      hnone n hn ((within_zone_iff hpos n source).mp hwithin)]
    rfl

/-- The parts of the words that the numbers have, each from its first word on. -/
theorem exists_first_word {size offset : Nat} (hsize : size ≤ 2 ^ 64) (h : offset < size) :
    ∃ word < 2 ^ 64, word * size / 2 ^ 64 = offset ∧ word * size % 2 ^ 64 < size := by
  have hpos : 0 < size := Nat.zero_lt_of_lt h
  let sum := offset * 2 ^ 64 + (size - 1)
  have hsum : sum / size * size = offset * 2 ^ 64 + (size - 1 - sum % size) := by
    have hdivide := Nat.div_add_mod' sum size
    have hrest := Nat.mod_lt sum hpos
    omega
  have hrest : size - 1 - sum % size < 2 ^ 64 := by omega
  refine ⟨sum / size, ?_, ?_, ?_⟩
  · rw [Nat.div_lt_iff_lt_mul hpos]
    omega
  · rw [hsum, Nat.mul_comm, Nat.mul_add_div (Nat.two_pow_pos 64), Nat.div_eq_of_lt hrest,
      Nat.add_zero]
  · rw [hsum, Nat.mul_comm, Nat.mul_add_mod, Nat.mod_eq_of_lt hrest]
    omega

/-- Each number between the bounds has a word that it is drawn by. -/
theorem exists_word {n : Int64} (hlow : low ≤ n) (hhigh : n ≤ high) :
    ∃ word, Usable (rangeSize low high) word ∧ numberAt low high word = n := by
  by_cases hall : rangeSize low high = 2 ^ 64
  · refine ⟨n.toUInt64, hall ▸ usable_all _, ?_⟩
    rw [numberAt, if_pos hall]
    rfl
  · have hsize := rangeSize_le low high
    rw [Int64.le_iff_toInt_le] at hlow hhigh
    have hinside : (n.toInt - low.toInt).toNat < rangeSize low high := by
      unfold rangeSize
      omega
    obtain ⟨word, hword, hdiv, hmod⟩ := exists_first_word hsize hinside
    have htoNat : (UInt64.ofNat word).toNat = word := UInt64.toNat_ofNat_of_lt' hword
    refine ⟨UInt64.ofNat word, ?_, ?_⟩
    · unfold Usable
      rw [htoNat]
      exact Nat.lt_of_lt_of_le hmod (Nat.le_mul_of_pos_right _ (Nat.two_pow_pos _))
    · have hoffset : low.toInt + ((n.toInt - low.toInt).toNat : Nat) = n.toInt := by omega
      rw [numberAt, if_neg hall, htoNat, hdiv, hoffset, Int64.ofInt_toInt]

/-- Words that are written down are followed by zeros. -/
theorem wordAfter_list (n : Nat) (list : WordList) :
    wordAfter n list = (list.words.drop n).headD 0 := by
  induction n generalizing list with
  | zero => rfl
  | succ n ih =>
    refine (ih _).trans ?_
    change (list.words.tail.drop n).headD 0 = _
    rw [List.drop_tail]

theorem givesUsable_list {size : Nat} (h : 0 < size) {list : WordList}
    (hlist : list.words.length < rejectionLimit) : GivesUsable size list := by
  refine ⟨list.words.length, hlist, ?_⟩
  rw [wordAfter_list, List.drop_length]
  exact usable_zero h

end

end

end TextGrammar
