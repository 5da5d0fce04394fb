import Mathlib.Algebra.GroupWithZero.Nat
import Mathlib.Data.List.TakeWhile

/-!
# Decimal numerals and the C integer conversions

`stoull` and `stoll` as the C++ library documents them.  Both convert the longest numeral that the
text starts with: leading blanks are skipped, one sign is accepted, and whatever follows the digits
is ignored.  They throw `invalid_argument` if there is no digit and `out_of_range` if the value does
not fit; `stoull` negates modulo `2 ^ 64`.

`LeadingNumeral` is the grammar, and `readNumeral_eq_ok_iff` says that the scanner follows it.
Plain decimal text is written by `Nat.toDigits` and read back by `Nat.ofDigitChars`, both of the
core library.
-/

namespace Numerals

/-- What the conversions throw. -/
inductive ConversionError
  | invalidArgument | outOfRange
  deriving DecidableEq, Repr

/-- `isspace` of the C locale. -/
def isspace (c : Char) : Bool := c = ' ' ∨ ('\t' ≤ c ∧ c ≤ '\r')

/-- The value of a run of decimal digits. -/
def decimal (digits : List Char) : ℕ := Nat.ofDigitChars 10 digits 0

/-- An optional sign, and the text after it. -/
def readSign : List Char → Bool × List Char
  | [] => (false, [])
  | c :: s => if c = '-' then (true, s) else if c = '+' then (false, s) else (false, c :: s)

/-- The numeral the text starts with: whether it has a minus sign, and its magnitude. -/
def readNumeral (s : List Char) : Except ConversionError (Bool × ℕ) :=
  let signed := readSign (s.dropWhile isspace)
  let digits := signed.2.takeWhile Char.isDigit
  if digits = [] then .error .invalidArgument else .ok (signed.1, decimal digits)

/-- The value `stoull` returns: a minus sign negates modulo `2 ^ 64`. -/
def unsignedValue (negative : Bool) (magnitude : ℕ) : UInt64 :=
  if negative then -UInt64.ofNat magnitude else UInt64.ofNat magnitude

/-- The magnitudes that `stoll` accepts are below this. -/
def signedBound (negative : Bool) : ℕ := if negative then 2 ^ 63 + 1 else 2 ^ 63

/-- The value `stoll` returns. -/
def signedValue (negative : Bool) (magnitude : ℕ) : Int64 :=
  Int64.ofInt (if negative then -magnitude else magnitude)

def stoull (s : List Char) : Except ConversionError UInt64 := do
  let (negative, magnitude) ← readNumeral s
  if ¬ magnitude < 2 ^ 64 then throw .outOfRange
  return unsignedValue negative magnitude

def stoll (s : List Char) : Except ConversionError Int64 := do
  let (negative, magnitude) ← readNumeral s
  if ¬ magnitude < signedBound negative then throw .outOfRange
  return signedValue negative magnitude

/-! ## The grammar -/

/-- The text is blanks, a sign or none, one digit or more, and a rest that starts with no digit. -/
def LeadingNumeral (s : List Char) (negative : Bool) (magnitude : ℕ) : Prop :=
  ∃ blanks sign digits rest, s = blanks ++ (sign ++ (digits ++ rest)) ∧
    (∀ c ∈ blanks, isspace c = true) ∧
    (sign = ['-'] ∧ negative = true ∨ (sign = ['+'] ∨ sign = []) ∧ negative = false) ∧
    digits ≠ [] ∧ (∀ c ∈ digits, c.isDigit = true) ∧ (∀ c ∈ rest.head?, c.isDigit = false) ∧
    magnitude = decimal digits

lemma isDigit_facts {c : Char} (h : c.isDigit = true) :
    isspace c = false ∧ c ≠ '-' ∧ c ≠ '+' := by
  refine ⟨?_, ?_, ?_⟩
  · have h48 : '0' ≤ c := by
      rw [Char.isDigit, Bool.and_eq_true, decide_eq_true_iff] at h
      exact h.1
    rw [isspace, decide_eq_false_iff_not]
    rintro (rfl | ⟨-, hle⟩)
    · exact absurd h (by decide)
    · exact absurd (Char.le_trans h48 hle) (by decide)
  all_goals
    rintro rfl
    exact absurd h (by decide)

/-- What stands before the sign and the digits is skipped. -/
lemma dropWhile_isspace {blanks s : List Char} (hblanks : ∀ c ∈ blanks, isspace c = true)
    (hs : ∀ c ∈ s.head?, isspace c = false) : (blanks ++ s).dropWhile isspace = s := by
  rw [List.dropWhile_append_of_pos hblanks]
  cases s with
  | nil => rfl
  | cons c s => rw [List.dropWhile_cons_of_neg (Bool.eq_false_iff.mp (hs c rfl))]

lemma takeWhile_isDigit {digits rest : List Char} (hdigits : ∀ c ∈ digits, c.isDigit = true)
    (hrest : ∀ c ∈ rest.head?, c.isDigit = false) :
    (digits ++ rest).takeWhile Char.isDigit = digits := by
  rw [List.takeWhile_append_of_pos hdigits]
  cases rest with
  | nil => simp
  | cons c rest => rw [List.takeWhile_cons_of_neg (Bool.eq_false_iff.mp (hrest c rfl)),
      List.append_nil]

/-- The sign that stands before a digit is read off. -/
lemma readSign_append {sign s : List Char} {negative : Bool}
    (hsign : sign = ['-'] ∧ negative = true ∨ (sign = ['+'] ∨ sign = []) ∧ negative = false)
    (hs : ∀ c ∈ s.head?, c.isDigit = true) : readSign (sign ++ s) = (negative, s) := by
  rcases hsign with ⟨rfl, rfl⟩ | ⟨rfl | rfl, rfl⟩
  · rfl
  · rfl
  · cases s with
    | nil => rfl
    | cons c s =>
      obtain ⟨-, hminus, hplus⟩ := isDigit_facts (hs c rfl)
      rw [List.nil_append, readSign, if_neg hminus, if_neg hplus]

lemma readSign_eq {s t : List Char} {negative : Bool} (h : readSign s = (negative, t)) :
    ∃ sign, s = sign ++ t ∧
      (sign = ['-'] ∧ negative = true ∨ (sign = ['+'] ∨ sign = []) ∧ negative = false) := by
  cases s with
  | nil =>
    cases h
    exact ⟨[], rfl, .inr ⟨.inr rfl, rfl⟩⟩
  | cons c s =>
    rw [readSign] at h
    split_ifs at h with hminus hplus
    · cases h
      exact ⟨['-'], by rw [hminus]; rfl, .inl ⟨rfl, rfl⟩⟩
    · cases h
      exact ⟨['+'], by rw [hplus]; rfl, .inr ⟨.inl rfl, rfl⟩⟩
    · cases h
      exact ⟨[], rfl, .inr ⟨.inr rfl, rfl⟩⟩

/-- The scanner finds exactly the numerals of the grammar. -/
theorem readNumeral_eq_ok_iff {s : List Char} {negative : Bool} {magnitude : ℕ} :
    readNumeral s = .ok (negative, magnitude) ↔ LeadingNumeral s negative magnitude := by
  constructor
  · intro h
    obtain ⟨neg, t, hread⟩ : ∃ neg t, readSign (s.dropWhile isspace) = (neg, t) := ⟨_, _, rfl⟩
    simp only [readNumeral, hread] at h
    split_ifs at h with hdigits
    obtain ⟨rfl, rfl⟩ := Prod.mk.inj (Except.ok.inj h)
    obtain ⟨sign, hsplit, hsign⟩ := readSign_eq hread
    refine ⟨s.takeWhile isspace, sign, t.takeWhile Char.isDigit, t.dropWhile Char.isDigit, ?_,
      fun c hc => List.mem_takeWhile_imp hc, hsign, hdigits,
      fun c hc => List.mem_takeWhile_imp hc, ?_, rfl⟩
    · rw [List.takeWhile_append_dropWhile, ← hsplit, List.takeWhile_append_dropWhile]
    · intro c hc
      have hhead := List.head?_dropWhile_not Char.isDigit t
      rw [Option.mem_def.mp hc] at hhead
      exact hhead
  · rintro ⟨blanks, sign, digits, rest, rfl, hblanks, hsign, hne, hdigits, hrest, rfl⟩
    have hhead : ∀ c ∈ (digits ++ rest).head?, c.isDigit = true := by
      intro c hc
      cases digits with
      | nil => exact absurd rfl hne
      | cons d digits =>
        obtain rfl := Option.some.inj hc
        exact hdigits _ List.mem_cons_self
    have hstart : ∀ c ∈ (sign ++ (digits ++ rest)).head?, isspace c = false := by
      intro c hc
      rcases hsign with ⟨rfl, -⟩ | ⟨rfl | rfl, -⟩
      · obtain rfl := Option.some.inj hc
        rfl
      · obtain rfl := Option.some.inj hc
        rfl
      · exact (isDigit_facts (hhead c hc)).1
    simp only [readNumeral, dropWhile_isspace hblanks hstart, readSign_append hsign hhead,
      takeWhile_isDigit hdigits hrest, if_neg hne]

lemma exists_readNumeral (s : List Char) :
    (∃ negative magnitude, LeadingNumeral s negative magnitude) ∨
      readNumeral s = .error .invalidArgument := by
  rcases hread : readNumeral s with e | ⟨negative, magnitude⟩
  · cases e with
    | invalidArgument => exact .inr rfl
    | outOfRange =>
      simp only [readNumeral] at hread
      split_ifs at hread
      cases hread
  · exact .inl ⟨negative, magnitude, readNumeral_eq_ok_iff.mp hread⟩

/-! ## The conversions -/

lemma stoull_eq {s : List Char} {negative : Bool} {magnitude : ℕ}
    (h : LeadingNumeral s negative magnitude) :
    stoull s = if magnitude < 2 ^ 64 then .ok (unsignedValue negative magnitude)
      else .error .outOfRange := by
  rw [stoull, readNumeral_eq_ok_iff.mpr h]
  by_cases hlt : magnitude < 2 ^ 64
  · rw [if_pos hlt]
    change (if ¬ magnitude < 2 ^ 64 then _ else _) = _
    rw [if_neg (not_not.mpr hlt)]
    rfl
  · rw [if_neg hlt]
    change (if ¬ magnitude < 2 ^ 64 then _ else _) = _
    rw [if_pos hlt]
    rfl

lemma stoll_eq {s : List Char} {negative : Bool} {magnitude : ℕ}
    (h : LeadingNumeral s negative magnitude) :
    stoll s = if magnitude < signedBound negative then .ok (signedValue negative magnitude)
      else .error .outOfRange := by
  rw [stoll, readNumeral_eq_ok_iff.mpr h]
  by_cases hlt : magnitude < signedBound negative
  · rw [if_pos hlt]
    change (if ¬ magnitude < signedBound negative then _ else _) = _
    rw [if_neg (not_not.mpr hlt)]
    rfl
  · rw [if_neg hlt]
    change (if ¬ magnitude < signedBound negative then _ else _) = _
    rw [if_pos hlt]
    rfl

/-- `stoull` returns on the texts that start with a numeral below `2 ^ 64`, of either sign. -/
lemma stoull_returns_iff {s : List Char} :
    (∃ v, stoull s = .ok v) ↔
      ∃ negative magnitude, LeadingNumeral s negative magnitude ∧ magnitude < 2 ^ 64 := by
  constructor
  · rintro ⟨v, hv⟩
    rcases exists_readNumeral s with ⟨negative, magnitude, h⟩ | hnone
    · rw [stoull_eq h] at hv
      split_ifs at hv with hlt
      exact ⟨negative, magnitude, h, hlt⟩
    · rw [stoull, hnone] at hv
      cases hv
  · rintro ⟨negative, magnitude, h, hlt⟩
    exact ⟨_, by rw [stoull_eq h, if_pos hlt]⟩

/-- `stoll` returns on the texts that start with a numeral in the range of the type. -/
lemma stoll_returns_iff {s : List Char} :
    (∃ v, stoll s = .ok v) ↔
      ∃ negative magnitude, LeadingNumeral s negative magnitude ∧
        magnitude < signedBound negative := by
  constructor
  · rintro ⟨v, hv⟩
    rcases exists_readNumeral s with ⟨negative, magnitude, h⟩ | hnone
    · rw [stoll_eq h] at hv
      split_ifs at hv with hlt
      exact ⟨negative, magnitude, h, hlt⟩
    · rw [stoll, hnone] at hv
      cases hv
  · rintro ⟨negative, magnitude, h, hlt⟩
    exact ⟨_, by rw [stoll_eq h, if_pos hlt]⟩

/-! ## Plain numerals -/

/-- One digit or more and nothing else, of value `n`. -/
def IsDecimal (s : List Char) (n : ℕ) : Prop :=
  s ≠ [] ∧ (∀ c ∈ s, c.isDigit = true) ∧ decimal s = n

/-- Digits, after a minus sign or not, of value `z`. -/
def IsInteger (s : List Char) (z : ℤ) : Prop :=
  (∃ n : ℕ, IsDecimal s n ∧ z = n) ∨
    ∃ digits, s = '-' :: digits ∧ ∃ n : ℕ, IsDecimal digits n ∧ z = -n

lemma IsDecimal.leading {s : List Char} {n : ℕ} (h : IsDecimal s n) : LeadingNumeral s false n :=
  ⟨[], [], s, [], by simp, by simp, .inr ⟨.inr rfl, rfl⟩, h.1, h.2.1, by simp, h.2.2.symm⟩

lemma IsDecimal.leading_minus {s : List Char} {n : ℕ} (h : IsDecimal s n) :
    LeadingNumeral ('-' :: s) true n :=
  ⟨[], ['-'], s, [], by simp, by simp, .inl ⟨rfl, rfl⟩, h.1, h.2.1, by simp, h.2.2.symm⟩

lemma IsDecimal.not_mem {s : List Char} {n : ℕ} (h : IsDecimal s n) {c : Char}
    (hc : c.isDigit = false) : c ∉ s :=
  fun hmem => Bool.eq_false_iff.mp hc (h.2.1 c hmem)

lemma IsInteger.not_mem {s : List Char} {z : ℤ} (h : IsInteger s z) {c : Char}
    (hc : c.isDigit = false) (hminus : c ≠ '-') : c ∉ s := by
  rcases h with ⟨n, hn, -⟩ | ⟨digits, rfl, n, hn, -⟩
  · exact hn.not_mem hc
  · intro hmem
    rcases List.mem_cons.mp hmem with he | hmem
    · exact hminus he
    · exact hn.not_mem hc hmem

/-- On digits `stoull` returns their value. -/
lemma stoull_digits {s : List Char} {v : UInt64} (hdigits : ∀ c ∈ s, c.isDigit = true)
    (h : stoull s = .ok v) : IsDecimal s v.toNat := by
  have hne : s ≠ [] := by
    rintro rfl
    cases h
  have hlead := IsDecimal.leading ⟨hne, hdigits, rfl⟩
  rw [stoull_eq hlead] at h
  split_ifs at h with hlt
  obtain rfl := Except.ok.inj h
  refine ⟨hne, hdigits, ?_⟩
  rw [unsignedValue, if_neg Bool.false_ne_true, UInt64.toNat_ofNat_of_lt' hlt]

/-- On digits, after a minus sign or not, `stoll` returns their value. -/
lemma stoll_digits {s digits : List Char} {v : Int64} (hs : s = digits ∨ s = '-' :: digits)
    (hdigits : ∀ c ∈ digits, c.isDigit = true) (h : stoll s = .ok v) : IsInteger s v.toInt := by
  have hne : digits ≠ [] := by
    rintro rfl
    rcases hs with rfl | rfl
    · cases h
    · cases h
  have hdec : IsDecimal digits (decimal digits) := ⟨hne, hdigits, rfl⟩
  rcases hs with rfl | rfl
  · rw [stoll_eq hdec.leading] at h
    split_ifs at h with hlt
    obtain rfl := Except.ok.inj h
    rw [signedBound, if_neg Bool.false_ne_true] at hlt
    refine .inl ⟨_, hdec, ?_⟩
    rw [signedValue, if_neg Bool.false_ne_true, Int64.toInt_ofInt_of_le (by omega) (by omega)]
  · rw [stoll_eq hdec.leading_minus] at h
    split_ifs at h with hlt
    obtain rfl := Except.ok.inj h
    rw [signedBound, if_pos rfl] at hlt
    refine .inr ⟨digits, rfl, _, hdec, ?_⟩
    rw [signedValue, if_pos rfl, Int64.toInt_ofInt_of_le (by omega) (by omega)]

/-! ## Writing -/

/-- A natural number in decimal. -/
def writeNat (n : ℕ) : List Char := Nat.toDigits 10 n

/-- An integer in decimal. -/
def writeInt (z : ℤ) : List Char :=
  if z < 0 then '-' :: writeNat z.natAbs else writeNat z.natAbs

lemma isDecimal_writeNat (n : ℕ) : IsDecimal (writeNat n) n :=
  ⟨Nat.toDigits_ne_nil, fun _ hc => Nat.isDigit_of_mem_toDigits (by decide) (by decide) hc,
    Nat.ofDigitChars_ten_toDigits⟩

lemma isInteger_writeInt (z : ℤ) : IsInteger (writeInt z) z := by
  rw [writeInt]
  split_ifs with hneg
  · exact .inr ⟨_, rfl, _, isDecimal_writeNat _, by omega⟩
  · exact .inl ⟨_, isDecimal_writeNat _, by omega⟩

theorem stoull_writeNat (v : UInt64) : stoull (writeNat v.toNat) = .ok v := by
  rw [stoull_eq (isDecimal_writeNat v.toNat).leading, if_pos v.toNat_lt, unsignedValue,
    if_neg Bool.false_ne_true, UInt64.ofNat_toNat]

theorem stoll_writeInt (v : Int64) : stoll (writeInt v.toInt) = .ok v := by
  have hlow := v.le_toInt
  have hhigh := v.toInt_lt
  have hdec := isDecimal_writeNat v.toInt.natAbs
  by_cases hneg : v.toInt < 0
  · rw [writeInt, if_pos hneg, stoll_eq hdec.leading_minus, signedBound, if_pos rfl,
      if_pos (by omega), signedValue, if_pos rfl]
    have habs : -(v.toInt.natAbs : ℤ) = v.toInt := by omega
    rw [habs, Int64.ofInt_toInt]
  · rw [writeInt, if_neg hneg, stoll_eq hdec.leading, signedBound, if_neg Bool.false_ne_true,
      if_pos (by omega), signedValue, if_neg Bool.false_ne_true]
    have habs : (v.toInt.natAbs : ℤ) = v.toInt := by omega
    rw [habs, Int64.ofInt_toInt]

end Numerals
