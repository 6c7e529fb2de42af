import Mathlib.Algebra.Group.Int.Defs
import Mathlib.Tactic.Common

/-!
# Decimal text

`formatInt` and `parseInt` are `strconv.FormatInt(·, 10)` and
`strconv.ParseInt(·, 10, 64)`: the text of an integer, and the integer of a text when the
text is an optional sign followed by decimal digits and the number fits in 64 bits.

Two facts are used: parsing undoes formatting on every 64-bit number
(`parseInt_formatInt`), and the digits of a natural number contain no dash, so that
`base ++ "-" ++ number` can be taken apart again (`dashed_inj`).
-/

namespace Decimal

/-- The decimal text of an integer. -/
def formatInt (i : Int) : String := toString i

/-- A non-empty run of decimal digits, as a number. -/
def parseDigits (ds : List Char) : Option Nat :=
  if ds ≠ [] ∧ ds.all Char.isDigit then some (Nat.ofDigitChars 10 ds 0) else none

/-- The range of a 64-bit signed integer. -/
def InInt64 (i : Int) : Prop := -2 ^ 63 ≤ i ∧ i < 2 ^ 63

instance (i : Int) : Decidable (InInt64 i) := inferInstanceAs (Decidable (_ ∧ _))

/-- An optional sign and digits, of any size. -/
def parseSigned : List Char → Option Int
  | '-' :: ds => (parseDigits ds).map fun n : Nat => -(n : Int)
  | '+' :: ds => (parseDigits ds).map Int.ofNat
  | ds => (parseDigits ds).map Int.ofNat

/-- The number a text denotes, if it is well formed and in range. -/
def parseInt (s : String) : Option Int :=
  (parseSigned s.toList).filter fun i => decide (InInt64 i)

/-- `fmt.Sprintf("%s-%d", base, i)`. -/
def dashed (base : String) (i : Int) : String := base ++ "-" ++ formatInt i

/-! ## Parsing undoes formatting -/

theorem all_isDigit_toDigits (n : Nat) : (Nat.toDigits 10 n).all Char.isDigit = true := by
  rw [List.all_eq_true]
  intro c hc
  exact Nat.isDigit_of_mem_toDigits (by decide) (by decide) hc

theorem notMem_toDigits {c : Char} (hc : c.isDigit = false) (n : Nat) :
    c ∉ Nat.toDigits 10 n := by
  intro hmem
  have hdigit := List.all_eq_true.mp (all_isDigit_toDigits n) c hmem
  rw [hc] at hdigit
  exact absurd hdigit (by decide)

/-- Digits are read back as the number they denote. -/
theorem parseDigits_toDigits (n : Nat) : parseDigits (Nat.toDigits 10 n) = some n := by
  unfold parseDigits
  rw [if_pos ⟨Nat.toDigits_ne_nil, all_isDigit_toDigits n⟩, Nat.ofDigitChars_ten_toDigits]

/-- Digits carry no sign, so they are read as they stand. -/
theorem parseSigned_toDigits (n : Nat) : parseSigned (Nat.toDigits 10 n) = some (n : Int) := by
  have hminus := notMem_toDigits (c := '-') (by decide) n
  have hplus := notMem_toDigits (c := '+') (by decide) n
  have hparse := parseDigits_toDigits n
  revert hminus hplus hparse
  generalize Nat.toDigits 10 n = ds
  intro hminus hplus hparse
  unfold parseSigned
  split
  · exact absurd List.mem_cons_self hminus
  · exact absurd List.mem_cons_self hplus
  · rw [hparse]
    rfl

/-- A number that is not negative has no sign. -/
theorem toList_formatInt_ofNat (n : Nat) : (formatInt (n : Int)).toList = Nat.toDigits 10 n := by
  simp [formatInt, Int.toString_eq_repr, Int.repr_eq_if, Nat.toList_repr]

/-- Without a bound on the size, every integer is read back. -/
theorem parseSigned_formatInt (i : Int) : parseSigned (formatInt i).toList = some i := by
  -- a negative number starts with a sign, any other with a digit
  rcases Int.lt_or_le i 0 with hneg | hpos
  · have htext : (formatInt i).toList = '-' :: Nat.toDigits 10 (-i).toNat := by
      have hnot : ¬ 0 ≤ i := by omega
      simp [formatInt, Int.toString_eq_repr, Int.repr_eq_if, hnot, Nat.toList_repr]
    have habs : -((-i).toNat : Int) = i := by omega
    rw [htext]
    simp only [parseSigned, parseDigits_toDigits, Option.map_some, habs]
  · obtain ⟨n, rfl⟩ := Int.eq_ofNat_of_zero_le hpos
    rw [toList_formatInt_ofNat, parseSigned_toDigits]

/-- Parsing undoes formatting on the 64-bit range. -/
theorem parseInt_formatInt {i : Int} (h : InInt64 i) : parseInt (formatInt i) = some i := by
  simp [parseInt, parseSigned_formatInt, Option.filter, h]

theorem formatInt_ne_empty (i : Int) : formatInt i ≠ "" := by
  intro h
  have hparse := parseSigned_formatInt i
  rw [h, show parseSigned "".toList = none by decide] at hparse
  exact absurd hparse (by simp)

/-! ## Taking dashed names apart -/

/-- Only the last dash is followed by digits alone: a common text has a common
split. -/
theorem append_cons_inj_of_notMem {d : Char} {xs ys as bs : List Char} (ha : d ∉ as) (hb : d ∉ bs)
    (h : xs ++ d :: as = ys ++ d :: bs) : xs = ys ∧ as = bs := by
  rcases List.append_eq_append_iff.mp h with ⟨cs, hys, hcons⟩ | ⟨cs, hxs, hcons⟩
  · cases cs with
    | nil => simp_all
    -- => the two dashes would be in different places, with one of them among the digits
    | cons c cs =>
        have hmem : d ∈ as := by
          have htail : as = cs ++ d :: bs := (List.cons.inj hcons).2
          simp [htail]
        exact absurd hmem ha
  · cases cs with
    | nil => simp_all
    | cons c cs =>
        have hmem : d ∈ bs := by
          have htail : bs = cs ++ d :: as := (List.cons.inj hcons).2
          simp [htail]
        exact absurd hmem hb

/-- Different numbers have different texts. -/
theorem formatInt_ofNat_inj {m n : Nat}
    (h : (formatInt (m : Int)).toList = (formatInt (n : Int)).toList) : m = n := by
  have hm := parseSigned_formatInt (m : Int)
  rw [h, parseSigned_formatInt] at hm
  exact (Int.ofNat.inj (Option.some.inj hm)).symm

/-- A base name and a non-negative number can be read off their dashed
name. -/
theorem dashed_inj {b b' : String} {i i' : Int} (hi : 0 ≤ i) (hi' : 0 ≤ i')
    (h : dashed b i = dashed b' i') : b = b' ∧ i = i' := by
  obtain ⟨n, rfl⟩ := Int.eq_ofNat_of_zero_le hi
  obtain ⟨n', rfl⟩ := Int.eq_ofNat_of_zero_le hi'
  have hlist : b.toList ++ '-' :: (formatInt (n : Int)).toList =
      b'.toList ++ '-' :: (formatInt (n' : Int)).toList := by
    simpa [dashed] using congrArg String.toList h
  have hn : '-' ∉ (formatInt (n : Int)).toList := by
    rw [toList_formatInt_ofNat]
    exact notMem_toDigits (by decide) n
  have hn' : '-' ∉ (formatInt (n' : Int)).toList := by
    rw [toList_formatInt_ofNat]
    exact notMem_toDigits (by decide) n'
  obtain ⟨hbase, hnum⟩ := append_cons_inj_of_notMem hn hn' hlist
  exact ⟨String.toList_injective hbase, congrArg _ (formatInt_ofNat_inj hnum)⟩

end Decimal
