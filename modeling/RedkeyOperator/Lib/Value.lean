import Mathlib.Data.Finmap

/-!
# Reflected values and `DeepDerivative`

Kubernetes objects are compared through reflection. `Value` is what a reflective
comparison sees of a Go value: strings, numbers, booleans, quantities, pointers, slices,
maps and structs. Nil and empty maps are one value (`StringMap` is extensional), and so are
nil and empty slices; a quantity is its amount, however it is written. Those are the
identifications the semantic comparisons make.

`Value.deepDerivative a b` is the one-sided comparison: whatever `a` leaves empty is
ignored, a slice of `a` is compared with the prefix of the same length of `b`'s, and a
map of `a` is compared on its own keys. Two values that are each a part of the other in this
sense are the same (`deepDerivative_antisymm`).

`Value.Keeps a b b'` says that `b'` is `b` up to what `a` leaves empty. That is all the one-sided
comparison with `a` looks at (`deepDerivative_of_keeps`).
-/

/-- A Go `map[string]string`, nil and empty identified. -/
abbrev StringMap := Finmap fun _ : String => String

/-- A `resource.Quantity`: its amount. `1Gi` and `1073741824` are the same
quantity. -/
abbrev Quantity := Rat

/-- Quantities by resource name, nil and empty identified. -/
abbrev QuantityMap := Finmap fun _ : String => Quantity

/-- A Go value as seen through reflection. Interface values and functions do
not occur in the compared types. -/
inductive Value where
  | str (s : String)
  | int (n : Int)
  | bool (b : Bool)
  | quantity (q : Quantity)
  | strings (m : StringMap)
  | quantities (m : QuantityMap)
  | ptr (v : Option Value)
  | slice (vs : List Value)
  /-- The fields of a struct, in their order. -/
  | struct (fields : List Value)

namespace Value

/-- Every key of `a` is a key of `b`, with the same element unless `a`'s is
`unset`. -/
def deriveMap {β : Type} [DecidableEq β] (unset : Option β) (a b : Finmap fun _ : String => β) :
    Bool :=
  decide (∀ k ∈ a.keys, k ∈ b ∧ (a.lookup k = unset ∨ a.lookup k = b.lookup k))

mutual

/-- `Semantic.DeepDerivative(a, b)`. -/
def deepDerivative : Value → Value → Bool
  | .str a, .str b => a == "" || a == b
  | .int a, .int b => a == b
  | .bool a, .bool b => a == b
  -- `Quantity.Cmp`: an amount of zero is not an unset one
  | .quantity a, .quantity b => a == b
  | .strings a, .strings b => deriveMap (some "") a b
  | .quantities a, .quantities b => deriveMap none a b
  | .ptr none, .ptr _ => true
  | .ptr (some a), .ptr (some b) => deepDerivative a b
  | .slice as, .slice bs => derivePrefix as bs
  | .struct as, .struct bs => deriveFields as bs
  | _, _ => false

/-- A slice against the prefix of the same length. -/
def derivePrefix : List Value → List Value → Bool
  | [], _ => true
  | a :: as, b :: bs => deepDerivative a b && derivePrefix as bs
  | _ :: _, [] => false

/-- Two structs of one type, field by field. -/
def deriveFields : List Value → List Value → Bool
  | [], [] => true
  | a :: as, b :: bs => deepDerivative a b && deriveFields as bs
  | _, _ => false

end

section Maps

variable {β : Type} [DecidableEq β] {unset : Option β} {a b b' : Finmap fun _ : String => β}

/-- A map is a part of itself. -/
theorem deriveMap_refl (unset : Option β) (a : Finmap fun _ : String => β) :
    deriveMap unset a a = true := by
  refine decide_eq_true fun k hk => ?_
  exact ⟨Finmap.mem_keys.mp hk, Or.inr rfl⟩

/-- What the comparison says about one key. -/
theorem deriveMap_lookup (h : deriveMap unset a b = true) {k : String} (hk : k ∈ a) :
    k ∈ b ∧ (a.lookup k = unset ∨ a.lookup k = b.lookup k) :=
  of_decide_eq_true h k (Finmap.mem_keys.mpr hk)

/-- Maps that are parts of each other have the same keys and elements. -/
theorem deriveMap_antisymm (hab : deriveMap unset a b = true) (hba : deriveMap unset b a = true) :
    a = b := by
  refine Finmap.ext_lookup fun k => ?_
  by_cases hk : k ∈ a
  · obtain ⟨hkb, ha | heq⟩ := deriveMap_lookup hab hk
    · -- unset in `a`: then `b` has the same element there, or leaves it unset too
      obtain ⟨-, hb | heq⟩ := deriveMap_lookup hba hkb
      · rw [ha, hb]
      · exact heq.symm
    · exact heq
  · have hkb : k ∉ b := fun hkb => hk (deriveMap_lookup hba hkb).1
    rw [Finmap.lookup_eq_none.mpr hk, Finmap.lookup_eq_none.mpr hkb]

/-- Only the keys of the first map are looked at. -/
theorem deriveMap_of_keeps (h : deriveMap unset a b = true)
    (hkeeps : ∀ k ∈ a, b'.lookup k = b.lookup k) : deriveMap unset a b' = true := by
  refine decide_eq_true fun k hk => ?_
  have hmem := Finmap.mem_keys.mp hk
  have hsame := hkeeps k hmem
  obtain ⟨hkb, hvalue⟩ := deriveMap_lookup h hmem
  rw [hsame]
  refine ⟨?_, hvalue⟩
  rw [← Finmap.lookup_isSome] at hkb ⊢
  rwa [hsame]

end Maps

mutual

/-- Every value is a part of itself. -/
theorem deepDerivative_refl : ∀ a : Value, a.deepDerivative a = true
  | .str a => by simp [deepDerivative]
  | .int n => by simp [deepDerivative]
  | .bool b => by simp [deepDerivative]
  | .quantity q => by simp [deepDerivative]
  | .strings m => by simp [deepDerivative, deriveMap_refl]
  | .quantities m => by simp [deepDerivative, deriveMap_refl]
  | .ptr none => rfl
  | .ptr (some v) => by rw [deepDerivative, deepDerivative_refl v]
  | .slice vs => by rw [deepDerivative, derivePrefix_refl vs]
  | .struct fs => by rw [deepDerivative, deriveFields_refl fs]

theorem derivePrefix_refl : ∀ as : List Value, derivePrefix as as = true
  | [] => rfl
  | a :: as => by rw [derivePrefix, deepDerivative_refl a, derivePrefix_refl as]; rfl

theorem deriveFields_refl : ∀ as : List Value, deriveFields as as = true
  | [] => rfl
  | a :: as => by rw [deriveFields, deepDerivative_refl a, deriveFields_refl as]; rfl

end

mutual

/-- Two values that are each a part of the other are the same. -/
theorem deepDerivative_antisymm {a b : Value} (hab : a.deepDerivative b = true)
    (hba : b.deepDerivative a = true) : a = b := by
  -- values of different sorts are never parts of each other
  cases a with
  | str a =>
      cases b with
      | str b =>
          simp only [deepDerivative, Bool.or_eq_true, beq_iff_eq] at hab hba
          grind
      | _ => simp [deepDerivative] at hab
  | int a =>
      cases b with
      | int b => exact congrArg _ (eq_of_beq hab)
      | _ => simp [deepDerivative] at hab
  | bool a =>
      cases b with
      | bool b => exact congrArg _ (eq_of_beq hab)
      | _ => simp [deepDerivative] at hab
  | quantity a =>
      cases b with
      | quantity b => exact congrArg _ (eq_of_beq hab)
      | _ => simp [deepDerivative] at hab
  | strings a =>
      cases b with
      | strings b => exact congrArg _ (deriveMap_antisymm hab hba)
      | _ => simp [deepDerivative] at hab
  | quantities a =>
      cases b with
      | quantities b => exact congrArg _ (deriveMap_antisymm hab hba)
      | _ => simp [deepDerivative] at hab
  | ptr a =>
      cases b with
      | ptr b =>
          cases a with
          | none =>
              cases b with
              | none => rfl
              | some b => simp [deepDerivative] at hba
          | some a =>
              cases b with
              | none => simp [deepDerivative] at hab
              | some b =>
                  rw [deepDerivative] at hab hba
                  rw [deepDerivative_antisymm hab hba]
      | _ => cases a <;> simp [deepDerivative] at hab
  | slice as =>
      cases b with
      | slice bs =>
          rw [deepDerivative] at hab hba
          rw [derivePrefix_antisymm hab hba]
      | _ => simp [deepDerivative] at hab
  | struct as =>
      cases b with
      | struct bs =>
          rw [deepDerivative] at hab hba
          rw [deriveFields_antisymm hab hba]
      | _ => simp [deepDerivative] at hab

theorem derivePrefix_antisymm {as bs : List Value} (hab : derivePrefix as bs = true)
    (hba : derivePrefix bs as = true) : as = bs := by
  cases as with
  | nil =>
      cases bs with
      | nil => rfl
      | cons b bs => simp [derivePrefix] at hba
  | cons a as =>
      cases bs with
      | nil => simp [derivePrefix] at hab
      | cons b bs =>
          rw [derivePrefix, Bool.and_eq_true] at hab hba
          rw [deepDerivative_antisymm hab.1 hba.1, derivePrefix_antisymm hab.2 hba.2]

theorem deriveFields_antisymm {as bs : List Value} (hab : deriveFields as bs = true)
    (hba : deriveFields bs as = true) : as = bs := by
  cases as with
  | nil =>
      cases bs with
      | nil => rfl
      | cons b bs => simp [deriveFields] at hab
  | cons a as =>
      cases bs with
      | nil => simp [deriveFields] at hab
      | cons b bs =>
          rw [deriveFields, Bool.and_eq_true] at hab hba
          rw [deepDerivative_antisymm hab.1 hba.1, deriveFields_antisymm hab.2 hba.2]

end

/-! ## Filling in what is unset -/

mutual

/-- `b'` is `b`, except where `a` is empty. -/
inductive Keeps : Value → Value → Value → Prop
  | same {a b} : Keeps a b b
  | str {b b'} : Keeps (.str "") (.str b) (.str b')
  | strings {a b b'} (h : ∀ k ∈ a, b'.lookup k = b.lookup k) :
      Keeps (.strings a) (.strings b) (.strings b')
  | quantities {a b b'} (h : ∀ k ∈ a, b'.lookup k = b.lookup k) :
      Keeps (.quantities a) (.quantities b) (.quantities b')
  | unset {b b'} : Keeps (.ptr none) (.ptr b) (.ptr b')
  | ptr {a b b'} (h : Keeps a b b') : Keeps (.ptr (some a)) (.ptr (some b)) (.ptr (some b'))
  | slice {as bs bs'} (h : KeepsPrefix as bs bs') : Keeps (.slice as) (.slice bs) (.slice bs')
  | struct {as bs bs'} (h : KeepsFields as bs bs') : Keeps (.struct as) (.struct bs) (.struct bs')

/-- The first elements, as many as the first list has. -/
inductive KeepsPrefix : List Value → List Value → List Value → Prop
  | nil {bs bs'} : KeepsPrefix [] bs bs'
  | cons {a b b' as bs bs'} (h : Keeps a b b') (hs : KeepsPrefix as bs bs') :
      KeepsPrefix (a :: as) (b :: bs) (b' :: bs')

/-- The fields of a struct. -/
inductive KeepsFields : List Value → List Value → List Value → Prop
  | nil : KeepsFields [] [] []
  | cons {a b b' as bs bs'} (h : Keeps a b b') (hs : KeepsFields as bs bs') :
      KeepsFields (a :: as) (b :: bs) (b' :: bs')

end

mutual

/-- The one-sided comparison does not see what is filled in. -/
theorem deepDerivative_of_keeps {a b b' : Value} (hkeeps : a.Keeps b b')
    (h : a.deepDerivative b = true) : a.deepDerivative b' = true := by
  cases hkeeps with
  | same => exact h
  | str => rfl
  | strings hsame => exact deriveMap_of_keeps h hsame
  | quantities hsame => exact deriveMap_of_keeps h hsame
  | unset => rfl
  | ptr hv =>
      rw [deepDerivative] at h ⊢
      exact deepDerivative_of_keeps hv h
  | slice hs =>
      rw [deepDerivative] at h ⊢
      exact derivePrefix_of_keeps hs h
  | struct hs =>
      rw [deepDerivative] at h ⊢
      exact deriveFields_of_keeps hs h

theorem derivePrefix_of_keeps {as bs bs' : List Value} (hkeeps : KeepsPrefix as bs bs')
    (h : derivePrefix as bs = true) : derivePrefix as bs' = true := by
  cases hkeeps with
  | nil => rfl
  | cons ha has =>
      rw [derivePrefix, Bool.and_eq_true] at h ⊢
      exact ⟨deepDerivative_of_keeps ha h.1, derivePrefix_of_keeps has h.2⟩

theorem deriveFields_of_keeps {as bs bs' : List Value} (hkeeps : KeepsFields as bs bs')
    (h : deriveFields as bs = true) : deriveFields as bs' = true := by
  cases hkeeps with
  | nil => rfl
  | cons ha has =>
      rw [deriveFields, Bool.and_eq_true] at h ⊢
      exact ⟨deepDerivative_of_keeps ha h.1, deriveFields_of_keeps has h.2⟩

end

end Value
