import Mathlib.Algebra.GroupWithZero.Nat
import Mathlib.Tactic.Common
/-!
# Numeral — numbers as digits in a base

`numeral` writes a number in a base up to 16, `digitOf` reads a digit back, and `positional` is the value that a row of
digits has behind digits already read.  A numeral has its number as value (`positional_numeral`), it consists of digits
of its base, and a base and a bound on the number bound its length.
-/
namespace OtaLoader

/-- The digit `d`, below 16. -/
def digitByte (upper : Bool) (d : Nat) : UInt8 := UInt8.ofNat (if d < 10 then 48 + d else (if upper then 55 else 87) + d)

/-- The number, most significant digit first. -/
def numeral (upper : Bool) (b n : Nat) : List UInt8 :=
  (Nat.toDigits b n).map (fun c => UInt8.ofNat (if upper then c.toUpper else c).toNat)

/-- The value of a digit of any base up to 16. -/
def digitOf (c : UInt8) : Option Nat :=
  if 48 ≤ c.toNat ∧ c.toNat ≤ 57 then some (c.toNat - 48)
  else if 97 ≤ c.toNat ∧ c.toNat ≤ 102 then some (c.toNat - 87)
  else if 65 ≤ c.toNat ∧ c.toNat ≤ 70 then some (c.toNat - 55)
  else none

/-- The value of the digits behind those of `acc`. -/
def positional (b acc : Nat) (ds : List UInt8) : Nat := ds.foldl (fun a c => a * b + (digitOf c).getD 0) acc

variable {upper : Bool} {b n : Nat}

theorem digitOf_digitByte {d : Nat} (h : d < 16) : digitOf (digitByte upper d) = some d := by
  have hall : ∀ u : Bool, ∀ i : Fin 16, digitOf (digitByte u i) = some i.val := by decide
  exact hall upper ⟨d, h⟩

theorem byte_digitChar {d : Nat} (h : d < 16) :
    UInt8.ofNat (if upper then d.digitChar.toUpper else d.digitChar).toNat = digitByte upper d := by
  have hall : ∀ u : Bool, ∀ i : Fin 16,
      UInt8.ofNat (if u then i.val.digitChar.toUpper else i.val.digitChar).toNat = digitByte u i := by decide
  exact hall upper ⟨d, h⟩

/-! ## Numerals -/

theorem numeral_of_lt (hb : b ≤ 16) (h : n < b) : numeral upper b n = [digitByte upper n] := by
  rw [numeral, Nat.toDigits_of_lt_base h, List.map_singleton, byte_digitChar (by omega)]

theorem numeral_of_le (h1 : 1 < b) (hb : b ≤ 16) (h : b ≤ n) :
    numeral upper b n = numeral upper b (n / b) ++ [digitByte upper (n % b)] := by
  have hd : n % b < 16 := Nat.lt_of_lt_of_le (Nat.mod_lt n (by omega)) hb
  rw [numeral, Nat.toDigits_of_base_le h1 h, List.map_append, List.map_singleton, byte_digitChar hd, numeral]

/-- **What a numeral is made of**, by the digits taken off its end. -/
theorem numeral_induction {P : Nat → Prop} (h1 : 1 < b) (small : ∀ n, n < b → P n) (big : ∀ n, b ≤ n → P (n / b) → P n)
    (n : Nat) : P n := by
  induction n using Nat.strongRecOn with
  | _ n ih =>
    by_cases h : n < b
    · exact small n h
    · exact big n (by omega) (ih _ (Nat.div_lt_self (by omega) h1))

/-- The digits, the last one first, none for 0. -/
def lowDigits (upper : Bool) (b n : Nat) : List UInt8 := if n = 0 then [] else (numeral upper b n).reverse

/-- The digits taken off the end. -/
theorem reverse_numeral (h1 : 1 < b) (hb : b ≤ 16) :
    (numeral upper b n).reverse = digitByte upper (n % b) :: lowDigits upper b (n / b) := by
  unfold lowDigits
  by_cases h : n < b
  · rw [numeral_of_lt hb h, Nat.mod_eq_of_lt h, if_pos (Nat.div_eq_of_lt h), List.reverse_singleton]
  · have hne : ¬ n / b = 0 := fun h0 => h ((Nat.div_eq_zero_iff_lt (by omega)).1 h0)
    rw [numeral_of_le h1 hb (Nat.not_lt.1 h), if_neg hne, List.reverse_append, List.reverse_singleton,
      List.singleton_append]

theorem lowDigits_zero (upper : Bool) (b : Nat) : lowDigits upper b 0 = [] := if_pos rfl

theorem lowDigits_pos (h1 : 1 < b) (hb : b ≤ 16) (h : n ≠ 0) :
    lowDigits upper b n = digitByte upper (n % b) :: lowDigits upper b (n / b) := by
  rw [← reverse_numeral h1 hb, lowDigits, if_neg h]

/-- A base up to ten has no letters. -/
theorem numeral_upper (h1 : 1 < b) (hb : b ≤ 10) (u : Bool) : numeral upper b n = numeral u b n := by
  have hdigit : ∀ d, d < 10 → digitByte upper d = digitByte u d := fun d hd => by
    unfold digitByte
    rw [if_pos hd, if_pos hd]
  induction n using numeral_induction h1 with
  | small n h => rw [numeral_of_lt (by omega) h, numeral_of_lt (by omega) h, hdigit n (by omega)]
  | big n h ih =>
    have hd := Nat.mod_lt n (by omega : b > 0)
    rw [numeral_of_le h1 (by omega) h, numeral_of_le h1 (by omega) h, ih, hdigit _ (by omega)]

theorem numeral_ne_nil : numeral upper b n ≠ [] := fun h => Nat.toDigits_ne_nil (List.map_eq_nil_iff.1 h)

/-- A number above 0 does not begin with the digit 0. -/
theorem numeral_head (h1 : 1 < b) (hb : b ≤ 16) (hn : 0 < n) :
    ∃ d ds, numeral upper b n = digitByte upper d :: ds ∧ 0 < d ∧ d < b := by
  induction n using numeral_induction h1 with
  | small n h => exact ⟨n, [], numeral_of_lt hb h, hn, h⟩
  | big n h ih =>
    obtain ⟨d, ds, heq, hd⟩ := ih (Nat.div_pos h (by omega))
    exact ⟨d, ds ++ [digitByte upper (n % b)], by rw [numeral_of_le h1 hb h, heq, List.cons_append], hd⟩

theorem length_numeral_le {k : Nat} (h1 : 1 < b) (hk : 0 < k) (h : n < b ^ k) : (numeral upper b n).length ≤ k := by
  rw [numeral, List.length_map]
  exact (Nat.length_toDigits_le_iff h1 hk).2 h

theorem digits_numeral (h1 : 1 < b) (hb : b ≤ 16) : ∀ c ∈ numeral upper b n, ∃ d, digitOf c = some d ∧ d < b := by
  induction n using numeral_induction h1 with
  | small n h =>
    intro c hc
    rw [numeral_of_lt hb h] at hc
    cases List.mem_singleton.1 hc
    exact ⟨n, digitOf_digitByte (by omega), h⟩
  | big n h ih =>
    intro c hc
    rw [numeral_of_le h1 hb h] at hc
    rcases List.mem_append.1 hc with hc | hc
    · exact ih c hc
    · cases List.mem_singleton.1 hc
      have hd := Nat.mod_lt n (by omega : b > 0)
      exact ⟨n % b, digitOf_digitByte (by omega), hd⟩

theorem positional_append (b acc : Nat) (ds es : List UInt8) :
    positional b acc (ds ++ es) = positional b (positional b acc ds) es := List.foldl_append

/-- **A numeral has its number as value.** -/
theorem positional_numeral (h1 : 1 < b) (hb : b ≤ 16) : positional b 0 (numeral upper b n) = n := by
  induction n using numeral_induction h1 with
  | small n h =>
    rw [numeral_of_lt hb h, positional, List.foldl_cons, List.foldl_nil, digitOf_digitByte (by omega), Nat.zero_mul,
      Option.getD_some, Nat.zero_add]
  | big n h ih =>
    have hd := Nat.mod_lt n (by omega : b > 0)
    rw [numeral_of_le h1 hb h, positional_append, ih, positional, List.foldl_cons, List.foldl_nil,
      digitOf_digitByte (by omega)]
    exact Nat.div_add_mod' n b

end OtaLoader
