import OtaLoader.Stdarg
/-!
# Vsscanf — text taken apart by a format (`Vsprintf.c`)

`vsscanf` walks through a text and a format at once: white space matches any amount of it, other characters match
themselves, and a conversion reads as far as it can.  A zero byte counts as white space, so that `skip_spaces` does not
stop where a string ends.  The width of a number is read and not used.
-/
namespace OtaLoader
namespace Vsscanf

open Vsnprintf (skipAtoi length_skipAtoi_le tolower)
open Stdarg (int32)

/-! ## Characters -/

def isspace (c : UInt8) : Bool := c == 32 || c == 9 || c == 10 || c == 13 || c == 0

def isxdigit (c : UInt8) : Bool :=
  isDigit c || decide (97 ≤ c.toNat ∧ c.toNat ≤ 102) || decide (65 ≤ c.toNat ∧ c.toNat ≤ 70)

/-- `skip_spaces`; `none` is a read behind the end of the string. -/
def skipSpaces : List UInt8 → Option (List UInt8)
  | []     => none
  | c :: r => if isspace c then skipSpaces r else some (c :: r)

/-! ## Numbers -/

def simpleGuessBase : List UInt8 → Nat
  | 48 :: x :: d :: _ => if tolower x = 120 ∧ isxdigit d = true then 16 else 8
  | 48 :: _           => 8
  | _                 => 10

/-- The value of a hexadecimal digit. -/
def value (c : UInt8) : Nat := if isDigit c then c.toNat - 48 else (tolower c).toNat - 97 + 10

/-- The loop of `simple_strtoull`: the number and the text behind it. -/
def digits (base result : Nat) : List UInt8 → Nat × List UInt8
  | []     => (result, [])
  | c :: r =>
    if isxdigit c = true ∧ value c < base then digits base ((result * base + value c) % 2 ^ 64) r else (result, c :: r)

/-- Behind `0x`. -/
def skipPrefix (base : Nat) (cp : List UInt8) : List UInt8 :=
  match cp with
  | 48 :: x :: r => if base = 16 ∧ tolower x = 120 then r else cp
  | _            => cp

def simpleStrtoull (cp : List UInt8) (base : Nat) : Nat × List UInt8 :=
  let base := if base = 0 then simpleGuessBase cp else base
  digits base 0 (skipPrefix base cp)

def simpleStrtoll (cp : List UInt8) (base : Nat) : Nat × List UInt8 :=
  match cp with
  | 45 :: r => ((2 ^ 64 - (simpleStrtoull r base).1) % 2 ^ 64, (simpleStrtoull r base).2)
  | cp      => simpleStrtoull cp base

/-- `simple_strtoul`, in 32 bits. -/
def simpleStrtoul (cp : List UInt8) (base : Nat) : Nat × List UInt8 :=
  ((simpleStrtoull cp base).1 % 2 ^ 32, (simpleStrtoull cp base).2)

def simpleStrtol (cp : List UInt8) (base : Nat) : Nat × List UInt8 :=
  match cp with
  | 45 :: r => ((2 ^ 32 - (simpleStrtoul r base).1) % 2 ^ 32, (simpleStrtoul r base).2)
  | cp      => simpleStrtoul cp base

/-! ## Conversions -/

/-- What goes to the pointer of a conversion: an integer of some bytes, a string, characters without a terminator, each
with the width of its conversion, the number of characters read, or a `double`. -/
inductive Stored where
  | int (size v : Nat)
  | str (width : Int) (s : List UInt8)
  | chars (width : Int) (s : List UInt8)
  | count (n : Nat)
  | float (bits : UInt64)
deriving DecidableEq

/-- How many characters `%c` reads with a width. -/
def charRoom (width : Int) : Nat := if width < 1 then 1 else width.toNat

/-- How many characters `%s` reads at most with a width: it counts the width down to 0, through all 32-bit values for a
negative one, and takes `SHORT_MAX` for -1. -/
def strRoom (width : Int) : Nat := if width = -1 then 2147483647 else (width % 4294967296).toNat

/-- The base, `is_sign` and `is_float` of a conversion of a number. -/
def numeric : UInt8 → Option (Nat × Bool × Bool)
  | 111 => some (8, false, false)
  | 120 => some (16, false, false)
  | 88  => some (16, false, false)
  | 105 => some (0, true, false)
  | 100 => some (10, true, false)
  | 117 => some (10, false, false)
  | 102 => some (10, false, true)
  | _   => none

/-- The first digit of a number, behind its sign, is one of its base. -/
def startsNumber (base : Nat) (signed : Bool) (str : List UInt8) : Bool :=
  let str := match str with
    | 45 :: r => if signed then r else str
    | _       => str
  match str with
  | []     => false
  | d :: _ =>
    !(d == 0 || base == 16 && !isxdigit d || base == 10 && !isDigit d || base == 8 && (!isDigit d || decide (55 < d.toNat)) ||
      base == 0 && !isDigit d)

/-- The qualifier, 255 without one. -/
def getQualifier : List UInt8 → UInt8 × List UInt8
  | []     => (255, [])
  | c :: r =>
    if c = 104 ∨ tolower c = 108 ∨ tolower c = 122 then
      match r with
      | d :: r' => if d = c then if c = 104 then (72, r') else if c = 108 then (76, r') else (c, r) else (c, r)
      | []      => (c, [])
    else (255, c :: r)

section Scan

-- `strtod` is not in the sources: the bits of the number and the text behind it
variable (strtod : List UInt8 → UInt64 × List UInt8)

/-- The number of a conversion by its qualifier, and the text behind it. -/
def convert (qualifier : UInt8) (base : Nat) (sign float : Bool) (str : List UInt8) : Stored × List UInt8 :=
  let l := simpleStrtol str base
  let ul := simpleStrtoul str base
  if qualifier = 72 then if sign then (.int 1 (l.1 % 256), l.2) else (.int 1 (ul.1 % 256), ul.2)
  else if qualifier = 104 then if sign then (.int 2 (l.1 % 65536), l.2) else (.int 2 (ul.1 % 65536), ul.2)
  else if qualifier = 76 then
    if sign then (.int 8 (simpleStrtoll str base).1, (simpleStrtoll str base).2)
    else (.int 8 (simpleStrtoull str base).1, (simpleStrtoull str base).2)
  else if qualifier = 90 ∨ qualifier = 122 then (.int 4 ul.1, ul.2)
  else if sign then (.int 4 l.1, l.2)
  else if float then (.float (strtod str).1, (strtod str).2)
  else (.int 4 ul.1, ul.2)

/-- Behind the loop: a `%n` that the text has ended in front of. -/
def finish (total : Nat) (str fmt : List UInt8) : Nat × List Stored :=
  match fmt with
  | 37 :: 110 :: _ => (0, [.count (total - str.length)])
  | _              => (0, [])

/-- White space in the format: both strings behind it. -/
def matchSpaces (str fmt : List UInt8) : Option (List UInt8 × List UInt8) :=
  match fmt with
  | c :: r =>
    if isspace c then
      if r = [] then some (str, []) else (skipSpaces r).bind fun fmt => (skipSpaces str).map fun str => (str, fmt)
    else some (str, fmt)
  | []     => some (str, [])

/-- The width of a conversion, -1 without one. -/
def fieldWidth (fmt : List UInt8) : Int × List UInt8 :=
  if (fmt.head?.map isDigit).getD false then (int32 (skipAtoi 0 fmt).1, (skipAtoi 0 fmt).2) else (-1, fmt)

theorem length_skipSpaces_le {r r' : List UInt8} (h : skipSpaces r = some r') : r'.length ≤ r.length := by
  induction r with
  | nil => cases h
  | cons c r ih =>
    unfold skipSpaces at h
    split at h
    · exact Nat.le_succ_of_le (ih h)
    · cases h
      exact Nat.le_refl _

theorem length_matchSpaces_le {str fmt str' fmt' : List UInt8} (h : matchSpaces str fmt = some (str', fmt')) :
    fmt'.length ≤ fmt.length := by
  unfold matchSpaces at h
  split at h
  · split at h
    · split at h
      · cases h
        exact Nat.zero_le _
      · obtain ⟨r', hr', h⟩ := Option.bind_eq_some_iff.1 h
        obtain ⟨s', -, heq⟩ := Option.map_eq_some_iff.1 h
        cases heq
        exact Nat.le_succ_of_le (length_skipSpaces_le hr')
    · cases h
      exact Nat.le_refl _
  · cases h
    exact Nat.le_refl _

theorem length_fieldWidth_le (fmt : List UInt8) : (fieldWidth fmt).2.length ≤ fmt.length := by
  unfold fieldWidth
  split
  · exact length_skipAtoi_le fmt 0
  · exact Nat.le_refl _

theorem length_getQualifier_le (r : List UInt8) : (getQualifier r).2.length ≤ r.length := by
  unfold getQualifier
  repeat' split
  all_goals simp only [List.length_cons, List.length_nil]; omega

/-- What stands between a `%` and the letter of its conversion, and the format from the letter on. -/
structure Spec where
  width     : Int
  qualifier : UInt8
  rest      : List UInt8

def specOf (fmt : List UInt8) : Spec :=
  let (width, fmt) := fieldWidth fmt
  let (qualifier, fmt) := getQualifier fmt
  ⟨width, qualifier, fmt⟩

theorem length_specOf_le (fmt : List UInt8) : (specOf fmt).rest.length ≤ fmt.length :=
  Nat.le_trans (length_getQualifier_le (fieldWidth fmt).2) (length_fieldWidth_le fmt)

/-- What one round of the loop comes to: a read behind the end of a string, a `break` with what is left of the strings,
a `return num`, or the next round, with what has been stored. -/
inductive Round where
  | overrun
  | stop (str fmt : List UInt8)
  | quit
  | next (stored : Option Stored) (str fmt : List UInt8)

/-- A conversion from its letter on. -/
def conversion (total : Nat) (s : Spec) (str : List UInt8) : Round :=
  match s.rest with
  | []         => .stop str []
  | 99 :: fmt  =>
    .next (some (.chars s.width (str.take (charRoom s.width)))) (str.drop (charRoom s.width)) fmt
  | 115 :: fmt =>
    match skipSpaces str with
    | none     => .overrun
    | some str =>
      let word := (str.takeWhile (fun c => !isspace c)).take (strRoom s.width)
      .next (some (.str s.width word)) (str.drop word.length) fmt
  | 110 :: fmt => .next (some (.count (total - str.length))) str fmt
  | 37 :: fmt  => if str.head? = some 37 then .next none str.tail fmt else .quit
  | c :: fmt   =>
    match numeric c with
    | none                     => .quit
    | some (base, sign, float) =>
      match skipSpaces str with
      | none     => .overrun
      | some str =>
        if startsNumber base (sign || float) str then
          let o := convert strtod s.qualifier base sign float str
          .next (some o.1) o.2 fmt
        else .stop str fmt

/-- One round, with something left of both strings. -/
def round (total : Nat) (str fmt : List UInt8) : Round :=
  match matchSpaces str fmt with
  | none                   => .overrun
  | some (str, [])         => .stop str []
  | some (str, 37 :: conv) =>
    if conv.head? = some 42 then
      .next none (str.dropWhile (fun c => !isspace c)) (conv.dropWhile (fun c => !isspace c && c != 37))
    else
      let s := specOf conv
      if s.rest = [] ∨ str = [] then .stop str s.rest else conversion strtod total s str
  | some (str, c :: fmt)   => if str.head? = some c then .next none str.tail fmt else .stop str.tail fmt

theorem length_conversion {total : Nat} {s : Spec} {str str' fmt' : List UInt8} {o : Option Stored}
    (h : conversion strtod total s str = .next o str' fmt') : fmt'.length < s.rest.length := by
  unfold conversion at h
  split at h
  case h_1 => cases h
  case h_2 hr | h_4 hr =>
    cases h
    rw [hr]
    exact Nat.lt_succ_self _
  case h_3 hr =>
    split at h <;> cases h
    rw [hr]
    exact Nat.lt_succ_self _
  case h_5 hr =>
    split at h <;> cases h
    rw [hr]
    exact Nat.lt_succ_self _
  case h_6 hr =>
    rw [hr]
    split at h
    · cases h
    · split at h
      · cases h
      · split at h <;> cases h
        exact Nat.lt_succ_self _

/-- **Every round uses up some of the format.** -/
theorem length_round {total : Nat} {str fmt str' fmt' : List UInt8} {o : Option Stored}
    (h : round strtod total str fmt = .next o str' fmt') : fmt'.length < fmt.length := by
  unfold round at h
  split at h
  · cases h
  · cases h
  · rename_i conv hm
    have hl := length_matchSpaces_le hm
    rw [List.length_cons] at hl
    split at h
    · cases h
      have hd : (conv.dropWhile (fun c => !isspace c && c != 37)).length ≤ conv.length :=
        (List.dropWhile_sublist _).length_le
      omega
    · dsimp only at h
      split at h
      · cases h
      · have hc := length_conversion strtod h
        have hs := length_specOf_le conv
        omega
  · rename_i hm
    have hl := length_matchSpaces_le hm
    rw [List.length_cons] at hl
    split at h <;> cases h
    omega

/-- What `num` counts: everything that is stored but the numbers of `%n`. -/
def Stored.counts : Stored → Bool
  | .count _ => false
  | _        => true

/-- What a round adds to `num`. -/
def counted : Option Stored → Nat
  | none   => 0
  | some s => if s.counts then 1 else 0

/-- The loop of `vsscanf`: how many conversions it makes from here on, and what they store.  `none` is a read behind the
end of a string. -/
def loop (total : Nat) (str fmt : List UInt8) : Option (Nat × List Stored) :=
  if fmt = [] ∨ str = [] then some (finish total str fmt)
  else
    match _h : round strtod total str fmt with
    | .overrun      => none
    | .stop str fmt => some (finish total str fmt)
    | .quit         => some (0, [])
    | .next o str fmt => (loop total str fmt).map fun r => (counted o + r.1, o.toList ++ r.2)
termination_by fmt.length
decreasing_by exact length_round strtod _h

/-- `vsscanf`: the result and what it stores, in the order of its arguments. -/
def vsscanf (buf fmt : List UInt8) : Option (Nat × List Stored) := loop strtod buf.length buf fmt

end Scan

end Vsscanf
end OtaLoader
