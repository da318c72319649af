import OtaLoader.Stdarg
/-!
# Vsprintf — formatted text without a bound (`Vsprintf.c`)

`vsprintf` takes each conversion apart at once, flags, width, precision and qualifier, and `number_to_string` lays a number
out.  It stops with -1 at the first letter that it does not know, with what it has stored until then.
-/
namespace OtaLoader
namespace Vsprintf

open Vsnprintf (Arg skipAtoi length_skipAtoi_le signExtend)
open Stdarg (int32)

/-! ## Numbers -/

structure Flags where
  left    : Bool := false
  plus    : Bool := false
  space   : Bool := false
  special : Bool := false
  zero    : Bool := false
  sign    : Bool := false
  small   : Bool := false
deriving DecidableEq

/-- `while (wide-- > 0) *((*s)++) = c`: what is left in `wide`, and what is put out. -/
def fill (c : UInt8) (wide : Int) : Int × List UInt8 := (if 0 < wide then -1 else wide - 1, List.replicate wide.toNat c)

/-- `while (len < wide--) *str++ = ' '`. -/
def fillFrom (len : Nat) (wide : Int) : Int × List UInt8 :=
  (if len < wide then (len : Int) - 1 else wide - 1, List.replicate (wide - len).toNat 32)

/-- `tmp`, without the 0 of the number 0: the last digit first. -/
def figures (small : Bool) (base num : Nat) : List UInt8 :=
  if _h : num = 0 ∨ base ≤ 1 then [] else digitByte (!small) (num % base) :: figures small base (num / base)
termination_by num
decreasing_by exact Nat.div_lt_self (by omega) (by omega)

/-- `number_to_string`, of the bits of `num`.  `none` is the lowest number with its sign: it stays below 0, and the
digits are then read in front of their table. -/
def numberToString (num : UInt32) (base : Nat) (flags : Flags) (wide precision : Int) : Option (List UInt8) :=
  if base < 2 ∨ base > 16 then some []
  else
    let negative := flags.sign && decide (2 ^ 31 ≤ num.toNat)
    let abs := if negative then 2 ^ 32 - num.toNat else num.toNat
    let sign : List UInt8 := if negative then [45] else if flags.plus then [43] else if flags.space then [32] else []
    let wide := if sign ≠ [] then wide - 1 else wide
    let wide := if flags.special = true ∧ base = 16 ∧ abs ≠ 0 then wide - 2 else wide
    let (wide, precision) := if flags.special = true ∧ base = 8 then (wide - 1, precision - 1) else (wide, precision)
    if flags.sign = true ∧ abs = 2 ^ 31 then none
    else
      let tmp := if abs = 0 then [48] else figures flags.small base abs
      let precision := if (tmp.length : Int) > precision then (tmp.length : Int) else precision
      let wide := wide - precision
      let (wide, spaces) := if flags.left || flags.zero then (wide, []) else fill 32 wide
      let pfx : List UInt8 :=
        if flags.special = true ∧ num ≠ 0 then
          if base = 8 then [48] else if base = 16 then [48, if flags.small then 120 else 88] else []
        else []
      let (wide, zeros) := if flags.left then (wide, []) else fill 48 wide
      let figs := List.replicate (precision - tmp.length).toNat 48 ++ tmp.reverse
      some (spaces ++ sign ++ pfx ++ zeros ++ figs ++ (fill 32 wide).2)

/-! ## The format -/

def getFlags : List UInt8 → Flags → Flags × List UInt8
  | 45 :: r, f => getFlags r { f with left := true }
  | 43 :: r, f => getFlags r { f with plus := true }
  | 32 :: r, f => getFlags r { f with space := true }
  | 35 :: r, f => getFlags r { f with special := true }
  | 48 :: r, f => getFlags r { f with zero := true }
  | r, f       => (f, r)

/-- The digits of a width or of a precision, or `*` for an argument; `other` without either. -/
def getNumber (other : Int) (r : List UInt8) (args : List Arg) : Option (Int × List UInt8 × List Arg) :=
  match r with
  | 42 :: r => match args with
    | .int v :: args => some (int32 v.toNat, r, args)
    | _              => none
  | r       =>
    if (r.head?.map isDigit).getD false then some (int32 (skipAtoi 0 r).1, (skipAtoi 0 r).2, args)
    else some (other, r, args)

def getPrecision (r : List UInt8) (args : List Arg) : Option (Int × List UInt8 × List Arg) :=
  match r with
  | 46 :: r => getNumber 0 r args
  | r       => some (-1, r, args)

/-- The qualifier, 255 without one. -/
def getQualifier : List UInt8 → UInt8 × List UInt8
  | 104 :: r => (104, r)
  | 108 :: r => (108, r)
  | r        => (255, r)

/-- What stands between a `%` and the letter of its conversion. -/
structure Conv where
  flags     : Flags
  wide      : Int
  precision : Int
  qualifier : UInt8

def getConv (r : List UInt8) (args : List Arg) : Option (Conv × List UInt8 × List Arg) :=
  let (flags, r) := getFlags r {}
  (getNumber (-1) r args).bind fun w =>
    (getPrecision w.2.1 w.2.2).map fun p =>
      (⟨flags, w.1, p.1, (getQualifier p.2.1).1⟩, (getQualifier p.2.1).2, p.2.2)

/-! ## The conversions -/

/-- The argument of a number, as the qualifier `h` cuts it. -/
def cut (qualifier : UInt8) (sign : Bool) (v : UInt32) : UInt32 :=
  if qualifier = 104 then if sign then UInt32.ofNat (signExtend 16 v.toNat) else UInt32.ofNat (v.toNat % 65536) else v

def signedText (c : Conv) (v : UInt32) : Option (List UInt8) :=
  let flags := { c.flags with sign := true, zero := c.flags.zero && c.precision = -1 }
  numberToString (cut c.qualifier true v) 10 flags c.wide c.precision

/-- From the label `num_to_str_without_sign` on. -/
def unsignedText (c : Conv) (base : Nat) (small : Bool) (v : UInt32) : Option (List UInt8) :=
  let flags := { c.flags with plus := false, space := false, zero := c.flags.zero && c.precision = -1, small := small }
  numberToString (cut c.qualifier false v) base flags c.wide c.precision

def stringText (c : Conv) (s : List UInt8) : List UInt8 :=
  let s := if c.precision ≥ 0 ∧ s.length > c.precision then s.take c.precision.toNat else s
  let (wide, lead) := if c.flags.left then (c.wide, []) else fillFrom s.length c.wide
  lead ++ s ++ (fillFrom s.length wide).2

def charText (c : Conv) (v : UInt8) : List UInt8 :=
  let (wide, lead) := if c.flags.left then (c.wide, []) else fillFrom 1 c.wide
  lead ++ [v] ++ (fillFrom 1 wide).2

/-- The letters of the conversions. -/
def letters : List UInt8 := [105, 100, 117, 111, 120, 88, 115, 99]

def convert (letter : UInt8) (c : Conv) (a : Arg) : Option (List UInt8) :=
  match letter, a with
  | 105, .int v => signedText c v
  | 100, .int v => signedText c v
  | 117, .int v => unsignedText c 10 false v
  | 111, .int v => unsignedText c 8 false v
  | 120, .int v => unsignedText c 16 true v
  | 88, .int v  => unsignedText c 16 false v
  | 115, .str s => some (stringText c s)
  | 99, .int v  => some (charText c (UInt8.ofNat v.toNat))
  | _, _        => none

/-! ## vsprintf -/

theorem length_getFlags_le (r : List UInt8) (f : Flags) : (getFlags r f).2.length ≤ r.length := by
  induction r, f using getFlags.induct with
  | case1 r f ih | case2 r f ih | case3 r f ih | case4 r f ih | case5 r f ih =>
    unfold getFlags
    exact Nat.le_succ_of_le ih
  | case6 r f => simp [getFlags]

theorem length_getNumber_le {other n : Int} {r r' : List UInt8} {args args' : List Arg}
    (h : getNumber other r args = some (n, r', args')) : r'.length ≤ r.length := by
  unfold getNumber at h
  split at h
  · split at h
    · rw [← (Prod.mk.inj (Prod.mk.inj (Option.some.inj h)).2).1]
      exact Nat.le_succ _
    · cases h
  · split at h
    · rw [← (Prod.mk.inj (Prod.mk.inj (Option.some.inj h)).2).1]
      exact length_skipAtoi_le _ 0
    · exact Nat.le_of_eq (congrArg List.length (Prod.mk.inj (Prod.mk.inj (Option.some.inj h)).2).1.symm)

theorem length_getPrecision_le {n : Int} {r r' : List UInt8} {args args' : List Arg}
    (h : getPrecision r args = some (n, r', args')) : r'.length ≤ r.length := by
  unfold getPrecision at h
  split at h
  · exact Nat.le_succ_of_le (length_getNumber_le h)
  · cases h
    exact Nat.le_refl _

theorem length_getConv_le {c : Conv} {r r' : List UInt8} {args args' : List Arg}
    (h : getConv r args = some (c, r', args')) : r'.length ≤ r.length := by
  have hq : ∀ r : List UInt8, (getQualifier r).2.length ≤ r.length := by
    intro r
    unfold getQualifier
    split <;> simp
  obtain ⟨⟨w, r₁, args₁⟩, hw, h⟩ := Option.bind_eq_some_iff.1 h
  obtain ⟨⟨p, r₂, args₂⟩, hp, heq⟩ := Option.map_eq_some_iff.1 h
  cases heq
  exact Nat.le_trans (hq r₂) (Nat.le_trans (length_getPrecision_le hp)
    (Nat.le_trans (length_getNumber_le hw) (length_getFlags_le r {})))

/-- What `vsprintf` stores, and whether it reached the end of its format; `none` as for `print`. -/
def text (format : List UInt8) (args : List Arg) : Option (List UInt8 × Bool) :=
  match format with
  | []            => some ([], true)
  | 37 :: 37 :: r => (text r args).map fun t => (37 :: t.1, t.2)
  | 37 :: r       =>
    match _h : getConv r args with
    | none                             => none
    | some (_, [], _)                  => some ([], false)
    | some (conv, letter :: rest, args') =>
      if letter ∈ letters then
        match args' with
        | []         => none
        | a :: args' => match convert letter conv a with
          | none   => none
          | some s => (text rest args').map fun t => (s ++ t.1, t.2)
      else some ([], false)
  | c :: r        => (text r args).map fun t => (c :: t.1, t.2)
termination_by format.length
decreasing_by
  · simp only [List.length_cons]
    omega
  · have := length_getConv_le _h
    simp only [List.length_cons] at this ⊢
    omega
  · exact Nat.lt_succ_self _

/-- `vsprintf`: the result and the memory. -/
def vsprintf (m : Mem) (str : Nat) (format : List UInt8) (args : List Arg) : Option (Int × Mem) :=
  (text format args).map fun t => if t.2 then ((t.1.length : Int), m.write str (t.1 ++ [0])) else (-1, m.write str t.1)

end Vsprintf
end OtaLoader
