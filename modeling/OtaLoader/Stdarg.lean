import OtaLoader.Vsnprintf
/-!
# Stdarg — `printf`, `sprintf` and the hexadecimal dumps (`printf-stdarg.c`)

`print` walks its format once and passes every character to `printchar`, which stores it for `sprintf` and sends it to
the serial port for `printf`.  It knows fewer conversions than `vsnprintf`, pads with what its flags say on either side,
and skips a letter that it does not know.
-/
namespace OtaLoader
namespace Stdarg

open Vsnprintf (Arg skipAtoi length_skipAtoi_le)

/-- What an `int` keeps of a number. -/
def int32 (x : Int) : Int := (x + 2147483648) % 4294967296 - 2147483648

/-! ## Strings and numbers -/

/-- `PAD_RIGHT` and `PAD_ZERO`. -/
structure Pad where
  right : Bool := false
  zero  : Bool := false
deriving DecidableEq

def prints (string : List UInt8) (width : Int) (pad : Pad) : List UInt8 :=
  let (padchar, width) : UInt8 × Int :=
    if 0 < width then (if pad.zero then 48 else 32, if string.length ≥ width then 0 else width - string.length)
    else (32, width)
  let fill := List.replicate width.toNat padchar
  if pad.right then string ++ fill else fill ++ string

/-- The digits of `u`, put in front of `s`; `b` is 10 or 16. -/
def putDigits (b letbase u : Nat) (s : List UInt8) : List UInt8 :=
  if _h : u = 0 ∨ b ≤ 1 then s
  else
    let t := u % b
    let t := if t ≥ 10 then t + (letbase - 48 - 10) else t
    putDigits b letbase (u / b) (UInt8.ofNat (t + 48) :: s)
termination_by u
decreasing_by exact Nat.div_lt_self (by omega) (by omega)

def printi (i : UInt32) (b : Nat) (sg : Bool) (width : Int) (pad : Pad) (letbase : Nat) : List UInt8 :=
  if i = 0 then prints [48] width pad
  else
    let neg := sg && b = 10 && decide (2 ^ 31 ≤ i.toNat)
    let s := putDigits b letbase (if neg then 2 ^ 32 - i.toNat else i.toNat) []
    if neg then
      if width ≠ 0 ∧ pad.zero = true then 45 :: prints s (width - 1) pad else prints (45 :: s) width pad
    else prints s width pad

/-! ## The format -/

def padRight : List UInt8 → Bool × List UInt8
  | 45 :: r => (true, r)
  | r       => (false, r)

def padZero (zero : Bool) : List UInt8 → Bool × List UInt8
  | 48 :: r => padZero true r
  | r       => (zero, r)

def fieldWidth (r : List UInt8) : Int × List UInt8 :=
  if (r.head?.map isDigit).getD false then (int32 (skipAtoi 0 r).1, (skipAtoi 0 r).2) else (-1, r)

/-- The precision, which only the conversions of a float use; `*` takes it from the arguments. -/
def skipPrecision (r : List UInt8) (args : List Arg) : Option (List UInt8 × List Arg) :=
  match r with
  | 46 :: 42 :: r => match args with
    | .int _ :: args => some (r, args)
    | _              => none
  | 46 :: r       => some ((skipAtoi 0 r).2, args)
  | r             => some (r, args)

/-- `scr`: a string of one character, and of none for 0. -/
def scr (c : UInt8) : List UInt8 := if c = 0 then [] else [c]

/-- The letters of the conversions. -/
def letters : List UInt8 := [115, 100, 112, 120, 88, 117, 99]

/-- A conversion by its letter; none for an argument of another kind. -/
def convert (letter : UInt8) (width : Int) (pad : Pad) (a : Arg) : Option (List UInt8) :=
  match letter, a with
  | 115, .str s => some (prints s width pad)
  | 115, .ptr p => if p = 0 then some (prints (ascii "(null)") width pad) else none
  | 100, .int v => some (printi v 10 true width pad 97)
  | 112, .ptr p => some (printi p 10 true width pad 97)
  | 120, .int v => some (printi v 16 false width pad 97)
  | 88, .int v  => some (printi v 16 false width pad 65)
  | 117, .int v => some (printi v 10 false width pad 97)
  | 99, .int v  => some (prints (scr (UInt8.ofNat v.toNat)) width pad)
  | _, _        => none

/-- What stands behind the `%`: the padding, the width, and the letter with the format behind it. -/
def decode (r : List UInt8) (args : List Arg) : Option (Pad × Int × List UInt8 × List Arg) :=
  let (right, r) := padRight r
  let (zero, r) := padZero false r
  let (width, r) := fieldWidth r
  (skipPrecision r args).map fun p => (⟨right, zero⟩, width, p)

theorem length_padZero_le (zero : Bool) (r : List UInt8) : (padZero zero r).2.length ≤ r.length := by
  induction zero, r using padZero.induct with
  | case1 zero r ih =>
    unfold padZero
    exact Nat.le_succ_of_le ih
  | case2 zero r => simp [padZero]

theorem length_skipPrecision_le {r r' : List UInt8} {args args' : List Arg}
    (h : skipPrecision r args = some (r', args')) : r'.length ≤ r.length := by
  unfold skipPrecision at h
  split at h
  · split at h <;> cases h
    simp only [List.length_cons]
    omega
  · cases h
    exact Nat.le_succ_of_le (length_skipAtoi_le _ 0)
  · cases h
    exact Nat.le_refl _

theorem length_decode_le {r r' : List UInt8} {args args' : List Arg} {pad : Pad} {width : Int}
    (h : decode r args = some (pad, width, r', args')) : r'.length ≤ r.length := by
  have hright : (padRight r).2.length ≤ r.length := by
    unfold padRight
    split
    · exact Nat.le_succ _
    · exact Nat.le_refl _
  have hzero := length_padZero_le false (padRight r).2
  have hwidth : (fieldWidth (padZero false (padRight r).2).2).2.length ≤ (padZero false (padRight r).2).2.length := by
    unfold fieldWidth
    split
    · exact length_skipAtoi_le _ 0
    · exact Nat.le_refl _
  obtain ⟨⟨r'', args''⟩, hskip, heq⟩ := Option.map_eq_some_iff.1 h
  cases heq
  exact Nat.le_trans (length_skipPrecision_le hskip) (Nat.le_trans hwidth (Nat.le_trans hzero hright))

/-- `print`: the characters that go to `printchar`.  `none` is an argument of another kind than the conversion takes, or
a format that is read behind its end. -/
def print (format : List UInt8) (args : List Arg) : Option (List UInt8) :=
  match format with
  | []            => some []
  | 37 :: []      => some []
  | 37 :: 37 :: r => (print r args).map (37 :: ·)
  | 37 :: r       =>
    match _h : decode r args with
    | none                                     => none
    | some (_, _, [], _)                       => none
    | some (pad, width, letter :: rest, args') =>
      if letter ∈ letters then
        match args' with
        | []         => none
        | a :: args' => match convert letter width pad a with
          | none   => none
          | some t => (print rest args').map (t ++ ·)
      else print rest args'
  | c :: r        => (print r args).map (c :: ·)
termination_by format.length
decreasing_by
  · simp only [List.length_cons]
    omega
  · have := length_decode_le _h
    simp only [List.length_cons] at this ⊢
    omega
  · have := length_decode_le _h
    simp only [List.length_cons] at this ⊢
    omega
  · exact Nat.lt_succ_self _

/-- `sprintf`: the result and the memory. -/
def sprintf (m : Mem) (out : Nat) (format : List UInt8) (args : List Arg) : Option (Nat × Mem) :=
  (print format args).map fun t => (t.length, m.write out (t ++ [0]))

/-! ## The serial port -/

/-- `putchar`: the bytes that go to `putbyte`. -/
def putchar (a : UInt8) : List UInt8 := if a = 10 then [13, 10] else [a]

/-- `printf`: the result and the bytes sent. -/
def printf (format : List UInt8) (args : List Arg) : Option (Nat × List UInt8) :=
  (print format args).map fun t => (t.length, t.flatMap putchar)

def putU4hex (dat : Nat) : UInt8 :=
  let dat := dat &&& 0xf
  UInt8.ofNat (if dat > 9 then dat - 10 + 65 else dat + 48)

def putU32hex (dat : UInt32) : List UInt8 :=
  ([48, 120] : List UInt8) ++ [28, 24, 20, 16, 12, 8, 4, 0].map (fun s => putU4hex (dat.toNat >>> s)) ++ putchar 10

def putU8hex (dat : UInt8) : List UInt8 := [putU4hex (dat.toNat >>> 4), putU4hex dat.toNat] ++ putchar 32

/-- The bytes of the buffer, from the one with number `i` on: a new line in front of every sixteenth but the first. -/
def dumpFrom : Nat → List UInt8 → List UInt8
  | _, []      => [10]
  | i, b :: bs => (if i ≠ 0 ∧ i % 16 = 0 then [10] else []) ++ putU8hex b ++ dumpFrom (i + 1) bs

/-- `printf_buf` and `put_buf`, for the bytes at the address `buf`. -/
def printfBuf (buf : UInt32) (bytes : List UInt8) : List UInt8 := putU32hex buf ++ dumpFrom 0 bytes

end Stdarg
end OtaLoader
