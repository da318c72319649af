import OtaLoader.CString
import OtaLoader.Numeral
import OtaLoader.Sink
/-!
# Vsnprintf — formatted text in a bounded buffer (`Vsnprintf.c`)

`vsnprintf` decodes its format piece by piece and puts out every piece through the same test for room, so that its
result tells how long the text is while the buffer holds what fits.  Decimal digits are computed without a division by
ten, in pieces of five digits.
-/
namespace OtaLoader
namespace Vsnprintf

/-! ## Decimal digits -/

def zero : Nat := 48

/-- `put_dec_trunc`, for a number below 100000: its digits, the last one first. -/
def putDecTrunc (q : Nat) : List UInt8 :=
  let d1 := (q >>> 4) &&& 0xf
  let d2 := (q >>> 8) &&& 0xf
  let d3 := q >>> 12
  let d0 := 6 * (d3 + d2 + d1) + (q &&& 0xf)
  let q := (d0 * 0xcd) >>> 11
  let d0 := d0 - 10 * q
  let d1 := q + 9 * d3 + 5 * d2 + d1
  UInt8.ofNat (d0 + zero) :: if d1 ≠ 0 then
    let q := (d1 * 0xcd) >>> 11
    let d1 := d1 - 10 * q
    let d2 := q + 2 * d2
    UInt8.ofNat (d1 + zero) :: if d2 ≠ 0 ∨ d3 ≠ 0 then
      let q := (d2 * 0xd) >>> 7
      let d2 := d2 - 10 * q
      let d3 := q + 4 * d3
      UInt8.ofNat (d2 + zero) :: if d3 ≠ 0 then
        let q := (d3 * 0xcd) >>> 11
        let d3 := d3 - 10 * q
        UInt8.ofNat (d3 + zero) :: if q ≠ 0 then [UInt8.ofNat (q + zero)] else []
      else []
    else []
  else []

/-- `put_dec_full`: always five digits. -/
def putDecFull (q : Nat) : List UInt8 :=
  let d1 := (q >>> 4) &&& 0xf
  let d2 := (q >>> 8) &&& 0xf
  let d3 := q >>> 12
  let d0 := 6 * (d3 + d2 + d1) + (q &&& 0xf)
  let q := (d0 * 0xcd) >>> 11
  let d0 := d0 - 10 * q
  let d1 := q + 9 * d3 + 5 * d2 + d1
  let q := (d1 * 0xcd) >>> 11
  let d1 := d1 - 10 * q
  let d2 := q + 2 * d2
  let q := (d2 * 0xd) >>> 7
  let d2 := d2 - 10 * q
  let d3 := q + 4 * d3
  let q := (d3 * 0xcd) >>> 11
  let d3 := d3 - 10 * q
  [d0, d1, d2, d3, q].map (fun d => UInt8.ofNat (d + zero))

def putDec (num : Nat) : List UInt8 :=
  if num < 100000 then putDecTrunc num else putDecFull (num % 100000) ++ putDec (num / 100000)
termination_by num
decreasing_by omega

/-! ## Numbers -/

/-- `FORMAT_TYPE_*`. -/
inductive FormatType where
  | none | width | precision | char | str | ptr | percentChar | invalid | longLong | ulong | long | ubyte | byte
  | ushort | short | uint | int | nrchars | sizeT | ptrdiff | ulongLong
deriving DecidableEq

structure Flags where
  zeropad : Bool := false
  sign    : Bool := false
  plus    : Bool := false
  space   : Bool := false
  left    : Bool := false
  small   : Bool := false
  special : Bool := false
deriving DecidableEq

/-- `struct printf_spec`. -/
structure PrintfSpec where
  type       : FormatType := .none
  flags      : Flags := {}
  base       : Nat := 0
  qualifier  : UInt8 := 0
  fieldWidth : Int := 0
  precision  : Int := 0
deriving DecidableEq

/-- What a `short` keeps of a number. -/
def short (x : Int) : Int := (x + 32768) % 65536 - 32768

/-- `while (--w >= least) *buf++ = c`: what is left in `w`, and what is put out. -/
def padDown (least : Int) (c : UInt8) (w : Int) : Int × List UInt8 :=
  if least ≤ short (w - 1) then (least - 1, List.replicate (short (w - 1) - least + 1).toNat c) else (short (w - 1), [])

/-- `while (len < w--) *buf++ = ' '`. -/
def padTo (len : Nat) (w : Int) : Int × List UInt8 :=
  if len < w then (len - 1, List.replicate (w - len).toNat 32) else (short (w - 1), [])

/-- The digits in base 8 or 16, the last one first. -/
def maskDigits (locase : Bool) (shift num : Nat) : List UInt8 :=
  digitByte (!locase) (num % 256 &&& (2 ^ shift - 1)) ::
    if _h : 0 < shift ∧ num >>> shift ≠ 0 then maskDigits locase shift (num >>> shift) else []
termination_by num
decreasing_by
  rw [Nat.shiftRight_eq_div_pow] at _h ⊢
  exact Nat.div_lt_self (Nat.pos_of_ne_zero fun h0 => _h.2 (by rw [h0, Nat.zero_div]))
    (Nat.one_lt_two_pow (Nat.ne_of_gt _h.1))

/-- What `number` puts out, in this order. -/
structure Parts where
  lead   : List UInt8
  sign   : List UInt8
  pfx    : List UInt8
  fill   : List UInt8
  zeros  : List UInt8
  digits : List UInt8
  trail  : List UInt8

def Parts.text (p : Parts) : List UInt8 := p.lead ++ p.sign ++ p.pfx ++ p.fill ++ p.zeros ++ p.digits ++ p.trail

/-- The sign, the number without it and the width that is left. -/
def signOf (num : Nat) (spec : PrintfSpec) : List UInt8 × Nat × Int :=
  if spec.flags.sign then
    if 2 ^ 63 ≤ num then ([45], 2 ^ 64 - num, short (spec.fieldWidth - 1))
    else if spec.flags.plus then ([43], num, short (spec.fieldWidth - 1))
    else if spec.flags.space then ([32], num, short (spec.fieldWidth - 1))
    else ([], num, spec.fieldWidth)
  else ([], num, spec.fieldWidth)

/-- `tmp`: the digits, the last one first. -/
def digitsOf (num : Nat) (spec : PrintfSpec) : List UInt8 :=
  if num = 0 then [48]
  else if spec.base ≠ 10 then maskDigits spec.flags.small (if spec.base = 16 then 4 else 3) num
  else putDec num

def numberParts (num : Nat) (spec : PrintfSpec) : Parts :=
  let needPfx := spec.flags.special && spec.base ≠ 10
  let zeropad := spec.flags.zeropad && !spec.flags.left
  let (sign, num, fieldWidth) := signOf num spec
  let fieldWidth := if needPfx then short (fieldWidth - 1) else fieldWidth
  let fieldWidth := if needPfx && spec.base = 16 then short (fieldWidth - 1) else fieldWidth
  let tmp := digitsOf num spec
  let precision := if tmp.length > spec.precision then (tmp.length : Int) else spec.precision
  let fieldWidth := short (fieldWidth - precision)
  let (fieldWidth, lead) := if zeropad || spec.flags.left then (fieldWidth, []) else padDown 0 32 fieldWidth
  let pfx := if needPfx then 48 :: if spec.base = 16 then [if spec.flags.small then 120 else 88] else [] else []
  let (fieldWidth, fill) :=
    if spec.flags.left then (fieldWidth, []) else padDown 0 (if zeropad then 48 else 32) fieldWidth
  -- while (i <= --precision)
  let zeros := List.replicate (precision - tmp.length).toNat 48
  ⟨lead, sign, pfx, fill, zeros, tmp.reverse, (padDown 0 32 fieldWidth).2⟩

section Put

variable (stop : Nat)

def number (o : Sink) (num : Nat) (spec : PrintfSpec) : Sink :=
  let p := numberParts num spec
  let o := (((o.puts stop p.lead).puts stop p.sign).puts stop p.pfx).puts stop p.fill
  ((o.puts stop p.zeros).puts stop p.digits).puts stop p.trail

/-- `string`; `strnlen` looks at all of the string for a negative precision. -/
def string (o : Sink) (s : List UInt8) (spec : PrintfSpec) : Sink :=
  let s := if spec.precision < 0 then s else s.take spec.precision.toNat
  let (w, lead) := if spec.flags.left then (spec.fieldWidth, []) else padTo s.length spec.fieldWidth
  ((o.puts stop lead).puts stop s).puts stop (padTo s.length w).2

/-- `FORMAT_TYPE_CHAR`. -/
def char (o : Sink) (c : UInt8) (spec : PrintfSpec) : Sink :=
  let (w, lead) := if spec.flags.left then (spec.fieldWidth, []) else padDown 1 32 spec.fieldWidth
  ((o.puts stop lead).put stop c).puts stop (padDown 1 32 w).2

/-- The letters behind `%p` whose function is not supported: it returns NULL. -/
def unsupported (ext : List UInt8) : Bool :=
  match ext with
  | 70 :: _ | 102 :: _ | 83 :: _ | 115 :: _ | 82 :: _ | 114 :: _ | 77 :: _ | 109 :: _ | 85 :: _ => true
  | 73 :: 54 :: _ | 73 :: 52 :: _ | 105 :: 54 :: _ | 105 :: 52 :: _                            => true
  | _                                                                                          => false

/-- `pointer`, for the format behind the `p`. -/
def pointer (ext : List UInt8) (o : Sink) (p : UInt32) (spec : PrintfSpec) : Sink :=
  if p = 0 then string stop o (ascii "(null)") spec
  -- what follows is put out from NULL on; a result that is negative in the source is 0 here
  else if unsupported ext then { o with pos := 0 }
  else
    let spec := { spec with flags.small := true, base := 16 }
    let spec := if spec.fieldWidth = -1 then { spec with fieldWidth := 8, flags.zeropad := true } else spec
    number stop o p.toNat spec

end Put

/-! ## The format -/

def skipAtoi (i : Nat) : List UInt8 → Nat × List UInt8
  | []     => (i, [])
  | c :: r => if isDigit c then skipAtoi (i * 10 + (c.toNat - 48)) r else (i, c :: r)

/-- `TOLOWER`. -/
def tolower (c : UInt8) : UInt8 := c ||| 0x20

/-- The flags `-`, `+`, a space, `#` and `0`. -/
def decodeFlags : List UInt8 → Flags → Flags × List UInt8
  | 45 :: r, f => decodeFlags r { f with left := true }
  | 43 :: r, f => decodeFlags r { f with plus := true }
  | 32 :: r, f => decodeFlags r { f with space := true }
  | 35 :: r, f => decodeFlags r { f with special := true }
  | 48 :: r, f => decodeFlags r { f with zeropad := true }
  | r, f       => (f, r)

/-- The type of an integer, by its qualifier (`L`, `l`, `z`, `t`, `H`, `h`). -/
def integerType (q : UInt8) (sign : Bool) : FormatType :=
  if q = 76 then if sign then .longLong else .ulongLong
  else if q = 108 then if sign then .long else .ulong
  else if tolower q = 122 then .sizeT
  else if q = 116 then .ptrdiff
  else if q = 72 then if sign then .byte else .ubyte
  else if q = 104 then if sign then .short else .ushort
  else if sign then .int else .uint

def integer (spec : PrintfSpec) : PrintfSpec := { spec with type := integerType spec.qualifier spec.flags.sign }

/-- The qualifier, 255 without one. -/
def decodeQualifier : List UInt8 → UInt8 × List UInt8
  | []     => (255, [])
  | c :: r =>
    if c = 104 ∨ tolower c = 108 ∨ tolower c = 122 ∨ c = 116 then
      match r with
      | d :: r' => if d = c then if c = 108 then (76, r') else if c = 104 then (72, r') else (c, r) else (c, r)
      | []      => (c, [])
    else (255, c :: r)

/-- From the label `qualifier` on. -/
def decodeType (fmt : List UInt8) (spec : PrintfSpec) : PrintfSpec × List UInt8 :=
  let (q, fmt) := decodeQualifier fmt
  let spec := { spec with qualifier := q, base := 10 }
  match fmt with
  | 99 :: r  => ({ spec with type := .char }, r)
  | 115 :: r => ({ spec with type := .str }, r)
  | 112 :: r => ({ spec with type := .ptr }, 112 :: r)
  | 110 :: r => ({ spec with type := .nrchars }, r)
  | 37 :: r  => ({ spec with type := .percentChar }, r)
  | 111 :: r => (integer { spec with base := 8 }, r)
  | 120 :: r => (integer { spec with base := 16, flags.small := true }, r)
  | 88 :: r  => (integer { spec with base := 16 }, r)
  | 100 :: r => (integer { spec with flags.sign := true }, r)
  | 105 :: r => (integer { spec with flags.sign := true }, r)
  | 117 :: r => (integer spec, r)
  | r        => ({ spec with type := .invalid }, r)

/-- From the label `precision` on. -/
def decodePrecision (fmt : List UInt8) (spec : PrintfSpec) : PrintfSpec × List UInt8 :=
  match fmt with
  | 46 :: 42 :: r => ({ spec with precision := -1, type := .precision }, r)
  | 46 :: r       =>
    if (r.head?.map isDigit).getD false then
      let (n, r) := skipAtoi 0 r
      decodeType r { spec with precision := max (short n) 0 }
    else decodeType r { spec with precision := -1 }
  | r             => decodeType r { spec with precision := -1 }

/-- `format_decode`, with the rest of the format instead of the number of characters read. -/
def formatDecode (fmt : List UInt8) (spec : PrintfSpec) : PrintfSpec × List UInt8 :=
  if spec.type = .width then
    let spec := if spec.fieldWidth < 0 then
        { spec with fieldWidth := short (-spec.fieldWidth), flags.left := true }
      else spec
    decodePrecision fmt { spec with type := .none }
  else if spec.type = .precision then decodeType fmt { spec with precision := max spec.precision 0, type := .none }
  else
    let spec := { spec with type := .none }
    match fmt with
    | 37 :: r =>
      let (flags, r) := decodeFlags r {}
      let spec := { spec with flags := flags, fieldWidth := -1 }
      match r with
      | 42 :: r => ({ spec with type := .width }, r)
      | c :: r  =>
        if isDigit c then
          let (n, r) := skipAtoi 0 (c :: r)
          decodePrecision r { spec with fieldWidth := short n }
        else decodePrecision (c :: r) spec
      | []      => decodePrecision [] spec
    | r       => (spec, r.dropWhile (· ≠ 37))

/-! ## vsnprintf -/

/-- An argument: an `int` or another word of 32 bits, a `long long`, a string, or a pointer. -/
inductive Arg where
  | int (v : UInt32)
  | longLong (v : UInt64)
  | str (s : List UInt8)
  | ptr (p : UInt32)
deriving DecidableEq

/-- The low bits of a number as a signed one, as an `unsigned long long`. -/
def signExtend (bits v : Nat) : Nat :=
  let x := v % 2 ^ bits
  if x < 2 ^ (bits - 1) then x else x + (2 ^ 64 - 2 ^ bits)

/-- The number that an integer conversion takes from its argument. -/
def numOf : FormatType → Arg → Option Nat
  | .longLong, .longLong v  => some v.toNat
  | .ulongLong, .longLong v => some v.toNat
  | .longLong, _            => none
  | .ulongLong, _           => none
  | .long, .int v           => some (signExtend 32 v.toNat)
  | .ptrdiff, .int v        => some (signExtend 32 v.toNat)
  | .int, .int v            => some (signExtend 32 v.toNat)
  | .ubyte, .int v          => some (v.toNat % 256)
  | .byte, .int v           => some (signExtend 8 v.toNat)
  | .ushort, .int v         => some (v.toNat % 65536)
  | .short, .int v          => some (signExtend 16 v.toNat)
  | _, .int v               => some v.toNat
  | _, _                    => none

def isAlnum (c : UInt8) : Bool := isDigit c || decide (97 ≤ c.toNat ∧ c.toNat ≤ 122) || decide (65 ≤ c.toNat ∧ c.toNat ≤ 90)

/-- A conversion of one argument, in front of the rest of the format: the specification and the output after it.
`none` is an argument of another kind than the conversion takes. -/
def putArg (stop start : Nat) (fmt : List UInt8) (spec : PrintfSpec) (a : Arg) (o : Sink) : Option (PrintfSpec × Sink) :=
  match spec.type with
  | .width     => match a with
    | .int v => some ({ spec with fieldWidth := short v.toNat }, o)
    | _      => none
  | .precision => match a with
    | .int v => some ({ spec with precision := short v.toNat }, o)
    | _      => none
  | .char      => match a with
    | .int v => some (spec, char stop o (UInt8.ofNat v.toNat) spec)
    | _      => none
  | .str       => match a with
    | .str s => some (spec, string stop o s spec)
    | _      => none
  | .ptr       => match a with
    | .ptr p => some (spec, pointer stop (fmt.drop 1) o p spec)
    | _      => none
  | .nrchars   => match a with
    | .ptr p => some (spec, { o with mem := o.mem.set32 p.toNat (o.pos - start) })
    | _      => none
  | t          => (numOf t a).map fun num => (spec, number stop o num spec)

/-! ## The loop -/

/-- A conversion that has stopped for its width or its precision. -/
def waiting (t : FormatType) : Nat := if t = .width ∨ t = .precision then 1 else 0

theorem length_skipAtoi_le : ∀ (r : List UInt8) (i : Nat), (skipAtoi i r).2.length ≤ r.length
  | [], _     => Nat.le_refl 0
  | c :: r, i => by
    unfold skipAtoi
    split
    · exact Nat.le_succ_of_le (length_skipAtoi_le r _)
    · exact Nat.le_refl _

theorem length_decodeFlags_le (r : List UInt8) (f : Flags) : (decodeFlags r f).2.length ≤ r.length := by
  induction r, f using decodeFlags.induct with
  | case1 r f ih | case2 r f ih | case3 r f ih | case4 r f ih | case5 r f ih =>
    unfold decodeFlags
    exact Nat.le_succ_of_le ih
  | case6 r f => simp [decodeFlags]

theorem length_decodeQualifier_le (r : List UInt8) : (decodeQualifier r).2.length ≤ r.length := by
  unfold decodeQualifier
  repeat' split
  all_goals simp only [List.length_cons, List.length_nil]; omega

theorem decodeType_spec (r : List UInt8) (spec : PrintfSpec) :
    (decodeType r spec).2.length ≤ r.length ∧ waiting (decodeType r spec).1.type = 0 := by
  have hq := length_decodeQualifier_le r
  have hint : ∀ s : PrintfSpec, waiting (integer s).type = 0 := by
    intro s
    unfold integer integerType
    repeat' split
    all_goals rfl
  unfold decodeType
  generalize decodeQualifier r = p at hq ⊢
  dsimp only
  split
  all_goals
    rename_i hr
    simp only [hr, List.length_cons] at hq ⊢
    exact ⟨by omega, by first | rfl | exact hint _⟩

theorem decodePrecision_spec (r : List UInt8) (spec : PrintfSpec) :
    2 * (decodePrecision r spec).2.length + waiting (decodePrecision r spec).1.type ≤ 2 * r.length := by
  have htype : ∀ (r : List UInt8) (s : PrintfSpec),
      2 * (decodeType r s).2.length + waiting (decodeType r s).1.type ≤ 2 * r.length := by
    intro r s
    have h := decodeType_spec r s
    omega
  unfold decodePrecision
  split
  · simp only [List.length_cons, waiting]
    split <;> omega
  · rename_i r _
    rw [List.length_cons]
    split
    · have hs := length_skipAtoi_le r 0
      have ht := htype (skipAtoi 0 r).2 { spec with precision := max (short (skipAtoi 0 r).1) 0 }
      dsimp only
      omega
    · have ht := htype r { spec with precision := -1 }
      omega
  · exact htype r _

/-- **Every round of the loop gets on.** -/
theorem formatDecode_shorter {fmt : List UInt8} (hne : fmt ≠ []) (spec : PrintfSpec) :
    2 * (formatDecode fmt spec).2.length + waiting (formatDecode fmt spec).1.type <
      2 * fmt.length + waiting spec.type := by
  unfold formatDecode
  split
  · rename_i hw
    have hone : waiting spec.type = 1 := if_pos (.inl hw)
    have h := decodePrecision_spec fmt
    rw [hone]
    exact Nat.lt_succ_of_le (h _)
  · split
    · rename_i hw
      have hone : waiting spec.type = 1 := if_pos (.inr hw)
      have h := decodeType_spec fmt { spec with precision := max spec.precision 0, type := .none }
      rw [hone]
      omega
    · dsimp only
      split
      · rename_i r
        have hf := length_decodeFlags_le r {}
        generalize decodeFlags r {} = p at hf ⊢
        rw [List.length_cons]
        split
        · rename_i hr
          rw [hr, List.length_cons] at hf
          simp only [waiting]
          split <;> omega
        · rename_i hr
          rw [hr] at hf
          split
          · have hs := length_skipAtoi_le p.2 0
            rw [hr] at hs
            have h := decodePrecision_spec (skipAtoi 0 p.2).2
            rw [hr] at h
            refine Nat.lt_of_le_of_lt (h _) ?_
            omega
          · exact Nat.lt_of_le_of_lt (decodePrecision_spec _ _) (by omega)
        · exact Nat.lt_of_le_of_lt (decodePrecision_spec _ _) (by rw [List.length_nil]; omega)
      · rename_i hr
        have hlen : (fmt.dropWhile (· ≠ 37)).length < fmt.length := by
          cases fmt with
          | nil       => exact absurd rfl hne
          | cons c r =>
            have hc : c ≠ 37 := fun h => hr r (h ▸ rfl)
            rw [List.dropWhile_cons_of_pos (by simpa using hc), List.length_cons]
            exact Nat.lt_succ_of_le (List.dropWhile_sublist _).length_le
        have h0 : waiting FormatType.none = 0 := rfl
        dsimp only
        rw [h0]
        omega

theorem putArg_type {stop start : Nat} {fmt : List UInt8} {spec spec' : PrintfSpec} {a : Arg} {o o' : Sink}
    (h : putArg stop start fmt spec a o = some (spec', o')) : spec'.type = spec.type := by
  unfold putArg at h
  repeat' split at h
  all_goals first | cases h; done | cases h; rfl | skip
  obtain ⟨_, _, heq⟩ := Option.map_eq_some_iff.1 h
  cases heq
  rfl

/-- The loop of `vsnprintf`, into a buffer from `start` to `stop`. -/
def loop (stop start : Nat) (fmt : List UInt8) (spec : PrintfSpec) (args : List Arg) (o : Sink) : Option Sink :=
  if _hne : fmt = [] then some o
  else
    let d := formatDecode fmt spec
    match d.1.type with
    | .none                   => loop stop start d.2 d.1 args (o.puts stop (fmt.take (fmt.length - d.2.length)))
    | .percentChar | .invalid => loop stop start d.2 d.1 args (o.put stop 37)
    | _                       =>
      match args with
      | []        => none
      | a :: args =>
        match _h : putArg stop start d.2 d.1 a o with
        | none             => none
        | some (spec', o') => loop stop start (if d.1.type = .ptr then d.2.dropWhile isAlnum else d.2) spec' args o'
termination_by 2 * fmt.length + waiting spec.type
decreasing_by
  · exact formatDecode_shorter _hne spec
  · exact formatDecode_shorter _hne spec
  · have hd := formatDecode_shorter _hne spec
    have hle : ∀ l : List UInt8, (l.dropWhile isAlnum).length ≤ l.length := fun l => (List.dropWhile_sublist _).length_le
    have hl := hle (formatDecode fmt spec).2
    have hw : waiting spec'.type = waiting (formatDecode fmt spec).1.type := congrArg waiting (putArg_type _h)
    rw [hw]
    split <;> omega

/-- `vsnprintf`: the result and the memory, none for an argument of the wrong kind. -/
def vsnprintf (m : Mem) (buf size : Nat) (fmt : List UInt8) (args : List Arg) : Option (Nat × Mem) :=
  let stop := u32 (buf + size)
  -- the end is never below the buffer
  let (stop, size) := if stop < buf then (4294967295, 4294967295 - buf) else (stop, size)
  (loop stop buf fmt {} args ⟨m, buf⟩).map fun o => (o.pos - buf, if size > 0 then o.close stop else o.mem)

end Vsnprintf
end OtaLoader
