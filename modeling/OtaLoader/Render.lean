import OtaLoader.VsnprintfText
/-!
# Render — what a format says, and what `vsnprintf` stores of it

`render` is the text of a format, without a buffer: it takes the format apart as `format_decode` does and puts the texts
of its conversions one after another.  `vsnprintf` refines it: into any buffer of any size it puts as much of that one
text as there is room for, and its result is the length of all of it.
-/
namespace OtaLoader
namespace Vsnprintf

/-! ## The text of a format -/

/-- A number that stays within the counts. -/
def numText (num : Nat) (spec : PrintfSpec) : Option (List UInt8) :=
  if Narrow num spec then some (numberText num spec) else none

/-- The text of a string in its field, and of a character. -/
def textIn (spec : PrintfSpec) (s : List UInt8) : Option (List UInt8) :=
  if NarrowField spec then some (fieldText spec s) else none

/-- The text of `%p`, none for the letters that stand for an unsupported function. -/
def pointerText (ext : List UInt8) (p : UInt32) (spec : PrintfSpec) : Option (List UInt8) :=
  if p = 0 then textIn spec (clip (ascii "(null)") spec)
  else if unsupported ext then none
  else
    let spec := { spec with flags.small := true, base := 16 }
    numText p.toNat (if spec.fieldWidth = -1 then { spec with fieldWidth := 8, flags.zeropad := true } else spec)

/-- A conversion: the specification after it and its text.  `none` is an argument of another kind than the conversion
takes, a field beyond its counts, or `%n`. -/
def argText (fmt : List UInt8) (spec : PrintfSpec) (a : Arg) : Option (PrintfSpec × List UInt8) :=
  match spec.type with
  | .width     => match a with
    | .int v => some ({ spec with fieldWidth := short v.toNat }, [])
    | _      => none
  | .precision => match a with
    | .int v => some ({ spec with precision := short v.toNat }, [])
    | _      => none
  | .char      => match a with
    | .int v => (textIn spec [UInt8.ofNat v.toNat]).map (spec, ·)
    | _      => none
  | .str       => match a with
    | .str s => (textIn spec (clip s spec)).map (spec, ·)
    | _      => none
  | .ptr       => match a with
    | .ptr p => (pointerText (fmt.drop 1) p spec).map (spec, ·)
    | _      => none
  | .nrchars   => none
  | t          => (numOf t a).bind fun num => (numText num spec).map (spec, ·)

theorem argText_type {fmt t : List UInt8} {spec spec' : PrintfSpec} {a : Arg}
    (h : argText fmt spec a = some (spec', t)) : spec'.type = spec.type := by
  unfold argText at h
  repeat' split at h
  all_goals first
    | cases h; done
    | cases h; rfl
    | (obtain ⟨_, _, heq⟩ := Option.map_eq_some_iff.1 h
       cases heq
       rfl)
    | skip
  obtain ⟨num, _, hnum⟩ := Option.bind_eq_some_iff.1 h
  obtain ⟨_, _, heq⟩ := Option.map_eq_some_iff.1 hnum
  cases heq
  rfl

/-- **The text of a format.** -/
def render (fmt : List UInt8) (spec : PrintfSpec) (args : List Arg) : Option (List UInt8) :=
  if _hne : fmt = [] then some []
  else
    let d := formatDecode fmt spec
    match d.1.type with
    | .none                   => (render d.2 d.1 args).map (fmt.take (fmt.length - d.2.length) ++ ·)
    | .percentChar | .invalid => (render d.2 d.1 args).map (37 :: ·)
    | _                       =>
      match args with
      | []        => none
      | a :: args =>
        match _h : argText d.2 d.1 a with
        | none            => none
        | some (spec', t) => (render (if d.1.type = .ptr then d.2.dropWhile isAlnum else d.2) spec' args).map (t ++ ·)
termination_by 2 * fmt.length + waiting spec.type
decreasing_by
  · exact formatDecode_shorter _hne spec
  · exact formatDecode_shorter _hne spec
  · have hd := formatDecode_shorter _hne spec
    have hle : ∀ l : List UInt8, (l.dropWhile isAlnum).length ≤ l.length := fun l => (List.dropWhile_sublist _).length_le
    have hl := hle (formatDecode fmt spec).2
    have hw : waiting spec'.type = waiting (formatDecode fmt spec).1.type := congrArg waiting (argText_type _h)
    rw [hw]
    split <;> omega

/-! ## The base of a conversion -/

theorem decodeType_based (fmt : List UInt8) (spec : PrintfSpec) : Based (decodeType fmt spec).1 := by
  unfold decodeType
  dsimp only
  split
  all_goals first
    | exact .inr (.inl rfl)
    | exact .inr (.inr rfl)
    | exact .inl rfl

theorem decodePrecision_based (fmt : List UInt8) (spec : PrintfSpec) :
    (decodePrecision fmt spec).1.type = .precision ∨ Based (decodePrecision fmt spec).1 := by
  unfold decodePrecision
  split
  · exact .inl rfl
  · split
    · exact .inr (decodeType_based _ _)
    · exact .inr (decodeType_based _ _)
  · exact .inr (decodeType_based _ _)

/-- A conversion that puts something out has a base. -/
theorem formatDecode_based (fmt : List UInt8) (spec : PrintfSpec) : (formatDecode fmt spec).1.type = .none ∨
    (formatDecode fmt spec).1.type = .width ∨ (formatDecode fmt spec).1.type = .precision ∨
    Based (formatDecode fmt spec).1 := by
  unfold formatDecode
  split
  · exact .inr (.inr (decodePrecision_based _ _))
  · split
    · exact .inr (.inr (.inr (decodeType_based _ _)))
    · dsimp only
      split
      · split
        · exact .inr (.inl rfl)
        · split
          · exact .inr (.inr (decodePrecision_based _ _))
          · exact .inr (.inr (decodePrecision_based _ _))
        · exact .inr (.inr (decodePrecision_based _ _))
      · exact .inl rfl

/-! ## What is put out -/

variable {stop start : Nat}

theorem number_text {num : Nat} {spec : PrintfSpec} (hb : Based spec) {t : List UInt8} (h : numText num spec = some t)
    (o : Sink) : number stop o num spec = o.puts stop t := by
  unfold numText at h
  split at h
  · cases h
    exact number_eq hb ‹_› o
  · cases h

theorem string_text {spec : PrintfSpec} {s t : List UInt8} (h : textIn spec (clip s spec) = some t) (o : Sink) :
    string stop o s spec = o.puts stop t := by
  unfold textIn at h
  split at h
  · cases h
    exact string_eq ‹_› s o
  · cases h

theorem char_text {spec : PrintfSpec} {c : UInt8} {t : List UInt8} (h : textIn spec [c] = some t) (o : Sink) :
    char stop o c spec = o.puts stop t := by
  unfold textIn at h
  split at h
  · cases h
    exact char_eq ‹_› c o
  · cases h

theorem pointer_text {ext : List UInt8} {p : UInt32} {spec : PrintfSpec} {t : List UInt8}
    (h : pointerText ext p spec = some t) (o : Sink) : pointer stop ext o p spec = o.puts stop t := by
  unfold pointerText at h
  unfold pointer
  by_cases hp : p = 0
  · rw [if_pos hp] at h ⊢
    exact string_text h o
  by_cases hu : unsupported ext = true
  · rw [if_neg hp, if_pos hu] at h
    cases h
  rw [if_neg hp, if_neg hu] at h ⊢
  exact number_text (by split <;> exact .inr (.inr rfl)) h o

/-- **A conversion puts out its text.** -/
theorem putArg_text {fmt t : List UInt8} {spec spec' : PrintfSpec} {a : Arg}
    (hb : spec.type = .width ∨ spec.type = .precision ∨ Based spec) (h : argText fmt spec a = some (spec', t)) (o : Sink) :
    putArg stop start fmt spec a o = some (spec', o.puts stop t) := by
  unfold argText at h
  unfold putArg
  generalize hty : spec.type = ty at h ⊢
  cases ty
  case width =>
    cases a <;> cases h
    rfl
  case precision =>
    cases a <;> cases h
    rfl
  case char =>
    cases a <;> try cases h
    obtain ⟨t', ht, heq⟩ := Option.map_eq_some_iff.1 h
    cases heq
    exact congrArg (fun o => some (spec, o)) (char_text ht o)
  case str =>
    cases a <;> try cases h
    obtain ⟨t', ht, heq⟩ := Option.map_eq_some_iff.1 h
    cases heq
    exact congrArg (fun o => some (spec, o)) (string_text ht o)
  case ptr =>
    cases a <;> try cases h
    obtain ⟨t', ht, heq⟩ := Option.map_eq_some_iff.1 h
    cases heq
    exact congrArg (fun o => some (spec, o)) (pointer_text ht o)
  case nrchars => cases h
  all_goals
    have hbase : Based spec := by
      rcases hb with hb | hb | hb
      · rw [hty] at hb
        cases hb
      · rw [hty] at hb
        cases hb
      · exact hb
    obtain ⟨num, hnum, h⟩ := Option.bind_eq_some_iff.1 h
    obtain ⟨t', ht, heq⟩ := Option.map_eq_some_iff.1 h
    cases heq
    dsimp only
    rw [hnum]
    exact congrArg (fun o => some (spec, o)) (number_text hbase ht o)

theorem loop_arg {fmt : List UInt8} (hne : fmt ≠ []) {spec spec' : PrintfSpec} {a : Arg} {args : List Arg} {o o' : Sink}
    (hnone : (formatDecode fmt spec).1.type ≠ .none) (hpercent : (formatDecode fmt spec).1.type ≠ .percentChar)
    (hinvalid : (formatDecode fmt spec).1.type ≠ .invalid)
    (h : putArg stop start (formatDecode fmt spec).2 (formatDecode fmt spec).1 a o = some (spec', o')) :
    loop stop start fmt spec (a :: args) o = loop stop start (if (formatDecode fmt spec).1.type = .ptr then
      (formatDecode fmt spec).2.dropWhile isAlnum else (formatDecode fmt spec).2) spec' args o' := by
  rw [loop, dif_neg hne]
  dsimp only
  split
  · exact absurd ‹_› hnone
  · exact absurd ‹_› hpercent
  · exact absurd ‹_› hinvalid
  · split
    · rename_i hput
      rw [h] at hput
      cases hput
    · rename_i hput
      rw [h] at hput
      cases hput
      rfl

/-- **The loop puts out the text of its format.** -/
theorem loop_render {fmt : List UInt8} {spec : PrintfSpec} {args : List Arg} {text : List UInt8}
    (h : render fmt spec args = some text) (o : Sink) : loop stop start fmt spec args o = some (o.puts stop text) := by
  fun_induction render fmt spec args generalizing text o
  case case1 =>
    cases h
    rw [loop, dif_pos rfl]
    rfl
  case case2 fmt spec args hne d hd ih =>
    obtain ⟨rest, hrest, heq⟩ := Option.map_eq_some_iff.1 h
    cases heq
    rw [loop, dif_neg hne]
    dsimp only
    rw [hd]
    exact (ih hrest _).trans (congrArg some (Sink.puts_append o _ rest).symm)
  case case3 fmt spec args hne d hd ih | case4 fmt spec args hne d hd ih =>
    obtain ⟨rest, hrest, heq⟩ := Option.map_eq_some_iff.1 h
    cases heq
    rw [loop, dif_neg hne]
    dsimp only
    rw [hd]
    exact ih hrest _
  case case5 => cases h
  case case6 => cases h
  case case7 fmt spec hne d a args spec' t harg hnone hpercent hinvalid ih =>
    obtain ⟨rest, hrest, heq⟩ := Option.map_eq_some_iff.1 h
    cases heq
    have hput := @putArg_text stop start _ _ _ _ _ ((formatDecode_based fmt spec).resolve_left hnone) harg o
    rw [loop_arg hne hnone hpercent hinvalid hput, Sink.puts_append]
    exact ih hrest _

/-! ## The buffer -/

/-- The bytes that a buffer of this size really has: none of them lies behind the last address. -/
def room (buf size : Nat) : Nat := min size (4294967295 - buf)

/-- The result and the memory, from the text. -/
theorem vsnprintf_text {fmt : List UInt8} {args : List Arg} {text : List UInt8} (h : render fmt {} args = some text)
    (m : Mem) {buf size : Nat} (hbuf : buf < 2 ^ 32) (hsize : size < 2 ^ 32) :
    vsnprintf m buf size fmt args = some (text.length,
      if room buf size = 0 then m else m.write buf (text.take (room buf size - 1) ++ [0])) := by
  have hend : (if u32 (buf + size) < buf then ((4294967295, 4294967295 - buf) : Nat × Nat) else (u32 (buf + size), size)) =
      (buf + room buf size, room buf size) := by
    unfold u32 room
    split
    · exact Prod.ext (by simp only []; omega) (by simp only []; omega)
    · exact Prod.ext (by simp only []; omega) (by simp only []; omega)
  unfold vsnprintf
  dsimp only
  rw [hend]
  dsimp only
  have hlen : ((⟨m, buf⟩ : Sink).puts (buf + room buf size) text).pos - buf = text.length := by
    rw [Sink.puts_eq, Nat.add_sub_cancel_left]
  rw [loop_render h, Option.map_some, hlen]
  by_cases h0 : room buf size = 0
  · rw [if_neg (by omega), if_pos h0, Sink.puts_eq, h0, Nat.add_zero, Nat.sub_self, List.take_zero, Mem.write_nil]
  · have hroom : buf + room buf size - buf - 1 = room buf size - 1 := by omega
    rw [if_pos (by omega), if_neg h0, Sink.close_puts m (by omega), hroom]

/-- **One text for every buffer**: whatever the size, the result is its length, the buffer holds as much of it as there is
room for with a zero byte behind it, and no other byte changes. -/
theorem vsnprintf_render {fmt : List UInt8} {args : List Arg} {text : List UInt8} (h : render fmt {} args = some text)
    (m : Mem) {buf : Nat} (hbuf : buf < 2 ^ 32) :
    ∀ size, size < 2 ^ 32 → ∃ m', vsnprintf m buf size fmt args = some (text.length, m') ∧
      (∀ x, x < buf ∨ buf + size ≤ x → m' x = m x) ∧
      (0 < room buf size → m'.read buf (min (room buf size - 1) text.length + 1) =
        text.take (room buf size - 1) ++ [0] ∧
        ∀ x, buf + min (room buf size - 1) text.length < x → m' x = m x) := by
  intro size hsize
  refine ⟨_, vsnprintf_text h m hbuf hsize, ?_⟩
  by_cases h0 : room buf size = 0
  · rw [if_pos h0]
    exact ⟨fun _ _ => rfl, fun hpos => absurd h0 (Nat.ne_of_gt hpos)⟩
  · rw [if_neg h0]
    have hroom : room buf size ≤ size := Nat.min_le_left ..
    have hlen : (text.take (room buf size - 1) ++ [0]).length = min (room buf size - 1) text.length + 1 := by
      rw [List.length_append, List.length_take, List.length_singleton]
    refine ⟨fun x hx => Mem.write_outside ?_, fun _ => ⟨?_, fun x hx => Mem.write_above _ ?_⟩⟩
    · rw [hlen]
      omega
    · rw [← hlen]
      exact Mem.read_write_self ..
    · rw [hlen]
      omega

/-- Six bytes of room. -/
theorem vsnprintf_render_number : ∃ m', vsnprintf (fun _ => 0) 4096 6 (ascii "n=%-5d|%s") [.int 42, .str (ascii "ab")] =
      some (10, m') ∧
    (∀ x, x < 4096 ∨ 4096 + 6 ≤ x → m' x = 0) ∧
    (0 < room 4096 6 → m'.read 4096 (min (room 4096 6 - 1) 10 + 1) =
      (ascii "n=42   |ab").take (room 4096 6 - 1) ++ [0] ∧
      ∀ x, 4096 + min (room 4096 6 - 1) 10 < x → m' x = 0) :=
  vsnprintf_render (show render _ _ _ = some (ascii "n=42   |ab") by decide +kernel) (fun _ => 0) (by decide) 6
    (by decide)

end Vsnprintf
end OtaLoader
