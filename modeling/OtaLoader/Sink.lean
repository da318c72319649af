import OtaLoader.Mem
/-!
# Sink — output that stops at the end of its buffer

A sink is a memory and the place of the next byte.  A byte that finds no room is counted and not stored, so the place
tells how long the output is and the memory holds as much of it as there is room for.  The place does not wrap: a sink
stands for a pointer of 32 bits while the start of the buffer and the length of the output add up to less than 2^32.
-/
namespace OtaLoader

structure Sink where
  mem : Mem
  pos : Nat

namespace Sink

variable {stop : Nat}

/-- One byte, with room up to `stop`. -/
def put (stop : Nat) (o : Sink) (c : UInt8) : Sink := ⟨if o.pos < stop then o.mem.write o.pos [c] else o.mem, o.pos + 1⟩

def puts (stop : Nat) (o : Sink) (bs : List UInt8) : Sink := bs.foldl (put stop) o

/-- The zero byte behind the output, or in the place of its last byte. -/
def close (stop : Nat) (o : Sink) : Mem := o.mem.write (if o.pos < stop then o.pos else stop - 1) [0]

@[simp] theorem puts_nil (o : Sink) : o.puts stop [] = o := rfl

theorem puts_cons (o : Sink) (c : UInt8) (bs : List UInt8) : o.puts stop (c :: bs) = (o.put stop c).puts stop bs := rfl

theorem puts_append (o : Sink) (as bs : List UInt8) : o.puts stop (as ++ bs) = (o.puts stop as).puts stop bs :=
  List.foldl_append

/-- **As much as there is room for**, at the place it began. -/
theorem puts_eq (o : Sink) (bs : List UInt8) :
    o.puts stop bs = ⟨o.mem.write o.pos (bs.take (stop - o.pos)), o.pos + bs.length⟩ := by
  induction bs generalizing o with
  | nil          => simp
  | cons c bs ih =>
    have hpos : o.pos + 1 + bs.length = o.pos + (bs.length + 1) := by omega
    rw [puts_cons, ih, List.length_cons, ← hpos]
    unfold put
    dsimp only
    by_cases h : o.pos < stop
    · have hroom : stop - o.pos = stop - (o.pos + 1) + 1 := by omega
      rw [if_pos h, hroom, List.take_succ_cons, ← List.singleton_append]
      exact congrArg (Sink.mk · _) (Mem.write_append o.mem o.pos [c] (bs.take (stop - (o.pos + 1)))).symm
    · have h0 : stop - o.pos = 0 := by omega
      have h1 : stop - (o.pos + 1) = 0 := by omega
      rw [if_neg h, h0, h1, List.take_zero, List.take_zero, Mem.write_nil, Mem.write_nil]

/-- **The output as a C string**: cut short by the byte that the terminator takes. -/
theorem close_puts (m : Mem) {p : Nat} (h : p < stop) (bs : List UInt8) :
    (puts stop ⟨m, p⟩ bs).close stop = m.write p (bs.take (stop - p - 1) ++ [0]) := by
  rw [puts_eq]
  unfold close
  dsimp only
  rw [Mem.write_append]
  by_cases hfit : p + bs.length < stop
  · rw [if_pos hfit, List.take_of_length_le (by omega : bs.length ≤ stop - p),
      List.take_of_length_le (by omega : bs.length ≤ stop - p - 1)]
  · have hlen : (bs.take (stop - p - 1)).length = stop - p - 1 := List.length_take_of_le (by omega)
    have hroom : stop - p = stop - p - 1 + 1 := by omega
    have hlast : p + (stop - p - 1) = stop - 1 := by omega
    rw [if_neg hfit, hlen, hlast, hroom, Nat.add_sub_cancel, List.take_add_one, Mem.write_append, hlen, hlast]
    funext x
    by_cases hx : x = stop - 1
    · subst hx
      have hin : ∀ m' : Mem, m'.write (stop - 1) [0] (stop - 1) = 0 := fun m' =>
        @Mem.write_inside m' (stop - 1) 0 [0] (by decide)
      rw [hin, hin]
    · have hone : (bs[stop - p - 1]?.toList).length ≤ 1 := by
        cases bs[stop - p - 1]? <;> simp
      have hout : ∀ m' : Mem, m'.write (stop - 1) [0] x = m' x := fun m' =>
        Mem.write_outside (by rw [List.length_singleton]; omega)
      rw [hout, hout, Mem.write_outside (by omega)]

end Sink
end OtaLoader
