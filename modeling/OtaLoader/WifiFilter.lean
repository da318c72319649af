import OtaLoader.Machine
import OtaLoader.Mem
/-!
# WifiFilter — keeping the last buffers for ARP and TCP (`wifi_conf.c`)

`lwip_low_level_inputput_filter` and `lwip_low_level_output_filter` look at a packet and at the number of free buffers
before a packet takes one.  Their comments reserve one buffer for ARP and one more for TCP.
-/
namespace OtaLoader
namespace Filter

/-! ## What the filters read of a packet: `iph` is `pkg + 10` -/

/-- `ntohs(iph->h_proto)`. -/
def protoType (pkg : Mem) : Nat := 256 * (pkg 12).toNat + (pkg 13).toNat

/-- `iph->iphd.protocol`. -/
def protocol (pkg : Mem) : UInt8 := pkg 23

/-- `*((u8 *)iph + sizeof(struct iphdr_e))`. -/
def icmpType (pkg : Mem) : UInt8 := pkg 34

def icmpEr : UInt8 := 0
def icmpEcho : UInt8 := 8
def reservedForArp : Nat := 1
def reservedForTcp : Nat := reservedForArp + 1

def IsArp (pkg : Mem) : Prop := protoType pkg = 0x0806
def IsTcp (pkg : Mem) : Prop := protoType pkg = 0x0800 ∧ protocol pkg = 6
def IsIcmp (pkg : Mem) : Prop := protoType pkg = 0x0800 ∧ protocol pkg = 1

instance (pkg : Mem) : Decidable (IsArp pkg) := inferInstanceAs (Decidable (_ = _))
instance (pkg : Mem) : Decidable (IsTcp pkg) := inferInstanceAs (Decidable (_ ∧ _))

/-! ## The filters -/

/-- 0, or -1 with the letter that is put out. -/
inductive Verdict where
  | pass
  | drop (c : Char)
deriving DecidableEq

/-- The test of the free buffers, with the letters for none left, not ARP and not TCP. -/
def reserve (empty notArp notTcp : Char) (pkg : Mem) (remain : Nat) : Verdict :=
  if remain ≤ reservedForTcp then
    if remain = 0 then .drop empty
    else if remain ≤ reservedForArp ∧ ¬ IsArp pkg then .drop notArp
    else if ¬ IsTcp pkg then .drop notTcp
    else .pass
  else .pass

/-- The ICMP test: the protocol is read whatever the packet is. -/
def icmpTest (pkg : Mem) : Bool := protocol pkg == 1 && icmpType pkg != icmpEr && icmpType pkg != icmpEcho

def lwipLowLevelInputputFilter (pkg : Mem) (remainPbufPool : Nat) : Verdict :=
  if icmpTest pkg then .drop 'I' else reserve 'X' 'Y' 'D' pkg remainPbufPool

def lwipLowLevelOutputFilter (pkg : Mem) (remainWifiTxq : Nat) : Verdict := reserve 'H' 'J' 'K' pkg remainWifiTxq

/-! ## The law of the reservation -/

/-- A verdict on a packet while `r` buffers are free. -/
structure Reserves (pkg : Mem) (r : Nat) (v : Verdict) : Prop where
  arp     : IsArp pkg → 1 ≤ r → v = .pass
  tcp     : IsTcp pkg → 2 ≤ r → v = .pass
  none    : r = 0 → v ≠ .pass
  last    : r = 1 → v = .pass → IsArp pkg
  lastTwo : r ≤ 2 → v = .pass → IsArp pkg ∨ IsTcp pkg

/-- The letter `I` is put out for ICMP packets only. -/
structure ReservesInput (pkg : Mem) (r : Nat) (v : Verdict) : Prop extends Reserves pkg r v where
  drops : v = .drop 'I' → IsIcmp pkg

/-- An ARP packet at a free count for which the code keeps buffers back. -/
def ArpHeldBack (pkg : Mem) (r : Nat) : Prop := IsArp pkg ∧ (r = 1 ∨ r = 2)

theorem not_arp_of_tcp {pkg : Mem} (h : IsTcp pkg) : ¬ IsArp pkg := fun ha => by
  rw [IsArp, h.1] at ha
  cases ha

theorem reserve_eq_pass {a b c : Char} {pkg : Mem} {r : Nat} :
    reserve a b c pkg r = .pass ↔ 3 ≤ r ∨ r = 2 ∧ IsTcp pkg := by
  unfold reserve reservedForTcp reservedForArp
  constructor
  · intro h
    split at h
    · rename_i hr
      split at h
      · cases h
      · split at h
        · cases h
        · rename_i h0 h1
          split at h
          · cases h
          · rename_i htcp
            have ht : IsTcp pkg := not_not.1 htcp
            have : ¬ r ≤ 1 := fun hle => h1 ⟨hle, not_arp_of_tcp ht⟩
            exact .inr ⟨by omega, ht⟩
    · exact .inl (by omega)
  · rintro (h | ⟨rfl, ht⟩)
    · exact if_neg (by omega)
    · rw [if_pos (by omega), if_neg (by omega), if_neg (fun h => absurd h.1 (by omega)), if_neg (not_not.2 ht)]

/-- **The reservation** keeps its law except that the last two buffers are held back from ARP too. -/
theorem reserves_iff {a b c : Char} {pkg : Mem} {r : Nat} :
    Reserves pkg r (reserve a b c pkg r) ↔ ¬ ArpHeldBack pkg r := by
  constructor
  · rintro h ⟨harp, hr⟩
    have hpass := h.arp harp (by omega)
    rw [reserve_eq_pass] at hpass
    rcases hpass with h3 | ⟨_, ht⟩
    · omega
    · exact not_arp_of_tcp ht harp
  · intro h
    refine ⟨fun harp h1 => ?_, fun ht h2 => ?_, fun h0 hp => ?_, fun h1 hp => ?_, fun h2 hp => ?_⟩
    · have : ¬ (r = 1 ∨ r = 2) := fun hr => h ⟨harp, hr⟩
      exact reserve_eq_pass.2 (.inl (by omega))
    · rw [reserve_eq_pass]
      rcases Nat.lt_or_ge 2 r with h3 | h3
      · exact .inl h3
      · exact .inr ⟨by omega, ht⟩
    · rcases reserve_eq_pass.1 hp with h3 | ⟨h2, _⟩ <;> omega
    · rcases reserve_eq_pass.1 hp with h3 | ⟨h2, _⟩ <;> omega
    · rcases reserve_eq_pass.1 hp with h3 | ⟨_, ht⟩
      · omega
      · exact .inr ht

theorem reserve_ne_icmp {pkg : Mem} {r : Nat} : reserve 'X' 'Y' 'D' pkg r ≠ .drop 'I' := by
  unfold reserve
  repeat' split
  all_goals decide

/-- A packet that is not IPv4 and has the bytes of an ICMP packet that is dropped. -/
def LooksIcmp (pkg : Mem) : Prop := icmpTest pkg = true ∧ protoType pkg ≠ 0x0800

theorem protocol_of_icmpTest {pkg : Mem} (h : icmpTest pkg = true) : protocol pkg = 1 := by
  simp only [icmpTest, Bool.and_eq_true, beq_iff_eq] at h
  exact h.1.1

/-- **The input filter** keeps the law exactly when the packet is not an ARP packet held back, and not taken for
ICMP. -/
theorem input_iff (pkg : Mem) (r : Nat) :
    ReservesInput pkg r (lwipLowLevelInputputFilter pkg r) ↔ ¬ (ArpHeldBack pkg r ∨ LooksIcmp pkg) := by
  rw [not_or]
  unfold lwipLowLevelInputputFilter
  by_cases hi : icmpTest pkg = true
  · rw [if_pos hi]
    constructor
    · intro h
      refine ⟨fun ⟨ha, hr⟩ => ?_, fun hl => hl.2 (h.drops rfl).1⟩
      cases h.arp ha (by omega)
    · rintro ⟨_, hl⟩
      have hip : protoType pkg = 0x0800 := not_not.1 (fun hn => hl ⟨hi, hn⟩)
      refine ⟨⟨fun ha _ => ?_, fun ht _ => ?_, fun _ hp => ?_, fun _ hp => ?_, fun _ hp => ?_⟩,
        fun _ => ⟨hip, protocol_of_icmpTest hi⟩⟩
      · rw [IsArp, hip] at ha
        cases ha
      · have := ht.2.symm.trans (protocol_of_icmpTest hi)
        cases this
      · cases hp
      · cases hp
      · cases hp
  · rw [if_neg hi]
    constructor
    · intro h
      exact ⟨reserves_iff.1 h.toReserves, fun hl => hi hl.1⟩
    · intro h
      exact ⟨reserves_iff.2 h.1, fun hd => absurd hd reserve_ne_icmp⟩

/-! ## Arrivals and releases -/

inductive Ev where
  | arrive (pkg : Mem)
  | release

/-- A pool of `cap` buffers behind a filter; the state is the number of free ones. -/
def pool (filter : Mem → Nat → Verdict) (cap : Nat) : Machine Nat Ev (Option Verdict) where
  step r
    | .arrive pkg => some (if filter pkg r = .pass then r - 1 else r, some (filter pkg r))
    | .release    => if r < cap then some (r + 1, none) else none

/-- What a step shows, where it is the verdict on an arrival. -/
def Judged (P : Mem → Nat → Verdict → Prop) (r : Nat) (e : Ev) (_ : Nat) (o : Option Verdict) : Prop :=
  ∀ pkg v, e = .arrive pkg → o = some v → P pkg r v

/-- No arrival meets `P` in the state in which it arrives. -/
def Never (P : Mem → Nat → Prop) (r : Nat) (e : Ev) (_ : Nat) (_ : Option Verdict) : Prop :=
  ∀ pkg, e = .arrive pkg → ¬ P pkg r

theorem judged_iff {filter : Mem → Nat → Verdict} {cap : Nat} {L : Mem → Nat → Verdict → Prop}
    {B : Mem → Nat → Prop} (h : ∀ pkg r, L pkg r (filter pkg r) ↔ ¬ B pkg r) (es : List Ev) (r : Nat) :
    (pool filter cap).Along (Judged L) r es ↔ (pool filter cap).Along (Never B) r es := by
  refine Machine.along_iff (fun _ => True) (fun r e r' o _ hs => ⟨trivial, ?_⟩) es r trivial
  cases e with
  | arrive pkg =>
    cases hs
    constructor
    · rintro hj p hp
      cases hp
      exact (h pkg r).1 (hj pkg _ rfl rfl)
    · rintro hn p v hp hv
      cases hp
      cases hv
      exact (h pkg r).2 (hn pkg rfl)
  | release =>
    constructor
    · intro _ p hp
      cases hp
    · intro _ p v hp
      cases hp

/-- **The filters** keep the law for exactly the packets and counts at which no ARP packet meets the last two buffers
and, on input, no packet but an IPv4 one looks like ICMP; so does every run of arrivals and releases. -/
theorem filters_reserve_iff (pkg : Mem) (r cap : Nat) (es : List Ev) :
    (ReservesInput pkg r (lwipLowLevelInputputFilter pkg r) ↔ ¬ (ArpHeldBack pkg r ∨ LooksIcmp pkg)) ∧
      (Reserves pkg r (lwipLowLevelOutputFilter pkg r) ↔ ¬ ArpHeldBack pkg r) ∧
      ((pool lwipLowLevelInputputFilter cap).Along (Judged ReservesInput) r es ↔
        (pool lwipLowLevelInputputFilter cap).Along (Never (fun pkg r => ArpHeldBack pkg r ∨ LooksIcmp pkg)) r es) ∧
      ((pool lwipLowLevelOutputFilter cap).Along (Judged Reserves) r es ↔
        (pool lwipLowLevelOutputFilter cap).Along (Never ArpHeldBack) r es) :=
  ⟨input_iff pkg r, reserves_iff, judged_iff input_iff es r, judged_iff (fun _ _ => reserves_iff) es r⟩

/-- The first bytes of an ARP packet. -/
def arpPacket : Mem := Mem.write (fun _ => 0) 12 [8, 6]

/-- **The buffer kept for ARP is refused to ARP**: with one buffer free both filters drop an ARP packet, and a run that
begins with its arrival breaks the law. -/
theorem arp_dropped :
    IsArp arpPacket ∧ ¬ ReservesInput arpPacket 1 (lwipLowLevelInputputFilter arpPacket 1) ∧
      ¬ Reserves arpPacket 1 (lwipLowLevelOutputFilter arpPacket 1) ∧
      ¬ (pool lwipLowLevelInputputFilter 1).Along (Judged ReservesInput) 1 [.arrive arpPacket] ∧
      ¬ (pool lwipLowLevelOutputFilter 1).Along (Judged Reserves) 1 [.arrive arpPacket] := by
  have harp : IsArp arpPacket := by decide
  have hin : ¬ ReservesInput arpPacket 1 (lwipLowLevelInputputFilter arpPacket 1) :=
    fun h => (input_iff arpPacket 1).1 h (.inl ⟨harp, .inl rfl⟩)
  have hout : ¬ Reserves arpPacket 1 (lwipLowLevelOutputFilter arpPacket 1) :=
    fun h => reserves_iff.1 h ⟨harp, .inl rfl⟩
  exact ⟨harp, hin, hout, fun h => hin ((h _ _ rfl).1 _ _ rfl rfl), fun h => hout ((h _ _ rfl).1 _ _ rfl rfl)⟩

end Filter
end OtaLoader
