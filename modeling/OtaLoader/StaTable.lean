import Mathlib.Data.Finset.Card
import Mathlib.Data.Finset.Insert
import OtaLoader.Loop
import OtaLoader.Machine
import OtaLoader.Mem
/-!
# StaTable — the stations connected to the access point (`wifi_demo_task.c`)

`wifi_connect_sta_mac` keeps five MAC addresses in a flat array, a slot whose first byte is 0 being free: it stores,
reads on from an offset, and clears.  `wifi_all_sta_discon` reads the table to its end and disconnects what it finds.
-/
namespace OtaLoader
namespace StaTable

/-! ## The first element that satisfies a predicate, replaced -/

section SetFirst

variable {α : Type} (p : α → Bool) (v : α)

def setFirst : List α → List α
  | []      => []
  | x :: xs => if p x then v :: xs else x :: setFirst xs

variable {p v}

theorem setFirst_of_forall : ∀ {l : List α}, (∀ x ∈ l, p x = false) → setFirst p v l = l
  | [], _ => rfl
  | x :: l, h => by
    rw [setFirst, if_neg (by rw [h x (List.mem_cons_self ..)]; decide),
      setFirst_of_forall (fun y hy => h y (List.mem_cons_of_mem x hy))]

theorem setFirst_split {x : α} : ∀ {l : List α}, x ∈ l → p x = true →
    ∃ a y b, l = a ++ y :: b ∧ (∀ z ∈ a, p z = false) ∧ p y = true ∧ setFirst p v l = a ++ v :: b
  | z :: l, hx, hp => by
    by_cases hz : p z = true
    · exact ⟨[], z, l, rfl, fun _ h => (nomatch h), hz, if_pos hz⟩
    · have hxl : x ∈ l := (List.mem_cons.1 hx).resolve_left (fun he => hz (he ▸ hp))
      obtain ⟨a, y, b, rfl, ha, hy, hset⟩ := setFirst_split hxl hp
      refine ⟨z :: a, y, b, rfl, fun w hw => ?_, hy, by rw [setFirst, if_neg hz, hset]; rfl⟩
      rcases List.mem_cons.1 hw with rfl | hw
      · exact Bool.eq_false_iff.2 hz
      · exact ha w hw

end SetFirst

/-! ## The code -/

/-- The values of `index`: 0 stores, 1 reads, 2 clears. -/
inductive Index where
  | store
  | read
  | clear

/-- `store_mac`, the caller's `mac` and the value returned. -/
structure Answer where
  storeMac : Mem
  mac      : List UInt8
  ret      : Nat

def sizeofStoreMac : Nat := 30

/-- The rounds of the loop that are left, from `i` on. -/
def scan (mac : List UInt8) (len : Nat) (index : Index) : Nat → Nat → Mem → Answer
  | 0, _, storeMac     => ⟨storeMac, mac, 0⟩
  | n + 1, i, storeMac =>
    match index with
    | .store =>
      if storeMac i = 0 ∨ storeMac.read i len = mac then ⟨storeMac.write i mac, mac, 0⟩
      else scan mac len index n (i + 6) storeMac
    | .read  =>
      if storeMac i ≠ 0 then ⟨storeMac, storeMac.read i len, i + len⟩
      else scan mac len index n (i + 6) storeMac
    | .clear =>
      if storeMac.read i len = mac then ⟨storeMac.write i (List.replicate len 0), mac, 0⟩
      else scan mac len index n (i + 6) storeMac

def wifiConnectStaMac (storeMac : Mem) (offset : Nat) (mac : List UInt8) (len : Nat) (index : Index) : Answer :=
  let offset := if offset < sizeofStoreMac then offset else sizeofStoreMac
  scan mac len index ((sizeofStoreMac - offset + 5) / 6) offset storeMac

/-- One round of `wifi_all_sta_discon`: `i`, `mac` and the stations disconnected so far. -/
def disconRound (storeMac : Mem) (s : Nat × List UInt8 × List (List UInt8)) :
    (Nat × List UInt8 × List (List UInt8)) ⊕ List (List UInt8) :=
  let r := wifiConnectStaMac storeMac s.1 s.2.1 6 .read
  if r.ret ≠ 0 then .inl (r.ret, r.mac, s.2.2 ++ [r.mac]) else .inr s.2.2

/-! ## The slots -/

/-- The `n` slots from `i` on. -/
def slotsFrom (m : Mem) : Nat → Nat → List (List UInt8)
  | _, 0     => []
  | i, n + 1 => m.read i 6 :: slotsFrom m (i + 6) n

def slots (m : Mem) : List (List UInt8) := slotsFrom m 0 5

/-- The first byte marks a slot as taken. -/
def taken (slot : List UInt8) : Bool := slot.headD 0 != 0

/-- The addresses that the table holds. -/
def held (m : Mem) : List (List UInt8) := (slots m).filter taken

theorem length_slotsFrom (m : Mem) : ∀ (n i : Nat), (slotsFrom m i n).length = n
  | 0, _     => rfl
  | n + 1, i => congrArg (· + 1) (length_slotsFrom m n (i + 6))

theorem slotsFrom_congr {m m' : Mem} : ∀ (n i : Nat), (∀ x, i ≤ x → m x = m' x) → slotsFrom m i n = slotsFrom m' i n
  | 0, _, _     => rfl
  | n + 1, i, h => by
    rw [slotsFrom, slotsFrom, Mem.read_congr (fun j _ => h (i + j) (Nat.le_add_right i j)),
      slotsFrom_congr n (i + 6) (fun x hx => h x (Nat.le_trans (Nat.le_add_right i 6) hx))]

theorem length_of_mem_slotsFrom {m : Mem} {x : List UInt8} : ∀ (n i : Nat), x ∈ slotsFrom m i n → x.length = 6
  | n + 1, i, h => by
    rcases List.mem_cons.1 h with rfl | h
    · exact Mem.length_read m i 6
    · exact length_of_mem_slotsFrom n (i + 6) h

theorem taken_read (m : Mem) (i : Nat) : taken (m.read i 6) = (m i != 0) := rfl

/-- A slot overwritten, the others kept. -/
theorem slotsFrom_write {m : Mem} {i n : Nat} {v : List UInt8} (hv : v.length = 6) :
    slotsFrom (m.write i v) i (n + 1) = v :: slotsFrom m (i + 6) n := by
  rw [slotsFrom, slotsFrom_congr n (i + 6) (fun x hx => Mem.write_above v (by omega))]
  have h := Mem.read_write_self m i v
  rw [hv] at h
  rw [h]

section Scan

variable {mac : List UInt8}

/-- What storing and clearing have in common: the first slot that is hit is overwritten. -/
theorem scan_setFirst {index : Index} {p : List UInt8 → Bool} {v : List UInt8} (hv : v.length = 6)
    (hscan : ∀ n i m, scan mac 6 index (n + 1) i m =
      if p (m.read i 6) then ⟨m.write i v, mac, 0⟩ else scan mac 6 index n (i + 6) m) : ∀ (n i : Nat) (m : Mem),
      slotsFrom (scan mac 6 index n i m).storeMac i n = setFirst p v (slotsFrom m i n) ∧
        ∀ x, x < i → (scan mac 6 index n i m).storeMac x = m x
  | 0, _, _     => ⟨rfl, fun _ _ => rfl⟩
  | n + 1, i, m => by
    rw [hscan, slotsFrom.eq_2 m i n, setFirst]
    split
    · exact ⟨slotsFrom_write hv, fun x hx => Mem.write_below v hx⟩
    · obtain ⟨hslots, hbelow⟩ := scan_setFirst hv hscan n (i + 6) m
      refine ⟨?_, fun x hx => hbelow x (by omega)⟩
      rw [slotsFrom, hslots, Mem.read_congr (fun j hj => hbelow (i + j) (by omega))]

theorem scan_store (n i : Nat) (m : Mem) : scan mac 6 .store (n + 1) i m =
    if (!taken (m.read i 6) || m.read i 6 == mac) then ⟨m.write i mac, mac, 0⟩ else scan mac 6 .store n (i + 6) m := by
  rw [scan, taken_read]
  simp

theorem scan_clear (n i : Nat) (m : Mem) : scan mac 6 .clear (n + 1) i m =
    if m.read i 6 == mac then ⟨m.write i (List.replicate 6 0), mac, 0⟩ else scan mac 6 .clear n (i + 6) m := by
  rw [scan]
  simp

/-- **Storing** overwrites the first slot that is free or has the address already. -/
theorem slots_store (hm : mac.length = 6) (m : Mem) :
    slots (wifiConnectStaMac m 0 mac 6 .store).storeMac = setFirst (fun x => !taken x || x == mac) mac (slots m) :=
  (scan_setFirst hm scan_store 5 0 m).1

/-- **Clearing** zeroes the first slot that has the address. -/
theorem slots_clear (m : Mem) :
    slots (wifiConnectStaMac m 0 mac 6 .clear).storeMac = setFirst (· == mac) (List.replicate 6 0) (slots m) :=
  (scan_setFirst (List.length_replicate ..) scan_clear 5 0 m).1

end Scan

/-! ## Reading the table to its end -/

theorem wifiConnectStaMac_at {m : Mem} {n i : Nat} (h : i + 6 * n = 30) (mac : List UInt8) (index : Index) :
    wifiConnectStaMac m i mac 6 index = scan mac 6 index n i m := by
  unfold wifiConnectStaMac sizeofStoreMac
  have hoff : (if i < 30 then i else 30) = i := by split <;> omega
  have hn : (30 - i + 5) / 6 = n := by omega
  rw [hoff]
  dsimp only
  rw [hn]

/-- Reading passes the free slots. -/
theorem scan_read_free {m : Mem} {n i : Nat} {mac : List UInt8} (h : m i = 0) :
    scan mac 6 .read (n + 1) i m = scan mac 6 .read n (i + 6) m := by
  rw [scan]
  exact if_neg (not_not.2 h)

/-- **`wifi_all_sta_discon` ends**, having disconnected the addresses held from `i` on, each once for each slot. -/
theorem discon_returns (m : Mem) : ∀ (n i : Nat) (mac : List UInt8) (calls : List (List UInt8)), i + 6 * n = 30 →
    Loop.Returns (disconRound m) (i, mac, calls) (calls ++ (slotsFrom m i n).filter taken)
  | 0, i, mac, calls, h => by
    refine Loop.returns_of_done ?_
    rw [disconRound, wifiConnectStaMac_at h]
    simp [scan, slotsFrom]
  | n + 1, i, mac, calls, h => by
    by_cases hi : m i = 0
    · have ih := discon_returns m n (i + 6) mac calls (by omega)
      have hround : disconRound m (i, mac, calls) = disconRound m (i + 6, mac, calls) := by
        unfold disconRound
        rw [wifiConnectStaMac_at h, wifiConnectStaMac_at (i := i + 6) (n := n) (by omega), scan_read_free hi]
      rw [slotsFrom, List.filter_cons_of_neg (by rw [taken_read, hi]; decide)]
      obtain ⟨k, hk⟩ := ih
      cases k with
      | zero   => cases hk
      | succ k => exact ⟨k + 1, by rw [Loop.run, hround]; exact hk⟩
    · have hround : disconRound m (i, mac, calls) = .inl (i + 6, m.read i 6, calls ++ [m.read i 6]) := by
        unfold disconRound
        rw [wifiConnectStaMac_at h, scan]
        simp [hi]
      rw [Loop.returns_step hround, slotsFrom, List.filter_cons_of_pos (by rw [taken_read]; simpa using hi)]
      simpa using discon_returns m n (i + 6) (m.read i 6) (calls ++ [m.read i 6]) (by omega)

/-! ## The stations that are associated -/

structure Mac where
  bytes   : List UInt8
  six     : bytes.length = 6
  unicast : bytes.headD 0 &&& 1 = 0

structure State where
  storeMac : Mem
  assoc    : Finset (List UInt8)

def State.init : State := ⟨fun _ => 0, ∅⟩

/-- `WIFI_EVENT_AP_ON_ASSOC` and `WIFI_EVENT_AP_ON_DISCONNECTED`. -/
inductive Ev where
  | onAssoc (m : Mac)
  | onDisconnected (m : Mac)

/-- At most five stations are associated at a time. -/
def machine : Machine State Ev Unit where
  step s
    | .onAssoc m =>
      if (insert m.bytes s.assoc).card ≤ 5 then
        some (⟨(wifiConnectStaMac s.storeMac 0 m.bytes 6 .store).storeMac, insert m.bytes s.assoc⟩, ())
      else none
    | .onDisconnected m =>
      some (⟨(wifiConnectStaMac s.storeMac 0 m.bytes 6 .clear).storeMac, s.assoc.erase m.bytes⟩, ())

/-- The table holds the associated addresses, each once. -/
structure Represents (s : State) : Prop where
  once : (held s.storeMac).Nodup
  same : ∀ m, m ∈ held s.storeMac ↔ m ∈ s.assoc

/-- `wifi_all_sta_discon`, whatever its `mac` holds, ends and disconnects each associated station once and no other. -/
def DisconAll (s : State) : Prop :=
  ∀ mac, ∃ calls, Loop.Returns (disconRound s.storeMac) (0, mac, []) calls ∧ calls.Nodup ∧ ∀ m, m ∈ calls ↔ m ∈ s.assoc

theorem Represents.disconAll {s : State} (h : Represents s) : DisconAll s := by
  intro mac
  exact ⟨held s.storeMac, discon_returns s.storeMac 5 0 mac [] rfl, h.once, h.same⟩

/-- An address has a first byte other than 0, and one that is stored has no free slot before it. -/
def Unambiguous (s : State) : Ev → Prop
  | .onAssoc m        => m.bytes.headD 0 ≠ 0 ∧ (slots s.storeMac).Pairwise (fun x y => y = m.bytes → taken x = true)
  | .onDisconnected _ => True

section Store

variable {m : Mem} {mac : List UInt8}

/-- A new address goes to a free slot. -/
theorem held_store_new (hm : mac.length = 6) (ht : taken mac = true) (hnew : mac ∉ held m)
    (hroom : (held m).length < 5) :
    ∃ a b, held m = a ++ b ∧ held (wifiConnectStaMac m 0 mac 6 .store).storeMac = a ++ mac :: b := by
  have hfree : ∃ x ∈ slots m, ¬ taken x = true := by
    rw [← List.length_filter_lt_length_iff_exists]
    exact hroom
  obtain ⟨x, hx, hfx⟩ := hfree
  obtain ⟨a, y, b, hl, -, hy, hset⟩ :=
    setFirst_split (p := fun x => !taken x || x == mac) (v := mac) hx (by simp [hfx])
  have hyfree : taken y = false := by
    by_cases hty : taken y = true
    · refine absurd (List.mem_filter.2 ⟨?_, hty⟩) (show y ∉ held m from ?_)
      · rw [hl]
        simp
      · simp only [hty, Bool.not_true, Bool.false_or, beq_iff_eq] at hy
        rw [hy]
        exact hnew
    · exact Bool.eq_false_iff.2 hty
  refine ⟨a.filter taken, b.filter taken, ?_, ?_⟩
  · simp [held, hl, hyfree]
  · simp [held, slots_store hm, hset, ht]

/-- **An address that is held** is stored a second time exactly when a free slot lies before it. -/
theorem held_store_again (hm : mac.length = 6) (hmem : mac ∈ held m) (hnd : (held m).Nodup) :
    if (slots m).Pairwise (fun x y => y = mac → taken x = true) then
      held (wifiConnectStaMac m 0 mac 6 .store).storeMac = held m
    else ¬ (held (wifiConnectStaMac m 0 mac 6 .store).storeMac).Nodup := by
  obtain ⟨hslot, ht⟩ := List.mem_filter.1 hmem
  obtain ⟨a, y, b, hl, ha, hy, hset⟩ :=
    setFirst_split (p := fun x => !taken x || x == mac) (v := mac) hslot (by simp)
  have htaken : ∀ z ∈ a, taken z = true ∧ z ≠ mac := fun z hz => by simpa using ha z hz
  rw [held, slots_store hm, hset]
  by_cases hym : y = mac
  · rw [if_pos]
    · rw [held, hl, hym]
    · rw [hl, hym, List.pairwise_append, List.pairwise_cons]
      have hb : mac ∉ b := fun hb => by
        rw [held, hl, hym, List.filter_append, List.nodup_append, List.filter_cons_of_pos ht, List.nodup_cons] at hnd
        exact hnd.2.1.1 (List.mem_filter.2 ⟨hb, ht⟩)
      refine ⟨?_, ⟨fun z hz he => absurd (he ▸ hz) hb, ?_⟩, fun z hz w _ _ => (htaken z hz).1⟩
      · exact List.pairwise_of_forall_mem_list (fun z hz _ _ _ => (htaken z hz).1)
      · exact List.pairwise_of_forall_mem_list (fun z _ w hw he => absurd (he ▸ hw) hb)
  · have hfree : taken y = false := by simpa [hym] using hy
    have hb : mac ∈ b := by
      rw [hl, List.mem_append, List.mem_cons] at hslot
      rcases hslot with h | h | h
      · exact absurd rfl (htaken mac h).2
      · exact absurd h.symm hym
      · exact h
    rw [if_neg]
    · rw [List.filter_append, List.nodup_append, List.filter_cons_of_pos ht, List.nodup_cons]
      exact fun h => h.2.1.1 (List.mem_filter.2 ⟨hb, ht⟩)
    · rw [hl, List.pairwise_append, List.pairwise_cons]
      intro h
      rw [h.2.1.1 mac hb rfl] at hfree
      cases hfree

/-- Clearing removes the address, whether it is held or not. -/
theorem held_clear :
    held (wifiConnectStaMac m 0 mac 6 .clear).storeMac = (held m).erase mac := by
  rw [held, slots_clear]
  by_cases hmac : mac ∈ slots m
  · obtain ⟨a, y, b, hl, ha, hy, hset⟩ :=
      setFirst_split (p := (· == mac)) (v := List.replicate 6 0) hmac (by simp)
    have hym : y = mac := by simpa using hy
    have hna : mac ∉ a.filter taken := fun h => by
      have := ha mac (List.mem_filter.1 h).1
      simp at this
    rw [hset, held, hl, hym, List.filter_append, List.filter_append, List.filter_cons_of_neg (by decide),
      List.erase_append_right _ hna]
    by_cases ht : taken mac = true
    · rw [List.filter_cons_of_pos ht, List.erase_cons_head]
    · have hnb : mac ∉ b.filter taken := fun h => ht (List.mem_filter.1 h).2
      rw [List.filter_cons_of_neg ht, List.erase_of_not_mem hnb]
  · have hno : ∀ x ∈ slots m, (x == mac) = false := by
      intro x hx
      rw [beq_eq_false_iff_ne]
      rintro rfl
      exact hmac hx
    rw [setFirst_of_forall hno]
    exact (List.erase_of_not_mem (fun h => hmac (List.mem_filter.1 h).1)).symm

end Store

/-! ## Runs -/

theorem represents_init : Represents .init := by
  have hnone : held State.init.storeMac = [] := by decide
  constructor
  · rw [hnone]
    exact List.nodup_nil
  · intro m
    rw [hnone]
    simp [State.init]

theorem represents_onAssoc {s : State} (hs : Represents s) (m : Mac) (hroom : (insert m.bytes s.assoc).card ≤ 5) :
    Represents ⟨(wifiConnectStaMac s.storeMac 0 m.bytes 6 .store).storeMac, insert m.bytes s.assoc⟩ ↔
      Unambiguous s (.onAssoc m) := by
  by_cases ht : m.bytes.headD 0 ≠ 0
  · have htaken : taken m.bytes = true := by simpa [taken] using ht
    by_cases hmem : m.bytes ∈ held s.storeMac
    · have hagain := held_store_again m.six hmem hs.once
      split at hagain
      · rename_i hpw
        refine ⟨fun _ => ⟨ht, hpw⟩, fun _ => ⟨?_, fun x => ?_⟩⟩
        · rw [hagain]
          exact hs.once
        · dsimp only
          rw [hagain, hs.same, Finset.insert_eq_self.2 ((hs.same _).1 hmem)]
      · rename_i hpw
        exact ⟨fun h => absurd h.once hagain, fun h => absurd h.2 hpw⟩
    · have hnew : m.bytes ∉ s.assoc := fun h => hmem ((hs.same _).2 h)
      have hlen : (held s.storeMac).length < 5 := by
        have hset : (held s.storeMac).toFinset = s.assoc := by
          ext x
          rw [List.mem_toFinset, hs.same]
        rw [← List.toFinset_card_of_nodup hs.once, hset]
        rw [Finset.card_insert_of_notMem hnew] at hroom
        omega
      obtain ⟨a, b, hab, hab'⟩ := held_store_new m.six htaken hmem hlen
      refine ⟨fun _ => ⟨ht, ?_⟩, fun _ => ⟨?_, fun x => ?_⟩⟩
      · refine List.pairwise_of_forall_mem_list (fun x _ y hy he => ?_)
        exact absurd (List.mem_filter.2 ⟨he ▸ hy, htaken⟩) hmem
      · rw [hab', List.nodup_middle, ← hab]
        exact List.nodup_cons.2 ⟨hmem, hs.once⟩
      · dsimp only
        rw [hab', List.mem_append, List.mem_cons, or_left_comm, ← List.mem_append, ← hab, hs.same, Finset.mem_insert]
  · constructor
    · intro h
      have := (List.mem_filter.1 ((h.same m.bytes).2 (Finset.mem_insert_self ..))).2
      simp only [taken, bne_iff_ne] at this
      exact absurd this ht
    · exact fun h => absurd h.1 ht

theorem represents_onDisconnected {s : State} (hs : Represents s) (m : Mac) :
    Represents ⟨(wifiConnectStaMac s.storeMac 0 m.bytes 6 .clear).storeMac, s.assoc.erase m.bytes⟩ := by
  refine ⟨?_, fun x => ?_⟩
  · rw [held_clear]
    exact hs.once.erase _
  · dsimp only
    rw [held_clear, hs.once.mem_erase_iff, Finset.mem_erase, hs.same]

/-- **The table is the set of associated stations**, and `wifi_all_sta_discon` disconnects exactly these, in exactly the
runs in which no station has a first byte 0 and none is stored again behind a free slot. -/
theorem table_iff (es : List Ev) :
    Represents .init ∧ DisconAll .init ∧
      (machine.Along (fun _ _ s _ => Represents s ∧ DisconAll s) .init es ↔
        machine.Along (fun s e _ _ => Unambiguous s e) .init es) := by
  refine ⟨represents_init, represents_init.disconAll, Machine.along_iff_while Represents ?_ es _ represents_init⟩
  intro s e s' o hs hstep
  have hstep' : Represents s' ↔ Unambiguous s e := by
    cases e with
    | onAssoc m =>
      simp only [machine] at hstep
      split at hstep
      · rename_i hroom
        cases hstep
        exact represents_onAssoc hs m hroom
      · cases hstep
    | onDisconnected m =>
      cases hstep
      exact iff_of_true (represents_onDisconnected hs m) trivial
  exact ⟨⟨fun h => hstep'.1 h.1, fun h => ⟨hstep'.2 h, (hstep'.2 h).disconAll⟩⟩, hstep'.2⟩

def stationA : Mac := ⟨[2, 0, 0, 0, 0, 1], rfl, rfl⟩
def stationB : Mac := ⟨[2, 0, 0, 0, 0, 2], rfl, rfl⟩

/-- **A station that associates again** while the slot before its own is free is stored twice. -/
theorem not_table_again : ¬ ∀ es, machine.Along (fun _ _ s _ => Represents s ∧ DisconAll s) .init es := by
  intro h
  have hrun := h [.onAssoc stationA, .onAssoc stationB, .onDisconnected stationA, .onAssoc stationB]
  have hheld : (machine.run .init [.onAssoc stationA, .onAssoc stationB, .onDisconnected stationA]).bind (fun r =>
      (machine.step r.1 (.onAssoc stationB)).map (fun q => held q.1.storeMac)) =
        some [stationB.bytes, stationB.bytes] := by decide
  obtain ⟨⟨s, os⟩, hr, hs⟩ := Option.bind_eq_some_iff.1 hheld
  obtain ⟨⟨d, o⟩, hs, heq⟩ := Option.map_eq_some_iff.1 hs
  have hlast : Represents d := (@Machine.along_last _ _ _ _ _ [_, _, _] _ _ _ _ _ _ hrun hr hs).1
  have hnd := hlast.once
  rw [show held d.storeMac = _ from heq] at hnd
  simp at hnd

end StaTable
end OtaLoader
