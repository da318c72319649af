import OtaLoader.Links
/-!
# Lbuf — message buffers (`lbuf_new.c`)

A buffer begins with the heads of two lists, the queue of messages and the list of free blocks.  A block that is handed
out begins with an `hentry` (links, head, length, state, reference count), a free one with an `hfree` (links, length).
The functions have the names of their wrappers: `lbuf_alloc` is `lbuf_alloc_btctrler`, and so on.  One that goes along a
list answers `none` when the list does not come back to its head.
-/
namespace OtaLoader
namespace Lbuf

open Links

def sizeofHead : Nat := 16
def sizeofEntry : Nat := 20
def sizeofFree : Nat := 12

/-- `&head->free`; `&head->head` is the head itself. -/
def freeHead (head : Nat) : Nat := head + 8

/-- `hfree.len`. -/
def freeLen (m : Mem) (p : Nat) : Nat := m.get32 (p + 8)

def entryHead (m : Mem) (p : Nat) : Nat := m.get32 (p + 8)
def entryLen (m : Mem) (p : Nat) : Nat := m.get32 (p + 12)
def entryState (m : Mem) (p : Nat) : UInt8 := m (p + 16)
def entryRef (m : Mem) (p : Nat) : UInt8 := m (p + 17)

def setState (m : Mem) (p : Nat) (b : UInt8) : Mem := m.write (p + 16) [b]
def setRef (m : Mem) (p : Nat) (b : UInt8) : Mem := m.write (p + 17) [b]

/-- `__get_entry`. -/
def getEntry (lbuf : Nat) : Nat := u32 (lbuf + (4294967296 - sizeofEntry))

def roundUp (len : Nat) : Nat := if len % 4 ≠ 0 then u32 (len + (4 - len % 4)) else len

def lbufGetChunkNum (totalSize chunkSize : Nat) : Nat :=
  u32 (totalSize + 4294967296 - sizeofFree) / u32 (chunkSize + sizeofEntry + 3)

/-- The buffer in memory, and its head. -/
def lbufInit (m : Mem) (buf bufLen : Nat) : Mem × Nat :=
  let misalign := if buf % 4 ≠ 0 then 4 - buf % 4 else 0
  let bufLen := u32 (bufLen + 4294967296 - misalign)
  let head := buf + misalign
  let free := head + sizeofHead
  let m := m.set32 (free + 8) (u32 (bufLen + 4294967296 - sizeofHead - sizeofFree))
  let m := initListHead m head
  let m := initListHead m (freeHead head)
  (listAddTail m free (freeHead head), head)

/-- The length of the block for a request. -/
def blockLen (len : Nat) : Nat := roundUp (u32 (len + sizeofEntry))

def setEntry (m : Mem) (p head len : Nat) : Mem :=
  initListHead (setRef ((setState (m.set32 (p + 8) head) p 0).set32 (p + 12) len) p 0) p

def lbufAlloc (m : Mem) (head len : Nat) : Option (Option Nat × Mem) :=
  let len := blockLen len
  match listFind m (freeHead head) (fun p => decide (len ≤ freeLen m p)) with
  | none          => none
  | some none     => some (none, m)
  | some (some p) =>
    if u32 (len + sizeofFree) < freeLen m p then
      let new := u32 (p + len)
      let m₁ := m.set32 (new + 8) (freeLen m p - len)
      some (some (p + sizeofEntry), setEntry (listAdd m₁ new (prev m₁ p) (next m₁ p)) p head len)
    else some (some (p + sizeofEntry), setEntry (listDelEntry m p) p head (freeLen m p))

/-- The free block `p` reaches over the address `new`. -/
def covers (m : Mem) (new p : Nat) : Bool := decide (p ≤ new ∧ new < u32 (p + freeLen m p))

/-- The loop at `__free`: blocks that touch are made one.  `prev` is 0 before the first block. -/
def sweepFrom (head : Nat) : Nat → Mem → Nat → Nat → Option Mem
  | 0, _, _, _        => none
  | n + 1, m, prev, p =>
    if p = head then some m
    else if prev = 0 then sweepFrom head n m p (next m p)
    else if u32 (prev + freeLen m prev) = p then
      let m := listDelEntry (m.set32 (prev + 8) (u32 (freeLen m prev + freeLen m p))) p
      sweepFrom head n m prev (next m p)
    else sweepFrom head n m p (next m p)

def sweep (m : Mem) (head : Nat) : Option Mem := sweepFrom head rounds m 0 (next m head)

def lbufFree (m : Mem) (lbuf : Nat) : Option Mem :=
  if lbuf = 0 then some m
  else
    let entry := getEntry lbuf
    let head := entryHead m entry
    let m := listDelEntry m entry
    let m := m.set32 (entry + 8) (entryLen m entry)
    match listFind m (freeHead head) (fun p => covers m entry p || decide (entry < p)) with
    | none          => none
    | some (some p) => if covers m entry p then some m else sweep (listAdd m entry (prev m p) p) (freeHead head)
    | some none     => sweep (listAddTail m entry (freeHead head)) (freeHead head)

def lbufRealloc (m : Mem) (lbuf size : Nat) : Option (Option Nat × Mem) :=
  let entry := getEntry lbuf
  let size := roundUp size
  if u32 (entryLen m entry + (4294967296 - sizeofEntry)) < size then some (none, m)
  else if u32 (size + sizeofEntry + sizeofEntry) < entryLen m entry then
    let new := u32 (lbuf + size)
    let m := m.set32 (new + 8) (entryHead m entry)
    let m := m.set32 (new + 12) (entryLen m entry - sizeofEntry - size)
    let m := initListHead (setRef m new 0) new
    let m := m.set32 (entry + 12) (sizeofEntry + size)
    (lbufFree m (new + sizeofEntry)).map (fun m => (some lbuf, m))
  else some (some lbuf, m)

def lbufPush (m : Mem) (lbuf : Nat) : Mem :=
  let p := getEntry lbuf
  let m := setState m p 0
  let ref := entryRef m p
  let m := setRef m p (ref + 1)
  if ref = 0 then listAddTail m p (entryHead m p) else m

def lbufMoreData (m : Mem) (head : Nat) : Option Bool :=
  (listFind m head (fun p => entryState m p == 0)).map Option.isSome

def lbufPop (m : Mem) (head : Nat) : Option (Option Nat × Mem) :=
  (listFind m head (fun p => entryState m p == 0)).map fun
    | none   => (none, m)
    | some p => (some (p + sizeofEntry), setState m p 1)

/-- `list_for_each_entry_safe`: the next node is read before its predecessor is freed. -/
def clearFrom (head : Nat) : Nat → Mem → Nat → Nat → Option Mem
  | 0, _, _, _     => none
  | k + 1, m, p, n =>
    if p = head then some m
    else (lbufFree m (p + sizeofEntry)).bind (fun m => clearFrom head k m n (next m n))

def lbufClear (m : Mem) (head : Nat) : Option Mem := clearFrom head rounds m (next m head) (next m (next m head))

def lbufRemainLen (m : Mem) (head len : Nat) : Option Nat :=
  (listFind m (freeHead head) (fun p => decide (blockLen len ≤ freeLen m p))).map fun
    | none   => 0
    | some _ => 1

def lbufIncRef (m : Mem) (lbuf : Nat) : Mem := setRef m (getEntry lbuf) (entryRef m (getEntry lbuf) + 1)

/-- The sum is an `int`: it is given by its 32 bits. -/
def remainFrom (m : Mem) (head : Nat) : Nat → Nat → Nat → Option Nat
  | 0, _, _          => none
  | n + 1, maxLen, p => if p = head then some maxLen else remainFrom m head n (u32 (maxLen + freeLen m p)) (next m p)

def lbufRemainSpace (m : Mem) (head : Nat) : Option Nat :=
  remainFrom m (freeHead head) rounds 0 (next m (freeHead head))

end Lbuf
end OtaLoader
