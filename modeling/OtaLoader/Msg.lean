import Mathlib.Algebra.GroupWithZero.Nat
import OtaLoader.Machine
import OtaLoader.Mem
/-!
# Msg — the message queue over the byte buffer (msg.c)

`task_post_msg` writes a message as a 2-byte count and its words, each by a `cbuf_write` of its own; `task_get_msg`
reads the count and then the words.  Next to the buffer runs the queue it stands for: a bounded FIFO of whole messages.
`queue_refined_iff` says for which runs the two agree at every step.

`cbuf_write` and `cbuf_read` store or deliver all their bytes or none.  `USE_EVENT_EN` is not defined in this build.
-/
namespace OtaLoader
namespace Msg

/-- `sizeof(msg_pool)` -/
def poolSize : Nat := 4 * 128

def msgNoError : Int := 0

def msgBufNotEnough : Int := -4

/-! ## The circular buffer -/

def cbufWrite (cbuf buf : List UInt8) : List UInt8 :=
  if cbuf.length + buf.length ≤ poolSize then cbuf ++ buf else cbuf

/-- The bytes read and the buffer without them. -/
def cbufRead (cbuf : List UInt8) (len : Nat) : Option (List UInt8 × List UInt8) :=
  if len ≤ cbuf.length then some (cbuf.take len, cbuf.drop len) else none

def le16 (v : Nat) : List UInt8 := [UInt8.ofNat v, UInt8.ofNat (v / 256)]

def wordBytes (w : UInt32) : List UInt8 := Mem.le32 w.toNat

def wordOf (bs : List UInt8) : UInt32 :=
  UInt32.ofNat ((bs.getD 0 0).toNat + 256 * (bs.getD 1 0).toNat + 65536 * (bs.getD 2 0).toNat +
    16777216 * (bs.getD 3 0).toNat)

/-! ## task_post_msg -/

/-- `task_post_msg_base`: the count at `i = 0`, the command at `i = 1`, then the arguments. -/
def taskPostMsgBase (cbuf : List UInt8) (argc : Nat) (cmd : UInt32) (argv : List UInt32) : List UInt8 × Int :=
  if cmd = 0xff then (cbuf, msgNoError)
  else
    ((List.range (argc + 1)).foldl (fun b i =>
      if i = 0 then cbufWrite b (le16 (argc % 65536))
      else cbufWrite b (wordBytes (if i = 1 then cmd else argv.getD (i - 2) 0))) cbuf, msgNoError)

def taskPostMsg (cbuf : List UInt8) (argc : Nat) (args : List UInt32) : List UInt8 × Int :=
  taskPostMsgBase cbuf argc (args.getD 0 0) (args.drop 1)

/-! ## task_get_msg -/

/-- The loop over the words, with `i` and `param`; a read that delivers nothing leaves `param` alone. -/
def getWords (len : Int) : Nat → Nat → List UInt8 → UInt32 → List UInt32 → List UInt8 × List UInt32
  | 0, _, cbuf, _, msg => (cbuf, msg)
  | n + 1, i, cbuf, param, msg =>
    let r := match cbufRead cbuf 4 with
      | some (bs, rest) => (rest, wordOf bs)
      | none            => (cbuf, param)
    getWords len n (i + 1) r.1 r.2 (if (i : Int) < len then msg.set i r.2 else msg)

/-- `task_get_msg`: the buffer after it, what it returns and the caller's array.  `param` is the uninitialised local. -/
def taskGetMsg (cbuf : List UInt8) (len : Int) (param : UInt32) : List UInt8 × Int × List UInt32 :=
  let msg := List.replicate len.toNat 0xffff
  match cbufRead cbuf 2 with
  | none            => (cbuf, msgNoError, msg)
  | some (bs, rest) =>
    -- `u8 param_len = msg_value`
    let paramLen := (bs.getD 0 0).toNat
    let r := getWords len paramLen 0 rest param msg
    (r.1, if (paramLen : Int) ≥ len then msgBufNotEnough else msgNoError, r.2)

/-! ## The queue -/

/-- A message that `task_post_msg` is called with: at most 8 words, the first of them a command other than 0xff. -/
structure Message where
  words : List UInt32
  some_word : 0 < words.length
  length_le : words.length ≤ 8
  not_resume : words.getD 0 0 ≠ 0xff

namespace Message

def bytes (m : Message) : List UInt8 := le16 m.words.length ++ m.words.flatMap wordBytes

def size (m : Message) : Nat := 2 + 4 * m.words.length

end Message

def contents (q : List Message) : List UInt8 := q.flatMap Message.bytes

def sizeOf (q : List Message) : Nat := (q.map Message.size).sum

/-- There is room for the whole message. -/
def Room (q : List Message) (m : Message) : Prop := sizeOf q + m.size ≤ poolSize

instance (q : List Message) (m : Message) : Decidable (Room q m) := by unfold Room; infer_instance

inductive Event where
  | post (m : Message)
  | get (len : Int) (param : UInt32)

/-- The buffer, and the queue it stands for. -/
structure Sys where
  cbuf  : List UInt8
  queue : List Message

/-- The queue takes a message whole or not at all, and hands out the oldest. -/
def queueStep (q : List Message) : Event → List Message
  | .post m  => if Room q m then q ++ [m] else q
  | .get _ _ => q.tail

/-- One call: what it returns and, for a get, the caller's array. -/
def machine : Machine Sys Event (Int × List UInt32) where
  step s e :=
    match e with
    | .post m        =>
      let r := taskPostMsg s.cbuf m.words.length m.words
      some (⟨r.1, queueStep s.queue e⟩, r.2, [])
    | .get len param =>
      let r := taskGetMsg s.cbuf len param
      some (⟨r.1, queueStep s.queue e⟩, r.2)

def init : Sys := ⟨[], []⟩

/-- The caller's array after a message is delivered: its words as far as they fit, then 0xffff. -/
def delivered (len : Int) (words : List UInt32) : List UInt32 :=
  words.take len.toNat ++ List.replicate (len.toNat - words.length) 0xffff

/-- **The law of the queue at one step**: the buffer is the queue's messages, whole and in order; a post without room
does not return `MSG_NO_ERROR`, one with room does; a get of the oldest message delivers its words and returns
`MSG_BUF_NOT_ENOUGH` exactly when there are more than `len`. -/
def Refines (s : Sys) (e : Event) (s' : Sys) (o : Int × List UInt32) : Prop :=
  s'.cbuf = contents s'.queue ∧
    match e with
    | .post m    => (o.1 = msgNoError ↔ Room s.queue m)
    | .get len _ => ∀ m ∈ s.queue.head?, (o.1 = msgBufNotEnough ↔ (m.words.length : Int) > len) ∧
        (o.1 = msgNoError ↔ (m.words.length : Int) ≤ len) ∧ o.2 = delivered len m.words

/-- A post finds room for its message, and a get is not made with exactly as many words as the oldest message has. -/
def Fair (s : Sys) (e : Event) (_ : Sys) (_ : Int × List UInt32) : Prop :=
  match e with
  | .post m    => Room s.queue m
  | .get len _ => ∀ m ∈ s.queue.head?, (m.words.length : Int) ≠ len

/-! ## A post with room, a get of the oldest message -/

theorem wordOf_wordBytes (w : UInt32) (cs : List UInt8) : wordOf (wordBytes w ++ cs) = w := by
  have hw := w.toNat_lt
  apply UInt32.toNat_inj.1
  simp only [wordOf, wordBytes, Mem.le32, List.cons_append, List.getD_cons_zero, List.getD_cons_succ,
    UInt8.toNat_ofNat', UInt32.toNat_ofNat']
  omega

@[simp] theorem length_wordBytes (w : UInt32) : (wordBytes w).length = 4 := rfl

@[simp] theorem length_le16 (v : Nat) : (le16 v).length = 2 := rfl

theorem length_flatMap_wordBytes (ws : List UInt32) : (ws.flatMap wordBytes).length = 4 * ws.length := by
  induction ws with
  | nil => rfl
  | cons w ws ih =>
    rw [List.flatMap_cons, List.length_append, ih, length_wordBytes, List.length_cons]
    omega

@[simp] theorem Message.length_bytes (m : Message) : m.bytes.length = m.size := by
  rw [Message.bytes, List.length_append, length_flatMap_wordBytes]
  rfl

theorem length_contents (q : List Message) : (contents q).length = sizeOf q := by
  simp [contents, sizeOf, List.length_flatMap]

/-- The words written one by one, while there is room. -/
theorem foldl_cbufWrite : ∀ (ws : List UInt32) (b : List UInt8), b.length + 4 * ws.length ≤ poolSize →
    ws.foldl (fun b w => cbufWrite b (wordBytes w)) b = b ++ ws.flatMap wordBytes
  | [], b, _ => by simp
  | w :: ws, b, h => by
    rw [List.length_cons] at h
    have hb : cbufWrite b (wordBytes w) = b ++ wordBytes w := if_pos (by rw [length_wordBytes]; omega)
    rw [List.foldl_cons, hb, foldl_cbufWrite ws _ (by rw [List.length_append, length_wordBytes]; omega),
      List.flatMap_cons, List.append_assoc]

/-- The loop of the post over `i` is a loop over the words. -/
theorem taskPostMsg_eq (cbuf : List UInt8) (m : Message) :
    taskPostMsg cbuf m.words.length m.words =
      (m.words.foldl (fun b w => cbufWrite b (wordBytes w)) (cbufWrite cbuf (le16 m.words.length)), msgNoError) := by
  obtain ⟨words, hpos, hle, hcmd⟩ := m
  cases words with
  | nil => cases hpos
  | cons c ws =>
    have hmod : (c :: ws).length % 65536 = (c :: ws).length := Nat.mod_eq_of_lt (by omega)
    have hws : (List.range ws.length).map (fun i => ws.getD i 0) = ws := by
      apply List.ext_getElem
      · simp
      · intro i h1 h2
        simp [List.getElem?_eq_getElem h2]
    have hc : c ≠ 0xff := hcmd
    unfold taskPostMsg taskPostMsgBase
    rw [if_neg (by simpa using hc), hmod, List.range_succ_eq_map, List.foldl_cons, List.length_cons,
      List.range_succ_eq_map, List.map_cons, List.foldl_cons, List.map_map, List.foldl_map, List.foldl_cons]
    conv_rhs => rw [← hws, List.foldl_map]
    simp

theorem taskPostMsg_room {q : List Message} {m : Message} (h : Room q m) :
    taskPostMsg (contents q) m.words.length m.words = (contents (q ++ [m]), msgNoError) := by
  unfold Room Message.size at h
  rw [← length_contents] at h
  have hcount : cbufWrite (contents q) (le16 m.words.length) = contents q ++ le16 m.words.length :=
    if_pos (by rw [length_le16]; omega)
  rw [taskPostMsg_eq, hcount, foldl_cbufWrite _ _ (by rw [List.length_append, length_le16]; omega)]
  simp [contents, Message.bytes]

theorem taskPostMsg_result (cbuf : List UInt8) (m : Message) :
    (taskPostMsg cbuf m.words.length m.words).2 = msgNoError := by rw [taskPostMsg_eq]

theorem delivered_set (len : Int) (ws : List UInt32) (w : UInt32) :
    (if (ws.length : Int) < len then (delivered len ws).set ws.length w else delivered len ws) =
      delivered len (ws ++ [w]) := by
  unfold delivered
  rw [List.length_append, List.length_singleton]
  split
  · rename_i h
    have hrest : len.toNat - ws.length = len.toNat - (ws.length + 1) + 1 := by omega
    rw [List.take_of_length_le (by omega), List.take_of_length_le (by rw [List.length_append, List.length_singleton]; omega),
      hrest, List.replicate_succ, List.set_append_right _ _ (Nat.le_refl _), Nat.sub_self, List.set_cons_zero,
      List.append_assoc]
    rfl
  · rename_i h
    have h0 : len.toNat - ws.length = 0 := by omega
    have h1 : len.toNat - (ws.length + 1) = 0 := by omega
    rw [h0, h1, List.take_append_of_le_length (by omega)]

/-- The words of the oldest message, read one by one into the caller's array. -/
theorem getWords_eq (len : Int) (rest : List UInt8) : ∀ (ws pre : List UInt32) (param : UInt32),
    getWords len ws.length pre.length (ws.flatMap wordBytes ++ rest) param (delivered len pre) =
      (rest, delivered len (pre ++ ws))
  | [], pre, param => by simp [getWords]
  | w :: ws, pre, param => by
    have hread : cbufRead ((w :: ws).flatMap wordBytes ++ rest) 4 = some (wordBytes w, ws.flatMap wordBytes ++ rest) := by
      rw [List.flatMap_cons, List.append_assoc, cbufRead, if_pos (by rw [List.length_append, length_wordBytes]; omega)]
      rfl
    have hw : wordOf (wordBytes w) = w := by simpa using wordOf_wordBytes w []
    have ih := getWords_eq len rest ws (pre ++ [w]) w
    rw [List.length_append, List.length_singleton, List.append_assoc] at ih
    rw [List.length_cons, getWords, hread]
    dsimp only
    rw [hw, delivered_set]
    exact ih

theorem taskGetMsg_oldest (m : Message) (q : List Message) (len : Int) (param : UInt32) :
    taskGetMsg (contents (m :: q)) len param =
      (contents q, if (m.words.length : Int) ≥ len then msgBufNotEnough else msgNoError, delivered len m.words) := by
  have hread : cbufRead (contents (m :: q)) 2 =
      some (le16 m.words.length, m.words.flatMap wordBytes ++ contents q) := by
    rw [contents, List.flatMap_cons, Message.bytes, List.append_assoc, cbufRead,
      if_pos (by rw [List.length_append, length_le16]; omega)]
    rfl
  have hlen : ((le16 m.words.length).getD 0 0).toNat = m.words.length := by
    have := m.length_le
    simp only [le16, List.getD_cons_zero, UInt8.toNat_ofNat']
    omega
  have hget := getWords_eq len (contents q) m.words [] param
  rw [List.nil_append] at hget
  have hmsg : delivered len [] = List.replicate len.toNat 0xffff := by simp [delivered]
  unfold taskGetMsg
  rw [hread]
  dsimp only
  rw [hlen, ← hmsg, show (0 : Nat) = ([] : List UInt32).length from rfl, hget]

theorem taskGetMsg_empty (len : Int) (param : UInt32) :
    taskGetMsg (contents []) len param = (contents [], msgNoError, delivered len []) := by
  simp [taskGetMsg, contents, cbufRead, delivered]

/-! ## Runs -/

theorem step_refines {s s' : Sys} {e : Event} {o : Int × List UInt32} (hI : s.cbuf = contents s.queue)
    (hs : machine.step s e = some (s', o)) :
    (Refines s e s' o ↔ Fair s e s' o) ∧ (Fair s e s' o → s'.cbuf = contents s'.queue) := by
  obtain ⟨cbuf, queue⟩ := s
  dsimp only at hI
  subst hI
  cases e with
  | post m =>
    cases hs
    simp only [Refines, Fair, taskPostMsg_result, true_iff]
    by_cases hr : Room queue m
    · simp only [hr, and_true, iff_true, forall_const]
      rw [taskPostMsg_room hr, queueStep, if_pos hr]
      exact ⟨rfl, rfl⟩
    · simp only [hr, and_false, false_implies, and_self]
  | get len param =>
    cases hs
    cases queue with
    | nil =>
      simp only [Refines, Fair, taskGetMsg_empty, queueStep, List.head?_nil, List.tail_nil]
      simp
    | cons m q =>
      simp only [Refines, Fair, taskGetMsg_oldest, queueStep, List.head?_cons, List.tail_cons, Option.mem_def,
        Option.some.injEq, forall_eq', true_and, implies_true, and_true]
      by_cases hge : (m.words.length : Int) ≥ len
      · rw [if_pos hge]
        simp [msgBufNotEnough, msgNoError]
        omega
      · rw [if_neg hge]
        simp [msgBufNotEnough, msgNoError]
        omega

/-- **When the queue law holds**: over any interleaving of posts and gets, exactly when every post finds room for its
whole message and no get is made with exactly as many words as the oldest message has. -/
theorem queue_refined_iff (es : List Event) : machine.Along Refines init es ↔ machine.Along Fair init es :=
  Machine.along_iff_while (fun s => s.cbuf = contents s.queue) (fun _ _ _ _ hI hs => step_refines hI hs) es init rfl

/-- One word posted, and read into an array of one word: it is delivered and reported as too long. -/
theorem not_refines_one_word :
    ¬ machine.Along Refines init [.post ⟨[5], by decide, by decide, by decide⟩, .get 1 0] := by
  intro h
  obtain ⟨_, hget⟩ := h _ _ rfl
  obtain ⟨⟨_, hlaw⟩, _⟩ := hget _ _ rfl
  have hlong : (1 : Int) > 1 := (hlaw _ rfl).1.1 (by decide)
  omega

end Msg
end OtaLoader
