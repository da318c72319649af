import OtaLoader.ApSide
import OtaLoader.Formats
import OtaLoader.Sta
import OtaLoader.WifiConf
/-!
# Requests — the texts that `sprintf` makes for the network

The models of the downloader and of the control port write their texts down as they are sent.  The code makes them with
`sprintf`, from a format: here both are the same, whatever the URL, the range and the version are.
-/
namespace OtaLoader
namespace Requests

open Formats

/-- The macro `HTTP_GET_HEAD`. -/
def httpGetHeadFormat : List UInt8 :=
  ascii "GET %s HTTP/1.1\r\nHost: %s\r\nUser-Agent: User\r\nAccept: */*\r\nConnection: Close\r\nRange: bytes=%d-%d\r\n\r\n"

/-- The macro `CTP_APP_ACCESS_NOTIFY_START`. -/
def ctpNotifyStart : List UInt8 := ascii "\x7b\"op\":\"NOTIFY\",\"param\":\x7b\"type\":\"0\",\"ver\":\"%d%s"

/-- The macro `CTP_APP_ACCESS_NOTIFY_END`. -/
def ctpNotifyEnd : List UInt8 := ascii "\"\x7d\x7d"

/-! ## Pieces of a text -/

/-- Characters that stand for themselves. -/
def lits (bs : List UInt8) : List Item := bs.map Item.lit

/-- A conversion without a field. -/
def bare : Field := ⟨false, false, 0⟩

theorem formatOf_append (is js : List Item) : formatOf (is ++ js) = formatOf is ++ formatOf js := List.flatMap_append

theorem argsOf_append (is js : List Item) : argsOf (is ++ js) = argsOf is ++ argsOf js := List.flatMap_append

theorem textOf_append (is js : List Item) : textOf (is ++ js) = textOf is ++ textOf js := List.flatMap_append

theorem formatOf_lits (bs : List UInt8) : formatOf (lits bs) = bs := by
  induction bs with
  | nil         => rfl
  | cons b bs ih => exact congrArg (b :: ·) ih

theorem argsOf_lits (bs : List UInt8) : argsOf (lits bs) = [] := by
  induction bs with
  | nil         => rfl
  | cons b bs ih => exact ih

theorem textOf_lits (bs : List UInt8) : textOf (lits bs) = bs := by
  induction bs with
  | nil         => rfl
  | cons b bs ih => exact congrArg (b :: ·) ih

theorem put_bare (sign ds : List UInt8) : bare.put sign ds = sign ++ ds := by
  simp [Field.put, bare]

theorem text_str (s : List UInt8) : textOf [.str bare s] = s := by
  simp [textOf, Item.text, put_bare]

theorem formatOf_str (s : List UInt8) : formatOf [.str bare s] = [37, 115] := rfl

theorem formatOf_d (v : UInt32) : formatOf [.num bare .d v] = [37, 100] := rfl

/-- `%d` of a word. -/
theorem text_d (v : UInt32) : textOf [.num bare .d v] =
    if v.toNat < 2147483648 then numeral false 10 v.toNat else 45 :: numeral false 10 (4294967296 - v.toNat) := by
  have hneg : Letter.negative .d v = decide (2 ^ 31 ≤ v.toNat) := rfl
  have hbase : Letter.base .d = 10 := rfl
  have habs : Letter.abs .d v = if 2 ^ 31 ≤ v.toNat then 2 ^ 32 - v.toNat else v.toNat := by
    unfold Letter.abs
    simp only [hneg, decide_eq_true_eq]
  simp only [textOf, List.flatMap_cons, List.flatMap_nil, List.append_nil, Item.text, put_bare, hneg, hbase, habs,
    decide_eq_true_eq]
  rw [numeral_upper (by decide) (by decide) false]
  by_cases h : 2 ^ 31 ≤ v.toNat
  · rw [if_pos h, if_pos h, if_neg (by omega)]
    rfl
  · rw [if_neg h, if_neg h, if_pos (by omega)]
    rfl

/-! ## The request of the downloader -/

def requestItems (file host : List UInt8) (first last : UInt32) : List Item :=
  lits (ascii "GET ") ++ [.str bare file] ++ lits (ascii " HTTP/1.1\r\nHost: ") ++ [.str bare host] ++
    lits (ascii "\r\nUser-Agent: User\r\nAccept: */*\r\nConnection: Close\r\nRange: bytes=") ++ [.num bare .d first] ++
    lits (ascii "-") ++ [.num bare .d last] ++ lits (ascii "\r\n\r\n")

theorem plain_lits {bs : List UInt8} (h : ∀ b ∈ bs, b ≠ 37) : ∀ i ∈ lits bs, i.Plain := by
  intro i hi
  obtain ⟨b, hb, rfl⟩ := List.mem_map.1 hi
  exact h b hb

theorem sprintf_httpGetHead (m : Mem) (sendBuf : Nat) (file host : List UInt8) (first last : UInt32) :
    Stdarg.sprintf m sendBuf httpGetHeadFormat [.str file, .str host, .int first, .int last] =
      some ((Sta.httpGetHead file host first.toNat last.toNat).length,
        m.write sendBuf (Sta.httpGetHead file host first.toNat last.toNat ++ [0])) := by
  have hd : ∀ v : UInt32, textOf [.num bare .d v] = Sta.showInt v.toNat := text_d
  have hformat : formatOf (requestItems file host first last) = httpGetHeadFormat := by
    simp only [requestItems, formatOf_append, formatOf_lits, formatOf_str, formatOf_d]
    decide +kernel
  have hargs : argsOf (requestItems file host first last) = [.str file, .str host, .int first, .int last] := by
    simp only [requestItems, argsOf_append, argsOf_lits]
    rfl
  have htext : textOf (requestItems file host first last) = Sta.httpGetHead file host first.toNat last.toNat := by
    simp only [requestItems, textOf_append, textOf_lits, text_str, hd]
    rfl
  have hplain : ∀ i ∈ requestItems file host first last, i.Plain := by
    have hstr : ∀ s, (Item.str bare s).Plain := fun s => ⟨rfl, by decide⟩
    have hnum : ∀ v, (Item.num bare .d v).Plain := fun v => ⟨rfl, by decide⟩
    unfold requestItems
    simp only [List.forall_mem_append, List.forall_mem_singleton]
    exact ⟨⟨⟨⟨⟨⟨⟨⟨plain_lits (by decide +kernel), hstr file⟩, plain_lits (by decide +kernel)⟩, hstr host⟩,
      plain_lits (by decide +kernel)⟩, hnum first⟩, plain_lits (by decide +kernel)⟩, hnum last⟩, plain_lits (by decide +kernel)⟩
  have h := sprintf_items hplain m sendBuf
  rwa [hformat, hargs, htext] at h

/-! ## The answer on the control port -/

def notifyItems (vers : UInt32) : List Item :=
  lits (ascii "\x7b\"op\":\"NOTIFY\",\"param\":\x7b\"type\":\"0\",\"ver\":\"") ++ [.num bare .d vers] ++ [.str bare ctpNotifyEnd]

theorem sprintf_notifyContent (m : Mem) (p : Nat) (vers : UInt32) :
    Stdarg.sprintf m p ctpNotifyStart
        [.int (if vers = 0 then UInt32.ofNat Side.ctpNotifyVer else vers), .str ctpNotifyEnd] =
      some ((Side.notifyContent vers.toNat).length, m.write p (Side.notifyContent vers.toNat ++ [0])) := by
  have hver : (if vers = 0 then UInt32.ofNat Side.ctpNotifyVer else vers).toNat =
      if vers.toNat = 0 then Side.ctpNotifyVer else vers.toNat := by
    by_cases h : vers = 0
    · rw [h]
      decide
    · have h0 : vers.toNat ≠ 0 := fun h0 => h (UInt32.toNat_inj.1 h0)
      rw [if_neg h, if_neg h0]
  unfold Side.notifyContent
  rw [← hver]
  generalize (if vers = 0 then UInt32.ofNat Side.ctpNotifyVer else vers) = v
  have hd : textOf [.num bare .d v] = Side.decimal (Side.signed32 v.toNat) := by
    have hv : v.toNat < 2 ^ 32 := v.toNat_lt
    rw [text_d]
    unfold Side.decimal Side.signed32
    by_cases h : v.toNat < 2147483648
    · rw [if_pos h, if_pos h, if_neg (by omega)]
      rfl
    · have habs : ((v.toNat : Int) - 4294967296).natAbs = 4294967296 - v.toNat := by omega
      rw [if_neg h, if_neg h, if_pos (by omega), habs]
      rfl
  have hformat : formatOf (notifyItems v) = ctpNotifyStart := by
    simp only [notifyItems, formatOf_append, formatOf_lits, formatOf_str, formatOf_d]
    decide +kernel
  have hargs : argsOf (notifyItems v) = [.int v, .str ctpNotifyEnd] := by
    simp only [notifyItems, argsOf_append, argsOf_lits]
    rfl
  have hplain : ∀ i ∈ notifyItems v, i.Plain := by
    unfold notifyItems
    simp only [List.forall_mem_append, List.forall_mem_singleton]
    exact ⟨⟨plain_lits (by decide +kernel), rfl, by decide⟩, rfl, by decide⟩
  have htext : textOf (notifyItems v) = ascii "\x7b\"op\":\"NOTIFY\",\"param\":\x7b\"type\":\"0\",\"ver\":\"" ++
      Side.decimal (Side.signed32 v.toNat) ++ ascii "\"\x7d\x7d" := by
    simp only [notifyItems, textOf_append, textOf_lits, text_str, hd]
    rfl
  have h := sprintf_items hplain m p
  rwa [hformat, hargs, htext] at h

end Requests
end OtaLoader
