import Mathlib.Data.List.Basic
import OtaLoader.Lines
import OtaLoader.Machine
/-!
# WifiConf — editing the access point template (`wifi_conf.c`)

`WLAP_DAT` is a text of `Key=value` lines in a static array.  `wl_set_ssid`, `wl_set_passphrase` and
`wl_set_wifi_channel` find their key with `strstr` and write the value over the old one, a line break and a padding of
`#`.  A write that leaves the array gives `none`.
-/
namespace OtaLoader
namespace Wifi

abbrev Template := List UInt8

def newline : UInt8 := 10
def hash : UInt8 := 35

/-- The bytes of a string. -/
def utf8 (s : String) : List UInt8 := s.toUTF8.data.toList

/-- The lines of `WLAP_DAT` as the source writes them. -/
def wlapLines : List String :=
   ["#The word of \"Default\" must not be removed", "Default", "MacAddress=00:00:00:00:00:00", "CountryRegion=1",
    "CountryRegionABand=0", "CountryCode=CN", "BssidNum=1", "MaxStaNum=3", "IdleTimeout=300",
    "SSID=####SSID_LENTH_MUST_LESS_THAN_32", "WirelessMode=9", "TxRate=0", "Channel=11#", "BasicRate=15",
    "BeaconPeriod=100", "DtimPeriod=1", "TxPower=100", "DisableOLBC=0", "BGProtection=0", "TxAntenna=",
    "RxAntenna=", "TxPreamble=1", "RTSThreshold=2347", "FragThreshold=2346", "TxBurst=0", "PktAggregate=0",
    "TurboRate=0", "WmmCapable=0", "APSDCapable=0", "DLSCapable=0", "APAifsn=3;7;1;1", "APCwmin=4;4;3;2",
    "APCwmax=6;10;4;3", "APTxop=0;0;94;47", "APACM=0;0;0;0", "BSSAifsn=3;7;2;2", "BSSCwmin=4;4;3;2",
    "BSSCwmax=10;10;4;3", "BSSTxop=0;0;94;47", "BSSACM=0;0;0;0", "AckPolicy=0;0;0;0", "NoForwarding=0",
    "NoForwardingBTNBSSID=0", "HideSSID=0", "StationKeepAlive=0", "ShortSlot=1", "AutoChannelSelect=0",
    "IEEE8021X=0", "IEEE80211H=0", "CSPeriod=10", "WirelessEvent=0", "IdsEnable=0", "AuthFloodThreshold=32",
    "AssocReqFloodThreshold=32", "ReassocReqFloodThreshold=32", "ProbeReqFloodThreshold=32",
    "DisassocFloodThreshold=32", "DeauthFloodThreshold=32", "EapReqFooldThreshold=32", "PreAuth=0",
    "AuthMode=################", "EncrypType=################", "RekeyInterval=0", "RekeyMethod=DISABLE",
    "PMKCachePeriod=10", "WPAPSK=#########wpa_passphrase_lenth_must_more_than_7_and_less_than_63", "DefaultKeyID=1",
    "Key1Type=0", "Key1Str=", "Key2Type=0", "Key2Str=", "Key3Type=0", "Key3Str=", "Key4Type=0", "Key4Str=",
    "HSCounter=0", "AccessPolicy0=0", "AccessControlList0=", "AccessPolicy1=0", "AccessControlList1=",
    "AccessPolicy2=0", "AccessControlList2=", "AccessPolicy3=0", "AccessControlList3=", "WdsEnable=0",
    "WdsEncrypType=NONE", "WdsList=", "WdsKey=", "RADIUS_Server=192.168.2.3", "RADIUS_Port=1812",
    "RADIUS_Key=ralink", "own_ip_addr=192.168.5.234", "EAPifname=br0", "PreAuthifname=br0", "HT_HTC=0", "HT_RDG=1",
    "HT_EXTCHA=0", "HT_LinkAdapt=0", "HT_OpMode=0", "HT_MpduDensity=4", "HT_BW=0", "HT_BADecline=0", "HT_AutoBA=1",
    "HT_AMSDU=0", "HT_BAWinSize=64", "HT_GI=0", "HT_MCS=33", "MeshId=MESH", "MeshAutoLink=1", "MeshAuthMode=OPEN",
    "MeshEncrypType=NONE", "MeshWPAKEY=", "MeshDefaultkey=1", "MeshWEPKEY=", "WscManufacturer=", "WscModelName=",
    "WscDeviceName=", "WscModelNumber=", "WscSerialNumber=", "RadioOn=1", "PMFMFPC=0", "PMFMFPR=0", "PMFSHA256=0"]

/-- `WLAP_DAT` with the zero byte that ends it. -/
def wlapDat : Template := [newline].intercalate (wlapLines.map utf8) ++ [0]

/-! ## The functions -/

/-- The text that `strstr` sees. -/
def text (dat : Template) : List UInt8 := dat.takeWhile (fun b => decide (b ≠ 0))

/-- `strstr(GET_WL_AP_DAT(), key) + strlen(key)`, `none` where `strstr` returns NULL. -/
def position (key : List UInt8) (dat : Template) : Option Nat := (find key (text dat)).map (· + key.length)

def store (dat : Template) (p : Nat) (bs : List UInt8) : Option Template :=
  if p + bs.length ≤ dat.length then some (dat.take p ++ bs ++ dat.drop (p + bs.length)) else none

def strcpy (dat : Template) (p : Nat) (value : List UInt8) : Option Template := store dat p (value ++ [0])

def memset (dat : Template) (p : Nat) (b : UInt8) (n : Nat) : Option Template :=
  if p + n ≤ dat.length then store dat p (List.replicate n b) else none

/-- `width - strlen(value) - 1` in `size_t`. -/
def padding (width : Nat) (value : List UInt8) : Nat := u32 (width + 4294967296 - value.length - 1)

/-- The three writes by which every setter sets a value. -/
def putValue (dat : Template) (pos : Option Nat) (value : List UInt8) (width : Nat) : Option Template := do
  let p ← pos
  let dat ← strcpy dat p value
  let dat ← store dat (p + value.length) [newline]
  memset dat (p + value.length + 1) hash (padding width value)

def wlSetWifiChannel (dat : Template) (channel : Int) : Option (Int × Template) :=
  if channel < 1 ∨ channel > 14 then some (-1, dat)
  else do
    let channelStr := utf8 (toString channel)
    let dat ← putValue dat (position (utf8 "Channel=") dat) channelStr 3
    return (0, dat)

def wlSetSsid (dat : Template) (ssid : List UInt8) : Option (Int × Template) :=
  if ssid.length > 32 then some (-1, dat)
  else do
    let dat ← putValue dat (position (utf8 "SSID=") dat) ssid 32
    return (0, dat)

def wlSetPassphrase (dat : Template) (passphrase : List UInt8) : Option (Int × Template) :=
  let wpaPassphrasePosition := position (utf8 "WPAPSK=") dat
  let authModePosition := position (utf8 "AuthMode=") dat
  let encrypTypePosition := position (utf8 "EncrypType=") dat
  if passphrase ≠ [] then
    if passphrase.length < 8 ∨ passphrase.length > 63 then some (-1, dat)
    else do
      let dat ← putValue dat wpaPassphrasePosition passphrase 63
      let dat ← putValue dat authModePosition (utf8 "WPA2PSK") 16
      let dat ← putValue dat encrypTypePosition (utf8 "AES") 16
      return (0, dat)
  else do
    let dat ← putValue dat authModePosition (utf8 "OPEN") 16
    let dat ← putValue dat encrypTypePosition (utf8 "NONE") 16
    return (0, dat)

/-! ## The template as settings -/

/-- The keys that the setters edit. -/
inductive Key where
  | ssid | channel | authMode | encrypType | wpapsk
  deriving DecidableEq

namespace Key

def text : Key → List UInt8
  | ssid       => utf8 "SSID="
  | channel    => utf8 "Channel="
  | authMode   => utf8 "AuthMode="
  | encrypType => utf8 "EncrypType="
  | wpapsk     => utf8 "WPAPSK="

def width : Key → Nat
  | ssid       => 32
  | channel    => 3
  | authMode   => 16
  | encrypType => 16
  | wpapsk     => 63

def initial : Key → List UInt8
  | ssid       => utf8 "####SSID_LENTH_MUST_LESS_THAN_32"
  | channel    => utf8 "11#"
  | authMode   => utf8 "################"
  | encrypType => utf8 "################"
  | wpapsk     => utf8 "#########wpa_passphrase_lenth_must_more_than_7_and_less_than_63"

def all : List Key := [ssid, channel, authMode, encrypType, wpapsk]

def head (k : Key) : UInt8 := k.text.headD 0

end Key

/-- A value that the line of its key can show. -/
structure Fits (k : Key) (v : List UInt8) : Prop where
  length  : v.length ≤ k.width
  oneLine : newline ∉ v
  noNul   : 0 ∉ v
  /-- Only the SSID and the passphrase are free texts. -/
  plain   : k ≠ .ssid → k ≠ .wpapsk → 61 ∉ v

/-- What the template sets: a value for each key. -/
structure Settings where
  val  : Key → List UInt8
  fits : ∀ k, Fits k (val k)

def Settings.set (s : Settings) (k : Key) (v : List UInt8) (h : Fits k v) : Settings where
  val := Function.update s.val k v
  fits j := by
    by_cases hj : j = k
    · subst hj
      simpa using h
    · simpa [hj] using s.fits j

/-- A line of the template: a fixed one, or the line of a key. -/
def item (l : List UInt8) : List UInt8 ⊕ Key :=
  match Key.all.find? (fun k => k.text.isPrefixOf l) with
  | some k => .inr k
  | none   => .inl l

/-- All lines but the last. -/
def items : List (List UInt8 ⊕ Key) := (wlapLines.dropLast.map utf8).map item

def lastLine : List UInt8 := utf8 "PMFSHA256=0"

/-- The bytes that a value takes: it fills its place, or a line break and padding follow it. -/
def field (width : Nat) (v : List UInt8) : List UInt8 :=
  if v.length < width then v ++ newline :: List.replicate (width - v.length - 1) hash else v

def render (val : Key → List UInt8) : List UInt8 ⊕ Key → List UInt8
  | .inl l => l
  | .inr k => k.text ++ field k.width (val k)

def layout (val : Key → List UInt8) : List UInt8 := unlines newline (items.map (render val)) ++ lastLine

/-- What stands before the line of `k`. -/
def before (k : Key) : List (List UInt8 ⊕ Key) := items.takeWhile (fun i => decide (i ≠ .inr k))

def after (k : Key) : List (List UInt8 ⊕ Key) := items.drop ((before k).length + 1)

/-- A line that `strstr` passes when it looks for `k`, as long as no free text names `k`. -/
def passed (k : Key) : List UInt8 ⊕ Key → Bool
  | .inl l => (find k.text l).isNone
  | .inr j => decide (j ≠ k) && decide (j ≠ .wpapsk) && !j.text.contains k.head

/-- A fixed line that is no line of a key. -/
def isFixed : List UInt8 ⊕ Key → Bool
  | .inl l => !l.contains newline && !l.contains 0 && Key.all.all (fun k => !k.text.isPrefixOf l)
  | .inr _ => true

/-! ### The source's text is such a template -/

/-- What is computed about the text. -/
theorem template_facts : (wlapDat == layout Key.initial ++ [0]) = true ∧ items.filterMap Sum.getRight? = Key.all ∧
    items.all isFixed = true ∧ Key.all.all (fun k => (before k).all (passed k)) = true ∧
    newline ∉ lastLine ∧ 0 ∉ lastLine := by decide +kernel

theorem wlapDat_eq : wlapDat = layout Key.initial ++ [0] := eq_of_beq template_facts.1

theorem keys_items : items.filterMap Sum.getRight? = Key.all := template_facts.2.1

theorem isFixed_items : items.all isFixed = true := template_facts.2.2.1

theorem passed_before : Key.all.all (fun k => (before k).all (passed k)) = true := template_facts.2.2.2.1

/-- No break of any kind in a value, and no `=`. -/
def isPlain (v : List UInt8) : Bool := !v.contains newline && !v.contains 0 && !v.contains 61

/-- What is computed about the keys, the values in the source and those that the setters choose. -/
theorem key_facts :
    Key.all.all (fun k => !k.text.contains newline && !k.text.contains 0 && k.text.contains 61 && k.head != hash &&
      Key.all.all (fun j => j == k || j.head != k.head) && decide (k.initial.length ≤ k.width) && isPlain k.initial)
        = true ∧
    [utf8 "WPA2PSK", utf8 "AES", utf8 "OPEN", utf8 "NONE"].all isPlain = true ∧
    (List.range 15).all (fun n => isPlain (utf8 (toString (n : Int)))) = true := by decide +kernel

theorem of_isPlain {v : List UInt8} (h : isPlain v = true) : newline ∉ v ∧ 0 ∉ v ∧ 61 ∉ v := by
  simpa [isPlain, and_assoc] using h

theorem mem_all (k : Key) : k ∈ Key.all := by cases k <;> decide

theorem Key.facts (k : Key) : newline ∉ k.text ∧ 0 ∉ k.text ∧ 61 ∈ k.text ∧ k.head ≠ hash ∧
    (∀ j : Key, j.head = k.head → j = k) ∧ k.initial.length ≤ k.width ∧ isPlain k.initial = true := by
  have h := List.all_eq_true.1 key_facts.1 k (mem_all k)
  simp only [Bool.and_eq_true, Bool.not_eq_true', List.contains_eq_mem, decide_eq_false_iff_not, decide_eq_true_eq,
    bne_iff_ne, ne_eq] at h
  obtain ⟨⟨⟨⟨⟨⟨h1, h2⟩, h3⟩, h4⟩, h5⟩, h6⟩, h7⟩ := h
  refine ⟨h1, h2, h3, h4, fun j hj => ?_, h6, h7⟩
  have := List.all_eq_true.1 h5 j (mem_all j)
  simpa [hj] using this

theorem fits_initial (k : Key) : Fits k k.initial := by
  obtain ⟨-, -, -, -, -, hlen, hplain⟩ := k.facts
  obtain ⟨hnl, h0, heq⟩ := of_isPlain hplain
  exact ⟨hlen, hnl, h0, fun _ _ => heq⟩

namespace Key

theorem text_eq (k : Key) : k.text = k.head :: k.text.tail := by cases k <;> rfl

theorem newline_notMem (k : Key) : newline ∉ k.text := k.facts.1

theorem zero_notMem (k : Key) : 0 ∉ k.text := k.facts.2.1

theorem equals_mem (k : Key) : 61 ∈ k.text := k.facts.2.2.1

theorem head_ne_hash (k : Key) : k.head ≠ hash := k.facts.2.2.2.1

theorem head_injective {j k : Key} : j.head = k.head → j = k := k.facts.2.2.2.2.1 j

theorem text_ne_nil (k : Key) : k.text ≠ [] := List.ne_nil_of_mem k.equals_mem

theorem infix_append (k : Key) {a b : List UInt8} (h : k.head ∉ a) : k.text <:+: a ++ b → k.text <:+: b := by
  rw [k.text_eq]
  exact infix_of_head_notMem h

/-- No key's text starts a line of another key. -/
theorem not_starts {j k : Key} (h : j ≠ k) (r : List UInt8) : ¬ k.text <+: j.text ++ r := by
  rw [k.text_eq, j.text_eq, List.cons_append, List.cons_prefix_cons]
  exact fun hp => h (head_injective hp.1.symm)

end Key

/-! ### Fields -/

theorem length_field {k : Key} {v : List UInt8} (h : Fits k v) : (field k.width v).length = k.width := by
  have := h.length
  unfold field
  split
  · simp
    omega
  · omega

theorem zero_notMem_field {k : Key} {v : List UInt8} (h : Fits k v) : 0 ∉ field k.width v := by
  have := h.noNul
  unfold field
  split <;> simp [this, newline, hash]

/-- A key's text stands in a field only where it stands in the value. -/
theorem infix_field {k : Key} {width : Nat} {v : List UInt8} (h : k.text <:+: field width v) : k.text <:+: v := by
  unfold field at h
  split at h
  · rcases infix_of_sep k.newline_notMem h with hv | hr
    · exact hv
    · rw [k.text_eq] at hr
      exact absurd hr (not_infix_of_head_notMem (fun hm => k.head_ne_hash (List.eq_of_mem_replicate hm)))
  · exact h

/-! ### Where a key is found -/

theorem takeWhile_split {α : Type} [DecidableEq α] {a : α} : ∀ {l : List α}, a ∈ l →
    l = l.takeWhile (fun x => decide (x ≠ a)) ++ a :: l.drop ((l.takeWhile (fun x => decide (x ≠ a))).length + 1)
  | x :: l, h => by
    by_cases hx : x = a
    · subst hx
      simp
    · have hl : a ∈ l := (List.mem_cons.1 h).resolve_left (fun he => hx he.symm)
      rw [List.takeWhile_cons_of_pos (by simpa using hx), List.length_cons, List.drop_succ_cons, List.cons_append,
        ← takeWhile_split hl]

theorem items_split (k : Key) : items = before k ++ .inr k :: after k := by
  obtain ⟨i, hi, hk⟩ := List.mem_filterMap.1 (keys_items ▸ mem_all k)
  cases i with
  | inl l => cases hk
  | inr j =>
    cases hk
    exact takeWhile_split hi

theorem notMem_before (k : Key) : .inr k ∉ before k := fun h => by
  have := List.all_takeWhile (p := fun i => decide (i ≠ .inr k)) (l := items)
  rw [List.all_eq_true] at this
  simpa using this _ h

theorem notMem_after (k : Key) : .inr k ∉ after k := fun h => by
  have hkeys := keys_items
  have hk : Sum.getRight? (.inr k : List UInt8 ⊕ Key) = some k := rfl
  rw [items_split k, List.filterMap_append, List.filterMap_cons_some hk] at hkeys
  have hnd : Key.all.Nodup := by decide
  rw [← hkeys, List.nodup_append, List.nodup_cons] at hnd
  exact hnd.2.1.1 (List.mem_filterMap.2 ⟨.inr k, h, rfl⟩)

/-- `strstr` passes the lines before the key's, unless the SSID names the key. -/
theorem not_infix_before {k : Key} {s : Settings} (hs : k = .ssid ∨ ¬ k.text <:+: s.val .ssid) :
    ∀ l ∈ (before k).map (render s.val), ¬ k.text <:+: l := by
  intro l hl
  obtain ⟨i, hi, rfl⟩ := List.mem_map.1 hl
  have hp := List.all_eq_true.1 (List.all_eq_true.1 passed_before k (mem_all k)) i hi
  cases i with
  | inl l =>
    have hn : find k.text l = none := by simpa [passed] using hp
    exact not_infix_of_find_none k.text_ne_nil hn
  | inr j =>
    simp only [passed, Bool.and_eq_true, decide_eq_true_eq, Bool.not_eq_true', List.contains_eq_mem,
      decide_eq_false_iff_not] at hp
    obtain ⟨⟨hjk, hjw⟩, hhead⟩ := hp
    intro hin
    have hv : k.text <:+: s.val j := infix_field (k.infix_append hhead hin)
    by_cases hj : j = .ssid
    · subst hj
      exact hs.elim (fun h => hjk h.symm) (fun h => h hv)
    · exact (s.fits j).plain hj hjw (hv.subset k.equals_mem)

/-! ### What a setter writes -/

/-- The text before the value of `k`. -/
def upTo (k : Key) (val : Key → List UInt8) : List UInt8 := unlines newline ((before k).map (render val)) ++ k.text

/-- The text behind the place of the value of `k`. -/
def behind (k : Key) (val : Key → List UInt8) : List UInt8 :=
  newline :: (unlines newline ((after k).map (render val)) ++ lastLine)

theorem layout_eq (k : Key) (val : Key → List UInt8) :
    layout val = upTo k val ++ field k.width (val k) ++ behind k val := by
  unfold layout upTo behind
  rw [items_split k, List.map_append, unlines_append, List.map_cons, List.append_assoc, unlines_cons]
  simp [render]

theorem render_congr {val val' : Key → List UInt8} {is : List (List UInt8 ⊕ Key)}
    (h : ∀ j, .inr j ∈ is → val j = val' j) : is.map (render val) = is.map (render val') :=
  List.map_congr_left (fun i hi => by
    cases i with
    | inl l => rfl
    | inr j => simp only [render, h j hi])

section Set

variable {k : Key} {s : Settings} {v : List UInt8} (h : Fits k v)

theorem set_val_of_mem {is : List (List UInt8 ⊕ Key)} (hk : .inr k ∉ is) (j : Key) (hj : .inr j ∈ is) :
    (s.set k v h).val j = s.val j := by
  have hne : j ≠ k := fun he => hk (he ▸ hj)
  simp [Settings.set, hne]

theorem set_val_self : (s.set k v h).val k = v := by simp [Settings.set]

theorem layout_set : layout (s.set k v h).val = upTo k s.val ++ field k.width v ++ behind k s.val := by
  rw [layout_eq k, set_val_self]
  unfold upTo behind
  rw [render_congr (set_val_of_mem h (notMem_before k)), render_congr (set_val_of_mem h (notMem_after k))]

end Set

theorem length_unlines (s s' : Settings) (is : List (List UInt8 ⊕ Key)) :
    (unlines newline (is.map (render s.val))).length = (unlines newline (is.map (render s'.val))).length := by
  have hr : ∀ i : List UInt8 ⊕ Key, (render s.val i).length = (render s'.val i).length := by
    intro i
    cases i with
    | inl l => rfl
    | inr j => simp [render, length_field (s.fits j), length_field (s'.fits j)]
  simp only [unlines, List.length_flatMap, List.map_map]
  congr 1
  exact List.map_congr_left (fun i _ => by simp [hr i])

/-- The place of a value does not depend on the values. -/
theorem length_upTo (k : Key) (s s' : Settings) : (upTo k s.val).length = (upTo k s'.val).length := by
  rw [upTo, upTo, List.length_append, List.length_append, length_unlines s s']

theorem store_replace {a b b' c : List UInt8} (h : b'.length = b.length) :
    store (a ++ b ++ c) a.length b' = some (a ++ b' ++ c) := by
  unfold store
  rw [if_pos (by simp; omega), List.append_assoc a b c, List.take_left, h, ← List.drop_drop, List.drop_left,
    List.drop_left]

/-- **The writes of a setter replace the field**, when the value is shorter than its place. -/
theorem putValue_field {a f c v : List UInt8} {width : Nat} (hf : f.length = width) (hv : v.length < width)
    (hw : width < 4294967296) :
    putValue (a ++ f ++ c) (some a.length) v width = some (a ++ field width v ++ c) := by
  obtain ⟨f₁, b, f₂, rfl, h₁⟩ : ∃ f₁ b f₂, f = f₁ ++ b :: f₂ ∧ f₁.length = v.length := by
    refine ⟨f.take v.length, f[v.length], f.drop (v.length + 1), ?_, by simp; omega⟩
    rw [List.getElem_cons_drop, List.take_append_drop]
  have hpad : padding width v = f₂.length := by
    simp at hf
    unfold padding u32
    omega
  have hcpy : strcpy (a ++ (f₁ ++ b :: f₂) ++ c) a.length v = some (a ++ (v ++ [0]) ++ (f₂ ++ c)) := by
    have := @store_replace a (f₁ ++ [b]) (v ++ [0]) (f₂ ++ c) (by simp [h₁])
    simpa [strcpy] using this
  have hnl : store (a ++ (v ++ [0]) ++ (f₂ ++ c)) (a.length + v.length) [newline]
      = some (a ++ v ++ [newline] ++ (f₂ ++ c)) := by
    have := @store_replace (a ++ v) [0] [newline] (f₂ ++ c) rfl
    simpa using this
  have hset : memset (a ++ v ++ [newline] ++ (f₂ ++ c)) (a.length + v.length + 1) hash f₂.length
      = some (a ++ v ++ [newline] ++ List.replicate f₂.length hash ++ c) := by
    have := @store_replace (a ++ v ++ [newline]) f₂ (List.replicate f₂.length hash) c (by simp)
    unfold memset
    rw [if_pos (by simp; omega)]
    simpa [Nat.add_assoc] using this
  have hfield : field width v = v ++ newline :: List.replicate f₂.length hash := by
    simp at hf
    rw [field, if_pos hv]
    congr 3
    omega
  simp only [putValue, Option.bind_eq_bind, Option.bind_some, hcpy, hnl, hpad, hset, hfield]
  simp

/-- The array that holds the template with these settings. -/
def Settings.dat (s : Settings) : Template := layout s.val ++ [0]

theorem fixed_of_mem {l : List UInt8} (h : .inl l ∈ items) :
    newline ∉ l ∧ 0 ∉ l ∧ ∀ k : Key, ¬ k.text <+: l := by
  have hf := List.all_eq_true.1 isFixed_items _ h
  simp only [isFixed, Bool.and_eq_true, Bool.not_eq_true', List.contains_eq_mem, decide_eq_false_iff_not] at hf
  refine ⟨hf.1.1, hf.1.2, fun k hp => ?_⟩
  have := List.all_eq_true.1 hf.2 k (mem_all k)
  rw [List.isPrefixOf_iff_prefix.2 hp] at this
  cases this

theorem zero_notMem_layout (s : Settings) : 0 ∉ layout s.val := by
  have hlast : 0 ∉ lastLine := template_facts.2.2.2.2.2
  have hitem : ∀ i ∈ items, 0 ∉ render s.val i := by
    intro i hi
    cases i with
    | inl l => exact (fixed_of_mem hi).2.1
    | inr k => simp [render, k.zero_notMem, zero_notMem_field (s.fits k)]
  intro h
  rw [layout, List.mem_append, unlines, List.mem_flatMap] at h
  rcases h with ⟨l, hl, h0⟩ | h
  · obtain ⟨i, hi, rfl⟩ := List.mem_map.1 hl
    rcases List.mem_append.1 h0 with h0 | h0
    · exact hitem i hi h0
    · simp [newline] at h0
  · exact hlast h

theorem text_dat (s : Settings) : text s.dat = layout s.val := by
  have hall : ∀ b ∈ layout s.val, decide (b ≠ 0) = true := fun b hb =>
    decide_eq_true (fun h0 => zero_notMem_layout s (h0 ▸ hb))
  unfold text Settings.dat
  rw [List.takeWhile_append_of_pos hall]
  simp

/-- **The key is found in its own line.** -/
theorem position_dat {k : Key} {s : Settings} (hs : k = .ssid ∨ ¬ k.text <:+: s.val .ssid) :
    position k.text s.dat = some (upTo k s.val).length := by
  have hpre : k.text <+: k.text ++ field k.width (s.val k) ++ behind k s.val := by
    rw [List.append_assoc]
    exact List.prefix_append _ _
  have hne : k.text ++ field k.width (s.val k) ++ behind k s.val ≠ [] := by simp [k.text_ne_nil]
  rw [position, text_dat, layout_eq k, upTo, List.append_assoc, List.append_assoc, ← List.append_assoc k.text,
    find_unlines k.newline_notMem _ (not_infix_before hs), find_prefix hpre hne]
  simp

/-- **A setter's writes set the key**, whatever the values of the others are. -/
theorem putValue_dat {k : Key} {s : Settings} {v : List UInt8} (h : Fits k v) (hv : v.length < k.width) {p : Nat}
    (hp : p = (upTo k s.val).length) : putValue s.dat (some p) v k.width = some (s.set k v h).dat := by
  have hw : k.width < 4294967296 := by cases k <;> decide
  subst hp
  unfold Settings.dat
  rw [layout_set, layout_eq k, List.append_assoc (_ ++ _), putValue_field (length_field (s.fits k)) hv hw]
  simp

/-! ## What a reader sees -/

/-- A line of `#`, which the setters leave behind a value; the empty one too. -/
def isPadding (l : List UInt8) : Bool := l.all (· == hash)

/-- The lines that do not start with a key of `ks`; `padded` tells that the line before did, or is the padding behind
one that did. -/
def othersFrom (ks : List Key) : Bool → List (List UInt8) → List (List UInt8)
  | _, []           => []
  | padded, l :: ls =>
    if ks.any (fun k => k.text.isPrefixOf l) then othersFrom ks true ls
    else if padded && isPadding l then othersFrom ks true ls
    else l :: othersFrom ks false ls

/-- The lines other than those of the keys `ks` and the padding behind these. -/
def others (ks : List Key) (dat : Template) : List (List UInt8) := othersFrom ks false ((text dat).splitOn newline)

/-- What the first line that starts with the key shows. -/
def readKey (k : Key) (dat : Template) : Option (List UInt8) :=
  (((text dat).splitOn newline).find? (fun l => k.text.isPrefixOf l)).map (fun l => l.drop k.text.length)

theorem splitOn_field {k : Key} {v : List UInt8} (h : Fits k v) :
    ∃ pad, (k.text ++ field k.width v).splitOn newline = (k.text ++ v) :: pad ∧ ∀ l ∈ pad, isPadding l = true := by
  have hnl : newline ∉ k.text ++ v := by simp [k.newline_notMem, h.oneLine]
  unfold field
  split
  · have hpad : newline ∉ List.replicate (k.width - v.length - 1) hash := by simp [newline, hash]
    refine ⟨[List.replicate (k.width - v.length - 1) hash], ?_, by simp [isPadding]⟩
    rw [← List.append_assoc, List.splitOn_append_cons_self_of_not_mem hnl, List.splitOn_eq_singleton hpad]
  · exact ⟨[], List.splitOn_eq_singleton hnl, by simp⟩

theorem padding_starts_no_key (k : Key) {l : List UInt8} (h : isPadding l = true) : ¬ k.text <+: l := fun hp => by
  have hm : k.head ∈ l := hp.subset (by rw [k.text_eq]; exact List.mem_cons_self ..)
  exact k.head_ne_hash (by simpa using List.all_eq_true.1 h _ hm)

/-- Only the key's own line starts with the key. -/
theorem item_of_start {s : Settings} {i : List UInt8 ⊕ Key} (hi : i ∈ items) {l : List UInt8}
    (hl : l ∈ (render s.val i).splitOn newline) {k : Key} (hk : k.text <+: l) : i = .inr k := by
  cases i with
  | inl l' =>
    obtain ⟨hnl, -, hno⟩ := fixed_of_mem hi
    rw [render, List.splitOn_eq_singleton hnl, List.mem_singleton] at hl
    exact absurd (hl ▸ hk) (hno k)
  | inr j =>
    obtain ⟨pad, hsplit, hpad⟩ := splitOn_field (s.fits j)
    rw [render, hsplit, List.mem_cons] at hl
    rcases hl with rfl | hl
    · by_cases hjk : j = k
      · rw [hjk]
      · exact absurd hk (Key.not_starts hjk _)
    · exact absurd hk (padding_starts_no_key k (hpad l hl))

theorem lines_dat (s : Settings) :
    (text s.dat).splitOn newline = items.flatMap (fun i => (render s.val i).splitOn newline) ++ [lastLine] := by
  have hlast : lastLine.splitOn newline = [lastLine] := List.splitOn_eq_singleton template_facts.2.2.2.2.1
  rw [text_dat, layout, splitOn_unlines, hlast, List.flatMap_map]

/-- **A key reads as its value.** -/
theorem readKey_dat (k : Key) (s : Settings) : readKey k s.dat = some (s.val k) := by
  have hbefore : ((before k).flatMap (fun i => (render s.val i).splitOn newline)).find?
      (fun l => k.text.isPrefixOf l) = none := by
    rw [List.find?_eq_none]
    intro l hl hp
    obtain ⟨i, hi, hl⟩ := List.mem_flatMap.1 hl
    have hitem : i ∈ items := items_split k ▸ List.mem_append_left _ hi
    exact notMem_before k (item_of_start hitem hl (List.isPrefixOf_iff_prefix.1 hp) ▸ hi)
  obtain ⟨pad, hsplit, -⟩ := splitOn_field (s.fits k)
  have hp : k.text.isPrefixOf (k.text ++ s.val k) = true := List.isPrefixOf_iff_prefix.2 (List.prefix_append _ _)
  unfold readKey
  rw [lines_dat, items_split k, List.flatMap_append, List.append_assoc, List.find?_append, hbefore, Option.none_or,
    List.flatMap_cons, render, hsplit, List.cons_append, List.cons_append, List.find?_cons_of_pos hp]
  simp

theorem othersFrom_append {ks : List Key} {ls ls' : List (List UInt8)}
    (h : ∀ padded, othersFrom ks padded ls = othersFrom ks padded ls') :
    ∀ (pre : List (List UInt8)) (padded : Bool), othersFrom ks padded (pre ++ ls) = othersFrom ks padded (pre ++ ls')
  | [], padded       => h padded
  | l :: pre, padded => by
    simp only [List.cons_append, othersFrom, othersFrom_append h pre]

/-- The line of a key of `ks` is left out with its padding. -/
theorem othersFrom_field {ks : List Key} {k : Key} (hk : k ∈ ks) (s : Settings) (padded : Bool)
    (ls : List (List UInt8)) :
    othersFrom ks padded ((render s.val (.inr k)).splitOn newline ++ ls) = othersFrom ks true ls := by
  obtain ⟨pad, hsplit, hpad⟩ := splitOn_field (s.fits k)
  have hkey : ks.any (fun j => j.text.isPrefixOf (k.text ++ s.val k)) = true :=
    List.any_eq_true.2 ⟨k, hk, List.isPrefixOf_iff_prefix.2 (List.prefix_append _ _)⟩
  rw [render, hsplit, List.cons_append, othersFrom, if_pos hkey]
  clear hsplit
  induction pad with
  | nil           => rfl
  | cons l pad ih =>
    have hl := hpad l List.mem_cons_self
    have ih := ih (fun l' hl' => hpad l' (List.mem_cons_of_mem _ hl'))
    rw [List.cons_append, othersFrom, ih, Bool.true_and, hl, if_pos rfl, ite_self]

/-- **The other lines do not depend on the values of `ks`.** -/
theorem others_dat {ks : List Key} {s s' : Settings} (h : ∀ k, k ∉ ks → s.val k = s'.val k) :
    others ks s.dat = others ks s'.dat := by
  have hitems : ∀ (is : List (List UInt8 ⊕ Key)) (padded : Bool),
      othersFrom ks padded (is.flatMap (fun i => (render s.val i).splitOn newline) ++ [lastLine]) =
        othersFrom ks padded (is.flatMap (fun i => (render s'.val i).splitOn newline) ++ [lastLine]) := by
    intro is
    induction is with
    | nil          => exact fun _ => rfl
    | cons i is ih =>
      intro padded
      rw [List.flatMap_cons, List.flatMap_cons, List.append_assoc, List.append_assoc]
      cases i with
      | inl l => exact othersFrom_append ih _ padded
      | inr k =>
        by_cases hk : k ∈ ks
        · rw [othersFrom_field hk, othersFrom_field hk, ih]
        · simp only [render, h k hk]
          exact othersFrom_append ih _ padded
  unfold others
  rw [lines_dat, lines_dat, hitems]

/-! ## Runs -/

/-- A call of a setter. -/
inductive Call where
  | ssid (ssid : List UInt8)
  | passphrase (passphrase : List UInt8)
  | channel (channel : Int)

namespace Call

def run : Call → Template → Option (Int × Template)
  | ssid v, dat       => wlSetSsid dat v
  | passphrase p, dat => wlSetPassphrase dat p
  | channel n, dat    => wlSetWifiChannel dat n

/-- The arguments are C strings that pass the function's own checks. -/
def accepted : Call → Bool
  | ssid v       => decide (v.length ≤ 32) && !v.contains 0
  | passphrase p => (decide (p = []) || decide (8 ≤ p.length) && decide (p.length ≤ 63)) && !p.contains 0
  | channel n    => decide (1 ≤ n) && decide (n ≤ 14)

/-- The keys that the call sets, with their values.  An empty passphrase is an open network, which has none. -/
def sets : Call → List (Key × List UInt8)
  | ssid v       => [(.ssid, v)]
  | passphrase p =>
    if p ≠ [] then [(.wpapsk, p), (.authMode, utf8 "WPA2PSK"), (.encrypType, utf8 "AES")]
    else [(.authMode, utf8 "OPEN"), (.encrypType, utf8 "NONE")]
  | channel n    => [(.channel, utf8 (toString n))]

end Call

/-- The template, and what each key was set to last. -/
structure State where
  dat  : Template
  last : Key → Option (List UInt8)

def State.init : State := { dat := wlapDat, last := fun _ => none }

/-- A step shows what the call returns, `none` when it writes outside the array. -/
def machine : Machine State Call (Option Int) where
  step s c :=
    if c.accepted then
      match c.run s.dat with
      | some (r, dat) => some ({ dat := dat, last := fun k => (c.sets.lookup k).or (s.last k) }, some r)
      | none          => some (s, none)
    else none

/-- What the edit promises. -/
structure Edited (s : State) (c : Call) (s' : State) (o : Option Int) : Prop where
  inside     : o = some 0
  length     : s'.dat.length = s.dat.length
  terminated : ∃ t, s'.dat = t ++ [0] ∧ 0 ∉ t
  frame      : others (c.sets.map Prod.fst) s'.dat = others (c.sets.map Prod.fst) s.dat
  reads      : ∀ k v, s'.last k = some v → readKey k s'.dat = some v

/-- Each value is shorter than its place and on one line, and the SSID in the template does not name the key. -/
def Clear (s : State) (c : Call) : Prop :=
  ∀ p ∈ c.sets, p.2.length < p.1.width ∧ newline ∉ p.2 ∧
    (p.1 = .ssid ∨ ∀ v, readKey .ssid s.dat = some v → ¬ p.1.text <:+: v)

/-! ## The setters on the settings -/

theorem sets_passphrase {p : List UInt8} (h : p ≠ []) :
    Call.sets (.passphrase p) = [(.wpapsk, p), (.authMode, utf8 "WPA2PSK"), (.encrypType, utf8 "AES")] := if_pos h

theorem sets_empty {p : List UInt8} (h : ¬ p ≠ []) :
    Call.sets (.passphrase p) = [(.authMode, utf8 "OPEN"), (.encrypType, utf8 "NONE")] := if_neg h

/-- The values that `wl_set_passphrase` chooses itself. -/
theorem fits_chosen {k : Key} {v : List UInt8} (hv : v ∈ [utf8 "WPA2PSK", utf8 "AES", utf8 "OPEN", utf8 "NONE"])
    (hlen : v.length ≤ k.width) : Fits k v := by
  obtain ⟨hnl, h0, heq⟩ := of_isPlain (List.all_eq_true.1 key_facts.2.1 v hv)
  exact ⟨hlen, hnl, h0, fun _ _ => heq⟩

theorem fits_sets {c : Call} (hc : c.accepted = true) {k : Key} {v : List UInt8} (hm : (k, v) ∈ c.sets)
    (hlen : v.length ≤ k.width) (hnl : newline ∉ v) : Fits k v := by
  cases c with
  | ssid w =>
    simp only [Call.sets, List.mem_singleton, Prod.mk.injEq] at hm
    simp only [Call.accepted, Bool.and_eq_true, Bool.not_eq_true', List.contains_eq_mem, decide_eq_false_iff_not] at hc
    obtain ⟨rfl, rfl⟩ := hm
    exact ⟨hlen, hnl, hc.2, fun h => absurd rfl h⟩
  | passphrase w =>
    simp only [Call.accepted, Bool.and_eq_true, Bool.not_eq_true', List.contains_eq_mem, decide_eq_false_iff_not] at hc
    by_cases hw : w ≠ []
    · rw [sets_passphrase hw] at hm
      simp only [List.mem_cons, List.not_mem_nil, or_false, Prod.mk.injEq] at hm
      rcases hm with ⟨rfl, rfl⟩ | ⟨rfl, rfl⟩ | ⟨rfl, rfl⟩
      · exact ⟨hlen, hnl, hc.2, fun _ h => absurd rfl h⟩
      · exact fits_chosen (by simp) hlen
      · exact fits_chosen (by simp) hlen
    · rw [sets_empty hw] at hm
      simp only [List.mem_cons, List.not_mem_nil, or_false, Prod.mk.injEq] at hm
      rcases hm with ⟨rfl, rfl⟩ | ⟨rfl, rfl⟩
      · exact fits_chosen (by simp) hlen
      · exact fits_chosen (by simp) hlen
  | channel n =>
    simp only [Call.sets, List.mem_singleton, Prod.mk.injEq] at hm
    simp only [Call.accepted, Bool.and_eq_true, decide_eq_true_eq] at hc
    obtain ⟨rfl, rfl⟩ := hm
    obtain ⟨m, rfl⟩ : ∃ m : Nat, n = (m : Int) := ⟨n.toNat, by omega⟩
    have hm : m ∈ List.range 15 := List.mem_range.2 (by omega)
    obtain ⟨-, h0, heq⟩ := of_isPlain (List.all_eq_true.1 key_facts.2.2 m hm)
    exact ⟨hlen, hnl, h0, fun _ _ => heq⟩

/-- One edit as every setter makes it. -/
theorem edit_dat {k : Key} {v : List UInt8} {s t : Settings} (hs : k = .ssid ∨ ¬ k.text <:+: s.val .ssid)
    (h : Fits k v) (hv : v.length < k.width) :
    putValue t.dat (position k.text s.dat) v k.width = some (t.set k v h).dat := by
  rw [position_dat hs]
  exact putValue_dat h hv (length_upTo k s t)

/-- **A clear call sets its keys.** -/
theorem run_dat {c : Call} {s : State} {t : Settings} (hs : s.dat = t.dat) (hc : c.accepted = true)
    (hclear : Clear s c) :
    ∃ t' : Settings, c.run s.dat = some (0, t'.dat) ∧ ∀ k, t'.val k = (c.sets.lookup k).getD (t.val k) := by
  have hedit : ∀ k v, (k, v) ∈ c.sets → ∃ h : Fits k v, ∀ u : Settings,
      putValue u.dat (position k.text t.dat) v k.width = some (u.set k v h).dat := by
    intro k v hm
    obtain ⟨hlen, hnl, hss⟩ := hclear (k, v) hm
    refine ⟨fits_sets hc hm (Nat.le_of_lt hlen) hnl, fun u => edit_dat (hss.imp_right fun h => ?_) _ hlen⟩
    exact h _ (hs ▸ readKey_dat .ssid t)
  rw [hs]
  cases c with
  | ssid w =>
    obtain ⟨hf, he⟩ := hedit .ssid w (by simp [Call.sets])
    have hlen : ¬ w.length > 32 := Nat.not_lt.2 hf.length
    have hput : putValue t.dat (position (utf8 "SSID=") t.dat) w 32 = some (t.set .ssid w hf).dat := he t
    refine ⟨t.set .ssid w hf, ?_, fun k => by cases k <;> rfl⟩
    simp only [Call.run, wlSetSsid, if_neg hlen, hput]
    rfl
  | passphrase w =>
    simp only [Call.run, wlSetPassphrase]
    by_cases hw : w ≠ []
    · rw [sets_passphrase hw] at hedit ⊢
      obtain ⟨hp, hep⟩ := hedit .wpapsk w (by simp)
      obtain ⟨ha, hea⟩ := hedit .authMode (utf8 "WPA2PSK") (by simp)
      obtain ⟨hn, hen⟩ := hedit .encrypType (utf8 "AES") (by simp)
      have hlen : ¬ (w.length < 8 ∨ w.length > 63) := by
        have hmax : w.length ≤ 63 := hp.length
        simp only [Call.accepted, hw, decide_false, Bool.false_or, Bool.and_eq_true, decide_eq_true_eq] at hc
        omega
      let t₁ := t.set .wpapsk w hp
      let t₂ := t₁.set .authMode (utf8 "WPA2PSK") ha
      let t₃ := t₂.set .encrypType (utf8 "AES") hn
      have h₁ : putValue t.dat (position (utf8 "WPAPSK=") t.dat) w 63 = some t₁.dat := hep t
      have h₂ : putValue t₁.dat (position (utf8 "AuthMode=") t.dat) (utf8 "WPA2PSK") 16 = some t₂.dat := hea t₁
      have h₃ : putValue t₂.dat (position (utf8 "EncrypType=") t.dat) (utf8 "AES") 16 = some t₃.dat := hen t₂
      refine ⟨t₃, ?_, fun k => by cases k <;> rfl⟩
      rw [if_pos hw, if_neg hlen]
      simp only [Option.bind_eq_bind, h₁, h₂, h₃, Option.bind_some]
      rfl
    · rw [sets_empty hw] at hedit ⊢
      obtain ⟨ha, hea⟩ := hedit .authMode (utf8 "OPEN") (by simp)
      obtain ⟨hn, hen⟩ := hedit .encrypType (utf8 "NONE") (by simp)
      let t₁ := t.set .authMode (utf8 "OPEN") ha
      let t₂ := t₁.set .encrypType (utf8 "NONE") hn
      have h₁ : putValue t.dat (position (utf8 "AuthMode=") t.dat) (utf8 "OPEN") 16 = some t₁.dat := hea t
      have h₂ : putValue t₁.dat (position (utf8 "EncrypType=") t.dat) (utf8 "NONE") 16 = some t₂.dat := hen t₁
      refine ⟨t₂, ?_, fun k => by cases k <;> rfl⟩
      rw [if_neg hw]
      simp only [Option.bind_eq_bind, h₁, h₂, Option.bind_some]
      rfl
  | channel n =>
    obtain ⟨hf, he⟩ := hedit .channel (utf8 (toString n)) (by simp [Call.sets])
    have hn : ¬ (n < 1 ∨ n > 14) := by
      simp only [Call.accepted, Bool.and_eq_true, decide_eq_true_eq] at hc
      omega
    have hput : putValue t.dat (position (utf8 "Channel=") t.dat) (utf8 (toString n)) 3
        = some (t.set .channel (utf8 (toString n)) hf).dat := he t
    refine ⟨t.set .channel (utf8 (toString n)) hf, ?_, fun k => by cases k <;> rfl⟩
    simp only [Call.run, wlSetWifiChannel, if_neg hn, hput]
    rfl

/-- The template holds settings, and each key that was set has its last value in them. -/
def Holds (s : State) : Prop := ∃ t : Settings, s.dat = t.dat ∧ ∀ k v, s.last k = some v → t.val k = v

theorem holds_init : Holds .init :=
  ⟨⟨Key.initial, fits_initial⟩, wlapDat_eq, fun _ _ h => by cases h⟩

theorem length_dat (s s' : Settings) : s.dat.length = s'.dat.length := by
  simp only [Settings.dat, layout, List.length_append, length_unlines s s']

/-- **Edits of the template**: as long as every value is shorter than its place and on one line, and no SSID names a
key that is set, each call writes inside the array, leaves the other lines alone, and every key reads as it was set
last. -/
theorem edits_hold (cs : List Call) (hclear : machine.Along (fun s c _ _ => Clear s c) .init cs) :
    machine.Along Edited .init cs := by
  refine Machine.along_of_inv Holds (fun s c s' o hI hstep hc => ?_) cs .init holds_init hclear
  obtain ⟨t, hdat, hlast⟩ := hI
  simp only [machine] at hstep
  split at hstep
  · rename_i hacc
    obtain ⟨t', hrun, hval⟩ := run_dat hdat hacc hc
    rw [hrun] at hstep
    cases hstep
    have hreads : ∀ k v, (c.sets.lookup k).or (s.last k) = some v → t'.val k = v := by
      intro k v hv
      rw [hval k]
      cases hl : c.sets.lookup k with
      | none   => exact hlast k v (by simpa [hl] using hv)
      | some w => simpa [hl] using hv
    refine ⟨⟨t', rfl, hreads⟩, rfl, ?_, ⟨_, rfl, zero_notMem_layout t'⟩, ?_, fun k v hv => ?_⟩
    · rw [hdat]
      exact length_dat t' t
    · rw [hdat]
      refine others_dat (fun k hk => ?_)
      have hnone : c.sets.lookup k = none := by
        rw [List.lookup_eq_none_iff]
        intro p hp
        have : p.1 ≠ k := fun he => hk (List.mem_map.2 ⟨p, hp, he⟩)
        simpa using this.symm
      rw [hval k, hnone, Option.getD_none]
    · rw [readKey_dat, hreads k v hv]
  · cases hstep

theorem edits_hold_secured :
    machine.Along Edited .init [.passphrase (utf8 "12345678"), .ssid (utf8 "ap")] := by
  refine edits_hold _ (fun s₁ _ _ => ⟨?_, fun s₂ _ _ => ⟨?_, trivial⟩⟩)
  · obtain ⟨hssid, hkeys⟩ : readKey .ssid wlapDat = some Key.ssid.initial ∧
        Key.all.all (fun k => (find k.text Key.ssid.initial).isNone) = true := by decide +kernel
    intro p hp
    have hfit : p.2.length < p.1.width ∧ newline ∉ p.2 := by revert p; decide +kernel
    refine ⟨hfit.1, hfit.2, .inr (fun v hv => ?_)⟩
    cases hssid.symm.trans hv
    have := List.all_eq_true.1 hkeys p.1 (mem_all _)
    exact not_infix_of_find_none p.1.text_ne_nil (by simpa using this)
  · intro p hp
    simp only [Call.sets, List.mem_singleton] at hp
    subst hp
    exact ⟨by decide +kernel, by decide +kernel, .inl rfl⟩

/-- **An SSID of 32 bytes**, which the check lets through: the length of the padding wraps, and `memset` runs over the
end of the template. -/
theorem not_edits_hold : ¬ ∀ cs : List Call, machine.Along Edited .init cs := by
  intro h
  have hstep : machine.step .init (.ssid (List.replicate 32 65)) = some (.init, none) := by
    have hrun : Call.run (.ssid (List.replicate 32 65)) State.init.dat = none := by decide +kernel
    simp only [machine, hrun]
    rfl
  have hinside := (h [.ssid (List.replicate 32 65)] .init none hstep).1.inside
  cases hinside

end Wifi
end OtaLoader
