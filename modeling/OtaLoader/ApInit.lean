import OtaLoader.WifiConf
/-!
# ApInit — setting up the access point (`wl_ap_init` in `wifi_conf.c`)

`wl_ap_init` calls `wl_set_ssid` and `wl_set_passphrase` one after the other and returns 0, whatever they return.  So it
is all or nothing exactly when nothing is rejected (`apInit_iff`): after any run of calls whose accepted values fit, and
as long as the SSID in force names no key that the passphrase sets.
-/
namespace OtaLoader
namespace Wifi

/-- A C string: the bytes before its zero byte. -/
abbrev CStr := { s : List UInt8 // 0 ∉ s }

/-- A setter at a pointer argument, which is checked first; `none` is NULL. -/
def orNull (setter : Template → List UInt8 → Option (Int × Template)) (dat : Template) :
    Option CStr → Option (Int × Template)
  | none   => some (-1, dat)
  | some v => setter dat v.val

def wlApInit (dat : Template) (ssid passphrase : Option CStr) : Option (Int × Template) := do
  let (_, dat) ← orNull wlSetSsid dat ssid
  let (_, dat) ← orNull wlSetPassphrase dat passphrase
  return (0, dat)

/-- A configuration call. -/
inductive Config where
  | channel (channel : Int)
  | apInit (ssid passphrase : Option CStr)

def Config.run (dat : Template) : Config → Option (Int × Template)
  | channel n              => wlSetWifiChannel dat n
  | apInit ssid passphrase => wlApInit dat ssid passphrase

/-- A step shows what the call returns.  A call that writes outside the array is not taken. -/
def configs : Machine Template Config Int where
  step dat c := (c.run dat).map Prod.swap

/-! ## All or nothing -/

/-- The pointer is not NULL and its string passes the setter's checks. -/
def accepts (call : List UInt8 → Call) : Option CStr → Bool
  | none   => false
  | some v => (call v.val).accepted

/-- What an accepted argument sets. -/
def news (call : List UInt8 → Call) : Option CStr → List (Key × List UInt8)
  | none   => []
  | some v => if (call v.val).accepted then (call v.val).sets else []

/-- The call returns 0 exactly when both arguments are accepted, and then the template holds what they set; otherwise
the template is as before. -/
def AllOrNothing (dat : Template) (ssid passphrase : Option CStr) : Prop :=
  ∃ r dat', wlApInit dat ssid passphrase = some (r, dat') ∧
    (r = 0 ↔ accepts .ssid ssid = true ∧ accepts .passphrase passphrase = true) ∧
    (r = 0 → ∀ p ∈ news .ssid ssid ++ news .passphrase passphrase, readKey p.1 dat' = some p.2) ∧
    (r ≠ 0 → dat' = dat)

/-- Each value is shorter than its place and on one line. -/
def Short (sets : List (Key × List UInt8)) : Prop := ∀ p ∈ sets, p.2.length < p.1.width ∧ newline ∉ p.2

instance (sets : List (Key × List UInt8)) : Decidable (Short sets) :=
  inferInstanceAs (Decidable (∀ p ∈ sets, p.2.length < p.1.width ∧ newline ∉ p.2))

/-- The SSID that the template holds when the passphrase is set: the new one, or the old one if that is rejected. -/
def ssidInForce (dat : Template) (ssid : Option CStr) : Option (List UInt8) :=
  if accepts .ssid ssid then ssid.map Subtype.val else readKey .ssid dat

/-- The SSID in force names no key that the passphrase sets. -/
def NamesNone (dat : Template) (ssid passphrase : Option CStr) : Prop :=
  ∀ p ∈ news .passphrase passphrase, ∀ v, ssidInForce dat ssid = some v → ¬ p.1.text <:+: v

/-- The call sets no value that is too long for its place or has a line break, and finds its keys in their lines. -/
def Config.Clear (dat : Template) : Config → Prop
  | channel n              =>
    (Call.channel n).accepted = true → Wifi.Clear { dat := dat, last := fun _ => none } (.channel n)
  | apInit ssid passphrase =>
    Short (news .ssid ssid) ∧ Short (news .passphrase passphrase) ∧ NamesNone dat ssid passphrase

/-- Both arguments are accepted, the SSID of 32 bytes and the passphrase of 63 apart, and are on one line. -/
def Settable (ssid passphrase : Option CStr) : Prop :=
  accepts .ssid ssid = true ∧ accepts .passphrase passphrase = true ∧ Short (news .ssid ssid) ∧
    Short (news .passphrase passphrase)

/-! ## The setters at a pointer -/

section News

variable {call : List UInt8 → Call} {v : CStr}

theorem news_accepted (h : (call v.val).accepted = true) : news call (some v) = (call v.val).sets := if_pos h

theorem news_rejected (h : ¬ (call v.val).accepted = true) : news call (some v) = [] := if_neg h

end News

/-- A setter refuses a value without a trace. -/
theorem run_rejected {c : Call} (hz : ∀ v, c = .ssid v ∨ c = .passphrase v → 0 ∉ v) (hc : c.accepted = false)
    (dat : Template) : c.run dat = some (-1, dat) := by
  cases c with
  | ssid v =>
    have hv : 0 ∉ v := hz v (.inl rfl)
    have hlen : v.length > 32 := by simpa [Call.accepted, hv] using hc
    simp only [Call.run, wlSetSsid, if_pos hlen]
  | passphrase p =>
    have hp : 0 ∉ p := hz p (.inr rfl)
    have hne : p ≠ [] := by
      rintro rfl
      simp [Call.accepted] at hc
    have hlen : p.length < 8 ∨ p.length > 63 := by
      simp only [Call.accepted, List.contains_eq_mem, hp, hne, decide_false, Bool.not_false, Bool.and_true,
        Bool.false_or, Bool.and_eq_false_iff, decide_eq_false_iff_not] at hc
      omega
    simp only [Call.run, wlSetPassphrase, if_pos hne, if_pos hlen]
  | channel n =>
    have hn : n < 1 ∨ n > 14 := by
      simp only [Call.accepted, Bool.and_eq_false_iff, decide_eq_false_iff_not] at hc
      omega
    simp only [Call.run, wlSetWifiChannel, if_pos hn]

/-- **A setter at a pointer**: on settings it leaves settings, with the values of an accepted argument in them. -/
theorem orNull_dat {setter : Template → List UInt8 → Option (Int × Template)} {call : List UInt8 → Call}
    (hrun : ∀ dat v, setter dat v = (call v).run dat) (hcall : call = .ssid ∨ call = .passphrase) (p : Option CStr)
    (t : Settings) (hshort : Short (news call p))
    (hnames : ∀ q ∈ news call p, q.1 = .ssid ∨ ¬ q.1.text <:+: t.val .ssid) :
    ∃ r, ∃ t' : Settings, orNull setter t.dat p = some (r, t'.dat) ∧
      ∀ k, t'.val k = ((news call p).lookup k).getD (t.val k) := by
  cases p with
  | none   => exact ⟨-1, t, rfl, fun _ => rfl⟩
  | some v =>
    by_cases hacc : (call v.val).accepted = true
    · rw [news_accepted hacc] at hshort hnames ⊢
      have hclear : Wifi.Clear { dat := t.dat, last := fun _ => none } (call v.val) := fun q hq =>
        ⟨(hshort q hq).1, (hshort q hq).2, (hnames q hq).imp_right (fun hn w hw => by
          rw [readKey_dat] at hw
          cases hw
          exact hn)⟩
      obtain ⟨t', hset, hval⟩ := run_dat rfl hacc hclear
      exact ⟨0, t', (hrun t.dat v.val).trans hset, hval⟩
    · rw [news_rejected hacc]
      have hz : ∀ w, call v.val = .ssid w ∨ call v.val = .passphrase w → 0 ∉ w := by
        rintro w hw
        rcases hcall with rfl | rfl
        · rcases hw with hw | hw
          · cases hw
            exact v.2
          · cases hw
        · rcases hw with hw | hw
          · cases hw
          · cases hw
            exact v.2
      exact ⟨-1, t, (hrun t.dat v.val).trans (run_rejected hz (Bool.eq_false_iff.2 hacc) t.dat), fun _ => rfl⟩

/-! ## The call on settings -/

theorem news_ssid {p : Option CStr} {q : Key × List UInt8} (hq : q ∈ news .ssid p) :
    accepts .ssid p = true ∧ ∃ v, p = some v ∧ q = (.ssid, v.val) := by
  cases p with
  | none   => cases hq
  | some v =>
    by_cases hacc : (Call.ssid v.val).accepted = true
    · rw [news_accepted hacc] at hq
      exact ⟨hacc, v, rfl, List.mem_singleton.1 hq⟩
    · rw [news_rejected hacc] at hq
      cases hq

/-- The passphrase sets each of its keys once, and leaves the SSID alone. -/
theorem lookup_news (p : Option CStr) : (news .passphrase p).lookup .ssid = none ∧
    ∀ q ∈ news .passphrase p, (news .passphrase p).lookup q.1 = some q.2 := by
  cases p with
  | none   => exact ⟨rfl, fun q hq => by cases hq⟩
  | some v =>
    by_cases hacc : (Call.passphrase v.val).accepted = true
    · rw [news_accepted hacc]
      by_cases hv : v.val ≠ []
      · rw [sets_passphrase hv]
        refine ⟨rfl, fun q hq => ?_⟩
        simp only [List.mem_cons, List.not_mem_nil, or_false] at hq
        rcases hq with rfl | rfl | rfl <;> rfl
      · rw [sets_empty hv]
        refine ⟨rfl, fun q hq => ?_⟩
        simp only [List.mem_cons, List.not_mem_nil, or_false] at hq
        rcases hq with rfl | rfl <;> rfl
    · rw [news_rejected hacc]
      exact ⟨rfl, fun q hq => by cases hq⟩

theorem ssidInForce_dat {ssid : Option CStr} {t t₁ : Settings}
    (hval : ∀ k, t₁.val k = ((news .ssid ssid).lookup k).getD (t.val k)) :
    ssidInForce t.dat ssid = some (t₁.val .ssid) := by
  rw [hval]
  unfold ssidInForce
  cases ssid with
  | none   => exact readKey_dat .ssid t
  | some v =>
    by_cases hacc : (Call.ssid v.val).accepted = true
    · rw [accepts, if_pos hacc, news_accepted hacc]
      rfl
    · rw [accepts, if_neg hacc, news_rejected hacc]
      exact readKey_dat .ssid t

/-- The SSID's edit, in whatever settings. -/
theorem ssid_dat {ssid : Option CStr} {t : Settings} (hshort : Short (news .ssid ssid)) :
    ∃ r, ∃ t₁ : Settings, orNull wlSetSsid t.dat ssid = some (r, t₁.dat) ∧
      ∀ k, t₁.val k = ((news .ssid ssid).lookup k).getD (t.val k) := by
  refine orNull_dat (fun _ _ => rfl) (.inl rfl) ssid t hshort (fun q hq => .inl ?_)
  obtain ⟨-, v, -, rfl⟩ := news_ssid hq
  rfl

/-- **The whole call**: what is accepted is set, one after the other. -/
theorem apInit_dat {ssid passphrase : Option CStr} {t : Settings} (hs : Short (news .ssid ssid))
    (hp : Short (news .passphrase passphrase)) (hn : NamesNone t.dat ssid passphrase) :
    ∃ t' : Settings, wlApInit t.dat ssid passphrase = some (0, t'.dat) ∧
      ∀ k, t'.val k = ((news .passphrase passphrase).lookup k).getD (((news .ssid ssid).lookup k).getD (t.val k)) := by
  obtain ⟨r₁, t₁, h₁, hval₁⟩ := ssid_dat hs
  obtain ⟨r₂, t₂, h₂, hval₂⟩ := orNull_dat (fun dat v => (rfl : wlSetPassphrase dat v = (Call.passphrase v).run dat))
    (.inr rfl) passphrase t₁ hp (fun q hq => .inr (hn q hq _ (ssidInForce_dat hval₁)))
  refine ⟨t₂, ?_, fun k => by rw [hval₂, hval₁]⟩
  simp only [wlApInit, Option.bind_eq_bind, h₁, h₂, Option.bind_some]
  rfl

/-- Whatever the setters return, the call returns 0. -/
theorem wlApInit_zero {dat dat' : Template} {ssid passphrase : Option CStr} {r : Int}
    (h : wlApInit dat ssid passphrase = some (r, dat')) : r = 0 := by
  simp only [wlApInit, Option.bind_eq_bind, Option.bind_eq_some_iff] at h
  obtain ⟨_, -, _, -, heq⟩ := h
  cases heq
  rfl

/-! ## Runs -/

theorem channel_dat {n : Int} {t : Settings} (hc : Config.Clear t.dat (.channel n)) :
    ∃ r, ∃ t' : Settings, wlSetWifiChannel t.dat n = some (r, t'.dat) := by
  by_cases hacc : (Call.channel n).accepted = true
  · obtain ⟨t', hrun, -⟩ := run_dat rfl hacc (hc hacc)
    exact ⟨0, t', hrun⟩
  · exact ⟨-1, t, run_rejected (fun _ h => by rcases h with h | h <;> cases h) (Bool.eq_false_iff.2 hacc) t.dat⟩

/-- Clear calls keep the template a template. -/
theorem settings_reached {cs : List Config} {dat : Template} {os : List Int}
    (hcs : configs.Along (fun dat c _ _ => c.Clear dat) wlapDat cs) (hrun : configs.run wlapDat cs = some (dat, os)) :
    ∃ t : Settings, dat = t.dat := by
  have hinit : ∃ t : Settings, wlapDat = t.dat := ⟨⟨Key.initial, fits_initial⟩, wlapDat_eq⟩
  refine Machine.along_reached (P := fun d => ∃ t : Settings, d = t.dat) cs wlapDat dat os ?_ hinit hrun
  refine Machine.along_of_inv (fun d => ∃ t : Settings, d = t.dat) (fun d c d' o hI hstep hc => ?_) cs wlapDat hinit hcs
  obtain ⟨t, rfl⟩ := hI
  obtain ⟨⟨r, d₁⟩, hrun, heq⟩ := Option.map_eq_some_iff.1 hstep
  cases heq
  suffices h : ∃ t' : Settings, d₁ = t'.dat from ⟨h, h⟩
  cases c with
  | channel n =>
    obtain ⟨r', t', h'⟩ := channel_dat hc
    cases h'.symm.trans hrun
    exact ⟨t', rfl⟩
  | apInit ssid passphrase =>
    obtain ⟨t', h', -⟩ := apInit_dat hc.1 hc.2.1 hc.2.2
    cases h'.symm.trans hrun
    exact ⟨t', rfl⟩

/-! ## When the call is all or nothing -/

/-- A value that fills its place: the length of the padding wraps. -/
theorem putValue_full {dat : Template} {pos : Option Nat} {v : List UInt8} {width : Nat} (hv : v.length = width)
    (hdat : dat.length < 4294967295) : putValue dat pos v width = none := by
  have hpad : padding width v = 4294967295 := by
    unfold padding u32
    omega
  have hstore : ∀ {d d' : Template} {p : Nat} {bs : List UInt8}, store d p bs = some d' → d'.length = d.length := by
    intro d d' p bs h
    unfold store at h
    split at h
    · cases h
      simp
      omega
    · cases h
  rw [Option.eq_none_iff_forall_ne_some]
  intro d h
  simp only [putValue, Option.bind_eq_bind, Option.bind_eq_some_iff] at h
  obtain ⟨p, -, d₁, h₁, d₂, h₂, h₃⟩ := h
  have hlen : d₂.length = dat.length := (hstore h₂).trans (hstore h₁)
  unfold memset at h₃
  rw [hpad, if_neg (by omega)] at h₃
  cases h₃

theorem newline_notMem_readKey {k : Key} {dat : Template} {v : List UInt8} (h : readKey k dat = some v) :
    newline ∉ v := by
  obtain ⟨l, hl, rfl⟩ := Option.map_eq_some_iff.1 h
  exact fun hm => notMem_of_mem_splitOn (List.mem_of_find?_eq_some hl) (List.mem_of_mem_drop hm)

theorem length_dat_lt (t : Settings) : t.dat.length < 4294967295 := by
  have hinit : wlapDat.length < 4294967295 := by decide +kernel
  have heq : Settings.dat ⟨Key.initial, fits_initial⟩ = wlapDat := wlapDat_eq.symm
  rw [length_dat t ⟨Key.initial, fits_initial⟩, heq]
  exact hinit

/-- An SSID that is set fits. -/
theorem short_ssid {p : Option CStr} {t : Settings} {x : Int × Template} (hcall : orNull wlSetSsid t.dat p = some x)
    (hnl : ∀ q ∈ news .ssid p, newline ∉ q.2) : Short (news .ssid p) := by
  intro q hq
  have hq₂ := hnl q hq
  obtain ⟨hacc, v, rfl, rfl⟩ := news_ssid hq
  have hle : v.val.length ≤ 32 := by
    simp only [accepts, Call.accepted, Bool.and_eq_true, decide_eq_true_eq] at hacc
    exact hacc.1
  refine ⟨Nat.lt_of_le_of_ne hle (fun (heq : v.val.length = 32) => ?_), hq₂⟩
  simp only [orNull, wlSetSsid, if_neg (Nat.not_lt.2 hle), putValue_full heq (length_dat_lt t)] at hcall
  cases hcall

/-- A passphrase that is set fits; the values that go with it always do. -/
theorem short_passphrase {p : Option CStr} {t : Settings} {x : Int × Template}
    (hcall : orNull wlSetPassphrase t.dat p = some x) (hnl : ∀ q ∈ news .passphrase p, newline ∉ q.2) :
    Short (news .passphrase p) := by
  intro q hq
  refine ⟨?_, hnl q hq⟩
  cases p with
  | none   => cases hq
  | some v =>
    by_cases hacc : (Call.passphrase v.val).accepted = true
    · rw [news_accepted hacc] at hq
      by_cases hv : v.val ≠ []
      · rw [sets_passphrase hv] at hq
        simp only [List.mem_cons, List.not_mem_nil, or_false] at hq
        rcases hq with rfl | rfl | rfl
        · have hlen : 8 ≤ v.val.length ∧ v.val.length ≤ 63 := by
            simp only [Call.accepted, Bool.and_eq_true, Bool.or_eq_true, decide_eq_true_eq, hv, false_or] at hacc
            exact hacc.1
          refine Nat.lt_of_le_of_ne hlen.2 (fun (heq : v.val.length = 63) => ?_)
          have hin : ¬ (v.val.length < 8 ∨ v.val.length > 63) := by omega
          simp only [orNull, wlSetPassphrase, if_pos hv, if_neg hin, putValue_full heq (length_dat_lt t)] at hcall
          cases hcall
        · decide
        · decide
      · rw [sets_empty hv] at hq
        simp only [List.mem_cons, List.not_mem_nil, or_false] at hq
        rcases hq with rfl | rfl
        · decide
        · decide
    · rw [news_rejected hacc] at hq
      cases hq

/-- **The call is all or nothing exactly when nothing is rejected or cut off.** -/
theorem apInit_iff (cs : List Config) (hcs : configs.Along (fun dat c _ _ => c.Clear dat) wlapDat cs) {dat : Template}
    {os : List Int} (hrun : configs.run wlapDat cs = some (dat, os)) (ssid passphrase : Option CStr)
    (hnames : NamesNone dat ssid passphrase) : AllOrNothing dat ssid passphrase ↔ Settable ssid passphrase := by
  obtain ⟨t, rfl⟩ := settings_reached hcs hrun
  constructor
  · rintro ⟨r, dat', hcall, hret, hholds, -⟩
    have hr : r = 0 := wlApInit_zero hcall
    have hnl : ∀ q ∈ news .ssid ssid ++ news .passphrase passphrase, newline ∉ q.2 := fun q hq =>
      newline_notMem_readKey (hholds hr q hq)
    simp only [wlApInit, Option.bind_eq_bind, Option.bind_eq_some_iff] at hcall
    obtain ⟨x₁, h₁, x₂, h₂, -⟩ := hcall
    have hs : Short (news .ssid ssid) := short_ssid h₁ (fun q hq => hnl q (List.mem_append_left _ hq))
    obtain ⟨r₁, t₁, hset, -⟩ := ssid_dat hs
    cases hset.symm.trans h₁
    exact ⟨(hret.1 hr).1, (hret.1 hr).2, hs, short_passphrase h₂ (fun q hq => hnl q (List.mem_append_right _ hq))⟩
  · rintro ⟨hs, hp, hshorts, hshortp⟩
    obtain ⟨t', hcall, hval⟩ := apInit_dat hshorts hshortp hnames
    refine ⟨0, t'.dat, hcall, ⟨fun _ => ⟨hs, hp⟩, fun _ => rfl⟩, fun _ q hq => ?_, fun h => absurd rfl h⟩
    rw [readKey_dat, hval]
    congr 1
    rcases List.mem_append.1 hq with hq | hq
    · obtain ⟨hacc, v, rfl, rfl⟩ := news_ssid hq
      have hnews : news .ssid (some v) = [(.ssid, v.val)] := news_accepted hacc
      rw [(lookup_news passphrase).1, hnews]
      rfl
    · rw [(lookup_news passphrase).2 q hq]
      rfl

def ap : CStr := ⟨utf8 "ap", by decide⟩

theorem apInit_iff_secured : AllOrNothing wlapDat (some ap) (some ⟨utf8 "12345678", by decide⟩) := by
  have hclear : configs.Along (fun dat c _ _ => c.Clear dat) wlapDat [.apInit none none] := by
    refine fun _ _ _ => ⟨⟨fun q hq => ?_, fun q hq => ?_, fun q hq => ?_⟩, trivial⟩ <;> cases hq
  refine (apInit_iff [.apInit none none] hclear rfl _ _ (fun q hq v hv => ?_)).2 ⟨rfl, rfl, ?_, ?_⟩
  · cases hv
    revert q
    decide
  · decide
  · decide

/-- **A passphrase that is too short**: the call returns 0, with the new SSID on the old security settings. -/
theorem not_apInit : ¬ ∀ (cs : List Config) (dat : Template) (os : List Int), configs.run wlapDat cs = some (dat, os) →
    ∀ ssid passphrase, AllOrNothing dat ssid passphrase := by
  intro h
  obtain ⟨r, dat', hcall, hret, -⟩ := h [] wlapDat [] rfl (some ap) (some ⟨utf8 "short", by decide⟩)
  have hacc := (hret.1 (wlApInit_zero hcall)).2
  revert hacc
  decide

end Wifi
end OtaLoader
