import TeeDist.Capacity
import TeeDist.Crypto

/-!
# The encryption key of a configuration

`encryption_key_hex` goes from a line of the configuration to 32 bytes of key material.
`td_config_load` copies the value into a field of 65 bytes, and `td_crypto_init` looks at the
copy: a value that goes on after 64 digits is cut off there and accepted.  `key_whole_iff` says
that there is no other way to get a key out of a value that is not one.
-/

namespace TeeDist

open CText

/-! ## The decoder -/

/-- `td_hex_digit`. -/
def hexDigit (ch : UInt8) : Option UInt8 :=
  if 48 ≤ ch ∧ ch ≤ 57 then some (ch - 48)
  else if 97 ≤ ch ∧ ch ≤ 102 then some (10 + (ch - 97))
  else if 65 ≤ ch ∧ ch ≤ 70 then some (10 + (ch - 65))
  else none

/-- The loop of `td_hex_to_bytes`. -/
def hexPairs : List UInt8 → Option (List UInt8)
  | high :: low :: rest => do
      let high ← hexDigit high
      let low ← hexDigit low
      return (high <<< 4 ||| low) :: (← hexPairs rest)
  | _ => some []

/-- `td_hex_to_bytes`. -/
def hexToBytes (hex : List UInt8) (outLen : Nat) : Option (List UInt8) :=
  if hex.length ≠ outLen * 2 then none else hexPairs hex

/-- `TD_KEY_MATERIAL_BYTES`. -/
def keyMaterialBytes : Nat := 32

/-- `td_crypto_init`. -/
def cryptoInit (ssl : Openssl) (hexKey : List UInt8) : Except String CryptoCtx :=
  match hexToBytes hexKey keyMaterialBytes with
  | none =>
      .error ("encryption_key_hex must be exactly " ++ toString (keyMaterialBytes * 2) ++
        " hex chars")
  | some raw => .ok ⟨ssl.sha256 (raw ++ ascii "tee-dist-enc"), ssl.sha256 (raw ++ ascii "tee-dist-mac")⟩

/-- A hexadecimal digit. -/
def IsHex (b : UInt8) : Prop := (hexDigit b).isSome

instance (b : UInt8) : Decidable (IsHex b) := inferInstanceAs (Decidable (_ = true))

/-- A value of exactly 64 hexadecimal digits. -/
def IsHexKey (value : List UInt8) : Prop := value.length = 64 ∧ ∀ b ∈ value, IsHex b

/-- A value that goes on after 64 hexadecimal digits. -/
def RunsOn (value : List UInt8) : Prop := 64 < value.length ∧ ∀ b ∈ value.take 64, IsHex b

section Decoder

/-- The digit that stands for a number, in lower case. -/
def hexChar (d : UInt8) : UInt8 := if d < 10 then 48 + d else 87 + d

/-- The digits of some bytes, in lower case. -/
def hexText (bytes : List UInt8) : List UInt8 :=
  bytes.flatMap fun b : UInt8 => [hexChar (b >>> 4), hexChar (b &&& 15)]

/-- A digit is determined by its number, up to its case. -/
theorem hexDigit_some {b d : UInt8} (h : hexDigit b = some d) :
    d.toNat < 16 ∧ toLower b = hexChar d := by
  have hall : ∀ n < 256, ∀ d ∈ hexDigit (UInt8.ofNat n),
      d.toNat < 16 ∧ toLower (UInt8.ofNat n) = hexChar d := by
    decide +kernel
  have hb := hall b.toNat b.toNat_lt
  rw [UInt8.ofNat_toNat] at hb
  exact hb d h

/-- The halves of a byte. -/
theorem halves_pair {high low : UInt8} (hhigh : high.toNat < 16) (hlow : low.toNat < 16) :
    (high <<< 4 ||| low) >>> 4 = high ∧ (high <<< 4 ||| low) &&& 15 = low := by
  have hall : ∀ h < 16, ∀ l < 16, (UInt8.ofNat h <<< 4 ||| UInt8.ofNat l) >>> 4 = UInt8.ofNat h ∧
      (UInt8.ofNat h <<< 4 ||| UInt8.ofNat l) &&& 15 = UInt8.ofNat l := by
    decide +kernel
  have hpair := hall high.toNat hhigh low.toNat hlow
  rwa [UInt8.ofNat_toNat, UInt8.ofNat_toNat] at hpair

/-- The decoder takes digits, and nothing else. -/
theorem hexPairs_isSome (hex : List UInt8) (heven : hex.length % 2 = 0) :
    (hexPairs hex).isSome ↔ ∀ b ∈ hex, IsHex b := by
  induction hex using hexPairs.induct with
  | case1 high low rest ih =>
      simp only [List.length_cons] at heven
      have hrest := ih (by omega)
      simp only [List.forall_mem_cons, ← hrest]
      unfold IsHex
      rw [hexPairs]
      cases hexDigit high <;> cases hexDigit low <;> cases hexPairs rest <;> simp
  | case2 hex hnone =>
      match hex, heven, hnone with
      | [], _, _ => simp [hexPairs]
      | high :: low :: rest, _, hnone => exact absurd rfl (hnone high low rest)

/-- The bytes determine the digits, up to their case. -/
theorem hexPairs_lower {hex bytes : List UInt8} (h : hexPairs hex = some bytes)
    (heven : hex.length % 2 = 0) : hex.map toLower = hexText bytes := by
  induction hex using hexPairs.induct generalizing bytes with
  | case1 high low rest ih =>
      simp only [List.length_cons] at heven
      rw [hexPairs] at h
      cases hhigh : hexDigit high with
      | none =>
          rw [hhigh] at h
          cases h
      | some d =>
          cases hlow : hexDigit low with
          | none =>
              rw [hhigh, hlow] at h
              cases h
          | some e =>
              cases hrest : hexPairs rest with
              | none =>
                  rw [hhigh, hlow, hrest] at h
                  cases h
              | some bytes' =>
                  rw [hhigh, hlow, hrest] at h
                  cases h
                  obtain ⟨hd, hhighChar⟩ := hexDigit_some hhigh
                  obtain ⟨he, hlowChar⟩ := hexDigit_some hlow
                  obtain ⟨hupper, hlower⟩ := halves_pair hd he
                  rw [List.map_cons, List.map_cons, ih hrest (by omega), hhighChar, hlowChar]
                  simp only [hexText, List.flatMap_cons, hupper, hlower]
                  rfl
  | case2 hex hnone =>
      match hex, heven, hnone with
      | [], _, _ =>
          cases h
          rfl
      | high :: low :: rest, _, hnone => exact absurd rfl (hnone high low rest)

/-- Values that differ in more than the case of their letters give different bytes. -/
theorem hexToBytes_lower {hex hex' bytes : List UInt8} {outLen : Nat}
    (h : hexToBytes hex outLen = some bytes) (h' : hexToBytes hex' outLen = some bytes) :
    hex.map toLower = hex'.map toLower := by
  have hsplit : ∀ {text : List UInt8}, hexToBytes text outLen = some bytes →
      text.map toLower = hexText bytes := by
    intro text htext
    unfold hexToBytes at htext
    split at htext
    · cases htext
    next hlen =>
      exact hexPairs_lower htext (by omega)
  rw [hsplit h, hsplit h']

theorem hexToBytes_isSome (hex : List UInt8) (outLen : Nat) :
    (hexToBytes hex outLen).isSome ↔ hex.length = outLen * 2 ∧ ∀ b ∈ hex, IsHex b := by
  unfold hexToBytes
  split
  next hlen => simp [hlen]
  next hlen =>
    rw [hexPairs_isSome _ (by omega)]
    simp [not_not.mp hlen]

/-- Whether `td_crypto_init` succeeds. -/
theorem cryptoInit_isOk (ssl : Openssl) (hexKey : List UInt8) :
    (∃ ctx, cryptoInit ssl hexKey = .ok ctx) ↔ IsHexKey hexKey := by
  show _ ↔ hexKey.length = keyMaterialBytes * 2 ∧ ∀ b ∈ hexKey, IsHex b
  rw [← hexToBytes_isSome]
  unfold cryptoInit
  cases hexToBytes hexKey keyMaterialBytes <;> simp

end Decoder

/-! ## The value of a file -/

/-- The key that a line gives. -/
def keyLine (line : List UInt8) : Option (List UInt8) :=
  match parseLine line with
  | .entry key value => if key = ascii "encryption_key_hex" then some value else none
  | _ => none

/-- The keys in a file, in order.  The last one counts. -/
def keyValues (text : List UInt8) : List (List UInt8) := (fgetsLines 512 text).filterMap keyLine

section Lines

variable {cfg cfg' : Config} {lineNo : Nat} {line value : List UInt8}

/-- The setting of the key. -/
def Setting.key : Setting :=
  .plain "encryption_key_hex" fun cfg v => { cfg with encryptionKeyHex := truncated 65 v }

/-- One setting is about the key. -/
theorem settings_key : ∀ s ∈ settings, s = .key ∨ (ascii s.name ≠ ascii "encryption_key_hex" ∧
    s.Does fun cfg cfg' => cfg'.encryptionKeyHex = cfg.encryptionKeyHex) := by
  simp only [settings, List.forall_mem_cons, List.not_mem_nil, false_imp_iff, implies_true, and_true]
  refine ⟨?_, ?_, ?_, ?_, ?_, ?_, .inl rfl, ?_, ?_, ?_, ?_, ?_, ?_, ?_, ?_, ?_, ?_, ?_, ?_, ?_⟩
  all_goals right
  all_goals refine ⟨by decide, ?_⟩
  all_goals
    first
    | exact Setting.does_checked fun _ _ => rfl
    | exact Setting.does_plain fun _ _ => rfl
    | exact Setting.does_slots (fun _ => rfl) fun _ _ _ => rfl
    | exact Setting.does_mnEndpoint fun _ _ => rfl

/-- A line changes the key if it gives one. -/
theorem Config.applyLine_key (h : cfg.applyLine lineNo line = .ok cfg') :
    cfg'.encryptionKeyHex = ((keyLine line).map (truncated 65)).getD cfg.encryptionKeyHex := by
  unfold keyLine
  obtain ⟨hline, hok⟩ | hfails | ⟨key, value, hline, hunknown, hok⟩ | ⟨s, hs, value, hline, happly⟩ :=
    Config.applyLine_cases line
  · rw [hok] at h
    cases h
    simp [hline]
  · obtain ⟨e, he⟩ := hfails lineNo cfg
    rw [he] at h
    cases h
  · rw [hok] at h
    cases h
    have hkey : key ≠ ascii "encryption_key_hex" := by
      have hmem : Setting.key ∈ settings := by simp [settings, Setting.key]
      exact (hunknown _ hmem).symm
    simp [hline, hkey]
  · rw [happly] at h
    simp only [hline]
    obtain rfl | ⟨hne, hkeeps⟩ := settings_key s hs
    · cases h
      rfl
    · rw [if_neg hne, hkeeps _ _ _ _ h]
      rfl

/-- The key of an accepted configuration: the last one of the file, as far as it fits. -/
theorem configLoad_key {path : String} {text : List UInt8}
    (h : configLoad path (some text) = .ok cfg) :
    ∃ value, (keyValues text).getLast? = some value ∧
      cfg.encryptionKeyHex = value.take (keyMaterialBytes * 2) := by
  obtain ⟨cfg₀, hlines, hfinish⟩ := configLoad_eq_ok.mp h
  obtain ⟨_, rfl, ⟨slots, rfl⟩, hset, _⟩ := Config.finish_ok hfinish
  have hlast := Config.applyLines_field (·.encryptionKeyHex)
    (fun line => (keyLine line).map (truncated 65)) Config.applyLine_key _ hlines
  rw [← List.map_filterMap, List.getLast?_map] at hlast
  change cfg₀.encryptionKeyHex = ((keyValues text).getLast?.map (truncated 65)).getD [] at hlast
  cases hvalue : (keyValues text).getLast? with
  | none =>
      rw [hvalue] at hlast
      exact absurd hlast hset
  | some value =>
      rw [hvalue] at hlast
      exact ⟨value, rfl, hlast⟩

/-- A key on a line shorter than 511 bytes is read as it stands there. -/
theorem keyValues_line (before after : List UInt8) (hnewline : 10 ∉ line)
    (hshort : line.length < 511) :
    keyValues (before ++ 10 :: (line ++ 10 :: after)) =
      keyValues (before ++ [10]) ++ ((keyLine (line ++ [10])).toList ++ keyValues after) := by
  unfold keyValues fgetsLines
  rw [fgetsFrom_append, fgetsFrom_line [] hnewline hshort, List.filterMap_append]
  cases hkey : keyLine (line ++ [10]) with
  | none =>
      rw [List.nil_append, List.filterMap_cons_none hkey]
      rfl
  | some value =>
      rw [List.nil_append, List.filterMap_cons_some hkey]
      rfl

end Lines

/-! ## The key of a file -/

/-- What is left of a key that was cut off looks like a key if and only if the key runs on. -/
theorem cut_key_iff (value : List UInt8) :
    (IsHexKey (value.take 64) → IsHexKey value) ↔ ¬ RunsOn value := by
  constructor
  · rintro himp ⟨hlong, hhex⟩
    have hcut : (value.take 64).length = 64 := List.length_take_of_le hlong.le
    have hlen := (himp ⟨hcut, hhex⟩).1
    omega
  · rintro hnot ⟨hcut, hhex⟩
    rw [List.length_take] at hcut
    have hlen : value.length = 64 := by
      by_contra hne
      exact hnot ⟨by omega, hhex⟩
    rw [List.take_of_length_le hlen.le] at hhex
    exact ⟨hlen, hhex⟩

/-- `td_crypto_init` refuses the key of a file, unless it is 64 hexadecimal digits, if and only if
the key does not run on after 64 digits.  Two keys of 64 digits that differ in more than the case
of their letters give different key material. -/
theorem key_whole_iff (ssl : Openssl) {path path' : String} {text text' : List UInt8}
    {cfg cfg' : Config} {value value' : List UInt8}
    (h : configLoad path (some text) = .ok cfg) (hvalue : (keyValues text).getLast? = some value)
    (h' : configLoad path' (some text') = .ok cfg')
    (hvalue' : (keyValues text').getLast? = some value') :
    (((∃ ctx, cryptoInit ssl cfg.encryptionKeyHex = .ok ctx) → IsHexKey value) ↔ ¬ RunsOn value) ∧
      (IsHexKey value → IsHexKey value' → value.map toLower ≠ value'.map toLower →
        ∃ raw raw', hexToBytes cfg.encryptionKeyHex keyMaterialBytes = some raw ∧
          hexToBytes cfg'.encryptionKeyHex keyMaterialBytes = some raw' ∧ raw ≠ raw') := by
  obtain ⟨v, hv, hkey⟩ := configLoad_key h
  obtain ⟨v', hv', hkey'⟩ := configLoad_key h'
  obtain rfl := Option.some.inj (hvalue.symm.trans hv)
  obtain rfl := Option.some.inj (hvalue'.symm.trans hv')
  have hwhole : ∀ {v : List UInt8}, IsHexKey v → v.take (keyMaterialBytes * 2) = v :=
    fun hv => List.take_of_length_le hv.1.le
  have hdecodes : ∀ {v : List UInt8}, IsHexKey v → (hexToBytes v keyMaterialBytes).isSome :=
    fun hv => (hexToBytes_isSome _ _).mpr hv
  constructor
  · rw [cryptoInit_isOk, hkey]
    exact cut_key_iff value
  · intro hhex hhex' hne
    rw [hkey, hkey', hwhole hhex, hwhole hhex']
    obtain ⟨raw, hraw⟩ := Option.isSome_iff_exists.mp (hdecodes hhex)
    obtain ⟨raw', hraw'⟩ := Option.isSome_iff_exists.mp (hdecodes hhex')
    refine ⟨raw, raw', hraw, hraw', ?_⟩
    rintro rfl
    exact hne (hexToBytes_lower hraw hraw')

/-- A configuration of a memory node with a key. -/
def keyFile (key : List UInt8) : List UInt8 :=
  ascii "mode: mn\nlisten_port: 1\nencryption_key_hex: \"" ++ (key ++ ascii "\"\n")

/-- Sixteen digits, four times. -/
def sampleKey : List UInt8 := (List.replicate 4 (ascii "0123456789abcdef")).flatten

/-- The same but for its last digit. -/
def otherKey : List UInt8 :=
  (List.replicate 3 (ascii "0123456789abcdef")).flatten ++ ascii "0123456789ABCDE0"

theorem configLoad_ok (path : String) (file : Option (List UInt8))
    (h : (configLoad path file).toOption.isSome) : ∃ cfg, configLoad path file = .ok cfg := by
  cases hload : configLoad path file with
  | error e =>
      rw [hload] at h
      cases h
  | ok cfg => exact ⟨cfg, rfl⟩

/-- The last digit counts. -/
theorem key_whole_iff_digit :
    ∃ cfg cfg' raw raw', configLoad "mn.conf" (some (keyFile sampleKey)) = .ok cfg ∧
      configLoad "mn.conf" (some (keyFile otherKey)) = .ok cfg' ∧
      hexToBytes cfg.encryptionKeyHex keyMaterialBytes = some raw ∧
      hexToBytes cfg'.encryptionKeyHex keyMaterialBytes = some raw' ∧ raw ≠ raw' := by
  obtain ⟨cfg, h⟩ := configLoad_ok "mn.conf" (some (keyFile sampleKey)) (by decide +kernel)
  obtain ⟨cfg', h'⟩ := configLoad_ok "mn.conf" (some (keyFile otherKey)) (by decide +kernel)
  obtain ⟨raw, raw', hraw, hraw', hne⟩ := (key_whole_iff .sample h
    (show _ = some sampleKey by decide +kernel) h'
    (show _ = some otherKey by decide +kernel)).2
    (by unfold IsHexKey; decide +kernel) (by unfold IsHexKey; decide +kernel) (by decide +kernel)
  exact ⟨cfg, cfg', raw, raw', h, h', hraw, hraw', hne⟩

/-- A key of 70 characters is accepted, and its last six make no difference. -/
theorem key_cut_off :
    ¬ ∀ (ssl : Openssl) (path : String) (text : List UInt8) (cfg : Config) (value : List UInt8),
      configLoad path (some text) = .ok cfg → (keyValues text).getLast? = some value →
      (∃ ctx, cryptoInit ssl cfg.encryptionKeyHex = .ok ctx) → IsHexKey value := by
  intro hall
  obtain ⟨cfg, h⟩ := configLoad_ok "mn.conf" (some (keyFile (sampleKey ++ ascii "backup")))
    (by decide +kernel)
  have hvalue : (keyValues (keyFile (sampleKey ++ ascii "backup"))).getLast? =
      some (sampleKey ++ ascii "backup") := by decide +kernel
  obtain ⟨v, hv, hkey⟩ := configLoad_key h
  obtain rfl := Option.some.inj (hvalue.symm.trans hv)
  have haccepts : ∃ ctx, cryptoInit .sample cfg.encryptionKeyHex = .ok ctx := by
    rw [cryptoInit_isOk, hkey]
    unfold IsHexKey
    decide +kernel
  exact absurd (hall .sample _ _ cfg _ h hvalue haccepts).1 (by decide +kernel)

end TeeDist
