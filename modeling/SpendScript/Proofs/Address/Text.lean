import SpendScript.Address
import SpendScript.Proofs.Text.Base58
import SpendScript.Proofs.Text.Blank

/-!
# SpendScript.Proofs.Address.Text

Address text. Version byte, hash and checksum have one base-58 text, the version byte says which
network and kind an address is for, and the checksum leaves no choice. So every address has one
text, and apart from white space around it that text is the only one that is read as the address.

* `Network.ofVersion?_eq_some_iff`: what a version byte stands for.
* `Address.decodeChars_eq_ok_iff`: what a text of a version byte and a hash looks like.
* `Address.text_bijective`: reading and writing are inverse to each other.
-/

namespace SpendScript

theorem Hash.length_checksum (message : Bytes) : (Hash.checksum message).length = 4 := by
  rw [Hash.checksum, List.length_take, (Hash.sha256d message).length_eq]
  rfl

theorem Network.ofVersion?_eq_some_iff {v : UInt8} {n : Network} {k : AddressKind} :
    Network.ofVersion? v = some (n, k) ↔ v = n.version k := by
  constructor
  · intro h
    simp only [Network.ofVersion?] at h
    split_ifs at h with h1 h2 h3 h4
    all_goals
      cases h
      assumption
  · rintro rfl
    exact Network.ofVersion?_version n k

namespace Address

/-- What the text of a version byte and a hash holds in base 58. -/
def payload (version : UInt8) (hash : Digest 20) : Bytes :=
  version :: hash.bytes ++ Hash.checksum (version :: hash.bytes)

theorem decodeChars_eq_ok_iff {cs : List Char} {version : UInt8} {hash : Digest 20} :
    decodeChars cs = .ok (version, hash) ↔ cs = Text.Base58.encodeChars (payload version hash) := by
  rw [← Text.Base58.decodeChars_eq_ok_iff, decodeChars]
  constructor
  · intro h
    split at h
    · cases h
    · cases h
    · rename_i bs hbs
      rw [hbs]
      split at h
      · cases h
      · rename_i v rest
        split at h
        · cases h
        · rename_i d hd
          split_ifs at h with hlength hcheck
          cases h
          rw [Digest.ofBytes?] at hd
          split at hd
          · cases hd
            rw [ne_eq, not_not] at hcheck
            rw [payload, ← hcheck, List.cons_append, List.take_append_drop]
          · cases hd
  · intro h
    have htake : (hash.bytes ++ Hash.checksum (version :: hash.bytes)).take 20 = hash.bytes :=
      List.take_left' hash.length_eq
    have hdrop : (hash.bytes ++ Hash.checksum (version :: hash.bytes)).drop 20 =
        Hash.checksum (version :: hash.bytes) := List.drop_left' hash.length_eq
    have hlength : (payload version hash).length = 25 := by
      rw [payload, List.length_append, List.length_cons, hash.length_eq, Hash.length_checksum]
    rw [h]
    simp only [payload, List.cons_append, htake, hdrop, Digest.ofBytes?_bytes] at hlength ⊢
    rw [if_neg (not_not.2 hlength), if_neg (not_not.2 rfl)]

theorem toText_toList (a : Address) :
    a.toText.toList = Text.Base58.encodeChars (payload a.version a.hash) := by
  rw [toText, encode, Text.Base58.checkEncode, Text.Base58.encode, String.toList_ofList, payload]

theorem ofText_eq_ok_iff {s : String} {a : Address} :
    ofText s = .ok a ↔ Text.trim s.toList = a.toText.toList := by
  rw [toText_toList, ← decodeChars_eq_ok_iff, ofText, decode]
  constructor
  · intro h
    split at h
    · cases h
    · rename_i v hash hdecode
      split at h
      · rename_i network kind hversion
        cases h
        rw [hdecode, Network.ofVersion?_eq_some_iff.1 hversion]
        rfl
      · cases h
  · intro h
    rw [h]
    simp only [version, Network.ofVersion?_version]

theorem toText_not_blank (a : Address) : ∀ c ∈ a.toText.toList, Text.isBlank c = false := by
  intro c hc
  rw [toText_toList] at hc
  obtain ⟨v, hv, rfl⟩ := Text.Base58.exists_digit_of_mem_encodeChars hc
  have hrange := Text.Base58.toNat_digit v hv
  exact Text.isBlank_of_visible ⟨by omega, by omega⟩

theorem toText_ne_nil (a : Address) : a.toText.toList ≠ [] := by
  intro hnil
  rw [toText_toList, ← Text.Base58.encodeChars_nil] at hnil
  exact List.cons_ne_nil _ _ (Text.Base58.encodeChars_injective hnil)

/-- **Addresses and their texts.** A text is read as an address exactly if, without the white space
around it, it is the text that is written for the address. So what is written is read back, nothing
else than white space may be added to it, and no two addresses have one text. -/
theorem text_bijective :
    (∀ (s : String) (a : Address),
      ofText s = .ok a ↔ String.ofList (Text.trim s.toList) = a.toText) ∧
    (∀ (s : String) (a : Address), ofText s = .ok a ↔
      ∃ before after : List Char, (∀ c ∈ before, Text.isBlank c = true) ∧
        (∀ c ∈ after, Text.isBlank c = true) ∧ s.toList = before ++ a.toText.toList ++ after) ∧
    (∀ a : Address, ofText a.toText = .ok a) ∧
    Function.Injective toText := by
  have hwritten : ∀ a : Address, ofText a.toText = .ok a := by
    intro a
    rw [ofText_eq_ok_iff, Text.trim_eq_iff a.toText_not_blank a.toText_ne_nil]
    exact ⟨[], [], by simp, by simp, by simp⟩
  refine ⟨?_, ?_, hwritten, ?_⟩
  · intro s a
    rw [ofText_eq_ok_iff, ← String.toList_inj, String.toList_ofList]
  · intro s a
    rw [ofText_eq_ok_iff, Text.trim_eq_iff a.toText_not_blank a.toText_ne_nil]
  · intro a b h
    have hread := hwritten a
    rw [h, hwritten b, Except.ok.injEq] at hread
    exact hread.symm

end Address

end SpendScript
