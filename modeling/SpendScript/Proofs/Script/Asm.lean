import SpendScript.Proofs.Opcode
import SpendScript.Proofs.Script.Decoding
import SpendScript.Proofs.Text.Blank
import SpendScript.Proofs.Text.Hex
import SpendScript.Script.Asm

/-!
# SpendScript.Proofs.Script.Asm

Scripts read back from their assembly text, and scripts of a text read back from their bytes.

* `Script.ofToken_token`: the word for a chunk is read as that chunk, with its data pushed in the
  shortest form.
* `Script.words_joinTokens`: the words of a text are those that it was joined from.
* `Script.ofAsm_toAsm`: a script is read back from its text up to the form of its pushes.
* `Script.wellFormed_iff_of_ofToken`: the words that are read as a chunk which no bytes stand for.
* `Script.ofBytes_toBytes_of_ofAsm`: the script of a text is read back from its bytes, unless the
  text has such a word.
-/

namespace SpendScript

namespace Chunk

theorem token_of_data? {c : Chunk} {data : Bytes} (h : c.data? = some data) (hne : data ≠ []) :
    c.token = Text.Hex.digits data := by
  cases c with
  | op b => cases h
  | push code bytes =>
    cases h
    cases data with
    | nil => exact absurd rfl hne
    | cons b bs => rfl

/-- A byte that stands alone shows as a number, under its name, or as a literal. -/
theorem token_op_cases {b : UInt8} (h : (op b).WellFormed) :
    b = Opcode.zero.byte ∧ (op b).token = ['0'] ∨
      b = Opcode.oneNegate.byte ∧ (op b).token = ['-', '1'] ∨
      (∃ o : Opcode, o.byte = b ∧ (op b).token = o.name.toList) ∨
      ¬(1 ≤ b ∧ b ≤ Opcode.maxDirectPush) ∧
        (op b).token = '0' :: 'x' :: Text.Hex.byteDigits b := by
  by_cases hzero : b = Opcode.zero.byte
  · subst hzero
    exact .inl ⟨rfl, rfl⟩
  by_cases hnegate : b = Opcode.oneNegate.byte
  · subst hnegate
    exact .inr (.inl ⟨rfl, rfl⟩)
  refine .inr (.inr ?_)
  have htoken : (op b).token = (Opcode.describe b).toList := by
    rw [token, if_neg hzero, if_neg hnegate]
  have hdirect := not_direct_of_wellFormed h
  rw [htoken, Opcode.describe]
  cases hbyte : Opcode.ofByte? b with
  | some o => exact .inl ⟨o, Opcode.byte_eq_of_ofByte? hbyte, rfl⟩
  | none =>
    refine .inr ⟨hdirect, ?_⟩
    simp only [if_neg hdirect, Text.Hex.literal, String.toList_append, String.toList_ofList]
    rfl

theorem token_visible {c : Chunk} (h : c.WellFormed) :
    c.token ≠ [] ∧ ∀ d ∈ c.token, 0x21 ≤ d.toNat ∧ d.toNat ≤ 0x7e := by
  have hdigits := Text.Hex.forall_mem_digits
    (p := fun d => 0x21 ≤ d.toNat ∧ d.toNat ≤ 0x7e) (by decide)
  cases c with
  | op b =>
    rcases token_op_cases h with ⟨-, htoken⟩ | ⟨-, htoken⟩ | ⟨o, -, htoken⟩ | ⟨-, htoken⟩
    all_goals rw [htoken]
    · simp
    · simp
    · obtain ⟨hhead, hvisible⟩ := o.toList_name
      refine ⟨?_, hvisible⟩
      intro hnil
      rw [hnil] at hhead
      cases hhead
    · have hb := hdigits [b]
      rw [Text.Hex.digits, List.flatMap_singleton] at hb
      refine ⟨List.cons_ne_nil _ _, ?_⟩
      rw [List.forall_mem_cons, List.forall_mem_cons]
      exact ⟨by decide, by decide, hb⟩
  | push code data =>
    by_cases hne : data = []
    · subst hne
      simp [token]
    · rw [token_of_data? rfl hne]
      refine ⟨?_, hdigits data⟩
      obtain ⟨b, bs, rfl⟩ := List.exists_cons_of_ne_nil hne
      exact List.cons_ne_nil _ _

theorem token_shortest {c : Chunk} (h : c.WellFormed) : c.shortest.token = c.token := by
  cases c with
  | op b => rfl
  | push code data =>
    by_cases hne : data = []
    · subst hne
      rfl
    · have hdata := data?_of_ofData? (ofData?_shortest h) hne
      rw [token_of_data? hdata hne, token_of_data? rfl hne]

theorem wellFormed_ofOpcode_or (o : Opcode) :
    (ofOpcode o).WellFormed ∨ o = .pushData1 ∨ o = .pushData2 ∨ o = .pushData4 := by
  have hall : ∀ o ∈ Opcode.all,
      (ofOpcode o).WellFormed ∨ o = .pushData1 ∨ o = .pushData2 ∨ o = .pushData4 := by
    decide +kernel
  exact hall o o.mem_all

end Chunk

namespace Script

/-! ## One word -/

theorem ofToken_of_name {word : List Char} {op : Opcode}
    (h : Opcode.ofName? (String.ofList word) = some op) : ofToken word = .ok (.ofOpcode op) := by
  rw [ofToken.eq_def, h]

theorem ofToken_zero : ofToken ['0'] = .ok (.ofOpcode .zero) := by
  have hname : Opcode.ofName? (String.ofList ['0']) = none := Opcode.ofName?_eq_none (by decide)
  rw [ofToken.eq_def, hname]
  rfl

theorem ofToken_oneNegate : ofToken ['-', '1'] = .ok (.ofOpcode .oneNegate) := by
  have hname : Opcode.ofName? (String.ofList ['-', '1']) = none :=
    Opcode.ofName?_eq_none (by decide)
  rw [ofToken.eq_def, hname]
  rfl

theorem ofToken_of_byte {raw : List Char} {b : UInt8} (h : rawByte? raw = some b) :
    ofToken ('0' :: 'x' :: raw) = .ok (.op b) := by
  have hname : Opcode.ofName? (String.ofList ('0' :: 'x' :: raw)) = none :=
    Opcode.ofName?_eq_none (by simp)
  rw [ofToken.eq_def, hname]
  simp only [h]

theorem ofToken_of_data {c d : Char} {rest : List Char} (hc : c ≠ 'O' ∧ c ≠ '-') (hd : d ≠ 'x') :
    ofToken (c :: d :: rest) = dataToken (c :: d :: rest) := by
  have hname : Opcode.ofName? (String.ofList (c :: d :: rest)) = none :=
    Opcode.ofName?_eq_none (by simpa using hc.1)
  rw [ofToken.eq_def, hname]
  simp [hc.2, hd]

theorem rawByte?_byteDigits {b : UInt8} (h : ¬(1 ≤ b ∧ b ≤ Opcode.maxDirectPush)) :
    rawByte? (Text.Hex.byteDigits b) = some b := by
  have hb : b.toNat < 256 := b.toNat_lt
  have hhigh := Text.Hex.digitValue?_digit (n := b.toNat / 16) (by omega)
  have hlow := Text.Hex.digitValue?_digit (n := b.toNat % 16) (by omega)
  have hsign : Text.Hex.digit (b.toNat / 16) ≠ '+' := by
    have hall : ∀ n : Fin 16, Text.Hex.digit n ≠ '+' := by decide
    exact hall ⟨b.toNat / 16, by omega⟩
  have hrange : ¬(1 ≤ b.toNat ∧ b.toNat ≤ Opcode.maxDirectPush.toNat) := h
  simpa [rawByte?, Text.Hex.byteDigits, hhigh, hlow, Nat.div_add_mod] using hrange

theorem ofToken_digits {data : Bytes} {c : Chunk} (hne : data ≠ [])
    (hc : Chunk.ofData? data = some c) : ofToken (Text.Hex.digits data) = .ok c := by
  have hread : dataToken (Text.Hex.digits data) = .ok c := by
    rw [dataToken, Text.Hex.decodeChars_digits]
    simp only [hc]
  have hlook : ∀ d ∈ Text.Hex.digits data, (d ≠ 'O' ∧ d ≠ '-') ∧ d ≠ 'x' :=
    Text.Hex.forall_mem_digits (by decide) data
  obtain ⟨b, bs, rfl⟩ := List.exists_cons_of_ne_nil hne
  rw [Text.Hex.digits_cons] at hlook hread ⊢
  rw [List.forall_mem_cons, List.forall_mem_cons] at hlook
  rw [ofToken_of_data hlook.1.1 hlook.2.1.2, hread]

theorem ofToken_token {c : Chunk} (h : c.WellFormed) : ofToken c.token = .ok c.shortest := by
  cases c with
  | op b =>
    rw [Chunk.shortest]
    rcases Chunk.token_op_cases h with ⟨rfl, htoken⟩ | ⟨rfl, htoken⟩ | ⟨o, rfl, htoken⟩ |
      ⟨hdirect, htoken⟩
    all_goals rw [htoken]
    · exact ofToken_zero
    · exact ofToken_oneNegate
    · exact ofToken_of_name (by rw [String.ofList_toList, o.ofName?_name])
    · exact ofToken_of_byte (rawByte?_byteDigits hdirect)
  | push code data =>
    by_cases hne : data = []
    · subst hne
      exact ofToken_zero
    · rw [Chunk.token_of_data? rfl hne]
      exact ofToken_digits hne (Chunk.ofData?_shortest h)

/-! ## A text -/

theorem words_joinTokens {words : List (List Char)}
    (h : ∀ w ∈ words, w ≠ [] ∧ ∀ c ∈ w, Text.isBlank c = false) :
    Text.words (joinTokens words) = words := by
  fun_induction joinTokens words with
  | case1 => rfl
  | case2 w =>
    obtain ⟨hne, hblank⟩ := h w List.mem_cons_self
    rw [Text.words, Text.wordsAux_of_no_blank hblank]
    simp [hne]
  | case3 w words hwords ih =>
    rw [List.forall_mem_cons] at h
    obtain ⟨⟨hne, hblank⟩, hrest⟩ := h
    have hrest := ih hrest
    rw [Text.words] at hrest ⊢
    rw [Text.wordsAux_append_blank hblank (by decide), List.filter_cons_of_pos (by simp [hne]),
      hrest]

theorem ofTokens_eq_ok_iff {words : List (List Char)} {cs : List Chunk} :
    ofTokens words = .ok cs ↔ List.Forall₂ (fun w c => ofToken w = .ok c) words cs := by
  constructor
  · intro h
    induction words generalizing cs with
    | nil =>
      cases h
      exact .nil
    | cons word words ih =>
      rw [ofTokens] at h
      split at h
      · cases h
      · rename_i c hc
        split at h
        · cases h
        · rename_i rest hrest
          cases h
          exact .cons hc (ih hrest)
  · intro h
    induction h with
    | nil => rfl
    | cons hc _ ih => rw [ofTokens, hc, ih]

theorem ofAsm_eq_ok_iff {a : String} {s : Script} :
    ofAsm a = .ok s ↔
      List.Forall₂ (fun w c => ofToken w = .ok c) (Text.words a.toList) s.chunks := by
  rw [← ofTokens_eq_ok_iff, ofAsm, ofAsmChars]
  cases s
  cases ofTokens (Text.words a.toList) <;> simp

theorem words_toAsm {s : Script} (h : ∀ c ∈ s.chunks, c.WellFormed) :
    Text.words s.toAsm.toList = s.chunks.map Chunk.token := by
  rw [toAsm, toAsmChars, String.toList_ofList]
  apply words_joinTokens
  rw [List.forall_mem_map]
  intro c hc
  obtain ⟨hne, hvisible⟩ := Chunk.token_visible (h c hc)
  exact ⟨hne, fun d hd => Text.isBlank_of_visible (hvisible d hd)⟩

/-- **A text keeps everything of a script but the form of its pushes.** A script that was read from
bytes is read back from its text with every push in the shortest form, which there is for all of its
data. So it comes back unchanged exactly if its pushes had that form, and what comes back has the
same text. -/
theorem ofAsm_toAsm {bs : Bytes} {s : Script} (hread : ofBytes bs = .ok s) :
    ofAsm s.toAsm = .ok s.shortest ∧
      (∀ code data, .push code data ∈ s.chunks →
        Chunk.ofData? data = some (Chunk.push code data).shortest) ∧
      (ofAsm s.toAsm = .ok s ↔ ∀ c ∈ s.chunks, c.IsShortest) ∧
      s.shortest.toAsm = s.toAsm := by
  have hwf := (ofBytes_eq_ok_iff.1 hread).1
  have hback : ofAsm s.toAsm = .ok s.shortest := by
    rw [ofAsm_eq_ok_iff, words_toAsm hwf, shortest, List.forall₂_map_left_iff,
      List.forall₂_map_right_iff, List.forall₂_same]
    exact fun c hc => ofToken_token (hwf c hc)
  refine ⟨hback, ?_, ?_, ?_⟩
  · intro code data hmem
    exact Chunk.ofData?_shortest (hwf _ hmem)
  · rw [hback, Except.ok.injEq]
    exact shortest_eq_self_iff hwf
  · rw [toAsm, toAsm, toAsmChars, toAsmChars, shortest, List.map_map]
    congr 2
    exact List.map_congr_left fun c hc => Chunk.token_shortest (hwf c hc)

theorem ofAsm_toAsm_longForms :
    ∃ s, ofBytes [0x4c, 1, 0xaa, 0x4d, 0, 0, 0xba, 0x76] = .ok s ∧ s.toAsm = "aa 0 0xba OP_DUP" ∧
      ofAsm s.toAsm = .ok ⟨[.push 1 [0xaa], .op 0, .op 0xba, .op 0x76]⟩ ∧
      ofAsm s.toAsm ≠ .ok s := by
  have hread : ofBytes [0x4c, 1, 0xaa, 0x4d, 0, 0, 0xba, 0x76] =
      .ok ⟨[.push 0x4c [0xaa], .push 0x4d [], .op 0xba, .op 0x76]⟩ :=
    ofBytes_eq_ok_iff.2 ⟨by decide, rfl⟩
  obtain ⟨hback, -, hself, -⟩ := ofAsm_toAsm hread
  exact ⟨_, hread, by decide +kernel, hback, fun h => absurd (hself.1 h) (by decide)⟩

/-! ## The bytes of a text -/

/-- The words for the opcode bytes that announce the length of the data behind them. -/
def pushWords : List String := [
  "OP_PUSHDATA1", "OP_PUSHDATA2", "OP_PUSHDATA4", "0x4c", "0x4C", "0x4d", "0x4D", "0x4e", "0x4E"]

/-- The ways in which a word is read. -/
theorem ofToken_cases {word : List Char} {c : Chunk} (h : ofToken word = .ok c) :
    (∃ o, Opcode.ofName? (String.ofList word) = some o ∧ c = .ofOpcode o) ∨
      word = ['0'] ∧ c = .ofOpcode .zero ∨ word = ['-', '1'] ∧ c = .ofOpcode .oneNegate ∨
      (∃ raw b, word = '0' :: 'x' :: raw ∧ rawByte? raw = some b ∧ c = .op b) ∨
      ∃ data, Text.Hex.decodeChars word = .ok data ∧ Chunk.ofData? data = some c := by
  rw [ofToken.eq_def] at h
  split at h
  · rename_i o hname
    cases h
    exact .inl ⟨o, hname, rfl⟩
  · split at h
    · cases h
      exact .inr (.inl ⟨rfl, rfl⟩)
    · cases h
      exact .inr (.inr (.inl ⟨rfl, rfl⟩))
    · split at h
      · rename_i b hb
        cases h
        exact .inr (.inr (.inr (.inl ⟨_, b, rfl, hb, rfl⟩)))
      · cases h
    · rw [dataToken] at h
      split at h
      · cases h
      · rename_i data hdata
        split at h
        · rename_i c' hc
          cases h
          exact .inr (.inr (.inr (.inr ⟨data, hdata, hc⟩)))
        · cases h

/-- The byte of a literal, unless it is zero, is spelled by its two digits. -/
theorem rawByte?_cases {raw : List Char} {b : UInt8} (h : rawByte? raw = some b) :
    ¬(1 ≤ b.toNat ∧ b.toNat ≤ 0x4b) ∧ (b.toNat = 0 ∨ ∃ high low, raw = [high, low] ∧
      Text.Hex.digitValue? high = some (b.toNat / 16) ∧
      Text.Hex.digitValue? low = some (b.toNat % 16)) := by
  have hmax : Opcode.maxDirectPush.toNat = 0x4b := rfl
  simp only [rawByte?, hmax] at h
  split at h
  · rename_i n hn
    split at h
    · cases h
    · rename_i hrange
      cases h
      rw [Bytes.toNat_ofNat_byte]
      split at hn
      · have hlt := (Text.Hex.eq_digit_of_digitValue? hn).1
        exact ⟨by omega, .inl (by omega)⟩
      · rename_i high low _
        split at hn
        · rename_i h l hhigh hlow
          cases hn
          have hh := (Text.Hex.eq_digit_of_digitValue? hhigh).1
          have hl := (Text.Hex.eq_digit_of_digitValue? hlow).1
          have hdiv : (16 * h + l) % 256 / 16 = h := by omega
          have hmod : (16 * h + l) % 256 % 16 = l := by omega
          rw [hdiv, hmod]
          exact ⟨by omega, .inr ⟨high, low, rfl, hhigh, hlow⟩⟩
        · cases hn
      · cases hn
  · cases h

theorem byteWord_mem_pushWords {high low : Char} {n : Nat} (hn : 12 ≤ n ∧ n ≤ 14)
    (hhigh : Text.Hex.digitValue? high = some 4) (hlow : Text.Hex.digitValue? low = some n) :
    String.ofList ['0', 'x', high, low] ∈ pushWords := by
  have hfour : high = '4' := (Text.Hex.eq_digit_of_digitValue? hhigh).2.elim id id
  obtain ⟨hlower, hupper⟩ := hn
  rcases (Text.Hex.eq_digit_of_digitValue? hlow).2 with rfl | rfl
  all_goals
    subst hfour
    interval_cases n
    all_goals decide +kernel

theorem ofToken_pushWord : ∀ w ∈ pushWords,
    ∃ b ∈ [Chunk.pushData1, Chunk.pushData2, Chunk.pushData4], ofToken w.toList = .ok (.op b) := by
  simp only [pushWords, List.forall_mem_cons]
  refine ⟨?_, ?_, ?_, ?_, ?_, ?_, ?_, ?_, ?_, nofun⟩
  all_goals decide +kernel

theorem mem_pushWords_of_ofName? {word : String} {o : Opcode}
    (h : Opcode.ofName? word = some o) (hnot : ¬(Chunk.ofOpcode o).WellFormed) :
    word ∈ pushWords := by
  have halias : ∀ p ∈ Opcode.aliases, (Chunk.ofOpcode p.2).WellFormed := by decide +kernel
  rcases Opcode.eq_or_mem_of_ofName? h with rfl | hmem
  · rcases Chunk.wellFormed_ofOpcode_or o with hwf | rfl | rfl | rfl
    · exact absurd hwf hnot
    all_goals decide +kernel
  · exact absurd (halias _ hmem) hnot

theorem mem_pushWords_of_rawByte? {raw : List Char} {b : UInt8} (h : rawByte? raw = some b)
    (hnot : ¬(Chunk.op b).WellFormed) : String.ofList ('0' :: 'x' :: raw) ∈ pushWords := by
  obtain ⟨hpos, hle⟩ := not_or.1 hnot
  have hne : b.toNat ≠ 0 := fun hzero => hpos (UInt8.toNat_inj.1 hzero)
  have hle : b.toNat ≤ 0x4e := UInt8.le_iff_toNat_le.1 (UInt8.not_lt.1 hle)
  obtain ⟨hdirect, hzero | ⟨high, low, rfl, hhigh, hlow⟩⟩ := rawByte?_cases h
  · exact absurd hzero hne
  · -- the three bytes share their first digit
    have hfour : b.toNat / 16 = 4 := by omega
    rw [hfour] at hhigh
    exact byteWord_mem_pushWords (by omega) hhigh hlow

theorem not_wellFormed_of_mem_pushWords {word : List Char} {c : Chunk} (h : ofToken word = .ok c)
    (hmem : String.ofList word ∈ pushWords) : ¬c.WellFormed := by
  have hlone : ∀ b ∈ [Chunk.pushData1, Chunk.pushData2, Chunk.pushData4],
      ¬(Chunk.op b).WellFormed := by decide +kernel
  obtain ⟨b, hb, hop⟩ := ofToken_pushWord _ hmem
  rw [String.toList_ofList, h] at hop
  cases hop
  exact hlone b hb

/-- A word is read as a chunk that can be read back, unless it is one of the nine. -/
theorem wellFormed_iff_of_ofToken {word : List Char} {c : Chunk} (h : ofToken word = .ok c) :
    c.WellFormed ↔ String.ofList word ∉ pushWords := by
  constructor
  · intro hwf hmem
    exact not_wellFormed_of_mem_pushWords h hmem hwf
  · intro hword
    by_contra hnot
    rcases ofToken_cases h with ⟨o, hname, rfl⟩ | ⟨-, rfl⟩ | ⟨-, rfl⟩ | ⟨raw, b, rfl, hraw, rfl⟩ |
      ⟨data, -, hdata⟩
    · exact hword (mem_pushWords_of_ofName? hname hnot)
    · exact hnot (by decide)
    · exact hnot (by decide)
    · exact hword (mem_pushWords_of_rawByte? hraw hnot)
    · exact hnot (Chunk.wellFormed_of_ofData? hdata)

theorem wellFormed_iff_of_forall₂ {words : List (List Char)} {cs : List Chunk}
    (h : List.Forall₂ (fun w c => ofToken w = .ok c) words cs) :
    (∀ c ∈ cs, c.WellFormed) ↔ ∀ word ∈ words, String.ofList word ∉ pushWords := by
  induction h with
  | nil => exact iff_of_true nofun nofun
  | cons hword _ ih =>
    rw [List.forall_mem_cons, List.forall_mem_cons, wellFormed_iff_of_ofToken hword, ih]

/-- **Which texts survive as bytes.** The script of a text is read back from its bytes exactly if
no word of the text stands for an opcode byte that announces the length of data. Such a word makes a
chunk of its own, but in the bytes it takes what follows for a length. -/
theorem ofBytes_toBytes_of_ofAsm {a : String} {s : Script} (h : ofAsm a = .ok s) :
    ofBytes s.toBytes = .ok s ↔
      ∀ word ∈ Text.words a.toList, String.ofList word ∉ pushWords := by
  rw [ofBytes_eq_ok_iff, and_iff_left rfl]
  exact wellFormed_iff_of_forall₂ (ofAsm_eq_ok_iff.1 h)

theorem ofBytes_toBytes_of_ofAsm_names :
    ∃ s, ofAsm "OP_NOP2 0xba 00ff 0x00" = .ok s ∧ ofBytes s.toBytes = .ok s := by
  have hread : ofAsm "OP_NOP2 0xba 00ff 0x00" =
      .ok ⟨[.op 0xb1, .op 0xba, .push 2 [0, 0xff], .op 0]⟩ := by decide +kernel
  exact ⟨_, hread, (ofBytes_toBytes_of_ofAsm hread).2 (by decide +kernel)⟩

/-- Behind a word for the opcode byte of a push, the bytes break off or give another script. -/
theorem ofBytes_lone_pushData :
    (∃ s, ofAsm "0x4c" = .ok s ∧ ofBytes s.toBytes = .error (.truncatedPush 0 1 0)) ∧
      ∃ s, ofAsm "OP_PUSHDATA1 0" = .ok s ∧
        ofBytes s.toBytes = .ok ⟨[.push Chunk.pushData1 []]⟩ := by
  refine ⟨⟨⟨[.op 0x4c]⟩, ?_, ?_⟩, ⟨[.op 0x4c, .op 0]⟩, ?_, ?_⟩
  · decide +kernel
  · exact ofBytes_eq_error_iff.2 (decodeFrom_cons_of_error rfl)
  · decide +kernel
  · exact ofBytes_eq_ok_iff.2 ⟨by decide, rfl⟩

end Script

end SpendScript
