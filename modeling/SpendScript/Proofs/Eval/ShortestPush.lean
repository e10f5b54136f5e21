import SpendScript.Proofs.Eval.Number
import SpendScript.Proofs.Eval.Reachable
import SpendScript.Proofs.Script.Decoding

/-!
# SpendScript.Proofs.Eval.ShortestPush

The shortest chunk that pushes some data. Data comes after an opcode byte and as many length bytes
as its length asks for, or from an opcode of its own, which is a single byte. Such opcodes push
numbers, so it is the encoding of numbers that says which data has one.

* `widthFor_le`, `ofData?_of_lengthWidth_eq`: no push has fewer length bytes than the one that
  `ofData?` makes, and no other push has as few.
* `hasOpcode_iff`: the data that an opcode pushes.
* `isMinimalPush_iff_forall`: the check of the form of a push asks for both, so that it passes
  exactly where no chunk is shorter.
* `exec_of_pushing`, `isMinimalPush_iff_shortest`: the same by what the chunks do.
* `exec_pushData`: what scripts are built with, where the form is checked.
-/

namespace SpendScript

namespace Chunk

/-! ## Length bytes -/

/-- How many length bytes the shortest push has, by the length of its data. -/
def widthFor (n : Nat) : Nat :=
  if n ≤ 0x4b then 0 else if n ≤ 0xff then 1 else if n ≤ 0xffff then 2 else 4

theorem encodedLength_of_ofData? {data : Bytes} {c : Chunk} (h : ofData? data = some c) :
    c.encodedLength = 1 + widthFor data.length + data.length := by
  rcases ofData?_cases h with ⟨rfl, rfl⟩ | ⟨-, hlen, rfl⟩ | ⟨hlow, hlen, rfl⟩ |
    ⟨hlow, hlen, rfl⟩ | ⟨hlow, hlen, rfl⟩
  · rfl
  · rw [encodedLength, lengthWidth_of_le (directCode_le hlen), widthFor, if_pos hlen]
  · rw [widthFor, if_neg (by omega), if_pos hlen]
    rfl
  · rw [widthFor, if_neg (by omega), if_neg (by omega), if_pos hlen]
    rfl
  · rw [widthFor, if_neg (by omega), if_neg (by omega), if_neg (by omega)]
    rfl

section WellFormed

variable {code : UInt8} {data : Bytes}

/-- A push has one of the four forms, not always the shortest that its data fits. -/
theorem wellFormed_push_cases (h : (push code data).WellFormed) :
    lengthWidth code = 0 ∧ 1 ≤ data.length ∧ data.length ≤ 0x4b ∧ code.toNat = data.length ∨
      lengthWidth code = 1 ∧ data.length ≤ 0xff ∧ code = pushData1 ∨
      lengthWidth code = 2 ∧ data.length ≤ 0xffff ∧ code = pushData2 ∨
      lengthWidth code = 4 ∧ data.length ≤ 0xffffffff ∧ code = pushData4 := by
  rw [WellFormed] at h
  split at h
  · rename_i hdirect
    obtain ⟨hlow, hhigh, hlength⟩ := h
    have hone : 1 ≤ code.toNat := hlow
    have hmax : code.toNat ≤ 0x4b := hhigh
    exact .inl ⟨hdirect, by omega, by omega, hlength.symm⟩
  · rename_i hfield
    by_cases h1 : code = pushData1
    · subst h1
      exact .inr (.inl ⟨rfl, Nat.le_of_lt_succ h, rfl⟩)
    · by_cases h2 : code = pushData2
      · subst h2
        exact .inr (.inr (.inl ⟨rfl, Nat.le_of_lt_succ h, rfl⟩))
      · have h4 : code = pushData4 := by
          by_contra hne
          simp [lengthWidth, h1, h2, hne] at hfield
        subst h4
        exact .inr (.inr (.inr ⟨rfl, Nat.le_of_lt_succ h, rfl⟩))

theorem code_le_of_wellFormed (h : (push code data).WellFormed) : code ≤ pushData4 := by
  rcases wellFormed_push_cases h with ⟨-, -, hlen, hcode⟩ | ⟨-, -, rfl⟩ | ⟨-, -, rfl⟩ | ⟨-, -, rfl⟩
  · have hle : code.toNat ≤ 0x4e := by omega
    exact hle
  all_goals decide

theorem one_lt_encodedLength (h : (push code data).WellFormed) :
    1 < (push code data).encodedLength := by
  rw [encodedLength]
  rcases wellFormed_push_cases h with ⟨-, hpos, -⟩ | ⟨hwidth, -⟩ | ⟨hwidth, -⟩ | ⟨hwidth, -⟩
  all_goals omega

theorem widthFor_le (h : (push code data).WellFormed) :
    widthFor data.length ≤ lengthWidth code := by
  rcases wellFormed_push_cases h with ⟨hwidth, -, hlen, -⟩ | ⟨hwidth, hlen, -⟩ |
    ⟨hwidth, hlen, -⟩ | ⟨hwidth, hlen, -⟩
  all_goals
    rw [hwidth, widthFor]
    split_ifs
    all_goals omega

theorem ofData?_of_lengthWidth_eq (h : (push code data).WellFormed)
    (hwidth : lengthWidth code = widthFor data.length) : ofData? data = some (push code data) := by
  rcases wellFormed_push_cases h with ⟨-, hpos, hlen, hcode⟩ | ⟨hfield, hlen, rfl⟩ |
    ⟨hfield, hlen, rfl⟩ | ⟨hfield, hlen, rfl⟩
  · have hdirect : UInt8.ofNat data.length = code :=
      UInt8.toNat_inj.1 ((toNat_directCode hlen).trans hcode.symm)
    rw [ofData?_of_length_le (List.ne_nil_of_length_pos hpos) hlen, hdirect]
  all_goals
    rw [hfield, widthFor] at hwidth
    simp only [ofData?]
    split_ifs at hwidth ⊢
    all_goals first | rfl | omega

/-- For more than one byte the check compares the opcode byte with the one of the shortest push. -/
theorem lengthWidth_eq_of_isMinimalPush (h : (push code data).WellFormed) (hlong : 1 < data.length)
    (hmin : (push code data).isMinimalPush = true) : lengthWidth code = widthFor data.length := by
  rw [isMinimalPush_push hlong] at hmin
  rw [widthFor]
  split_ifs at hmin ⊢
  · rename_i hlen
    rw [beq_iff_eq] at hmin
    apply lengthWidth_of_le
    rw [UInt8.le_iff_toNat_le, hmin]
    exact hlen
  · rw [eq_of_beq hmin]
    rfl
  · rw [eq_of_beq hmin]
    rfl
  · -- Only one form has room for so many bytes, and the check asks for nothing.
    rcases wellFormed_push_cases h with ⟨-, -, hlen, -⟩ | ⟨-, hlen, -⟩ | ⟨-, hlen, -⟩ | ⟨hwidth, -⟩
    · omega
    · omega
    · omega
    · exact hwidth

end WellFormed

/-! ## What chunks push -/

/-- A chunk that can be read in a script and pushes an item. The reserved opcode, whose byte is
among those of such chunks, does not. -/
structure Pushing (c : Chunk) : Prop where
  wellFormed : c.WellFormed
  low : c.code ≤ Opcode.sixteen.byte
  unreserved : c.code ≠ Opcode.reserved.byte

instance (c : Chunk) : Decidable c.Pushing :=
  decidable_of_iff (c.WellFormed ∧ c.code ≤ Opcode.sixteen.byte ∧ c.code ≠ Opcode.reserved.byte)
    ⟨fun h => ⟨h.1, h.2.1, h.2.2⟩, fun h => ⟨h.wellFormed, h.low, h.unreserved⟩⟩

/-- The number that an opcode byte stands for, up to the one for 16. -/
def codeNumber (code : UInt8) : Int := if code = 0 then 0 else code.toNat - 0x50

/-- What a pushing chunk pushes. -/
def item : Chunk → Bytes
  | .op code => Number.encode (codeNumber code)
  | .push _ data => data

theorem pushing_of_wellFormed {code : UInt8} {data : Bytes} (h : (push code data).WellFormed) :
    (push code data).Pushing := by
  have hcode := code_le_of_wellFormed h
  refine ⟨h, UInt8.le_trans hcode (by decide), ?_⟩
  intro hreserved
  exact absurd (hreserved ▸ hcode : Opcode.reserved.byte ≤ pushData4) (by decide)

theorem item_zero : (ofOpcode .zero).item = [] :=
  Number.encode_value_of_isMinimal (rfl : Number.isMinimal [] = true)

theorem pushing_of_ofData? {data : Bytes} {c : Chunk} (h : ofData? data = some c) : c.Pushing := by
  rcases ofData?_cases h with ⟨-, rfl⟩ | ⟨-, -, rfl⟩ | ⟨-, -, rfl⟩ | ⟨-, -, rfl⟩ | ⟨-, -, rfl⟩
  · decide
  all_goals exact pushing_of_wellFormed (wellFormed_of_ofData? h)

theorem item_of_ofData? {data : Bytes} {c : Chunk} (h : ofData? data = some c) : c.item = data := by
  rcases ofData?_cases h with ⟨rfl, rfl⟩ | ⟨-, -, rfl⟩ | ⟨-, -, rfl⟩ | ⟨-, -, rfl⟩ | ⟨-, -, rfl⟩
  · exact item_zero
  all_goals rfl

/-- The data is what a single opcode byte pushes. -/
def HasOpcode (data : Bytes) : Prop := ∃ code, (op code).Pushing ∧ (op code).item = data

theorem codeNumber_bounds {code : UInt8} (h : (op code).Pushing) :
    -1 ≤ codeNumber code ∧ codeNumber code ≤ 16 :=
  forall_byte (p := fun code => (op code).Pushing → -1 ≤ codeNumber code ∧ codeNumber code ≤ 16)
    (by decide +kernel) code h

theorem exists_codeNumber_eq {n : Int} (h : -1 ≤ n ∧ n ≤ 16) :
    ∃ code, (op code).Pushing ∧ codeNumber code = n := by
  have hcodes : ∀ k : Fin 18, ∃ i : Fin 256,
      (op (UInt8.ofFin i)).Pushing ∧ codeNumber (UInt8.ofFin i) = (k.val : Int) - 1 := by
    decide +kernel
  obtain ⟨i, hpushing, hnumber⟩ := hcodes ⟨(n + 1).toNat, by omega⟩
  refine ⟨UInt8.ofFin i, hpushing, ?_⟩
  rw [hnumber]
  dsimp only
  omega

/-- The bytes that are the items of numbers in that range. -/
theorem singleton_item_iff (b : UInt8) :
    Number.isMinimal [b] = true ∧ -1 ≤ Number.value [b] ∧ Number.value [b] ≤ 16 ↔
      1 ≤ b ∧ b ≤ 16 ∨ b = 0x81 :=
  forall_byte (p := fun b => Number.isMinimal [b] = true ∧ -1 ≤ Number.value [b] ∧
    Number.value [b] ≤ 16 ↔ 1 ≤ b ∧ b ≤ 16 ∨ b = 0x81) (by decide +kernel) b

/-- Numbers and minimal items are in bijection, so the number that an opcode has to push is read off
the data. -/
theorem hasOpcode_iff {data : Bytes} :
    HasOpcode data ↔ data = [] ∨ ∃ b, data = [b] ∧ (1 ≤ b ∧ b ≤ 16 ∨ b = 0x81) := by
  constructor
  · rintro ⟨code, hpushing, rfl⟩
    have hbounds := codeNumber_bounds hpushing
    have hvalue : Number.value (op code).item = codeNumber code := Number.value_encode _
    have hmin : Number.isMinimal (op code).item = true := Number.isMinimal_encode _
    have hshort : (op code).item.length ≤ 1 :=
      (Number.length_encode_le_iff Nat.one_pos _).2 (by omega)
    rw [← hvalue] at hbounds
    generalize (op code).item = data at hbounds hmin hshort
    match data, hshort with
    | [], _ => exact .inl rfl
    | [b], _ => exact .inr ⟨b, rfl, (singleton_item_iff b).1 ⟨hmin, hbounds⟩⟩
  · rintro (rfl | ⟨b, rfl, hb⟩)
    · exact ⟨Opcode.zero.byte, by decide, item_zero⟩
    · obtain ⟨hmin, hbounds⟩ := (singleton_item_iff b).2 hb
      obtain ⟨code, hpushing, hnumber⟩ := exists_codeNumber_eq hbounds
      refine ⟨code, hpushing, ?_⟩
      rw [item, hnumber, Number.encode_value_of_isMinimal hmin]

theorem length_le_of_hasOpcode {data : Bytes} (h : HasOpcode data) : data.length ≤ 1 := by
  rcases hasOpcode_iff.1 h with rfl | ⟨b, rfl, -⟩
  all_goals simp

/-! ## The check of the form -/

theorem isMinimalPush_iff {code : UInt8} {data : Bytes} (h : (push code data).WellFormed) :
    (push code data).isMinimalPush = true ↔
      ofData? data = some (push code data) ∧ ¬HasOpcode data := by
  -- The check has a case of its own where there may be an opcode: for no byte and for one.
  match data, h with
  | [], _ => exact iff_of_false Bool.false_ne_true fun h => h.2 (hasOpcode_iff.2 (.inl rfl))
  | [b], _ =>
    have hform : ofData? [b] = some (push code [b]) ↔ code = 1 := by
      rw [ofData?_of_length_le (by simp) (by simp)]
      simp [eq_comm]
    rw [hasOpcode_iff, hform, and_comm, isMinimalPush]
    simp only [Bool.and_eq_true, beq_iff_eq, Bool.not_eq_true', ← Bool.not_eq_true, Bool.or_eq_true,
      decide_eq_true_iff]
    simp
  | b :: b' :: rest, h =>
    have hlong : 1 < (b :: b' :: rest).length := by simp
    constructor
    · intro hmin
      refine ⟨ofData?_of_lengthWidth_eq h (lengthWidth_eq_of_isMinimalPush h hlong hmin), ?_⟩
      intro hopcode
      exact absurd (length_le_of_hasOpcode hopcode) (Nat.not_le.2 hlong)
    · rintro ⟨hform, -⟩
      exact isMinimalPush_of_ofData? hform (Nat.ne_of_gt hlong)

/-- The push that `ofData?` makes passes the check, unless an opcode pushes that data. -/
theorem isMinimalPush_iff_of_ofData? {data : Bytes} {c : Chunk} (h : ofData? data = some c) :
    c.isMinimalPush = true ↔ ¬∃ b, data = [b] ∧ (1 ≤ b ∧ b ≤ 16 ∨ b = 0x81) := by
  by_cases hnil : data = []
  · subst hnil
    cases h
    simp [ofOpcode, isMinimalPush]
  · have hdata := data?_of_ofData? h hnil
    cases c with
    | op code => cases hdata
    | push code data' =>
      cases hdata
      rw [isMinimalPush_iff (wellFormed_of_ofData? h), hasOpcode_iff]
      simp [h, hnil]

theorem isMinimalPush_iff_forall {code : UInt8} {data : Bytes} (h : (push code data).WellFormed) :
    (push code data).isMinimalPush = true ↔
      ∀ c : Chunk, c.Pushing → c.item = data →
        (push code data).encodedLength ≤ c.encodedLength := by
  rw [isMinimalPush_iff h]
  constructor
  · rintro ⟨hform, hopcode⟩ c hc hitem
    have hlength := encodedLength_of_ofData? hform
    cases c with
    | op code' => exact absurd ⟨code', hc, hitem⟩ hopcode
    | push code' data' =>
      obtain rfl : data' = data := hitem
      have hwidth := widthFor_le hc.wellFormed
      rw [hlength, encodedLength]
      omega
  · intro hshortest
    refine ⟨ofData?_of_lengthWidth_eq h ?_, ?_⟩
    · obtain ⟨c, hc⟩ := exists_ofData? (length_le_of_wellFormed h)
      have hle := hshortest c (pushing_of_ofData? hc) (item_of_ofData? hc)
      have hwidth := widthFor_le h
      rw [encodedLength_of_ofData? hc, encodedLength] at hle
      omega
    · rintro ⟨code', hpushing, hitem⟩
      have hle := hshortest (op code') hpushing hitem
      exact absurd hle (Nat.not_le.2 (one_lt_encodedLength h))

end Chunk

/-- All opcode bytes of numbers are named. -/
theorem Opcode.exists_ofByte?_of_le {code : UInt8} (hopcode : Chunk.pushData4 < code)
    (hlow : code ≤ sixteen.byte) : ∃ op, ofByte? code = some op :=
  Option.isSome_iff_exists.1 (forall_byte
    (p := fun code => Chunk.pushData4 < code → code ≤ sixteen.byte →
      (ofByte? code).isSome = true)
    (by decide +kernel) code hopcode hlow)

namespace Machine

variable {env : Env} {m : Machine}

theorem push_inj {x y : Bytes} : m.push x = m.push y ↔ x = y := by simp [push]

theorem perform_of_pushing {op : Opcode} (hopcode : Chunk.pushData4 < op.byte)
    (h : (Chunk.ofOpcode op).Pushing) (chunks : List Chunk) (offset : Nat) :
    m.perform env chunks offset op = .ok (m.push (Chunk.ofOpcode op).item) := by
  -- What is left between the length fields and the reserved opcode, or up to the one for 16.
  cases op
  all_goals first
    | rfl
    | exact absurd hopcode (by decide)
    | exact absurd h (by decide)

theorem exec_op_of_pushing {code : UInt8} (h : (Chunk.op code).Pushing) (hx : m.executing = true)
    (chunks : List Chunk) (offset : Nat) :
    m.exec env chunks offset (.op code) = .ok (m.push (Chunk.op code).item) := by
  rcases h.wellFormed with rfl | hopcode
  · refine (exec_data_eq_ok_iff (by decide) hx).2 ⟨Nat.zero_le _, fun _ => rfl, ?_⟩
    exact push_inj.2 Chunk.item_zero.symm
  · obtain ⟨op, hop⟩ := Opcode.exists_ofByte?_of_le hopcode h.low
    obtain rfl := Opcode.byte_eq_of_ofByte? hop
    have henabled : op.isDisabled = false := by
      rw [← Bool.not_eq_true]
      intro hdisabled
      exact absurd h.low (UInt8.not_le.2 (sixteen_lt_byte_of_isDisabled hdisabled))
    exact (exec_of_countOp hopcode henabled (countOp_of_le h.low) hx).trans
      (perform_of_pushing hopcode h chunks offset)

/-- Where the form is not checked, a pushing chunk pushes its item, if that is not too long. -/
theorem exec_of_pushing {c : Chunk} (h : c.Pushing) (hflag : env.flags.has .minimalData = false)
    (hsize : c.item.length ≤ env.limits.maxElementSize) (hx : m.executing = true)
    (chunks : List Chunk) (offset : Nat) :
    m.exec env chunks offset c = .ok (m.push c.item) := by
  cases c with
  | op code => exact exec_op_of_pushing h hx chunks offset
  | push code data =>
    have hcode := Chunk.code_le_of_wellFormed h.wellFormed
    refine (exec_data_eq_ok_iff (c := .push code data) hcode hx).2 ⟨hsize, ?_, rfl⟩
    rw [hflag]
    exact nofun

theorem item_of_exec {c : Chunk} {data : Bytes} {chunks : List Chunk} {offset : Nat}
    (h : c.Pushing) (hx : m.executing = true)
    (hexec : m.exec env chunks offset c = .ok (m.push data)) : c.item = data := by
  cases c with
  | op code =>
    rw [exec_op_of_pushing h hx, Except.ok.injEq, push_inj] at hexec
    exact hexec
  | push code data' =>
    have hcode := Chunk.code_le_of_wellFormed h.wellFormed
    obtain ⟨-, -, hpush⟩ := (exec_data_eq_ok_iff (c := .push code data') hcode hx).1 hexec
    exact push_inj.1 hpush

end Machine

namespace Chunk

/-- In a taken branch of some script, where the form of pushes is not checked, the chunk pushes
`data`. -/
def Pushes (c : Chunk) (data : Bytes) : Prop :=
  ∃ (env : Env) (m : Machine) (chunks : List Chunk) (offset : Nat),
    env.flags.has .minimalData = false ∧ m.executing = true ∧
      m.exec env chunks offset c = .ok (m.push data)

theorem pushes_iff {c : Chunk} {data : Bytes} (h : c.Pushing) : c.Pushes data ↔ c.item = data := by
  constructor
  · rintro ⟨env, m, chunks, offset, -, hx, hexec⟩
    exact Machine.item_of_exec h hx hexec
  · rintro rfl
    let env : Env := ⟨.none, { maxElementSize := c.item.length }, none, 0⟩
    have hflag : Flags.none.has .minimalData = false := by decide
    exact ⟨env, .initial, [], 0, hflag, rfl,
      Machine.exec_of_pushing h hflag (Nat.le_refl c.item.length) rfl [] 0⟩

/-- **The check of the form of a push is the check that there is no shorter one.** A push that is
read in a script passes it exactly if every chunk that pushes the same data, be it an opcode or a
push of another form, is at least as long. What a chunk pushes does not depend on the state, as long
as the data is not too long to be pushed at all. -/
theorem isMinimalPush_iff_shortest {bs : Bytes} {s : Script} {code : UInt8} {data : Bytes}
    (hread : Script.ofBytes bs = .ok s) (hmem : push code data ∈ s.chunks) :
    (push code data).Pushes data ∧
      ((push code data).isMinimalPush = true ↔
        ∀ c : Chunk, c.Pushing → c.Pushes data →
          (push code data).encodedLength ≤ c.encodedLength) ∧
      ∀ (env : Env) (m : Machine) (chunks : List Chunk) (offset : Nat),
        env.flags.has .minimalData = false → data.length ≤ env.limits.maxElementSize →
        m.executing = true → ∀ c : Chunk, c.Pushing →
          (c.Pushes data ↔ m.exec env chunks offset c = .ok (m.push data)) := by
  have hwf := (Script.ofBytes_eq_ok_iff.1 hread).1 _ hmem
  refine ⟨(pushes_iff (pushing_of_wellFormed hwf)).2 rfl, ?_, ?_⟩
  · rw [isMinimalPush_iff_forall hwf]
    refine forall₂_congr fun c hc => ?_
    rw [pushes_iff hc]
  · intro env m chunks offset hflag hsize hx c hc
    rw [pushes_iff hc]
    constructor
    · rintro rfl
      exact Machine.exec_of_pushing hc hflag hsize hx chunks offset
    · exact Machine.item_of_exec hc hx

/-- A byte behind a length field: the direct push is shorter by one. -/
theorem isMinimalPush_iff_shortest_lengthField :
    Script.ofBytes [0x4c, 1, 17] = .ok ⟨[push 0x4c [17]]⟩ ∧
      ¬∀ c : Chunk, c.Pushing → c.Pushes [17] → 3 ≤ c.encodedLength := by
  have hread : Script.ofBytes [0x4c, 1, 17] = .ok ⟨[push 0x4c [17]]⟩ :=
    Script.ofBytes_toBytes (s := ⟨[push 0x4c [17]]⟩) (by decide)
  refine ⟨hread, fun hshortest => ?_⟩
  exact absurd ((isMinimalPush_iff_shortest hread List.mem_cons_self).2.1.2 hshortest) (by decide)

end Chunk

namespace Machine

variable {env : Env} {m : Machine}

/-- **What a script is built with passes the check of its form, but for single bytes that an opcode
pushes.** Data of any length that a push can have is appended as one chunk. That chunk pushes the
data where the form of pushes is checked, unless the data is a byte from 1 to 16 or `0x81`: then it
is refused, since only the opcode for that number is short enough. -/
theorem exec_pushData {data : Bytes} (hflag : env.flags.has .minimalData = true)
    (hsize : data.length ≤ env.limits.maxElementSize) (hx : m.executing = true) (s : Script)
    (chunks : List Chunk) (offset : Nat) :
    (data.length ≤ 0xffffffff → ∃ s', s.pushData data = .ok s') ∧
      ∀ s', s.pushData data = .ok s' → ∃ c, s'.chunks = s.chunks ++ [c] ∧
        ((¬∃ b, data = [b] ∧ (1 ≤ b ∧ b ≤ 16 ∨ b = 0x81)) →
          m.exec env chunks offset c = .ok (m.push data)) ∧
        ((∃ b, data = [b] ∧ (1 ≤ b ∧ b ≤ 16 ∨ b = 0x81)) →
          ∃ f, m.exec env chunks offset c = .error f ∧ f.code = .minimalData) := by
  rw [Script.pushData]
  constructor
  · intro hlen
    obtain ⟨c, hc⟩ := Chunk.exists_ofData? hlen
    exact ⟨_, by rw [hc]⟩
  · intro s' hpush
    split at hpush
    · rename_i c hc
      cases hpush
      have hexec : m.exec env chunks offset c =
          if !c.isMinimalPush then .error (.longPush c) else .ok (m.push data) := by
        rw [exec_data (Chunk.code_le_of_ofData? hc) hx, Chunk.payload_of_ofData? hc,
          if_neg (Nat.not_lt.2 hsize), hflag, Bool.true_and]
      refine ⟨c, rfl, fun hplain => ?_, fun hlone => ?_⟩
      · rw [hexec, (Chunk.isMinimalPush_iff_of_ofData? hc).2 hplain]
        rfl
      · have hmin : c.isMinimalPush = false := by
          rw [← Bool.not_eq_true, Chunk.isMinimalPush_iff_of_ofData? hc, not_not]
          exact hlone
        exact ⟨.longPush c, by rw [hexec, hmin]; rfl, rfl⟩
    · cases hpush

/-- The highest number that has an opcode is refused as data, and the next one is pushed. -/
theorem exec_pushData_border :
    let env : Env := ⟨.minimalData, {}, none, 0⟩
    (∃ f, initial.exec env [] 0 (.push 1 [16]) = .error f ∧ f.code = .minimalData) ∧
      initial.exec env [] 0 (.push 1 [17]) = .ok (initial.push [17]) := by
  intro env
  have hflag : env.flags.has .minimalData = true := by decide
  have hsize (b : UInt8) : [b].length ≤ env.limits.maxElementSize := (by decide : 1 ≤ 520)
  obtain ⟨-, hrefused⟩ := exec_pushData (m := initial) hflag (hsize 16) rfl .empty [] 0
  obtain ⟨-, hpushed⟩ := exec_pushData (m := initial) hflag (hsize 17) rfl .empty [] 0
  obtain ⟨c, hc, -, hrefused⟩ := hrefused ⟨[.push 1 [16]]⟩ rfl
  obtain ⟨c', hc', hpushed, -⟩ := hpushed ⟨[.push 1 [17]]⟩ rfl
  obtain rfl : Chunk.push 1 [16] = c := List.singleton_inj.1 hc
  obtain rfl : Chunk.push 1 [17] = c' := List.singleton_inj.1 hc'
  refine ⟨hrefused ⟨16, rfl, by decide⟩, hpushed ?_⟩
  rintro ⟨b, hb, hsmall⟩
  obtain rfl : 17 = b := List.singleton_inj.1 hb
  exact absurd hsmall (by decide)

/-- The first chunk of a script that was built to push a 1 is refused as soon as it is met. -/
theorem exec_pushData_one :
    ¬∀ (env : Env) (unlocking locking s : Script) (e : Evaluation) (data : Bytes),
      Evaluation.Reachable env unlocking locking e → e.machine.executing = true →
      env.flags.has .minimalData = true → data.length ≤ env.limits.maxElementSize →
      ∃ c, s.pushData data = .ok ⟨s.chunks ++ [c]⟩ ∧
        e.machine.exec env e.running.chunks e.offset c = .ok (e.machine.push data) := by
  intro h
  let env : Env := ⟨.minimalData, {}, none, 0⟩
  let unlocking : Script := ⟨[.push 1 [1]]⟩
  let locking : Script := ⟨[.ofOpcode .one, .ofOpcode .equal]⟩
  have hreach : Evaluation.Reachable env unlocking locking
      ⟨env, [unlocking, locking], false, 0, 0, initial, []⟩ :=
    Evaluation.reachable_iff.2 ⟨0, by cbv⟩
  have hrefused : initial.exec env unlocking.chunks 0 (.push 1 [1]) =
      .error (.longPush (.push 1 [1])) := by cbv
  obtain ⟨c, hc, hexec⟩ := h env unlocking locking .empty _ [1] hreach rfl (by decide) (by decide)
  cases hc
  cases hrefused.symm.trans hexec

end Machine

end SpendScript
