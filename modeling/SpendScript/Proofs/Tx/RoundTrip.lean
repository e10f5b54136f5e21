import SpendScript.Proofs.Wire.Spelling
import SpendScript.Tx.Basic

/-!
# SpendScript.Proofs.Tx.RoundTrip

Reading back a transaction that was written, and writing back one that was read. Outpoints, values,
scripts and the fixed fields have one form each, so the byte strings that are read as a transaction
differ in the forms of their counts and lengths only (`Transaction.Spelled`).

* `accepts_transaction`: a transaction is read from its spellings and from nothing else.
* `reads_transaction`: where every list and every script has a length that can be written in front
  of it (`Transaction.Fits`), the written form is one of them.
* `Transaction.toBytes_eq_iff_of_ofBytes`: what was read is written back unchanged exactly if every
  count and every length in it has its shortest form.
-/

namespace SpendScript

open Wire (Reads Accepts PrefixedForm ListForm CountedForm SizeForm ShortestSize andThen)

/-- Every list and every script of the transaction has a length with a compact-size form. -/
structure Transaction.Fits (tx : Transaction) : Prop where
  inputs : tx.inputs.length < Wire.lengthLimit
  inputScripts : ∀ i ∈ tx.inputs, i.script.length < Wire.lengthLimit
  outputs : tx.outputs.length < Wire.lengthLimit
  outputScripts : ∀ o ∈ tx.outputs, o.script.length < Wire.lengthLimit

section Forms

variable (size : Nat → Bytes → Prop)

/-- The forms of an input, where `size` says which forms the length of the script may have. -/
def TxInput.Spelled (i : TxInput) (w : Bytes) : Prop :=
  ∃ script, PrefixedForm size i.script script ∧
    w = i.outpoint.encode ++ script ++ Wire.u32 i.sequence

def TxOutput.Spelled (o : TxOutput) (w : Bytes) : Prop :=
  ∃ script, PrefixedForm size o.script script ∧ w = Wire.u64 o.value ++ script

/-- The forms of a transaction, where `size` says which forms its counts and lengths may have. -/
def Transaction.Spelled (tx : Transaction) (w : Bytes) : Prop :=
  ∃ inputs outputs, CountedForm size (TxInput.Spelled size) tx.inputs inputs ∧
    CountedForm size (TxOutput.Spelled size) tx.outputs outputs ∧
    w = Wire.u32 tx.version ++ inputs ++ outputs ++ Wire.u32 tx.lockTime

end Forms

/-! ## What the readers accept -/

theorem accepts_outpoint : Accepts Outpoint.read (fun o w => w = o.encode) := by
  have heq : Outpoint.read = fun r =>
      andThen r.digest32 fun tx r1 => andThen r1.u32 fun index r2 => .ok (⟨tx, index⟩, r2) := by
    funext r
    grind [Outpoint.read, andThen]
  rw [heq]
  refine (Wire.accepts_digest32.andThen fun tx => Wire.accepts_u32.andThen fun index =>
    Wire.accepts_pure (Outpoint.mk tx index)).congr fun o w => ⟨?_, ?_⟩
  · rintro ⟨tx, _, _, rfl, ⟨index, _, _, rfl, ⟨rfl, rfl⟩, rfl⟩, rfl⟩
    rw [List.append_nil, Outpoint.encode]
  · rintro rfl
    exact ⟨o.tx, _, _, rfl, ⟨o.index, _, [], rfl, ⟨rfl, rfl⟩, (List.append_nil _).symm⟩, rfl⟩

theorem accepts_input : Accepts TxInput.read (TxInput.Spelled SizeForm) := by
  have heq : TxInput.read = fun r =>
      andThen (Outpoint.read r) fun outpoint r1 => andThen r1.prefixed fun script r2 =>
        andThen r2.u32 fun sequence r3 => .ok (⟨outpoint, script, sequence⟩, r3) := by
    funext r
    grind [TxInput.read, andThen]
  rw [heq]
  refine (accepts_outpoint.andThen fun outpoint => Wire.accepts_prefixed.andThen fun script =>
    Wire.accepts_u32.andThen fun sequence =>
      Wire.accepts_pure (TxInput.mk outpoint script sequence)).congr fun i w => ⟨?_, ?_⟩
  · rintro ⟨outpoint, _, _, rfl, ⟨script, s, _, hs, ⟨sequence, _, _, rfl, ⟨rfl, rfl⟩, rfl⟩, rfl⟩,
      rfl⟩
    exact ⟨s, hs, by rw [List.append_nil, List.append_assoc]⟩
  · rintro ⟨s, hs, rfl⟩
    exact ⟨i.outpoint, _, _, rfl, ⟨i.script, s, _, hs, ⟨i.sequence, _, [], rfl, ⟨rfl, rfl⟩,
      (List.append_nil _).symm⟩, rfl⟩, List.append_assoc _ _ _⟩

theorem accepts_output : Accepts TxOutput.read (TxOutput.Spelled SizeForm) := by
  have heq : TxOutput.read = fun r =>
      andThen r.u64 fun value r1 => andThen r1.prefixed fun script r2 =>
        .ok (⟨value, script⟩, r2) := by
    funext r
    grind [TxOutput.read, andThen]
  rw [heq]
  refine (Wire.accepts_u64.andThen fun value => Wire.accepts_prefixed.andThen fun script =>
    Wire.accepts_pure (TxOutput.mk value script)).congr fun o w => ⟨?_, ?_⟩
  · rintro ⟨value, _, _, rfl, ⟨script, s, _, hs, ⟨rfl, rfl⟩, rfl⟩, rfl⟩
    exact ⟨s, hs, by rw [List.append_nil]⟩
  · rintro ⟨s, hs, rfl⟩
    exact ⟨o.value, _, _, rfl, ⟨o.script, s, [], hs, ⟨rfl, rfl⟩, (List.append_nil s).symm⟩, rfl⟩

theorem accepts_counted {α : Type} {read : Wire.Reader → Wire.ReadResult α}
    {form : α → Bytes → Prop} (h : Accepts read form) :
    Accepts (Transaction.readCounted read) (CountedForm SizeForm form) := by
  have heq : Transaction.readCounted read = fun r =>
      andThen r.compactSize fun count r1 => Wire.Reader.many read count.toNat r1 := by
    funext r
    grind [Transaction.readCounted, andThen]
  rw [heq]
  refine (Wire.accepts_compactSize.andThen fun count =>
    Wire.accepts_many h count.toNat).congr fun as w => ⟨?_, ?_⟩
  · rintro ⟨count, s, t, hs, ⟨hlen, ht⟩, rfl⟩
    exact ⟨s, t, hlen ▸ hs, ht, rfl⟩
  · rintro ⟨s, t, hs, ht, rfl⟩
    have hlen := Wire.toNat_ofNat_length hs.lt_lengthLimit
    exact ⟨UInt64.ofNat as.length, s, t, hlen.symm ▸ hs, ⟨hlen.symm, ht⟩, rfl⟩

theorem accepts_transaction : Accepts Transaction.read (Transaction.Spelled SizeForm) := by
  have heq : Transaction.read = fun r =>
      andThen r.u32 fun version r1 => andThen (Transaction.readCounted TxInput.read r1)
        fun inputs r2 => andThen (Transaction.readCounted TxOutput.read r2)
          fun outputs r3 => andThen r3.u32
            fun lockTime r4 => .ok (⟨version, inputs, outputs, lockTime⟩, r4) := by
    funext r
    rw [Transaction.read]
    repeat' split
    all_goals simp only [andThen, *]
  rw [heq]
  refine (Wire.accepts_u32.andThen fun version => (accepts_counted accepts_input).andThen
    fun inputs => (accepts_counted accepts_output).andThen fun outputs => Wire.accepts_u32.andThen
      fun lockTime => Wire.accepts_pure (Transaction.mk version inputs outputs lockTime)).congr
        fun tx w => ⟨?_, ?_⟩
  · rintro ⟨version, _, _, rfl, ⟨inputs, s, _, hs, ⟨outputs, t, _, ht,
      ⟨lockTime, _, _, rfl, ⟨rfl, rfl⟩, rfl⟩, rfl⟩, rfl⟩, rfl⟩
    exact ⟨s, t, hs, ht, by simp only [List.append_nil, List.append_assoc]⟩
  · rintro ⟨s, t, hs, ht, rfl⟩
    exact ⟨tx.version, _, _, rfl, ⟨tx.inputs, s, _, hs, ⟨tx.outputs, t, _, ht,
      ⟨tx.lockTime, _, [], rfl, ⟨rfl, rfl⟩, (List.append_nil _).symm⟩, rfl⟩, rfl⟩,
      by simp only [List.append_assoc]⟩

/-! ## The written form among the spellings -/

section Written

variable {size : Nat → Bytes → Prop}

theorem TxInput.spelled_encode {i : TxInput}
    (h : size i.script.length (Wire.compactSize i.script.length)) : i.Spelled size i.encode :=
  ⟨_, ⟨_, h, rfl⟩, rfl⟩

theorem TxOutput.spelled_encode {o : TxOutput}
    (h : size o.script.length (Wire.compactSize o.script.length)) : o.Spelled size o.encode :=
  ⟨_, ⟨_, h, rfl⟩, rfl⟩

theorem TxInput.Spelled.eq_encode (heq : ∀ n s, size n s → s = Wire.compactSize n) {i : TxInput}
    {w : Bytes} (h : i.Spelled size w) : w = i.encode := by
  obtain ⟨_, ⟨_, hlength, rfl⟩, rfl⟩ := h
  rw [heq _ _ hlength, encode, Wire.prefixed]

theorem TxOutput.Spelled.eq_encode (heq : ∀ n s, size n s → s = Wire.compactSize n) {o : TxOutput}
    {w : Bytes} (h : o.Spelled size w) : w = o.encode := by
  obtain ⟨_, ⟨_, hlength, rfl⟩, rfl⟩ := h
  rw [heq _ _ hlength, encode, Wire.prefixed]

namespace Transaction

theorem spelled_toBytes (hsize : ∀ n, n < Wire.lengthLimit → size n (Wire.compactSize n))
    {tx : Transaction} (h : tx.Fits) : tx.Spelled size tx.toBytes := by
  have hinputs : ListForm (TxInput.Spelled size) tx.inputs (tx.inputs.flatMap TxInput.encode) :=
    .flatMap fun i hi => TxInput.spelled_encode (hsize _ (h.inputScripts i hi))
  have houtputs : ListForm (TxOutput.Spelled size) tx.outputs
      (tx.outputs.flatMap TxOutput.encode) :=
    .flatMap fun o ho => TxOutput.spelled_encode (hsize _ (h.outputScripts o ho))
  refine ⟨_, _, ⟨_, _, hsize _ h.inputs, hinputs, rfl⟩, ⟨_, _, hsize _ h.outputs, houtputs, rfl⟩,
    ?_⟩
  simp only [toBytes, List.append_assoc]

theorem Spelled.eq_toBytes (heq : ∀ n s, size n s → s = Wire.compactSize n) {tx : Transaction}
    {w : Bytes} (h : tx.Spelled size w) : w = tx.toBytes := by
  obtain ⟨_, _, ⟨_, _, hinputs, hinput, rfl⟩, ⟨_, _, houtputs, houtput, rfl⟩, rfl⟩ := h
  rw [heq _ _ hinputs, heq _ _ houtputs,
    hinput.eq_flatMap fun i s hs => TxInput.Spelled.eq_encode heq hs,
    houtput.eq_flatMap fun o s hs => TxOutput.Spelled.eq_encode heq hs]
  simp only [toBytes, List.append_assoc]

end Transaction

end Written

namespace Transaction

theorem Spelled.fits {tx : Transaction} {w : Bytes} (h : tx.Spelled SizeForm w) : tx.Fits := by
  obtain ⟨_, _, ⟨_, _, hinputs, hinput, rfl⟩, ⟨_, _, houtputs, houtput, rfl⟩, rfl⟩ := h
  refine ⟨hinputs.lt_lengthLimit, hinput.forall_mem ?_, houtputs.lt_lengthLimit,
    houtput.forall_mem ?_⟩
  · rintro i _ ⟨_, ⟨_, hlength, rfl⟩, rfl⟩
    exact hlength.lt_lengthLimit
  · rintro o _ ⟨_, ⟨_, hlength, rfl⟩, rfl⟩
    exact hlength.lt_lengthLimit

theorem spelled_shortest_iff {tx : Transaction} (h : tx.Fits) {w : Bytes} :
    tx.Spelled ShortestSize w ↔ w = tx.toBytes := by
  constructor
  · exact Spelled.eq_toBytes fun n s hs => (Wire.shortestSize_iff.1 hs).2
  · rintro rfl
    exact spelled_toBytes (fun n hn => Wire.shortestSize_iff.2 ⟨hn, rfl⟩) h

end Transaction

theorem reads_transaction {tx : Transaction} (h : tx.Fits) :
    Reads Transaction.read tx.toBytes tx :=
  accepts_transaction.reads (Transaction.spelled_toBytes (fun _ => Wire.sizeForm_compactSize) h)

namespace Transaction

/-- A written transaction can be told from what follows it. -/
theorem toBytes_append_inj {tx tx' : Transaction} {s s' : Bytes} (h : tx.Fits)
    (h' : tx'.Fits) (heq : tx.toBytes ++ s = tx'.toBytes ++ s') : tx = tx' ∧ s = s' :=
  (reads_transaction h).prefix_unique (reads_transaction h') heq

theorem ofBytes_eq_ok_iff {bs : Bytes} {tx : Transaction} :
    ofBytes bs = .ok tx ↔ tx.Spelled SizeForm bs :=
  accepts_transaction.readRecord_eq_ok_iff

/-- A transaction is read from its spellings. What was read is written back unchanged exactly if all
its counts and lengths have their shortest form, and then the identifier is the double hash of what
was read. -/
theorem toBytes_eq_iff_of_ofBytes {bs : Bytes} {tx : Transaction} :
    (ofBytes bs = .ok tx ↔ tx.Spelled SizeForm bs) ∧
      (ofBytes bs = .ok tx →
        (tx.toBytes = bs ↔ tx.Spelled ShortestSize bs) ∧
          (tx.Spelled ShortestSize bs → tx.id = Hash.sha256d bs)) := by
  refine ⟨ofBytes_eq_ok_iff, fun h => ?_⟩
  have hfits : tx.Fits := (ofBytes_eq_ok_iff.1 h).fits
  have hwritten : tx.Spelled ShortestSize bs ↔ bs = tx.toBytes := spelled_shortest_iff hfits
  refine ⟨eq_comm.trans hwritten.symm, fun hshortest => ?_⟩
  rw [id, ← hwritten.1 hshortest]

/-- A transaction with one output, whose script is a single opcode. -/
def oneOpcode : Transaction := ⟨1, [], [⟨1, [0x51]⟩], 0⟩

/-- The bytes of `oneOpcode`, but with the length of its script behind a marker byte. -/
def oneOpcodeLong : Bytes :=
  [1, 0, 0, 0] ++ [0] ++ [1] ++ [1, 0, 0, 0, 0, 0, 0, 0] ++ [0xfd, 1, 0, 0x51] ++ [0, 0, 0, 0]

theorem toBytes_eq_iff_of_ofBytes_oneOpcodeLong :
    ofBytes oneOpcodeLong = .ok oneOpcode ∧ oneOpcode.Spelled SizeForm oneOpcodeLong ∧
      (oneOpcode.toBytes = oneOpcodeLong ↔ oneOpcode.Spelled ShortestSize oneOpcodeLong) ∧
      (oneOpcode.Spelled ShortestSize oneOpcodeLong → oneOpcode.id = Hash.sha256d oneOpcodeLong) :=
  ⟨rfl, toBytes_eq_iff_of_ofBytes.1.1 rfl, toBytes_eq_iff_of_ofBytes.2 rfl⟩

/-- Reading takes more byte strings than writing gives. -/
theorem toBytes_ne_oneOpcodeLong :
    ofBytes oneOpcodeLong = .ok oneOpcode ∧ oneOpcode.toBytes ≠ oneOpcodeLong :=
  ⟨rfl, by decide⟩

end Transaction

end SpendScript
