import SpendScript.Block.Basic
import SpendScript.Proofs.Tx.RoundTrip

/-!
# SpendScript.Proofs.Block.RoundTrip

Reading back a block that was written. A header has one form, and a block differs from the other
byte strings that are read as it in the forms of its counts and lengths only (`Block.Spelled`).

* `accepts_block`: a block is read from its spellings and from nothing else.
* `wholeRecord_toBytes`: a transaction and a block are read back from their bytes, and what is
  longer or breaks off is refused.
-/

namespace SpendScript

open Wire (Accepts CountedForm ListForm SizeForm WholeRecord andThen)

/-- The number of transactions, and all lengths inside them, have a compact-size form. -/
structure Block.Fits (b : Block) : Prop where
  count : b.transactions.length < Wire.lengthLimit
  transactions : ∀ tx ∈ b.transactions, tx.Fits

/-- The forms of a block, where `size` says which forms its counts and lengths may have. -/
def Block.Spelled (size : Nat → Bytes → Prop) (b : Block) (w : Bytes) : Prop :=
  ∃ transactions, CountedForm size (Transaction.Spelled size) b.transactions transactions ∧
    w = b.header.toBytes ++ transactions

theorem accepts_blockHeader : Accepts BlockHeader.read (fun h w => w = h.toBytes) := by
  have heq : BlockHeader.read = fun r =>
      andThen r.u32 fun version r1 => andThen r1.digest32 fun previous r2 =>
        andThen r2.digest32 fun merkleRoot r3 => andThen r3.u32 fun time r4 =>
          andThen r4.u32 fun bits r5 => andThen r5.u32 fun nonce r6 =>
            .ok (⟨version, previous, merkleRoot, time, bits, nonce⟩, r6) := by
    funext r
    rw [BlockHeader.read]
    repeat' split
    all_goals simp only [andThen, *]
  rw [heq]
  refine (Wire.accepts_u32.andThen fun version => Wire.accepts_digest32.andThen fun previous =>
    Wire.accepts_digest32.andThen fun merkleRoot => Wire.accepts_u32.andThen fun time =>
      Wire.accepts_u32.andThen fun bits => Wire.accepts_u32.andThen fun nonce =>
        Wire.accepts_pure (BlockHeader.mk version previous merkleRoot time bits nonce)).congr
          fun h w => ⟨?_, ?_⟩
  · rintro ⟨version, _, _, rfl, ⟨previous, _, _, rfl, ⟨merkleRoot, _, _, rfl, ⟨time, _, _, rfl,
      ⟨bits, _, _, rfl, ⟨nonce, _, _, rfl, ⟨rfl, rfl⟩, rfl⟩, rfl⟩, rfl⟩, rfl⟩, rfl⟩, rfl⟩
    simp only [BlockHeader.toBytes, List.append_nil, List.append_assoc]
  · rintro rfl
    refine ⟨h.version, _, _, rfl, ⟨h.previous, _, _, rfl, ⟨h.merkleRoot, _, _, rfl,
      ⟨h.time, _, _, rfl, ⟨h.bits, _, _, rfl, ⟨h.nonce, _, [], rfl, ⟨rfl, rfl⟩, rfl⟩, rfl⟩, rfl⟩,
        rfl⟩, rfl⟩, ?_⟩
    simp only [BlockHeader.toBytes, List.append_nil, List.append_assoc]

theorem accepts_block : Accepts Block.read (Block.Spelled SizeForm) := by
  have heq : Block.read = fun r =>
      andThen (BlockHeader.read r) fun header r1 =>
        andThen (Transaction.readCounted Transaction.read r1) fun transactions r2 =>
          .ok (⟨header, transactions⟩, r2) := by
    funext r
    rw [Block.read]
    repeat' split
    all_goals simp only [andThen, *]
  rw [heq]
  refine (accepts_blockHeader.andThen fun header => (accepts_counted accepts_transaction).andThen
    fun transactions => Wire.accepts_pure (Block.mk header transactions)).congr fun b w => ⟨?_, ?_⟩
  · rintro ⟨header, _, _, rfl, ⟨transactions, s, _, hs, ⟨rfl, rfl⟩, rfl⟩, rfl⟩
    exact ⟨s, hs, by rw [List.append_nil]⟩
  · rintro ⟨s, hs, rfl⟩
    exact ⟨b.header, _, _, rfl, ⟨b.transactions, s, [], hs, ⟨rfl, rfl⟩, (List.append_nil s).symm⟩,
      rfl⟩

theorem Block.spelled_toBytes {b : Block} (h : b.Fits) : b.Spelled SizeForm b.toBytes := by
  have htransactions : ListForm (Transaction.Spelled SizeForm) b.transactions
      (b.transactions.flatMap Transaction.toBytes) :=
    .flatMap fun tx htx =>
      Transaction.spelled_toBytes (fun _ => Wire.sizeForm_compactSize) (h.transactions tx htx)
  refine ⟨_, ⟨_, _, Wire.sizeForm_compactSize h.count, htransactions, rfl⟩, ?_⟩
  rw [toBytes, List.append_assoc]

/-- A reader takes a written transaction off the front of any bytes and leaves the rest. By itself a
written transaction or block is read back, and what is longer or breaks off is refused. -/
theorem wholeRecord_toBytes :
    (∀ tx : Transaction, tx.Fits →
      (∀ (t : Bytes) (position : Nat), Transaction.read ⟨tx.toBytes ++ t, position⟩ =
        .ok (tx, ⟨t, position + tx.toBytes.length⟩)) ∧
      WholeRecord Transaction.ofBytes .transaction tx.toBytes tx) ∧
    ∀ b : Block, b.Fits → WholeRecord Block.ofBytes .block b.toBytes b := by
  refine ⟨fun tx h => ⟨reads_transaction h, ?_⟩, fun b h => ?_⟩
  · exact accepts_transaction.wholeRecord .transaction
      (Transaction.spelled_toBytes (fun _ => Wire.sizeForm_compactSize) h)
  · exact accepts_block.wholeRecord .block (Block.spelled_toBytes h)

/-- A transaction whose script is just too long for a length of one byte. -/
def Transaction.longScript : Transaction :=
  ⟨1, [⟨Outpoint.null, List.replicate 0xfd 0, 0⟩], [], 0⟩

/-- A block of a long transaction and an empty one. -/
def Block.longAndEmpty : Block :=
  ⟨⟨1, Digest.zero 32, Digest.zero 32, 0, 0, 0⟩, [.longScript, .empty]⟩

theorem wholeRecord_toBytes_longScript :
    (Transaction.longScript.Fits ∧ Block.longAndEmpty.Fits) ∧
      ((∀ (t : Bytes) (position : Nat),
        Transaction.read ⟨Transaction.longScript.toBytes ++ t, position⟩ =
          .ok (.longScript, ⟨t, position + Transaction.longScript.toBytes.length⟩)) ∧
        WholeRecord Transaction.ofBytes .transaction Transaction.longScript.toBytes .longScript) ∧
      WholeRecord Block.ofBytes .block Block.longAndEmpty.toBytes .longAndEmpty := by
  have hscript : (List.replicate 0xfd (0 : UInt8)).length < Wire.lengthLimit := by
    rw [List.length_replicate]
    decide
  have hlong : Transaction.longScript.Fits :=
    ⟨by decide, List.forall_mem_singleton.2 hscript, by decide, by decide⟩
  have hempty : Transaction.empty.Fits := ⟨by decide, by decide, by decide, by decide⟩
  have hblock : Block.longAndEmpty.Fits :=
    ⟨by decide, by simpa [Block.longAndEmpty] using ⟨hlong, hempty⟩⟩
  exact ⟨⟨hlong, hblock⟩, wholeRecord_toBytes.1 _ hlong, wholeRecord_toBytes.2 _ hblock⟩

end SpendScript
