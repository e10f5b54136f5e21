import SpendScript.Proofs.Eval.ScriptHash
import SpendScript.Proofs.Script.HashTemplates

/-!
# SpendScript.Proofs.Eval.Wrapping

Which locking scripts make an evaluation look for a redeem script. The decision is made on the
chunks of the locking script, so the form in which the hash is pushed does not count, and a byte
string can ask for a redeem script in four forms. The template of 23 bytes is the shortest of them.

* `Evaluation.start_wrapped_iff`: the byte strings that ask for a redeem script.
* `Evaluation.start_wrapped_longPush`: one of them that is not the template of 23 bytes.
-/

namespace SpendScript
namespace Evaluation

theorem start_wrapped {env : Env} {unlocking locking : Script} {e : Evaluation}
    (hflag : env.flags.has .payToScriptHash = true)
    (hstart : start env unlocking locking = .ok e) : e.wrapped = locking.isScriptHashOut := by
  obtain ⟨-, rfl⟩ := start_ok hstart
  rw [Env.wraps, hflag, Bool.true_and]

/-- **What asks for a redeem script.** An evaluation that begins looks for a redeem script exactly
if the locking script is, byte for byte, `OP_HASH160`, 20 bytes behind one of the four heads that
push them, and `OP_EQUAL`. Of these byte strings those of 23 bytes are the written forms of the
template. -/
theorem start_wrapped_iff {env : Env} {unlocking locking : Script} {bs : Bytes} {e : Evaluation}
    (hread : Script.ofBytes bs = .ok locking) (hflag : env.flags.has .payToScriptHash = true)
    (hstart : start env unlocking locking = .ok e) :
    (e.wrapped = true ↔ ∃ head ∈ Chunk.hashHeads, ∃ hash : Digest 20,
      bs = 0xa9 :: (head ++ hash.bytes ++ [0x87])) ∧
    (e.wrapped = true ∧ bs.length = 23 ↔
      ∃ hash : Digest 20, bs = 0xa9 :: 0x14 :: (hash.bytes ++ [0x87])) ∧
    ∀ hash : Digest 20,
      bs = 0xa9 :: 0x14 :: (hash.bytes ++ [0x87]) ↔ locking = Script.scriptHashOut hash := by
  have hforms := Script.isScriptHashOut_iff_of_ofBytes hread
  rw [start_wrapped hflag hstart]
  refine ⟨hforms, ?_, fun hash => (Script.eq_scriptHashOut_iff_of_ofBytes hread hash).symm⟩
  rw [hforms]
  constructor
  · rintro ⟨⟨head, hhead, hash, rfl⟩, hlength⟩
    have hone : head.length = 1 := by
      simp only [List.length_cons, List.length_append, hash.length_eq, List.length_nil] at hlength
      omega
    -- only the direct push has a head of one byte
    have hdirect : ∀ head ∈ Chunk.hashHeads, head.length = 1 → head = [0x14] := by decide
    refine ⟨hash, ?_⟩
    rw [hdirect head hhead hone]
    rfl
  · rintro ⟨hash, rfl⟩
    refine ⟨⟨[0x14], List.mem_cons_self, hash, rfl⟩, ?_⟩
    rw [List.length_cons, List.length_cons, List.length_append, hash.length_eq]
    rfl

/-- A script of 24 bytes that asks for a redeem script. -/
theorem start_wrapped_iff_longPush :
    ∃ e, (Script.ofBytes Script.longPush.toBytes = .ok .longPush ∧
        Env.hashesOnly.flags.has .payToScriptHash = true ∧
        start .hashesOnly .empty .longPush = .ok e) ∧
      (e.wrapped = true ↔ ∃ head ∈ Chunk.hashHeads, ∃ hash : Digest 20,
        Script.longPush.toBytes = 0xa9 :: (head ++ hash.bytes ++ [0x87])) ∧
      (e.wrapped = true ∧ Script.longPush.toBytes.length = 23 ↔ ∃ hash : Digest 20,
        Script.longPush.toBytes = 0xa9 :: 0x14 :: (hash.bytes ++ [0x87])) ∧
      ∀ hash : Digest 20, Script.longPush.toBytes = 0xa9 :: 0x14 :: (hash.bytes ++ [0x87]) ↔
        Script.longPush = Script.scriptHashOut hash := by
  have hflag : Env.hashesOnly.flags.has .payToScriptHash = true := by decide
  obtain ⟨e, hstart⟩ : ∃ e, start .hashesOnly .empty .longPush = .ok e := ⟨_, rfl⟩
  exact ⟨e, ⟨Script.ofBytes_longPush, hflag, hstart⟩,
    start_wrapped_iff Script.ofBytes_longPush hflag hstart⟩

/-- Its bytes are not the template of 23 bytes. -/
theorem start_wrapped_longPush :
    Script.ofBytes Script.longPush.toBytes = .ok .longPush ∧
      Env.hashesOnly.flags.has .payToScriptHash = true ∧
      ∃ e, start .hashesOnly .empty .longPush = .ok e ∧
        ¬(e.wrapped = true ↔ ∃ hash : Digest 20,
          Script.longPush.toBytes = 0xa9 :: 0x14 :: (hash.bytes ++ [0x87])) := by
  refine ⟨Script.ofBytes_longPush, by decide, _, rfl, ?_⟩
  intro h
  obtain ⟨hash, hbytes⟩ := h.1 rfl
  have hhead : (0x4c : UInt8) = 0x14 := congrArg (fun bs : Bytes => bs.byteAt 1) hbytes
  exact absurd hhead (by decide)

end Evaluation
end SpendScript
