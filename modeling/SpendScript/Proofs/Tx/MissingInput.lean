import SpendScript.Proofs.Eval.Questions
import SpendScript.Proofs.Signature.Forms
import SpendScript.Tx.Signing

/-!
# SpendScript.Proofs.Tx.MissingInput

A spend that is evaluated for an input that the transaction does not have. No signature can be right
or wrong then, so a check of one has to end the evaluation and not just say no, which a script could
turn into a yes.

* `Env.checkSig_of_missingInput`: what one check comes to.
* `Evaluation.missingInput_fails`: what it makes of the evaluation.
-/

namespace SpendScript

section MissingInput

variable {tx : Transaction} {verifier : Verifier} {env : Env} {code : Script} {sig key : Bytes}

/-- What the transaction says to a signature with something before its hash type. -/
theorem Transaction.answer_of_missingInput {q : SigQuery} (hinput : tx.inputs.length ≤ q.input)
    {tag : UInt8} {body : Bytes} (hsig : q.signature = tag :: (body ++ [q.hashType])) :
    tx.answer verifier q =
      .error (.reported .invalidIndex (TxError.noInput q.input tx.inputs.length).message) := by
  rw [answer, hsig, Signature.ofTx_cons_concat]
  simp only [verifySignature, Signature.withHashType, sigHash, hinput, if_true]

/-- A signature of one byte is a hash type alone, and is not looked at with the input in mind. -/
theorem Env.checkSig_of_missingInput (hcontext : env.context = some (tx.context verifier))
    (hinput : tx.inputs.length ≤ env.input) (hsig : sig ≠ []) :
    (∃ f, env.checkSig code sig key = .error f) ∨
      sig.length = 1 ∧ env.checkSig code sig key = .ok false := by
  cases hcheck : env.checkSig code sig key with
  | error f => exact .inl ⟨f, rfl⟩
  | ok valid =>
    right
    obtain ⟨der, t, rfl⟩ := (List.eq_nil_or_concat sig).resolve_left hsig
    rw [List.concat_eq_append] at hcheck ⊢
    obtain ⟨-, -, -, hask⟩ := checkSig_concat_eq_ok_iff.1 hcheck
    obtain ⟨ctx, hctx, hanswer⟩ := ask_eq_ok_iff.1 hask
    obtain rfl : tx.context verifier = ctx := Option.some.inj (hcontext.symm.trans hctx)
    change tx.answer verifier _ = .ok valid at hanswer
    cases der with
    | nil =>
      cases hanswer
      exact ⟨rfl, rfl⟩
    | cons tag body =>
      rw [Transaction.answer_of_missingInput hinput rfl] at hanswer
      cases hanswer

end MissingInput

namespace Evaluation

/-- Where a spend is evaluated for an input that the transaction does not have, a check of a
signature that is not empty ends the evaluation with its fault, but for a signature of one byte, to
which it may say no. -/
theorem missingInput_fails {tx : Transaction} {verifier : Verifier} {env : Env}
    {unlocking locking : Script} {e : Evaluation} {p : Comparison}
    (hcontext : env.context = some (tx.context verifier)) (hinput : tx.inputs.length ≤ env.input)
    (h : Reachable env unlocking locking e) (hp : p ∈ e.checks) (hsig : p.signature ≠ []) :
    (∃ f, p.outcome env = .error f ∧ execute env unlocking locking = .error f) ∨
      p.signature.length = 1 ∧ p.outcome env = .ok false := by
  rcases Env.checkSig_of_missingInput hcontext hinput hsig with ⟨f, hf⟩ | hno
  · exact .inl ⟨f, hf, execute_eq_error_of_mem_checks h hp hf⟩
  · exact .inr hno

/-- A transaction with one input. -/
def oneInput : Transaction := ⟨1, [⟨.null, [], 0xffffffff⟩], [], 0⟩

/-- Its input number 5, with no flags. -/
def sixthInput : Env := ⟨.none, {}, some (oneInput.context fun _ _ _ => true), 5⟩

/-- Some bytes in the form of a key. -/
def someKey : Bytes := 2 :: List.replicate 32 0x11

/-- Asks for a signature that does not belong to the key. -/
def refusal : Script := ⟨[.push 33 someKey, .ofOpcode .checkSig, .ofOpcode .not]⟩

/-- Where `refusal` looks at the signature. -/
def beforeCheck (unlocking : Script) (sig : Bytes) : Evaluation :=
  ⟨sixthInput, [unlocking, refusal], false, 1, 1, .fresh [someKey, sig], []⟩

theorem mem_checks_beforeCheck (unlocking : Script) (sig : Bytes) :
    ⟨signedCode refusal.chunks 0 [sig], sig, someKey⟩ ∈ (beforeCheck unlocking sig).checks :=
  List.mem_singleton.2 rfl

/-- The shortest signature that has something before its hash type. -/
theorem missingInput_fails_twoBytes :
    oneInput.inputs.length ≤ sixthInput.input ∧
      Reachable sixthInput ⟨[.push 2 [0x30, 0x01]]⟩ refusal
        (beforeCheck ⟨[.push 2 [0x30, 0x01]]⟩ [0x30, 0x01]) ∧
      ∃ f, execute sixthInput ⟨[.push 2 [0x30, 0x01]]⟩ refusal = .error f := by
  have hinput : oneInput.inputs.length ≤ sixthInput.input := by decide
  have hreach : Reachable sixthInput ⟨[.push 2 [0x30, 0x01]]⟩ refusal
      (beforeCheck ⟨[.push 2 [0x30, 0x01]]⟩ [0x30, 0x01]) := reachable_iff.2 ⟨2, rfl⟩
  refine ⟨hinput, hreach, ?_⟩
  rcases missingInput_fails rfl hinput hreach (mem_checks_beforeCheck _ _) (List.cons_ne_nil _ _)
    with ⟨f, -, hf⟩ | ⟨hlen, -⟩
  · exact ⟨f, hf⟩
  · cases hlen

/-- A hash type alone gets a no where the input is missing, and the script turns it into a yes. -/
theorem execute_missingInput_lone_hashType :
    ¬ ∀ (tx : Transaction) (verifier : Verifier) (env : Env) (unlocking locking : Script)
      (e : Evaluation) (p : Comparison), env.context = some (tx.context verifier) →
      tx.inputs.length ≤ env.input → Reachable env unlocking locking e → p ∈ e.checks →
      p.signature ≠ [] → ∃ f, execute env unlocking locking = .error f := by
  intro h
  have hreach : Reachable sixthInput ⟨[.push 1 [0x01]]⟩ refusal
      (beforeCheck ⟨[.push 1 [0x01]]⟩ [0x01]) := reachable_iff.2 ⟨2, rfl⟩
  have hok : execute sixthInput ⟨[.push 1 [0x01]]⟩ refusal = .ok () :=
    execute_eq_ok_iff.2 ⟨start_isOk_iff.1 ⟨_, rfl⟩, by cbv⟩
  obtain ⟨f, hf⟩ := h oneInput _ sixthInput _ _ _ _ rfl (by decide) hreach
    (mem_checks_beforeCheck _ _) (List.cons_ne_nil _ _)
  rw [hok] at hf
  cases hf

end Evaluation
end SpendScript
