import SpendScript.Proofs.Eval.OpEffects
import SpendScript.Proofs.Eval.Reachable
import SpendScript.Proofs.Eval.SignedCode
import Mathlib.Order.Bounds.Defs

/-!
# SpendScript.Proofs.Eval.Separators

Where the part of a script begins that signatures cover. The machine keeps one number, which a
separator sets and nothing else changes; here it is read off the history of the evaluation.

* `Machine.codeStart_of_exec`: what one chunk does to the number.
* `Machine.code_of_mem_queries`: what the questions to the context are about.
* `Evaluation.SeparatorAt`: the separators that were executed, script by script.
* `Evaluation.progress_of_step`: a step goes on in a script or begins another one anew.
* `Evaluation.separated_of_after`: the number and the history, by induction on the steps.
* `Evaluation.signedCode_of_after`: what signatures cover at any point, byte by byte.
-/

namespace SpendScript

/-! ## One chunk -/

/-- A chunk that is read with the opcode byte of a separator is one. -/
theorem Chunk.eq_codeSeparator {c : Chunk} (hc : c.WellFormed)
    (hcode : Opcode.ofByte? c.code = some .codeSeparator) : c = .ofOpcode .codeSeparator := by
  have hbyte : Opcode.codeSeparator.byte = c.code := Opcode.byte_eq_of_ofByte? hcode
  cases c with
  | op code => rw [ofOpcode, hbyte, Chunk.code]
  | push code data =>
    rw [Chunk.code] at hbyte
    rw [← hbyte, WellFormed, if_pos (by decide)] at hc
    exact absurd hc.2.1 (by decide)

namespace Machine

variable {env : Env} {chunks : List Chunk} {offset : Nat} {c : Chunk} {m m' : Machine}

theorem ofByte?_of_actionOf {op : Opcode} (h : actionOf env m c = .ok (.perform op)) :
    Opcode.ofByte? c.code = some op ∧ (m.executing || op.isConditional) = true := by
  unfold actionOf at h
  split at h
  · split at h
    · cases h
    · split at h <;> cases h
  · split at h
    · rename_i named hnamed
      split at h
      · rename_i hruns
        cases h
        exact ⟨hnamed, hruns⟩
      · cases h
    · split at h <;> cases h

/-- What is performed is what the byte of the chunk names; in a branch that is not taken it is a
conditional. -/
theorem ofByte?_of_resolve {op : Opcode} (h : resolve env m c = .ok (m', .perform op)) :
    Opcode.ofByte? c.code = some op ∧ (m.executing || op.isConditional) = true := by
  obtain ⟨-, ⟨n, hm', -⟩, -⟩ := resolve_outcome.of_ok h
  unfold resolve at h
  split at h
  · cases h
  · split at h
    · cases h
    · split at h
      · cases h
      · split at h
        · cases h
        · rename_i haction
          cases h
          cases hm'
          exact ofByte?_of_actionOf haction

/-- Only a separator looks at its own place. -/
theorem perform_eq_of_ne (chunks : List Chunk) (offset offset' : Nat) {op : Opcode}
    (hop : op ≠ .codeSeparator) :
    m.perform env chunks offset op = m.perform env chunks offset' op := by
  cases op
  case codeSeparator => exact absurd rfl hop
  all_goals rfl

/-- What an opcode may do to the number, seen at two places, leaves only that it does nothing. -/
theorem codeStart_of_perform {op : Opcode} (hhigh : Chunk.pushData4 < op.byte)
    (hop : op ≠ .codeSeparator) (h : m.perform env chunks offset op = .ok m') :
    m'.codeStart = m.codeStart := by
  have hmoved : m.perform env chunks (offset + 1) op = .ok m' := by
    rw [perform_eq_of_ne chunks (offset + 1) offset hop, h]
  have hhere := ((perform_outcome hhigh).of_ok h).codeStart
  have hthere := ((perform_outcome hhigh).of_ok hmoved).codeStart
  omega

/-- A chunk of a script that was read sets the number if it is a separator in a branch that is
taken, and leaves it otherwise. -/
theorem codeStart_of_exec (hc : c.WellFormed) (h : m.exec env chunks offset c = .ok m') :
    m'.codeStart =
      if m.executing = true ∧ c = .ofOpcode .codeSeparator then offset + 1 else m.codeStart := by
  split
  · rename_i hseparator
    obtain ⟨hx, rfl⟩ := hseparator
    obtain ⟨-, hperform⟩ := (exec_ofOpcode_eq_ok_iff (by decide) rfl hx).1 h
    cases hperform
    rfl
  · rename_i hother
    unfold exec at h
    cases hresolve : resolve env m c with
    | error f => rw [hresolve] at h; cases h
    | ok p =>
      obtain ⟨m₁, action⟩ := p
      obtain ⟨-, ⟨n, rfl, -⟩, haction⟩ := resolve_outcome.of_ok hresolve
      rw [hresolve] at h
      cases haction with
      | skip => cases h; rfl
      | push => cases h; rfl
      | @perform op hhigh hnest =>
        obtain ⟨hnamed, hruns⟩ := ofByte?_of_resolve hresolve
        have hne : op ≠ .codeSeparator := by
          rintro rfl
          refine hother ⟨?_, Chunk.eq_codeSeparator hc hnamed⟩
          simpa [Opcode.isConditional] using hruns
        have hperform : perform env chunks offset { m with opCount := n } op = .ok m' := h
        have hkept := codeStart_of_perform hhigh hne hperform
        exact hkept

/-! ## Questions -/

section Questions

variable {code : Script} {sig key : Bytes} {q : SigQuery}

theorem code_of_mem_queryList (h : q ∈ queryList env code sig key) : q.code = code := by
  unfold queryList at h
  split at h
  · rename_i asked hasked
    cases List.mem_singleton.1 h
    unfold Env.sigQuery? at hasked
    grind
  · cases h

theorem code_of_mem_checkSigQueries (h : q ∈ m.checkSigQueries env chunks) :
    ∃ sigs, q.code = signedCode chunks m.codeStart sigs := by
  unfold checkSigQueries at h
  split at h
  · exact ⟨_, code_of_mem_queryList h⟩
  · cases h

theorem code_of_mem_checkMultiSigQueries (h : q ∈ m.checkMultiSigQueries env chunks) :
    ∃ sigs, q.code = signedCode chunks m.codeStart sigs := by
  unfold checkMultiSigQueries at h
  split at h
  · cases h
  · obtain ⟨pair, -, hq⟩ := List.mem_flatMap.1 h
    exact ⟨_, code_of_mem_queryList hq⟩

/-- A question is about what some signatures cover from the number on. -/
theorem code_of_mem_queries (h : q ∈ m.queries env chunks c) :
    ∃ sigs, q.code = signedCode chunks m.codeStart sigs := by
  have hkept : ∀ {m' action}, resolve env m c = .ok (m', action) → m'.codeStart = m.codeStart := by
    intro m' action hresolve
    obtain ⟨-, ⟨n, rfl, -⟩, -⟩ := resolve_outcome.of_ok hresolve
    rfl
  unfold queries at h
  split at h
  case h_1 hresolve | h_2 hresolve =>
    rw [← hkept hresolve]
    exact code_of_mem_checkSigQueries h
  case h_3 hresolve | h_4 hresolve =>
    rw [← hkept hresolve]
    exact code_of_mem_checkMultiSigQueries h
  case h_5 => cases h

end Questions

end Machine

namespace Evaluation

variable {env : Env} {unlocking locking : Script} {n : Nat} {e e' : Evaluation}

/-! ## Separators of a spend -/

/-- The next chunk is a separator, in a branch that is taken. -/
def AtSeparator (e : Evaluation) : Prop :=
  e.machine.executing = true ∧ e.running.chunks[e.offset]? = some (.ofOpcode .codeSeparator)

/-- One of the first `n` steps of a spend executed the separator at `place` of the script `index`. -/
def SeparatorAt (env : Env) (unlocking locking : Script) (n index place : Nat) : Prop :=
  ∃ k < n, ∃ e, after env unlocking locking k = .ok e ∧ e.index = index ∧ e.offset = place ∧
    e.AtSeparator

theorem separatorAt_succ_iff {index place : Nat} (h : after env unlocking locking n = .ok e) :
    SeparatorAt env unlocking locking (n + 1) index place ↔
      SeparatorAt env unlocking locking n index place ∨
        e.index = index ∧ e.offset = place ∧ e.AtSeparator := by
  constructor
  · rintro ⟨k, hk, e₁, he₁, hat⟩
    obtain hlt | rfl := Nat.lt_succ_iff_lt_or_eq.1 hk
    · exact .inl ⟨k, hlt, e₁, he₁, hat⟩
    · rw [h, Except.ok.injEq] at he₁
      cases he₁
      exact .inr hat
  · rintro (⟨k, hk, hat⟩ | hat)
    · exact ⟨k, Nat.lt_succ_of_lt hk, hat⟩
    · exact ⟨n, Nat.lt_succ_self n, e, h, hat⟩

/-! ## One step -/

theorem index_le_skipEmpty (e : Evaluation) :
    e.index ≤ e.skipEmpty.index ∧ e.skipEmpty.machine = e.machine := by
  unfold skipEmpty
  split
  · exact ⟨Nat.le_succ _, rfl⟩
  · exact ⟨Nat.le_refl _, rfl⟩

/-- The next script begins with a number of its own. -/
theorem nextScript_anew {data : Stack} (h : e.nextScript data = .ok e') :
    e.index < e'.index ∧ e'.machine.codeStart = 0 := by
  have hskip : ∀ next : Evaluation, next.index = e.index + 1 → next.machine.codeStart = 0 →
      e.index < next.skipEmpty.index ∧ next.skipEmpty.machine.codeStart = 0 := by
    intro next hindex hstart
    obtain ⟨hle, hmachine⟩ := index_le_skipEmpty next
    exact ⟨by omega, by rw [hmachine, hstart]⟩
  simp only [nextScript] at h
  split at h
  · cases h
    exact hskip _ rfl rfl
  · split at h
    · split at h
      · cases h
      · rename_i next hload
        obtain ⟨-, top, rest, redeem, -, -, -, rfl⟩ := loadRedeem_eq_ok_iff.1 hload
        cases h
        exact hskip _ rfl rfl
    · cases h
      exact hskip _ rfl rfl

/-- A step goes to the next chunk of the same script, or it begins another script. -/
theorem progress_of_step (h : e.step = .ok e') :
    (∃ c m, e.running.chunks[e.offset]? = some c ∧
        e.machine.exec e.env e.running.chunks e.offset c = .ok m ∧
        e' = { e with machine := m, offset := e.offset + 1 }) ∨
      e.index < e'.index ∧ e'.machine.codeStart = 0 := by
  obtain ⟨c, rest, m, hup, hexec, -, hnext⟩ := step_eq_ok_iff.1 h
  obtain ⟨-, rfl⟩ | ⟨-, -, hnext⟩ := hnext
  · refine .inl ⟨c, m, ?_, hexec, rfl⟩
    have hhead := congrArg List.head? hup
    rwa [upcoming, List.head?_drop] at hhead
  · exact .inr (nextScript_anew hnext)

/-! ## The history -/

/-- A number that is one past the last of some places, or zero if there is none. -/
def PastLast (places : Set Nat) (number : Nat) : Prop :=
  number = 0 ∧ places = ∅ ∨ ∃ place, number = place + 1 ∧ IsGreatest places place

/-- What holds after `n` steps: the separators executed so far lie behind, and the last of them in
the running script has set the number. -/
structure Separated (env : Env) (unlocking locking : Script) (n : Nat) (e : Evaluation) : Prop where
  behind : ∀ index place, SeparatorAt env unlocking locking n index place →
    index < e.index ∨ index = e.index ∧ place < e.offset
  codeStart : (∀ c ∈ e.running.chunks, c.WellFormed) →
    PastLast {place | SeparatorAt env unlocking locking n e.index place} e.machine.codeStart

theorem separated_start (h : start env unlocking locking = .ok e) :
    Separated env unlocking locking 0 e := by
  have hnone : ∀ index place, ¬ SeparatorAt env unlocking locking 0 index place := by
    rintro index place ⟨k, hk, -⟩
    exact absurd hk (Nat.not_lt_zero k)
  refine ⟨fun index place hat => absurd hat (hnone index place), fun _ => .inl ⟨?_, ?_⟩⟩
  · obtain ⟨-, rfl⟩ := start_ok h
    rfl
  · exact Set.eq_empty_of_forall_notMem (hnone e.index)

theorem Separated.step (hsep : Separated env unlocking locking n e)
    (hn : after env unlocking locking n = .ok e) (h : e.step = .ok e') :
    Separated env unlocking locking (n + 1) e' := by
  obtain ⟨c, m, hc, hexec, rfl⟩ | ⟨hindex, hstart⟩ := progress_of_step h
  · refine ⟨fun index place hat => ?_, fun hwf => ?_⟩
    · obtain hat | ⟨rfl, rfl, -⟩ := (separatorAt_succ_iff hn).1 hat
      · obtain hlt | ⟨rfl, hlt⟩ := hsep.behind index place hat
        · exact .inl hlt
        · exact .inr ⟨rfl, Nat.lt_succ_of_lt hlt⟩
      · exact .inr ⟨rfl, Nat.lt_succ_self _⟩
    · have hstart := Machine.codeStart_of_exec (hwf c (List.mem_of_getElem? hc)) hexec
      have hat : e.AtSeparator ↔ e.machine.executing = true ∧ c = .ofOpcode .codeSeparator := by
        rw [AtSeparator, hc, Option.some.injEq]
      show PastLast {place | SeparatorAt env unlocking locking (n + 1) e.index place} m.codeStart
      by_cases hnow : e.AtSeparator
      · -- All separators before this one lie behind it.
        rw [if_pos (hat.1 hnow)] at hstart
        refine .inr ⟨e.offset, hstart, (separatorAt_succ_iff hn).2 (.inr ⟨rfl, rfl, hnow⟩), ?_⟩
        intro place hplace
        obtain hbefore | ⟨-, rfl, -⟩ := (separatorAt_succ_iff hn).1 hplace
        · obtain hlt | ⟨-, hlt⟩ := hsep.behind e.index place hbefore
          · exact absurd hlt (Nat.lt_irrefl _)
          · exact Nat.le_of_lt hlt
        · exact Nat.le_refl _
      · rw [if_neg fun hsame => hnow (hat.2 hsame)] at hstart
        have hsame : {place | SeparatorAt env unlocking locking (n + 1) e.index place} =
            {place | SeparatorAt env unlocking locking n e.index place} :=
          Set.ext fun place =>
            (separatorAt_succ_iff hn).trans (or_iff_left fun hat => hnow hat.2.2)
        rw [hsame, hstart]
        exact hsep.codeStart hwf
  · -- No separator of the new script is executed yet.
    have hbefore : ∀ index place, SeparatorAt env unlocking locking (n + 1) index place →
        index < e'.index := by
      intro index place hat
      obtain hat | ⟨rfl, -⟩ := (separatorAt_succ_iff hn).1 hat
      · obtain hlt | ⟨rfl, -⟩ := hsep.behind index place hat
        · exact Nat.lt_trans hlt hindex
        · exact hindex
      · exact hindex
    refine ⟨fun index place hat => .inl (hbefore index place hat), fun _ => .inl ⟨hstart, ?_⟩⟩
    exact Set.eq_empty_of_forall_notMem fun place hat =>
      Nat.lt_irrefl _ (hbefore e'.index place hat)

/-- By induction on the steps. -/
theorem separated_of_after (h : after env unlocking locking n = .ok e) :
    Separated env unlocking locking n e := by
  induction n generalizing e with
  | zero => exact separated_start h
  | succ n ih =>
    rw [after] at h
    split at h
    · cases h
    · rename_i e₁ he₁
      exact (ih he₁).step he₁ h

/-- What a check of signatures asks in a state is about what they cover there. -/
theorem code_of_mem_queries {q : SigQuery} (h : q ∈ e.queries) :
    ∃ sigs, q.code = signedCode e.running.chunks e.machine.codeStart sigs := by
  unfold queries at h
  split at h
  · cases h
  · exact Machine.code_of_mem_queries h

/-- **What signatures cover, in every state of an evaluation.** In a script that was read from bytes
the covered part begins one past the last separator of the script that was executed in a branch that
was taken, or at the beginning if there is none, and what is asked about signatures is about such a
part. Its bytes are those of the chunks from there on, in their order, but for separators and for the
shortest pushes of the signatures; in which order the signatures are does not matter. -/
theorem signedCode_of_after (h : after env unlocking locking n = .ok e) {bs : Bytes}
    (hbs : Script.ofBytes bs = .ok e.running) :
    PastLast {place | SeparatorAt env unlocking locking n e.index place} e.machine.codeStart ∧
      (∀ q ∈ e.queries, ∃ sigs,
        q.code = signedCode e.running.chunks e.machine.codeStart sigs) ∧
      ∃ pieces, e.running.Pieces bs pieces ∧
        ∀ sigs : List Bytes, (∀ sig ∈ sigs, sig.length < 2 ^ 32) →
          (∀ sig ∈ sigs, (Chunk.ofData? sig).map Chunk.encode = some (pushBytes sig)) ∧
          (signedCode e.running.chunks e.machine.codeStart sigs).toBytes =
            ((pieces.drop e.machine.codeStart).filter
              fun piece => piece ≠ [0xab] ∧ piece ∉ sigs.map pushBytes).flatten ∧
          ∀ sigs', sigs.Perm sigs' →
            signedCode e.running.chunks e.machine.codeStart sigs' =
              signedCode e.running.chunks e.machine.codeStart sigs := by
  have hwf := (Script.ofBytes_eq_ok_iff.1 hbs).1
  refine ⟨(separated_of_after h).codeStart hwf, fun q => code_of_mem_queries, _,
    Script.pieces_of_ofBytes hbs, ?_⟩
  intro sigs hsigs
  refine ⟨?_, toBytes_signedCode hwf hsigs, fun sigs' => signedCode_perm⟩
  intro sig hsig
  obtain ⟨push, hpush⟩ := Chunk.exists_ofData? (Nat.le_pred_of_lt (hsigs sig hsig))
  rw [hpush, Option.map_some, encode_of_ofData? hpush]

/-- A separator at the beginning, another one in a conditional, and a push of the bytes `07` before
the check of a signature. -/
def twoSeparators : Script :=
  ⟨[.op 0xab, .op 0, .op 0x63, .op 0xab, .op 0x68, .push 1 [7], .op 0x75, .push 1 [2], .op 0xac]⟩

/-- At the check of the signature `07`, where the conditional was not taken. -/
theorem signedCode_of_after_skipped :
    after ⟨.none, {}, none, 0⟩ ⟨[.push 1 [7]]⟩ twoSeparators 9 =
        .ok ⟨⟨.none, {}, none, 0⟩, [⟨[.push 1 [7]]⟩, twoSeparators], false, 1, 8,
          ⟨[[2], [7]], [], [], 5, 1⟩, []⟩ ∧
      Script.ofBytes [0xab, 0, 0x63, 0xab, 0x68, 1, 7, 0x75, 1, 2, 0xac] = .ok twoSeparators ∧
      PastLast
        {place | SeparatorAt ⟨.none, {}, none, 0⟩ ⟨[.push 1 [7]]⟩ twoSeparators 9 1 place} 1 ∧
      ∃ pieces,
        twoSeparators.Pieces [0xab, 0, 0x63, 0xab, 0x68, 1, 7, 0x75, 1, 2, 0xac] pieces ∧
        (signedCode twoSeparators.chunks 1 [[7]]).toBytes =
          ((pieces.drop 1).filter fun piece => piece ≠ [0xab] ∧ piece ∉ [[1, 7]]).flatten := by
  have hread : Script.ofBytes [0xab, 0, 0x63, 0xab, 0x68, 1, 7, 0x75, 1, 2, 0xac] =
      .ok twoSeparators := Script.ofBytes_eq_ok_iff.2 ⟨by decide, rfl⟩
  have hafter : after ⟨.none, {}, none, 0⟩ ⟨[.push 1 [7]]⟩ twoSeparators 9 =
      .ok ⟨⟨.none, {}, none, 0⟩, [⟨[.push 1 [7]]⟩, twoSeparators], false, 1, 8,
        ⟨[[2], [7]], [], [], 5, 1⟩, []⟩ := rfl
  obtain ⟨hstart, -, pieces, hpieces, hcovered⟩ := signedCode_of_after hafter hread
  exact ⟨hafter, hread, hstart, pieces, hpieces, (hcovered [[7]] (by decide)).2.1⟩

end Evaluation

end SpendScript
