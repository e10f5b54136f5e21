import SpendScript.Proofs.Eval.Success

/-!
# SpendScript.Proofs.Eval.PushOnly

Scripts that only push. Each of their chunks puts one item on the stack or fails, and neither depends
on anything but the chunk and the rules that are enforced; so a run of such a script is the same in
whatever script its chunks stand, and leaves nothing behind but its data stack.

* `Machine.exec_of_isPushOnly`: one chunk.
* `Machine.execAll_congr_of_isPushOnly`, `Machine.eq_fresh_of_isPushOnly`: the chunks of a script.
* `runOn_append_eq_ok_iff`: a script and a push of data behind it.
-/

namespace SpendScript

namespace Machine

variable {env : Env} {c : Chunk} {cs : List Chunk}

/-- An opcode up to the one for 16 pushes one item, always the same, or fails. -/
theorem perform_of_le {op : Opcode} (h : op.byte ≤ Opcode.sixteen.byte) :
    ∃ r : Except Fault Bytes, ∀ env chunks offset m,
      perform env chunks offset m op = r.map m.push := by
  cases op
  all_goals
    first
    | exact absurd h (by decide)
    | exact ⟨.ok _, fun _ _ _ _ => rfl⟩
    | exact ⟨.error _, fun _ _ _ _ => rfl⟩

theorem actionOf_congr {m m' : Machine} (h : m.executing = m'.executing) :
    actionOf env m c = actionOf env m' c := by
  simp only [actionOf, h]

/-- In a branch that is taken no chunk is left out, and what it performs is what its byte names. -/
theorem actionOf_of_executing {m : Machine} {a : Action} (hx : m.executing = true)
    (h : actionOf env m c = .ok a) :
    (∃ data, a = .push data) ∨ ∃ op, Opcode.ofByte? c.code = some op ∧ a = .perform op := by
  simp only [actionOf, hx, Bool.not_true, Bool.false_eq_true, if_false, Bool.true_or, if_true] at h
  split at h
  · split at h
    · cases h
    · cases h
      exact .inl ⟨_, rfl⟩
  · split at h
    · rename_i op hop
      cases h
      exact .inr ⟨op, hop, rfl⟩
    · cases h

/-- What a chunk pushes, or why it fails, is settled before it is executed. -/
theorem exec_of_isPushOnly (hc : c.isPushOnly = true) :
    ∃ r : Except Fault Bytes, ∀ chunks offset (m : Machine), m.executing = true →
      m.exec env chunks offset c = r.map m.push := by
  have hlow : c.code ≤ Opcode.sixteen.byte := by simpa [Chunk.isPushOnly] using hc
  have haction : ∀ m : Machine, m.executing = true →
      actionOf env m c = actionOf env .initial c := fun m hx => actionOf_congr hx
  cases helement : checkElement env c with
  | error f => exact ⟨.error f, fun _ _ m _ => by simp only [exec, resolve, helement]; rfl⟩
  | ok u =>
    cases hdone : actionOf env .initial c with
    | error f =>
      refine ⟨.error f, fun _ _ m hx => ?_⟩
      simp only [exec, resolve, helement, countOp_of_le hlow, filter_isDisabled_of_le hlow,
        haction m hx, hdone]
      rfl
    | ok a =>
      obtain ⟨data, rfl⟩ | ⟨op, hop, rfl⟩ := actionOf_of_executing rfl hdone
      · refine ⟨.ok data, fun _ _ m hx => ?_⟩
        simp only [exec, resolve, helement, countOp_of_le hlow, filter_isDisabled_of_le hlow,
          haction m hx, hdone]
        rfl
      · obtain ⟨r, hr⟩ := perform_of_le (by rwa [Opcode.byte_eq_of_ofByte? hop])
        refine ⟨r, fun chunks offset m hx => ?_⟩
        simp only [exec, resolve, helement, countOp_of_le hlow, filter_isDisabled_of_le hlow,
          haction m hx, hdone, hr]

/-- The chunks of a script that only pushes do the same in any other script. -/
theorem execAll_congr_of_isPushOnly (hcs : ∀ c ∈ cs, c.isPushOnly = true)
    (chunks chunks' : List Chunk) :
    ∀ (offset offset' : Nat) (m : Machine), m.executing = true →
      execAll env chunks offset m cs = execAll env chunks' offset' m cs := by
  induction cs with
  | nil =>
    intro offset offset' m hx
    rfl
  | cons c cs ih =>
    intro offset offset' m hx
    obtain ⟨r, hr⟩ := exec_of_isPushOnly (hcs c List.mem_cons_self)
    rw [execAll, execAll, hr chunks offset m hx, hr chunks' offset' m hx]
    cases r with
    | error f => rfl
    | ok x =>
      have htail := ih (fun c' hc' => hcs c' (List.mem_cons_of_mem c hc')) (offset + 1)
        (offset' + 1) (m.push x) hx
      simp only [Except.map, htail]

/-- Chunks that only push leave nothing behind but the data stack. -/
theorem eq_fresh_of_isPushOnly (hcs : ∀ c ∈ cs, c.isPushOnly = true) {chunks : List Chunk} :
    ∀ {offset : Nat} {data : Stack} {m : Machine},
      execAll env chunks offset (fresh data) cs = .ok m → m = fresh m.data := by
  induction cs with
  | nil =>
    intro offset data m h
    cases h
    rfl
  | cons c cs ih =>
    intro offset data m h
    obtain ⟨r, hr⟩ := exec_of_isPushOnly (hcs c List.mem_cons_self)
    obtain ⟨m₁, hc, -, htail⟩ := execAll_cons_eq_ok_iff.1 h
    rw [hr chunks offset (fresh data) rfl] at hc
    cases r with
    | error f => cases hc
    | ok x =>
      cases hc
      exact ih (fun c' hc' => hcs c' (List.mem_cons_of_mem c hc')) htail

end Machine

theorem runOn_eq_ok_iff_of_isPushOnly {env : Env} {s : Script} {data data' : Stack}
    (hpush : s.isPushOnly = true) :
    s.runOn env data = .ok data' ↔
      Machine.execAll env s.chunks 0 (Machine.fresh data) s.chunks =
        .ok (Machine.fresh data') := by
  have hchunks : ∀ c ∈ s.chunks, c.isPushOnly = true := List.all_eq_true.1 hpush
  rw [runOn_eq_ok_iff]
  constructor
  · rintro ⟨m, hrun, -, rfl⟩
    rw [← Machine.eq_fresh_of_isPushOnly hchunks hrun]
    exact hrun
  · intro hrun
    exact ⟨_, hrun, rfl, rfl⟩

theorem Script.isPushOnly_append {s : Script} {c : Chunk} (hpush : s.isPushOnly = true)
    (hcode : c.code ≤ Chunk.pushData4) : (⟨s.chunks ++ [c]⟩ : Script).isPushOnly = true := by
  have hc : c.isPushOnly = true := by
    rw [Chunk.isPushOnly, decide_eq_true_eq]
    exact UInt8.le_trans hcode (by decide)
  rw [isPushOnly, List.all_append, List.all_cons, hc]
  simpa [isPushOnly] using hpush

/-- A script that only pushes, and a push of data behind it. -/
theorem runOn_append_eq_ok_iff {env : Env} {s : Script} {c : Chunk} {data data' : Stack}
    (hpush : s.isPushOnly = true) (hcode : c.code ≤ Chunk.pushData4) :
    (⟨s.chunks ++ [c]⟩ : Script).runOn env data = .ok data' ↔
      ∃ left, s.runOn env data = .ok left ∧ c.payload.length ≤ env.limits.maxElementSize ∧
        (env.flags.has .minimalData = true → c.isMinimalPush = true) ∧
        left.length + 1 ≤ env.limits.maxStackSize ∧ c.payload :: left = data' := by
  have hchunks : ∀ c ∈ s.chunks, c.isPushOnly = true := List.all_eq_true.1 hpush
  rw [runOn_eq_ok_iff_of_isPushOnly (Script.isPushOnly_append hpush hcode), Machine.execAll_append,
    Machine.execAll_congr_of_isPushOnly hchunks _ s.chunks 0 0 _ rfl]
  constructor
  · intro h
    cases hrun : Machine.execAll env s.chunks 0 (Machine.fresh data) s.chunks with
    | error f =>
      rw [hrun] at h
      cases h
    | ok m =>
      have hm := Machine.eq_fresh_of_isPushOnly hchunks hrun
      rw [hrun, hm] at h
      obtain ⟨m₁, hexec, hdepth, hend⟩ := Machine.execAll_cons_eq_ok_iff.1 h
      obtain ⟨helement, hminimal, rfl⟩ := (Machine.exec_data_eq_ok_iff hcode rfl).1 hexec
      rw [hm] at hrun
      cases Machine.execAll_nil_eq_ok_iff.1 hend
      exact ⟨m.data, (runOn_eq_ok_iff_of_isPushOnly hpush).2 hrun, helement, hminimal, hdepth, rfl⟩
  · rintro ⟨left, hleft, helement, hminimal, hdepth, rfl⟩
    rw [(runOn_eq_ok_iff_of_isPushOnly hpush).1 hleft]
    exact Machine.execAll_cons_eq_ok_iff.2
      ⟨_, (Machine.exec_data_eq_ok_iff hcode rfl).2 ⟨helement, hminimal, rfl⟩, hdepth, rfl⟩

end SpendScript
