import SpendScript.Proofs.Script.HashTemplates
import SpendScript.Proofs.Script.Multisig

/-!
# SpendScript.Proofs.Script.Classes

The templates of one context exclude each other, so it does not matter in which order they are
tried. A locking script is told by its first chunk. An unlocking script is told by the data of its
last push, since the bytes of a locking script never look like a public key or like a signature.

* `Script.firstFit_eq`: the first template that fits, where those that fit are of one class only.
* `Script.label_eq_opening`, `Script.label_eq_closing`: the class that the first or the last chunk
  leaves open.
* `Script.templates_exclusive`: at most one template of a context fits, and the class is the same
  in whatever order they are tried.
-/

namespace SpendScript

/-- A template and the class of the scripts that fit it. -/
structure Shape where
  label : ScriptClass
  fits : Script → Bool

namespace Script

/-- The templates for locking scripts, in the order in which they are tried. -/
def shapesOut : List Shape :=
  [⟨.pubkeyHashOut, isPubkeyHashOut⟩, ⟨.scriptHashOut, isScriptHashOut⟩,
    ⟨.multisigOut, isMultisigOut⟩, ⟨.dataOut, isDataOut⟩, ⟨.pubkeyOut, isPubkeyOut⟩]

/-- The templates for unlocking scripts, in the order in which they are tried. -/
def shapesIn : List Shape :=
  [⟨.pubkeyIn, isPubkeyIn⟩, ⟨.pubkeyHashIn, isPubkeyHashIn⟩, ⟨.multisigIn, isMultisigIn⟩,
    ⟨.scriptHashIn, isScriptHashIn⟩]

/-- The class of the first template of a list that the script fits. -/
def firstFit (s : Script) : List Shape → ScriptClass
  | [] => .unknown
  | t :: ts => if t.fits s then t.label else s.firstFit ts

theorem classOut_eq_firstFit (s : Script) : s.classOut = s.firstFit shapesOut := rfl

theorem classIn_eq_firstFit (s : Script) : s.classIn = s.firstFit shapesIn := rfl

/-! ## Templates of which a script can fit those of one class only -/

section OneClass

variable {s : Script} {ts : List Shape} {label : ScriptClass}

theorem firstFit_eq (h : ∀ t ∈ ts, t.fits s = true → t.label = label) :
    s.firstFit ts = if ts.any (·.fits s) then label else .unknown := by
  induction ts with
  | nil => rfl
  | cons t ts ih =>
    have hrest := ih fun u hu => h u (List.mem_cons_of_mem t hu)
    rw [firstFit, List.any_cons]
    cases hfits : t.fits s with
    | true => rw [if_pos rfl, Bool.true_or, if_pos rfl, h t List.mem_cons_self hfits]
    | false => rw [if_neg Bool.false_ne_true, hrest, Bool.false_or]

theorem firstFit_eq_of_perm {order : List Shape} (hperm : order.Perm ts)
    (h : ∀ t ∈ ts, t.fits s = true → t.label = label) : s.firstFit order = s.firstFit ts := by
  rw [firstFit_eq h, firstFit_eq fun t ht => h t (hperm.mem_iff.1 ht), hperm.any_eq]

theorem eq_of_fits (hlabels : (ts.map Shape.label).Nodup)
    (h : ∀ t ∈ ts, t.fits s = true → t.label = label) {t u : Shape} (ht : t ∈ ts) (hu : u ∈ ts)
    (htfits : t.fits s = true) (hufits : u.fits s = true) : t = u := by
  have hlabel : t.label = u.label := (h t ht htfits).trans (h u hu hufits).symm
  exact List.inj_on_of_nodup_map hlabels ht hu hlabel

end OneClass

/-! ## Locking scripts -/

/-- What a locking script can be by its first chunk. -/
def opening (s : Script) : ScriptClass :=
  match s.chunks with
  | [] => .unknown
  | .push _ _ :: _ => .pubkeyOut
  | .op code :: _ =>
    if code = Opcode.dup.byte then .pubkeyHashOut
    else if code = Opcode.hash160.byte then .scriptHashOut
    else if code = Opcode.returnOp.byte then .dataOut
    else .multisigOut

theorem opening_of_isMultisigOut {s : Script} (h : s.isMultisigOut = true) :
    s.opening = .multisigOut := by
  obtain ⟨m, n, first, keys, count, -, -, -, hm, -, -, rfl⟩ := isMultisigOut_iff.1 h
  have hle := Opcode.le_of_smallInt? hm
  interval_cases m
  all_goals
    cases hm
    rfl

theorem opening_of_isDataOut {s : Script} (h : s.isDataOut = true) : s.opening = .dataOut := by
  cases s with
  | mk chunks =>
    simp only [isDataOut] at h
    split at h
    · rw [beq_iff_eq] at h
      rw [h]
      rfl
    · rw [Bool.and_eq_true, beq_iff_eq] at h
      rw [h.1]
      rfl
    · cases h

theorem isPubkeyOut_cases {s : Script} (h : s.isPubkeyOut = true) :
    ∃ code key, looksLikePublicKey key = true ∧
      s = ⟨[.push code key, .ofOpcode .checkSig]⟩ := by
  cases s with
  | mk chunks =>
    simp only [isPubkeyOut] at h
    split at h
    · rename_i a b
      rw [Bool.and_eq_true, beq_iff_eq] at h
      obtain ⟨hkey, rfl⟩ := h
      cases a with
      | op code => cases hkey
      | push code key => exact ⟨code, key, hkey, rfl⟩
    · cases h

theorem label_eq_opening (s : Script) : ∀ t ∈ shapesOut, t.fits s = true → t.label = s.opening := by
  simp only [shapesOut, List.forall_mem_cons]
  refine ⟨?_, ?_, ?_, ?_, ?_, by simp⟩
  · intro h
    obtain ⟨code, hash, rfl⟩ := isPubkeyHashOut_iff.1 h
    rfl
  · intro h
    obtain ⟨code, hash, rfl⟩ := isScriptHashOut_iff.1 h
    rfl
  · intro h
    exact (opening_of_isMultisigOut h).symm
  · intro h
    exact (opening_of_isDataOut h).symm
  · intro h
    obtain ⟨code, key, -, rfl⟩ := isPubkeyOut_cases h
    rfl

theorem classOut_eq_opening {s : Script} (h : s.classOut ≠ .unknown) : s.classOut = s.opening := by
  rw [classOut_eq_firstFit, firstFit_eq s.label_eq_opening] at h ⊢
  split_ifs at h ⊢
  · rfl
  · exact absurd rfl h

theorem isPubkeyOut_of_classOut {s : Script} (h : s.classOut = .pubkeyOut) :
    s.isPubkeyOut = true := by
  rw [classOut] at h
  split_ifs at h with _ _ _ _ hkey
  exact hkey

/-! ## The bytes of a locking script -/

end Script

/-- A public key has one of three tags, and one of two lengths. -/
theorem looksLikePublicKey_cases {bs : Bytes} (h : looksLikePublicKey bs = true) :
    ∃ tag rest, bs = tag :: rest ∧ (tag = 2 ∨ tag = 3 ∨ tag = 4) ∧
      (bs.length = 33 ∨ bs.length = 65) := by
  cases bs with
  | nil => cases h
  | cons tag rest =>
    simp only [looksLikePublicKey, Bool.or_eq_true, Bool.and_eq_true, beq_iff_eq] at h
    refine ⟨tag, rest, rfl, ?_, ?_⟩
    · tauto
    · tauto

theorem looksLikeSignature_cases {bs : Bytes} (h : looksLikeSignature bs = true) :
    ∃ rest, bs = 0x30 :: rest := by
  cases bs with
  | nil => cases h
  | cons tag rest =>
    have htag : tag = 0x30 := by simpa [looksLikeSignature, Der.sequenceTag] using h
    exact ⟨rest, by rw [htag]⟩

theorem looksLikeSignature_of_isCanonicalTx {bs : Bytes} (h : Der.isCanonicalTx bs = true) :
    looksLikeSignature bs = true := by
  simp only [Der.isCanonicalTx, Bool.and_eq_true, decide_eq_true_eq, beq_iff_eq, and_assoc] at h
  obtain ⟨hlength, -, htag, -⟩ := h
  cases bs with
  | nil =>
    rw [List.length_nil] at hlength
    omega
  | cons b rest =>
    have hb : b = Der.sequenceTag := htag
    rw [hb]
    rfl

theorem looksLikePublicKey_of_looksLikeSignature {bs : Bytes} (h : looksLikeSignature bs = true) :
    looksLikePublicKey bs = false := by
  obtain ⟨rest, rfl⟩ := looksLikeSignature_cases h
  rfl

namespace Script

/-- If a recognized locking script begins with a push whose opcode byte is its length, then it
begins with the push of a public key. -/
theorem directCode_of_recognized {code : UInt8} {bs : Bytes} {s : Script}
    (hread : ofBytes (code :: bs) = .ok s) (hclass : s.classOut ≠ .unknown)
    (hdirect : 1 ≤ code ∧ code ≤ Opcode.maxDirectPush) : code.toNat = 33 ∨ code.toNat = 65 := by
  obtain ⟨hform, hbytes⟩ := ofBytes_eq_ok_iff.1 hread
  obtain ⟨chunks⟩ := s
  cases chunks with
  | nil => cases hbytes
  | cons c cs =>
    rw [toBytes, List.flatMap_cons, Chunk.encode_eq_cons, List.cons_append, List.cons.injEq]
      at hbytes
    have hcode : c.code = code := hbytes.1
    have hc : c.WellFormed := hform c List.mem_cons_self
    cases c with
    | op b =>
      rw [Chunk.code] at hcode
      subst hcode
      exact absurd hdirect (Chunk.not_direct_of_wellFormed hc)
    | push b data =>
      rw [Chunk.code] at hcode
      subst hcode
      have hkey : (Script.mk (.push b data :: cs)).isPubkeyOut = true :=
        isPubkeyOut_of_classOut (classOut_eq_opening hclass)
      obtain ⟨b', key, hlooks, heq⟩ := isPubkeyOut_cases hkey
      rw [Script.mk.injEq, List.cons.injEq, Chunk.push.injEq] at heq
      obtain ⟨⟨rfl, rfl⟩, -⟩ := heq
      obtain ⟨-, -, -, -, hlength⟩ := looksLikePublicKey_cases hlooks
      rw [Chunk.WellFormed, if_pos (Chunk.lengthWidth_of_le hdirect.2)] at hc
      rw [← hc.2.2]
      exact hlength

/-- The bytes of a recognized locking script look neither like a public key nor like a signature:
read as a script, those would begin with a push of two, three, four or 48 bytes. -/
theorem looksLike_of_recognized {bs : Bytes} {s : Script} (hread : ofBytes bs = .ok s)
    (hclass : s.classOut ≠ .unknown) :
    looksLikePublicKey bs = false ∧ looksLikeSignature bs = false := by
  have hdirect : ∀ {code : UInt8} {rest : Bytes}, bs = code :: rest →
      1 ≤ code ∧ code ≤ Opcode.maxDirectPush → code.toNat = 33 ∨ code.toNat = 65 := by
    rintro code rest rfl hcode
    exact directCode_of_recognized hread hclass hcode
  constructor
  · rw [Bool.eq_false_iff]
    intro hkey
    obtain ⟨tag, rest, hbs, htag, -⟩ := looksLikePublicKey_cases hkey
    rcases htag with rfl | rfl | rfl
    all_goals exact absurd (hdirect hbs (by decide)) (by decide)
  · rw [Bool.eq_false_iff]
    intro hsig
    obtain ⟨rest, hbs⟩ := looksLikeSignature_cases hsig
    exact absurd (hdirect hbs (by decide)) (by decide)

/-! ## Unlocking scripts -/

/-- What an unlocking script can be by its last chunk. -/
def closing (s : Script) : ScriptClass :=
  match s.chunks.reverse with
  | [] => .unknown
  | [_] => .pubkeyIn
  | last :: _ :: _ =>
    if last.pushes looksLikePublicKey then .pubkeyHashIn
    else if last.pushes looksLikeSignature then .multisigIn
    else .scriptHashIn

theorem closing_of_isPubkeyIn {s : Script} (h : s.isPubkeyIn = true) : s.closing = .pubkeyIn := by
  obtain ⟨chunks⟩ := s
  simp only [isPubkeyIn] at h
  split at h
  · rfl
  · cases h

theorem closing_of_isPubkeyHashIn {s : Script} (h : s.isPubkeyHashIn = true) :
    s.closing = .pubkeyHashIn := by
  obtain ⟨chunks⟩ := s
  simp only [isPubkeyHashIn] at h
  split at h
  · rename_i a b
    rw [Bool.and_eq_true] at h
    exact if_pos h.2
  · cases h

theorem closing_of_isMultisigIn {s : Script} (h : s.isMultisigIn = true) :
    s.closing = .multisigIn := by
  obtain ⟨chunks⟩ := s
  simp only [isMultisigIn] at h
  split at h
  · rename_i dummy sig sigs
    rw [Bool.and_eq_true, List.all_eq_true] at h
    obtain ⟨last, before, hreverse⟩ :=
      List.exists_cons_of_ne_nil (List.reverse_ne_nil_iff.2 (List.cons_ne_nil sig sigs))
    have hlast : last ∈ sig :: sigs := by
      rw [← List.mem_reverse, hreverse]
      exact List.mem_cons_self
    obtain ⟨next, before', hbefore⟩ :=
      List.exists_cons_of_ne_nil (List.append_ne_nil_of_right_ne_nil before
        (List.cons_ne_nil dummy []))
    have hchunks : (dummy :: sig :: sigs).reverse = last :: next :: before' := by
      rw [List.reverse_cons, hreverse, List.cons_append, hbefore]
    cases last with
    | op code => cases h.2 _ hlast
    | push code data =>
      have hsig : looksLikeSignature data = true :=
        looksLikeSignature_of_isCanonicalTx (h.2 _ hlast)
      simp only [closing, hchunks, Chunk.pushes, hsig,
        looksLikePublicKey_of_looksLikeSignature hsig, if_true, Bool.false_eq_true, if_false]
  · cases h

theorem closing_of_isScriptHashIn {s : Script} (h : s.isScriptHashIn = true) :
    s.closing = .scriptHashIn := by
  rw [isScriptHashIn, redeemScript?] at h
  split at h
  · rename_i code data next before hreverse
    split at h
    · cases h
    · rename_i redeem hread
      split at h
      · cases h
      · rename_i hclass
        obtain ⟨hkey, hsig⟩ := looksLike_of_recognized hread hclass
        simp only [closing, hreverse, Chunk.pushes, hkey, hsig, Bool.false_eq_true, if_false]
  · cases h

theorem label_eq_closing (s : Script) : ∀ t ∈ shapesIn, t.fits s = true → t.label = s.closing := by
  simp only [shapesIn, List.forall_mem_cons]
  refine ⟨?_, ?_, ?_, ?_, by simp⟩
  · intro h
    exact (closing_of_isPubkeyIn h).symm
  · intro h
    exact (closing_of_isPubkeyHashIn h).symm
  · intro h
    exact (closing_of_isMultisigIn h).symm
  · intro h
    exact (closing_of_isScriptHashIn h).symm

/-- **The templates of one context exclude each other.** Two templates for unlocking scripts, or two
for locking scripts, that the same script fits are the same template. Tried in any other order, they
give every script the class that it has. -/
theorem templates_exclusive (s : Script) :
    (∀ t ∈ shapesIn, ∀ u ∈ shapesIn, t.fits s = true → u.fits s = true → t = u) ∧
    (∀ t ∈ shapesOut, ∀ u ∈ shapesOut, t.fits s = true → u.fits s = true → t = u) ∧
    (∀ order : List Shape, order.Perm shapesIn → s.firstFit order = s.classIn) ∧
    ∀ order : List Shape, order.Perm shapesOut → s.firstFit order = s.classOut := by
  refine ⟨?_, ?_, ?_, ?_⟩
  · intro t ht u hu
    exact eq_of_fits (by decide) s.label_eq_closing ht hu
  · intro t ht u hu
    exact eq_of_fits (by decide) s.label_eq_opening ht hu
  · intro order hperm
    rw [classIn_eq_firstFit]
    exact firstFit_eq_of_perm hperm s.label_eq_closing
  · intro order hperm
    rw [classOut_eq_firstFit]
    exact firstFit_eq_of_perm hperm s.label_eq_opening

theorem templates_exclusive_reversed :
    shapesOut.reverse.Perm shapesOut ∧ twoOfThree.firstFit shapesOut.reverse = .multisigOut := by
  have hperm := List.reverse_perm shapesOut
  have hclass : twoOfThree.classOut = .multisigOut := by decide
  exact ⟨hperm, ((templates_exclusive twoOfThree).2.2.2 shapesOut.reverse hperm).trans hclass⟩

end Script

end SpendScript
