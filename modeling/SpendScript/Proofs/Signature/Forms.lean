import SpendScript.Proofs.Digits
import SpendScript.Proofs.Signature.Der

/-!
# SpendScript.Proofs.Signature.Forms

The written forms of a signature keep its two numbers. DER writes each in as few bytes as it can,
the compact form in 32 bytes, and what reads them goes by the numbers alone.

* `Der.intContent`: what is written for a magnitude has its value and no zeros that are not needed.
* `Der.components_body`: the parser of a body finds what was written.
* `Signature.to32_eq_ok`: the 32 bytes for a number.
* `Signature.forms_keep_numbers`: the forms together.
-/

namespace SpendScript

namespace Bytes

theorem byteAt_append_right {as bs : Bytes} {i k : Nat} (h : k = as.length + i) :
    byteAt (as ++ bs) k = byteAt bs i := by
  rw [h, ← byteAt_drop, List.drop_left]

theorem slice_append_right {as bs : Bytes} {i k n : Nat} (h : k = as.length + i) :
    slice (as ++ bs) k n = slice bs i n := by
  rw [h, ← slice_drop, List.drop_left]

/-! ## Leading zeros -/

theorem toNatBE_zeros_append (n : Nat) (bs : Bytes) :
    toNatBE (List.replicate n 0 ++ bs) = toNatBE bs := by
  have hzeros : toNatBE (List.replicate n 0) = 0 := by
    induction n with
    | zero => rfl
    | succ n ih =>
      rw [List.replicate_succ', toNatBE_append, ih]
      rfl
  rw [toNatBE_append, hzeros, Nat.mul_zero, Nat.zero_add]

/-- The zeros that are left out, put back. -/
theorem zeros_append_stripZeros (bs : Bytes) :
    List.replicate (bs.length - (stripZeros bs).length) 0 ++ stripZeros bs = bs := by
  have hsplit : bs.takeWhile (· == 0) ++ stripZeros bs = bs := List.takeWhile_append_dropWhile
  have hlen := congrArg List.length hsplit
  rw [List.length_append] at hlen
  have hzeros : bs.takeWhile (· == 0) =
      List.replicate (bs.length - (stripZeros bs).length) 0 := by
    rw [List.eq_replicate_iff]
    refine ⟨by omega, ?_⟩
    intro b hb
    simpa using List.mem_takeWhile_imp hb
  rw [← hzeros, hsplit]

theorem toNatBE_stripZeros (bs : Bytes) : toNatBE (stripZeros bs) = toNatBE bs := by
  conv_rhs => rw [← zeros_append_stripZeros bs, toNatBE_zeros_append]

theorem stripZeros_zeros_append (n : Nat) (bs : Bytes) :
    stripZeros (List.replicate n 0 ++ bs) = stripZeros bs := by
  rw [stripZeros, List.dropWhile_append_of_pos]
  · rfl
  · intro b hb
    simp [List.eq_of_mem_replicate hb]

theorem head_stripZeros_ne_zero {bs rest : Bytes} {a : UInt8} (h : stripZeros bs = a :: rest) :
    a ≠ 0 := by
  have hhead := List.head?_dropWhile_not (· == 0) bs
  rw [stripZeros] at h
  rw [h] at hhead
  simpa using hhead

theorem stripZeros_stripZeros (bs : Bytes) : bs.stripZeros.stripZeros = bs.stripZeros :=
  List.dropWhile_idempotent _ bs

end Bytes

namespace Der

/-! ## The integers -/

/-- The content of an integer is its magnitude behind one zero at most, which is there where the
magnitude would be taken for a negative number or for no number at all. -/
theorem exists_intContent_eq (v : Bytes) :
    ∃ n, n ≤ 1 ∧ intContent v = List.replicate n 0 ++ v.stripZeros ∧
      isCanonicalInt (intContent v) = true := by
  rw [intContent]
  cases h : v.stripZeros with
  | nil => exact ⟨1, Nat.le_refl 1, rfl, rfl⟩
  | cons a rest =>
    have ha := Bytes.head_stripZeros_ne_zero h
    by_cases hlow : a < 0x80
    · refine ⟨0, Nat.zero_le 1, by simp [hlow], ?_⟩
      cases rest <;> simp [isCanonicalInt, hlow, ha]
    · exact ⟨1, Nat.le_refl 1, by simp [hlow], by simp [isCanonicalInt, hlow]⟩

theorem isCanonicalInt_intContent (v : Bytes) : isCanonicalInt (intContent v) = true := by
  obtain ⟨n, -, -, h⟩ := exists_intContent_eq v
  exact h

theorem length_intContent_le (v : Bytes) : (intContent v).length ≤ v.stripZeros.length + 1 := by
  obtain ⟨n, hn, h, -⟩ := exists_intContent_eq v
  rw [h, List.length_append, List.length_replicate]
  omega

theorem length_intContent_pos (v : Bytes) : 0 < (intContent v).length := by
  have h := (isCanonicalInt_iff.1 (isCanonicalInt_intContent v)).1
  omega

theorem stripZeros_intContent (v : Bytes) : (intContent v).stripZeros = v.stripZeros := by
  obtain ⟨n, -, h, -⟩ := exists_intContent_eq v
  rw [h, Bytes.stripZeros_zeros_append, Bytes.stripZeros_stripZeros]

theorem toNatBE_intContent (v : Bytes) : Bytes.toNatBE (intContent v) = Bytes.toNatBE v := by
  rw [← Bytes.toNatBE_stripZeros, stripZeros_intContent, Bytes.toNatBE_stripZeros]

/-! ## The body -/

theorem length_body (r s : Bytes) :
    (body r s).length = 5 + (intContent r).length + (intContent s).length := by
  simp only [body, List.length_append, List.length_cons]
  omega

theorem components_body {r s : Bytes} (hr : r.stripZeros.length ≤ 32)
    (hs : s.stripZeros.length ≤ 32) : components (body r s) = .ok (intContent r, intContent s) := by
  have hrc := length_intContent_le r
  have hsc := length_intContent_le s
  have hrpos := length_intContent_pos r
  have hspos := length_intContent_pos s
  rw [components_eq_ok_iff, length_body, body]
  generalize intContent r = rc at *
  generalize intContent s = sc at *
  -- The body is what comes up to the end of R, and S behind it.
  obtain ⟨head, hhead⟩ : ∃ head : Bytes, UInt8.ofNat (4 + rc.length + sc.length) :: integerTag ::
      UInt8.ofNat rc.length :: rc = head := ⟨_, rfl⟩
  rw [hhead]
  have hlen : head.length = 3 + rc.length := by
    rw [← hhead, List.length_cons, List.length_cons, List.length_cons]
    omega
  have hbyte : ∀ i < 3, Bytes.byteAt (head ++ integerTag :: UInt8.ofNat sc.length :: sc) i =
      head.byteAt i := fun i hi => Bytes.byteAt_append_left (by omega)
  have hR : (head.byteAt 2).toNat = rc.length := by
    rw [← hhead]
    show (UInt8.ofNat rc.length).toNat = rc.length
    rw [Bytes.toNat_ofNat_byte]
    omega
  have hS : (UInt8.ofNat sc.length).toNat = sc.length := by
    rw [Bytes.toNat_ofNat_byte]
    omega
  have hlenS : Bytes.byteAt (head ++ integerTag :: UInt8.ofNat sc.length :: sc)
      (4 + rc.length) = UInt8.ofNat sc.length :=
    Bytes.byteAt_append_right (i := 1) (by omega)
  rw [hbyte 0 (by decide), hbyte 1 (by decide), hbyte 2 (by decide), hR, hlenS, hS,
    Bytes.byteAt_append_right (i := 0) (by omega), Bytes.slice_append_left (by omega),
    Bytes.slice_append_right (i := 2) (by omega)]
  refine ⟨?_, ?_, by omega, rfl, by omega, rfl, ?_, ?_⟩
  · rw [← hhead]
    show (UInt8.ofNat (4 + rc.length + sc.length)).toNat + 1 = 5 + rc.length + sc.length
    rw [Bytes.toNat_ofNat_byte]
    omega
  · rw [← hhead]
    rfl
  · rw [← hhead]
    exact List.take_length
  · exact List.take_length

theorem isCanonicalTx_body {r s : Bytes} (hr : r.stripZeros.length ≤ 32)
    (hs : s.stripZeros.length ≤ 32) (t : HashType) :
    isCanonicalTx (sequenceTag :: (body r s ++ [t])) = true := by
  refine isCanonicalTx_iff_components.2 ⟨rfl, ?_, _, _, components_body hr hs,
    isCanonicalInt_intContent r, isCanonicalInt_intContent s⟩
  have hrc := length_intContent_le r
  have hsc := length_intContent_le s
  rw [length_body]
  omega

end Der

namespace Signature

variable {sig sig' : Signature} {r s v w c : Bytes}

theorem components_eq_ok_iff {rs : Bytes × Bytes} :
    sig.components = .ok rs ↔ Der.components sig.body = .ok rs := by
  unfold components
  cases Der.components sig.body <;> simp

theorem ofTx_cons_concat {tag : UInt8} {t : HashType} (body : Bytes) :
    ofTx (tag :: (body ++ [t])) = .ok ((ofBody body).withHashType t) := by
  rw [ofTx, ← List.cons_append, List.getLast?_concat, List.dropLast_concat]
  rfl

/-! ## The compact form -/

/-- The first byte of a compact form. -/
def compactHeader (compressed : Bool) (recovery : Fin 4) : UInt8 :=
  UInt8.ofNat (compactBase + recovery.val + if compressed then 4 else 0)

theorem compactHeader_range (compressed : Bool) (recovery : Fin 4) :
    compactBase ≤ (compactHeader compressed recovery).toNat ∧
      (compactHeader compressed recovery).toNat < compactBase + 8 := by
  revert compressed recovery
  decide

/-- What the first byte says is read off it. -/
theorem compactHeader_reads (compressed : Bool) (recovery : Fin 4) :
    decide (compactBase + 4 ≤ (compactHeader compressed recovery).toNat) = compressed ∧
      Fin.ofNat 4 ((compactHeader compressed recovery).toNat - compactBase) = recovery := by
  revert compressed recovery
  decide

theorem compactHeader_of_range {b : UInt8} (hlow : compactBase ≤ b.toNat)
    (hhigh : b.toNat < compactBase + 8) :
    compactHeader (decide (compactBase + 4 ≤ b.toNat)) (Fin.ofNat 4 (b.toNat - compactBase)) = b :=
  forall_byte
    (p := fun b => compactBase ≤ b.toNat → b.toNat < compactBase + 8 →
      compactHeader (decide (compactBase + 4 ≤ b.toNat)) (Fin.ofNat 4 (b.toNat - compactBase)) = b)
    (by decide +kernel) b hlow hhigh

theorem to32_intContent (h : v.length = 32) : to32 (Der.intContent v) = .ok v := by
  have hsplit := Bytes.zeros_append_stripZeros v
  have hlen := congrArg List.length hsplit
  rw [h] at hsplit hlen
  rw [List.length_append, List.length_replicate] at hlen
  rw [to32, Der.stripZeros_intContent, if_pos (by omega), hsplit]

theorem to32_eq_ok (h : to32 v = .ok w) : w.length = 32 ∧ Bytes.toNatBE w = Bytes.toNatBE v := by
  unfold to32 at h
  simp only at h
  split at h
  · cases h
    constructor
    · rw [List.length_append, List.length_replicate]
      omega
    · rw [Bytes.toNatBE_zeros_append, Bytes.toNatBE_stripZeros]
  · cases h

theorem length_stripZeros_le (h : v.length ≤ 32) : v.stripZeros.length ≤ 32 :=
  Nat.le_trans (List.length_dropWhile_le _ v) h

theorem toCompact_eq_ok_iff :
    sig.toCompact = .ok c ↔
      ∃ recovery r s r32 s32, sig.recovery = some recovery ∧ sig.components = .ok (r, s) ∧
        to32 r = .ok r32 ∧ to32 s = .ok s32 ∧
        compactHeader sig.compressed recovery :: (r32 ++ s32) = c := by
  rw [toCompact]
  cases sig.recovery with
  | none => simp
  | some recovery =>
    cases sig.components with
    | error e => simp
    | ok rs =>
      obtain ⟨r, s⟩ := rs
      cases hr : to32 r with
      | error e => simp [hr]
      | ok r32 => cases hs : to32 s <;> simp [hr, hs, compactHeader]

theorem ofCompact_eq_ok_iff :
    ofCompact c = .ok sig ↔
      c.length = 65 ∧ compactBase ≤ (c.byteAt 0).toNat ∧ (c.byteAt 0).toNat < compactBase + 8 ∧
        { ofComponents (c.slice 1 32) (c.slice 33 32) with
          compressed := compactBase + 4 ≤ (c.byteAt 0).toNat
          recovery := some (Fin.ofNat 4 ((c.byteAt 0).toNat - compactBase)) } = sig := by
  unfold ofCompact
  by_cases hlen : c.length = 65
  · by_cases hheader : compactBase ≤ (c.byteAt 0).toNat ∧ (c.byteAt 0).toNat < compactBase + 8
    · simp [hlen, hheader]
    · simp only [hlen, hheader, if_true, if_false, reduceCtorEq, true_and, false_iff]
      rintro ⟨hlow, hhigh, -⟩
      exact hheader ⟨hlow, hhigh⟩
  · simp [hlen]

/-- A compact form in its three fields. -/
theorem compact_eq (h : c.length = 65) :
    c.byteAt 0 :: (c.slice 1 32 ++ c.slice 33 32) = c := by
  cases c with
  | nil => cases h
  | cons b rest =>
    rw [List.length_cons, Nat.add_right_cancel_iff] at h
    show b :: (rest.take 32 ++ (rest.drop 32).take 32) = b :: rest
    have htail : (rest.drop 32).take 32 = rest.drop 32 :=
      List.take_of_length_le (by rw [List.length_drop]; omega)
    rw [htail, List.take_append_drop]

theorem slices_compact {b : UInt8} (hr : r.length = 32) (hs : s.length = 32) :
    Bytes.slice (b :: (r ++ s)) 1 32 = r ∧ Bytes.slice (b :: (r ++ s)) 33 32 = s := by
  constructor
  · rw [Bytes.slice_cons (i := 0) rfl, Bytes.slice_append_left (by omega)]
    exact List.take_of_length_le (Nat.le_of_eq hr)
  · rw [Bytes.slice_cons (i := 32) rfl, Bytes.slice_append_right (i := 0) (by omega)]
    exact List.take_of_length_le (Nat.le_of_eq hs)

theorem components_ofComponents (hr : r.stripZeros.length ≤ 32) (hs : s.stripZeros.length ≤ 32) :
    Der.components (ofComponents r s).body = .ok (Der.intContent r, Der.intContent s) :=
  Der.components_body hr hs

theorem toCompact_ofCompact (h : ofCompact c = .ok sig) : sig.toCompact = .ok c := by
  obtain ⟨hlen, hlow, hhigh, rfl⟩ := ofCompact_eq_ok_iff.1 h
  have hr : (c.slice 1 32).length = 32 := Bytes.length_slice (by omega)
  have hs : (c.slice 33 32).length = 32 := Bytes.length_slice (by omega)
  refine toCompact_eq_ok_iff.2 ⟨_, _, _, _, _, rfl, ?_, to32_intContent hr, to32_intContent hs, ?_⟩
  · exact components_eq_ok_iff.2 (components_ofComponents (length_stripZeros_le (Nat.le_of_eq hr))
      (length_stripZeros_le (Nat.le_of_eq hs)))
  · simp only [compactHeader_of_range hlow hhigh]
    exact compact_eq hlen

/-- Both numbers, and what else the compact form says, are read back from it. -/
theorem exists_ofCompact_of_toCompact (h : sig.toCompact = .ok c) :
    ∃ sig', ofCompact c = .ok sig' ∧ sig'.recovery = sig.recovery ∧
      sig'.compressed = sig.compressed ∧
      ∃ r s r' s', sig.components = .ok (r, s) ∧ sig'.components = .ok (r', s') ∧
        Bytes.toNatBE r' = Bytes.toNatBE r ∧ Bytes.toNatBE s' = Bytes.toNatBE s := by
  obtain ⟨recovery, r, s, r32, s32, hrecovery, hrs, hr, hs, rfl⟩ := toCompact_eq_ok_iff.1 h
  obtain ⟨hrlen, hrvalue⟩ := to32_eq_ok hr
  obtain ⟨hslen, hsvalue⟩ := to32_eq_ok hs
  obtain ⟨hlow, hhigh⟩ := compactHeader_range sig.compressed recovery
  obtain ⟨hcompressed, hnumber⟩ := compactHeader_reads sig.compressed recovery
  obtain ⟨hsliceR, hsliceS⟩ :=
    slices_compact (b := compactHeader sig.compressed recovery) hrlen hslen
  refine ⟨_, ofCompact_eq_ok_iff.2 ⟨?_, hlow, hhigh, rfl⟩, ?_, hcompressed, r, s, _, _, hrs,
    components_eq_ok_iff.2 (components_ofComponents ?_ ?_), ?_, ?_⟩
  · rw [List.length_cons, List.length_append, hrlen, hslen]
  · rw [hrecovery]
    exact congrArg some hnumber
  · rw [hsliceR]
    exact length_stripZeros_le (Nat.le_of_eq hrlen)
  · rw [hsliceS]
    exact length_stripZeros_le (Nat.le_of_eq hslen)
  · rw [hsliceR, Der.toNatBE_intContent, hrvalue]
  · rw [hsliceS, Der.toNatBE_intContent, hsvalue]

/-- Magnitudes of 32 bytes at most come back from the transaction form as the same numbers; a
compact form is read where its length and its first byte are right, and is written back as it was;
and a signature that has a compact form is read from it with the same numbers, the same recovery
number and the same word on the key's form. -/
theorem forms_keep_numbers :
    (∀ (r s : Bytes) (t : HashType), r.stripZeros.length ≤ 32 → s.stripZeros.length ≤ 32 →
      ∃ bs r' s', ((ofComponents r s).withHashType t).toTx = .ok bs ∧
        Der.isCanonicalTx bs = true ∧ ofTx bs = .ok ((ofComponents r s).withHashType t) ∧
        ((ofComponents r s).withHashType t).components = .ok (r', s') ∧
        Bytes.toNatBE r' = Bytes.toNatBE r ∧ Bytes.toNatBE s' = Bytes.toNatBE s) ∧
    (∀ c : Bytes,
      ((∃ sig, ofCompact c = .ok sig) ↔
        c.length = 65 ∧ 27 ≤ (c.byteAt 0).toNat ∧ (c.byteAt 0).toNat ≤ 34) ∧
      ∀ sig, ofCompact c = .ok sig → sig.toCompact = .ok c) ∧
    ∀ (sig : Signature) (c : Bytes), sig.toCompact = .ok c →
      ∃ sig', ofCompact c = .ok sig' ∧ sig'.recovery = sig.recovery ∧
        sig'.compressed = sig.compressed ∧
        ∃ r s r' s', sig.components = .ok (r, s) ∧ sig'.components = .ok (r', s') ∧
          Bytes.toNatBE r' = Bytes.toNatBE r ∧ Bytes.toNatBE s' = Bytes.toNatBE s := by
  refine ⟨fun r s t hr hs => ?_, fun c => ⟨?_, fun sig => toCompact_ofCompact⟩,
    fun sig c => exists_ofCompact_of_toCompact⟩
  · exact ⟨_, _, _, rfl, Der.isCanonicalTx_body hr hs t, ofTx_cons_concat _,
      components_eq_ok_iff.2 (components_ofComponents hr hs), Der.toNatBE_intContent r,
      Der.toNatBE_intContent s⟩
  · simp only [ofCompact_eq_ok_iff, exists_and_left, exists_eq', and_true]
    exact and_congr_right' (and_congr_right' Nat.lt_succ_iff)

/-- An R that needs both its zeros stripped and one of its own, an S of zero, and a signature whose
integers are padded beyond what DER allows. -/
theorem forms_keep_numbers_padded :
    (∃ bs r' s', ((ofComponents [0, 0, 0x80] []).withHashType HashType.all).toTx = .ok bs ∧
      Der.isCanonicalTx bs = true ∧
      ofTx bs = .ok ((ofComponents [0, 0, 0x80] []).withHashType HashType.all) ∧
      ((ofComponents [0, 0, 0x80] []).withHashType HashType.all).components = .ok (r', s') ∧
      Bytes.toNatBE r' = Bytes.toNatBE [0, 0, 0x80] ∧ Bytes.toNatBE s' = Bytes.toNatBE []) ∧
    ∃ c sig', (⟨[8, 2, 2, 0, 1, 2, 2, 0, 1], none, true, some 3⟩ : Signature).toCompact = .ok c ∧
      ofCompact c = .ok sig' ∧ sig'.toCompact = .ok c ∧ sig'.recovery = some 3 ∧
      sig'.compressed = true := by
  obtain ⟨htx, hread, hcompact⟩ := forms_keep_numbers
  have hpadded : (⟨[8, 2, 2, 0, 1, 2, 2, 0, 1], none, true, some 3⟩ : Signature).toCompact =
      .ok (34 :: (List.replicate 31 0 ++ 1 :: (List.replicate 31 0 ++ [1]))) := by decide
  obtain ⟨sig', h, hrecovery, hcompressed, -⟩ := hcompact _ _ hpadded
  exact ⟨htx _ _ _ (by decide) (by decide), _, sig', hpadded, h, (hread _).2 sig' h, hrecovery,
    hcompressed⟩

end Signature
end SpendScript
