import PekOS.Firmware

/-! What `find_RSDP` finds, and what `init_rsdt` makes of it. -/

namespace PekOS

open OpTree

variable {s : Machine} {p : Word}

theorem scanned_toNat (w : BitVec 16) {i : Nat} (hi : i < 0x2100) : (scanned w i + kernelMapStart).toNat =
    0xC0000000 + if i < 0x100 then w.toNat * 1024 + 16 * i else 0xE0000 + 16 * (i - 0x100) := by
  have hw := w.isLt
  rw [scanned, kernelMapStart, BitVec.toNat_add, BitVec.toNat_ofNat]
  split
  · rw [BitVec.toNat_add, ebda_toNat, BitVec.toNat_ofNat]
    omega
  · rw [BitVec.toNat_ofNat]
    omega

/-- No place where an RSDP may be is missed. -/
theorem exists_scanned {w : BitVec 16} (hp : aligned 16 p)
    (hin : (p - ebda w).toNat < 0x400 ∨ 0xE0000 ≤ p.toNat ∧ p.toNat ≤ 0xFFFFF) :
    ∃ i < 0x2100, scanned w i = p := by
  unfold aligned at hp
  rcases hin with hin | hin
  · have hw := ebda_toNat w
    have hlt := p.isLt
    have hdvd : (p - ebda w).toNat % 16 = 0 := by
      rw [BitVec.toNat_sub, hw]
      omega
    refine ⟨(p - ebda w).toNat / 16, by omega, ?_⟩
    have hmul : 0x10 * ((p - ebda w).toNat / 16) = (p - ebda w).toNat := by omega
    rw [scanned, if_pos (by omega), hmul, BitVec.ofNat_toNat, BitVec.setWidth_eq, BitVec.add_comm,
      BitVec.sub_add_cancel]
  · refine ⟨0x100 + (p.toNat - 0xE0000) / 16, by omega, ?_⟩
    rw [scanned, if_neg (by omega), Nat.add_sub_cancel_left]
    apply BitVec.eq_of_toNat_eq
    rw [BitVec.toNat_ofNat]
    omega

/-- What `find_RSDP` returns is `NULL`, or the first RSDP. -/
structure FindsRsdp (s : Machine) (r : Word) (t : Machine) : Prop where
  first : r ≠ 0#32 → ∃ i, s.FirstRsdp i ∧ r = scanned s.ebdaWord i + kernelMapStart
  aligned : r ≠ 0#32 → aligned 16 r
  found : ∀ p, PekOS.aligned 16 p → (p - ebda s.ebdaWord).toNat < 0x400 ∨ 0xE0000 ≤ p.toNat ∧
    p.toNat ≤ 0xFFFFF →
    IsRsdp s.byte p → r ≠ 0#32
  version : r ≠ 0#32 → (t.globals.acpiVersion = true ↔ s.byte (r - kernelMapStart + 15#32) ≠ 0#8)
  root : r ≠ 0#32 → ∃ root u, s.run findRoot = .ok (root, u) ∧
    root = if u.globals.acpiVersion then s.word (r - kernelMapStart + 24#32)
    else s.word (r - kernelMapStart + 16#32)

theorem findRSDP_finds (h : s.MapsLow) : ∃ r t, s.run findRSDP = .ok (r, t) ∧ FindsRsdp s r t := by
  by_cases hsome : ∃ i, s.FirstRsdp i
  · obtain ⟨i, hi⟩ := hsome
    have hnat := scanned_toNat s.ebdaWord hi.1
    refine ⟨_, _, h.run_findRSDP_of hi, fun _ => ⟨i, hi, rfl⟩, fun _ => ?_, fun _ _ _ _ hzero => ?_,
      fun _ => ?_, fun _ => ⟨_, _, h.run_findRoot hi, ?_⟩⟩
    · rw [aligned, hnat]
      split <;> omega
    · rw [hzero, BitVec.toNat_ofNat] at hnat
      omega
    · rw [BitVec.add_sub_cancel]
      exact decide_eq_true_iff
    · rw [BitVec.add_sub_cancel, rootOf]
      by_cases hrev : s.byte (scanned s.ebdaWord i + 15#32) = 0#8
      · rw [if_pos hrev, Machine.withGlobals_globals, if_neg (by simp [hrev])]
      · rw [if_neg hrev, Machine.withGlobals_globals, if_pos (by simp [hrev])]
  · obtain ⟨v, hr⟩ := h.run_findRSDP_null fun i hi => hsome ⟨i, hi⟩
    refine ⟨_, _, hr, fun hne => absurd rfl hne, fun hne => absurd rfl hne, fun p hp hin hrsdp => ?_,
      fun hne => absurd rfl hne, fun hne => absurd rfl hne⟩
    obtain ⟨i, hi, rfl⟩ := exists_scanned hp hin
    exact absurd (Machine.exists_firstRsdp hi hrsdp) hsome

/-- What looks like an RSDP of revision 2, and in it, 16 bytes further, an RSDP of revision 0. -/
def decoyWords : List (Word × Word) :=
  [(0x0#32, 0x20445352#32), (0x4#32, 0x20525450#32), (0xC#32, 0x02000000#32), (0x10#32, 0x20445352#32),
    (0x14#32, 0x20525450#32), (0x18#32, 0x61#32), (0x20#32, 0x00800000#32)]

/-- The decoy is passed, and its revision forgotten. -/
theorem findRSDP_finds_behind_decoy : ∃ s t : Machine, s.run findRSDP = .ok (0xC0000010#32, t) ∧
    FindsRsdp s 0xC0000010#32 t ∧ t.globals.acpiVersion = false := by
  have hbeside : (decoyWords.all fun x => decide (BesideKernel x.1)) = true := by decide
  have hloaded : Loaded alignedImage ({ zeroMachine with mem := firmware decoyWords } : Machine).mem :=
    loaded_firmware alignedImage fun x hx => decide_eq_true_eq.mp (List.all_eq_true.mp hbeside x hx)
  obtain ⟨s, -, hi⟩ := exists_booted hloaded
  have hbyte (p : Word) (hp : p.toNat < 0x100000) : s.byte p = firmwareByte decoyWords p :=
    hi.byte_firmware (Or.inl hp)
  have hword : s.ebdaWord = 0#16 := by
    have h : s.word 0x413#32 = LittleEndian.word (firmwareByte decoyWords) 0x413#32 :=
      LittleEndian.word_congr (hbyte _ (by decide)) fun k hk => hbyte _ (by revert k; decide)
    rw [Machine.ebdaWord, h]
    decide
  have hlow : s.MapsLow := hi.kernelMapped.mapsLow (by rw [hword]; decide)
  have hscanned (i : Nat) (hi : i < 2) : scanned s.ebdaWord i = BitVec.ofNat 32 (16 * i) := by
    rw [hword]
    exact (by decide : ∀ i < 2, scanned 0#16 i = BitVec.ofNat 32 (16 * i)) i hi
  have hrsdp (i : Nat) (hi : i < 2) : IsRsdp s.byte (BitVec.ofNat 32 (16 * i)) ↔
      IsRsdp (firmwareByte decoyWords) (BitVec.ofNat 32 (16 * i)) :=
    isRsdp_congr fun k hk => hbyte _ (by rw [← BitVec.ofNat_add, BitVec.toNat_ofNat]; omega)
  have hfirst : s.FirstRsdp 1 := by
    refine ⟨by decide, ?_, fun j hj hj' => ?_⟩
    · rw [hscanned 1 (by decide), hrsdp 1 (by decide)]
      exact ⟨by decide, by decide⟩
    · obtain rfl : j = 0 := by omega
      rw [hscanned 0 (by decide), hrsdp 0 (by decide)] at hj'
      exact absurd hj'.checksum (by decide)
  have hrev : s.byte (BitVec.ofNat 32 (16 * 1) + 15#32) = 0#8 := (hbyte _ (by decide)).trans (by decide)
  have hrun := hlow.run_findRSDP_of hfirst
  rw [hscanned 1 (by decide), hrev,
    show BitVec.ofNat 32 (16 * 1) + kernelMapStart = 0xC0000010#32 by decide] at hrun
  obtain ⟨r, t, hr, hfinds⟩ := findRSDP_finds hlow
  have hsame := hrun.symm.trans hr
  simp only [Except.ok.injEq, Prod.mk.injEq] at hsame
  obtain ⟨rfl, rfl⟩ := hsame
  exact ⟨s, _, hrun, hfinds, rfl⟩

end PekOS
