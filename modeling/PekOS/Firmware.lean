import PekOS.RsdpSearch

/-! Firmware that keeps its RSDP where the search begins. -/

namespace PekOS

open OpTree

variable {image : KernelImage} {s : Machine} {p : Word}

theorem run_findRoot (h : KernelMapped image s) {w : BitVec 16}
    (hebda : (s.word 0x413#32).setWidth 16 = w) (hw : w.toNat < 0x400) (hrsdp : IsRsdp s.byte (ebda w)) :
    ∃ t, s.run findRoot = .ok (rootOf s.byte (ebda w), t) ∧
      t.globals.acpiVersion = decide (s.byte (ebda w + 15#32) ≠ 0#8) ∧
        t.globals.rsdp = ebda w + kernelMapStart ∧
        t.cpuidEdx = s.cpuidEdx := by
  have hword : s.ebdaWord = w := hebda
  have hzero : scanned s.ebdaWord 0 = ebda w := by
    rw [hword, scanned, if_pos (by decide)]
    exact BitVec.add_zero _
  have hlow : s.MapsLow := h.mapsLow (by rw [hword]; omega)
  have hfirst : s.FirstRsdp 0 := ⟨by decide, hzero ▸ hrsdp, fun j hj => absurd hj (Nat.not_lt_zero j)⟩
  have hroot := hlow.run_findRoot hfirst
  rw [hzero] at hroot
  exact ⟨_, hroot, rfl, rfl, rfl⟩

/-! Memory contents of this kind, for a kernel loaded between 1 MiB and 4 MiB. -/

def firmware : List (Word × Word) → Memory
  | [] => fun _ _ => 0#32
  | (a, w) :: words => physStore (firmware words) a w

def firmwareByte (words : List (Word × Word)) (p : Word) : Byte :=
  byteOf p (firmware words (frameOf p) (wordOf p))

/-- No part of a loaded kernel. -/
def BesideKernel (p : Word) : Prop := p.toNat < 0x100000 ∨ 0x400000 ≤ p.toNat

instance (p : Word) : Decidable (BesideKernel p) := inferInstanceAs (Decidable (_ ∨ _))

theorem BesideKernel.frame {p : Word} (h : BesideKernel p) :
    (frameOf p).toNat < 0x100 ∨ 0x400 ≤ (frameOf p).toNat := by
  unfold BesideKernel at h
  rw [frameOf_toNat]
  omega

theorem firmware_eq_zero {words : List (Word × Word)} {f : Frame}
    (hf : ∀ x ∈ words, frameOf x.1 ≠ f) (i : Index) : firmware words f i = 0#32 := by
  induction words with
  | nil => rfl
  | cons x words ih =>
    rw [firmware, physStore, poke_of_frame_ne (hf x (List.mem_cons_self ..)).symm]
    exact ih fun y hy => hf y (List.mem_cons_of_mem _ hy)

theorem BesideKernel.frame_ne {p : Word} (h : BesideKernel p) {f : Frame}
    (hf : 0x100 ≤ f.toNat ∧ f.toNat < 0x400) : frameOf p ≠ f := by
  rintro rfl
  have hp := h.frame
  omega

theorem loaded_firmware (image : KernelImage) {words : List (Word × Word)}
    (hw : ∀ x ∈ words, BesideKernel x.1) : Loaded image (firmware words) := by
  have hd := image.directory_toNat
  have ht := image.table1_toNat
  have hge := image.directory_ge
  have hle := image.directory_le
  have hend := image.kernelEnd_le
  have hpge := image.kernelPTs_ge
  have hple := image.kernelPTs_le
  have hzero {f : Frame} (hf : 0x100 ≤ f.toNat ∧ f.toNat < 0x400) (i : Index) :
      firmware words f i = 0#32 :=
    firmware_eq_zero (fun x hx => (hw x hx).frame_ne hf) i
  refine ⟨fun i => hzero ?_ i, fun i => hzero ?_ i, fun a ha ha' => hzero ?_ _⟩
  · rw [KernelImage.directoryFrame, frameOf_toNat, hd]
    omega
  · rw [KernelImage.table1Frame, frameOf_toNat, ht]
    omega
  · have hlt := a.isLt
    rw [frameOf_toNat, kernelMapStart, BitVec.toNat_sub, BitVec.toNat_ofNat]
    omega

/-- What the processor can do stays what it is. -/
theorem exists_booted_cpuidEdx {s₀ : Machine} (hl : Loaded image s₀.mem) :
    ∃ s, Booted image s ∧ Initialised image s₀.mem s ∧ s.cpuidEdx = s₀.cpuidEdx := by
  obtain ⟨s₁, hr, hs⟩ := start_eq hl
  obtain ⟨s, hr', hi⟩ := hs.run_initPageAllocation
  refine ⟨s, ⟨s₀, s₁, hl, hr, hr'⟩, hi, ?_⟩
  rw [start, Code.store, Machine.run, Prog.run_perform] at hr
  exact (Prog.all_true initPageAllocation).run_inv (I := fun u => u.cpuidEdx = s₀.cpuidEdx)
    (fun _ _ _ _ hx hu => (Machine.exec_cpuidEdx hx).trans hu) hr' (Machine.exec_cpuidEdx hr)

theorem Initialised.byte_firmware {words : List (Word × Word)} (hi : Initialised image (firmware words) s)
    (hp : BesideKernel p) : s.byte p = firmwareByte words p := by
  have hf := hp.frame
  have hd := image.directory_toNat
  have ht := image.table1_toNat
  have hge := image.directory_ge
  have hle := image.directory_le
  have hend := image.kernelEnd_le
  rw [Machine.byte, hi.rest, firmwareByte]
  · intro he
    rw [he, KernelImage.directoryFrame, frameOf_toNat, hd] at hf
    omega
  · intro he
    rw [he, KernelImage.table1Frame, frameOf_toNat, ht] at hf
    omega

/-- Memory with a valid RSDP at the start of the extended BIOS data area. -/
structure Firmware where
  words : List (Word × Word)
  beside : (words.all fun x => decide (BesideKernel x.1)) = true
  segment : BitVec 16
  segment_lt : segment.toNat < 0x400
  segment_eq : (LittleEndian.word (firmwareByte words) 0x413#32).setWidth 16 = segment
  signature : ∀ k < 8, firmwareByte words (ebda segment + BitVec.ofNat 32 k) = rsdPtr.getD k 0#8
  checksum : byteSum (firmwareByte words) (ebda segment)
    (rsdpLength (firmwareByte words) (ebda segment)) = 0#8

namespace Firmware

theorem zeroSegment_lt : (0#16 : BitVec 16).toNat < 0x400 := by decide

variable (F : Firmware)

def byte : Word → Byte := firmwareByte F.words

def root : Word := rootOf F.byte (ebda F.segment)

def acpiVersion : Bool := F.byte (ebda F.segment + 15#32) ≠ 0#8

/-- Behind the last of its words, memory is zero. -/
theorem byte_eq_zero {n : Nat} (h : (F.words.all fun x => decide ((frameOf x.1).toNat < n)) = true)
    {q : Word} (hq : n ≤ (frameOf q).toNat) : F.byte q = 0#8 := by
  rw [Firmware.byte, firmwareByte, firmware_eq_zero fun x hx he => ?_]
  · simp [byteOf]
  · have hlt := of_decide_eq_true (List.all_eq_true.mp h x hx)
    rw [he] at hlt
    omega

theorem exists_findRoot (image : KernelImage) :
    ∃ s₀ s, Booted image s₀ ∧ s₀.run findRoot = .ok (F.root, s) ∧
    (s.globals.acpiVersion = F.acpiVersion ∧ s.globals.rsdp = ebda F.segment + kernelMapStart ∧
      s.cpuidEdx = 0#32) ∧
      ∀ p, BesideKernel p → s.byte p = F.byte p := by
  have hloaded : Loaded image ({ zeroMachine with mem := firmware F.words } : Machine).mem :=
    loaded_firmware image fun x hx => decide_eq_true_eq.mp (List.all_eq_true.mp F.beside x hx)
  obtain ⟨s₀, hb, hi, hcpu⟩ := exists_booted_cpuidEdx hloaded
  have hbyte (p : Word) (hp : BesideKernel p) : s₀.byte p = F.byte p := hi.byte_firmware hp
  have hlt := F.segment_lt
  have hebda : (ebda F.segment).toNat = F.segment.toNat * 1024 := by
    simp only [ebda, BitVec.toNat_shiftLeft, BitVec.toNat_setWidth, Nat.shiftLeft_eq]
    omega
  have hlow (k : Nat) (hk : k < 36) : s₀.byte (ebda F.segment + BitVec.ofNat 32 k) =
      F.byte (ebda F.segment + BitVec.ofNat 32 k) := by
    refine hbyte _ (Or.inl ?_)
    rw [BitVec.toNat_add, BitVec.toNat_ofNat]
    omega
  have hrev : s₀.byte (ebda F.segment + 15#32) = F.byte (ebda F.segment + 15#32) := hlow 15 (by decide)
  have hword : LittleEndian.word s₀.byte 0x413#32 = LittleEndian.word F.byte 0x413#32 :=
    LittleEndian.word_congr (hbyte _ (by decide)) fun k hk => hbyte _ (Or.inl (by
      simp only [BitVec.toNat_add, BitVec.toNat_ofNat]
      omega))
  obtain ⟨s, hr, hversion, hrsdp, hkept⟩ := run_findRoot hi.kernelMapped (w := F.segment)
    (by rw [Machine.word, hword]; exact F.segment_eq) F.segment_lt ((isRsdp_congr hlow).mpr
      ⟨F.signature, F.checksum⟩)
  refine ⟨s₀, s, hb, ?_, ⟨?_, hrsdp, hkept.trans hcpu⟩, fun p hp => ?_⟩
  · rw [hr, root, rootOf_congr hlow]
  · rw [hversion, hrev, acpiVersion]
  · rw [← hbyte p hp, Machine.byte, Machine.byte, (alike_of_findRoot hr).mem]

end Firmware

theorem KernelImage.size_le (image : KernelImage) : image.size ≤ 0x400000 := by
  have hend := image.kernelEnd_le
  have hge := image.directory_ge
  have hle := image.directory_le
  rw [KernelImage.size, kernelMapStart, BitVec.toNat_sub, BitVec.toNat_ofNat]
  omega

/-- Memory with a root table in one page as well. -/
structure RootFirmware extends Firmware where
  outside : 0x400000 ≤ toFirmware.root.toNat
  length : 36 ≤ (LittleEndian.word toFirmware.byte (toFirmware.root + 4#32)).toNat
  inPage : toFirmware.root.toNat % 4096 +
    (LittleEndian.word toFirmware.byte (toFirmware.root + 4#32)).toNat ≤ 4096

namespace RootFirmware

variable (F : RootFirmware)

def stride : Nat := if F.acpiVersion then 2 else 1

def count : Nat := ((LittleEndian.word F.byte (F.root + 4#32)).toNat - 36) / (4 * F.stride)

def entry (i : Nat) : Word := LittleEndian.word F.byte (slot F.root (F.stride * i))

theorem exists_rootTable (image : KernelImage) :
    ∃ s₀ s, Booted image s₀ ∧ s₀.run findRoot = .ok (F.root, s) ∧
    (s.globals.acpiVersion = F.acpiVersion ∧ s.globals.rsdp = ebda F.segment + kernelMapStart ∧
      s.cpuidEdx = 0#32) ∧
      (∀ p, BesideKernel p → s.byte p = F.byte p) ∧ RootTable image s F.root ∧
        s.rootCount F.root = F.count ∧
        ∀ i < F.count, s.rootEntry F.root i = F.entry i := by
  obtain ⟨s₀, s, hb, hfind, hfound, hbyte⟩ := F.exists_findRoot image
  have hout := F.outside
  have hlen := F.length
  have hin := F.inPage
  have hstride : s.globals.stride = F.stride := by rw [Globals.stride, stride, hfound.1]
  have hword {i : Nat} (hi : F.root.toNat % 4096 + i + 4 ≤ 4096) :
      s.word (F.root + BitVec.ofNat 32 i) = LittleEndian.word F.byte (F.root + BitVec.ofNat 32 i) := by
    have hlt := F.root.isLt
    refine LittleEndian.word_congr (hbyte _ (Or.inr ?_)) fun k hk => hbyte _ (Or.inr ?_)
    · rw [BitVec.toNat_add, BitVec.toNat_ofNat]
      omega
    · rw [BitVec.add_assoc, ← BitVec.ofNat_add, BitVec.toNat_add, BitVec.toNat_ofNat]
      omega
  have hlength : s.word (F.root + 4#32) = LittleEndian.word F.byte (F.root + 4#32) :=
    hword (i := 4) (by omega)
  have ht : RootTable image s F.root := by
    exact ⟨hlength ▸ hlen, hlength ▸ hin, Or.inr (Nat.le_trans image.size_le hout)⟩
  have hcount : s.rootCount F.root = F.count := by rw [ht.rootCount_eq, hlength, hstride, count]
  refine ⟨s₀, s, hb, hfind, hfound, hbyte, ht, hcount, fun i hi => ?_⟩
  have hentry := ht.entry_le (hcount ▸ hi)
  rw [hlength, hstride] at hentry
  rw [Machine.rootEntry, hstride, entry]
  exact hword (by omega)

/-- There `init_rsdt` replaces all entries. -/
theorem exists_initRsdt (image : KernelImage)
    (hsignature : ∀ i < F.count, (F.entry i).toNat % 4096 + 4 ≤ 4096) :
    ∃ s₀ s t, Booted image s₀ ∧ s₀.run findRoot = .ok (F.root, s) ∧
      (s.globals.acpiVersion = F.acpiVersion ∧ s.globals.rsdp = ebda F.segment + kernelMapStart ∧
        s.cpuidEdx = 0#32) ∧
      (∀ p, BesideKernel p → s.byte p = F.byte p) ∧ RootTable image s F.root ∧
      s.rootCount F.root = F.count ∧
      (∀ i < F.count, s.rootEntry F.root i = F.entry i) ∧ s₀.run (initRsdt image) = .ok ((), t) ∧
      Rewritten image s F.root F.count t ∧ ∀ p : Word, 0x400000 ≤ p.toNat →
        (36 ≤ (p - F.root).toNat → 36 + 4 * F.count ≤ (p - F.root).toNat) → t.byte p = F.byte p := by
  obtain ⟨s₀, s, hb, hfind, hversion, hbyte, ht, hcount, hentries⟩ := F.exists_rootTable image
  obtain ⟨t, hr, h⟩ := run_initRsdt hb hfind ⟨ht, fun i hi => by
    rw [hcount] at hi
    rw [hentries i hi]
    exact hsignature i hi⟩
  rw [hcount] at h
  refine ⟨s₀, s, t, hb, hfind, hversion, hbyte, ht, hcount, hentries, hr, h, fun p hp hfar => ?_⟩
  rw [h.memory p (KernelImage.apart_of_outside (Or.inr (Nat.le_trans image.size_le hp))) hfar,
    hbyte p (Or.inr hp)]

end RootFirmware

end PekOS
