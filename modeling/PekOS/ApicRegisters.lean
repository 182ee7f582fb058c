import PekOS.Apic
import PekOS.RootTable
import Mathlib.Data.Set.Basic

/-! The registers of the local APIC and of the IOAPIC, programmed through pages
of their own: no other page, and no memory outside the registers, is touched. -/

namespace PekOS

open OpTree FirstFit

/-- Pages have been added, and all that was written outside the page tables is in the frames `F`. -/
structure Driven (image : KernelImage) (F : Set Frame) (s t : Machine) : Prop where
  paged : Paged image t
  kept : ∀ d i, s.walk d i ≠ none → t.walk d i = s.walk d i
  memory : ∀ x, image.Apart (frameOf x) → frameOf x ∉ F → t.byte x = s.byte x
  rsdp : t.globals.rsdp = s.globals.rsdp
  rsdt : t.globals.rsdt = s.globals.rsdt
  version : t.globals.acpiVersion = s.globals.acpiVersion

namespace Driven

variable {image : KernelImage} {F : Set Frame} {s t u : Machine} {a p : Word}

theorem refl (h : Paged image s) : Driven image F s s :=
  ⟨h, fun _ _ _ => rfl, fun _ _ _ => rfl, rfl, rfl, rfl⟩

theorem translate (h : Driven image F s t) (hp : s.translate a = some p) : t.translate a = some p := by
  obtain ⟨m, hm, -⟩ := Machine.translate_eq_some hp
  rw [Machine.translate, h.kept _ _ (by rw [hm]; exact Option.some_ne_none m)]
  exact hp

theorem word (h : Driven image F s t) (hp : ∀ k < 4, image.Apart (frameOf (p + BitVec.ofNat 32 k)) ∧
    frameOf (p + BitVec.ofNat 32 k) ∉ F) : t.word p = s.word p := by
  have hzero := hp 0 (by decide)
  rw [BitVec.add_zero] at hzero
  exact LittleEndian.word_congr (h.memory p hzero.1 hzero.2) fun k hk =>
    h.memory _ (hp k hk).1 (hp k hk).2

theorem withGlobals (h : Driven image F s t) {g : Globals} (hg : SamePaging t.globals g)
    (hrsdp : g.rsdp = t.globals.rsdp) (hrsdt : g.rsdt = t.globals.rsdt)
    (hversion : g.acpiVersion = t.globals.acpiVersion) : Driven image F s (t.withGlobals g) :=
  ⟨h.paged.withGlobals hg, h.kept, h.memory, hrsdp.trans h.rsdp, hrsdt.trans h.rsdt,
    hversion.trans h.version⟩

theorem withApicBase (h : Driven image F s t) (msr : BitVec 64) :
    Driven image F s { t with apicBase := msr } :=
  ⟨h.paged.of_sameTables ⟨rfl, fun _ _ _ => rfl⟩ rfl rfl rfl, h.kept, h.memory, h.rsdp, h.rsdt, h.version⟩

/-- `map_page` has given the next page to a frame. -/
theorem enter (h : Driven image F s t) {page : Nat} {rest : List Nat}
    (hu : Entered image t page rest p u) : Driven image F s u := by
  obtain ⟨mmap, i, k, hglobals⟩ := hu.globals
  refine ⟨hu.paged, fun d i hm => ?_, fun x hx hF => ?_, ?_, ?_, ?_⟩
  · rw [hu.kept d i (by rwa [h.kept d i hm]), h.kept d i hm]
  · rw [hu.byte hx, h.memory x hx hF]
  · rw [hglobals]
    exact h.rsdp
  · rw [hglobals]
    exact h.rsdt
  · rw [hglobals]
    exact h.version

end Driven

/-- Registers at `p` are mapped at `base`. -/
structure Programs (image : KernelImage) (F : Set Frame) (s : Machine) (base p : Word) (g : Globals)
    (t : Machine) : Prop where
  driven : Driven image F s t
  maps : t.Maps base p
  globals : t.globals = g
  among : frameOf p ∈ F
  apart : image.Apart (frameOf p)

namespace Programs

variable {image : KernelImage} {F : Set Frame} {s t : Machine} {base p o v : Word} {g : Globals}

theorem run_load (h : Programs image F s base p g t) (hoff : p.toNat % 4096 + o.toNat + 4 ≤ 4096) :
    ∃ w, t.run (Code.load (base + o)) = .ok (w, t) := by
  have hload := Machine.run_load_word (h.maps.reads hoff)
  rw [BitVec.ofNat_toNat, BitVec.setWidth_eq] at hload
  exact ⟨_, hload⟩

theorem run_store (h : Programs image F s base p g t) (hoff : p.toNat % 4096 + o.toNat + 4 ≤ 4096)
    (v : Word) :
    ∃ u, t.run (Code.store (base + o) v) = .ok ((), u) ∧ Programs image F s base p g u := by
  have htables := h.driven.paged.tables
  have hself := htables.editable.toSelfMapped
  have hunused := htables.unused_of_apart (Nat.le_of_lt h.driven.paged.tableLeft) h.apart
  have hwrites := h.maps.writes hoff hunused
  obtain ⟨u, hr, hbyte, hsame, hglobals⟩ := Machine.run_store_word hwrites hself v
  rw [BitVec.ofNat_toNat, BitVec.setWidth_eq] at hr hbyte
  have hdriven : Driven image F s u := by
    refine ⟨h.driven.paged.of_sameTables hsame (by rw [hglobals]) (by rw [hglobals])
      (by rw [hglobals]), fun d i hm => ?_, fun x hx hF => ?_, ?_, ?_, ?_⟩
    · rw [hsame.walk hself, h.driven.kept d i hm]
    · have hfar : ¬ (x - (p + o)).toNat < 4 := by
        intro hnear
        have hat := (Machine.eq_add_iff hnear).mpr rfl
        refine hF ?_
        have hoffset : o = BitVec.ofNat 32 o.toNat := by rw [BitVec.ofNat_toNat, BitVec.setWidth_eq]
        rw [hat, hoffset, BitVec.add_assoc, ← BitVec.ofNat_add, ← hoffset, Machine.frameOf_add (by omega)]
        exact h.among
      rw [hbyte, LittleEndian.put, if_neg hfar, h.driven.memory x hx hF]
    · rw [hglobals, h.driven.rsdp]
    · rw [hglobals, h.driven.rsdt]
    · rw [hglobals, h.driven.version]
  exact ⟨u, hr, hdriven, h.maps.of_sameTables hsame hself, hglobals.trans h.globals, h.among, h.apart⟩

theorem withApicBase (h : Programs image F s base p g t) (msr : BitVec 64) :
    Programs image F s base p g { t with apicBase := msr } :=
  ⟨h.driven.withApicBase msr, h.maps, h.globals, h.among, h.apart⟩

/-! The local APIC. -/

section LocalApic

variable (h : Programs image F s base p g t) (hbase : g.localApic1VirtAddr = base) (hp : aligned 4096 p)

include h hbase hp

theorem run_readRegister (hoff : o.toNat + 4 ≤ 4096) : ∃ w, t.run (readRegister o) = .ok (w, t) := by
  unfold aligned at hp
  obtain ⟨w, hr⟩ := h.run_load (o := o) (by omega)
  refine ⟨w, ?_⟩
  rw [readRegister, Machine.run, Prog.run_bind_ok _ (Machine.run_get _), h.globals, hbase]
  exact hr

theorem run_writeRegister (hoff : o.toNat + 4 ≤ 4096) (v : Word) :
    ∃ u, t.run (writeRegister o v) = .ok ((), u) ∧ Programs image F s base p g u := by
  unfold aligned at hp
  obtain ⟨u, hr, hu⟩ := h.run_store (o := o) (by omega) v
  refine ⟨u, ?_, hu⟩
  rw [writeRegister, Machine.run, Prog.run_bind_ok _ (Machine.run_get _), h.globals, hbase]
  exact hr

theorem run_apicStartTimer : ∃ u, t.run apicStartTimer = .ok ((), u) ∧ Programs image F s base p g u := by
  obtain ⟨u₁, hr₁, h₁⟩ := h.run_writeRegister hbase hp (o := 0x320#32) (by decide) (48#32 ||| 0x20000#32)
  obtain ⟨u₂, hr₂, h₂⟩ := h₁.run_writeRegister hbase hp (o := 0x3E0#32) (by decide) 0x3#32
  obtain ⟨u₃, hr₃, h₃⟩ := h₂.run_writeRegister hbase hp (o := 0x380#32) (by decide) 100000#32
  exact ⟨u₃, (Prog.run_bind_ok _ hr₁).trans ((Prog.run_bind_ok _ hr₂).trans hr₃), h₃⟩

end LocalApic

/-! The IOAPIC. -/

section Ioapic

variable (h : Programs image F s base p g t) (hp : p.toNat % 4096 + 0x14 ≤ 4096)

include h hp

theorem run_select (offset : Byte) :
    ∃ u, t.run (Code.store base (offset.setWidth 32)) = .ok ((), u) ∧ Programs image F s base p g u := by
  have hstore := h.run_store (o := 0#32) (by rw [BitVec.toNat_ofNat]; omega) (offset.setWidth 32)
  rwa [BitVec.add_zero] at hstore

theorem run_readIoapicRegister (offset : Byte) :
    ∃ w u, t.run (readIoapicRegister base offset) = .ok (w, u) ∧ Programs image F s base p g u := by
  obtain ⟨u, hr, hu⟩ := h.run_select hp offset
  obtain ⟨w, hw⟩ := hu.run_load (o := 0x10#32) (by rw [BitVec.toNat_ofNat]; omega)
  exact ⟨w, u, (Prog.run_bind_ok _ hr).trans hw, hu⟩

theorem run_writeIoapicRegister (offset : Byte) (v : Word) :
    ∃ u, t.run (writeIoapicRegister base offset v) = .ok ((), u) ∧ Programs image F s base p g u := by
  obtain ⟨u, hr, hu⟩ := h.run_select hp offset
  obtain ⟨w, hw, hwp⟩ := hu.run_store (o := 0x10#32) (by rw [BitVec.toNat_ofNat]; omega) v
  exact ⟨w, (Prog.run_bind_ok _ hr).trans hw, hwp⟩

theorem run_redirectInterrupts :
    ∃ u, t.run (redirectInterrupts base) = .ok ((), u) ∧ Programs image F s base p g u := by
  obtain ⟨_, u, hr, hu⟩ := Prog.run_forUp Machine.exec (fun i _ => do
      let regVal ← readIoapicRegister base (BitVec.ofNat 8 (0x10 + i * 2))
      writeIoapicRegister base (BitVec.ofNat 8 (0x10 + i * 2)) (redirection i regVal)
      let upperReg ← readIoapicRegister base (BitVec.ofNat 8 (0x11 + i * 2))
      writeIoapicRegister base (BitVec.ofNat 8 (0x11 + i * 2)) (upperReg &&& 0x00FFFFFF#32))
    (fun _ _ u => Programs image F s base p g u) (n := 16) (b := ()) h fun i _ t _ ht => by
      obtain ⟨w, u₁, hr₁, h₁⟩ := ht.run_readIoapicRegister hp (BitVec.ofNat 8 (0x10 + i * 2))
      obtain ⟨u₂, hr₂, h₂⟩ :=
        h₁.run_writeIoapicRegister hp (BitVec.ofNat 8 (0x10 + i * 2)) (redirection i w)
      obtain ⟨w', u₃, hr₃, h₃⟩ := h₂.run_readIoapicRegister hp (BitVec.ofNat 8 (0x11 + i * 2))
      obtain ⟨u₄, hr₄, h₄⟩ :=
        h₃.run_writeIoapicRegister hp (BitVec.ofNat 8 (0x11 + i * 2)) (w' &&& 0x00FFFFFF#32)
      exact ⟨(), u₄, (Prog.run_bind_ok _ hr₁).trans ((Prog.run_bind_ok _ hr₂).trans
        ((Prog.run_bind_ok _ hr₃).trans hr₄)), h₄⟩
  exact ⟨u, hr, hu⟩

end Ioapic

end Programs

/-! The pages they get. -/

section Pages

variable {image : KernelImage} {F : Set Frame} {s t : Machine} {p : Word} {page : Nat} {rest : List Nat}

theorem takePage_eq (hf : t.globals.freePages = page :: rest) :
    t.takePage = t.withGlobals (t.globals.takePage page) := by
  rw [← (nextPage_of_cons hf).2]
  rfl

/-- The low bits of the address are those of the page of registers. -/
theorem page_or_low {v : Word} (hv : aligned 4096 v) (p : Word) :
    (v &&& 0xFFFFF000#32) ||| (p &&& 0xFFF#32) = v + (p &&& 0xFFF#32) ∧
      (v + (p &&& 0xFFF#32)) &&& 0xFFFFF000#32 = v := by
  have hmask : (0xFFFFF000#32 : Word) = ~~~0xFFF#32 := by decide
  have hkeep : v &&& 0xFFFFF000#32 = v := by
    apply BitVec.eq_of_toNat_eq
    rw [hmask, and_mask_toNat]
    unfold aligned at hv
    omega
  have hdisjoint : (v &&& 0xFFFFF000#32) &&& (p &&& 0xFFF#32) = 0#32 := by
    rw [BitVec.and_assoc, BitVec.and_comm p, ← BitVec.and_assoc 0xFFFFF000#32,
      show 0xFFFFF000#32 &&& 0xFFF#32 = 0#32 by decide, BitVec.zero_and, BitVec.and_zero]
  have hor : (v &&& 0xFFFFF000#32) ||| (p &&& 0xFFF#32) = v + (p &&& 0xFFF#32) := by
    rw [← BitVec.add_eq_or_of_and_eq_zero _ _ hdisjoint, hkeep]
  refine ⟨hor, ?_⟩
  rw [← hor, BitVec.and_comm, BitVec.and_or_distrib_left, BitVec.and_comm _ (v &&& _),
    BitVec.and_assoc, BitVec.and_self, hkeep, BitVec.and_comm p, ← BitVec.and_assoc,
    show 0xFFFFF000#32 &&& 0xFFF#32 = 0#32 by decide, BitVec.zero_and, BitVec.or_zero]

/-- `map_page` on the page served next, some global having been set in between. -/
theorem Driven.run_mapPage (h : Driven image F s t) (hf : t.globals.freePages = page :: rest)
    (hlt : page < 0xFFC00) (hp : aligned 4096 p) :
    ∃ u, t.takePage.run (mapPage image p (pageAddr page) 3#32) = .ok ((), u) ∧
      Driven image F s u ∧ Entered image t page rest p u :=
  have hu := h.paged.enter hf hlt hp
  ⟨_, h.paged.run_mapPage _ _, h.enter hu, hu⟩

/-- `init_apic` up to the timer, `p` being where the local APIC's registers are. -/
theorem Driven.run_programLocalApic (h : Driven image F s t) (hf : t.globals.freePages = page :: rest)
    (hlt : page < 0xFFC00) (hp : aligned 4096 p) (hF : frameOf p ∈ F) (hapart : image.Apart (frameOf p))
    {msrAvailable : Bool} {madt : Word} (hread : t.run (if msrAvailable then cpuGetApicBase else do
      Code.deref .findByHeader madt
      Code.load (madt + 36#32)) = .ok (p, t)) :
    ∃ u, t.run (programLocalApic image msrAvailable madt) = .ok ((), u) ∧ Driven image F s u ∧
      u.globals.freePages = rest ∧ u.globals.madt = t.globals.madt := by
  let g : Globals := { t.globals with localApic1PhysAddr := p }
  let g' : Globals := { g with localApic1VirtAddr := pageAddr page }
  have hd : Driven image F s (t.withGlobals g') := h.withGlobals ⟨rfl, rfl, rfl, rfl⟩ rfl rfl rfl
  have hpage : page < 1024 * 1024 := by omega
  obtain ⟨u, hr, hu, he⟩ := hd.run_mapPage hf hlt hp
  have hnote : (t.withGlobals g).takePage.withGlobals
      { (t.withGlobals g).takePage.globals with localApic1VirtAddr := pageAddr page } =
        (t.withGlobals g').takePage := by
    rw [takePage_eq (t := t.withGlobals g) hf, takePage_eq (t := t.withGlobals g') hf]
    rfl
  obtain ⟨mmap, i, k, hglobals⟩ := he.globals
  have hbase : u.globals.localApic1VirtAddr = pageAddr page :=
    congrArg Globals.localApic1VirtAddr hglobals
  have hmaps : u.Maps (pageAddr page) p := by
    refine ⟨he.self, ?_⟩
    apply BitVec.eq_of_toNat_eq
    unfold aligned at hp
    rw [offsetOf_toNat, offsetOf_toNat, pageAddr_toNat hpage]
    omega
  have h₀ : Programs image F s (pageAddr page) p u.globals u := ⟨hu, hmaps, rfl, hF, hapart⟩
  obtain ⟨u', hen, h₁⟩ : ∃ u', u.run (if msrAvailable then enableApic else return ()) = .ok ((), u') ∧
      Programs image F s (pageAddr page) p u.globals u' := by
    cases msrAvailable with
    | true => exact ⟨_, rfl, h₀.withApicBase _⟩
    | false => exact ⟨u, rfl, h₀⟩
  obtain ⟨w, hspurious⟩ := h₁.run_readRegister hbase hp (o := 0xF0#32) (by decide)
  obtain ⟨u₂, hr₂, h₂⟩ := h₁.run_writeRegister hbase hp (o := 0xF0#32) (by decide) (w ||| 0x100#32)
  have hid := Machine.run_loadByte (h₂.maps.add (k := 3) (by unfold aligned at hp; omega)).translate
  obtain ⟨u₃, hr₃, h₃⟩ := h₂.run_writeRegister hbase hp (o := 0x80#32) (by decide) 3#32
  obtain ⟨u₄, hr₄, h₄⟩ := h₃.run_apicStartTimer hbase hp
  have hrest : t.run (do
      Code.modify fun g => { g with localApic1PhysAddr := p }
      let virtAddr ← Code.globals findFreeVirtaddr
      Code.modify fun g => { g with localApic1VirtAddr := virtAddr }
      mapPage image p virtAddr 3#32
      (if msrAvailable then enableApic else return ())
      let spurious ← readRegister 0xF0#32
      writeRegister 0xF0#32 (spurious ||| 0x100#32)
      let _ ← Code.loadByte (virtAddr + 3#32)
      writeRegister 0x80#32 3#32
      apicStartTimer) = .ok ((), u₄) := by
    have hphys : t.run (Code.modify fun g => { g with localApic1PhysAddr := p }) =
      .ok ((), t.withGlobals g) :=
      Machine.run_modify _
    have hfree := Paged.run_findFreeVirtaddr (s := t.withGlobals g) hf
    have hvirt : (t.withGlobals g).takePage.run
        (Code.modify fun g => { g with localApic1VirtAddr := pageAddr page }) =
        .ok ((), (t.withGlobals g').takePage) := (Machine.run_modify _).trans (by rw [← hnote]; rfl)
    rw [Machine.run, Prog.run_bind_ok _ hphys, Prog.run_bind_ok _ hfree, Prog.run_bind_ok _ hvirt,
      Prog.run_bind_ok _ hr, Prog.run_bind_ok _ hen, Prog.run_bind_ok _ hspurious,
      Prog.run_bind_ok _ hr₂, Prog.run_bind_ok _ hid, Prog.run_bind_ok _ hr₃]
    exact hr₄
  refine ⟨u₄, ?_, h₄.driven, ?_, ?_⟩
  · cases msrAvailable with
    | true => exact (Prog.run_bind_ok _ hread).trans hrest
    | false =>
      have hload : t.run (Code.load (madt + 36#32)) = .ok (p, t) := hread
      exact (Prog.run_bind_ok _ hload).trans hrest
  · rw [h₄.globals]
    exact he.freePages
  · have hmadt : u.globals.madt = t.globals.madt := (congrArg Globals.madt hglobals :)
    rw [h₄.globals, hmadt]

/-- The rest of `init_apic`, once both records have been found. -/
theorem Driven.run_programIoapic (h : Driven image F s t) (hf : t.globals.freePages = page :: rest)
    (hlt : page < 0xFFC00) {head iso : Word} (hhead : t.run (Code.load (head + 4#32)) = .ok (p, t))
    (hbyte : ∀ k < 10, ∃ b, t.run (Code.loadByte (iso + BitVec.ofNat 32 k)) = .ok (b, t))
    (hword : ∃ w, t.run (Code.load (iso + 4#32)) = .ok (w, t)) (hp : p.toNat % 4096 + 0x14 ≤ 4096)
    (hF : frameOf p ∈ F) (hapart : image.Apart (frameOf p)) :
    ∃ u, t.run (programIoapic image head iso) = .ok ((), u) ∧ Driven image F s u := by
  have hmask : (0xFFFFF000#32 : Word) = ~~~0xFFF#32 := by decide
  have hpage : page < 1024 * 1024 := by omega
  obtain ⟨b₂, hb₂⟩ := hbyte 2 (by decide)
  obtain ⟨b₃, hb₃⟩ := hbyte 3 (by decide)
  obtain ⟨b₈, hb₈⟩ := hbyte 8 (by decide)
  obtain ⟨b₉, hb₉⟩ := hbyte 9 (by decide)
  obtain ⟨w, hw⟩ := hword
  have haligned : aligned 4096 (p &&& 0xFFFFF000#32) := hmask ▸ aligned_and_mask p
  obtain ⟨hor, hlow⟩ := page_or_low (aligned_pageAddr hpage) p
  obtain ⟨u, hr, hu, he⟩ := h.run_mapPage hf hlt haligned
  have hmaps : u.Maps (pageAddr page + (p &&& 0xFFF#32)) p := (hmask ▸ he).maps_self hpage
  have h₀ : Programs image F s (pageAddr page + (p &&& 0xFFF#32)) p u.globals u :=
    ⟨hu, hmaps, rfl, hF, hapart⟩
  obtain ⟨u₁, hr₁, h₁⟩ := h₀.run_redirectInterrupts hp
  obtain ⟨_, u₂, hr₂, h₂⟩ := h₁.run_readIoapicRegister hp 0x0#8
  obtain ⟨_, u₃, hr₃, h₃⟩ := h₂.run_readIoapicRegister hp 0x1#8
  obtain ⟨_, u₄, hr₄, h₄⟩ := h₃.run_readIoapicRegister hp 0x10#8
  obtain ⟨_, u₅, hr₅, h₅⟩ := h₄.run_readIoapicRegister hp 0x12#8
  refine ⟨u₅, ?_, h₅.driven⟩
  have hderef (l : Lookup) (q : Word) : t.run (Code.deref l q) = .ok ((), t) := rfl
  rw [programIoapic, Machine.run, Prog.run_bind_ok _ (hderef _ _), Prog.run_bind_ok _ hb₂,
    Prog.run_bind_ok _ hb₃, Prog.run_bind_ok _ hw, Prog.run_bind_ok _ hb₈, Prog.run_bind_ok _ hb₉,
    Prog.run_bind_ok _ (hderef _ _), Prog.run_bind_ok _ hhead,
    Prog.run_bind_ok _ (Paged.run_findFreeVirtaddr hf)]
  simp only [hor, hlow]
  rw [Prog.run_bind_ok _ hr, Prog.run_bind_ok _ hr₁, Prog.run_bind_ok _ hr₂, Prog.run_bind_ok _ hr₃,
    Prog.run_bind_ok _ hr₄, Prog.run_bind_ok _ hr₅]
  rfl

end Pages

end PekOS
