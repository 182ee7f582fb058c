import PekOS.RootTable
import PekOS.Searches
import PekOS.Demand

/-! `init_rsdt` as `kernel_main` calls it: after `init_page_allocation`, on the
root table the RSDP points to. -/

namespace PekOS

open OpTree FirstFit

/-- `init_rsdt` up to the mapping of the root table. -/
def findRoot : Code Word := do
  let rsdp ← findRSDP
  Code.modify fun g => { g with rsdp := rsdp }
  let rsdtPhysaddr ← findRSDT
  Code.modify fun g => { g with rsdtPhysaddr := rsdtPhysaddr }
  return rsdtPhysaddr

theorem initRsdt_eq (image : KernelImage) : initRsdt image = findRoot >>= mapRootTable image := by
  simp only [initRsdt, findRoot, Prog.bind_assoc, Prog.pure_eq, Prog.ret_bind]

/-- Neither memory nor what paging keeps in globals differs. -/
structure Machine.Alike (s t : Machine) : Prop where
  mem : t.mem = s.mem
  cr3 : t.cr3 = s.cr3
  globals : SamePaging s.globals t.globals

def Op.Finding : Op → Prop
  | .load _ | .loadByte _ | .deref _ _ => True
  | .globals f => ∀ g, SamePaging g (f g).2
  | _ => False

theorem Op.Searching.finding {o : Op} (h : o.Searching) : o.Finding := by
  cases o with
  | globals f =>
    intro g
    obtain ⟨_, _, hg⟩ := h g
    rw [hg]
    exact ⟨rfl, rfl, rfl, rfl⟩
  | load | loadByte => trivial
  | _ => exact h.elim

theorem findRoot_finding : Prog.All Op.Finding findRoot := by
  have hmodify {f : Globals → Globals} (h : ∀ g, SamePaging g (f g)) :
      Prog.All Op.Finding (Code.modify f) :=
    (Prog.all_perform.mpr h).bind fun _ => Prog.all_ret _
  have hload (a : Word) : Prog.All Op.Finding (Code.load a) := Prog.all_perform.mpr trivial
  have hbyte (a : Word) : Prog.All Op.Finding (Code.loadByte a) := Prog.all_perform.mpr trivial
  have hderef (l : Lookup) (p : Word) : Prog.All Op.Finding (Code.deref l p) :=
    Prog.all_perform.mpr trivial
  have hget (f : Globals → Word) : Prog.All Op.Finding (Code.get f) := Prog.all_perform.mpr fun _ =>
    ⟨rfl, rfl, rfl, rfl⟩
  have hrsdt : Prog.All Op.Finding findRSDT := by
    refine (hget _).bind fun rsdp => (hderef _ _).bind fun _ => (hbyte _).bind fun revision => ?_
    split
    · exact (hderef _ _).bind fun _ => hload _
    · exact (hderef _ _).bind fun _ => hload _
  refine (Searching.findRSDP.mono fun _ => Op.Searching.finding).bind fun _ => ?_
  have hrsdp (w : Word) : Prog.All Op.Finding (Code.modify fun g => { g with rsdp := w }) :=
    hmodify fun _ => ⟨rfl, rfl, rfl, rfl⟩
  have hphys (w : Word) : Prog.All Op.Finding (Code.modify fun g => { g with rsdtPhysaddr := w }) :=
    hmodify fun _ => ⟨rfl, rfl, rfl, rfl⟩
  exact (hrsdp _).bind fun _ => hrsdt.bind fun _ => (hphys _).bind fun _ => Prog.all_ret _

/-- What mapping the root table does: of the globals,
those of paging and those about the table are set. -/
def Op.MapsTables : Op → Prop
  | .load _ | .loadByte _ | .store _ _ | .allocated _ => True
  | .globals f => ∀ g, ∃ mmap i k rsdt xsdt entries, (f g).2 = { g with
      virtualMmap := mmap, curVirtaddrIdx := i, kernelPTIndex := k, rsdt := rsdt, xsdt :=
    xsdt, entries := entries }
  | _ => False

theorem Op.MapsPage.mapsTables {o : Op} (h : o.MapsPage) : o.MapsTables := by
  cases o with
  | globals f =>
    intro g
    obtain ⟨k, hk⟩ := h g
    exact ⟨_, _, k, _, _, _, hk⟩
  | load | store | allocated => trivial
  | _ => exact h.elim

theorem mapRootTable_all (image : KernelImage) (root : Word) :
    Prog.All Op.MapsTables (mapRootTable image root) := by
  have hget (f : Globals → Word) : Prog.All Op.MapsTables (Code.get f) :=
    Prog.all_perform.mpr fun _ => ⟨_, _, _, _, _, _, rfl⟩
  have hload (a : Word) : Prog.All Op.MapsTables (Code.load a) := Prog.all_perform.mpr trivial
  have hstore (a v : Word) : Prog.All Op.MapsTables (Code.store a v) := Prog.all_perform.mpr trivial
  have hmodify {f : Globals → Globals} (h : ∀ g, ∃ rsdt xsdt entries, f g = { g with
      rsdt := rsdt, xsdt := xsdt, entries := entries }) : Prog.All Op.MapsTables (Code.modify f) := by
    refine (Prog.all_perform.mpr fun g => ?_).bind fun _ => Prog.all_ret _
    obtain ⟨rsdt, xsdt, entries, hg⟩ := h g
    exact ⟨_, _, _, rsdt, xsdt, entries, hg⟩
  have hite {α : Type} {c : Prop} [Decidable c] {p q : Code α} (hp : Prog.All Op.MapsTables p)
      (hq : Prog.All Op.MapsTables q) : Prog.All Op.MapsTables (if c then p else q) := by
    split
    · exact hp
    · exact hq
  have hfree : Prog.All Op.MapsTables (Code.globals findFreeVirtaddr) := by
    refine Prog.all_perform.mpr fun g => ?_
    rw [findFreeVirtaddr]
    split
    · exact ⟨_, _, g.kernelPTIndex, g.rsdt, g.xsdt, g.entries, rfl⟩
    · exact ⟨g.virtualMmap, g.curVirtaddrIdx, g.kernelPTIndex, g.rsdt, g.xsdt, g.entries, rfl⟩
  have hmap (p v : Word) : Prog.All Op.MapsTables (mapPage image p v 3#32) :=
    (mapPage_all image p v 3#32).mono fun _ => Op.MapsPage.mapsTables
  have hbyte (a : Word) : Prog.All Op.MapsTables (Code.loadByte a) := Prog.all_perform.mpr trivial
  have hsignature (table : Word) : Prog.All Op.MapsTables (readSignature table) :=
    Prog.All.forUp (fun _ _ => (hbyte _).bind fun _ => Prog.all_ret _) 4 ()
  have hentries (table : Word) (stride n : Nat) :
      Prog.All Op.MapsTables (mapEntries image table stride n) :=
    Prog.All.forUp (fun _ _ => (hload _).bind fun _ => hfree.bind fun _ => (hmap _ _).bind fun _ =>
      (hstore _ _).bind fun _ => (hload _).bind fun _ => hsignature _) n ()
  refine hfree.bind fun page => (hmap _ _).bind fun _ =>
    ((hget _).bind fun _ => Prog.all_ret _).bind fun version => ?_
  refine hite ?_ ?_
  · exact (hmodify fun g => ⟨g.rsdt, _, g.entries, rfl⟩).bind fun _ => (hsignature _).bind fun _ =>
      (hload _).bind fun _ =>
      (hmodify fun g => ⟨g.rsdt, g.xsdt, _, rfl⟩).bind fun _ => hentries _ _ _
  · exact (hmodify fun g => ⟨_, g.xsdt, g.entries, rfl⟩).bind fun _ => (hsignature _).bind fun _ =>
      (hload _).bind fun _ =>
      (hmodify fun g => ⟨g.rsdt, g.xsdt, _, rfl⟩).bind fun _ => hentries _ _ _

/-- A global that neither `map_page` nor the mapping of the root table sets. -/
def Mapped {γ : Type} (field : Globals → γ) : Prop := ∀ g mmap i k rsdt xsdt entries, field { g with
  virtualMmap := mmap, curVirtaddrIdx := i, kernelPTIndex := k, rsdt := rsdt, xsdt :=
  xsdt, entries := entries } = field g

section Keeps

variable {γ : Type} {field : Globals → γ}

theorem keeps_of_mapsTables {α : Type} {p : Code α} (hfield : Mapped field)
    (h : Prog.All Op.MapsTables p) : Keeps field p := by
  refine h.mono fun o ho => ?_
  cases o with
  | globals f =>
    intro g
    obtain ⟨_, _, _, _, _, _, hg⟩ := ho g
    rw [hg]
    exact hfield g _ _ _ _ _ _
  | _ => trivial

theorem keeps_of_mapsPage {α : Type} {p : Code α} (hfield : Mapped field)
    (h : Prog.All Op.MapsPage p) : Keeps field p :=
  keeps_of_mapsTables hfield (h.mono fun _ => Op.MapsPage.mapsTables)

theorem mapPage_keeps (hfield : Mapped field) (image : KernelImage) (p v flags : Word) :
    Keeps field (mapPage image p v flags) :=
  keeps_of_mapsPage hfield (mapPage_all image p v flags)

theorem mapRootTable_keeps (hfield : Mapped field) (image : KernelImage) (root : Word) :
    Keeps field (mapRootTable image root) :=
  keeps_of_mapsTables hfield (mapRootTable_all image root)

end Keeps

theorem mapped_acpiVersion : Mapped Globals.acpiVersion := fun _ _ _ _ _ _ _ => rfl

theorem mapped_curPhysaddr : Mapped Globals.curPhysaddr := fun _ _ _ _ _ _ _ => rfl

theorem mapped_rsdp : Mapped Globals.rsdp := fun _ _ _ _ _ _ _ => rfl

theorem pageFaultHandler_keepsVersion (image : KernelImage) (v ec : Word) :
    Keeps Globals.acpiVersion (pageFaultHandler image v ec) := by
  have hhalt : Keeps Globals.acpiVersion exceptionHandler := Prog.all_perform.mpr trivial
  have hframe : Keeps Globals.acpiVersion (Code.globals findFreePhysaddr) := by
    refine Prog.all_perform.mpr fun g => ?_
    rw [findFreePhysaddr]
  have hmap (p : Word) := mapPage_keeps mapped_acpiVersion image p v 3#32
  unfold pageFaultHandler
  split
  · exact hhalt
  · split
    · exact hhalt
    · split
      · exact (keeps_of_mapsPage mapped_acpiVersion (allocatePt_all image)).bind hmap
      · exact hframe.bind hmap

section Image

variable {image : KernelImage} {s₀ s : Machine} {root : Word}

theorem alike_of_findRoot (hr : s₀.run findRoot = .ok (root, s)) : s₀.Alike s := by
  refine Prog.All.run_inv (P := Op.Finding) findRoot_finding (I := fun t => s₀.Alike t)
    (fun o t x ho hx ht => ?_) hr
    ⟨rfl, rfl, rfl, rfl, rfl, rfl⟩
  cases o with
  | load a => exact state_of_load hx ▸ ht
  | loadByte a => exact state_of_loadByte hx ▸ ht
  | deref l p =>
    cases hx
    exact ht
  | globals f =>
    have hg := ho t.globals
    cases hx
    exact ⟨ht.mem, ht.cr3, hg.virtualMmap.trans ht.globals.virtualMmap,
      hg.curVirtaddrIdx.trans ht.globals.curVirtaddrIdx, hg.kernelPTIndex.trans ht.globals.kernelPTIndex,
      hg.curPhysaddr.trans ht.globals.curPhysaddr⟩
  | _ => exact ho.elim

theorem Paged.of_alike (h : Paged image s₀) (ha : s₀.Alike s) : Paged image s :=
  h.of_sameTables ⟨ha.cr3, fun _ _ i => by rw [ha.mem]⟩ ha.globals.virtualMmap ha.globals.curVirtaddrIdx
    ha.globals.kernelPTIndex

theorem Booted.servedPage_le (hb : Booted image s₀) {k : Nat} (hk : k ≤ 1023) :
    k < s₀.globals.freePages.length ∧ s₀.servedPage k ≤ 0xC0400 + k := by
  have hmem : ∀ j ≤ k, 0xC0400 + j ∈ s₀.globals.freePages := fun j hj =>
    hb.mem_freePages (by omega) (by omega)
  obtain ⟨hlen, hle⟩ := getElem_le_of_mem (pairwise_free _ _ _) hmem
  exact ⟨hlen, (Machine.servedPage_eq hlen).trans_le hle⟩

theorem RootTable.rootCount_le (h : RootTable image s root) : s.rootCount root ≤ 1015 := by
  have hlen := h.length
  have hin := h.inPage
  rw [h.rootCount_eq]
  rcases stride_cases s.globals with hs | hs <;> rw [hs] <;> omega

theorem acpiVersion_of_initRsdt {n : Nat} {t : Machine} (hfind : s₀.run findRoot = .ok (root, s))
    (hr : Ran image n (initRsdt image) s₀ () t) : t.globals.acpiVersion = s.globals.acpiVersion := by
  rw [initRsdt_eq, Ran, Prog.run_bind_ok _ (ran_of_run hfind)] at hr
  exact Machine.run_keeps_of (pageFaultHandler_keepsVersion image)
    (mapRootTable_keeps mapped_acpiVersion image root) hr

theorem Mapped.of_initRsdt {γ : Type} {field : Globals → γ} (hfield : Mapped field) {t : Machine}
    (hfind : s₀.run findRoot = .ok (root, s)) (hr : s₀.run (initRsdt image) = .ok ((), t)) :
    field t.globals = field s.globals := by
  rw [initRsdt_eq, Machine.run, Prog.run_bind_ok _ hfind] at hr
  exact (mapRootTable_keeps hfield image root).run_inv (I := fun u => field u.globals = field s.globals)
    (fun _ _ _ ho hx hu => (Machine.exec_keeps ho hx).trans hu) hr rfl

theorem cpu_of_initRsdt {t : Machine} (hfind : s₀.run findRoot = .ok (root, s))
    (hr : s₀.run (initRsdt image) = .ok ((), t)) : t.cpuidEdx = s.cpuidEdx ∧ t.apicBase = s.apicBase := by
  rw [initRsdt_eq, Machine.run, Prog.run_bind_ok _ hfind] at hr
  refine (mapRootTable_all image root).run_inv (I := fun u => u.cpuidEdx = s.cpuidEdx ∧
    u.apicBase = s.apicBase) (fun o u x ho hx hu =>
    ⟨(Machine.exec_cpuidEdx hx).trans hu.1, (Machine.exec_apicBase (fun w he => ?_) hx).trans hu.2⟩)
    hr ⟨rfl, rfl⟩
  rw [he] at ho
  exact ho

/-- A run without a page fault takes no frame. -/
theorem Booted.curPhysaddr_of_initRsdt (hb : Booted image s₀) {t : Machine}
    (hfind : s₀.run findRoot = .ok (root, s)) (hr : s₀.run (initRsdt image) = .ok ((), t)) :
    t.globals.curPhysaddr = 0x10000000#32 := by
  obtain ⟨m, -, hi⟩ := hb.initialised
  rw [mapped_curPhysaddr.of_initRsdt hfind hr, (alike_of_findRoot hfind).globals.curPhysaddr,
    hi.curPhysaddr]

theorem Machine.Alike.walk (h : s₀.Alike s) : s.walk = s₀.walk := by
  funext d i
  rw [Machine.walk, Machine.walk, Machine.pte, Machine.pte, Machine.pde, Machine.pde, h.mem, h.cr3]

theorem Machine.Alike.servedPage (h : s₀.Alike s) (k : Nat) : s.servedPage k = s₀.servedPage k := by
  rw [Machine.servedPage, Machine.servedPage, h.globals.freePages]

theorem Booted.enough_of_le (hb : Booted image s₀) (ha : s₀.Alike s) {n : Nat} (hn : n ≤ 1023) :
    Enough s n := by
  intro k hk
  obtain ⟨hlen, hle⟩ := hb.servedPage_le (k := k) (by omega)
  rw [ha.servedPage, ha.globals.freePages]
  exact ⟨hlen, by omega⟩

theorem Booted.enough (hb : Booted image s₀) (ha : s₀.Alike s) (ht : RootTable image s root) :
    Enough s (s.rootCount root) :=
  hb.enough_of_le ha (ht.rootCount_le.trans (by decide))

theorem run_initRsdt_eq (hb : Booted image s₀) (hfind : s₀.run findRoot = .ok (root, s))
    (ht : RootTable image s root) :
    ∃ u, s₀.run (initRsdt image) =
      u.run (mapEntries image (s.rootTable root) s.globals.stride (s.rootCount root)) ∧
      Rewritten image s root 0 u := by
  have ha := alike_of_findRoot hfind
  obtain ⟨u, hu, hinit⟩ := run_mapRootTable (hb.paged.of_alike ha) ht (hb.enough_of_le ha (Nat.zero_le _))
  refine ⟨u, ?_, hinit⟩
  rw [initRsdt_eq, Machine.run, Prog.run_bind_ok _ hfind, ← Machine.run, hu]

/-- The signature of every listed table lies in one page, as the root table does. -/
structure Placed (image : KernelImage) (s : Machine) (root : Word) : Prop
    extends RootTable image s root where
  signatures : ∀ i < s.rootCount root, (s.rootEntry root i).toNat % 4096 + 4 ≤ 4096

theorem run_initRsdt (hb : Booted image s₀) (hfind : s₀.run findRoot = .ok (root, s))
    (hp : Placed image s root) :
    ∃ t, s₀.run (initRsdt image) = .ok ((), t) ∧ Rewritten image s root (s.rootCount root) t := by
  obtain ⟨u, hu, hinit⟩ := run_initRsdt_eq hb hfind hp.toRootTable
  rw [hu]
  exact run_mapEntries hinit hp.toRootTable (hb.enough (alike_of_findRoot hfind) hp.toRootTable)
    hp.signatures

end Image

end PekOS
