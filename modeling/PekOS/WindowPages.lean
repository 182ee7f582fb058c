import PekOS.Kernel

/-! Pages of the recursive window in the bitmap: their bits are the present
bits of the directory, so the page of an absent directory entry is served like
any other free page once the pages below the window have run out. -/

namespace PekOS

open OpTree FirstFit

theorem dirOf_pageAddr {page : Nat} (h : page < 1024 * 1024) :
    dirOf (pageAddr page) = BitVec.ofNat 10 (page / 1024) := by
  apply BitVec.eq_of_toNat_eq
  rw [dirOf_toNat, pageAddr_toNat h, BitVec.toNat_ofNat]
  omega

theorem tabOf_pageAddr {page : Nat} (h : page < 1024 * 1024) :
    tabOf (pageAddr page) = BitVec.ofNat 10 page := by
  apply BitVec.eq_of_toNat_eq
  rw [tabOf_toNat, pageAddr_toNat h, BitVec.toNat_ofNat]
  omega

namespace Machine

/-- The pages from 0xC0000000 up to the window that the tables do not map. -/
def absentBelowWindow (s : Machine) : Nat := (free s.mapped 0xC0000 0xFFC00).length

variable {s : Machine}

theorem mapped_window (s : Machine) (d : Index) :
    s.mapped (0xFFC00 + d.toNat) = (s.walk selfDir d).isSome := by
  have hd := d.isLt
  have h₁ : BitVec.ofNat 10 ((0xFFC00 + d.toNat) / 1024) = selfDir := by
    apply BitVec.eq_of_toNat_eq
    rw [BitVec.toNat_ofNat, selfDir, BitVec.toNat_ofNat]
    omega
  have h₂ : BitVec.ofNat 10 (0xFFC00 + d.toNat) = d := by
    apply BitVec.eq_of_toNat_eq
    rw [BitVec.toNat_ofNat]
    omega
  rw [mapped, h₁, h₂]

theorem SelfMapped.mapped_window (hs : s.SelfMapped) (d : Index) :
    s.mapped (0xFFC00 + d.toNat) = PekOS.present (s.pde d) := by
  rw [Machine.mapped_window, hs.walk_window]
  cases PekOS.present (s.pde d) <;> rfl

theorem SelfMapped.window_full_iff (hs : s.SelfMapped) :
    (∀ page, 0xFFC00 ≤ page → page < 1024 * 1024 → s.mapped page = true) ↔
      ∀ d, PekOS.present (s.pde d) = true := by
  constructor
  · intro h d
    have hd := d.isLt
    rw [← hs.mapped_window]
    exact h _ (by omega) (by omega)
  · intro h page hlo hhi
    have hd := h (BitVec.ofNat 10 (page - 0xFFC00))
    rw [← hs.mapped_window, BitVec.toNat_ofNat, Nat.mod_eq_of_lt (by omega)] at hd
    rwa [show 0xFFC00 + (page - 0xFFC00) = page by omega] at hd

end Machine

/-- The page an address lies in is outside the window, and so is the entry
`map_page` fills in for it outside the directory. -/
def BelowWindow (v : Word) : Prop :=
  v.toNat < 0xFFC00000 ∧ (pteAddr (dirOf v) (tabOf v)).toNat < 0xFFFFF000

theorem belowWindow_iff (v : Word) : BelowWindow v ↔ v.toNat < 0xFFC00000 := by
  have hv := v.isLt
  have ht := (tabOf v).isLt
  have hd := dirOf_toNat v
  unfold BelowWindow
  rw [pteAddr_toNat]
  omega

theorem belowWindow_pageAddr {page : Nat} (h : page < 1024 * 1024) :
    BelowWindow (pageAddr page) ↔ page < 0xFFC00 := by
  rw [belowWindow_iff, pageAddr_toNat h]
  omega

theorem findFreeVirtaddrs_belowWindow_iff {g : Globals} (hc : g.curVirtaddrIdx = 768 * 32) (n : Nat) :
    (∀ v ∈ findFreeVirtaddrs n g, BelowWindow v) ↔
      n ≤ (free (marked g.virtualMmap) 0xC0000 0xFFC00).length ∨
        ∀ page, 0xFFC00 ≤ page → page < 1024 * 1024 → marked g.virtualMmap page = true := by
  have hfree : g.freePages = free (marked g.virtualMmap) 0xC0000 (1024 * 1024) := by
    rw [Globals.freePages, hc]
  have hq : (∀ v ∈ findFreeVirtaddrs n g, BelowWindow v) ↔ ∀ q ∈ g.freePages.take n, q < 0xFFC00 := by
    rw [findFreeVirtaddrs_eq]
    constructor
    · intro h q hq
      have hlt := (mem_free.mp (hfree ▸ List.mem_of_mem_take hq)).2.1
      exact (belowWindow_pageAddr hlt).mp
        (h _ (List.mem_map.mpr ⟨some q, some_mem_served.mpr hq, rfl⟩))
    · intro h v hv
      obtain ⟨r, hr, rfl⟩ := List.mem_map.mp hv
      cases r with
      | none => exact (belowWindow_iff _).mpr (by decide)
      | some q =>
        have hq := some_mem_served.mp hr
        have hlt := (mem_free.mp (hfree ▸ List.mem_of_mem_take hq)).2.1
        exact (belowWindow_pageAddr hlt).mpr (h q hq)
  rw [hq, hfree]
  exact take_lt_iff (by decide) (by decide)

/-- When the pages served stay out of the window: as long as the pages below
it last, or for ever if every directory entry was present. -/
theorem findFreeVirtaddr_avoids_window_iff (s : Machine) (hs : s.SelfMapped)
    (hc : s.globals.curVirtaddrIdx = 768 * 32) :
    ∃ t, s.run initPageAllocation = .ok ((), t) ∧ ∀ n,
      (∀ v ∈ findFreeVirtaddrs n t.globals, BelowWindow v) ↔
        n ≤ s.absentBelowWindow ∨ ∀ d, present (s.pde d) = true := by
  obtain ⟨m, hr, hm⟩ := hs.run_mapVirtualMemory
  refine ⟨s.withMmap m, hr, fun n => ?_⟩
  have hfull : (∀ page, 0xFFC00 ≤ page → page < 1024 * 1024 → marked m page = true) ↔
      ∀ page, 0xFFC00 ≤ page → page < 1024 * 1024 → s.mapped page = true :=
    forall_congr' fun page => forall_congr' fun _ => forall_congr' fun hlt => by rw [hm page hlt]
  have hbelow : free (marked m) 0xC0000 0xFFC00 = free s.mapped 0xC0000 0xFFC00 :=
    free_congr fun page _ hlt => hm page (by omega)
  rw [findFreeVirtaddrs_belowWindow_iff (by exact hc), ← hs.window_full_iff]
  simp only [Machine.withMmap_globals, hfull, hbelow, Machine.absentBelowWindow]

theorem findFreeVirtaddr_avoids_window_iff_booted : ∃ s, start alignedImage zeroMachine = .ok ((), s) ∧
    ∃ t, s.run initPageAllocation = .ok ((), t) ∧ ∀ n,
      (∀ v ∈ findFreeVirtaddrs n t.globals, BelowWindow v) ↔
        n ≤ s.absentBelowWindow ∨ ∀ d, present (s.pde d) = true := by
  obtain ⟨s, hr, hs⟩ := start_eq (loaded_zeroMachine alignedImage)
  refine ⟨s, hr, findFreeVirtaddr_avoids_window_iff s hs.kernelMapped.editable.toSelfMapped ?_⟩
  rw [hs.globals]
  rfl

/-- From the state boot leaves, 0x40000 calls are enough to reach the window. -/
theorem findFreeVirtaddr_serves_window : ∃ s t, start alignedImage zeroMachine = .ok ((), s) ∧
    s.run initPageAllocation = .ok ((), t) ∧
    ¬ ∀ v ∈ findFreeVirtaddrs 0x40000 t.globals, BelowWindow v := by
  obtain ⟨s, hr, hs⟩ := start_eq (loaded_zeroMachine alignedImage)
  obtain ⟨t, ht, hi⟩ := hs.run_initPageAllocation
  refine ⟨s, t, hr, ht, fun h => ?_⟩
  rcases (findFreeVirtaddrs_belowWindow_iff hi.curVirtaddrIdx _).mp h with hle | hall
  · have hlen : (free (marked t.globals.virtualMmap) 0xC0000 0xFFC00).length ≤ 0xFFC00 - 0xC0000 :=
      (List.length_filter_le _ _).trans (by rw [List.length_range'])
    omega
  · -- entry 0 is absent, so the first page of the window is clear
    have h0 := hall 0xFFC00 (by omega) (by omega)
    rw [hi.bitmap _ (by omega)] at h0
    have hp := (hi.kernelMapped.editable.mapped_window 0#10).symm.trans h0
    exact absurd (hi.present_pde_iff.mp hp) (by decide)

end PekOS
