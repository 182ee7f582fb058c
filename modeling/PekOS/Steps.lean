import PekOS.Invariant
import PekOS.WindowPages
import PekOS.Library.Runs

/-! What each step of a run does under the invariant, as an equation, and what
becomes of the translations. -/

namespace PekOS

open OpTree FirstFit

variable {image : KernelImage} {s t : Machine}

theorem run_mapPhysaddr {p : Word} (h : s.takePage.run (mapPage image p s.nextPage 3#32) = .ok ((), t)) :
    s.run (mapPhysaddr image p) = .ok (s.nextPage, t) := by
  rw [Machine.run, mapPhysaddr, Prog.run_bind_ok Machine.exec (Machine.run_globals _),
    ← Machine.nextPage, ← Machine.takePage, Prog.run_bind_ok Machine.exec h, Prog.pure_eq, Prog.run_ret]

theorem Tables.takePage (h : Tables image s) : Tables image s.takePage :=
  h.of_mem (Machine.takePage_cr3 s) (Machine.takePage_mem s) (Machine.takePage_kernelPTIndex s)

theorem WellFormed.takePage (h : WellFormed image s) : WellFormed image s.takePage :=
  h.of_mem (Machine.takePage_cr3 s) (Machine.takePage_mem s) (Machine.takePage_kernelPTIndex s)

theorem Tables.takeFrame (h : Tables image s) : Tables image s.takeFrame :=
  h.of_mem (Machine.takeFrame_cr3 s) (Machine.takeFrame_mem s) (Machine.takeFrame_kernelPTIndex s)

theorem WellFormed.takeFrame (h : WellFormed image s) : WellFormed image s.takeFrame :=
  h.of_mem (Machine.takeFrame_cr3 s) (Machine.takeFrame_mem s) (Machine.takeFrame_kernelPTIndex s)

theorem TableLeft.takePage (hk : TableLeft s) : TableLeft s.takePage := by
  rwa [TableLeft, Machine.takePage_kernelPTIndex]

theorem TableLeft.takeFrame (hk : TableLeft s) : TableLeft s.takeFrame := by
  rwa [TableLeft, Machine.takeFrame_kernelPTIndex]

/-! Taking a page or a frame does not touch the tables. -/

theorem pde_takePage (s : Machine) (d : Index) : s.takePage.pde d = s.pde d := by
  rw [Machine.pde, Machine.takePage_mem, Machine.takePage_cr3, Machine.pde]

theorem pde_takeFrame (s : Machine) (d : Index) : s.takeFrame.pde d = s.pde d := by
  rw [Machine.pde, Machine.takeFrame_mem, Machine.takeFrame_cr3, Machine.pde]

theorem walk_takePage (s : Machine) : s.takePage.walk = s.walk := by
  funext d i
  exact Machine.walk_congr (pde_takePage s d) fun _ => by
    rw [Machine.pte, Machine.takePage_mem, pde_takePage, Machine.pte]

theorem walk_takeFrame (s : Machine) : s.takeFrame.walk = s.walk := by
  funext d i
  exact Machine.walk_congr (pde_takeFrame s d) fun _ => by
    rw [Machine.pte, Machine.takeFrame_mem, pde_takeFrame, Machine.pte]

theorem Tables.run_mapPhysaddr (h : Tables image s) (p : Word)
    (hk : present (s.pde (dirOf s.nextPage)) = false → TableLeft s) :
    s.run (mapPhysaddr image p) = .ok (s.nextPage, s.takePage.afterMap image p s.nextPage 3#32) :=
  PekOS.run_mapPhysaddr (h.takePage.run_mapPage p s.nextPage 3#32 fun hd =>
    (hk (by rwa [pde_takePage] at hd)).takePage)

theorem Tables.run_fault_page (h : Tables image s) {v ec : Word} (hec : Resumable ec)
    (hv : dirOf v ≠ selfDir) (hk : present (s.pde (dirOf v)) = false → TableLeft s) :
    s.run (pageFaultHandler image v ec) =
      .ok ((), s.takeFrame.afterMap image s.globals.curPhysaddr v 3#32) := by
  have hrun := h.takeFrame.run_mapPage s.globals.curPhysaddr v 3#32 fun hd =>
    (hk (by rwa [pde_takeFrame] at hd)).takeFrame
  rw [Machine.pageFaultHandler_page hec hv, Machine.run,
    Prog.run_bind_ok Machine.exec (Machine.run_globals _), ← Machine.takeFrame]
  exact hrun

theorem Tables.run_fault_window (h : Tables image s) {v ec : Word} (hec : Resumable ec)
    (hv : dirOf v = selfDir) (hn : s.walk (dirOf v) (tabOf v) = none) :
    s.run (pageFaultHandler image v ec) = .ok ((), s.windowFault image (tabOf v)) := by
  have hs := h.editable
  have ht : s.takeTable.Editable := hs.of_pde rfl rfl
  have hd : present (s.takeTable.pde (dirOf v)) = true := hv ▸ hs.present
  have hp : present (s.takeTable.pte (dirOf v) (tabOf v)) = false :=
    Machine.present_pte_of_walk hd hn
  rw [Machine.pageFaultHandler_window hec hv, Machine.run,
    Prog.run_bind_ok Machine.exec (hs.run_allocatePt image)]
  have hrun := ht.run_mapPage_present image (s.nextTable image) v 3#32 hd
  rw [if_neg (by rw [hp]; exact Bool.false_ne_true), ht.run_store_pte hd (hv ▸ hs.writable)] at hrun
  rw [← Machine.run, hrun, hv, ht.frame, show 3#32 &&& 0xFFF#32 = 3#32 by decide]
  rfl

theorem WellFormed.run_fault_window (h : WellFormed image s) (hk : TableLeft s) {v ec : Word}
    (hec : Resumable ec) (hv : dirOf v = selfDir) (hn : s.walk (dirOf v) (tabOf v) = none) :
    s.run (pageFaultHandler image v ec) = .ok ((), s.newTable image (tabOf v)) := by
  rw [h.toTables.run_fault_window hec hv hn, h.windowFault_eq hk]

/-! Translations. -/

theorem Tables.walk_afterMap (h : Tables image s) {p v : Word} (hp : aligned 4096 p)
    (hv : dirOf v ≠ selfDir) (hk : present (s.pde (dirOf v)) = false → TableLeft s) :
    (s.afterMap image p v 3#32).walk =
      enter (fun d i => if present (s.pde (dirOf v)) = false ∧ d = selfDir ∧ i = dirOf v then
        some ⟨frameOf (s.nextTable image), true⟩ else s.walk d i) (dirOf v) (tabOf v) ⟨frameOf p, true⟩ :=
  h.editable.walk_afterMap h.distinct hp hv (by decide) (h.writable _)
    fun hd => h.unused_nextTable (hk hd)

theorem Tables.walk_newTable (h : Tables image s) (hk : TableLeft s) {d : Index}
    (hd : present (s.pde d) = false) :
    (s.newTable image d).walk = enter s.walk selfDir d ⟨frameOf (s.nextTable image), true⟩ := by
  funext d' i
  rw [h.editable.walk_newTable h.distinct (h.unused_nextTable hk) hd]
  by_cases he : d' = selfDir ∧ i = d
  · have hnone : s.walk selfDir d = none := by
      rw [h.editable.walk_window, hd, if_neg Bool.false_ne_true]
    rw [if_pos he, he.1, he.2, enter_same, hnone, Option.getD_none]
  · rw [if_neg he, enter_of_ne _ _ he]

theorem Tables.walk_afterMap_of_mapped (h : Tables image s) {p v : Word} (hp : aligned 4096 p)
    (hv : dirOf v ≠ selfDir) (hk : present (s.pde (dirOf v)) = false → TableLeft s) {d i : Index}
    (hm : s.walk d i ≠ none) : (s.afterMap image p v 3#32).walk d i = s.walk d i := by
  have hold : ¬ (present (s.pde (dirOf v)) = false ∧ d = selfDir ∧ i = dirOf v) := by
    rintro ⟨hd, rfl, rfl⟩
    rw [h.editable.walk_window, hd] at hm
    exact hm rfl
  rw [h.walk_afterMap hp hv hk]
  by_cases he : d = dirOf v ∧ i = tabOf v
  · have hold' : ¬ (present (s.pde (dirOf v)) = false ∧ dirOf v = selfDir ∧ tabOf v = dirOf v) :=
      fun h => hv h.2.1
    obtain ⟨rfl, rfl⟩ := he
    obtain ⟨m, hm'⟩ := Option.ne_none_iff_exists'.mp hm
    rw [enter_same, if_neg hold', hm', Option.getD_some]
  · rw [enter_of_ne _ _ he, if_neg hold]

theorem Tables.walk_afterMap_self (h : Tables image s) {p v : Word} (hp : aligned 4096 p)
    (hv : dirOf v ≠ selfDir) (hk : present (s.pde (dirOf v)) = false → TableLeft s) :
    (s.afterMap image p v 3#32).walk (dirOf v) (tabOf v) =
      some ((s.walk (dirOf v) (tabOf v)).getD ⟨frameOf p, true⟩) := by
  have hold : ¬ (present (s.pde (dirOf v)) = false ∧ dirOf v = selfDir ∧ tabOf v = dirOf v) :=
    fun h => hv h.2.1
  rw [h.walk_afterMap hp hv hk, enter_same, if_neg hold]

/-- The pages `map_page` can have added. -/
theorem Tables.walk_afterMap_new (h : Tables image s) {p v : Word} (hp : aligned 4096 p)
    (hv : dirOf v ≠ selfDir) (hk : present (s.pde (dirOf v)) = false → TableLeft s) {d i : Index}
    (hn : s.walk d i = none) (hm : (s.afterMap image p v 3#32).walk d i ≠ none) :
    (d = dirOf v ∧ i = tabOf v) ∨ (d = selfDir ∧ i = dirOf v ∧ present (s.pde (dirOf v)) = false) := by
  rw [h.walk_afterMap hp hv hk] at hm
  by_cases he : d = dirOf v ∧ i = tabOf v
  · exact Or.inl he
  · rw [enter_of_ne _ _ he] at hm
    by_cases hw : present (s.pde (dirOf v)) = false ∧ d = selfDir ∧ i = dirOf v
    · exact Or.inr ⟨hw.2.1, hw.2.2, hw.1⟩
    · rw [if_neg hw] at hm
      exact absurd hn hm

theorem Tables.walk_afterMap_window (h : Tables image s) {p v : Word} (hp : aligned 4096 p)
    (hv : dirOf v ≠ selfDir) (hk : TableLeft s) (hd : present (s.pde (dirOf v)) = false) :
    (s.afterMap image p v 3#32).walk selfDir (dirOf v) = some ⟨frameOf (s.nextTable image), true⟩ := by
  rw [h.walk_afterMap hp hv fun _ => hk, enter_of_ne _ _ fun h => hv h.1.symm, if_pos ⟨hd, rfl, rfl⟩]

/-! The globals `map_page` leaves alone. -/

theorem afterMap_globals (p v flags : Word) :
    (s.afterMap image p v flags).globals =
      if present (s.pde (dirOf v)) then s.globals else s.takeTable.globals := by
  unfold Machine.afterMap
  split
  · split <;> rfl
  · rfl

theorem afterMap_bitmap (image : KernelImage) (s : Machine) (p v flags : Word) :
    (s.afterMap image p v flags).globals.virtualMmap = s.globals.virtualMmap ∧
      (s.afterMap image p v flags).globals.curVirtaddrIdx = s.globals.curVirtaddrIdx ∧
      (s.afterMap image p v flags).globals.curPhysaddr = s.globals.curPhysaddr := by
  rw [afterMap_globals]
  split
  · exact ⟨rfl, rfl, rfl⟩
  · exact ⟨rfl, rfl, rfl⟩

end PekOS
