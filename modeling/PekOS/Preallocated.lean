import PekOS.Steps

/-! `allocate_pt` over runs of `map_page` and `page_fault_handler`: which page
tables are handed out, for any link of the kernel. -/

namespace PekOS

open OpTree

inductive Call
  | mapPage (p v flags : Word)
  | pageFault (v ec : Word)

def Call.code (image : KernelImage) : Call → Code Unit
  | .mapPage p v flags => PekOS.mapPage image p v flags
  | .pageFault v ec => pageFaultHandler image v ec

def runCalls (image : KernelImage) : List Call → Code Unit
  | [] => return ()
  | c :: cs => c.code image >>= fun _ => runCalls image cs

/-- The address `allocate_pt` returns, in the operation that marks the place. -/
def Op.table : Op → Option Word
  | .allocated p => some p
  | _ => none

/-- The addresses `allocate_pt` returned, in order. -/
abbrev Machine.tables {α : Type} (s : Machine) (p : Code α) : List Word :=
  Prog.notes Machine.exec Op.table p s

/-- Page tables of `kernel_PTs`, each handed out once: `p ||| 3` names the frame at `p`. -/
structure Preallocated (image : KernelImage) (l : List Word) : Prop where
  aligned : ∀ p ∈ l, aligned 4096 p
  inside : ∀ p ∈ l, (image.kernelPTs - kernelMapStart).toNat ≤ p.toNat ∧
    p.toNat + 4096 ≤ (image.kernelPTs - kernelMapStart).toNat + 256 * 4096
  apart : l.Pairwise fun p q => p.toNat + 4096 ≤ q.toNat ∨ q.toNat + 4096 ≤ p.toNat
  entered : ∀ p ∈ l, (frameOf (p ||| 3#32)).toNat * 4096 = p.toNat

namespace Machine

variable (s : Machine)

/-- Whether a call takes a page table. -/
def Takes : Call → Prop
  | .mapPage _ v _ => PekOS.present (s.pde (dirOf v)) = false
  | .pageFault v ec => Resumable ec ∧ (dirOf v = selfDir ∨ PekOS.present (s.pde (dirOf v)) = false)

/-- Every call of a run that takes a page table finds one left, in an array
that starts at a page. -/
def Meets (image : KernelImage) (s : Machine) : List Call → Prop
  | [] => True
  | c :: cs => (s.Takes c → image.PageAligned ∧ TableLeft s) ∧
    ∀ t, s.run (c.code image) = .ok ((), t) → Meets image t cs

/-- Code in which `allocate_pt` does not return. -/
abbrev Quiet {α : Type} (p : Code α) : Prop := Prog.All (fun o => o.table = none) p

theorem quiet_load (a : Word) : Quiet (Code.load a) := Prog.all_perform.mpr rfl

theorem quiet_store (a v : Word) : Quiet (Code.store a v) := Prog.all_perform.mpr rfl

theorem quiet_getPhysaddr (a : Word) : Quiet (getPhysaddr a) := by
  unfold getPhysaddr
  refine (quiet_load _).bind fun pde => ?_
  split
  · trivial
  · refine (quiet_load _).bind fun pte => ?_
    split
    · trivial
    · exact (quiet_load _).bind fun _ => trivial

variable {s : Machine} {image : KernelImage}

theorem tables_bind {α β : Type} {p : Code α} {f : α → Code β} {t : Machine} {a : α}
    (h : s.run p = .ok (a, t)) : s.tables (p >>= f) = s.tables p ++ t.tables (f a) :=
  Prog.notes_bind_ok exec Op.table h

theorem tables_quiet {α : Type} {p : Code α} (h : Quiet p) : s.tables p = [] :=
  Prog.notes_eq_nil exec Op.table h s

theorem SelfMapped.tables_allocatePt (hs : s.SelfMapped) :
    s.tables (allocatePt image) = [s.nextTable image] := by
  unfold allocatePt
  rw [tables_bind (hs.run_getPhysaddr _), tables_quiet (quiet_getPhysaddr _), List.nil_append]
  rfl

theorem SelfMapped.tables_createPt (hs : s.SelfMapped) (pdindex : Word) :
    s.tables (createPt image pdindex) = [s.nextTable image] := by
  unfold createPt
  rw [tables, Prog.notes_bind_left]
  · exact hs.tables_allocatePt
  · intro p
    exact (quiet_store _ _).bind fun _ => Prog.All.forUp (fun i _ => quiet_store _ _) 1024 ()

theorem SelfMapped.tables_mapPage (hs : s.SelfMapped) (p v flags : Word) :
    s.tables (mapPage image p v flags) =
      if PekOS.present (s.pde (dirOf v)) = true then [] else [s.nextTable image] := by
  unfold mapPage
  simp only [shiftRight_eq_dirOf, pd_add_eq_pteAddr, ite_and_one]
  rw [tables_bind (hs.run_load_pde (dirOf v)), tables_quiet (quiet_load _), List.nil_append,
    tables, Prog.notes_bind_left]
  · split
    · rfl
    · exact hs.tables_createPt _
  · intro _
    refine (quiet_load _).bind fun pte => ?_
    split
    · trivial
    · exact quiet_store _ _

end Machine

variable {image : KernelImage} {s t : Machine} {c : Call}

theorem tables_halt (v : Word) {ec : Word} (hec : ¬ Resumable ec) :
    s.tables (pageFaultHandler image v ec) = [] := by
  have htr := (Machine.run_pageFaultHandler_halt image s v hec).2
  rw [Machine.trace] at htr
  rw [Machine.tables, Prog.notes, htr]
  rfl

namespace KernelMapped

theorem takeTable (h : KernelMapped image s) : KernelMapped image s.takeTable :=
  h.of_mem rfl rfl

theorem takeFrame (h : KernelMapped image s) : KernelMapped image s.takeFrame :=
  h.of_mem (Machine.takeFrame_cr3 s) (Machine.takeFrame_mem s)

/-- The two ways a call takes a page table, and the ways it does not. -/
theorem tables_call (h : KernelMapped image s) (c : Call) :
    (s.Takes c ∧ s.tables (c.code image) = [image.tableAddr s.globals.kernelPTIndex.toNat]) ∨
      (¬ s.Takes c ∧ s.tables (c.code image) = []) := by
  have hs := h.editable.toSelfMapped
  have hsf := h.takeFrame.editable.toSelfMapped
  cases c with
  | mapPage p v flags =>
    have hm : s.tables (mapPage image p v flags) = _ := hs.tables_mapPage p v flags
    by_cases hd : present (s.pde (dirOf v)) = true
    · rw [if_pos hd] at hm
      exact Or.inr ⟨fun ht => by simp [Machine.Takes, hd] at ht, hm⟩
    · rw [if_neg hd, h.nextTable] at hm
      exact Or.inl ⟨Bool.eq_false_iff.mpr hd, hm⟩
  | pageFault v ec =>
    by_cases hec : Resumable ec
    · by_cases hv : dirOf v = selfDir
      · refine Or.inl ⟨⟨hec, Or.inl hv⟩, ?_⟩
        have hm : s.takeTable.tables (mapPage image (s.nextTable image) v 3#32) = _ :=
          h.takeTable.editable.toSelfMapped.tables_mapPage (s.nextTable image) v 3#32
        rw [hv, if_pos h.takeTable.editable.present] at hm
        rw [Call.code, Machine.pageFaultHandler_window hec hv,
          Machine.tables_bind (hs.run_allocatePt image), hm, List.append_nil, hs.tables_allocatePt,
          h.nextTable]
      · have hm : s.takeFrame.tables (mapPage image s.globals.curPhysaddr v 3#32) = _ :=
          hsf.tables_mapPage s.globals.curPhysaddr v 3#32
        have hcode : s.tables (pageFaultHandler image v ec) =
            s.takeFrame.tables (mapPage image s.globals.curPhysaddr v 3#32) := by
          rw [Machine.pageFaultHandler_page hec hv, Machine.tables_bind (Machine.run_globals _)]
          rfl
        by_cases hd : present (s.pde (dirOf v)) = true
        · rw [pde_takeFrame, if_pos hd] at hm
          refine Or.inr ⟨?_, hcode.trans hm⟩
          rintro ⟨-, hd'⟩
          rcases hd' with hd' | hd'
          · exact hv hd'
          · rw [hd] at hd'
            exact Bool.noConfusion hd'
        · rw [pde_takeFrame, if_neg hd, h.takeFrame.nextTable, Machine.takeFrame_kernelPTIndex] at hm
          exact Or.inl ⟨⟨hec, Or.inr (Bool.eq_false_iff.mpr hd)⟩, hcode.trans hm⟩
    · exact Or.inr ⟨fun ht => hec ht.1, tables_halt v hec⟩

/-- What a call that returns leaves: the boot mapping, and the index moved on
by the tables handed out. -/
theorem of_run_mapPage (h : KernelMapped image s) {p v flags : Word}
    (hk : present (s.pde (dirOf v)) = false → TableLeft s)
    (hr : s.run (mapPage image p v flags) = .ok ((), t)) :
    KernelMapped image t ∧ t.globals.kernelPTIndex.toNat =
      s.globals.kernelPTIndex.toNat + (s.tables (mapPage image p v flags)).length := by
  have hs := h.editable
  rw [hs.tables_mapPage]
  by_cases hd : present (s.pde (dirOf v)) = true
  · rw [hs.run_mapPage_present image p v flags hd] at hr
    rw [if_pos hd]
    by_cases hi : present (s.pte (dirOf v) (tabOf v)) = true
    · rw [if_pos hi] at hr
      obtain rfl : s = t := by simpa using hr
      exact ⟨h, rfl⟩
    · rw [if_neg hi] at hr
      by_cases hw : writable (s.pde (dirOf v)) = true
      · rw [hs.run_store_pte hd hw] at hr
        obtain rfl : s.put (frameOf (s.pde (dirOf v))) (tabOf v) (p ||| (flags &&& 0xFFF#32)) = t := by
          simpa using hr
        exact ⟨h.put (Bool.eq_false_iff.mpr hi) _, rfl⟩
      · rw [hs.run_store_pte_protected hd (Bool.eq_false_iff.mpr hw)] at hr
        cases hr
  · have hd' := Bool.eq_false_iff.mpr hd
    have hleft := hk hd'
    rw [hs.run_mapPage image p v flags (absurd · hd) fun _ => h.nextTable_ne_cr3 hleft,
      Machine.afterMap, if_neg hd] at hr
    rw [if_neg hd]
    obtain rfl : (s.newTable image (dirOf v)).put (frameOf (s.nextTable image)) (tabOf v)
        (p ||| (flags &&& 0xFFF#32)) = t := by simpa using hr
    have hzero : present ((s.newTable image (dirOf v)).mem (frameOf (s.nextTable image))
        (tabOf v)) = false := by
      rw [Machine.newTable, Machine.clearTo_mem, zeroTo_frame]
      rfl
    exact ⟨(h.newTable hleft hd').put hzero _, kernelPTIndex_takeTable hleft⟩

theorem of_run_call (h : KernelMapped image s) (hk : s.Takes c → TableLeft s)
    (hr : s.run (c.code image) = .ok ((), t)) :
    KernelMapped image t ∧ t.globals.kernelPTIndex.toNat =
      s.globals.kernelPTIndex.toNat + (s.tables (c.code image)).length := by
  cases c with
  | mapPage p v flags => exact h.of_run_mapPage hk hr
  | pageFault v ec =>
    rw [Call.code] at hr ⊢
    by_cases hec : Resumable ec
    · by_cases hv : dirOf v = selfDir
      · have hleft := hk ⟨hec, Or.inl hv⟩
        have hself := h.takeTable.editable.present
        have halloc := h.editable.run_allocatePt image
        rw [Machine.pageFaultHandler_window hec hv] at hr ⊢
        rw [Machine.run, Prog.run_bind_ok Machine.exec halloc] at hr
        obtain ⟨hm, hindex⟩ := h.takeTable.of_run_mapPage (fun hd => by simp [hv, hself] at hd) hr
        refine ⟨hm, ?_⟩
        rw [hindex, kernelPTIndex_takeTable hleft, Machine.tables_bind halloc,
          h.editable.tables_allocatePt, List.length_append, List.length_singleton, Nat.add_assoc]
      · have htake := Machine.run_globals (s := s) findFreePhysaddr
        rw [Machine.pageFaultHandler_page hec hv] at hr ⊢
        rw [Machine.run, Prog.run_bind_ok Machine.exec htake] at hr
        have hleft (hd : present (s.takeFrame.pde (dirOf v)) = false) : TableLeft s.takeFrame := by
          rw [pde_takeFrame] at hd
          exact (hk ⟨hec, Or.inr hd⟩).takeFrame
        obtain ⟨hm, hindex⟩ := h.takeFrame.of_run_mapPage hleft hr
        refine ⟨hm, ?_⟩
        rw [hindex, Machine.takeFrame_kernelPTIndex, Machine.tables_bind htake]
        rfl
    · rw [(Machine.run_pageFaultHandler_halt image s v hec).1] at hr
      cases hr

end KernelMapped

section Run

variable {cs : List Call}

/-- The tables a run hands out when it meets the condition: as many as it
takes, from the index on. -/
def Handed (image : KernelImage) (k n : Nat) (l : List Word) : Prop :=
  k + n ≤ 256 ∧ (n ≠ 0 → image.PageAligned) ∧ l = (List.range' k n).map image.tableAddr

theorem Handed.append {k n n' : Nat} {l l' : List Word} (h : Handed image k n l)
    (h' : Handed image (k + n) n' l') : Handed image k (n + n') (l ++ l') := by
  obtain ⟨-, ha, rfl⟩ := h
  obtain ⟨hle, ha', rfl⟩ := h'
  refine ⟨by omega, ?_, ?_⟩
  · intro hn
    by_cases hn' : n = 0
    · exact ha' (by omega)
    · exact ha hn'
  · rw [← List.map_append, List.range'_append_1]

theorem KernelMapped.handed_call (h : KernelMapped image s) (hle : s.globals.kernelPTIndex.toNat ≤ 256)
    (hm : s.Takes c → image.PageAligned ∧ TableLeft s) :
    ∃ n, Handed image s.globals.kernelPTIndex.toNat n (s.tables (c.code image)) := by
  rcases h.tables_call c with ⟨hc, ht⟩ | ⟨-, ht⟩
  · obtain ⟨ha, hleft⟩ := hm hc
    exact ⟨1, hleft, fun _ => ha, ht⟩
  · exact ⟨0, hle, fun hn => absurd rfl hn, ht⟩

theorem Machine.tables_cons_error {e : Stop} (hr : s.run (c.code image) = .error e) :
    s.tables (runCalls image (c :: cs)) = s.tables (c.code image) :=
  Prog.notes_bind_error Machine.exec Op.table hr

theorem Machine.tables_cons_ok (hr : s.run (c.code image) = .ok ((), t)) :
    s.tables (runCalls image (c :: cs)) = s.tables (c.code image) ++ t.tables (runCalls image cs) :=
  Machine.tables_bind hr

theorem KernelMapped.handed (h : KernelMapped image s) (hle : s.globals.kernelPTIndex.toNat ≤ 256)
    (hm : s.Meets image cs) :
    ∃ n, Handed image s.globals.kernelPTIndex.toNat n (s.tables (runCalls image cs)) := by
  induction cs generalizing s with
  | nil => exact ⟨0, hle, fun hn => absurd rfl hn, rfl⟩
  | cons c cs ih =>
    obtain ⟨hc, hrest⟩ := hm
    obtain ⟨n, hn⟩ := h.handed_call hle hc
    cases hr : s.run (c.code image) with
    | error e =>
      rw [Machine.tables_cons_error hr]
      exact ⟨n, hn⟩
    | ok x =>
      obtain ⟨⟨⟩, t⟩ := x
      obtain ⟨ht, hindex⟩ := h.of_run_call (fun hc' => (hc hc').2) hr
      have hlen : (s.tables (c.code image)).length = n := by
        rw [hn.2.2, List.length_map, List.length_range']
      rw [hlen] at hindex
      obtain ⟨n', hn'⟩ := ih ht (hindex ▸ hn.1) (hrest t hr)
      rw [hindex] at hn'
      exact ⟨n + n', Machine.tables_cons_ok hr ▸ hn.append hn'⟩

/-- The first call that fails the condition hands out a misaligned address or
the end of the array. -/
theorem KernelMapped.exists_of_not_meets (h : KernelMapped image s)
    (hle : s.globals.kernelPTIndex.toNat ≤ 256) (hm : ¬ s.Meets image cs) :
    ∃ k ≤ 256, image.tableAddr k ∈ s.tables (runCalls image cs) ∧ (image.PageAligned → k = 256) := by
  induction cs generalizing s with
  | nil => exact absurd trivial hm
  | cons c cs ih =>
    have hsub {p : Word} (hp : p ∈ s.tables (c.code image)) :
        p ∈ s.tables (runCalls image (c :: cs)) := by
      cases hr : s.run (c.code image) with
      | error e => rwa [Machine.tables_cons_error hr]
      | ok x =>
        rw [Machine.tables_cons_ok (t := x.2) hr]
        exact List.mem_append_left _ hp
    by_cases hc : s.Takes c → image.PageAligned ∧ TableLeft s
    · obtain ⟨t, hr, hm'⟩ : ∃ t, s.run (c.code image) = .ok ((), t) ∧ ¬ t.Meets image cs := by
        by_contra hno
        refine hm ⟨hc, fun t hr => ?_⟩
        by_contra hm'
        exact hno ⟨t, hr, hm'⟩
      obtain ⟨n, hn⟩ := h.handed_call hle hc
      obtain ⟨ht, hindex⟩ := h.of_run_call (fun hc' => (hc hc').2) hr
      have hlen : (s.tables (c.code image)).length = n := by
        rw [hn.2.2, List.length_map, List.length_range']
      rw [hlen] at hindex
      obtain ⟨k, hk, hmem, ha⟩ := ih ht (hindex ▸ hn.1) hm'
      refine ⟨k, hk, ?_, ha⟩
      rw [Machine.tables_cons_ok hr]
      exact List.mem_append_right _ hmem
    · obtain ⟨htakes, hno⟩ := Classical.not_imp.mp hc
      rcases h.tables_call c with ⟨-, ht⟩ | ⟨hc', -⟩
      · refine ⟨_, hle, hsub (ht ▸ List.mem_singleton_self _), fun ha => ?_⟩
        have hleft : ¬ s.globals.kernelPTIndex.toNat < 256 := fun hlt => hno ⟨ha, hlt⟩
        omega
      · exact absurd htakes hc'

theorem Handed.preallocated {k n : Nat} {l : List Word} (h : Handed image k n l) :
    Preallocated image l := by
  obtain ⟨hle, ha, rfl⟩ := h
  have hstart := image.kernelPTs_toNat
  have hmem {p : Word} (hp : p ∈ (List.range' k n).map image.tableAddr) :
      ∃ j < 256, p.toNat = image.kernelPTs.toNat - 0xC0000000 + j * 4096 ∧ image.PageAligned := by
    obtain ⟨j, hj, rfl⟩ := List.mem_map.mp hp
    rw [List.mem_range'_1] at hj
    exact ⟨j, by omega, image.tableAddr_toNat (by omega), ha (by omega)⟩
  have haligned {p : Word} (hp : p ∈ (List.range' k n).map image.tableAddr) : p.toNat % 4096 = 0 := by
    obtain ⟨j, hj, hpj, hpa⟩ := hmem hp
    unfold KernelImage.PageAligned aligned at hpa
    omega
  refine ⟨fun p hp => haligned hp, fun p hp => ?_, ?_, fun p hp => ?_⟩
  · obtain ⟨j, hj, hpj, -⟩ := hmem hp
    omega
  · rw [List.pairwise_map]
    refine (List.pairwise_lt_range' (s := k) (n := n)).imp_of_mem ?_
    intro i j hi hj hij
    rw [List.mem_range'_1] at hi hj
    rw [image.tableAddr_toNat (by omega), image.tableAddr_toNat (by omega)]
    omega
  · rw [frameOf_or_three, frameOf_toNat]
    have := haligned hp
    omega

/-- Over whole runs, from the state boot leaves. -/
theorem tables_preallocated_iff (hb : Booted image s) (cs : List Call) :
    Preallocated image (s.tables (runCalls image cs)) ↔ s.Meets image cs := by
  obtain ⟨m, -, hi⟩ := hb.initialised
  have hle : s.globals.kernelPTIndex.toNat ≤ 256 := by
    rw [hi.kernelPTIndex]
    decide
  constructor
  · intro hp
    by_contra hm
    obtain ⟨k, hk, hmem, ha⟩ := hi.kernelMapped.exists_of_not_meets hle hm
    have hge := image.kernelPTs_ge
    have hk' := image.tableAddr_toNat hk
    have hstart := image.kernelPTs_toNat
    by_cases hpa : image.PageAligned
    · have hin := (hp.inside _ hmem).2
      obtain rfl := ha hpa
      omega
    · have hal := hp.aligned _ hmem
      unfold KernelImage.PageAligned aligned at hpa
      unfold aligned at hal
      omega
  · intro hm
    obtain ⟨n, hn⟩ := hi.kernelMapped.handed hle hm
    exact hn.preallocated

theorem takes_first {m : Memory} (h : Initialised image m s) :
    s.Takes (.pageFault 0xD0000000#32 0#32) := by
  refine ⟨⟨rfl, rfl⟩, Or.inr ?_⟩
  rw [Bool.eq_false_iff, Ne, h.present_pde_iff]
  decide

theorem tables_preallocated_one : ∃ s, Booted alignedImage s ∧
    s.Takes (.pageFault 0xD0000000#32 0#32) ∧
    Preallocated alignedImage (s.tables (runCalls alignedImage [.pageFault 0xD0000000#32 0#32])) := by
  obtain ⟨s, hb, hi⟩ := exists_booted (loaded_zeroMachine alignedImage)
  have hleft : TableLeft s := by
    rw [TableLeft, hi.kernelPTIndex]
    decide
  have hm : s.Meets alignedImage [.pageFault 0xD0000000#32 0#32] :=
    ⟨fun _ => ⟨alignedImage_pageAligned, hleft⟩, fun _ _ => trivial⟩
  exact ⟨s, hb, takes_first hi, (tables_preallocated_iff hb _).mpr hm⟩

/-- With `kernel_PTs` 32 bytes into a page, the first table handed out is misplaced. -/
theorem table_misplaced : ∃ s, Booted unalignedImage s ∧
    ¬ Preallocated unalignedImage
    (s.tables (runCalls unalignedImage [.pageFault 0xD0000000#32 0#32])) := by
  obtain ⟨s, hb, hi⟩ := exists_booted (loaded_zeroMachine unalignedImage)
  refine ⟨s, hb, fun hp => ?_⟩
  rcases hi.kernelMapped.tables_call (.pageFault 0xD0000000#32 0#32) with ⟨-, ht⟩ | ⟨hc, -⟩
  · have hmem : unalignedImage.tableAddr 0 ∈
        s.tables (runCalls unalignedImage [.pageFault 0xD0000000#32 0#32]) := by
      rw [hi.kernelPTIndex] at ht
      rw [runCalls, Machine.tables, Prog.notes_bind_left]
      · exact List.mem_of_mem_head? (congrArg List.head? ht)
      · intro _
        trivial
    exact absurd (hp.aligned _ hmem) (by decide)
  · exact hc (takes_first hi)

end Run

end PekOS
