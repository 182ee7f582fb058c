import PekOS.Reading
import PekOS.Stores
import PekOS.Library.Simulation

/-! Demand paging from the point of view of a program: the lower half of the
address space is a flat memory. What an untouched page holds is settled only
when it is touched, by the frame the counter has come to then. Every frame the
counter comes to is taken for RAM. -/

namespace PekOS

open OpTree Labelled Machine

/-- A load or a store of bytes under the directory entries `D`. -/
def Op.Within (D : Finset Index) (o : Op) : Prop := o.address ≠ none ∧ ∀ x ∈ o.touched, dirOf x ∈ D

/-- `m` is what the lower half holds: the bytes of the pages that are mapped,
and for every other page those of a frame that has not been handed out. -/
structure Backs (s : Machine) (m : Word → Byte) : Prop where
  mapped : ∀ x q, Lower x → s.translate x = some q → m x = s.byte q
  fresh : ∀ d i, d.toNat < 768 → s.walk d i = none →
    ∃ f : Frame, s.globals.curPhysaddr.toNat / 4096 ≤ f.toNat ∧
    ∀ x, dirOf x = d → tabOf x = i → m x = s.byte (f ++ offsetOf x)

/-- A frame with none of the kernel's variables, and not that of the screen,
where the handler prints. -/
structure KernelImage.Elsewhere (image : KernelImage) (f : Frame) : Prop where
  outside : f.toNat < 0x100 ∨ image.size ≤ f.toNat * 4096
  vga : f ≠ 0xB8#20

theorem KernelImage.Elsewhere.apart {image : KernelImage} {f : Frame} (h : image.Elsewhere f) :
    image.Apart f := by
  have hbase : (f ++ 0#12 : Word).toNat < 0x100000 ∨ image.size ≤ (f ++ 0#12 : Word).toNat := by
    have hout := h.outside
    rw [append_toNat, BitVec.toNat_ofNat]
    omega
  exact frameOf_append f 0#12 ▸ KernelImage.apart_of_outside hbase

/-- `t` is `s` but for faults on pages under `D` and stores to the lower half. -/
structure Extends (image : KernelImage) (D : Finset Index) (s t : Machine) : Prop where
  kept : ∀ d i, s.walk d i ≠ none → t.walk d i = s.walk d i
  added : ∀ d i, s.walk d i = none → t.walk d i ≠ none → d ∈ D ∨ d = selfDir
  memory : ∀ f, image.Elsewhere f → (∀ d i m, d.toNat < 768 → t.walk d i = some m → m.frame ≠ f) →
    ∀ i, t.mem f i = s.mem f i
  globals : ∃ p k, t.globals = { s.globals with curPhysaddr := p, kernelPTIndex := k }

variable {image : KernelImage} {s₀ s t u : Machine} {D : Finset Index} {es : List Event} {o : Op}
    {m m' : Word → Byte}
  {l : List Word} {b : Word → Byte} {v a : Word}

theorem Backs.view (h : Backs s m) {x : Word} (hx : Lower x) (hm : s.walk (dirOf x) (tabOf x) ≠ none) :
    m x = s.view x := by
  obtain ⟨mp, hmp⟩ := Option.ne_none_iff_exists'.mp hm
  have hq : s.translate x = some (mp.phys x) := by rw [Machine.translate, hmp, Option.map_some]
  rw [h.mapped x _ hx hq, view_eq hq]

/-- There is such a memory. -/
theorem exists_backs (s : Machine) : ∃ m, Backs s m := by
  refine ⟨fun x => ((s.translate x).map s.byte).getD (s.byte (frameOf s.globals.curPhysaddr ++
    offsetOf x)), fun x q _ hq => ?_, fun d i _ hn =>
    ⟨frameOf s.globals.curPhysaddr, (frameOf_toNat _).ge, fun x hd hi => ?_⟩⟩
  · show ((s.translate x).map s.byte).getD _ = _
    rw [hq, Option.map_some, Option.getD_some]
  · have hx : s.translate x = none := by rw [Machine.translate, hd, hi, hn, Option.map_none]
    show ((s.translate x).map s.byte).getD _ = _
    rw [hx, Option.map_none, Option.getD_none]

namespace Extends

theorem refl (image : KernelImage) (D : Finset Index) (s : Machine) : Extends image D s s :=
  ⟨fun _ _ _ => rfl, fun _ _ hn hm => absurd hn hm, fun _ _ _ _ => rfl, _, _, rfl⟩

theorem trans (h : Extends image D s t) (h' : Extends image D t u) : Extends image D s u := by
  refine ⟨fun d i hm => ?_, fun d i hn hm => ?_, fun f hf hfree i => ?_, ?_⟩
  · have ht := h.kept d i hm
    rw [h'.kept d i (by rwa [ht]), ht]
  · by_cases ht : t.walk d i = none
    · exact h'.added d i ht hm
    · exact h.added d i hn ht
  · rw [h'.memory f hf hfree i]
    refine h.memory f hf (fun d i mp hd hw => hfree d i mp hd ?_) i
    rw [h'.kept d i (by rw [hw]; exact Option.some_ne_none _), hw]
  · obtain ⟨p, k, hg⟩ := h.globals
    obtain ⟨p', k', hg'⟩ := h'.globals
    exact ⟨p', k', by rw [hg', hg]⟩

end Extends

section Written

variable (h : Backed image s) (hw : Written s t l b) (hl : ∀ x ∈ l, Lower x)

include h hw in
theorem walk_written : t.walk = s.walk := hw.tables.walk h.editable.toSelfMapped

include h hw hl

/-- A frame that is not the program's is not written to. -/
theorem mem_written {f : Frame} (hf : ∀ d i m, d.toNat < 768 → s.walk d i = some m → m.frame ≠ f)
    (i : Index) : t.mem f i = s.mem f i := by
  refine hw.frames f (fun x hx q hq => ?_) i
  obtain ⟨hm, -⟩ := h.maps_of_translate (hl x hx) hq
  exact hf _ _ _ (hl x hx) hm.1

theorem Backed.written : Backed image t := by
  have hk : t.globals.kernelPTIndex = s.globals.kernelPTIndex := by rw [hw.globals]
  have hwalk := walk_written h hw
  refine h.of_walk ⟨⟨h.toTables.of_sameTables hw.tables hk, fun k hle hlt i => ?_⟩,
    ?_⟩ ?_ ?_ ?_ ?_ fun d i _ => ?_
  · rw [hk] at hle
    rw [mem_written h hw hl, h.zero k hle hlt]
    intro d i m hd hm he
    have hlo := (h.frames d i m hd hm).2.1
    have hhi := image.tableFrame_lt hlt
    rw [← he] at hhi
    omega
  · rw [hw.globals]
    exact h.curPhysaddr
  · rw [hk]
    exact h.kernelPTIndex
  · rw [hw.globals]
    exact h.cursor
  · rw [hw.globals]
  · exact Machine.pages_subset fun d i hm => by rwa [hwalk]
  · rw [hwalk]

omit hl in
theorem Room.written (hr : Room D s) : Room D t := by
  unfold Room at hr ⊢
  rw [hw.globals]
  simpa only [hw.tables.pde h.editable.toSelfMapped] using hr

theorem Extends.written (D : Finset Index) : Extends image D s t := by
  have hwalk := walk_written h hw
  refine ⟨fun d i _ => by rw [hwalk], fun d i hn hm => absurd hn (by rwa [hwalk] at hm),
    fun f _ hf i => ?_, s.globals.curPhysaddr, s.globals.kernelPTIndex, hw.globals⟩
  rw [hwalk] at hf
  exact mem_written h hw hl hf i

/-- What a memory of the bytes held before its store. -/
theorem Backs.before_written (hm : ∀ x ∈ l, s.walk (dirOf x) (tabOf x) ≠ none) (hb : Backs t m') :
    ∃ m, Backs s m ∧ (fun x => if x ∈ l then b x else m x) = m' := by
  have hwalk := walk_written h hw
  have htr := hw.tables.translate h.editable.toSelfMapped
  refine ⟨fun x => if x ∈ l then s.view x else m' x, ⟨fun x q hx hq => ?_, fun d i hd hn => ?_⟩, ?_⟩
  · by_cases hxl : x ∈ l
    · show (if x ∈ l then s.view x else m' x) = _
      rw [if_pos hxl, view_eq hq]
    · show (if x ∈ l then s.view x else m' x) = _
      rw [if_neg hxl, hb.mapped x q hx (by rw [htr, hq])]
      refine hw.rest q fun x' hx' hq' => hxl ?_
      rw [h.translate_inj hx (hl x' hx') hq hq']
      exact hx'
  · obtain ⟨f, hf, hbytes⟩ := hb.fresh d i hd (by rw [hwalk, hn])
    rw [hw.globals] at hf
    refine ⟨f, hf, fun x hxd hxi => ?_⟩
    have hxl : x ∉ l := fun hx => hm x hx (by rw [hxd, hxi, hn])
    show (if x ∈ l then s.view x else m' x) = _
    rw [if_neg hxl, hbytes x hxd hxi]
    refine hw.rest _ fun x' hx' hq => ?_
    have hlt := (h.maps_of_translate (hl x' hx') hq).2.2
    rw [frameOf_append] at hlt
    omega
  · funext x
    by_cases hxl : x ∈ l
    · obtain ⟨mp, hmp⟩ := Option.ne_none_iff_exists'.mp (hm x hxl)
      have hq : s.translate x = some (mp.phys x) := by rw [Machine.translate, hmp, Option.map_some]
      rw [if_pos hxl, hb.mapped x _ (hl x hxl) (by rw [htr, hq]), hw.stored x hxl _ hq]
    · simp only [if_neg hxl]

end Written

section Fault

variable (h : Backed image s) (hr : Room D s) (hv : dirOf v ∈ D) (hlow : Lower v)

include h hr hv hlow

omit hlow in
theorem byte_afterFault {q : Word} (hq : 0x10000 ≤ (frameOf q).toNat) :
    (s.afterFault image v).byte q = s.byte q := by
  rw [byte, byte, h.pageable.mem_afterFault hr hv (KernelImage.apart_of_ge (by omega))]

theorem Extends.afterFault : Extends image D s (s.afterFault image v) := by
  have hvd := ne_selfDir_of_lt hlow
  refine ⟨fun d i hm => h.walk_afterFault_of_mapped h.curPhysaddr hvd (hr.left hv) hm,
    fun d i hn hm => ?_, fun f hf _ i => h.pageable.mem_afterFault hr hv hf.apart i, ?_⟩
  · rcases h.takeFrame.walk_afterMap_new h.curPhysaddr hvd (tableLeft_takeFrame (hr.left hv))
      (by rwa [walk_takeFrame]) hm with ⟨rfl, -⟩ | ⟨rfl, -⟩
    · exact Or.inl hv
    · exact Or.inr rfl
  · rw [afterMap_globals]
    split
    · exact ⟨_, _, rfl⟩
    · rw [Machine.takeTable_globals, Machine.takeFrame, Machine.withGlobals_globals, findFreePhysaddr]
      exact ⟨_, _, rfl⟩

/-- Before the fault the memory was the same: the page held what its frame did. -/
theorem Backs.before_fault (hn : s.walk (dirOf v) (tabOf v) = none)
    (hb : Backs (s.afterFault image v) m) : Backs s m := by
  have hvd := ne_selfDir_of_lt hlow
  have hcur := h.pageable.curPhysaddr_afterFault v
  have hcounter := h.counter
  refine ⟨fun x q hx hq => ?_, fun d i hd hni => ?_⟩
  · have hlo := (h.maps_of_translate hx hq).2.1
    obtain ⟨mp, hmp, rfl⟩ := translate_eq_some hq
    rw [← byte_afterFault h hr hv hlo]
    refine hb.mapped x _ hx ?_
    rw [Machine.translate, h.walk_afterFault_of_mapped h.curPhysaddr hvd (hr.left hv)
      (by rw [hmp]; exact Option.some_ne_none _), hmp, Option.map_some]
  · have hw := h.walk_afterFault h.curPhysaddr hvd (hr.left hv) (ne_selfDir_of_lt hd) i
    have hframe := frameOf_toNat s.globals.curPhysaddr
    by_cases he : d = dirOf v ∧ i = tabOf v
    · refine ⟨frameOf s.globals.curPhysaddr, hframe.ge, fun x hxd hxi => ?_⟩
      rw [he.1, he.2, enter_same, hn, Option.getD_none, ← he.1, ← he.2, ← hxd, ← hxi] at hw
      rw [← byte_afterFault h hr hv (by rw [frameOf_append]; omega)]
      exact hb.mapped x _ (show (dirOf x).toNat < 768 by rw [hxd]; exact hd)
        (by rw [Machine.translate, hw]; rfl)
    · rw [enter_of_ne _ _ he, hni] at hw
      obtain ⟨f, hf, hbytes⟩ := hb.fresh d i hd hw
      refine ⟨f, by omega, fun x hxd hxi => ?_⟩
      rw [hbytes x hxd hxi, byte_afterFault h hr hv (by rw [frameOf_append]; omega)]

end Fault

/-! One operation. -/

theorem putByte_none {x : Word} (hn : s.walk (dirOf x) (tabOf x) = none) (b : Byte) :
    s.putByte x b = .error (.notPresent x true) := by
  rw [putByte, access, hn]

theorem walk_aligned (ha : aligned 4 a) {x : Word} (hx : x ∈ [a, a + 1#32, a + 2#32, a + 3#32]) :
    s.walk (dirOf x) (tabOf x) = s.walk (dirOf a) (tabOf a) := by
  have hadd {k : Nat} (hk : k < 4) : frameOf (a + BitVec.ofNat 32 k) = frameOf a :=
    frameOf_add (by unfold aligned at ha; omega)
  have hf : frameOf x = frameOf a := by
    simp only [List.mem_cons, List.not_mem_nil, or_false] at hx
    rcases hx with rfl | rfl | rfl | rfl
    · rfl
    · exact hadd (k := 1) (by decide)
    · exact hadd (k := 2) (by decide)
    · exact hadd (k := 3) (by decide)
  obtain ⟨hd, hi⟩ := frameOf_eq_iff.mp hf
  rw [hd, hi]

/-- With a byte absent, the first such byte faults. -/
theorem Backed.exec_error (h : Backed image s) (ho : o.address ≠ none) (hl : ∀ x ∈ o.touched, Lower x)
    (hx : ∃ x ∈ o.touched, s.walk (dirOf x) (tabOf x) = none) :
    ∃ a ∈ o.touched, ∃ w, s.walk (dirOf a) (tabOf a) = none ∧
    Machine.exec o s = .error (.notPresent a w) := by
  cases o with
  | load a =>
    by_cases ha : aligned 4 a
    · obtain ⟨x, hx, hn⟩ := hx
      rw [walk_aligned ha hx] at hn
      exact ⟨a, List.mem_cons_self .., false, hn, by rw [Machine.exec, if_pos ha, access, hn]⟩
    · simp only [Op.touched, List.forall_mem_cons, List.exists_mem_cons_iff, List.not_mem_nil, false_and,
        exists_false, or_false] at hl hx ⊢
      obtain ⟨l₀, l₁, l₂, l₃, -⟩ := hl
      by_cases m₀ : s.walk (dirOf a) (tabOf a) = none
      · exact Or.inl ⟨false, m₀, by simp only [Machine.exec, if_neg ha, wordAt, byteAt_none m₀]; rfl⟩
      by_cases m₁ : s.walk (dirOf (a + 1#32)) (tabOf (a + 1#32)) = none
      · exact Or.inr (Or.inl ⟨false, m₁, by
          simp only [Machine.exec, if_neg ha, wordAt, h.byteAt l₀ m₀, byteAt_none m₁]; rfl⟩)
      by_cases m₂ : s.walk (dirOf (a + 2#32)) (tabOf (a + 2#32)) = none
      · exact Or.inr (Or.inr (Or.inl ⟨false, m₂, by
          simp only [Machine.exec, if_neg ha, wordAt, h.byteAt l₀ m₀, h.byteAt l₁ m₁,
            byteAt_none m₂]; rfl⟩))
      have m₃ := ((hx.resolve_left m₀).resolve_left m₁).resolve_left m₂
      exact Or.inr (Or.inr (Or.inr ⟨false, m₃, by
        simp only [Machine.exec, if_neg ha, wordAt, h.byteAt l₀ m₀, h.byteAt l₁ m₁, h.byteAt l₂ m₂,
          byteAt_none m₃]
        rfl⟩))
  | store a v =>
    by_cases ha : aligned 4 a
    · obtain ⟨x, hx, hn⟩ := hx
      rw [walk_aligned ha hx] at hn
      exact ⟨a, List.mem_cons_self .., true, hn, by rw [Machine.exec, if_pos ha, access, hn]⟩
    · simp only [Op.touched, List.forall_mem_cons, List.exists_mem_cons_iff, List.not_mem_nil, false_and,
        exists_false, or_false] at hl hx ⊢
      obtain ⟨l₀, l₁, l₂, l₃, -⟩ := hl
      have hb {k : Nat} (hk : k < 4) := Backed.wordBytes_add a v hk
      have b₀ := hb (k := 0) (by decide)
      rw [BitVec.add_zero] at b₀
      by_cases m₀ : s.walk (dirOf a) (tabOf a) = none
      · exact Or.inl ⟨true, m₀, by simp only [Machine.exec, if_neg ha, putWord, putByte_none m₀]; rfl⟩
      obtain ⟨t₀, r₀, w₀⟩ := h.putByte (.nil s (wordBytes a v)) (by simp) l₀ m₀
      rw [b₀] at r₀
      have e₀ := walk_written h w₀
      by_cases m₁ : s.walk (dirOf (a + 1#32)) (tabOf (a + 1#32)) = none
      · have hn := putByte_none (s := t₀) (by rw [e₀]; exact m₁) (v.extractLsb' 8 8)
        exact Or.inr (Or.inl
          ⟨true, m₁, by simp only [Machine.exec, if_neg ha, putWord, bind, Except.bind, r₀, hn]; rfl⟩)
      obtain ⟨t₁, r₁, w₁⟩ := h.putByte w₀ (by simpa using l₀) l₁ m₁
      rw [hb (k := 1) (by decide)] at r₁
      have e₁ := walk_written h w₁
      by_cases m₂ : s.walk (dirOf (a + 2#32)) (tabOf (a + 2#32)) = none
      · have hn := putByte_none (s := t₁) (by rw [e₁]; exact m₂) (v.extractLsb' 16 8)
        exact Or.inr (Or.inr (Or.inl ⟨true, m₂, by
          simp only [Machine.exec, if_neg ha, putWord, bind, Except.bind, r₀, r₁, hn]; rfl⟩))
      obtain ⟨t₂, r₂, w₂⟩ := h.putByte w₁ (by simpa using ⟨l₀, l₁⟩) l₂ m₂
      rw [hb (k := 2) (by decide)] at r₂
      have e₂ := walk_written h w₂
      have m₃ := ((hx.resolve_left m₀).resolve_left m₁).resolve_left m₂
      have hn := putByte_none (s := t₂) (by rw [e₂]; exact m₃) (v.extractLsb' 24 8)
      exact Or.inr (Or.inr (Or.inr ⟨true, m₃, by
        simp only [Machine.exec, if_neg ha, putWord, bind, Except.bind, r₀, r₁, r₂, hn]; rfl⟩))
  | loadByte a =>
    obtain ⟨x, hx, hn⟩ := hx
    obtain rfl := List.mem_singleton.mp hx
    exact ⟨x, hx, false, hn, by rw [Machine.exec, byteAt_none hn]; rfl⟩
  | storeByte a b =>
    obtain ⟨x, hx, hn⟩ := hx
    obtain rfl := List.mem_singleton.mp hx
    exact ⟨x, hx, true, hn, by rw [Machine.exec, putByte_none hn]; rfl⟩
  | _ => exact absurd rfl ho

/-- With every byte mapped, the operation is that on the memory of the bytes. -/
theorem Backed.exec_ok (h : Backed image s) (ho : o.address ≠ none) (hl : ∀ x ∈ o.touched, Lower x)
    (hm : ∀ x ∈ o.touched, s.walk (dirOf x) (tabOf x) ≠ none) : ∃ r t l b, Machine.exec o s = .ok (r, t) ∧
    (∀ x ∈ l, x ∈ o.touched) ∧ Written s t l b ∧ ∀ m, (∀ x ∈ o.touched, m x = s.view x) →
      Flat.exec o m = .ok (r, fun x => if x ∈ l then b x else m x) := by
  cases o with
  | load a =>
    refine ⟨_, s, [], fun _ => 0#8, h.exec_load hl hm, fun x hx => absurd hx List.not_mem_nil,
      .nil s _, fun m hv => ?_⟩
    simp only [Op.touched, List.forall_mem_cons, List.not_mem_nil, false_imp_iff, implies_true,
      and_true] at hv
    obtain ⟨v₀, v₁, v₂, v₃⟩ := hv
    simp only [Flat.exec, LittleEndian.word, v₀, v₁, v₂, v₃, List.not_mem_nil, if_false]
  | store a v =>
    obtain ⟨t, hr, hw⟩ := h.exec_store v hl hm
    refine ⟨(), t, _, _, hr, fun x hx => hx, hw, fun m _ => ?_⟩
    have hput : LittleEndian.put m a v = fun x => if x ∈ (Op.store a v).touched then wordBytes a v x
        else m x := by
      funext x
      simp only [Op.touched, mem_word_iff, LittleEndian.put, wordBytes]
    rw [Flat.exec, hput]
  | loadByte a =>
    have ha := h.byteAt (hl a (List.mem_singleton.mpr rfl)) (hm a (List.mem_singleton.mpr rfl))
    refine ⟨s.view a, s, [], fun _ => 0#8, by rw [Machine.exec, ha]; rfl,
      fun x hx => absurd hx List.not_mem_nil, .nil s _, fun m hv => ?_⟩
    rw [Flat.exec, hv a (List.mem_singleton.mpr rfl)]
    simp only [List.not_mem_nil, if_false]
  | storeByte a c =>
    obtain ⟨t, hr, hw⟩ := h.putByte (.nil s fun _ => c) (by simp) (hl a (List.mem_singleton.mpr rfl))
      (hm a (List.mem_singleton.mpr rfl))
    refine ⟨(), t, [] ++ [a], fun _ => c, by rw [Machine.exec, hr]; rfl, fun x hx => hx, hw,
      fun m _ => ?_⟩
    have hupdate : Function.update m a c = fun x => if x ∈ [] ++ [a] then c else m x := by
      funext x
      simp only [Function.update_apply, List.nil_append, List.mem_singleton]
    rw [Flat.exec, hupdate]
  | _ => exact absurd rfl ho

/-- The pages an operation touches that are not mapped. -/
def missing (o : Op) (s : Machine) : Finset Frame :=
  (o.touched.map frameOf).toFinset.filter fun f => s.mapped f.toNat = false

theorem mem_missing {f : Frame} : f ∈ missing o s ↔
    ∃ x ∈ o.touched, frameOf x = f ∧ s.walk (dirOf x) (tabOf x) = none := by
  rw [missing, Finset.mem_filter, List.mem_toFinset, List.mem_map]
  constructor
  · rintro ⟨⟨x, hx, rfl⟩, hm⟩
    refine ⟨x, hx, rfl, ?_⟩
    by_contra hn
    rw [(mapped_frameOf x).mpr hn] at hm
    exact Bool.noConfusion hm
  · rintro ⟨x, hx, rfl, hn⟩
    exact ⟨⟨x, hx, rfl⟩, Bool.eq_false_iff.mpr fun hm => (mapped_frameOf x).mp hm hn⟩

/-- A word lies on two pages at most. -/
theorem card_missing_le (o : Op) (s : Machine) : (missing o s).card ≤ 2 := by
  have hword (a : Word) :
      ((([a, a + 1#32, a + 2#32, a + 3#32] : List Word).map frameOf).toFinset).card ≤ 2 := by
    have hsub : (([a, a + 1#32, a + 2#32, a + 3#32] : List Word).map frameOf).toFinset ⊆
        {frameOf a, frameOf (a + 3#32)} := by
      intro f hf
      rw [List.mem_toFinset, List.mem_map] at hf
      obtain ⟨x, hx, rfl⟩ := hf
      have hlt := mem_word_iff.mp hx
      have hxlt := x.isLt
      have halt := a.isLt
      rw [Finset.mem_insert, Finset.mem_singleton, ← BitVec.toNat_inj, ← BitVec.toNat_inj,
        frameOf_toNat, frameOf_toNat, frameOf_toNat, BitVec.toNat_add, BitVec.toNat_ofNat]
      rw [BitVec.toNat_sub] at hlt
      omega
    exact (Finset.card_le_card hsub).trans Finset.card_le_two
  refine (Finset.card_le_card (Finset.filter_subset _ _)).trans ?_
  cases o with
  | load a => exact hword a
  | store a v => exact hword a
  | loadByte a => exact (Multiset.toFinset_card_le _).trans (Nat.le_succ 1)
  | storeByte a b => exact (Multiset.toFinset_card_le _).trans (Nat.le_succ 1)
  | _ => exact Nat.zero_le 2

/-- What one operation of a program comes to, whether it faults or not. -/
def Simulated (image : KernelImage) (D : Finset Index) (n : Nat) (o : Op) (s : Machine) : Prop :=
  ∃ r t, Machine.demand image n o s = .ok (r, t) ∧ (Backed image t ∧ Room D t ∧ Extends image D s t) ∧
    ∀ m', Backs t m' → ∃ m, Backs s m ∧ Flat.exec o m = .ok (r, m')

theorem simulated_of_mapped (ho : o.address ≠ none) (hl : ∀ x ∈ o.touched, Lower x) (h : Backed image s)
    (hr : Room D s) (hm : ∀ x ∈ o.touched, s.walk (dirOf x) (tabOf x) ≠ none) (n : Nat) :
    Simulated image D n o s := by
  obtain ⟨r, t, l, b, he, hlo, hw, hflat⟩ := h.exec_ok ho hl hm
  have hll (x : Word) (hx : x ∈ l) : Lower x := hl x (hlo x hx)
  refine ⟨r, t, demand_of_exec he, ⟨h.written hw hll, hr.written h hw, .written h hw hll D⟩,
    fun m' hm' => ?_⟩
  obtain ⟨m, hb, hafter⟩ := hm'.before_written h hw hll fun x hx => hm x (hlo x hx)
  refine ⟨m, hb, ?_⟩
  rw [← hafter]
  exact hflat m fun x hx => hb.view (hl x hx) (hm x hx)

/-- Every fault leaves fewer pages missing. -/
theorem simulated (hD : ∀ d ∈ D, d.toNat < 768) (ho : o.Within D) {k : Nat} (h : Backed image s)
    (hr : Room D s) (hk : (missing o s).card ≤ k) (n : Nat) : Simulated image D (n + k) o s := by
  have hl (x : Word) (hx : x ∈ o.touched) : Lower x := hD _ (ho.2 x hx)
  induction k generalizing s with
  | zero =>
    refine simulated_of_mapped ho.1 hl h hr (fun x hx hn => ?_) _
    have hmem : frameOf x ∈ missing o s := mem_missing.mpr ⟨x, hx, rfl, hn⟩
    have hpos := Finset.card_pos.mpr ⟨_, hmem⟩
    omega
  | succ k ih =>
    by_cases hm : ∃ x ∈ o.touched, s.walk (dirOf x) (tabOf x) = none
    · obtain ⟨a, ha, w, hn, he⟩ := h.exec_error ho.1 hl hm
      have hv := ho.2 a ha
      have hlow := hl a ha
      have hvd := ne_selfDir_of_lt hlow
      have hkept {d i : Index} (hm : s.walk d i ≠ none) : (s.afterFault image a).walk d i = s.walk d i :=
        h.walk_afterFault_of_mapped h.curPhysaddr hvd (hr.left hv) hm
      have hsub : missing o (s.afterFault image a) ⊆ (missing o s).erase (frameOf a) := by
        intro f hf
        obtain ⟨x, hx, rfl, hxn⟩ := mem_missing.mp hf
        refine Finset.mem_erase.mpr ⟨fun hfa => ?_, mem_missing.mpr ⟨x, hx, rfl, ?_⟩⟩
        · obtain ⟨hd, hi⟩ := frameOf_eq_iff.mp hfa
          rw [hd, hi, h.walk_afterFault h.curPhysaddr hvd (hr.left hv) hvd, enter_same] at hxn
          exact Option.some_ne_none _ hxn
        · by_contra hsome
          exact hsome (hkept hsome ▸ hxn)
      have hcard := Finset.card_le_card hsub
      rw [Finset.card_erase_of_mem (mem_missing.mpr ⟨a, ha, rfl, hn⟩)] at hcard
      have hext := Extends.afterFault h hr hv hlow
      obtain ⟨r, t, hdem, ⟨hb, hroom, hex⟩, hback⟩ := ih (h.faulted (hr.left hv) hvd hn)
        (h.pageable.room_afterFault hr hv hvd) (by omega)
      refine ⟨r, t, ?_, ⟨hb, hroom, hext.trans hex⟩, fun m' hm' => ?_⟩
      · rw [← Nat.add_assoc,
          demand_fault he (h.pageable.run_fault hr hv hvd (resumable_faultCode w)), hdem]
      · obtain ⟨m, hm, hflat⟩ := hback m' hm'
        exact ⟨m, hm.before_fault h hr hv hlow hn, hflat⟩
    · exact simulated_of_mapped ho.1 hl h hr (fun x hx hn => hm ⟨x, hx, hn⟩) _

/-- `tests` of kernel.c. -/
def tests : Code Unit := Code.store 0x30300000#32 2#32

theorem Booted.room (hb : Booted image s) (hD : D.card ≤ 256) : Room D s := by
  obtain ⟨m, -, hi⟩ := hb.initialised
  rw [Room, hi.kernelPTIndex]
  exact (Nat.zero_add _).trans_le ((Finset.card_le_card (Finset.filter_subset _ _)).trans hD)

end PekOS
