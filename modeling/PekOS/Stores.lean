import PekOS.Backing
import PekOS.Bytes
import PekOS.Memmove

/-! What a load or a store does to bytes of the lower half, each by its own
translation: a word may lie across two pages. -/

namespace PekOS

open OpTree

/-- The bytes an operation reads or writes. -/
def Op.touched : Op → List Word
  | .load a | .store a _ => [a, a + 1#32, a + 2#32, a + 3#32]
  | .loadByte a | .storeByte a _ => [a]
  | _ => []

theorem mem_word_iff {x a : Word} : x ∈ [a, a + 1#32, a + 2#32, a + 3#32] ↔ (x - a).toNat < 4 := by
  have hz := Machine.eq_add_iff (x := x) (p := a) (k := 0) (by decide)
  rw [BitVec.add_zero] at hz
  simp only [List.mem_cons, List.not_mem_nil, or_false, hz,
    Machine.eq_add_iff (x := x) (p := a) (k := 1) (by decide), Machine.eq_add_iff (x := x) (p := a)
    (k := 2) (by decide), Machine.eq_add_iff (x := x) (p := a) (k := 3) (by decide)]
  omega

namespace Machine

variable {s t u : Machine} {l l' : List Word} {b : Word → Byte} {a x p q : Word}

/-- `t` is `s` with `b x` stored at each `x` of the list. -/
structure Written (s t : Machine) (l : List Word) (b : Word → Byte) : Prop where
  tables : s.SameTables t
  globals : t.globals = s.globals
  stored : ∀ x ∈ l, ∀ q, s.translate x = some q → t.byte q = b x
  rest : ∀ q, (∀ x ∈ l, s.translate x ≠ some q) → t.byte q = s.byte q
  frames : ∀ f, (∀ x ∈ l, ∀ q, s.translate x = some q → frameOf q ≠ f) → ∀ i, t.mem f i = s.mem f i

theorem SameTables.refl (s : Machine) : s.SameTables s := ⟨rfl, fun _ _ _ => rfl⟩

theorem SameTables.translate (h : s.SameTables t) (hs : s.SelfMapped) : t.translate = s.translate := by
  funext a
  rw [Machine.translate, h.walk hs, Machine.translate]

theorem Written.nil (s : Machine) (b : Word → Byte) : Written s s [] b :=
  ⟨.refl s, rfl, fun _ hx => absurd hx List.not_mem_nil, fun _ _ => rfl, fun _ _ _ => rfl⟩

theorem Written.trans (h : Written s t l b) (h' : Written t u l' b) (hs : s.SelfMapped)
    (hinj : ∀ x ∈ l, ∀ x' ∈ l', ∀ q, s.translate x = some q → s.translate x' = some q → x = x') :
    Written s u (l ++ l') b := by
  have htr := h.tables.translate hs
  refine ⟨h.tables.trans hs h'.tables, h'.globals.trans h.globals, fun x hx q hq => ?_, fun q hq => ?_,
    fun f hf i => ?_⟩
  · by_cases hx' : x ∈ l'
    · exact h'.stored x hx' q (by rw [htr, hq])
    · have hxl := (List.mem_append.mp hx).resolve_right hx'
      rw [h'.rest q fun x' hm hq' => hx' (hinj x hxl x' hm q hq (htr ▸ hq') ▸ hm), h.stored x hxl q hq]
  · rw [h'.rest q fun x hx => htr ▸ hq x (List.mem_append_right l hx),
      h.rest q fun x hx => hq x (List.mem_append_left l' hx)]
  · rw [h'.frames f (fun x hx q hq => hf x (List.mem_append_right l hx) q (htr ▸ hq)) i,
      h.frames f (fun x hx q hq => hf x (List.mem_append_left l' hx) q hq) i]

theorem written_putAt (hm : s.Maps x q) (hu : s.Unused (frameOf q)) (b : Word → Byte) :
    Written s (s.putAt q (b x)) [x] b := by
  refine ⟨.put hu _ _, rfl, fun x' hx' q' hq' => ?_, fun q' hq' => ?_, fun f hf i => ?_⟩
  · obtain rfl := List.mem_singleton.mp hx'
    obtain rfl : q = q' := Option.some.inj (hm.translate.symm.trans hq')
    rw [byte_putAt, if_pos rfl]
  · rw [byte_putAt, if_neg]
    rintro rfl
    exact hq' x (List.mem_singleton.mpr rfl) hm.translate
  · exact poke_of_frame_ne (hf x (List.mem_singleton.mpr rfl) q hm.translate).symm _ _ _

/-- The bytes of the word stored at `a`. -/
def wordBytes (a v x : Word) : Byte := v.extractLsb' (8 * (x - a).toNat) 8

theorem translate_aligned (hp : aligned 4 p) (hm : s.Maps a p) (hx : (x - a).toNat < 4) :
    s.translate x = some (p + (x - a)) := by
  have hk : x = a + BitVec.ofNat 32 (x - a).toNat := by
    rw [BitVec.ofNat_toNat, BitVec.setWidth_eq, BitVec.add_comm, BitVec.sub_add_cancel]
  have hadd := hm.add (k := (x - a).toNat) (by unfold aligned at hp; omega)
  rw [← hk, BitVec.ofNat_toNat, BitVec.setWidth_eq] at hadd
  exact hadd.translate

theorem written_aligned (hp : aligned 4 p) (hm : s.Maps a p) (hu : s.Unused (frameOf p)) (v : Word) :
    Written s (s.put (frameOf p) (wordOf p) v) [a, a + 1#32, a + 2#32, a + 3#32] (wordBytes a v) := by
  refine ⟨.put hu _ _, rfl, fun x hx q hq => ?_, fun q hq => ?_, fun f hf i => ?_⟩
  · have hlt := mem_word_iff.mp hx
    rw [translate_aligned hp hm hlt] at hq
    obtain rfl := Option.some.inj hq
    have hsub : p + (x - a) - p = x - a := by rw [BitVec.add_comm, BitVec.add_sub_cancel]
    rw [byte_put_aligned hp, LittleEndian.put, hsub, if_pos hlt]
    rfl
  · rw [byte_put_aligned hp, LittleEndian.put, if_neg]
    intro hlt
    have hsub : a + (q - p) - a = q - p := by rw [BitVec.add_comm, BitVec.add_sub_cancel]
    refine hq (a + (q - p)) (mem_word_iff.mpr (by rwa [hsub])) ?_
    rw [translate_aligned hp hm (by rwa [hsub]), hsub, BitVec.add_comm, BitVec.sub_add_cancel]
  · exact poke_of_frame_ne (hf a (List.mem_cons_self ..) p hm.translate).symm _ _ _

/-- The byte at a virtual address. -/
def view (s : Machine) (x : Word) : Byte := ((s.translate x).map s.byte).getD 0#8

theorem view_eq (h : s.translate x = some q) : s.view x = s.byte q := by
  rw [view, h, Option.map_some, Option.getD_some]

end Machine

open Machine

/-- An address of the lower half. -/
def Lower (x : Word) : Prop := (dirOf x).toNat < 768

namespace Backed

variable {image : KernelImage} {s t : Machine} {l : List Word} {b : Word → Byte} {a v x x' q : Word}
    {f : Frame}

theorem unused (h : Backed image s) (hf : 0x10000 ≤ f.toNat) : s.Unused f :=
  h.unused_of_apart h.kernelPTIndex (KernelImage.apart_of_ge (by omega))

theorem maps (h : Backed image s) (hx : Lower x) (hm : s.walk (dirOf x) (tabOf x) ≠ none) :
    ∃ q, s.Maps x q ∧
    0x10000 ≤ (frameOf q).toNat ∧ (frameOf q).toNat < s.globals.curPhysaddr.toNat / 4096 := by
  obtain ⟨⟨f, w⟩, hm⟩ := Option.ne_none_iff_exists'.mp hm
  obtain ⟨hw, hlo, hhi⟩ := h.frames _ _ _ hx hm
  obtain rfl : w = true := hw
  refine ⟨f ++ offsetOf x, ⟨?_, (offsetOf_append f _).symm⟩, ?_⟩
  · rw [hm, frameOf_append]
  · rw [frameOf_append]
    exact ⟨hlo, hhi⟩

theorem maps_of_translate (h : Backed image s) (hx : Lower x) (hq : s.translate x = some q) : s.Maps x q ∧
    0x10000 ≤ (frameOf q).toNat ∧ (frameOf q).toNat < s.globals.curPhysaddr.toNat / 4096 := by
  obtain ⟨m, hm, -⟩ := translate_eq_some hq
  obtain ⟨q', hmaps, hrange⟩ := h.maps hx (by rw [hm]; exact Option.some_ne_none _)
  obtain rfl : q' = q := Option.some.inj (hmaps.translate.symm.trans hq)
  exact ⟨hmaps, hrange⟩

theorem translate_inj (h : Backed image s) (hx : Lower x) (hx' : Lower x') (hq : s.translate x = some q)
    (hq' : s.translate x' = some q) : x = x' := by
  obtain ⟨hm, -⟩ := h.maps_of_translate hx hq
  obtain ⟨hm', -⟩ := h.maps_of_translate hx' hq'
  obtain ⟨hd, hi⟩ := h.separate _ _ _ _ _ _ hx hx' hm.1 hm'.1 rfl
  have hf := congrArg BitVec.toNat (frameOf_eq_iff.mpr ⟨hd, hi⟩)
  rw [frameOf_toNat, frameOf_toNat] at hf
  have ho := hm.offset
  have ho' := hm'.offset
  apply BitVec.eq_of_toNat_eq
  omega

/-- One more byte. -/
theorem putByte (h : Backed image s) (hw : Written s t l b) (hl : ∀ x' ∈ l, Lower x') (hx : Lower x)
    (hm : s.walk (dirOf x) (tabOf x) ≠ none) : ∃ u, t.putByte x (b x) = .ok u ∧
    Written s u (l ++ [x]) b := by
  have hs := h.editable.toSelfMapped
  obtain ⟨q, hq, hlo, -⟩ := h.maps hx hm
  have hqt := hq.of_sameTables hw.tables hs
  refine ⟨t.putAt q (b x), hqt.putByte_eq (b x),
    hw.trans (written_putAt hqt ?_ b) hs fun y hy y' hy' p hp hp' => ?_⟩
  · exact (hw.tables.unused hs _).mpr (h.unused hlo)
  · obtain rfl := List.mem_singleton.mp hy'
    exact h.translate_inj (hl y hy) hx hp hp'

theorem wordBytes_add (a v : Word) {k : Nat} (hk : k < 4) :
    wordBytes a v (a + BitVec.ofNat 32 k) = v.extractLsb' (8 * k) 8 := by
  rw [wordBytes, LittleEndian.add_sub_toNat a (by omega)]

theorem exec_store (h : Backed image s) (v : Word) (hl : ∀ x ∈ (Op.store a v).touched, Lower x)
    (hm : ∀ x ∈ (Op.store a v).touched, s.walk (dirOf x) (tabOf x) ≠ none) : ∃ t,
    Machine.exec (.store a v) s = .ok ((), t) ∧ Written s t (Op.store a v).touched (wordBytes a v) := by
  simp only [Op.touched, List.forall_mem_cons, List.not_mem_nil, false_imp_iff, implies_true,
    and_true] at hl hm
  obtain ⟨l₀, l₁, l₂, l₃⟩ := hl
  obtain ⟨m₀, m₁, m₂, m₃⟩ := hm
  by_cases ha : aligned 4 a
  · obtain ⟨p, hp, hlo, -⟩ := h.maps l₀ m₀
    have ho := hp.offset
    have hap : aligned 4 p := by
      unfold aligned at ha ⊢
      omega
    have hw : wordOf a = wordOf p := by
      apply BitVec.eq_of_toNat_eq
      rw [wordOf_toNat, wordOf_toNat]
      omega
    refine ⟨s.put (frameOf p) (wordOf p) v, ?_, written_aligned hap hp (h.unused hlo) v⟩
    rw [Machine.exec, if_pos ha, access, hp.1, hw]
    rfl
  · -- the bytes one after the other
    have b₀ : wordBytes a v a = v.extractLsb' 0 8 := by
      have hb := wordBytes_add a v (k := 0) (by decide)
      rwa [BitVec.add_zero] at hb
    have b₁ := wordBytes_add a v (k := 1) (by decide)
    have b₂ := wordBytes_add a v (k := 2) (by decide)
    have b₃ := wordBytes_add a v (k := 3) (by decide)
    obtain ⟨t₀, r₀, w₀⟩ := h.putByte (.nil s (wordBytes a v)) (by simp) l₀ m₀
    obtain ⟨t₁, r₁, w₁⟩ := h.putByte w₀ (by simpa using l₀) l₁ m₁
    obtain ⟨t₂, r₂, w₂⟩ := h.putByte w₁ (by simpa using ⟨l₀, l₁⟩) l₂ m₂
    obtain ⟨t₃, r₃, w₃⟩ := h.putByte w₂ (by simpa using ⟨l₀, l₁, l₂⟩) l₃ m₃
    rw [b₀] at r₀
    rw [b₁] at r₁
    rw [b₂] at r₂
    rw [b₃] at r₃
    refine ⟨t₃, ?_, w₃⟩
    simp only [Machine.exec, if_neg ha, putWord, bind, Except.bind, r₀, r₁, r₂, r₃, Except.map]

theorem byteAt (h : Backed image s) (hx : Lower x) (hm : s.walk (dirOf x) (tabOf x) ≠ none) :
    s.byteAt x = .ok (s.view x) := by
  obtain ⟨q, hq, -⟩ := h.maps hx hm
  rw [byteAt_eq hq.translate, view_eq hq.translate]

theorem exec_load (h : Backed image s) (hl : ∀ x ∈ (Op.load a).touched, Lower x)
    (hm : ∀ x ∈ (Op.load a).touched, s.walk (dirOf x) (tabOf x) ≠ none) :
    Machine.exec (.load a) s = .ok (LittleEndian.word s.view a, s) := by
  simp only [Op.touched, List.forall_mem_cons, List.not_mem_nil, false_imp_iff, implies_true,
    and_true] at hl hm
  obtain ⟨l₀, l₁, l₂, l₃⟩ := hl
  obtain ⟨m₀, m₁, m₂, m₃⟩ := hm
  by_cases ha : aligned 4 a
  · obtain ⟨p, hp, -⟩ := h.maps l₀ m₀
    have ho := hp.offset
    have hr := hp.reads (k := 0) (by unfold aligned at ha; omega)
    rw [BitVec.add_zero, BitVec.add_zero] at hr
    have hrun := run_load_word hr
    rw [Code.load, Machine.run, Prog.run_perform] at hrun
    rw [hrun, Machine.word, LittleEndian.word, LittleEndian.word, view_eq hr.1,
      view_eq (hr.2 1 (by decide)), view_eq (hr.2 2 (by decide)), view_eq (hr.2 3 (by decide))]
  · simp only [Machine.exec, if_neg ha, wordAt, bind, Except.bind, pure, Except.pure, h.byteAt l₀ m₀,
      h.byteAt l₁ m₁, h.byteAt l₂ m₂, h.byteAt l₃ m₃, Except.map]
    rfl

end Backed

end PekOS
