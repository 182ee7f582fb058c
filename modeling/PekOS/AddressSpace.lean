import PekOS.MapPage

/-! The page tables as a partial map from virtual pages to physical ones, and
`map_page` as an insertion into it. -/

namespace PekOS

open OpTree

/-- What `map_page` is for: a page that is not mapped is entered, every other
page stays as it is. -/
def enter (space : Index → Index → Option Mapping) (d t : Index) (m : Mapping) :
    Index → Index → Option Mapping :=
  fun d' t' => if d' = d ∧ t' = t then some ((space d t).getD m) else space d' t'

theorem enter_same (space : Index → Index → Option Mapping) (d t : Index) (m : Mapping) :
    enter space d t m d t = some ((space d t).getD m) := if_pos ⟨rfl, rfl⟩

theorem enter_of_ne (space : Index → Index → Option Mapping) {d t d' t' : Index} (m : Mapping)
    (h : ¬ (d' = d ∧ t' = t)) : enter space d t m d' t' = space d' t' := if_neg h

namespace Machine

/-- No frame serves under two directory entries, the directory's own included. -/
def TablesDistinct (s : Machine) : Prop :=
  ∀ d d', PekOS.present (s.pde d) = true → PekOS.present (s.pde d') = true →
    frameOf (s.pde d) = frameOf (s.pde d') → d = d'

/-- No directory entry refers to the frame. -/
def Unused (s : Machine) (f : Frame) : Prop :=
  ∀ d, PekOS.present (s.pde d) = true → frameOf (s.pde d) ≠ f

variable {s : Machine}

theorem walk_eq_none_iff {d t : Index} :
    s.walk d t = none ↔ PekOS.present (s.pde d) = false ∨ PekOS.present (s.pte d t) = false := by
  unfold walk
  by_cases hd : PekOS.present (s.pde d) = true
  · by_cases ht : PekOS.present (s.pte d t) = true
    · simp [hd, ht]
    · simp [hd, ht]
  · simp [hd]

theorem of_walk {d t : Index} {m : Mapping} (h : s.walk d t = some m) :
    PekOS.present (s.pde d) = true ∧ PekOS.present (s.pte d t) = true ∧
    m.frame = frameOf (s.pte d t) := by
  unfold walk at h
  split at h
  · next hp =>
    rw [Bool.and_eq_true] at hp
    obtain rfl := Option.some.inj h
    exact ⟨hp.1, hp.2, rfl⟩
  · cases h

theorem present_pte_of_walk {d t : Index} (hd : PekOS.present (s.pde d) = true)
    (h : s.walk d t = none) : PekOS.present (s.pte d t) = false :=
  (walk_eq_none_iff.mp h).resolve_left fun hf => by rw [hd] at hf; exact Bool.noConfusion hf

theorem walk_congr {u : Machine} {d t : Index} (hd : u.pde d = s.pde d)
    (ht : PekOS.present (s.pde d) = true → u.pte d t = s.pte d t) : u.walk d t = s.walk d t := by
  by_cases hp : PekOS.present (s.pde d) = true
  · rw [walk, walk, hd, ht hp]
  · simp [walk, hd, hp]

theorem SelfMapped.frame_ne (hs : s.SelfMapped) (ht : s.TablesDistinct) {d : Index}
    (hp : PekOS.present (s.pde d) = true) (hne : d ≠ selfDir) : frameOf (s.pde d) ≠ s.cr3 :=
  fun h => hne (ht d selfDir hp hs.present (h.trans hs.frame.symm))

theorem Unused.ne_cr3 {f : Frame} (hu : s.Unused f) (hs : s.SelfMapped) : f ≠ s.cr3 :=
  fun h => hu selfDir hs.present (hs.frame.trans h.symm)

theorem pde_put_of_frame_ne {f : Frame} (hf : f ≠ s.cr3) (t : Index) (w : Word) (d : Index) :
    (s.put f t w).pde d = s.pde d := by
  rw [pde, put_mem, put_cr3, poke_of_frame_ne hf.symm, pde]

theorem SelfMapped.walk_put (hs : s.SelfMapped) (ht : s.TablesDistinct) {d : Index}
    (hp : PekOS.present (s.pde d) = true) (hne : d ≠ selfDir) (t : Index) (w : Word) (d' t' : Index) :
    (s.put (frameOf (s.pde d)) t w).walk d' t' =
      if d' = d ∧ t' = t then
        if PekOS.present w then some ⟨frameOf w, PekOS.writable (s.pde d) && PekOS.writable w⟩ else none
      else s.walk d' t' := by
  have hpde := pde_put_of_frame_ne (hs.frame_ne ht hp hne) t w
  have hpte (d' t' : Index) : (s.put (frameOf (s.pde d)) t w).pte d' t' =
      if frameOf (s.pde d') = frameOf (s.pde d) ∧ t' = t then w else s.pte d' t' := by
    rw [pte, hpde, put_mem, poke]
    rfl
  by_cases he : d' = d ∧ t' = t
  · obtain ⟨rfl, rfl⟩ := he
    have hw : (s.put (frameOf (s.pde d')) t' w).pte d' t' = w := by rw [hpte]; exact if_pos ⟨rfl, rfl⟩
    rw [if_pos ⟨rfl, rfl⟩, walk, hpde, hw, hp, Bool.true_and]
  · rw [if_neg he]
    refine walk_congr (hpde d') fun hp' => ?_
    rw [hpte, if_neg fun h => he ⟨ht d' d hp' hp h.1, h.2⟩]

theorem SelfMapped.tablesDistinct_put (hs : s.SelfMapped) (ht : s.TablesDistinct) {d : Index}
    (hp : PekOS.present (s.pde d) = true) (hne : d ≠ selfDir) (t : Index) (w : Word) :
    (s.put (frameOf (s.pde d)) t w).TablesDistinct := by
  intro d₁ d₂
  rw [pde_put_of_frame_ne (hs.frame_ne ht hp hne), pde_put_of_frame_ne (hs.frame_ne ht hp hne)]
  exact ht d₁ d₂

section Image

variable {image : KernelImage}

/-- Entering a cleared page table under `d`: its own page appears in the window. -/
theorem Editable.walk_newTable (hs : s.Editable) (ht : s.TablesDistinct)
    (hu : s.Unused (frameOf (s.nextTable image))) {d : Index} (hd : PekOS.present (s.pde d) = false)
    (d' t' : Index) :
    (s.newTable image d).walk d' t' =
      if d' = selfDir ∧ t' = d then some ⟨frameOf (s.nextTable image), true⟩ else s.walk d' t' := by
  have hF := hu.ne_cr3 hs.toSelfMapped
  have hn := hs.newTable image hd hF
  have hsame := pde_newTable_same image hF d
  by_cases hself : d' = selfDir
  · by_cases he : t' = d
    · rw [if_pos ⟨hself, he⟩, hself, he, hn.walk_window, hsame, hn.writable]
      simp
    · rw [if_neg fun h => he h.2, hself, hn.walk_window, pde_newTable_of_ne image hF he, hs.walk_window,
        hn.writable, hs.writable]
  · rw [if_neg fun h => hself h.1]
    by_cases hd' : d' = d
    · -- the new table is clear
      rw [hd', walk_eq_none_iff.mpr (Or.inl hd), walk_eq_none_iff, pte, hsame, frameOf_or_three,
        Machine.newTable, clearTo_mem, zeroTo_frame]
      exact Or.inr rfl
    · have hpde := pde_newTable_of_ne image hF hd'
      refine walk_congr hpde fun hp => ?_
      rw [pte, hpde, Machine.newTable, clearTo_mem, zeroTo_of_frame_ne (hu d' hp), enterTable, put_mem,
        poke_of_frame_ne (hs.frame_ne ht hp hself)]
      rfl

theorem Editable.tablesDistinct_newTable (hs : s.Editable) (ht : s.TablesDistinct)
    (hu : s.Unused (frameOf (s.nextTable image))) (d : Index) :
    (s.newTable image d).TablesDistinct := by
  have hF := hu.ne_cr3 hs.toSelfMapped
  have hsame := pde_newTable_same image hF d
  intro d₁ d₂ h₁ h₂ hf
  by_cases hd₁ : d₁ = d
  · by_cases hd₂ : d₂ = d
    · rw [hd₁, hd₂]
    · rw [pde_newTable_of_ne image hF hd₂] at h₂ hf
      rw [hd₁, hsame, frameOf_or_three] at hf
      exact absurd hf.symm (hu d₂ h₂)
  · rw [pde_newTable_of_ne image hF hd₁] at h₁ hf
    by_cases hd₂ : d₂ = d
    · rw [hd₂, hsame, frameOf_or_three] at hf
      exact absurd hf (hu d₁ h₁)
    · rw [pde_newTable_of_ne image hF hd₂] at h₂ hf
      exact ht d₁ d₂ h₁ h₂ hf

/-- The directory after `map_page`: at most the entry of `v` has been added. -/
theorem SelfMapped.pde_afterMap (hs : s.SelfMapped) (ht : s.TablesDistinct) {p v flags : Word}
    (hv : dirOf v ≠ selfDir)
    (hu : PekOS.present (s.pde (dirOf v)) = false → s.Unused (frameOf (s.nextTable image))) (d : Index) :
    (s.afterMap image p v flags).pde d =
      if PekOS.present (s.pde (dirOf v)) = false ∧ d = dirOf v then s.nextTable image ||| 3#32
        else s.pde d := by
  unfold afterMap
  by_cases hd : PekOS.present (s.pde (dirOf v)) = true
  · have hno : ¬ (PekOS.present (s.pde (dirOf v)) = false ∧ d = dirOf v) := fun h => by
      rw [hd] at h
      exact Bool.noConfusion h.1
    rw [if_pos hd, if_neg hno]
    split
    · rfl
    · exact pde_put_of_frame_ne (hs.frame_ne ht hd hv) _ _ d
  · have hd' := Bool.eq_false_iff.mpr hd
    have hF := (hu hd').ne_cr3 hs
    rw [if_neg hd, pde_put_of_frame_ne (s := s.newTable image (dirOf v)) hF]
    by_cases he : d = dirOf v
    · rw [if_pos ⟨hd', he⟩, he, pde_newTable_same image hF]
    · rw [if_neg fun h => he h.2, pde_newTable_of_ne image hF he]

/-- What `map_page` enters for `v`: the low twelve bits are the flags. -/
def mappingOf (p flags : Word) : Mapping := ⟨frameOf p, PekOS.writable flags⟩

theorem present_entry {p flags : Word} (hflags : PekOS.present flags = true) :
    PekOS.present (p ||| (flags &&& 0xFFF#32)) = true := by
  rw [present_or, present_and_low, hflags, Bool.or_true]

theorem writable_entry {p : Word} (hp : aligned 4096 p) (flags : Word) :
    PekOS.writable (p ||| (flags &&& 0xFFF#32)) = PekOS.writable flags := by
  rw [writable_or, writable_of_aligned hp, writable_and_low, Bool.false_or]

/-- `map_page` enters the page of `v`, and a page of the window when it has
needed a new page table; everything else translates as before. -/
theorem Editable.walk_afterMap (hs : s.Editable) (ht : s.TablesDistinct) {p v flags : Word}
    (hp : aligned 4096 p) (hv : dirOf v ≠ selfDir) (hflags : PekOS.present flags = true)
    (hw : PekOS.present (s.pde (dirOf v)) = true → PekOS.writable (s.pde (dirOf v)) = true)
    (hu : PekOS.present (s.pde (dirOf v)) = false → s.Unused (frameOf (s.nextTable image))) :
    (s.afterMap image p v flags).walk =
      enter (fun d t => if PekOS.present (s.pde (dirOf v)) = false ∧ d = selfDir ∧ t = dirOf v then
        some ⟨frameOf (s.nextTable image), true⟩ else s.walk d t) (dirOf v) (tabOf v)
        (mappingOf p flags) := by
  funext d t
  by_cases hd : PekOS.present (s.pde (dirOf v)) = true
  · have hnew (d t : Index) : ¬ (PekOS.present (s.pde (dirOf v)) = false ∧ d = selfDir ∧ t = dirOf v) :=
      fun h => by rw [hd] at h; exact Bool.noConfusion h.1
    simp only [enter, if_neg (hnew _ _), afterMap, if_pos hd]
    by_cases ht' : PekOS.present (s.pte (dirOf v) (tabOf v)) = true
    · rw [if_pos ht']
      by_cases he : d = dirOf v ∧ t = tabOf v
      · rw [if_pos he, he.1, he.2, walk, hd, ht', Bool.and_self, if_pos rfl, Option.getD_some]
      · rw [if_neg he]
    · have hnone := walk_eq_none_iff.mpr (Or.inr (Bool.eq_false_iff.mpr ht'))
      rw [if_neg ht', hs.walk_put ht hd hv, present_entry hflags, if_pos rfl, frameOf_or_low,
        writable_entry hp, hw hd, Bool.true_and, hnone, Option.getD_none, mappingOf]
  · have hd' := Bool.eq_false_iff.mpr hd
    have hF := (hu hd').ne_cr3 hs.toSelfMapped
    have hn := hs.newTable image hd' hF
    have hnt := hs.tablesDistinct_newTable ht (hu hd') (dirOf v)
    have hsame := pde_newTable_same image hF (dirOf v)
    have hput := hn.walk_put hnt (d := dirOf v) (by simp [hsame]) hv (tabOf v)
      (p ||| (flags &&& 0xFFF#32)) d t
    rw [hsame, frameOf_or_three, present_entry hflags, if_pos rfl, frameOf_or_low, writable_or_three,
      writable_entry hp, Bool.true_and, hs.walk_newTable ht (hu hd') hd'] at hput
    have hnone : s.walk (dirOf v) (tabOf v) = none := walk_eq_none_iff.mpr (Or.inl hd')
    have hold : ¬ (dirOf v = selfDir ∧ tabOf v = dirOf v) := fun h => hv h.1
    rw [afterMap, if_neg hd, hput]
    simp only [enter, hd', true_and, if_neg hold, hnone, Option.getD_none, mappingOf]

end Image

end Machine

end PekOS
