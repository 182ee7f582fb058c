import PekOS.MapPage
import PekOS.Library.FirstFit

/-! The bitmap of virtual pages: `map_virtual_memory` copies the present bits
of the tables into it, and `find_free_virtaddr` serves its clear pages, from
the cursor on, in order. -/

namespace PekOS

open OpTree FirstFit

/-- The bit of a page: bit `31 - page % 32` of word `page / 32`. -/
def marked (mmap : Nat → Word) (page : Nat) : Bool := (mmap (page / 32)).getLsbD (31 - page % 32)

/-- The pages `find_free_virtaddr` still has to serve. -/
def Globals.freePages (g : Globals) : List Nat :=
  free (marked g.virtualMmap) (g.curVirtaddrIdx * 32) (1024 * 1024)

def Globals.takePage (g : Globals) (page : Nat) : Globals :=
  { g with
    virtualMmap := Function.update g.virtualMmap (page / 32)
      (g.virtualMmap (page / 32) ||| (1#32 <<< (31 - page % 32)))
    curVirtaddrIdx := page / 32 }

def pageAddr (page : Nat) : Word := BitVec.ofNat 32 page <<< 12

theorem pageAddr_toNat {page : Nat} (h : page < 1024 * 1024) : (pageAddr page).toNat = page * 4096 := by
  simp only [pageAddr, BitVec.toNat_shiftLeft, BitVec.toNat_ofNat, Nat.shiftLeft_eq]
  omega

theorem shiftRight_and_one (w : Word) (k : Nat) : w >>> k &&& 1#32 = 1#32 ↔ w.getLsbD k = true := by
  rw [and_one_eq_one_iff, present, BitVec.getLsbD_ushiftRight, Nat.add_zero]

theorem getLsbD_or_shift_one (w : Word) {j k : Nat} (hk : k < 32) :
    (w ||| 1#32 <<< k).getLsbD j = (decide (j = k) || w.getLsbD j) := by
  rw [BitVec.getLsbD_or, BitVec.getLsbD_shiftLeft, BitVec.getLsbD_one, Bool.or_comm]
  by_cases hj : j = k
  · simp [hj, hk]
  · by_cases hlt : j < k
    · simp [hj, hlt]
    · simp [hj, show ¬ j - k = 0 by omega]

theorem marked_takePage (g : Globals) (page q : Nat) :
    marked (g.takePage page).virtualMmap q = (decide (q = page) || marked g.virtualMmap q) := by
  simp only [marked, Globals.takePage]
  by_cases hw : q / 32 = page / 32
  · rw [hw, Function.update_self, getLsbD_or_shift_one _ (by omega)]
    congr 1
    rw [decide_eq_decide]
    omega
  · have hq : q ≠ page := fun hq => hw (by rw [hq])
    rw [Function.update_of_ne hw, decide_eq_false hq, Bool.false_or]

/-- The search of one word is the search of its 32 pages. -/
theorem clearBit_eq (mmap : Nat → Word) (ptr : Nat) {i n : Nat} (h : i + n ≤ 32) :
    (clearBit (mmap ptr) i n).map (ptr * 32 + ·) =
      (free (marked mmap) (ptr * 32 + i) (ptr * 32 + i + n)).head? := by
  induction n generalizing i with
  | zero => simp [clearBit, free]
  | succ n ih =>
    have hm : marked mmap (ptr * 32 + i) = (mmap ptr).getLsbD (31 - i) := by
      rw [marked, show (ptr * 32 + i) / 32 = ptr by omega, show (ptr * 32 + i) % 32 = i by omega]
    rw [clearBit, free_succ (by omega), hm]
    simp only [ne_eq, shiftRight_and_one]
    cases (mmap ptr).getLsbD (31 - i) with
    | false => simp
    | true =>
      have hs := ih (i := i + 1) (by omega)
      rw [← Nat.add_assoc (ptr * 32) i 1] at hs
      simpa [show ptr * 32 + i + (n + 1) = ptr * 32 + i + 1 + n by omega] using hs

theorem clearBit_lt {w : Word} {i n j : Nat} (h : clearBit w i n = some j) : j < i + n := by
  induction n generalizing i with
  | zero => simp [clearBit] at h
  | succ n ih =>
    rw [clearBit] at h
    split at h
    · simp only [Option.some.injEq] at h
      omega
    · exact Nat.lt_of_lt_of_eq (ih h) (by omega)

theorem clearWord_eq (mmap : Nat → Word) (ptr n : Nat) :
    (clearWord mmap ptr n).map (fun r => r.1 * 32 + r.2) =
      (free (marked mmap) (ptr * 32) ((ptr + n) * 32)).head? := by
  induction n generalizing ptr with
  | zero => simp [clearWord, free]
  | succ n ih =>
    have hb := clearBit_eq mmap ptr (i := 0) (n := 32) (by omega)
    rw [clearWord, free_split _ (show ptr * 32 ≤ ptr * 32 + 32 by omega) (by omega),
      List.head?_append, ← Nat.add_zero (ptr * 32), ← hb]
    cases clearBit (mmap ptr) 0 32 with
    | none =>
      simp only [Option.map_none, Option.none_or]
      rw [ih, show (ptr + 1) * 32 = ptr * 32 + 0 + 32 by omega, Nat.add_right_comm ptr 1 n]
      rfl
    | some i => simp

theorem clearWord_lt {mmap : Nat → Word} {ptr n : Nat} {r : Nat × Nat}
    (h : clearWord mmap ptr n = some r) : r.2 < 32 := by
  induction n generalizing ptr with
  | zero => simp [clearWord] at h
  | succ n ih =>
    rw [clearWord] at h
    cases hb : clearBit (mmap ptr) 0 32 with
    | none => exact ih (by simpa [hb] using h)
    | some i =>
      simp only [hb, Option.some.injEq] at h
      exact h ▸ clearBit_lt hb

theorem findFreeVirtaddr_cons {g : Globals} {page : Nat} {rest : List Nat}
    (h : g.freePages = page :: rest) :
    findFreeVirtaddr g = (pageAddr page, g.takePage page) := by
  obtain ⟨hlo, hhi, -⟩ := free_head h
  have hw := clearWord_eq g.virtualMmap g.curVirtaddrIdx (1024 * 32 - g.curVirtaddrIdx)
  rw [show (g.curVirtaddrIdx + (1024 * 32 - g.curVirtaddrIdx)) * 32 = 1024 * 1024 by omega,
    ← Globals.freePages, h, List.head?_cons] at hw
  obtain ⟨⟨ptr, i⟩, hr, rfl⟩ := Option.map_eq_some_iff.mp hw
  have hi := clearWord_lt hr
  simp only [findFreeVirtaddr, hr, Globals.takePage, pageAddr,
    show (ptr * 32 + i) / 32 = ptr by omega, show (ptr * 32 + i) % 32 = i by omega]

theorem findFreeVirtaddr_nil {g : Globals} (h : g.freePages = []) : findFreeVirtaddr g = (0#32, g) := by
  have hw := clearWord_eq g.virtualMmap g.curVirtaddrIdx (1024 * 32 - g.curVirtaddrIdx)
  have hnil : free (marked g.virtualMmap) (g.curVirtaddrIdx * 32)
      ((g.curVirtaddrIdx + (1024 * 32 - g.curVirtaddrIdx)) * 32) = [] := by
    by_cases hc : g.curVirtaddrIdx ≤ 1024 * 32
    · rw [show (g.curVirtaddrIdx + (1024 * 32 - g.curVirtaddrIdx)) * 32 = 1024 * 1024 by omega]
      exact h
    · rw [show g.curVirtaddrIdx + (1024 * 32 - g.curVirtaddrIdx) = g.curVirtaddrIdx by omega]
      simp [free]
  rw [hnil, List.head?_nil, Option.map_eq_none_iff] at hw
  simp [findFreeVirtaddr, hw]

theorem freePages_takePage {g : Globals} {page : Nat} {rest : List Nat}
    (h : g.freePages = page :: rest) : (g.takePage page).freePages = rest := by
  have hlo := (free_head h).1
  have hle : g.curVirtaddrIdx * 32 ≤ page / 32 * 32 := by omega
  have hpage : page / 32 * 32 ≤ page := by omega
  exact free_of_take h hle hpage (marked_takePage g page)

def findFreeVirtaddrs : Nat → Globals → List Word
  | 0, _ => []
  | n + 1, g => (findFreeVirtaddr g).1 :: findFreeVirtaddrs n (findFreeVirtaddr g).2

/-- A call answers with the page the queue serves, or `NULL`. -/
theorem findFreeVirtaddrs_eq (n : Nat) (g : Globals) :
    findFreeVirtaddrs n g = (served n g.freePages).map fun r => (r.map pageAddr).getD 0#32 := by
  induction n generalizing g with
  | zero => rfl
  | succ n ih =>
    rw [findFreeVirtaddrs, ih, served, List.map_cons]
    cases h : g.freePages with
    | nil => rw [findFreeVirtaddr_nil h, h]; rfl
    | cons page rest => rw [findFreeVirtaddr_cons h, freePages_takePage h]; rfl

namespace Machine

/-- Whether the tables map a page as present. -/
def mapped (s : Machine) (page : Nat) : Bool :=
  (s.walk (BitVec.ofNat 10 (page / 1024)) (BitVec.ofNat 10 page)).isSome

def withMmap (s : Machine) (m : Nat → Word) : Machine :=
  { s with globals := { s.globals with virtualMmap := m } }

@[simp] theorem withMmap_globals (s : Machine) (m : Nat → Word) :
    (s.withMmap m).globals = { s.globals with virtualMmap := m } := rfl

theorem mapped_eq (s : Machine) (page : Nat) :
    s.mapped page = (PekOS.present (s.pde (BitVec.ofNat 10 (page / 1024))) &&
      PekOS.present (s.pte (BitVec.ofNat 10 (page / 1024)) (BitVec.ofNat 10 page))) := by
  unfold mapped walk
  split
  · next h => rw [h]; rfl
  · next h => rw [Bool.eq_false_iff.mpr h]; rfl

variable {s : Machine}

theorem SelfMapped.withMmap (hs : s.SelfMapped) (m : Nat → Word) : (s.withMmap m).SelfMapped :=
  hs.of_pde rfl rfl

theorem run_setMmap (m : Nat → Word) (i : Nat) (w : Word) :
    (s.withMmap m).run (setMmap i w) = .ok ((), s.withMmap (Function.update m i w)) :=
  run_modify _

theorem getLsbD_push (cnt e : Word) {i : Nat} (hi : i < 32) :
    (cnt <<< 1 ||| (e &&& 1#32)).getLsbD i = if i = 0 then PekOS.present e else cnt.getLsbD (i - 1) := by
  rw [BitVec.getLsbD_or, BitVec.getLsbD_shiftLeft, BitVec.getLsbD_and, BitVec.getLsbD_one]
  by_cases h : i = 0
  · simp [h, PekOS.present]
  · simp [h, hi, show ¬ i < 1 by omega]

theorem SelfMapped.run_groupBits (hs : s.SelfMapped) {d : Index} (hd : PekOS.present (s.pde d) = true)
    {group : Nat} (hg : group < 32) :
    ∃ w, s.run (groupBits (0xFFC00000#32 + (d.setWidth 32 <<< 12)) group) = .ok (w, s) ∧
      ∀ k < 32, w.getLsbD (31 - k) = PekOS.present (s.pte d (BitVec.ofNat 10 (group * 32 + k))) := by
  unfold groupBits
  have hloop := Prog.run_forUp exec (n := 32) (s := s) (b := (0#32 : Word))
    (fun entry (cnt : Word) => do
      let e ← Code.load (0xFFC00000#32 + (d.setWidth 32 <<< 12) + 4#32 * BitVec.ofNat 32
        (group * 32 + entry))
      return cnt <<< 1 ||| (e &&& 1#32))
    (fun n cnt u => u = s ∧ ∀ k < n, cnt.getLsbD (n - 1 - k) =
      PekOS.present (s.pte d (BitVec.ofNat 10 (group * 32 + k)))) ⟨rfl, by simp⟩ ?_
  · obtain ⟨w, u, hr, rfl, hw⟩ := hloop
    exact ⟨w, hr, hw⟩
  · rintro n cnt u hn ⟨rfl, hcnt⟩
    have hload := hs.run_load_pte hd (BitVec.ofNat 10 (group * 32 + n))
    rw [pteAddr, ← ofNat_eq_setWidth (by omega)] at hload
    refine ⟨_, u, Prog.run_bind_ok exec hload, rfl, fun k hk => ?_⟩
    rw [getLsbD_push _ _ (by omega)]
    by_cases he : k = n
    · rw [if_pos (by omega), he]
    · rw [if_neg (by omega), show n + 1 - 1 - k - 1 = n - 1 - k by omega, hcnt k (by omega)]

/-- The 32 words of one directory entry, each computed by `body`. -/
theorem run_groups {body : Nat → Code Unit} {pdindex : Nat} (bit : Nat → Bool)
    (hbody : ∀ group m, group < 32 → ∃ w : Word,
      (s.withMmap m).run (body group) =
        .ok ((), s.withMmap (Function.update m (pdindex * 32 + group) w)) ∧
      ∀ k < 32, w.getLsbD (31 - k) = bit (group * 32 + k)) (m : Nat → Word) :
    ∃ m', (s.withMmap m).run (Prog.forUp 32 () fun group _ => body group) = .ok ((), s.withMmap m') ∧
      ∀ page, marked m' page = if page / 1024 = pdindex then bit (page % 1024) else marked m page := by
  obtain ⟨⟨⟩, u, hr, m', rfl, hm'⟩ := Prog.run_forUp exec (n := 32) (s := s.withMmap m) (b := ())
    (fun group _ => body group)
    (fun n _ u => ∃ m', u = s.withMmap m' ∧ ∀ page, marked m' page =
      if page / 1024 = pdindex ∧ page / 32 < pdindex * 32 + n then bit (page % 1024) else marked m page)
    ⟨m, rfl, fun page => by rw [if_neg (by omega)]⟩ (by
      rintro n - u hn ⟨m₁, rfl, hm₁⟩
      obtain ⟨w, hr, hw⟩ := hbody n m₁ hn
      refine ⟨(), _, hr, _, rfl, fun page => ?_⟩
      by_cases hp : page / 32 = pdindex * 32 + n
      · rw [if_pos (by omega), marked, hp, Function.update_self, hw _ (by omega)]
        exact congrArg bit (by omega)
      · have hiff : (page / 1024 = pdindex ∧ page / 32 < pdindex * 32 + (n + 1)) ↔
            (page / 1024 = pdindex ∧ page / 32 < pdindex * 32 + n) := by omega
        rw [marked, Function.update_of_ne hp, ← marked, hm₁]
        simp only [hiff])
  refine ⟨m', hr, fun page => ?_⟩
  have hiff : (page / 1024 = pdindex ∧ page / 32 < pdindex * 32 + 32) ↔ page / 1024 = pdindex := by omega
  rw [hm']
  simp only [hiff]

/-- `map_virtual_memory`: afterwards the bits are those of the tables. -/
theorem SelfMapped.run_mapVirtualMemory (hs : s.SelfMapped) :
    ∃ m, s.run mapVirtualMemory = .ok ((), s.withMmap m) ∧
      ∀ page < 1024 * 1024, marked m page = s.mapped page := by
  have hloop := Prog.run_forUp exec (n := 1024) (s := s) (b := ())
    (fun pdindex _ => do
      let pde ← Code.load (0xFFFFF000#32 + 4#32 * BitVec.ofNat 32 pdindex)
      if pde &&& 1#32 = 0#32 then
        Prog.forUp 32 () fun group _ => setMmap (pdindex * 32 + group) 0#32
      else
        Prog.forUp 32 () fun group _ => do
          let cnt ← groupBits (0xFFC00000#32 + (BitVec.ofNat 32 pdindex <<< 12)) group
          setMmap (pdindex * 32 + group) cnt)
    (fun n _ u => ∃ m, u = s.withMmap m ∧ ∀ page < n * 1024, marked m page = s.mapped page)
    ⟨s.globals.virtualMmap, rfl, by simp⟩ ?_
  · obtain ⟨⟨⟩, u, hr, m, rfl, hm⟩ := hloop
    exact ⟨m, hr, hm⟩
  rintro n - u hn ⟨m, rfl, hm⟩
  have hload := (hs.withMmap m).run_load_pde (BitVec.ofNat 10 n)
  rw [← pd_add_eq_pteAddr, ← ofNat_eq_setWidth hn] at hload
  simp only [ite_and_one]
  -- the bits of the pages below the entry, whichever branch is taken
  have hgroups : ∃ m', (s.withMmap m).run (if PekOS.present (s.pde (BitVec.ofNat 10 n)) = true then
        Prog.forUp 32 () fun group _ => do
          let cnt ← groupBits (0xFFC00000#32 + (BitVec.ofNat 32 n <<< 12)) group
          setMmap (n * 32 + group) cnt
      else Prog.forUp 32 () fun group _ => setMmap (n * 32 + group) 0#32) = .ok ((), s.withMmap m') ∧
      ∀ page, marked m' page =
        if page / 1024 = n then PekOS.present (s.pde (BitVec.ofNat 10 n)) &&
          PekOS.present (s.pte (BitVec.ofNat 10 n) (BitVec.ofNat 10 (page % 1024)))
        else marked m page := by
    by_cases hp : PekOS.present (s.pde (BitVec.ofNat 10 n)) = true
    · simp only [hp, if_true, Bool.true_and]
      refine run_groups (fun k => PekOS.present (s.pte (BitVec.ofNat 10 n) (BitVec.ofNat 10 k)))
        (fun group m hg => ?_) m
      obtain ⟨w, hr, hw⟩ := (hs.withMmap m).run_groupBits (d := BitVec.ofNat 10 n) hp hg
      rw [← ofNat_eq_setWidth hn] at hr
      exact ⟨w, by rw [run, Prog.run_bind_ok exec hr]; exact run_setMmap m _ w, hw⟩
    · simp only [hp, Bool.false_and]
      exact run_groups (fun _ => false) (fun group m hg => ⟨0#32, run_setMmap m _ _, by simp⟩) m
  obtain ⟨m', hr, hm'⟩ := hgroups
  refine ⟨(), _, (Prog.run_bind_ok exec hload).trans hr, m', rfl, fun page hpage => ?_⟩
  rw [hm', mapped_eq]
  by_cases hp : page / 1024 = n
  · have ht : BitVec.ofNat 10 (page % 1024) = BitVec.ofNat 10 page := by
      apply BitVec.eq_of_toNat_eq
      simp only [BitVec.toNat_ofNat]
      omega
    rw [if_pos hp, hp, ht]
  · have hle : page / 1024 < n + 1 := Nat.div_lt_of_lt_mul (by rwa [Nat.mul_comm])
    have hlt : page < n * 1024 := (Nat.div_lt_iff_lt_mul (by omega)).mp (by omega)
    rw [if_neg hp, hm page hlt, mapped_eq]

end Machine

end PekOS
