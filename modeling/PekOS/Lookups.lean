import PekOS.Demand
import PekOS.Searches

/-! The lookups of `init_rsdt`, `init_apic` and `init_ps2`: the RSDP, an SDT by
its signature, a MADT record by its type. -/

namespace PekOS

open OpTree

/-- The start of the devices in `kernel_main`. -/
def initDevices (image : KernelImage) (fuel : Nat) : Code Unit := do
  initRsdt image
  initApic image fuel
  initPs2 fuel

/-- Not a dereference of a lookup's `NULL`. -/
def Op.NotNull : Op → Prop
  | .deref _ p => p ≠ 0#32
  | _ => True

theorem Op.Neutral.notNull {o : Op} (h : o.Neutral) : o.NotNull := by
  cases o with
  | deref l p => exact h.elim
  | _ => trivial

theorem Neutral.notNull {α : Type} {p : Code α} (h : Neutral p) : Prog.All Op.NotNull p :=
  h.mono fun _ => Op.Neutral.notNull

theorem Op.Searching.neutral {o : Op} (h : o.Searching) : o.Neutral := by
  cases o with
  | globals f =>
    intro g
    obtain ⟨_, _, hg⟩ := h g
    rw [hg]
    exact ⟨rfl, rfl, rfl⟩
  | load | loadByte => trivial
  | _ => exact h.elim

theorem Searching.neutral {α : Type} {p : Code α} (h : Searching p) : Neutral p :=
  h.mono fun _ => Op.Searching.neutral

namespace Neutral

theorem mapEntries (image : KernelImage) (table : Word) (stride n : Nat) :
    Neutral (PekOS.mapEntries image table stride n) :=
  Prog.All.forUp (fun _ _ => (load _).bind fun _ => findFreeVirtaddr.bind fun _ =>
    (mapPage image _ _ _).bind fun _ => (store _ _).bind fun _ => (load _).bind fun _ =>
      (Searching.readSignature _).neutral) n ()

theorem mapRootTable (image : KernelImage) (rsdtPhysaddr : Word) :
    Neutral (PekOS.mapRootTable image rsdtPhysaddr) := by
  have hread (f : Word → Globals → Globals) (hf : ∀ e g, SameLookups g (f e g))
      (table d : Word) (stride : Nat) : Neutral (PekOS.readSignature table >>= fun _ =>
        Code.load (table + 4#32) >>= fun length => Code.modify (f ((length - 36#32) / d)) >>= fun _ =>
          PekOS.mapEntries image table stride ((length - 36#32) / d).toNat) :=
    (Searching.readSignature _).neutral.bind fun _ => (load _).bind fun _ =>
      (modify (hf _)).bind fun _ => mapEntries image _ _ _
  refine findFreeVirtaddr.bind fun page => (mapPage image _ _ _).bind fun _ => ?_
  refine (flag _).bind fun acpiVersion => ite ?_ ?_
  · exact (modify fun _ => ⟨rfl, rfl, rfl⟩).bind fun _ => hread _ (fun _ _ => ⟨rfl, rfl, rfl⟩) _ _ _
  · exact (modify fun _ => ⟨rfl, rfl, rfl⟩).bind fun _ => hread _ (fun _ _ => ⟨rfl, rfl, rfl⟩) _ _ _

end Neutral

section Conditions

variable (image : KernelImage) (n : Nat)

/-- A location fails the signature test, or the checksum. -/
def Refused (location : Word) (s t : Machine) : Prop :=
  (∃ c, c ≠ 0 ∧ Ran image n (strncmp (bytesAt location) (literal rsdPtr) 0 8) s c t) ∨
    ∃ u, Ran image n (strncmp (bytesAt location) (literal rsdPtr) 0 8) s 0 u ∧
      Ran image n (doChecksumRSDP location) u false t

/-- Every location that is searched for the RSDP is refused. -/
def NoRsdp (s t : Machine) : Prop :=
  ∃ w u v, Ran image n (readWordAtAddress (kernelMapStart + 0x413#32)) s w u ∧
    Prog.Chain (fun i => Refused image n (ebdaLocation w i)) 0 0x100 u v ∧
      Prog.Chain (fun i => Refused image n (biosLocation i)) 0 0x2000 v t

variable {image : KernelImage} {n : Nat} {s t : Machine}

theorem ran_candidate_none {location : Word} :
    Ran image n (candidate location) s none t ↔ Refused image n location s t := by
  rw [Ran, candidate, Prog.run_bind_ok_iff]
  constructor
  · intro h
    obtain ⟨c, u, hc, hr⟩ := h
    by_cases h0 : c = 0
    · subst h0
      rw [if_pos rfl, Prog.run_bind_ok_iff] at hr
      obtain ⟨valid, v, hv, hret⟩ := hr
      cases valid with
      | true => simp at hret
      | false =>
        obtain rfl : v = t := by simpa using hret
        exact Or.inr ⟨u, hc, hv⟩
    · rw [if_neg h0] at hr
      obtain rfl : u = t := by simpa using hr
      exact Or.inl ⟨c, h0, hc⟩
  · intro h
    rcases h with ⟨c, h0, hc⟩ | ⟨u, hc, hv⟩
    · exact ⟨c, t, hc, by rw [if_neg h0]; rfl⟩
    · exact ⟨0, u, hc, by rw [if_pos rfl, Prog.run_bind_ok_iff]; exact ⟨false, t, hv, rfl⟩⟩

theorem ran_candidate_some {location b : Word} (h : Ran image n (candidate location) s (some b) t) :
    b = location := by
  rw [Ran, candidate, Prog.run_bind_ok_iff] at h
  obtain ⟨c, u, hc, hr⟩ := h
  by_cases h0 : c = 0
  · rw [if_pos h0, Prog.run_bind_ok_iff] at hr
    obtain ⟨valid, v, hv, hret⟩ := hr
    cases valid with
    | true =>
      simp only [if_true, Prog.pure_eq, Prog.run_ret, Except.ok.injEq, Prod.mk.injEq,
        Option.some.injEq] at hret
      exact hret.1.symm
    | false => simp at hret
  · simp [if_neg h0] at hr

theorem ebdaLocation_ne_zero (w : BitVec 16) {i : Nat} (hi : i < 0x100) : ebdaLocation w i ≠ 0#32 := by
  intro h
  have hw := w.isLt
  have hn := congrArg BitVec.toNat h
  have hs : (w.setWidth 32 <<< 10).toNat = w.toNat * 1024 := by
    rw [BitVec.toNat_shiftLeft, BitVec.toNat_setWidth, Nat.shiftLeft_eq]
    omega
  rw [ebdaLocation, BitVec.toNat_add, BitVec.toNat_add, hs] at hn
  simp only [kernelMapStart, BitVec.toNat_ofNat] at hn
  omega

theorem biosLocation_ne_zero {i : Nat} (hi : i < 0x2000) : biosLocation i ≠ 0#32 := by
  intro h
  have hn := congrArg BitVec.toNat h
  simp only [biosLocation, kernelMapStart, BitVec.toNat_add, BitVec.toNat_ofNat] at hn
  omega

theorem ran_searchRSDP_null {f f' : Nat → Word} {m m' : Nat} (hf : ∀ i < m, f i ≠ 0#32)
    (hf' : ∀ i < m', f' i ≠ 0#32) : Ran image n (searchRSDP f f' m m') s 0#32 t ↔
      ∃ u, Prog.Chain (fun i => Refused image n (f i)) 0 m s u ∧
        Prog.Chain (fun i => Refused image n (f' i)) 0 m' u t := by
  have hrefused (f : Nat → Word) {m : Nat} {u v : Machine} :
      Prog.run (Machine.demand image n) (Prog.search (fun i => candidate (f i)) 0 m) u = .ok (none, v) ↔
        Prog.Chain (fun i => Refused image n (f i)) 0 m u v :=
    (Prog.run_search_none _).trans (Prog.chain_congr fun i s t => ran_candidate_none)
  have hsome (f : Nat → Word) {m : Nat} (hf : ∀ i < m, f i ≠ 0#32) {u v : Machine} {b : Word}
      (h : Prog.run (Machine.demand image n) (Prog.search (fun i => candidate (f i)) 0 m) u =
        .ok (some b, v)) :
      b ≠ 0#32 := by
    obtain ⟨k, hk, u', -, hlast⟩ := (Prog.run_search_some _).mp h
    rw [ran_candidate_some hlast]
    exact hf _ (by omega)
  constructor
  · intro h
    obtain ⟨found, v, hfound, h⟩ := Prog.of_run_bind _ h
    cases found with
    | some b =>
      obtain ⟨rfl, -⟩ : b = 0#32 ∧ v = t := by simpa using h
      exact absurd rfl (hsome f hf hfound)
    | none =>
      obtain ⟨found', v', hfound', h⟩ := Prog.of_run_bind _ h
      cases found' with
      | some b =>
        obtain ⟨rfl, -⟩ : b = 0#32 ∧ v' = t := by simpa using h
        exact absurd rfl (hsome f' hf' hfound')
      | none =>
        obtain rfl : v' = t := by simpa using h
        exact ⟨v, (hrefused f).mp hfound, (hrefused f').mp hfound'⟩
  · intro h
    obtain ⟨v, h₁, h₂⟩ := h
    rw [Ran, searchRSDP, Prog.run_bind_ok _ ((hrefused f).mpr h₁)]
    simp only
    rw [Prog.run_bind_ok _ ((hrefused f').mpr h₂)]
    rfl

theorem ran_findRSDP_null : Ran image n findRSDP s 0#32 t ↔ NoRsdp image n s t := by
  have hsearch (w : BitVec 16) {u : Machine} :
      Ran image n (searchRSDP (ebdaLocation w) biosLocation 0x100 0x2000) u 0#32 t ↔ _ :=
    ran_searchRSDP_null (fun _ => ebdaLocation_ne_zero w) fun _ => biosLocation_ne_zero
  rw [Ran, findRSDP, Prog.run_bind_ok_iff]
  constructor
  · intro h
    obtain ⟨w, u, hw, h⟩ := h
    obtain ⟨v, h₁, h₂⟩ := (hsearch w).mp h
    exact ⟨w, u, v, hw, h₁, h₂⟩
  · intro h
    obtain ⟨w, u, v, hw, h₁, h₂⟩ := h
    exact ⟨w, u, hw, (hsearch w).mpr ⟨v, h₁, h₂⟩⟩

/-! `init_rsdt`. -/

theorem performs_findRSDT (h : s.globals.rsdp ≠ 0#32) :
    Prog.Performs (Machine.demand image n) Op.NotNull findRSDT s := by
  have hderef (l : Lookup) (k : Code Word) (hk : Neutral k) :
      Prog.All Op.NotNull (Code.deref l s.globals.rsdp >>= fun _ => k) :=
    (Prog.all_perform.mpr h : Prog.All Op.NotNull (Code.deref l s.globals.rsdp)).bind fun _ => hk.notNull
  unfold findRSDT
  rw [Prog.performs_bind_of_run _ (Neutral.get _).notNull (ran_get _)]
  refine Prog.All.performs _ ?_ s
  refine (Prog.all_perform.mpr h : Prog.All Op.NotNull (Code.deref _ _)).bind fun _ => ?_
  refine (Neutral.loadByte _).notNull.bind fun revision => ?_
  split
  · exact hderef _ _ (Neutral.load _)
  · exact hderef _ _ (Neutral.load _)

theorem performs_initRsdt : Prog.Performs (Machine.demand image n) Op.NotNull (initRsdt image) s ↔
    ∀ t, ¬ NoRsdp image n s t := by
  unfold initRsdt
  rw [Prog.performs_bind_right _ Searching.findRSDP.neutral.notNull]
  have hrest (rsdp : Word) (t : Machine) :
      Prog.Performs (Machine.demand image n) Op.NotNull
        (Code.modify (fun g => { g with rsdp := rsdp }) >>= fun _ => findRSDT >>= fun rsdtPhysaddr =>
          Code.modify (fun g => { g with rsdtPhysaddr := rsdtPhysaddr }) >>= fun _ =>
            mapRootTable image rsdtPhysaddr) t ↔ rsdp ≠ 0#32 := by
    have hmodify (f : Globals → Globals) : Prog.All Op.NotNull (Code.modify f) :=
      (Prog.all_perform.mpr trivial : Prog.All Op.NotNull (Code.globals _)).bind fun _ => trivial
    rw [Prog.performs_bind_of_run _ (hmodify _) (ran_modify _), Prog.performs_bind_iff]
    constructor
    · intro h
      have hfind := h.1
      unfold findRSDT at hfind
      rw [Prog.performs_bind_of_run _ (Neutral.get _).notNull (ran_get _)] at hfind
      have hderef := ((Prog.performs_bind_iff _ _).mp hfind).1
      simpa [Prog.Performs, Code.deref, Op.NotNull] using hderef
    · intro h
      refine ⟨performs_findRSDT h, fun a v _ => ?_⟩
      refine Prog.All.performs _ ?_ v
      exact (hmodify _).bind fun _ => (Neutral.mapRootTable image a).notNull
  constructor
  · intro h t ht
    exact (hrest 0#32 t).mp (h _ t (ran_findRSDP_null.mpr ht)) rfl
  · intro h rsdp t hr
    refine (hrest rsdp t).mpr ?_
    rintro rfl
    exact h t (ran_findRSDP_null.mp hr)

end Conditions

end PekOS
