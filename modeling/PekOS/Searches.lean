import PekOS.Rsdt

/-! The searches of rsdt.c read memory, and set no more than `ACPI_version` and
`entries`. -/

namespace PekOS

open OpTree

def Op.Searching : Op → Prop
  | .load _ | .loadByte _ => True
  | .globals f => ∀ g, ∃ acpiVersion entries,
      (f g).2 = { g with acpiVersion := acpiVersion, entries := entries }
  | _ => False

abbrev Searching {α : Type} (p : Code α) : Prop := Prog.All Op.Searching p

namespace Searching

theorem ret {α : Type} (a : α) : Searching (return a : Code α) := trivial

theorem load (a : Word) : Searching (Code.load a) := Prog.all_perform.mpr trivial

theorem loadByte (a : Word) : Searching (Code.loadByte a) := Prog.all_perform.mpr trivial

theorem get (f : Globals → Word) : Searching (Code.get f) := Prog.all_perform.mpr fun _ => ⟨_, _, rfl⟩

theorem flag (f : Globals → Bool) : Searching (Code.flag f) := (get _).bind fun _ => ret _

theorem modify {f : Globals → Globals}
    (h : ∀ g, ∃ acpiVersion entries, f g = { g with acpiVersion := acpiVersion, entries := entries }) :
    Searching (Code.modify f) :=
  (Prog.all_perform.mpr h).bind fun _ => ret _

theorem ite {α : Type} {c : Prop} [Decidable c] {p q : Code α} (hp : Searching p) (hq : Searching q) :
    Searching (if c then p else q) := by
  split
  · exact hp
  · exact hq

theorem bytesAt (p : Word) (i : Nat) : Searching (PekOS.bytesAt p i) := loadByte _

theorem literal (l : List Byte) (i : Nat) : Searching (PekOS.literal l i) := ret _

theorem strncmp {s1 s2 : Nat → Code Byte} (h1 : ∀ i, Searching (s1 i)) (h2 : ∀ i, Searching (s2 i))
    (i n : Nat) : Searching (PekOS.strncmp s1 s2 i n) := by
  induction n generalizing i with
  | zero => exact ret _
  | succ n ih =>
    refine (h1 i).bind fun a => ?_
    have hend : Searching (s1 i >>= fun a => s2 i >>=
        fun b => (return (a.toNat : Int) - b.toNat : Code Int)) :=
      (h1 i).bind fun _ => (h2 i).bind fun _ => ret _
    have hgo (same : Bool) : Searching (if same = true then PekOS.strncmp s1 s2 (i + 1) n else
        s1 i >>= fun a => s2 i >>= fun b => (return (a.toNat : Int) - b.toNat : Code Int)) :=
        ite (ih _) hend
    exact ite ((ret _).bind hgo) ((h2 i).bind fun _ => hgo _)

theorem memcmp {a b : Nat → Code Byte} (ha : ∀ i, Searching (a i)) (hb : ∀ i, Searching (b i))
    (i n : Nat) : Searching (PekOS.memcmp a b i n) := by
  induction n generalizing i with
  | zero => exact ret _
  | succ n ih => exact (ha i).bind fun _ => (hb i).bind fun _ => ite (ret _) (ite (ret _) (ih _))

theorem doChecksumRSDP (p : Word) : Searching (PekOS.doChecksumRSDP p) := by
  refine (loadByte _).bind fun revision => (modify fun _ => ⟨_, _, rfl⟩).bind fun _ => ?_
  exact (Prog.All.forUp (fun _ _ => (loadByte _).bind fun _ => ret _) _ _).bind fun _ => ret _

theorem candidate (location : Word) : Searching (PekOS.candidate location) := by
  refine (strncmp (bytesAt _) (literal _) 0 8).bind fun c => ite ?_ (ret _)
  exact (doChecksumRSDP _).bind fun _ => ret _

theorem findRSDP : Searching PekOS.findRSDP := by
  have hsearch (f f' : Nat → Word) (m m' : Nat) : Searching (searchRSDP f f' m m') := by
    refine (Prog.All.search (fun _ => candidate _) 0 m).bind fun found => ?_
    split
    · exact ret _
    · exact (Prog.All.search (fun _ => candidate _) 0 m').bind fun _ => ret _
  exact ((load _).bind fun w => ret _).bind fun w => hsearch _ _ _ _

theorem readSignature (table : Word) : Searching (PekOS.readSignature table) :=
  Prog.All.forUp (fun _ _ => (loadByte _).bind fun _ => ret _) 4 ()

theorem findByHeader (head : List Byte) : Searching (PekOS.findByHeader head) := by
  have hentry (rsdt : Word) (i : Nat) : Searching (tableEntry rsdt head i) :=
    (load _).bind fun _ => (memcmp (bytesAt _) (literal _) 0 4).bind fun _ => ret _
  refine (flag _).bind fun acpiVersion => ite (ret _) ?_
  refine (get _).bind fun rsdt => (load _).bind fun length =>
    (modify fun _ => ⟨_, _, rfl⟩).bind fun _ => ?_
  exact (Prog.All.search (hentry rsdt) 0 _).bind fun _ => ret _

end Searching

end PekOS
