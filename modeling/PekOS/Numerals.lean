import PekOS.PrintfRuns
import PekOS.Library.Positional

/-! The loops of printf.c that collect digits in a local array, and the numerals that come of them.
-/

namespace PekOS.Stdio

open OpTree

/-- `store` writes an element of the array. -/
inductive ArrayOp
  | store (i : Nat) (c : Byte)
  | outOfFuel

@[reducible] def ArrayOp.Res : ArrayOp → Type
  | .store _ _ => Unit
  | .outOfFuel => Empty

inductive ArrayFault
  | outside
  | fuel

/-- An array of `size` chars. -/
def ArrayOp.exec (size : Nat) : (o : ArrayOp) → (Nat → Byte) → Except ArrayFault (o.Res × (Nat → Byte))
  | .store i c, m => if i < size then .ok ((), Function.update m i c) else .error .outside
  | .outOfFuel, _ => .error .fuel

abbrev ArrayCode (α : Type) := Prog ArrayOp ArrayOp.Res α

section Loops

variable (rem quo : Word → Word) (char : Word → Byte)

/-- One iteration, with `num` left and `len` chars in the array. -/
def collect (b : Word × Nat) : ArrayCode ((Word × Nat) ⊕ Nat) :=
  let (num, len) := b
  if num = 0#32 then return .inr len
  else do
    Prog.perform (ArrayOp.store len (char (rem num)))
    return .inl (quo num, len + 1)

def digitLoop (fuel : Nat) (num : Word) : ArrayCode Nat :=
  Prog.loop (Prog.perform ArrayOp.outOfFuel >>= Empty.elim) (collect rem quo char) fuel (num, 0)

end Loops

def decimalChar (n : Word) : Byte := (n + 0x30#32).setWidth 8

def hexChar (temp : Word) : Byte :=
  (temp + if temp.slt 10#32 then 0x30#32 else 0x61#32 - 10#32).setWidth 8

/-- The loop of `%d`, for a number other than `INT_MIN`. -/
def intDigits (num : Word) (fuel : Nat) : ArrayCode Nat :=
  digitLoop (·.srem 10#32) (·.sdiv 10#32) decimalChar fuel (if num.slt 0#32 then -num else num)

def unsignedDigits (unum : Word) (fuel : Nat) : ArrayCode Nat :=
  digitLoop (· % 10#32) (· / 10#32) decimalChar fuel unum

def hexDigits (hex : Word) (fuel : Nat) : ArrayCode Nat :=
  digitLoop (· % 16#32) (· / 16#32) hexChar fuel hex

/-- The loop terminates, with the chars of `l` in the array, the last one first. -/
def Collects (size : Nat) (loop : Nat → ArrayCode Nat) (l : List Byte) : Prop :=
  ∀ m, ∃ m', Prog.Settles (ArrayOp.exec size) loop m l.length m' ∧
    (List.range' 0 l.length).map m' = l.reverse

/-- The loop divides by `base`, as long as it works on numbers that satisfy `I`. -/
structure Divides (rem quo : Word → Word) (char : Word → Byte) (base : Nat) (digit : Nat → Byte)
    (I : Word → Prop) : Prop where
  char_eq : ∀ v, I v → char (rem v) = digit (v.toNat % base)
  quo_eq : ∀ v, I v → (quo v).toNat = v.toNat / base
  keeps : ∀ v, I v → I (quo v)

section Collecting

variable {rem quo : Word → Word} {char : Word → Byte} {base size : Nat} {digit : Nat → Byte}
    {I : Word → Prop}

theorem run_collect {v : Word} {len : Nat} (hv : v ≠ 0#32) (hlen : len < size) (m : Nat → Byte) :
    Prog.run (ArrayOp.exec size) (collect rem quo char (v, len)) m =
      .ok (.inl (quo v, len + 1), Function.update m len (char (rem v))) := by
  have hstore : ArrayOp.exec size (.store len (char (rem v))) m =
      .ok ((), Function.update m len (char (rem v))) :=
    if_pos hlen
  rw [collect, if_neg hv]
  refine (Prog.run_bind_ok _ ((Prog.run_perform _ _ _).trans hstore)).trans ?_
  rfl

theorem exists_collected (h : Divides rem quo char base digit I) {room len : Nat} {v : Word} (hv : I v)
    (hlt : v.toNat < base ^ room) (hsize : len + room ≤ size) (m : Nat → Byte) :
    ∃ m', (∀ fuel > room, Prog.run (ArrayOp.exec size)
        (Prog.loop (Prog.perform ArrayOp.outOfFuel >>=
          Empty.elim) (collect rem quo char) fuel (v, len)) m =
          .ok (len + (digits base digit room v.toNat).length, m')) ∧
      (List.range' len (digits base digit room v.toNat).length).map m' = digits base digit room v.toNat ∧
      ∀ k < len, m' k = m k := by
  induction room generalizing len v m with
  | zero =>
    have hzero : v = 0#32 := BitVec.eq_of_toNat_eq (by simpa using hlt)
    subst hzero
    refine ⟨m, fun fuel hfuel => ?_, rfl, fun _ _ => rfl⟩
    obtain ⟨fuel, rfl⟩ : ∃ k, fuel = k + 1 := ⟨fuel - 1, by omega⟩
    rfl
  | succ room ih =>
    by_cases hzero : v = 0#32
    · subst hzero
      refine ⟨m, fun fuel hfuel => ?_, rfl, fun _ _ => rfl⟩
      obtain ⟨fuel, rfl⟩ : ∃ k, fuel = k + 1 := ⟨fuel - 1, by omega⟩
      rfl
    · have h0 : v.toNat ≠ 0 := fun h => hzero (BitVec.eq_of_toNat_eq h)
      have hquo : (quo v).toNat < base ^ room := by
        rw [h.quo_eq v hv]
        refine Nat.div_lt_of_lt_mul ?_
        rwa [Nat.pow_succ, Nat.mul_comm] at hlt
      obtain ⟨m', hr, hl, hkept⟩ := ih (h.keeps v hv) hquo (show len + 1 + room ≤ size by omega)
        (Function.update m len (char (rem v)))
      rw [h.quo_eq v hv] at hr hl
      rw [digits, if_neg h0, List.length_cons]
      refine ⟨m', fun fuel hfuel => ?_, ?_, fun k hk => ?_⟩
      · obtain ⟨fuel, rfl⟩ : ∃ k, fuel = k + 1 := ⟨fuel - 1, by omega⟩
        rw [Prog.loop, Prog.run_bind_ok _ (run_collect hzero (by omega) m)]
        refine (hr fuel (by omega)).trans ?_
        rw [Nat.add_right_comm, Nat.add_assoc]
      · rw [List.range'_succ, List.map_cons, hl, hkept len (by omega), Function.update_self,
          h.char_eq v hv]
      · rw [hkept k (by omega), Function.update_of_ne (by omega)]

theorem collects_of_divides (h : Divides rem quo char base digit I) {v : Word} (hv : I v)
    (hlt : v.toNat < base ^ size) :
    Collects size (fun fuel => digitLoop rem quo char fuel v)
    (digits base digit size v.toNat).reverse := by
  intro m
  obtain ⟨m', hr, hl, -⟩ := exists_collected h hv hlt (Nat.le_of_eq (Nat.zero_add size)) m
  rw [Nat.zero_add] at hr
  rw [List.length_reverse, List.reverse_reverse]
  exact ⟨m', ⟨size + 1, hr⟩, hl⟩

end Collecting

theorem decimalChar_eq (n : Word) : decimalChar n = decimalDigit n.toNat := by
  apply BitVec.eq_of_toNat_eq
  rw [decimalChar, decimalDigit, BitVec.toNat_setWidth, BitVec.toNat_add, BitVec.toNat_ofNat,
    BitVec.toNat_ofNat]
  omega

theorem hexChar_eq {temp : Word} (h : temp.toNat < 16) : hexChar temp = hexDigit temp.toNat := by
  have hall : ∀ d < 16, hexChar (BitVec.ofNat 32 d) = hexDigit d := by decide
  simpa using hall temp.toNat h

theorem divides_unsigned : Divides (· % 10#32) (· / 10#32) decimalChar 10 decimalDigit fun _ => True where
  char_eq v _ := by rw [decimalChar_eq, BitVec.toNat_umod]; rfl
  quo_eq v _ := by rw [BitVec.toNat_udiv]; rfl
  keeps _ _ := trivial

theorem divides_hex : Divides (· % 16#32) (· / 16#32) hexChar 16 hexDigit fun _ => True where
  char_eq v _ := by
    have hmod : (v % 16#32).toNat = v.toNat % 16 := BitVec.toNat_umod
    rw [hexChar_eq (by omega), hmod]
  quo_eq v _ := by rw [BitVec.toNat_udiv]; rfl
  keeps _ _ := trivial

/-- On numbers that are not negative, the signed division is the unsigned one. -/
theorem divides_signed : Divides (·.srem 10#32) (·.sdiv 10#32) decimalChar 10 decimalDigit fun v =>
    v.msb = false := by
  have hdiv {v : Word} (hv : v.msb = false) : v.sdiv 10#32 = v / 10#32 := by
    rw [BitVec.sdiv_eq, hv]
    rfl
  have hrem {v : Word} (hv : v.msb = false) : v.srem 10#32 = v % 10#32 := by
    rw [BitVec.srem_eq, hv]
    rfl
  refine ⟨fun v hv => ?_, fun v hv => ?_, fun v hv => ?_⟩
  · rw [hrem hv]
    exact divides_unsigned.char_eq v trivial
  · rw [hdiv hv]
    exact divides_unsigned.quo_eq v trivial
  · have hquo := divides_unsigned.quo_eq v trivial
    rw [hdiv hv]
    rw [BitVec.msb_eq_decide, decide_eq_false_iff_not] at hv ⊢
    omega

theorem msb_abs {w : Word} (h : w ≠ 0x80000000#32) : (if w.slt 0#32 then -w else w).msb = false := by
  have hne : w.toNat ≠ 2 ^ 31 := fun he => h (BitVec.eq_of_toNat_eq he)
  have hlt := w.isLt
  rw [BitVec.slt_zero_eq_msb]
  by_cases hmsb : w.msb = true
  · rw [if_pos hmsb]
    rw [BitVec.msb_eq_decide, decide_eq_true_iff] at hmsb
    rw [BitVec.msb_eq_decide, decide_eq_false_iff_not, BitVec.toNat_neg]
    omega
  · rw [if_neg hmsb]
    exact Bool.eq_false_of_not_eq_true hmsb

theorem toNat_abs (w : Word) : (if w.slt 0#32 then -w else w).toNat = w.toInt.natAbs := by
  have hlt := w.isLt
  rw [BitVec.slt_zero_eq_msb, BitVec.msb_eq_decide, BitVec.toInt_eq_toNat_cond]
  by_cases h : 2 ^ 31 ≤ w.toNat
  · rw [if_pos (decide_eq_true h), BitVec.toNat_neg, if_neg (by omega)]
    omega
  · rw [if_neg (by simpa using h), if_pos (by omega)]
    omega

/-! The numerals. -/

/-- The value of a digit; letters are in lower case. -/
def digitValue (b : Byte) : Option Nat :=
  if 0x30#8 ≤ b ∧ b ≤ 0x39#8 then some (b.toNat - 0x30)
  else if 0x61#8 ≤ b ∧ b ≤ 0x66#8 then some (b.toNat - 0x61 + 10)
  else none

/-- `l` consists of digits of the base, stands for `n` and has no leading zero. -/
structure Canonical (base : Nat) (l : List Byte) (n : Nat) : Prop where
  read : Positional.read digitValue base l = some n
  leading : l.head? = some 0x30#8 → l = [0x30#8]

theorem canonical_numeral {base : Nat} (hbase : 1 < base) {digit : Nat → Byte}
    (hdigit : ∀ d < base, digitValue (digit d) = some d) (n : Nat) :
    Canonical base (numeral base digit n) n := by
  have hzero {d : Nat} (hd : d < base) (h : digit d = 0x30#8) : d = 0 := by
    have hvalue := hdigit d hd
    rw [h] at hvalue
    exact (Option.some.inj hvalue).symm
  by_cases h0 : n = 0
  · subst h0
    rw [numeral_zero]
    refine ⟨?_, fun h => congrArg (fun b => [b]) (Option.some.inj h)⟩
    rw [Positional.read_of_ne_nil (List.cons_ne_nil _ _), Positional.readFrom_digit hdigit 0 (by omega)]
    simp
  · have hne : Nat.digits base n ≠ [] := Nat.digits_ne_nil_iff_ne_zero.mpr h0
    rw [numeral, if_neg h0]
    constructor
    · rw [Positional.read_of_ne_nil (by simpa using hne)]
      exact Positional.readFrom_digits hbase hdigit n
    · intro h
      rw [List.head?_map, List.head?_reverse, List.getLast?_eq_some_getLast hne] at h
      have hlast := hzero (Nat.digits_lt_base hbase (List.getLast_mem hne)) (Option.some.inj h)
      exact absurd ((List.getLast?_eq_some_getLast hne).trans (congrArg some hlast))
        (Positional.getLast?_digits_ne_zero hbase n)

theorem digitValue_decimal : ∀ d < 10, digitValue (decimalDigit d) = some d := by decide

theorem digitValue_hex : ∀ d < 16, digitValue (hexDigit d) = some d := by decide

/-- An optional minus sign, and a decimal numeral. -/
def readInt (l : List Byte) : Option Int :=
  if l.head? = some 0x2D#8 then (Positional.read digitValue 10 l.tail).map fun n => -(n : Int)
  else (Positional.read digitValue 10 l).map fun n => (n : Int)

/-- `0x`, and a numeral. -/
def readHex (l : List Byte) : Option Nat :=
  if l.take 2 = [0x30#8, 0x78#8] then Positional.read digitValue 16 (l.drop 2) else none

theorem Canonical.readInt {l : List Byte} {w : Word} (h : Canonical 10 l w.toInt.natAbs) :
    readInt ((if w.toInt < 0 then [0x2D#8] else []) ++ l) = some w.toInt := by
  by_cases hneg : w.toInt < 0
  · rw [if_pos hneg, Stdio.readInt, List.singleton_append, List.head?_cons, if_pos rfl,
      List.tail_cons, h.read]
    exact congrArg some (show -(w.toInt.natAbs : Int) = w.toInt by omega)
  · have hhead : l.head? ≠ some 0x2D#8 := by
      intro hhead
      obtain ⟨l', rfl⟩ : ∃ l', l = 0x2D#8 :: l' := ⟨l.tail, List.eq_cons_of_mem_head? hhead⟩
      exact absurd h.read (by simp [Positional.read, Positional.readFrom, digitValue])
    rw [if_neg hneg, Stdio.readInt, List.nil_append, if_neg hhead, h.read]
    exact congrArg some (show (w.toInt.natAbs : Int) = w.toInt by omega)

/-- A call `printf` makes of itself, with a text that holds no directive. -/
def printfText (fuel : Nat) (text : List Byte) : Code Unit := do
  let _ ← printfWith (fun _ => Code.outOfFuel) (reader text) fuel
  return ()

/-- The directive prints `l` for the argument `w`, or nothing if `l` does not fit. -/
def Emits (directive : (List Byte → Code Unit) → Nat → Directive) (w : Word) (l : List Byte) : Prop :=
  ∀ (F : Nat → Byte) (fuel maxrem : Nat) (args : List Arg) (output : List Byte), 16 ≤ fuel →
    Prog.run (exec F) (directive (printfText fuel) maxrem) ⟨.int w :: args, output⟩ =
        .ok (some l.length, ⟨args, output ++ l⟩) ∨
      maxrem < l.length ∧
        Prog.run (exec F) (directive (printfText fuel) maxrem) ⟨.int w :: args, output⟩ =
          .ok (none, ⟨args, output⟩)

theorem emits_of_prints {directive : (List Byte → Code Unit) → Nat → Directive} {w : Word} {p : Piece}
    (h : ∀ (F : Nat → Byte) (fuel maxrem : Nat) (s : Console) (args : List Arg), 16 ≤ fuel →
      s.args = .int w :: args →
      Prints F Op.Counted (directive (printfText fuel) maxrem) p maxrem s { s with args := args }) :
    Emits directive w p.bytes := by
  intro F fuel maxrem args output hfuel
  have hp := h F fuel maxrem ⟨.int w :: args, output⟩ args hfuel rfl
  by_cases hemits : p.bytes.length ≤ maxrem ∨ ¬ p.Checked maxrem
  · exact Or.inl (hp.emits hemits).1
  · obtain ⟨hlt, hchecked⟩ := not_or.mp hemits
    exact Or.inr ⟨Nat.not_le.mp hlt, (hp.refuses (Nat.not_le.mp hlt) (not_not.mp hchecked)).1⟩

/-- Every argument, `INT_MIN` and 0 among them, is printed as its canonical numeral. -/
theorem printf_numerals (w : Word) :
    (∃ l, Canonical 10 l w.toInt.natAbs ∧ (w ≠ 0#32 → w ≠ 0x80000000#32 → Collects 32 (intDigits w) l) ∧
      readInt ((if w.toInt < 0 then [0x2D#8] else []) ++ l) = some w.toInt ∧
      Emits formatInt w ((if w.toInt < 0 then [0x2D#8] else []) ++ l)) ∧
    (∃ l, Canonical 10 l w.toNat ∧ (w ≠ 0#32 → Collects 32 (unsignedDigits w) l) ∧
      Emits (fun _ => formatUnsigned) w l) ∧
    ∃ l, Canonical 16 l w.toNat ∧ (w ≠ 0#32 → Collects 8 (hexDigits w) l) ∧
      readHex ([0x30#8, 0x78#8] ++ l) = some w.toNat ∧ Emits formatHex w ([0x30#8, 0x78#8] ++ l) := by
  have hdecimal : w.toNat < 10 ^ 32 := Nat.lt_trans w.isLt (by decide)
  have hhex : w.toNat < 16 ^ 8 := w.isLt
  have hne (h0 : w ≠ 0#32) : w.toNat ≠ 0 := fun h => h0 (BitVec.eq_of_toNat_eq h)
  refine ⟨⟨numeral 10 decimalDigit w.toInt.natAbs, ?_⟩, ⟨numeral 10 decimalDigit w.toNat, ?_⟩,
    numeral 16 hexDigit w.toNat, ?_⟩
  · have hcanonical := canonical_numeral (by decide) digitValue_decimal w.toInt.natAbs
    refine ⟨hcanonical, fun h0 hmin => ?_, hcanonical.readInt, ?_⟩
    · have hne : w.toInt.natAbs ≠ 0 := fun h => h0 (BitVec.eq_of_toInt_eq (by simpa using h))
      have habs : w.toInt.natAbs < 10 ^ 32 := by
        rw [← toNat_abs]
        exact Nat.lt_trans (BitVec.isLt _) (by decide)
      rw [← digits_reverse (by decide) decimalDigit habs hne, ← toNat_abs]
      exact collects_of_divides divides_signed (msb_abs hmin) (toNat_abs w ▸ habs)
    · have hemits : Emits formatInt w (Piece.int w).bytes := emits_of_prints
        fun F fuel maxrem s args hfuel hs =>
        formatInt_prints watches_counted (nested_does watches_counted hfuel) hs
      rw [Piece.bytes, BitVec.msb_eq_toInt] at hemits
      simpa only [decide_eq_true_eq] using hemits
  · refine ⟨canonical_numeral (by decide) digitValue_decimal w.toNat, fun h0 => ?_, ?_⟩
    · rw [← digits_reverse (by decide) decimalDigit hdecimal (hne h0)]
      exact collects_of_divides divides_unsigned trivial hdecimal
    · exact emits_of_prints (p := .unsigned w) fun F fuel maxrem s args _ hs =>
        formatUnsigned_prints watches_counted hs
  · have hcanonical := canonical_numeral (by decide) digitValue_hex w.toNat
    refine ⟨hcanonical, fun h0 => ?_, hcanonical.read, ?_⟩
    · rw [← digits_reverse (by decide) hexDigit hhex (hne h0)]
      exact collects_of_divides divides_hex trivial hhex
    · exact emits_of_prints (p := .hex w)
        fun F fuel maxrem s args hfuel hs =>
        formatHex_prints watches_counted (nested_does watches_counted hfuel) hs

end PekOS.Stdio
