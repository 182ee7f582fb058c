import PekOS.Formats

/-! What the parts of `printf` do: one specification a function, for a run that
is watched by any predicate that allows what the code may do. -/

namespace PekOS.Stdio

open OpTree

/-- The bytes from the `i`-th on are a string. -/
def Str (m : Nat → Byte) : Nat → List Byte → Prop
  | i, [] => m i = 0#8
  | i, c :: l => m i = c ∧ c ≠ 0#8 ∧ Str m (i + 1) l

namespace Str

variable {m : Nat → Byte} {i : Nat} {l l' : List Byte}

theorem shift {j : Nat} (h : Str m (i + j) l) : Str (fun k => m (i + k)) j l := by
  induction l generalizing j with
  | nil => exact h
  | cons c l ih => exact ⟨h.1, h.2.1, ih h.2.2⟩

theorem append (h : Str m i (l ++ l')) : Str m (i + l.length) l' := by
  induction l generalizing i with
  | nil => exact h
  | cons c l ih =>
    rw [List.length_cons, show i + (l.length + 1) = i + 1 + l.length by omega]
    exact ih h.2.2

theorem get (h : Str m i l) {k : Nat} (hk : k < l.length) : m (i + k) = l[k] := by
  induction l generalizing i k with
  | nil => simp at hk
  | cons c l ih =>
    cases k with
    | zero => exact h.1
    | succ k =>
      rw [show i + (k + 1) = i + 1 + k by omega]
      exact ih h.2.2 (by simpa using hk)

end Str

theorem str_reader (l : List Byte) : Str (fun i => l.getD i 0#8) 0 (cstring l) := by
  have hfrom (pre l : List Byte) : Str (fun i => (pre ++ l).getD i 0#8) pre.length (cstring l) := by
    induction l generalizing pre with
    | nil => simp [cstring, Str]
    | cons c l ih =>
      by_cases hc : c = 0#8
      · simp [cstring, Str, hc]
      · have ih := ih (pre ++ [c])
        rw [List.append_assoc, List.length_append] at ih
        rw [cstring, List.takeWhile_cons_of_pos (by simpa using hc)]
        exact ⟨by simp, hc, ih⟩
  exact hfrom [] l

@[simp] theorem Console.emit_emit (s : Console) (l l' : List Byte) :
    (s.emit l).emit l' = s.emit (l ++ l') := by
  simp [emit]

@[simp] theorem Console.emit_nil (s : Console) : s.emit [] = s := by simp [emit]

@[simp] theorem Console.emit_output (s : Console) (l : List Byte) :
    (s.emit l).output = s.output ++ l := rfl

/-- What a watcher of a run must allow. -/
structure Watches (G : Op → Prop) : Prop where
  argInt : G .argInt
  argStr : G .argStr
  putchar : ∀ b, G (.putchar b)
  count : ∀ k, G (.count k) ↔ k ≤ intMax

section Parts

variable {F : Nat → Byte} {G : Op → Prop} {n : Nat}

/-- Returns, watched by `G`. -/
abbrev Does (F : Nat → Byte) (G : Op → Prop) {α : Type} (p : Code α) (s : Console) (a : α)
    (t : Console) : Prop :=
  Prog.Returns (exec F) G p s a t

theorem does_ret {α : Type} (a : α) (s : Console) : Does F G (return a) s a s := Prog.returns_ret a s

variable (hG : Watches G)

include hG

theorem print_does {data : Reader} {l : List Byte}
    (hdata : ∀ k (hk : k < l.length) (s : Console), Does F G (data k) s l[k] s) (s : Console) :
    Does F G (print data l.length) s true (s.emit l) := by
  have hsearch (i : Nat) (l : List Byte) (s : Console)
      (hdata : ∀ k (hk : k < l.length) (s : Console), Does F G (data (i + k)) s l[k] s) :
      Does F G (Prog.search (fun i => do
        let b ← data i
        let c ← Code.putchar b
        return if c = -1 then some () else none) i l.length) s none (s.emit l) := by
    induction l generalizing i s with
    | nil => exact (Console.emit_nil s).symm ▸ does_ret none s
    | cons b l ih =>
      have hput : Does F G (Code.putchar b) s (b.toNat : Int) (s.emit [b]) :=
        Prog.returns_perform rfl (hG.putchar b)
      have hne : ¬ (b.toNat : Int) = -1 := by omega
      have hfirst : Does F G (do
          let b ← data i
          let c ← Code.putchar b
          return if c = -1 then some () else none) s (none : Option Unit) (s.emit [b]) := by
        refine (hdata 0 (by simp) s).bind (hput.bind ?_)
        rw [if_neg hne]
        exact does_ret none _
      have hrest := ih (i + 1) (s.emit [b]) fun k hk s => by
        rw [show i + 1 + k = i + (k + 1) by omega]
        exact hdata (k + 1) (by simpa using hk) s
      rw [Console.emit_emit] at hrest
      exact hfirst.bind hrest
  exact (hsearch 0 l s fun k hk s => by rw [Nat.zero_add]; exact hdata k hk s).bind (does_ret true _)

theorem print_one (b : Byte) (s : Console) : Does F G (print (reader [b]) 1) s true (s.emit [b]) :=
  print_does hG (l := [b]) (fun k hk s => by
    obtain rfl : k = 0 := by simpa using hk
    exact does_ret b s) s

theorem printDigits_does (num : List Byte) (s : Console) :
    Does F G (printDigits num) s true (s.emit num.reverse) := by
  have hsearch (i : Nat) (l : List Byte) (s : Console) (hl : ∀ k (hk : k < l.length),
      num.getD (num.length - 1 - (i + k)) 0#8 = l[k]) :
      Does F G (Prog.search (fun i => do
        let ok ← print (fun _ => return num.getD (num.length - 1 - i) 0#8) 1
        return if ok then none else some ()) i l.length) s none (s.emit l) := by
    induction l generalizing i s with
    | nil => exact (Console.emit_nil s).symm ▸ does_ret none s
    | cons b l ih =>
      have hb := hl 0 (by simp)
      have hprint : Does F G (print (fun _ => return num.getD (num.length - 1 - i) 0#8) 1) s true
          (s.emit [b]) :=
        print_does hG (l := [b]) (fun k hk s => by
          obtain rfl : k = 0 := by simpa using hk
          rw [show num.getD (num.length - 1 - i) 0#8 = b from hb]
          exact does_ret b s) s
      have hfirst : Does F G (do
          let ok ← print (fun _ => return num.getD (num.length - 1 - i) 0#8) 1
          return if ok then none else some ()) s (none : Option Unit) (s.emit [b]) :=
        hprint.bind (does_ret none _)
      have hrest := ih (i + 1) (s.emit [b]) fun k hk => by
        rw [show i + 1 + k = i + (k + 1) by omega]
        exact hl (k + 1) (by simpa using hk)
      rw [Console.emit_emit] at hrest
      exact hfirst.bind hrest
  have h := hsearch 0 num.reverse s fun k hk => by
    rw [List.length_reverse] at hk
    rw [List.getElem_reverse, Nat.zero_add, List.getD_eq_getElem?_getD,
      List.getElem?_eq_getElem (by omega)]
    rfl
  rw [List.length_reverse] at h
  exact h.bind (does_ret true _)

/-! The directives. -/

/-- Whether the code compares the length of an item with the room that is left,
before it prints the item. -/
def Piece.Checked (maxrem : Nat) : Piece → Prop
  | int w => w ≠ 0#32 ∧ w ≠ 0x80000000#32
  | unsigned w => w ≠ 0#32
  | hex w => w ≠ 0#32 ∧ maxrem < (numeral 16 hexDigit w.toNat).length
  | _ => True

/-- `p` is printed if it fits, or if nothing is compared, and refused if it
does not fit and that is found out. -/
structure Prints (F : Nat → Byte) (G : Op → Prop) (code : Directive) (p : Piece) (maxrem : Nat)
    (s t : Console) : Prop where
  emits : p.bytes.length ≤ maxrem ∨ ¬ p.Checked maxrem →
    Does F G code s (some p.bytes.length) (t.emit p.bytes)
  refuses : maxrem < p.bytes.length → p.Checked maxrem → Does F G code s none t

variable {maxrem : Nat} {s : Console} {args : List Arg}

omit hG in
theorem digits_eq {base : Nat} (hbase : 1 < base) (digit : Nat → Byte) {room num : Nat}
    (h : num < base ^ room) : digits base digit room num = (Nat.digits base num).map digit := by
  induction room generalizing num with
  | zero =>
    obtain rfl : num = 0 := by simpa using h
    simp [digits]
  | succ room ih =>
    by_cases h0 : num = 0
    · simp [digits, h0]
    · have hlt : num / base < base ^ room := by
        rw [Nat.div_lt_iff_lt_mul (by omega)]
        rwa [Nat.pow_succ] at h
      rw [digits, if_neg h0, ih hlt, Nat.digits_def' hbase (Nat.pos_of_ne_zero h0), List.map_cons]

omit hG in
theorem digits_reverse {base : Nat} (hbase : 1 < base) (digit : Nat → Byte) {room num : Nat}
    (h : num < base ^ room) (h0 : num ≠ 0) :
    (digits base digit room num).reverse = numeral base digit num := by
  rw [digits_eq hbase digit h, numeral, if_neg h0, List.map_reverse]

theorem argInt_does {w : Word} (hs : s.args = .int w :: args) :
    Does F G Code.argInt s w { s with args := args } :=
  Prog.returns_perform (by simp only [exec, hs]) hG.argInt

theorem argStr_does {l : List Byte} (hs : s.args = .str l :: args) :
    Does F G Code.argStr s l { s with args := args } :=
  Prog.returns_perform (by simp only [exec, hs]) hG.argStr

theorem formatChar_prints {w : Word} (hs : s.args = .int w :: args) :
    Prints F G (formatChar maxrem) (.char (w.setWidth 8)) maxrem s { s with args := args } := by
  have harg : Does F G Code.argInt s w { s with args := args } := argInt_does hG hs
  constructor
  · intro h
    have hroom : maxrem ≠ 0 := by
      rcases h with h | h
      · intro h0
        simp [Piece.bytes, h0] at h
      · exact absurd trivial h
    refine harg.bind ?_
    rw [if_neg hroom]
    exact (print_one hG _ _).bind (does_ret _ _)
  · intro h _
    have hroom : maxrem = 0 := by simpa [Piece.bytes] using h
    refine harg.bind ?_
    rw [if_pos hroom]
    exact does_ret _ _

theorem formatDigits_emits {neg : Bool} {num : List Byte} (h : num.length + neg.toNat ≤ maxrem)
    (s : Console) :
    Does F G (formatDigits maxrem neg num) s (some (num.length + neg.toNat))
      (s.emit ((if neg then [0x2D#8] else []) ++ num.reverse)) := by
  unfold formatDigits
  rw [if_neg (by omega)]
  cases neg with
  | true =>
    refine (print_one hG 0x2D#8 s).bind ?_
    have hnum := printDigits_does (F := F) hG num (s.emit [0x2D#8])
    rw [Console.emit_emit] at hnum
    exact hnum.bind (does_ret _ _)
  | false => exact (printDigits_does hG num s).bind (does_ret _ _)

omit hG in
theorem formatDigits_refuses {neg : Bool} {num : List Byte} (h : maxrem < num.length + neg.toNat)
    (s : Console) : Does F G (formatDigits maxrem neg num) s none s := by
  unfold formatDigits
  rw [if_pos h]
  exact does_ret none s

omit hG in
theorem numeral_zero (base : Nat) (digit : Nat → Byte) : numeral base digit 0 = [digit 0] := if_pos rfl

theorem formatUnsigned_prints {w : Word} (hs : s.args = .int w :: args) :
    Prints F G (formatUnsigned maxrem) (.unsigned w) maxrem s { s with args := args } := by
  have harg : Does F G Code.argInt s w { s with args := args } := argInt_does hG hs
  by_cases hw : w = 0#32
  · subst hw
    refine ⟨fun _ => ?_, fun _ h => absurd rfl h⟩
    have hbytes : (Piece.unsigned 0#32).bytes = [0x30#8] := numeral_zero 10 decimalDigit
    rw [hbytes]
    exact harg.bind ((print_one hG _ _).bind (does_ret _ _))
  · have h0 : w.toNat ≠ 0 := fun h => hw (BitVec.eq_of_toNat_eq h)
    have hlt : w.toNat < 10 ^ 32 := by
      have := w.isLt
      omega
    have hbytes : (Piece.unsigned w).bytes = (digits 10 decimalDigit 32 w.toNat).reverse :=
      (digits_reverse (by decide) decimalDigit hlt h0).symm
    have hlen : (Piece.unsigned w).bytes.length = (digits 10 decimalDigit 32 w.toNat).length := by
      rw [hbytes, List.length_reverse]
    constructor
    · intro h
      have hroom : (digits 10 decimalDigit 32 w.toNat).length + false.toNat ≤ maxrem :=
        hlen ▸ h.resolve_right fun h => h hw
      refine harg.bind ?_
      rw [if_neg hw, hlen, hbytes]
      exact formatDigits_emits hG hroom _
    · intro h _
      refine harg.bind ?_
      rw [if_neg hw]
      exact formatDigits_refuses (by rw [hlen] at h; exact h) _

section Nested

variable {nested : List Byte → Code Unit}
  (hnested : ∀ text : List Byte, text ≠ [] → text.length < 16 → (∀ b ∈ text, b ≠ 0#8 ∧ b ≠ percent) →
    ∀ s, Does F G (nested text) s () (s.emit text))

include hnested

theorem formatInt_prints {w : Word} (hs : s.args = .int w :: args) :
    Prints F G (formatInt nested maxrem) (.int w) maxrem s { s with args := args } := by
  have harg : Does F G Code.argInt s w { s with args := args } := argInt_does hG hs
  by_cases hmin : w = 0x80000000#32
  · subst hmin
    refine ⟨fun _ => ?_, fun _ h => absurd rfl h.2⟩
    have hbytes : (Piece.int 0x80000000#32).bytes =
        [0x2D#8, 0x32#8, 0x31#8, 0x34#8, 0x37#8, 0x34#8, 0x38#8, 0x33#8, 0x36#8, 0x34#8, 0x38#8] := by
      have hnum := digits_reverse (by decide : 1 < 10) decimalDigit
        (by decide : 2147483648 < 10 ^ 32) (by decide)
      rw [Piece.bytes, show (0x80000000#32).toInt.natAbs = 2147483648 by decide, ← hnum]
      decide
    rw [hbytes]
    exact harg.bind ((hnested _ (by decide) (by decide) (by decide) _).bind (does_ret _ _))
  · by_cases hw : w = 0#32
    · subst hw
      refine ⟨fun _ => ?_, fun _ h => absurd rfl h.1⟩
      have hbytes : (Piece.int 0#32).bytes = [0x30#8] := numeral_zero 10 decimalDigit
      rw [hbytes]
      exact harg.bind ((print_one hG _ _).bind (does_ret _ _))
    · have h0 : w.toInt.natAbs ≠ 0 := by
        intro h
        exact hw (BitVec.eq_of_toInt_eq (by simpa using h))
      have hlt : w.toInt.natAbs < 10 ^ 32 := by
        have := w.isLt
        rw [BitVec.toInt_eq_toNat_cond]
        split <;> omega
      have hnum := digits_reverse (by decide : 1 < 10) decimalDigit hlt h0
      have hbytes : (Piece.int w).bytes =
          (if w.msb then [0x2D#8] else []) ++ (digits 10 decimalDigit 32 w.toInt.natAbs).reverse := by
        rw [hnum, Piece.bytes]
      have hlen : (Piece.int w).bytes.length = (digits 10 decimalDigit 32 w.toInt.natAbs).length +
          w.msb.toNat := by
        rw [hbytes, List.length_append, List.length_reverse, Nat.add_comm]
        cases w.msb <;> rfl
      constructor
      · intro h
        have hroom : (digits 10 decimalDigit 32 w.toInt.natAbs).length + w.msb.toNat ≤ maxrem :=
          hlen ▸ h.resolve_right fun h => h ⟨hw, hmin⟩
        refine harg.bind ?_
        rw [if_neg hmin, if_neg hw, hlen, hbytes]
        exact formatDigits_emits hG hroom _
      · intro h _
        refine harg.bind ?_
        rw [if_neg hmin, if_neg hw]
        exact formatDigits_refuses (by rw [hlen] at h; exact h) _

theorem formatHex_prints {w : Word} (hs : s.args = .int w :: args) :
    Prints F G (formatHex nested maxrem) (.hex w) maxrem s { s with args := args } := by
  have harg : Does F G Code.argInt s w { s with args := args } := argInt_does hG hs
  by_cases hw : w = 0#32
  · subst hw
    refine ⟨fun _ => ?_, fun _ h => absurd rfl h.1⟩
    have hbytes : (Piece.hex 0#32).bytes = [0x30#8, 0x78#8, 0x30#8] := by
      rw [Piece.bytes, show (0#32).toNat = 0 from rfl, numeral_zero]
      rfl
    rw [hbytes]
    exact harg.bind ((hnested _ (by decide) (by decide) (by decide) _).bind (does_ret _ _))
  · have h0 : w.toNat ≠ 0 := fun h => hw (BitVec.eq_of_toNat_eq h)
    have hlt : w.toNat < 16 ^ 8 := by
      have := w.isLt
      omega
    have hnum := digits_reverse (by decide : 1 < 16) hexDigit hlt h0
    have hlen : (numeral 16 hexDigit w.toNat).length = (digits 16 hexDigit 8 w.toNat).length := by
      rw [← hnum, List.length_reverse]
    have htotal : (Piece.hex w).bytes.length = (digits 16 hexDigit 8 w.toNat).length + 2 := by
      rw [Piece.bytes, List.length_append, hlen, Nat.add_comm]
      rfl
    constructor
    · intro h
      have hroom : ¬ maxrem < (digits 16 hexDigit 8 w.toNat).length := by
        rcases h with h | h
        · omega
        · intro hlt
          exact h ⟨hw, hlen ▸ hlt⟩
      refine harg.bind ?_
      simp only [if_neg hw, if_neg hroom, htotal]
      refine (hnested _ (by decide) (by decide) (by decide) _).bind ?_
      have hdigits := printDigits_does (F := F) hG (digits 16 hexDigit 8 w.toNat)
        (Console.emit { s with args := args } [0x30#8, 0x78#8])
      rw [Console.emit_emit, hnum] at hdigits
      exact hdigits.bind (does_ret _ _)
    · intro _ h
      refine harg.bind ?_
      simp only [if_neg hw, if_pos (hlen ▸ h.2)]
      exact does_ret _ _

end Nested

/-! Strings. -/

omit hG in
theorem strlen_does {str : Reader} {m : Nat → Byte} {fuel : Nat} {l : List Byte} (hl : Str m 0 l)
    (hstr : ∀ k ≤ l.length, ∀ s, Does F G (str k) s (m k) s) (hfuel : l.length < fuel) (s : Console) :
    Does F G (strlen fuel str) s l.length s := by
  have hloop (i n : Nat) (l' : List Byte) (hl' : Str m i l') (hn : l'.length < n)
      (hi : i + l'.length = l.length) :
      Does F G (Prog.loop Code.outOfFuel (fun len => do
        let c ← str len
        return if c ≠ 0#8 then .inl (len + 1) else .inr len) n i) s l.length s := by
    induction l' generalizing i n with
    | nil =>
      obtain ⟨n, rfl⟩ : ∃ j, n = j + 1 := ⟨n - 1, by simp at hn; omega⟩
      obtain rfl : i = l.length := by simpa using hi
      refine Prog.Returns.loop_done ((hstr _ (Nat.le_refl _) s).bind ?_)
      rw [show m l.length = 0#8 from hl']
      exact does_ret _ s
    | cons c l' ih =>
      obtain ⟨n, rfl⟩ : ∃ j, n = j + 1 := ⟨n - 1, by simp at hn; omega⟩
      rw [List.length_cons] at hi hn
      refine Prog.Returns.loop_next ((hstr _ (by omega) s).bind ?_)
        (ih (i + 1) n hl'.2.2 (by omega) (by omega))
      rw [hl'.1, if_pos hl'.2.1]
      exact does_ret _ s
  exact hloop 0 fuel l hl hfuel (Nat.zero_add _)

theorem formatString_prints {l : List Byte} {fuel : Nat} (hfuel : l.length < fuel)
    (hs : s.args = .str l :: args) :
    Prints F G (formatString fuel maxrem) (.str (cstring l)) maxrem s { s with args := args } := by
  have harg : Does F G Code.argStr s l { s with args := args } := argStr_does hG hs
  have hle : (cstring l).length ≤ l.length := (List.takeWhile_prefix _).length_le
  have hlen : Does F G (strlen fuel (reader l)) { s with args := args } (cstring l).length
    { s with args := args } :=
    strlen_does (str_reader l) (fun k _ s => does_ret _ s) (by omega) _
  constructor
  · intro h
    have hroom : ¬ maxrem < (cstring l).length := by
      have := h.resolve_right fun h => h trivial
      exact Nat.not_lt.mpr this
    refine harg.bind (hlen.bind ?_)
    rw [if_neg hroom]
    refine (print_does hG (fun k hk s => ?_) _).bind (does_ret _ _)
    have hget := (str_reader l).get hk
    rw [Nat.zero_add] at hget
    exact hget ▸ does_ret _ s
  · intro h _
    refine harg.bind (hlen.bind ?_)
    rw [if_pos (show maxrem < (cstring l).length from h)]
    exact does_ret _ _

section Format

variable {format : Reader} {m : Nat → Byte} (hread : ∀ k ≤ n, ∀ s, Does F G (format k) s (m k) s)

include hread

theorem formatRest_prints {i fuel : Nat} {l : List Byte} (hl : Str m i l) (hn : i + l.length ≤ n)
    (hfuel : l.length < fuel) (s : Console) :
    Prints F G (formatRest format fuel i maxrem) (.rest l) maxrem s s := by
  have hshift : Str (fun k => m (i + k)) 0 l := Str.shift (j := 0) hl
  have hlen : Does F G (strlen fuel fun k => format (i + k)) s l.length s :=
    strlen_does hshift (fun k hk s => hread _ (by omega) s) hfuel s
  constructor
  · intro h
    have hroom : ¬ maxrem < l.length := by
      have := h.resolve_right fun h => h trivial
      exact Nat.not_lt.mpr this
    refine hlen.bind ?_
    rw [if_neg hroom]
    refine (print_does hG (fun k hk s => ?_) _).bind (does_ret _ _)
    exact hl.get hk ▸ hread _ (by omega) s
  · intro h _
    refine hlen.bind ?_
    rw [if_pos (show maxrem < l.length from h)]
    exact does_ret _ _

omit hG in
theorem literalRun_does {i fuel : Nat} {c : Byte} {run fmt : List Byte} (hl : Str m i (c :: run ++ fmt))
    (hrun : ∀ b ∈ run, b ≠ percent) (hend : RunEnds fmt) (hn : i + (run.length + 1) ≤ n)
    (hfuel : run.length < fuel) (s : Console) :
    Does F G (literalRun format fuel i) s (run.length + 1) s := by
  have hloop (j k : Nat) (run : List Byte) (hl : Str m (i + j) (run ++ fmt))
      (hrun : ∀ b ∈ run, b ≠ percent) (hn : i + j + run.length ≤ n) (hk : run.length < k) :
      Does F G (Prog.loop Code.outOfFuel (fun amount => do
        let c ← format (i + amount)
        if c = 0#8 then return .inr amount
        else
          let c ← format (i + amount)
          return if c ≠ percent then .inl (amount + 1) else .inr amount) k j) s (j + run.length) s := by
    induction run generalizing j k with
    | nil =>
      obtain ⟨k, rfl⟩ : ∃ j, k = j + 1 := ⟨k - 1, by simp at hk; omega⟩
      refine Prog.Returns.loop_done ((hread _ (by simpa using hn) s).bind ?_)
      cases fmt with
      | nil =>
        rw [show m (i + j) = 0#8 from hl, if_pos rfl]
        exact does_ret _ s
      | cons d fmt =>
        obtain rfl : d = percent := hend
        have hd : m (i + j) = percent := hl.1
        rw [hd, if_neg (by decide)]
        refine (hread _ (by simpa using hn) s).bind ?_
        rw [hd, if_neg (fun h => h rfl)]
        exact does_ret _ s
    | cons b run ih =>
      obtain ⟨k, rfl⟩ : ∃ j, k = j + 1 := ⟨k - 1, by simp at hk; omega⟩
      rw [List.length_cons] at hn hk
      have hb : m (i + j) = b := hl.1
      have hrest := ih (j + 1) k hl.2.2 (fun b hb => hrun b (List.mem_cons_of_mem _ hb)) (by omega)
        (by omega)
      rw [show j + 1 + run.length = j + (run.length + 1) by omega] at hrest
      refine Prog.Returns.loop_next ((hread _ (by omega) s).bind ?_) hrest
      rw [hb, if_neg hl.2.1]
      refine (hread _ (by omega) s).bind ?_
      rw [hb, if_pos (hrun b List.mem_cons_self)]
      exact does_ret _ s
  have h := hloop 1 fuel run hl.2.2 hrun (by omega) hfuel
  rwa [Nat.add_comm 1] at h

end Format

/-! An iteration. -/

omit hG in
theorem remaining_eq {written : Int} (h0 : 0 ≤ written) (h : written ≤ intMax) :
    (remaining written : Int) = intMax - written := by
  unfold remaining
  unfold intMax at h ⊢
  omega

/-- What an iteration does with the item `p`: it goes on at `i'`, or returns -1, or
counts beyond `INT_MAX`. -/
structure Handles (F : Nat → Byte) (G : Op → Prop) (iter : Code ((Nat × Int) ⊕ Int)) (p : Piece)
    (i' : Nat) (written : Int) (s t : Console) : Prop where
  fits : written + p.bytes.length ≤ intMax →
    Does F G iter s (.inl (i', written + p.bytes.length)) (t.emit p.bytes)
  refuses : intMax < written + p.bytes.length → p.Checked (remaining written) →
    Does F G iter s (.inr (-1)) t
  exceeds : intMax < written + p.bytes.length → ¬ p.Checked (remaining written) →
    ¬ Prog.Performs (exec F) G iter s

omit hG in
theorem Handles.of_reaches {iter iter' : Code ((Nat × Int) ⊕ Int)} {p : Piece} {i' : Nat} {written : Int}
    {s t u : Console} (h : Handles F G iter p i' written s t)
    (hr : Prog.Reaches (exec F) G iter' u iter s) : Handles F G iter' p i' written u t :=
  ⟨fun hle => hr.returns _ _ (h.fits hle), fun hlt hc => hr.returns _ _ (h.refuses hlt hc),
    fun hlt hc hp => h.exceeds hlt hc (hr.performs hp)⟩

theorem Prints.handles {code : Directive} {p : Piece} {written : Int} {s t : Console}
    (hp : Prints F G code p (remaining written) s t) (next : Option Nat → Nat) (h0 : 0 ≤ written)
    (hle : written ≤ intMax) :
    Handles F G (code >>=
      fun r => advance (next r) written r) p (next (some p.bytes.length)) written s t := by
  have hrem := remaining_eq h0 hle
  constructor
  · intro h
    refine (hp.emits (Or.inl (by omega))).bind ?_
    exact (Prog.returns_perform rfl ((hG.count _).mpr h)).bind (does_ret _ _)
  · intro h hc
    exact (hp.refuses (by omega) hc).bind (does_ret _ _)
  · intro h hc hperf
    have hadvance := ((Prog.performs_bind_iff _ _).mp hperf).2 _ _ (hp.emits (Or.inr hc)).1
    have hcount := ((Prog.performs_bind_iff _ _).mp hadvance).1
    have hG' : G (.count (written + p.bytes.length)) := by simpa [Prog.Performs, Code.count] using hcount
    have := (hG.count _).mp hG'
    omega

end Parts

end PekOS.Stdio
