import Mathlib.Data.Nat.Digits.Defs
import PekOS.Printf

/-! What `printf` is for: the bytes a format stands for, read byte by byte, and
the items the code prints one after another. -/

namespace PekOS.Stdio

open OpTree

/-- The canonical numeral of a number. -/
def numeral (base : Nat) (digit : Nat → Byte) (n : Nat) : List Byte :=
  if n = 0 then [digit 0] else (Nat.digits base n).reverse.map digit

inductive Piece
  | literal (l : List Byte)
  | char (b : Byte)
  | str (l : List Byte)
  | int (w : Word)
  | unsigned (w : Word)
  | hex (w : Word)
  | rest (l : List Byte)

def Piece.bytes : Piece → List Byte
  | literal l => l
  | char b => [b]
  | str l => l
  | int w => (if w.msb then [0x2D#8] else []) ++ numeral 10 decimalDigit w.toInt.natAbs
  | unsigned w => numeral 10 decimalDigit w.toNat
  | hex w => [0x30#8, 0x78#8] ++ numeral 16 hexDigit w.toNat
  | rest l => l

def cstring (l : List Byte) : List Byte := l.takeWhile fun b => b ≠ 0#8

/-- The item a directive stands for, where the argument matches it. -/
def directive (d : Byte) : Arg → Option Piece
  | .int w =>
    if d = 0x63#8 then some (.char (w.setWidth 8))
    else if d = 0x64#8 then some (.int w)
    else if d = 0x75#8 then some (.unsigned w)
    else if d = 0x78#8 then some (.hex w)
    else none
  | .str l => if d = 0x73#8 then some (.str (cstring l)) else none

def IsDirective (d : Byte) : Prop := d = 0x63#8 ∨ d = 0x73#8 ∨ d = 0x64#8 ∨ d = 0x75#8 ∨ d = 0x78#8

instance (d : Byte) : Decidable (IsDirective d) := inferInstanceAs (Decidable (_ ∨ _))

/-- The bytes a format stands for with matching arguments. -/
def reference : List Byte → List Arg → Option (List Byte)
  | [], _ => some []
  | [c], _ => some [c]
  | c :: d :: fmt, args =>
    if c ≠ percent then (reference (d :: fmt) args).map (c :: ·)
    else if d = percent then (reference fmt args).map (percent :: ·)
    else if IsDirective d then
      match args with
      | [] => none
      | a :: args => (directive d a).bind fun p => (reference fmt args).map (p.bytes ++ ·)
    else some (c :: d :: fmt)

/-- A format ends, or goes on with a `%`. -/
def RunEnds : List Byte → Prop
  | [] => True
  | c :: _ => c = percent

/-- A format ends after its `%`, or goes on with a byte that is no directive. -/
def Unknown : List Byte → Prop
  | [] => True
  | d :: _ => d ≠ percent ∧ ¬ IsDirective d

/-- The items of a format with matching arguments. -/
inductive Formats : List Byte → List Arg → List Piece → Prop
  | nil {args : List Arg} : Formats [] args []
  | literal {c : Byte} (run : List Byte) {fmt : List Byte} {args : List Arg} {ps : List Piece} :
    c ≠ percent →
      (∀ b ∈ run, b ≠ percent) → RunEnds fmt → Formats fmt args ps →
      Formats (c :: run ++ fmt) args (.literal (c :: run) :: ps)
  | escape (run : List Byte) {fmt : List Byte} {args : List Arg} {ps : List Piece} :
      (∀ b ∈ run, b ≠ percent) → RunEnds fmt → Formats fmt args ps →
      Formats (percent :: percent :: run ++ fmt) args (.literal (percent :: run) :: ps)
  | directive {d : Byte} {a : Arg} {fmt : List Byte} {args : List Arg} {p : Piece} {ps : List Piece} :
      directive d a = some p → Formats fmt args ps → Formats (percent :: d :: fmt) (a :: args) (p :: ps)
  | rest {fmt : List Byte} {args : List Arg} : Unknown fmt →
      Formats (percent :: fmt) args [.rest (percent :: fmt)]

namespace Formats

variable {fmt : List Byte} {args : List Arg} {ps : List Piece}

/-- A format is empty, starts with a run, or starts with a `%`. -/
theorem starts (h : Formats fmt args ps) : RunEnds fmt ∨ ∃ c run fmt' ps', c ≠ percent ∧
    (∀ b ∈ run, b ≠ percent) ∧ RunEnds fmt' ∧ Formats fmt' args ps' ∧
      fmt = c :: run ++ fmt' ∧ ps = .literal (c :: run) :: ps' := by
  cases h with
  | nil => exact Or.inl trivial
  | @literal c run fmt _ ps hc hrun hend h => exact Or.inr ⟨c, run, fmt, ps, hc, hrun, hend, h, rfl, rfl⟩
  | escape | directive | rest => exact Or.inl rfl

/-- An ordinary byte joins the run it stands before. -/
theorem cons_ordinary {c : Byte} (hc : c ≠ percent) (h : Formats fmt args ps) :
    ∃ ps', Formats (c :: fmt) args ps' ∧ ps'.flatMap Piece.bytes = c :: ps.flatMap Piece.bytes := by
  rcases h.starts with hend | ⟨d, run, fmt', ps', hd, hrun, hend, h', rfl, rfl⟩
  · exact ⟨_, .literal [] hc (by simp) hend h, rfl⟩
  · refine ⟨.literal (c :: d :: run) :: ps', .literal (d :: run) hc ?_ hend h', rfl⟩
    simpa using ⟨hd, hrun⟩

theorem cons_escape (h : Formats fmt args ps) : ∃ ps', Formats (percent :: percent :: fmt) args ps' ∧
    ps'.flatMap Piece.bytes = percent :: ps.flatMap Piece.bytes := by
  rcases h.starts with hend | ⟨d, run, fmt', ps', hd, hrun, hend, h', rfl, rfl⟩
  · exact ⟨_, .escape [] (by simp) hend h, rfl⟩
  · refine ⟨.literal (percent :: d :: run) :: ps', .escape (d :: run) ?_ hend h', rfl⟩
    simpa using ⟨hd, hrun⟩

end Formats

theorem exists_formats {fmt : List Byte} {args : List Arg} {out : List Byte}
    (h : reference fmt args = some out) : ∃ ps, Formats fmt args ps ∧ ps.flatMap Piece.bytes = out := by
  induction fmt, args using reference.induct generalizing out with
  | case1 args =>
    obtain rfl : [] = out := by simpa [reference] using h
    exact ⟨[], .nil, rfl⟩
  | case2 c args =>
    obtain rfl : [c] = out := by simpa [reference] using h
    by_cases hc : c = percent
    · subst hc
      exact ⟨_, .rest trivial, rfl⟩
    · exact ⟨_, .literal [] hc (by simp) trivial .nil, rfl⟩
  | case3 c d fmt args hc ih =>
    simp only [reference, if_pos hc, Option.map_eq_some_iff] at h
    obtain ⟨out, hout, rfl⟩ := h
    obtain ⟨ps, hps, rfl⟩ := ih hout
    exact hps.cons_ordinary hc
  | case4 c fmt args hc ih =>
    obtain rfl : c = percent := by simpa using hc
    simp only [reference, ne_eq, not_true, if_false, if_true, Option.map_eq_some_iff] at h
    obtain ⟨out, hout, rfl⟩ := h
    obtain ⟨ps, hps, rfl⟩ := ih hout
    exact hps.cons_escape
  | case5 c d fmt hc hd hdir => simp [reference, if_neg hc, hd, hdir] at h
  | case6 c d fmt hc hd hdir a args ih =>
    obtain rfl : c = percent := by simpa using hc
    simp only [reference, ne_eq, not_true, if_false, if_neg hd, if_pos hdir, Option.bind_eq_some_iff,
      Option.map_eq_some_iff] at h
    obtain ⟨p, hp, out, hout, rfl⟩ := h
    obtain ⟨ps, hps, rfl⟩ := ih hout
    exact ⟨p :: ps, .directive hp hps, rfl⟩
  | case7 c d fmt args hc hd hdir =>
    obtain rfl : c = percent := by simpa using hc
    obtain rfl : percent :: d :: fmt = out := by simpa [reference, hd, hdir] using h
    exact ⟨_, .rest ⟨hd, hdir⟩, List.append_nil _⟩

end PekOS.Stdio
