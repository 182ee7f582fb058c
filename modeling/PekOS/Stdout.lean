import PekOS.PrintfRuns
import PekOS.TerminalRing
import PekOS.Library.Simulation

/-! The C library as the kernel is linked with it: what `printf` passes to
`putchar` goes to the terminal, call after call. -/

namespace PekOS.Stdio

open OpTree Tty

/-- What a call of `printf` works on in the kernel. -/
structure Libk where
  args : List Arg
  terminal : Terminal

/-- putchar.c: a byte is written to the terminal and returned. -/
def execLibk (F : Nat → Byte) (fuel : Nat) : (o : Op) → Libk → Except Fault (o.Res × Libk)
  | .format i, s => .ok (F i, s)
  | .argInt, s =>
    match s.args with
    | .int w :: args => .ok (w, { s with args := args })
    | _ => .error .undefined
  | .argStr, s =>
    match s.args with
    | .str l :: args => .ok (l, { s with args := args })
    | _ => .error .undefined
  | .putchar b, s =>
    match Prog.run Terminal.exec (Tty.putchar fuel b) s.terminal with
    | .ok (_, t) => .ok ((b.toNat : Int), { s with terminal := t })
    | .error _ => .error .fuel
  | .count _, s => .ok ((), s)
  | .outOfFuel, _ => .error .fuel

/-- A call that prints. `printf`'s format and `puts`'s and `terminal_writestring`'s
string are what stands before the terminator. -/
inductive Call
  | printf (fmt : List Byte) (args : List Arg)
  | puts (string : List Byte)
  | terminalWritestring (data : List Byte)

section Call

variable (fuel : Nat)

def callPrintf (fmt : List Byte) (args : List Arg) (s : Terminal) : Except Fault (Int × Terminal) :=
  match Prog.run (execLibk (fun i => fmt.getD i 0#8) fuel) (printf fuel) ⟨args, s⟩ with
  | .ok (n, t) => .ok (n, t.terminal)
  | .error e => .error e

/-- `printf("%s\n", string)`. -/
def puts (string : List Byte) (s : Terminal) : Except Fault (Int × Terminal) :=
  callPrintf fuel [0x25#8, 0x73#8, newline] [.str string] s

/-- What the call returns, 0 for `void`, and the terminal after it. -/
def Call.run : Call → Terminal → Except Fault (Int × Terminal)
  | .printf fmt args, s => callPrintf fuel fmt args s
  | .puts string, s => Stdio.puts fuel string s
  | .terminalWritestring data, s =>
    match Prog.run Terminal.exec (Tty.terminalWritestring fuel data) s with
    | .ok (_, t) => .ok (0, t)
    | .error _ => .error .fuel

def runCalls : List Call → Terminal → Except Fault (List Int × Terminal)
  | [], s => .ok ([], s)
  | c :: cs, s => do
    let (n, t) ← c.run fuel s
    let (ns, u) ← runCalls cs t
    return (n :: ns, u)

end Call

/-- The bytes a call is to print, and what it is to return. -/
def Call.output : Call → Option (List Byte)
  | .printf fmt args => reference (cstring fmt) args
  | .puts string => some (cstring string ++ [newline])
  | .terminalWritestring data => some (cstring data)

def Call.result (out : List Byte) : Call → Int
  | .terminalWritestring _ => 0
  | _ => out.length

/-- A call that prints `out`, no longer than `printf` can count. -/
structure Call.Prints (c : Call) (out : List Byte) : Prop where
  output : c.output = some out
  length : (out.length : Int) ≤ intMax

/-- `t` shows what was on `s` with `data` written after it, the hardware cursor behind it. -/
structure Shows (s : Terminal) (data : List Byte) (t : Terminal) : Prop
    extends Terminal.Filled s data t where
  cursor : data ≠ [] ∨ s.cursor.toNat = s.pos → t.cursor.toNat = t.pos

namespace Shows

variable {s t u : Terminal} {data data' : List Byte}

theorem refl (h : InRange s) : Shows s [] s :=
  ⟨Terminal.filled h [], fun hd => hd.resolve_left fun he => he rfl⟩

theorem write (h : InRange s) (data : List Byte) : Shows s data (s.write data) := by
  have hf := Terminal.filled h data
  exact ⟨⟨write_inRange h data, hf.ring, hf.outside, hf.color⟩,
    fun _ => Terminal.moveCursor_cursor hf.inRange⟩

theorem trans (h : Shows s data t) (h' : Shows t data' u) : Shows s (data ++ data') u := by
  refine ⟨⟨h'.inRange, ?_, fun k hk => ?_, h'.color.trans h.color⟩, fun hd => h'.cursor ?_⟩
  · rw [h'.ring, h.ring, h.color, List.foldl_append]
  · rw [h'.outside k hk, h.outside k hk]
  · by_cases hn : data' = []
    · subst hn
      rw [List.append_nil] at hd
      exact Or.inr (h.cursor hd)
    · exact Or.inl hn

end Shows

variable {s : Terminal}

/-- The terminal once `output` has been passed to `putchar`. -/
def shown (s : Terminal) (output : List Byte) : Terminal := if output = [] then s else s.write output

theorem shown_inRange (h : InRange s) (output : List Byte) : InRange (shown s output) := by
  unfold shown
  split
  · exact h
  · exact write_inRange h output

theorem shows_shown (h : InRange s) (output : List Byte) : Shows s output (shown s output) := by
  unfold shown
  split
  · next he =>
    subst he
    exact .refl h
  · exact .write h output

theorem shown_write (s : Terminal) (output : List Byte) (b : Byte) :
    (shown s output).write [b] = shown s (output ++ [b]) := by
  unfold shown
  rw [if_neg (List.append_ne_nil_of_right_ne_nil _ (List.cons_ne_nil b []))]
  split
  · next he => rw [he, List.nil_append]
  · exact Terminal.write_write s output [b]

/-- What `printf` does with its output collected, it does on the terminal. -/
theorem run_libk (h : InRange s) {F : Nat → Byte} {fuel : Nat} (hf : 80 ≤ fuel) {α : Type}
    {p : Code α} {args : List Arg} {a : α} {c : Console}
    (hr : Prog.run (exec F) p ⟨args, []⟩ = .ok (a, c)) :
    Prog.run (execLibk F fuel) p ⟨args, s⟩ = .ok (a, ⟨c.args, shown s c.output⟩) := by
  have hstep (o : Op) (c : Console) (m : Libk) (r : o.Res) (c' : Console)
      (hm : m = ⟨c.args, shown s c.output⟩) (he : exec F o c = .ok (r, c')) :
      ∃ m', execLibk F fuel o m = .ok (r, m') ∧ m' = ⟨c'.args, shown s c'.output⟩ := by
    subst hm
    cases o with
    | putchar b =>
      cases he
      refine ⟨⟨c.args, shown s (c.output ++ [b])⟩, ?_, rfl⟩
      rw [execLibk, Tty.putchar, run_terminalWrite hf (shown_inRange h _), shown_write]
    | format i | count n =>
      cases he
      exact ⟨_, rfl, rfl⟩
    | argInt =>
      cases hargs : c.args with
      | nil => simp only [exec, hargs, reduceCtorEq] at he
      | cons x args =>
        cases x with
        | str l => simp only [exec, hargs, reduceCtorEq] at he
        | int w =>
          simp only [exec, hargs] at he
          cases he
          exact ⟨_, by simp only [execLibk], rfl⟩
    | argStr =>
      cases hargs : c.args with
      | nil => simp only [exec, hargs, reduceCtorEq] at he
      | cons x args =>
        cases x with
        | int w => simp only [exec, hargs, reduceCtorEq] at he
        | str l =>
          simp only [exec, hargs] at he
          cases he
          exact ⟨_, by simp only [execLibk], rfl⟩
    | outOfFuel => cases he
  obtain ⟨m', hr', rfl⟩ := Prog.run_forward hstep hr rfl
  exact hr'

theorem callPrintf_shows {fmt : List Byte} {args : List Arg} {out : List Byte}
    (href : reference (cstring fmt) args = some out) (hle : (out.length : Int) ≤ intMax) :
    ∃ fuel₀, ∀ fuel ≥ fuel₀, ∀ s, InRange s →
      ∃ t, callPrintf fuel fmt args s = .ok ((out.length : Int), t) ∧ Shows s out t := by
  obtain ⟨ps, h, rfl⟩ := exists_formats href
  obtain ⟨fuel₀, hfuel⟩ := printf_outcome watches_counted (fun _ _ => trivial) (str_reader fmt) h
  have hcount : 0 + ((ps.flatMap Piece.bytes).length : Int) ≤ intMax := by omega
  obtain ⟨hr, hb⟩ := bounded_of_le hcount
  refine ⟨max fuel₀ 80, fun fuel hge s hs => ?_⟩
  obtain ⟨c, hc, hout⟩ := (hfuel fuel (le_of_max_le_left hge)).returns hr
  rw [hb] at hc hout
  rw [Int.zero_add] at hc
  refine ⟨shown s c.output, ?_, ?_⟩
  · rw [callPrintf, run_libk hs (le_of_max_le_right hge) hc.1]
  · rw [hout]
    exact shows_shown hs _

theorem take_strlen (data : List Byte) : data.take (Tty.strlen data) = cstring data :=
  (List.prefix_iff_eq_take.mp (List.takeWhile_prefix _)).symm

theorem Call.run_shows {c : Call} {out : List Byte} (h : c.Prints out) :
    ∃ fuel₀, ∀ fuel ≥ fuel₀, ∀ s, InRange s →
    ∃ t, c.run fuel s = .ok (c.result out, t) ∧ Shows s out t := by
  cases c with
  | printf fmt args => exact callPrintf_shows h.output h.length
  | puts string =>
    have href : reference (cstring [percent, 0x73#8, newline]) [.str string] = some out := h.output
    exact callPrintf_shows href h.length
  | terminalWritestring data =>
    obtain rfl : cstring data = out := Option.some.inj h.output
    refine ⟨80, fun fuel hge s hs => ⟨s.write (cstring data), ?_, .write hs _⟩⟩
    rw [Call.run, Tty.terminalWritestring, take_strlen, run_terminalWrite hge hs]
    rfl

/-- Any sequence of calls leaves on the terminal what they print, one after the
other, and each returns the number of bytes it printed. -/
theorem runCalls_shows {cs : List Call} {outs : List (List Byte)} (h : List.Forall₂ Call.Prints cs outs) :
    ∃ fuel₀, ∀ fuel ≥ fuel₀, ∀ s, InRange s →
      ∃ t, runCalls fuel cs s = .ok (List.zipWith Call.result outs cs, t) ∧ Shows s outs.flatten t := by
  induction h with
  | nil => exact ⟨0, fun _ _ s hs => ⟨s, rfl, .refl hs⟩⟩
  | @cons c out cs outs hc _ ih =>
    obtain ⟨m, hm⟩ := Call.run_shows hc
    obtain ⟨n, hn⟩ := ih
    refine ⟨max m n, fun fuel hge s hs => ?_⟩
    obtain ⟨t, hr, ht⟩ := hm fuel (le_of_max_le_left hge) s hs
    obtain ⟨u, hr', hu⟩ := hn fuel (le_of_max_le_right hge) t ht.inRange
    refine ⟨u, ?_, ht.trans hu⟩
    simp only [runCalls, hr, hr', bind, Except.bind]
    rfl

/-- `printf("%d%%", -7)`, `puts("ok")`, `terminal_writestring("a")` on the cleared screen. -/
theorem runCalls_shows_three :
    let cs : List Call := [.printf [0x25#8, 0x64#8, 0x25#8, 0x25#8] [.int 0xFFFFFFF9#32],
      .puts [0x6F#8, 0x6B#8], .terminalWritestring [0x61#8]]
    let outs : List (List Byte) := [[0x2D#8, 0x37#8, 0x25#8], [0x6F#8, 0x6B#8, 0x0A#8], [0x61#8]]
    ∃ fuel₀, ∀ fuel ≥ fuel₀, ∃ t, runCalls fuel cs startTerminal = .ok ([3, 3, 0], t) ∧
      Shows startTerminal outs.flatten t := by
  intro cs outs
  have h : List.Forall₂ Call.Prints cs outs :=
    .cons ⟨by decide, by decide⟩ (.cons ⟨by decide, by decide⟩ (.cons ⟨by decide, by decide⟩ .nil))
  obtain ⟨fuel₀, hfuel⟩ := runCalls_shows h
  exact ⟨fuel₀, fun fuel hge => hfuel fuel hge startTerminal startTerminal_inRange⟩

end PekOS.Stdio
