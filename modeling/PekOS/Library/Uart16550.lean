import Mathlib.Data.List.Basic
import Mathlib.Algebra.BigOperators.Group.List.Basic

/-! The 16550 UART: its registers, its two FIFOs and its loopback mode, and
what the line it is on does to it between two accesses. -/

namespace Uart16550

/-- The transmitter sends a byte, if it has one, or a byte comes in. -/
inductive Line
  | shift
  | arrive (b : BitVec 8)
  deriving DecidableEq

/-- `dll` and `dlm` are the divisor latch. -/
structure Registers where
  ier : BitVec 8
  fcr : BitVec 8
  lcr : BitVec 8
  mcr : BitVec 8
  dll : BitVec 8
  dlm : BitVec 8
  deriving DecidableEq

namespace Registers

variable (r : Registers)

def dlab : Bool := r.lcr.getLsbD 7

def loopback : Bool := r.mcr.getLsbD 4

def fifos : Bool := r.fcr.getLsbD 0

def depth : Nat := if r.fifos then 16 else 1

/-- Normal operation, with FIFOs. -/
structure Duplex : Prop where
  dlab : r.dlab = false
  loopback : r.loopback = false
  fifos : r.fifos = true

end Registers

/-- `buffer` is the byte read last. `sent` is what has gone out on the line, and
`heard` what has come in from it and found room. -/
structure Uart where
  regs : Registers
  transmit : List (BitVec 8)
  receive : List (BitVec 8)
  buffer : BitVec 8
  overrun : Bool
  sent : List (BitVec 8)
  heard : List (BitVec 8)

namespace Uart

variable (u : Uart)

/-- A FIFO that is full keeps what it has; without FIFOs the byte that was not read is replaced. -/
def accept (b : BitVec 8) : Uart :=
  if u.receive.length < u.regs.depth then { u with receive := u.receive ++ [b] }
  else if u.regs.fifos then { u with overrun := true }
  else { u with receive := [b], overrun := true }

def onLine : Line → Uart
  | .shift =>
    match u.transmit with
    | [] => u
    | b :: rest =>
      if u.regs.loopback then { u with transmit := rest }.accept b
      else { u with transmit := rest, sent := u.sent ++ [b] }
  | .arrive b =>
    if u.regs.loopback then u
    else { u.accept b with heard := if u.receive.length < u.regs.depth then u.heard ++ [b] else u.heard }

def events (l : List Line) : Uart := l.foldl onLine u

/-- A change of the mode empties both FIFOs. -/
def writeFcr (v : BitVec 8) : Uart :=
  let changed := v.getLsbD 0 != u.regs.fifos
  { u with
    regs := { u.regs with fcr := if v.getLsbD 0 then v else 0#8 }
    receive := if changed || (v.getLsbD 0 && v.getLsbD 1) then [] else u.receive
    transmit := if changed || (v.getLsbD 0 && v.getLsbD 2) then [] else u.transmit }

/-- A byte the transmitter has no room for is lost. -/
def send (v : BitVec 8) : Uart :=
  if u.transmit.length < u.regs.depth then { u with transmit := u.transmit ++ [v] } else u

def write (offset : BitVec 3) (v : BitVec 8) : Uart :=
  match offset with
  | 0#3 => if u.regs.dlab then { u with regs := { u.regs with dll := v } } else u.send v
  | 1#3 =>
    if u.regs.dlab then { u with regs := { u.regs with dlm := v } }
    else { u with regs := { u.regs with ier := v &&& 0x0F#8 } }
  | 2#3 => u.writeFcr v
  | 3#3 => { u with regs := { u.regs with lcr := v } }
  | 4#3 => { u with regs := { u.regs with mcr := v &&& 0x1F#8 } }
  | _ => u

/-- The line status: data ready, overrun, and the two bits of an empty transmitter. -/
def lsr : BitVec 8 :=
  (if u.receive = [] then 0#8 else 1#8) ||| (if u.overrun then 2#8 else 0#8) |||
    (if u.transmit = [] then 0x60#8 else 0#8)

/-- The oldest byte that came in. -/
def take : BitVec 8 × Uart :=
  match u.receive with
  | [] => (u.buffer, u)
  | b :: rest => (b, { u with receive := rest, buffer := b })

/-- A read. Of the interrupt identification, the modem status and the scratch register nothing is
kept. -/
def read (offset : BitVec 3) : BitVec 8 × Uart :=
  match offset with
  | 0#3 => if u.regs.dlab then (u.regs.dll, u) else u.take
  | 1#3 => (if u.regs.dlab then u.regs.dlm else u.regs.ier, u)
  | 3#3 => (u.regs.lcr, u)
  | 4#3 => (u.regs.mcr, u)
  | 5#3 => (u.lsr, { u with overrun := false })
  | _ => (0#8, u)

variable {u}

theorem lsr_transmit : u.lsr &&& 0x20#8 ≠ 0#8 ↔ u.transmit = [] := by
  unfold lsr
  by_cases ht : u.transmit = []
  · rw [if_pos ht]
    refine iff_of_true ?_ ht
    split <;> split <;> decide
  · rw [if_neg ht]
    refine iff_of_false (not_not.mpr ?_) ht
    split <;> split <;> decide

theorem lsr_receive : u.lsr &&& 1#8 ≠ 0#8 ↔ u.receive ≠ [] := by
  unfold lsr
  by_cases hr : u.receive = []
  · rw [if_pos hr]
    refine iff_of_false (not_not.mpr ?_) (fun h => h hr)
    split <;> split <;> decide
  · rw [if_neg hr]
    refine iff_of_true ?_ hr
    split <;> split <;> decide

theorem write_of_empty (hd : u.regs.dlab = false) (hf : u.regs.fifos = true) (ht : u.transmit = [])
    (b : BitVec 8) : u.write 0#3 b = { u with transmit := [b] } := by
  have hdepth : u.regs.depth = 16 := if_pos hf
  rw [write, hd, if_neg (by decide), send, ht, hdepth, if_pos (by decide), List.nil_append]

theorem write_buffer (u : Uart) (offset : BitVec 3) (v : BitVec 8) :
    (u.write offset v).buffer = u.buffer := by
  unfold write
  split
  · split
    · rfl
    · unfold send
      split <;> rfl
  · split <;> rfl
  all_goals rfl

theorem write_mcr {offset : BitVec 3} (h : offset ≠ 4#3) (u : Uart) (v : BitVec 8) :
    (u.write offset v).regs.mcr = u.regs.mcr := by
  unfold write
  split
  · split
    · rfl
    · unfold send
      split <;> rfl
  · split <;> rfl
  · rfl
  · rfl
  · exact absurd rfl h
  · rfl

theorem read_regs (u : Uart) (offset : BitVec 3) : (u.read offset).2.regs = u.regs := by
  unfold read
  split
  · split
    · rfl
    · unfold take
      split <;> rfl
  all_goals rfl

theorem take_fst (u : Uart) : u.take.1 = u.receive.head?.getD u.buffer := by
  unfold take
  split <;> simp [*]

theorem take_snd (u : Uart) : u.take.2.receive = u.receive.tail ∧ u.take.2.regs = u.regs ∧
    u.take.2.transmit = u.transmit ∧ u.take.2.sent = u.sent := by
  unfold take
  split
  · next h => simp [h]
  · next h => simp [h]

section Events

@[simp] theorem events_nil (u : Uart) : u.events [] = u := rfl

@[simp] theorem events_cons (u : Uart) (e : Line) (l : List Line) :
    u.events (e :: l) = (u.onLine e).events l := rfl

@[simp] theorem accept_regs (u : Uart) (b : BitVec 8) : (u.accept b).regs = u.regs := by
  unfold accept
  split <;> [rfl; (split <;> rfl)]

@[simp] theorem accept_transmit (u : Uart) (b : BitVec 8) : (u.accept b).transmit = u.transmit := by
  unfold accept
  split <;> [rfl; (split <;> rfl)]

@[simp] theorem accept_sent (u : Uart) (b : BitVec 8) : (u.accept b).sent = u.sent := by
  unfold accept
  split <;> [rfl; (split <;> rfl)]

@[simp] theorem accept_heard (u : Uart) (b : BitVec 8) : (u.accept b).heard = u.heard := by
  unfold accept
  split <;> [rfl; (split <;> rfl)]

@[simp] theorem accept_buffer (u : Uart) (b : BitVec 8) : (u.accept b).buffer = u.buffer := by
  unfold accept
  split <;> [rfl; (split <;> rfl)]

theorem onLine_regs (u : Uart) (e : Line) :
    (u.onLine e).regs = u.regs ∧ (u.onLine e).buffer = u.buffer := by
  cases e with
  | shift =>
    rw [onLine]
    split
    · exact ⟨rfl, rfl⟩
    · split <;> simp
  | arrive b =>
    rw [onLine]
    split <;> simp

theorem events_regs (u : Uart) (l : List Line) :
    (u.events l).regs = u.regs ∧ (u.events l).buffer = u.buffer := by
  induction l generalizing u with
  | nil => exact ⟨rfl, rfl⟩
  | cons e l ih =>
    rw [events_cons]
    exact ⟨(ih _).1.trans (onLine_regs u e).1, (ih _).2.trans (onLine_regs u e).2⟩

theorem onLine_transmit (u : Uart) (e : Line) :
    (u.onLine e).transmit = u.transmit.drop ([e].count .shift) := by
  cases e with
  | shift =>
    rw [onLine]
    split
    · next h => rw [h, List.drop_nil]
    · next h => split <;> simp [h]
  | arrive b =>
    rw [onLine]
    split <;> simp

/-- The transmitter takes its bytes in order, one a shift. -/
theorem events_transmit (u : Uart) (l : List Line) :
    (u.events l).transmit = u.transmit.drop (l.count .shift) := by
  induction l generalizing u with
  | nil => rfl
  | cons e l ih => rw [events_cons, ih, onLine_transmit, List.drop_drop, ← List.count_append,
    List.singleton_append]

def arrivals (l : List Line) : List (BitVec 8) := l.filterMap fun e => match e with
  | .arrive b => some b
  | .shift => none

theorem take_take_append {α : Type} (n : Nat) (xs ys : List α) :
    (xs.take n ++ ys).take n = (xs ++ ys).take n := by
  by_cases h : n ≤ xs.length
  · rw [List.take_append_of_le_length (by rw [List.length_take]; omega),
      List.take_append_of_le_length h, List.take_take, Nat.min_self]
  · have hxs : xs.take n = xs := List.take_of_length_le (by omega)
    rw [hxs]

theorem accept_receive (hf : u.regs.fifos = true) (hle : u.receive.length ≤ 16) (b : BitVec 8) :
    (u.accept b).receive = (u.receive ++ [b]).take 16 := by
  have hdepth : u.regs.depth = 16 := if_pos hf
  rw [accept, hdepth]
  by_cases hlt : u.receive.length < 16
  · rw [if_pos hlt, List.take_of_length_le (by simp; omega)]
  · rw [if_neg hlt, if_pos hf, List.take_append_of_le_length (by omega), List.take_of_length_le hle]

/-- The receiver takes what comes in until its FIFO is full. -/
theorem events_receive (hl : u.regs.loopback = false) (hf : u.regs.fifos = true)
    (hle : u.receive.length ≤ 16) (l : List Line) :
    (u.events l).receive = (u.receive ++ arrivals l).take 16 := by
  induction l generalizing u with
  | nil => rw [events_nil, arrivals, List.filterMap_nil, List.append_nil, List.take_of_length_le hle]
  | cons e l ih =>
    have hregs := (onLine_regs u e).1
    rw [events_cons]
    cases e with
    | shift =>
      have hrec : (u.onLine .shift).receive = u.receive := by
        rw [onLine]
        split
        · rfl
        · rw [if_neg (Bool.not_eq_true _ ▸ hl)]
      rw [ih (hregs ▸ hl) (hregs ▸ hf) (by rwa [hrec]), hrec]
      rfl
    | arrive b =>
      have hrec : (u.onLine (.arrive b)).receive = (u.receive ++ [b]).take 16 := by
        rw [onLine, if_neg (Bool.not_eq_true _ ▸ hl)]
        exact accept_receive hf hle b
      have hrest : arrivals (.arrive b :: l) = [b] ++ arrivals l := rfl
      rw [ih (hregs ▸ hl) (hregs ▸ hf) (by rw [hrec]; exact List.length_take_le 16 _), hrec, hrest,
        ← List.append_assoc, take_take_append]

theorem accept_receive_ne_nil (u : Uart) (b : BitVec 8) : (u.accept b).receive ≠ [] := by
  unfold accept
  split
  · exact List.append_ne_nil_of_right_ne_nil _ (List.cons_ne_nil b [])
  · next hge =>
    split
    · intro hnil
      refine hge ?_
      rw [show u.receive = [] from hnil, Registers.depth]
      split <;> decide
    · exact List.cons_ne_nil b []

theorem events_receive_ne_nil {l : List Line} (h : u.receive ≠ [] ∨ u.regs.loopback = false ∧
    ∃ b, Line.arrive b ∈ l) : (u.events l).receive ≠ [] := by
  induction l generalizing u with
  | nil => exact h.resolve_right fun h => by simp at h
  | cons e l ih =>
    rw [events_cons]
    refine ih ?_
    rw [(onLine_regs u e).1]
    cases e with
    | shift =>
      refine h.imp (fun hr => ?_) fun h => ⟨h.1, by simpa using h.2⟩
      rw [onLine]
      split
      · exact hr
      · split
        · exact accept_receive_ne_nil _ _
        · exact hr
    | arrive b =>
      by_cases hl : u.regs.loopback = true
      · rw [onLine, if_pos hl]
        exact Or.inl (h.resolve_right fun h => by simp [hl] at h)
      · rw [onLine, if_neg hl]
        exact Or.inl (accept_receive_ne_nil u b)

end Events

section Loopback

/-- With nothing to send, nothing happens in loopback mode. -/
theorem events_loopback_nil (hl : u.regs.loopback = true) (ht : u.transmit = []) (l : List Line) :
    u.events l = u := by
  induction l with
  | nil => rfl
  | cons e l ih =>
    have hsame : u.onLine e = u := by
      cases e with
      | shift => rw [onLine, ht]
      | arrive b => rw [onLine, if_pos hl]
    rw [events_cons, hsame, ih]

theorem events_loopback_one (hl : u.regs.loopback = true) {b : BitVec 8} (ht : u.transmit = [b])
    (l : List Line) :
    u.events l = if .shift ∈ l then { u with transmit := [] }.accept b else u := by
  induction l with
  | nil => rfl
  | cons e l ih =>
    rw [events_cons]
    cases e with
    | shift =>
      rw [onLine, ht]
      dsimp only
      rw [if_pos hl, if_pos List.mem_cons_self]
      exact events_loopback_nil (by rw [accept_regs]; exact hl) (by rw [accept_transmit]) l
    | arrive c =>
      rw [onLine, if_pos hl, ih]
      simp only [List.mem_cons, reduceCtorEq, false_or]

end Loopback

/-- The transmitter has gone on with what it had;
in loopback mode nothing of it has reached the line. -/
structure Drained (u v : Uart) : Prop where
  mcr : v.regs.mcr = u.regs.mcr
  out : ∃ gone, u.transmit = gone ++ v.transmit ∧ v.sent = u.sent ++ if u.regs.loopback then [] else gone

namespace Drained

variable {v w : Uart}

theorem of_eq (hm : v.regs.mcr = u.regs.mcr) (ht : v.transmit = u.transmit) (hs : v.sent = u.sent) :
    Drained u v :=
  ⟨hm, [], by rw [ht, List.nil_append], by rw [hs]; simp⟩

theorem trans (h : Drained u v) (h' : Drained v w) : Drained u w := by
  obtain ⟨gone, ht, hs⟩ := h.out
  obtain ⟨gone', ht', hs'⟩ := h'.out
  have hl : v.regs.loopback = u.regs.loopback := by rw [Registers.loopback, h.mcr, Registers.loopback]
  refine ⟨h'.mcr.trans h.mcr, gone ++ gone', ?_, ?_⟩
  · rw [ht, ht', List.append_assoc]
  · rw [hs', hs, hl]
    split <;> simp

theorem onLine (u : Uart) (e : Line) : Drained u (u.onLine e) := by
  cases e with
  | shift =>
    rw [Uart.onLine]
    split
    · exact of_eq rfl rfl rfl
    · next b rest ht =>
      split
      · next hl => exact ⟨by rw [accept_regs],
          [b], by rw [accept_transmit, ht]; rfl, by rw [accept_sent, if_pos hl]; simp⟩
      · next hl => exact ⟨rfl, [b], ht, by rw [if_neg hl]⟩
  | arrive b =>
    rw [Uart.onLine]
    split
    · exact of_eq rfl rfl rfl
    · exact of_eq (by rw [accept_regs]) (accept_transmit u b) (accept_sent u b)

theorem events (u : Uart) (l : List Line) : Drained u (u.events l) := by
  induction l generalizing u with
  | nil => exact of_eq rfl rfl rfl
  | cons e l ih => exact (onLine u e).trans (ih _)

end Drained

/-- Neither side of the line has had anything from the other. -/
structure Enclosed (u v : Uart) : Prop where
  sent : v.sent = u.sent
  heard : v.heard = u.heard

theorem Enclosed.onLine (hl : u.regs.loopback = true) (e : Line) : Enclosed u (u.onLine e) := by
  cases e with
  | shift =>
    rw [Uart.onLine]
    split
    · exact ⟨rfl, rfl⟩
    · rw [if_pos hl]
      exact ⟨accept_sent _ _, accept_heard _ _⟩
  | arrive b =>
    rw [Uart.onLine, if_pos hl]
    exact ⟨rfl, rfl⟩

theorem Enclosed.trans {u v w : Uart} (h : Enclosed u v) (h' : Enclosed v w) : Enclosed u w :=
  ⟨h'.sent.trans h.sent, h'.heard.trans h.heard⟩

theorem Enclosed.events (hl : u.regs.loopback = true) (l : List Line) : Enclosed u (u.events l) := by
  induction l generalizing u with
  | nil => exact ⟨rfl, rfl⟩
  | cons e l ih => exact (Enclosed.onLine hl e).trans (ih ((onLine_regs u e).1 ▸ hl))

theorem Enclosed.write (u : Uart) (offset : BitVec 3) (v : BitVec 8) : Enclosed u (u.write offset v) := by
  unfold Uart.write
  split
  · split
    · exact ⟨rfl, rfl⟩
    · unfold send
      split <;> exact ⟨rfl, rfl⟩
  · split <;> exact ⟨rfl, rfl⟩
  all_goals exact ⟨rfl, rfl⟩

theorem Enclosed.read (u : Uart) (offset : BitVec 3) : Enclosed u (u.read offset).2 := by
  unfold Uart.read
  split
  · split
    · exact ⟨rfl, rfl⟩
    · unfold take
      split <;> exact ⟨rfl, rfl⟩
  all_goals exact ⟨rfl, rfl⟩

/-- What the transmitter has been given goes out in order and nothing of it is lost; the bytes
`taken` are those that came in, in order, and what is left is what came in after them. -/
structure Exchanged (u : Uart) (given taken : List (BitVec 8)) (v : Uart) : Prop where
  regs : v.regs = u.regs
  out : v.sent ++ v.transmit = u.sent ++ u.transmit ++ given
  into : ∃ new, v.heard = u.heard ++ new ∧ taken ++ v.receive = u.receive ++ new

namespace Exchanged

variable {v w : Uart} {given given' taken taken' : List (BitVec 8)}

theorem refl (u : Uart) : Exchanged u [] [] u := ⟨rfl, (List.append_nil _).symm, [], by simp⟩

theorem trans (h : Exchanged u given taken v) (h' : Exchanged v given' taken' w) :
    Exchanged u (given ++ given') (taken ++ taken') w := by
  obtain ⟨new, hheard, hnew⟩ := h.into
  obtain ⟨new', hheard', hnew'⟩ := h'.into
  refine ⟨h'.regs.trans h.regs, ?_, new ++ new', ?_, ?_⟩
  · rw [h'.out, h.out, List.append_assoc]
  · rw [hheard', hheard, List.append_assoc]
  · rw [List.append_assoc, hnew', ← List.append_assoc, hnew, List.append_assoc]

theorem onLine (h : u.regs.Duplex) (e : Line) : Exchanged u [] [] (u.onLine e) := by
  refine ⟨(onLine_regs u e).1, ?_, ?_⟩
  · cases e with
    | shift =>
      rw [Uart.onLine]
      split
      · simp
      · next ht =>
        rw [if_neg (Bool.not_eq_true _ ▸ h.loopback), ht]
        simp
    | arrive b =>
      rw [Uart.onLine, if_neg (Bool.not_eq_true _ ▸ h.loopback)]
      simp
  · cases e with
    | shift =>
      rw [Uart.onLine]
      refine ⟨[], ?_⟩
      split
      · simp
      · rw [if_neg (Bool.not_eq_true _ ▸ h.loopback)]
        simp
    | arrive b =>
      rw [Uart.onLine, if_neg (Bool.not_eq_true _ ▸ h.loopback), accept]
      by_cases hlt : u.receive.length < u.regs.depth
      · exact ⟨[b], by simp [hlt]⟩
      · exact ⟨[], by simp [hlt, h.fifos]⟩

theorem events (h : u.regs.Duplex) (l : List Line) : Exchanged u [] [] (u.events l) := by
  induction l generalizing u with
  | nil => exact refl u
  | cons e l ih => exact (onLine h e).trans (ih ((onLine_regs u e).1 ▸ h))

theorem status (u : Uart) : Exchanged u [] [] (u.read 5#3).2 :=
  ⟨rfl, (List.append_nil _).symm, [], by simp [Uart.read]⟩

theorem write (h : u.regs.Duplex) (ht : u.transmit = []) (b : BitVec 8) :
    Exchanged u [b] [] (u.write 0#3 b) := by
  rw [write_of_empty h.dlab h.fifos ht]
  exact ⟨rfl, by simp [ht], [], by simp⟩

theorem read (h : u.regs.Duplex) (hr : u.receive ≠ []) :
    Exchanged u [] [(u.read 0#3).1] (u.read 0#3).2 := by
  rw [Uart.read, h.dlab, if_neg (by decide), take]
  cases hc : u.receive with
  | nil => exact absurd hc hr
  | cons b rest => exact ⟨rfl, (List.append_nil _).symm, [], by simp [hc]⟩

end Exchanged

end Uart

end Uart16550
