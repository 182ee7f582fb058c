import Mathlib.Data.List.TakeWhile
import PekOS.Printing

/-! `printf` from its first iteration to its last: what it prints and returns,
and when the count stays within `INT_MAX`. -/

namespace PekOS.Stdio

open OpTree

section Iteration

variable {F : Nat → Byte} {G : Op → Prop} {n : Nat} (hG : Watches G)
  {nested : List Byte → Code Unit} {format : Reader} {m : Nat → Byte}
  (hread : ∀ k ≤ n, ∀ s, Does F G (format k) s (m k) s)
  {fuel i : Nat} {written : Int} (h0 : 0 ≤ written) (hle : written ≤ intMax)

include hG hread h0 hle

/-- A run of ordinary bytes, its first one at `i`. -/
theorem literal_handles {c : Byte} {run fmt : List Byte} (hl : Str m i (c :: run ++ fmt))
    (hrun : ∀ b ∈ run, b ≠ percent) (hend : RunEnds fmt) (hn : i + (run.length + 1) ≤ n)
    (hfuel : run.length < fuel) (s : Console) :
    Handles F G (do
      let amount ← literalRun format fuel i
      if remaining written < amount then return .inr (-1)
      else
        let ok ← print (fun k => format (i + k)) amount
        advance (i + amount) written (if ok then some amount else none))
      (.literal (c :: run)) (i + (run.length + 1)) written s s := by
  have hrem := remaining_eq h0 hle
  have hamount : Does F G (literalRun format fuel i) s (run.length + 1) s :=
    literalRun_does hread hl hrun hend hn hfuel s
  have hprint : Does F G (print (fun k => format (i + k)) (run.length + 1)) s true
      (s.emit (c :: run)) := by
    refine print_does hG (l := c :: run) (fun k hk s => ?_) s
    have hget := Str.get hl (k := k) (by simp only [List.length_append]; omega)
    rw [List.getElem_append_left hk] at hget
    rw [List.length_cons] at hk
    exact hget ▸ hread _ (by omega) s
  constructor
  · intro h
    have hlen : written + ((run.length + 1 : Nat) : Int) ≤ intMax := h
    refine hamount.bind ?_
    rw [if_neg (by omega)]
    exact hprint.bind ((Prog.returns_perform rfl ((hG.count _).mpr h)).bind (does_ret _ _))
  · intro h _
    have hlen : intMax < written + ((run.length + 1 : Nat) : Int) := h
    refine hamount.bind ?_
    rw [if_pos (by omega)]
    exact does_ret _ s
  · intro _ hc
    exact absurd trivial hc

theorem iteration_literal {c : Byte} {run fmt : List Byte} (hl : Str m i (c :: run ++ fmt))
    (hc : c ≠ percent) (hrun : ∀ b ∈ run, b ≠ percent) (hend : RunEnds fmt)
    (hn : i + (run.length + 1) ≤ n) (hfuel : run.length < fuel) (s : Console) :
    Handles F G (iteration nested format fuel (i, written)) (.literal (c :: run)) (i + (run.length + 1))
      written s s := by
  have hmi : m i = c := hl.1
  have hi : Does F G (format i) s c s := hmi ▸ hread i (by omega) s
  refine (literal_handles hG hread h0 hle hl hrun hend hn hfuel s).of_reaches ?_
  refine .bind hi ?_
  rw [if_neg hl.2.1]
  refine .bind hi ?_
  rw [if_pos hc]
  refine .bind (does_ret _ s) (.bind hi ?_)
  rw [if_neg hc]
  exact .refl _ s

theorem iteration_escape {run fmt : List Byte} (hl : Str m i (percent :: percent :: run ++ fmt))
    (hrun : ∀ b ∈ run, b ≠ percent) (hend : RunEnds fmt) (hn : i + 1 + (run.length + 1) ≤ n)
    (hfuel : run.length < fuel) (s : Console) :
    Handles F G (iteration nested format fuel (i, written)) (.literal (percent :: run))
      (i + 1 + (run.length + 1)) written s s := by
  have hmi : m i = percent := hl.1
  have hi : Does F G (format i) s percent s := hmi ▸ hread i (by omega) s
  have hmj : m (i + 1) = percent := hl.2.2.1
  have hj : Does F G (format (i + 1)) s percent s := hmj ▸ hread (i + 1) (by omega) s
  refine (literal_handles hG hread h0 hle hl.2.2 hrun hend hn hfuel s).of_reaches ?_
  refine .bind hi ?_
  rw [if_neg (by decide)]
  refine .bind hi ?_
  rw [if_neg (fun h => h rfl)]
  refine .bind hj (.bind (does_ret _ s) ?_)
  exact .bind hi (.refl _ s)

omit hG h0 hle in
/-- A `%` that is followed by something else. -/
theorem reaches_formatDirective (hi : m i = percent) (hj : m (i + 1) ≠ percent) (hn : i + 1 ≤ n)
    (s : Console) :
    Prog.Reaches (exec F) G (iteration nested format fuel (i, written)) s
      (formatDirective nested format fuel i written) s := by
  have hread0 : Does F G (format i) s percent s := hi ▸ hread i (by omega) s
  refine .bind hread0 ?_
  rw [if_neg (by decide)]
  refine .bind hread0 ?_
  rw [if_neg (fun h => h rfl)]
  refine .bind (hread (i + 1) hn s) (.bind (does_ret _ s) ?_)
  rw [decide_eq_false hj]
  exact .refl _ s

section Directives

variable (hnested : ∀ text : List Byte, text ≠ [] → text.length < 16 →
    (∀ b ∈ text, b ≠ 0#8 ∧ b ≠ percent) →
    ∀ s, Does F G (nested text) s () (s.emit text))
  {d : Byte} {a : Arg} {args : List Arg} {p : Piece} {s : Console}

include hnested

theorem formatDirective_handles (hmj : m (i + 1) = d) (hn : i + 1 ≤ n) (hp : directive d a = some p)
    (hs : s.args = a :: args) (hfuel : ∀ l, a = .str l → l.length < fuel) :
    Handles F G (formatDirective nested format fuel i written) p (i + 2) written s
    { s with args := args } := by
  have hj : Does F G (format (i + 1)) s d s := hmj ▸ hread (i + 1) hn s
  cases a with
  | int w =>
    simp only [directive] at hp
    split at hp
    case isTrue hd =>
      obtain rfl : .char (w.setWidth 8) = p := by simpa using hp
      refine ((formatChar_prints hG hs).handles hG (fun _ => i + 2) h0 hle).of_reaches (.bind hj ?_)
      rw [if_pos hd]
      exact .refl _ s
    split at hp
    case isTrue hd =>
      obtain rfl : .int w = p := by simpa using hp
      refine ((formatInt_prints hG hnested hs).handles hG (fun _ => i + 2) h0 hle).of_reaches
        (.bind hj ?_)
      subst hd
      exact .refl _ s
    split at hp
    case isTrue hd =>
      obtain rfl : .unsigned w = p := by simpa using hp
      refine ((formatUnsigned_prints hG hs).handles hG (fun _ => i + 2) h0 hle).of_reaches (.bind hj ?_)
      subst hd
      exact .refl _ s
    split at hp
    case isTrue hd =>
      obtain rfl : .hex w = p := by simpa using hp
      refine ((formatHex_prints hG hnested hs).handles hG (fun _ => i + 2) h0 hle).of_reaches
        (.bind hj ?_)
      subst hd
      exact .refl _ s
    cases hp
  | str l =>
    simp only [directive] at hp
    split at hp
    case isTrue hd =>
      obtain rfl : .str (cstring l) = p := by simpa using hp
      refine ((formatString_prints hG (hfuel l rfl) hs).handles hG (fun _ => i + 2) h0 hle).of_reaches
        (.bind hj ?_)
      subst hd
      exact .refl _ s
    cases hp

theorem iteration_directive {fmt : List Byte} (hl : Str m i (percent :: d :: fmt))
    (hn : i + 2 + fmt.length ≤ n) (hp : directive d a = some p) (hs : s.args = a :: args)
    (hfuel : ∀ l, a = .str l → l.length < fuel) :
    Handles F G (iteration nested format fuel (i, written)) p (i + 2) written s
    { s with args := args } := by
  have hmj : m (i + 1) = d := hl.2.2.1
  have hd : d ≠ percent := by
    intro h
    subst h
    cases a <;> simp [directive, percent] at hp
  refine (formatDirective_handles hG hread h0 hle hnested hmj (by omega) hp hs hfuel).of_reaches ?_
  exact reaches_formatDirective hread hl.1 (hmj ▸ hd) (by omega) s

omit hnested in
theorem iteration_rest {fmt : List Byte} (hl : Str m i (percent :: fmt)) (hunknown : Unknown fmt)
    (hn : i + (fmt.length + 1) ≤ n) (hfuel : fmt.length + 1 < fuel) (s : Console) :
    Handles F G (iteration nested format fuel (i, written)) (.rest (percent :: fmt)) (i +
      (fmt.length + 1)) written
      s s := by
  have hnext : m (i + 1) ≠ percent ∧ ¬ IsDirective (m (i + 1)) := by
    have h := hl.2.2
    cases fmt with
    | nil =>
      rw [show m (i + 1) = 0#8 from h]
      decide
    | cons d fmt => exact h.1 ▸ hunknown
  have hj : Does F G (format (i + 1)) s (m (i + 1)) s := hread (i + 1) (by omega) s
  have hprints : Prints F G (formatRest format fuel i (remaining written))
      (.rest (percent :: fmt)) _ s s :=
    formatRest_prints hG hread hl (by simpa using hn) (by simpa using hfuel) s
  refine ((hprints.handles hG (fun r => i + r.getD 0) h0 hle).of_reaches ?_).of_reaches
    (reaches_formatDirective hread hl.1 hnext.1 (by omega) s)
  obtain ⟨hc, hstr, hint, huns, hhex⟩ : _ ∧ _ ∧ _ ∧ _ ∧
      _ := by simpa only [IsDirective, not_or] using hnext.2
  refine .bind hj ?_
  rw [if_neg hc, if_neg hstr, if_neg hint, if_neg huns, if_neg hhex]
  exact .refl _ s

end Directives

/-! A whole run. -/

/-- What is left to print and to return: items are printed as long as the count stays within
`INT_MAX`. -/
def bounded (written : Int) : List Piece → List Byte × Int
  | [] => ([], written)
  | p :: ps =>
    if written + p.bytes.length ≤ intMax then
      let r := bounded (written + p.bytes.length) ps
      (p.bytes ++ r.1, r.2)
    else ([], -1)

/-- The first item that would take the count beyond `INT_MAX`, if there is one, is found out. -/
def Refuses (written : Int) : List Piece → Prop
  | [] => True
  | p :: ps =>
    if written + p.bytes.length ≤ intMax then Refuses (written + p.bytes.length) ps
    else p.Checked (remaining written)

structure Outcome (F : Nat → Byte) (G : Op → Prop) (code : Code Int) (ps : List Piece) (written : Int)
    (s : Console) : Prop where
  returns : Refuses written ps →
    ∃ t, Does F G code s (bounded written ps).2 t ∧ t.output = s.output ++ (bounded written ps).1
  exceeds : ¬ Refuses written ps → ¬ Prog.Performs (exec F) G code s

omit hG hread h0 hle in
theorem Handles.outcome {body : Nat × Int → Code ((Nat × Int) ⊕ Int)} {k i' : Nat} {p : Piece}
    {ps : List Piece} {s t : Console} (h : Handles F G (body (i, written)) p i' written s t)
    (hst : t.output = s.output) (ih : written + p.bytes.length ≤ intMax →
      Outcome F G (Prog.loop Code.outOfFuel body k (i', written + p.bytes.length)) ps
      (written + p.bytes.length)
        (t.emit p.bytes)) :
    Outcome F G (Prog.loop Code.outOfFuel body (k + 1) (i, written)) (p :: ps) written s := by
  by_cases hfits : written + p.bytes.length ≤ intMax
  · have hrefuses : Refuses written (p :: ps) ↔ Refuses (written + p.bytes.length) ps := by
      rw [Refuses, if_pos hfits]
    have hbounded : bounded written (p :: ps) =
        (p.bytes ++ (bounded (written + p.bytes.length) ps).1,
          (bounded (written + p.bytes.length) ps).2) := by
      rw [bounded, if_pos hfits]
    constructor
    · intro hr
      obtain ⟨u, hu, hout⟩ := (ih hfits).returns (hrefuses.mp hr)
      refine ⟨u, ?_, ?_⟩
      · rw [hbounded]
        exact (h.fits hfits).loop_next hu
      · rw [hout, Console.emit_output, hst, hbounded, List.append_assoc]
    · intro hr hperf
      have hrest := ((Prog.performs_bind_iff _ _).mp hperf).2 _ _ (h.fits hfits).1
      exact (ih hfits).exceeds (mt hrefuses.mpr hr) hrest
  · have hlt : intMax < written + p.bytes.length := Int.not_le.mp hfits
    have hrefuses : Refuses written (p :: ps) ↔ p.Checked (remaining written) := by
      rw [Refuses, if_neg hfits]
    constructor
    · intro hr
      rw [bounded, if_neg hfits]
      exact ⟨t, (h.refuses hlt (hrefuses.mp hr)).loop_done, by rw [List.append_nil, hst]⟩
    · intro hr hperf
      exact h.exceeds hlt (mt hrefuses.mpr hr) ((Prog.performs_bind_iff _ _).mp hperf).1

omit hG h0 hle in
theorem iteration_ends (hi : m i = 0#8) (hn : i ≤ n) (s : Console) :
    Does F G (iteration nested format fuel (i, written)) s (.inr written) s := by
  refine Prog.Returns.bind (hread i hn s) ?_
  rw [hi, if_pos rfl]
  exact does_ret _ s

omit hG h0 hle in
theorem outcome_nil (hi : m i = 0#8) (hn : i ≤ n) (k : Nat) (s : Console) :
    Outcome F G (Prog.loop Code.outOfFuel (iteration nested format fuel) (k + 1) (i, written))
    [] written s :=
  ⟨fun _ => ⟨s, (iteration_ends hread hi hn s).loop_done, (List.append_nil _).symm⟩,
    fun hr => absurd trivial hr⟩

theorem loop_outcome
    (hnested : ∀ text : List Byte, text ≠ [] → text.length < 16 → (∀ b ∈ text, b ≠ 0#8 ∧ b ≠ percent) →
      ∀ s, Does F G (nested text) s () (s.emit text))
    {fmt : List Byte} {args : List Arg} {ps : List Piece} (h : Formats fmt args ps) {k : Nat}
      {s : Console}
    (hs : s.args = args) (hl : Str m i fmt) (hn : i + fmt.length ≤ n)
    (hstr : ∀ l, Arg.str l ∈ args → l.length < fuel) (hfuel : n < fuel) (hk : fmt.length < k) :
    Outcome F G (Prog.loop Code.outOfFuel (iteration nested format fuel) k (i, written)) ps written
      s := by
  induction h generalizing i k s written with
  | nil =>
    obtain ⟨k, rfl⟩ : ∃ j, k = j + 1 := ⟨k - 1, by simp at hk; omega⟩
    exact outcome_nil hread hl hn k s
  | @literal c run fmt args ps hc hrun hend _ ih =>
    rw [List.length_append, List.length_cons] at hn hk
    obtain ⟨k, rfl⟩ : ∃ j, k = j + 1 := ⟨k - 1, by omega⟩
    have hiter : Handles F G (iteration nested format fuel (i, written))
        (.literal (c :: run)) _ written s s :=
      iteration_literal hG hread h0 hle hl hc hrun hend (by omega) (by omega) s
    refine hiter.outcome rfl fun hfits => ?_
    exact ih (by omega) hfits hs hl.append (by omega) hstr (by omega)
  | @escape run fmt args ps hrun hend _ ih =>
    rw [List.length_append, List.length_cons, List.length_cons] at hn hk
    obtain ⟨k, rfl⟩ : ∃ j, k = j + 1 := ⟨k - 1, by omega⟩
    have hiter : Handles F G (iteration nested format fuel (i, written))
        (.literal (percent :: run)) _ written s s :=
      iteration_escape hG hread h0 hle hl hrun hend (by omega) (by omega) s
    refine hiter.outcome rfl fun hfits => ?_
    have htail : Str m (i + 1 + (run.length + 1)) fmt := Str.append (l := percent :: run) hl.2.2
    exact ih (by omega) hfits hs htail (by omega) hstr (by omega)
  | @directive d a fmt args p ps hp _ ih =>
    rw [List.length_cons, List.length_cons] at hn hk
    obtain ⟨k, rfl⟩ : ∃ j, k = j + 1 := ⟨k - 1, by omega⟩
    have hiter : Handles F G (iteration nested format fuel (i, written)) p (i + 2) written s
        { s with args := args } :=
      iteration_directive hG hread h0 hle hnested hl (by omega) hp hs fun l ha =>
        hstr l (ha ▸ List.mem_cons_self)
    refine hiter.outcome rfl fun hfits => ?_
    exact ih (by omega) hfits rfl hl.2.2.2.2 (by omega) (fun l hmem =>
      hstr l (List.mem_cons_of_mem _ hmem)) (by omega)
  | @rest fmt args hunknown =>
    rw [List.length_cons] at hn hk
    obtain ⟨k, rfl⟩ : ∃ j, k = j + 2 := ⟨k - 2, by omega⟩
    have hiter : Handles F G (iteration nested format fuel (i, written))
        (.rest (percent :: fmt)) _ written s s :=
      iteration_rest hG hread h0 hle hl hunknown hn (by omega) s
    refine hiter.outcome rfl fun _ => ?_
    have hend : m (i + (fmt.length + 1)) = 0#8 := by
      rw [← List.append_nil (percent :: fmt)] at hl
      exact hl.append
    exact outcome_nil hread hend hn k _

end Iteration

theorem exists_strings_lt (args : List Arg) : ∃ n, ∀ l, Arg.str l ∈ args → l.length < n := by
  induction args with
  | nil => exact ⟨0, by simp⟩
  | cons a args ih =>
    obtain ⟨n, hn⟩ := ih
    cases a with
    | int w =>
      refine ⟨n, fun l hmem => hn l ?_⟩
      simpa using hmem
    | str l' =>
      refine ⟨n + l'.length + 1, fun l hmem => ?_⟩
      rcases List.mem_cons.mp hmem with h | h
      · obtain rfl : l = l' := by simpa using h
        omega
      · have := hn l h
        omega

section Call

variable {F : Nat → Byte} {G : Op → Prop} (hG : Watches G)

include hG

theorem nested_does {fuel : Nat} (hfuel : 16 ≤ fuel) (text : List Byte) (hne : text ≠ [])
    (hlen : text.length < 16) (htext : ∀ b ∈ text, b ≠ 0#8 ∧ b ≠ percent) (s : Console) :
    Does F G (do
      let _ ← printfWith (fun _ => Code.outOfFuel) (reader text) fuel
      return ()) s () (s.emit text) := by
  obtain ⟨c, run, rfl⟩ : ∃ c run, text = c :: run := List.exists_cons_of_ne_nil hne
  rw [List.length_cons] at hlen
  obtain ⟨k, rfl⟩ : ∃ k, fuel = k + 2 := ⟨fuel - 2, by omega⟩
  have hread : ∀ k ≤ run.length + 1, ∀ s, Does F G (reader (c :: run) k) s ((c :: run).getD k 0#8) s :=
    fun k _ s => does_ret _ s
  have hstr : Str (fun i => (c :: run).getD i 0#8) 0 (c :: run ++ []) := by
    have htext0 : cstring (c :: run) = c :: run :=
      List.takeWhile_eq_self_iff.mpr fun b hb => decide_eq_true (htext b hb).1
    rw [List.append_nil, ← htext0]
    exact htext0.symm ▸ str_reader (c :: run)
  have hiter : Handles F G (iteration (fun _ => Code.outOfFuel) (reader (c :: run)) (k + 2) (0, 0))
      (.literal (c :: run)) (0 + (run.length + 1)) 0 s s :=
    iteration_literal hG hread (Int.le_refl 0) (by decide) hstr (htext c List.mem_cons_self).2
      (fun b hb => (htext b (List.mem_cons_of_mem _ hb)).2) trivial (by omega) (by omega) s
  have hfits : (0 : Int) + (Piece.literal (c :: run)).bytes.length ≤ intMax := by
    simp only [Piece.bytes, List.length_cons, intMax]
    omega
  have hdone : Does F G (printfWith (fun _ => Code.outOfFuel) (reader (c :: run)) (k + 2)) s
      _ (s.emit (c :: run)) :=
    (hiter.fits hfits).loop_next (iteration_ends hread (hstr.append (l := c :: run))
      (by simp) _).loop_done
  exact hdone.bind (does_ret () _)

theorem printf_outcome {fmt : List Byte} {args : List Arg} {ps : List Piece}
    (hformat : ∀ k ≤ fmt.length, G (.format k)) (hl : Str F 0 fmt) (h : Formats fmt args ps) :
    ∃ fuel₀, ∀ fuel ≥ fuel₀, Outcome F G (printf fuel) ps 0 ⟨args, []⟩ := by
  obtain ⟨n, hn⟩ : ∃ n, ∀ l, Arg.str l ∈ args → l.length < n := exists_strings_lt args
  refine ⟨fmt.length + n + 16, fun fuel hfuel => ?_⟩
  have hread : ∀ k ≤ fmt.length, ∀ s, Does F G (Code.format k) s (F k) s :=
    fun k hk s => Prog.returns_perform rfl (hformat k hk)
  exact loop_outcome hG hread (Int.le_refl 0) (by decide) (nested_does hG (by omega)) h rfl hl (by omega)
    (fun l hmem => Nat.lt_of_lt_of_le (hn l hmem) (by omega)) (by omega) (by omega)

end Call

/-! The results. -/

/-- Reads of the format up to its terminator, and counts that an `int` holds. -/
def Op.Within (n : Nat) : Op → Prop
  | .format i => i ≤ n
  | .count k => k ≤ intMax
  | _ => True

/-- Counts that an `int` holds. -/
def Op.Counted : Op → Prop
  | .count k => k ≤ intMax
  | _ => True

theorem watches_within (n : Nat) : Watches (Op.Within n) :=
  ⟨trivial, trivial, fun _ => trivial, fun _ => Iff.rfl⟩

theorem watches_counted : Watches Op.Counted := ⟨trivial, trivial, fun _ => trivial, fun _ => Iff.rfl⟩

theorem bounded_of_le {written : Int} {ps : List Piece}
    (h : written + (ps.flatMap Piece.bytes).length ≤ intMax) :
    Refuses written ps ∧
      bounded written ps = (ps.flatMap Piece.bytes, written + (ps.flatMap Piece.bytes).length) := by
  induction ps generalizing written with
  | nil => exact ⟨trivial, by simp [bounded]⟩
  | cons p ps ih =>
    rw [List.flatMap_cons, List.length_append, Nat.cast_add] at h ⊢
    have hfits : written + p.bytes.length ≤ intMax := by omega
    obtain ⟨hr, hb⟩ : Refuses (written + p.bytes.length) ps ∧ _ := ih (by omega)
    rw [Refuses, bounded, if_pos hfits, if_pos hfits, hb]
    exact ⟨hr, by rw [Int.add_assoc]⟩

theorem printf_prints_reference {F : Nat → Byte} {fmt : List Byte} {args : List Arg} {out : List Byte}
    (hl : Str F 0 fmt) (href : reference fmt args = some out) (hle : (out.length : Int) ≤ intMax) :
    ∃ fuel₀, ∀ fuel ≥ fuel₀, ∃ t, Prog.run (exec F) (printf fuel) ⟨args, []⟩ =
      .ok ((out.length : Int), t) ∧
      t.output = out ∧ Prog.Performs (exec F) (Op.Within fmt.length) (printf fuel) ⟨args, []⟩ := by
  obtain ⟨ps, h, rfl⟩ := exists_formats href
  obtain ⟨fuel₀, hfuel⟩ := printf_outcome (watches_within fmt.length) (fun k hk => hk) hl h
  obtain ⟨hr, hb⟩ : Refuses 0 ps ∧ bounded 0 ps = _ := bounded_of_le (by omega)
  refine ⟨fuel₀, fun fuel hge => ?_⟩
  obtain ⟨t, ht, hout⟩ := (hfuel fuel hge).returns hr
  rw [hb] at ht hout
  rw [Int.zero_add] at ht
  exact ⟨t, ht.1, hout, ht.2⟩

/-- `printf("1%%%s%d%", "ab", -7)`. -/
theorem printf_prints_reference_example :
    let fmt : List Byte := [0x31#8, 0x25#8, 0x25#8, 0x25#8, 0x73#8, 0x25#8, 0x64#8, 0x25#8]
    let F : Nat → Byte := fun i => fmt.getD i 0#8
    let args : List Arg := [.str [0x61#8, 0x62#8], .int 0xFFFFFFF9#32]
    ∃ fuel₀, ∀ fuel ≥ fuel₀, ∃ t, Prog.run (exec F) (printf fuel) ⟨args, []⟩ = .ok (7, t) ∧
      t.output = [0x31#8, 0x25#8, 0x61#8, 0x62#8, 0x2D#8, 0x37#8, 0x25#8] ∧
        Prog.Performs (exec F) (Op.Within fmt.length) (printf fuel) ⟨args, []⟩ := by
  intro fmt F args
  have href : reference fmt args = some [0x31#8, 0x25#8, 0x61#8, 0x62#8, 0x2D#8, 0x37#8,
      0x25#8] := by decide
  exact printf_prints_reference (str_reader fmt) href (by decide)

/-- The count stays within `INT_MAX`: the items before some item are printed, and
that one would take the count beyond, so -1 is returned; or all items are printed,
and the number of bytes is returned. -/
structure CountKept (F : Nat → Byte) (args : List Arg) (ps : List Piece) (fuel : Nat) : Prop where
  count : Prog.Performs (exec F) Op.Counted (printf fuel) ⟨args, []⟩
  returns : ∃ qs rs r t, ps = qs ++ rs ∧ Prog.run (exec F) (printf fuel) ⟨args, []⟩ = .ok (r, t) ∧
    t.output = qs.flatMap Piece.bytes ∧
      match rs with
      | [] => r = t.output.length
      | p :: _ => intMax < t.output.length + p.bytes.length ∧ r = -1

theorem bounded_splits (written : Int) (ps : List Piece) : ∃ qs rs, ps = qs ++ rs ∧
    (bounded written ps).1 = qs.flatMap Piece.bytes ∧
      match rs with
      | [] => (bounded written ps).2 = written + (qs.flatMap Piece.bytes).length
      | p :: _ => intMax < written + (qs.flatMap Piece.bytes).length + p.bytes.length ∧
        (bounded written ps).2 = -1 := by
  induction ps generalizing written with
  | nil => exact ⟨[], [], rfl, rfl, by simp [bounded]⟩
  | cons p ps ih =>
    by_cases hfits : written + p.bytes.length ≤ intMax
    · obtain ⟨qs, rs, rfl, hout, hret⟩ := ih (written + p.bytes.length)
      rw [bounded, if_pos hfits]
      refine ⟨p :: qs, rs, rfl, by rw [List.flatMap_cons, ← hout], ?_⟩
      rw [List.flatMap_cons, List.length_append, Nat.cast_add, ← Int.add_assoc]
      exact hret
    · rw [bounded, if_neg hfits]
      exact ⟨[], p :: ps, rfl, rfl, by simpa using Int.not_le.mp hfits, rfl⟩

theorem Outcome.countKept_iff {F : Nat → Byte} {args : List Arg} {ps : List Piece} {fuel : Nat}
    (h : Outcome F Op.Counted (printf fuel) ps 0 ⟨args, []⟩) : CountKept F args ps fuel ↔
    Refuses 0 ps := by
  constructor
  · intro hkept
    by_contra hr
    exact h.exceeds hr hkept.count
  · intro hr
    obtain ⟨t, ht, hout⟩ := h.returns hr
    obtain ⟨qs, rs, hps, hbytes, hret⟩ := bounded_splits 0 ps
    rw [hbytes] at hout
    refine ⟨ht.2, qs, rs, _, t, hps, ht.1, hout, ?_⟩
    rw [hout]
    simpa using hret

theorem count_kept_iff {F : Nat → Byte} {fmt : List Byte} {args : List Arg} {ps : List Piece}
    (hl : Str F 0 fmt) (h : Formats fmt args ps) :
    ∃ fuel₀, ∀ fuel ≥ fuel₀, (CountKept F args ps fuel ↔ Refuses 0 ps) := by
  obtain ⟨fuel₀, hfuel⟩ := printf_outcome watches_counted (fun _ _ => trivial) hl h
  exact ⟨fuel₀, fun fuel hge => (hfuel fuel hge).countKept_iff⟩

/-- `"n=%s%c%d!"` -/
def fourItems : List Byte := [0x6E#8, 0x3D#8, 0x25#8, 0x73#8, 0x25#8, 0x63#8, 0x25#8, 0x64#8, 0x21#8]

theorem formats_fourItems {l : List Byte} (hl : cstring l = l) :
    Formats fourItems [.str l, .int 0x2C#32, .int 42#32]
      [.literal [0x6E#8, 0x3D#8], .str l, .char 0x2C#8, .int 42#32, .literal [0x21#8]] := by
  have hlast : Formats [0x21#8] [] [.literal [0x21#8]] := .literal [] (by decide) (by simp) trivial .nil
  have hstr : directive 0x73#8 (.str l) = some (.str l) := congrArg (fun l => some (Piece.str l)) hl
  exact .literal [0x3D#8] (by decide) (by decide) rfl (.directive hstr
    (.directive rfl (.directive rfl hlast)))

theorem refuses_fourItems {l : List Byte} (hlen : l.length = 0x7FFFFFFC) :
    Refuses 0 [.literal [0x6E#8, 0x3D#8], .str l, .char 0x2C#8, .int 42#32, .literal [0x21#8]] := by
  have hdigits : (Piece.int 42#32).bytes.length = 2 := by decide
  rw [Refuses, if_pos (by decide), Refuses,
    if_pos (by simp only [Piece.bytes, hlen, intMax]; decide), Refuses,
    if_pos (by simp only [Piece.bytes, hlen, intMax]; decide), Refuses,
    if_neg (by rw [hdigits]; simp only [Piece.bytes, hlen, intMax]; decide)]
  exact ⟨by decide, by decide⟩

/-- `printf("n=%s%c%d!", str, ',', 42)`, with a string that takes the count to `INT_MAX` at the
comma. -/
theorem count_kept_iff_fourItems : ∃ l : List Byte, l.length = 0x7FFFFFFC ∧ ∃ fuel₀, ∀ fuel ≥ fuel₀,
    CountKept (fun i => fourItems.getD i 0#8) [.str l, .int 0x2C#32, .int 42#32]
      [.literal [0x6E#8, 0x3D#8], .str l, .char 0x2C#8, .int 42#32, .literal [0x21#8]] fuel := by
  obtain ⟨l, hlen, hl⟩ : ∃ l : List Byte, l.length = 0x7FFFFFFC ∧ cstring l = l := by
    refine ⟨List.replicate 0x7FFFFFFC 0x61#8, List.length_replicate,
      List.takeWhile_eq_self_iff.mpr fun b hb => ?_⟩
    rw [List.eq_of_mem_replicate hb]
    rfl
  obtain ⟨fuel₀, hfuel⟩ := count_kept_iff (str_reader fourItems) (formats_fourItems hl)
  exact ⟨l, hlen, fuel₀, fun fuel hge => (hfuel fuel hge).mpr (refuses_fourItems hlen)⟩

theorem zero_exceeds {l : List Byte} (hlen : l.length = 0x7FFFFFFF) (hl : cstring l = l) :
    ∃ ps, Formats [0x25#8, 0x73#8, 0x25#8, 0x75#8] [.str l, .int 0#32] ps ∧ ∃ fuel₀, ∀ fuel ≥ fuel₀,
      ¬ CountKept (fun i => [0x25#8, 0x73#8, 0x25#8, 0x75#8].getD i 0#8) [.str l, .int 0#32] ps fuel := by
  have h : Formats [0x25#8, 0x73#8, 0x25#8, 0x75#8] [.str l, .int 0#32] [.str (cstring l),
      .unsigned 0#32] :=
    .directive rfl (.directive rfl .nil)
  have hr : ¬ Refuses 0 [.str (cstring l), .unsigned 0#32] := by
    rw [hl, Refuses, if_pos (by simp only [Piece.bytes, hlen, intMax]; decide), Refuses,
      if_neg (by simp [Piece.bytes, hlen, intMax, numeral])]
    exact fun h => h rfl
  obtain ⟨fuel₀, hfuel⟩ := printf_outcome watches_counted (fun _ _ => trivial)
    (str_reader [0x25#8, 0x73#8, 0x25#8, 0x75#8]) h
  exact ⟨_, h, fuel₀, fun fuel hge => mt (hfuel fuel hge).countKept_iff.mp hr⟩

/-- `printf("%s%u", str, 0)`, with a string of `INT_MAX` bytes. -/
theorem zero_exceeds_int_max : ∃ ps,
    Formats [0x25#8, 0x73#8, 0x25#8, 0x75#8] [.str (List.replicate 0x7FFFFFFF 0x61#8), .int 0#32] ps ∧
      ∃ fuel₀, ∀ fuel ≥ fuel₀, ¬ CountKept (fun i => [0x25#8, 0x73#8, 0x25#8, 0x75#8].getD i 0#8)
        [.str (List.replicate 0x7FFFFFFF 0x61#8), .int 0#32] ps fuel := by
  refine zero_exceeds List.length_replicate (List.takeWhile_eq_self_iff.mpr fun b hb => ?_)
  rw [List.eq_of_mem_replicate hb]
  rfl

end PekOS.Stdio
