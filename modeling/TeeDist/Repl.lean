import TeeDist.Console

/-!
# One command for each line

The loop of `main` in `cn_main.c` reads the standard input with `fgets` into a buffer of 512 bytes
and passes what it gets to `td_cluster_execute`, which takes it for a line.  A line that is longer
is passed on in pieces of 511 bytes.  A piece from the middle of a key or of a value is executed if
it looks like a command.  `one_command_iff` says that nothing else can go wrong, and that it does
go wrong unless the loop has been left before.

Where a piece begins is a fact about the text alone: its distance from the beginning of its line
is a multiple of 511 (`IsCut`).  The loop passes just these pieces on, up to the first `quit`
(`repl_entries`, `mem_entries`).
-/

namespace TeeDist

open CText Calls

/-! ## The loop -/

/-- The loop of `main`, over the lines that are left to read. -/
def repl (sessionCount : Nat) : List (List UInt8) → Prog Console Unit
  | [] => say "td> "
  | line :: lines => do
      say "td> "
      if ← execute sessionCount (cString line) then repl sessionCount lines else return ()

/-- A line that `main` passes to `td_cluster_execute`, and where it begins in the input. -/
structure Entry where
  start : Nat
  line : List UInt8
deriving DecidableEq

/-- The command that a piece of text is executed as. -/
def commandOf (line : List UInt8) : Option Command :=
  match parseCommand (cString line) with
  | .command c => some c
  | _ => none

/-- The lines that `main` passes on, from those that are read. -/
def entries : Nat → List (List UInt8) → List Entry
  | _, [] => []
  | start, line :: lines =>
      ⟨start, line⟩ ::
        if commandOf line = some .quit then [] else entries (start + line.length) lines

/-- The commands that are executed. -/
def executed (input : List UInt8) : List Entry :=
  (entries 0 (fgetsLines 512 input)).filter fun e => (commandOf e.line).isSome

/-- Pass lines to `td_cluster_execute`, one after the other. -/
def passAll (sessionCount : Nat) : List Entry → Prog Console Unit
  | [] => return ()
  | e :: es => do
      say "td> "
      let _ ← execute sessionCount (cString e.line)
      passAll sessionCount es

section Loop

variable (sessionCount : Nat)

/-- Only `quit` ends the loop. -/
theorem execute_yields (line : List UInt8) :
    (execute sessionCount (cString line)).Yields fun b => b = (commandOf line != some .quit) := by
  unfold execute commandOf
  cases parseCommand (cString line) with
  | blank => rfl
  | refused message => exact fun _ => rfl
  | command c =>
      cases c with
      | quit => rfl
      | help => exact fun _ => rfl
      | status => exact fun _ => rfl
      | evict =>
          apply Prog.Yields.bind
          exact fun _ => rfl
      | read key timing =>
          intro result
          apply Prog.Yields.bind
          exact fun _ => rfl
      | mutate m timing =>
          intro startNs result
          apply Prog.Yields.bind
          exact fun _ => rfl

/-- The loop passes the entries on, and prints its prompt. -/
theorem repl_entries (lines : List (List UInt8)) (start : Nat) :
    ∃ rest : Prog Console Unit, rest.Within (· = ConsoleCall.print "td> ") ∧
      repl sessionCount lines = (passAll sessionCount (entries start lines)).bind fun _ => rest := by
  induction lines generalizing start with
  | nil => exact ⟨say "td> ", ⟨rfl, fun _ => trivial⟩, rfl⟩
  | cons line lines ih =>
      have hyields := execute_yields sessionCount line
      rw [repl, entries]
      by_cases hquit : commandOf line = some .quit
      · rw [if_pos hquit]
        refine ⟨.ret (), trivial, ?_⟩
        rw [hquit] at hyields
        simp only [passAll, Prog.bind_eq, Prog.pure_eq, Prog.bind_assoc, Prog.ret_bind]
        congr 1
        funext _
        exact hyields.bind_congr fun b hb => by subst hb; rfl
      · rw [if_neg hquit]
        obtain ⟨rest, hrest, hrepl⟩ := ih (start + line.length)
        refine ⟨rest, hrest, ?_⟩
        have hgoes : (commandOf line != some .quit) = true := by simpa using hquit
        rw [hgoes] at hyields
        simp only [passAll, Prog.bind_eq, Prog.pure_eq, Prog.bind_assoc]
        congr 1
        funext _
        rw [← hrepl]
        exact hyields.bind_congr fun b hb => by subst hb; rfl

end Loop

/-! ## Pieces of lines -/

/-- Nothing but blanks stands before a position in its line. -/
def BeginsLine (input : List UInt8) (pos : Nat) : Prop := ∀ b ∈ lineBefore input pos, b ∈ blanks

/-- A piece of a line that is a command, and does not begin the line. -/
def Stray (input : List UInt8) (pos : Nat) : Prop :=
  IsCut 511 input pos ∧ (commandOf (pieceAt 511 input pos)).isSome ∧ ¬ BeginsLine input pos

/-- At most one command of each line is executed, and it begins the line. -/
structure OneCommandPerLine (input : List UInt8) : Prop where
  /-- A command is taken from the input where it begins. -/
  taken : ∀ e ∈ executed input, e.line <+: input.drop e.start
  /-- It begins its line, so it is no part of a key or of a value. -/
  begins : ∀ e ∈ executed input, BeginsLine input e.start
  /-- There is a newline between any two. -/
  single : (executed input).Pairwise fun e e' => 10 ∈ (input.take e'.start).drop e.start

section Entries

variable {input : List UInt8} {pos : Nat}

theorem entries_cut (hcut : IsCut 511 input pos) :
    entries pos (fgetsLines 512 (input.drop pos)) = ⟨pos, pieceAt 511 input pos⟩ ::
      if commandOf (pieceAt 511 input pos) = some .quit then []
      else entries (pos + (pieceAt 511 input pos).length)
        (fgetsLines 512 (input.drop (pos + (pieceAt 511 input pos).length))) := by
  rw [fgetsLines_drop (by decide) hcut.1]
  rfl

theorem entries_end : entries input.length (fgetsLines 512 (input.drop input.length)) = [] := by
  rw [List.drop_length]
  rfl

/-- The lines that are passed on are the pieces of the input, up to the first `quit`. -/
theorem mem_entries (hpos : IsCut 511 input pos ∨ input.length = pos) (e : Entry) :
    e ∈ entries pos (fgetsLines 512 (input.drop pos)) ↔
      e.line = pieceAt 511 input e.start ∧ pos ≤ e.start ∧ IsCut 511 input e.start ∧
        ∀ q, pos ≤ q → q < e.start → IsCut 511 input q →
          commandOf (pieceAt 511 input q) ≠ some .quit := by
  induction hn : input.length - pos using Nat.strongRecOn generalizing pos with
  | ind n ih =>
      subst hn
      obtain hcut | rfl := hpos
      · obtain ⟨hlen, hnext⟩ := hcut.next (by decide)
        have hpos := hcut.1
        have ih' := ih _ (by omega) hnext rfl
        rw [entries_cut hcut, List.mem_cons]
        constructor
        · rintro (rfl | he)
          · exact ⟨rfl, Nat.le_refl _, hcut, fun q hle hlt => absurd hlt (Nat.not_lt.mpr hle)⟩
          · split at he
            · cases he
            next hgoes =>
              obtain ⟨hline, hle, hecut, hbefore⟩ := ih'.mp he
              refine ⟨hline, by omega, hecut, fun q hq hlt hqcut => ?_⟩
              obtain rfl | hq := Nat.eq_or_lt_of_le hq
              · exact hgoes
              · obtain hin | hout := Nat.lt_or_ge q (pos + (pieceAt 511 input pos).length)
                · exact absurd hqcut (hcut.not_inside hq hin)
                · exact hbefore q hout hlt hqcut
        · rintro ⟨hline, hle, hecut, hbefore⟩
          obtain heq | hlt := Nat.eq_or_lt_of_le hle
          · left
            cases e with
            | mk start line =>
                obtain rfl : pos = start := heq
                rw [show line = pieceAt 511 input pos from hline]
          · right
            rw [if_neg (hbefore pos (Nat.le_refl _) hlt hcut)]
            refine ih'.mpr ⟨hline, ?_, hecut, fun q hq => hbefore q (by omega)⟩
            by_contra hin
            exact hcut.not_inside hlt (Nat.not_le.mp hin) hecut
      · rw [entries_end]
        constructor
        · rintro ⟨⟩
        · rintro ⟨_, hle, hecut, _⟩
          exact absurd hecut.1 (Nat.not_lt.mpr hle)

theorem entries_sorted (hpos : IsCut 511 input pos ∨ input.length = pos) :
    (entries pos (fgetsLines 512 (input.drop pos))).Pairwise fun e e' =>
      e.start + e.line.length ≤ e'.start := by
  induction hn : input.length - pos using Nat.strongRecOn generalizing pos with
  | ind n ih =>
      subst hn
      obtain hcut | rfl := hpos
      · obtain ⟨hlen, hnext⟩ := hcut.next (by decide)
        have hpos := hcut.1
        rw [entries_cut hcut, List.pairwise_cons]
        split
        · exact ⟨by simp, .nil⟩
        · exact ⟨fun e he => ((mem_entries hnext e).mp he).2.1, ih _ (by omega) hnext rfl⟩
      · rw [entries_end]
        exact .nil

end Entries

/-! ## Commands -/

section Executed

variable {input : List UInt8}

theorem isCut_start (input : List UInt8) : IsCut 511 input 0 ∨ input.length = 0 := by
  cases input with
  | nil => exact .inr rfl
  | cons b input => exact .inl (isCut_zero (by simp))

/-- The commands that are executed are those before the first `quit`, and that one. -/
theorem mem_executed (e : Entry) :
    e ∈ executed input ↔ e.line = pieceAt 511 input e.start ∧ IsCut 511 input e.start ∧
      (commandOf (pieceAt 511 input e.start)).isSome ∧
      ∀ q < e.start, IsCut 511 input q → commandOf (pieceAt 511 input q) ≠ some .quit := by
  have hmem := mem_entries (isCut_start input) e
  rw [List.drop_zero] at hmem
  rw [executed, List.mem_filter, hmem]
  constructor
  · rintro ⟨⟨hline, -, hcut, hbefore⟩, hcommand⟩
    exact ⟨hline, hcut, hline ▸ hcommand, fun q => hbefore q (Nat.zero_le q)⟩
  · rintro ⟨hline, hcut, hcommand, hbefore⟩
    exact ⟨⟨hline, Nat.zero_le _, hcut, fun q _ => hbefore q⟩, hline ▸ hcommand⟩

/-- Blanks are no command. -/
theorem commandOf_blanks {line : List UInt8} (h : ∀ b ∈ line, b ∈ blanks) : commandOf line = none := by
  have hnone : splitCommand (truncated 512 (cString line)) = none := by
    unfold splitCommand
    rw [strtok_eq_none]
    intro b hb
    exact h b ((List.takeWhile_sublist _).subset (List.mem_of_mem_take hb))
  unfold commandOf parseCommand
  rw [hnone]

/-- What is executed is taken from the input. -/
theorem executed_taken : ∀ e ∈ executed input, e.line <+: input.drop e.start := by
  intro e he
  rw [((mem_executed e).mp he).1]
  exact List.take_prefix _ _

/-- Commands that begin their lines are commands of different lines. -/
theorem single_of_begins (h : ∀ e ∈ executed input, BeginsLine input e.start) :
    (executed input).Pairwise fun e e' => 10 ∈ (input.take e'.start).drop e.start := by
  have hsorted := entries_sorted (isCut_start input)
  rw [List.drop_zero] at hsorted
  refine (hsorted.filter _).imp_of_mem ?_
  intro e e' he he' hle
  by_contra hnone
  rw [List.drop_take] at hnone
  -- without a newline the first command is part of what stands before the second one
  have hbefore := h e' he'
  rw [BeginsLine, ← Nat.add_sub_cancel' (show e.start ≤ e'.start by omega), lineBefore_add hnone] at hbefore
  have hpiece : e.line <+: (input.drop e.start).take (e'.start - e.start) :=
    List.prefix_take_iff.mpr ⟨executed_taken e he, by omega⟩
  have hcommand := ((mem_executed e).mp he).2.2.1
  rw [← ((mem_executed e).mp he).1,
    commandOf_blanks fun b hb => hbefore b (List.mem_append_right _ (hpiece.subset hb))] at hcommand
  cases hcommand

end Executed

/-- At most one command of each line is executed, taken from its beginning, if and only if every
piece of a line that is a command and does not begin the line comes after a line that quits. -/
theorem one_command_iff (input : List UInt8) :
    OneCommandPerLine input ↔ ∀ pos, Stray input pos →
      ∃ pos' < pos, IsCut 511 input pos' ∧ BeginsLine input pos' ∧
        commandOf (pieceAt 511 input pos') = some .quit := by
  constructor
  · rintro ⟨-, hbegins, -⟩ pos ⟨hcut, hcommand, hstray⟩
    have hbeginsAt : ∀ q, IsCut 511 input q → (commandOf (pieceAt 511 input q)).isSome →
        (∀ q' < q, IsCut 511 input q' → commandOf (pieceAt 511 input q') ≠ some .quit) →
        BeginsLine input q :=
      fun q hqcut hqcommand hbefore =>
        hbegins ⟨q, pieceAt 511 input q⟩ ((mem_executed _).mpr ⟨rfl, hqcut, hqcommand, hbefore⟩)
    by_cases hquit : ∃ q < pos, IsCut 511 input q ∧ commandOf (pieceAt 511 input q) = some .quit
    · classical
      obtain ⟨hlt, hqcut, hquits⟩ := Nat.find_spec hquit
      refine ⟨Nat.find hquit, hlt, hqcut, ?_, hquits⟩
      refine hbeginsAt _ hqcut (by rw [hquits]; rfl) fun q hq hcutq hquitq => ?_
      exact Nat.find_min hquit hq ⟨Nat.lt_trans hq hlt, hcutq, hquitq⟩
    · refine absurd (hbeginsAt pos hcut hcommand fun q hq hcutq hquitq => ?_) hstray
      exact hquit ⟨q, hq, hcutq, hquitq⟩
  · intro hall
    have hbegins : ∀ e ∈ executed input, BeginsLine input e.start := by
      intro e he
      obtain ⟨-, hcut, hcommand, hbefore⟩ := (mem_executed e).mp he
      by_contra hstray
      obtain ⟨q, hlt, hqcut, -, hquit⟩ := hall e.start ⟨hcut, hcommand, hstray⟩
      exact hbefore q hlt hqcut hquit
    exact ⟨executed_taken, hbegins, single_of_begins hbegins⟩

/-- A value of 511 bytes and more, with a command to delete another key in it. -/
def longWrite : List UInt8 := ascii "write k " ++ (List.replicate 503 120 ++ ascii "delete a\n")

/-- The end of a value is executed. -/
theorem value_executed : ¬ ∀ input : List UInt8, 0 ∉ input → OneCommandPerLine input := by
  intro h
  have hdelete : (⟨511, ascii "delete a\n"⟩ : Entry) ∈ executed longWrite := by
    decide +kernel
  have hbegins := (h longWrite (by decide +kernel)).begins _ hdelete
  exact absurd (hbegins 119 (by decide +kernel)) (by decide)

end TeeDist
