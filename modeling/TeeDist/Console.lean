import TeeDist.Lib.CText
import TeeDist.Sequential

/-!
# The console of a compute node

`td_cluster_execute` of `cluster.c` and the loop of `cn_main.c` around it.  A line is taken apart
by `td_split_command`, a `-t` at its end is taken off by `td_consume_timing_flag`, and one of the
routines of the compute node is called.  What a command calls is a program over `Console`: the
routines, the clock, and what is printed.  Times and latency profiles are not part of the text.

`command_parsed` says that a line with a command, a key and a value calls the routine with just
this key and this value.
-/

namespace TeeDist

open CText Calls

/-! ## Lines -/

/-- The delimiters of a command and its key. -/
def blanks : List UInt8 := ascii " \t\r\n"

/-- The delimiters of the rest of a line. -/
def lineEnds : List UInt8 := ascii "\r\n"

/-- What `td_split_command` makes of a line. -/
structure SplitCommand where
  cmd : List UInt8
  arg1 : Option (List UInt8)
  arg2 : Option (List UInt8)

/-- `td_split_command`. -/
def splitCommand (line : List UInt8) : Option SplitCommand :=
  match strtok blanks line with
  | none => none
  | some (cmd, rest) =>
      match strtok blanks rest with
      | none => some ⟨cmd, none, none⟩
      | some (arg1, rest) => some ⟨cmd, some arg1, (strtok lineEnds rest).map fun arg2 => trim arg2.1⟩

/-- `td_consume_timing_flag`: whether there is a flag, and the text without it. -/
def consumeTimingFlag (text : List UInt8) : Bool × List UInt8 :=
  let trimmed := trim text
  if trimmed = [] then (false, trimmed)
  else if trimmed = ascii "-t" then (true, [])
  else
    -- the cursor goes back from the end, over a word and over the white space before it
    let word := (trimmed.reverse.takeWhile (!isSpace ·)).reverse
    let before := trimmed.reverse.dropWhile (!isSpace ·)
    if word ≠ ascii "-t" then (false, trimmed) else (true, (before.dropWhile isSpace).reverse)

/-! ## Commands -/

/-- What a line asks for.  `timing` selects the profiled variant of a routine. -/
inductive Command where
  | quit
  | help
  | status
  | evict
  | read (key : Key) (timing : Bool)
  | mutate (m : Mutation) (timing : Bool)
deriving DecidableEq

/-- What `td_cluster_execute` makes of a line. -/
inductive Parsed where
  | blank
  | refused (message : String)
  | command (c : Command)
deriving DecidableEq

/-- The part of `td_cluster_execute` before it calls anything. -/
def parseCommand (line : List UInt8) : Parsed :=
  match splitCommand (truncated 512 line) with
  | none => .blank
  | some ⟨cmd, arg1, arg2⟩ =>
      if cmd = ascii "quit" ∨ cmd = ascii "exit" then .command .quit
      else if cmd = ascii "help" then .command .help
      else if cmd = ascii "status" then .command .status
      else if cmd = ascii "evict" then .command .evict
      else
        match arg1 with
        | none => .refused "error: missing key"
        | some key =>
            let timing := (arg2.map fun text => (consumeTimingFlag text).1).getD false
            -- `arg2 == NULL` and an empty `arg2` are not told apart from here on
            let rest := trim ((arg2.map fun text => (consumeTimingFlag text).2).getD [])
            if cmd = ascii "read" then
              if rest ≠ [] then .refused "error: read accepts only read <key> or read <key> -t"
              else .command (.read key timing)
            else if cmd = ascii "write" ∨ cmd = ascii "update" then
              if rest = [] then .refused "error: missing value"
              else if cmd = ascii "update" then .command (.mutate (.update key rest) timing)
              else .command (.mutate (.write key rest) timing)
            else if cmd = ascii "delete" then
              if rest ≠ [] then .refused "error: delete accepts only delete <key> or delete <key> -t"
              else .command (.mutate (.delete key) timing)
            else .refused ("error: unknown command " ++ printKey cmd)

/-! ## What a command calls -/

/-- The calls of `td_cluster_execute`. -/
inductive ConsoleCall where
  /-- `td_cluster_read_kv`, or its profiled variant. -/
  | readKv (profiled : Bool) (key : Key)
  /-- `td_cluster_write_kv`, `td_cluster_update_kv` and `td_cluster_delete_kv`. -/
  | mutateKv (profiled : Bool) (m : Mutation)
  /-- `control` of a session, with `TD_WIRE_EVICT`. -/
  | control (session : Nat)
  /-- `td_now_ns`. -/
  | nowNs
  /-- `fprintf` of a line. -/
  | print (text : String)
  /-- `td_cluster_print_status`. -/
  | printStatus
  /-- A line that ends with the time of a profile. -/
  | printTimed (text : String)
  /-- `td_print_latency_profile`. -/
  | printProfile

/-- What the calls return.  An error is its text. -/
abbrev ConsoleCall.Reply : ConsoleCall → Type
  | .readKv _ _ => Except String (Option Value)
  | .mutateKv _ _ => Except String Nat
  | .control _ => Except String Unit
  | .nowNs => UInt64
  | _ => Unit

/-- The console of a compute node. -/
abbrev Console : Signature := ⟨ConsoleCall, ConsoleCall.Reply⟩

/-- A call that only reports something. -/
def ConsoleCall.Reports : ConsoleCall → Prop
  | .readKv _ _ | .mutateKv _ _ | .control _ => False
  | _ => True

/-- Print a line. -/
def say (text : String) : Prog Console Unit := .call (.print text) .ret

/-- The loop of `evict` over the sessions from `idx` on, `left` being left. -/
def evictLoop : Nat → Nat → Prog Console Unit
  | 0, _ => say "eviction requested"
  | left + 1, idx => .call (.control idx) fun
      | .error err => say ("error: " ++ err)
      | .ok _ => evictLoop left (idx + 1)

/-- The profile after a command, if it was asked for. -/
def sayProfile (timing : Bool) : Prog Console Unit :=
  if timing then .call .printProfile .ret else .ret ()

/-- What a read prints. -/
def sayRead (key : Key) (timing : Bool) : Except String (Option Value) → Prog Console Unit
  | .error err => say ("error: " ++ err)
  | .ok none => do
      say ("not_found " ++ printKey key)
      sayProfile timing
  | .ok (some value) => do
      say ("value " ++ printKey key ++ " " ++ printKey (cString value))
      sayProfile timing

/-- How a mutation that succeeded is reported. -/
def Mutation.verb : Mutation → String
  | .write _ _ | .update _ _ => "ok"
  | .delete _ => "deleted"

/-- What a mutation prints. -/
def sayMutated (m : Mutation) (timing : Bool) (startNs : UInt64) :
    Except String Nat → Prog Console Unit
  | .error err => say ("error: " ++ err)
  | .ok rule =>
      let line := m.verb ++ " " ++ printKey m.key ++ " rule=" ++ toString rule ++ " latency_us="
      if timing then .call (.printTimed line) fun _ => .call .printProfile .ret
      else .call .nowNs fun (now : UInt64) => say (line ++ toString ((now - startNs) / 1000).toNat)

/-- The part of `td_cluster_execute` that carries a command out.  It returns whether to go on. -/
def Command.perform (sessionCount : Nat) : Command → Prog Console Bool
  | .quit => return false
  | .help => do
      say ("commands: read <key> [-t], write <key> <value> [-t], update <key> <value> [-t], " ++
        "delete <key> [-t], status, evict, quit")
      return true
  | .status => .call .printStatus fun _ => .ret true
  | .evict => do
      evictLoop sessionCount 0
      return true
  | .read key timing => .call (.readKv timing key) fun result => do
      sayRead key timing result
      return true
  | .mutate m timing => .call .nowNs fun startNs => .call (.mutateKv timing m) fun result => do
      sayMutated m timing startNs result
      return true

/-- `td_cluster_execute`. -/
def execute (sessionCount : Nat) (line : List UInt8) : Prog Console Bool :=
  match parseCommand line with
  | .blank => return true
  | .refused message => do
      say message
      return true
  | .command c => c.perform sessionCount

/-! ## What a command asks for, and what it only reports -/

/-- The operation of a command. -/
def Command.op : Command → Option Op
  | .read key _ => some (.read key)
  | .mutate m _ => some (.mutate m)
  | _ => none

theorem reports_say (text : String) : (say text).Within ConsoleCall.Reports :=
  ⟨trivial, fun _ => trivial⟩

theorem reports_sayProfile (timing : Bool) : (sayProfile timing).Within ConsoleCall.Reports := by
  cases timing
  · trivial
  · exact ⟨trivial, fun _ => trivial⟩

theorem reports_sayRead (key : Key) (timing : Bool) (result : Except String (Option Value)) :
    (sayRead key timing result).Within ConsoleCall.Reports := by
  match result with
  | .error err => exact reports_say _
  | .ok none => exact (reports_say _).bind fun _ => reports_sayProfile timing
  | .ok (some value) => exact (reports_say _).bind fun _ => reports_sayProfile timing

theorem reports_sayMutated (m : Mutation) (timing : Bool) (startNs : UInt64)
    (result : Except String Nat) :
    (sayMutated m timing startNs result).Within ConsoleCall.Reports := by
  match result with
  | .error err => exact reports_say _
  | .ok rule =>
      cases timing
      · exact ⟨trivial, fun _ => reports_say _⟩
      · exact ⟨trivial, fun _ => ⟨trivial, fun _ => trivial⟩⟩

/-- A mutation calls its routine, and reports what comes of it. -/
theorem perform_mutate (sessionCount : Nat) (m : Mutation) (timing : Bool) :
    ∃ report : UInt64 → Except String Nat → Prog Console Bool,
      (∀ startNs result, (report startNs result).Within ConsoleCall.Reports) ∧
      (Command.mutate m timing).perform sessionCount =
        .call .nowNs fun startNs => .call (.mutateKv timing m) (report startNs) := by
  refine ⟨fun startNs result => (sayMutated m timing startNs result).bind fun _ => .ret true, ?_, rfl⟩
  intro startNs result
  apply Prog.Within.bind
  · exact fun _ => trivial
  · exact reports_sayMutated m timing startNs result

/-! ## Lines with a key and a value -/

/-- Spaces and tabs. -/
def IsGap (text : List UInt8) : Prop := ∀ b ∈ text, b = 32 ∨ b = 9

/-- The last word of a text is `-t`. -/
def EndsInFlag (text : List UInt8) : Prop :=
  ∃ before, text = before ++ ascii "-t" ∧ ∀ b ∈ before.getLast?, isSpace b

/-- A key that can be typed. -/
def IsKey (key : List UInt8) : Prop := key ≠ [] ∧ ∀ b ∈ key, b ∉ blanks

/-- A value that can be typed: one line that begins and ends with something else than white
space. -/
structure IsValue (value : List UInt8) : Prop where
  ne_nil : value ≠ []
  oneLine : ∀ b ∈ value, b ∉ lineEnds
  first : ∀ b ∈ value.head?, isSpace b = false
  last : ∀ b ∈ value.getLast?, isSpace b = false

/-- A line with a command, a key, a value, and perhaps the flag, with gaps between them. -/
def Spells (line cmd key value : List UInt8) (timing : Bool) : Prop :=
  ∃ gap₀ gap₁ gap₂ gap₃ gap₄ lineEnd,
    IsGap gap₀ ∧ IsGap gap₁ ∧ gap₁ ≠ [] ∧ IsGap gap₂ ∧ gap₂ ≠ [] ∧ IsGap gap₃ ∧ gap₃ ≠ [] ∧
      IsGap gap₄ ∧ (∀ b ∈ lineEnd, b ∈ lineEnds) ∧
      line = gap₀ ++ (cmd ++ (gap₁ ++ (key ++ (gap₂ ++ (value ++
        ((if timing then gap₃ ++ ascii "-t" else []) ++ (gap₄ ++ lineEnd)))))))

section Spells

variable {line cmd key value gap : List UInt8} {timing : Bool}

theorem IsGap.blanks (h : IsGap gap) : ∀ b ∈ gap, b ∈ blanks := by
  intro b hb
  obtain rfl | rfl := h b hb <;> decide

theorem IsGap.space (h : IsGap gap) : ∀ b ∈ gap, isSpace b := by
  intro b hb
  obtain rfl | rfl := h b hb <;> decide

theorem IsGap.oneLine (h : IsGap gap) : ∀ b ∈ gap, b ∉ lineEnds := by
  intro b hb
  obtain rfl | rfl := h b hb <;> decide

theorem IsGap.tail (h : IsGap gap) : IsGap gap.tail := fun b hb => h b (List.mem_of_mem_tail hb)

/-- A gap begins with a delimiter. -/
theorem IsGap.head (h : IsGap gap) (hne : gap ≠ []) (rest : List UInt8) :
    (∀ b ∈ (gap ++ rest).head?, b ∈ TeeDist.blanks) ∧ (gap ++ rest).tail = gap.tail ++ rest := by
  cases gap with
  | nil => exact absurd rfl hne
  | cons c gap => exact ⟨by simpa using h.blanks c List.mem_cons_self, rfl⟩

/-- A word that is written out. -/
theorem command_word {word : List UInt8} (h : word.all (fun b => decide (b ∉ blanks)) = true) :
    ∀ b ∈ word, b ∉ blanks := by
  simpa using h

theorem flag_oneLine : ∀ b ∈ ascii "-t", b ∉ lineEnds := by
  have hall : (ascii "-t").all (fun b => decide (b ∉ lineEnds)) = true := by decide
  simpa using hall

theorem flag_word : ∀ b ∈ ascii "-t", (!isSpace b) = true := by
  have hall : (ascii "-t").all (!isSpace ·) = true := by decide
  exact List.all_eq_true.mp hall

theorem flag_last : ∀ b ∈ (ascii "-t").getLast?, isSpace b = false := by
  intro b hb
  simpa using flag_word b (List.mem_of_getLast? hb)

/-- A value with a flag after it. -/
theorem trim_flag (hvalue : IsValue value) :
    trim (value ++ (gap ++ ascii "-t")) = value ++ (gap ++ ascii "-t") := by
  refine trim_of_ends ?_ ?_
  · rw [List.head?_append_of_ne_nil _ hvalue.ne_nil]
    exact hvalue.first
  · rw [← List.append_assoc, List.getLast?_append_of_ne_nil _ (by decide)]
    exact flag_last

/-- `td_split_command` finds the parts of a line. -/
theorem splitCommand_spelled (h : Spells line cmd key value timing) (hcmd : IsKey cmd)
    (hkey : IsKey key) (hvalue : IsValue value) :
    ∃ gap, IsGap gap ∧ gap ≠ [] ∧ splitCommand line =
      some ⟨cmd, some key, some (value ++ if timing then gap ++ ascii "-t" else [])⟩ := by
  obtain ⟨gap₀, gap₁, gap₂, gap₃, gap₄, lineEnd, h₀, h₁, hne₁, h₂, hne₂, h₃, hne₃, h₄, hend, rfl⟩ := h
  refine ⟨gap₃, h₃, hne₃, ?_⟩
  generalize hflag : (if timing then gap₃ ++ ascii "-t" else []) = flag
  have hflagLine : ∀ b ∈ flag, b ∉ lineEnds := by
    subst hflag
    split
    · exact List.forall_mem_append.mpr ⟨h₃.oneLine, flag_oneLine⟩
    · simp
  have hends : trim (value ++ flag) = value ++ flag := by
    subst hflag
    split
    · exact trim_flag hvalue
    · rw [List.append_nil]
      exact trim_of_ends hvalue.first hvalue.last
  obtain ⟨hhead₁, htail₁⟩ := h₁.head hne₁ (key ++ (gap₂ ++ (value ++ (flag ++ (gap₄ ++ lineEnd)))))
  obtain ⟨hhead₂, htail₂⟩ := h₂.head hne₂ (value ++ (flag ++ (gap₄ ++ lineEnd)))
  have hrest : gap₂.tail ++ (value ++ (flag ++ (gap₄ ++ lineEnd))) =
      [] ++ ((gap₂.tail ++ (value ++ (flag ++ gap₄))) ++ lineEnd) := by simp
  have htoken : ∀ b ∈ gap₂.tail ++ (value ++ (flag ++ gap₄)), b ∉ lineEnds := by
    simp only [List.forall_mem_append]
    exact ⟨h₂.tail.oneLine, hvalue.oneLine, hflagLine, h₄.oneLine⟩
  have htrim : trim (gap₂.tail ++ (value ++ (flag ++ gap₄))) = value ++ flag := by
    rw [append_trim h₂.tail.space, ← List.append_assoc, trim_append h₄.space, hends]
  unfold splitCommand
  rw [strtok_append h₀.blanks hcmd.2 hcmd.1 hhead₁, htail₁]
  simp only []
  rw [strtok_append h₁.tail.blanks hkey.2 hkey.1 hhead₂, htail₂, hrest]
  simp only []
  rw [strtok_append (by simp) htoken (by simp [hvalue.ne_nil])
    fun b hb => hend b (List.mem_of_mem_head? hb)]
  rw [Option.map_some, htrim]

/-- A flag after a value is taken off. -/
theorem consumeTimingFlag_flag (hvalue : IsValue value) (hgap : IsGap gap) (hne : gap ≠ []) :
    consumeTimingFlag (value ++ (gap ++ ascii "-t")) = (true, value) := by
  have hlong : value ++ (gap ++ ascii "-t") ≠ ascii "-t" := by
    intro heq
    have hlen := congrArg List.length heq
    have hpos := List.length_pos_iff.mpr hvalue.ne_nil
    simp only [List.length_append] at hlen
    omega
  have hspace : ∀ b ∈ gap.reverse, isSpace b := fun b hb => hgap.space b (List.mem_reverse.mp hb)
  have hreverse : (value ++ (gap ++ ascii "-t")).reverse =
      (ascii "-t").reverse ++ (gap.reverse ++ value.reverse) := by
    simp only [List.reverse_append, List.append_assoc]
  obtain ⟨hword, hbefore⟩ := span_append
    (fun b hb => flag_word b (List.mem_reverse.mp hb)) (gap.reverse ++ value.reverse) (by
      rw [List.head?_append_of_ne_nil _ (by simpa using hne)]
      intro b hb
      simp [hspace b (List.mem_of_mem_head? hb)])
  obtain ⟨_, hcut⟩ := span_append hspace value.reverse (by
    rw [List.head?_reverse]
    exact hvalue.last)
  unfold consumeTimingFlag
  simp only [trim_flag hvalue, hreverse, hword, hbefore, hcut, List.reverse_reverse]
  rw [if_neg (by simp [hvalue.ne_nil]), if_neg hlong]
  simp

/-- A value that does not end in a flag is left as it is. -/
theorem consumeTimingFlag_value (hvalue : IsValue value) (hflag : ¬ EndsInFlag value) :
    consumeTimingFlag value = (false, value) := by
  have hwhole : value ≠ ascii "-t" := by
    rintro rfl
    exact hflag ⟨[], rfl, by simp⟩
  have hword : (value.reverse.takeWhile (!isSpace ·)).reverse ≠ ascii "-t" := by
    intro heq
    refine hflag ⟨(value.reverse.dropWhile (!isSpace ·)).reverse, ?_, ?_⟩
    · rw [← heq, ← List.reverse_append, List.takeWhile_append_dropWhile, List.reverse_reverse]
    · intro b hb
      rw [List.getLast?_reverse] at hb
      have hstop := List.head?_dropWhile_not (!isSpace ·) value.reverse
      rw [Option.mem_def.mp hb] at hstop
      simpa using hstop
  unfold consumeTimingFlag
  simp only [trim_of_ends hvalue.first hvalue.last]
  rw [if_neg hvalue.ne_nil, if_neg hwhole, if_pos hword]

end Spells

/-- A line with a command to write or to update, a key and a value calls the routine of the command
with this key and this value, in its profiled variant if and only if the flag is there.  After that
only the result is reported. -/
theorem command_parsed (sessionCount : Nat) {line key value : List UInt8} (update timing : Bool)
    (hline : line.length < 512)
    (hspells : Spells line (if update then ascii "update" else ascii "write") key value timing)
    (hkey : IsKey key) (hvalue : IsValue value) (hflag : timing = false → ¬ EndsInFlag value) :
    ∃ report : UInt64 → Except String Nat → Prog Console Bool,
      (∀ startNs result, (report startNs result).Within ConsoleCall.Reports) ∧
      execute sessionCount line = .call .nowNs fun startNs => .call
        (.mutateKv timing (if update then .update key value else .write key value))
        (report startNs) := by
  have hcmd : IsKey (if update then ascii "update" else ascii "write") := by
    cases update
    · exact ⟨by decide, command_word (by decide)⟩
    · exact ⟨by decide, command_word (by decide)⟩
  obtain ⟨gap, hgap, hne, hsplit⟩ := splitCommand_spelled hspells hcmd hkey hvalue
  have hconsume : consumeTimingFlag (value ++ if timing then gap ++ ascii "-t" else []) =
      (timing, value) := by
    cases timing with
    | false =>
        simp only [Bool.false_eq_true, if_false, List.append_nil]
        exact consumeTimingFlag_value hvalue (hflag rfl)
    | true =>
        simp only [if_true]
        exact consumeTimingFlag_flag hvalue hgap hne
  have hparse : parseCommand line =
      .command (.mutate (if update then .update key value else .write key value) timing) := by
    unfold parseCommand
    rw [truncated, List.take_of_length_le (by omega), hsplit]
    simp only [Option.map_some, Option.getD_some, hconsume, trim_of_ends hvalue.first hvalue.last]
    cases update
    · simp [ascii, hvalue.ne_nil]
    · simp [ascii, hvalue.ne_nil]
  obtain ⟨report, hreport, hperform⟩ := perform_mutate sessionCount _ timing
  refine ⟨report, hreport, ?_⟩
  rw [execute, hparse]
  exact hperform

/-- A value with a flag inside of it, and one after it. -/
theorem command_parsed_flag :
    ∃ report : UInt64 → Except String Nat → Prog Console Bool,
      (∀ startNs result, (report startNs result).Within ConsoleCall.Reports) ∧
      execute 3 (ascii "\twrite key a -t b  -t \r\n") = .call .nowNs fun startNs => .call
        (.mutateKv true (.write (ascii "key") (ascii "a -t b"))) (report startNs) := by
  refine command_parsed 3 false true (by decide) ?_ ⟨by decide, command_word (by decide)⟩ ?_
    (by simp)
  · refine ⟨[9], [32], [32], [32, 32], [32], lineEnds, ?_, ?_, by simp, ?_, by simp, ?_, by simp, ?_,
      fun _ hb => hb, rfl⟩
    all_goals simp [IsGap]
  · have hall : (ascii "a -t b").all (fun b => decide (b ∉ lineEnds)) = true := by decide
    refine ⟨by decide, by simpa using hall, ?_, ?_⟩
    · intro b hb
      cases hb
      rfl
    · intro b hb
      cases hb
      rfl

end TeeDist
