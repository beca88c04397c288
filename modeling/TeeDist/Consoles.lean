import TeeDist.Footprint
import TeeDist.Network
import TeeDist.Repl
import TeeDist.Room

/-!
# Consoles over the network

The program of `cn_main.c` behind its start-up, as it runs over TCP: the lines of the standard
input are parsed and executed one after the other, the routines of `cluster.c` make their session
calls, and these travel as bytes between the compute node and the connection threads of the memory
nodes, next to other compute nodes and the eviction threads.  All a console says is noted
(`Prog.implement`): the lines it prints, and its routines with what they return.

`consoles_dictionary` says that a console of a compute node without cache, if the other ones only
read, says what it would say to a dictionary (`dictHandler`).  The levels between are the locks of the
regions (`Locked.Run.links`), the bytes and threads (`Links.Run.pool`), regions and stores
(`Models`), stores and dictionaries (`Serves`), and the calls of a routine and the routine
(`Prog.run_implement`).
-/

namespace TeeDist

open CText Calls

/-! ## A console and its calls -/

/-- `char err[256]`: what there is room for of the text of an error.  A character is a byte. -/
def errText (text : String) : String := String.ofList (text.toList.take 255)

/-- What a console depends on besides its sessions: the text of transport errors, and the clock,
which may depend on all that was said before. -/
structure Around where
  transportText : String
  /-- `td_now_ns`. -/
  clock : Log Console → UInt64

/-- The text of an error, as a console prints it. -/
def Around.text (around : Around) (e : Err) : String := errText (e.message around.transportText)

/-- The calls of a compute node on its sessions. -/
abbrev Sessions : Signature := Net.sum Control

/-- How a compute node carries out the calls of its console. -/
def carryOut (cl : Cluster) (around : Around) :
    Log Console → (c : ConsoleCall) → Prog Sessions c.Reply
  | _, .readKv _ key => do
      let result ← (readKv cl key).inl
      return result.mapError around.text
  | _, .mutateKv _ m => do
      let result ← (m.prog cl).inl
      return result.mapError around.text
  | _, .control session => .call (.inr session) fun result => .ret (result.mapError errText)
  | log, .nowNs => return around.clock log
  | _, .print _ | _, .printStatus | _, .printTimed _ | _, .printProfile => return ()

/-- What a dictionary answers to a console. -/
def dictHandler (around : Around) : Log Console → Handler Console (Key → Option Value)
  | _, .readKv _ key, map => (.ok (map key), map)
  | _, .mutateKv _ m, map => ((m.answerOn map).mapError around.text, m.on map)
  | _, .control _, map => (.ok (), map)
  | log, .nowNs, map => (around.clock log, map)
  | _, .print _, map | _, .printStatus, map | _, .printTimed _, map | _, .printProfile, map => ((), map)

/-- `main` after its start-up. -/
def cnLoop (sessionCount : Nat) (input : List UInt8) : Prog Console Unit := do
  say "tee-dist cn ready. type help for commands."
  repl sessionCount (fgetsLines 512 input)

/-- What a console says to a dictionary, the last thing first. -/
def dictConsole (sessionCount : Nat) (around : Around) (map : Key → Option Value)
    (input : List UInt8) : Log Console :=
  ((cnLoop sessionCount input).run (.noting (dictHandler around)) ([], map)).2.1

/-- The lines that were printed, the first one first. -/
def printed (log : Log Console) : List String :=
  log.reverse.filterMap fun e =>
    match e.1 with
    | .print text | .printTimed text => some text
    | _ => none

/-- A console at work. -/
def consoleProg (cl : Cluster) (around : Around) (input : List UInt8) :
    Prog Sessions (Unit × Log Console) :=
  (cnLoop cl.sessionCount input).implement (carryOut cl around) []

/-! ## What is typed -/

/-- The operations that a text asks for. -/
def typedOps (input : List UInt8) : List Op :=
  (executed input).filterMap fun e => (commandOf e.line).bind Command.op

/-- An operation that reads. -/
def Op.isRead : Op → Bool
  | .read _ => true
  | .mutate _ => false

/-- The operation of a call. -/
def ConsoleCall.op : ConsoleCall → Option Op
  | .readKv _ key => some (.read key)
  | .mutateKv _ m => some (.mutate m)
  | _ => none

/-- A call is about operations of a kind. -/
def ConsoleCall.Asks (P : Op → Prop) (c : ConsoleCall) : Prop := ∀ o ∈ c.op, P o

section Typed

variable {P : Op → Prop}

theorem ConsoleCall.Reports.asks {c : ConsoleCall} (hc : c.Reports) : c.Asks P := by
  cases c with
  | readKv profiled key => exact hc.elim
  | mutateKv profiled m => exact hc.elim
  | control session => exact hc.elim
  | _ => nofun

theorem asks_reports {α : Type} {p : Prog Console α} (hp : p.Within ConsoleCall.Reports) :
    p.Within (ConsoleCall.Asks P) := hp.mono fun _ hc => hc.asks

theorem asks_evictLoop : ∀ left idx : Nat, (evictLoop left idx).Within (ConsoleCall.Asks P)
  | 0, _ => asks_reports (reports_say _)
  | left + 1, idx => by
      refine ⟨nofun, fun r => ?_⟩
      cases r with
      | error e => exact asks_reports (reports_say _)
      | ok u => exact asks_evictLoop left (idx + 1)

/-- A command asks for its operation. -/
theorem asks_perform (sessionCount : Nat) {c : Command} (hc : ∀ o ∈ c.op, P o) :
    (c.perform sessionCount).Within (ConsoleCall.Asks P) := by
  cases c with
  | quit => trivial
  | help =>
      apply (asks_reports (reports_say _)).bind
      exact fun _ => trivial
  | status => exact ⟨nofun, fun _ => trivial⟩
  | evict =>
      apply (asks_evictLoop sessionCount 0).bind
      exact fun _ => trivial
  | read key timing =>
      refine ⟨hc, fun result => ?_⟩
      apply (asks_reports (reports_sayRead key timing result)).bind
      exact fun _ => trivial
  | mutate m timing =>
      refine ⟨nofun, fun startNs => ⟨hc, fun result => ?_⟩⟩
      apply (asks_reports (reports_sayMutated m timing startNs result)).bind
      exact fun _ => trivial

theorem asks_execute (sessionCount : Nat) {line : List UInt8}
    (hc : ∀ o ∈ (commandOf line).bind Command.op, P o) :
    (execute sessionCount (cString line)).Within (ConsoleCall.Asks P) := by
  unfold commandOf at hc
  unfold execute
  cases hparse : parseCommand (cString line) with
  | blank => trivial
  | refused message =>
      apply (asks_reports (reports_say _)).bind
      exact fun _ => trivial
  | command c =>
      rw [hparse] at hc
      exact asks_perform sessionCount hc

theorem asks_passAll (sessionCount : Nat) :
    ∀ es : List Entry, (∀ e ∈ es, ∀ o ∈ (commandOf e.line).bind Command.op, P o) →
      (passAll sessionCount es).Within (ConsoleCall.Asks P)
  | [], _ => trivial
  | e :: es, hes => by
      simp only [passAll, Prog.bind_eq]
      apply (asks_reports (reports_say _)).bind
      intro _
      apply (asks_execute sessionCount (hes e List.mem_cons_self)).bind
      intro _
      exact asks_passAll sessionCount es fun e' he' => hes e' (List.mem_cons_of_mem _ he')

/-- A console asks for the operations that are typed, and for no others. -/
theorem asks_cnLoop (sessionCount : Nat) {input : List UInt8} (hP : ∀ o ∈ typedOps input, P o) :
    (cnLoop sessionCount input).Within (ConsoleCall.Asks P) := by
  obtain ⟨rest, hrest, hrepl⟩ := repl_entries sessionCount (fgetsLines 512 input) 0
  refine (asks_reports (reports_say _)).bind fun _ => ?_
  rw [hrepl]
  refine Prog.Within.bind (fun _ => ?_) (asks_passAll sessionCount _ fun e he o ho => ?_)
  · refine hrest.mono fun c hc => ?_
    subst hc
    nofun
  · refine hP o (List.mem_filterMap.mpr ⟨e, List.mem_filter.mpr ⟨he, ?_⟩, ho⟩)
    cases hc : commandOf e.line with
    | none =>
        rw [hc] at ho
        cases ho
    | some c => rfl

end Typed

/-! ## Carrying calls out -/

section CarryOut

variable {cl : Cluster} {around : Around} {log : Log Console} {c : ConsoleCall}

/-- What holds of the calls of the routines holds of those of a console on slots. -/
theorem carryOut_within {C : Call → Prop} {P : Op → Prop}
    (hread : ∀ key, P (.read key) → (readKv cl key).Within C)
    (hmutate : ∀ m, P (.mutate m) → (m.prog cl).Within C) (hc : c.Asks P) :
    (carryOut cl around log c).Within (Sum.elim C fun _ => True) := by
  cases c with
  | readKv profiled key =>
      apply (hread key (hc _ rfl)).inl.bind
      exact fun _ => trivial
  | mutateKv profiled m =>
      apply (hmutate m (hc _ rfl)).inl.bind
      exact fun _ => trivial
  | control session => exact ⟨trivial, fun _ => trivial⟩
  | nowNs => trivial
  | print text => trivial
  | printStatus => trivial
  | printTimed text => trivial
  | printProfile => trivial

/-- The calls of a console. -/
theorem consoleProg_within {C : Call → Prop} {P : Op → Prop} {input : List UInt8}
    (hread : ∀ key, P (.read key) → (readKv cl key).Within C)
    (hmutate : ∀ m, P (.mutate m) → (m.prog cl).Within C) (hP : ∀ o ∈ typedOps input, P o) :
    (consoleProg cl around input).Within (Sum.elim C fun _ => True) :=
  (asks_cnLoop cl.sessionCount hP).implement
    (fun _ _ hc => carryOut_within hread hmutate hc) []

/-- The calls on slots as on a store, and no evictions. -/
def storeSessions : Handler Sessions Store := storeHandler.sum Control.done

/-- A routine of a client without cache returns what the dictionary answers. -/
theorem carryOut_serves {d : Deployment} {keys : List Key} {st : Store} {map : Key → Option Value}
    (hroom : d.Room keys) (hdist : DistinctHashes keys) (hc : c.Asks fun o => o.key ∈ keys)
    (hs : Serves d keys st map) :
    ((carryOut (d.client false).toCluster around log c).run storeSessions st).1 =
        (dictHandler around log c map).1 ∧
      Serves d keys ((carryOut (d.client false).toCluster around log c).run storeSessions st).2
        (dictHandler around log c map).2 := by
  cases c with
  | readKv profiled key =>
      have hkey : key ∈ keys := hc _ rfl
      simp only [carryOut, dictHandler, storeSessions, Prog.bind_eq, Prog.pure_eq, Prog.run_bind,
        Prog.run_inl, Prog.run_ret, run_readKv, hs.read hroom hkey]
      exact ⟨rfl, hs.congr (st.afterRead_sameTables _ key)⟩
  | mutateKv profiled m =>
      have hkey : m.key ∈ keys := hc _ rfl
      have hoff := hs.client false
      simp only [carryOut, dictHandler, storeSessions, Prog.bind_eq, Prog.pure_eq, Prog.run_bind,
        Prog.run_inl, Prog.run_ret, Mutation.run_prog]
      exact ⟨congrArg _ (hoff.answer hroom m hkey), (hoff.mutate hroom hdist m hkey).of_client⟩
  | control session => exact ⟨rfl, hs⟩
  | nowNs => exact ⟨rfl, hs⟩
  | print text => exact ⟨rfl, hs⟩
  | printStatus => exact ⟨rfl, hs⟩
  | printTimed text => exact ⟨rfl, hs⟩
  | printProfile => exact ⟨rfl, hs⟩

/-- A console of a client without cache, alone with the memory nodes. -/
theorem run_consoleProg {d : Deployment} {keys : List Key} {st : Store} {map : Key → Option Value}
    {input : List UInt8} (hroom : d.Room keys) (hdist : DistinctHashes keys)
    (hs : Serves d keys st map) (hkeys : ∀ o ∈ typedOps input, o.key ∈ keys) :
    ((consoleProg (d.client false).toCluster around input).run storeSessions st).1 =
      ((), dictConsole d.sessionCount around map input) := by
  obtain ⟨hsaid, -⟩ := Prog.run_implement (R := Serves d keys)
    (fun log c st map hc hs => carryOut_serves hroom hdist hc hs)
    (asks_cnLoop d.sessionCount hkeys) [] hs
  exact hsaid

end CarryOut

/-! ## Consoles over the network -/

section Consoles

variable {ι : Type} [DecidableEq ι]

/-- The calls of consoles on their sessions, made and served over TCP. -/
def consoleService (env : ServerEnv) (session : ι → Nat → TcpSession) (header : Nat → RegionHeader) :
    Service ι Nat UInt8 Conn (Nat → Region) Sessions :=
  sessionService ((netCalls header).sum controlCalls) env session

/-- The calls on slots as on the regions, and no evictions. -/
def regionSessions (header : Nat → RegionHeader) : Handler Sessions (Nat → Region) :=
  (regionHandler header).sum Control.done

theorem sessions_does (header : Nat → RegionHeader) :
    ((netCalls header).sum controlCalls).Does (regionSessions header) :=
  (netCalls_does header).sum controlCalls_does

/-- Consoles of compute nodes, with and without cache. -/
def consoles (d : Deployment) (rs : Nat → Region) (cacheOn : ι → Bool) (around : ι → Around)
    (input : ι → List UInt8) (served : ι × Nat → Nat) : Locked ι Sessions (Unit × Log Console) :=
  .init (network rs
    (fun i => consoleProg (d.client (cacheOn i)).toCluster (around i) (input i)) served)

/-- Evictions that nobody interrupts end: a memory node has no cache, or its threshold is not zero as
the source computes it. -/
def Deployment.Evictable (d : Deployment) (mn : Nat) (thresholdPct : UInt64) : Prop :=
  d.slots mn .cache = 0 ∨ thresholdPct.toNat * d.slots mn .cache % sizeModulus ≠ 0

/-- A region of a deployment has room for its slots. -/
theorem Region.Models.fits {d : Deployment} {mn : Nat} {r : Region} {st : Store}
    (hm : r.Models d mn st) : r.header.Fits r.mappedBytes := by
  have hprime : r.header.primeSlotCount.toNat = d.slots mn .prime := hm.counts .prime
  have hcache : r.header.cacheSlotCount.toNat = d.slots mn .cache := hm.counts .cache
  have hbackup : r.header.backupSlotCount.toNat = d.slots mn .backup := hm.counts .backup
  unfold RegionHeader.Fits
  rw [hm.mapped, hprime, hcache, hbackup]
  exact d.fits mn

theorem Region.Models.evictIfNeeded_ends {d : Deployment} {mn : Nat} {r : Region} {st : Store}
    (hm : r.Models d mn st) {thresholdPct : UInt64} (hevicts : d.Evictable mn thresholdPct) :
    ∃ fuel region, r.evictIfNeeded fuel thresholdPct.toNat = some region := by
  have hcache : r.header.cacheSlotCount.toNat = d.slots mn .cache := hm.counts .cache
  by_cases hzero : d.slots mn .cache = 0
  · refine ⟨0, r, ?_⟩
    rw [Region.evictIfNeeded, hcache, if_pos hzero]
  · refine (Region.evictIfNeeded_ends_iff hm.fits (by omega) thresholdPct).mpr (.inl ?_)
    rw [hcache]
    exact hevicts.resolve_left hzero

section Sessions

variable {d : Deployment} {rs : Nat → Region} {st : Store} {c : Sessions.Call}

/-- A call on a session outside the caches. -/
theorem Beneath.session (hb : Beneath d rs st)
    (hc : Sum.elim (Call.Exists d.toCluster) (fun _ => True) c ∧ Sum.elim Call.Tables (fun _ => True) c) :
    (regionSessions d.header c rs).1 = (storeSessions c st).1 ∧
      Beneath d (regionSessions d.header c rs).2 (storeSessions c st).2 := by
  cases c with
  | inl c => exact hb.call hc
  | inr mn => exact ⟨rfl, hb⟩

theorem Beneath.session_harmless (hb : Beneath d rs st)
    (hc : Sum.elim (Call.Exists d.toCluster) (fun _ => True) c ∧
      Sum.elim Call.Harmless (fun _ => True) c) : Beneath d (regionSessions d.header c rs).2 st := by
  cases c with
  | inl c => exact hb.harmless hc
  | inr mn => exact hb

end Sessions

section Run

variable {env : ServerEnv} {session : ι → Nat → TcpSession} {cap : Nat} {d : Deployment}
  {thresholdPct : Nat → UInt64} {cacheOn : ι → Bool} {around : ι → Around} {input : ι → List UInt8}
  {served : ι × Nat → Nat} {rs : Nat → Region} {i : ι} {N : Locked ι Sessions (Unit × Log Console)}

/-- Consoles run as in a pool. -/
theorem consoles_pool (hmalloc : ∀ n, env.malloc n = true)
    (hr : Locked.Run (consoleService env session d.header) cap thresholdPct
      (consoles d rs cacheOn around input served) N) :
    ∃ tr q, Run (regionSessions d.header) Evicts (fun _ _ => True)
      ⟨rs, fun i => consoleProg (d.client (cacheOn i)).toCluster (around i) (input i)⟩ tr
      ⟨N.net.shared, q⟩ ∧ ∀ i m, N.net.client i = .between m → q i = m := by
  obtain ⟨tr, q, hpool, hbetween⟩ :=
    hr.links.pool (sessionService_correct (sessions_does d.header) hmalloc) (network_ready served)
  exact ⟨tr, q, hpool, fun i m hi => (hbetween i m hi).1⟩

theorem regionSessions_models {c : Sessions.Call} {rs : Nat → Region}
    (hc : Sum.elim (Call.Exists d.toCluster) (fun _ => True) c) (hrs : ∃ st, Models d rs st) :
    ∃ st, Models d (regionSessions d.header c rs).2 st := by
  obtain ⟨st, hm⟩ := hrs
  cases c with
  | inl c => exact ⟨_, (hm.call c hc).2⟩
  | inr mn => exact ⟨st, hm⟩

theorem evicts_models {rs rs' : Nat → Region} (he : Relation.ReflTransGen Evicts rs rs')
    (hrs : ∃ st, Models d rs st) : ∃ st, Models d rs' st := by
  induction he with
  | refl => exact hrs
  | tail _ he ih =>
      obtain ⟨st, hm⟩ := ih
      obtain ⟨st', -, hm'⟩ := hm.evicts he
      exact ⟨st', hm'⟩

/-- All slots that consoles ask for exist. -/
theorem consoleProg_exists (d : Deployment) (cacheOn : Bool) (around : Around) (input : List UInt8) :
    (consoleProg (d.client cacheOn).toCluster around input).Within
      (Sum.elim (Call.Exists d.toCluster) fun _ => True) :=
  consoleProg_within (P := fun _ => True)
    (fun key _ => exists_readKv (d.client cacheOn).toCluster key)
    (fun m _ => exists_mutation (d.client cacheOn).toCluster m) fun _ _ => trivial

/-- A console between two calls comes to its end, if the loops under way find enough valid slots and
its own evictions end. -/
theorem consoles_end (hmalloc : ∀ n, env.malloc n = true) (hcap : 0 < cap)
    (hmodels : ∃ st, Models d rs st)
    (hr : Locked.Run (consoleService env session d.header) cap thresholdPct
      (consoles d rs cacheOn around input served) N)
    (hevictable : ∀ mn, d.Evictable mn (thresholdPct mn)) (hsettles : ∀ mn, N.Settles mn)
    {m : Prog Sessions (Unit × Log Console)} (hi : N.net.client i = .between m) :
    ∃ N' a, Locked.Run (consoleService env session d.header) cap thresholdPct N N' ∧
      N'.net.client i = .between (.ret a) := by
  obtain ⟨tr, q, hpool, hbetween⟩ := consoles_pool hmalloc hr
  have hevicts : ∀ rs rs', Evicts rs rs' → (∃ st, Models d rs st) → ∃ st, Models d rs' st :=
    fun _ _ he => evicts_models (.single he)
  obtain ⟨hshared, hleft⟩ := hpool.keeps (fun c rs => regionSessions_models) hevicts
    (fun j => consoleProg_exists d (cacheOn j) (around j) (input j)) hmodels
  obtain ⟨hpaused, hN⟩ := network_paused (sessions_does d.header) hmalloc hr hi
  refine Locked.exists_end thresholdPct (sessions_does d.header) hmalloc hcap
    (fun c rs => regionSessions_models) (fun rs rs' => evicts_models) ?_ (hbetween i m hi ▸ hleft i) hN
    hpaused hshared hsettles
  rintro (c | mn) rs hc he ⟨st, hm⟩
  · cases c <;> cases he
  · exact ⟨(hm mn).fits, (hm mn).evictIfNeeded_ends (hevictable mn)⟩

/-- So a console of which it is known what it has said at its end says it, and can come to that
end. -/
theorem consoles_said (hmalloc : ∀ n, env.malloc n = true) (hcap : 0 < cap)
    (hmodels : ∃ st, Models d rs st) {said : Log Console}
    (hends : ∀ {N a}, Locked.Run (consoleService env session d.header) cap thresholdPct
      (consoles d rs cacheOn around input served) N → N.net.client i = .between (.ret a) →
      a = ((), said))
    (hr : Locked.Run (consoleService env session d.header) cap thresholdPct
      (consoles d rs cacheOn around input served) N) :
    (∀ log, N.net.client i = .between (.ret ((), log)) → log = said) ∧
    ((∀ mn, d.Evictable mn (thresholdPct mn)) → (∀ mn, N.Settles mn) →
      ∀ m, N.net.client i = .between m →
        ∃ N', Locked.Run (consoleService env session d.header) cap thresholdPct N N' ∧
          N'.net.client i = .between (.ret ((), said))) := by
  constructor
  · intro log hi
    exact (Prod.mk.inj (hends hr hi)).2
  · intro hevictable hsettles m hi
    obtain ⟨N', a, hrun, hclient⟩ := consoles_end hmalloc hcap hmodels hr hevictable hsettles hi
    refine ⟨N', hrun, ?_⟩
    rw [hclient, hends (hr.trans hrun) hclient]

end Run

/-- Let compute nodes run their consoles over TCP, on regions with the slots of some history of
turns, perhaps none.  Take one that has no cache, and let the others only read.  If there is room
for the keys it is asked about, then whatever the others and the eviction threads do, it has said
what the dictionary makes it say when it comes to its end.  Between any two calls it can come to its
end, if its evictions end and the loops under way find enough valid slots to clear. -/
theorem consoles_dictionary (env : ServerEnv) (hmalloc : ∀ n, env.malloc n = true)
    (session : ι → Nat → TcpSession) (cap : Nat) (hcap : 0 < cap) (d : Deployment)
    (thresholdPct : Nat → UInt64) (cacheOn : ι → Bool) (around : ι → Around)
    (input : ι → List UInt8) (served : ι × Nat → Nat) (keys : List Key)
    (hdist : DistinctHashes keys) (hroom : d.Room keys) (ts : List Turn) (hts : Changes keys ts)
    (rs : Nat → Region) (hrs : Beneath d rs (d.after ts)) (i : ι) (hoff : cacheOn i = false)
    (hkeys : ∀ o ∈ typedOps (input i), o.key ∈ keys)
    (hothers : ∀ j ≠ i, ∀ o ∈ typedOps (input j), o.isRead)
    (N : Locked ι Sessions (Unit × Log Console))
    (hr : Locked.Run (consoleService env session d.header) cap thresholdPct
      (consoles d rs cacheOn around input served) N) :
    (∀ log, N.net.client i = .between (.ret ((), log)) →
      log = dictConsole d.sessionCount (around i) (dictAfter ts) (input i)) ∧
    ((∀ mn, d.Evictable mn (thresholdPct mn)) → (∀ mn, N.Settles mn) →
      ∀ m, N.net.client i = .between m →
        ∃ N', Locked.Run (consoleService env session d.header) cap thresholdPct N N' ∧
          N'.net.client i =
            .between (.ret ((), dictConsole d.sessionCount (around i) (dictAfter ts) (input i)))) := by
  have htables : (consoleProg (d.client (cacheOn i)).toCluster (around i) (input i)).Within
      (Sum.elim Call.Tables fun _ => True) :=
    consoleProg_within (P := fun _ => True) (fun key _ => tables_readKv hoff key)
      (fun m _ => tables_mutation hoff m) fun _ _ => trivial
  have hharmless : ∀ j ≠ i, (consoleProg (d.client (cacheOn j)).toCluster (around j)
      (input j)).Within (Sum.elim Call.Harmless fun _ => True) := fun j hj =>
    consoleProg_within (P := fun o => o.isRead) (fun key _ => harmless_readKv _ key)
      (fun m hm => by simp [Op.isRead] at hm) (hothers j hj)
  obtain ⟨st, hm, hsame⟩ := hrs
  refine consoles_said hmalloc hcap ⟨st, hm⟩ (fun {N a} hr hi => ?_) hr
  obtain ⟨tr, q, hpool, hbetween⟩ := consoles_pool hmalloc hr
  have hsession : ∀ (c : Sessions.Call) rs st, Sum.elim (Call.Exists d.toCluster) (fun _ => True) c ∧
      Sum.elim Call.Tables (fun _ => True) c → Beneath d rs st →
      (regionSessions d.header c rs).1 = (storeSessions c st).1 ∧
        Beneath d (regionSessions d.header c rs).2 (storeSessions c st).2 :=
    fun c rs st hc hb => hb.session hc
  obtain ⟨st', -, -, hrun⟩ := Run.solo (R := Beneath d) hsession
    (fun c rs st hc hb => hb.session_harmless hc)
    (fun rs rs' st he hb => hb.evicts he)
    ((consoleProg_exists d (cacheOn i) (around i) (input i)).and htables)
    (fun j hj => (consoleProg_exists d (cacheOn j) (around j) (input j)).and (hharmless j hj))
    ⟨st, hm, hsame⟩ hpool
  simp only [hbetween i _ hi, Prog.run_ret, hoff] at hrun
  exact (congrArg Prod.fst hrun).trans
    (run_consoleProg hroom hdist (serves_after d hroom hdist ts hts) hkeys)

/-- A clock that stands still. -/
def Around.still : Around where
  transportText := ""
  clock _ := 0

/-- A text for a console that writes, and one for a console that reads. -/
def twoTexts (writer : Bool) : List UInt8 :=
  if writer then ascii "write a 1\nread a\nread b\nevict\nquit\n" else ascii "read a\n"

omit [DecidableEq ι] in
/-- Before the first step no loop is under way. -/
theorem consoles_settle {d : Deployment} {rs : Nat → Region} {cacheOn : ι → Bool} {around : ι → Around}
    {input : ι → List UInt8} {served : ι × Nat → Nat} (mn : Nat) :
    (consoles d rs cacheOn around input served).Settles mn := fun _ _ h => nomatch h

theorem pair_evictable (mn : Nat) : Deployment.pair.Evictable mn 80 :=
  .inr (show 80 * Deployment.pair.slots 0 .cache % sizeModulus ≠ 0 by decide +kernel)

/-- A console writes, reads what it has written and asks for evictions, next to a console with cache
that reads. -/
theorem consoles_dictionary_sample : ∃ N' log,
    Locked.Run (consoleService .plentiful (fun _ _ => ⟨false, 0⟩) Deployment.pair.header) 1
      (fun _ => 80) (consoles .pair (fun _ => Region.create .pair) (! ·) (fun _ => .still) twoTexts
        fun _ => 1) N' ∧
    N'.net.client true = .between (.ret ((), log)) ∧
    printed log = ["tee-dist cn ready. type help for commands.", "td> ",
      "ok a rule=1 latency_us=0", "td> ", "value a 1", "td> ", "not_found b", "td> ",
      "eviction requested", "td> "] := by
  obtain ⟨N', hrun, hclient⟩ := (consoles_dictionary .plentiful (fun _ => rfl) (fun _ _ => ⟨false, 0⟩)
    1 Nat.one_pos .pair (fun _ => 80) (! ·) (fun _ => .still) twoTexts (fun _ => 1) [[97], [98]]
    (by decide +kernel) (by decide +kernel) [] (by decide) (fun _ => Region.create .pair)
    ⟨.fresh, models_fresh fun mn => ⟨fun kind => rfl, rfl⟩, fun _ _ _ => rfl⟩
    true rfl (by decide +kernel)
    (fun j hj => by
      obtain rfl : j = false := by simpa using hj
      decide +kernel) _ .refl).2 pair_evictable consoles_settle _ rfl
  exact ⟨N', _, hrun, hclient, by decide +kernel⟩

end Consoles

end TeeDist
