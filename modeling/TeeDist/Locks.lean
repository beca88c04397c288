import TeeDist.Eviction
import TeeDist.Threads

/-!
# The region lock

The connection threads of a memory node and its eviction thread share the lock of the region.  A
section of `td_region_read_bytes`, `td_region_write_bytes` or `td_region_cas64` waits until nobody
holds it.  The loop of an eviction keeps it from turn to turn, so the network has the machine of
`Evictions` at each memory node, with a call for each thread.  A connection thread runs its call
for a request to evict, and answers when it has returned.

What happens with locks can happen without them (`Locked.Run.links`).  A compute node whose memory
nodes are not locked makes a call on a slot by itself (`Locked.exists_slotCall`), and has its
evictions carried out (`Locked.exists_evictCall`).  A loop that finds as many valid slots as it has
to clear comes to its end, and gives the lock back (`Locked.Inv.unlocks`).
-/

namespace TeeDist

open Bytes Calls

/-! ## The network with its locks -/

/-- Compute nodes and memory nodes, who holds the lock of each region between two steps, and where
the calls of `td_region_evict_if_needed` are: that of the eviction thread, and those of the
connection threads. -/
structure Locked (ι : Type) (S : Signature) (α : Type) where
  net : Links ι Nat UInt8 Conn S (Nat → Region) α
  lock : Nat → Option (Option ι)
  call : Nat → Option ι → EvictCall

section Locked

variable {ι : Type} {S : Signature} {α : Type}

/-- A memory node. -/
def Locked.node (N : Locked ι S α) (mn : Nat) : Evictions (Option ι) :=
  ⟨N.net.shared mn, N.lock mn, N.call mn⟩

/-- Another state of a memory node. -/
def Locked.put (N : Locked ι S α) (mn : Nat) (s : Evictions (Option ι)) : Locked ι S α where
  net := N.net.sharing (Function.update N.net.shared mn s.region)
  lock := Function.update N.lock mn s.lock
  call := Function.update N.call mn s.call

/-- Nobody holds a lock, and nobody evicts. -/
def Locked.init (net : Links ι Nat UInt8 Conn S (Nat → Region) α) : Locked ι S α :=
  ⟨net, fun _ => none, fun _ _ => .idle⟩

/-- A thread may enter the section of its request: the lock is free, and it is no eviction. -/
def Locked.Enters (N : Locked ι S α) (mn : Nat) (n : Conn) : Prop := N.lock mn = none ∧ ¬ n.Evicts

variable [DecidableEq ι]

/-- One step. -/
inductive Locked.Step (sv : Service ι Nat UInt8 Conn (Nat → Region) S) (cap : Nat)
    (thresholdPct : Nat → UInt64) : Locked ι S α → Locked ι S α → Prop where
  /-- Of a compute node, or of a connection thread, with a section if it may enter it. -/
  | net {N : Locked ι S α} {net : Links ι Nat UInt8 Conn S (Nat → Region) α} :
      Links.Step (sv.only N.Enters) cap (fun _ _ => False) False N.net net →
      Step sv cap thresholdPct N { N with net := net }
  /-- A section of an eviction thread. -/
  | thread {N : Locked ι S α} {mn : Nat} {s : Evictions (Option ι)} :
      (N.node mn).Section (thresholdPct mn) none s →
      Step sv cap thresholdPct N (N.put mn s)
  /-- A section of a connection thread that has been asked to evict. -/
  | evict {N : Locked ι S α} {i : ι} {mn : Nat} {n : Conn} {s : Evictions (Option ι)} :
      (N.net.link (i, mn)).server = .between n → n.Evicts →
      (N.node mn).Continues (thresholdPct mn) (some i) s →
      Step sv cap thresholdPct N (N.put mn s)
  /-- The last one, and the response. -/
  | answer {N : Locked ι S α} {i : ι} {mn : Nat} {n n' : Conn} {s : Evictions (Option ι)}
      {rs : Nat → Region} : (N.net.link (i, mn)).server = .between n → n.Evicts →
      (N.node mn).Returns (thresholdPct mn) (some i) s →
      sv.act mn n (N.put mn s).net.shared n' rs →
      Step sv cap thresholdPct N { N.put mn s with net := (N.put mn s).net.acted i mn n' rs }

/-- Any number of steps. -/
def Locked.Run (sv : Service ι Nat UInt8 Conn (Nat → Region) S) (cap : Nat)
    (thresholdPct : Nat → UInt64) : Locked ι S α → Locked ι S α → Prop :=
  Relation.ReflTransGen (Locked.Step sv cap thresholdPct)

variable {sv : Service ι Nat UInt8 Conn (Nat → Region) S} {cap : Nat} {thresholdPct : Nat → UInt64}
  {N N' : Locked ι S α} {i : ι} {mn : Nat}

omit [DecidableEq ι] in
@[simp] theorem Locked.node_put (N : Locked ι S α) (mn : Nat) (s : Evictions (Option ι)) :
    (N.put mn s).node mn = s := by
  simp only [Locked.node, Locked.put, Links.sharing, Function.update_self]

omit [DecidableEq ι] in
theorem Locked.node_put_of_ne (N : Locked ι S α) {mn mn' : Nat} (h : mn' ≠ mn)
    (s : Evictions (Option ι)) : (N.put mn s).node mn' = N.node mn' := by
  simp only [Locked.node, Locked.put, Links.sharing, Function.update_of_ne h]

omit [DecidableEq ι] in
@[simp] theorem Locked.put_node (N : Locked ι S α) (mn : Nat) : N.put mn (N.node mn) = N := by
  simp only [Locked.node, Locked.put, Links.sharing, Function.update_eq_self]

omit [DecidableEq ι] in
@[simp] theorem Locked.put_put (N : Locked ι S α) (mn : Nat) (s s' : Evictions (Option ι)) :
    (N.put mn s).put mn s' = N.put mn s' := by
  simp only [Locked.put, Links.sharing, Function.update_idem]

omit [DecidableEq ι] in
/-- A memory node of which only the region changes. -/
theorem Locked.put_region (N : Locked ι S α) (mn : Nat) (region : Region) :
    N.put mn { N.node mn with region := region } =
      { N with net := N.net.sharing (Function.update N.net.shared mn region) } := by
  simp only [Locked.put, Locked.node, Function.update_eq_self]

/-! ## Without locks -/

/-- A section of an eviction changes the regions as the steps of `Evicts` do. -/
theorem Locked.evicts_of_section {c : Option ι} {s : Evictions (Option ι)} {pct : UInt64}
    (h : (N.node mn).Section pct c s) :
    Function.update N.net.shared mn s.region = N.net.shared ∨
      Evicts N.net.shared (Function.update N.net.shared mn s.region) := by
  obtain hsame | hcount | ⟨hslots, target, hturn⟩ := h.region
  · rw [hsame]
    exact .inl (Function.update_eq_self ..)
  · rw [hcount]
    exact .inr (.count mn)
  · rw [hturn]
    exact .inr (.turn mn target hslots)

theorem Locked.evicts_of_sections {c : Option ι} {s : Evictions (Option ι)} {pct : UInt64}
    (h : Relation.ReflTransGen (Evictions.Section pct c) (N.node mn) s) :
    Relation.ReflTransGen Evicts N.net.shared (Function.update N.net.shared mn s.region) := by
  induction h with
  | refl =>
      rw [show Function.update N.net.shared mn (N.node mn).region = N.net.shared from
        Function.update_eq_self ..]
  | @tail s s' _ hs ih =>
      rw [← N.node_put mn s] at hs
      have hshared : ∀ region, Function.update (N.put mn s).net.shared mn region =
          Function.update N.net.shared mn region := fun _ => Function.update_idem ..
      obtain hsame | he := Locked.evicts_of_section hs
      · rw [hshared] at hsame
        rw [hsame]
        exact ih
      · rw [hshared] at he
        exact ih.tail he

theorem Locked.links_of_section {c : Option ι} {s : Evictions (Option ι)} {pct : UInt64}
    (h : (N.node mn).Section pct c s) :
    Links.Run sv cap Evicts False N.net (N.put mn s).net := by
  obtain hsame | he := Locked.evicts_of_section h
  · rw [Locked.put, hsame]
    exact .refl
  · exact .single (.env he)

/-- What happens with locks can happen without them. -/
theorem Locked.Step.links (hlive : ∀ i, N.net.Alive i)
    (hs : Locked.Step sv cap thresholdPct N N') : Links.Run sv cap Evicts False N.net N'.net := by
  cases hs with
  | net hs => exact .single hs.of_only
  | thread h => exact Locked.links_of_section h
  | evict hn hevicts h => exact Locked.links_of_section h.1
  | @answer i mn _ _ s _ hn hevicts h ha =>
      exact (Locked.links_of_section h.1).tail (.act ((hlive i).servers mn) hn ha)

theorem Locked.Run.links {rs : Nat → Region} {p : ι → Prog S α} {on : ι → Nat}
    {ready : ι × Nat → Conn}
    (hr : Locked.Run sv cap thresholdPct (.init (.init rs p on ready)) N) :
    Links.Run sv cap Evicts False (.init rs p on ready) N.net := by
  induction hr with
  | refl => exact .refl
  | tail _ hs ih => exact ih.trans (hs.links ih.alive)

/-! ## Who holds the locks -/

/-- The lock of a region is held for a loop, and a connection thread that evicts has been asked
to. -/
structure Locked.Inv (N : Locked ι S α) : Prop where
  held : ∀ mn, (N.node mn).Held
  asked : ∀ i mn, N.call mn (some i) ≠ .idle →
    ∃ n, (N.net.link (i, mn)).server = .between n ∧ n.Evicts

theorem Conn.Evicts.waits {n : Conn} (hn : n.Evicts) (malloc : Nat → Bool) : n.next malloc = none := by
  cases n with
  | ready served => exact hn.elim
  | received served request payload => rfl
  | answering served request handled => exact hn.elim
  | closed => exact hn.elim

omit [DecidableEq ι] in
theorem Locked.inv_init (net : Links ι Nat UInt8 Conn S (Nat → Region) α) :
    (Locked.init net).Inv where
  held mn := Evictions.held_init (net.shared mn)
  asked _ _ h := absurd rfl h

/-- A section of a thread that is asked to evict, if it is a connection thread. -/
theorem Locked.Inv.put (hN : N.Inv) {c : Option ι} {s : Evictions (Option ι)} {pct : UInt64}
    (h : (N.node mn).Section pct c s)
    (hasked : ∀ i, c = some i → s.call (some i) ≠ .idle →
      ∃ n, (N.net.link (i, mn)).server = .between n ∧ n.Evicts) : (N.put mn s).Inv := by
  constructor
  · intro mn'
    by_cases hmn : mn' = mn
    · subst hmn
      rw [Locked.node_put]
      obtain ⟨event, -, hstep, -⟩ := h
      exact (hN.held mn').step hstep
    · rw [Locked.node_put_of_ne N hmn]
      exact hN.held mn'
  · intro i mn' hcall
    by_cases hmn : mn' = mn
    · subst hmn
      simp only [Locked.put, Function.update_self] at hcall
      by_cases hi : c = some i
      · exact hasked i hi hcall
      · rw [h.other fun he => hi he.symm] at hcall
        exact hN.asked i mn' hcall
    · simp only [Locked.put, Function.update_of_ne hmn] at hcall
      exact hN.asked i mn' hcall

theorem Locked.Step.inv (hserve : ∀ n, n.Evicts → sv.serve n = none) (hN : N.Inv)
    (hs : Locked.Step sv cap thresholdPct N N') : N'.Inv := by
  cases hs with
  | @net net hs =>
      constructor
      · exact hN.held
      · intro i mn hcall
        obtain ⟨n, hn, hevicts⟩ := hN.asked i mn hcall
        exact ⟨n, hs.waits hn (hserve n hevicts) fun he => he.2 hevicts, hevicts⟩
  | thread h => exact hN.put h nofun
  | evict hn hevicts h =>
      refine hN.put h.1 fun i hi _ => ?_
      cases hi
      exact ⟨_, hn, hevicts⟩
  | @answer i mn n n' s rs hn hevicts h ha =>
      have hput := hN.put h.1 fun i hi hcall => by
        cases hi
        exact absurd h.2 hcall
      constructor
      · exact hput.held
      · intro i' mn' hcall
        have hne : (i', mn') ≠ (i, mn) := by
          intro he
          obtain ⟨rfl, rfl⟩ := Prod.mk.inj he
          simp only [Locked.put, Function.update_self] at hcall
          exact hcall h.2
        obtain ⟨m, hm, hevicts'⟩ := hput.asked i' mn' hcall
        refine ⟨m, ?_, hevicts'⟩
        simp only [Links.acted, Function.update_of_ne hne]
        exact hm

theorem Locked.Run.inv (hserve : ∀ n, n.Evicts → sv.serve n = none) (hN : N.Inv)
    (hr : Locked.Run sv cap thresholdPct N N') : N'.Inv := by
  induction hr with
  | refl => exact hN
  | tail _ hs ih => exact hs.inv hserve ih

/-- Steps of the compute nodes, and sections of connection threads that may enter them. -/
theorem Locked.Run.of_links {net net' : Links ι Nat UInt8 Conn S (Nat → Region) α}
    {lock : Nat → Option (Option ι)} {call : Nat → Option ι → EvictCall}
    (hr : Links.Run (sv.only fun mn n => lock mn = none ∧ ¬ n.Evicts) cap (fun _ _ => False) False
      net net') : Locked.Run sv cap thresholdPct ⟨net, lock, call⟩ ⟨net', lock, call⟩ := by
  induction hr with
  | refl => exact .refl
  | @tail net net' _ hs ih =>
      have hstep : Links.Step (sv.only (Locked.Enters ⟨net, lock, call⟩)) cap (fun _ _ => False) False
          net net' := hs
      exact ih.tail (.net hstep)

/-! ## Loops that end -/

/-- The loop that is being run at a memory node, if there is one, has enough valid slots to
clear. -/
def Locked.Settles (N : Locked ι S α) (mn : Nat) : Prop :=
  ∀ c target, N.call mn c = .clearing target →
    (N.net.shared mn).header.Fits (N.net.shared mn).mappedBytes ∧
      target ≤ (N.net.shared mn).validSlots

/-- The thread of a call has been asked to evict, if it is a connection thread. -/
def Locked.Asked (N : Locked ι S α) (mn : Nat) (c : Option ι) : Prop :=
  ∀ i, c = some i → ∃ n, (N.net.link (i, mn)).server = .between n ∧ n.Evicts

/-- A section of a call that goes on. -/
theorem Locked.Asked.step {c : Option ι} {s : Evictions (Option ι)} (hasked : N.Asked mn c)
    (h : (N.node mn).Continues (thresholdPct mn) c s) :
    Locked.Step sv cap thresholdPct N (N.put mn s) := by
  cases c with
  | none => exact .thread h.1
  | some i =>
      obtain ⟨n, hn, hevicts⟩ := hasked i rfl
      exact .evict hn hevicts h

theorem Locked.Asked.run {c : Option ι} {s : Evictions (Option ι)} (hasked : N.Asked mn c)
    (h : Relation.ReflTransGen (Evictions.Continues (thresholdPct mn) c) (N.node mn) s) :
    Locked.Run sv cap thresholdPct N (N.put mn s) := by
  induction h with
  | refl =>
      rw [Locked.put_node]
      exact .refl
  | @tail s s' _ hs ih =>
      have hasked' : (N.put mn s).Asked mn c := hasked
      rw [← N.node_put mn s] at hs
      have hstep : Locked.Step sv cap thresholdPct _ _ := hasked'.step hs
      rw [Locked.put_put] at hstep
      exact ih.tail hstep

omit [DecidableEq ι] in
theorem Locked.Inv.settles_of_free (hN : N.Inv) (hfree : N.lock mn = none) : N.Settles mn :=
  fun c target hcall => absurd hcall ((hN.held mn).of_free hfree c target)

variable (sv cap thresholdPct) in
/-- Whoever holds the lock of a memory node gives it back, if there are enough valid slots. -/
theorem Locked.Inv.unlocks (hN : N.Inv) (hsettles : N.Settles mn) :
    ∃ s, Locked.Run sv cap thresholdPct N (N.put mn s) ∧ s.lock = none ∧
      Relation.ReflTransGen Evicts N.net.shared (N.put mn s).net.shared := by
  cases hlock : N.lock mn with
  | none =>
      refine ⟨N.node mn, ?_, hlock, ?_⟩
      · rw [Locked.put_node]
        exact .refl
      · rw [Locked.put_node]
  | some c =>
      obtain ⟨target, hcall⟩ := (hN.held mn c).mp hlock
      have hbusy : N.call mn c = .clearing target := hcall
      obtain ⟨hfits, hle⟩ := hsettles c target hcall
      obtain ⟨s, hturns, hfree⟩ := Evictions.exists_unlock (s := N.node mn) hfits hcall hle
      refine ⟨s, Locked.Asked.run (fun i hi => hN.asked i mn ?_) hturns, hfree,
        Locked.evicts_of_sections (hturns.lift id fun _ _ h => h.1)⟩
      rw [← hi, hbusy]
      exact nofun

variable (sv cap thresholdPct) in
/-- A connection thread that was asked to evict runs its call, while nobody holds the lock of the
memory node, and makes the last section with the step that begins its response. -/
theorem Locked.run_evict {net : Links ι Nat UInt8 Conn S (Nat → Region) α}
    {lock : Nat → Option (Option ι)} {call : Nat → Option ι → EvictCall} {x : Party UInt8 (Prog S α)}
    {n n' : Conn} (hevicts : n.Evicts) (hfree : lock mn = none) (hcall : call mn (some i) = .idle)
    (hfits : (net.shared mn).header.Fits (net.shared mn).mappedBytes) {fuel : Nat} {region : Region}
    (hends : (net.shared mn).evictIfNeeded fuel (thresholdPct mn).toNat = some region)
    {rs : Nat → Region} (hrs : rs = Function.update net.shared mn region)
    (hact : sv.act mn n rs n' rs) :
    Locked.Run sv cap thresholdPct
        ⟨(net.using i mn).put i x ⟨.between n, [], [], false, false⟩, lock, call⟩
        ⟨((net.using i mn).sharing rs).put i x ⟨.between n', [], [], false, false⟩, lock, call⟩ ∧
      Relation.ReflTransGen Evicts net.shared rs := by
  let N₁ : Locked ι S α :=
    ⟨(net.using i mn).put i x ⟨.between n, [], [], false, false⟩, lock, call⟩
  have hserver : (N₁.net.link (i, mn)).server = .between n := by
    have hlink := Links.put_link (net.using i mn) (i := i) (x := x)
      (L := ⟨.between n, [], [], false, false⟩)
    rw [Links.using_on] at hlink
    exact congrArg Link.server hlink
  have hm : (net.shared mn).Models ((net.shared mn).deployment hfits) 0 (net.shared mn).toStore :=
    Region.models_toStore rfl fun _ => rfl
  obtain ⟨s, hcontinues, hreturns⟩ := Evictions.exists_returns (s := N₁.node mn) hm hfree hcall hends
  have hasked : N₁.Asked mn (some i) := by
    intro i' hi'
    cases hi'
    exact ⟨_, hserver, hevicts⟩
  have hsections : Relation.ReflTransGen (Evictions.Section (thresholdPct mn) (some i))
      (N₁.node mn) _ := (hcontinues.lift id fun _ _ h => h.1).tail hreturns.1
  constructor
  · have hresult : (N₁.put mn s).put mn { N₁.node mn with region := region } =
        { N₁ with net := N₁.net.sharing rs } := by
      rw [Locked.put_put, Locked.put_region, hrs]
      rfl
    rw [← N₁.node_put mn s] at hreturns
    have hlast : Locked.Step sv cap thresholdPct (N₁.put mn s) _ :=
      .answer hserver hevicts hreturns (by rw [hresult]; exact hact)
    have hacted := Links.put_acted (net.using i mn) i x ⟨.between n, [], [], false, false⟩ n' rs
    rw [Links.using_on] at hacted
    rw [← hacted]
    rw [hresult] at hlast
    exact (hasked.run hcontinues).tail hlast
  · rw [hrs]
    exact Locked.evicts_of_sections (N := N₁) hsections

/-! ## A compute node by itself -/

section Alone

variable {O : OnSessions S} {env : ServerEnv} {session : ι → Nat → TcpSession}
  {h : Handler S (Nat → Region)} {c : S.Call} {k : S.Reply c → Prog S α}
  {lock : Nat → Option (Option ι)} {call : Nat → Option ι → EvictCall}

/-- A compute node waits for the response to a call, and has `k` left to do then. -/
def OnSessions.waiting (O : OnSessions S) (session : Nat → TcpSession) (c : S.Call)
    (k : S.Reply c → Prog S α) : Party UInt8 (Prog S α) :=
  .enter ((O.awaitReply session c).bind fun r => .ret (k r))

variable (thresholdPct O env session lock call)

/-- A compute node sends a request, and the thread collects it. -/
theorem Locked.exists_collect (hmalloc : ∀ n, env.malloc n = true) (hcap : 0 < cap)
    {net : Links ι Nat UInt8 Conn S (Nat → Region) α}
    (hpaused : net.Paused (sessionService O env session) Conn.Ready i (.call c k)) :
    ∃ served, Locked.Run (sessionService O env session) cap thresholdPct ⟨net, lock, call⟩
      ⟨(net.using i (O.mn c)).put i (O.waiting (session i) c k)
          ⟨.between (O.collected (session i) served c), [], [], false, false⟩, lock, call⟩ := by
  obtain ⟨n, y, hn, hpoised, hlink⟩ := hpaused.rested (O.mn c)
  cases n with
  | ready served =>
      have hblocks : (O.tcp (session i) c).Offers _ _ ∧ (tcpReceive env.malloc served).Takes _ _ :=
        sessionService_collects served hmalloc c
      obtain ⟨hoffers, htakes⟩ := hblocks
      exact ⟨served, .of_links (Links.Run.collect hcap hpaused.alive hpaused.client hlink hpoised
        hoffers rfl htakes)⟩
  | received _ _ _ => exact hn.elim
  | answering _ _ _ => exact hn.elim
  | closed => exact hn.elim

/-- The thread sends a response, and the compute node goes on with it. -/
theorem Locked.exists_answer (hcap : 0 < cap) {net : Links ι Nat UInt8 Conn S (Nat → Region) α}
    (hlive : net.Alive i) {n : Conn} {vs : List UInt8} {r : S.Reply c}
    (hreplies : (sessionService O env session).Replies Conn.Ready n vs)
    (htakes : (O.awaitReply (session i) c).Takes vs (.ret r))
    (hrested : ∀ mn, mn ≠ net.on i →
      (net.link (i, mn)).Rested (sessionService O env session) Conn.Ready) :
    ∃ net', Locked.Run (sessionService O env session) cap thresholdPct
        ⟨net.put i (O.waiting (session i) c k) ⟨.between n, [], [], false, false⟩, lock, call⟩
        ⟨net', lock, call⟩ ∧
      net'.shared = net.shared ∧
      net'.Paused (sessionService O env session) Conn.Ready i (k r) ∧ Links.Spares i net net' := by
  obtain ⟨q, n', hq, hoffers, hn'⟩ := hreplies.sends
  refine ⟨_, .of_links (Links.Run.answer hcap hlive hq hoffers htakes), rfl, ⟨?_, ?_, ?_⟩, ?_⟩
  · exact Links.put_client ..
  · exact Links.put_rested hn' hrested
  · exact ⟨hlive.client, hlive.servers⟩
  · exact fun i' hi' => Links.put_other hi'

variable {O env session lock call}

/-- A compute node makes a call on a slot, while nobody holds the lock of the memory node. -/
theorem Locked.exists_slotCall (hO : O.Does h) (hmalloc : ∀ n, env.malloc n = true) (hcap : 0 < cap)
    (hpaused : N.net.Paused (sessionService O env session) Conn.Ready i (.call c k))
    (hfree : N.lock (O.mn c) = none) (hslot : O.made c ≠ .evict) :
    ∃ net, Locked.Run (sessionService O env session) cap thresholdPct N { N with net := net } ∧
      net.shared = (h c N.net.shared).2 ∧
      net.Paused (sessionService O env session) Conn.Ready i (k (h c N.net.shared).1) ∧
      Links.Spares i N.net net := by
  obtain ⟨net, lock, call⟩ := N
  obtain ⟨served, hcollect⟩ := Locked.exists_collect thresholdPct O env session lock call hmalloc hcap
    hpaused
  obtain ⟨n', rs, hact⟩ := (O.made c).exists_act hmalloc (session i (O.mn c)) served (O.mn c)
    net.shared
  obtain ⟨hrs, vs, hreplies, htakes⟩ :=
    (sessionService_carries session hO hmalloc (session i) c).acts _ _ _ hact
  have hlive : (net.using i (O.mn c)).Alive i := ⟨hpaused.alive.client, hpaused.alive.servers⟩
  have henters : ((sessionService O env session).only fun mn n => lock mn = none ∧ ¬ n.Evicts).act
      ((net.using i (O.mn c)).on i) (O.collected (session i) served c) net.shared n' rs := by
    rw [Links.using_on]
    exact ⟨⟨hfree, fun he => hslot ((O.collected_evicts c).mp he)⟩, hact⟩
  have hsection : Links.Step _ cap (fun _ _ => False) False
      ((net.using i (O.mn c)).put i (O.waiting (session i) c k)
        ⟨.between (O.collected (session i) served c), [], [], false, false⟩) _ :=
    .put_act hlive rfl henters
  have hlive' : ((net.using i (O.mn c)).sharing rs).Alive i := ⟨hlive.client, hlive.servers⟩
  obtain ⟨net', hanswer, hshared, hpaused', hspares⟩ := Locked.exists_answer thresholdPct O env
    session lock call hcap hlive' hreplies htakes fun mn _ => hpaused.rested mn
  exact ⟨net', (hcollect.trans (Locked.Run.of_links (.single hsection))).trans hanswer,
    hshared.trans hrs, hpaused', hspares⟩

omit [DecidableEq ι] in
/-- A compute node that is between two calls is not asking for an eviction. -/
theorem Locked.Inv.idle (hN : N.Inv) {m : Prog S α}
    (hpaused : N.net.Paused (sessionService O env session) Conn.Ready i m) (mn : Nat) :
    N.call mn (some i) = .idle := by
  by_contra hbusy
  obtain ⟨n, hn, hevicts⟩ := hN.asked i mn hbusy
  obtain ⟨m, y, hm, hpoised, hlink⟩ := hpaused.rested mn
  rw [hlink] at hn
  obtain rfl | ⟨q, hq, rfl⟩ := hpoised
  · cases hn
    cases n <;> first | exact hm.elim | exact hevicts.elim
  · cases m with
    | ready served =>
        cases hq
        cases hn
    | received _ _ _ => exact hm.elim
    | answering _ _ _ => exact hm.elim
    | closed => exact hm.elim

/-- A compute node has an eviction carried out, while nobody holds the lock of the memory node. -/
theorem Locked.exists_evictCall (hO : O.Does h) (hmalloc : ∀ n, env.malloc n = true)
    (hcap : 0 < cap) (hN : N.Inv)
    (hpaused : N.net.Paused (sessionService O env session) Conn.Ready i (.call c k))
    (hfree : N.lock (O.mn c) = none) (hevict : O.made c = .evict)
    (hfits : (N.net.shared (O.mn c)).header.Fits (N.net.shared (O.mn c)).mappedBytes) {fuel : Nat}
    {region : Region} (hends : (N.net.shared (O.mn c)).evictIfNeeded fuel
      (thresholdPct (O.mn c)).toNat = some region) :
    ∃ net, Locked.Run (sessionService O env session) cap thresholdPct N { N with net := net } ∧
      net.shared = Function.update N.net.shared (O.mn c) region ∧
      Relation.ReflTransGen Evicts N.net.shared net.shared ∧
      net.Paused (sessionService O env session) Conn.Ready i (k (h c N.net.shared).1) ∧
      Links.Spares i N.net net := by
  have hidle := hN.idle hpaused (O.mn c)
  have hevicts : ∀ served, (O.collected (session i) served c).Evicts := fun _ =>
    (O.collected_evicts c).mpr hevict
  have hhandled : ∀ rs, h c rs = (O.returned c (.ok .evicted), rs) := hO.evict hevict
  obtain ⟨net, lock, call⟩ := N
  let rs := Function.update net.shared (O.mn c) region
  obtain ⟨served, hcollect⟩ := Locked.exists_collect thresholdPct O env session lock call hmalloc hcap
    hpaused
  obtain ⟨n', rs', hact⟩ := (O.made c).exists_act hmalloc (session i (O.mn c)) served (O.mn c) rs
  obtain ⟨hrs, vs, hreplies, htakes⟩ :=
    (sessionService_carries session hO hmalloc (session i) c).acts _ _ _ hact
  rw [hhandled] at hrs htakes
  subst hrs
  obtain ⟨hserved, hevicted⟩ := Locked.run_evict (sessionService O env session) cap thresholdPct
    (hevicts served) hfree hidle hfits hends rfl hact
  have hlive : ((net.using i (O.mn c)).sharing rs).Alive i :=
    ⟨hpaused.alive.client, hpaused.alive.servers⟩
  obtain ⟨net', hanswer, hshared, hpaused', hspares⟩ := Locked.exists_answer thresholdPct O env
    session lock call hcap hlive hreplies htakes fun mn _ => hpaused.rested mn
  rw [hhandled]
  refine ⟨net', (hcollect.trans hserved).trans hanswer, hshared, ?_, hpaused', hspares⟩
  rw [hshared]
  exact hevicted

/-- A compute node whose calls are all on slots makes them, one after the other, while nobody holds
a lock. -/
theorem Locked.exists_slotCalls (hO : O.Does h) (hmalloc : ∀ n, env.malloc n = true)
    (hcap : 0 < cap) {m : Prog S α} (hslots : m.Within fun c => O.made c ≠ .evict)
    (hpaused : N.net.Paused (sessionService O env session) Conn.Ready i m)
    (hfree : ∀ mn, N.lock mn = none) :
    ∃ net, Locked.Run (sessionService O env session) cap thresholdPct N { N with net := net } ∧
      net.shared = (m.run h N.net.shared).2 ∧
      net.Paused (sessionService O env session) Conn.Ready i (.ret (m.run h N.net.shared).1) ∧
      Links.Spares i N.net net := by
  induction m generalizing N with
  | ret a => exact ⟨N.net, .refl, rfl, hpaused, fun _ _ => ⟨rfl, fun _ => rfl⟩⟩
  | call c k ih =>
      obtain ⟨net, hrun, hshared, hpaused', hspares⟩ :=
        Locked.exists_slotCall thresholdPct hO hmalloc hcap hpaused (hfree _) hslots.1
      obtain ⟨net', hrun', hshared', hpaused'', hspares'⟩ :=
        ih _ (N := { N with net := net }) (hslots.2 _) hpaused' hfree
      rw [Prog.run_call, ← hshared]
      exact ⟨net', hrun.trans hrun', hshared', hpaused'', hspares.trans hspares'⟩

/-- A call of either kind, while nobody holds the lock of the memory node.  It does on the regions
what a call on a slot does, or evicts there. -/
theorem Locked.exists_call (hO : O.Does h) (hmalloc : ∀ n, env.malloc n = true) (hcap : 0 < cap)
    (hN : N.Inv) (hpaused : N.net.Paused (sessionService O env session) Conn.Ready i (.call c k))
    (hfree : N.lock (O.mn c) = none)
    (hends : O.made c = .evict →
      (N.net.shared (O.mn c)).header.Fits (N.net.shared (O.mn c)).mappedBytes ∧ ∃ fuel region,
        (N.net.shared (O.mn c)).evictIfNeeded fuel (thresholdPct (O.mn c)).toNat = some region) :
    ∃ net, Locked.Run (sessionService O env session) cap thresholdPct N { N with net := net } ∧
      net.Paused (sessionService O env session) Conn.Ready i (k (h c N.net.shared).1) ∧
      (net.shared = (h c N.net.shared).2 ∨ Relation.ReflTransGen Evicts N.net.shared net.shared) ∧
      ∀ mn ≠ O.mn c, net.shared mn = N.net.shared mn := by
  by_cases hevict : O.made c = .evict
  · obtain ⟨hfits, fuel, region, hended⟩ := hends hevict
    obtain ⟨net, hrun, hshared, hevicted, hpaused', -⟩ := Locked.exists_evictCall thresholdPct hO
      hmalloc hcap hN hpaused hfree hevict hfits hended
    refine ⟨net, hrun, hpaused', .inr hevicted, fun mn hmn => ?_⟩
    rw [hshared, Function.update_of_ne hmn]
  · obtain ⟨net, hrun, hshared, hpaused', -⟩ := Locked.exists_slotCall thresholdPct hO hmalloc hcap
      hpaused hfree hevict
    refine ⟨net, hrun, hpaused', .inl hshared, fun mn hmn => ?_⟩
    rw [hshared]
    exact hO.other c _ hmn

/-- A compute node comes to its end, if the loops under way find enough valid slots, and its own
evictions end. -/
theorem Locked.exists_end (hO : O.Does h) (hmalloc : ∀ n, env.malloc n = true) (hcap : 0 < cap)
    {I : (Nat → Region) → Prop} {Q : S.Call → Prop} (hcall : ∀ c rs, Q c → I rs → I (h c rs).2)
    (hevicts : ∀ rs rs', Relation.ReflTransGen Evicts rs rs' → I rs → I rs')
    (hends : ∀ c rs, Q c → O.made c = .evict → I rs →
      (rs (O.mn c)).header.Fits (rs (O.mn c)).mappedBytes ∧ ∃ fuel region,
        (rs (O.mn c)).evictIfNeeded fuel (thresholdPct (O.mn c)).toNat = some region)
    {m : Prog S α} (hm : m.Within Q) (hN : N.Inv)
    (hpaused : N.net.Paused (sessionService O env session) Conn.Ready i m) (hI : I N.net.shared)
    (hsettles : ∀ mn, N.Settles mn) :
    ∃ N' a, Locked.Run (sessionService O env session) cap thresholdPct N N' ∧
      N'.net.client i = .between (.ret a) := by
  induction m generalizing N with
  | ret a => exact ⟨N, a, .refl, hpaused.client⟩
  | call c k ih =>
      have hserve : ∀ n : Conn, n.Evicts → (sessionService O env session).serve n = none :=
        fun n hn => hn.waits env.malloc
      obtain ⟨s, hunlocks, hfree, hevicted⟩ :=
        hN.unlocks (sessionService O env session) cap thresholdPct (hsettles (O.mn c))
      have hN₁ := hunlocks.inv hserve hN
      have hI₁ := hevicts _ _ hevicted hI
      have hpaused₁ : (N.put (O.mn c) s).net.Paused (sessionService O env session) Conn.Ready i
          (.call c k) := ⟨hpaused.client, hpaused.rested, hpaused.alive.client, hpaused.alive.servers⟩
      have hfree₁ : (N.put (O.mn c) s).lock (O.mn c) = none := by
        rw [← hfree]
        exact Function.update_self ..
      obtain ⟨net, hrun, hpaused₂, hshared, hother⟩ := Locked.exists_call thresholdPct hO hmalloc hcap
        hN₁ hpaused₁ hfree₁ fun he => hends c _ hm.1 he hI₁
      have hN₂ := hrun.inv hserve hN₁
      have hI₂ : I net.shared := by
        obtain hdone | hevicted' := hshared
        · rw [hdone]
          exact hcall c _ hm.1 hI₁
        · exact hevicts _ _ hevicted' hI₁
      have hsettles₂ : ∀ mn, Locked.Settles { N.put (O.mn c) s with net := net } mn := by
        intro mn
        by_cases hmn : mn = O.mn c
        · rw [hmn]
          exact hN₂.settles_of_free hfree₁
        · intro c' target hcall'
          have hset := hsettles mn c' target
          simp only [Locked.put, Function.update_of_ne hmn] at hcall'
          simp only [hother mn hmn, Locked.put, Links.sharing, Function.update_of_ne hmn]
          exact hset hcall'
      obtain ⟨N', a, hrun', hclient⟩ := ih _ (hm.2 _) hN₂ hpaused₂ hI₂ hsettles₂
      exact ⟨N', a, (hunlocks.trans hrun).trans hrun', hclient⟩

end Alone

end Locked

end TeeDist
