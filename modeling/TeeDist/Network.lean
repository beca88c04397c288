import TeeDist.Locks

/-!
# Compute nodes and memory nodes over TCP

All compute nodes with all of their sessions at once, from the handshake on.

`network_refines_pool` says that the system behaves as the pools of atomic calls do which the
other modules are about.  `network_completes` says what a compute node can do by itself, the region
locks considered.  `network_at_most_once` is about sessions that fail: no call is carried out
twice, and one whose response arrives was carried out.
-/

namespace TeeDist

open Bytes Calls

/-! ## The network -/

section Network

variable {ι α : Type} {S : Signature} [DecidableEq ι]

/-- Compute nodes at work on memory nodes over TCP: `rs` are the regions, `p` what each compute
node has to do, and each thread has served some requests, the `HELLO` at least. -/
def network (rs : Nat → Region) (p : ι → Prog S α) (served : ι × Nat → Nat) :
    Links ι Nat UInt8 Conn S (Nat → Region) α :=
  .init rs p (fun _ => 0) fun q => .ready (served q)

omit [DecidableEq ι] in
theorem network_ready (served : ι × Nat → Nat) (q : ι × Nat) : Conn.Ready (.ready (served q)) :=
  trivial

/-- A compute node between two calls has its connections at rest, whatever locks are held. -/
theorem network_paused {O : OnSessions S} {h : Handler S (Nat → Region)} (hO : O.Does h)
    {env : ServerEnv} (hmalloc : ∀ n, env.malloc n = true) {session : ι → Nat → TcpSession} {cap : Nat}
    {thresholdPct : Nat → UInt64} {rs : Nat → Region} {p : ι → Prog S α} {served : ι × Nat → Nat}
    {N : Locked ι S α}
    (hr : Locked.Run (sessionService O env session) cap thresholdPct (.init (network rs p served)) N)
    {i : ι} {m : Prog S α} (hi : N.net.client i = .between m) :
    N.net.Paused (sessionService O env session) Conn.Ready i m ∧ N.Inv := by
  obtain ⟨tr, q, -, hbetween⟩ := hr.links.pool (sessionService_correct hO hmalloc)
    (network_ready served)
  refine ⟨⟨hi, (hbetween i m hi).2, hr.links.alive i⟩, hr.inv (fun n hn => ?_) (Locked.inv_init _)⟩
  exact hn.waits env.malloc

/-- A session between two calls: nothing is on its way, and the thread waits. -/
def SessionIdle (env : ServerEnv) (L : Link UInt8 Conn) : Prop :=
  L.toServer = [] ∧ L.toClient = [] ∧
    ∃ served, L.server.Poised (fun n => n.next env.malloc) (.ready served)

/-- Compute nodes that share memory nodes over TCP, the streams cutting their bytes anywhere and
the threads of all sessions and the eviction threads taking turns in any order, run as a pool of
atomic calls on the regions.  Between two calls of a compute node its sessions are idle, and it has
left to do what it has left in the pool. -/
theorem network_refines_pool (env : ServerEnv) (hmalloc : ∀ n, env.malloc n = true)
    (session : ι → Nat → TcpSession) (header : Nat → RegionHeader) (cap : Nat)
    (rs : Nat → Region) (p : ι → Prog Net α) (served : ι × Nat → Nat)
    (N : Links ι Nat UInt8 Conn Net (Nat → Region) α)
    (hr : Links.Run (tcpService env session header) cap Evicts False (network rs p served) N) :
    ∃ tr q, Run (regionHandler header) Evicts (fun _ _ => True) ⟨rs, p⟩ tr ⟨N.shared, q⟩ ∧
      ∀ i m, N.client i = .between m → q i = m ∧ ∀ mn, SessionIdle env (N.link (i, mn)) := by
  obtain ⟨tr, q, hpool, hbetween⟩ := hr.pool (tcpService_correct hmalloc) (network_ready served)
  refine ⟨tr, q, hpool, fun i m hi => ?_⟩
  obtain ⟨hq, hrested⟩ := hbetween i m hi
  refine ⟨hq, fun mn => ?_⟩
  obtain ⟨n, y, hn, hpoised, hlink⟩ := hrested mn
  rw [hlink]
  cases n with
  | ready served => exact ⟨rfl, rfl, served, hpoised⟩
  | received _ _ _ => exact hn.elim
  | answering _ _ _ => exact hn.elim
  | closed => exact hn.elim

/-- Two compute nodes that swap the same guard epoch. -/
def swaps (first : Bool) : Prog Net (Option UInt64) :=
  cas64 ⟨0, .prime, 0⟩ 0 (if first then 1 else 2)

/-- One of them wins, and the other one sees its epoch. -/
theorem network_refines_pool_swaps : ∃ tr s q,
    Run (regionHandler fun _ => RegionConfig.pair.header) Evicts (fun _ _ => True)
      ⟨fun _ => Region.create .pair, swaps⟩ tr ⟨s, q⟩ ∧
      q true = .ret (some 0) ∧ q false = .ret (some 1) := by
  let session : Bool → Nat → TcpSession := fun _ _ => ⟨false, 0⟩
  let header : Nat → RegionHeader := fun _ => RegionConfig.pair.header
  let rs : Nat → Region := fun _ => Region.create .pair
  have hstart : Locked.Run (tcpService .plentiful session header) 1 (fun _ => 80)
      (.init (network rs swaps fun _ => 1)) (.init (network rs swaps fun _ => 1)) := .refl
  obtain ⟨htrue, -⟩ := network_paused (netCalls_does header) (fun _ => rfl) hstart (i := true) rfl
  obtain ⟨net, hfirst, hshared, hdone, hspares⟩ := Locked.exists_slotCalls (fun _ => 80)
    (netCalls_does header) (fun _ => rfl) Nat.one_pos (netCalls_slots header _) htrue fun _ => rfl
  obtain ⟨hfalse, -⟩ := network_paused (netCalls_does header) (fun _ => rfl) hfirst
    (hspares false nofun).1
  obtain ⟨net', hsecond, -, hdone', hspares'⟩ := Locked.exists_slotCalls (fun _ => 80)
    (netCalls_does header) (fun _ => rfl) Nat.one_pos (netCalls_slots header _) hfalse fun _ => rfl
  obtain ⟨tr, q, hpool, hbetween⟩ := network_refines_pool .plentiful (fun _ => rfl) session header 1
    rs swaps (fun _ => 1) net' (Locked.Run.links (hfirst.trans hsecond))
  refine ⟨tr, _, q, hpool, ?_, ?_⟩
  · rw [(hbetween true _ ((hspares' true nofun).1.trans hdone.client)).1]
    exact congrArg Prog.ret (by decide +kernel)
  · rw [(hbetween false _ hdone'.client).1, hshared]
    exact congrArg Prog.ret (by decide +kernel)

/-- A compute node between two calls can go on.  If nobody holds a lock, it comes to its end while
everybody else stands still, with what its program makes of the regions when it is run there.  If
somebody does, it comes to its end if the loops under way find enough valid slots to clear. -/
theorem network_completes (env : ServerEnv) (hmalloc : ∀ n, env.malloc n = true)
    (session : ι → Nat → TcpSession) (header : Nat → RegionHeader) (cap : Nat) (hcap : 0 < cap)
    (thresholdPct : Nat → UInt64) (rs : Nat → Region) (p : ι → Prog Net α) (served : ι × Nat → Nat)
    (N : Locked ι Net α)
    (hr : Locked.Run (tcpService env session header) cap thresholdPct (.init (network rs p served)) N)
    (i : ι) (m : Prog Net α) (hi : N.net.client i = .between m) :
    ((∀ mn, N.lock mn = none) →
      ∃ net, Locked.Run (tcpService env session header) cap thresholdPct N { N with net := net } ∧
        net.shared = (m.run (regionHandler header) N.net.shared).2 ∧
        net.client i = .between (.ret (m.run (regionHandler header) N.net.shared).1) ∧
        ∀ i', i' ≠ i → net.client i' = N.net.client i') ∧
    ((∀ mn, N.Settles mn) →
      ∃ N' a, Locked.Run (tcpService env session header) cap thresholdPct N N' ∧
        N'.net.client i = .between (.ret a)) := by
  obtain ⟨hpaused, hN⟩ := network_paused (netCalls_does header) hmalloc hr hi
  have hslots := netCalls_slots header m
  constructor
  · intro hfree
    obtain ⟨net, hrun, hshared, hpaused', hspares⟩ := Locked.exists_slotCalls thresholdPct
      (netCalls_does header) hmalloc hcap hslots hpaused hfree
    exact ⟨net, hrun, hshared, hpaused'.client, fun i' hi' => (hspares i' hi').1⟩
  · intro hsettles
    exact Locked.exists_end thresholdPct (I := fun _ => True) (netCalls_does header) hmalloc hcap
      (fun _ _ _ _ => trivial) (fun _ _ _ _ => trivial) (fun c _ hc he _ => absurd he hc) hslots hN
      hpaused trivial hsettles

/-- One of two compute nodes swaps a guard epoch over streams that hold one byte: while nobody
evicts, and while the eviction thread holds the lock. -/
theorem network_completes_swap :
    (∃ net, Locked.Run (tcpService .plentiful (fun _ _ => ⟨false, 0⟩)
          fun _ => (Region.cached 2).header) 1 (fun _ => 80)
        (.init (network (fun _ => .cached 2) swaps fun _ => 1))
        { Locked.init (network (fun _ => .cached 2) swaps fun _ => 1) with net := net } ∧
      net.client true = .between (.ret (some 0)) ∧ net.client false = .between (swaps false)) ∧
    ∃ (N N' : Locked Bool Net (Option UInt64)) (a : Option UInt64), N.lock 0 = some none ∧
      Locked.Run (tcpService .plentiful (fun _ _ => ⟨false, 0⟩) fun _ => (Region.cached 2).header) 1
        (fun _ => 80) N N' ∧
      N'.net.client true = .between (.ret a) := by
  have hswap : ((swaps true).run (regionHandler fun _ => (Region.cached 2).header)
      fun _ => .cached 2).1 = some 0 := by decide +kernel
  have hbegun : ((Region.cached 2).beginEvict 80).1 = .counted 1 ∧
      ((Region.cached 2).beginEvict 80).2.header.Fits
        ((Region.cached 2).beginEvict 80).2.mappedBytes ∧
      1 ≤ ((Region.cached 2).beginEvict 80).2.validSlots := by
    unfold RegionHeader.Fits
    decide +kernel
  generalize Region.cached 2 = r at *
  generalize hbegins : r.beginEvict 80 = begun at hbegun
  obtain ⟨htarget, hregion⟩ := hbegun
  let N₀ : Locked Bool Net (Option UInt64) := .init (network (fun _ => r) swaps fun _ => 1)
  have hcompletes := fun N hr => network_completes .plentiful (fun _ => rfl)
    (fun _ _ => ⟨false, 0⟩) (fun _ => r.header) 1 Nat.one_pos (fun _ => 80) (fun _ => r) swaps
    (fun _ => 1) N hr true (swaps true)
  constructor
  · obtain ⟨net, hrun, -, hclient, hother⟩ := (hcompletes _ .refl rfl).1 fun _ => rfl
    refine ⟨net, hrun, ?_, hother false nofun⟩
    rw [hclient]
    exact congrArg (fun r => Party.between (Prog.ret r)) hswap
  · let s₁ : Evictions (Option Bool) :=
      ⟨begun.2, none, Function.update (fun _ => .idle) none begun.1⟩
    let s₂ : Evictions (Option Bool) :=
      ⟨begun.2, some none, Function.update s₁.call none (.clearing 1)⟩
    have hcounted : Evictions.Step 80 (N₀.node 0) (.count none) s₁ := by
      have hcount : Evictions.Step 80 (N₀.node 0) (.count none) _ := .count none rfl rfl
      rw [show (N₀.node 0).region.beginEvict 80 = begun from hbegins] at hcount
      exact hcount
    have htaken : Evictions.Step 80 s₁ (.lock none) s₂ := .lock none 1 rfl htarget
    have hlocked : Locked.Run (tcpService .plentiful (fun _ _ => ⟨false, 0⟩) fun _ => r.header) 1
        (fun _ => 80) N₀ (N₀.put 0 s₂) := by
      rw [← N₀.put_put 0 s₁ s₂]
      refine Relation.ReflTransGen.tail (.single (.thread ⟨_, rfl, hcounted, nofun⟩)) (.thread ?_)
      rw [Locked.node_put]
      exact ⟨_, rfl, htaken, nofun⟩
    have hsettles : ∀ mn, (N₀.put 0 s₂).Settles mn := by
      intro mn c target hcall
      have hbusy : mn = 0 ∧ target = 1 := by
        by_cases hmn : mn = 0
        · subst hmn
          cases c with
          | none =>
              cases hcall
              exact ⟨rfl, rfl⟩
          | some i => cases hcall
        · simp only [Locked.put, Function.update_of_ne hmn] at hcall
          cases hcall
      obtain ⟨rfl, rfl⟩ := hbusy
      exact hregion
    obtain ⟨N', a, hrun, hclient⟩ := (hcompletes _ hlocked rfl).2 hsettles
    exact ⟨_, N', a, rfl, hrun, hclient⟩

/-- Sessions may fail, at either end and in the middle of anything, and a send may be the end of a
whole process.  Then each call is still carried out at most once, even if its compute node has given
it up; a call that is answered was carried out, and its answer is what it was carried out with; and
nothing else changes the regions but evictions. -/
theorem network_at_most_once (env : ServerEnv) (hmalloc : ∀ n, env.malloc n = true)
    (session : ι → Nat → TcpSession) (header : Nat → RegionHeader) (cap : Nat)
    (rs : Nat → Region) (p : ι → Prog Net α) (served : ι × Nat → Nat)
    (N : Links ι Nat UInt8 Conn Net (Nat → Region) α)
    (hr : Links.Run (tcpService env session header) cap Evicts True (network rs p served) N) :
    ∃ tr R, Remote.Run (regionHandler header) Evicts (fun c => c.addr.mn) Call.failed True
        (.init rs p) tr R ∧ Remote.Once tr ∧ R.shared = N.shared ∧
      ∀ i m, N.client i = .between m → R.prog i = m := by
  obtain ⟨tr, R, hrun, hI⟩ := hr.remote (tcpService_correct hmalloc) (network_ready served)
  exact ⟨tr, R, hrun, hrun.carried_once, hI.shared, fun i m hi => (hI.between hi).1⟩

/-- A session can fail at the first system call of a call. -/
theorem tcp_lost (env : ServerEnv) (session : ι → Nat → TcpSession) (header : Nat → RegionHeader)
    (cap : Nat) {N : Links ι Nat UInt8 Conn Net (Nat → Region) α} {i : ι} {c : Call}
    {k : c.Reply → Prog Net α} (hlive : N.killed i = false)
    (hc : N.client i = .between (.call c k)) :
    ∃ N', Links.Run (tcpService env session header) cap Evicts True N N' ∧
      N'.shared = N.shared ∧ N'.client i = .between (k c.failed) := by
  have hne : ∀ m : WireMsg, m.toBytes ≠ [] := by
    intro m hnil
    have hlen := m.length_toBytes
    rw [hnil] at hlen
    cases hlen
  have hfirst : ∃ bs k', (tcpService env session header).call i c k = .call (.sendAll bs) k' ∧
      bs ≠ [] ∧ k' false = .ret (k c.failed) := by
    cases c <;> exact ⟨_, _, rfl, hne _, rfl⟩
  obtain ⟨bs, k', hcall, hbs, hfalse⟩ := hfirst
  have hask : Links.Step (tcpService env session header) cap Evicts True N _ := .ask hlive hc
  rw [hcall, Party.enter_sendAll k' hbs] at hask
  refine ⟨_, (Relation.ReflTransGen.single hask).tail (.fail (i := i) hlive trivial ?_), rfl, ?_⟩
  · simp only [Function.update_self]
    trivial
  · simp only [Function.update_self, Party.turn, hfalse]
    rfl

/-- A compute node whose first system call fails. -/
theorem network_at_most_once_failed : ∃ tr,
    ∃ R : Remote Bool Nat Net (Nat → Region) (Option UInt64),
      Remote.Run (regionHandler fun _ => RegionConfig.pair.header) Evicts (fun c => c.addr.mn)
        Call.failed True (.init (fun _ => Region.create .pair) swaps) tr R ∧
      Remote.Once tr ∧ R.prog true = .ret none := by
  obtain ⟨N, hlost, _, hclient⟩ := tcp_lost .plentiful (fun _ _ => ⟨false, 0⟩)
    (fun _ => RegionConfig.pair.header) 1
    (N := network (fun _ => Region.create .pair) swaps fun _ => 1) (i := true) rfl rfl
  obtain ⟨tr, R, hrun, honce, _, hprog⟩ := network_at_most_once .plentiful (fun _ => rfl)
    (fun _ _ => ⟨false, 0⟩) (fun _ => RegionConfig.pair.header) 1 (fun _ => Region.create .pair)
    swaps (fun _ => 1) N hlost
  exact ⟨tr, R, hrun, honce, hprog true _ hclient⟩

end Network

end TeeDist
