import TeeDist.Epochs
import TeeDist.Winners

/-!
# What operations touch

All calls of an operation are about slots that exist (`exists_readKv`, `exists_mutation`).  Without
cache they are about `PRIME` and `BACKUP` (`tables_readKv`, `tables_mutation`).  A read changes caches
alone (`harmless_readKv`).

So what a client without cache sees of the regions is what it sees of a store that agrees with them
outside the caches (`Beneath`), and neither evictions nor the reads of others change that.
-/

namespace TeeDist

open Calls

/-! ## Calls -/

/-- A call about a slot that exists. -/
def Call.Exists (cl : Cluster) (c : Call) : Prop := c.addr.idx < cl.slots c.addr.mn c.addr.kind

/-- A call about a slot outside the caches. -/
def Call.Tables (c : Call) : Prop := c.addr.kind ≠ .cache

/-- A call that changes caches alone. -/
def Call.Harmless : Call → Prop
  | .readRegion _ => True
  | .writeRegion a _ | .cas64 a _ _ => a.kind = .cache

/-- A call about a slot that exists, of a kind that the client uses. -/
def Call.Used (cl : Cluster) (c : Call) : Prop := c.Exists cl ∧ cl.Uses c.addr.kind

section Operations

variable {cl : Cluster}

theorem bears_used (cl : Cluster) : Bears (.only (Call.Used cl)) cl (fun _ _ => True) () :=
  bears_only (fun _ hkind hi => ⟨hi, hkind⟩) fun _ _ _ _ hkind hi => ⟨⟨hi, hkind⟩, ⟨hi, hkind⟩⟩

theorem used_readKv (cl : Cluster) (key : Key) : (readKv cl key).Within (Call.Used cl) :=
  (readValue_obeys (bears_used cl) (fun _ => trivial) key).only

theorem used_mutation (cl : Cluster) (m : Mutation) : (m.prog cl).Within (Call.Used cl) := by
  rw [Mutation.prog_eq]
  exact (writeValue_borne (bears_used cl) fun _ _ => trivial).only

theorem exists_readKv (cl : Cluster) (key : Key) : (readKv cl key).Within (Call.Exists cl) :=
  (used_readKv cl key).mono fun _ hc => hc.1

theorem exists_mutation (cl : Cluster) (m : Mutation) : (m.prog cl).Within (Call.Exists cl) :=
  (used_mutation cl m).mono fun _ hc => hc.1

/-- A call that a client without cache uses is outside the caches. -/
theorem Call.Used.tables (hoff : cl.cacheOn = false) {c : Call} (hc : c.Used cl) : c.Tables := by
  intro hkind
  rw [hc.2 hkind] at hoff
  cases hoff

/-- A mutation by a client without cache. -/
theorem tables_mutation (hoff : cl.cacheOn = false) (m : Mutation) :
    (m.prog cl).Within Call.Tables := (used_mutation cl m).mono fun _ hc => hc.tables hoff

/-- A read by a client without cache. -/
theorem tables_readKv (hoff : cl.cacheOn = false) (key : Key) :
    (readKv cl key).Within Call.Tables := (used_readKv cl key).mono fun _ hc => hc.tables hoff

theorem refresh_off (hoff : cl.cacheOn = false) (key : Key) (slot : Slot) :
    refreshCacheBestEffort cl key slot = .ret () := by
  simp [refreshCacheBestEffort, hoff]

/-- A read changes caches alone. -/
theorem harmless_readKv (cl : Cluster) (key : Key) : (readKv cl key).Within Call.Harmless := by
  have hb : Bears (.only Call.Harmless) cl (fun kind _ => kind = .cache) () :=
    bears_only (fun _ _ _ => trivial) fun _ _ _ hkind _ _ => ⟨hkind, hkind⟩
  exact (readValue_obeys hb (fun _ => rfl) key).only

end Operations

/-! ## Regions beneath a store -/

/-- A program whose slots exist, on regions and on the store they model. -/
theorem Models.run {d : Deployment} {α : Type} {p : Prog Net α}
    (hp : p.Within (Call.Exists d.toCluster)) {rs : Nat → Region} {st : Store} (hm : Models d rs st) :
    (p.run (regionHandler d.header) rs).1 = (p.run storeHandler st).1 ∧
      Models d (p.run (regionHandler d.header) rs).2 (p.run storeHandler st).2 := by
  induction p generalizing rs st with
  | ret a => exact ⟨rfl, hm⟩
  | call c k ih =>
      obtain ⟨hreply, hm'⟩ := hm.call c hp.1
      simp only [Prog.run_call, hreply]
      exact ih _ (hp.2 _) hm'

/-- Operations change regions as they change the store. -/
theorem Models.op {d : Deployment} {rs : Nat → Region} {st : Store} (hm : Models d rs st)
    (cacheOn : Bool) (o : Op) : ∃ rs', Models d rs' (Turn.apply d (.op cacheOn o) st) := by
  cases o with
  | read key =>
      have hp : (readKv (d.client cacheOn).toCluster key).Within (Call.Exists d.toCluster) :=
        exists_readKv (d.client cacheOn).toCluster key
      exact ⟨_, (hm.run hp).2⟩
  | mutate m =>
      have hp : (m.prog (d.client cacheOn).toCluster).Within (Call.Exists d.toCluster) :=
        exists_mutation (d.client cacheOn).toCluster m
      exact ⟨_, (hm.run hp).2⟩

/-- The regions agree with the store outside the caches. -/
def Beneath (d : Deployment) (rs : Nat → Region) (st : Store) : Prop :=
  ∃ st', Models d rs st' ∧ st.SameTables st'

section Beneath

variable {d : Deployment} {rs : Nat → Region} {st : Store}

theorem Store.SameTables.slot {st' : Store} (h : st.SameTables st') {a : Addr}
    (ha : a.kind ≠ .cache) : st'.slot a = st.slot a := congrFun (h a.mn a.kind ha) a.idx

theorem Store.SameTables.setSlot {st' : Store} (h : st.SameTables st') (a : Addr) (s : Slot) :
    (st.setSlot a s).SameTables (st'.setSlot a s) :=
  fun mn kind hk => Store.table_setSlot_congr (h mn kind hk) a s

/-- Calls outside the caches. -/
theorem Store.SameTables.call {st' : Store} (h : st.SameTables st') {c : Call} (hc : c.Tables) :
    (storeHandler c st').1 = (storeHandler c st).1 ∧
      (storeHandler c st).2.SameTables (storeHandler c st').2 := by
  cases c with
  | readRegion a => exact ⟨congrArg some (h.slot hc), h⟩
  | writeRegion a body =>
      refine ⟨rfl, ?_⟩
      simp only [storeHandler, h.slot (a := a) hc]
      exact h.setSlot a _
  | cas64 a compare swap =>
      simp only [storeHandler, h.slot (a := a) hc, true_and]
      split
      · exact h.setSlot a _
      · exact h

/-- Harmless calls. -/
theorem Call.Harmless.sameTables {c : Call} (hc : c.Harmless) (st : Store) :
    st.SameTables (storeHandler c st).2 := by
  cases c with
  | readRegion a => exact fun _ _ _ => rfl
  | writeRegion a body => exact st.setSlot_cache_sameTables hc _
  | cas64 a compare swap =>
      simp only [storeHandler]
      split
      · exact st.setSlot_cache_sameTables hc _
      · exact fun _ _ _ => rfl

theorem Store.SameTables.trans {st' st'' : Store} (h : st.SameTables st') (h' : st'.SameTables st'') :
    st.SameTables st'' := fun mn kind hk => (h' mn kind hk).trans (h mn kind hk)

/-- What a call outside the caches does to the regions it does to the store. -/
theorem Beneath.call (hb : Beneath d rs st) {c : Call} (hc : c.Exists d.toCluster ∧ c.Tables) :
    (regionHandler d.header c rs).1 = (storeHandler c st).1 ∧
      Beneath d (regionHandler d.header c rs).2 (storeHandler c st).2 := by
  obtain ⟨st', hm, hsame⟩ := hb
  obtain ⟨hreply, hm'⟩ := hm.call c hc.1
  obtain ⟨hreply', hsame'⟩ := hsame.call hc.2
  exact ⟨hreply.trans hreply', _, hm', hsame'⟩

theorem Beneath.harmless (hb : Beneath d rs st) {c : Call}
    (hc : c.Exists d.toCluster ∧ c.Harmless) : Beneath d (regionHandler d.header c rs).2 st := by
  obtain ⟨st', hm, hsame⟩ := hb
  exact ⟨_, (hm.call c hc.1).2, hsame.trans (hc.2.sameTables st')⟩

theorem Beneath.evicts (hb : Beneath d rs st) {rs' : Nat → Region} (he : Evicts rs rs') :
    Beneath d rs' st := by
  obtain ⟨st', hm, hsame⟩ := hb
  obtain ⟨st'', he', hm'⟩ := hm.evicts he
  exact ⟨st'', hm', hsame.trans (he'.sameTables)⟩

end Beneath

end TeeDist
