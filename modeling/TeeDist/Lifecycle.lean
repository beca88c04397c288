import TeeDist.KeyMaterial
import TeeDist.Lib.Ledger
import TeeDist.Lib.Views
import TeeDist.Wire

/-!
# Connecting and closing

`td_cluster_init` and `td_cluster_close` with the sessions of both transports, as programs over the
calls that give and take objects: sockets, memory, addresses, and the objects of the verbs library.
Every call may fail.  A call names every object that it uses; an object that is made may need some
of these as long as it is there, as a memory region its buffer and its protection domain.

The contract `holding` keeps a ledger of the objects.  It permits a program to use those that are
there, and to release those that are there and that no other one needs.  The programs keep it
whatever fails, and leave nothing behind: not when a connection fails, at any point, and not after
`td_cluster_close` (`cluster_lifecycle`).
-/

namespace TeeDist

open Calls Objects Prog CText

/-! ## Objects -/

/-- The pointers of `td_rdma_impl_t`, and the queue pair that `id->qp` points to. -/
inductive RdmaField where
  | sendMr
  | recvMr
  | opMr
  | casMr
  | qp
  | cq
  | pd
  | id
  | ec
  | sendMsg
  | recvMsg
  | opBuf
  | casBuf
deriving DecidableEq

/-- What is acquired and has to be released. -/
inductive Resource where
  /-- The result of `getaddrinfo` or `rdma_getaddrinfo`. -/
  | addrInfo
  | socket
  /-- A `td_tcp_impl_t` or `td_rdma_impl_t`. -/
  | impl
  /-- An event of the connection manager. -/
  | event
  | rdma (f : RdmaField)
deriving DecidableEq

/-- What a pointer that is not null points to. -/
abbrev Object : Type := Resource × Nat

/-- A pointer, or a file descriptor, as an argument of a call. -/
abbrev Pointer : Type := Resource × Option Nat

/-- Calls that may fail and make no object. -/
inductive Attempt where
  | connect
  | control (op : WireOp)
  | disconnect
  | resolveAddr
  | resolveRoute
  | rdmaConnect
  | postRecv
  /-- Whether the event is the one that is waited for. -/
  | expected
deriving DecidableEq

/-- The calls, with the pointers that they use. -/
inductive SysCall where
  /-- An object is made.  It needs those of the first list as long as it is there. -/
  | acquire (r : Resource) (needs uses : List Pointer)
  | release (r : Resource) (h : Nat) (uses : List Pointer)
  /-- The length of the list of addresses. -/
  | addresses (h : Nat)
  | attempt (a : Attempt) (uses : List Pointer)
  /-- Send `TD_WIRE_HELLO` and wait for the response. -/
  | hello (uses : List Pointer)

/-- The calls with their replies. -/
def System : Signature where
  Call := SysCall
  Reply
    | .acquire _ _ _ => Option Nat
    | .release _ _ _ => Unit
    | .addresses _ => Nat
    | .attempt _ _ => Bool
    | .hello _ => Option WireMsg

def acquire (r : Resource) (needs uses : List Pointer) : Prog System (Option Nat) :=
  .call (S := System) (.acquire r needs uses) .ret

def release (r : Resource) (h : Nat) (uses : List Pointer) : Prog System Unit :=
  .call (S := System) (.release r h uses) .ret

def addresses (h : Nat) : Prog System Nat := .call (S := System) (.addresses h) .ret

def attempt (a : Attempt) (uses : List Pointer) : Prog System Bool :=
  .call (S := System) (.attempt a uses) .ret

def hello (uses : List Pointer) : Prog System (Option WireMsg) :=
  .call (S := System) (.hello uses) .ret

/-- Objects that are released one after the other. -/
def releaseAll : List (Object × List Pointer) → Prog System Unit
  | [] => return ()
  | ((r, h), uses) :: rest => do
      release r h uses
      releaseAll rest

/-! ## Sessions -/

/-- Why a session could not be set up. -/
inductive ConnectError where
  | key (text : String)
  | resolve (e : Endpoint)
  | connect (e : Endpoint)
  | memory
  | tcpHello (e : Endpoint)
  | rdmaResolve (e : Endpoint)
  | rdmaId
  | rdmaEvent
  | rdmaSetup (text : String)
  | rdmaHello

/-- `td_rdma_impl_t`: the pointers. -/
abbrev RdmaImpl : Type := RdmaField → Option Nat

/-- Some of the pointers. -/
def RdmaImpl.pointers (impl : RdmaImpl) (fs : List RdmaField) : List Pointer :=
  fs.map fun f => (.rdma f, impl f)

/-- What the object of a field needs as long as it is there: a queue pair its id, and the domain and
the completion queue it was made with, a region its domain and its buffer, and an id its channel. -/
def RdmaField.needs : RdmaField → List RdmaField
  | .id => [.ec]
  | .qp => [.id, .pd, .cq]
  | .sendMr => [.pd, .sendMsg]
  | .recvMr => [.pd, .recvMsg]
  | .opMr => [.pd, .opBuf]
  | .casMr => [.pd, .casBuf]
  | _ => []

/-- What is used besides to make it: `impl->id->verbs`. -/
def RdmaField.uses : RdmaField → List RdmaField
  | .pd => [.id]
  | .cq => [.id]
  | _ => []

/-- What is used to release it: `rdma_destroy_qp` is given the id. -/
def RdmaField.frees : RdmaField → List RdmaField
  | .qp => [.id]
  | _ => []

/-- The fields, in the order of `td_rdma_destroy_impl`. -/
def RdmaField.all : List RdmaField :=
  [.sendMr, .recvMr, .opMr, .casMr, .qp, .cq, .pd, .id, .ec, .sendMsg, .recvMsg, .opBuf, .casBuf]

/-- What `td_rdma_destroy_impl` releases: the pointers that are not null. -/
def RdmaImpl.handles (impl : RdmaImpl) (self : Nat) (fs : List RdmaField) :
    List (Object × List Pointer) :=
  fs.filterMap fun f =>
    (impl f).map fun h => ((.rdma f, h), (.impl, some self) :: impl.pointers f.frees)

/-- `td_rdma_destroy_impl` and `free(impl)`. -/
def RdmaImpl.releases (impl : RdmaImpl) (self : Nat) : List (Object × List Pointer) :=
  impl.handles self RdmaField.all ++ [((.impl, self), [])]

/-- What sending a message and waiting for the response use. -/
def RdmaImpl.exchange (impl : RdmaImpl) (self : Nat) : List Pointer :=
  (.impl, some self) :: impl.pointers [.id, .qp, .cq, .sendMsg, .sendMr, .recvMsg, .recvMr]

/-- A session that is connected: `impl` with what it points to, and the response to `HELLO`. -/
inductive Session where
  | tcp (fd impl : Nat) (response : WireMsg)
  | rdma (fields : RdmaImpl) (impl : Nat) (response : WireMsg)

/-- `session->header`. -/
def Session.header : Session → RegionHeader
  | .tcp _ _ response => response.header
  | .rdma _ _ response => response.header

/-- The end of `td_tcp_client_connect`: `HELLO`. -/
def tcpGreet (e : Endpoint) (fd impl : Nat) : Prog System (Except ConnectError Session) := do
  match ← hello [(.socket, some fd)] with
  | none =>
      releaseAll [((.socket, fd), []), ((.impl, impl), [])]
      return .error (.tcpHello e)
  | some response =>
      if response.status ≠ 0 then
        releaseAll [((.socket, fd), []), ((.impl, impl), [])]
        return .error (.tcpHello e)
      else return .ok (.tcp fd impl response)

/-- A call that fills a field. -/
def acquireField (impl : RdmaImpl) (self : Nat) (f : RdmaField) : Prog System RdmaImpl := do
  let h ← acquire (.rdma f) (impl.pointers f.needs) ((.impl, some self) :: impl.pointers f.uses)
  return Function.update impl f h

def acquireFields (self : Nat) : List RdmaField → RdmaImpl → Prog System RdmaImpl
  | [], impl => return impl
  | f :: fs, impl => do
      let impl ← acquireField impl self f
      acquireFields self fs impl

/-- The stages of `td_rdma_setup_qp`: fields that are filled before the next check, and the error of
the check. -/
def setupStages : List (List RdmaField × String) :=
  [([.pd, .cq], "rdma alloc pd/cq failed"), ([.qp], "rdma create qp failed"),
    ([.sendMsg, .recvMsg, .opBuf, .casBuf], "rdma buffer allocation failed"),
    ([.sendMr, .recvMr, .opMr, .casMr], "rdma mr registration failed")]

/-- `td_rdma_setup_qp`, from a stage on: the fields, and the error if there is one. -/
def setupFrom (self : Nat) :
    List (List RdmaField × String) → RdmaImpl → Prog System (RdmaImpl × Option String)
  | [], impl => return (impl, none)
  | (fs, text) :: rest, impl => do
      let impl ← acquireFields self fs impl
      if fs.all fun f => (impl f).isSome then setupFrom self rest impl else return (impl, some text)

/-- `td_rdma_setup_qp` and `td_rdma_post_recv` after it. -/
def rdmaSetup (impl : RdmaImpl) (self : Nat) : Prog System (RdmaImpl × Option String) := do
  match ← setupFrom self setupStages impl with
  | (impl, some text) => return (impl, some text)
  | (impl, none) =>
      if ← attempt .postRecv
          ((.impl, some self) :: impl.pointers [.id, .qp, .recvMsg, .recvMr]) then
        return (impl, none)
      else return (impl, some "rdma post recv failed")

/-- `td_rdma_wait_event`, and `rdma_ack_cm_event` of the event that came.  An event needs its channel
and its id. -/
def rdmaWaitEvent (impl : RdmaImpl) (self : Nat) : Prog System Bool := do
  match ← acquire .event (impl.pointers [.id, .ec]) [(.impl, some self)] with
  | none => return false
  | some event =>
      let expected ← attempt .expected [(.event, some event)]
      release .event event []
      return expected

/-- A call to the connection manager and the event it leads to. -/
def rdmaManage (a : Attempt) (impl : RdmaImpl) (self : Nat) (uses : List Pointer) :
    Prog System Bool := do
  if ← attempt a ((.impl, some self) :: uses) then rdmaWaitEvent impl self else return false

/-- The address and the route are resolved. -/
def rdmaResolve (impl : RdmaImpl) (self res : Nat) : Prog System Bool := do
  if ← rdmaManage .resolveAddr impl self (impl.pointers [.id] ++ [(.addrInfo, some res)]) then
    rdmaManage .resolveRoute impl self (impl.pointers [.id])
  else return false

/-- What `td_tcp_client_close` and `td_rdma_client_close` release. -/
def Session.releases : Session → List (Object × List Pointer)
  | .tcp fd impl _ => [((.socket, fd), [(.impl, some impl)]), ((.impl, impl), [])]
  | .rdma fields impl _ => fields.releases impl

/-- `td_tcp_client_close` and `td_rdma_client_close`. -/
def Session.close : Session → Prog System Unit
  | .tcp fd impl response => do
      let _ ← attempt (.control .close) [(.impl, some impl), (.socket, some fd)]
      releaseAll (Session.tcp fd impl response).releases
  | .rdma fields impl response => do
      let _ ← attempt (.control .close) (fields.exchange impl)
      if (fields .id).isSome then
        let _ ← attempt .disconnect ((.impl, some impl) :: fields.pointers [.id])
        releaseAll (Session.rdma fields impl response).releases
      else releaseAll (Session.rdma fields impl response).releases


/-! ## The cluster -/

/-- A pointer is not null, and what it points to is there. -/
def Pointer.Valid (live : Ledger Object) (p : Pointer) : Prop :=
  ∃ h, p.2 = some h ∧ live.There (p.1, h)

/-- What pointers point to. -/
def objects (ps : List Pointer) : List Object := ps.filterMap fun p => p.2.map (p.1, ·)

/-- Only what is there is used and released, and nothing is released that another object needs.
What is acquired was not there before. -/
def holding : Contract System (Ledger Object) where
  may
    | live, .acquire _ needs uses => ∀ p ∈ needs ++ uses, p.Valid live
    | live, .release r h uses =>
        live.There (r, h) ∧ live.Loose (r, h) ∧ ∀ p ∈ uses, p.Valid live
    | live, .addresses h => live.There (.addrInfo, h)
    | live, .attempt _ uses => ∀ p ∈ uses, p.Valid live
    | live, .hello uses => ∀ p ∈ uses, p.Valid live
  hears
    | live, .acquire _ _ _, none, live' => live' = live
    | live, .acquire r needs _, some h, live' => live.Adds (r, h) (objects needs) live'
    | live, .release r h _, _, live' => live.Drops (r, h) live'
    | live, .addresses _, _, live' => live' = live
    | live, .attempt _ _, _, live' => live' = live
    | live, .hello _, _, live' => live' = live

section Rules

variable {α : Type} {live live' : Ledger Object} {post : α → Ledger Object → Prop} {r : Resource}
  {h : Nat} {needs uses : List Pointer} {l : List Object}

/-- An object that may be made can be made. -/
theorem holding_acquires (hmay : holding.may live (.acquire r needs uses))
    (hnew : ¬ live.There (r, h)) :
    ∃ live', holding.hears live (.acquire r needs uses) (some h) live' := by
  refine Ledger.exists_adds hnew fun y hy => ?_
  obtain ⟨p, hp, hpy⟩ := List.mem_filterMap.mp hy
  obtain ⟨h', hh, hthere⟩ := hmay p (List.mem_append_left _ hp)
  rw [hh, Option.map_some, Option.some.injEq] at hpy
  rw [← hpy]
  exact hthere

/-- An object that may be released can be released. -/
theorem holding_releases (hmay : holding.may live (.release r h uses)) :
    ∃ live', holding.hears live (.release r h uses) () live' := Ledger.exists_drops hmay.2.1

end Rules

/-! ## Connecting over TCP -/

section Connect

variable {live live' : Ledger Object} {l : List Object}

/-- What a connection has that is being set up. -/
def RdmaImpl.held (impl : RdmaImpl) (self : Nat) : List Object :=
  (impl.releases self).map Prod.fst

/-- The fields that are not null. -/
def RdmaImpl.filled (impl : RdmaImpl) (fs : List RdmaField) : List Object :=
  fs.filterMap fun f => (impl f).map fun h => (.rdma f, h)

variable {impl impl' : RdmaImpl} {self : Nat} {f : RdmaField}

theorem held_eq (impl : RdmaImpl) (self : Nat) :
    impl.held self = impl.filled RdmaField.all ++ [(.impl, self)] := by
  simp [RdmaImpl.held, RdmaImpl.releases, RdmaImpl.handles, RdmaImpl.filled, List.map_filterMap,
    Function.comp_def]

theorem mem_filled {fs : List RdmaField} {x : Object} :
    x ∈ impl.filled fs ↔ ∃ f ∈ fs, ∃ h, impl f = some h ∧ (.rdma f, h) = x := by
  simp only [RdmaImpl.filled, List.mem_filterMap, Option.map_eq_some_iff]

theorem RdmaField.mem_all (f : RdmaField) : f ∈ RdmaField.all := by
  cases f <;> decide

theorem RdmaField.all_nodup : RdmaField.all.Nodup := by
  decide

/-- A field comes before those its object needs. -/
theorem RdmaField.all_order : RdmaField.all.Pairwise fun f g => f ∉ g.needs := by
  decide

/-- What the object of a field needs comes after it. -/
theorem RdmaField.mem_after {f g : RdmaField} {before after : List RdmaField}
    (hall : RdmaField.all = before ++ f :: after) (hg : g ∈ f.needs) : g ∈ after := by
  have hself : f ∉ f.needs := by cases f <;> decide
  have horder := RdmaField.all_order
  have hmem := g.mem_all
  rw [hall] at horder hmem
  rcases List.mem_append.mp hmem with hbefore | hmem
  · exact absurd hg ((List.pairwise_append.mp horder).2.2 g hbefore f List.mem_cons_self)
  · exact (List.mem_cons.mp hmem).resolve_left fun he => hself (he ▸ hg)

/-- What the objects of the fields need is in fields that are not null. -/
def RdmaImpl.Wired (impl : RdmaImpl) : Prop :=
  ∀ f, (impl f).isSome = true → ∀ g ∈ f.needs, (impl g).isSome = true

/-- A connection that is being set up owns what its fields point to. -/
structure Built (impl : RdmaImpl) (ptr : Nat) (live live' : Ledger Object) : Prop where
  owns : Owns (impl.held ptr) live live'
  wired : impl.Wired

theorem Built.there (hb : Built impl self live live') {h : Nat} (hh : impl f = some h) :
    live'.There (.rdma f, h) := by
  refine hb.owns.there _ ?_
  rw [held_eq]
  exact List.mem_append_left _ (mem_filled.mpr ⟨f, f.mem_all, h, hh, rfl⟩)

/-- Fields that are not null point to what is there. -/
theorem Built.valid (hb : Built impl self live live') {fs : List RdmaField}
    (hfs : ∀ f ∈ fs, (impl f).isSome = true) : ∀ p ∈ impl.pointers fs, p.Valid live' := by
  intro p hp
  obtain ⟨f, hf, rfl⟩ := List.mem_map.mp hp
  obtain ⟨h, hh⟩ := Option.isSome_iff_exists.mp (hfs f hf)
  exact ⟨h, hh, hb.there hh⟩

/-- Nothing is filled yet. -/
theorem Built.start (hadds : live.Adds (.impl, self) [] live') :
    Built (fun _ => none) self live live' where
  owns := by
    have hheld : RdmaImpl.held (fun _ => none) self = [(.impl, self)] := rfl
    rw [hheld]
    exact Owns.single hadds
  wired _ hf := by cases hf

/-- A null field is filled with an object that was made from others. -/
theorem Built.fill (hb : Built impl self live live') (hf : impl f = none)
    (hneeds : ∀ g ∈ f.needs, (impl g).isSome = true) {h : Nat} {final : Ledger Object}
    (hadds : live'.Adds (.rdma f, h) (objects (impl.pointers f.needs)) final) :
    Built (Function.update impl f (some h)) self live final := by
  have hother : ∀ g, (impl g).isSome = true → Function.update impl f (some h) g = impl g := by
    intro g hg
    refine Function.update_of_ne ?_ ..
    rintro rfl
    rw [hf] at hg
    cases hg
  obtain ⟨before, after, hall⟩ := List.append_of_mem f.mem_all
  have hsame : ∀ fs, f ∉ fs → RdmaImpl.filled (Function.update impl f (some h)) fs = impl.filled fs :=
    fun fs hfs => List.filterMap_congr fun g hg => by
      have hne : g ≠ f := fun he => hfs (he ▸ hg)
      rw [Function.update_of_ne hne]
  have hnodup : (before ++ f :: after).Nodup := hall ▸ RdmaField.all_nodup
  obtain ⟨hnew, _⟩ := List.nodup_cons.mp (List.nodup_middle.mp hnodup)
  rw [List.mem_append, not_or] at hnew
  have hwas : impl.held self = impl.filled before ++ (impl.filled after ++ [(.impl, self)]) := by
    simp [held_eq, hall, RdmaImpl.filled, hf]
  have his : RdmaImpl.held (Function.update impl f (some h)) self =
      impl.filled before ++ (.rdma f, h) :: (impl.filled after ++ [(.impl, self)]) := by
    rw [held_eq, hall, RdmaImpl.filled, List.filterMap_append, List.filterMap_cons,
      Function.update_self]
    simp only [Option.map_some, List.append_assoc, List.cons_append]
    rw [← hsame before hnew.1, ← hsame after hnew.2]
    rfl
  have howns := hb.owns
  rw [hwas] at howns
  refine ⟨?_, fun g hg => ?_⟩
  · rw [his]
    refine howns.insert hadds fun y hy => List.mem_append_left _ ?_
    obtain ⟨p, hp, hpy⟩ := List.mem_filterMap.mp hy
    obtain ⟨g, hg, rfl⟩ := List.mem_map.mp hp
    obtain ⟨h', hh', rfl⟩ := Option.map_eq_some_iff.mp hpy
    exact mem_filled.mpr ⟨g, RdmaField.mem_after hall hg, h', hh', rfl⟩
  · have hfilled : ∀ g' ∈ g.needs, (impl g').isSome = true := by
      by_cases hgf : g = f
      · subst hgf
        exact hneeds
      · rw [Function.update_of_ne hgf] at hg
        exact hb.wired g hg
    intro g' hg'
    rw [hother g' (hfilled g' hg')]
    exact hfilled g' hg'

end Connect

end TeeDist
