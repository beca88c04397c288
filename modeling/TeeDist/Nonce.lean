import TeeDist.Commits

/-!
# Initialisation vectors

The initialisation vector of a slot is a digest of the key and the epoch.  Two
different plaintexts share one exactly when a key is committed twice at one epoch.
The epoch comes from whatever slot the probe chose, and this does happen: a key
whose tombstone was taken over restarts in an empty slot (`nonce_reused`).  In
histories whose turns keep epochs it does not (`nonces_unique`).
-/

namespace TeeDist

open Calls Bytes

/-- The slot `td_crypto_make_slot` builds in a turn, if the turn gets that far. -/
def Turn.built (d : Deployment) (st : Store) : Turn → Option Commit
  | .op _ (.mutate m) =>
      match st.probe d.toCluster (d.primarySession (hash64String m.key)) .prime
        (hash64String m.key) with
      | .error _ => none
      | .ok pr =>
          if updateRefuses m.updateOnly (hash64String m.key) pr then none
          else (makeSlot d.ssl d.crypto m.key m.value (proposalFlags m.tombstone)
            (pr.candidateSlot.guardEpoch + 1)).map (Commit.mk m)
  | _ => none

/-- The slots built in a history. -/
def Deployment.builds (d : Deployment) : List Turn → List Commit
  | [] => []
  | t :: ts => (t.built d (d.after ts)).toList ++ d.builds ts

/-- The turns of one client that performs mutations one after another. -/
def clientTurns (cacheOn : Bool) (ms : List Mutation) : List Turn :=
  ms.map fun m => .op cacheOn (.mutate m)

theorem clientTurns_cons (cacheOn : Bool) (m : Mutation) (ms : List Mutation) :
    clientTurns cacheOn (m :: ms) = .op cacheOn (.mutate m) :: clientTurns cacheOn ms := rfl

/-- A mutation that succeeds commits the slot it built. -/
theorem Turn.built_of_ok {d : Deployment} {st : Store} {cacheOn : Bool} {m : Mutation} {rule : Nat}
    (hok : ((m.prog (d.client cacheOn).toCluster).run storeHandler st).1 = .ok rule) :
    (Turn.op cacheOn (.mutate m)).built d st = (Turn.op cacheOn (.mutate m)).commit d st := by
  have hw := st.written (d.client cacheOn).toCluster m.key m.value m.updateOnly m.tombstone
  simp only [Turn.built, Turn.commit]
  rw [Mutation.run_prog] at hok ⊢
  generalize st.write (d.client cacheOn).toCluster m.key m.value m.updateOnly m.tombstone = res
    at hw hok
  cases hw with
  | probe _ => cases hok
  | refused _ _ => cases hok
  | long _ _ => cases hok
  | backup _ _ _ _ => cases hok
  | @done pr st' hp hu hlen hrep =>
      have hp' : st.probe d.toCluster (d.primarySession (hash64String m.key)) .prime
          (hash64String m.key) = .ok pr := hp
      rw [hp']
      simp only [hu, makeSlot, if_neg (Nat.not_lt.mpr hlen)]
      rfl

/-- A mutation of a client succeeds after others. -/
def Succeeds (d : Deployment) (cacheOn : Bool) (ms : List Mutation) (m : Mutation) : Prop :=
  ((m.prog (d.client cacheOn).toCluster).run storeHandler (d.after (clientTurns cacheOn ms))).1.isOk =
    true

instance (d : Deployment) (cacheOn : Bool) (ms : List Mutation) (m : Mutation) :
    Decidable (Succeeds d cacheOn ms m) :=
  inferInstanceAs (Decidable (_ = true))

/-- If all mutations succeed, the slots built are the slots committed. -/
theorem builds_eq_commits (d : Deployment) (cacheOn : Bool) :
    ∀ ms : List Mutation, Throughout (Succeeds d cacheOn) ms →
      d.builds (clientTurns cacheOn ms) = d.commits (clientTurns cacheOn ms)
  | [], _ => rfl
  | m :: ms, hok => by
      have ih := builds_eq_commits d cacheOn ms hok.2
      have hhead := hok.1
      unfold Succeeds at hhead
      cases h : ((m.prog (d.client cacheOn).toCluster).run storeHandler
          (d.after (clientTurns cacheOn ms))).1 with
      | error e =>
          rw [h] at hhead
          cases hhead
      | ok rule =>
          rw [clientTurns_cons, Deployment.builds, Deployment.commits, Turn.built_of_ok h, ih]

/-- The slot of a commit is built from its mutation. -/
theorem commit_slot (d : Deployment) :
    ∀ {ts : List Turn} {c : Commit}, c ∈ d.commits ts →
      c.slot.keyHash = hash64String c.mutation.key ∧
      c.slot.iv = slotIv d.ssl c.mutation.key c.slot.visibleEpoch
  | t :: ts, c, hc => by
      rcases List.mem_append.mp hc with hc | hc
      · rcases t.prime_cases d (d.after ts) with ⟨hnone, _⟩ | ⟨_, m, pr, _, _, hsome, _⟩
        · rw [hnone] at hc
          cases hc
        · rw [hsome] at hc
          obtain rfl := List.mem_singleton.mp hc
          exact ⟨rfl, rfl⟩
      · exact commit_slot d hc

/-- The digest, cut to the length of an initialisation vector, tells the inputs of a log
apart. -/
def IvInjective (ssl : Openssl) (log : List Commit) : Prop :=
  ∀ c ∈ log, ∀ c' ∈ log,
    slotIv ssl c.mutation.key c.slot.visibleEpoch =
      slotIv ssl c'.mutation.key c'.slot.visibleEpoch →
    c.mutation.key ++ ofUInt64 c.slot.visibleEpoch =
      c'.mutation.key ++ ofUInt64 c'.slot.visibleEpoch

instance (ssl : Openssl) (log : List Commit) : Decidable (IvInjective ssl log) :=
  inferInstanceAs (Decidable (∀ c ∈ log, ∀ c' ∈ log, _ → _))

/-- No two slots of a log built for different plaintexts have the same initialisation
vector. -/
def NoncesUnique (log : List Commit) : Prop :=
  ∀ b ∈ log, ∀ b' ∈ log, b.mutation.value ≠ b'.mutation.value → b.slot.iv ≠ b'.slot.iv

instance (log : List Commit) : Decidable (NoncesUnique log) :=
  inferInstanceAs (Decidable (∀ b ∈ log, ∀ b' ∈ log, _ → _))

/-- Nonce uniqueness, in runs of successful mutations by one client all of which keep
epochs. -/
theorem nonces_unique (d : Deployment) (cacheOn : Bool) (ms : List Mutation)
    (hok : Throughout (Succeeds d cacheOn) ms)
    (hsha : IvInjective d.ssl (d.builds (clientTurns cacheOn ms)))
    (hwrap : Throughout (NoWrap d) (clientTurns cacheOn ms))
    (hkeep : Throughout (KeepsEpochs d) (clientTurns cacheOn ms)) :
    NoncesUnique (d.builds (clientTurns cacheOn ms)) := by
  rw [builds_eq_commits d cacheOn ms hok] at hsha ⊢
  intro b hb b' hb' hvalue hiv
  obtain ⟨hk, hbiv⟩ := commit_slot d hb
  obtain ⟨hk', hbiv'⟩ := commit_slot d hb'
  rw [hbiv, hbiv'] at hiv
  obtain ⟨hkey, hepoch⟩ := List.append_inj' (hsha b hb b' hb' hiv) (by simp)
  have heq := commit_unique d hkeep hwrap hb hb' (by rw [hk, hk', hkey]) (ofUInt64_inj hepoch)
  exact hvalue (by rw [heq])

/-- Overwriting a value gives the new plaintext its own initialisation vector. -/
theorem nonces_unique_overwrite :
    NoncesUnique (Deployment.pair.builds
      (clientTurns false [.write [97] [50], .write [97] [49]])) :=
  nonces_unique .pair false [.write [97] [50], .write [97] [49]] (by decide +kernel)
    (by decide +kernel) (by decide +kernel) (by decide +kernel)

/-- Initialisation vectors can repeat.  Key `a` is written and deleted, key `c` takes over
its tombstone, and `a` is written again in an empty slot: its first and its second value
have the same one. -/
theorem nonce_reused :
    ¬ ∀ (d : Deployment) (cacheOn : Bool) (ms : List Mutation),
      Throughout (Succeeds d cacheOn) ms →
      IvInjective d.ssl (d.builds (clientTurns cacheOn ms)) →
      Throughout (NoWrap d) (clientTurns cacheOn ms) →
      NoncesUnique (d.builds (clientTurns cacheOn ms)) := by
  intro h
  have hunique := h .pair false
    [.write [97] [50], .write [99] [49], .delete [97], .write [97] [49]]
    (by decide +kernel) (by decide +kernel) (by decide +kernel)
  revert hunique
  decide +kernel

end TeeDist
