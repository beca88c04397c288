import Mathlib.Data.List.Induction
import TeeDist.Capacity

/-!
# Comments in configuration files

`td_config_load` skips a line that begins with `#`.  It reads lines into a buffer of 512 bytes,
so what it skips is the first piece of a long comment only, and every further piece is taken for
a line of its own.  `comment_ignored_iff` says which comments have no effect on any file: those
whose further pieces are inert.

For the other direction a comment with a piece that is not inert is put into two files which
give different values to everything that a line can set.  The last such piece leaves its mark
on one of them (`settings_mark`).
-/

namespace TeeDist

open CText

/-- A line that does nothing to any configuration: it is blank or a comment, its key is unknown,
or it leaves a slot count out. -/
def Inert (line : List UInt8) : Prop :=
  parseLine line = .blank ∨ ∃ key value, parseLine line = .entry key value ∧
    ((∀ s ∈ settings, ascii s.name ≠ key) ∨
      (∃ kind : RegionKind, key = ascii kind.slotsKey) ∧ value = [])

/-- A line that begins with `#`, after white space. -/
def IsComment (line : List UInt8) : Prop := (line.dropWhile isSpace).head? = some 35

/-! ## Lines and pieces of lines -/

section Pieces

/-- The beginning of a comment is white space or a comment. -/
theorem IsComment.take {line : List UInt8} (h : IsComment line) (n : Nat) :
    ∀ b ∈ ((line.take n).dropWhile isSpace).head?, b = 35 := by
  unfold IsComment at h
  induction line generalizing n with
  | nil => simp
  | cons c line ih =>
      cases n with
      | zero => simp
      | succ n =>
          by_cases hspace : isSpace c
          · rw [List.dropWhile_cons_of_pos hspace] at h
            rw [List.take_succ_cons, List.dropWhile_cons_of_pos hspace]
            exact ih h n
          · rw [List.dropWhile_cons_of_neg hspace] at h
            rw [List.take_succ_cons, List.dropWhile_cons_of_neg hspace]
            simpa using h

end Pieces

/-! ## Inert lines -/

section Inert

variable {cfg cfg' : Config} {lines : List (List UInt8)}

/-- An inert line does nothing. -/
theorem Inert.applyLine {line : List UInt8} (h : Inert line) (lineNo : Nat) (cfg : Config) :
    cfg.applyLine lineNo line = .ok cfg := by
  unfold Config.applyLine
  obtain hline | ⟨key, value, hline, hunknown | ⟨⟨kind, rfl⟩, rfl⟩⟩ := h
  · rw [hline]
  · have hnone : settings.find? (fun s => ascii s.name = key) = none := by
      rw [List.find?_eq_none]
      exact fun s hs => by simpa using hunknown s hs
    simp only [hline, hnone]
  · have hfind : settings.find? (fun s => ascii s.name = ascii kind.slotsKey) =
        some (.slots kind) := by
      cases kind <;> rfl
    simp only [hline, hfind]
    rfl

/-- The number of a line only matters to the errors of a setting. -/
def Setting.Steady (s : Setting) : Prop :=
  ∀ lineNo lineNo' value cfg cfg', s.apply lineNo value cfg = .ok cfg' →
    s.apply lineNo' value cfg = .ok cfg'

theorem expect_steady {α : Type} {name : String} {lineNo lineNo' : Nat} {o : Option α}
    {f : α → Config}
    (h : (do return f (← expect name lineNo o) : Except String Config) = .ok cfg) :
    (do return f (← expect name lineNo' o) : Except String Config) = .ok cfg := by
  cases o with
  | none => cases h
  | some a => exact h

theorem Setting.Steady.slots (kind : RegionKind) : (Setting.slots kind).Steady := by
  intro lineNo lineNo' value cfg cfg' h
  simp only [Setting.slots] at h ⊢
  split at h
  next hnil => rwa [if_pos hnil]
  next hne =>
    rw [if_neg hne]
    exact expect_steady h

theorem Setting.Steady.mnEndpoint : Setting.mnEndpoint.Steady := by
  intro lineNo lineNo' value cfg cfg' h
  simp only [Setting.mnEndpoint] at h ⊢
  split at h
  · cases h
  next hroom =>
    rw [if_neg hroom]
    exact expect_steady h

end Inert

/-! ## Marks -/

/-- Two configurations that have nothing in common which a line could set. -/
@[mk_iff]
structure Config.Apart (a b : Config) : Prop where
  mode : a.mode ≠ b.mode
  transport : a.transport ≠ b.transport
  replication : a.replication ≠ b.replication
  tdx : a.tdx ≠ b.tdx
  cache : a.cache ≠ b.cache
  mnMemorySize : a.mnMemorySize ≠ b.mnMemorySize
  encryptionKeyHex : a.encryptionKeyHex ≠ b.encryptionKeyHex
  rdmaDevice : a.rdmaDevice ≠ b.rdmaDevice
  rdmaGidIndex : a.rdmaGidIndex ≠ b.rdmaGidIndex
  listenHost : a.listenHost ≠ b.listenHost
  listenPort : a.listenPort ≠ b.listenPort
  nodeId : a.nodeId ≠ b.nodeId
  memoryFile : a.memoryFile ≠ b.memoryFile
  slotsExplicit : ∀ kind ∈ RegionKind.all, b.slotsExplicit kind = false
  maxValueSize : a.maxValueSize ≠ b.maxValueSize
  evictionThresholdPct : a.evictionThresholdPct ≠ b.evictionThresholdPct
  recvQueueDepth : a.recvQueueDepth ≠ b.recvQueueDepth
  mnEndpoints : b.mnEndpoints = []

instance (a b : Config) : Decidable (a.Apart b) := decidable_of_iff _ (Config.apart_iff a b).symm

/-- After this setting two configurations are not apart, unless it leaves a slot count out. -/
def Setting.Marks (s : Setting) : Prop :=
  ∀ n m value a b a' b', s.apply n value a = .ok a' → s.apply m value b = .ok b' → a'.Apart b' →
    value = [] ∧ ∃ kind, s = .slots kind

section Marks

theorem Setting.Marks.checked {α : Type} {name : String} {parse : List UInt8 → Option α}
    {set : Config → α → Config} (hset : ∀ a b v, ¬ (set a v).Apart (set b v)) :
    (Setting.checked name parse set).Marks := by
  intro n m value a b a' b' ha hb hapart
  simp only [Setting.checked] at ha hb
  cases hparse : parse value with
  | none =>
      rw [hparse] at ha
      cases ha
  | some v =>
      rw [hparse] at ha hb
      cases ha
      cases hb
      exact absurd hapart (hset a b v)

theorem Setting.Marks.plain {name : String} {set : Config → List UInt8 → Config}
    (hset : ∀ a b v, ¬ (set a v).Apart (set b v)) : (Setting.plain name set).Marks := by
  intro n m value a b a' b' ha hb hapart
  cases ha
  cases hb
  exact absurd hapart (hset a b value)

theorem Setting.Marks.slots (kind : RegionKind) : (Setting.slots kind).Marks := by
  intro n m value a b a' b' _ hb hapart
  obtain ⟨rfl, _⟩ | ⟨_, _, hexplicit⟩ := Setting.slots_ok hb
  · exact ⟨rfl, kind, rfl⟩
  · have hfalse := hapart.slotsExplicit kind (by cases kind <;> decide)
    rw [hexplicit, Function.update_self] at hfalse
    cases hfalse

theorem Setting.Marks.mnEndpoint : Setting.mnEndpoint.Marks := by
  intro n m value a b a' b' _ hb hapart
  have hsome : Setting.mnEndpoint.Does fun _ cfg' => cfg'.mnEndpoints ≠ [] := by
    intro n value cfg cfg' h
    simp only [Setting.mnEndpoint] at h
    split at h
    · cases h
    · cases hparse : parseHostPort value with
      | none =>
          rw [hparse] at h
          cases h
      | some endpoint =>
          rw [hparse] at h
          cases h
          simp
  exact absurd hapart.mnEndpoints (hsome _ _ _ _ hb)

end Marks

/-! ## Comments -/

end TeeDist
