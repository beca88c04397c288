import TeeDist.Config

/-!
# Endpoints

`td_parse_host_port` of `common.c` reads the value of `mn_endpoint`.  It copies the host into a
field of 64 bytes and takes the port with `atoi`, and it looks at neither of the two again.
`endpoint_faithful_iff` says which texts it takes for another endpoint than the one they name:
those with a host that does not fit, and those with a port that is no port although `atoi` finds
a number in it.
-/

namespace TeeDist

open CText

/-- A decimal numeral between 1 and 65535. -/
def IsPort (text : List UInt8) : Prop :=
  text ≠ [] ∧ (∀ b ∈ text, isDigit b) ∧ 1 ≤ decimal text ∧ decimal text ≤ 65535

/-- The text is a host and a port around its last colon, and the endpoint is what it says. -/
def Names (input : List UInt8) (endpoint : Endpoint) : Prop :=
  ∃ before after, input = before ++ 58 :: after ∧ 58 ∉ after ∧ endpoint.host = trim before ∧
    IsPort (trim after) ∧ endpoint.port = decimal (trim after)

/-- A text that is taken for another endpoint: it has a host and something `atoi` takes for a
positive number, but the host is longer than 63 bytes, or the number is no port. -/
def Mangled (input : List UInt8) : Prop :=
  input.length < 128 ∧ ∃ before after, input = before ++ 58 :: after ∧ 58 ∉ after ∧
    trim before ≠ [] ∧ 0 < atoi (trim after) ∧
    (63 < (trim before).length ∨ ¬ IsPort (trim after))

section Parse

variable {input before after : List UInt8} {endpoint : Endpoint}

/-- The last colon is in one place. -/
theorem lastColon_unique {before' after' : List UInt8} (h : input = before ++ 58 :: after)
    (hcolon : 58 ∉ after) (h' : input = before' ++ 58 :: after') (hcolon' : 58 ∉ after') :
    before = before' ∧ after = after' := by
  have heq := (splitLast_eq_some.mpr ⟨h, hcolon⟩).symm.trans (splitLast_eq_some.mpr ⟨h', hcolon'⟩)
  cases heq
  exact ⟨rfl, rfl⟩

/-- What is accepted, and as what. -/
theorem parseHostPort_eq_some :
    parseHostPort input = some endpoint ↔
      input.length < 128 ∧ ∃ before after, input = before ++ 58 :: after ∧ 58 ∉ after ∧
        trim before ≠ [] ∧ 0 < atoi (trim after) ∧
        endpoint = ⟨(trim before).take 63, atoi (trim after), -1⟩ := by
  have hhost : ∀ text : List UInt8, text.take 63 = [] ↔ text = [] := by
    intro text
    cases text <;> simp
  unfold parseHostPort
  constructor
  · intro h
    split at h
    · cases h
    next hlen =>
      refine ⟨by omega, ?_⟩
      split at h
      · cases h
      next before after hsplit =>
        obtain ⟨hinput, hcolon⟩ := splitLast_eq_some.mp hsplit
        obtain ⟨hgood, hstored⟩ := Option.ite_none_left_eq_some.mp h
        obtain ⟨hkept, hport⟩ := not_or.mp hgood
        exact ⟨before, after, hinput, hcolon, fun hnil => hkept ((hhost _).mpr hnil),
          Int.not_le.mp hport, (Option.some.inj hstored).symm⟩
  · rintro ⟨hlen, before, after, hinput, hcolon, hne, hport, rfl⟩
    rw [if_neg (by omega), splitLast_eq_some.mpr ⟨hinput, hcolon⟩]
    exact if_neg (not_or.mpr ⟨fun hnil => hne ((hhost _).mp hnil), Int.not_le.mpr hport⟩)

end Parse

/-- An accepted text names the endpoint that is stored, and a text that names none is rejected, if
and only if the text is not one that is mangled. -/
theorem endpoint_faithful_iff (input : List UInt8) :
    ((∀ endpoint, parseHostPort input = some endpoint → Names input endpoint) ∧
        ((¬ ∃ endpoint, Names input endpoint) → parseHostPort input = none)) ↔
      ¬ Mangled input := by
  constructor
  · rintro ⟨haccepts, -⟩ ⟨hlen, before, after, hinput, hcolon, hne, hport, hbad⟩
    obtain ⟨before', after', hinput', hcolon', hhost, hisPort, -⟩ := haccepts _
      (parseHostPort_eq_some.mpr ⟨hlen, before, after, hinput, hcolon, hne, hport, rfl⟩)
    obtain ⟨rfl, rfl⟩ := lastColon_unique hinput hcolon hinput' hcolon'
    obtain hlong | hnot := hbad
    · have hlength := congrArg List.length hhost
      rw [List.length_take] at hlength
      omega
    · exact hnot hisPort
  · intro hnot
    have haccepts : ∀ endpoint, parseHostPort input = some endpoint → Names input endpoint := by
      intro endpoint h
      obtain ⟨hlen, before, after, hinput, hcolon, hne, hport, rfl⟩ := parseHostPort_eq_some.mp h
      obtain ⟨hfits, hisPort⟩ : (trim before).length ≤ 63 ∧ IsPort (trim after) := by
        by_contra hbad
        refine hnot ⟨hlen, before, after, hinput, hcolon, hne, hport, ?_⟩
        rwa [not_and_or, Nat.not_le] at hbad
      refine ⟨before, after, hinput, hcolon, List.take_of_length_le hfits, hisPort, ?_⟩
      exact atoi_digits hisPort.2.1 (hisPort.2.2.2.trans_lt (by decide))
    refine ⟨haccepts, fun hnone => ?_⟩
    cases hparse : parseHostPort input with
    | none => rfl
    | some endpoint => exact absurd ⟨endpoint, haccepts endpoint hparse⟩ hnone

/-- A port with letters behind it is taken without them. -/
theorem endpoint_not_faithful :
    ¬ ∀ input, (∀ endpoint, parseHostPort input = some endpoint → Names input endpoint) ∧
      ((¬ ∃ endpoint, Names input endpoint) → parseHostPort input = none) := by
  intro h
  have hparse : parseHostPort (ascii "mn1:7001x") = some ⟨ascii "mn1", 7001, -1⟩ := by
    decide +kernel
  obtain ⟨before, after, hinput, hcolon, -, hisPort, -⟩ := (h _).1 _ hparse
  obtain ⟨rfl, rfl⟩ := lastColon_unique hinput hcolon
    (show _ = ascii "mn1" ++ 58 :: ascii "7001x" from rfl) (by decide)
  exact absurd (hisPort.2.1 120 (by decide +kernel)) (by decide)

end TeeDist
