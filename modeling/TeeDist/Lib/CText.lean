import Mathlib.Algebra.Order.Ring.Int
import Mathlib.Data.List.Basic
import Mathlib.Data.List.TakeWhile

/-!
# Text as C sees it

Strings of bytes, the character classes of the C locale, lines as `fgets` cuts them, and the
numbers `strtoull`, `strtol` and `atoi` read.  A string ends at its first zero byte.  The
machine is one with 64-bit `long` and 32-bit `int`, and the conversions are those of glibc.
-/

namespace CText

/-- The bytes of a text in ASCII. -/
def ascii (text : String) : List UInt8 := text.toList.map fun c => UInt8.ofNat c.toNat

/-! ## Characters -/

/-- `isspace`. -/
def isSpace (b : UInt8) : Bool := b == 32 || (9 ≤ b && b ≤ 13)

/-- `isdigit`. -/
def isDigit (b : UInt8) : Bool := 48 ≤ b && b ≤ 57

/-- `isalpha`. -/
def isAlpha (b : UInt8) : Bool := (65 ≤ b && b ≤ 90) || (97 ≤ b && b ≤ 122)

/-- `tolower`. -/
def toLower (b : UInt8) : UInt8 := if 65 ≤ b && b ≤ 90 then b + 32 else b

/-- The classes of a byte exclude each other. -/
theorem classes (b : UInt8) :
    (isDigit b → isSpace b = false ∧ isAlpha b = false ∧ b ≠ 43 ∧ b ≠ 45) ∧
      (isSpace b → isDigit b = false ∧ isAlpha b = false) ∧
      (isAlpha (toLower b) → isAlpha b ∧ isDigit b = false ∧ isSpace b = false) := by
  have hall : ∀ n < 256,
      (isDigit (UInt8.ofNat n) → isSpace (UInt8.ofNat n) = false ∧ isAlpha (UInt8.ofNat n) = false ∧
        UInt8.ofNat n ≠ 43 ∧ UInt8.ofNat n ≠ 45) ∧
      (isSpace (UInt8.ofNat n) → isDigit (UInt8.ofNat n) = false ∧ isAlpha (UInt8.ofNat n) = false) ∧
      (isAlpha (toLower (UInt8.ofNat n)) → isAlpha (UInt8.ofNat n) ∧
        isDigit (UInt8.ofNat n) = false ∧ isSpace (UInt8.ofNat n) = false) := by
    decide +kernel
  have hb := hall b.toNat b.toNat_lt
  rwa [UInt8.ofNat_toNat] at hb

/-! ## Strings -/

/-- A loop that scans a class stops where the class does. -/
theorem span_append {p : UInt8 → Bool} {xs : List UInt8} (hxs : ∀ b ∈ xs, p b) (ys : List UInt8)
    (hys : ∀ b ∈ ys.head?, p b = false) :
    (xs ++ ys).takeWhile p = xs ∧ (xs ++ ys).dropWhile p = ys := by
  rw [List.takeWhile_append_of_pos hxs, List.dropWhile_append_of_pos hxs]
  cases ys with
  | nil => simp
  | cons y ys => simp [hys y rfl]

/-- The string that starts a buffer. -/
def cString (buffer : List UInt8) : List UInt8 := buffer.takeWhile (· ≠ 0)

/-- A string without white space at its ends. -/
def trim (text : List UInt8) : List UInt8 :=
  ((text.dropWhile isSpace).reverse.dropWhile isSpace).reverse

/-- White space at the end is trimmed off. -/
theorem trim_append {space : List UInt8} (hspace : ∀ b ∈ space, isSpace b) (text : List UInt8) :
    trim (text ++ space) = trim text := by
  unfold trim
  rw [List.dropWhile_append]
  split
  next hnil =>
    rw [List.isEmpty_iff.mp hnil, List.dropWhile_eq_nil_iff.mpr hspace]
  next =>
    rw [List.reverse_append, List.dropWhile_append_of_pos]
    exact fun b hb => hspace b (List.mem_reverse.mp hb)

/-- White space at the beginning is trimmed off. -/
theorem append_trim {space : List UInt8} (hspace : ∀ b ∈ space, isSpace b) (text : List UInt8) :
    trim (space ++ text) = trim text := by
  unfold trim
  rw [List.dropWhile_append_of_pos hspace]

/-- A text that begins and ends with other bytes is not trimmed. -/
theorem trim_of_ends {text : List UInt8} (hfirst : ∀ b ∈ text.head?, isSpace b = false)
    (hlast : ∀ b ∈ text.getLast?, isSpace b = false) : trim text = text := by
  have hkeeps : ∀ {bytes : List UInt8}, (∀ b ∈ bytes.head?, isSpace b = false) →
      bytes.dropWhile isSpace = bytes := by
    intro bytes hhead
    have hspan := span_append (List.forall_mem_nil _) bytes hhead
    exact hspan.2
  unfold trim
  rw [hkeeps hfirst, hkeeps, List.reverse_reverse]
  rwa [List.head?_reverse]

/-- `strchr`: what stands before and after the first `b`, if there is one. -/
def splitFirst (b : UInt8) (text : List UInt8) : Option (List UInt8 × List UInt8) :=
  if b ∈ text then some (text.takeWhile (· ≠ b), (text.dropWhile (· ≠ b)).tail) else none

/-- `strrchr`: what stands before and after the last `b`, if there is one. -/
def splitLast (b : UInt8) (text : List UInt8) : Option (List UInt8 × List UInt8) :=
  (splitFirst b text.reverse).map fun (after, before) => (before.reverse, after.reverse)

theorem splitFirst_eq_some {b : UInt8} {text before after : List UInt8} :
    splitFirst b text = some (before, after) ↔ text = before ++ b :: after ∧ b ∉ before := by
  unfold splitFirst
  constructor
  · intro h
    split at h
    next hmem =>
      cases h
      have hne : text.dropWhile (· ≠ b) ≠ [] := by
        intro hnil
        rw [List.dropWhile_eq_nil_iff] at hnil
        exact of_decide_eq_true (hnil b hmem) rfl
      have hhead : (text.dropWhile (· ≠ b)).head hne = b := by
        simpa using List.head_dropWhile_not (· ≠ b) hne
      refine ⟨?_, fun hb => by simpa using List.mem_takeWhile_imp hb⟩
      have hcons := List.cons_head_tail hne
      rw [hhead] at hcons
      rw [hcons, List.takeWhile_append_dropWhile]
    next => cases h
  · rintro ⟨rfl, hb⟩
    have hbefore : ∀ x ∈ before, decide (x ≠ b) = true := by
      intro x hx
      exact decide_eq_true fun heq => hb (heq ▸ hx)
    obtain ⟨htake, hdrop⟩ := span_append hbefore (b :: after) (by simp)
    rw [if_pos (List.mem_append_right _ List.mem_cons_self), htake, hdrop, List.tail_cons]

theorem splitLast_eq_some {b : UInt8} {text before after : List UInt8} :
    splitLast b text = some (before, after) ↔ text = before ++ b :: after ∧ b ∉ after := by
  have hflip : splitLast b text = some (before, after) ↔
      splitFirst b text.reverse = some (after.reverse, before.reverse) := by
    unfold splitLast
    cases splitFirst b text.reverse with
    | none => simp
    | some parts =>
        simp only [Option.map_some, Option.some.injEq, Prod.ext_iff]
        rw [List.reverse_eq_iff, List.reverse_eq_iff, and_comm]
  rw [hflip, splitFirst_eq_some, List.mem_reverse, List.reverse_eq_iff]
  simp

/-- `strtok_r`: the first token between some delimiters, and what follows the one that ends it. -/
def strtok (delimiters : List UInt8) (text : List UInt8) : Option (List UInt8 × List UInt8) :=
  let text := text.dropWhile (· ∈ delimiters)
  if text = [] then none
  else some (text.takeWhile (· ∉ delimiters), (text.dropWhile (· ∉ delimiters)).tail)

theorem strtok_append {delimiters skipped token rest : List UInt8}
    (hskipped : ∀ b ∈ skipped, b ∈ delimiters) (htoken : ∀ b ∈ token, b ∉ delimiters)
    (hne : token ≠ []) (hrest : ∀ b ∈ rest.head?, b ∈ delimiters) :
    strtok delimiters (skipped ++ (token ++ rest)) = some (token, rest.tail) := by
  have hbegins : ∀ b ∈ (token ++ rest).head?, decide (b ∈ delimiters) = false := by
    cases token with
    | nil => exact absurd rfl hne
    | cons c token => simpa using htoken c List.mem_cons_self
  obtain ⟨_, hskip⟩ := span_append (p := (· ∈ delimiters)) (by simpa using hskipped) _ hbegins
  obtain ⟨htake, hdrop⟩ := span_append (p := (· ∉ delimiters)) (by simpa using htoken) rest
    (by simpa using hrest)
  unfold strtok
  simp only [hskip, htake, hdrop]
  rw [if_neg (by simp [hne])]

/-- There is no token among delimiters. -/
theorem strtok_eq_none {delimiters text : List UInt8} (h : ∀ b ∈ text, b ∈ delimiters) :
    strtok delimiters text = none := by
  have hnil : text.dropWhile (· ∈ delimiters) = [] := by simpa using h
  unfold strtok
  rw [hnil]
  rfl

/-- `snprintf` of a string into a buffer of `size` bytes. -/
def truncated (size : Nat) (text : List UInt8) : List UInt8 := text.take (size - 1)

/-- The lines that `fgets` reads with room for `room` bytes: up to a newline, and not more than
the room.  `left` is the room left for the line at hand. -/
def fgetsFrom (room : Nat) : Nat → List UInt8 → List UInt8 → List (List UInt8)
  | _, line, [] => if line = [] then [] else [line]
  | left, line, b :: rest =>
      if b = 10 ∨ left ≤ 1 then (line ++ [b]) :: fgetsFrom room room [] rest
      else fgetsFrom room (left - 1) (line ++ [b]) rest

/-- The lines a loop of `fgets` with a buffer of `size` bytes reads from a file. -/
def fgetsLines (size : Nat) (text : List UInt8) : List (List UInt8) :=
  fgetsFrom (size - 1) (size - 1) [] text

/-- A line that fits is read whole. -/
theorem fgetsFrom_line {room : Nat} {line rest : List UInt8} {left : Nat} (start : List UInt8)
    (hline : 10 ∉ line) (hleft : line.length < left) :
    fgetsFrom room left start (line ++ 10 :: rest) =
      (start ++ (line ++ [10])) :: fgetsFrom room room [] rest := by
  induction line generalizing left start with
  | nil => rw [List.nil_append, fgetsFrom, if_pos (.inl rfl), List.nil_append]
  | cons b line ih =>
      rw [List.length_cons] at hleft
      rw [List.mem_cons, not_or] at hline
      have hmore : ¬ (b = 10 ∨ left ≤ 1) := not_or.mpr ⟨Ne.symm hline.1, by omega⟩
      rw [List.cons_append, fgetsFrom, if_neg hmore, ih _ hline.2 (by omega)]
      rw [List.append_assoc, List.singleton_append, List.cons_append]

/-- A line begins after each newline. -/
theorem fgetsFrom_append {room : Nat} {rest : List UInt8} (before start : List UInt8) (left : Nat) :
    fgetsFrom room left start (before ++ 10 :: rest) =
      fgetsFrom room left start (before ++ [10]) ++ fgetsFrom room room [] rest := by
  induction before generalizing left start with
  | nil => simp [fgetsFrom]
  | cons b before ih =>
      rw [List.cons_append, List.cons_append, fgetsFrom, fgetsFrom]
      split
      · rw [ih, List.cons_append]
      · rw [ih]

/-- How many bytes `fgets` reads: a line with its newline, as far as there is room. -/
def fgetsLength (room : Nat) (text : List UInt8) : Nat :=
  min room ((text.takeWhile (· ≠ 10)).length + 1)

theorem fgetsFrom_eq_cons {room left : Nat} {text : List UInt8} (start : List UInt8)
    (hleft : 0 < left) (htext : text ≠ []) :
    fgetsFrom room left start text = (start ++ text.take (fgetsLength left text)) ::
      fgetsFrom room room [] (text.drop (fgetsLength left text)) := by
  induction text generalizing left start with
  | nil => exact absurd rfl htext
  | cons b text ih =>
      rw [fgetsFrom]
      split
      next hstop =>
        have hone : fgetsLength left (b :: text) = 1 := by
          unfold fgetsLength
          obtain rfl | hle := hstop
          · rw [List.takeWhile_cons_of_neg (by simp), List.length_nil]
            omega
          · omega
        rw [hone]
        rfl
      next hmore =>
        rw [not_or] at hmore
        have hlength : fgetsLength left (b :: text) = fgetsLength (left - 1) text + 1 := by
          unfold fgetsLength
          rw [List.takeWhile_cons_of_pos (by simp [hmore.1]), List.length_cons]
          omega
        rw [hlength, List.take_succ_cons, List.drop_succ_cons]
        cases text with
        | nil => simp [fgetsFrom]
        | cons c text =>
            rw [ih _ (by omega) (by simp), List.append_assoc]
            rfl

/-- A loop of `fgets` reads one line, and then the rest. -/
theorem fgetsLines_eq_cons {size : Nat} {text : List UInt8} (hsize : 1 < size) (htext : text ≠ []) :
    fgetsLines size text = text.take (fgetsLength (size - 1) text) ::
      fgetsLines size (text.drop (fgetsLength (size - 1) text)) :=
  fgetsFrom_eq_cons [] (by omega) htext

/-- What stands before a position in its line. -/
def lineBefore (text : List UInt8) (pos : Nat) : List UInt8 :=
  ((text.take pos).reverse.takeWhile (· ≠ 10)).reverse

/-- A position where `fgets` begins to read: a multiple of its room after the beginning of a
line. -/
def IsCut (room : Nat) (text : List UInt8) (pos : Nat) : Prop :=
  pos < text.length ∧ room ∣ (lineBefore text pos).length

/-- What `fgets` reads at a position. -/
def pieceAt (room : Nat) (text : List UInt8) (pos : Nat) : List UInt8 :=
  (text.drop pos).take (fgetsLength room (text.drop pos))

section Cuts

variable {room pos : Nat} {text : List UInt8}

theorem isCut_zero (htext : text ≠ []) : IsCut room text 0 :=
  ⟨List.length_pos_iff.mpr htext, Nat.dvd_zero room⟩

/-- What stands before a position further on in the same line. -/
theorem lineBefore_add {n : Nat} (h : 10 ∉ (text.drop pos).take n) :
    lineBefore text (pos + n) = lineBefore text pos ++ (text.drop pos).take n := by
  unfold lineBefore
  rw [List.take_add, List.reverse_append, List.takeWhile_append_of_pos, List.reverse_append,
    List.reverse_reverse]
  intro b hb
  exact decide_eq_true fun heq => h (heq ▸ List.mem_reverse.mp hb)

/-- Nothing stands before the beginning of a line. -/
theorem lineBefore_newline {n : Nat} {line : List UInt8} (h : (text.drop pos).take n = line ++ [10]) :
    lineBefore text (pos + n) = [] := by
  unfold lineBefore
  rw [List.take_add, h, ← List.append_assoc, List.reverse_append]
  rfl

/-- The bytes of a piece up to its newline. -/
theorem newline_not_mem_take {n : Nat} (h : n ≤ (text.takeWhile (· ≠ 10)).length) :
    10 ∉ text.take n := by
  have hline := List.prefix_iff_eq_take.mp (List.takeWhile_prefix (l := text) (· ≠ 10))
  have htake : text.take n = (text.takeWhile (· ≠ 10)).take n := by
    conv_rhs => rw [hline, List.take_take, Nat.min_eq_left h]
  rw [htake]
  intro hmem
  simpa using List.mem_takeWhile_imp (List.mem_of_mem_take hmem)

theorem length_pieceAt (room : Nat) (text : List UInt8) (pos : Nat) :
    (pieceAt room text pos).length =
      min (min room (((text.drop pos).takeWhile (· ≠ 10)).length + 1)) (text.length - pos) := by
  rw [pieceAt, fgetsLength, List.length_take, List.length_drop]

/-- A piece ends where the next one begins, or at the end of the text. -/
theorem IsCut.next (hroom : 0 < room) (h : IsCut room text pos) :
    0 < (pieceAt room text pos).length ∧
      (IsCut room text (pos + (pieceAt room text pos).length) ∨
        text.length = pos + (pieceAt room text pos).length) := by
  obtain ⟨hpos, hdvd⟩ := h
  have hlen := length_pieceAt room text pos
  refine ⟨by omega, ?_⟩
  obtain hend | hmore := Nat.eq_or_lt_of_le (show pos + (pieceAt room text pos).length ≤ text.length by
    omega)
  · exact .inr hend.symm
  refine .inl ⟨hmore, ?_⟩
  by_cases hlong : room ≤ ((text.drop pos).takeWhile (· ≠ 10)).length
  · have hroomLen : (pieceAt room text pos).length = room := by omega
    rw [hroomLen, lineBefore_add (newline_not_mem_take hlong), List.length_append, List.length_take,
      List.length_drop]
    have hmin : min room (text.length - pos) = room := by omega
    rw [hmin]
    exact Nat.dvd_add hdvd (Nat.dvd_refl room)
  · have hwhole : (pieceAt room text pos).length =
        ((text.drop pos).takeWhile (· ≠ 10)).length + 1 := by omega
    have hmem : 10 ∈ text.drop pos := by
      by_contra hnone
      have hall : (text.drop pos).takeWhile (· ≠ 10) = text.drop pos := by
        rw [List.takeWhile_eq_self_iff]
        exact fun b hb => decide_eq_true fun heq => hnone (heq ▸ hb)
      rw [hall, List.length_drop] at hwhole
      omega
    have hsplit := (splitFirst_eq_some.mp (if_pos hmem)).1
    have htake : (text.drop pos).take (pieceAt room text pos).length =
        (text.drop pos).takeWhile (· ≠ 10) ++ [10] := by
      rw [hwhole]
      refine (congrArg (List.take _) hsplit).trans ?_
      rw [List.take_length_add_append]
      rfl
    rw [lineBefore_newline htake]
    exact Nat.dvd_zero room

/-- There is no cut inside of a piece. -/
theorem IsCut.not_inside (h : IsCut room text pos) {q : Nat} (hq : pos < q)
    (hlt : q < pos + (pieceAt room text pos).length) : ¬ IsCut room text q := by
  rintro ⟨-, hdvd⟩
  obtain ⟨n, rfl⟩ := Nat.exists_eq_add_of_lt hq
  have hlen := length_pieceAt room text pos
  rw [Nat.add_assoc, lineBefore_add (newline_not_mem_take (by omega)), List.length_append,
    List.length_take, List.length_drop, Nat.dvd_add_right h.2] at hdvd
  have hle := Nat.le_of_dvd (by omega) hdvd
  omega

/-- A loop of `fgets` reads the piece at a position, and then the ones after it. -/
theorem fgetsLines_drop (hroom : 0 < room) (hpos : pos < text.length) :
    fgetsLines (room + 1) (text.drop pos) = pieceAt room text pos ::
      fgetsLines (room + 1) (text.drop (pos + (pieceAt room text pos).length)) := by
  have hne : text.drop pos ≠ [] := by
    rw [ne_eq, List.drop_eq_nil_iff]
    omega
  rw [fgetsLines_eq_cons (by omega) hne, Nat.add_sub_cancel, ← List.drop_drop]
  have hdrop : (text.drop pos).drop (fgetsLength room (text.drop pos)) =
      (text.drop pos).drop (pieceAt room text pos).length := by
    rw [pieceAt, List.length_take]
    obtain hle | hle := Nat.le_total (fgetsLength room (text.drop pos)) (text.drop pos).length
    · rw [Nat.min_eq_left hle]
    · rw [Nat.min_eq_right hle, List.drop_length, List.drop_eq_nil_of_le hle]
  rw [hdrop]
  rfl

end Cuts

/-! ## Numbers -/

/-- The number of some decimal digits. -/
def decimal (digits : List UInt8) : Nat := digits.foldl (fun n d => 10 * n + (d.toNat - 48)) 0

/-- The sign of a numeral, and what follows. -/
def signed : List UInt8 → Bool × List UInt8
  | 45 :: rest => (true, rest)
  | 43 :: rest => (false, rest)
  | rest => (false, rest)

/-- What `strtoull` gives back: the number, whether `errno` is set, and what `end` points at. -/
structure Strtoull where
  value : UInt64
  overflow : Bool
  rest : List UInt8

/-- `strtoull` in base 10.  A minus sign is taken modulo `2 ^ 64`. -/
def strtoull (text : List UInt8) : Strtoull :=
  let (negative, numeral) := signed (text.dropWhile isSpace)
  let digits := numeral.takeWhile isDigit
  if digits = [] then ⟨0, false, text⟩
  else if 2 ^ 64 ≤ decimal digits then ⟨0xffffffffffffffff, true, numeral.dropWhile isDigit⟩
  else
    ⟨if negative then 0 - UInt64.ofNat (decimal digits) else UInt64.ofNat (decimal digits), false,
      numeral.dropWhile isDigit⟩

/-- Digits have no sign, and nothing before or after them. -/
theorem scan_digits {digits : List UInt8} (hall : ∀ b ∈ digits, isDigit b) :
    signed (digits.dropWhile isSpace) = (false, digits) ∧ digits.takeWhile isDigit = digits ∧
      digits.dropWhile isDigit = [] := by
  obtain ⟨htake, hdrop⟩ := span_append hall [] (by simp)
  rw [List.append_nil] at htake hdrop
  refine ⟨?_, htake, hdrop⟩
  cases digits with
  | nil => rfl
  | cons d digits =>
      have hd := (classes d).1 (hall d List.mem_cons_self)
      rw [List.dropWhile_cons_of_neg (by simp [hd.1])]
      unfold signed
      split
      · simp_all
      · simp_all
      · rfl

/-- The number that some digits stand for. -/
theorem strtoull_digits {digits : List UInt8} (hne : digits ≠ []) (hall : ∀ b ∈ digits, isDigit b) :
    strtoull digits = if 2 ^ 64 ≤ decimal digits then ⟨0xffffffffffffffff, true, []⟩
      else ⟨UInt64.ofNat (decimal digits), false, []⟩ := by
  obtain ⟨hsigned, htake, hdrop⟩ := scan_digits hall
  unfold strtoull
  simp only [hsigned, htake, hdrop, if_neg hne, Bool.false_eq_true, if_false]

/-- `%llu`: a number in decimal digits. -/
def decimalText (n : Nat) : List UInt8 := ascii (toString n)

theorem decimalText_eq (n : Nat) :
    decimalText n = (Nat.toDigits 10 n).map fun c => UInt8.ofNat c.toNat := by
  rw [decimalText, ascii, Nat.toString_eq_repr, Nat.toList_repr]

/-- A digit as a byte. -/
theorem toNat_digit {n : Nat} {c : Char} (h : c ∈ Nat.toDigits 10 n) :
    (UInt8.ofNat c.toNat).toNat = c.toNat ∧ 48 ≤ c.toNat ∧ c.toNat ≤ 57 := by
  have hdigit := Nat.isDigit_of_mem_toDigits (by decide) (by decide) h
  rw [Char.isDigit_iff_toNat] at hdigit
  refine ⟨UInt8.toNat_ofNat_of_lt' ?_, hdigit⟩
  exact hdigit.2.trans_lt (by decide)

/-- The digits of a number are digits. -/
theorem isDigit_decimalText (n : Nat) : ∀ b ∈ decimalText n, isDigit b := by
  intro b hb
  rw [decimalText_eq, List.mem_map] at hb
  obtain ⟨c, hc, rfl⟩ := hb
  obtain ⟨hbyte, hlow, hhigh⟩ := toNat_digit hc
  simp only [isDigit, Bool.and_eq_true, decide_eq_true_eq, UInt8.le_iff_toNat_le, hbyte]
  exact ⟨hlow, hhigh⟩

/-- They stand for the number. -/
@[simp] theorem decimal_decimalText (n : Nat) : decimal (decimalText n) = n := by
  have hfold : ∀ (cs : List Char) (start : Nat), (∀ c ∈ cs, c ∈ Nat.toDigits 10 n) →
      (cs.map fun c => UInt8.ofNat c.toNat).foldl (fun n d => 10 * n + (d.toNat - 48)) start =
        Nat.ofDigitChars 10 cs start := by
    intro cs
    induction cs with
    | nil => exact fun start _ => rfl
    | cons c cs ih =>
        intro start hcs
        rw [List.forall_mem_cons] at hcs
        rw [List.map_cons, List.foldl_cons, ih _ hcs.2, Nat.ofDigitChars_cons, (toNat_digit hcs.1).1]
        rfl
  rw [decimalText_eq, decimal, hfold _ 0 fun c hc => hc, Nat.ofDigitChars_ten_toDigits]

theorem length_decimalText_le {n k : Nat} (hk : 0 < k) (h : n < 10 ^ k) :
    (decimalText n).length ≤ k := by
  rw [decimalText_eq, List.length_map, Nat.length_toDigits_le_iff (by decide) hk]
  exact h

theorem decimalText_ne_nil (n : Nat) : decimalText n ≠ [] := by
  rw [decimalText_eq]
  simp

/-- `strtol` in base 10, its value only. -/
def strtol (text : List UInt8) : Int :=
  let (negative, numeral) := signed (text.dropWhile isSpace)
  let n := decimal (numeral.takeWhile isDigit)
  if negative then max (-(n : Int)) (-2 ^ 63) else min (n : Int) (2 ^ 63 - 1)

/-- `atoi`: the low 32 bits of `strtol`. -/
def atoi (text : List UInt8) : Int := (strtol text).bmod (2 ^ 32)

/-- `atoi` gives a number that fits back. -/
theorem atoi_digits {digits : List UInt8} (hall : ∀ b ∈ digits, isDigit b)
    (hfits : decimal digits < 2 ^ 31) : atoi digits = decimal digits := by
  obtain ⟨hsigned, htake, _⟩ := scan_digits hall
  unfold atoi strtol
  simp only [hsigned, htake, Bool.false_eq_true, if_false]
  rw [min_eq_left (by omega)]
  exact Int.bmod_eq_of_le (by omega) (by omega)

end CText
