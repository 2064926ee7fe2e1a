import Uniset.Core
import Mathlib.Data.List.TakeWhile
import Mathlib.Data.Nat.Digits.Defs
import Mathlib.Tactic.Common

/-! The three readings of a number from a text, and the texts on which they agree. -/

namespace Uniset

/-- It is written down a second time, for views of texts. -/
def uni_atoi_sv (s : String) : Int :=
  match s.toList with
  | '-' :: '0' :: 'x' :: cs => -from_chars 16 2147483648 2147483647 cs
  | '-' :: c :: cs => from_chars 10 2147483648 2147483647 ('-' :: c :: cs)
  | '0' :: 'x' :: c :: cs => toInt32 (from_chars 16 0 4294967295 (c :: cs))
  | cs => toInt32 (from_chars 10 0 4294967295 cs)

def isspace (c : Char) : Bool := c.toNat = 32 || (9 ≤ c.toNat && c.toNat ≤ 13)

/-- Too large a number becomes the largest one of 64 bits. -/
def atoll (cs : List Char) : Int :=
  match cs.dropWhile isspace with
  | '-' :: cs => max (-9223372036854775808) (-(leadingNumber 10 cs 0 : Int))
  | '+' :: cs => min 9223372036854775807 (leadingNumber 10 cs 0)
  | cs => min 9223372036854775807 (leadingNumber 10 cs 0)

/-- `sscanf` of `%x` behind the prefix; of 64 bits the low ones are stored. -/
def sscanf_x (cs : List Char) : Int := min 18446744073709551615 (leadingNumber 16 cs 0) % 4294967296

/-- The text up to its end, or none for a null pointer. -/
def uni_atoi_chars (str : Option (List Char)) : Int :=
  match str with
  | none => 0
  | some str =>
    let str := str.takeWhile (· ≠ '\x00')
    if 2 < str.length ∧ str[0]? = some '0' ∧ str[1]? = some 'x' then toInt32 (sscanf_x (str.drop 2))
    else toInt32 (atoll str % 4294967296)

/-! ## Digits -/

/-- The number that digits stand for, the highest one first. -/
def numberOf (base : Nat) (cs : List Char) : Nat :=
  Nat.ofDigits base (cs.reverse.map fun c => (digitValue base c).getD 0)

variable {base : Nat} {c : Char} {cs : List Char}

theorem numberOf_cons : numberOf base (c :: cs) =
    (digitValue base c).getD 0 * base ^ cs.length + numberOf base cs := by
  unfold numberOf
  rw [List.reverse_cons, List.map_append, Nat.ofDigits_append, List.length_map, List.length_reverse,
    List.map_singleton, Nat.ofDigits_singleton, Nat.mul_comm, Nat.add_comm]

theorem leadingNumber_digits (h : ∀ c ∈ cs, (digitValue base c).isSome) (n : Nat) :
    leadingNumber base cs n = n * base ^ cs.length + numberOf base cs := by
  induction cs generalizing n with
  | nil => simp [leadingNumber, numberOf]
  | cons c cs ih =>
    obtain ⟨hc, hcs⟩ := List.forall_mem_cons.mp h
    obtain ⟨d, hd⟩ := Option.isSome_iff_exists.mp hc
    rw [leadingNumber, hd, numberOf_cons, hd, Option.getD_some, List.length_cons]
    dsimp only
    rw [ih hcs, Nat.pow_succ, Nat.add_mul, Nat.add_assoc, Nat.mul_assoc, Nat.mul_comm base]

theorem leadingNumber_eq_numberOf (h : ∀ c ∈ cs, (digitValue base c).isSome) :
    leadingNumber base cs 0 = numberOf base cs := by
  rw [leadingNumber_digits h, Nat.zero_mul, Nat.zero_add]

theorem digit_range (h : (digitValue base c).isSome) : 48 ≤ c.toNat ∧ c.toNat ≤ 57 ∨
    97 ≤ c.toNat ∧ c.toNat ≤ 102 ∨ 65 ≤ c.toNat ∧ c.toNat ≤ 70 := by
  by_contra hnot
  obtain ⟨hdigit, hlower, hupper⟩ := (not_or.mp hnot).imp_right not_or.mp
  have hvalue : (if '0'.toNat ≤ c.toNat ∧ c.toNat ≤ '9'.toNat then c.toNat - '0'.toNat
      else if 'a'.toNat ≤ c.toNat ∧ c.toNat ≤ 'f'.toNat then c.toNat - 'a'.toNat + 10
      else if 'A'.toNat ≤ c.toNat ∧ c.toNat ≤ 'F'.toNat then c.toNat - 'A'.toNat + 10
      else base) = base :=
    (if_neg hdigit).trans ((if_neg hlower).trans (if_neg hupper))
  unfold digitValue at h
  dsimp only at h
  rw [hvalue, if_neg (Nat.lt_irrefl base)] at h
  cases h

/-- What no digit is, in any base. -/
theorem digit_ne {k : Char} (hk : k.toNat < 48 ∨ 102 < k.toNat) (h : (digitValue base c).isSome) :
    c ≠ k := by
  rintro rfl
  have hrange := digit_range h
  omega

theorem digit_not_isspace (h : (digitValue base c).isSome) : isspace c = false := by
  have hrange := digit_range h
  unfold isspace
  simp only [Bool.or_eq_false_iff, decide_eq_false_iff_not, Bool.and_eq_false_iff]
  omega

theorem digitValue_of_isDigit (h : c.isDigit = true) :
    digitValue 10 c = some (c.toNat - '0'.toNat) := by
  obtain ⟨hlow, hhigh⟩ := Char.isDigit_iff_toNat.mp h
  have hvalue : c.toNat - '0'.toNat < 10 := by
    change c.toNat ≤ 57 at hhigh
    change c.toNat - 48 < 10
    omega
  simp only [digitValue, hlow, hhigh, and_self, if_true, hvalue]

theorem leadingNumber_ofDigitChars (h : ∀ c ∈ cs, c.isDigit = true) (n : Nat) :
    leadingNumber 10 cs n = Nat.ofDigitChars 10 cs n := by
  induction cs generalizing n with
  | nil => simp [leadingNumber]
  | cons c cs ih =>
    obtain ⟨hc, hcs⟩ := List.forall_mem_cons.mp h
    rw [leadingNumber, digitValue_of_isDigit hc, Nat.ofDigitChars_cons]
    dsimp only
    rw [ih hcs, Nat.mul_comm]

theorem numberOf_toDigits (n : Nat) : numberOf 10 (Nat.toDigits 10 n) = n := by
  have hdigits : ∀ c ∈ Nat.toDigits 10 n, c.isDigit = true := fun c hc =>
    Nat.isDigit_of_mem_toDigits (by decide) (by decide) hc
  have hvalid : ∀ c ∈ Nat.toDigits 10 n, (digitValue 10 c).isSome := fun c hc => by
    rw [digitValue_of_isDigit (hdigits c hc)]
    rfl
  rw [← leadingNumber_eq_numberOf hvalid, leadingNumber_ofDigitChars hdigits,
    Nat.ofDigitChars_ten_toDigits]

/-! ## Texts of numbers -/

/-- A sign or none, and decimal digits or `0x` with hexadecimal ones. -/
structure NumberText where
  negative : Bool
  hex : Bool
  digits : List Char
  nonempty : digits ≠ []
  valid : ∀ c ∈ digits, (digitValue (if hex then 16 else 10) c).isSome

namespace NumberText

def chars (t : NumberText) : List Char :=
  (if t.negative then ['-'] else []) ++ (if t.hex then ['0', 'x'] else []) ++ t.digits

def text (t : NumberText) : String := .ofList t.chars

def magnitude (t : NumberText) : Nat := numberOf (if t.hex then 16 else 10) t.digits

def value (t : NumberText) : Int := if t.negative then -t.magnitude else t.magnitude

end NumberText

/-- Each of the three readings of the text gives the number. -/
structure ReadAs (s : String) (n : Int) : Prop where
  chars : uni_atoi_chars (some s.toList) = n
  string : uni_atoi s = n
  view : uni_atoi_sv s = n

/-! ## The readings of a text -/

theorem uni_atoi_sv_eq (s : String) : uni_atoi_sv s = uni_atoi s := rfl

theorem toInt32_eq_bmod (n : Int) : toInt32 (n % 4294967296) = n.bmod 4294967296 := by
  unfold toInt32
  rw [Int.bmod_def]
  split_ifs <;> omega

/-- Texts without a sign are read as an `unsigned int`. -/
theorem from_chars_unsigned {high : Nat} (hc : c ≠ '-')
    (hvalid : ∀ x ∈ c :: cs, (digitValue base x).isSome) (hhigh : numberOf base (c :: cs) ≤ high) :
    from_chars base 0 high (c :: cs) = numberOf base (c :: cs) := by
  unfold from_chars
  split
  · next heq => exact absurd (List.cons_eq_cons.mp heq).1 hc
  · rw [leadingNumber_eq_numberOf hvalid, if_pos hhigh]

theorem from_chars_negative {low high : Nat} (hvalid : ∀ c ∈ cs, (digitValue base c).isSome)
    (hlow : numberOf base cs ≤ low) :
    from_chars base low high ('-' :: cs) = -(numberOf base cs : Int) := by
  change (if leadingNumber base cs 0 ≤ low then _ else _) = _
  rw [leadingNumber_eq_numberOf hvalid, if_pos hlow]

theorem takeWhile_digits (hvalid : ∀ x ∈ cs, (digitValue base x).isSome) :
    cs.takeWhile (· ≠ '\x00') = cs :=
  List.takeWhile_eq_self_iff.mpr fun x hx =>
    decide_eq_true (digit_ne (.inl (by decide)) (hvalid x hx))

/-! ### Decimal digits -/

section Decimal

variable (hvalid : ∀ x ∈ c :: cs, (digitValue 10 x).isSome)

include hvalid

theorem uni_atoi_decimal (hhigh : numberOf 10 (c :: cs) ≤ 4294967295) :
    uni_atoi (.ofList (c :: cs)) = toInt32 (numberOf 10 (c :: cs)) := by
  have hsign : ∀ x ∈ c :: cs, x ≠ '-' := fun x hx => digit_ne (.inl (by decide)) (hvalid x hx)
  have hmark : ∀ x ∈ c :: cs, x ≠ 'x' := fun x hx => digit_ne (.inr (by decide)) (hvalid x hx)
  unfold uni_atoi
  rw [String.toList_ofList]
  split
  · next heq => exact absurd rfl (hsign '-' (heq ▸ List.mem_cons_self))
  · next heq => exact absurd rfl (hsign '-' (heq ▸ List.mem_cons_self))
  · next heq => exact absurd rfl (hmark 'x' (heq ▸ by simp))
  · rw [from_chars_unsigned (hsign c List.mem_cons_self) hvalid hhigh]

theorem uni_atoi_negative_decimal (hlow : numberOf 10 (c :: cs) ≤ 2147483648) :
    uni_atoi (.ofList ('-' :: c :: cs)) = -(numberOf 10 (c :: cs) : Int) := by
  have hmark : ∀ x ∈ c :: cs, x ≠ 'x' := fun x hx => digit_ne (.inr (by decide)) (hvalid x hx)
  unfold uni_atoi
  rw [String.toList_ofList]
  split
  · next heq =>
    cases heq
    exact absurd rfl (hmark 'x' (by simp))
  · next heq =>
    cases heq
    exact from_chars_negative hvalid hlow
  · next heq => cases heq
  · next hsecond _ => exact absurd rfl (hsecond c cs)

theorem atoll_decimal (hhigh : numberOf 10 (c :: cs) ≤ 4294967295) :
    atoll (c :: cs) = numberOf 10 (c :: cs) := by
  have hc := hvalid c List.mem_cons_self
  unfold atoll
  rw [List.dropWhile_cons_of_neg (by rw [digit_not_isspace hc]; exact Bool.false_ne_true)]
  split
  · next heq => exact absurd (List.cons_eq_cons.mp heq).1 (digit_ne (.inl (by decide)) hc)
  · next heq => exact absurd (List.cons_eq_cons.mp heq).1 (digit_ne (.inl (by decide)) hc)
  · rw [leadingNumber_eq_numberOf hvalid]
    omega

theorem atoll_negative_decimal (hlow : numberOf 10 (c :: cs) ≤ 2147483648) :
    atoll ('-' :: c :: cs) = -(numberOf 10 (c :: cs) : Int) := by
  change max (-9223372036854775808) (-(leadingNumber 10 (c :: cs) 0 : Int)) = _
  rw [leadingNumber_eq_numberOf hvalid]
  omega

theorem uni_atoi_chars_decimal (hhigh : numberOf 10 (c :: cs) ≤ 4294967295) :
    uni_atoi_chars (some (c :: cs)) = toInt32 (numberOf 10 (c :: cs)) := by
  have hmark : ∀ x ∈ c :: cs, x ≠ 'x' := fun x hx => digit_ne (.inr (by decide)) (hvalid x hx)
  unfold uni_atoi_chars
  dsimp only
  rw [takeWhile_digits hvalid, if_neg, atoll_decimal hvalid hhigh, Int.emod_eq_of_lt] <;> try omega
  rintro ⟨-, -, hx⟩
  exact hmark 'x' (List.mem_of_getElem? hx) rfl

theorem uni_atoi_chars_negative_decimal (hlow : numberOf 10 (c :: cs) ≤ 2147483648) :
    uni_atoi_chars (some ('-' :: c :: cs)) =
      toInt32 (-(numberOf 10 (c :: cs) : Int) % 4294967296) := by
  have hdash : ('-' :: c :: cs).takeWhile (· ≠ '\x00') = '-' :: c :: cs :=
    congrArg ('-' :: ·) (takeWhile_digits hvalid)
  unfold uni_atoi_chars
  dsimp only
  rw [hdash, if_neg, atoll_negative_decimal hvalid hlow]
  rintro ⟨-, hzero, -⟩
  cases hzero

end Decimal

/-! ### Hexadecimal digits -/

section Hexadecimal

variable (hvalid : ∀ x ∈ c :: cs, (digitValue 16 x).isSome)

include hvalid

theorem uni_atoi_hex (hhigh : numberOf 16 (c :: cs) ≤ 4294967295) :
    uni_atoi (.ofList ('0' :: 'x' :: c :: cs)) = toInt32 (numberOf 16 (c :: cs)) := by
  have hsign : c ≠ '-' := digit_ne (.inl (by decide)) (hvalid c List.mem_cons_self)
  unfold uni_atoi
  rw [String.toList_ofList]
  split
  · next heq => cases heq
  · next heq => cases heq
  · next heq =>
    cases heq
    rw [from_chars_unsigned hsign hvalid hhigh]
  · next hthird => exact absurd rfl (hthird c cs)

/-- The sign is read apart from the digits, as an `int` that has no sign. -/
theorem uni_atoi_negative_hex : uni_atoi (.ofList ('-' :: '0' :: 'x' :: c :: cs)) =
    if numberOf 16 (c :: cs) ≤ 2147483647 then -(numberOf 16 (c :: cs) : Int) else 0 := by
  have hsign : c ≠ '-' := digit_ne (.inl (by decide)) (hvalid c List.mem_cons_self)
  unfold uni_atoi
  rw [String.toList_ofList]
  split
  · next heq =>
    cases heq
    unfold from_chars
    split
    · next heq => exact absurd (List.cons_eq_cons.mp heq).1 hsign
    · rw [leadingNumber_eq_numberOf hvalid]
      split_ifs <;> omega
  · next hfirst heq =>
    cases heq
    exact (hfirst (c :: cs) rfl rfl).elim
  · next heq => cases heq
  · next hfirst _ _ => exact absurd rfl (hfirst (c :: cs))

theorem uni_atoi_chars_hex (hhigh : numberOf 16 (c :: cs) ≤ 4294967295) :
    uni_atoi_chars (some ('0' :: 'x' :: c :: cs)) = toInt32 (numberOf 16 (c :: cs)) := by
  have hall : ('0' :: 'x' :: c :: cs).takeWhile (· ≠ '\x00') = '0' :: 'x' :: c :: cs :=
    congrArg ('0' :: 'x' :: ·) (takeWhile_digits hvalid)
  have hlong : 2 < ('0' :: 'x' :: c :: cs).length := by simp
  unfold uni_atoi_chars
  dsimp only
  rw [hall, if_pos ⟨hlong, rfl, rfl⟩]
  have hdrop : ('0' :: 'x' :: c :: cs).drop 2 = c :: cs := rfl
  have hread : sscanf_x (c :: cs) = numberOf 16 (c :: cs) := by
    unfold sscanf_x
    rw [leadingNumber_eq_numberOf hvalid]
    omega
  rw [hdrop, hread]

/-- Nothing of the digits is read. -/
theorem uni_atoi_chars_negative_hex : uni_atoi_chars (some ('-' :: '0' :: 'x' :: c :: cs)) = 0 := by
  have hall : ('-' :: '0' :: 'x' :: c :: cs).takeWhile (· ≠ '\x00') = '-' :: '0' :: 'x' :: c :: cs :=
    congrArg ('-' :: '0' :: 'x' :: ·) (takeWhile_digits hvalid)
  unfold uni_atoi_chars
  dsimp only
  rw [hall, if_neg]
  · rfl
  · rintro ⟨-, hzero, -⟩
    cases hzero

end Hexadecimal

theorem ReadAs.of_chars {n : Int} (hchars : uni_atoi_chars (some cs) = n)
    (hstring : uni_atoi (.ofList cs) = n) : ReadAs (.ofList cs) n := by
  refine ⟨?_, hstring, (uni_atoi_sv_eq _).trans hstring⟩
  rw [String.toList_ofList]
  exact hchars

namespace NumberText

variable (t : NumberText)

/-- The value as an `int`. -/
def wrapped : Int := t.value.bmod 4294967296

variable {t}

theorem toInt32_magnitude (hvalue : t.value = t.magnitude) (hhigh : t.value ≤ 4294967295) :
    toInt32 t.magnitude = t.wrapped := by
  rw [wrapped, hvalue, ← toInt32_eq_bmod, Int.emod_eq_of_lt (by omega) (by omega)]

theorem wrapped_negative (hvalue : t.value = -t.magnitude) (hlow : -2147483648 ≤ t.value) :
    t.wrapped = -t.magnitude := by
  rw [wrapped, ← hvalue]
  exact Int.bmod_eq_of_le (by omega) (by omega)

/-- The three readings of a text give its value, unless it is a negative hexadecimal number. -/
theorem readAs_iff (hlow : -2147483648 ≤ t.value) (hhigh : t.value ≤ 4294967295) :
    ReadAs t.text t.wrapped ↔ (t.negative = true → t.hex = true → t.value = 0) := by
  obtain ⟨negative, hex, digits, hne, hvalid⟩ := t
  obtain ⟨c, cs, rfl⟩ := List.exists_cons_of_ne_nil hne
  cases negative with
  | false =>
    refine iff_of_true ?_ fun h => nomatch h
    cases hex with
    | false =>
      have hmagnitude := toInt32_magnitude (t := ⟨false, false, c :: cs, hne, hvalid⟩) rfl hhigh
      have hbound : numberOf 10 (c :: cs) ≤ 4294967295 := Int.ofNat_le.mp hhigh
      exact .of_chars ((uni_atoi_chars_decimal hvalid hbound).trans hmagnitude)
        ((uni_atoi_decimal hvalid hbound).trans hmagnitude)
    | true =>
      have hmagnitude := toInt32_magnitude (t := ⟨false, true, c :: cs, hne, hvalid⟩) rfl hhigh
      have hbound : numberOf 16 (c :: cs) ≤ 4294967295 := Int.ofNat_le.mp hhigh
      exact .of_chars ((uni_atoi_chars_hex hvalid hbound).trans hmagnitude)
        ((uni_atoi_hex hvalid hbound).trans hmagnitude)
  | true =>
    cases hex with
    | false =>
      refine iff_of_true ?_ fun _ h => nomatch h
      have hwrapped := wrapped_negative (t := ⟨true, false, c :: cs, hne, hvalid⟩) rfl hlow
      have hbound : numberOf 10 (c :: cs) ≤ 2147483648 := by
        have hlow : -2147483648 ≤ -(numberOf 10 (c :: cs) : Int) := hlow
        omega
      refine .of_chars ((uni_atoi_chars_negative_decimal hvalid hbound).trans ?_)
        ((uni_atoi_negative_decimal hvalid hbound).trans hwrapped.symm)
      exact toInt32_eq_bmod _
    | true =>
      have hwrapped := wrapped_negative (t := ⟨true, true, c :: cs, hne, hvalid⟩) rfl hlow
      rw [hwrapped]
      constructor
      · intro h _ _
        have hchars := h.chars
        rw [text, String.toList_ofList] at hchars
        exact hchars.symm.trans (uni_atoi_chars_negative_hex hvalid)
      · intro hzero
        have hzero : -(numberOf 16 (c :: cs) : Int) = 0 := hzero rfl rfl
        refine .of_chars ((uni_atoi_chars_negative_hex hvalid).trans hzero.symm) ?_
        exact (uni_atoi_negative_hex hvalid).trans (if_pos (by omega))

theorem isSome_of_mem_toDigits (n : Nat) : ∀ x ∈ Nat.toDigits 10 n, (digitValue 10 x).isSome := by
  intro x hx
  rw [digitValue_of_isDigit (Nat.isDigit_of_mem_toDigits (by decide) (by decide) hx)]
  rfl

/-- An integer as it is written. -/
def decimal (n : Int) : NumberText :=
  ⟨n < 0, false, Nat.toDigits 10 n.natAbs, Nat.toDigits_ne_nil, isSome_of_mem_toDigits n.natAbs⟩

theorem text_decimal (n : Int) : (decimal n).text = toString n := by
  rw [Int.toString_eq_repr, Int.repr_eq_if]
  change String.ofList ((if decide (n < 0) = true then ['-'] else []) ++ [] ++
    Nat.toDigits 10 n.natAbs) = _
  rw [List.append_nil]
  by_cases hneg : n < 0
  · have habs : (-n).toNat = n.natAbs := by omega
    rw [if_pos (decide_eq_true hneg), if_neg (by omega), habs, Nat.repr_eq_ofList_toDigits]
    exact String.ofList_append
  · have habs : n.toNat = n.natAbs := by omega
    rw [if_neg (by simpa using hneg), if_pos (by omega), habs, Nat.repr_eq_ofList_toDigits]
    rfl

theorem value_decimal (n : Int) : (decimal n).value = n := by
  have hmagnitude : (decimal n).magnitude = n.natAbs := numberOf_toDigits n.natAbs
  unfold value
  rw [hmagnitude]
  change (if decide (n < 0) = true then _ else _) = n
  simp only [decide_eq_true_eq]
  split_ifs <;> omega

theorem readAs_decimal {n : Int} (hlow : -2147483648 ≤ n) (hhigh : n ≤ 2147483647) :
    ReadAs (toString n) n := by
  have hvalue := value_decimal n
  have hwrapped : (decimal n).wrapped = n := by
    rw [wrapped, hvalue]
    exact Int.bmod_eq_of_le (by omega) (by omega)
  have hread := (readAs_iff (t := decimal n) (by omega) (by omega)).mpr fun _ h => nomatch h
  rwa [hwrapped, text_decimal] at hread

/-- The texts on which the three readings agree, among them what an `int` is written as. -/
theorem readings_agree_iff (t : NumberText) (hlow : -2147483648 ≤ t.value) (hhigh : t.value ≤ 4294967295) :
    (ReadAs t.text t.wrapped ↔ (t.negative = true → t.hex = true → t.value = 0)) ∧
      ∀ n : Int, -2147483648 ≤ n → n ≤ 2147483647 → ReadAs (toString n) n :=
  ⟨readAs_iff hlow hhigh, fun _ => readAs_decimal⟩

/-- `16` in hexadecimal digits, and `-16`. -/
def sixteen (negative : Bool) : NumberText :=
  ⟨negative, true, ['1', '0'], List.cons_ne_nil _ _,
    List.forall_mem_cons.mpr ⟨rfl, List.forall_mem_singleton.mpr rfl⟩⟩

abbrev minusSixteen : NumberText := sixteen true

/-- The text without the sign is read alike, the one with it is not. -/
theorem readings_agree_minusSixteen : ReadAs "0x10" 16 ∧
    ¬ReadAs minusSixteen.text minusSixteen.wrapped :=
  ⟨(readings_agree_iff (sixteen false) (by decide) (by decide)).1.mpr fun h => absurd h (by decide),
    fun h => absurd ((readings_agree_iff minusSixteen (by decide) (by decide)).1.mp h rfl rfl)
      (by decide)⟩

theorem not_readAs_minusSixteen : uni_atoi_chars (some "-0x10".toList) = 0 ∧ uni_atoi "-0x10" = -16 ∧
    ¬ ReadAs minusSixteen.text minusSixteen.wrapped := by
  refine ⟨by decide, by decide, fun h => ?_⟩
  exact absurd h.chars (by decide)

end NumberText

end Uniset
