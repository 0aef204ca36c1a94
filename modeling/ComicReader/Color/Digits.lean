import ComicReader.Lib.Horner
import ComicReader.Source.ColorExtension

/-!
# Reading hexadecimal digits

The loop takes 48 off every byte and 7 more off a byte from 65 on, each time
around a multiplication by 16. The two offsets together are the `weight` of a
byte, and the loop is Horner evaluation of the weights. Nothing is checked, so
on text that is not ASCII the weights are whatever the bytes of the upper-cased
text are; on digits they are the digits' values.
-/

namespace ComicReader

open Lib

variable {U : UnicodeData}

/-- What a byte adds to the sum. -/
def weight (i : UInt8) : Int := if i ≥ 65 then i.toNat - 55 else i.toNat - 48

theorem hexByte_eq (sum : Int) (i : UInt8) :
    hexByte sum i = sum * 16 + weight i := by
  simp only [hexByte, weight]
  split <;> omega

/-- The loop, for any text. -/
theorem hexStringToDouble_eq_horner (s : List Char) :
    hexStringToDouble U s =
      horner 16 ((utf8 (uppercased U s)).map weight) := by
  have hbyte : hexByte = fun sum i => sum * 16 + weight i := by
    funext sum i
    exact hexByte_eq sum i
  rw [hexStringToDouble, hbyte, horner, List.foldl_map]

/-! ## ASCII text -/

/-- The weight of the byte of an ASCII character, after upper-casing. -/
def asciiWeight (n : Nat) : Int :=
  if n < 65 then n - 48 else if 97 ≤ n ∧ n ≤ 122 then n - 87 else n - 55

theorem ascii_bytes : ∀ n < 128,
    (String.utf8EncodeChar (Char.ofNat n).toUpper).map weight =
      [asciiWeight n] := by
  decide

theorem bytes_of_ascii {c : Char} (hc : c.toNat < 128) :
    (utf8 (U.uppercaseMapping c)).map weight = [asciiWeight c.toNat] := by
  have hbytes := ascii_bytes c.toNat hc
  rw [Char.ofNat_toNat] at hbytes
  rw [U.uppercase_ascii c hc, utf8, List.flatMap_singleton]
  exact hbytes

theorem hexStringToDouble_ascii {s : List Char}
    (hs : ∀ c ∈ s, c.toNat < 128) :
    hexStringToDouble U s =
      horner 16 (s.map fun c => asciiWeight c.toNat) := by
  rw [hexStringToDouble_eq_horner]
  refine congrArg _ ?_
  induction s with
  | nil => rfl
  | cons c s ih =>
      obtain ⟨hc, hs⟩ := List.forall_mem_cons.mp hs
      have hbytes := bytes_of_ascii (U := U) hc
      have hcons : utf8 (uppercased U (c :: s)) =
          utf8 (U.uppercaseMapping c) ++ utf8 (uppercased U s) := by
        simp [utf8, uppercased]
      rw [hcons, List.map_append, hbytes, ih hs]
      rfl

/-! ## Hexadecimal digits -/

section Search

variable {p : Char → Prop} [DecidablePred p] {s : List Char}

/- Only the characters of the text are tried. The general instances try every
character there is. -/

instance decidableForallMem : Decidable (∀ c ∈ s, p c) :=
  List.decidableBAll p s

instance decidableExistsMem : Decidable (∃ c ∈ s, p c) :=
  List.decidableBEx p s

end Search

def IsHexDigit (c : Char) : Prop :=
  (48 ≤ c.toNat ∧ c.toNat ≤ 57) ∨ (65 ≤ c.toNat ∧ c.toNat ≤ 70) ∨
    (97 ≤ c.toNat ∧ c.toNat ≤ 102)

instance {c : Char} : Decidable (IsHexDigit c) :=
  inferInstanceAs (Decidable (_ ∨ _ ∨ _))

def digitValue (c : Char) : Nat :=
  if c.toNat ≤ 57 then c.toNat - 48
  else if c.toNat ≤ 70 then c.toNat - 55
  else c.toNat - 87

theorem IsHexDigit.ascii {c : Char} (h : IsHexDigit c) : c.toNat < 128 := by
  unfold IsHexDigit at h
  omega

theorem IsHexDigit.digitValue_lt {c : Char} (h : IsHexDigit c) :
    digitValue c < 16 := by
  unfold IsHexDigit at h
  unfold digitValue
  split_ifs <;> omega

theorem IsHexDigit.asciiWeight {c : Char} (h : IsHexDigit c) :
    asciiWeight c.toNat = digitValue c := by
  unfold IsHexDigit at h
  unfold ComicReader.asciiWeight digitValue
  split_ifs <;> omega

theorem toNat_toUpper (c : Char) : c.toUpper.toNat =
    if 97 ≤ c.toNat ∧ c.toNat ≤ 122 then c.toNat - 32 else c.toNat := by
  have htable : ∀ n < 128, (Char.ofNat n).toUpper.toNat =
      if 97 ≤ n ∧ n ≤ 122 then n - 32 else n := by decide
  by_cases hc : c.toNat < 128
  · have h := htable c.toNat hc
    rwa [Char.ofNat_toNat] at h
  · have hlow : ¬ ('a'.val ≤ c.val ∧ c.val ≤ 'z'.val) := by
      intro h
      have hle : c.toNat ≤ 122 := h.2
      omega
    have hself : c.toUpper = c := dif_neg hlow
    rw [hself, if_neg (by omega)]

/-- A character that differs from a digit in case only is that digit. -/
theorem IsHexDigit.of_toUpper {c x : Char} (h : IsHexDigit c)
    (heq : c.toUpper = x.toUpper) :
    IsHexDigit x ∧ digitValue x = digitValue c := by
  have hnat := congrArg Char.toNat heq
  rw [toNat_toUpper, toNat_toUpper] at hnat
  unfold IsHexDigit at h ⊢
  unfold digitValue
  split_ifs at hnat ⊢ <;> omega

/-- On digits the function is Horner evaluation of their values. -/
theorem hexStringToDouble_digits {s : List Char}
    (hs : ∀ c ∈ s, IsHexDigit c) :
    hexStringToDouble U s =
      horner 16 (s.map fun c => (digitValue c : Int)) := by
  rw [hexStringToDouble_ascii fun c hc => (hs c hc).ascii]
  refine congrArg _ (List.map_congr_left fun c hc => ?_)
  exact (hs c hc).asciiWeight

theorem digits_of_toUpper {s t : List Char} (hs : ∀ c ∈ s, IsHexDigit c)
    (hst : s.map Char.toUpper = t.map Char.toUpper) :
    (∀ c ∈ t, IsHexDigit c) ∧ t.map digitValue = s.map digitValue := by
  induction s generalizing t with
  | nil =>
      cases t with
      | nil => exact ⟨hs, rfl⟩
      | cons x t => cases hst
  | cons c s ih =>
      cases t with
      | nil => cases hst
      | cons x t =>
          obtain ⟨hcx, hst⟩ := List.cons.inj hst
          obtain ⟨hc, hs⟩ := List.forall_mem_cons.mp hs
          obtain ⟨hx, hvalue⟩ := hc.of_toUpper hcx
          obtain ⟨ht, hvalues⟩ := ih hs hst
          refine ⟨List.forall_mem_cons.mpr ⟨hx, ht⟩, ?_⟩
          rw [List.map_cons, List.map_cons, hvalue, hvalues]

theorem hexStringToDouble_case {s t : List Char}
    (hs : ∀ c ∈ s, IsHexDigit c)
    (hst : s.map Char.toUpper = t.map Char.toUpper) :
    hexStringToDouble U s = hexStringToDouble U t := by
  obtain ⟨ht, hvalues⟩ := digits_of_toUpper hs hst
  have hcast : ∀ l : List Char, (l.map fun c => (digitValue c : Int)) =
      (l.map digitValue).map Nat.cast := by
    intro l
    rw [List.map_map]
    rfl
  rw [hexStringToDouble_digits hs, hexStringToDouble_digits ht, hcast, hcast,
    hvalues]

/-- The function splits over any concatenation of digits. -/
theorem hexStringToDouble_append {s t : List Char}
    (hs : ∀ c ∈ s, IsHexDigit c) (ht : ∀ c ∈ t, IsHexDigit c) :
    hexStringToDouble U (s ++ t) =
      hexStringToDouble U s * 16 ^ t.length + hexStringToDouble U t := by
  have hst : ∀ c ∈ s ++ t, IsHexDigit c :=
    List.forall_mem_append.mpr ⟨hs, ht⟩
  rw [hexStringToDouble_digits hst, hexStringToDouble_digits hs,
    hexStringToDouble_digits ht, List.map_append, horner_append,
    List.length_map]

theorem hexStringToDouble_leadingZeros {s : List Char}
    (hs : ∀ c ∈ s, IsHexDigit c) (k : Nat) :
    hexStringToDouble U (List.replicate k '0' ++ s) =
      hexStringToDouble U s := by
  have hzero : ∀ c ∈ List.replicate k '0', IsHexDigit c := by
    intro c hc
    rw [(List.mem_replicate.mp hc).2]
    decide
  have hzeros : ∀ c ∈ List.replicate k '0' ++ s, IsHexDigit c :=
    List.forall_mem_append.mpr ⟨hzero, hs⟩
  rw [hexStringToDouble_digits hzeros, hexStringToDouble_digits hs,
    List.map_append, List.map_replicate]
  exact horner_replicate_zero

/-! ## The digits of a number -/

theorem digitChar_spec : ∀ d < 16,
    IsHexDigit (Nat.digitChar d) ∧ digitValue (Nat.digitChar d) = d := by
  decide

theorem isHexDigit_of_mem_toDigits {n : Nat} :
    ∀ c ∈ Nat.toDigits 16 n, IsHexDigit c := by
  induction n using Nat.strongRecOn with
  | ind n ih =>
      intro c hc
      rcases Nat.lt_or_ge n 16 with hlt | hge
      · rw [Nat.toDigits_of_lt_base hlt, List.mem_singleton] at hc
        exact hc ▸ (digitChar_spec n hlt).1
      · rw [Nat.toDigits_of_base_le (by decide) hge] at hc
        rcases List.mem_append.mp hc with hc | hc
        · exact ih (n / 16) (by omega) c hc
        · rw [List.mem_singleton.mp hc]
          exact (digitChar_spec (n % 16) (by omega)).1

/-- The digits of a number evaluate to it. -/
theorem hexStringToDouble_toDigits (n : Nat) :
    hexStringToDouble U (Nat.toDigits 16 n) = n := by
  induction n using Nat.strongRecOn with
  | ind n ih =>
      have hdigit : ∀ d < 16,
          hexStringToDouble U [Nat.digitChar d] = d := by
        intro d hd
        rw [hexStringToDouble_digits (by simpa using (digitChar_spec d hd).1)]
        simp [horner, (digitChar_spec d hd).2]
      rcases Nat.lt_or_ge n 16 with hlt | hge
      · rw [Nat.toDigits_of_lt_base hlt]
        exact hdigit n hlt
      · have hmod : n % 16 < 16 := Nat.mod_lt n (by decide)
        rw [Nat.toDigits_of_base_le (by decide) hge,
          hexStringToDouble_append isHexDigit_of_mem_toDigits
            (by simpa using (digitChar_spec _ hmod).1),
          ih (n / 16) (by omega), hdigit _ hmod, List.length_singleton]
        omega

/-- On digits, of any number and in either case, `hexStringToDouble` is
base-16 evaluation. -/
theorem hexStringToDouble_base16 (U : UnicodeData) :
    (∀ s : List Char, (∀ c ∈ s, IsHexDigit c) →
      hexStringToDouble U s =
        ∑ i : Fin s.length,
          (digitValue s[i] : Int) * 16 ^ (s.length - 1 - i)) ∧
    (∀ (s : List Char) (k : Nat), (∀ c ∈ s, IsHexDigit c) →
      hexStringToDouble U (List.replicate k '0' ++ s) =
        hexStringToDouble U s) ∧
    (∀ s t : List Char, (∀ c ∈ s, IsHexDigit c) →
      s.map Char.toUpper = t.map Char.toUpper →
        hexStringToDouble U s = hexStringToDouble U t) ∧
    (∀ s t : List Char, (∀ c ∈ s, IsHexDigit c) → (∀ c ∈ t, IsHexDigit c) →
      hexStringToDouble U (s ++ t) =
        hexStringToDouble U s * 16 ^ t.length + hexStringToDouble U t) ∧
    ∀ n : Int, 0 ≤ n → hexStringToDouble U (stringRadix16 n) = n := by
  refine ⟨?_, fun s k hs => hexStringToDouble_leadingZeros hs k,
    fun s t hs hst => hexStringToDouble_case hs hst,
    fun s t hs ht => hexStringToDouble_append hs ht, ?_⟩
  · intro s hs
    rw [hexStringToDouble_digits hs, horner_map_eq_sum]
  · intro n hn
    rw [stringRadix16, if_neg (by omega), hexStringToDouble_toDigits]
    omega

def beginsWithAccent : List Nat → Bool
  | [] => false
  | u :: _ => 0x300 ≤ u && u < 0x370

theorem beginsWithAccent_ascii (u : Nat) (rest : List Nat) (hu : u < 128) :
    beginsWithAccent (u :: rest) = false := by
  have hlow : ¬ 0x300 ≤ u := by omega
  simp [beginsWithAccent, hlow]

/-- Tables that are right about ASCII, and about the combining accents. -/
def asciiUnicode : UnicodeData where
  uppercaseMapping c := [c.toUpper]
  combines := beginsWithAccent
  uppercase_ascii _ _ := rfl
  combines_nil := rfl
  combines_ascii := beginsWithAccent_ascii

theorem hexStringToDouble_base16_mixed :
    hexStringToDouble asciiUnicode ['0', 'f', 'F'] =
      hexStringToDouble asciiUnicode ['F'] * 16 +
        hexStringToDouble asciiUnicode ['f'] := by
  obtain ⟨-, hzeros, hcase, happend, -⟩ :=
    hexStringToDouble_base16 asciiUnicode
  have h := happend ['f'] ['F'] (by decide) (by decide)
  rw [hcase ['f'] ['F'] (by decide) (by decide)] at h
  rw [hcase ['f'] ['F'] (by decide) (by decide)]
  exact (hzeros ['f', 'F'] 1 (by decide)).trans h

end ComicReader
