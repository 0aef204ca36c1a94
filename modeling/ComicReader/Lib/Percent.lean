import Mathlib.Data.List.Basic

/-!
# Percent encoding, and lists of fields

`Percent.encode` writes bytes as text: a byte that is an allowed ASCII
character stands for itself, every other as `%` and two hexadecimal digits.
The only thing the allowed set has to leave out for `decode` to read the bytes
back is `%` itself. What the set leaves out besides `%` and the digits does not
occur in the encoding, and that is what makes separators of such characters
safe.

A field list is text again: pairs written `key=value` and joined by a
separator. `fields` splits at every separator and each piece at its first
equals sign, so it reads back pairs with neither separator nor equals sign in
the key and no separator in the value, and what it reads from two texts joined
by the separator is what it reads from the one and then from the other.
-/

namespace ComicReader.Lib

namespace Percent

/-- The upper case hexadecimal digit. -/
def digit (n : Nat) : Char :=
  Char.ofNat (if n < 10 then n + 48 else n + 55)

def value (c : Char) : Option Nat :=
  if '0' ≤ c ∧ c ≤ '9' then some (c.toNat - 48)
  else if 'A' ≤ c ∧ c ≤ 'F' then some (c.toNat - 55)
  else none

theorem value_digit {n : Nat} (h : n < 16) : value (digit n) = some n := by
  have hall : ∀ n < 16, value (digit n) = some n := by decide
  exact hall n h

def encodeByte (allowed : Char → Bool) (b : UInt8) : List Char :=
  if b.toNat < 128 ∧ allowed (Char.ofNat b.toNat) then
    [Char.ofNat b.toNat]
  else ['%', digit (b.toNat / 16), digit (b.toNat % 16)]

def encode (allowed : Char → Bool) (bs : List UInt8) : List Char :=
  bs.flatMap (encodeByte allowed)

/-- `none` for text with a `%` that two digits do not follow, or with a
character that is not ASCII. -/
def decode : List Char → Option (List UInt8)
  | [] => some []
  | '%' :: hi :: lo :: cs =>
      match value hi, value lo with
      | some x, some y =>
          (decode cs).map fun bs => UInt8.ofNat (16 * x + y) :: bs
      | _, _ => none
  | c :: cs =>
      if c ≠ '%' ∧ c.toNat < 128 then
        (decode cs).map fun bs => UInt8.ofNat c.toNat :: bs
      else none

section

variable {allowed : Char → Bool}

theorem decode_escaped (b : UInt8) (cs : List Char) :
    decode ('%' :: digit (b.toNat / 16) :: digit (b.toNat % 16) :: cs) =
      (decode cs).map fun bs => b :: bs := by
  have hb := b.toNat_lt
  rw [decode, value_digit (by omega), value_digit (by omega)]
  show (decode cs).map
    (fun bs => UInt8.ofNat (16 * (b.toNat / 16) + b.toNat % 16) :: bs) = _
  rw [show 16 * (b.toNat / 16) + b.toNat % 16 = b.toNat by omega,
    UInt8.ofNat_toNat]

theorem decode_plain {c : Char} (hc : c ≠ '%') (hlt : c.toNat < 128)
    (cs : List Char) :
    decode (c :: cs) =
      (decode cs).map fun bs => UInt8.ofNat c.toNat :: bs := by
  rw [decode.eq_def]
  split
  · contradiction
  · next heq =>
      exact absurd (List.cons.inj heq).1 hc
  · next heq =>
      obtain ⟨rfl, rfl⟩ := List.cons.inj heq
      exact if_pos ⟨hc, hlt⟩

theorem toNat_ofNat_of_lt {n : Nat} (h : n < 128) :
    (Char.ofNat n).toNat = n := by
  have hall : ∀ n < 128, (Char.ofNat n).toNat = n := by decide
  exact hall n h

theorem decode_encodeByte (hpercent : allowed '%' = false) (b : UInt8)
    (cs : List Char) :
    decode (encodeByte allowed b ++ cs) =
      (decode cs).map fun bs => b :: bs := by
  unfold encodeByte
  split
  · next h =>
      have hc : Char.ofNat b.toNat ≠ '%' := by
        intro heq
        rw [heq, hpercent] at h
        exact absurd h.2 (by simp)
      have hnat := toNat_ofNat_of_lt h.1
      rw [List.cons_append, List.nil_append, decode_plain hc (by omega), hnat,
        UInt8.ofNat_toNat]
  · exact decode_escaped b cs

/-- What was encoded is read back. -/
theorem decode_encode (hpercent : allowed '%' = false) (bs : List UInt8) :
    decode (encode allowed bs) = some bs := by
  induction bs with
  | nil => rfl
  | cons b bs ih =>
      rw [encode, List.flatMap_cons, decode_encodeByte hpercent, ← encode, ih,
        Option.map_some]

theorem encode_injective (hpercent : allowed '%' = false) {bs bs' : List UInt8}
    (h : encode allowed bs = encode allowed bs') : bs = bs' := by
  have hdecode := congrArg decode h
  rw [decode_encode hpercent, decode_encode hpercent] at hdecode
  exact Option.some.inj hdecode

/-- The characters an encoding is made of. -/
def IsDigit (c : Char) : Prop := ∃ n < 16, c = digit n

instance {c : Char} : Decidable (IsDigit c) :=
  inferInstanceAs (Decidable (∃ n < 16, c = digit n))

theorem mem_encode {bs : List UInt8} {c : Char} (h : c ∈ encode allowed bs) :
    allowed c ∨ c = '%' ∨ IsDigit c := by
  obtain ⟨b, -, hc⟩ := List.mem_flatMap.mp h
  have hb := b.toNat_lt
  unfold encodeByte at hc
  split at hc
  · next hplain =>
      rw [List.mem_singleton.mp hc]
      exact Or.inl hplain.2
  · simp only [List.mem_cons, List.not_mem_nil, or_false] at hc
    rcases hc with rfl | rfl | rfl
    · exact Or.inr (Or.inl rfl)
    · exact Or.inr (Or.inr ⟨b.toNat / 16, by omega, rfl⟩)
    · exact Or.inr (Or.inr ⟨b.toNat % 16, by omega, rfl⟩)

theorem not_mem_encode {bs : List UInt8} {c : Char} (hc : allowed c = false)
    (hpercent : c ≠ '%') (hdigit : ¬ IsDigit c) : c ∉ encode allowed bs := by
  intro h
  rcases mem_encode h with h | h | h
  · rw [hc] at h
    cases h
  · exact hpercent h
  · exact hdigit h

end

end Percent

/-! ## Fields -/

section

variable {α : Type _} {sep eq : α}

/-- The text of one pair. -/
def field (eq : α) (x : List α × List α) : List α := x.1 ++ eq :: x.2

def joinFields (sep eq : α) (xs : List (List α × List α)) : List α :=
  [sep].intercalate (xs.map (field eq))

theorem mem_joinFields {xs : List (List α × List α)} {a : α}
    (h : a ∈ joinFields sep eq xs) :
    a = sep ∨ a = eq ∨ ∃ x ∈ xs, a ∈ x.1 ∨ a ∈ x.2 := by
  induction xs with
  | nil => cases h
  | cons x xs ih =>
      have hfield : a ∈ field eq x →
          a = sep ∨ a = eq ∨ ∃ y ∈ x :: xs, a ∈ y.1 ∨ a ∈ y.2 := by
        intro h
        have hx : x ∈ x :: xs := List.mem_cons_self
        rcases List.mem_append.mp h with h | h
        · exact Or.inr (Or.inr ⟨x, hx, Or.inl h⟩)
        · rcases List.mem_cons.mp h with h | h
          · exact Or.inr (Or.inl h)
          · exact Or.inr (Or.inr ⟨x, hx, Or.inr h⟩)
      cases xs with
      | nil =>
          rw [joinFields, List.map_singleton, List.intercalate_singleton] at h
          exact hfield h
      | cons y ys =>
          rw [joinFields, List.map_cons, List.map_cons,
            List.intercalate_cons_cons, List.append_assoc] at h
          rcases List.mem_append.mp h with h | h
          · exact hfield h
          · rcases List.mem_append.mp h with h | h
            · exact Or.inl (List.mem_singleton.mp h)
            · rcases ih h with hsep | heq | ⟨z, hz, hmem⟩
              · exact Or.inl hsep
              · exact Or.inr (Or.inl heq)
              · exact Or.inr (Or.inr ⟨z, List.mem_cons_of_mem x hz, hmem⟩)

variable [DecidableEq α]

/-- Splits at the first `eq`. Without one, the value is empty. -/
def splitField (eq : α) (l : List α) : List α × List α :=
  (l.takeWhile (· ≠ eq), (l.dropWhile (· ≠ eq)).tail)

def fields (sep eq : α) (l : List α) : List (List α × List α) :=
  (l.splitOn sep).map (splitField eq)

theorem splitField_field {x : List α × List α} (h : eq ∉ x.1) :
    splitField eq (field eq x) = x := by
  have hkey : ∀ a ∈ x.1, decide (a ≠ eq) = true := by
    intro a ha
    exact decide_eq_true fun heq => h (heq ▸ ha)
  refine Prod.ext ?_ ?_
  · show (x.1 ++ eq :: x.2).takeWhile (· ≠ eq) = x.1
    rw [List.takeWhile_append_of_pos hkey]
    simp
  · show ((x.1 ++ eq :: x.2).dropWhile (· ≠ eq)).tail = x.2
    rw [List.dropWhile_append_of_pos hkey]
    simp

theorem fields_joinFields (hne : sep ≠ eq) {xs : List (List α × List α)}
    (hxs : xs ≠ []) (hkey : ∀ x ∈ xs, sep ∉ x.1 ∧ eq ∉ x.1)
    (hvalue : ∀ x ∈ xs, sep ∉ x.2) :
    fields sep eq (joinFields sep eq xs) = xs := by
  have hsep : ∀ l ∈ xs.map (field eq), sep ∉ l := by
    intro l hl
    obtain ⟨x, hx, rfl⟩ := List.mem_map.mp hl
    have hval := hvalue x hx
    have hk := (hkey x hx).1
    simp only [field, List.mem_append, List.mem_cons, not_or]
    exact ⟨hk, hne, hval⟩
  have hnil : xs.map (field eq) ≠ [] := by simpa using hxs
  rw [fields, joinFields, List.splitOn_intercalate sep hsep hnil,
    List.map_map]
  refine (List.map_congr_left fun x hx => ?_).trans (List.map_id xs)
  exact splitField_field (hkey x hx).2

theorem fields_append (l l' : List α) :
    fields sep eq (l ++ sep :: l') = fields sep eq l ++ fields sep eq l' := by
  rw [fields, List.splitOn_append_cons_of_beq _ _ (beq_self_eq_true sep),
    List.map_append]
  rfl

end

end ComicReader.Lib
