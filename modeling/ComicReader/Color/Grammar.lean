import Mathlib.Data.List.GetD
import ComicReader.Color.Digits

/-!
# The texts that are colours

A colour is meant to be six hexadecimal digits, in either case, with at most
one `0X` or `#` in front and spaces anywhere, and every other text is black.
`colorSpec` says so directly. Its channels are bytes, and it does not see the
case of a letter; both follow from the digits being all it reads.
-/

namespace ComicReader

open Lib

variable {U : UnicodeData}

/-! ## What is meant -/

def noSpaces (s : List Char) : List Char := s.filter (· ≠ ' ')

def SixDigits (ds : List Char) : Prop :=
  ds.length = 6 ∧ ∀ c ∈ ds, IsHexDigit c

instance {ds : List Char} : Decidable (SixDigits ds) :=
  inferInstanceAs (Decidable (_ ∧ ∀ c ∈ ds, _))

/-- The text behind one prefix `0X`, in either case, or `#`. -/
def digitPart (t : List Char) : List Char :=
  if ['0', 'x'] <+: t ∨ ['0', 'X'] <+: t then t.drop 2
  else if ['#'] <+: t then t.drop 1
  else t

/-- The digits of a text in the grammar. -/
def colorDigits (t : List Char) : Option (List Char) :=
  if SixDigits (digitPart t) then some (digitPart t) else none

/-- The value of the pair of digits that begins at `i`. -/
def channel (ds : List Char) (i : Nat) : Int :=
  16 * digitValue (ds.getD i '0') + digitValue (ds.getD (i + 1) '0')

def colorSpec (s : List Char) : Int × Int × Int :=
  match colorDigits (noSpaces s) with
  | some ds => (channel ds 0, channel ds 2, channel ds 4)
  | none => (0, 0, 0)

theorem not_isPrefix_of_digits {ds : List Char}
    (hds : ∀ c ∈ ds, IsHexDigit c) (target : List Char)
    (htarget : ∃ c ∈ target, ¬ IsHexDigit c) : ¬ target <+: ds := by
  obtain ⟨c, hc, hdigit⟩ := htarget
  exact fun h => hdigit (hds c (h.subset hc))

/-- The grammar, written out. -/
theorem colorDigits_eq_some {t ds : List Char} :
    colorDigits t = some ds ↔ SixDigits ds ∧
      (t = ds ∨ t = '0' :: 'x' :: ds ∨ t = '0' :: 'X' :: ds ∨
        t = '#' :: ds) := by
  constructor
  · intro h
    obtain ⟨hsix, rfl⟩ : SixDigits ds ∧ digitPart t = ds := by
      unfold colorDigits at h
      split_ifs at h with hsix
      obtain rfl := Option.some.inj h
      exact ⟨hsix, rfl⟩
    refine ⟨hsix, ?_⟩
    unfold digitPart
    split_ifs with hX hhash
    · rcases hX with ⟨rest, rfl⟩ | ⟨rest, rfl⟩
      · exact Or.inr (Or.inl rfl)
      · exact Or.inr (Or.inr (Or.inl rfl))
    · obtain ⟨rest, rfl⟩ := hhash
      exact Or.inr (Or.inr (Or.inr rfl))
    · exact Or.inl rfl
  · intro ⟨hsix, ht⟩
    have hpart : digitPart t = ds := by
      unfold digitPart
      rcases ht with rfl | rfl | rfl | rfl
      · have hx := not_isPrefix_of_digits hsix.2 ['0', 'x'] (by decide)
        have hX := not_isPrefix_of_digits hsix.2 ['0', 'X'] (by decide)
        have hhash := not_isPrefix_of_digits hsix.2 ['#'] (by decide)
        simp [hx, hX, hhash]
      all_goals simp
    rw [colorDigits, hpart, if_pos hsix]

theorem channel_range {ds : List Char} (hsix : SixDigits ds) {i : Nat}
    (hi : i + 1 < 6) : 0 ≤ channel ds i ∧ channel ds i ≤ 255 := by
  have hdigit : ∀ j < 6, digitValue (ds.getD j '0') < 16 := by
    intro j hj
    have hlt : j < ds.length := by rw [hsix.1]; exact hj
    rw [List.getD_eq_getElem?_getD, List.getElem?_eq_getElem hlt,
      Option.getD_some]
    exact (hsix.2 _ (List.getElem_mem hlt)).digitValue_lt
  have h₀ := hdigit i (by omega)
  have h₁ := hdigit (i + 1) hi
  unfold channel
  omega

/-- Every channel of a colour is a byte. -/
theorem colorSpec_range (s : List Char) :
    (0 ≤ (colorSpec s).1 ∧ (colorSpec s).1 ≤ 255) ∧
      (0 ≤ (colorSpec s).2.1 ∧ (colorSpec s).2.1 ≤ 255) ∧
      (0 ≤ (colorSpec s).2.2 ∧ (colorSpec s).2.2 ≤ 255) := by
  cases hs : colorDigits (noSpaces s) with
  | none => simp [colorSpec, hs]
  | some ds =>
      have hsix := (colorDigits_eq_some.mp hs).1
      simp only [colorSpec, hs]
      exact ⟨channel_range hsix (by omega), channel_range hsix (by omega),
        channel_range hsix (by omega)⟩

/-! ## Letter case -/

/-- The same character but for its case. -/
def SameLetter (U : UnicodeData) (c x : Char) : Prop :=
  c.toUpper = x.toUpper ∨
    (128 ≤ c.toNat ∧ 128 ≤ x.toNat ∧
      U.uppercaseMapping c = U.uppercaseMapping x)

instance {c x : Char} : Decidable (SameLetter U c x) :=
  inferInstanceAs (Decidable (_ ∨ _ ∧ _))

/-- Two texts that differ in the case of letters only. -/
def SameText (U : UnicodeData) (s t : List Char) : Prop :=
  List.Forall₂ (SameLetter U) s t

instance {s t : List Char} : Decidable (SameText U s t) :=
  inferInstanceAs (Decidable (List.Forall₂ (SameLetter U) s t))

theorem SameLetter.symm {c x : Char} (h : SameLetter U c x) :
    SameLetter U x c := by
  rcases h with h | ⟨hc, hx, h⟩
  · exact Or.inl h.symm
  · exact Or.inr ⟨hx, hc, h.symm⟩

theorem SameText.symm {s t : List Char} (h : SameText U s t) :
    SameText U t s := by
  induction h with
  | nil => exact List.Forall₂.nil
  | cons hcx _ ih => exact List.Forall₂.cons hcx.symm ih

theorem SameLetter.toUpper {c x : Char} (h : SameLetter U c x)
    (hc : c.toNat < 128) : c.toUpper = x.toUpper := by
  rcases h with h | ⟨hhigh, -, -⟩
  · exact h
  · omega

/-- An ASCII character that is no letter has no other case. -/
theorem SameLetter.eq_of_noLetter {c x : Char} (h : SameLetter U c x)
    (hc : c.toNat < 65) : x = c := by
  have hnat := congrArg Char.toNat (h.toUpper (by omega))
  rw [toNat_toUpper, toNat_toUpper] at hnat
  refine Char.toNat_inj.mp ?_
  split_ifs at hnat <;> omega

theorem SameLetter.eq_x_or_X {c x : Char} (h : SameLetter U c x)
    (hc : c = 'x' ∨ c = 'X') : x = 'x' ∨ x = 'X' := by
  have hx : c.toNat = 120 ∨ c.toNat = 88 := by
    rcases hc with rfl | rfl
    · exact Or.inl rfl
    · exact Or.inr rfl
  have hnat := congrArg Char.toNat (h.toUpper (by omega))
  rw [toNat_toUpper, toNat_toUpper] at hnat
  have hcase : x.toNat = 'x'.toNat ∨ x.toNat = 'X'.toNat := by
    rw [show 'x'.toNat = 120 from rfl, show 'X'.toNat = 88 from rfl]
    split_ifs at hnat <;> omega
  exact hcase.imp Char.toNat_inj.mp Char.toNat_inj.mp

theorem SameText.withoutSpaces {s t : List Char} (h : SameText U s t) :
    SameText U (noSpaces s) (noSpaces t) := by
  refine List.rel_filter (fun c x hcx => ?_) h
  have hspace : c = ' ' ↔ x = ' ' := by
    constructor
    · intro hc
      exact (hcx.eq_of_noLetter (by rw [hc]; decide)).trans hc
    · intro hx
      exact (hcx.symm.eq_of_noLetter (by rw [hx]; decide)).trans hx
  simp [hspace]

theorem SameText.digits {ds ds' : List Char} (h : SameText U ds ds')
    (hds : ∀ c ∈ ds, IsHexDigit c) :
    (∀ c ∈ ds', IsHexDigit c) ∧ ds'.map digitValue = ds.map digitValue := by
  refine digits_of_toUpper hds ?_
  induction h with
  | nil => rfl
  | @cons c x s t hcx _ ih =>
      obtain ⟨hc, hds⟩ := List.forall_mem_cons.mp hds
      rw [List.map_cons, List.map_cons, hcx.toUpper hc.ascii, ih hds]

/-- A text that differs from a colour in case only is a colour with the same
digits. -/
theorem SameText.sameDigits {t t' ds : List Char} (h : SameText U t t')
    (ht : colorDigits t = some ds) :
    ∃ ds', colorDigits t' = some ds' ∧
      ds'.map digitValue = ds.map digitValue := by
  obtain ⟨hsix, hform⟩ := colorDigits_eq_some.mp ht
  have hdigits : ∀ ds' : List Char, SameText U ds ds' →
      SixDigits ds' ∧ ds'.map digitValue = ds.map digitValue := by
    intro ds' hds'
    obtain ⟨hhex, hvalues⟩ := hds'.digits hsix.2
    exact ⟨⟨hds'.length_eq ▸ hsix.1, hhex⟩, hvalues⟩
  have hmark : ∀ c : Char, c = 'x' ∨ c = 'X' → t = '0' :: c :: ds →
      ∃ ds', SixDigits ds' ∧ ds'.map digitValue = ds.map digitValue ∧
        (t' = '0' :: 'x' :: ds' ∨ t' = '0' :: 'X' :: ds') := by
    intro c hc hform
    rw [hform] at h
    obtain ⟨x₀, t₁, h₀, h₁, rfl⟩ := List.forall₂_cons_left_iff.mp h
    obtain ⟨x₁, ds', hx₁, hds', rfl⟩ := List.forall₂_cons_left_iff.mp h₁
    obtain ⟨hsix', hvalues⟩ := hdigits ds' hds'
    obtain rfl := h₀.eq_of_noLetter (by decide)
    refine ⟨ds', hsix', hvalues, ?_⟩
    exact (hx₁.eq_x_or_X hc).imp (by rintro rfl; rfl) (by rintro rfl; rfl)
  rcases hform with hform | hform | hform | hform
  · obtain ⟨hsix', hvalues⟩ := hdigits t' (hform ▸ h)
    exact ⟨t', colorDigits_eq_some.mpr ⟨hsix', Or.inl rfl⟩, hvalues⟩
  · obtain ⟨ds', hsix', hvalues, ht'⟩ := hmark 'x' (Or.inl rfl) hform
    exact ⟨ds', colorDigits_eq_some.mpr
      ⟨hsix', Or.inr (ht'.imp_right Or.inl)⟩, hvalues⟩
  · obtain ⟨ds', hsix', hvalues, ht'⟩ := hmark 'X' (Or.inr rfl) hform
    exact ⟨ds', colorDigits_eq_some.mpr
      ⟨hsix', Or.inr (ht'.imp_right Or.inl)⟩, hvalues⟩
  · rw [hform] at h
    obtain ⟨x₀, ds', h₀, hds', rfl⟩ := List.forall₂_cons_left_iff.mp h
    obtain ⟨hsix', hvalues⟩ := hdigits ds' hds'
    obtain rfl := h₀.eq_of_noLetter (by decide)
    exact ⟨ds', colorDigits_eq_some.mpr
      ⟨hsix', Or.inr (Or.inr (Or.inr rfl))⟩, hvalues⟩

theorem channel_eq_of_map {ds ds' : List Char}
    (h : ds'.map digitValue = ds.map digitValue) (i : Nat) :
    channel ds' i = channel ds i := by
  have hget : ∀ (l : List Char) (j : Nat),
      digitValue (l.getD j '0') = (l.map digitValue).getD j 0 :=
    fun l _ => (List.getD_map l '0' digitValue).symm
  rw [channel, channel, hget, hget, hget, hget, h]

/-- A colour does not depend on the case of its letters. -/
theorem colorSpec_case {s t : List Char} (h : SameText U s t) :
    colorSpec s = colorSpec t := by
  have hnoSpaces := h.withoutSpaces
  cases hs : colorDigits (noSpaces s) with
  | some ds =>
      obtain ⟨ds', ht, hvalues⟩ := hnoSpaces.sameDigits hs
      simp only [colorSpec, hs, ht, channel_eq_of_map hvalues]
  | none =>
      cases ht : colorDigits (noSpaces t) with
      | none => simp only [colorSpec, hs, ht]
      | some ds =>
          obtain ⟨ds', hs', -⟩ := hnoSpaces.symm.sameDigits ht
          rw [hs] at hs'
          cases hs'

end ComicReader
